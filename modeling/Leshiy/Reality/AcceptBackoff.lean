import Leshiy.Lib.Duration
import Leshiy.Lib.Run
import Mathlib.Algebra.GroupWithZero.Nat
import Mathlib.Data.List.DropRight

/-!
# Backoff of a failing accept

`AcceptBackoff` (`leshiy-reality/src/acceptloop.rs`) slows a listener down while `accept` fails, and keeps
its log quiet. A run of failures ends with a success. Times are nanoseconds since some instant.
-/

namespace Leshiy.Reality

open Leshiy.Lib

def BASE_DELAY : Duration := ⟨0, 5000000⟩

def MAX_DELAY : Duration := ⟨1, 0⟩

def LOG_EVERY : Duration := ⟨30, 0⟩

/-- `saturating_add(1)` on a counter with this maximum. -/
def saturatingSucc (max n : Nat) : Nat := min (n + 1) max

def U32_MAX : Nat := 4294967295

def U64_MAX : Nat := 18446744073709551615

/-- What the caller should do about one failed `accept()`. -/
structure AcceptFailure where
  delay : Duration
  /-- The number of failures since the last logged one, if this one is logged. -/
  logSuppressed : Option Nat
  deriving DecidableEq, Repr

structure AcceptBackoff where
  consecutive : Nat
  lastLogged : Option Nat
  suppressed : Nat
  deriving DecidableEq, Repr

namespace AcceptBackoff

def new : AcceptBackoff := ⟨0, none, 0⟩

def recordSuccess (_ : AcceptBackoff) : AcceptBackoff := ⟨0, none, 0⟩

def delay (consecutive : Nat) : Duration :=
  (BASE_DELAY.saturatingMul (1 <<< min consecutive 20)).min MAX_DELAY

/-- A failure at this time is logged. -/
def due (b : AcceptBackoff) (now : Nat) : Bool :=
  match b.lastLogged with
  | none => true
  | some t => decide (LOG_EVERY.asNanos ≤ now - t)

def recordFailure (b : AcceptBackoff) (now : Nat) : AcceptFailure × AcceptBackoff :=
  let delay := delay b.consecutive
  let consecutive := saturatingSucc U32_MAX b.consecutive
  if b.due now then (⟨delay, some b.suppressed⟩, ⟨consecutive, some now, 0⟩)
  else (⟨delay, none⟩, ⟨consecutive, b.lastLogged, saturatingSucc U64_MAX b.suppressed⟩)

/-! ## Delays -/

theorem asNanos_delay (n : Nat) :
    (delay n).asNanos = min (BASE_DELAY.asNanos * 2 ^ n) MAX_DELAY.asNanos := by
  have hsmall : ∀ n ∈ List.range 21,
      (delay n).asNanos = min (BASE_DELAY.asNanos * 2 ^ n) MAX_DELAY.asNanos := by decide
  by_cases hn : n ≤ 20
  · exact hsmall n (List.mem_range.mpr (by omega))
  · have hcap : delay n = delay 20 := by rw [delay, delay, Nat.min_eq_right (by omega), Nat.min_self]
    have hpow : 2 ^ 20 ≤ 2 ^ n := Nat.pow_le_pow_right (by omega) (by omega)
    have hlarge : MAX_DELAY.asNanos ≤ BASE_DELAY.asNanos * 2 ^ n :=
      Nat.le_trans (show MAX_DELAY.asNanos ≤ BASE_DELAY.asNanos * 2 ^ 20 by decide)
        (Nat.mul_le_mul_left _ hpow)
    calc (delay n).asNanos = (delay 20).asNanos := by rw [hcap]
      _ = MAX_DELAY.asNanos := by decide
      _ = min (BASE_DELAY.asNanos * 2 ^ n) MAX_DELAY.asNanos := (Nat.min_eq_right hlarge).symm

/-- The counter is large enough not to be seen in the delays when it stands still. -/
theorem delay_min (n : Nat) : delay (min n U32_MAX) = delay n := by
  have hmin : min (min n U32_MAX) 20 = min n 20 := by
    rw [U32_MAX]
    omega
  rw [delay, delay, hmin]

theorem delay_bounds (n : Nat) :
    BASE_DELAY.asNanos ≤ (delay n).asNanos ∧ (delay n).asNanos ≤ MAX_DELAY.asNanos := by
  rw [asNanos_delay]
  refine ⟨Nat.le_min.mpr ⟨Nat.le_mul_of_pos_right _ (Nat.two_pow_pos n), by decide⟩, Nat.min_le_right _ _⟩

/-! ## Runs of failures -/

inductive Act where
  | failure (now : Nat)
  | success
  deriving DecidableEq, Repr

/-- A failure that was recorded. -/
structure Failed where
  time : Nat
  outcome : AcceptFailure
  deriving DecidableEq, Repr

/-- The backoff and the clock, which does not go back. -/
structure Clocked where
  backoff : AcceptBackoff
  clock : Nat
  deriving DecidableEq, Repr

def step (s : Clocked) : Act → Option (Clocked × List Failed)
  | .failure now =>
    if s.clock ≤ now then
      let r := s.backoff.recordFailure now
      some (⟨r.2, now⟩, [⟨now, r.1⟩])
    else none
  | .success => some (⟨s.backoff.recordSuccess, s.clock⟩, [])

/-- The failures since the last success. -/
def failures (log : List (Taken Clocked Act Failed)) : List Failed :=
  log.foldl (fun fs t => match t.act with
    | .failure _ => fs ++ t.ev
    | .success => []) []

theorem failures_snoc_failure {log : List (Taken Clocked Act Failed)} {s : Clocked} {now : Nat}
    {ev : List Failed} : failures (log ++ [⟨s, .failure now, ev⟩]) = failures log ++ ev := by
  rw [failures, List.foldl_append]
  rfl

theorem failures_snoc_success {log : List (Taken Clocked Act Failed)} {s : Clocked} {ev : List Failed} :
    failures (log ++ [⟨s, .success, ev⟩]) = [] := by
  rw [failures, List.foldl_append]
  rfl

def Failed.isLogged (f : Failed) : Bool := f.outcome.logSuppressed.isSome

/-- When the failures were logged. -/
def loggedTimes (fs : List Failed) : List Nat := (fs.filter Failed.isLogged).map Failed.time

/-- What the log lines say about failures without one. -/
def reported (fs : List Failed) : Nat := (fs.filterMap fun f => f.outcome.logSuppressed).sum

/-- The failures after the last one that was logged. -/
def unlogged (fs : List Failed) : Nat := (fs.rtakeWhile fun f => !f.isLogged).length

/-- The counter of a run has never been full when it had to count. -/
def Counted (fs : List Failed) : Prop := ∀ before, before <+: fs → unlogged before ≤ U64_MAX

/-- The books of a run of failures. -/
structure Accounts (s : Clocked) (fs : List Failed) : Prop where
  consecutive : s.backoff.consecutive = min fs.length U32_MAX
  delays : ∀ k f, fs[k]? = some f →
    f.outcome.delay.asNanos = min (BASE_DELAY.asNanos * 2 ^ k) MAX_DELAY.asNanos
  past : ∀ t, s.backoff.lastLogged = some t → t ≤ s.clock
  latest : ∀ u ∈ loggedTimes fs, ∃ t, s.backoff.lastLogged = some t ∧ u ≤ t
  apart : (loggedTimes fs).Pairwise fun t u => t + LOG_EVERY.asNanos ≤ u
  suppressed : s.backoff.suppressed = min (unlogged fs) U64_MAX
  total : Counted fs → (loggedTimes fs).length + reported fs + s.backoff.suppressed = fs.length

/-! ## One failure -/

section

variable {b : AcceptBackoff} {s s' : Clocked} {fs : List Failed} {now : Nat} {f : Failed}

theorem loggedTimes_snoc_logged (h : f.isLogged = true) :
    loggedTimes (fs ++ [f]) = loggedTimes fs ++ [f.time] := by
  rw [loggedTimes, List.filter_append, List.filter_cons_of_pos h, List.filter_nil, List.map_append]
  rfl

theorem loggedTimes_snoc_quiet (h : f.isLogged = false) : loggedTimes (fs ++ [f]) = loggedTimes fs := by
  rw [loggedTimes, List.filter_append, List.filter_cons_of_neg (by rw [h]; exact Bool.false_ne_true),
    List.filter_nil, List.append_nil]
  rfl

theorem unlogged_snoc_logged (h : f.isLogged = true) : unlogged (fs ++ [f]) = 0 := by
  rw [unlogged, List.rtakeWhile_concat_neg _ _ _ (by simp [h])]
  rfl

theorem unlogged_snoc_quiet (h : f.isLogged = false) : unlogged (fs ++ [f]) = unlogged fs + 1 := by
  rw [unlogged, List.rtakeWhile_concat_pos _ _ _ (by simp [h]), List.length_append]
  rfl

theorem reported_snoc : reported (fs ++ [f]) = reported fs + f.outcome.logSuppressed.getD 0 := by
  rw [reported, List.filterMap_append, List.sum_append, ← reported]
  cases h : f.outcome.logSuppressed <;> simp [h]

theorem Counted.before (h : Counted (fs ++ [f])) : Counted fs :=
  fun before hpre => h before (hpre.trans (List.prefix_append fs [f]))

/-- A run that is not too long is counted. -/
theorem counted_of_length (h : fs.length ≤ U64_MAX) : Counted fs := fun before hpre =>
  calc unlogged before ≤ before.length := (List.rtakeWhile_suffix _ _).length_le
    _ ≤ fs.length := hpre.length_le
    _ ≤ U64_MAX := h

/-- The failure at this time. -/
def failed (b : AcceptBackoff) (now : Nat) : Failed := ⟨now, (b.recordFailure now).1⟩

theorem delay_failed : (failed b now).outcome.delay = delay b.consecutive := by
  rw [failed, recordFailure]
  split <;> rfl

theorem recordFailure_due (h : b.due now = true) : b.recordFailure now =
    (⟨delay b.consecutive, some b.suppressed⟩, ⟨saturatingSucc U32_MAX b.consecutive, some now, 0⟩) :=
  if_pos h

theorem recordFailure_quiet (h : b.due now = false) : b.recordFailure now =
    (⟨delay b.consecutive, none⟩,
      ⟨saturatingSucc U32_MAX b.consecutive, b.lastLogged, saturatingSucc U64_MAX b.suppressed⟩) :=
  if_neg (by rw [h]; exact Bool.false_ne_true)

theorem consecutive_recordFailure :
    (b.recordFailure now).2.consecutive = saturatingSucc U32_MAX b.consecutive := by
  rw [recordFailure]
  split <;> rfl

/-- The books after one more failure: the part that does not depend on the log. -/
theorem Accounts.counters (h : Accounts s fs) (now : Nat) :
    (s.backoff.recordFailure now).2.consecutive = min (fs ++ [failed s.backoff now]).length U32_MAX ∧
      ∀ k f, (fs ++ [failed s.backoff now])[k]? = some f →
        f.outcome.delay.asNanos = min (BASE_DELAY.asNanos * 2 ^ k) MAX_DELAY.asNanos := by
  constructor
  · rw [consecutive_recordFailure, h.consecutive, saturatingSucc, List.length_append, List.length_singleton]
    omega
  · intro k f hf
    rcases Nat.lt_or_ge k fs.length with hk | hk
    · rw [List.getElem?_append_left hk] at hf
      exact h.delays k f hf
    · rw [List.getElem?_append_right hk] at hf
      obtain ⟨hlast, rfl⟩ := List.getElem?_eq_some_iff.mp hf
      have hlen : k = fs.length := by
        rw [List.length_singleton] at hlast
        omega
      rw [List.getElem_singleton, delay_failed, h.consecutive, delay_min, asNanos_delay, hlen]

theorem Accounts.logged (h : Accounts s fs) (hdue : s.backoff.due now = true) :
    Accounts ⟨(s.backoff.recordFailure now).2, now⟩ (fs ++ [failed s.backoff now]) := by
  obtain ⟨hconsecutive, hdelays⟩ := h.counters now
  have hlogged : (failed s.backoff now).isLogged = true := by
    rw [Failed.isLogged, failed, recordFailure_due hdue]
    rfl
  have hold : ∀ u ∈ loggedTimes fs, u + LOG_EVERY.asNanos ≤ now := by
    intro u hu
    obtain ⟨t, hlast, hle⟩ := h.latest u hu
    have hpast := h.past t hlast
    rw [due, hlast] at hdue
    have hgap := of_decide_eq_true hdue
    have hpos : 0 < LOG_EVERY.asNanos := by decide
    omega
  refine ⟨hconsecutive, hdelays, ?_, ?_, ?_, ?_, ?_⟩
  · rw [recordFailure_due hdue]
    rintro t ⟨⟩
    exact Nat.le_refl _
  · rw [recordFailure_due hdue, loggedTimes_snoc_logged hlogged]
    intro u hu
    refine ⟨now, rfl, ?_⟩
    rcases List.mem_append.mp hu with hu | hu
    · exact Nat.le_trans (Nat.le_add_right _ _) (hold u hu)
    · exact (List.mem_singleton.mp hu).le
  · rw [loggedTimes_snoc_logged hlogged]
    refine List.pairwise_append.mpr ⟨h.apart, List.pairwise_singleton _ _, fun t ht u hu => ?_⟩
    rw [List.mem_singleton.mp hu]
    exact hold t ht
  · rw [recordFailure_due hdue, unlogged_snoc_logged hlogged]
    rfl
  · intro hcounted
    have htotal := h.total hcounted.before
    have hreport : (failed s.backoff now).outcome.logSuppressed.getD 0 = s.backoff.suppressed := by
      rw [failed, recordFailure_due hdue]
      rfl
    rw [loggedTimes_snoc_logged hlogged, reported_snoc, hreport, recordFailure_due hdue, List.length_append,
      List.length_append]
    show _ + 1 + (_ + _) + 0 = _ + 1
    omega

theorem Accounts.quiet (h : Accounts s fs) (hclock : s.clock ≤ now) (hdue : s.backoff.due now = false) :
    Accounts ⟨(s.backoff.recordFailure now).2, now⟩ (fs ++ [failed s.backoff now]) := by
  obtain ⟨hconsecutive, hdelays⟩ := h.counters now
  have hquiet : (failed s.backoff now).isLogged = false := by
    rw [Failed.isLogged, failed, recordFailure_quiet hdue]
    rfl
  refine ⟨hconsecutive, hdelays, ?_, ?_, ?_, ?_, ?_⟩
  · rw [recordFailure_quiet hdue]
    exact fun t hlast => (h.past t hlast).trans hclock
  · rw [recordFailure_quiet hdue, loggedTimes_snoc_quiet hquiet]
    exact h.latest
  · rw [loggedTimes_snoc_quiet hquiet]
    exact h.apart
  · rw [recordFailure_quiet hdue, unlogged_snoc_quiet hquiet]
    show saturatingSucc U64_MAX s.backoff.suppressed = _
    rw [saturatingSucc, h.suppressed]
    omega
  · intro hcounted
    have htotal := h.total hcounted.before
    have hroom : unlogged fs + 1 ≤ U64_MAX := by
      have hnow := hcounted _ List.prefix_rfl
      rwa [unlogged_snoc_quiet hquiet] at hnow
    have hsuppressed := h.suppressed
    have hreport : (failed s.backoff now).outcome.logSuppressed.getD 0 = 0 := by
      rw [failed, recordFailure_quiet hdue]
      rfl
    rw [loggedTimes_snoc_quiet hquiet, reported_snoc, hreport, recordFailure_quiet hdue, List.length_append]
    have hone : saturatingSucc U64_MAX s.backoff.suppressed = s.backoff.suppressed + 1 := by
      rw [saturatingSucc, hsuppressed, Nat.min_eq_left (Nat.le_of_succ_le hroom), Nat.min_eq_left hroom]
    show _ + (_ + 0) + saturatingSucc U64_MAX s.backoff.suppressed = _ + 1
    rw [hone]
    omega

theorem accounts_nil (clock : Nat) : Accounts ⟨new, clock⟩ [] where
  consecutive := rfl
  delays := by simp
  past := by simp [new]
  latest := by simp [loggedTimes]
  apart := List.Pairwise.nil
  suppressed := rfl
  total := fun _ => rfl

end

/-! ## Every run -/

variable {log : List (Taken Clocked Act Failed)} {s : Clocked} {clock : Nat}

theorem accounts_run (h : Exec step ⟨new, clock⟩ log s) : Accounts s (failures log) := by
  refine h.inv (P := fun log s => Accounts s (failures log)) (accounts_nil clock) ?_
  intro log s a s' ev _ ih hs
  cases a with
  | success =>
    cases hs
    rw [failures_snoc_success]
    exact accounts_nil s.clock
  | failure now =>
    rw [step] at hs
    split at hs
    · next hclock =>
      cases hs
      rw [failures_snoc_failure]
      cases hdue : s.backoff.due now with
      | true => exact ih.logged hdue
      | false => exact ih.quiet hclock hdue
    · cases hs

theorem delay_shown (h : Exec step ⟨new, clock⟩ log s) : ∀ f ∈ shown log, ∃ n, f.outcome.delay = delay n := by
  refine h.inv (P := fun log _ => ∀ f ∈ shown log, ∃ n, f.outcome.delay = delay n) (by simp) ?_
  intro log s a s' ev _ ih hs f hf
  rw [shown_snoc] at hf
  rcases List.mem_append.mp hf with hf | hf
  · exact ih f hf
  · cases a with
    | success =>
      cases hs
      cases hf
    | failure now =>
      rw [step] at hs
      split at hs
      · cases hs
        rw [List.mem_singleton.mp hf]
        exact ⟨s.backoff.consecutive, delay_failed⟩
      · cases hs

/-- **The accounts of a failing accept, after any history**: every delay is between the two bounds; the
delays of a run of failures start at the lower one and double up to the upper one; its log lines keep their
distance; and lines, what they report and what is pending make up the run, unless the counter has been full. -/
theorem backoff_accounts (h : Exec step ⟨new, clock⟩ log s) :
    (∀ f ∈ shown log, BASE_DELAY.asNanos ≤ f.outcome.delay.asNanos ∧
      f.outcome.delay.asNanos ≤ MAX_DELAY.asNanos) ∧
    (∀ k f, (failures log)[k]? = some f →
      f.outcome.delay.asNanos = min (BASE_DELAY.asNanos * 2 ^ k) MAX_DELAY.asNanos) ∧
    ((loggedTimes (failures log)).Pairwise fun t u => t + LOG_EVERY.asNanos ≤ u) ∧
    (Counted (failures log) → (loggedTimes (failures log)).length + reported (failures log) +
      s.backoff.suppressed = (failures log).length) := by
  have hbooks := accounts_run h
  refine ⟨fun f hf => ?_, hbooks.delays, hbooks.apart, hbooks.total⟩
  obtain ⟨n, hn⟩ := delay_shown h f hf
  rw [hn]
  exact delay_bounds n

/-- Two failures, a success and a failure. -/
theorem backoff_accounts_reset :
    ∃ log s, Exec step ⟨new, 0⟩ log s ∧ (failures log).length = 1 ∧ (shown log).length = 3 ∧
      (loggedTimes (failures log)).length + reported (failures log) + s.backoff.suppressed = 1 := by
  obtain ⟨log, s, hrun, hlen, hshown⟩ := exec_reaches step ⟨new, 0⟩
    [.failure 0, .failure 5000000, .success, .failure 9000000]
    (fun log _ => (failures log).length = 1 ∧ (shown log).length = 3) (by decide)
  obtain ⟨-, -, -, htotal⟩ := backoff_accounts hrun
  have hcounted : Counted (failures log) := counted_of_length (hlen.le.trans (by decide))
  exact ⟨log, s, hrun, hlen, hshown, (htotal hcounted).trans hlen⟩

/-- Failures at one instant: the first is logged, and the counter counts the others while it can. -/
theorem exec_burst (n : Nat) : ∃ log s, Exec step ⟨new, 0⟩ log s ∧
    log.map Taken.act = List.replicate (n + 1) (.failure 0) ∧ s.clock = 0 ∧ s.backoff.lastLogged = some 0 ∧
    (failures log).length = n + 1 ∧ loggedTimes (failures log) = [0] ∧ reported (failures log) = 0 ∧
    s.backoff.suppressed = min n U64_MAX := by
  induction n with
  | zero => exact ⟨_, _, Exec.nil.snoc (a := .failure 0) rfl, rfl, rfl, rfl, rfl, rfl, rfl, rfl⟩
  | succ n ih =>
    obtain ⟨log, ⟨b, clock⟩, hrun, hacts, rfl, hlast, hlen, htimes, hreported, hsuppressed⟩ := ih
    have hdue : b.due 0 = false := by
      have hlast' : b.lastLogged = some 0 := hlast
      rw [due, hlast']
      decide
    have hs : step ⟨b, 0⟩ (.failure 0) = some (⟨(b.recordFailure 0).2, 0⟩, [failed b 0]) := rfl
    have hquiet : (failed b 0).isLogged = false := by
      rw [Failed.isLogged, failed, recordFailure_quiet hdue]
      rfl
    have hreport : (failed b 0).outcome.logSuppressed.getD 0 = 0 := by
      rw [failed, recordFailure_quiet hdue]
      rfl
    refine ⟨_, _, hrun.snoc hs, ?_, rfl, ?_, ?_, ?_, ?_, ?_⟩
    · rw [List.map_append, hacts]
      exact List.replicate_succ'.symm
    · rw [recordFailure_quiet hdue]
      exact hlast
    · rw [failures_snoc_failure, List.length_append, hlen]
      rfl
    · rw [failures_snoc_failure, loggedTimes_snoc_quiet hquiet, htimes]
    · rw [failures_snoc_failure, reported_snoc, hreported, hreport]
    · rw [recordFailure_quiet hdue]
      show saturatingSucc U64_MAX b.suppressed = _
      rw [saturatingSucc, hsuppressed]
      omega

/-- With one failure more than the log line and the counter can hold, one is missing. -/
theorem burst_miscounted : ∃ log s, Exec step ⟨new, 0⟩ log s ∧
    log.map Taken.act = List.replicate (U64_MAX + 2) (.failure 0) ∧
    (loggedTimes (failures log)).length + reported (failures log) + s.backoff.suppressed ≠
      (failures log).length := by
  obtain ⟨log, s, hrun, hacts, -, -, hlen, htimes, hreported, hsuppressed⟩ := exec_burst (U64_MAX + 1)
  refine ⟨log, s, hrun, hacts, ?_⟩
  rw [hlen, htimes, hreported, hsuppressed, Nat.min_eq_right (Nat.le_succ _), List.length_singleton]
  omega

end AcceptBackoff

end Leshiy.Reality
