import Leshiy.Reality.RateLimit

/-!
# A bucket and its consumers

`TokenBucket::consume` (`leshiy-reality/src/ratelimit.rs`), called by any number of tasks on one bucket. A call
locks the bucket for one turn of its loop and sleeps between two turns with the bucket unlocked, so turns
of different calls come in any order. Times are in seconds, and all amounts are rational.
-/

namespace Leshiy.Reality

open Leshiy.Lib

/-- Where a call of `consume` is: before a turn of its loop, or asleep until a time. -/
inductive ConsumePhase where
  | looping
  | sleeping (wake : ℚ)
  | returned
  | dropped
  deriving DecidableEq, Repr

structure ConsumeCall where
  n : Nat
  phase : ConsumePhase
  deriving DecidableEq, Repr

/-- The next turn of the loop may be taken. -/
def ConsumeCall.ready (c : ConsumeCall) (now : ℚ) : Bool :=
  match c.phase with
  | .looping => true
  | .sleeping wake => decide (wake ≤ now)
  | .returned | .dropped => false

structure SharedBucket where
  bucket : TokenBucket ℚ
  now : ℚ
  calls : List ConsumeCall

/-- The bytes of a call that has returned, and when. -/
structure Grant where
  time : ℚ
  n : Nat
  deriving DecidableEq, Repr

/-- Time passes; a task calls `consume`; a call takes a turn; the task of a call is dropped. -/
inductive ConsumeAct where
  | tick (d : ℚ)
  | consume (n : Nat)
  | turn (i : Nat)
  | drop (i : Nat)

namespace SharedBucket

def new (rate : Nat) (now : ℚ) : SharedBucket := ⟨newBucket rate now, now, []⟩

def setPhase (s : SharedBucket) (i : Nat) (phase : ConsumePhase) : SharedBucket :=
  { s with calls := s.calls.modify i fun c => { c with phase } }

/-- One turn of the loop with the bucket locked. -/
def turn (s : SharedBucket) (i n : Nat) : SharedBucket × List Grant :=
  let need := bucketNeed s.bucket n
  let r := s.bucket.attempt s.now need (bucketNeed_nonneg s.bucket n)
  let s := { s with bucket := r.1 }
  if r.2 then (s.setPhase i .returned, [⟨s.now, n⟩])
  else (s.setPhase i (.sleeping (s.now + (need - r.1.tokens) / r.1.rate)), [])

def step (s : SharedBucket) : ConsumeAct → Option (SharedBucket × List Grant)
  | .tick d => if 0 ≤ d then some ({ s with now := s.now + d }, []) else none
  | .consume n => some ({ s with calls := s.calls ++ [⟨n, .looping⟩] }, [])
  | .turn i =>
    match s.calls[i]? with
    | some c => if c.ready s.now then some (s.turn i c.n) else none
    | none => none
  | .drop i => if i < s.calls.length then some (s.setPhase i .dropped, []) else none

/-- The bytes granted between two times. -/
def grantedIn (t₁ t₂ : ℚ) (gs : List Grant) : ℚ :=
  (gs.map fun g => if t₁ ≤ g.time ∧ g.time ≤ t₂ then (g.n : ℚ) else 0).sum

theorem grantedIn_append {t₁ t₂ : ℚ} {gs gs' : List Grant} :
    grantedIn t₁ t₂ (gs ++ gs') = grantedIn t₁ t₂ gs + grantedIn t₁ t₂ gs' := by
  rw [grantedIn, List.map_append, List.sum_append]
  rfl

theorem grantedIn_nil {t₁ t₂ : ℚ} : grantedIn t₁ t₂ [] = 0 := rfl

/-! ## One turn -/

section

variable {s s' : SharedBucket} {a : ConsumeAct} {ev : List Grant} {rate i n : Nat} {t₁ t₂ : ℚ}

/-- The bytes of a call that fits into the bucket. -/
theorem need_eq (h : (n : ℚ) ≤ s.bucket.capacity) : bucketNeed s.bucket n = n := min_eq_left h

theorem chunk_nonneg (n : Nat) : (0 : ℚ) ≤ n := Nat.cast_nonneg n

/-- What a turn does to the bucket, and what it grants is what it takes out. -/
theorem turn_spec (t₁ t₂ : ℚ) (h : (n : ℚ) ≤ s.bucket.capacity) :
    (s.turn i n).1.bucket = (s.bucket.attempt s.now n (chunk_nonneg n)).1 ∧ (s.turn i n).1.now = s.now ∧
      grantedIn t₁ t₂ (s.turn i n).2 =
        if t₁ ≤ s.now ∧ s.now ≤ t₂ then s.bucket.taken s.now n (chunk_nonneg n) else 0 := by
  have hneed := need_eq h
  unfold turn TokenBucket.taken
  dsimp only
  simp only [hneed]
  by_cases hgrant : (s.bucket.attempt s.now n (chunk_nonneg n)).2
  · rw [if_pos hgrant]
    refine ⟨rfl, rfl, ?_⟩
    simp [grantedIn, hgrant]
  · rw [if_neg hgrant]
    refine ⟨rfl, rfl, ?_⟩
    simp [grantedIn, hgrant]

/-- The calls of a state and the chunks they are for. -/
def Fit (rate : Nat) (s : SharedBucket) : Prop := ∀ c ∈ s.calls, (c.n : ℚ) ≤ bucketCapacity rate

/-- A chunk that is asked for fits into the bucket. -/
def Asks (rate : Nat) (_ : SharedBucket) : ConsumeAct → Prop
  | .consume n => (n : ℚ) ≤ bucketCapacity rate
  | _ => True

instance : Decidable (Asks rate s a) := by
  unfold Asks
  split <;> infer_instance

theorem step_turn (h : step s (.turn i) = some (s', ev)) :
    ∃ c, s.calls[i]? = some c ∧ (s', ev) = s.turn i c.n := by
  rw [step] at h
  split at h
  · next c hc =>
    split at h
    · exact ⟨c, hc, (Option.some.inj h).symm⟩
    · cases h
  · cases h

theorem fit_setPhase {phase : ConsumePhase} (h : s.Fit rate) : (s.setPhase i phase).Fit rate := by
  intro c hc
  obtain ⟨j, hj⟩ := List.mem_iff_getElem?.mp hc
  rw [setPhase, List.getElem?_modify] at hj
  obtain ⟨c', hc', rfl⟩ := Option.map_eq_some_iff.mp hj
  have hfit := h c' (List.mem_of_getElem? hc')
  split <;> exact hfit

/-- What a step can do: nothing to the bucket, or one turn of a call. -/
theorem step_effect (hfit : s.Fit rate) (hasks : Asks rate s a) (h : step s a = some (s', ev)) :
    s'.Fit rate ∧ s.now ≤ s'.now ∧
      ((s'.bucket = s.bucket ∧ ev = []) ∨
        ∃ i c, a = .turn i ∧ s.calls[i]? = some c ∧ (s', ev) = s.turn i c.n) := by
  cases a with
  | tick d =>
    rw [step] at h
    split at h
    · next hd =>
      cases h
      exact ⟨hfit, le_add_of_nonneg_right hd, .inl ⟨rfl, rfl⟩⟩
    · cases h
  | consume n =>
    cases h
    refine ⟨fun c hc => ?_, le_refl _, .inl ⟨rfl, rfl⟩⟩
    rcases List.mem_append.mp hc with hc | hc
    · exact hfit c hc
    · rw [List.mem_singleton.mp hc]
      exact hasks
  | turn i =>
    obtain ⟨c, hc, hturn⟩ := step_turn h
    have hcalls : (s.turn i c.n).1.Fit rate ∧ (s.turn i c.n).1.now = s.now := by
      unfold turn
      dsimp only
      split
      · exact ⟨fit_setPhase (s := { s with bucket := _ }) hfit, rfl⟩
      · exact ⟨fit_setPhase (s := { s with bucket := _ }) hfit, rfl⟩
    rw [← hturn] at hcalls
    exact ⟨hcalls.1, hcalls.2.ge, .inr ⟨i, c, rfl, hc, hturn⟩⟩
  | drop i =>
    rw [step] at h
    split at h
    · cases h
      exact ⟨fit_setPhase hfit, le_refl _, .inl ⟨rfl, rfl⟩⟩
    · cases h

/-! ## Windows of time -/

/-- The books of a bucket over a window, and over the time since it was made. -/
structure Books (rate : Nat) (start t₁ t₂ : ℚ) (s : SharedBucket) (gs : List Grant) : Prop where
  fit : s.Fit rate
  rate_eq : s.bucket.rate = bucketRate rate
  capacity_eq : s.bucket.capacity = bucketCapacity rate
  begun : start ≤ s.now
  refilled : s.bucket.last ≤ s.now
  window : t₁ ≤ t₂ → s.bucket.Window t₁ t₂ (grantedIn t₁ t₂ gs)
  since : start ≤ t₂ → s.bucket.Since start t₂ (bucketRate rate) (grantedIn start t₂ gs)

variable {start : ℚ} {gs : List Grant}

theorem rate_le_capacity : bucketRate rate ≤ bucketCapacity rate := le_max_left _ _

theorem books_new : Books rate start t₁ t₂ (new rate start) [] where
  fit := fun c hc => nomatch hc
  rate_eq := rfl
  capacity_eq := rfl
  begun := le_refl _
  refilled := le_refl _
  window := fun ht => TokenBucket.window_zero _ ht
  since := by
    intro ht
    have hlevel : (new rate start).bucket.tokens = bucketRate rate := min_eq_right rate_le_capacity
    have hzero := (new rate start).bucket.since_zero ht
    rwa [hlevel] at hzero

theorem Books.step (h : Books rate start t₁ t₂ s gs) (hasks : Asks rate s a)
    (hs : step s a = some (s', ev)) : Books rate start t₁ t₂ s' (gs ++ ev) := by
  obtain ⟨hfit, hnow, ⟨hbucket, rfl⟩ | ⟨i, c, -, hc, hturn⟩⟩ := step_effect h.fit hasks hs
  · rw [List.append_nil]
    exact ⟨hfit, hbucket ▸ h.rate_eq, hbucket ▸ h.capacity_eq, h.begun.trans hnow,
      hbucket ▸ h.refilled.trans hnow, hbucket ▸ h.window, hbucket ▸ h.since⟩
  · have hn : (c.n : ℚ) ≤ s.bucket.capacity := h.capacity_eq ▸ h.fit c (List.mem_of_getElem? hc)
    obtain ⟨hrate, hcap, hlast, -⟩ := s.bucket.attempt_spec s.now c.n (chunk_nonneg c.n)
    have hs' : s' = (s.turn i c.n).1 := congrArg Prod.fst hturn
    have hev : ev = (s.turn i c.n).2 := congrArg Prod.snd hturn
    obtain ⟨hbucket, hnow', -⟩ := turn_spec (i := i) t₁ t₂ hn
    rw [← hs'] at hbucket hnow'
    refine ⟨hfit, ?_, ?_, h.begun.trans hnow, ?_, fun ht => ?_, fun ht => ?_⟩
    · rw [hbucket, hrate, h.rate_eq]
    · rw [hbucket, hcap, h.capacity_eq]
    · rw [hbucket, hlast]
      exact hnow
    · obtain ⟨-, -, hgrant⟩ := turn_spec (i := i) t₁ t₂ hn
      rw [grantedIn_append, hev, hgrant, hbucket]
      exact (h.window ht).attempt h.refilled _
    · obtain ⟨-, -, hgrant⟩ := turn_spec (i := i) start t₂ hn
      have hiff : (start ≤ s.now ∧ s.now ≤ t₂) ↔ s.now ≤ t₂ := and_iff_right h.begun
      rw [grantedIn_append, hev, hgrant, hbucket, if_congr hiff rfl rfl]
      exact (h.since ht).attempt h.refilled _

variable {log : List (Taken SharedBucket ConsumeAct Grant)}

theorem books_run (t₁ t₂ : ℚ) (h : Exec step (new rate start) log s) (hasks : Steps (Asks rate) log) :
    Books rate start t₁ t₂ s (shown log) := by
  induction h with
  | nil => exact books_new
  | @snoc log s s' a ev hrun hs ih =>
    obtain ⟨hlog, ha⟩ := steps_snoc.mp hasks
    rw [shown_snoc]
    exact (ih hlog).step ha hs

/-! ## Waking up -/

theorem getElem?_setPhase {c : ConsumeCall} {phase : ConsumePhase} (hc : s.calls[i]? = some c) :
    (s.setPhase i phase).calls[i]? = some { c with phase } := by
  simp [setPhase, hc]

/-- A turn after which the call is asleep: it sleeps for as long as the bucket takes to fill up to what it
needs. -/
theorem turn_asleep {c : ConsumeCall} {n : Nat} {wake : ℚ} (hc : s.calls[i]? = some c)
    (hfits : (c.n : ℚ) ≤ s.bucket.capacity)
    (hasleep : (s.turn i c.n).1.calls[i]? = some ⟨n, .sleeping wake⟩) :
    n = c.n ∧ wake = s.now + (c.n - (s.turn i c.n).1.bucket.tokens) / s.bucket.rate := by
  obtain ⟨hrate, -⟩ := s.bucket.attempt_spec s.now (bucketNeed s.bucket c.n) (bucketNeed_nonneg s.bucket c.n)
  unfold turn at hasleep ⊢
  dsimp only at hasleep ⊢
  generalize hr : s.bucket.attempt s.now (bucketNeed s.bucket c.n) (bucketNeed_nonneg s.bucket c.n) = r at *
  split at hasleep
  · rw [getElem?_setPhase (s := { s with bucket := r.1 }) hc] at hasleep
    cases hasleep
  · next hnone =>
    rw [getElem?_setPhase (s := { s with bucket := r.1 }) hc] at hasleep
    cases hasleep
    rw [if_neg hnone, need_eq hfits, hrate]
    exact ⟨rfl, rfl⟩

/-- Nothing was taken out of the bucket, which had a level at some moment. -/
structure Untouched (rate : Nat) (t₀ level : ℚ) (s : SharedBucket) : Prop where
  fit : s.Fit rate
  rate_eq : s.bucket.rate = bucketRate rate
  capacity_eq : s.bucket.capacity = bucketCapacity rate
  refilled : s.bucket.last ≤ s.now
  filled : s.bucket.Filled t₀ level

theorem Untouched.step {t₀ level : ℚ} (h : Untouched rate t₀ level s) (hasks : Asks rate s a)
    (hs : step s a = some (s', ev)) (hnone : ∀ g ∈ ev, g.n = 0) : Untouched rate t₀ level s' := by
  obtain ⟨hfit, hnow, ⟨hbucket, rfl⟩ | ⟨i, c, -, hc, hturn⟩⟩ := step_effect h.fit hasks hs
  · exact ⟨hfit, hbucket ▸ h.rate_eq, hbucket ▸ h.capacity_eq, hbucket ▸ h.refilled.trans hnow,
      hbucket ▸ h.filled⟩
  · have hn : (c.n : ℚ) ≤ s.bucket.capacity := h.capacity_eq ▸ h.fit c (List.mem_of_getElem? hc)
    obtain ⟨hrate, hcap, hlast, -⟩ := s.bucket.attempt_spec s.now c.n (chunk_nonneg c.n)
    obtain ⟨hbucket, hnow', hgrant⟩ := turn_spec (i := i) s.now s.now hn
    have hs' : s' = (s.turn i c.n).1 := congrArg Prod.fst hturn
    have hev : ev = (s.turn i c.n).2 := congrArg Prod.snd hturn
    rw [← hs'] at hbucket hnow'
    have hzero : grantedIn s.now s.now ev = 0 := by
      refine List.sum_eq_zero fun x hx => ?_
      obtain ⟨g, hg, rfl⟩ := List.mem_map.mp hx
      rw [hnone g hg, Nat.cast_zero, ite_self]
    rw [← hev, hzero, if_pos ⟨le_refl _, le_refl _⟩] at hgrant
    refine ⟨hfit, ?_, ?_, ?_, ?_⟩
    · rw [hbucket, hrate, h.rate_eq]
    · rw [hbucket, hcap, h.capacity_eq]
    · rw [hbucket, hlast]
      exact hnow
    · rw [hbucket]
      exact h.filled.attempt h.refilled _ hgrant.symm

theorem untouched_run {t₀ level : ℚ} {s₀ : SharedBucket} (h0 : Untouched rate t₀ level s₀)
    (h : Exec step s₀ log s) (hasks : Steps (Asks rate) log) (hnone : ∀ g ∈ shown log, g.n = 0) :
    Untouched rate t₀ level s := by
  induction h with
  | nil => exact h0
  | @snoc log s s' a ev hrun hs ih =>
    obtain ⟨hlog, ha⟩ := steps_snoc.mp hasks
    rw [shown_snoc] at hnone
    exact (ih hlog fun g hg => hnone g (List.mem_append_left _ hg)).step ha hs
      fun g hg => hnone g (List.mem_append_right _ hg)

/-- The turn of a call that has slept for long enough. -/
theorem Untouched.granted {t₀ level wake : ℚ} (h : Untouched rate t₀ level s)
    (hcall : s.calls[i]? = some ⟨n, .sleeping wake⟩) (hwake : wake = t₀ + (n - level) / bucketRate rate)
    (hnow : wake ≤ s.now) : ∃ s', SharedBucket.step s (.turn i) = some (s', [⟨s.now, n⟩]) := by
  have hn : (n : ℚ) ≤ s.bucket.capacity := h.capacity_eq ▸ h.fit _ (List.mem_of_getElem? hcall)
  have hlong : (n : ℚ) ≤ level + (s.now - t₀) * s.bucket.rate := by
    have hslept : (n - level) / bucketRate rate ≤ s.now - t₀ := by linarith
    rw [div_le_iff₀ (bucketRate_pos rate)] at hslept
    rw [h.rate_eq]
    linarith
  have hgrant := h.filled.granted h.refilled (chunk_nonneg n) hn hlong
  have hready : (ConsumeCall.mk n (.sleeping wake)).ready s.now = true := decide_eq_true hnow
  have hneed := need_eq hn
  refine ⟨(s.turn i n).1, ?_⟩
  have hev : (s.turn i n).2 = [⟨s.now, n⟩] := by
    unfold turn
    dsimp only
    simp only [hneed]
    rw [if_pos hgrant]
  simp only [SharedBucket.step, hcall, hready, if_true]
  rw [← hev]

/-! ## The bound -/

/-- **What a bucket grants, however its consumers take turns**: its level keeps within the capacity; in a
window of time it grants no more than its capacity and what the rate makes of the window, and of a window
that begins with the bucket no more than the rate's second and that; and a call that wakes up when it has
slept for as long as it had computed is granted at once, unless others have taken bytes in the meantime. -/
theorem bucket_bounds (rate : Nat) (start : ℚ) (h : Exec step (new rate start) log s)
    (hasks : Steps (Asks rate) log) :
    (0 ≤ s.bucket.tokens ∧ s.bucket.tokens ≤ bucketCapacity rate) ∧
    (∀ t d, 0 ≤ d → grantedIn t (t + d) (shown log) ≤ bucketCapacity rate + bucketRate rate * d) ∧
    (∀ d, 0 ≤ d → grantedIn start (start + d) (shown log) ≤ bucketRate rate + bucketRate rate * d) ∧
    ∀ before t after i n wake s₁, log = before ++ t :: after → t.act = .turn i →
      step t.pre t.act = some (s₁, t.ev) → s₁.calls[i]? = some ⟨n, .sleeping wake⟩ →
      s.calls[i]? = some ⟨n, .sleeping wake⟩ → (∀ g ∈ shown after, g.n = 0) → wake ≤ s.now →
      ∃ s', step s (.turn i) = some (s', [⟨s.now, n⟩]) := by
  have hbooks : ∀ t₁ t₂, Books rate start t₁ t₂ s (shown log) := fun t₁ t₂ => books_run t₁ t₂ h hasks
  have hrate := (hbooks 0 0).rate_eq
  have hcap := (hbooks 0 0).capacity_eq
  refine ⟨⟨s.bucket.tokens_nonneg, hcap ▸ s.bucket.tokens_le⟩, fun t d hd => ?_, fun d hd => ?_, ?_⟩
  · have hwindow := ((hbooks t (t + d)).window (le_add_of_nonneg_right hd)).bounded
    rwa [hrate, hcap, add_sub_cancel_left, mul_comm] at hwindow
  · have hsince := ((hbooks 0 (start + d)).since (le_add_of_nonneg_right hd)).bounded
    rwa [hrate, add_sub_cancel_left, mul_comm] at hsince
  · rintro before t after i n wake s₁ rfl hact hs₁ hasleep hcall hnone hnow
    obtain ⟨hbefore, s₂, hs₂, hafter⟩ := h.split
    cases hs₁.symm.trans hs₂
    have hasks' : Steps (Asks rate) before ∧ Asks rate t.pre t.act ∧ Steps (Asks rate) after :=
      ⟨fun t' ht' => hasks t' (List.mem_append_left _ ht'), hasks t (by simp),
        fun t' ht' => hasks t' (List.mem_append_right _ (List.mem_cons_of_mem _ ht'))⟩
    have hpre := books_run 0 0 hbefore hasks'.1
    have hpost := hpre.step hasks'.2.1 hs₁
    rw [hact] at hs₁
    obtain ⟨c, hc, hturn⟩ := step_turn hs₁
    have hfits : (c.n : ℚ) ≤ t.pre.bucket.capacity :=
      hpre.capacity_eq ▸ hpre.fit c (List.mem_of_getElem? hc)
    obtain rfl : s₁ = (t.pre.turn i c.n).1 := congrArg Prod.fst hturn
    obtain ⟨rfl, hwake⟩ := turn_asleep hc hfits hasleep
    have hlast : (t.pre.turn i c.n).1.bucket.last = t.pre.now := by
      rw [(turn_spec 0 0 hfits).1]
      exact (t.pre.bucket.attempt_spec t.pre.now c.n (chunk_nonneg c.n)).2.2.1
    have hrest : Untouched rate t.pre.now (t.pre.turn i c.n).1.bucket.tokens s :=
      untouched_run ⟨hpost.fit, hpost.rate_eq, hpost.capacity_eq, hpost.refilled,
        hlast ▸ TokenBucket.filled_self _⟩ hafter hasks'.2.2 hnone
    exact hrest.granted hcall (hpre.rate_eq ▸ hwake) hnow

/-- Two calls on a bucket of 1000 bytes per second, which is as full as it is allowed to be: the second
sleeps for a second and a half, and then both have all that the bound allows. -/
theorem bucket_bounds_two : ∃ log s, Exec step (new 1000 0) log s ∧
    grantedIn 0 (0 + 3 / 2) (shown log) = 2500 ∧
    grantedIn 0 (0 + 3 / 2) (shown log) ≤ bucketRate 1000 + bucketRate 1000 * (3 / 2) := by
  obtain ⟨log, s, hrun, hasks, hgranted⟩ := exec_reaches step (new 1000 0)
    [.consume 1000, .consume 1500, .turn 0, .turn 1, .tick (3 / 2), .turn 1]
    (fun log _ => Steps (Asks 1000) log ∧ grantedIn 0 (0 + 3 / 2) (shown log) = 2500) (by decide +kernel)
  obtain ⟨-, -, hcreation, -⟩ := bucket_bounds 1000 0 hrun hasks
  exact ⟨log, s, hrun, hgranted, hcreation (3 / 2) (by norm_num)⟩

end

end SharedBucket

end Leshiy.Reality
