import Leshiy.Lib.Run
import Leshiy.Reality.Replay

/-!
# The replay guard over a run

What `check_and_record` answers is compared with the history of its calls: a key is a replay if a call has
recorded it no longer than `ttl_secs` ago, unless the entry had to make room for another since. The queue is
sorted by time as long as the clock of the callers does not go back, so nothing that has expired stays behind
an entry that has not.
-/

namespace Leshiy.Reality

open Leshiy.Lib

structure Check where
  key : Key
  now : Nat
  deriving DecidableEq

/-- What a call answers, and the entry that makes room for its own. -/
structure Answer where
  replay : Bool
  displaced : Option (Key × Nat)

namespace ReplayGuard

variable {g g' : ReplayGuard} {key k : Key} {now ts cutoff : Nat} {order : List (Key × Nat)}
  {present : Finset Key} {e : Key × Nat} {c : Check} {ans : List Answer}

/-- The queue and the index behind the expiry of a call. -/
def live (g : ReplayGuard) (now : Nat) : List (Key × Nat) × Finset Key :=
  evict (now - g.ttlSecs) g.order g.present

def displaced (g : ReplayGuard) (key : Key) (now : Nat) : Option (Key × Nat) :=
  if key ∈ (g.live now).2 then none
  else if g.maxEntries ≤ (g.live now).1.length then (g.live now).1.head? else none

def call (g : ReplayGuard) (c : Check) : Option (ReplayGuard × List Answer) :=
  some ((g.checkAndRecord c.key c.now).2, [⟨(g.checkAndRecord c.key c.now).1, g.displaced c.key c.now⟩])

/-! ## Expiry -/

theorem evict_suffix (cutoff : Nat) : ∀ (order : List (Key × Nat)) (present : Finset Key),
    (evict cutoff order present).1 <:+ order
  | [], _ => List.suffix_refl _
  | (k, ts) :: order, present => by
    unfold evict
    split
    · exact (evict_suffix cutoff order _).trans (List.suffix_cons _ _)
    · exact List.suffix_refl _

/-- What has not expired stays. -/
theorem mem_evict (hts : cutoff ≤ e.2) (he : e ∈ order) (present : Finset Key) :
    e ∈ (evict cutoff order present).1 := by
  obtain ⟨pre, post, rfl⟩ := List.append_of_mem he
  obtain ⟨pre', hlive⟩ := evict_append e.1 post hts pre present
  rw [hlive]
  simp

/-- In a sorted queue nothing else does. -/
theorem le_of_mem_evict : ∀ {order : List (Key × Nat)} {present : Finset Key},
    (order.map Prod.snd).Pairwise (· ≤ ·) → e ∈ (evict cutoff order present).1 → cutoff ≤ e.2
  | [], _, _, he => by cases he
  | (k, ts) :: order, present, hsorted, he => by
    have hcons := List.pairwise_cons.mp hsorted
    unfold evict at he
    split at he
    · exact le_of_mem_evict hcons.2 he
    · rename_i hts
      rcases List.mem_cons.mp he with rfl | he
      · exact Nat.le_of_not_lt hts
      · have hle := hcons.1 e.2 (List.mem_map_of_mem he)
        exact Nat.le_trans (Nat.le_of_not_lt hts) hle

theorem live_wf (h : WF g.order g.present) : WF (g.live now).1 (g.live now).2 := evict_wf h

/-! ## One call -/

theorem makeRoom_order (max : Nat) (order : List (Key × Nat)) (present : Finset Key) :
    (makeRoom max order present).1 = if max ≤ order.length then order.tail else order := by
  cases order with
  | nil => exact (ite_self _).symm
  | cons e order =>
    obtain ⟨k, ts⟩ := e
    rw [makeRoom]
    split <;> rfl

/-- What a call makes of the queue: a replay only expires, and a new key goes to its end, where the entry that
has made room is missing at the front. -/
theorem call_order (g : ReplayGuard) (key : Key) (now : Nat) :
    ((g.checkAndRecord key now).1 = true ∧ key ∈ (g.live now).2 ∧ g.displaced key now = none ∧
      (g.checkAndRecord key now).2.order = (g.live now).1) ∨
    ((g.checkAndRecord key now).1 = false ∧ key ∉ (g.live now).2 ∧
      ∃ rest, (g.live now).1 = (g.displaced key now).toList ++ rest ∧
        (g.checkAndRecord key now).2.order = rest ++ [(key, now)] ∧
        (0 < g.maxEntries → (g.live now).1.length ≤ g.maxEntries → rest.length < g.maxEntries)) := by
  obtain ⟨hmem, heq⟩ | ⟨hnew, heq⟩ := checkAndRecord_cases g key now
  · refine .inl ⟨by rw [heq], hmem, if_pos hmem, by rw [heq]; rfl⟩
  · replace hnew : key ∉ (g.live now).2 := hnew
    refine .inr ⟨by rw [heq], hnew, (makeRoom g.maxEntries (g.live now).1 (g.live now).2).1, ?_, by rw [heq]; rfl, ?_⟩
    · rw [makeRoom_order]
      unfold displaced
      rw [if_neg hnew]
      split
      · cases (g.live now).1 <;> rfl
      · rfl
    · intro hpos hlen
      rw [makeRoom_order]
      split
      · rw [List.length_tail]
        omega
      · omega

/-! ## The queue and the index -/

structure Bounded (g : ReplayGuard) : Prop where
  wf : WF g.order g.present
  length : g.order.length ≤ g.maxEntries

theorem live_length_le : (g.live now).1.length ≤ g.order.length :=
  (evict_suffix _ _ _).length_le

theorem Bounded.call (h : g.Bounded) (hpos : 0 < g.maxEntries) : (g.checkAndRecord key now).2.Bounded := by
  refine ⟨checkAndRecord_wf h.wf, ?_⟩
  rw [checkAndRecord_maxEntries]
  have hlive : (g.live now).1.length ≤ g.maxEntries := live_length_le.trans h.length
  obtain ⟨-, -, -, horder⟩ | ⟨-, -, rest, -, horder, hrest⟩ := call_order g key now
  · rw [horder]
    exact hlive
  · rw [horder, List.length_append, List.length_singleton]
    exact hrest hpos hlive

/-! ## The history -/

variable {ttl : Duration} {log : List (Taken ReplayGuard Check Answer)}

theorem maxEntries_run (h : Exec call (new ttl) log g) : g.maxEntries = 100000 := by
  refine h.state_inv (P := fun g => g.maxEntries = 100000) rfl ?_
  rintro g c g' ans hmax hs
  cases hs
  rw [checkAndRecord_maxEntries]
  exact hmax

theorem ttlSecs_run (h : Exec call (new ttl) log g) : g.ttlSecs = ttl.asSecs := by
  refine h.state_inv (P := fun g => g.ttlSecs = ttl.asSecs) rfl ?_
  rintro g c g' ans httl hs
  cases hs
  rw [checkAndRecord_ttlSecs]
  exact httl

theorem bounded_run (h : Exec call (new ttl) log g) : g.Bounded := by
  induction h with
  | nil => exact ⟨wf_nil, Nat.zero_le _⟩
  | snoc hrun hs ih =>
    cases hs
    exact ih.call (by rw [maxEntries_run hrun]; decide)

/-- A call of the run has recorded the key at that time, and the entry was not displaced since. -/
def Recorded (log : List (Taken ReplayGuard Check Answer)) (e : Key × Nat) : Prop :=
  ∃ before t after, log = before ++ t :: after ∧ (t.act.key, t.act.now) = e ∧
    (∃ a ∈ t.ev, a.replay = false) ∧ ∀ t' ∈ after, ∀ a ∈ t'.ev, a.displaced ≠ some e

theorem recorded_snoc {t : Taken ReplayGuard Check Answer} :
    Recorded (log ++ [t]) e ↔
      (Recorded log e ∧ ∀ a ∈ t.ev, a.displaced ≠ some e) ∨
      ((t.act.key, t.act.now) = e ∧ ∃ a ∈ t.ev, a.replay = false) := by
  constructor
  · rintro ⟨before, t', after, hlog, hact, hnew, hkept⟩
    rcases snoc_eq_append_cons hlog with ⟨rfl, rfl, rfl⟩ | ⟨after', rfl, hlog'⟩
    · exact .inr ⟨hact, hnew⟩
    · refine .inl ⟨⟨before, t', after', hlog', hact, hnew, ?_⟩, hkept t (by simp)⟩
      exact fun t'' ht'' => hkept t'' (List.mem_append_left _ ht'')
  · rintro (⟨⟨before, t', after, rfl, hact, hnew, hkept⟩, hlast⟩ | ⟨hact, hnew⟩)
    · refine ⟨before, t', after ++ [t], by simp, hact, hnew, ?_⟩
      intro t'' ht''
      rcases List.mem_append.mp ht'' with ht'' | ht''
      · exact hkept t'' ht''
      · rw [List.mem_singleton.mp ht'']
        exact hlast
    · exact ⟨log, t, [], rfl, hact, hnew, nofun⟩

/-- What is in the queue was recorded. -/
theorem recorded_of_mem (h : Exec call (new ttl) log g) (he : e ∈ g.order) : Recorded log e := by
  induction h generalizing e with
  | nil => cases he
  | @snoc log g g' c ans hrun hs ih =>
    cases hs
    rw [recorded_snoc]
    obtain ⟨-, -, hkept, horder⟩ | ⟨hnew, hfresh, rest, hlive, horder, -⟩ := call_order g c.key c.now
    · rw [horder] at he
      exact .inl ⟨ih ((evict_suffix _ _ _).mem he), by simp [hkept]⟩
    · rw [horder, List.mem_append, List.mem_singleton] at he
      rcases he with he | rfl
      · have hmem : e ∈ (g.live c.now).1 := by
          rw [hlive]
          exact List.mem_append_right _ he
        refine .inl ⟨ih ((evict_suffix _ _ _).mem hmem), ?_⟩
        -- the queue holds each key once, so the entry at the front is another one
        have hwf : WF (g.live c.now).1 (g.live c.now).2 := live_wf (bounded_run hrun).wf
        have hnodup := hwf.nodup
        rw [hlive, List.map_append, List.nodup_append] at hnodup
        intro a ha hdis
        rw [List.mem_singleton] at ha
        subst ha
        refine hnodup.2.2 e.1 ?_ e.1 (List.mem_map_of_mem he) rfl
        rw [show g.displaced c.key c.now = some e from hdis]
        simp
      · exact .inr ⟨rfl, _, List.mem_singleton_self _, hnew⟩

/-- What was recorded is in the queue as long as no call was behind its time. -/
theorem mem_of_recorded (h : Exec call (new ttl) log g) (hrec : Recorded log e)
    (hclock : ∀ t ∈ log, t.act.now ≤ e.2 + ttl.asSecs) : e ∈ g.order := by
  induction h with
  | nil =>
    obtain ⟨before, t, after, hlog, -⟩ := hrec
    simp at hlog
  | @snoc log g g' c ans hrun hs ih =>
    cases hs
    have hnow : c.now ≤ e.2 + g.ttlSecs := by
      rw [ttlSecs_run hrun]
      exact hclock _ (List.mem_append_right _ (List.mem_singleton_self _))
    rw [recorded_snoc] at hrec
    rcases hrec with ⟨hrec, hkept⟩ | ⟨rfl, a, ha, hnew⟩
    · have hold := ih hrec fun t ht => hclock t (List.mem_append_left _ ht)
      have hmem : e ∈ (g.live c.now).1 := mem_evict (by omega) hold _
      obtain ⟨-, -, -, horder⟩ | ⟨-, -, rest, hlive, horder, -⟩ := call_order g c.key c.now
      · rw [horder]
        exact hmem
      · rw [horder, List.mem_append]
        rw [hlive, List.mem_append] at hmem
        rcases hmem with hmem | hmem
        · exact absurd (by simpa using hmem) (hkept _ (List.mem_singleton_self _))
        · exact .inl hmem
    · rw [List.mem_singleton] at ha
      subst ha
      obtain ⟨hreplay, -⟩ | ⟨-, -, rest, -, horder, -⟩ := call_order g c.key c.now
      · rw [show (g.checkAndRecord c.key c.now).1 = false from hnew] at hreplay
        cases hreplay
      · rw [horder]
        simp

/-! ## Callers with one clock -/

/-- The clock does not go back. -/
def Ascending (log : List (Taken ReplayGuard Check Answer)) : Prop :=
  (log.map fun t => t.act.now).Pairwise (· ≤ ·)

theorem ascending_snoc {t : Taken ReplayGuard Check Answer} :
    Ascending (log ++ [t]) ↔ Ascending log ∧ ∀ t' ∈ log, t'.act.now ≤ t.act.now := by
  simp [Ascending, List.pairwise_append]

theorem sorted_run (h : Exec call (new ttl) log g) (hasc : Ascending log) :
    (g.order.map Prod.snd).Pairwise (· ≤ ·) := by
  induction h with
  | nil => exact List.Pairwise.nil
  | @snoc log g g' c ans hrun hs ih =>
    cases hs
    obtain ⟨hasc, hlast⟩ := ascending_snoc.mp hasc
    have hlive : ((g.live c.now).1.map Prod.snd).Pairwise (· ≤ ·) :=
      (ih hasc).sublist ((evict_suffix _ _ _).sublist.map _)
    obtain ⟨-, -, -, horder⟩ | ⟨-, -, rest, heq, horder, -⟩ := call_order g c.key c.now
    · rw [horder]
      exact hlive
    · rw [heq, List.map_append, List.pairwise_append] at hlive
      rw [horder, List.map_append, List.pairwise_append]
      refine ⟨hlive.2.1, List.pairwise_singleton _ _, ?_⟩
      rintro ts hts now hnow
      rw [List.map_singleton, List.mem_singleton] at hnow
      subst hnow
      -- an entry bears the time of the call that has recorded it
      obtain ⟨e, he, rfl⟩ := List.mem_map.mp hts
      have hmem : e ∈ (g.live c.now).1 := by
        rw [heq]
        exact List.mem_append_right _ he
      obtain ⟨before, t, after, rfl, rfl, -⟩ := recorded_of_mem hrun ((evict_suffix _ _ _).mem hmem)
      exact hlast t (by simp)

/-- **The replay guard against its specification.** The index and the queue hold the same keys, each once and
no more than `max_entries`, after any calls. As long as the clock does not go back, a call answers that it is
a replay exactly when a call before it has recorded its key no longer than `ttl_secs` ago, and that entry was
not displaced since. -/
theorem replay_iff (h : Exec call (new ttl) log g) :
    (g.present = (g.order.map Prod.fst).toFinset ∧ (g.order.map Prod.fst).Nodup ∧
      g.order.length ≤ g.maxEntries) ∧
    (Ascending log → ∀ key now, (∀ t ∈ log, t.act.now ≤ now) →
      ((g.checkAndRecord key now).1 = true ↔ ∃ before t after, log = before ++ t :: after ∧ t.act.key = key ∧
        (∃ a ∈ t.ev, a.replay = false) ∧ now ≤ t.act.now + ttl.asSecs ∧
        ∀ t' ∈ after, ∀ a ∈ t'.ev, a.displaced ≠ some (key, t.act.now))) := by
  have hbounded := bounded_run h
  refine ⟨⟨hbounded.wf.index, hbounded.wf.nodup, hbounded.length⟩, ?_⟩
  intro hasc key now hlast
  constructor
  · intro hreplay
    obtain ⟨-, hmem, -⟩ | ⟨hnew, -⟩ := call_order g key now
    · rw [(live_wf hbounded.wf).mem_iff] at hmem
      obtain ⟨e, he, rfl⟩ := List.mem_map.mp hmem
      have hts : now - g.ttlSecs ≤ e.2 := le_of_mem_evict (sorted_run h hasc) he
      obtain ⟨before, t, after, hlog, rfl, hnew, hkept⟩ := recorded_of_mem h ((evict_suffix _ _ _).mem he)
      rw [ttlSecs_run h] at hts
      exact ⟨before, t, after, hlog, rfl, hnew, by omega, hkept⟩
    · rw [hreplay] at hnew
      cases hnew
  · rintro ⟨before, t, after, hlog, rfl, hnew, hts, hkept⟩
    have hrec : Recorded log (t.act.key, t.act.now) := ⟨before, t, after, hlog, rfl, hnew, hkept⟩
    have hentry := mem_of_recorded h hrec fun t' ht' => (hlast t' ht').trans hts
    obtain ⟨pre, post, horder⟩ := List.append_of_mem hentry
    exact checkAndRecord_of_live now hbounded.wf horder (by rw [ttlSecs_run h]; exact hts)

/-- A key that was recorded at 1000 is a replay at 1240, and is new again at 1241. -/
theorem replay_iff_boundary : ∃ log g, Exec call (new ⟨240, 0⟩) log g ∧
    (g.checkAndRecord (Block.fill 64 1) 1240).1 = true ∧ (g.checkAndRecord (Block.fill 64 1) 1241).1 = false := by
  have hnil : Exec call (new ⟨240, 0⟩) [] (new ⟨240, 0⟩) := .nil
  have hrun := hnil.snoc (show call (new ⟨240, 0⟩) ⟨Block.fill 64 1, 1000⟩ = some (_, _) from rfl)
  have hiff := (replay_iff hrun).2 (List.pairwise_singleton _ _)
  refine ⟨_, _, hrun, ?_, ?_⟩
  · refine (hiff _ 1240 (by simp)).mpr ⟨[], _, [], rfl, rfl, ⟨_, List.mem_singleton_self _, by decide⟩, by decide, nofun⟩
  · rw [← Bool.not_eq_true]
    intro hreplay
    obtain ⟨before, t, after, hlog, -, -, hts, -⟩ := (hiff _ 1241 (by simp)).mp hreplay
    rcases snoc_eq_append_cons hlog with ⟨-, rfl, -⟩ | ⟨after', -, hbefore⟩
    · exact absurd hts (by decide)
    · simp at hbefore

end ReplayGuard

end Leshiy.Reality
