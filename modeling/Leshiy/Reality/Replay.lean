import Mathlib.Data.Finset.Card
import Mathlib.Data.Finset.Dedup
import Leshiy.Lib.Crypto
import Leshiy.Lib.Duration

/-!
# The replay guard

`leshiy-reality/src/replay.rs`: a bounded set of keys seen in the last `ttl_secs` seconds, oldest at
the front. It expires entries by the clock of whoever calls it, so an entry is kept as long as no
caller's clock is past it (`retained_run`).
-/

namespace Leshiy.Reality

open Leshiy.Lib

/-- Client random and session id. -/
abbrev Key := Block 64

/-- `None` if either part is not 32 bytes long. -/
def replayKey (random sessionId : List UInt8) : Option Key :=
  if h : random.length = 32 ∧ sessionId.length = 32 then
    some ⟨random ++ sessionId, by rw [List.length_append, h.1, h.2]⟩
  else none

structure ReplayGuard where
  ttlSecs : Nat
  maxEntries : Nat
  order : List (Key × Nat)
  present : Finset Key

namespace ReplayGuard

def new (ttl : Duration) : ReplayGuard := ⟨ttl.asSecs, 100000, [], ∅⟩

/-- Entries from before `cutoff` leave, oldest first, up to the first that stays. -/
def evict (cutoff : Nat) : List (Key × Nat) → Finset Key → List (Key × Nat) × Finset Key
  | [], present => ([], present)
  | (k, ts) :: order, present =>
    if ts < cutoff then evict cutoff order (present.erase k) else ((k, ts) :: order, present)

/-- The oldest entry leaves if there is no room. -/
def makeRoom (maxEntries : Nat) : List (Key × Nat) → Finset Key → List (Key × Nat) × Finset Key
  | (k, ts) :: order, present =>
    if maxEntries ≤ ((k, ts) :: order).length then (order, present.erase k)
    else ((k, ts) :: order, present)
  | [], present => ([], present)

/-- Whether the key was there already; it is afterwards. -/
def checkAndRecord (g : ReplayGuard) (key : Key) (now : Nat) : Bool × ReplayGuard :=
  let cutoff := now - g.ttlSecs
  let (order, present) := evict cutoff g.order g.present
  if key ∈ present then (true, { g with order, present })
  else
    let (order, present) := makeRoom g.maxEntries order present
    (false, { g with order := order ++ [(key, now)], present := insert key present })

/-! ## The index and the order -/

/-- The index holds the keys of the order, each of them once. -/
structure WF (order : List (Key × Nat)) (present : Finset Key) : Prop where
  index : present = (order.map Prod.fst).toFinset
  nodup : (order.map Prod.fst).Nodup

variable {order pre post : List (Key × Nat)} {present : Finset Key} {k key : Key}
  {ts now cutoff : Nat} {g : ReplayGuard}

theorem wf_nil : WF [] ∅ := ⟨rfl, List.nodup_nil⟩

/-- Without its oldest entry the index is still right. -/
theorem WF.tail (h : WF ((k, ts) :: order) present) : WF order (present.erase k) := by
  have hnodup := List.nodup_cons.mp h.nodup
  refine ⟨?_, hnodup.2⟩
  rw [h.index, List.map_cons, List.toFinset_cons, Finset.erase_insert]
  simpa using hnodup.1

theorem WF.mem_iff (h : WF order present) : k ∈ present ↔ k ∈ order.map Prod.fst := by
  rw [h.index, List.mem_toFinset]

theorem WF.snoc (h : WF order present) (hnew : key ∉ present) :
    WF (order ++ [(key, now)]) (insert key present) := by
  refine ⟨?_, ?_⟩
  · ext k
    rw [h.index, List.map_append, List.mem_toFinset, List.mem_append, Finset.mem_insert,
      List.mem_toFinset, List.map_singleton, List.mem_singleton, or_comm]
  · rw [List.map_append, List.nodup_append]
    refine ⟨h.nodup, by simp, ?_⟩
    rintro a ha b hb rfl
    rw [List.map_singleton, List.mem_singleton] at hb
    subst hb
    exact hnew (h.mem_iff.mpr ha)

theorem evict_wf : ∀ {order : List (Key × Nat)} {present : Finset Key}, WF order present →
    WF (evict cutoff order present).1 (evict cutoff order present).2
  | [], _, h => h
  | (k, ts) :: order, present, h => by
    rw [evict]
    split
    · exact evict_wf h.tail
    · exact h

/-- The entries up to one that is not expired may leave, that one and those behind it stay. -/
theorem evict_append (k : Key) (post : List (Key × Nat)) (hts : cutoff ≤ ts) : ∀ (pre : List (Key × Nat)) (present : Finset Key),
    ∃ pre', (evict cutoff (pre ++ (k, ts) :: post) present).1 = pre' ++ (k, ts) :: post
  | [], present => by
    refine ⟨[], ?_⟩
    rw [List.nil_append, evict, if_neg (Nat.not_lt.mpr hts)]
  | (k', ts') :: pre, present => by
    rw [List.cons_append, evict]
    split
    · exact evict_append k post hts pre _
    · exact ⟨(k', ts') :: pre, rfl⟩

theorem makeRoom_wf {maxEntries : Nat} (h : WF order present) :
    WF (makeRoom maxEntries order present).1 (makeRoom maxEntries order present).2 := by
  cases order with
  | nil => exact h
  | cons e order =>
    obtain ⟨k, ts⟩ := e
    rw [makeRoom]
    split
    · exact h.tail
    · exact h

theorem makeRoom_subset {maxEntries : Nat} (order : List (Key × Nat)) (present : Finset Key) :
    (makeRoom maxEntries order present).2 ⊆ present := by
  cases order with
  | nil => exact Finset.Subset.refl _
  | cons e order =>
    rw [makeRoom]
    split
    · exact Finset.erase_subset _ _
    · exact Finset.Subset.refl _

/-- An entry stays if there is room for one more behind it. -/
theorem makeRoom_append {maxEntries : Nat} (pre : List (Key × Nat)) (e : Key × Nat)
    (present : Finset Key) (hroom : post.length + 1 < maxEntries) :
    ∃ pre', (makeRoom maxEntries (pre ++ e :: post) present).1 = pre' ++ e :: post := by
  cases pre with
  | nil =>
    refine ⟨[], ?_⟩
    have hlen : ¬ maxEntries ≤ (e :: post).length := by
      rw [List.length_cons]
      omega
    rw [List.nil_append, makeRoom, if_neg hlen]
  | cons e' pre =>
    rw [List.cons_append, makeRoom]
    split
    · exact ⟨pre, rfl⟩
    · exact ⟨e' :: pre, rfl⟩

/-! ## One call -/

/-- What a call makes of the guard. -/
theorem checkAndRecord_cases (g : ReplayGuard) (key : Key) (now : Nat) :
    let live := evict (now - g.ttlSecs) g.order g.present
    (key ∈ live.2 ∧ g.checkAndRecord key now =
      (true, { g with order := live.1, present := live.2 })) ∨
    (key ∉ live.2 ∧ g.checkAndRecord key now =
      let room := makeRoom g.maxEntries live.1 live.2
      (false, { g with order := room.1 ++ [(key, now)], present := insert key room.2 })) := by
  intro live
  by_cases hkey : key ∈ live.2
  · exact .inl ⟨hkey, if_pos hkey⟩
  · exact .inr ⟨hkey, if_neg hkey⟩

theorem checkAndRecord_wf (h : WF g.order g.present) :
    WF (g.checkAndRecord key now).2.order (g.checkAndRecord key now).2.present := by
  obtain ⟨-, heq⟩ | ⟨hnew, heq⟩ := checkAndRecord_cases g key now
  · rw [heq]
    exact evict_wf h
  · rw [heq]
    exact (makeRoom_wf (evict_wf h)).snoc fun hmem => hnew (makeRoom_subset _ _ hmem)

@[simp] theorem checkAndRecord_ttlSecs :
    (g.checkAndRecord key now).2.ttlSecs = g.ttlSecs := by
  obtain ⟨-, heq⟩ | ⟨-, heq⟩ := checkAndRecord_cases g key now
  · rw [heq]
  · rw [heq]

@[simp] theorem checkAndRecord_maxEntries :
    (g.checkAndRecord key now).2.maxEntries = g.maxEntries := by
  obtain ⟨-, heq⟩ | ⟨-, heq⟩ := checkAndRecord_cases g key now
  · rw [heq]
  · rw [heq]

/-- A key whose entry is not expired at this clock is found. -/
theorem checkAndRecord_of_live (now : Nat) (h : WF g.order g.present) (hentry : g.order = pre ++ (k, ts) :: post)
    (hclock : now ≤ ts + g.ttlSecs) : (g.checkAndRecord k now).1 = true := by
  obtain ⟨pre', hlive⟩ := evict_append k post (show now - g.ttlSecs ≤ ts by omega) pre
    g.present
  rw [← hentry] at hlive
  obtain ⟨-, heq⟩ | ⟨hnew, -⟩ := checkAndRecord_cases g k now
  · rw [heq]
  · refine absurd ((evict_wf h).mem_iff.mpr ?_) hnew
    rw [hlive]
    simp

/-- A new key stands at the end of the order. -/
theorem checkAndRecord_new (hnew : (g.checkAndRecord key now).1 = false) :
    ∃ pre, (g.checkAndRecord key now).2.order = pre ++ [(key, now)] := by
  obtain ⟨-, heq⟩ | ⟨-, heq⟩ := checkAndRecord_cases g key now
  · rw [heq] at hnew
    cases hnew
  · rw [heq]
    exact ⟨_, rfl⟩

/-- **An entry is kept** by a call whose clock is not past it, unless there is no room for one
more entry behind it. -/
theorem checkAndRecord_keeps (key : Key) (h : WF g.order g.present)
    (hentry : g.order = pre ++ (k, ts) :: post) (hclock : now ≤ ts + g.ttlSecs) :
    ((g.checkAndRecord key now).1 = true ∧
      ∃ pre', (g.checkAndRecord key now).2.order = pre' ++ (k, ts) :: post) ∨
    ((g.checkAndRecord key now).1 = false ∧ key ∉ post.map Prod.fst ∧
      (post.length + 1 < g.maxEntries → ∃ pre',
        (g.checkAndRecord key now).2.order = pre' ++ (k, ts) :: (post ++ [(key, now)]))) := by
  obtain ⟨pre', hlive⟩ := evict_append k post (show now - g.ttlSecs ≤ ts by omega) pre
    g.present
  rw [← hentry] at hlive
  obtain ⟨-, heq⟩ | ⟨hnew, heq⟩ := checkAndRecord_cases g key now
  · rw [heq]
    exact .inl ⟨rfl, pre', hlive⟩
  · rw [heq]
    refine .inr ⟨rfl, ?_, fun hroom => ?_⟩
    · intro hmem
      refine hnew ((evict_wf h).mem_iff.mpr ?_)
      rw [hlive, List.map_append, List.map_cons]
      exact List.mem_append_right _ (List.mem_cons_of_mem _ hmem)
    · obtain ⟨pre'', hkept⟩ := makeRoom_append pre' (k, ts)
        (evict (now - g.ttlSecs) g.order g.present).2 hroom
      rw [← hlive] at hkept
      refine ⟨pre'', ?_⟩
      show (makeRoom _ _ _).1 ++ [(key, now)] = _
      rw [hkept]
      simp

end ReplayGuard

end Leshiy.Reality
