import Mathlib.Algebra.BigOperators.Group.Finset.Basic
import Mathlib.Algebra.GroupWithZero.Nat
import Mathlib.Data.List.AList

/-!
# Tallies

A table that holds a count for each key *counts* a list of keys if every key of the list stands in it
with the number of times it occurs, and no other key stands in it at all. Adding an element and taking
one away keep that, and the counts add up to the length of the list.
-/

namespace Leshiy.Lib

abbrev Tally (κ : Type) := AList fun _ : κ => Nat

namespace Tally

variable {κ : Type} [DecidableEq κ]

/-- What is not in the table has been counted no times. -/
def count (t : Tally κ) (k : κ) : Nat := (t.lookup k).getD 0

/-- All counts together. -/
def sum (t : Tally κ) : Nat := (t.entries.map Sigma.snd).sum

/-- The table counts the list. -/
def Counts (t : Tally κ) (l : List κ) : Prop :=
  ∀ k, t.lookup k = if k ∈ l then some (l.count k) else none

variable {t : Tally κ} {l : List κ} {k : κ}

theorem counts_empty : Counts (∅ : Tally κ) [] := fun _ => rfl

theorem Counts.count_eq (h : t.Counts l) (k : κ) : t.count k = l.count k := by
  rw [count, h k]
  split
  · rfl
  · next hk => exact (List.count_eq_zero_of_not_mem hk).symm

/-- No key is kept with a count of zero. -/
theorem Counts.lookup_ne_zero (h : t.Counts l) (k : κ) : t.lookup k ≠ some 0 := by
  rw [h k]
  split
  · next hk =>
    intro heq
    exact (List.count_pos_iff.mpr hk).ne' (Option.some.inj heq)
  · nofun

/-- One more of a key. -/
theorem Counts.insert (h : t.Counts l) (k : κ) : Counts (t.insert k (t.count k + 1)) (k :: l) := by
  intro k'
  by_cases hk : k' = k
  · subst hk
    rw [AList.lookup_insert, if_pos List.mem_cons_self, List.count_cons_self, h.count_eq]
  · have hmem : k' ∈ k :: l ↔ k' ∈ l := by rw [List.mem_cons, or_iff_right hk]
    rw [AList.lookup_insert_ne hk, h k', List.count_cons_of_ne (Ne.symm hk)]
    simp only [hmem]

/-- The counts of the other keys when one of a key is taken away. -/
theorem count_erase_of_ne {k' : κ} (hk : k' ≠ k) :
    (if k' ∈ l.erase k then some ((l.erase k).count k') else none) =
      if k' ∈ l then some (l.count k') else none := by
  simp only [List.mem_erase_of_ne hk, List.count_erase_of_ne hk]

/-- The last of a key. -/
theorem Counts.erase (h : t.Counts l) (hk : l.count k = 1) : Counts (t.erase k) (l.erase k) := by
  intro k'
  by_cases heq : k' = k
  · subst heq
    have hnone : k' ∉ l.erase k' := by
      rw [← List.count_eq_zero, List.count_erase_self, hk]
    rw [AList.lookup_erase, if_neg hnone]
  · rw [AList.lookup_erase_ne heq, h k', count_erase_of_ne heq]

/-- One of several of a key. -/
theorem Counts.pred (h : t.Counts l) (hk : 1 < l.count k) :
    Counts (t.insert k (l.count k - 1)) (l.erase k) := by
  intro k'
  by_cases heq : k' = k
  · subst heq
    have hmem : k' ∈ l.erase k' := by
      rw [← List.count_pos_iff, List.count_erase_self]
      omega
    rw [AList.lookup_insert, if_pos hmem, List.count_erase_self]
  · rw [AList.lookup_insert_ne heq, h k', count_erase_of_ne heq]

theorem Counts.mem_keys (h : t.Counts l) : k ∈ t.keys ↔ k ∈ l := by
  rw [← AList.mem_keys, ← AList.lookup_isSome, h k]
  split
  · next hk => simp [hk]
  · next hk => simp [hk]

/-- **The counts add up to what was counted.** -/
theorem Counts.sum_eq (h : t.Counts l) : t.sum = l.length := by
  have hcounts : t.entries.map Sigma.snd = t.keys.map fun k => l.count k := by
    rw [AList.keys, List.keys, List.map_map]
    refine List.map_congr_left fun e he => ?_
    have hlookup : t.lookup e.1 = some e.2 := AList.mem_lookup_iff.mpr he
    rw [h e.1] at hlookup
    split at hlookup
    · exact (Option.some.inj hlookup).symm
    · cases hlookup
  have hkeys : t.keys.toFinset = l.toFinset := by
    ext k
    rw [List.mem_toFinset, List.mem_toFinset, h.mem_keys]
  calc t.sum = (t.keys.map fun k => l.count k).sum := by rw [sum, hcounts]
    _ = ∑ k ∈ t.keys.toFinset, l.count k := (List.sum_toFinset _ t.keys_nodup).symm
    _ = l.length := by rw [hkeys, List.sum_toFinset_count_eq_length]

end Tally

end Leshiy.Lib
