import Mathlib.Data.Finset.Card
import Mathlib.Data.List.Nodup

/-!
# Lists with a key

A list stands for a map when its elements have a key that no two of them share. `put` replaces the element
with the key of the new one, or appends it; `putAll` does so with one element after the other.
-/

namespace Leshiy.Lib.Keyed

variable {α K : Type} [DecidableEq K] {key : α → K} {k : K} {x y : α} {l : List α}

def lookup (key : α → K) (k : K) (l : List α) : Option α := l.find? fun x => key x = k

def put (key : α → K) (x : α) (l : List α) : List α :=
  match l.findIdx? fun y => key y = key x with
  | some i => l.set i x
  | none => l ++ [x]

/-- No two elements share a key. -/
def Unique (key : α → K) (l : List α) : Prop := (l.map key).Nodup

/-! ## Looking up -/

theorem lookup_cons : lookup key k (y :: l) = if key y = k then some y else lookup key k l := by
  unfold lookup
  by_cases h : key y = k <;> simp [h]

theorem lookup_key (h : lookup key k l = some x) : key x = k := by
  simpa using List.find?_some h

theorem lookup_mem (h : lookup key k l = some x) : x ∈ l := List.mem_of_find?_eq_some h

theorem lookup_eq_none : lookup key k l = none ↔ ∀ x ∈ l, key x ≠ k := by
  simp [lookup]

omit [DecidableEq K] in
/-- A part of the list has unique keys as well. -/
theorem Unique.sublist {l' : List α} (hl : Unique key l) (h : l'.Sublist l) : Unique key l' :=
  List.Nodup.sublist (h.map key) hl

/-- Dropping a key drops the one element that has it. -/
theorem Unique.filter_ne {before after : List α} (hl : Unique key (before ++ x :: after)) :
    (before ++ x :: after).filter (fun y => key y ≠ key x) = before ++ after := by
  simp only [Unique, List.map_append, List.map_cons, List.nodup_middle, List.nodup_cons, List.mem_append,
    List.mem_map, not_or, not_exists, not_and] at hl
  obtain ⟨⟨hbefore, hafter⟩, -⟩ := hl
  rw [List.filter_append, List.filter_cons_of_neg (by simp),
    List.filter_eq_self.mpr fun y hy => decide_eq_true (hbefore y hy),
    List.filter_eq_self.mpr fun y hy => decide_eq_true (hafter y hy)]

/-! ## Putting one element -/

@[simp] theorem put_nil : put key x [] = [x] := rfl

theorem put_cons : put key x (y :: l) = if key y = key x then x :: l else y :: put key x l := by
  unfold put
  rw [List.findIdx?_cons]
  by_cases h : key y = key x
  · simp [h]
  · cases l.findIdx? fun y => key y = key x <;> simp [h]

/-- The keys stay where they are; a new one comes last. -/
theorem map_put : (put key x l).map key = if key x ∈ l.map key then l.map key else l.map key ++ [key x] := by
  induction l with
  | nil => simp
  | cons y l ih =>
    rw [put_cons]
    by_cases h : key y = key x
    · simp [h]
    · rw [if_neg h, List.map_cons, ih]
      by_cases hmem : key x ∈ l.map key
      · simp only [if_pos hmem, List.map_cons, if_pos (List.mem_cons_of_mem _ hmem)]
      · have hnot : key x ∉ (y :: l).map key := by simpa [Ne.symm h] using hmem
        rw [if_neg hmem, if_neg hnot, List.map_cons, List.cons_append]

theorem Unique.put (hl : Unique key l) : Unique key (put key x l) := by
  unfold Unique
  rw [map_put]
  split
  · exact hl
  · next hmem => simpa [List.nodup_append] using ⟨hl, fun y hy heq => hmem (heq ▸ List.mem_map_of_mem hy)⟩

theorem lookup_put : lookup key k (put key x l) = if key x = k then some x else lookup key k l := by
  induction l with
  | nil => simp [lookup]
  | cons y l ih =>
    rw [put_cons]
    by_cases h : key y = key x
    · rw [if_pos h, lookup_cons, lookup_cons, h]
      split <;> rfl
    · rw [if_neg h, lookup_cons, ih, lookup_cons]
      by_cases hk : key y = k
      · rw [if_pos hk, if_pos hk, if_neg fun hx => h (hk.trans hx.symm)]
      · rw [if_neg hk, if_neg hk]

/-- Elements with another key are left where they are. -/
theorem getElem?_put {i : Nat} (h : l[i]? = some y) (hne : key y ≠ key x) :
    (put key x l)[i]? = some y := by
  induction l generalizing i with
  | nil => simp at h
  | cons z l ih =>
    rw [put_cons]
    cases i with
    | zero =>
      simp only [List.getElem?_cons_zero, Option.some.injEq] at h
      simp [h, hne]
    | succ i =>
      rw [List.getElem?_cons_succ] at h
      split
      · exact h
      · exact ih h

/-! ## Putting many -/

def putAll (key : α → K) (xs l : List α) : List α := xs.foldl (fun l x => put key x l) l

@[simp] theorem putAll_nil : putAll key [] l = l := rfl

theorem putAll_concat {xs : List α} : putAll key (xs ++ [x]) l = put key x (putAll key xs l) := by
  simp [putAll]

theorem Unique.putAll {xs : List α} (hl : Unique key l) : Unique key (putAll key xs l) := by
  induction xs using List.reverseRecOn with
  | nil => exact hl
  | append_singleton xs x ih =>
    rw [putAll_concat]
    exact ih.put

/-- The last element with a key is the one that is kept. -/
theorem lookup_putAll {xs : List α} :
    lookup key k (putAll key xs l) = (lookup key k xs.reverse).or (lookup key k l) := by
  induction xs using List.reverseRecOn with
  | nil => rfl
  | append_singleton xs x ih =>
    rw [putAll_concat, lookup_put, ih, List.reverse_append, List.reverse_singleton, List.singleton_append,
      lookup_cons]
    split <;> rfl

/-- Elements with none of the keys are left where they are. -/
theorem getElem?_putAll {xs : List α} {i : Nat} (h : l[i]? = some y) (hne : ∀ x ∈ xs, key x ≠ key y) :
    (putAll key xs l)[i]? = some y := by
  induction xs using List.reverseRecOn with
  | nil => exact h
  | append_singleton xs x ih =>
    rw [putAll_concat]
    exact getElem?_put (ih fun z hz => hne z (List.mem_append_left _ hz))
      (hne x (List.mem_append_right _ (List.mem_singleton_self x))).symm

/-- The keys that were there stay in their places. -/
theorem map_prefix_putAll {xs : List α} : l.map key <+: (putAll key xs l).map key := by
  induction xs using List.reverseRecOn with
  | nil => exact List.prefix_rfl
  | append_singleton xs x ih =>
    rw [putAll_concat, map_put]
    split
    · exact ih
    · exact ih.trans (List.prefix_append _ _)

def keys (key : α → K) (l : List α) : Finset K := (l.map key).toFinset

theorem mem_keys : k ∈ keys key l ↔ k ∈ l.map key := List.mem_toFinset

@[simp] theorem keys_nil : keys key ([] : List α) = ∅ := rfl

theorem keys_concat : keys key (l ++ [x]) = insert (key x) (keys key l) := by
  ext k
  simp [keys]

theorem keys_put : keys key (put key x l) = insert (key x) (keys key l) := by
  ext k
  rw [Finset.mem_insert, mem_keys, mem_keys, map_put]
  split
  · next hmem => exact ⟨.inr, fun h => h.elim (fun heq => heq ▸ hmem) id⟩
  · simp [or_comm]

theorem keys_putAll {xs : List α} : keys key (putAll key xs l) = keys key l ∪ keys key xs := by
  induction xs using List.reverseRecOn with
  | nil => simp
  | append_singleton xs x ih => rw [putAll_concat, keys_put, ih, keys_concat, Finset.union_insert]

/-- A key counts as new when it is neither in the list nor among those put before. -/
theorem card_new_concat {xs : List α} : (keys key (xs ++ [x]) \ keys key l).card =
    (keys key xs \ keys key l).card + if key x ∈ keys key (putAll key xs l) then 0 else 1 := by
  rw [keys_concat, keys_putAll]
  by_cases hl : key x ∈ keys key l
  · rw [Finset.insert_sdiff_of_mem _ hl, if_pos (Finset.mem_union_left _ hl), Nat.add_zero]
  · rw [Finset.insert_sdiff_of_notMem _ hl]
    by_cases hxs : key x ∈ keys key xs
    · rw [Finset.insert_eq_of_mem (Finset.mem_sdiff.mpr ⟨hxs, hl⟩), if_pos (Finset.mem_union_right _ hxs),
        Nat.add_zero]
    · rw [Finset.card_insert_of_notMem fun h => hxs (Finset.mem_sdiff.mp h).1,
        if_neg fun h => (Finset.mem_union.mp h).elim hl hxs]

end Leshiy.Lib.Keyed
