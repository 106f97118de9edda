import Mathlib.Data.List.Basic

/-!
# Overwriting a part of a buffer

`splice i src l` is `l` with `src` written over it from position `i` on. What is read from the place that was
written is what was written there, and what is read from elsewhere is as it was before.
-/

namespace Leshiy.Lib

variable {α : Type}

/-- `n` elements from position `i` on. -/
def slice (i n : Nat) (l : List α) : List α :=
  (l.drop i).take n

def splice (i : Nat) (src l : List α) : List α :=
  l.take i ++ (src ++ l.drop (i + src.length))

/-- `l[i..j].copy_from_slice(src)`; `none` is the panic on a range or a length that is wrong. -/
def copyFromSlice (i j : Nat) (src l : List α) : Option (List α) :=
  if i ≤ j ∧ j ≤ l.length ∧ src.length = j - i then some (splice i src l) else none

/-- `l[i..j].fill(a)`. -/
def fillRange (i j : Nat) (a : α) (l : List α) : Option (List α) :=
  copyFromSlice i j (List.replicate (j - i) a) l

theorem copyFromSlice_eq_some {i j : Nat} {src l : List α} (hj : j ≤ l.length)
    (hsrc : i + src.length = j) : copyFromSlice i j src l = some (splice i src l) :=
  if_pos ⟨by omega, hj, by omega⟩

theorem fillRange_eq_some {i j : Nat} {a : α} {l : List α} (hij : i ≤ j) (hj : j ≤ l.length) :
    fillRange i j a l = some (splice i (List.replicate (j - i) a) l) :=
  copyFromSlice_eq_some hj (by rw [List.length_replicate]; omega)

section

variable {i : Nat} {src src' l m : List α}

theorem length_slice {n : Nat} (h : i + n ≤ l.length) : (slice i n l).length = n := by
  rw [slice, List.length_take, List.length_drop]
  omega

theorem slice_append_left {n : Nat} (h : i + n ≤ l.length) : slice i n (l ++ m) = slice i n l := by
  rw [slice, List.drop_append_of_le_length (by omega), List.take_append_of_le_length]
  · rfl
  · rw [List.length_drop]
    omega

theorem slice_append_right {n : Nat} (h : i = l.length) : slice i n (l ++ m) = m.take n := by
  rw [slice, List.drop_left' h.symm]

variable (h : i + src.length ≤ l.length)

include h

theorem length_splice : (splice i src l).length = l.length := by
  rw [splice, List.length_append, List.length_append, List.length_take, List.length_drop]
  omega

theorem take_splice {j : Nat} (hj : j ≤ i) : (splice i src l).take j = l.take j := by
  rw [splice, List.take_append_of_le_length, List.take_take, Nat.min_eq_left hj]
  rw [List.length_take]
  omega

theorem drop_splice {j : Nat} (hj : i + src.length ≤ j) : (splice i src l).drop j = l.drop j := by
  have hhead : (l.take i ++ src).length = i + src.length := by
    rw [List.length_append, List.length_take]
    omega
  rw [splice, ← List.append_assoc, List.drop_append, List.drop_eq_nil_of_le (by omega), hhead,
    List.drop_drop, List.nil_append]
  congr 1
  omega

theorem slice_splice : slice i src.length (splice i src l) = src := by
  rw [slice, splice, List.drop_left' (by rw [List.length_take]; omega), List.take_left]

theorem slice_splice_of_le {j n : Nat} (hj : j + n ≤ i) : slice j n (splice i src l) = slice j n l := by
  rw [slice, slice, List.take_drop, List.take_drop, take_splice h hj]

theorem slice_splice_of_ge {j n : Nat} (hj : i + src.length ≤ j) :
    slice j n (splice i src l) = slice j n l := by
  rw [slice, slice, drop_splice h hj]

theorem splice_splice (hlen : src'.length = src.length) :
    splice i src' (splice i src l) = splice i src' l := by
  rw [splice, take_splice h (Nat.le_refl i), drop_splice h (by omega)]
  rfl

theorem splice_append : splice i src (l ++ m) = splice i src l ++ m := by
  rw [splice, splice, List.take_append_of_le_length (by omega), List.drop_append_of_le_length h,
    List.append_assoc, List.append_assoc]

end

end Leshiy.Lib
