import Mathlib.Data.List.Basic

/-!
# One's-complement sums

The sum of a byte string in words of 16 bits, the high byte of each first and a last odd byte padded on the
right, with every carry out of the 16 bits added in again. Zero has two forms in this arithmetic; a sum that is
not zero never folds to the form without ones, so a sum and its complement always fold to all ones.
-/

namespace Leshiy.Lib

/-- The sum of the words, with no bound. -/
def wordSum : List UInt8 → Nat
  | hi :: lo :: rest => hi.toNat * 256 + lo.toNat + wordSum rest
  | [last] => last.toNat * 256
  | [] => 0

theorem wordSum_le : ∀ l : List UInt8, wordSum l ≤ 65535 * ((l.length + 1) / 2)
  | hi :: lo :: rest => by
    have hrest := wordSum_le rest
    have hhi := hi.toNat_lt
    have hlo := lo.toNat_lt
    have hlen : ((hi :: lo :: rest).length + 1) / 2 = (rest.length + 1) / 2 + 1 := by
      rw [List.length_cons, List.length_cons]
      omega
    rw [wordSum, hlen]
    omega
  | [last] => by
    have hlast := last.toNat_lt
    rw [wordSum, List.length_singleton]
    omega
  | [] => Nat.zero_le _

theorem wordSum_append (m : List UInt8) : ∀ {l : List UInt8}, l.length % 2 = 0 →
    wordSum (l ++ m) = wordSum l + wordSum m
  | hi :: lo :: rest, h => by
    have hrest : rest.length % 2 = 0 := by
      rw [List.length_cons, List.length_cons] at h
      omega
    rw [List.cons_append, List.cons_append, wordSum, wordSum, wordSum_append m hrest]
    omega
  | [_], h => by cases h
  | [], _ => (Nat.zero_add _).symm

/-- A sum with its carries folded in. -/
def onesFold (n : Nat) : Nat :=
  if n = 0 then 0 else (n - 1) % 65535 + 1

variable {n : Nat}

theorem onesFold_le : onesFold n ≤ 65535 := by
  unfold onesFold
  split <;> omega

theorem onesFold_of_lt (h : n < 65536) : onesFold n = n := by
  unfold onesFold
  split <;> omega

/-- Adding the carries in does not change what the sum folds to. -/
theorem onesFold_carry (h : 65536 ≤ n) : onesFold (n % 65536 + n / 65536) = onesFold n := by
  have hcarry : n % 65536 + n / 65536 ≠ 0 := by omega
  have hn : n ≠ 0 := by omega
  have hmod : (n % 65536 + n / 65536 - 1) % 65535 = (n - 1) % 65535 := by omega
  rw [onesFold, onesFold, if_neg hcarry, if_neg hn, hmod]

/-- **A sum and its complement fold to all ones.** -/
theorem onesFold_add_complement (n : Nat) : onesFold (n + (65535 - onesFold n)) = 65535 := by
  by_cases hn : n = 0
  · subst hn
    rfl
  · have hfold : onesFold n = (n - 1) % 65535 + 1 := if_neg hn
    have hsum : n + (65535 - onesFold n) ≠ 0 := by omega
    have hmod : (n + (65535 - onesFold n) - 1) % 65535 = 65534 := by omega
    rw [onesFold, if_neg hsum, hmod]

/-- A byte string that carries its own checksum: the sum folds to all ones. -/
def Verifies (l : List UInt8) : Prop :=
  onesFold (wordSum l) = 65535

end Leshiy.Lib
