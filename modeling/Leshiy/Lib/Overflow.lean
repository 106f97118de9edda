import Mathlib.Algebra.Group.Nat.Defs

/-!
# Arithmetic of a fixed width

A result that its type does not hold is a panic in a build that checks for it; in any other build it wraps
around. `none` is the panic.
-/

namespace Leshiy.Lib.Overflow

section

variable (checks : Bool) (bound : Nat)

/-- A result in a type of so many values. -/
def fit (n : Nat) : Option Nat := if n < bound then some n else if checks then none else some (n % bound)

def add (a b : Nat) : Option Nat := fit checks bound (a + b)

def mul (a b : Nat) : Option Nat := fit checks bound (a * b)

def sub (a b : Nat) : Option Nat :=
  if b ≤ a then some (a - b) else if checks then none else some (bound + a - b)

end

section

variable {checks : Bool} {bound a b n m : Nat}

theorem fit_of_lt (h : n < bound) : fit checks bound n = some n := if_pos h

/-- What wraps around is never the result. -/
theorem fit_eq_self (hbound : 0 < bound) : fit checks bound n = some n ↔ n < bound := by
  refine ⟨fun h => Nat.lt_of_not_le fun hge => ?_, fit_of_lt⟩
  rw [fit, if_neg (Nat.not_lt.mpr hge)] at h
  cases checks with
  | true => cases h
  | false =>
    have hwrap : n % bound = n := Option.some.inj h
    exact absurd (hwrap ▸ Nat.mod_lt n hbound) (Nat.not_lt.mpr hge)

/-- A sum whose second part has overflowed is the whole sum, in what it wraps to and in its panic. -/
theorem fit_bind_add : (fit checks bound n).bind (add checks bound a) = fit checks bound (a + n) := by
  unfold fit
  by_cases hn : n < bound
  · rw [if_pos hn]
    rfl
  · have hsum : ¬a + n < bound := fun h => hn (Nat.lt_of_le_of_lt (Nat.le_add_left n a) h)
    rw [if_neg hn, if_neg hsum]
    cases checks with
    | true => rfl
    | false =>
      change fit false bound (a + n % bound) = some ((a + n) % bound)
      unfold fit
      split
      · next hlt => rw [← Nat.add_mod_mod, Nat.mod_eq_of_lt hlt]
      · rw [if_neg Bool.false_ne_true, Nat.add_mod_mod]

theorem sub_of_le (h : b ≤ a) : sub checks bound a b = some (a - b) := if_pos h

end

end Leshiy.Lib.Overflow
