import Mathlib.Algebra.Group.Nat.Defs

/-!
# Seconds

`std::time::Duration` as whole seconds and nanoseconds, and differences of clocks that count whole
seconds.
-/

namespace Leshiy.Lib

structure Duration where
  secs : Nat
  nanos : Nat
  deriving DecidableEq, Repr

namespace Duration

def asSecs (d : Duration) : Nat := d.secs

def asNanos (d : Duration) : Nat := d.secs * 1000000000 + d.nanos

/-- `saturating_mul`: the largest duration in the place of one whose seconds do not fit. -/
def saturatingMul (d : Duration) (k : Nat) : Duration :=
  let secs := d.secs * k + d.nanos * k / 1000000000
  if secs < 2 ^ 64 then ⟨secs, d.nanos * k % 1000000000⟩ else ⟨2 ^ 64 - 1, 999999999⟩

/-- Nothing is lost up to the largest duration. -/
theorem le_asSecs_saturatingMul (d : Duration) (k : Nat) :
    min (d.asSecs * k) (2 ^ 64 - 1) ≤ (d.saturatingMul k).asSecs := by
  unfold saturatingMul asSecs
  dsimp only
  split
  · show _ ≤ d.secs * k + d.nanos * k / 1000000000
    omega
  · show _ ≤ 2 ^ 64 - 1
    omega

/-- `Ord::min`, by seconds and then by nanoseconds. -/
def min (d e : Duration) : Duration :=
  if e.secs < d.secs ∨ (e.secs = d.secs ∧ e.nanos < d.nanos) then e else d

end Duration

/-- `u32::abs_diff`. -/
def absDiff (a b : UInt32) : Nat := max a.toNat b.toNat - min a.toNat b.toNat

end Leshiy.Lib
