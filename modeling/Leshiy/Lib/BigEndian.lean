import Mathlib.Data.List.Induction
import Mathlib.Tactic.Ring

/-!
# Big-endian numbers

`beEncode w n` writes the low `w` bytes of `n`, most significant first; values that do not fit
are cut to their low bytes, as an `as u16` or `as u8` cast does. `beDecode` reads a byte string
back as a number.
-/

namespace Leshiy.Lib

/-- The low `w` bytes of `n`, most significant byte first. -/
def beEncode : Nat → Nat → List UInt8
  | 0, _ => []
  | w + 1, n => beEncode w (n / 256) ++ [UInt8.ofNat n]

/-- The number a byte string stands for. -/
def beDecode (l : List UInt8) : Nat := l.foldl (fun acc b => acc * 256 + b.toNat) 0

@[simp] theorem length_beEncode : ∀ w n : Nat, (beEncode w n).length = w
  | 0, _ => rfl
  | w + 1, n => by simp [beEncode, length_beEncode w]

@[simp] theorem beDecode_nil : beDecode [] = 0 := rfl

theorem beDecode_snoc (l : List UInt8) (b : UInt8) :
    beDecode (l ++ [b]) = beDecode l * 256 + b.toNat := by
  simp [beDecode]

/-- Reading back gives the value modulo the width. -/
theorem beDecode_beEncode_mod : ∀ w n : Nat, beDecode (beEncode w n) = n % 256 ^ w
  | 0, n => by simp [beEncode, Nat.mod_one]
  | w + 1, n => by
    rw [beEncode, beDecode_snoc, beDecode_beEncode_mod w]
    have h256 : (UInt8.ofNat n).toNat = n % 256 := by simp
    rw [h256, pow_succ, Nat.mul_comm (256 ^ w) 256, Nat.mod_mul]
    ring

/-- A value that fits its width is read back unchanged. -/
@[simp] theorem beDecode_beEncode {w n : Nat} (h : n < 256 ^ w) :
    beDecode (beEncode w n) = n := by
  rw [beDecode_beEncode_mod, Nat.mod_eq_of_lt h]

theorem beDecode_lt (l : List UInt8) : beDecode l < 256 ^ l.length := by
  induction l using List.reverseRecOn with
  | nil => simp
  | append_singleton l b ih =>
    have hb : b.toNat < 256 := b.toNat_lt
    rw [beDecode_snoc, List.length_append, List.length_singleton, pow_succ]
    omega

/-- Writing what was read gives the same bytes. -/
theorem beEncode_beDecode (l : List UInt8) : beEncode l.length (beDecode l) = l := by
  induction l using List.reverseRecOn with
  | nil => rfl
  | append_singleton l b ih =>
    have hb : b.toNat < 256 := b.toNat_lt
    have hdiv : (beDecode l * 256 + b.toNat) / 256 = beDecode l := by omega
    have hmod : UInt8.ofNat (beDecode l * 256 + b.toNat) = b := by
      apply UInt8.toNat_inj.mp
      simp only [UInt8.toNat_ofNat']
      omega
    rw [List.length_append, List.length_singleton, beEncode, beDecode_snoc, hdiv, hmod, ih]

end Leshiy.Lib
