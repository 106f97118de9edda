import Leshiy.Lib.BigEndian
import Mathlib.Tactic.SplitIfs

/-!
# Variable-length integers of QUIC

A number below `2 ^ 62` in one, two, four or eight bytes, big-endian; the two highest bits of the first byte
say how many.
-/

namespace Leshiy.Lib.QuicVarint

/-- The two highest bits. -/
def lengthBits (n : Nat) : Nat :=
  if n < 2 ^ 6 then 0 else if n < 2 ^ 14 then 1 else if n < 2 ^ 30 then 2 else 3

def encode (n : Nat) : List UInt8 :=
  let k := lengthBits n
  beEncode (2 ^ k) (k * 2 ^ (8 * 2 ^ k - 2) + n)

/-- The number at the start and what follows it. -/
def decode : List UInt8 → Option (Nat × List UInt8)
  | [] => none
  | b :: rest =>
    let w := 2 ^ (b.toNat / 2 ^ 6)
    if (b :: rest).length < w then none
    else some (beDecode ((b :: rest).take w) % 2 ^ (8 * w - 2), (b :: rest).drop w)

theorem lengthBits_lt (n : Nat) : lengthBits n < 4 := by
  unfold lengthBits
  split_ifs <;> omega

theorem lt_of_lengthBits {n : Nat} (h : n < 2 ^ 62) : n < 2 ^ (8 * 2 ^ lengthBits n - 2) := by
  unfold lengthBits
  split_ifs <;> simpa

/-- The first byte of a number is what its division by the weight of that byte gives. -/
theorem beEncode_succ (w n : Nat) : beEncode (w + 1) n = UInt8.ofNat (n / 256 ^ w) :: beEncode w n := by
  induction w generalizing n with
  | zero => simp [beEncode]
  | succ w ih =>
    have hdiv : n / 256 / 256 ^ w = n / 256 ^ (w + 1) := by rw [Nat.div_div_eq_div_mul, ← pow_succ']
    rw [beEncode, ih, List.cons_append, hdiv]
    rfl

theorem pow_eq (k : Nat) : 256 ^ 2 ^ k = 4 * 2 ^ (8 * 2 ^ k - 2) := by
  have hk : 0 < 2 ^ k := Nat.two_pow_pos k
  calc 256 ^ 2 ^ k = (2 ^ 8) ^ 2 ^ k := rfl
    _ = 2 ^ (2 + (8 * 2 ^ k - 2)) := by rw [← pow_mul, Nat.add_sub_cancel' (by omega)]
    _ = 4 * 2 ^ (8 * 2 ^ k - 2) := pow_add 2 2 _

/-- **Reading gives back what was written, and what came after it.** -/
theorem decode_encode {n : Nat} (h : n < 2 ^ 62) (rest : List UInt8) :
    decode (encode n ++ rest) = some (n, rest) := by
  have hk := lengthBits_lt n
  have hn := lt_of_lengthBits h
  simp only [encode]
  generalize lengthBits n = k at hk hn
  have hpow := pow_eq k
  obtain ⟨w, hw⟩ : ∃ w, 2 ^ k = w + 1 := Nat.exists_eq_add_one.mpr (Nat.two_pow_pos k)
  rw [hw] at hn hpow ⊢
  generalize hbits : 2 ^ (8 * (w + 1) - 2) = bits at hn hpow
  have hlt : k * bits + n < 256 ^ (w + 1) := by
    rw [hpow]
    calc k * bits + n < k * bits + bits := by omega
      _ = (k + 1) * bits := (Nat.succ_mul k bits).symm
      _ ≤ 4 * bits := Nat.mul_le_mul_right bits hk
  have hweight : 256 ^ w * 2 ^ 6 = bits := by
    rw [pow_succ] at hpow
    omega
  have hbyte : (k * bits + n) / 256 ^ w < 256 :=
    Nat.div_lt_of_lt_mul (by rwa [← pow_succ])
  have htop : (k * bits + n) / 256 ^ w / 2 ^ 6 = k := by
    rw [Nat.div_div_eq_div_mul, hweight, Nat.mul_comm, Nat.mul_add_div (by omega), Nat.div_eq_of_lt hn,
      Nat.add_zero]
  have hfirst : 2 ^ ((UInt8.ofNat ((k * bits + n) / 256 ^ w)).toNat / 2 ^ 6) = w + 1 := by
    rw [UInt8.toNat_ofNat', Nat.mod_eq_of_lt hbyte, htop, hw]
  have hcons := beEncode_succ w (k * bits + n)
  rw [hcons, List.cons_append]
  simp only [decode, hfirst]
  rw [if_neg (by simp), ← List.cons_append, ← hcons, List.take_left' (length_beEncode _ _),
    List.drop_left' (length_beEncode _ _), beDecode_beEncode hlt, hbits, Nat.mul_add_mod_self_right,
    Nat.mod_eq_of_lt hn]

end Leshiy.Lib.QuicVarint
