import Mathlib.Algebra.Group.Nat.Defs
import Mathlib.Data.List.Basic

/-!
# Lossy UTF-8 decoding

`fromUtf8Lossy` follows `String::from_utf8_lossy`: well-formed input is taken as it is, and
otherwise each maximal ill-formed part becomes one U+FFFD.
-/

namespace Leshiy.Lib

/-- The UTF-8 bytes of a string. -/
def utf8Bytes (s : String) : List UInt8 := s.toByteArray.data.toList

/-- How many continuation bytes a lead byte asks for, and the range of the first of them. -/
def utf8Lead (a : UInt8) : Option (Nat × UInt8 × UInt8) :=
  if 0xC2 ≤ a ∧ a ≤ 0xDF then some (1, 0x80, 0xBF)
  else if a = 0xE0 then some (2, 0xA0, 0xBF)
  else if a = 0xED then some (2, 0x80, 0x9F)
  else if 0xE1 ≤ a ∧ a ≤ 0xEF then some (2, 0x80, 0xBF)
  else if a = 0xF0 then some (3, 0x90, 0xBF)
  else if 0xF1 ≤ a ∧ a ≤ 0xF3 then some (3, 0x80, 0xBF)
  else if a = 0xF4 then some (3, 0x80, 0x8F)
  else none

/-- The continuation bytes present, at most `k`; only the first has its own range. -/
def utf8Conts : Nat → UInt8 → UInt8 → List UInt8 → List UInt8
  | k + 1, lo, hi, b :: r => if lo ≤ b ∧ b ≤ hi then b :: utf8Conts k 0x80 0xBF r else []
  | _, _, _, _ => []

/-- The first character of a non-empty byte string and the bytes it takes. -/
def utf8Head (a : UInt8) (r : List UInt8) : Char × Nat :=
  if a < 0x80 then (Char.ofNat a.toNat, 1)
  else
    match utf8Lead a with
    | none => ('\uFFFD', 1)
    | some (k, lo, hi) =>
      let cs := utf8Conts k lo hi r
      if cs.length = k then
        let lead := a.toNat % 2 ^ (6 - k)
        (Char.ofNat (cs.foldl (fun acc c => acc * 64 + c.toNat % 64) lead), 1 + k)
      else ('\uFFFD', 1 + cs.length)

theorem utf8Head_pos (a : UInt8) (r : List UInt8) : 0 < (utf8Head a r).2 := by
  simp only [utf8Head]
  split
  · simp
  · split
    · simp
    · split
      · exact Nat.add_pos_left Nat.one_pos _
      · exact Nat.add_pos_left Nat.one_pos _

def lossyChars : List UInt8 → List Char
  | [] => []
  | a :: r => (utf8Head a r).1 :: lossyChars ((a :: r).drop (utf8Head a r).2)
termination_by l => l.length
decreasing_by
  have := utf8Head_pos a r
  simp only [List.length_drop, List.length_cons]
  omega

def fromUtf8Lossy (b : List UInt8) : String :=
  match String.fromUTF8? ⟨b.toArray⟩ with
  | some s => s
  | none => String.ofList (lossyChars b)

/-- The UTF-8 bytes of a string decode to that string. -/
@[simp] theorem fromUtf8Lossy_utf8Bytes (s : String) : fromUtf8Lossy (utf8Bytes s) = s := by
  have hb : (⟨(utf8Bytes s).toArray⟩ : ByteArray) = s.toByteArray := rfl
  have h : String.fromUTF8? s.toByteArray = some s := by
    rw [String.fromUTF8?, dif_pos s.isValidUTF8]
    rfl
  rw [fromUtf8Lossy, hb, h]

theorem length_utf8Bytes (s : String) : (utf8Bytes s).length = s.utf8ByteSize := by
  rw [utf8Bytes, Array.length_toList]
  rfl

theorem length_utf8Bytes_replicate (c : Char) (n : Nat) :
    (utf8Bytes (String.ofList (List.replicate n c))).length = n * c.utf8Size := by
  rw [length_utf8Bytes]
  induction n with
  | zero => simp
  | succ n ih =>
    rw [List.replicate_succ', String.ofList_append, String.utf8ByteSize_append, ih, Nat.succ_mul]
    simp

/-! ## Slices by bytes -/

/-- `len`, in bytes. -/
def byteLen : List Char → Nat
  | [] => 0
  | c :: s => c.utf8Size + byteLen s

/-- `&s[..n]`. `none` where it panics: past the end, or inside a character. -/
def sliceTo : List Char → Nat → Option (List Char)
  | _, 0 => some []
  | [], _ + 1 => none
  | c :: s, n + 1 =>
    if c.utf8Size ≤ n + 1 then (sliceTo s (n + 1 - c.utf8Size)).map (c :: ·) else none

theorem byteLen_append (a b : List Char) : byteLen (a ++ b) = byteLen a + byteLen b := by
  induction a with
  | nil => simp [byteLen]
  | cons c a ih => rw [List.cons_append, byteLen, byteLen, ih, Nat.add_assoc]

theorem byteLen_pos {s : List Char} (h : s ≠ []) : 0 < byteLen s := by
  match s, h with
  | c :: s, _ => exact Nat.add_pos_left c.utf8Size_pos _

/-- A slice is a part of the text of so many bytes. -/
theorem sliceTo_eq_some : ∀ {s a : List Char} {n : Nat},
    sliceTo s n = some a ↔ ∃ b, s = a ++ b ∧ byteLen a = n
  | s, a, 0 => by
    rw [sliceTo, Option.some.injEq]
    refine ⟨?_, ?_⟩
    · rintro rfl
      exact ⟨s, rfl, rfl⟩
    · rintro ⟨b, -, hlen⟩
      by_contra hne
      exact absurd hlen (Nat.pos_iff_ne_zero.mp (byteLen_pos (Ne.symm hne)))
  | [], a, n + 1 => by
    refine iff_of_false nofun ?_
    rintro ⟨b, hs, hlen⟩
    rw [(List.append_eq_nil_iff.mp hs.symm).1] at hlen
    cases hlen
  | c :: s, a, n + 1 => by
    rw [sliceTo]
    have hpos := c.utf8Size_pos
    constructor
    · intro h
      split at h
      · next hle =>
        obtain ⟨a', ha, rfl⟩ := Option.map_eq_some_iff.mp h
        obtain ⟨b, rfl, hlen⟩ := sliceTo_eq_some.mp ha
        exact ⟨b, rfl, by rw [byteLen, hlen]; omega⟩
      · cases h
    · rintro ⟨b, hs, hlen⟩
      match a, hs, hlen with
      | x :: a, hs, hlen =>
        obtain ⟨rfl, htail⟩ := List.cons.inj hs
        rw [byteLen] at hlen
        have hrest : sliceTo s (n + 1 - c.utf8Size) = some a := sliceTo_eq_some.mpr ⟨b, htail, by omega⟩
        rw [if_pos (by omega), hrest]
        rfl

/-- `split_at`, which panics where a slice does. -/
def splitAt (s : List Char) (n : Nat) : Option (List Char × List Char) :=
  (sliceTo s n).map fun a => (a, s.drop a.length)

theorem splitAt_eq_some {s a b : List Char} {n : Nat} :
    splitAt s n = some (a, b) ↔ s = a ++ b ∧ byteLen a = n := by
  unfold splitAt
  rw [Option.map_eq_some_iff]
  constructor
  · rintro ⟨a', ha', hpair⟩
    obtain ⟨rfl, rfl⟩ := Prod.mk.inj hpair
    obtain ⟨b, rfl, hlen⟩ := sliceTo_eq_some.mp ha'
    rw [List.drop_left]
    exact ⟨rfl, hlen⟩
  · rintro ⟨rfl, hlen⟩
    exact ⟨a, sliceTo_eq_some.mpr ⟨b, rfl, hlen⟩, by rw [List.drop_left]⟩

/-- The last byte of a text splits off where it is a character, and lies inside one elsewhere. -/
theorem splitAt_last (s : List Char) (c : Char) :
    splitAt (s ++ [c]) (byteLen (s ++ [c]) - 1) = if c.utf8Size = 1 then some (s, [c]) else none := by
  have hlen : byteLen (s ++ [c]) = byteLen s + c.utf8Size := byteLen_append s [c]
  split
  · next hone =>
    rw [hlen, hone]
    exact splitAt_eq_some.mpr ⟨rfl, rfl⟩
  · next hmore =>
    refine Option.eq_none_iff_forall_ne_some.mpr fun ⟨a, b⟩ hcut => ?_
    obtain ⟨hs, ha⟩ := splitAt_eq_some.mp hcut
    have hpos := c.utf8Size_pos
    rcases List.eq_nil_or_concat b with rfl | ⟨b, x, rfl⟩
    · rw [List.append_nil] at hs
      rw [← hs] at ha
      omega
    · rw [List.concat_eq_append, ← List.append_assoc] at hs
      have hcut' : byteLen s = byteLen a + byteLen b := by
        rw [(List.append_inj' hs rfl).1, byteLen_append]
      omega

theorem utf8Size_eq_one {c : Char} : c.utf8Size = 1 ↔ c.toNat < 128 := by
  rw [Char.utf8Size_eq_one_iff, UInt32.le_iff_toNat_le]
  exact Nat.lt_succ_iff.symm

end Leshiy.Lib
