import Mathlib.Algebra.Group.Nat.Defs
import Leshiy.Lib.Str

/-!
# Strict UTF-8 decoding

`fromUtf8` is `str::from_utf8`: a text is given exactly for its own encoding. Bytes below 128 stand for
themselves and occur in no other character, so what is ASCII at an end of a text can be taken off it.
-/

namespace Leshiy.Lib

/-- `as_bytes`. -/
def encodeUtf8 (s : Str) : List UInt8 := s.flatMap String.utf8EncodeChar

/-- `str::from_utf8`. -/
def fromUtf8 (b : List UInt8) : Option Str := (String.fromUTF8? ⟨b.toArray⟩).map String.toList

/-- The text of ASCII bytes. -/
def asciiChars (b : List UInt8) : Str := b.map fun x => Char.ofNat x.toNat

section

variable {a b : List UInt8} {s : Str} {c : Char} {x : UInt8}

theorem encodeUtf8_append (s t : Str) : encodeUtf8 (s ++ t) = encodeUtf8 s ++ encodeUtf8 t :=
  List.flatMap_append

theorem toByteArray_ofList (s : Str) : (String.ofList s).toByteArray = ⟨(encodeUtf8 s).toArray⟩ := by
  rw [String.toByteArray_ofList]
  exact ByteArray.ext List.data_toByteArray

/-- **A text is decoded exactly from its encoding.** -/
theorem fromUtf8_eq_some : fromUtf8 b = some s ↔ b = encodeUtf8 s := by
  rw [fromUtf8, Option.map_eq_some_iff]
  constructor
  · rintro ⟨str, hstr, rfl⟩
    rw [String.fromUTF8?] at hstr
    split at hstr
    · next hvalid =>
      have hbytes : str.toByteArray = ⟨b.toArray⟩ := by
        rw [← Option.some.inj hstr]
        rfl
      rw [← String.ofList_toList (s := str), toByteArray_ofList] at hbytes
      have harray := congrArg (fun x => x.data.toList) hbytes
      exact harray.symm
    · cases hstr
  · rintro rfl
    refine ⟨String.ofList s, ?_, String.toList_ofList⟩
    rw [← toByteArray_ofList, String.fromUTF8?, dif_pos (String.isValidUTF8 _)]
    rfl

theorem toNat_ofNat_ascii (h : x.toNat < 128) : (Char.ofNat x.toNat).toNat = x.toNat := by
  have hvalid : x.toNat.isValidChar := .inl (by omega)
  rw [Char.ofNat, dif_pos hvalid]
  rfl

theorem utf8EncodeChar_ascii (h : x.toNat < 128) : String.utf8EncodeChar (Char.ofNat x.toNat) = [x] := by
  have hnat := toNat_ofNat_ascii h
  have hle : (Char.ofNat x.toNat).val.toNat ≤ 0x7f := (hnat.trans_lt h |> Nat.le_of_lt_succ)
  rw [String.utf8EncodeChar, if_pos hle]
  show [UInt8.ofNat (Char.ofNat x.toNat).toNat] = [x]
  rw [hnat, UInt8.ofNat_toNat]

/-- A character is one byte below 128, or several that are not. -/
theorem utf8EncodeChar_cases (c : Char) :
    (∃ x : UInt8, x.toNat < 128 ∧ c = Char.ofNat x.toNat ∧ String.utf8EncodeChar c = [x]) ∨
      (String.utf8EncodeChar c ≠ [] ∧ ∀ x ∈ String.utf8EncodeChar c, 128 ≤ x.toNat) := by
  by_cases h : c.toNat < 128
  · have hbyte : (UInt8.ofNat c.toNat).toNat = c.toNat := by
      rw [UInt8.toNat_ofNat']
      omega
    have hc : c = Char.ofNat (UInt8.ofNat c.toNat).toNat := by rw [hbyte, Char.ofNat_toNat]
    have hlt : (UInt8.ofNat c.toNat).toNat < 128 := hbyte.trans_lt h
    refine .inl ⟨UInt8.ofNat c.toNat, hlt, hc, ?_⟩
    rw [← utf8EncodeChar_ascii hlt, ← hc]
  · have hgt : ¬c.val.toNat ≤ 0x7f := fun hle => h (Nat.lt_succ_of_le hle)
    refine .inr ⟨?_, ?_⟩
    · rw [← List.length_pos_iff, String.length_utf8EncodeChar]
      exact c.utf8Size_pos
    · intro x hx
      rw [String.utf8EncodeChar, if_neg hgt] at hx
      split at hx
      · simp only [List.mem_cons, List.not_mem_nil, or_false] at hx
        rcases hx with rfl | rfl <;> simp <;> omega
      · split at hx
        · simp only [List.mem_cons, List.not_mem_nil, or_false] at hx
          rcases hx with rfl | rfl | rfl <;> simp <;> omega
        · simp only [List.mem_cons, List.not_mem_nil, or_false] at hx
          rcases hx with rfl | rfl | rfl | rfl <;> simp <;> omega

theorem encodeUtf8_cons (c : Char) (s : Str) : encodeUtf8 (c :: s) = String.utf8EncodeChar c ++ encodeUtf8 s :=
  List.flatMap_cons

theorem encodeUtf8_ascii : ∀ {a : List UInt8}, (∀ x ∈ a, x.toNat < 128) → encodeUtf8 (asciiChars a) = a
  | [], _ => rfl
  | x :: a, h => by
    have htail : encodeUtf8 (asciiChars a) = a := encodeUtf8_ascii fun y hy => h y (List.mem_cons_of_mem x hy)
    rw [asciiChars, List.map_cons, encodeUtf8_cons, utf8EncodeChar_ascii (h x List.mem_cons_self)]
    exact congrArg (x :: ·) htail

theorem asciiChars_encodeUtf8 : ∀ {s : Str}, (∀ c ∈ s, c.toNat < 128) →
    asciiChars (encodeUtf8 s) = s ∧ ∀ x ∈ encodeUtf8 s, ∃ c ∈ s, x.toNat = c.toNat
  | [], _ => ⟨rfl, nofun⟩
  | c :: s, h => by
    have hc := h c List.mem_cons_self
    obtain ⟨htail, hmem⟩ := asciiChars_encodeUtf8 fun d hd => h d (List.mem_cons_of_mem c hd)
    have hbyte : (UInt8.ofNat c.toNat).toNat = c.toNat := by
      rw [UInt8.toNat_ofNat']
      omega
    have hchar : Char.ofNat (UInt8.ofNat c.toNat).toNat = c := by rw [hbyte, Char.ofNat_toNat]
    have hone : String.utf8EncodeChar c = [UInt8.ofNat c.toNat] := by
      rw [← utf8EncodeChar_ascii (hbyte.trans_lt hc), hchar]
    rw [encodeUtf8_cons, hone]
    refine ⟨congrArg₂ List.cons hchar htail, fun x hx => ?_⟩
    rcases List.mem_cons.mp hx with rfl | hx
    · exact ⟨c, List.mem_cons_self, hbyte⟩
    · obtain ⟨d, hd, hxd⟩ := hmem x hx
      exact ⟨d, List.mem_cons_of_mem c hd, hxd⟩

/-- What begins with an ASCII byte begins with its character. -/
theorem encodeUtf8_eq_cons (hx : x.toNat < 128) (h : encodeUtf8 s = x :: b) :
    ∃ s', s = Char.ofNat x.toNat :: s' ∧ encodeUtf8 s' = b := by
  cases s with
  | nil => cases h
  | cons c s' =>
    rw [encodeUtf8_cons] at h
    obtain ⟨y, -, rfl, hone⟩ | ⟨hne, hmany⟩ := utf8EncodeChar_cases c
    · rw [hone, List.singleton_append] at h
      obtain ⟨rfl, htail⟩ := List.cons.inj h
      exact ⟨s', rfl, htail⟩
    · obtain ⟨y, ys, hys⟩ := List.exists_cons_of_ne_nil hne
      rw [hys, List.cons_append] at h
      have hy := hmany y (hys ▸ List.mem_cons_self)
      rw [(List.cons.inj h).1] at hy
      omega

theorem encodeUtf8_eq_snoc (hx : x.toNat < 128) (h : encodeUtf8 s = b ++ [x]) :
    ∃ s', s = s' ++ [Char.ofNat x.toNat] ∧ encodeUtf8 s' = b := by
  obtain rfl | ⟨s', c, rfl⟩ := List.eq_nil_or_concat s
  · simp [encodeUtf8] at h
  · rw [List.concat_eq_append] at h ⊢
    rw [encodeUtf8_append, encodeUtf8_cons] at h
    obtain ⟨y, -, rfl, hone⟩ | ⟨hne, hmany⟩ := utf8EncodeChar_cases c
    · rw [hone] at h
      obtain ⟨htail, hlast⟩ := List.append_inj' h rfl
      rw [← List.singleton_inj.mp hlast]
      exact ⟨s', rfl, htail⟩
    · obtain ⟨ys, y, hys⟩ := (List.eq_nil_or_concat (String.utf8EncodeChar c)).resolve_left hne
      rw [List.concat_eq_append] at hys
      rw [hys, show encodeUtf8 [] = [] from rfl, List.append_nil, ← List.append_assoc] at h
      have hy := hmany y (hys ▸ List.mem_append_right ys List.mem_cons_self)
      rw [List.singleton_inj.mp (List.append_inj' h rfl).2] at hy
      omega

/-- **ASCII in front of a text stays in front of it.** -/
theorem fromUtf8_ascii_append : ∀ {a : List UInt8}, (∀ x ∈ a, x.toNat < 128) →
    fromUtf8 (a ++ b) = (fromUtf8 b).map (asciiChars a ++ ·)
  | [], _ => by simp [asciiChars]
  | x :: a, h => by
    have hx := h x List.mem_cons_self
    have htail : fromUtf8 (a ++ b) = (fromUtf8 b).map (asciiChars a ++ ·) :=
      fromUtf8_ascii_append fun y hy => h y (List.mem_cons_of_mem x hy)
    have hcons : fromUtf8 (x :: (a ++ b)) = (fromUtf8 (a ++ b)).map (Char.ofNat x.toNat :: ·) := by
      refine Option.ext fun s => ?_
      rw [fromUtf8_eq_some, Option.map_eq_some_iff]
      constructor
      · intro henc
        obtain ⟨s', rfl, hs'⟩ := encodeUtf8_eq_cons hx henc.symm
        exact ⟨s', fromUtf8_eq_some.mpr hs'.symm, rfl⟩
      · rintro ⟨s', hs', rfl⟩
        rw [encodeUtf8_cons, utf8EncodeChar_ascii hx, ← fromUtf8_eq_some.mp hs', List.singleton_append]
    rw [List.cons_append, hcons, htail, Option.map_map]
    rfl

/-- ASCII behind a text stays behind it. -/
theorem fromUtf8_append_ascii (h : ∀ x ∈ a, x.toNat < 128) :
    fromUtf8 (b ++ a) = (fromUtf8 b).map (· ++ asciiChars a) := by
  induction a generalizing b with
  | nil => simp [asciiChars]
  | cons x a ih =>
    have hx := h x List.mem_cons_self
    have hsnoc : fromUtf8 (b ++ [x]) = (fromUtf8 b).map (· ++ [Char.ofNat x.toNat]) := by
      refine Option.ext fun s => ?_
      rw [fromUtf8_eq_some, Option.map_eq_some_iff]
      constructor
      · intro henc
        obtain ⟨s', rfl, hs'⟩ := encodeUtf8_eq_snoc hx henc.symm
        exact ⟨s', fromUtf8_eq_some.mpr hs'.symm, rfl⟩
      · rintro ⟨s', hs', rfl⟩
        rw [encodeUtf8_append, ← fromUtf8_eq_some.mp hs', encodeUtf8_cons, utf8EncodeChar_ascii hx]
        rfl
    have hmove : b ++ x :: a = (b ++ [x]) ++ a := by simp
    rw [hmove, ih fun y hy => h y (List.mem_cons_of_mem x hy), hsnoc, Option.map_map]
    refine congrArg (fun g => (fromUtf8 b).map g) (funext fun s => ?_)
    simp [asciiChars]

/-- ASCII is text. -/
theorem fromUtf8_ascii (h : ∀ x ∈ a, x.toNat < 128) : fromUtf8 a = some (asciiChars a) :=
  fromUtf8_eq_some.mpr (encodeUtf8_ascii h).symm

end

end Leshiy.Lib
