import Leshiy.Lib.Overflow
import Leshiy.Lib.Scan
import Leshiy.Lib.Utf8
import Leshiy.Lib.Words

/-!
# Quantities on the command line

`parse_size` and `parse_expires` of `leshiy/src/user_cli.rs`. They multiply and add without a check, and an
expiry is cut in front of its last byte: `none` is a panic.
-/

namespace Leshiy.Reality

open Leshiy.Lib Str Overflow

/-- What the build decides: the width of a word, and whether arithmetic is checked for overflow. -/
structure Build where
  width : Width
  overflowChecks : Bool
  deriving DecidableEq, Repr

/-! ## Sizes -/

/-- The number of a size, and its multiplier. -/
def sizeParts (s : Str) : Str × Nat :=
  match s.dropSuffix? "GB".toList with
  | some n => (n, 1000000000)
  | none =>
    match s.dropSuffix? "MB".toList with
    | some n => (n, 1000000)
    | none =>
      match s.dropSuffix? "KB".toList with
      | some n => (n, 1000)
      | none => (s, 1)

def parseSize (build : Build) (s : Str) : Option (Except Str Nat) :=
  let s := trim s
  let (num, mult) := sizeParts s
  match parseUnsigned (2 ^ 64) (trim num) with
  | none => some (.error ("bad size: ".toList ++ s))
  | some n => (mul build.overflowChecks (2 ^ 64) n mult).map .ok

/-! ## Expiries -/

def unitSecs (unit : Str) : Option Nat :=
  if unit = "d".toList then some 86400
  else if unit = "h".toList then some 3600
  else if unit = "m".toList then some 60
  else none

def parseExpires (build : Build) (s : Str) (now : Nat) : Option (Except Str Nat) :=
  match trim s with
  | '+' :: rest =>
    -- the subtraction wraps around on nothing
    (sub build.overflowChecks build.width.usize (byteLen rest) 1).bind fun mid =>
    (splitAt rest mid).bind fun (num, unit) =>
    match parseUnsigned (2 ^ 64) num with
    | none => some (.error ("bad duration: ".toList ++ '+' :: rest))
    | some n =>
      match unitSecs unit with
      | none => some (.error "use +Nd / +Nh / +Nm or a unix timestamp".toList)
      | some k =>
        ((mul build.overflowChecks (2 ^ 64) n k).bind (add build.overflowChecks (2 ^ 64) now)).map .ok
  | s =>
    match parseUnsigned (2 ^ 64) s with
    | none => some (.error ("bad expires: ".toList ++ s))
    | some n => some (.ok n)

/-! ## What the texts say -/

inductive SizeUnit : Str → Nat → Prop
  | giga : SizeUnit "GB".toList (10 ^ 9)
  | mega : SizeUnit "MB".toList (10 ^ 6)
  | kilo : SizeUnit "KB".toList (10 ^ 3)
  | bytes : SizeUnit [] 1

/-- `text` says `n` units. -/
def SizeText (text : Str) (n unit : Nat) : Prop :=
  ∃ num suffix, trim text = num ++ suffix ∧ SizeUnit suffix unit ∧ Number (trim num) n

inductive TimeUnit : Char → Nat → Prop
  | day : TimeUnit 'd' (24 * 60 * 60)
  | hour : TimeUnit 'h' (60 * 60)
  | minute : TimeUnit 'm' 60

/-- `text` says a time, from `now` on or as it is. -/
inductive TimeText (text : Str) (now : Nat) : Nat → Prop
  | relative {num : Str} {c : Char} {n unit : Nat} (htext : trim text = '+' :: (num ++ [c]))
    (hnum : Number num n) (hunit : TimeUnit c unit) : TimeText text now (now + n * unit)
  | absolute {n : Nat} (hnum : Digits (trim text) n) : TimeText text now n

/-- Exact or refused: no panic, and no value but what is said. -/
def ExactOrRefused (stated : Nat → Prop) : Option (Except Str Nat) → Prop
  | none => False
  | some (.error _) => True
  | some (.ok v) => stated v

def SizeStated (text : Str) (v : Nat) : Prop := ∃ n unit, SizeText text n unit ∧ v = n * unit

/-- A number of 64 bits fits them still after the multiplication. -/
def SizeFits (text : Str) : Prop := ∀ n unit, SizeText text n unit → n < 2 ^ 64 → n * unit < 2 ^ 64

/-- The last character after a sign is there and has one byte, and a number of 64 bits fits them still after the
multiplication and the addition. -/
def ExpiryFits (text : Str) (now : Nat) : Prop :=
  ∀ rest, trim text = '+' :: rest → ∃ num c, rest = num ++ [c] ∧ c.toNat < 128 ∧
    ∀ n unit, Number num n → TimeUnit c unit → n < 2 ^ 64 → now + n * unit < 2 ^ 64

section

variable {build : Build} {text num : Str} {n m unit now : Nat} {c : Char}

/-! ## Sizes, by their suffix -/

/-- Both ends of a size are read back. -/
theorem sizeParts_of_text {suffix : Str} (htext : text = num ++ suffix) (hunit : SizeUnit suffix unit)
    (hnum : 'B' ∉ num) : sizeParts text = (num, unit) := by
  subst htext
  unfold sizeParts
  cases hunit with
  | giga =>
    rw [dropSuffix?_append]
    rfl
  | mega =>
    have hgiga : (num ++ "MB".toList).dropSuffix? "GB".toList = none := dropSuffix?_of_ne rfl (by decide)
    rw [hgiga, dropSuffix?_append]
    rfl
  | kilo =>
    have hgiga : (num ++ "KB".toList).dropSuffix? "GB".toList = none := dropSuffix?_of_ne rfl (by decide)
    have hmega : (num ++ "KB".toList).dropSuffix? "MB".toList = none := dropSuffix?_of_ne rfl (by decide)
    rw [hgiga, hmega, dropSuffix?_append]
    rfl
  | bytes =>
    have hnone {suffix : Str} (hmem : 'B' ∈ suffix) : num.dropSuffix? suffix = none :=
      dropSuffix?_of_not_mem hmem hnum
    rw [List.append_nil, hnone (by decide), hnone (by decide), hnone (by decide)]

theorem text_of_sizeParts (text : Str) : ∃ suffix, text = (sizeParts text).1 ++ suffix ∧
    SizeUnit suffix (sizeParts text).2 := by
  unfold sizeParts
  split
  · next h => exact ⟨_, dropSuffix?_eq_some.mp h, .giga⟩
  split
  · next h => exact ⟨_, dropSuffix?_eq_some.mp h, .mega⟩
  split
  · next h => exact ⟨_, dropSuffix?_eq_some.mp h, .kilo⟩
  · exact ⟨[], (List.append_nil _).symm, .bytes⟩

theorem SizeText.parts (h : SizeText text n unit) :
    Number (trim (sizeParts (trim text)).1) n ∧ (sizeParts (trim text)).2 = unit := by
  obtain ⟨num, suffix, htext, hunit, hnum⟩ := h
  -- a number has no letters, and neither has the whitespace around it
  have hletter : 'B' ∉ num := fun hmem => (mem_trim_of_mem hmem).elim (absurd · (by decide))
    fun htrim => absurd (hnum.mem htrim) (by decide)
  rw [sizeParts_of_text htext hunit hletter]
  exact ⟨hnum, rfl⟩

theorem SizeText.of_parts (h : Number (trim (sizeParts (trim text)).1) n) :
    SizeText text n (sizeParts (trim text)).2 := by
  obtain ⟨suffix, htext, hunit⟩ := text_of_sizeParts (trim text)
  exact ⟨_, suffix, htext, hunit, h⟩

theorem SizeText.unique {unit' : Nat} (h : SizeText text n unit) (h' : SizeText text m unit') :
    n = m ∧ unit = unit' :=
  ⟨h.parts.1.unique h'.parts.1, h.parts.2.symm.trans h'.parts.2⟩

theorem SizeText.stated_iff (h : SizeText text n unit) (v : Nat) : SizeStated text v ↔ v = n * unit := by
  refine ⟨?_, fun hv => ⟨n, unit, h, hv⟩⟩
  rintro ⟨m, unit', h', rfl⟩
  obtain ⟨rfl, rfl⟩ := h.unique h'
  rfl

/-- The product is what the type makes of it. -/
theorem parseSize_of_text (h : SizeText text n unit) (hn : n < 2 ^ 64) :
    parseSize build text = (fit build.overflowChecks (2 ^ 64) (n * unit)).map .ok := by
  obtain ⟨hnum, hunit⟩ := h.parts
  unfold parseSize
  simp only [parseUnsigned_eq_some.mpr ⟨hnum, hn⟩, hunit]
  rfl

/-- Everything else is refused. -/
theorem parseSize_of_no_text (h : ∀ n unit, SizeText text n unit → ¬n < 2 ^ 64) :
    parseSize build text = some (.error ("bad size: ".toList ++ trim text)) := by
  have hnone : parseUnsigned (2 ^ 64) (trim (sizeParts (trim text)).1) = none :=
    Option.eq_none_iff_forall_ne_some.mpr fun n hn =>
      have hnum := parseUnsigned_eq_some.mp hn
      h n _ (.of_parts hnum.1) hnum.2
  unfold parseSize
  simp only [hnone]

/-- What the arithmetic makes of a result is exact where the type holds it. -/
theorem exactOrRefused_fit {stated : Nat → Prop} (hstated : ∀ v, stated v ↔ v = n) :
    ExactOrRefused stated ((fit build.overflowChecks (2 ^ 64) n).map .ok) ↔ n < 2 ^ 64 := by
  rw [← @fit_eq_self build.overflowChecks _ _ (by decide)]
  cases hfit : fit build.overflowChecks (2 ^ 64) n with
  | none => exact iff_of_false id nofun
  | some v =>
    rw [Option.some.injEq]
    exact hstated v

theorem parseSize_exact_iff (build : Build) (text : Str) :
    ExactOrRefused (SizeStated text) (parseSize build text) ↔ SizeFits text := by
  by_cases h : ∃ n unit, SizeText text n unit ∧ n < 2 ^ 64
  · obtain ⟨n, unit, htext, hn⟩ := h
    rw [parseSize_of_text htext hn, exactOrRefused_fit htext.stated_iff]
    refine ⟨fun hfits m unit' htext' _ => ?_, fun hfits => hfits n unit htext hn⟩
    obtain ⟨rfl, rfl⟩ := htext.unique htext'
    exact hfits
  · have hno : ∀ n unit, SizeText text n unit → ¬n < 2 ^ 64 := fun n unit htext hn => h ⟨n, unit, htext, hn⟩
    rw [parseSize_of_no_text hno]
    exact iff_of_true trivial fun n unit htext hn => absurd hn (hno n unit htext)

/-! ## Expiries, cut at their last byte -/

theorem unitSecs_iff : unitSecs [c] = some unit ↔ TimeUnit c unit := by
  unfold unitSecs
  constructor
  · intro h
    split at h
    · next hc =>
      obtain rfl : c = 'd' := List.head_eq_of_cons_eq hc
      obtain rfl := Option.some.inj h
      exact .day
    split at h
    · next hc =>
      obtain rfl : c = 'h' := List.head_eq_of_cons_eq hc
      obtain rfl := Option.some.inj h
      exact .hour
    split at h
    · next hc =>
      obtain rfl : c = 'm' := List.head_eq_of_cons_eq hc
      obtain rfl := Option.some.inj h
      exact .minute
    · cases h
  · rintro (_ | _ | _) <;> rfl

/-- A text without a sign is a number of seconds. -/
theorem parseExpires_absolute (hsign : ∀ rest, trim text ≠ '+' :: rest) :
    ExactOrRefused (TimeText text now) (parseExpires build text now) := by
  unfold parseExpires
  split
  · next rest htext => exact absurd htext (hsign rest)
  · split
    · trivial
    · next n hn =>
      have hnum := (parseUnsigned_eq_some.mp hn).1
      rw [Number, dropPlus_of_ne hsign] at hnum
      exact .absolute hnum

/-- Nothing after the sign: the length wraps around and lies past the end, unless the subtraction panics. -/
theorem parseExpires_empty (htext : trim text = ['+']) : parseExpires build text now = none := by
  unfold parseExpires
  rw [htext]
  obtain ⟨width, checks⟩ := build
  cases checks <;> cases width <;> rfl

/-- What becomes of a number and its unit. -/
theorem parseExpires_cut (htext : trim text = '+' :: (num ++ [c])) :
    parseExpires build text now = if c.toNat < 128 then
      match parseUnsigned (2 ^ 64) num with
      | none => some (.error ("bad duration: ".toList ++ trim text))
      | some n =>
        match unitSecs [c] with
        | none => some (.error "use +Nd / +Nh / +Nm or a unix timestamp".toList)
        | some unit => (fit build.overflowChecks (2 ^ 64) (now + n * unit)).map .ok
    else none := by
  have hpos : 1 ≤ byteLen (num ++ [c]) :=
    byteLen_pos (List.append_ne_nil_of_right_ne_nil num (List.cons_ne_nil c []))
  unfold parseExpires
  simp only [htext, sub_of_le hpos, Option.bind_some, splitAt_last, utf8Size_eq_one]
  split
  · simp only [Option.bind_some, mul, fit_bind_add]
  · rfl

theorem TimeText.relative_iff (htext : trim text = '+' :: (num ++ [c])) (hnum : Number num n)
    (hunit : TimeUnit c unit) (v : Nat) : TimeText text now v ↔ v = now + n * unit := by
  constructor
  · intro h
    cases h with
    | relative htext' hnum' hunit' =>
      rw [htext] at htext'
      obtain ⟨rfl, hc⟩ := List.append_inj' (List.cons.inj htext').2 rfl
      obtain rfl := List.head_eq_of_cons_eq hc
      obtain rfl := hnum.unique hnum'
      obtain rfl : unit = _ := Option.some.inj ((unitSecs_iff.mpr hunit).symm.trans (unitSecs_iff.mpr hunit'))
      rfl
    | absolute hdigits =>
      have hsign := hdigits.digits '+' (by rw [htext]; exact List.mem_cons_self)
      exact absurd hsign (by decide)
  · rintro rfl
    exact .relative htext hnum hunit

/-- Behind the sign, up to a character of one byte. -/
theorem parseExpires_relative (htext : trim text = '+' :: (num ++ [c])) (hc : c.toNat < 128) :
    ExactOrRefused (TimeText text now) (parseExpires build text now) ↔
      ∀ n unit, Number num n → TimeUnit c unit → n < 2 ^ 64 → now + n * unit < 2 ^ 64 := by
  rw [parseExpires_cut htext, if_pos hc]
  split
  · next hnone =>
    refine iff_of_true trivial fun n unit hnum _ hn => ?_
    rw [parseUnsigned_eq_some.mpr ⟨hnum, hn⟩] at hnone
    cases hnone
  · next n hsome =>
    obtain ⟨hnum, hn⟩ := parseUnsigned_eq_some.mp hsome
    split
    · next hnone =>
      refine iff_of_true trivial fun m unit _ hunit _ => ?_
      rw [unitSecs_iff.mpr hunit] at hnone
      cases hnone
    · next unit hunit =>
      rw [exactOrRefused_fit (TimeText.relative_iff htext hnum (unitSecs_iff.mp hunit))]
      refine ⟨fun hfits m unit' hnum' hunit' _ => ?_, fun hfits => hfits n unit hnum (unitSecs_iff.mp hunit) hn⟩
      obtain rfl := hnum.unique hnum'
      obtain rfl := Option.some.inj (hunit.symm.trans (unitSecs_iff.mpr hunit'))
      exact hfits

theorem expiryFits_relative (htext : trim text = '+' :: (num ++ [c])) : ExpiryFits text now ↔ c.toNat < 128 ∧
    ∀ n unit, Number num n → TimeUnit c unit → n < 2 ^ 64 → now + n * unit < 2 ^ 64 := by
  constructor
  · intro h
    obtain ⟨num', c', hrest, hfits⟩ := h _ htext
    obtain ⟨rfl, hc⟩ := List.append_inj' hrest rfl
    obtain rfl := List.head_eq_of_cons_eq hc
    exact hfits
  · rintro hfits rest hrest
    obtain rfl := (List.cons.inj (htext.symm.trans hrest)).2
    exact ⟨num, c, rfl, hfits⟩

theorem parseExpires_exact_iff (build : Build) (text : Str) (now : Nat) :
    ExactOrRefused (TimeText text now) (parseExpires build text now) ↔ ExpiryFits text now := by
  by_cases hsign : ∃ rest, trim text = '+' :: rest
  · obtain ⟨rest, htext⟩ := hsign
    cases rest using List.reverseRecOn with
    | nil =>
      rw [parseExpires_empty htext]
      refine iff_of_false id fun hfits => ?_
      obtain ⟨num, c, hnil, -⟩ := hfits [] htext
      exact List.append_ne_nil_of_right_ne_nil num (List.cons_ne_nil c []) hnil.symm
    | append_singleton num c =>
      rw [expiryFits_relative htext]
      by_cases hc : c.toNat < 128
      · rw [parseExpires_relative htext hc]
        exact (and_iff_right hc).symm
      · rw [parseExpires_cut htext, if_neg hc]
        exact iff_of_false id fun h => hc h.1
  · have hno (rest : Str) : trim text ≠ '+' :: rest := fun htext => hsign ⟨rest, htext⟩
    exact iff_of_true (parseExpires_absolute hno) fun rest htext => absurd htext (hno rest)

/-- **Where a quantity is exact or refused**, in any build: where the number, its multiple and the sum are below
2 ^ 64, and the last character of a relative expiry is there and has one byte. -/
theorem quantities_exact_iff (build : Build) (text : Str) (now : Nat) :
    (ExactOrRefused (SizeStated text) (parseSize build text) ↔ SizeFits text) ∧
    (ExactOrRefused (TimeText text now) (parseExpires build text now) ↔ ExpiryFits text now) :=
  ⟨parseSize_exact_iff build text, parseExpires_exact_iff build text now⟩

/-- The profile of a release leaves the checks out. -/
def release : Build := ⟨.w64, false⟩

theorem limits_not_as_typed :
    (parseSize release "18446744073710MB".toList = some (.ok 448384) ∧
      ¬ExactOrRefused (SizeStated "18446744073710MB".toList) (parseSize release "18446744073710MB".toList)) ∧
    (parseExpires release "+213503982334602d".toList 0 = some (.ok 61184) ∧
      ¬ExactOrRefused (TimeText "+213503982334602d".toList 0)
        (parseExpires release "+213503982334602d".toList 0)) ∧
    ¬ExactOrRefused (TimeText "+".toList 0) (parseExpires release "+".toList 0) ∧
    ¬ExactOrRefused (TimeText "+30д".toList 0) (parseExpires release "+30д".toList 0) := by
  have hmega : parseUnsigned (2 ^ 64) (trim "18446744073710".toList) = some 18446744073710 := by decide +kernel
  have hsize : SizeText "18446744073710MB".toList 18446744073710 (10 ^ 6) :=
    ⟨"18446744073710".toList, "MB".toList, by decide +kernel, .mega, (parseUnsigned_eq_some.mp hmega).1⟩
  have hdays : parseUnsigned (2 ^ 64) "213503982334602".toList = some 213503982334602 := by decide +kernel
  refine ⟨⟨by decide +kernel, fun h => ?_⟩, ⟨by decide +kernel, fun h => ?_⟩, fun h => ?_, fun h => ?_⟩
  · exact absurd ((parseSize_exact_iff ..).mp h _ _ hsize (by decide)) (by decide)
  · have htext : trim "+213503982334602d".toList = '+' :: ("213503982334602".toList ++ ['d']) := by
      decide +kernel
    exact absurd ((parseExpires_relative htext (by decide)).mp h _ _ (parseUnsigned_eq_some.mp hdays).1 .day
      (by decide)) (by decide)
  · rwa [parseExpires_empty (by decide +kernel)] at h
  · have htext : trim "+30д".toList = '+' :: ("30".toList ++ ['д']) := by decide +kernel
    rwa [parseExpires_cut htext] at h

end

end Leshiy.Reality
