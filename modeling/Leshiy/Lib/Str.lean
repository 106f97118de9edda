import Mathlib.Data.List.DropRight

/-!
# Cutting text apart

What Rust's `str` offers for it, on lists of characters: splitting at the first or the last of a
character, trimming, lines, and numbers of decimal digits.
-/

namespace Leshiy.Lib

abbrev Str := List Char

namespace Str

/-! ## Splitting at a character -/

/-- `split_once`. -/
def splitOnce (c : Char) : Str → Option (Str × Str)
  | [] => none
  | x :: xs => if x = c then some ([], xs) else (splitOnce c xs).map fun ab => (x :: ab.1, ab.2)

/-- `rsplit_once`. -/
def rsplitOnce (c : Char) : Str → Option (Str × Str)
  | [] => none
  | x :: xs =>
    match rsplitOnce c xs with
    | some (a, b) => some (x :: a, b)
    | none => if x = c then some ([], xs) else none

theorem splitOnce_append {c : Char} : ∀ {a b : Str}, c ∉ a →
    splitOnce c (a ++ c :: b) = some (a, b)
  | [], b, _ => by rw [List.nil_append, splitOnce, if_pos rfl]
  | x :: a, b, h => by
    have hx : x ≠ c := fun heq => h (heq ▸ List.mem_cons_self)
    have ih := splitOnce_append (b := b) fun hmem => h (List.mem_cons_of_mem _ hmem)
    rw [List.cons_append, splitOnce, if_neg hx, ih]
    rfl

theorem splitOnce_eq_none {c : Char} : ∀ {s : Str}, c ∉ s → splitOnce c s = none
  | [], _ => rfl
  | x :: s, h => by
    have hx : x ≠ c := fun heq => h (heq ▸ List.mem_cons_self)
    rw [splitOnce, if_neg hx, splitOnce_eq_none fun hmem => h (List.mem_cons_of_mem _ hmem)]
    rfl

theorem rsplitOnce_eq_none {c : Char} : ∀ {s : Str}, c ∉ s → rsplitOnce c s = none
  | [], _ => rfl
  | x :: s, h => by
    have hx : x ≠ c := fun heq => h (heq ▸ List.mem_cons_self)
    rw [rsplitOnce, rsplitOnce_eq_none fun hmem => h (List.mem_cons_of_mem _ hmem)]
    exact if_neg hx

theorem rsplitOnce_append {c : Char} {b : Str} (h : c ∉ b) : ∀ a : Str,
    rsplitOnce c (a ++ c :: b) = some (a, b)
  | [] => by
    rw [List.nil_append, rsplitOnce, rsplitOnce_eq_none h]
    exact if_pos rfl
  | x :: a => by rw [List.cons_append, rsplitOnce, rsplitOnce_append h a]

theorem rsplitOnce_ne_none {c : Char} : ∀ a b : Str, rsplitOnce c (a ++ c :: b) ≠ none
  | [], b => by
    rw [List.nil_append, rsplitOnce]
    split
    · nofun
    · rw [if_pos rfl]
      nofun
  | x :: a, b => by
    rw [List.cons_append, rsplitOnce]
    split
    · nofun
    · next hnone => exact absurd hnone (rsplitOnce_ne_none a b)

/-- What `rsplitOnce` finds is the last of the character. -/
theorem rsplitOnce_eq_some {c : Char} : ∀ {s a b : Str}, rsplitOnce c s = some (a, b) →
    s = a ++ c :: b ∧ c ∉ b
  | [], _, _, h => nomatch h
  | x :: s, a, b, h => by
    rw [rsplitOnce] at h
    split at h
    · next heq =>
      cases h
      obtain ⟨rfl, hb⟩ := rsplitOnce_eq_some heq
      exact ⟨rfl, hb⟩
    · next hnone =>
      split at h
      · next hx =>
        cases h
        refine ⟨by rw [hx, List.nil_append], fun hmem => ?_⟩
        obtain ⟨u, v, rfl⟩ := List.append_of_mem hmem
        exact rsplitOnce_ne_none u v hnone
      · cases h

/-- What `splitOnce` finds is the first of the character. -/
theorem splitOnce_eq_some {c : Char} : ∀ {s a b : Str}, splitOnce c s = some (a, b) →
    s = a ++ c :: b ∧ c ∉ a
  | [], _, _, h => nomatch h
  | x :: s, a, b, h => by
    rw [splitOnce] at h
    split at h
    · next hx =>
      cases h
      exact ⟨by rw [hx, List.nil_append], List.not_mem_nil⟩
    · next hx =>
      obtain ⟨⟨a', b'⟩, hrest, heq⟩ := Option.map_eq_some_iff.mp h
      cases heq
      obtain ⟨rfl, ha⟩ := splitOnce_eq_some hrest
      exact ⟨rfl, List.not_mem_cons_of_ne_of_not_mem (fun heq => hx heq.symm) ha⟩

/-- A piece that grows at its front. -/
def consPiece {α : Type} (x : α) : List (List α) → List (List α)
  | [] => [[x]]
  | p :: ps => (x :: p) :: ps

/-- `split`: there is always one piece more than there are separators. -/
def split {α : Type} [DecidableEq α] (c : α) : List α → List (List α)
  | [] => [[]]
  | x :: xs => if x = c then [] :: split c xs else consPiece x (split c xs)

theorem split_of_not_mem {α : Type} [DecidableEq α] {c : α} : ∀ {s : List α}, c ∉ s → split c s = [s]
  | [], _ => rfl
  | x :: s, h => by
    have hx : x ≠ c := fun heq => h (heq ▸ List.mem_cons_self)
    rw [split, if_neg hx, split_of_not_mem fun hmem => h (List.mem_cons_of_mem _ hmem)]
    rfl

theorem split_append {α : Type} [DecidableEq α] {c : α} {t : List α} : ∀ {s : List α}, c ∉ s →
    split c (s ++ c :: t) = s :: split c t
  | [], _ => by rw [List.nil_append, split, if_pos rfl]
  | x :: s, h => by
    have hx : x ≠ c := fun heq => h (heq ▸ List.mem_cons_self)
    rw [List.cons_append, split, if_neg hx, split_append fun hmem => h (List.mem_cons_of_mem _ hmem)]
    rfl

/-- No piece has the separator in it. -/
theorem not_mem_of_mem_split {α : Type} [DecidableEq α] {c : α} : ∀ {s p : List α},
    p ∈ split c s → c ∉ p
  | [], p, h => by
    rw [split, List.mem_singleton] at h
    rw [h]
    exact List.not_mem_nil
  | x :: s, p, h => by
    rw [split] at h
    split at h
    · rcases List.mem_cons.mp h with rfl | hrest
      · exact List.not_mem_nil
      · exact not_mem_of_mem_split hrest
    · next hx =>
      have hne : c ≠ x := fun heq => hx heq.symm
      have hpieces : ∀ q ∈ split c s, c ∉ q := fun q hq => not_mem_of_mem_split hq
      match hps : split c s with
      | [] =>
        rw [hps, consPiece, List.mem_singleton] at h
        rw [h]
        exact List.not_mem_cons_of_ne_of_not_mem hne List.not_mem_nil
      | q :: qs =>
        rw [hps] at h hpieces
        rcases List.mem_cons.mp h with rfl | hrest
        · exact List.not_mem_cons_of_ne_of_not_mem hne (hpieces q List.mem_cons_self)
        · exact hpieces p (List.mem_cons_of_mem _ hrest)

/-! ## Suffixes -/

/-- What `strip_suffix` leaves. -/
theorem dropSuffix?_eq_some {s t p : Str} : s.dropSuffix? t = some p ↔ s = p ++ t := by
  simp [List.dropSuffix?_eq_some_iff]

theorem dropSuffix?_append (s t : Str) : (s ++ t).dropSuffix? t = some s := dropSuffix?_eq_some.mpr rfl

theorem dropSuffix?_of_ne {s t p : Str} (hlen : t.length = p.length) (hne : t ≠ p) :
    (s ++ t).dropSuffix? p = none :=
  Option.eq_none_iff_forall_ne_some.mpr fun _ h => hne (List.append_inj' (dropSuffix?_eq_some.mp h) hlen).2

theorem dropSuffix?_of_not_mem {s p : Str} {c : Char} (hc : c ∈ p) (hs : c ∉ s) : s.dropSuffix? p = none :=
  Option.eq_none_iff_forall_ne_some.mpr fun _ h =>
    hs (dropSuffix?_eq_some.mp h ▸ List.mem_append_right _ hc)

/-! ## Trimming -/

/-- The characters that `trim` takes off: those with the property White_Space. -/
def isWhite (c : Char) : Bool :=
  let n := c.toNat
  (0x09 ≤ n ∧ n ≤ 0x0d) ∨ n = 0x20 ∨ n = 0x85 ∨ n = 0xa0 ∨ n = 0x1680 ∨ (0x2000 ≤ n ∧ n ≤ 0x200a) ∨
    n = 0x2028 ∨ n = 0x2029 ∨ n = 0x202f ∨ n = 0x205f ∨ n = 0x3000

theorem not_isWhite_of_isDigit {c : Char} (h : c.isDigit) : ¬ isWhite c := by
  have hrange : 48 ≤ c.toNat ∧ c.toNat ≤ 57 := Char.isDigit_iff_toNat.mp h
  unfold isWhite
  simp only [decide_eq_true_eq]
  omega

theorem not_isWhite_of_all {s : Str} (h : s.all fun c => !isWhite c) : ∀ c ∈ s, ¬ isWhite c := by
  simpa using h

/-- `trim_matches`. -/
def trimMatches (p : Char → Bool) (s : Str) : Str := (s.dropWhile p).rdropWhile p

def trim : Str → Str := trimMatches isWhite

theorem dropWhile_append_of_neg {p : Char → Bool} {s ys : Str} (hne : s ≠ [])
    (hhead : ∀ c ∈ s.head?, ¬ p c) : (s ++ ys).dropWhile p = s ++ ys := by
  match s, hne with
  | x :: s, _ => exact List.dropWhile_cons_of_neg (hhead x rfl)

/-- What is wrapped in such characters is found again when it has none at its ends. -/
theorem trimMatches_append {p : Char → Bool} {xs s ys : Str} (hxs : ∀ c ∈ xs, p c)
    (hys : ∀ c ∈ ys, p c) (hhead : ∀ c ∈ s.head?, ¬ p c) (hlast : ∀ c ∈ s.getLast?, ¬ p c) :
    trimMatches p (xs ++ (s ++ ys)) = s := by
  unfold trimMatches
  rw [List.dropWhile_append_of_pos hxs]
  by_cases hs : s = []
  · rw [hs, List.nil_append, List.dropWhile_eq_nil_iff.mpr hys, List.rdropWhile_nil]
  · rw [dropWhile_append_of_neg hs hhead, List.rdropWhile, List.reverse_append,
      List.dropWhile_append_of_pos fun c hc => hys c (List.mem_reverse.mp hc)]
    have hrev : s.reverse.dropWhile p = s.reverse := by
      have hkeep := @dropWhile_append_of_neg p s.reverse []
        (fun h => hs (List.reverse_eq_nil_iff.mp h)) (by rwa [List.head?_reverse])
      rwa [List.append_nil] at hkeep
    rw [hrev, List.reverse_reverse]

/-- The first character of another kind stays in front. -/
theorem head?_trimMatches {p : Char → Bool} {xs s : Str} {c : Char} (hxs : ∀ x ∈ xs, p x)
    (hc : ¬ p c) : (trimMatches p (xs ++ c :: s)).head? = some c := by
  unfold trimMatches
  rw [List.dropWhile_append_of_pos hxs, List.dropWhile_cons_of_neg hc]
  obtain ⟨t, ht⟩ := List.rdropWhile_prefix p (l := c :: s)
  match hr : (c :: s).rdropWhile p with
  | [] => exact absurd (List.rdropWhile_eq_nil_iff.mp hr c List.mem_cons_self) hc
  | x :: r =>
    rw [hr, List.cons_append] at ht
    rw [(List.cons.inj ht).1, List.head?_cons]

/-- What such characters at the end add is taken off again. -/
theorem trimMatches_append_right {p : Char → Bool} {s ys : Str} (hys : ∀ c ∈ ys, p c) :
    trimMatches p (s ++ ys) = trimMatches p s := by
  unfold trimMatches
  by_cases hs : s.dropWhile p = []
  · have hall : ∀ c ∈ s ++ ys, p c := fun c hc =>
      (List.mem_append.mp hc).elim (List.dropWhile_eq_nil_iff.mp hs c) (hys c)
    rw [hs, List.dropWhile_eq_nil_iff.mpr hall]
  · have hdrop : (s ++ ys).dropWhile p = s.dropWhile p ++ ys := by
      rw [List.dropWhile_append, if_neg (by rwa [List.isEmpty_iff])]
    rw [hdrop, List.rdropWhile, List.reverse_append,
      List.dropWhile_append_of_pos fun c hc => hys c (List.mem_reverse.mp hc)]
    rfl

/-! ## Lines -/

def consLine (c : Char) : List Str → List Str
  | [] => [[c]]
  | l :: ls => (c :: l) :: ls

/-- `lines`: a line ends at a newline, and a carriage return before it goes with it. -/
def lines : Str → List Str
  | [] => []
  | c :: cs =>
    if c = '\n' then [] :: lines cs
    else if c = '\r' ∧ cs.head? = some '\n' then lines cs
    else consLine c (lines cs)

theorem consLine_append {c : Char} {ls ms : List Str} (h : ls ≠ []) :
    consLine c (ls ++ ms) = consLine c ls ++ ms := by
  match ls, h with
  | l :: ls, _ => rfl

theorem consLine_ne_nil (c : Char) : ∀ ls : List Str, consLine c ls ≠ []
  | [] => List.cons_ne_nil _ _
  | _ :: _ => List.cons_ne_nil _ _

theorem lines_ne_nil : ∀ {s : Str}, s ≠ [] → lines s ≠ []
  | c :: s, _ => by
    rw [lines]
    split
    · exact List.cons_ne_nil _ _
    split
    · next hcr =>
      refine lines_ne_nil ?_
      rintro rfl
      exact absurd hcr.2 (by simp)
    · exact consLine_ne_nil _ _

/-- What stands behind a newline makes lines of its own. -/
theorem lines_append_newline (t : Str) : ∀ s : Str,
    lines (s ++ '\n' :: t) = lines (s ++ ['\n']) ++ lines t
  | [] => by
    rw [List.nil_append, List.nil_append, lines, lines, if_pos rfl, if_pos rfl]
    rfl
  | c :: s => by
    have hhead : (s ++ '\n' :: t).head? = (s ++ ['\n']).head? := by
      cases s <;> rfl
    rw [List.cons_append, List.cons_append, lines, lines, lines_append_newline t s, hhead]
    split
    · rfl
    split
    · rfl
    · exact consLine_append (lines_ne_nil (by simp))

/-- One line, but for a carriage return at its end. -/
theorem lines_line : ∀ {s : Str}, '\n' ∉ s →
    ∃ l, lines (s ++ ['\n']) = [l] ∧ (s = l ∨ s = l ++ ['\r'])
  | [], _ => ⟨[], by rw [List.nil_append, lines, if_pos rfl, lines], .inl rfl⟩
  | c :: s, hn => by
    have hcn : c ≠ '\n' := fun h => hn (h ▸ List.mem_cons_self)
    have hsn : '\n' ∉ s := fun h => hn (List.mem_cons_of_mem _ h)
    obtain ⟨l, hl, hs⟩ := lines_line hsn
    rw [List.cons_append, lines, if_neg hcn, hl]
    split
    · next hcr =>
      have hnil : s = [] := by
        match s, hsn, hcr.2 with
        | [], _, _ => rfl
        | x :: s, hsn, hhead =>
          rw [List.cons_append, List.head?_cons, Option.some.injEq] at hhead
          exact absurd (hhead ▸ List.mem_cons_self) hsn
      have hlnil : l = [] := by
        rw [hnil] at hl
        exact (List.cons.inj hl).1.symm
      exact ⟨l, rfl, .inr (by rw [hcr.1, hnil, hlnil]; rfl)⟩
    · refine ⟨c :: l, rfl, ?_⟩
      rcases hs with rfl | rfl
      · exact .inl rfl
      · exact .inr rfl

/-- The first line goes on behind what no newline ends. -/
theorem lines_head {x : Char} {rest : Str} (hx : x ≠ '\n' ∧ x ≠ '\r') : ∀ {s : Str}, '\n' ∉ s →
    ∃ l ls, lines (s ++ x :: rest) = (s ++ x :: l) :: ls
  | [], _ => by
    rw [List.nil_append, lines, if_neg hx.1, if_neg fun h => hx.2 h.1]
    match lines rest with
    | [] => exact ⟨[], [], rfl⟩
    | l :: ls => exact ⟨l, ls, rfl⟩
  | c :: s, hn => by
    have hcn : c ≠ '\n' := fun h => hn (h ▸ List.mem_cons_self)
    have hsn : '\n' ∉ s := fun h => hn (List.mem_cons_of_mem _ h)
    have hnext : (s ++ x :: rest).head? ≠ some '\n' := by
      match s, hsn with
      | [], _ => exact fun h => hx.1 (Option.some.inj h)
      | y :: s, hsn => exact fun h => hsn (Option.some.inj h ▸ List.mem_cons_self)
    obtain ⟨l, ls, h⟩ := @lines_head x rest hx s hsn
    refine ⟨l, ls, ?_⟩
    rw [List.cons_append, lines, if_neg hcn, if_neg fun h => hnext h.2, h]
    rfl

/-- A newline at the end changes nothing but an empty line or a carriage return. -/
theorem lines_snoc : ∀ s : Str, lines (s ++ ['\n']) = lines s ∨
    lines (s ++ ['\n']) = lines s ++ [[]] ∨
    ∃ ls l, lines s = ls ++ [l ++ ['\r']] ∧ lines (s ++ ['\n']) = ls ++ [l]
  | [] => .inr (.inl rfl)
  | c :: s => by
    rw [List.cons_append, lines, lines]
    by_cases hc : c = '\n'
    · rw [if_pos hc, if_pos hc]
      rcases lines_snoc s with h | h | ⟨ls, l, hs, h⟩
      · exact .inl (by rw [h])
      · exact .inr (.inl (by rw [h]; rfl))
      · exact .inr (.inr ⟨[] :: ls, l, by rw [hs]; rfl, by rw [h]; rfl⟩)
    rw [if_neg hc, if_neg hc]
    match s with
    | [] =>
      by_cases hr : c = '\r'
      · exact .inr (.inr ⟨[], [], by rw [hr]; rfl, by rw [hr]; rfl⟩)
      · refine .inl ?_
        rw [if_neg fun h => hr h.1, if_neg fun h => hr h.1]
        rfl
    | x :: s =>
      have hhead : ((x :: s) ++ ['\n']).head? = (x :: s).head? := rfl
      rw [hhead]
      split
      · exact lines_snoc (x :: s)
      have hne : lines (x :: s) ≠ [] := lines_ne_nil (List.cons_ne_nil x s)
      rcases lines_snoc (x :: s) with h | h | ⟨ls, l, hs, h⟩
      · exact .inl (by rw [h])
      · exact .inr (.inl (by rw [h, consLine_append hne]))
      · right
        right
        by_cases hls : ls = []
        · refine ⟨[], c :: l, ?_, ?_⟩
          · rw [hs, hls]
            rfl
          · rw [h, hls]
            rfl
        · exact ⟨consLine c ls, l, by rw [hs, consLine_append hls], by rw [h, consLine_append hls]⟩

/-! ## Numbers -/

/-- The digits of a number. -/
def decimal (n : Nat) : Str := Nat.toDigits 10 n

theorem decimal_ne_nil (n : Nat) : decimal n ≠ [] := Nat.toDigits_ne_nil

theorem isDigit_of_mem_decimal {n : Nat} {c : Char} (h : c ∈ decimal n) : c.isDigit :=
  Nat.isDigit_of_mem_toDigits (by decide) (by decide) h

/-- A sign in front is taken. -/
def dropPlus : Str → Str
  | '+' :: rest => rest
  | s => s

/-- `parse` for an unsigned type of so many values. -/
def parseUnsigned (bound : Nat) (s : Str) : Option Nat :=
  let digits := dropPlus s
  if digits ≠ [] ∧ digits.all Char.isDigit ∧ Nat.ofDigitChars 10 digits 0 < bound then
    some (Nat.ofDigitChars 10 digits 0)
  else none

theorem dropPlus_of_ne {s : Str} (h : ∀ rest, s ≠ '+' :: rest) : dropPlus s = s := by
  unfold dropPlus
  split
  · exact absurd rfl (h _)
  · rfl

theorem dropPlus_digits {s : Str} (h : ∀ c ∈ s, c.isDigit) : dropPlus s = s := by
  refine dropPlus_of_ne ?_
  rintro rest rfl
  exact absurd (h '+' List.mem_cons_self) (by decide)

/-- `s` says `n` in decimal digits. -/
structure Digits (s : Str) (n : Nat) : Prop where
  ne_nil : s ≠ []
  digits : ∀ c ∈ s, c.isDigit
  value : Nat.ofDigitChars 10 s 0 = n

/-- The same with a sign, if it has one. -/
def Number (s : Str) (n : Nat) : Prop := Digits (dropPlus s) n

theorem parseUnsigned_eq_some {bound n : Nat} {s : Str} :
    parseUnsigned bound s = some n ↔ Number s n ∧ n < bound := by
  unfold parseUnsigned
  simp only
  split
  · next h =>
    obtain ⟨hne, hdigits, hlt⟩ := h
    rw [Option.some.injEq]
    constructor
    · rintro rfl
      exact ⟨⟨hne, List.all_eq_true.mp hdigits, rfl⟩, hlt⟩
    · rintro ⟨hn, -⟩
      exact hn.value
  · next h =>
    refine iff_of_false nofun ?_
    rintro ⟨hn, hlt⟩
    exact h ⟨hn.ne_nil, List.all_eq_true.mpr hn.digits, hn.value ▸ hlt⟩

theorem parseUnsigned_digits {bound : Nat} {s : Str} (hne : s ≠ []) (hdigits : ∀ c ∈ s, c.isDigit)
    (hlt : Nat.ofDigitChars 10 s 0 < bound) :
    parseUnsigned bound s = some (Nat.ofDigitChars 10 s 0) := by
  refine parseUnsigned_eq_some.mpr ⟨?_, hlt⟩
  rw [Number, dropPlus_digits hdigits]
  exact ⟨hne, hdigits, rfl⟩

/-- **A number is read back** from its digits. -/
theorem parseUnsigned_decimal {bound n : Nat} (h : n < bound) :
    parseUnsigned bound (decimal n) = some n := by
  have hval : Nat.ofDigitChars 10 (decimal n) 0 = n := Nat.ofDigitChars_ten_toDigits
  rw [parseUnsigned_digits (decimal_ne_nil n) (fun _ => isDigit_of_mem_decimal) (by rwa [hval]), hval]

theorem Number.unique {s : Str} {n m : Nat} (hn : Number s n) (hm : Number s m) : n = m :=
  hn.value.symm.trans hm.value

theorem Number.mem {s : Str} {n : Nat} {c : Char} (h : Number s n) (hc : c ∈ s) : c = '+' ∨ c.isDigit := by
  have hdigits := h.digits
  unfold dropPlus at hdigits
  split at hdigits
  · exact (List.mem_cons.mp hc).imp_right (hdigits c)
  · exact .inr (hdigits c hc)

end Str

end Leshiy.Lib
