import Leshiy.Lib.Str

/-!
# Quoted text in AppleScript and PowerShell

What stands between the quotes of an AppleScript string and of a single-quoted PowerShell string, and what
follows it. PowerShell takes four typographic quotes for a single quote as well; a quote within the string is
written twice, and the second of the two is the one that is meant.
-/

namespace Leshiy.Lib.Literals

open Str

/-! ## AppleScript -/

def unescape : Char → Option Char
  | '\\' => some '\\'
  | '"' => some '"'
  | 'n' => some '\n'
  | 'r' => some '\r'
  | 't' => some '\t'
  | _ => none

/-- From behind the opening quote. -/
def readDouble : Str → Option (Str × Str)
  | [] => none
  | '"' :: s => some ([], s)
  | ['\\'] => none
  | '\\' :: c :: s =>
    match unescape c with
    | none => none
    | some x => (readDouble s).map fun r => (x :: r.1, r.2)
  | c :: s => (readDouble s).map fun r => (c :: r.1, r.2)

/-! ## PowerShell -/

def isQuote (c : Char) : Bool := c ∈ ['\'', '\u2018', '\u2019', '\u201a', '\u201b']

/-- From behind the opening quote. -/
def readSingle : Str → Option (Str × Str)
  | [] => none
  | [c] => if isQuote c then some ([], []) else none
  | c :: c' :: s =>
    if isQuote c then
      if isQuote c' then (readSingle s).map fun r => (c' :: r.1, r.2) else some ([], c' :: s)
    else (readSingle (c' :: s)).map fun r => (c :: r.1, r.2)

/-! ## Writing them -/

/-- `replace` of a character by a text. -/
def replace (x : Char) (t : Str) (s : Str) : Str := s.flatMap fun c => if c = x then t else [c]

theorem replace_cons (x c : Char) (t s : Str) :
    replace x t (c :: s) = (if c = x then t else [c]) ++ replace x t s := rfl

section

variable {s rest v : Str}

/-- A text whose backslashes and then its double quotes are escaped is read back. -/
theorem readDouble_escaped : readDouble (replace '"' ['\\', '"'] (replace '\\' ['\\', '\\'] s) ++ '"' :: rest) =
    some (s, rest) := by
  induction s with
  | nil => simp [replace, readDouble]
  | cons c s ih =>
    have hcons : replace '"' ['\\', '"'] (replace '\\' ['\\', '\\'] (c :: s)) =
        (if c = '\\' then ['\\', '\\'] else if c = '"' then ['\\', '"'] else [c]) ++
          replace '"' ['\\', '"'] (replace '\\' ['\\', '\\'] s) := by
      rw [replace_cons, replace, List.flatMap_append]
      by_cases hc : c = '\\'
      · simp [hc, replace]
      · simp [hc, replace]
    rw [hcons, List.append_assoc]
    by_cases hbackslash : c = '\\'
    · subst hbackslash
      simp only [if_true, List.cons_append, List.nil_append, readDouble, unescape, ih, Option.map_some]
    · by_cases hquote : c = '"'
      · subst hquote
        simp only [if_neg hbackslash, if_true, List.cons_append, List.nil_append, readDouble, unescape, ih,
          Option.map_some]
      · rw [if_neg hbackslash, if_neg hquote, List.singleton_append, readDouble, ih]
        · rfl
        · exact fun h => hquote h
        · intro h h'
          exact hbackslash h
        · intro x t h
          exact absurd h hbackslash

/-- Quotes come in pairs, but for the last one. -/
theorem count_readSingle (h : readSingle s = some (v, rest)) :
    ∃ used, s = used ++ rest ∧ used.countP isQuote = 2 * v.countP isQuote + 1 := by
  induction s using readSingle.induct generalizing v rest with
  | case1 => cases h
  | case2 c hc =>
    rw [readSingle, if_pos hc] at h
    cases h
    exact ⟨[c], by simp, by simp [hc]⟩
  | case3 c hc =>
    rw [readSingle, if_neg hc] at h
    cases h
  | case4 c c' s hc hc' ih =>
    rw [readSingle, if_pos hc, if_pos hc'] at h
    obtain ⟨⟨v', rest'⟩, hread, heq⟩ := Option.map_eq_some_iff.mp h
    cases heq
    obtain ⟨used, rfl, hcount⟩ := ih hread
    refine ⟨c :: c' :: used, rfl, ?_⟩
    simp only [List.countP_cons, hc, hc', if_true]
    omega
  | case5 c c' s hc hc' =>
    rw [readSingle, if_pos hc, if_neg hc'] at h
    cases h
    exact ⟨[c], rfl, by simp [hc]⟩
  | case6 c c' s hc ih =>
    rw [readSingle, if_neg hc] at h
    obtain ⟨⟨v', rest'⟩, hread, heq⟩ := Option.map_eq_some_iff.mp h
    cases heq
    obtain ⟨used, hused, hcount⟩ := ih hread
    refine ⟨c :: used, by rw [hused]; rfl, ?_⟩
    simp only [List.countP_cons, hc, Bool.false_eq_true, if_false, Nat.add_zero]
    exact hcount

theorem readSingle_cons {c : Char} (hc : isQuote c = false) (t : Str) :
    readSingle (c :: t) = (readSingle t).map fun r => (c :: r.1, r.2) := by
  cases t with
  | nil => simp [readSingle, hc]
  | cons c' t => rw [readSingle, if_neg (by simp [hc])]

theorem readSingle_end (hrest : ∀ c ∈ rest.head?, isQuote c = false) :
    readSingle ('\'' :: rest) = some ([], rest) := by
  have hquote : isQuote '\'' = true := by decide
  cases rest with
  | nil => simp [readSingle, hquote]
  | cons c t => rw [readSingle, if_pos hquote, if_neg (by simp [hrest c rfl])]

theorem countP_doubled (s : Str) :
    (replace '\'' ['\'', '\''] s).countP isQuote = s.countP isQuote + s.count '\'' := by
  induction s with
  | nil => rfl
  | cons c s ih =>
    have hquote : isQuote '\'' = true := by decide
    rw [replace_cons, List.countP_append, ih, List.countP_cons, List.count_cons]
    by_cases hc : c = '\''
    · simp only [hc, if_true, List.countP_cons, hquote, List.countP_nil, beq_self_eq_true]
      omega
    · simp only [hc, if_false, List.countP_cons, List.countP_nil, beq_iff_eq]
      omega

/-- The quotes of a text that has no typographic one. -/
theorem count_eq_iff : ∀ {s : Str}, s.count '\'' ≤ s.countP isQuote ∧
    (s.countP isQuote = s.count '\'' ↔ ∀ c ∈ s, isQuote c → c = '\'')
  | [] => by simp
  | c :: s => by
    obtain ⟨hle, hiff⟩ := @count_eq_iff s
    have hquote : isQuote '\'' = true := by decide
    rw [List.forall_mem_cons, List.countP_cons, List.count_cons]
    by_cases hc : c = '\''
    · simp only [hc, hquote, if_true, beq_self_eq_true]
      exact ⟨by omega, by rw [Nat.add_right_cancel_iff, hiff]; simp⟩
    · simp only [beq_iff_eq, hc, if_false, Nat.add_zero]
      by_cases hq : isQuote c
      · simp only [hq, if_true]
        refine ⟨by omega, ⟨fun h => by omega, fun h => absurd (h.1 trivial) (by simp)⟩⟩
      · simp only [hq, if_false, Nat.add_zero, Bool.false_eq_true]
        exact ⟨hle, by rw [hiff]; simp⟩

/-- **A text whose single quotes are doubled is read back exactly if it has no typographic quote.** -/
theorem readSingle_doubled_iff (hrest : ∀ c ∈ rest.head?, isQuote c = false) :
    readSingle (replace '\'' ['\'', '\''] s ++ '\'' :: rest) = some (s, rest) ↔
      ∀ c ∈ s, isQuote c → c = '\'' := by
  constructor
  · intro h
    obtain ⟨used, hused, hcount⟩ := count_readSingle h
    have hused' : (replace '\'' ['\'', '\''] s ++ ['\'']) ++ rest = used ++ rest := by simpa using hused
    rw [← List.append_cancel_right hused', List.countP_append, countP_doubled] at hcount
    have hlast : ['\''].countP isQuote = 1 := by decide
    exact count_eq_iff.2.mp (by omega)
  · intro h
    induction s with
    | nil => exact readSingle_end hrest
    | cons c s ih =>
      obtain ⟨hc, hs⟩ := List.forall_mem_cons.mp h
      rw [replace_cons]
      by_cases hq : isQuote c
      · obtain rfl := hc hq
        rw [if_pos rfl, List.append_assoc, List.cons_append, List.singleton_append, readSingle, if_pos hq,
          if_pos hq, ih hs]
        rfl
      · have hne : c ≠ '\'' := by
          rintro rfl
          exact hq (by decide)
        rw [if_neg hne, List.append_assoc, List.singleton_append, readSingle_cons (by simpa using hq), ih hs]
        rfl

end

end Leshiy.Lib.Literals
