import Leshiy.Lib.Str

/-!
# Words of a shell command

What a POSIX shell makes of a text that is one simple command: `argv` splits it into words and takes the
quotes off. A text that asks for more (an operator, a second command, an expansion, a pattern, a comment, a
reserved word or an assignment) has none.
-/

namespace Leshiy.Lib.Shell

open Str

/-! ## Reading words -/

/-- How far a word is. Outside quotes there may be none yet; a quote starts one, be it empty. -/
inductive State where
  | outside (w : Option Str)
  | escaped (w : Option Str)
  | single (w : Str)
  | double (w : Str)
  | doubleEscaped (w : Str)

/-- What has a meaning of its own outside quotes, wherever it stands: operators, the end of a command,
expansions and patterns. Braces are expanded by some shells only. -/
def special : List Char :=
  ['|', '&', ';', '<', '>', '(', ')', '\n', '$', '\x60', '~', '*', '?', '[', '\x7b']

def isBlank (c : Char) : Bool := c = ' ' || c = '\t'

def extend (w : Option Str) (c : Char) : Option Str := some (w.getD [] ++ [c])

/-- One character, with the words that it ends. -/
def next : State → Char → Option (List Str × State)
  | .outside w, c =>
    if c = '\x00' ∨ c ∈ special ∨ c = '#' ∧ w = none then none
    else if isBlank c then some (w.toList, .outside none)
    else if c = '\\' then some ([], .escaped w)
    else if c = '\'' then some ([], .single (w.getD []))
    else if c = '"' then some ([], .double (w.getD []))
    else some ([], .outside (extend w c))
  | .escaped w, c =>
    -- an escaped newline is no character at all
    if c = '\x00' then none else if c = '\n' then some ([], .outside w) else some ([], .outside (extend w c))
  | .single w, c =>
    if c = '\x00' then none
    else if c = '\'' then some ([], .outside (some w))
    else some ([], .single (w ++ [c]))
  | .double w, c =>
    if c = '\x00' ∨ c = '$' ∨ c = '\x60' then none
    else if c = '"' then some ([], .outside (some w))
    else if c = '\\' then some ([], .doubleEscaped w)
    else some ([], .double (w ++ [c]))
  | .doubleEscaped w, c =>
    if c = '\x00' then none
    else if c = '\n' then some ([], .double w)
    else if c ∈ ['$', '\x60', '"', '\\'] then some ([], .double (w ++ [c]))
    else some ([], .double (w ++ ['\\', c]))

def finish : State → Option (List Str)
  | .outside w => some w.toList
  | _ => none

def read : State → Str → Option (List Str)
  | st, [] => finish st
  | st, c :: s =>
    match next st c with
    | none => none
    | some (done, st') => (read st' s).map (done ++ ·)

/-- Words that are not names of commands. -/
def reserved : List Str :=
  ["!", "\x7b", "\x7d", "case", "do", "done", "elif", "else", "esac", "fi", "for", "if", "in", "then", "until",
    "while"].map String.toList

/-- The command and its arguments. A first word with `=` would be an assignment. -/
def argv (text : Str) : Option (List Str) :=
  match read (.outside none) text with
  | some (name :: args) => if name ∈ reserved ∨ '=' ∈ name then none else some (name :: args)
  | _ => none

/-! ## Writing words -/

/-- What ends a word, quotes, starts a comment, or cannot be in a text. -/
def breaking : List Char := ['\x00', ' ', '\t', '\\', '\'', '"', '#']

/-- What stands for itself wherever it is in a word. -/
def isPlain (c : Char) : Bool := c ∉ special && c ∉ breaking

/-- A quote inside single quotes ends them, is escaped, and opens them again. -/
def escapeQuotes (s : Str) : Str := s.flatMap fun c => if c = '\'' then ['\'', '\\', '\'', '\''] else [c]

def quote (s : Str) : Str := '\'' :: (escapeQuotes s ++ ['\''])

/-- A part of a word, as it is written. -/
inductive Piece where
  | plain (s : Str)
  | quoted (s : Str)

namespace Piece

def text : Piece → Str
  | plain s => s
  | quoted s => quote s

def value : Piece → Str
  | plain s | quoted s => s

def Ok : Piece → Prop
  | plain s => s ≠ [] ∧ ∀ c ∈ s, isPlain c
  | quoted s => '\x00' ∉ s

end Piece

def text (w : List Piece) : Str := w.flatMap Piece.text

def value (w : List Piece) : Str := w.flatMap Piece.value

/-- A word has a part, and each part can be written as it is. -/
def WordOk (w : List Piece) : Prop := w ≠ [] ∧ ∀ p ∈ w, p.Ok

instance : (p : Piece) → Decidable p.Ok
  | .plain s => decidable_of_iff ((!s.isEmpty && s.all isPlain) = true) (by simp [Piece.Ok])
  | .quoted s => inferInstanceAs (Decidable ('\x00' ∉ s))

instance (w : List Piece) : Decidable (WordOk w) := inferInstanceAs (Decidable (w ≠ [] ∧ ∀ p ∈ w, p.Ok))

/-- A command line: words with a space between them. -/
def line (name : List Piece) (args : List (List Piece)) : Str :=
  text name ++ args.flatMap fun w => ' ' :: text w

/-! ## Words are read as they are written -/

section

variable {w : Option Str} {v s t : Str} {c : Char}

theorem read_cons_of_next {st : State} (st' : State) (h : next st c = some ([], st')) :
    read st (c :: s) = read st' s := by
  rw [read, h]
  simp

theorem next_plain (hc : isPlain c) : next (.outside w) c = some ([], .outside (extend w c)) := by
  simp only [isPlain, Bool.and_eq_true, decide_eq_true_eq] at hc
  obtain ⟨hspecial, hbreaking⟩ := hc
  simp only [breaking, List.mem_cons, List.not_mem_nil, or_false, not_or] at hbreaking
  obtain ⟨hnul, hspace, htab, hbackslash, hsingle, hdouble, hhash⟩ := hbreaking
  simp [next, isBlank, hspecial, hnul, hspace, htab, hbackslash, hsingle, hdouble, hhash]

/-- A check that refuses the characters above lets plain ones through. -/
theorem isPlain_of_check {p : Char → Bool} (hp : (special ++ breaking).any p = false) (hc : p c) :
    isPlain c := by
  have hnot : c ∉ special ++ breaking := fun hmem => by
    rw [List.any_eq_true.mpr ⟨c, hmem, hc⟩] at hp
    cases hp
  rw [List.mem_append, not_or] at hnot
  simpa [isPlain] using hnot

theorem wordOk_plain (hne : s ≠ []) (hs : ∀ c ∈ s, isPlain c) : WordOk [.plain s] :=
  ⟨List.cons_ne_nil _ _, fun p hp => by
    rw [List.mem_singleton] at hp
    exact hp ▸ ⟨hne, hs⟩⟩

theorem read_plain (hne : s ≠ []) (hs : ∀ c ∈ s, isPlain c) :
    read (.outside w) (s ++ t) = read (.outside (some (w.getD [] ++ s))) t := by
  induction s generalizing w with
  | nil => exact absurd rfl hne
  | cons c s ih =>
    rw [List.cons_append, read_cons_of_next _ (next_plain (hs c List.mem_cons_self))]
    by_cases hnil : s = []
    · subst hnil
      rfl
    · rw [ih hnil fun x hx => hs x (List.mem_cons_of_mem _ hx)]
      simp [extend]

/-- Inside single quotes every character stands for itself; the quote is written as an escaped one between
two quoted parts. -/
theorem read_escapeQuotes (hs : '\x00' ∉ s) :
    read (.single v) (escapeQuotes s ++ '\'' :: t) = read (.outside (some (v ++ s))) t := by
  induction s generalizing v with
  | nil =>
    rw [List.append_nil]
    exact read_cons_of_next _ (by simp [next])
  | cons c s ih =>
    obtain ⟨hc, hs⟩ := not_or.mp (mt List.mem_cons.mpr hs)
    have hsnoc : v ++ c :: s = (v ++ [c]) ++ s := by simp
    rw [hsnoc, ← ih hs, escapeQuotes, List.flatMap_cons, List.append_assoc]
    split
    · next hquote =>
      subst hquote
      simp only [List.cons_append, List.nil_append]
      rw [read_cons_of_next (.outside (some v)) (by simp [next]),
        read_cons_of_next (.escaped (some v)) (by simp [next, isBlank, special]),
        read_cons_of_next (.outside (some (v ++ ['\'']))) (by simp [next, extend]),
        read_cons_of_next (.single (v ++ ['\''])) (by simp [next, isBlank, special])]
      rfl
    · next hquote =>
      have hnext : next (.single v) c = some ([], .single (v ++ [c])) := by
        simp [next, hquote, Ne.symm hc]
      rw [List.cons_append, List.nil_append, read_cons_of_next _ hnext]
      rfl

theorem read_quote (hs : '\x00' ∉ s) :
    read (.outside w) (quote s ++ t) = read (.outside (some (w.getD [] ++ s))) t := by
  have hopen : next (.outside w) '\'' = some ([], .single (w.getD [])) := by
    simp [next, isBlank, special]
  rw [quote, List.cons_append, read_cons_of_next _ hopen, List.append_assoc]
  exact read_escapeQuotes hs

theorem read_piece {p : Piece} (hp : p.Ok) :
    read (.outside w) (p.text ++ t) = read (.outside (some (w.getD [] ++ p.value))) t := by
  cases p with
  | plain s => exact read_plain hp.1 hp.2
  | quoted s => exact read_quote hp

theorem read_word {ps : List Piece} (hps : WordOk ps) :
    read (.outside w) (text ps ++ t) = read (.outside (some (w.getD [] ++ value ps))) t := by
  obtain ⟨hne, hok⟩ := hps
  induction ps generalizing w with
  | nil => exact absurd rfl hne
  | cons p ps ih =>
    rw [text, value, List.flatMap_cons, List.flatMap_cons, List.append_assoc,
      read_piece (hok p List.mem_cons_self)]
    by_cases hnil : ps = []
    · subst hnil
      simp
    · have hrest := ih (w := some (w.getD [] ++ p.value)) hnil fun q hq => hok q (List.mem_cons_of_mem _ hq)
      rw [Option.getD_some, List.append_assoc] at hrest
      exact hrest

theorem read_args {args : List (List Piece)} (hargs : ∀ a ∈ args, WordOk a) :
    read (.outside (some v)) (args.flatMap fun a => ' ' :: text a) = some (v :: args.map value) := by
  induction args generalizing v with
  | nil => rfl
  | cons a args ih =>
    have hblank : next (.outside (some v)) ' ' = some ([v], .outside none) := by
      simp [next, isBlank, special]
    have hrest := ih (v := value a) fun b hb => hargs b (List.mem_cons_of_mem _ hb)
    rw [List.flatMap_cons, List.cons_append, read, hblank]
    simp only
    rw [read_word (hargs a List.mem_cons_self), Option.getD_none, List.nil_append, hrest]
    rfl

/-- **A line is split into the values of its words.** -/
theorem argv_line {name : List Piece} {args : List (List Piece)} (hname : WordOk name)
    (hcommand : value name ∉ reserved) (hassign : '=' ∉ value name) (hargs : ∀ a ∈ args, WordOk a) :
    argv (line name args) = some (value name :: args.map value) := by
  have hread : read (.outside none) (line name args) = some (value name :: args.map value) := by
    rw [line, read_word hname, Option.getD_none, List.nil_append, read_args hargs]
  rw [argv, hread]
  exact if_neg (not_or.mpr ⟨hcommand, hassign⟩)

/-! ## A command over several lines -/

/-- What ends a word and starts none. -/
def Gap (g : Str) : Prop := ∀ v t, read (.outside (some v)) (g ++ t) = (read (.outside none) t).map (v :: ·)

theorem gap_space : Gap [' '] := by
  intro v t
  have hblank : next (.outside (some v)) ' ' = some ([v], .outside none) := by
    simp [next, isBlank, special]
  rw [List.singleton_append, read, hblank]
  rfl

theorem read_spaces (n : Nat) : read (.outside none) (List.replicate n ' ' ++ t) = read (.outside none) t := by
  induction n with
  | zero => rfl
  | succ n ih =>
    rw [List.replicate_succ, List.cons_append, read_cons_of_next (.outside none) (by simp [next, isBlank, special])]
    exact ih

/-- A line that ends in a backslash goes on in the next one, however that is indented. -/
theorem gap_continued (n : Nat) : Gap ([' ', '\\', '\n'] ++ List.replicate n ' ') := by
  intro v t
  have hline : [' ', '\\', '\n'] ++ List.replicate n ' ' ++ t =
      [' '] ++ ('\\' :: '\n' :: (List.replicate n ' ' ++ t)) := by simp
  rw [hline, gap_space v, read_cons_of_next (.escaped none) (by simp [next, isBlank, special]),
    read_cons_of_next (.outside none) (by simp [next]), read_spaces]

theorem read_gaps {args : List (Str × List Piece)} (hargs : ∀ a ∈ args, Gap a.1 ∧ WordOk a.2) :
    read (.outside (some v)) (args.flatMap fun a => a.1 ++ text a.2) =
      some (v :: args.map fun a => value a.2) := by
  induction args generalizing v with
  | nil => rfl
  | cons a args ih =>
    obtain ⟨hgap, hword⟩ := hargs a List.mem_cons_self
    rw [List.flatMap_cons, List.append_assoc, hgap v, read_word hword, Option.getD_none, List.nil_append,
      ih fun b hb => hargs b (List.mem_cons_of_mem _ hb)]
    rfl

/-- `argv_line`, whatever stands between the words. -/
theorem argv_gaps {name : List Piece} {args : List (Str × List Piece)} (hname : WordOk name)
    (hcommand : value name ∉ reserved) (hassign : '=' ∉ value name)
    (hargs : ∀ a ∈ args, Gap a.1 ∧ WordOk a.2) :
    argv (text name ++ args.flatMap fun a => a.1 ++ text a.2) =
      some (value name :: args.map fun a => value a.2) := by
  have hread : read (.outside none) (text name ++ args.flatMap fun a => a.1 ++ text a.2) =
      some (value name :: args.map fun a => value a.2) := by
    rw [read_word hname, Option.getD_none, List.nil_append, read_gaps hargs]
  rw [argv, hread]
  exact if_neg (not_or.mpr ⟨hcommand, hassign⟩)

end

end Leshiy.Lib.Shell
