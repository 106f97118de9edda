import Leshiy.Lib.Shell
import Leshiy.Lib.Utf8
import Leshiy.Lib.Words

/-!
# The command that a wizard shows

`shell_quote` and `CommandLine` (`leshiy/src/wizard.rs`). A wizard ends with the command that does the same
without questions; it is wrapped to the width of a terminal and meant to be pasted into a shell.
-/

namespace Leshiy.Cli

open Leshiy.Lib Str

def isSafe (c : Char) : Bool := c.isAlphanum || "@%+=:,./-_".toList.contains c

def shellQuote (s : Str) : Str :=
  if s ≠ [] ∧ s.all isSafe then s else '\'' :: (Shell.escapeQuotes s ++ ['\''])

/-- `base` is the field `prefix`. -/
structure CommandLine where
  base : List Str
  args : List Str

namespace CommandLine

def new (base : Str) : CommandLine := ⟨splitWhitespace base, []⟩

def arg (c : CommandLine) (value : Str) : CommandLine := { c with args := c.args ++ [value] }

def opt (c : CommandLine) (name : Str) (value : Option Str) : CommandLine :=
  match value with
  | some v => { c with args := c.args ++ [name, v] }
  | none => c

def flag (c : CommandLine) (name : Str) (on : Bool) : CommandLine :=
  if on then { c with args := c.args ++ [name] } else c

/-- One token more, after the finished lines and the current one. -/
def put (width : Nat) (acc : List Str × Str) (part : Str) : List Str × Str :=
  let (lines, current) := acc
  if current ≠ [] ∧ width < byteLen current + 1 + byteLen part then
    (lines ++ [current], "    ".toList ++ part)
  else if current ≠ [] then (lines, current ++ [' '] ++ part)
  else (lines, current ++ part)

def joinLines (acc : List Str × Str) : Str :=
  List.intercalate " \\\n".toList (if acc.2 ≠ [] then acc.1 ++ [acc.2] else acc.1)

def tokens (c : CommandLine) : List Str := c.base ++ c.args.map shellQuote

def render (c : CommandLine) (width : Nat) : Str := joinLines (c.tokens.foldl (put width) ([], []))

/-- The first word is the name of a command, and no word of the base needs quotes. -/
structure Plain (c : CommandLine) : Prop where
  words : ∀ w ∈ c.base, w ≠ [] ∧ ∀ x ∈ w, Shell.isPlain x
  command : ∀ w ∈ c.base.head?, w ∉ Shell.reserved ∧ '=' ∉ w
  ne_nil : c.base ≠ []

instance (c : CommandLine) : Decidable c.Plain :=
  decidable_of_iff ((∀ w ∈ c.base, w ≠ [] ∧ w.all Shell.isPlain) ∧
    (∀ w ∈ c.base.head?, !Shell.reserved.contains w ∧ !w.contains '=') ∧ c.base ≠ [])
    ⟨fun ⟨h₁, h₂, h₃⟩ => ⟨fun w hw => (h₁ w hw).imp_right List.all_eq_true.mp, by simpa using h₂, h₃⟩,
      fun ⟨h₁, h₂, h₃⟩ => ⟨fun w hw => (h₁ w hw).imp_right List.all_eq_true.mpr, by simpa using h₂, h₃⟩⟩

/-! ## Wrapping -/

/-- What `render` puts between two tokens. -/
def gap (wrap : Bool) : Str := if wrap then " \\\n    ".toList else [' ']

theorem gap_gap (wrap : Bool) : Shell.Gap (gap wrap) := by
  cases wrap with
  | true => exact Shell.gap_continued 4
  | false => exact Shell.gap_space

theorem intercalate_snoc {sep x y : Str} : ∀ l : List Str,
    List.intercalate sep (l ++ [x, y]) = List.intercalate sep (l ++ [x]) ++ sep ++ y
  | [] => by simp [List.intercalate_cons_cons]
  | [a] => by simp [List.intercalate_cons_cons]
  | a :: b :: l => by
    have ih := @intercalate_snoc sep x y (b :: l)
    simp only [List.cons_append, List.intercalate_cons_cons] at ih ⊢
    rw [ih]
    simp

theorem intercalate_grow {sep x y : Str} : ∀ l : List Str,
    List.intercalate sep (l ++ [x ++ y]) = List.intercalate sep (l ++ [x]) ++ y
  | [] => by simp
  | [a] => by simp [List.intercalate_cons_cons]
  | a :: b :: l => by
    have ih := @intercalate_grow sep x y (b :: l)
    simp only [List.cons_append, List.intercalate_cons_cons] at ih ⊢
    rw [ih]
    simp

section

variable {width : Nat} {part current : Str} {parts lines : List Str} {acc : List Str × Str} {c : CommandLine}

/-- A token that follows another is put behind a gap. -/
theorem put_eq (hcurrent : acc.2 ≠ []) :
    ∃ wrap, (put width acc part).2 ≠ [] ∧
      joinLines (put width acc part) = joinLines acc ++ (gap wrap ++ part) := by
  obtain ⟨lines, current⟩ := acc
  by_cases hwide : width < byteLen current + 1 + byteLen part
  · refine ⟨true, ?_, ?_⟩
    · simp [put, hcurrent, hwide]
    · simp only [put, joinLines, hcurrent, hwide, ne_eq, not_false_eq_true, and_self, if_true]
      rw [if_pos (by simp), List.append_assoc, List.singleton_append, intercalate_snoc, gap, if_pos rfl]
      simp
  · refine ⟨false, ?_, ?_⟩
    · simp [put, hcurrent, hwide]
    · simp only [put, joinLines, hcurrent, hwide, ne_eq, not_false_eq_true, and_false, if_true, if_false]
      rw [if_pos (by simp), List.append_assoc, intercalate_grow]
      rfl

theorem foldl_put {α : Type} (f : α → Str) {items : List α} (hcurrent : acc.2 ≠ []) :
    ∃ gaps : List (Bool × α), gaps.map Prod.snd = items ∧
      joinLines ((items.map f).foldl (put width) acc) =
        joinLines acc ++ gaps.flatMap fun g => gap g.1 ++ f g.2 := by
  induction items generalizing acc with
  | nil => exact ⟨[], rfl, by simp⟩
  | cons item items ih =>
    obtain ⟨wrap, hne, hjoin⟩ := @put_eq width (f item) acc hcurrent
    obtain ⟨gaps, hgaps, hrest⟩ := ih hne
    refine ⟨(wrap, item) :: gaps, by simp [hgaps], ?_⟩
    rw [List.map_cons, List.foldl_cons, hrest, hjoin, List.append_assoc]
    rfl

/-! ## The shell gets the arguments -/

theorem isPlain_of_isSafe {x : Char} (hx : isSafe x) : Shell.isPlain x :=
  Shell.isPlain_of_check (by decide) hx

/-- An argument as `shell_quote` writes it. -/
def argWord (a : Str) : List Shell.Piece := if a ≠ [] ∧ a.all isSafe then [.plain a] else [.quoted a]

theorem text_argWord (a : Str) : Shell.text (argWord a) = shellQuote a := by
  unfold argWord shellQuote
  split <;> simp [Shell.text, Shell.Piece.text, Shell.quote]

theorem value_argWord (a : Str) : Shell.value (argWord a) = a := by
  unfold argWord
  split <;> simp [Shell.value, Shell.Piece.value]

theorem argWord_ok {a : Str} (hnul : '\x00' ∉ a) : Shell.WordOk (argWord a) := by
  unfold argWord
  split
  · next hsafe =>
    exact Shell.wordOk_plain hsafe.1 fun x hx => isPlain_of_isSafe (List.all_eq_true.mp hsafe.2 x hx)
  · refine ⟨List.cons_ne_nil _ _, fun p hp => ?_⟩
    rw [List.mem_singleton] at hp
    exact hp ▸ hnul

def baseWord (w : Str) : List Shell.Piece := [.plain w]

@[simp] theorem text_baseWord (w : Str) : Shell.text (baseWord w) = w := by
  simp [baseWord, Shell.text, Shell.Piece.text]

@[simp] theorem value_baseWord (w : Str) : Shell.value (baseWord w) = w := by
  simp [baseWord, Shell.value, Shell.Piece.value]

/-- The words after the first one, as they are written. -/
def restWords (c : CommandLine) : List (List Shell.Piece) := c.base.tail.map baseWord ++ c.args.map argWord

theorem restWords_ok (hplain : c.Plain) (hnul : ∀ a ∈ c.args, '\x00' ∉ a) :
    ∀ w ∈ c.restWords, Shell.WordOk w := by
  intro w hw
  rcases List.mem_append.mp hw with hw | hw
  · obtain ⟨x, hx, rfl⟩ := List.mem_map.mp hw
    obtain ⟨hne, hchars⟩ := hplain.words x (List.mem_of_mem_tail hx)
    exact Shell.wordOk_plain hne hchars
  · obtain ⟨a, ha, rfl⟩ := List.mem_map.mp hw
    exact argWord_ok (hnul a ha)

/-- What is shown is the first word, and each other one after a gap. -/
theorem render_eq {w : Str} {ws : List Str} (hbase : c.base = w :: ws) (hw : w ≠ []) :
    ∃ gaps : List (Bool × List Shell.Piece), gaps.map Prod.snd = c.restWords ∧
      c.render width = Shell.text (baseWord w) ++ gaps.flatMap fun g => gap g.1 ++ Shell.text g.2 := by
  have hcurrent : (put width ([], []) w).2 ≠ [] := by simpa [put] using hw
  have hfirst : joinLines (put width ([], []) w) = w := by simp [put, joinLines, hw]
  have htokens : c.tokens = w :: c.restWords.map Shell.text := by
    simp [tokens, restWords, hbase, text_argWord, Function.comp_def]
  obtain ⟨gaps, hgaps, hfold⟩ := foldl_put Shell.text hcurrent
  refine ⟨gaps, hgaps, ?_⟩
  rw [render, htokens, List.foldl_cons, hfold, hfirst, text_baseWord]

/-- **What is pasted runs what was meant**: at every width the shell reads the words of the base and then the
arguments, whatever is in them. -/
theorem argv_render (hplain : c.Plain) (hnul : ∀ a ∈ c.args, '\x00' ∉ a) (width : Nat) :
    Shell.argv (c.render width) = some (c.base ++ c.args) := by
  obtain ⟨w, ws, hbase⟩ := List.exists_cons_of_ne_nil hplain.ne_nil
  obtain ⟨hw, hchars⟩ := hplain.words w (hbase ▸ List.mem_cons_self)
  obtain ⟨hcommand, hassign⟩ := hplain.command w (by simp [hbase])
  obtain ⟨gaps, hgaps, hrender⟩ := @render_eq width c w ws hbase hw
  have hok : ∀ a ∈ gaps.map fun g => (gap g.1, g.2), Shell.Gap a.1 ∧ Shell.WordOk a.2 := by
    intro a ha
    obtain ⟨g, hg, rfl⟩ := List.mem_map.mp ha
    exact ⟨gap_gap g.1, restWords_ok hplain hnul g.2 (hgaps ▸ List.mem_map_of_mem hg)⟩
  have hvalues : gaps.map (fun g => Shell.value g.2) = ws ++ c.args := by
    have hmap : gaps.map (fun g => Shell.value g.2) = (gaps.map Prod.snd).map Shell.value := by simp
    rw [hmap, hgaps]
    simp [restWords, hbase, value_argWord, Function.comp_def]
  have hword : Shell.WordOk (baseWord w) := Shell.wordOk_plain hw hchars
  have hargv := Shell.argv_gaps hword (by simpa using hcommand) (by simpa using hassign) hok
  rw [List.flatMap_map, List.map_map] at hargv
  rw [hrender, hargv, hbase]
  simpa [Function.comp_def] using hvalues

end

/-- `leshiy remote provision`, with a label that would end quotes, wrapped after every token. -/
def quotedLabel : CommandLine :=
  ((new "leshiy remote provision".toList).opt "--label".toList (some "it's; rm -rf /".toList)).flag
    "--sudo".toList true

theorem argv_render_quotedLabel : Shell.argv (quotedLabel.render 0) =
    some (["leshiy", "remote", "provision", "--label", "it's; rm -rf /", "--sudo"].map String.toList) := by
  have hplain : quotedLabel.Plain := of_decide_eq_true rfl
  have hnul : ∀ a ∈ quotedLabel.args, '\x00' ∉ a := of_decide_eq_true rfl
  rw [argv_render hplain hnul 0]
  rfl

end CommandLine

end Leshiy.Cli
