import Leshiy.Lib.Str
import Leshiy.Lib.Text

/-!
# TOML documents

A document as its author spelled it: statements and gaps, line by line, and behind them the tables.
Strings are read in each of their four forms, and keys bare, quoted or dotted. Of any other value only
the text is kept, and every text is let pass for one.
-/

namespace Leshiy.Lib.Toml

open Str

def quotationMark : Char := Char.ofNat 0x22
def apostrophe : Char := Char.ofNat 0x27
def backslash : Char := Char.ofNat 0x5c

/-! ## Strings -/

def hexChar (digits : Str) : Option Char := do
  let values ← digits.mapM hexVal
  let n := values.foldl (fun n v => 16 * n + v) 0
  if n.isValidChar then some (Char.ofNat n) else none

/-- What stands behind a backslash and the character that it is read as. -/
def escape : Str → Option Char
  | ['b'] => some (Char.ofNat 0x08)
  | ['t'] => some '\t'
  | ['n'] => some '\n'
  | ['f'] => some (Char.ofNat 0x0c)
  | ['r'] => some '\r'
  | ['u', a, b, c, d] => hexChar [a, b, c, d]
  | ['U', a, b, c, d, e, f, g, h] => hexChar [a, b, c, d, e, f, g, h]
  | [c] => if c = quotationMark ∨ c = backslash then some c else none
  | _ => none

def isControl (c : Char) : Bool := (c.toNat < 0x20 && c != '\t') || c.toNat == 0x7f

/-- A character that stands for itself between quotation marks. -/
def isPlain (c : Char) : Bool := c != quotationMark && c != backslash && !isControl c

/-- The inside of a string of one line and what it is read as. -/
inductive BasicSpells : Str → Str → Prop
  | nil : BasicSpells [] []
  | plain {c : Char} {text value : Str} (hc : isPlain c) (h : BasicSpells text value) :
    BasicSpells (c :: text) (c :: value)
  | escaped {e : Str} {c : Char} {text value : Str} (he : escape e = some c)
    (h : BasicSpells text value) : BasicSpells (backslash :: (e ++ text)) (c :: value)

/-- Over several lines a newline and a quotation mark stand for themselves too, and a backslash at the
end of a line takes the blanks before the next character with it. -/
inductive MultiSpells : Str → Str → Prop
  | nil : MultiSpells [] []
  | plain {c : Char} {text value : Str} (hc : isPlain c ∨ c = quotationMark ∨ c = '\n' ∨ c = '\r')
    (h : MultiSpells text value) : MultiSpells (c :: text) (c :: value)
  | escaped {e : Str} {c : Char} {text value : Str} (he : escape e = some c)
    (h : MultiSpells text value) : MultiSpells (backslash :: (e ++ text)) (c :: value)
  | folded {blanks text value : Str} (hblanks : ∀ c ∈ blanks, isWhite c)
    (h : MultiSpells text value) : MultiSpells (backslash :: (blanks ++ text)) value

def triple (c : Char) : Str := [c, c, c]

/-- A newline right behind the opening is not part of a string of several lines. -/
def Opening (s : Str) : Prop := s = [] ∨ s = ['\n'] ∨ s = ['\r', '\n']

inductive StringSpells : Str → Str → Prop
  | basic {body value : Str} (h : BasicSpells body value) :
    StringSpells (quotationMark :: (body ++ [quotationMark])) value
  | literal {body : Str} (h : ∀ c ∈ body, c ≠ apostrophe ∧ ¬ isControl c) :
    StringSpells (apostrophe :: (body ++ [apostrophe])) body
  | multiBasic {start body value : Str} (hstart : Opening start) (h : MultiSpells body value) :
    StringSpells (triple quotationMark ++ (start ++ (body ++ triple quotationMark))) value
  | multiLiteral {start body : Str} (hstart : Opening start) :
    StringSpells (triple apostrophe ++ (start ++ (body ++ triple apostrophe))) body

theorem BasicSpells.of_plain : ∀ {s : Str}, (∀ c ∈ s, isPlain c) → BasicSpells s s
  | [], _ => .nil
  | c :: _, h =>
    .plain (h c List.mem_cons_self) (.of_plain fun x hx => h x (List.mem_cons_of_mem _ hx))

/-! ## Keys and values -/

def isBareKeyChar (c : Char) : Bool := c.isAlphanum || c == '_' || c == '-'

/-- One part of a key. -/
inductive PartSpells : Str → Str → Prop
  | bare {s : Str} (hne : s ≠ []) (h : ∀ c ∈ s, isBareKeyChar c) : PartSpells s s
  | quoted {text value : Str} (h : StringSpells text value) : PartSpells text value

/-- A key with dots between its parts. -/
inductive KeySpells : Str → List Str → Prop
  | single {text part : Str} (h : PartSpells text part) : KeySpells text [part]
  | dotted {text part blanks blanks' rest : Str} {parts : List Str} (h : PartSpells text part)
    (hblanks : ∀ c ∈ blanks, isWhite c) (hblanks' : ∀ c ∈ blanks', isWhite c)
    (hrest : KeySpells rest parts) :
    KeySpells (text ++ (blanks ++ '.' :: (blanks' ++ rest))) (part :: parts)

inductive Value where
  | string (s : Str)
  /-- A number, a date, an array, a table or a truth value. -/
  | other
  deriving DecidableEq

inductive ValueSpells : Str → Value → Prop
  | string {text s : Str} (h : StringSpells text s) : ValueSpells text (.string s)
  | other (text : Str) : ValueSpells text .other

/-! ## Documents -/

/-- What may stand behind a value on its line. -/
def Trailing (s : Str) : Prop :=
  ∃ blanks comment, s = blanks ++ comment ∧ (∀ c ∈ blanks, isWhite c) ∧
    (comment = [] ∨ comment.head? = some '#' ∧ '\n' ∉ comment)

/-- A statement `key = value`, with blanks around each and a comment behind. -/
structure Stmt where
  indent : Str
  keyText : Str
  beforeEq : Str
  behindEq : Str
  valueText : Str
  trailing : Str
  key : List Str
  value : Value
  blanks : ∀ c ∈ indent ++ (beforeEq ++ behindEq), isWhite c
  keySpells : KeySpells keyText key
  valueSpells : ValueSpells valueText value
  trails : Trailing trailing

/-- `key = "value"` as a printer writes it, and what stands behind. -/
def Stmt.basic (key v trailing : Str) (hkey : PartSpells key key) (hv : ∀ c ∈ v, isPlain c)
    (htrailing : Trailing trailing) : Stmt where
  indent := []
  keyText := key
  beforeEq := [' ']
  behindEq := [' ']
  valueText := quotationMark :: (v ++ [quotationMark])
  trailing
  key := [key]
  value := .string v
  blanks := List.all_eq_true.mp rfl
  keySpells := .single hkey
  valueSpells := .string (.basic (.of_plain hv))
  trails := htrailing

def Stmt.text (st : Stmt) : Str :=
  st.indent ++ (st.keyText ++ (st.beforeEq ++ '=' :: (st.behindEq ++ (st.valueText ++ st.trailing))))

/-- What the lines above the tables are: statements, and lines with a comment at most. -/
inductive Item where
  | stmt (st : Stmt)
  | gap (text : Str) (trails : Trailing text)

namespace Item

def text : Item → Str
  | stmt st => st.text
  | gap text _ => text

def stmt? : Item → Option Stmt
  | stmt st => some st
  | gap _ _ => none

end Item

/-- A text that begins with the header of a table. -/
def OpensTable (s : Str) : Prop :=
  ∃ blanks rest, s = blanks ++ '[' :: rest ∧ ∀ c ∈ blanks, isWhite c ∧ c ≠ '\n'

/-- A document, each item on lines of its own. `tables` is empty or begins with a table's header, and
no key comes twice. The last line need not be ended by a newline. -/
structure Doc where
  items : List Item
  tables : Str
  unterminated : Bool
  header : tables = [] ∨ OpensTable tables
  nodup : ((items.filterMap Item.stmt?).map Stmt.key).Nodup

namespace Doc

def stmts (d : Doc) : List Stmt := d.items.filterMap Item.stmt?

def top (d : Doc) : Str := d.items.flatMap fun i => i.text ++ ['\n']

def text (d : Doc) : Str :=
  if d.unterminated ∧ d.tables = [] then d.top.dropLast else d.top ++ d.tables

/-- The value of a key of the document itself. -/
def get (d : Doc) (key : Str) : Option Value :=
  (d.stmts.find? fun st => st.key == [key]).map Stmt.value

/-- No two statements have one key. -/
theorem stmt_unique {d : Doc} {above below : List Item} {st st' : Stmt}
    (hitems : d.items = above ++ .stmt st :: below) (hmem : .stmt st' ∈ below) :
    st'.key ≠ st.key := by
  have hnodup := d.nodup
  rw [hitems, List.filterMap_append, List.map_append] at hnodup
  have hbehind := (List.nodup_append.mp hnodup).2.1
  have hcons : (Item.stmt st :: below).filterMap Item.stmt? = st :: below.filterMap Item.stmt? := rfl
  rw [hcons, List.map_cons, List.nodup_cons] at hbehind
  intro heq
  refine hbehind.1 (heq ▸ List.mem_map_of_mem ?_)
  exact List.mem_filterMap.mpr ⟨.stmt st', hmem, rfl⟩

theorem mem_stmts {d : Doc} {st : Stmt} : st ∈ d.stmts ↔ .stmt st ∈ d.items := by
  unfold stmts
  rw [List.mem_filterMap]
  constructor
  · rintro ⟨i, hi, heq⟩
    cases i with
    | stmt st' =>
      cases heq
      exact hi
    | gap => cases heq
  · exact fun h => ⟨_, h, rfl⟩

end Doc

end Leshiy.Lib.Toml
