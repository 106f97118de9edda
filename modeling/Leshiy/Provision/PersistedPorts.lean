import Leshiy.Lib.Toml
import Leshiy.Provision.Basic

/-!
# The ports of a persisted config

`port_of`, `with_port` and `parse_persisted_ports` of `leshiy-provision/src/docker.rs`. A container
publishes the ports that a scan of `server.toml` line by line comes upon; the server inside binds what
a TOML parser reads. The two agree where the last line of a key that the scan sees says, blanks and
quotation marks aside, the port that the parser reads.
-/

namespace Leshiy.Provision

open Leshiy.Lib Str Toml

def portOf (hostPort : Str) : Option UInt16 := do
  let (_, p) ← rsplitOnce ':' (trim hostPort)
  let n ← parseUnsigned (UInt16.size) p
  return UInt16.ofNat n

def withPort (hostPort : Str) (port : UInt16) : Str :=
  let h := trim hostPort
  match rsplitOnce ':' h with
  | some (head, _) => head ++ ':' :: decimal port.toNat
  | none => h ++ ':' :: decimal port.toNat

def listenKey : Str := "listen".toList
def quicListenKey : Str := "quic_listen".toList

/-- The key and the value of a line, as the scan takes them. -/
def assignment (line : Str) : Option (Str × Str) :=
  (splitOnce '=' (trim line)).map fun kv => (trim kv.1, trimMatches (· == quotationMark) (trim kv.2))

def opensTable (line : Str) : Bool := (trim line).head? == some '['

def scanLine (ports : Option UInt16 × Option UInt16) (line : Str) :
    Option UInt16 × Option UInt16 :=
  match assignment line with
  | none => ports
  | some (k, v) =>
    if k = listenKey then (portOf v, ports.2)
    else if k = quicListenKey then (ports.1, portOf v)
    else ports

def scanLines : List Str → Option UInt16 × Option UInt16 → Option UInt16 × Option UInt16
  | [], ports => ports
  | line :: rest, ports =>
    -- Into a sub-table; the listen keys are top-level.
    if opensTable line then ports else scanLines rest (scanLine ports line)

/-- The ports of `listen` and of `quic_listen`. -/
def parsePersistedPorts (configToml : Str) : Option UInt16 × Option UInt16 :=
  scanLines (lines configToml) (none, none)

/-! ## What the scan sees -/

/-- The lines above the first that opens a table. -/
def scanned (configToml : Str) : List Str := (lines configToml).takeWhile fun l => !opensTable l

/-- The last line that assigns the key says this port. -/
inductive Shows (ls : List Str) (key : Str) : Option UInt16 → Prop
  | never (h : ∀ l ∈ ls, ∀ right, assignment l ≠ some (key, right)) : Shows ls key none
  | last {above below : List Str} {line right : Str} (hsplit : ls = above ++ line :: below)
    (hline : assignment line = some (key, right))
    (hbelow : ∀ l ∈ below, ∀ right, assignment l ≠ some (key, right)) : Shows ls key (portOf right)

section

variable {ls ls' : List Str} {l key k v : Str} {port port' : Option UInt16}
  {ports : Option UInt16 × Option UInt16}

theorem scanLines_eq : ∀ {ls : List Str} {ports : Option UInt16 × Option UInt16},
    scanLines ls ports = (ls.takeWhile fun l => !opensTable l).foldl scanLine ports
  | [], _ => rfl
  | line :: rest, ports => by
    rw [scanLines]
    by_cases hopens : opensTable line
    · rw [if_pos hopens, List.takeWhile_cons_of_neg (by simp [hopens])]
      rfl
    · rw [if_neg hopens, List.takeWhile_cons_of_pos (by simp [hopens]), scanLines_eq]
      rfl

/-- A line that assigns another key leaves the last one as it is. -/
theorem Shows.snoc_other (h : Shows ls key port)
    (hl : ∀ right, assignment l ≠ some (key, right)) : Shows (ls ++ [l]) key port := by
  cases h with
  | never h =>
    refine .never fun x hx => ?_
    rcases List.mem_append.mp hx with hx | hx
    · exact h x hx
    · rw [List.mem_singleton.mp hx]
      exact hl
  | last hsplit hline hbelow =>
    refine .last (by rw [hsplit, List.append_assoc, List.cons_append]) hline fun x hx => ?_
    rcases List.mem_append.mp hx with hx | hx
    · exact hbelow x hx
    · rw [List.mem_singleton.mp hx]
      exact hl

theorem Shows.snoc_line (hl : assignment l = some (key, v)) :
    Shows (ls ++ [l]) key (portOf v) :=
  .last rfl hl fun _ hx => absurd hx List.not_mem_nil

/-- What one line does to the ports. -/
theorem scanLine_shows (hlisten : Shows ls listenKey ports.1)
    (hquic : Shows ls quicListenKey ports.2) :
    Shows (ls ++ [l]) listenKey (scanLine ports l).1 ∧
      Shows (ls ++ [l]) quicListenKey (scanLine ports l).2 := by
  have hne : listenKey ≠ quicListenKey := by decide
  unfold scanLine
  cases hassign : assignment l with
  | none => exact ⟨hlisten.snoc_other (by simp [hassign]), hquic.snoc_other (by simp [hassign])⟩
  | some kv =>
    obtain ⟨k, v⟩ := kv
    by_cases hk : k = listenKey
    · simp only [if_pos hk]
      subst hk
      exact ⟨.snoc_line hassign, hquic.snoc_other (by simp [hassign, hne])⟩
    by_cases hk' : k = quicListenKey
    · simp only [if_neg hk, if_pos hk']
      subst hk'
      exact ⟨hlisten.snoc_other (by simp [hassign, hne.symm]), .snoc_line hassign⟩
    · simp only [if_neg hk, if_neg hk']
      exact ⟨hlisten.snoc_other (by simp [hassign, hk]), hquic.snoc_other (by simp [hassign, hk'])⟩

/-- The scan from any line on. -/
theorem foldl_scanLine_shows : ∀ {ls' : List Str} {ls : List Str}
    {ports : Option UInt16 × Option UInt16}, Shows ls listenKey ports.1 →
    Shows ls quicListenKey ports.2 →
    Shows (ls ++ ls') listenKey (ls'.foldl scanLine ports).1 ∧
      Shows (ls ++ ls') quicListenKey (ls'.foldl scanLine ports).2
  | [], ls, ports, hlisten, hquic => by
    rw [List.append_nil]
    exact ⟨hlisten, hquic⟩
  | l :: ls', ls, ports, hlisten, hquic => by
    obtain ⟨hlisten', hquic'⟩ := scanLine_shows (l := l) hlisten hquic
    have hrest := @foldl_scanLine_shows ls' _ _ hlisten' hquic'
    rw [List.append_assoc, List.singleton_append] at hrest
    exact hrest

/-- The scan finds what the last line of each key says. -/
theorem parsePersistedPorts_shows (t : Str) :
    Shows (scanned t) listenKey (parsePersistedPorts t).1 ∧
      Shows (scanned t) quicListenKey (parsePersistedPorts t).2 := by
  unfold parsePersistedPorts
  rw [scanLines_eq]
  have hnever : ∀ key, Shows [] key none := fun key => .never fun l hl => absurd hl List.not_mem_nil
  exact @foldl_scanLine_shows _ [] (none, none) (hnever _) (hnever _)

/-- What a line assigns to the key. -/
def rightOf (key l : Str) : Option Str :=
  (assignment l).bind fun kv => if kv.1 = key then some kv.2 else none

theorem rightOf_eq_none (h : ∀ right, assignment l ≠ some (key, right)) : rightOf key l = none := by
  unfold rightOf
  cases hassign : assignment l with
  | none => rfl
  | some kv =>
    have hkey : kv.1 ≠ key := fun heq => h kv.2 (by rw [hassign, ← heq])
    exact if_neg hkey

theorem Shows.eq (h : Shows ls key port) :
    port = (ls.reverse.findSome? (rightOf key)).bind portOf := by
  cases h with
  | never h =>
    have hnone : ls.reverse.findSome? (rightOf key) = none :=
      List.findSome?_eq_none_iff.mpr fun l hl => rightOf_eq_none (h l (List.mem_reverse.mp hl))
    rw [hnone]
    rfl
  | @last above below line right hsplit hline hbelow =>
    have hnone : below.reverse.findSome? (rightOf key) = none :=
      List.findSome?_eq_none_iff.mpr fun l hl => rightOf_eq_none (hbelow l (List.mem_reverse.mp hl))
    have hright : rightOf key line = some right := by
      unfold rightOf
      rw [hline]
      exact if_pos rfl
    rw [hsplit, List.reverse_append, List.reverse_cons, List.append_assoc, List.findSome?_append,
      hnone, List.singleton_append, List.findSome?_cons, hright]
    rfl

/-- Only one line is the last of its key. -/
theorem Shows.unique (h : Shows ls key port) (h' : Shows ls key port') : port = port' :=
  h.eq.trans h'.eq.symm

end

/-! ## What the server binds -/

/-- The port of the address that the loader reads under a key. -/
def boundPort (d : Doc) (key : Str) : Option UInt16 :=
  match d.get key with
  | some (.string v) => portOf v
  | _ => none

def IsPortKey (key : Str) : Prop := key = listenKey ∨ key = quicListenKey

def Blank (s : Str) : Prop := ∀ c ∈ s, isWhite c ∧ c ≠ '\n'

/-- A statement of one line: the bare key, a string between quotation marks in which every character
stands for itself, and no comment. -/
structure PlainStmt (st : Stmt) (key v : Str) : Prop where
  indent : Blank st.indent
  keyText : st.keyText = key
  beforeEq : Blank st.beforeEq
  behindEq : Blank st.behindEq
  valueText : st.valueText = quotationMark :: (v ++ [quotationMark])
  value : st.value = .string v
  body : quotationMark ∉ v ∧ '\n' ∉ v
  trailing : Blank st.trailing

/-- An item with no line that the scan takes for one of the keys or for the header of a table. -/
def Quiet (i : Item) : Prop :=
  ∀ l ∈ lines (i.text ++ ['\n']), ¬ opensTable l ∧
    ∀ key, IsPortKey key → ∀ right, assignment l ≠ some (key, right)

/-- A config as `server-init` writes it, with whatever else does not look like the keys. -/
structure Plain (d : Doc) : Prop where
  own : ∀ st ∈ d.stmts, ∀ key, IsPortKey key → st.key = [key] → ∃ v, PlainStmt st key v
  others : ∀ i ∈ d.items, (∀ st key, IsPortKey key → i = .stmt st → st.key ≠ [key]) → Quiet i

section

variable {d : Doc} {st : Stmt} {i : Item} {s key key' v l : Str}

theorem IsPortKey.eq (h : IsPortKey key) : ('=' ∉ key ∧ '\n' ∉ key) ∧ key ≠ [] ∧
    (∀ c ∈ key, ¬ isWhite c) ∧ key.head? ≠ some '[' := by
  rcases h with rfl | rfl <;>
    exact ⟨by decide, by decide, not_isWhite_of_all (by decide), by decide⟩

theorem trim_append_white (hs : ∀ c ∈ s, isWhite c) : trim (l ++ s) = trim l :=
  trimMatches_append_right hs

theorem not_isWhite_head (hkey : ∀ c ∈ key, ¬ isWhite c) (s : Str) (hne : key ≠ []) :
    ∀ c ∈ (key ++ s).head?, ¬ isWhite c := by
  intro c hc
  match key, hne with
  | x :: key, _ =>
    cases hc
    exact hkey _ List.mem_cons_self

/-- What is left of a plain statement when it is trimmed. -/
theorem PlainStmt.trim_text (h : PlainStmt st key v) (hkey : IsPortKey key) :
    trim st.text =
      key ++ (st.beforeEq ++ '=' :: (st.behindEq ++ quotationMark :: (v ++ [quotationMark]))) := by
  obtain ⟨-, hne, hwhite, -⟩ := hkey.eq
  have htext : st.text = st.indent ++ ((key ++ (st.beforeEq ++ '=' :: (st.behindEq ++
      quotationMark :: (v ++ [quotationMark])))) ++ st.trailing) := by
    unfold Stmt.text
    rw [h.keyText, h.valueText]
    simp only [List.append_assoc, List.cons_append]
  rw [htext]
  refine trimMatches_append (fun c hc => (h.indent c hc).1) (fun c hc => (h.trailing c hc).1)
    (not_isWhite_head hwhite _ hne) ?_
  intro c hc
  have hlast : (key ++ (st.beforeEq ++ '=' :: (st.behindEq ++
      quotationMark :: (v ++ [quotationMark])))).getLast? = some quotationMark := by
    have hsnoc : key ++ (st.beforeEq ++ '=' :: (st.behindEq ++
        quotationMark :: (v ++ [quotationMark]))) =
        (key ++ (st.beforeEq ++ '=' :: (st.behindEq ++ quotationMark :: v))) ++ [quotationMark] := by
      simp only [List.append_assoc, List.cons_append]
    rw [hsnoc, List.getLast?_concat]
  rw [hlast] at hc
  cases hc
  decide

/-- The scan takes it for what it is. -/
theorem PlainStmt.assignment_eq (h : PlainStmt st key v) (hkey : IsPortKey key)
    (hl : trim l = trim st.text) : assignment l = some (key, v) := by
  obtain ⟨⟨heq, -⟩, hne, hwhite, -⟩ := hkey.eq
  have hbefore : '=' ∉ key ++ st.beforeEq := by
    intro hmem
    rcases List.mem_append.mp hmem with hmem | hmem
    · exact heq hmem
    · exact absurd (h.beforeEq _ hmem).1 (by decide)
  have hk : trim (key ++ st.beforeEq) = key :=
    @trimMatches_append _ [] _ _ (by simp) (fun c hc => (h.beforeEq c hc).1)
      (fun c hc => hwhite c (List.mem_of_mem_head? hc))
      (fun c hc => hwhite c (List.mem_of_getLast? hc))
  have hv : trimMatches (· == quotationMark)
      (trim (st.behindEq ++ quotationMark :: (v ++ [quotationMark]))) = v := by
    have hquoted : trim (st.behindEq ++ ((quotationMark :: (v ++ [quotationMark])) ++ [])) =
        quotationMark :: (v ++ [quotationMark]) := by
      refine trimMatches_append (fun c hc => (h.behindEq c hc).1) (by simp) ?_ ?_
      · intro c hc
        cases hc
        decide
      · intro c hc
        rw [← List.cons_append, List.getLast?_concat] at hc
        cases hc
        decide
    have hbody : ∀ c ∈ v, ¬ (c == quotationMark) = true := by
      intro c hc heq
      exact h.body.1 (eq_of_beq heq ▸ hc)
    have hinner : trimMatches (· == quotationMark) ([quotationMark] ++ (v ++ [quotationMark])) = v :=
      trimMatches_append (by simp) (by simp) (fun c hc => hbody c (List.mem_of_mem_head? hc))
        (fun c hc => hbody c (List.mem_of_getLast? hc))
    rw [List.append_nil] at hquoted
    rw [hquoted]
    exact hinner
  unfold assignment
  rw [hl, h.trim_text hkey, ← List.append_assoc, splitOnce_append hbefore, Option.map_some, hk, hv]

theorem newline_not_mem_of_blank (h : Blank s) : '\n' ∉ s := fun hmem => (h _ hmem).2 rfl

/-- A plain statement is one line. -/
theorem PlainStmt.lines_eq (h : PlainStmt st key v) (hkey : IsPortKey key) :
    ∃ l, lines (st.text ++ ['\n']) = [l] ∧ trim l = trim st.text := by
  have hn : '\n' ∉ st.text := by
    unfold Stmt.text
    rw [h.keyText, h.valueText]
    simp only [List.mem_append, List.mem_cons, not_or]
    exact ⟨newline_not_mem_of_blank h.indent, hkey.eq.1.2, newline_not_mem_of_blank h.beforeEq,
      by decide, newline_not_mem_of_blank h.behindEq,
      ⟨by decide, h.body.2, by decide, List.not_mem_nil⟩, newline_not_mem_of_blank h.trailing⟩
  obtain ⟨l, hl, heq⟩ := lines_line hn
  refine ⟨l, hl, ?_⟩
  rcases heq with heq | heq
  · rw [heq]
  · rw [heq, trim_append_white (List.all_eq_true.mp rfl)]

theorem PlainStmt.not_opensTable (h : PlainStmt st key v) (hkey : IsPortKey key)
    (hl : trim l = trim st.text) : ¬ opensTable l := by
  obtain ⟨-, hne, -, hhead⟩ := hkey.eq
  unfold opensTable
  rw [hl, h.trim_text hkey]
  match key, hne with
  | x :: key, _ => simpa using hhead

/-- The lines of the items. -/
def itemLines (items : List Item) : List Str := items.flatMap fun i => lines (i.text ++ ['\n'])

/-- No item but the one of a key assigns it, and none opens a table. -/
theorem Plain.item_lines (hd : Plain d) (hi : i ∈ d.items) :
    ∀ l ∈ lines (i.text ++ ['\n']), ¬ opensTable l ∧ ∀ key, IsPortKey key →
      (∀ st, i = .stmt st → st.key ≠ [key]) → ∀ right, assignment l ≠ some (key, right) := by
  intro l hl
  by_cases hown : ∃ st key, IsPortKey key ∧ i = .stmt st ∧ st.key = [key]
  · obtain ⟨st, key', hkey', rfl, hst⟩ := hown
    obtain ⟨v, hplain⟩ := hd.own st (Doc.mem_stmts.mpr hi) key' hkey' hst
    obtain ⟨l', hl', htrim⟩ := hplain.lines_eq hkey'
    have heq : l = l' := List.mem_singleton.mp (hl' ▸ hl)
    subst heq
    refine ⟨hplain.not_opensTable hkey' htrim, fun key _ hother right hright => ?_⟩
    rw [hplain.assignment_eq hkey' htrim, Option.some.injEq, Prod.mk.injEq] at hright
    exact hother st rfl (by rw [hst, hright.1])
  · push Not at hown
    obtain ⟨hopens, hkeys⟩ := hd.others i hi (fun st key hkey heq => hown st key hkey heq) l hl
    exact ⟨hopens, fun key hkey _ => hkeys key hkey⟩

/-- **The items say what the loader reads** under the keys. -/
theorem Plain.shows (hd : Plain d) (hkey : IsPortKey key) :
    Shows (itemLines d.items) key (boundPort d key) := by
  unfold boundPort Doc.get
  cases hfind : d.stmts.find? fun st => st.key == [key] with
  | none =>
    refine .never fun l hl => ?_
    obtain ⟨i, hi, hl⟩ := List.mem_flatMap.mp hl
    refine (hd.item_lines hi l hl).2 key hkey ?_
    rintro st rfl heq
    have hno := List.find?_eq_none.mp hfind st (Doc.mem_stmts.mpr hi)
    exact hno (by simp [heq])
  | some st =>
    have hmem := Doc.mem_stmts.mp (List.mem_of_find?_eq_some hfind)
    have hst : st.key = [key] := by simpa using List.find?_some hfind
    obtain ⟨v, hplain⟩ := hd.own st (List.mem_of_find?_eq_some hfind) key hkey hst
    obtain ⟨above, below, hitems⟩ := List.append_of_mem hmem
    obtain ⟨l, hl, htrim⟩ := hplain.lines_eq hkey
    have hsplit : itemLines d.items = itemLines above ++ l :: itemLines below := by
      unfold itemLines
      rw [hitems, List.flatMap_append, List.flatMap_cons]
      show _ ++ (lines (st.text ++ ['\n']) ++ _) = _
      rw [hl, List.singleton_append]
    rw [Option.map_some, hplain.value]
    refine .last hsplit (hplain.assignment_eq hkey htrim) fun x hx => ?_
    obtain ⟨i, hi, hx⟩ := List.mem_flatMap.mp hx
    have hin : i ∈ d.items := by
      rw [hitems]
      exact List.mem_append_right _ (List.mem_cons_of_mem _ hi)
    refine (hd.item_lines hin x hx).2 key hkey ?_
    rintro st' rfl heq
    exact Doc.stmt_unique hitems hi (heq.trans hst.symm)

theorem lines_items (t : Str) : ∀ items : List Item,
    lines (items.flatMap (fun i => i.text ++ ['\n']) ++ t) = itemLines items ++ lines t
  | [] => rfl
  | i :: items => by
    have ih := lines_items t items
    unfold itemLines at ih ⊢
    rw [List.flatMap_cons, List.flatMap_cons, List.append_assoc, List.append_assoc,
      List.singleton_append, lines_append_newline, ih, List.append_assoc]

/-- Above the tables the scan sees every line of the items and no other. -/
theorem Plain.scanned_eq (hd : Plain d) : scanned (d.top ++ d.tables) = itemLines d.items := by
  unfold scanned Doc.top
  rw [lines_items, List.takeWhile_append_of_pos]
  · have hnone : (lines d.tables).takeWhile (fun l => !opensTable l) = [] := by
      rcases d.header with htables | ⟨blanks, rest, htables, hblanks⟩
      · rw [htables]
        rfl
      · obtain ⟨l, ls, hlines⟩ := @lines_head '[' rest (by decide) _
          (newline_not_mem_of_blank hblanks)
        have hopens : opensTable (blanks ++ '[' :: l) = true := by
          unfold opensTable
          have hhead : (trim (blanks ++ '[' :: l)).head? = some '[' :=
            head?_trimMatches (fun c hc => (hblanks c hc).1) (by decide)
          rw [hhead]
          rfl
        rw [htables, hlines, List.takeWhile_cons_of_neg (by simp [hopens])]
    rw [hnone, List.append_nil]
  · intro l hl
    obtain ⟨i, hi, hl⟩ := List.mem_flatMap.mp hl
    simpa using (hd.item_lines hi l hl).1

section

variable {ports : Option UInt16 × Option UInt16}

/-- The last line counts as it is trimmed. -/
theorem scanLines_snoc_congr {l l' : Str} (htrim : trim l = trim l') : ∀ {ls : List Str}
    {ports : Option UInt16 × Option UInt16},
    scanLines (ls ++ [l]) ports = scanLines (ls ++ [l']) ports
  | [], ports => by
    have hopens : opensTable l = opensTable l' := by
      unfold opensTable
      rw [htrim]
    have hscan : scanLine ports l = scanLine ports l' := by
      unfold scanLine assignment
      rw [htrim]
    rw [List.nil_append, List.nil_append, scanLines, scanLines, hopens, hscan]
    rfl
  | x :: ls, ports => by
    rw [List.cons_append, List.cons_append, scanLines, scanLines, scanLines_snoc_congr htrim]

theorem scanLines_snoc_nil : ∀ {ls : List Str} {ports : Option UInt16 × Option UInt16},
    scanLines (ls ++ [[]]) ports = scanLines ls ports
  | [], _ => rfl
  | x :: ls, ports => by rw [List.cons_append, scanLines, scanLines, scanLines_snoc_nil]

/-- The scan is the same without a newline at the end. -/
theorem parsePersistedPorts_snoc_newline (t : Str) :
    parsePersistedPorts (t ++ ['\n']) = parsePersistedPorts t := by
  unfold parsePersistedPorts
  rcases lines_snoc t with h | h | ⟨ls, l, ht, h⟩
  · rw [h]
  · rw [h, scanLines_snoc_nil]
  · rw [h, ht]
    exact scanLines_snoc_congr (trim_append_white (List.all_eq_true.mp rfl)).symm

end

theorem dropLast_top (d : Doc) (hne : d.top ≠ []) : d.top.dropLast ++ ['\n'] = d.top := by
  unfold Doc.top at hne ⊢
  rcases List.eq_nil_or_concat d.items with hitems | ⟨items, i, hitems⟩
  · rw [hitems] at hne
    exact absurd rfl hne
  · rw [hitems, List.concat_eq_append, List.flatMap_append, List.flatMap_singleton,
      ← List.append_assoc, List.dropLast_concat]

/-- **A plain config publishes what it binds.** -/
theorem Plain.parsePersistedPorts_eq (hd : Plain d) :
    parsePersistedPorts d.text = (boundPort d listenKey, boundPort d quicListenKey) := by
  have htop : parsePersistedPorts (d.top ++ d.tables) =
      (boundPort d listenKey, boundPort d quicListenKey) := by
    obtain ⟨hlisten, hquic⟩ := parsePersistedPorts_shows (d.top ++ d.tables)
    rw [hd.scanned_eq] at hlisten hquic
    exact Prod.ext (hlisten.unique (hd.shows (.inl rfl))) (hquic.unique (hd.shows (.inr rfl)))
  unfold Doc.text
  split
  · next hopen =>
    rw [hopen.2, List.append_nil] at htop
    rw [← htop]
    by_cases hitems : d.top = []
    · rw [hitems]
      rfl
    · rw [← parsePersistedPorts_snoc_newline, dropLast_top d hitems]
  · exact htop

end

/-- A config that says no more than where to listen, and what stands behind it on the line. -/
def listenOnly (trailing : Str) (htrailing : Trailing trailing) : Doc where
  items := [.stmt (.basic listenKey "0.0.0.0:443".toList trailing
    (.bare (by decide) (List.all_eq_true.mp (by decide))) (List.all_eq_true.mp (by decide))
    htrailing)]
  tables := []
  unterminated := false
  header := .inl rfl
  nodup := List.nodup_cons.mpr ⟨List.not_mem_nil, List.nodup_nil⟩

example : parsePersistedPorts (listenOnly [] ⟨[], [], rfl, by simp, .inl rfl⟩).text =
    (some 443, none) := by decide

theorem trim_append_colon {p : UInt16} (s : Str) :
    ∃ s', trim (s ++ ':' :: decimal p.toNat) = s' ++ ':' :: decimal p.toNat := by
  have hdrop : ∃ s', (s ++ ':' :: decimal p.toNat).dropWhile isWhite = s' ++ ':' :: decimal p.toNat := by
    rw [List.dropWhile_append]
    split
    · exact ⟨[], List.dropWhile_cons_of_neg (by decide)⟩
    · exact ⟨_, rfl⟩
  obtain ⟨s', hs'⟩ := hdrop
  refine ⟨s', ?_⟩
  unfold trim trimMatches
  rw [hs', List.rdropWhile_eq_self_iff]
  intro hne
  rw [List.getLast_append_of_ne_nil _ (List.cons_ne_nil _ _),
    List.getLast_cons (decimal_ne_nil _)]
  exact not_isWhite_of_isDigit (isDigit_of_mem_decimal (List.getLast_mem _))

theorem portOf_withPort (h : Str) (port : UInt16) : portOf (withPort h port) = some port := by
  obtain ⟨s, hs⟩ : ∃ s, withPort h port = s ++ ':' :: decimal port.toNat := by
    unfold withPort
    dsimp only
    split
    · exact ⟨_, rfl⟩
    · exact ⟨_, rfl⟩
  obtain ⟨s', hs'⟩ := trim_append_colon (p := port) s
  have hcolon : ':' ∉ decimal port.toNat := fun hmem =>
    absurd (isDigit_of_mem_decimal hmem) (by decide)
  unfold portOf
  simp only [hs, hs', rsplitOnce_append hcolon, Option.bind_eq_bind, Option.bind_some,
    parseUnsigned_decimal port.toNat_lt]
  rw [UInt16.ofNat_toNat]
  rfl

end Leshiy.Provision
