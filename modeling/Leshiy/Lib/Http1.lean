import Leshiy.Lib.Text
import Leshiy.Lib.Utf8Decode
import Leshiy.Lib.Window
import Leshiy.Lib.Words

/-!
# HTTP/1.1 responses

What a server may send to one request: interim heads, the head of the response and a body, which is framed by
its length, by the end of the connection or in chunks. A response is kept as it is spelled, with the blanks
around its values, its reason phrase and the extensions of its chunks; its bytes follow from that.
-/

namespace Leshiy.Lib.Http1

/-! ## Grammar -/

def CRLF : List UInt8 := [13, 10]

/-- What a field value or a reason phrase is made of: blanks, visible ASCII and bytes from 128 on. -/
def isText (b : UInt8) : Bool := b == 9 || (32 ≤ b && b != 127)

def isBlank (b : UInt8) : Bool := b == 32 || b == 9

def isDigit (b : UInt8) : Bool := 48 ≤ b && b ≤ 57

/-- What a field name is made of: letters, digits and the marks that are no delimiters. -/
def isToken (b : UInt8) : Bool :=
  isDigit b || (65 ≤ b && b ≤ 90) || (97 ≤ b && b ≤ 122) ||
    [33, 35, 36, 37, 38, 39, 42, 43, 45, 46, 94, 95, 96, 124, 126].contains b

/-- The number that a row of digits stands for. -/
def number (base : Nat) (l : List UInt8) : Option Nat :=
  if l = [] then none
  else
    l.foldlM (fun n b => (hexVal (Char.ofNat b.toNat)).bind fun d =>
      if d < base then some (base * n + d) else none) 0

structure Field where
  name : List UInt8
  before : List UInt8
  value : List UInt8
  after : List UInt8
  name_ne_nil : name ≠ []
  name_token : ∀ b ∈ name, isToken b
  before_blank : ∀ b ∈ before, isBlank b
  value_text : ∀ b ∈ value, isText b
  value_head : ∀ b ∈ value.head?, ¬isBlank b
  value_last : ∀ b ∈ value.getLast?, ¬isBlank b
  after_blank : ∀ b ∈ after, isBlank b

namespace Field

/-- A field without the end of its line. -/
def line (f : Field) : List UInt8 := f.name ++ 58 :: (f.before ++ (f.value ++ f.after))

/-- A field as it is mostly spelled, with one blank in front of its value. -/
def ofText (name value : List UInt8)
    (h : (!name.isEmpty && name.all isToken && value.all isText && value.head?.all (!isBlank ·) &&
      value.getLast?.all (!isBlank ·)) = true) : Field where
  name := name
  before := [32]
  value := value
  after := []
  name_ne_nil := by
    rintro rfl
    cases h
  name_token := by
    simp only [Bool.and_eq_true, List.all_eq_true] at h
    exact h.1.1.1.2
  before_blank := List.forall_mem_singleton.mpr rfl
  value_text := by
    simp only [Bool.and_eq_true, List.all_eq_true] at h
    exact h.1.1.2
  value_head b hb := by
    simp only [Bool.and_eq_true, Option.all_eq_true] at h
    simpa using h.1.2 b hb
  value_last b hb := by
    simp only [Bool.and_eq_true, Option.all_eq_true] at h
    simpa using h.2 b hb
  after_blank := nofun

/-- Names are compared in lower case. -/
def lowerName (f : Field) : Str := (asciiChars f.name).map Char.toLower

end Field

structure Head where
  status : Nat
  reason : List UInt8
  fields : List Field
  status_digits : 100 ≤ status ∧ status ≤ 999
  reason_text : ∀ b ∈ reason, isText b

namespace Head

def statusLine (h : Head) : List UInt8 :=
  encodeUtf8 ("HTTP/1.1 ".toList ++ (Str.decimal h.status ++ [' '])) ++ h.reason

def lines (h : Head) : List (List UInt8) := h.statusLine :: h.fields.map Field.line

def bytes (h : Head) : List UInt8 := h.lines.flatMap (· ++ CRLF) ++ CRLF

/-- The values of the fields of a name. -/
def values (h : Head) (name : String) : List (List UInt8) :=
  (h.fields.filter fun f => f.lowerName = name.toList).map Field.value

end Head

/-- What may follow the size of a chunk. -/
def IsExtension (ext : List UInt8) : Prop :=
  (∀ b ∈ ext, isText b) ∧ (ext = [] ∨ ∃ blanks rest, (∀ b ∈ blanks, isBlank b) ∧ ext = blanks ++ 59 :: rest)

structure Chunk where
  size : List UInt8
  extension : List UInt8
  data : List UInt8
  size_hex : number 16 size = some data.length
  extension_text : IsExtension extension
  data_ne_nil : data ≠ []

def Chunk.bytes (c : Chunk) : List UInt8 := c.size ++ (c.extension ++ (CRLF ++ (c.data ++ CRLF)))

/-- The chunk that ends a body, and the fields behind it. -/
structure LastChunk where
  size : List UInt8
  extension : List UInt8
  trailer : List Field
  size_hex : number 16 size = some 0
  extension_text : IsExtension extension

def LastChunk.bytes (c : LastChunk) : List UInt8 :=
  c.size ++ (c.extension ++ (CRLF ++ (c.trailer.flatMap (fun f => f.line ++ CRLF) ++ CRLF)))

inductive Body where
  | none
  | length (data : List UInt8)
  | close (data : List UInt8)
  | chunked (chunks : List Chunk) (last : LastChunk)

namespace Body

/-- The body as it is sent. -/
def bytes : Body → List UInt8
  | none => []
  | length data | close data => data
  | chunked chunks last => chunks.flatMap Chunk.bytes ++ last.bytes

/-- The body that is meant. -/
def content : Body → List UInt8
  | none => []
  | length data | close data => data
  | chunked chunks _ => chunks.flatMap Chunk.data

def isChunked : Body → Bool
  | chunked _ _ => true
  | _ => false

end Body

structure Response where
  interim : List Head
  head : Head
  body : Body

namespace Response

def bytes (r : Response) : List UInt8 := r.interim.flatMap Head.bytes ++ (r.head.bytes ++ r.body.bytes)

/-- Responses to `HEAD` and of two statuses have no body. -/
def bodiless (isHead : Bool) (status : Nat) : Bool := isHead || status == 204 || status == 304

/-- The body is framed as the head says. -/
def Framed (isHead : Bool) (r : Response) : Prop :=
  match r.body with
  | .none => bodiless isHead r.head.status
  | .length data => ¬bodiless isHead r.head.status ∧ r.head.values "transfer-encoding" = [] ∧
    ∃ v, r.head.values "content-length" = [v] ∧ number 10 v = some data.length
  | .close _ => ¬bodiless isHead r.head.status ∧ r.head.values "transfer-encoding" = [] ∧
    r.head.values "content-length" = []
  | .chunked _ _ => ¬bodiless isHead r.head.status ∧ r.head.values "content-length" = [] ∧
    ∃ v, r.head.values "transfer-encoding" = [v] ∧ (asciiChars v).map Char.toLower = "chunked".toList

/-- A response to a request, which was `HEAD` or not. -/
structure WellFormed (isHead : Bool) (r : Response) : Prop where
  interim : ∀ h ∈ r.interim, h.status < 200
  final : 200 ≤ r.head.status
  framed : r.Framed isHead

end Response

/-! ## Bytes -/

section

variable {b : UInt8}

theorem ne_of_isText (h : isText b) : b ≠ 13 ∧ b ≠ 10 := by
  constructor <;> rintro rfl <;> cases h

theorem isText_of_isBlank (h : isBlank b) : isText b ∧ b.toNat < 128 := by
  simp only [isBlank, Bool.or_eq_true, beq_iff_eq] at h
  rcases h with rfl | rfl <;> decide

theorem toNat_of_isToken (h : isToken b) :
    33 ≤ b.toNat ∧ b.toNat < 127 ∧ b.toNat ≠ 58 := by
  simp only [isToken, isDigit, Bool.or_eq_true, Bool.and_eq_true, decide_eq_true_eq, List.contains_iff_mem,
    UInt8.le_iff_toNat_le, UInt8.reduceToNat, List.mem_cons, List.not_mem_nil, or_false] at h
  rcases h with ((h | h) | h) | h
  · omega
  · omega
  · omega
  · rcases h with rfl | rfl | rfl | rfl | rfl | rfl | rfl | rfl | rfl | rfl | rfl | rfl | rfl | rfl | rfl
    all_goals decide

theorem isText_of_isToken (h : isToken b) : isText b := by
  have hrange := toNat_of_isToken h
  have hle : (32 : UInt8) ≤ b := UInt8.le_iff_toNat_le.mpr (hrange.1.trans' (by decide))
  have hne : b ≠ 127 := by
    rintro rfl
    exact absurd hrange.2.1 (by decide)
  simp [isText, hle, hne]

end

/-! ## Lines -/

section

variable {l rest : List UInt8} {ls : List (List UInt8)}

/-- Lines with the ends of lines between them. -/
def joinLines : List (List UInt8) → List UInt8
  | [] => []
  | [l] => l
  | l :: l' :: ls => l ++ (CRLF ++ joinLines (l' :: ls))

/-- Lines that are cut at the last byte of their ends have the first one at their end, except the last. -/
def cutLines : List (List UInt8) → List (List UInt8)
  | [] => []
  | [l] => [l]
  | l :: l' :: ls => (l ++ [13]) :: cutLines (l' :: ls)

theorem cutLines_cons (l : List UInt8) (ls : List (List UInt8)) :
    ∃ cr, (cr = [] ∨ cr = [13]) ∧ cutLines (l :: ls) = (l ++ cr) :: cutLines ls := by
  cases ls with
  | nil => exact ⟨[], .inl rfl, by rw [cutLines, cutLines, List.append_nil]⟩
  | cons l' ls => exact ⟨[13], .inr rfl, rfl⟩

/-- A reader that passes over the first byte of an end of line reads the lines. -/
theorem filterMap_cutLines {α : Type} {g : List UInt8 → Option α} : ∀ {ls : List (List UInt8)},
    (∀ l ∈ ls, ∀ cr, cr = [] ∨ cr = [13] → g (l ++ cr) = g l) → (cutLines ls).filterMap g = ls.filterMap g
  | [], _ => rfl
  | l :: ls, h => by
    obtain ⟨cr, hcr, hcut⟩ := cutLines_cons l ls
    have hrest : (cutLines ls).filterMap g = ls.filterMap g :=
      filterMap_cutLines fun l' hl' => h l' (List.mem_cons_of_mem l hl')
    rw [hcut, List.filterMap_cons, List.filterMap_cons, h l List.mem_cons_self cr hcr, hrest]

theorem flatMap_lines : ∀ (l : List UInt8) (ls : List (List UInt8)),
    (l :: ls).flatMap (· ++ CRLF) = joinLines (l :: ls) ++ CRLF
  | l, [] => by simp [joinLines]
  | l, l' :: ls => by
    rw [List.flatMap_cons, flatMap_lines l' ls, joinLines, List.append_assoc, List.append_assoc,
      List.append_assoc]

theorem windowPosition_crlf {y : UInt8} (h : y ≠ 13) :
    windowPosition [13, 10, 13, 10] (13 :: 10 :: y :: rest) =
      (windowPosition [13, 10, 13, 10] (y :: rest)).map (· + 2) := by
  have hpre : ¬[(13 : UInt8), 10, 13, 10].isPrefixOf (13 :: 10 :: y :: rest) := by
    simp [Ne.symm h]
  rw [windowPosition, if_neg hpre, windowPosition_cons_of_ne (by decide), Option.map_map]
  rfl

theorem joinLines_head (l : List UInt8) (ls : List (List UInt8)) : ∃ s, joinLines (l :: ls) = l ++ s := by
  cases ls with
  | nil => exact ⟨[], (List.append_nil l).symm⟩
  | cons l' ls => exact ⟨_, rfl⟩

/-- **The lines of a head end where an empty line follows.** -/
theorem windowPosition_joinLines (rest : List UInt8) : ∀ (l : List UInt8) (ls : List (List UInt8)),
    (∀ l' ∈ l :: ls, l' ≠ [] ∧ (13 : UInt8) ∉ l') →
    windowPosition [13, 10, 13, 10] (joinLines (l :: ls) ++ ([13, 10, 13, 10] ++ rest)) =
      some (joinLines (l :: ls)).length
  | l, [], h => by
    have hend : windowPosition [13, 10, 13, 10] ([13, 10, 13, 10] ++ rest) = some 0 :=
      windowPosition_prefix rest
    rw [joinLines, windowPosition_append (h l List.mem_cons_self).2, hend, Option.map_some, Nat.zero_add]
  | l, l' :: ls, h => by
    have hrest := windowPosition_joinLines rest l' ls fun x hx => h x (List.mem_cons_of_mem l hx)
    obtain ⟨hne, hcr⟩ := h l' (List.mem_cons_of_mem l List.mem_cons_self)
    obtain ⟨y, ys, hy⟩ := List.exists_cons_of_ne_nil hne
    obtain ⟨s, hs⟩ := joinLines_head l' ls
    have hfirst : y ≠ 13 := fun h13 => hcr (by rw [hy, h13]; exact List.mem_cons_self)
    have hnext : joinLines (l' :: ls) ++ ([13, 10, 13, 10] ++ rest) =
        y :: (ys ++ s ++ ([13, 10, 13, 10] ++ rest)) := by
      rw [hs, hy]
      rfl
    have hshape : joinLines (l :: l' :: ls) ++ ([13, 10, 13, 10] ++ rest) =
        l ++ 13 :: 10 :: (joinLines (l' :: ls) ++ ([13, 10, 13, 10] ++ rest)) := by
      rw [joinLines]
      simp [CRLF]
    rw [hshape, windowPosition_append (h l List.mem_cons_self).2, hnext, windowPosition_crlf hfirst, ← hnext,
      hrest, joinLines]
    simp only [Option.map_some, List.length_append, CRLF, List.length_cons, List.length_nil, Option.some.injEq]
    omega

theorem split_joinLines : ∀ (l : List UInt8) (ls : List (List UInt8)), (∀ l' ∈ l :: ls, (10 : UInt8) ∉ l') →
    Str.split 10 (joinLines (l :: ls)) = cutLines (l :: ls)
  | l, [], h => by rw [joinLines, cutLines, Str.split_of_not_mem (h l List.mem_cons_self)]
  | l, l' :: ls, h => by
    have hrest := split_joinLines l' ls fun x hx => h x (List.mem_cons_of_mem l hx)
    have hcr : (10 : UInt8) ∉ l ++ [13] := by
      have hl := h l List.mem_cons_self
      simp [hl]
    have hshape : joinLines (l :: l' :: ls) = (l ++ [13]) ++ 10 :: joinLines (l' :: ls) := by
      rw [joinLines]
      simp [CRLF]
    rw [hshape, Str.split_append hcr, hrest, cutLines]

end

/-! ## Heads -/

theorem Field.line_text (f : Field) : f.line ≠ [] ∧ ∀ b ∈ f.line, isText b := by
  refine ⟨List.append_ne_nil_of_left_ne_nil f.name_ne_nil _, fun b hb => ?_⟩
  rw [Field.line, List.mem_append, List.mem_cons, List.mem_append, List.mem_append] at hb
  rcases hb with hb | rfl | hb | hb | hb
  · exact isText_of_isToken (f.name_token b hb)
  · rfl
  · exact (isText_of_isBlank (f.before_blank b hb)).1
  · exact f.value_text b hb
  · exact (isText_of_isBlank (f.after_blank b hb)).1

namespace Head

/-- What stands in front of the reason phrase. -/
theorem start_ascii (h : Head) :
    ∀ c ∈ "HTTP/1.1 ".toList ++ (Str.decimal h.status ++ [' ']), 32 ≤ c.toNat ∧ c.toNat < 127 := by
  intro c hc
  rcases List.mem_append.mp hc with hc | hc
  · have hall : ("HTTP/1.1 ".toList.all fun c => 32 ≤ c.toNat && c.toNat < 127) = true := rfl
    simpa using List.all_eq_true.mp hall c hc
  · rcases List.mem_append.mp hc with hc | hc
    · have hdigit := Str.isDigit_of_mem_decimal hc
      simp only [Char.isDigit, Bool.and_eq_true, decide_eq_true_eq] at hdigit
      have hlow : 48 ≤ c.toNat := hdigit.1
      have hhigh : c.toNat ≤ 57 := hdigit.2
      omega
    · rw [List.mem_singleton.mp hc]
      decide

theorem lines_text (h : Head) : ∀ l ∈ h.lines, l ≠ [] ∧ ∀ b ∈ l, isText b := by
  intro l hl
  rcases List.mem_cons.mp hl with rfl | hl
  · obtain ⟨hchars, hbytes⟩ := asciiChars_encodeUtf8 fun c hc => (h.start_ascii c hc).2.trans (by decide)
    refine ⟨fun hnil => ?_, fun b hb => ?_⟩
    · have hstart := (List.append_eq_nil_iff.mp hnil).1
      rw [hstart] at hchars
      cases hchars
    · rcases List.mem_append.mp hb with hb | hb
      · obtain ⟨c, hc, hbc⟩ := hbytes b hb
        have hrange := h.start_ascii c hc
        have hle : (32 : UInt8) ≤ b := UInt8.le_iff_toNat_le.mpr (hbc ▸ hrange.1)
        have hne : b ≠ 127 := by
          rintro rfl
          exact absurd (hbc ▸ hrange.2) (by decide)
        simp [isText, hle, hne]
      · exact h.reason_text b hb
  · obtain ⟨f, -, rfl⟩ := List.mem_map.mp hl
    exact f.line_text

/-- **A head ends at the first empty line.** -/
theorem windowPosition_bytes (h : Head) (rest : List UInt8) :
    h.bytes ++ rest = joinLines h.lines ++ ([13, 10, 13, 10] ++ rest) ∧
      windowPosition [13, 10, 13, 10] (h.bytes ++ rest) = some (joinLines h.lines).length := by
  have hbytes : h.bytes ++ rest = joinLines h.lines ++ ([13, 10, 13, 10] ++ rest) := by
    rw [Head.bytes, Head.lines, flatMap_lines]
    simp [CRLF]
  refine ⟨hbytes, ?_⟩
  rw [hbytes]
  refine windowPosition_joinLines rest _ _ fun l hl => ?_
  obtain ⟨hne, htext⟩ := h.lines_text l hl
  exact ⟨hne, fun h13 => (ne_of_isText (htext 13 h13)).1 rfl⟩

theorem split_lines (h : Head) : Str.split 10 (joinLines h.lines) = cutLines h.lines :=
  split_joinLines _ _ fun l hl h10 => (ne_of_isText ((h.lines_text l hl).2 10 h10)).2 rfl

end Head

/-! ## Bodies -/

namespace Body

variable {b : Body}

theorem bytes_eq_content (h : b.isChunked = false) : b.bytes = b.content := by
  cases b with
  | chunked => cases h
  | _ => rfl

theorem length_data_le (chunks : List Chunk) :
    (chunks.flatMap Chunk.data).length ≤ (chunks.flatMap Chunk.bytes).length := by
  induction chunks with
  | nil => exact le_rfl
  | cons c chunks ih =>
    simp only [List.flatMap_cons, List.length_append, Chunk.bytes]
    omega

/-- **What is sent in chunks is more than what is meant.** -/
theorem bytes_ne_content (h : b.isChunked = true) : b.bytes ≠ b.content := by
  cases b with
  | chunked chunks last =>
    intro heq
    have hlen := congrArg List.length heq
    have hdata := length_data_le chunks
    simp only [bytes, content, LastChunk.bytes, CRLF, List.length_append, List.length_cons] at hlen
    omega
  | _ => cases h

end Body

end Leshiy.Lib.Http1
