import Leshiy.Core.Frame
import Leshiy.Lib.Http1

/-!
# The reverse masquerade

`fetch_origin` and `parse_http_response` (`leshiy-quic/src/masquerade.rs`), and `serve_masquerade_reverse`
(`leshiy-quic/src/server.rs`): what an unauthorized client gets from the operator's site. The reader takes all
bytes behind the first empty line as the body.

The network is a function from an address and a request to the bytes that come back until the origin closes,
and the conversions of the `http` crate are parameters.
-/

namespace Leshiy.Quic

open Leshiy.Lib Str Http1

/-- Response headers safe to forward verbatim from the origin. -/
def FORWARDED_HEADERS : List Str :=
  ["content-type".toList, "cache-control".toList, "last-modified".toList, "etag".toList,
    "content-language".toList, "vary".toList, "expires".toList]

def MAX_ORIGIN_BODY : Nat := 2 * 1024 * 1024

structure OriginResponse where
  status : Nat
  headers : List (Str × Str)
  body : Bytes
  deriving DecidableEq, Repr

/-! ## Reading a response -/

/-- A line behind the first one. -/
def headerOf (rawLine : Bytes) : Option (Str × Str) :=
  match fromUtf8 rawLine with
  | none => none
  | some l =>
    match splitOnce ':' (l.rdropWhile fun c => c == '\r' || c == '\n') with
    | none => none
    | some (name, value) =>
      let name := (trim name).map Char.toLower
      if FORWARDED_HEADERS.contains name then some (name, trim value) else none

/-- `parse_http_response` once the head is known. -/
def parseHead (head body : Bytes) : Option OriginResponse :=
  match split 10 head with
  | [] => none
  | firstLine :: lines =>
    match fromUtf8 firstLine with
    | none => none
    | some line =>
      match (splitWhitespace line)[1]? with
      | none => none
      | some token =>
        match parseUnsigned (2 ^ 16) token with
        | none => none
        | some status => some ⟨status, lines.filterMap headerOf, body⟩

def parseHttpResponse (raw : Bytes) : Option OriginResponse :=
  match windowPosition [13, 10, 13, 10] raw with
  | none => none
  | some sep => parseHead (raw.take sep) (raw.drop (sep + 4))

/-- `parse_http_response` with its slice, where `none` is a panic. -/
def parseHttpResponseChecked (raw : Bytes) : Option (Option OriginResponse) :=
  match windowPosition [13, 10, 13, 10] raw with
  | none => some none
  | some sep =>
    if sep ≤ raw.length then
      some (parseHead (raw.take sep) (if sep + 4 ≤ raw.length then raw.drop (sep + 4) else []))
    else none

/-- **No slice is out of range.** -/
theorem parseHttpResponseChecked_eq (raw : Bytes) :
    parseHttpResponseChecked raw = some (parseHttpResponse raw) := by
  unfold parseHttpResponseChecked parseHttpResponse
  cases h : windowPosition [13, 10, 13, 10] raw with
  | none => rfl
  | some sep =>
    have hle : sep + 4 ≤ raw.length := windowPosition_le h
    simp only [if_pos (show sep ≤ raw.length by omega), if_pos hle]

/-! ## Fetching and serving -/

/-- What `fetch_origin` writes. -/
def originRequest (origin method path : Str) : Bytes :=
  let host := match rsplitOnce ':' origin with
    | some (host, _) => host
    | none => origin
  let path := if path = [] then ['/'] else path
  encodeUtf8 (method ++ (' ' :: path ++ (" HTTP/1.1\r\nHost: ".toList ++ (host ++
    "\r\nConnection: close\r\nAccept: */*\r\n\r\n".toList))))

/-- `fetch_origin`. `net` gives `none` where a call fails or the time is over. -/
def fetchOrigin (net : Str → Bytes → Option Bytes) (origin method path : Str) : Option OriginResponse :=
  match net origin (originRequest origin method path) with
  | none => none
  | some sent => parseHttpResponse (sent.take MAX_ORIGIN_BODY)

inductive Method where
  | get
  | head
  | other (name : Str)
  deriving DecidableEq, Repr

def Method.asStr : Method → Str
  | .get => "GET".toList
  | .head => "HEAD".toList
  | .other name => name

/-- `StatusCode::from_u16`, `HeaderName::from_bytes` and `HeaderValue::from_str`: what they accept. -/
structure HttpTypes where
  status : Nat → Bool
  name : Str → Bool
  value : Str → Bool

/-- Statuses of three digits, names of small letters and visible ASCII as a value are accepted. -/
structure HttpTypes.Documented (http : HttpTypes) : Prop where
  status : ∀ n, 100 ≤ n → n ≤ 999 → http.status n
  name : ∀ s : Str, s ≠ [] → (s.all fun c => c.isLower || c == '-') → http.name s
  value : ∀ s : Str, (s.all fun c => 32 ≤ c.toNat && c.toNat < 127) → http.value s

/-- What the client gets. -/
structure Served where
  status : Nat
  headers : List (Str × Bytes)
  data : Option Bytes
  deriving DecidableEq, Repr

def CONTENT_TYPE : Str := "content-type".toList

def PLAIN_TEXT : Str := "text/plain; charset=utf-8".toList

def BAD_GATEWAY : Bytes := encodeUtf8 "Bad Gateway".toList

def NOT_FOUND : Bytes := encodeUtf8 "Not Found".toList

/-- A page of the server's own. -/
def plainPage (status : Nat) (body : Bytes) : OriginResponse := ⟨status, [(CONTENT_TYPE, PLAIN_TEXT)], body⟩

/-- Headers that are not accepted are left out. -/
def HttpTypes.header (http : HttpTypes) (h : Str × Str) : Option (Str × Bytes) :=
  if http.name h.1 && http.value h.2 then some (h.1, encodeUtf8 h.2) else none

def serveMasqueradeReverse (http : HttpTypes) (net : Str → Bytes → Option Bytes) (origin : Str)
    (method : Method) (path : Str) : Served :=
  let isHead := method == .head
  let proxied := method == .get || isHead
  let r :=
    if proxied then
      match fetchOrigin net origin method.asStr path with
      | some r => if http.status r.status then r else { r with status := 502 }
      | none => plainPage 502 BAD_GATEWAY
    else plainPage 404 NOT_FOUND
  ⟨r.status, r.headers.filterMap http.header, if isHead then none else some r.body⟩

/-! ## The head of a response -/

/-- What is read of a field. -/
def readField (f : Field) : Option (Str × Str) :=
  if FORWARDED_HEADERS.contains f.lowerName then (fromUtf8 f.value).map fun v => (f.lowerName, trim v)
  else none

theorem isWhite_of_isBlank {b : UInt8} (h : isBlank b) : isWhite (Char.ofNat b.toNat) := by
  simp only [isBlank, Bool.or_eq_true, beq_iff_eq] at h
  rcases h with rfl | rfl <;> rfl

/-- The blanks around a value do not count. -/
theorem trim_blanks {before after : Bytes} {v : Str} (hbefore : ∀ b ∈ before, isBlank b)
    (hafter : ∀ b ∈ after, isBlank b) : trim (asciiChars before ++ (v ++ asciiChars after)) = trim v := by
  have hwhite : ∀ {l : Bytes}, (∀ b ∈ l, isBlank b) → ∀ c ∈ asciiChars l, isWhite c := by
    intro l hl c hc
    obtain ⟨b, hb, rfl⟩ := List.mem_map.mp hc
    exact isWhite_of_isBlank (hl b hb)
  rw [← List.append_assoc]
  show trimMatches isWhite _ = trimMatches isWhite _
  rw [trimMatches_append_right (hwhite hafter)]
  unfold trimMatches
  rw [List.dropWhile_append_of_pos (hwhite hbefore)]

/-- No character of a line ends it. -/
theorem char_of_isText {b : Bytes} {s : Str} (hb : ∀ x ∈ b, isText x) (hs : fromUtf8 b = some s) :
    ∀ c ∈ s, ¬(c == '\r' || c == '\n') := by
  intro c hc hend
  have henc := fromUtf8_eq_some.mp hs
  have hmem : ∀ x ∈ String.utf8EncodeChar c, isText x := fun x hx =>
    hb x (henc ▸ List.mem_flatMap.mpr ⟨c, hc, hx⟩)
  simp only [Bool.or_eq_true, beq_iff_eq] at hend
  rcases hend with rfl | rfl
  · exact absurd (hmem 13 List.mem_cons_self) (by decide)
  · exact absurd (hmem 10 List.mem_cons_self) (by decide)

theorem rdropWhile_end {s : Str} {cr : Bytes} (hs : ∀ c ∈ s, ¬(c == '\r' || c == '\n'))
    (hcr : cr = [] ∨ cr = [13]) :
    (s ++ asciiChars cr).rdropWhile (fun c => c == '\r' || c == '\n') = s := by
  have hself : s.rdropWhile (fun c => c == '\r' || c == '\n') = s := by
    rw [List.rdropWhile_eq_self_iff]
    exact fun hne => hs _ (List.getLast_mem hne)
  rcases hcr with rfl | rfl
  · rw [show asciiChars [] = [] from rfl, List.append_nil, hself]
  · rw [show asciiChars [13] = ['\r'] from rfl, List.rdropWhile_concat_pos _ _ _ rfl, hself]

/-- **A field is read** as its name in small letters and its value without blanks, if it is text. -/
theorem headerOf_line (f : Field) {cr : Bytes} (hcr : cr = [] ∨ cr = [13]) :
    headerOf (f.line ++ cr) = readField f := by
  have hname : ∀ b ∈ f.name, b.toNat < 128 := fun b hb =>
    (toNat_of_isToken (f.name_token b hb)).2.1.trans (by decide)
  have hstart : ∀ b ∈ f.name ++ (58 :: f.before), b.toNat < 128 := by
    intro b hb
    rcases List.mem_append.mp hb with hb | hb
    · exact hname b hb
    · rcases List.mem_cons.mp hb with rfl | hb
      · decide
      · exact (isText_of_isBlank (f.before_blank b hb)).2
  have hafter : ∀ b ∈ f.after, b.toNat < 128 := fun b hb => (isText_of_isBlank (f.after_blank b hb)).2
  have hend : ∀ b ∈ cr, b.toNat < 128 := by
    rcases hcr with rfl | rfl
    · exact List.forall_mem_nil _
    · exact List.forall_mem_singleton.mpr (by decide)
  have hline : fromUtf8 f.line = (fromUtf8 f.value).map fun v =>
      asciiChars f.name ++ ':' :: (asciiChars f.before ++ (v ++ asciiChars f.after)) := by
    have hshape : f.line = (f.name ++ (58 :: f.before)) ++ (f.value ++ f.after) := by simp [Field.line]
    rw [hshape, fromUtf8_ascii_append hstart, fromUtf8_append_ascii hafter, Option.map_map]
    refine congrArg (fun g => (fromUtf8 f.value).map g) (funext fun v => ?_)
    simp [asciiChars]
  rw [headerOf, fromUtf8_append_ascii hend]
  cases hv : fromUtf8 f.value with
  | none =>
    rw [hline, hv, readField, hv]
    simp
  | some v =>
    rw [hv, Option.map_some] at hline
    have hchars := char_of_isText f.line_text.2 hline
    have hcolon : ':' ∉ asciiChars f.name := by
      intro hmem
      obtain ⟨b, hb, hbc⟩ := List.mem_map.mp hmem
      have hnat := toNat_ofNat_ascii (hname b hb)
      rw [hbc] at hnat
      exact (toNat_of_isToken (f.name_token b hb)).2.2 hnat.symm
    have htrim : trim (asciiChars f.name) = asciiChars f.name := by
      refine trim_of_not_white fun c hc => ?_
      obtain ⟨b, hb, rfl⟩ := List.mem_map.mp hc
      have hrange := toNat_of_isToken (f.name_token b hb)
      unfold isWhite
      rw [toNat_ofNat_ascii (hname b hb)]
      simp only [decide_eq_true_eq]
      omega
    rw [hline]
    simp only [Option.map_some, rdropWhile_end hchars hcr, splitOnce_append hcolon, htrim,
      trim_blanks f.before_blank f.after_blank]
    rw [readField, hv]
    rfl

theorem filterMap_headerOf (fields : List Field) :
    (cutLines (fields.map Field.line)).filterMap headerOf = fields.filterMap readField := by
  have hread : ∀ f : Field, headerOf f.line = readField f := fun f => by
    rw [← headerOf_line f (.inl rfl), List.append_nil]
  rw [filterMap_cutLines, List.filterMap_map]
  · exact congrArg (fields.filterMap ·) (funext hread)
  · intro l hl cr hcr
    obtain ⟨f, -, rfl⟩ := List.mem_map.mp hl
    rw [headerOf_line f hcr, hread]

/-- The status is the second word of the first line, if that is text. -/
theorem parseHead_lines (h : Head) (body : Bytes) :
    parseHead (joinLines h.lines) body =
      (fromUtf8 h.reason).map fun _ => ⟨h.status, h.fields.filterMap readField, body⟩ := by
  obtain ⟨cr, hcr, hcut⟩ := cutLines_cons h.statusLine (h.fields.map Field.line)
  have hcut' : cutLines h.lines = (h.statusLine ++ cr) :: cutLines (h.fields.map Field.line) := hcut
  have hend : ∀ b ∈ cr, b.toNat < 128 := by
    rcases hcr with rfl | rfl
    · exact List.forall_mem_nil _
    · exact List.forall_mem_singleton.mpr (by decide)
  obtain ⟨hchars, hbytes⟩ := asciiChars_encodeUtf8 fun c hc => (h.start_ascii c hc).2.trans (by decide)
  have hstart : ∀ b ∈ encodeUtf8 ("HTTP/1.1 ".toList ++ (decimal h.status ++ [' '])), b.toNat < 128 := by
    intro b hb
    obtain ⟨c, hc, hbc⟩ := hbytes b hb
    have hrange := h.start_ascii c hc
    omega
  have hline : fromUtf8 (h.statusLine ++ cr) = (fromUtf8 h.reason).map fun v =>
      "HTTP/1.1".toList ++ ' ' :: (decimal h.status ++ ' ' :: (v ++ asciiChars cr)) := by
    rw [fromUtf8_append_ascii hend, Head.statusLine, fromUtf8_ascii_append hstart, hchars, Option.map_map]
    refine congrArg (fun g => (fromUtf8 h.reason).map g) (funext fun v => ?_)
    simp
  rw [parseHead, h.split_lines, hcut']
  simp only [hline]
  cases fromUtf8 h.reason with
  | none => rfl
  | some v =>
    have hversion : ∀ c ∈ "HTTP/1.1".toList, ¬isWhite c := not_isWhite_of_all rfl
    have hdigits : ∀ c ∈ decimal h.status, ¬isWhite c := fun c hc =>
      not_isWhite_of_isDigit (isDigit_of_mem_decimal hc)
    have hwords : splitWhitespace ("HTTP/1.1".toList ++ ' ' :: (decimal h.status ++ ' ' ::
        (v ++ asciiChars cr))) =
          "HTTP/1.1".toList :: decimal h.status :: splitWhitespace (v ++ asciiChars cr) := by
      rw [splitWhitespace_word (by decide) hversion rfl, splitWhitespace_word (decimal_ne_nil _) hdigits rfl]
    have hstatus : parseUnsigned (2 ^ 16) (decimal h.status) = some h.status :=
      parseUnsigned_decimal (h.status_digits.2.trans_lt (by decide))
    simp only [Option.map_some, hwords, List.getElem?_cons_succ, List.getElem?_cons_zero, hstatus,
      filterMap_headerOf]

/-- **What is read of a head**, and all that follows it. -/
theorem parseHttpResponse_head (h : Head) (rest : Bytes) :
    parseHttpResponse (h.bytes ++ rest) =
      (fromUtf8 h.reason).map fun _ => ⟨h.status, h.fields.filterMap readField, rest⟩ := by
  obtain ⟨hbytes, hsep⟩ := h.windowPosition_bytes rest
  have hrest : (h.bytes ++ rest).drop ((joinLines h.lines).length + 4) = rest := by
    rw [hbytes, ← List.append_assoc]
    exact List.drop_left' (by simp)
  rw [parseHttpResponse, hsep]
  simp only [hrest]
  rw [hbytes, List.take_left' rfl, parseHead_lines]

/-! ## What the client gets -/

/-- The allowlisted fields of a head. -/
def forwardedFields (h : Head) : List Field := h.fields.filter fun f => FORWARDED_HEADERS.contains f.lowerName

/-- They with their values, as they should arrive. -/
def forwarded (h : Head) : List (Str × Bytes) := (forwardedFields h).map fun f => (f.lowerName, f.value)

/-- Status, body and allowlisted headers are those of the response. -/
structure Faithful (r : Response) (s : Served) : Prop where
  status : s.status = r.head.status
  body : s.data.getD [] = r.body.content
  headers : s.headers = forwarded r.head

/-- A value that is text, that has no blanks of other kinds around it and that the `http` crate accepts. -/
def Plain (http : HttpTypes) (f : Field) : Prop := ∃ v, fromUtf8 f.value = some v ∧ trim v = v ∧ http.value v

/-- A single head whose reason phrase is text and whose allowlisted values are plain, and a body that is not
in chunks. -/
structure Relayed (http : HttpTypes) (r : Response) : Prop where
  interim : r.interim = []
  reason : (fromUtf8 r.head.reason).isSome
  values : ∀ f ∈ forwardedFields r.head, Plain http f
  body : r.body.isChunked = false

/-- A response whose first line is no text, and which is the server's own page for that. -/
structure IsOwnPage (isHead : Bool) (r : Response) : Prop where
  reason : fromUtf8 (r.interim.headD r.head).reason = none
  status : r.head.status = 502
  body : isHead ∨ r.body.content = BAD_GATEWAY
  headers : forwarded r.head = [(CONTENT_TYPE, encodeUtf8 PLAIN_TEXT)]

section

variable {http : HttpTypes} {r : Response} {h : Head}

theorem name_of_contains (hhttp : http.Documented) {name : Str} (h : FORWARDED_HEADERS.contains name) :
    http.name name := by
  have hall : FORWARDED_HEADERS.all (fun s => !s.isEmpty && s.all fun c => c.isLower || c == '-') = true := by
    decide
  have hname := List.all_eq_true.mp hall name (List.contains_iff_mem.mp h)
  simp only [Bool.and_eq_true, Bool.not_eq_true', List.isEmpty_eq_false_iff] at hname
  exact hhttp.name name hname.1 hname.2

/-- One allowlisted field arrives exactly if its value is plain. -/
theorem header_iff (hhttp : http.Documented) {f : Field} (hf : FORWARDED_HEADERS.contains f.lowerName) :
    (fromUtf8 f.value).bind (fun v => http.header (f.lowerName, trim v)) = some (f.lowerName, f.value) ↔
      Plain http f := by
  have hname := name_of_contains hhttp hf
  constructor
  · intro h
    obtain ⟨v, hv, hheader⟩ := Option.bind_eq_some_iff.mp h
    rw [HttpTypes.header] at hheader
    split at hheader
    · next hok =>
      have hvalue : encodeUtf8 (trim v) = f.value := congrArg Prod.snd (Option.some.inj hheader)
      have htrim : trim v = v := by
        have htext := fromUtf8_eq_some.mpr hvalue.symm
        rw [hv] at htext
        exact (Option.some.inj htext).symm
      refine ⟨v, hv, htrim, ?_⟩
      rw [Bool.and_eq_true] at hok
      exact htrim ▸ hok.2
    · cases hheader
  · rintro ⟨v, hv, htrim, hvalue⟩
    rw [hv, Option.bind_some, htrim, HttpTypes.header, hname, hvalue, ← fromUtf8_eq_some.mp hv]
    rfl

/-- The headers arrive exactly if every value is plain. -/
theorem headers_iff (hhttp : http.Documented) :
    (h.fields.filterMap readField).filterMap http.header = forwarded h ↔
      ∀ f ∈ forwardedFields h, Plain http f := by
  have hread : (h.fields.filterMap readField).filterMap http.header = (forwardedFields h).filterMap fun f =>
      (fromUtf8 f.value).bind fun v => http.header (f.lowerName, trim v) := by
    rw [forwardedFields, List.filterMap_filter, List.filterMap_filterMap]
    refine congrArg (h.fields.filterMap ·) (funext fun f => ?_)
    rw [readField]
    split
    · cases fromUtf8 f.value <;> rfl
    · rfl
  rw [hread, forwarded, List.filterMap_eq_map_iff_forall_eq_some]
  exact forall₂_congr fun f hf => header_iff hhttp (List.mem_filter.mp hf).2

/-- **A response whose first line is text** is served with its first status and all that follows the head. -/
theorem serve_of_text (hhttp : http.Documented) (net : Str → Bytes → Option Bytes) (origin path : Str)
    (isHead : Bool) {rest : Bytes} (hreason : (fromUtf8 h.reason).isSome)
    (hsize : (h.bytes ++ rest).length ≤ MAX_ORIGIN_BODY)
    (hnet : net origin (originRequest origin (if isHead then Method.head else .get).asStr path) =
      some (h.bytes ++ rest)) :
    serveMasqueradeReverse http net origin (if isHead then .head else .get) path =
      ⟨h.status, (h.fields.filterMap readField).filterMap http.header, if isHead then none else some rest⟩ := by
  obtain ⟨v, hv⟩ := Option.isSome_iff_exists.mp hreason
  have hfetch : fetchOrigin net origin (if isHead then Method.head else .get).asStr path =
      some ⟨h.status, h.fields.filterMap readField, rest⟩ := by
    rw [fetchOrigin, hnet]
    simp only [List.take_of_length_le hsize, parseHttpResponse_head, hv, Option.map_some]
  have hstatus := hhttp.status h.status h.status_digits.1 h.status_digits.2
  rw [serveMasqueradeReverse, hfetch]
  cases isHead <;> simp [hstatus]

/-- **A response whose first line is no text** is replaced by the server's own page. -/
theorem serve_of_not_text (hhttp : http.Documented) {net : Str → Bytes → Option Bytes} {origin path : Str}
    {isHead : Bool} {rest : Bytes} (hreason : fromUtf8 h.reason = none)
    (hsize : (h.bytes ++ rest).length ≤ MAX_ORIGIN_BODY)
    (hnet : net origin (originRequest origin (if isHead then Method.head else .get).asStr path) =
      some (h.bytes ++ rest)) :
    serveMasqueradeReverse http net origin (if isHead then .head else .get) path =
      ⟨502, [(CONTENT_TYPE, encodeUtf8 PLAIN_TEXT)], if isHead then none else some BAD_GATEWAY⟩ := by
  have hfetch : fetchOrigin net origin (if isHead then Method.head else .get).asStr path = none := by
    rw [fetchOrigin, hnet]
    simp only [List.take_of_length_le hsize, parseHttpResponse_head, hreason, Option.map_none]
  have hname : http.name CONTENT_TYPE := hhttp.name _ (by decide) (by decide)
  have hvalue : http.value PLAIN_TEXT := hhttp.value _ (by decide)
  have hheader : http.header (CONTENT_TYPE, PLAIN_TEXT) = some (CONTENT_TYPE, encodeUtf8 PLAIN_TEXT) :=
    if_pos (by rw [hname, hvalue]; rfl)
  have hpage : [(CONTENT_TYPE, PLAIN_TEXT)].filterMap http.header = [(CONTENT_TYPE, encodeUtf8 PLAIN_TEXT)] :=
    List.filterMap_cons_some hheader
  rw [serveMasqueradeReverse, hfetch]
  cases isHead
  · exact congrArg (Served.mk 502 · (some BAD_GATEWAY)) hpage
  · exact congrArg (Served.mk 502 · none) hpage

/-- The bytes of a response start with a head. -/
theorem bytes_eq_head (r : Response) : ∃ rest, r.bytes = (r.interim.headD r.head).bytes ++ rest ∧
    (r.interim = [] → rest = r.body.bytes) := by
  rw [Response.bytes]
  cases hinterim : r.interim with
  | nil => exact ⟨r.body.bytes, rfl, fun _ => rfl⟩
  | cons h hs =>
    refine ⟨hs.flatMap Head.bytes ++ (r.head.bytes ++ r.body.bytes), ?_, nofun⟩
    rw [List.flatMap_cons, List.append_assoc]
    rfl

/-- Where there is no body to be sent, none is meant. -/
theorem content_eq_nil (hr : r.WellFormed true) : r.body = .none := by
  have hframed := hr.framed
  rw [Response.Framed] at hframed
  split at hframed
  · next heq => exact heq
  · exact absurd rfl hframed.1
  · exact absurd rfl hframed.1
  · exact absurd rfl hframed.1

end

/-- **The reverse masquerade.** No byte string makes the reader of a response panic. What the client gets is the
origin's response exactly if that is relayed (one head, text in the reason phrase, plain values and a body that
is not in chunks) or is the page that the server has of its own. -/
theorem reverse_masquerade (http : HttpTypes) (hhttp : http.Documented) :
    (∀ raw, parseHttpResponseChecked raw = some (parseHttpResponse raw)) ∧
    ∀ (net : Str → Bytes → Option Bytes) (origin path : Str) (isHead : Bool) (r : Response),
      r.WellFormed isHead → r.bytes.length ≤ MAX_ORIGIN_BODY →
      net origin (originRequest origin (if isHead then Method.head else .get).asStr path) = some r.bytes →
      (Faithful r (serveMasqueradeReverse http net origin (if isHead then .head else .get) path) ↔
        Relayed http r ∨ IsOwnPage isHead r) := by
  refine ⟨parseHttpResponseChecked_eq, fun net origin path isHead r hr hsize hnet => ?_⟩
  obtain ⟨rest, hbytes, hbody⟩ := bytes_eq_head r
  rw [hbytes] at hsize hnet
  cases hreason : fromUtf8 (r.interim.headD r.head).reason with
  | none =>
    rw [serve_of_not_text hhttp hreason hsize hnet]
    constructor
    · intro h
      refine .inr ⟨hreason, h.status.symm, ?_, h.headers.symm⟩
      cases isHead with
      | true => exact .inl rfl
      | false => exact .inr h.body.symm
    · rintro (h | h)
      · have hsome := h.reason
        rw [h.interim] at hreason
        rw [show fromUtf8 r.head.reason = none from hreason] at hsome
        cases hsome
      · refine ⟨h.status.symm, ?_, h.headers.symm⟩
        cases isHead with
        | true => rw [content_eq_nil hr]; rfl
        | false => exact (h.body.resolve_left nofun).symm
  | some v =>
    rw [serve_of_text hhttp net origin path isHead (Option.isSome_iff_exists.mpr ⟨v, hreason⟩) hsize hnet]
    have hnot : ¬IsOwnPage isHead r := fun h => by
      rw [h.reason] at hreason
      cases hreason
    rw [or_iff_left hnot]
    cases hinterim : r.interim with
    | cons h hs =>
      -- an interim status is not the final one
      refine iff_of_false (fun hfaithful => ?_) fun hrelayed => ?_
      · have hstatus := hfaithful.status
        have hlow : h.status < 200 := hr.interim h (hinterim ▸ List.mem_cons_self)
        have hhigh := hr.final
        have heq : h.status = r.head.status := hstatus
        omega
      · rw [hrelayed.interim] at hinterim
        cases hinterim
    | nil =>
      rw [hinterim] at hreason
      rw [hbody hinterim]
      have hreason' : (fromUtf8 r.head.reason).isSome := Option.isSome_iff_exists.mpr ⟨v, hreason⟩
      constructor
      · rintro ⟨-, hdata, hheaders⟩
        refine ⟨hinterim, hreason', (headers_iff hhttp).mp hheaders, ?_⟩
        cases isHead with
        | true => rw [content_eq_nil hr]; rfl
        | false => exact Bool.eq_false_iff.mpr fun hchunked => Body.bytes_ne_content hchunked hdata
      · intro h
        refine ⟨rfl, ?_, (headers_iff hhttp).mpr h.values⟩
        cases isHead with
        | true => rw [content_eq_nil hr]; rfl
        | false => exact Body.bytes_eq_content h.body

/-! ## A chunked page -/

/-- Conversions that take what is documented, and no more. -/
def plainTypes : HttpTypes where
  status n := 100 ≤ n && n ≤ 999
  name s := !s.isEmpty && s.all fun c => c.isLower || c == '-'
  value s := s.all fun c => 32 ≤ c.toNat && c.toNat < 127

theorem plainTypes_documented : plainTypes.Documented where
  status n hlow hhigh := by simp [plainTypes, hlow, hhigh]
  name s hne hall := by simpa [plainTypes, hne] using hall
  value _ hall := hall

/-- `HTTP/1.1 200 OK` and a body in one chunk. -/
def chunkedPage : Response where
  interim := []
  head :=
    { status := 200
      reason := [79, 75]
      fields := [.ofText (encodeUtf8 "Transfer-Encoding".toList) (encodeUtf8 "chunked".toList) (by decide),
        .ofText (encodeUtf8 "Content-Type".toList) (encodeUtf8 "text/html".toList) (by decide)]
      status_digits := by decide
      reason_text := List.all_eq_true.mp rfl }
  body := .chunked [⟨[53], [], encodeUtf8 "hello".toList, by decide, ⟨nofun, .inl rfl⟩, by decide⟩]
    ⟨[48], [], [], by decide, ⟨nofun, .inl rfl⟩⟩

theorem chunkedPage_wellFormed : chunkedPage.WellFormed false where
  interim := nofun
  final := by decide
  framed := ⟨by decide, by decide, encodeUtf8 "chunked".toList, by decide, by decide⟩

/-- The request is for `/`, and the origin answers it with the page. -/
theorem chunked_body_served : chunkedPage.WellFormed false ∧ chunkedPage.bytes.length ≤ MAX_ORIGIN_BODY ∧
    chunkedPage.body.content = encodeUtf8 "hello".toList ∧
    (serveMasqueradeReverse plainTypes (fun _ _ => some chunkedPage.bytes) "cover:80".toList .get
      "/".toList).data = some (encodeUtf8 "5\r\nhello\r\n0\r\n\r\n".toList) ∧
    ¬Faithful chunkedPage (serveMasqueradeReverse plainTypes (fun _ _ => some chunkedPage.bytes)
      "cover:80".toList .get "/".toList) := by
  have hreason : (fromUtf8 chunkedPage.head.reason).isSome := by
    have hascii : ∀ x ∈ chunkedPage.head.reason, x.toNat < 128 :=
      List.forall_mem_cons.mpr ⟨by decide, List.forall_mem_singleton.mpr (by decide)⟩
    rw [fromUtf8_ascii hascii]
    rfl
  have hsize : (chunkedPage.head.bytes ++ chunkedPage.body.bytes).length ≤ MAX_ORIGIN_BODY := by decide
  have hserved := serve_of_text plainTypes_documented (fun _ _ => some chunkedPage.bytes) "cover:80".toList
    "/".toList false hreason hsize rfl
  have hdata : (serveMasqueradeReverse plainTypes (fun _ _ => some chunkedPage.bytes) "cover:80".toList .get
      "/".toList).data = some chunkedPage.body.bytes := congrArg Served.data hserved
  refine ⟨chunkedPage_wellFormed, hsize, by decide, hdata.trans (by decide), fun hfaithful => ?_⟩
  have hbody := hfaithful.body
  rw [hdata, Option.getD_some] at hbody
  exact Body.bytes_ne_content rfl hbody

theorem reverse_masquerade_chunked :
    Faithful chunkedPage (serveMasqueradeReverse plainTypes (fun _ _ => some chunkedPage.bytes)
      "cover:80".toList .get "/".toList) ↔ Relayed plainTypes chunkedPage ∨ IsOwnPage false chunkedPage :=
  (reverse_masquerade plainTypes plainTypes_documented).2 (fun _ _ => some chunkedPage.bytes) "cover:80".toList
    "/".toList false chunkedPage chunkedPage_wellFormed (by decide) rfl

end Leshiy.Quic
