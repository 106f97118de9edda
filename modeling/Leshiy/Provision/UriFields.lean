import Leshiy.Lib.Window
import Leshiy.Provision.Basic
import Leshiy.Reality.Uri

/-!
# The readers of an issued link

`parse_uri_fields` and `parse_quic_fields` (`leshiy-provision/src/engine.rs`) look for the names of parameters
in the whole text of a link, where `RealityUri::parse` takes it apart. The mark of a parameter is the `=` behind
its name: on a link whose parts have none in them, the two find the same.
-/

namespace Leshiy.Provision

open Leshiy.Lib Leshiy.Mux Leshiy.Reality Leshiy.Reality.RealityUri Str

/-! ## The readers -/

/-- `s.split(['&', ' ', '\n']).next()`. -/
def firstPiece (s : Str) : Str := s.takeWhile fun c => !(c == '&' || c == ' ' || c == '\n')

/-- What stands behind `key=`, if it is not empty. -/
def uriField (uri key : Str) : Option Str :=
  ((secondPiece (key ++ ['=']) uri).map firstPiece).filter fun s => !s.isEmpty

/-- The short id and the public key of an issued link. -/
def parseUriFields (uri : String) : Except Error (Str × Str) :=
  match stripPrefix uri "leshiy://" with
  | none => .error (.parse "not a leshiy uri".toList)
  | some rest =>
    match splitOnce '@' rest.toList with
    | none => .error (.parse "no '@' in uri".toList)
    | some (pubB64, _) =>
      if pubB64 = [] then .error (.parse "no pubkey".toList)
      else
        match uriField uri.toList "sid".toList with
        | none => .error (.parse "no sid".toList)
        | some sid => .ok (sid, pubB64)

/-- The QUIC endpoint of an issued link. -/
def parseQuicFields (uri : String) : Option QuicInfo :=
  match uriField uri.toList "quic".toList with
  | none => none
  | some addr =>
    match uriField uri.toList "qsni".toList with
    | none => none
    | some sni => some ⟨addr, sni, uriField uri.toList "qcert".toList⟩

/-! ## A field of a link -/

section

variable {key l v rest tail : Str}

theorem uriField_no_mark {uri : Str} (h : '=' ∉ uri) : uriField uri key = none := by
  rw [uriField, secondPiece_no_mark h]
  rfl

theorem uriField_skip (hkey : '=' ∉ key) (hl : '=' ∉ l) (hsuf : ¬key <:+ l) :
    uriField (l ++ '=' :: rest) key = uriField rest key := by
  rw [uriField, secondPiece_skip hkey hl hsuf, uriField]

/-- A value ends where another parameter follows or the link does. -/
theorem uriField_mark (hkey : '=' ∉ key ∧ '&' ∉ key) (hl : '=' ∉ l) (hsuf : key <:+ l) (hne : v ≠ [])
    (hv : ∀ c ∈ v, c ≠ '=' ∧ c ≠ '&' ∧ ¬isWhite c) (htail : tail = [] ∨ tail.head? = some '&') :
    uriField (l ++ '=' :: (v ++ tail)) key = some v := by
  have hamp : '&' ∉ key ++ ['='] := fun hmem =>
    (List.mem_append.mp hmem).elim hkey.2 fun h => absurd (List.mem_singleton.mp h) (by decide)
  obtain ⟨n, hpiece⟩ := secondPiece_mark hkey.1 hl hsuf (fun h => (hv _ h).1 rfl) hamp htail
  have hall : ∀ c ∈ v, (!(c == '&' || c == ' ' || c == '\n')) = true := by
    intro c hc
    obtain ⟨-, hnamp, hwhite⟩ := hv c hc
    have hspace : c ≠ ' ' := by
      rintro rfl
      exact hwhite rfl
    have hnewline : c ≠ '\n' := by
      rintro rfl
      exact hwhite rfl
    simp [hnamp, hspace, hnewline]
  have hend : (tail.take n).takeWhile (fun c => !(c == '&' || c == ' ' || c == '\n')) = [] := by
    match tail, htail, n with
    | [], _, _ => rw [List.take_nil]; rfl
    | _ :: _, _, 0 => rfl
    | c :: tail, .inr hhead, n + 1 =>
      cases hhead
      rfl
  have hfirst : firstPiece (v ++ tail.take n) = v := by
    rw [firstPiece, List.takeWhile_append_of_pos hall, hend, List.append_nil]
  rw [uriField, hpiece, Option.map_some, hfirst]
  exact if_pos (by simpa using hne)

theorem suffix_amp (a key : Str) : key <:+ a ++ '&' :: key := ⟨a ++ ['&'], List.append_assoc a ['&'] key⟩

/-- What a text ends in can be told from its last part. -/
theorem not_suffix {a w : Str} (h : ∀ b, key.reverse.isPrefixOf (w.reverse ++ b) = false) :
    ¬key <:+ a ++ w := by
  rw [← List.reverse_prefix, List.reverse_append, ← List.isPrefixOf_iff_prefix, h]
  exact Bool.false_ne_true

end

/-! ## What is written -/

/-- The text has something in it, and nothing that the format uses or that is whitespace. -/
structure PlainText (s : String) : Prop where
  ne_empty : s.toList ≠ []
  marks : ∀ c ∈ ['=', '&', '?', '@', '#'], c ∉ s.toList
  white : ∀ c ∈ s.toList, ¬isWhite c

theorem PlainText.char {s : String} (h : PlainText s) : ∀ c ∈ s.toList, c ≠ '=' ∧ c ≠ '&' ∧ ¬isWhite c := by
  intro c hc
  refine ⟨?_, ?_, h.white c hc⟩
  · rintro rfl
    exact h.marks '=' (by decide) hc
  · rintro rfl
    exact h.marks '&' (by decide) hc

theorem char_of_hexEncode {bs : List UInt8} : ∀ c ∈ (hexEncode bs).toList, c ≠ '=' ∧ c ≠ '&' ∧ ¬isWhite c := by
  intro c hc
  obtain ⟨n, hn, rfl⟩ := hexEncode_mem hc
  have hdigits : ∀ n < 16, hexDigit n ≠ '=' ∧ hexDigit n ≠ '&' ∧ ¬isWhite (hexDigit n) := by decide
  exact hdigits n hn

theorem hexEncode_ne_nil {n : Nat} (b : Block (n + 1)) : (hexEncode b.1).toList ≠ [] := by
  intro hnil
  have hback := hexDecode_hexEncode b.1
  rw [String.toList_eq_nil_iff.mp hnil] at hback
  have hlen := b.2
  rw [← Option.some.inj hback] at hlen
  cases hlen

theorem eq_not_mem_base64Chars (bs : List UInt8) : '=' ∉ base64Chars bs := by
  intro hmem
  obtain ⟨n, hn, hc⟩ := base64Chars_mem hmem
  have hne : ∀ n < 64, '=' ≠ base64Digit n := by decide +kernel
  exact hne n hn hc

/-- What stands in front of the parameters. -/
def uriStart (u : RealityUri) : Str :=
  "leshiy://".toList ++ (base64Chars u.client.serverPublic.1 ++ '@' :: u.serverAddr.toList)

/-- The parameters behind the QUIC endpoint's name. -/
def certParam : Option (Block 32) → Str
  | none => []
  | some c => "&qcert".toList ++ '=' :: (hexEncode c.1).toList

theorem regroup (scheme key addr sniKey sni sidKey sid quic : Str) :
    scheme ++ (key ++ '@' :: (addr ++ '?' :: (sniKey ++ '=' :: sni ++ '&' :: (sidKey ++ '=' :: sid ++ quic)))) =
      ((scheme ++ (key ++ '@' :: addr)) ++ '?' :: sniKey) ++ '=' :: ((sni ++ '&' :: sidKey) ++ '=' ::
        (sid ++ quic)) := by
  simp only [List.append_assoc, List.cons_append]

theorem toList_format_marks (u : RealityUri) : (format u).toList =
    (uriStart u ++ "?sni".toList) ++ '=' :: ((u.client.sni.toList ++ "&sid".toList) ++ '=' ::
      ((hexEncode u.client.shortId.1).toList ++ quicParams u.quic)) :=
  (toList_format u).trans (regroup "leshiy://".toList (base64Chars u.client.serverPublic.1) u.serverAddr.toList
    "sni".toList u.client.sni.toList "sid".toList (hexEncode u.client.shortId.1).toList (quicParams u.quic))

theorem regroup_quic (quic addr qsni sni cert : Str) :
    '&' :: (quic ++ '=' :: addr ++ '&' :: (qsni ++ '=' :: sni ++ cert)) =
      ('&' :: quic) ++ '=' :: ((addr ++ '&' :: qsni) ++ '=' :: (sni ++ cert)) := by
  simp only [List.append_assoc, List.cons_append]

theorem quicParams_some (q : QuicEndpoint) : quicParams (some q) =
    "&quic".toList ++ '=' :: ((q.addr.toList ++ "&qsni".toList) ++ '=' ::
      (q.sni.toList ++ certParam q.certSha256)) := by
  obtain ⟨addr, sni, _ | cert⟩ := q
  · exact regroup_quic "quic".toList addr.toList "qsni".toList sni.toList []
  · exact regroup_quic "quic".toList addr.toList "qsni".toList sni.toList ('&' :: param "qcert" _)

/-! ## What is read -/

section

variable {u : RealityUri} {q : QuicEndpoint}

/-- No mark in what stands in front of the first one and of the second one. -/
theorem eq_not_mem_start (haddr : PlainText u.serverAddr) (hsni : PlainText u.client.sni) :
    '=' ∉ uriStart u ++ "?sni".toList ∧ '=' ∉ u.client.sni.toList ++ "&sid".toList := by
  have hkey := eq_not_mem_base64Chars u.client.serverPublic.1
  have hhost : '=' ∉ u.serverAddr.toList := haddr.marks _ (by decide)
  have hname : '=' ∉ u.client.sni.toList := hsni.marks _ (by decide)
  constructor
  · exact List.not_mem_append (List.not_mem_append (by decide) (List.not_mem_append hkey
      (List.not_mem_cons_of_ne_of_not_mem (by decide) hhost))) (by decide)
  · exact List.not_mem_append hname (by decide)

theorem uriField_sid (haddr : PlainText u.serverAddr) (hsni : PlainText u.client.sni) :
    uriField (format u).toList "sid".toList = some (hexEncode u.client.shortId.1).toList := by
  obtain ⟨hstart, hname⟩ := eq_not_mem_start haddr hsni
  have hquic : quicParams u.quic = [] ∨ (quicParams u.quic).head? = some '&' := by
    cases u.quic with
    | none => exact .inl rfl
    | some q => exact .inr rfl
  rw [toList_format_marks, uriField_skip (by decide) hstart (not_suffix fun _ => rfl)]
  exact uriField_mark (by decide) hname (suffix_amp _ "sid".toList) (hexEncode_ne_nil _)
    char_of_hexEncode hquic

/-- The fields of the endpoint are behind those of the server. -/
theorem uriField_server (key : Str) (haddr : PlainText u.serverAddr) (hsni : PlainText u.client.sni)
    (hkey : '=' ∉ key) (hstart : ¬key <:+ uriStart u ++ "?sni".toList)
    (hsid : ¬key <:+ u.client.sni.toList ++ "&sid".toList) :
    uriField (format u).toList key =
      uriField ((hexEncode u.client.shortId.1).toList ++ quicParams u.quic) key := by
  obtain ⟨hmark, hname⟩ := eq_not_mem_start haddr hsni
  rw [toList_format_marks, uriField_skip hkey hmark hstart, uriField_skip hkey hname hsid]

/-- **The fields of an endpoint.** -/
theorem uriField_endpoint {hex : Str} (hhex : '=' ∉ hex) (haddr : PlainText q.addr) (hsni : PlainText q.sni) :
    uriField (hex ++ quicParams (some q)) "quic".toList = some q.addr.toList ∧
      uriField (hex ++ quicParams (some q)) "qsni".toList = some q.sni.toList ∧
      uriField (hex ++ quicParams (some q)) "qcert".toList =
        q.certSha256.map fun c => (hexEncode c.1).toList := by
  have hquic : '=' ∉ hex ++ "&quic".toList := List.not_mem_append hhex (by decide)
  have hqsni : '=' ∉ q.addr.toList ++ "&qsni".toList :=
    List.not_mem_append (haddr.marks '=' (by decide)) (by decide)
  have hcert : certParam q.certSha256 = [] ∨ (certParam q.certSha256).head? = some '&' := by
    cases q.certSha256 with
    | none => exact .inl rfl
    | some c => exact .inr rfl
  rw [quicParams_some, ← List.append_assoc]
  refine ⟨?_, ?_, ?_⟩
  · rw [List.append_assoc q.addr.toList]
    exact uriField_mark (by decide) hquic (suffix_amp _ "quic".toList) haddr.ne_empty haddr.char (.inr rfl)
  · rw [uriField_skip (by decide) hquic (not_suffix fun _ => rfl)]
    exact uriField_mark (by decide) hqsni (suffix_amp _ "qsni".toList) hsni.ne_empty hsni.char hcert
  · rw [uriField_skip (by decide) hquic (not_suffix fun _ => rfl),
      uriField_skip (by decide) hqsni (not_suffix fun _ => rfl)]
    have hname := hsni.marks '=' (by decide)
    cases q.certSha256 with
    | none => exact uriField_no_mark (List.not_mem_append hname List.not_mem_nil)
    | some c =>
      have hqcert : '=' ∉ q.sni.toList ++ "&qcert".toList := List.not_mem_append hname (by decide)
      have hread : uriField ((q.sni.toList ++ "&qcert".toList) ++ '=' :: ((hexEncode c.1).toList ++ []))
          "qcert".toList = some (hexEncode c.1).toList :=
        uriField_mark (by decide) hqcert (suffix_amp _ "qcert".toList) (hexEncode_ne_nil c)
          char_of_hexEncode (.inl rfl)
      rw [List.append_nil, List.append_assoc] at hread
      exact hread

theorem base64Chars_ne_nil (b : Block 32) : base64Chars b.1 ≠ [] := by
  intro hnil
  have hback := base64Bytes_chars b.1
  rw [hnil] at hback
  have hlen := b.2
  rw [← Option.some.inj hback] at hlen
  cases hlen

theorem parseUriFields_format (haddr : PlainText u.serverAddr) (hsni : PlainText u.client.sni) :
    parseUriFields (format u) =
      .ok ((hexEncode u.client.shortId.1).toList, (base64UrlEncode u.client.serverPublic.1).toList) := by
  have hsid := uriField_sid haddr hsni
  have hkey : (base64UrlEncode u.client.serverPublic.1).toList = base64Chars u.client.serverPublic.1 :=
    String.toList_ofList
  rw [hkey, parseUriFields, stripPrefix_format]
  dsimp only
  rw [String.toList_ofList, splitOnce_append (at_not_mem_base64Chars _)]
  dsimp only
  rw [if_neg (base64Chars_ne_nil _), hsid]

theorem parseQuicFields_format (haddr : PlainText u.serverAddr) (hsni : PlainText u.client.sni)
    (hquic : ∀ q ∈ u.quic, PlainText q.addr ∧ PlainText q.sni) :
    parseQuicFields (format u) = u.quic.map fun q =>
      ⟨q.addr.toList, q.sni.toList, q.certSha256.map fun c => (hexEncode c.1).toList⟩ := by
  have hhex : '=' ∉ (hexEncode u.client.shortId.1).toList := fun h => (char_of_hexEncode _ h).1 rfl
  have haddrField := uriField_server "quic".toList haddr hsni (by decide)
    (not_suffix fun _ => rfl) (not_suffix fun _ => rfl)
  rw [parseQuicFields]
  cases hq : u.quic with
  | none =>
    rw [hq] at haddrField
    have hnone : '=' ∉ (hexEncode u.client.shortId.1).toList ++ quicParams none :=
      List.not_mem_append hhex List.not_mem_nil
    rw [haddrField, uriField_no_mark hnone]
    rfl
  | some q =>
    obtain ⟨hqaddr, hqsni⟩ := hquic q (by rw [hq]; rfl)
    obtain ⟨hquicField, hqsniField, hqcertField⟩ := uriField_endpoint hhex hqaddr hqsni
    have hsniField := uriField_server "qsni".toList haddr hsni (by decide)
      (not_suffix fun _ => rfl) (not_suffix fun _ => rfl)
    have hcertField := uriField_server "qcert".toList haddr hsni (by decide)
      (not_suffix fun _ => rfl) (not_suffix fun _ => rfl)
    rw [hq] at haddrField hsniField hcertField
    rw [haddrField, hsniField, hcertField, hquicField, hqsniField, hqcertField]
    rfl

end

/-- **The readers of an issued link agree.** -/
theorem issued_uri_readers (serverPublic : Block 32) (hostPort sni : String) (shortId : ShortId)
    (quic : Option QuicEndpoint) (hhost : PlainText hostPort) (hsni : PlainText sni)
    (hquic : ∀ q ∈ quic, PlainText q.addr ∧ PlainText q.sni) :
    ∃ u, RealityUri.parse (formatRealityUriFull serverPublic hostPort sni shortId quic) = .ok u ∧
      parseUriFields (formatRealityUriFull serverPublic hostPort sni shortId quic) =
        .ok ((hexEncode u.client.shortId.1).toList, (base64UrlEncode u.client.serverPublic.1).toList) ∧
      parseQuicFields (formatRealityUriFull serverPublic hostPort sni shortId quic) =
        u.quic.map fun q =>
          ⟨q.addr.toList, q.sni.toList, q.certSha256.map fun c => (hexEncode c.1).toList⟩ := by
  obtain ⟨u, hu⟩ : ∃ u : RealityUri, u = ⟨hostPort, ⟨serverPublic, shortId, sni⟩, quic⟩ := ⟨_, rfl⟩
  have huri : formatRealityUriFull serverPublic hostPort sni shortId quic = format u := by rw [hu, format]
  have haddr : PlainText u.serverAddr := hu ▸ hhost
  have hname : PlainText u.client.sni := hu ▸ hsni
  have hendpoint : ∀ q ∈ u.quic, PlainText q.addr ∧ PlainText q.sni := hu ▸ hquic
  have hfits : Fits u := ⟨haddr.marks _ (by decide), hname.marks _ (by decide), fun q hq =>
    ⟨(hendpoint q hq).1.marks _ (by decide), (hendpoint q hq).2.marks _ (by decide)⟩⟩
  rw [huri]
  exact ⟨u, parse_format hfits, parseUriFields_format haddr hname,
    parseQuicFields_format haddr hname hendpoint⟩

/-- What `PlainText` says can be checked character by character. -/
theorem PlainText.of_all {s : String}
    (h : (!s.toList.isEmpty && s.toList.all fun c => !"=&?@#".toList.contains c && !isWhite c) = true) :
    PlainText s := by
  simp only [Bool.and_eq_true, Bool.not_eq_true', List.isEmpty_eq_false_iff, List.all_eq_true] at h
  refine ⟨h.1, fun c hmark hc => ?_, fun c hc => Bool.eq_false_iff.mp (h.2 c hc).2⟩
  have hnot := (h.2 c hc).1
  rw [← Bool.not_eq_true, List.contains_iff_mem] at hnot
  exact hnot hmark

theorem issued_uri_readers_cert : ∃ u,
    RealityUri.parse (formatRealityUriFull (Block.fill 32 7) "[::1]:443" "a.example" (Block.fill 8 1)
        (some ⟨"h:8443", "b.example", some (Block.fill 32 9)⟩)) = .ok u ∧
    parseUriFields (formatRealityUriFull (Block.fill 32 7) "[::1]:443" "a.example" (Block.fill 8 1)
        (some ⟨"h:8443", "b.example", some (Block.fill 32 9)⟩)) =
      .ok ((hexEncode u.client.shortId.1).toList, (base64UrlEncode u.client.serverPublic.1).toList) ∧
    parseQuicFields (formatRealityUriFull (Block.fill 32 7) "[::1]:443" "a.example" (Block.fill 8 1)
        (some ⟨"h:8443", "b.example", some (Block.fill 32 9)⟩)) =
      u.quic.map fun q =>
        ⟨q.addr.toList, q.sni.toList, q.certSha256.map fun c => (hexEncode c.1).toList⟩ :=
  issued_uri_readers (Block.fill 32 7) "[::1]:443" "a.example" (Block.fill 8 1)
    (some ⟨"h:8443", "b.example", some (Block.fill 32 9)⟩) (.of_all (by decide)) (.of_all (by decide))
    (by
      rintro q ⟨⟩
      exact ⟨.of_all (by decide), .of_all (by decide)⟩)

end Leshiy.Provision
