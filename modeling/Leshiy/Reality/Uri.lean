import Leshiy.Lib.Str
import Leshiy.Mux.OpenTarget
import Leshiy.Reality.Classify
import Leshiy.Reality.Control
import Leshiy.Reality.Handshake

/-!
# Share links

`RealityUri::parse` (`leshiy-reality/src/config.rs`) reads what `format_reality_uri_full` writes. The
parameters of the query may come in any order, unknown ones are passed over, and of a parameter that is
given twice the last one counts.
-/

namespace Leshiy.Reality

open Leshiy.Lib Leshiy.Mux Str

structure RealityUri where
  serverAddr : String
  client : ClientAuthConfig
  quic : Option QuicEndpoint

namespace RealityUri

/-- The parameters read so far. -/
structure Params where
  sni : Option Str
  sid : Option Str
  quic : Option Str
  qsni : Option Str
  qcert : Option Str

def Params.read (p : Params) (kv : Str) : Params :=
  match splitOnce '=' kv with
  | none => p
  | some (k, v) =>
    if k = "sni".toList then { p with sni := some v }
    else if k = "sid".toList then { p with sid := some v }
    else if k = "quic".toList then { p with quic := some v }
    else if k = "qsni".toList then { p with qsni := some v }
    else if k = "qcert".toList then { p with qcert := some v }
    else p

def Params.ofQuery (query : Str) : Params :=
  (split '&' query).foldl Params.read ⟨none, none, none, none, none⟩

/-- Hexadecimal digits that make a block of `n` bytes. -/
def hexBlock (n : Nat) (digits : Str) (badHex badLength : String) : Except RealityError (Block n) := do
  let bytes ← okOr (hexDecode (String.ofList digits)) badHex
  okOr (Block.tryFrom n bytes) badLength

def quicEndpoint (p : Params) : Except RealityError (Option QuicEndpoint) :=
  match p.quic with
  | none => .ok none
  | some addr => do
    let sni ← okOr p.qsni "quic= requires qsni="
    match p.qcert with
    | none => .ok (some ⟨String.ofList addr, String.ofList sni, none⟩)
    | some digits => do
      let cert ← hexBlock 32 digits "bad qcert hex" "qcert must be 32 bytes"
      .ok (some ⟨String.ofList addr, String.ofList sni, some cert⟩)

def parse (s : String) : Except RealityError RealityUri := do
  let rest ← okOr (stripPrefix s "leshiy://") "missing leshiy:// scheme"
  let (auth, hostq) ← okOr (splitOnce '@' rest.toList) "missing @"
  let pkVec ← okOr (base64UrlDecode (String.ofList auth)) "bad base64 pubkey"
  let serverPublic ← okOr (Block.tryFrom 32 pkVec) "pubkey must be 32 bytes"
  let (hostPort, query) ← okOr (splitOnce '?' hostq) "missing query"
  let p := Params.ofQuery query
  let sni ← okOr p.sni "missing sni"
  let sidHex ← okOr p.sid "missing sid"
  let shortId ← hexBlock 8 sidHex "bad sid hex" "sid must be 8 bytes"
  let quic ← quicEndpoint p
  return ⟨String.ofList hostPort, ⟨serverPublic, shortId, String.ofList sni⟩, quic⟩

/-- The link of such a value. -/
def format (u : RealityUri) : String :=
  formatRealityUriFull u.client.serverPublic u.serverAddr u.client.sni u.client.shortId u.quic

/-! ## What `format` writes -/

/-- A parameter of the query. -/
def param (k : String) (v : Str) : Str := k.toList ++ '=' :: v

def quicParams : Option QuicEndpoint → Str
  | none => []
  | some q =>
    '&' :: (param "quic" q.addr.toList ++ '&' :: (param "qsni" q.sni.toList ++
      match q.certSha256 with
      | none => []
      | some c => '&' :: param "qcert" (hexEncode c.1).toList))

def queryOf (u : RealityUri) : Str :=
  param "sni" u.client.sni.toList ++ '&' ::
    (param "sid" (hexEncode u.client.shortId.1).toList ++ quicParams u.quic)

theorem toList_format (u : RealityUri) : (format u).toList =
    "leshiy://".toList ++ (base64Chars u.client.serverPublic.1 ++ '@' ::
      (u.serverAddr.toList ++ '?' :: queryOf u)) := by
  obtain ⟨addr, ⟨pk, sid, sni⟩, quic⟩ := u
  show (formatRealityUriFull pk addr sni sid quic).toList = _
  have hpk : (base64UrlEncode pk.1).toList = base64Chars pk.1 := String.toList_ofList
  rcases quic with _ | ⟨qaddr, qsni, _ | cert⟩
  all_goals
    unfold formatRealityUriFull
    dsimp only
    repeat rw [String.toList_append]
    repeat rw [List.append_assoc]
    rw [hpk]
    rfl

/-! ## Reading a query -/

section

variable {p : Params} {k v : Str}

theorem read_param (hk : '=' ∉ k) : p.read (k ++ '=' :: v) =
    if k = "sni".toList then { p with sni := some v }
    else if k = "sid".toList then { p with sid := some v }
    else if k = "quic".toList then { p with quic := some v }
    else if k = "qsni".toList then { p with qsni := some v }
    else if k = "qcert".toList then { p with qcert := some v }
    else p := by
  simp only [Params.read, splitOnce_append hk]

@[simp] theorem read_sni : p.read (param "sni" v) = { p with sni := some v } :=
  (read_param (by decide)).trans (if_pos rfl)

@[simp] theorem read_sid : p.read (param "sid" v) = { p with sid := some v } :=
  (read_param (by decide)).trans rfl

@[simp] theorem read_quic : p.read (param "quic" v) = { p with quic := some v } :=
  (read_param (by decide)).trans rfl

@[simp] theorem read_qsni : p.read (param "qsni" v) = { p with qsni := some v } :=
  (read_param (by decide)).trans rfl

@[simp] theorem read_qcert : p.read (param "qcert" v) = { p with qcert := some v } :=
  (read_param (by decide)).trans rfl

end

/-- No part has the character in it that ends it. -/
structure Fits (u : RealityUri) : Prop where
  addr : '?' ∉ u.serverAddr.toList
  sni : '&' ∉ u.client.sni.toList
  quic : ∀ q ∈ u.quic, '&' ∉ q.addr.toList ∧ '&' ∉ q.sni.toList

theorem amp_not_mem_param {k : String} {v : Str} (hk : '&' ∉ k.toList) (hv : '&' ∉ v) :
    '&' ∉ param k v := by
  intro hmem
  rcases List.mem_append.mp hmem with hmem | hmem
  · exact hk hmem
  · rcases List.mem_cons.mp hmem with heq | hmem
    · exact absurd heq (by decide)
    · exact hv hmem

theorem amp_not_mem_hexEncode (bs : List UInt8) : '&' ∉ (hexEncode bs).toList := by
  intro hmem
  obtain ⟨n, hn, hc⟩ := hexEncode_mem hmem
  have hne : ∀ n < 16, '&' ≠ hexDigit n := by decide
  exact hne n hn hc

theorem at_not_mem_base64Chars (bs : List UInt8) : '@' ∉ base64Chars bs := by
  intro hmem
  obtain ⟨n, hn, hc⟩ := base64Chars_mem hmem
  have hne : ∀ n < 64, '@' ≠ base64Digit n := by decide +kernel
  exact hne n hn hc

/-- **The parameters are read as they were written.** -/
theorem ofQuery_queryOf {u : RealityUri} (h : Fits u) : Params.ofQuery (queryOf u) =
    { sni := some u.client.sni.toList
      sid := some (hexEncode u.client.shortId.1).toList
      quic := u.quic.map fun q => q.addr.toList
      qsni := u.quic.map fun q => q.sni.toList
      qcert := u.quic.bind fun q => q.certSha256.map fun c => (hexEncode c.1).toList } := by
  obtain ⟨addr, ⟨pk, sid, sni⟩, quic⟩ := u
  have hsni : '&' ∉ param "sni" sni.toList := amp_not_mem_param (by decide) h.sni
  have hsid : '&' ∉ param "sid" (hexEncode sid.1).toList :=
    amp_not_mem_param (by decide) (amp_not_mem_hexEncode _)
  rw [Params.ofQuery, queryOf, split_append hsni]
  rcases quic with _ | ⟨qaddr, qsni, cert⟩
  · simp only [quicParams, List.append_nil, split_of_not_mem hsid, List.foldl_cons, List.foldl_nil,
      read_sni, read_sid]
    rfl
  · obtain ⟨haddr, hname⟩ := h.quic _ rfl
    have hquic : '&' ∉ param "quic" qaddr.toList := amp_not_mem_param (by decide) haddr
    have hqsni : '&' ∉ param "qsni" qsni.toList := amp_not_mem_param (by decide) hname
    simp only [quicParams]
    rw [split_append hsid, split_append hquic]
    rcases cert with _ | c
    · simp only [List.append_nil, split_of_not_mem hqsni, List.foldl_cons, List.foldl_nil, read_sni,
        read_sid, read_quic, read_qsni]
      rfl
    · have hqcert : '&' ∉ param "qcert" (hexEncode c.1).toList :=
        amp_not_mem_param (by decide) (amp_not_mem_hexEncode _)
      simp only [split_append hqsni, split_of_not_mem hqcert, List.foldl_cons, List.foldl_nil,
        read_sni, read_sid, read_quic, read_qsni, read_qcert]
      rfl

theorem hexBlock_hexEncode {n : Nat} (b : Block n) (badHex badLength : String) :
    hexBlock n (hexEncode b.1).toList badHex badLength = .ok b := by
  rw [hexBlock, String.ofList_toList, okOr_bind (hexDecode_hexEncode b.1), Block.tryFrom_val]
  rfl

theorem stripPrefix_format (u : RealityUri) : stripPrefix (format u) "leshiy://" = some (String.ofList
    (base64Chars u.client.serverPublic.1 ++ '@' :: (u.serverAddr.toList ++ '?' :: queryOf u))) := by
  rw [stripPrefix_eq_some_iff, ← String.toList_inj, toList_format, String.toList_append]
  exact congrArg _ String.toList_ofList.symm

/-- **A link that was written is read as it was meant.** -/
theorem parse_format {u : RealityUri} (h : Fits u) : parse (format u) = .ok u := by
  have hquery := ofQuery_queryOf h
  have haddr := h.addr
  unfold parse
  rw [okOr_bind (stripPrefix_format u), String.toList_ofList,
    okOr_bind (splitOnce_append (at_not_mem_base64Chars _))]
  have hkey : base64UrlDecode (String.ofList (base64Chars u.client.serverPublic.1)) =
      some u.client.serverPublic.1 := base64UrlDecode_encode _
  dsimp only
  rw [okOr_bind hkey, okOr_bind (Block.tryFrom_val _),
    okOr_bind (splitOnce_append haddr)]
  dsimp only
  rw [hquery]
  obtain ⟨addr, ⟨pk, sid, sni⟩, quic⟩ := u
  rw [okOr_bind rfl, okOr_bind rfl, ok_bind (hexBlock_hexEncode sid _ _)]
  rcases quic with _ | ⟨qaddr, qsni, cert⟩
  · simp only [quicEndpoint, Option.map_none, String.ofList_toList]
    rfl
  · rcases cert with _ | c
    · simp only [quicEndpoint, Option.map_some, Option.bind_some, Option.map_none]
      rw [okOr_bind rfl, String.ofList_toList, String.ofList_toList, String.ofList_toList,
        String.ofList_toList]
      rfl
    · simp only [quicEndpoint, Option.map_some, Option.bind_some]
      rw [okOr_bind rfl, ok_bind (hexBlock_hexEncode c _ _), String.ofList_toList,
        String.ofList_toList, String.ofList_toList, String.ofList_toList]
      rfl

/-! ## What was read can be written -/

/-- No value has an ampersand in it. -/
def Params.Clean (p : Params) : Prop :=
  (∀ v ∈ p.sni, '&' ∉ v) ∧ (∀ v ∈ p.quic, '&' ∉ v) ∧ ∀ v ∈ p.qsni, '&' ∉ v

theorem Params.Clean.read {p : Params} {kv : Str} (h : p.Clean) (hkv : '&' ∉ kv) :
    (p.read kv).Clean := by
  obtain ⟨hsni, hquic, hqsni⟩ := h
  unfold Params.read
  split
  · exact ⟨hsni, hquic, hqsni⟩
  · next k v hsplit =>
    have hv : '&' ∉ v := by
      rw [(splitOnce_eq_some hsplit).1] at hkv
      exact fun hmem => hkv (List.mem_append_right _ (List.mem_cons_of_mem _ hmem))
    have hnew : ∀ w ∈ some v, '&' ∉ w := by
      rintro w ⟨⟩
      exact hv
    repeat' split
    · exact ⟨hnew, hquic, hqsni⟩
    · exact ⟨hsni, hquic, hqsni⟩
    · exact ⟨hsni, hnew, hqsni⟩
    · exact ⟨hsni, hquic, hnew⟩
    · exact ⟨hsni, hquic, hqsni⟩
    · exact ⟨hsni, hquic, hqsni⟩

theorem clean_foldl : ∀ {kvs : List Str} {p : Params}, (∀ kv ∈ kvs, '&' ∉ kv) → p.Clean →
    (kvs.foldl Params.read p).Clean
  | [], _, _, hp => hp
  | kv :: _, _, hkvs, hp => by
    rw [List.foldl_cons]
    exact clean_foldl (fun _ h => hkvs _ (List.mem_cons_of_mem kv h))
      (hp.read (hkvs kv List.mem_cons_self))

theorem clean_ofQuery (query : Str) : (Params.ofQuery query).Clean :=
  clean_foldl (fun _ => not_mem_of_mem_split) ⟨nofun, nofun, nofun⟩

theorem fits_quicEndpoint {p : Params} {quic : Option QuicEndpoint} (hp : p.Clean)
    (h : quicEndpoint p = .ok quic) : ∀ q ∈ quic, '&' ∉ q.addr.toList ∧ '&' ∉ q.sni.toList := by
  obtain ⟨-, hquic, hqsni⟩ := hp
  unfold quicEndpoint at h
  split at h
  · cases h
    nofun
  · next addr haddr =>
    obtain ⟨sni, hsni, h⟩ := of_bind_eq_ok h
    have hparts : '&' ∉ (String.ofList addr).toList ∧ '&' ∉ (String.ofList sni).toList := by
      rw [String.toList_ofList, String.toList_ofList]
      exact ⟨hquic addr haddr, hqsni sni (of_okOr_eq_ok hsni)⟩
    split at h
    · cases h
      rintro q ⟨⟩
      exact hparts
    · obtain ⟨cert, -, h⟩ := of_bind_eq_ok h
      cases h
      rintro q ⟨⟩
      exact hparts

/-- **What a link was read as has its parts free of what ends them.** -/
theorem fits_of_parse {s : String} {u : RealityUri} (h : parse s = .ok u) : Fits u := by
  unfold parse at h
  obtain ⟨rest, -, h⟩ := of_bind_eq_ok h
  obtain ⟨⟨auth, hostq⟩, -, h⟩ := of_bind_eq_ok h
  obtain ⟨pkVec, -, h⟩ := of_bind_eq_ok h
  obtain ⟨serverPublic, -, h⟩ := of_bind_eq_ok h
  obtain ⟨⟨hostPort, query⟩, hhost, h⟩ := of_bind_eq_ok h
  obtain ⟨sni, hsni, h⟩ := of_bind_eq_ok h
  obtain ⟨sidHex, -, h⟩ := of_bind_eq_ok h
  obtain ⟨shortId, -, h⟩ := of_bind_eq_ok h
  obtain ⟨quic, hquic, h⟩ := of_bind_eq_ok h
  cases h
  have hclean := clean_ofQuery query
  refine ⟨?_, ?_, fits_quicEndpoint hclean hquic⟩
  · rw [String.toList_ofList]
    exact (splitOnce_eq_some (of_okOr_eq_ok hhost)).2
  · rw [String.toList_ofList]
    exact hclean.1 sni (of_okOr_eq_ok hsni)

/-- What the format puts between the parts. -/
def separators : List Char := ['@', '?', '&', '=']

def NoSeparator (s : String) : Prop := ∀ c ∈ separators, c ∉ s.toList

/-- **Share links go round.** -/
theorem parse_format_parse :
    (∀ (serverPublic : Block 32) (hostPort sni : String) (shortId : ShortId)
        (quic : Option QuicEndpoint),
      NoSeparator hostPort → NoSeparator sni →
      (∀ q ∈ quic, NoSeparator q.addr ∧ NoSeparator q.sni) →
      parse (formatRealityUriFull serverPublic hostPort sni shortId quic) =
        .ok ⟨hostPort, ⟨serverPublic, shortId, sni⟩, quic⟩) ∧
    ∀ (s : String) (u : RealityUri), parse s = .ok u → parse (format u) = .ok u := by
  have hquestion : '?' ∈ separators := by decide
  have hamp : '&' ∈ separators := by decide
  refine ⟨fun serverPublic hostPort sni shortId quic hhost hsni hquic => ?_, fun s u h => ?_⟩
  · exact parse_format (u := ⟨hostPort, ⟨serverPublic, shortId, sni⟩, quic⟩)
      ⟨hhost _ hquestion, hsni _ hamp, fun q hq => ⟨(hquic q hq).1 _ hamp, (hquic q hq).2 _ hamp⟩⟩
  · exact parse_format (fits_of_parse h)

theorem parse_format_parse_small :
    parse (formatRealityUriFull (Block.fill 32 7) "[::1]:443" "a.example" (Block.fill 8 1)
        (some ⟨"h:8443", "b.example", some (Block.fill 32 9)⟩)) =
      .ok ⟨"[::1]:443", ⟨Block.fill 32 7, Block.fill 8 1, "a.example"⟩,
        some ⟨"h:8443", "b.example", some (Block.fill 32 9)⟩⟩ := by
  have hplain : NoSeparator "[::1]:443" ∧ NoSeparator "a.example" ∧ NoSeparator "h:8443" ∧
      NoSeparator "b.example" := by
    simp [NoSeparator, separators]
  obtain ⟨hhost, hsni, hquic⟩ := hplain
  refine parse_format_parse.1 _ _ _ _ _ hhost hsni ?_
  rintro q ⟨⟩
  exact hquic

end RealityUri

end Leshiy.Reality
