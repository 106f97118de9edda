import Leshiy.Tls.Ja

/-!
# Handshake messages

`leshiy-tls/src/tls13/messages.rs`. Each message is a type byte, a length of three bytes and a body.
What a builder writes its parser reads back, with other messages behind it.
-/

namespace Leshiy.Tls

open Leshiy.Lib Parse

/-! ## The frame of a message -/

def hsMsg (msgType : UInt8) (body : Bytes) : Bytes :=
  [msgType] ++ (beEncode 3 body.length ++ body)

theorem length_hsMsg (msgType : UInt8) (body : Bytes) :
    (hsMsg msgType body).length = 4 + body.length := by
  simp only [hsMsg, List.length_append, List.length_singleton, length_beEncode]
  omega

/-- Type and body of the message at the front. -/
def parseHsMsg (msg : Bytes) : Except TlsError (UInt8 × Bytes) :=
  match msg with
  | msgType :: a :: b :: c :: rest =>
    let len := beDecode [a, b, c]
    if rest.length < len then .error (.truncated (4 + len) msg.length)
    else .ok (msgType, rest.take len)
  | _ => .error (.truncated 4 msg.length)

theorem parseHsMsg_hsMsg {msgType : UInt8} {body : Bytes} (h : body.length < 2 ^ 24) (rest : Bytes) :
    parseHsMsg (hsMsg msgType body ++ rest) = .ok (msgType, body) := by
  obtain ⟨a, b, c, hlen⟩ : ∃ a b c, beEncode 3 body.length = [a, b, c] := ⟨_, _, _, rfl⟩
  have hdec : beDecode [a, b, c] = body.length := by
    rw [← hlen]
    exact beDecode_beEncode h
  have hroom : ¬ (body ++ rest).length < body.length := by
    rw [List.length_append]
    omega
  have hmsg : hsMsg msgType body ++ rest = msgType :: a :: b :: c :: (body ++ rest) := by
    rw [hsMsg, hlen]
    simp
  rw [hmsg, parseHsMsg]
  simp only [hdec, if_neg hroom, List.take_left]

theorem parseHsMsg_self {msgType : UInt8} {body : Bytes} (h : body.length < 2 ^ 24) :
    parseHsMsg (hsMsg msgType body) = .ok (msgType, body) := by
  have hparse : parseHsMsg (hsMsg msgType body ++ []) = .ok (msgType, body) :=
    parseHsMsg_hsMsg h []
  rwa [List.append_nil] at hparse

/-! ## ServerHello -/

structure ServerHelloParams where
  suite : UInt16
  serverRandom : Block 32
  sessionIdEcho : Bytes
  keyShareGroup : UInt16
  keyShare : Bytes
  deriving DecidableEq

def serverHelloExtensions (p : ServerHelloParams) : List (UInt16 × Bytes) :=
  [(0x002b, beEncode 2 0x0304),
    (0x0033, beEncode 2 p.keyShareGroup.toNat ++ (beEncode 2 p.keyShare.length ++ p.keyShare))]

def serverHelloBody (p : ServerHelloParams) : Bytes :=
  let ext := (serverHelloExtensions p).flatMap encodeEntry
  [0x03, 0x03] ++ (p.serverRandom.1 ++ ([UInt8.ofNat p.sessionIdEcho.length] ++
    (p.sessionIdEcho ++ (beEncode 2 p.suite.toNat ++ ([0x00] ++ (beEncode 2 ext.length ++ ext))))))

def buildServerHello (p : ServerHelloParams) : Bytes := hsMsg 0x02 (serverHelloBody p)

/-- The value of a `key_share` extension, at the front of what is left of the block. The key is
bounded by the block and not by the extension; one that does not fit leaves the last one. -/
def onKeyShare (found : UInt16 × Bytes) (rest : Bytes) : UInt16 × Bytes :=
  let group := UInt16.ofNat (beDecode (rest.take 2))
  let kl := beDecode ((rest.drop 2).take 2)
  if 4 + kl ≤ rest.length then (group, (rest.drop 4).take kl) else (group, found.2)

/-- Group and key of the last `key_share` in a block of extensions. A body that does not fit ends
the search. Each round takes a header of four bytes, so the block's length is fuel enough. -/
def findKeyShare : Nat → UInt16 × Bytes → Bytes → UInt16 × Bytes
  | fuel + 1, found, a :: b :: c :: d :: rest =>
    let etype := UInt16.ofNat (beDecode [a, b])
    let elen := beDecode [c, d]
    if rest.length < elen then found
    else
      let found := if etype = 0x0033 ∧ 4 ≤ elen then onKeyShare found rest else found
      findKeyShare fuel found (rest.drop elen)
  | _, found, _ => found

def takeBytes (n : Nat) : Parse Bytes := do
  let p ← get
  if p.buf.length < p.pos + n then throw (.truncated (p.pos + n) p.buf.length)
  set (p.advance n)
  return p.rest.take n

/-- A number of two bytes, with an error of its own. -/
def takeU16 : Parse UInt16 := do
  let p ← get
  if p.buf.length < p.pos + 2 then throw (.malformed "serverhello" "truncated")
  set (p.advance 2)
  return UInt16.ofNat (beDecode (p.rest.take 2))

def readServerHello : Parse ServerHelloParams := do
  let _ ← takeBytes 2
  let serverRandom ← takeBytes 32
  let sidLen ← takeBytes 1
  let sessionIdEcho ← takeBytes (beDecode sidLen)
  let suite ← takeU16
  let _ ← takeBytes 1
  let extTotal ← takeU16
  -- The block ends with the body, if not before.
  let block := (← get).rest.take extTotal.toNat
  let (keyShareGroup, keyShare) := findKeyShare block.length (0, []) block
  return ⟨suite, Block.ofList 32 serverRandom, sessionIdEcho, keyShareGroup, keyShare⟩

def parseServerHello (msg : Bytes) : Except TlsError ServerHelloParams := do
  let (mt, body) ← parseHsMsg msg
  if mt ≠ 0x02 then throw (.malformed "serverhello" "wrong type")
  else readServerHello.run' (Parser.new body)

/-- The hello with another key share; the group must be one the server can answer for. -/
def adaptServerHello (destSh newShare : Bytes) : Except TlsError Bytes := do
  let p ← parseServerHello destSh
  if (p.keyShareGroup = 0x001d ∧ newShare.length = 32) ∨
      (p.keyShareGroup = 0x11ec ∧ newShare.length = 1120) then
    return buildServerHello { p with keyShare := newShare }
  else throw (.malformed "serverhello" "unexpected key_share group/len")

/-! ## The encrypted flight -/

def buildEncryptedExtensions (alpn : Option String) : Bytes :=
  let ext := match alpn with
    | none => []
    | some a =>
      let protos := UInt8.ofNat (utf8Bytes a).length :: utf8Bytes a
      beEncode 2 0x0010 ++ (beEncode 2 (protos.length + 2) ++ (beEncode 2 protos.length ++ protos))
  hsMsg 0x08 (beEncode 2 ext.length ++ ext)

/-- An entry of a certificate list, without extensions. -/
def certificateEntry (certDer : Bytes) : Bytes :=
  beEncode 3 certDer.length ++ (certDer ++ [0x00, 0x00])

def buildCertificate (certDer : Bytes) : Bytes :=
  let entry := certificateEntry certDer
  hsMsg 0x0b ([0x00] ++ (beEncode 3 entry.length ++ entry))

/-- The first certificate of the list in a body. -/
def certificateOf (body : Bytes) : Except TlsError Bytes :=
  if body = [] then .error (.malformed "certificate" "empty")
  else
    let p := 1 + (body.getD 0 0).toNat
    if body.length < p + 3 then .error (.truncated (p + 3) body.length)
    else
      let listLen := beDecode ((body.drop p).take 3)
      let p := p + 3
      let listEnd := p + listLen
      if body.length < listEnd then .error (.truncated listEnd body.length)
      else if listEnd < p + 3 then .error (.truncated (p + 3) listEnd)
      else
        let cl := beDecode ((body.drop p).take 3)
        let p := p + 3
        if listEnd < p + cl then
          .error (.malformed "certificate" "cert entry overruns certificate_list")
        else .ok ((body.drop p).take cl)

def parseCertificate (msg : Bytes) : Except TlsError Bytes := do
  let (mt, body) ← parseHsMsg msg
  if mt ≠ 0x0b then throw (.malformed "certificate" "wrong type") else certificateOf body

def buildCertificateVerify (alg : UInt16) (signature : Bytes) : Bytes :=
  hsMsg 0x0f (beEncode 2 alg.toNat ++ (beEncode 2 signature.length ++ signature))

/-- Algorithm and signature in a body. -/
def certificateVerifyOf (body : Bytes) : Except TlsError (UInt16 × Bytes) :=
  let alg := UInt16.ofNat (beDecode (body.take 2))
  let slen := beDecode ((body.drop 2).take 2)
  if body.length < 4 + slen then .error (.truncated (4 + slen) body.length)
  else .ok (alg, (body.drop 4).take slen)

def parseCertificateVerify (msg : Bytes) : Except TlsError (UInt16 × Bytes) := do
  let (mt, body) ← parseHsMsg msg
  if mt ≠ 0x0f ∨ body.length < 4 then throw (.malformed "certverify" "bad")
  else certificateVerifyOf body

def buildFinished (verifyData : Bytes) : Bytes := hsMsg 0x14 verifyData

def parseFinished (msg : Bytes) : Except TlsError Bytes := do
  let (mt, body) ← parseHsMsg msg
  if mt ≠ 0x14 then throw (.malformed "finished" "wrong type") else return body

/-! ## A built ServerHello is read back -/

section

variable {p p' : Parser} {xs ys : Bytes} {n : Nat}

/-- The parser behind bytes that were there. -/
theorem pos_advance_le (h : p.rest = xs ++ ys) (hpos : p.pos ≤ p.buf.length) (hn : xs.length = n) :
    (p.advance n).pos ≤ (p.advance n).buf.length := by
  have hlen := congrArg List.length h
  rw [Parser.rest, List.length_drop, List.length_append] at hlen
  simp only [Parser.pos_advance, Parser.buf_advance]
  omega

theorem takeBytes_run (h : p.rest = xs ++ ys) (hpos : p.pos ≤ p.buf.length) (hn : xs.length = n) :
    (takeBytes n).run p = .ok (xs, p.advance n) := by
  have hroom : ¬ p.buf.length < p.pos + n := Nat.not_lt.mpr (pos_advance_le h hpos hn)
  rw [takeBytes, run_get, if_neg hroom, h, List.take_left' hn]
  rfl

theorem takeU16_run {v : UInt16} (h : p.rest = beEncode 2 v.toNat ++ ys)
    (hpos : p.pos ≤ p.buf.length) : takeU16.run p = .ok (v, p.advance 2) := by
  have hroom : ¬ p.buf.length < p.pos + 2 :=
    Nat.not_lt.mpr (pos_advance_le h hpos (length_beEncode 2 _))
  rw [takeU16, run_get, if_neg hroom, h, List.take_left' (length_beEncode 2 _),
    u16_beDecode_beEncode]
  rfl

theorem takeBytes_eq_ok {b : Bytes} (h : (takeBytes n).run p = .ok (b, p')) : b.length = n := by
  rw [takeBytes, run_get] at h
  split at h
  · cases h
  · next hroom =>
    cases h
    rw [List.length_take, Parser.rest, List.length_drop]
    omega

end

/-- One entry of the block. -/
theorem findKeyShare_entry {fuel : Nat} {found : UInt16 × Bytes} {e : UInt16 × Bytes} (hfits : Fits e)
    (ys : Bytes) : findKeyShare (fuel + 1) found (encodeEntry e ++ ys) =
      findKeyShare fuel
        (if e.1 = 0x0033 ∧ 4 ≤ e.2.length then onKeyShare found (e.2 ++ ys) else found) ys := by
  obtain ⟨a, b, htype⟩ : ∃ a b, beEncode 2 e.1.toNat = [a, b] := ⟨_, _, rfl⟩
  obtain ⟨c, d, hlen⟩ : ∃ c d, beEncode 2 e.2.length = [c, d] := ⟨_, _, rfl⟩
  have hetype : UInt16.ofNat (beDecode [a, b]) = e.1 := by
    rw [← htype, u16_beDecode_beEncode]
  have helen : beDecode [c, d] = e.2.length := by
    rw [← hlen]
    exact beDecode_beEncode hfits
  have hroom : ¬ (e.2 ++ ys).length < e.2.length := by
    rw [List.length_append]
    omega
  have hblock : encodeEntry e ++ ys = a :: b :: c :: d :: (e.2 ++ ys) := by
    rw [encodeEntry, htype, hlen]
    simp
  rw [hblock, findKeyShare]
  simp only [hetype, helen, if_neg hroom, List.drop_left]

theorem onKeyShare_value {group : UInt16} {key : Bytes} (hkey : key.length < 2 ^ 16)
    (found : UInt16 × Bytes) (ys : Bytes) :
    onKeyShare found ((beEncode 2 group.toNat ++ (beEncode 2 key.length ++ key)) ++ ys) =
      (group, key) := by
  have hlen : beDecode (beEncode 2 key.length) = key.length := beDecode_beEncode hkey
  have h2 : ((beEncode 2 group.toNat ++ (beEncode 2 key.length ++ key)) ++ ys) =
      beEncode 2 group.toNat ++ (beEncode 2 key.length ++ (key ++ ys)) := by
    simp only [List.append_assoc]
  have h4 : (beEncode 2 group.toNat ++ (beEncode 2 key.length ++ (key ++ ys))).drop 4 =
      key ++ ys := by
    rw [← List.append_assoc]
    exact List.drop_left' (by simp)
  have hroom : 4 + key.length ≤
      (beEncode 2 group.toNat ++ (beEncode 2 key.length ++ (key ++ ys))).length := by
    simp only [List.length_append, length_beEncode]
    omega
  unfold onKeyShare
  rw [h2, List.take_left' (length_beEncode 2 _), List.drop_left' (length_beEncode 2 _),
    List.take_left' (length_beEncode 2 _), u16_beDecode_beEncode, hlen, if_pos hroom, h4,
    List.take_left]

/-- A hello whose lengths fit their fields. -/
structure ServerHelloParams.Fits (p : ServerHelloParams) : Prop where
  sessionIdEcho : p.sessionIdEcho.length < 2 ^ 8
  keyShare : p.keyShare.length + 14 < 2 ^ 16

theorem length_serverHelloExtensions (p : ServerHelloParams) :
    ((serverHelloExtensions p).flatMap encodeEntry).length = 14 + p.keyShare.length := by
  simp only [serverHelloExtensions, List.flatMap_cons, List.flatMap_nil, List.length_append,
    length_encodeEntry, length_beEncode, List.length_nil]
  omega

theorem length_serverHelloBody (p : ServerHelloParams) :
    (serverHelloBody p).length = 54 + p.sessionIdEcho.length + p.keyShare.length := by
  simp only [serverHelloBody, List.length_append, length_beEncode, length_serverHelloExtensions,
    p.serverRandom.2, List.length_cons, List.length_nil]
  omega

theorem findKeyShare_serverHelloExtensions {p : ServerHelloParams} (hp : p.Fits) {fuel : Nat} :
    findKeyShare (fuel + 2) (0, []) ((serverHelloExtensions p).flatMap encodeEntry) =
      (p.keyShareGroup, p.keyShare) := by
  have hfits : p.keyShare.length < 2 ^ 16 := Nat.lt_of_le_of_lt (Nat.le_add_right _ 14) hp.keyShare
  have hlen : (beEncode 2 p.keyShareGroup.toNat ++
      (beEncode 2 p.keyShare.length ++ p.keyShare)).length = 4 + p.keyShare.length := by
    simp only [List.length_append, length_beEncode]
    omega
  have hentry : Fits (0x0033, beEncode 2 p.keyShareGroup.toNat ++
      (beEncode 2 p.keyShare.length ++ p.keyShare)) := by
    show List.length _ < 2 ^ 16
    rw [hlen]
    have hlt := hp.keyShare
    omega
  have hversions : Fits (0x002b, beEncode 2 0x0304) := by
    show List.length _ < 2 ^ 16
    decide
  rw [serverHelloExtensions, List.flatMap_cons, List.flatMap_cons, List.flatMap_nil,
    findKeyShare_entry hversions, if_neg (by simp), findKeyShare_entry hentry,
    if_pos ⟨rfl, by rw [hlen]; omega⟩, onKeyShare_value hfits]
  cases fuel <;> rfl

/-- A body with any block of extensions. -/
def bodyWith (random : Block 32) (sid : Bytes) (suite : UInt16) (ext : Bytes) : Bytes :=
  [0x03, 0x03] ++ (random.1 ++ ([UInt8.ofNat sid.length] ++
    (sid ++ (beEncode 2 suite.toNat ++ ([0x00] ++ (beEncode 2 ext.length ++ ext))))))

/-- Everything but the extensions is read from its place; the key share is looked for in the block. -/
theorem readServerHello_bodyWith {random : Block 32} {sid ext : Bytes} {suite : UInt16}
    (hlen : sid.length < 2 ^ 8) (hext : ext.length < 2 ^ 16) :
    readServerHello.run' (Parser.new (bodyWith random sid suite ext)) =
      .ok ⟨suite, random, sid, (findKeyShare ext.length (0, []) ext).1,
        (findKeyShare ext.length (0, []) ext).2⟩ := by
  have h0 := Parser.rest_new (bodyWith random sid suite ext)
  have p0 : (Parser.new (bodyWith random sid suite ext)).pos ≤
      (Parser.new (bodyWith random sid suite ext)).buf.length := Nat.zero_le _
  have h2 := Parser.rest_advance (n := 2) h0 rfl
  have p2 := pos_advance_le (n := 2) h0 p0 rfl
  have h34 := Parser.rest_advance h2 random.2
  have p34 := pos_advance_le h2 p2 random.2
  have h35 := Parser.rest_advance (n := 1) h34 rfl
  have p35 := pos_advance_le (n := 1) h34 p34 rfl
  have hs := Parser.rest_advance h35 rfl
  have ps := pos_advance_le h35 p35 rfl
  have hc := Parser.rest_advance hs (length_beEncode 2 _)
  have pc := pos_advance_le hs ps (length_beEncode 2 _)
  have he := Parser.rest_advance (n := 1) hc rfl
  have pe := pos_advance_le (n := 1) hc pc rfl
  have hend := Parser.rest_advance he (length_beEncode 2 _)
  have hsid : beDecode [UInt8.ofNat sid.length] = sid.length := by
    simp only [beDecode, List.foldl_cons, List.foldl_nil, toNat_ofNat_length hlen]
    omega
  have htotal : (UInt16.ofNat ext.length).toNat = ext.length := by
    rw [UInt16.toNat_ofNat']
    exact Nat.mod_eq_of_lt hext
  have hblock := he
  rw [← htotal] at hblock
  rw [readServerHello, run'_bind (takeBytes_run (n := 2) h0 p0 rfl),
    run'_bind (takeBytes_run h2 p2 random.2),
    run'_bind (takeBytes_run (n := 1) h34 p34 rfl), hsid, run'_bind (takeBytes_run h35 p35 rfl),
    run'_bind (takeU16_run hs ps), run'_bind (takeBytes_run (n := 1) hc pc rfl),
    run'_bind (takeU16_run hblock pe), run'_get, hend, htotal, List.take_length]
  simp only [Block.ofList_val]
  rfl

theorem readServerHello_serverHelloBody {p : ServerHelloParams} (hp : p.Fits) :
    readServerHello.run' (Parser.new (serverHelloBody p)) = .ok p := by
  have htotal : ((serverHelloExtensions p).flatMap encodeEntry).length < 2 ^ 16 := by
    have hlt := hp.keyShare
    rw [length_serverHelloExtensions]
    omega
  have hfind : findKeyShare ((serverHelloExtensions p).flatMap encodeEntry).length (0, [])
      ((serverHelloExtensions p).flatMap encodeEntry) = (p.keyShareGroup, p.keyShare) := by
    obtain ⟨fuel, hfuel⟩ : ∃ fuel, ((serverHelloExtensions p).flatMap encodeEntry).length =
        fuel + 2 := ⟨12 + p.keyShare.length, by rw [length_serverHelloExtensions]; omega⟩
    rw [hfuel]
    exact findKeyShare_serverHelloExtensions hp
  have hread := @readServerHello_bodyWith p.serverRandom p.sessionIdEcho _ p.suite
    hp.sessionIdEcho htotal
  rw [hfind] at hread
  exact hread

/-- **A built ServerHello is read back.** -/
theorem parseServerHello_buildServerHello {p : ServerHelloParams} (hp : p.Fits) :
    parseServerHello (buildServerHello p) = .ok p := by
  have hlt : (serverHelloBody p).length < 2 ^ 24 := by
    have hsid := hp.sessionIdEcho
    have hkey := hp.keyShare
    rw [length_serverHelloBody]
    omega
  rw [parseServerHello, buildServerHello, parseHsMsg_self hlt]
  exact readServerHello_serverHelloBody hp

/-- What a hello was read from. -/
theorem parseServerHello_eq_ok {msg : Bytes} {p : ServerHelloParams}
    (h : parseServerHello msg = .ok p) :
    ∃ body, parseHsMsg msg = .ok (0x02, body) ∧ readServerHello.run' (Parser.new body) = .ok p := by
  unfold parseServerHello at h
  cases hmsg : parseHsMsg msg with
  | error err =>
    rw [hmsg] at h
    cases h
  | ok r =>
    obtain ⟨mt, body⟩ := r
    rw [hmsg] at h
    by_cases hmt : mt = 0x02
    · subst hmt
      exact ⟨body, rfl, h⟩
    · have hne : mt ≠ 0x02 := hmt
      simp only [bind, Except.bind, if_pos hne] at h
      cases h

/-- The length of a session id that was read is a byte. -/
theorem length_sessionIdEcho_lt {msg : Bytes} {p : ServerHelloParams}
    (h : parseServerHello msg = .ok p) : p.sessionIdEcho.length < 2 ^ 8 := by
  obtain ⟨body, -, hread⟩ := parseServerHello_eq_ok h
  obtain ⟨_, hrun⟩ := of_run'_eq hread
  obtain ⟨_, _, -, hrun⟩ := bind_eq_ok hrun
  obtain ⟨_, _, -, hrun⟩ := bind_eq_ok hrun
  obtain ⟨sidLen, _, hlen, hrun⟩ := bind_eq_ok hrun
  obtain ⟨sid, _, hsid, hrun⟩ := bind_eq_ok hrun
  obtain ⟨_, _, -, hrun⟩ := bind_eq_ok hrun
  obtain ⟨_, _, -, hrun⟩ := bind_eq_ok hrun
  obtain ⟨_, _, -, hrun⟩ := bind_eq_ok hrun
  rw [run_get] at hrun
  obtain ⟨rfl, -⟩ := pure_eq_ok hrun
  show sid.length < 2 ^ 8
  have hbyte := beDecode_lt sidLen
  rw [takeBytes_eq_ok hlen] at hbyte
  rw [takeBytes_eq_ok hsid]
  exact hbyte

/-- A share of the length that its group asks for. -/
def ShareFits (group : UInt16) (share : Bytes) : Prop :=
  (group = 0x001d ∧ share.length = 32) ∨ (group = 0x11ec ∧ share.length = 1120)

theorem ShareFits.length_le {group : UInt16} {share : Bytes} (h : ShareFits group share) :
    share.length ≤ 1120 := by
  obtain ⟨-, hlen⟩ | ⟨-, hlen⟩ := h
  · omega
  · omega

section

variable {destSh share : Bytes} {p : ServerHelloParams}

/-- **An adapted hello** is the destination's with the new share, and is read as such. -/
theorem adaptServerHello_eq (hparse : parseServerHello destSh = .ok p)
    (hshare : ShareFits p.keyShareGroup share) :
    adaptServerHello destSh share = .ok (buildServerHello { p with keyShare := share }) ∧
      parseServerHello (buildServerHello { p with keyShare := share }) =
        .ok { p with keyShare := share } := by
  have hfits : ({ p with keyShare := share } : ServerHelloParams).Fits := by
    have hsid := length_sessionIdEcho_lt hparse
    refine ⟨hsid, ?_⟩
    show share.length + 14 < 2 ^ 16
    have hle := hshare.length_le
    omega
  refine ⟨?_, parseServerHello_buildServerHello hfits⟩
  rw [adaptServerHello, hparse]
  exact if_pos hshare

theorem length_buildServerHello_lt (hparse : parseServerHello destSh = .ok p)
    (hshare : ShareFits p.keyShareGroup share) :
    (buildServerHello { p with keyShare := share }).length < 2048 := by
  have hsid := length_sessionIdEcho_lt hparse
  have hle := hshare.length_le
  rw [buildServerHello, length_hsMsg, length_serverHelloBody]
  show 4 + (54 + p.sessionIdEcho.length + share.length) < 2048
  omega

end

/-! ## The other messages are read back -/

theorem length_certificateEntry (certDer : Bytes) :
    (certificateEntry certDer).length = certDer.length + 5 := by
  simp only [certificateEntry, List.length_append, length_beEncode, List.length_cons,
    List.length_nil]
  omega

theorem certificateOf_entry {certDer : Bytes} (h : certDer.length + 5 < 2 ^ 24) :
    certificateOf ([0x00] ++ (beEncode 3 (certificateEntry certDer).length ++
      certificateEntry certDer)) = .ok certDer := by
  have hlist : beDecode (beEncode 3 (certificateEntry certDer).length) = certDer.length + 5 := by
    rw [length_certificateEntry]
    exact beDecode_beEncode h
  have hcert : beDecode (beEncode 3 certDer.length) = certDer.length :=
    beDecode_beEncode (by omega)
  generalize hb : [0x00] ++ (beEncode 3 (certificateEntry certDer).length ++
    certificateEntry certDer) = body
  have hlen : body.length = certDer.length + 9 := by
    rw [← hb]
    simp only [List.length_append, length_beEncode, List.length_singleton,
      length_certificateEntry]
    omega
  have hne : body ≠ [] := by
    rintro rfl
    simp at hlen
  have hctx : 1 + (body.getD 0 0).toNat = 1 := by
    rw [← hb]
    rfl
  -- What stands behind the context, and behind each of the two lengths.
  have hdrop1 : body.drop 1 =
      beEncode 3 (certificateEntry certDer).length ++ certificateEntry certDer := by
    rw [← hb]
    rfl
  have hdrop4 : body.drop 4 = certificateEntry certDer := by
    have hstep : body.drop 4 = (body.drop 1).drop 3 := by rw [List.drop_drop]
    rw [hstep, hdrop1, List.drop_left' (length_beEncode 3 _)]
  have hdrop7 : body.drop 7 = certDer ++ [0x00, 0x00] := by
    have hstep : body.drop 7 = (body.drop 4).drop 3 := by rw [List.drop_drop]
    rw [hstep, hdrop4, certificateEntry, List.drop_left' (length_beEncode 3 _)]
  have htake1 : (body.drop 1).take 3 = beEncode 3 (certificateEntry certDer).length := by
    rw [hdrop1, List.take_left' (length_beEncode 3 _)]
  have htake4 : (body.drop 4).take 3 = beEncode 3 certDer.length := by
    rw [hdrop4, certificateEntry, List.take_left' (length_beEncode 3 _)]
  unfold certificateOf
  simp only [if_neg hne, hctx, htake1, hlist, Nat.reduceAdd, htake4, hcert, hdrop7, List.take_left]
  rw [if_neg (by omega), if_neg (by omega), if_neg (by omega), if_neg (by omega)]

theorem length_buildCertificate (certDer : Bytes) :
    (buildCertificate certDer).length = certDer.length + 13 := by
  simp only [buildCertificate, length_hsMsg, List.length_append, length_beEncode,
    List.length_singleton, length_certificateEntry]
  omega

theorem length_buildCertificateVerify (alg : UInt16) (signature : Bytes) :
    (buildCertificateVerify alg signature).length = signature.length + 8 := by
  simp only [buildCertificateVerify, length_hsMsg, List.length_append, length_beEncode]
  omega

theorem length_buildFinished (verifyData : Bytes) :
    (buildFinished verifyData).length = verifyData.length + 4 := by
  rw [buildFinished, length_hsMsg]
  omega

theorem parseCertificate_buildCertificate {certDer : Bytes} (h : certDer.length + 9 < 2 ^ 24) :
    parseCertificate (buildCertificate certDer) = .ok certDer := by
  have hbody : ([0x00] ++ (beEncode 3 (certificateEntry certDer).length ++
      certificateEntry certDer)).length < 2 ^ 24 := by
    simp only [List.length_append, length_beEncode, List.length_singleton,
      length_certificateEntry]
    omega
  have hcert := certificateOf_entry (show certDer.length + 5 < 2 ^ 24 by omega)
  rw [parseCertificate, buildCertificate, parseHsMsg_self hbody]
  simp only [bind, Except.bind, ne_eq, not_true_eq_false, if_false, hcert]

theorem parseCertificateVerify_build {alg : UInt16} {signature : Bytes}
    (h : signature.length < 2 ^ 16) :
    parseCertificateVerify (buildCertificateVerify alg signature) = .ok (alg, signature) := by
  have hslen : beDecode (beEncode 2 signature.length) = signature.length := beDecode_beEncode h
  generalize hb : beEncode 2 alg.toNat ++ (beEncode 2 signature.length ++ signature) = body
  have hlen : body.length = 4 + signature.length := by
    rw [← hb]
    simp only [List.length_append, length_beEncode]
    omega
  have hdrop2 : body.drop 2 = beEncode 2 signature.length ++ signature := by
    rw [← hb, List.drop_left' (length_beEncode 2 _)]
  have hdrop4 : body.drop 4 = signature := by
    have hstep : body.drop 4 = (body.drop 2).drop 2 := by rw [List.drop_drop]
    rw [hstep, hdrop2, List.drop_left' (length_beEncode 2 _)]
  have htake2 : body.take 2 = beEncode 2 alg.toNat := by
    rw [← hb, List.take_left' (length_beEncode 2 _)]
  have hguard : ¬ ((0x0f : UInt8) ≠ 0x0f ∨ body.length < 4) := by
    rintro (hne | hlt)
    · exact hne rfl
    · omega
  rw [buildCertificateVerify, hb, parseCertificateVerify, parseHsMsg_self (by omega)]
  show (if (0x0f : UInt8) ≠ 0x0f ∨ body.length < 4 then _ else _) = _
  rw [if_neg hguard, certificateVerifyOf, htake2, hdrop2, List.take_left' (length_beEncode 2 _),
    u16_beDecode_beEncode, hslen, if_neg (by omega), hdrop4, List.take_length]

theorem parseFinished_buildFinished {verifyData : Bytes} (h : verifyData.length < 2 ^ 24) :
    parseFinished (buildFinished verifyData) = .ok verifyData := by
  rw [parseFinished, buildFinished, parseHsMsg_self h]
  rfl

end Leshiy.Tls
