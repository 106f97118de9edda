import Leshiy.Reality.Auth
import Leshiy.Tls.Messages
import Leshiy.Tls.Sealed

/-!
# The authenticated TLS 1.3 handshake

`leshiy-reality/src/handshake.rs` and the ML-KEM wrapper of `leshiy-tls/src/tls13/mlkem.rs`. The
server answers a ClientHello with the ServerHello it got from the borrowed site, its key share
replaced, and one sealed record that holds the rest of its flight. What it draws at random is an
argument.
-/

namespace Leshiy.Reality

open Leshiy.Lib Leshiy.Tls

/-! ## Primitives and errors -/

/-- All that the handshake is built on. -/
structure Primitives (R DK : Type) extends SuitePrimitives where
  sha512 : HashSuite 64
  x25519 : KeyAgreement (Block 32) (Block 32) (Block 32)
  mlkem : Kem R DK (Block 1184) (Block 1088) (Block 32)
  ed25519 : Signature (Block 32) (Block 32) (Block 64)

structure Primitives.Correct {R DK : Type} (prims : Primitives R DK) : Prop where
  suites : prims.toSuitePrimitives.Correct
  x25519 : prims.x25519.Commutes
  mlkem : prims.mlkem.Correct
  ed25519 : prims.ed25519.Correct

/-- `leshiy-reality/src/error.rs`, the variants the modelled code returns. -/
inductive RealityError where
  | tls (err : TlsError)
  | malformed (detail : String)
  deriving DecidableEq, Repr

/-- `map_err(RealityError::Tls)`. -/
def liftTls {α : Type} : Except TlsError α → Except RealityError α := Except.mapError .tls

def okOr {α : Type} (o : Option α) (detail : String) : Except RealityError α :=
  match o with
  | none => .error (.malformed detail)
  | some a => .ok a

/-- A check that returns early if it fails. -/
def ensure (ok : Bool) (detail : String) : Except RealityError Unit :=
  if ok then .ok () else .error (.malformed detail)

section

variable {α β : Type} {a : α} {detail : String} {f : α → Except RealityError β}

/-! A step that succeeds hands its value on. -/

theorem ok_bind {x : Except RealityError α} (h : x = .ok a) : x >>= f = f a := by
  rw [h]
  rfl

theorem liftTls_bind {x : Except TlsError α} (h : x = .ok a) : liftTls x >>= f = f a := by
  rw [h]
  rfl

theorem okOr_bind {o : Option α} (h : o = some a) : okOr o detail >>= f = f a := by
  rw [h]
  rfl

theorem of_bind_eq_ok {β : Type} {b : β} {x : Except RealityError α} {g : α → Except RealityError β}
    (h : x >>= g = .ok b) : ∃ a, x = .ok a ∧ g a = .ok b := by
  cases x with
  | error e => cases h
  | ok a => exact ⟨a, rfl, h⟩

theorem of_okOr_eq_ok {o : Option α} (h : okOr o detail = .ok a) : o = some a := by
  cases o with
  | none => cases h
  | some b =>
    cases h
    rfl

theorem ensure_bind {ok : Bool} {f : Unit → Except RealityError β} (h : ok = true) :
    ensure ok detail >>= f = f () := by
  rw [h]
  rfl

end

/-! ## The certificate -/

def ED25519_SPKI_PREFIX : Block 12 :=
  ⟨[0x30, 0x2a, 0x30, 0x05, 0x06, 0x03, 0x2b, 0x65, 0x70, 0x03, 0x21, 0x00], rfl⟩

/-- Whether the prefix stands at a place. -/
def spkiAt (der : Bytes) (i : Nat) : Bool := (der.drop i).take 12 == ED25519_SPKI_PREFIX.1

/-- The key behind the first prefix. -/
def extractEd25519Pubkey (der : Bytes) : Option (Block 32) := do
  let i ← (List.range (der.length - 11)).find? (spkiAt der)
  let k := (der.drop (i + 12)).take 32
  if h : k.length = 32 then return ⟨k, h⟩ else none

/-- A certificate as the generator writes it: its first SPKI prefix is followed by the key, and the
last 64 bytes are the signature. -/
structure CertLayout (der : Bytes) (key : Block 32) : Prop where
  parts : ∃ pre post sig, der = pre ++ (ED25519_SPKI_PREFIX.1 ++ (key.1 ++ (post ++ sig))) ∧
    sig.length = 64 ∧ ∀ i < pre.length, spkiAt (pre ++ ED25519_SPKI_PREFIX.1) i = false

section

variable {R DK : Type} (prims : Primitives R DK)

/-- The server's signing key and its certificate. One with a single name has a few hundred bytes;
the bound leaves the whole flight in one record. -/
structure ServerCert where
  derTemplate : Bytes
  signingKey : Block 32
  layout : CertLayout derTemplate (prims.ed25519.pub signingKey)
  fits : derTemplate.length ≤ 2 ^ 13

def hmacSha512 (key data : Bytes) : Block 64 := prims.sha512.hmac key data

variable {prims} in
def ServerCert.publicKeyBytes (cert : ServerCert prims) : Block 32 :=
  prims.ed25519.pub cert.signingKey

variable {prims} in
/-- The certificate with the HMAC of its key in the place of the signature. -/
def ServerCert.signedFor (cert : ServerCert prims) (authKey : Block 32) : Bytes :=
  cert.derTemplate.take (cert.derTemplate.length - 64) ++
    (hmacSha512 prims authKey.1 cert.publicKeyBytes.1).1

variable {prims} in
def ServerCert.signTranscript (cert : ServerCert prims) (content : Bytes) : Bytes :=
  (prims.ed25519.sign cert.signingKey content).1

def verifyEd25519 (pubkey : Block 32) (content sig : Bytes) : Bool :=
  if h : sig.length = 64 then prims.ed25519.verify pubkey content ⟨sig, h⟩ else false

/-! ## ML-KEM -/

def encapsulate (r : R) (ekBytes : Bytes) : Option (Block 1088 × Block 32) :=
  if h : ekBytes.length = 1184 then prims.mlkem.encapsulate r ⟨ekBytes, h⟩ else none

def decapsulate (dk : DK) (ctBytes : Bytes) : Option (Block 32) :=
  if h : ctBytes.length = 1088 then some (prims.mlkem.decapsulate dk ⟨ctBytes, h⟩) else none

/-! ## Sessions -/

structure TlsSession where
  suite : CipherSuite
  clientKey : Block suite.keyLen
  clientIv : Block 12
  serverKey : Block suite.keyLen
  serverIv : Block 12

/-- What the server waits with for the client's Finished. -/
structure ServerHandshake where
  suite : CipherSuite
  clientHsKey : Block suite.keyLen
  clientHsIv : Block 12
  clientFinishedSecret : Block suite.hashLen
  transcriptThroughServerFin : Block suite.hashLen
  session : TlsSession

def CV_CONTEXT : Bytes := utf8Bytes "TLS 1.3, server CertificateVerify" ++ [0x00]

/-- What CertificateVerify signs. -/
def cvContent {suite : CipherSuite} (transcriptHash : Block suite.hashLen) : Bytes :=
  List.replicate 64 0x20 ++ (CV_CONTEXT ++ transcriptHash.1)

/-! ## The server -/

structure ServerDraw (R : Type) where
  sk : Block 32
  mlkem : R

/-- The server's share and the secret it shares with the client. -/
def serverKeyExchange (fields : ClientHelloFields) (group : UInt16) (draw : ServerDraw R) :
    Except RealityError (Bytes × Bytes) :=
  let serverPub := prims.x25519.pub draw.sk
  if group = 0x11ec then do
    let cs ← okOr fields.keyShareMlkem "no mlkem share in client hello"
    let (ct, ssMlkem) ← okOr (encapsulate prims draw.mlkem cs.ek) "mlkem encapsulate failed"
    let ssX := prims.x25519.shared draw.sk cs.x25519
    return (ct.1 ++ serverPub.1, ssMlkem.1 ++ ssX.1)
  else do
    let clientPub ← okOr fields.keyShareX25519 "no x25519 key_share"
    return (serverPub.1, (prims.x25519.shared draw.sk clientPub).1)

/-- The rest of the server's flight, the secrets behind it and the last transcript hash. -/
structure ServerFlight (suite : CipherSuite) where
  hs : Block suite.hashLen
  sHs : Block suite.hashLen
  cHs : Block suite.hashLen
  ee : Bytes
  certMsg : Bytes
  cvMsg : Bytes
  finMsg : Bytes
  thSfin : Block suite.hashLen

variable {prims} in
def serverFlight (suite : CipherSuite) (clientHello sh shared : Bytes) (authKey : Block 32)
    (cert : ServerCert prims) : ServerFlight suite :=
  let s := prims.toSuitePrimitives
  let tr := ((Transcript.new suite).update clientHello).update sh
  let thChsh := tr.hash s
  let early := earlySecret s suite
  let hs := handshakeSecret s suite early shared
  let sHs := serverHsTraffic s suite hs thChsh
  let cHs := clientHsTraffic s suite hs thChsh
  let ee := buildEncryptedExtensions none
  let tr := tr.update ee
  let certMsg := buildCertificate (cert.signedFor authKey)
  let tr := tr.update certMsg
  let cvMsg := buildCertificateVerify 0x0807 (cert.signTranscript (cvContent (tr.hash s)))
  let tr := tr.update cvMsg
  let finMsg := buildFinished (finishedVerifyData s suite sHs (tr.hash s)).1
  let tr := tr.update finMsg
  { hs, sHs, cHs, ee, certMsg, cvMsg, finMsg, thSfin := tr.hash s }

/-- The application keys of a handshake secret and the transcript through the server's Finished. -/
def serverSession (suite : CipherSuite) (hs thSfin : Block suite.hashLen) : TlsSession :=
  let s := prims.toSuitePrimitives
  let master := masterSecret s suite hs
  let client := trafficKey s suite (clientApTraffic s suite master thSfin)
  let server := trafficKey s suite (serverApTraffic s suite master thSfin)
  ⟨suite, client.1, client.2, server.1, server.2⟩

/-- What the server goes on with from its flight. -/
def ServerFlight.state {suite : CipherSuite} (f : ServerFlight suite) : ServerHandshake :=
  let cHsKey := trafficKey prims.toSuitePrimitives suite f.cHs
  { suite
    clientHsKey := cHsKey.1
    clientHsIv := cHsKey.2
    clientFinishedSecret := f.cHs
    transcriptThroughServerFin := f.thSfin
    session := serverSession prims suite f.hs f.thSfin }

/-- The text of the sealed record. -/
def ServerFlight.inner {suite : CipherSuite} (f : ServerFlight suite) : Bytes :=
  f.ee ++ (f.certMsg ++ (f.cvMsg ++ f.finMsg))

variable {prims} in
/-- The handshake up to the server's Finished: what it waits with, and the flight. The record of
the hello is written as `encode` writes it, which never panics here (`encode_serverHello`). -/
def serverHandshake (clientHello destServerHello : Bytes) (authKey : Block 32)
    (cert : ServerCert prims) (draw : ServerDraw R) :
    Except RealityError (ServerHandshake × Bytes) := do
  let s := prims.toSuitePrimitives
  let fields ← liftTls (extractClientHelloFields clientHello)
  let shParams ← liftTls (parseServerHello destServerHello)
  let suite ← okOr (CipherSuite.fromU16 shParams.suite) "bad suite"
  let (serverShare, shared) ← serverKeyExchange prims fields shParams.keyShareGroup draw
  let sh ← liftTls (adaptServerHello destServerHello serverShare)
  let f := serverFlight suite clientHello sh shared authKey cert
  let sHsKey := trafficKey s suite f.sHs
  let enc ← liftTls (sealRecord s suite sHsKey.1 sHsKey.2 0 0x16 f.inner)
  return (f.state prims, (Record.mk HANDSHAKE sh).withVersion 0x03 0x03 ++ enc)

/-- The client's Finished. -/
def ServerHandshake.finish (h : ServerHandshake) (clientFinishedRecord : Bytes) :
    Except RealityError TlsSession := do
  let s := prims.toSuitePrimitives
  let (innerType, msg) ← liftTls (openRecord s h.suite h.clientHsKey h.clientHsIv 0
    clientFinishedRecord)
  ensure (innerType == 0x16) "expected handshake"
  let vd ← liftTls (parseFinished msg)
  let expected := finishedVerifyData s h.suite h.clientFinishedSecret h.transcriptThroughServerFin
  ensure (vd == expected.1) "client Finished mismatch"
  return h.session

/-! ## The client -/

structure ClientHandshakeOut where
  session : TlsSession
  clientFinishedRecord : Bytes

/-- The secret the client shares with the server. -/
def clientKeyExchange (shParams : ServerHelloParams) (ephem : Block 32) (mlkemDk : DK) :
    Except RealityError Bytes :=
  if shParams.keyShareGroup = 0x11ec then do
    ensure (shParams.keyShare.length == 1120) "bad mlkem server share length (expected 1120)"
    let ct := shParams.keyShare.take 1088
    let serverX := Block.ofList 32 (shParams.keyShare.drop 1088)
    let ssMlkem ← okOr (decapsulate prims mlkemDk ct) "mlkem decapsulate failed"
    return ssMlkem.1 ++ (prims.x25519.shared ephem serverX).1
  else do
    ensure (shParams.keyShareGroup == 0x001d && shParams.keyShare.length == 32)
      "server key_share not x25519 or mlkem"
    let serverPub := Block.ofList 32 shParams.keyShare
    return (prims.x25519.shared ephem serverPub).1

/-- The message at the front, and what follows it. -/
def nextMsg (buf : Bytes) : Except RealityError (Bytes × Bytes) := do
  let (_, body) ← liftTls (parseHsMsg buf)
  let total := 4 + body.length
  return (buf.take total, buf.drop total)

/-- The sealed part of the flight: identity, CertificateVerify and Finished are checked in turn,
each against the transcript before it. -/
def clientFlight (suite : CipherSuite) (clientHello sh shared enc : Bytes) (authKey : Block 32) :
    Except RealityError ClientHandshakeOut := do
  let s := prims.toSuitePrimitives
  let tr := ((Transcript.new suite).update clientHello).update sh
  let thChsh := tr.hash s
  let early := earlySecret s suite
  let hs := handshakeSecret s suite early shared
  let sHs := serverHsTraffic s suite hs thChsh
  let cHs := clientHsTraffic s suite hs thChsh
  let sHsKey := trafficKey s suite sHs
  let cHsKey := trafficKey s suite cHs
  let (it, inner) ← liftTls (openRecord s suite sHsKey.1 sHsKey.2 0 enc)
  ensure (it == 0x16) "expected handshake"
  let (ee, rest) ← nextMsg inner
  let tr := tr.update ee
  let (certMsg, rest) ← nextMsg rest
  let der ← liftTls (parseCertificate certMsg)
  let tr := tr.update certMsg
  let certPub ← okOr (extractEd25519Pubkey der) "no ed25519 pubkey"
  ensure (64 ≤ der.length && (hmacSha512 prims authKey.1 certPub.1).1 == der.drop (der.length - 64))
    "server identity (HMAC) mismatch"
  let (cvMsg, rest) ← nextMsg rest
  let (alg, sig) ← liftTls (parseCertificateVerify cvMsg)
  ensure (alg == 0x0807 && verifyEd25519 prims certPub (cvContent (tr.hash s)) sig)
    "CertVerify failed"
  let tr := tr.update cvMsg
  let (finMsg, _) ← nextMsg rest
  let sVd ← liftTls (parseFinished finMsg)
  let expected := finishedVerifyData s suite sHs (tr.hash s)
  ensure (sVd == expected.1) "server Finished mismatch"
  let tr := tr.update finMsg
  let thSfin := tr.hash s
  let master := masterSecret s suite hs
  let client := trafficKey s suite (clientApTraffic s suite master thSfin)
  let server := trafficKey s suite (serverApTraffic s suite master thSfin)
  let cFinMsg := buildFinished (finishedVerifyData s suite cHs thSfin).1
  let cFinRec ← liftTls (sealRecord s suite cHsKey.1 cHsKey.2 0 0x16 cFinMsg)
  return ⟨⟨suite, client.1, client.2, server.1, server.2⟩, cFinRec⟩

def clientHandshake (clientHello serverFlight : Bytes) (ephem authKey : Block 32) (mlkemDk : DK) :
    Except RealityError ClientHandshakeOut := do
  let (shRec, consumed) ← liftTls (Record.decode serverFlight)
  ensure (shRec.contentType == HANDSHAKE) "expected SH record"
  let sh := shRec.payload
  let shParams ← liftTls (parseServerHello sh)
  let suite ← okOr (CipherSuite.fromU16 shParams.suite) "bad suite"
  let shared ← clientKeyExchange prims shParams ephem mlkemDk
  clientFlight prims suite clientHello sh shared (serverFlight.drop consumed) authKey

end

/-! ## What the two sides have in common -/

section

variable {R DK : Type} {prims : Primitives R DK}

theorem nextMsg_hsMsg {msgType : UInt8} {body : Bytes} (h : (hsMsg msgType body).length < 2 ^ 24)
    (rest : Bytes) : nextMsg (hsMsg msgType body ++ rest) = .ok (hsMsg msgType body, rest) := by
  have htotal : (hsMsg msgType body).length = 4 + body.length := length_hsMsg _ _
  rw [nextMsg, parseHsMsg_hsMsg (by omega)]
  show Except.ok (List.take (4 + body.length) _, List.drop (4 + body.length) _) = _
  rw [← htotal, List.take_left, List.drop_left]

namespace ServerCert

variable (cert : ServerCert prims) (authKey : Block 32)

/-- The certificate of a connection, as the client looks into it. -/
theorem signedFor_eq : ∃ pre post, cert.signedFor authKey = pre ++ (ED25519_SPKI_PREFIX.1 ++
      (cert.publicKeyBytes.1 ++ (post ++ (hmacSha512 prims authKey.1 cert.publicKeyBytes.1).1))) ∧
    (∀ i < pre.length, spkiAt (pre ++ ED25519_SPKI_PREFIX.1) i = false) ∧
    (cert.signedFor authKey).length = cert.derTemplate.length := by
  obtain ⟨pre, post, sig, hder, hsig, hfirst⟩ := cert.layout.parts
  have hassoc : cert.derTemplate =
      (pre ++ (ED25519_SPKI_PREFIX.1 ++ (cert.publicKeyBytes.1 ++ post))) ++ sig := by
    rw [hder]
    simp only [List.append_assoc]
    rfl
  have hlen : cert.derTemplate.length - 64 =
      (pre ++ (ED25519_SPKI_PREFIX.1 ++ (cert.publicKeyBytes.1 ++ post))).length := by
    rw [hassoc, List.length_append, hsig]
    omega
  refine ⟨pre, post, ?_, hfirst, ?_⟩
  · rw [signedFor, hlen, hassoc, List.take_left]
    simp only [List.append_assoc]
  · rw [signedFor, List.length_append, List.length_take, (hmacSha512 prims _ _).2, hassoc,
      List.length_append, hsig]
    omega

theorem length_signedFor : (cert.signedFor authKey).length = cert.derTemplate.length := by
  obtain ⟨-, -, -, -, hlen⟩ := cert.signedFor_eq authKey
  exact hlen

/-- The client finds the server's key. -/
theorem extractEd25519Pubkey_signedFor :
    extractEd25519Pubkey (cert.signedFor authKey) = some cert.publicKeyBytes := by
  obtain ⟨pre, post, hder, hfirst, -⟩ := cert.signedFor_eq authKey
  have hspki := ED25519_SPKI_PREFIX.2
  have hkey := cert.publicKeyBytes.2
  have hdrop : (cert.signedFor authKey).drop pre.length = ED25519_SPKI_PREFIX.1 ++
      (cert.publicKeyBytes.1 ++ (post ++ (hmacSha512 prims authKey.1 cert.publicKeyBytes.1).1)) := by
    rw [hder, List.drop_left]
  have hat : spkiAt (cert.signedFor authKey) pre.length = true := by
    rw [spkiAt, hdrop, List.take_left' hspki]
    exact beq_self_eq_true _
  -- Before the first prefix a window ends in the prefix at the latest.
  have hbefore : ∀ i < pre.length, spkiAt (cert.signedFor authKey) i = false := by
    intro i hi
    have hwindow : ((cert.signedFor authKey).drop i).take 12 =
        ((pre ++ ED25519_SPKI_PREFIX.1).drop i).take 12 := by
      rw [hder, ← List.append_assoc, List.drop_append_of_le_length (by simp; omega),
        List.take_append_of_le_length (by simp [hspki]; omega)]
    rw [spkiAt, hwindow]
    exact hfirst i hi
  have hmem : pre.length ∈ List.range ((cert.signedFor authKey).length - 11) := by
    rw [List.mem_range, hder]
    simp only [List.length_append, hspki, hkey]
    omega
  have hfind : (List.range ((cert.signedFor authKey).length - 11)).find?
      (spkiAt (cert.signedFor authKey)) = some pre.length := by
    rw [List.find?_range_eq_some]
    exact ⟨hat, hmem, fun i hi => by simp [hbefore i hi]⟩
  have hbytes : ((cert.signedFor authKey).drop (pre.length + 12)).take 32 =
      cert.publicKeyBytes.1 := by
    rw [← List.drop_drop, hdrop, List.drop_left' hspki, List.take_left' hkey]
  simp only [extractEd25519Pubkey, hfind, Option.bind_eq_bind, Option.bind_some]
  rw [dif_pos (by rw [hbytes]; exact hkey)]
  exact congrArg some (Subtype.ext hbytes)

theorem le_length_signedFor : 64 ≤ (cert.signedFor authKey).length := by
  rw [signedFor, List.length_append, (hmacSha512 prims authKey.1 cert.publicKeyBytes.1).2]
  exact Nat.le_add_left _ _

/-- The certificate ends with the HMAC that the client computes. -/
theorem drop_signedFor : (cert.signedFor authKey).drop ((cert.signedFor authKey).length - 64) =
    (hmacSha512 prims authKey.1 cert.publicKeyBytes.1).1 := by
  have hmac := (hmacSha512 prims authKey.1 cert.publicKeyBytes.1).2
  rw [signedFor, List.length_append, hmac, Nat.add_sub_cancel, List.drop_left]

theorem length_signTranscript (content : Bytes) : (cert.signTranscript content).length = 64 :=
  (prims.ed25519.sign cert.signingKey content).2

theorem verify_signTranscript (hcorrect : prims.ed25519.Correct) (content : Bytes) :
    verifyEd25519 prims cert.publicKeyBytes content (cert.signTranscript content) = true := by
  rw [verifyEd25519, dif_pos (cert.length_signTranscript content)]
  exact hcorrect cert.signingKey content

end ServerCert

/-! ## Key exchange -/

/-- A hello with both shares of one client: its plain one, and the hybrid one. -/
structure ClientShares (prims : Primitives R DK) (fields : ClientHelloFields) (ephem : Block 32)
    (r : R) : Prop where
  plain : fields.keyShareX25519 = some (prims.x25519.pub ephem)
  hybrid : fields.keyShareMlkem = some ⟨(prims.mlkem.generate r).2.1, prims.x25519.pub ephem⟩

/-- **Both sides share the same secret**, with the share that the server sends. -/
theorem keyExchange_agree (hcorrect : prims.Correct) {fields : ClientHelloFields} {ephem : Block 32}
    {r : R} (hshares : ClientShares prims fields ephem r) {p : ServerHelloParams}
    (hgroup : p.keyShareGroup = 0x001d ∨ p.keyShareGroup = 0x11ec) (draw : ServerDraw R) :
    ∃ share shared, serverKeyExchange prims fields p.keyShareGroup draw = .ok (share, shared) ∧
      ShareFits p.keyShareGroup share ∧
      clientKeyExchange prims { p with keyShare := share } ephem (prims.mlkem.generate r).1 =
        .ok shared := by
  have hpub := (prims.x25519.pub draw.sk).2
  have hdh := hcorrect.x25519 draw.sk ephem
  obtain hgroup | hgroup := hgroup
  · have hne : ¬ p.keyShareGroup = 0x11ec := by
      rw [hgroup]
      decide
    refine ⟨(prims.x25519.pub draw.sk).1, (prims.x25519.shared draw.sk (prims.x25519.pub ephem)).1,
      ?_, .inl ⟨hgroup, hpub⟩, ?_⟩
    · rw [serverKeyExchange, if_neg hne, hshares.plain]
      rfl
    · rw [clientKeyExchange, if_neg hne]
      simp only [hgroup, hpub, Block.ofList_val, ← hdh]
      rfl
  · obtain ⟨ct, ss, henc, hdec⟩ := hcorrect.mlkem r draw.mlkem
    have hlen : (ct.1 ++ (prims.x25519.pub draw.sk).1).length = 1120 := by
      rw [List.length_append, ct.2, hpub]
    have henc' : encapsulate prims draw.mlkem (prims.mlkem.generate r).2.1 = some (ct, ss) := by
      rw [encapsulate, dif_pos (prims.mlkem.generate r).2.2]
      exact henc
    have hdec' : decapsulate prims (prims.mlkem.generate r).1 ct.1 = some ss := by
      rw [decapsulate, dif_pos ct.2]
      exact congrArg some hdec
    refine ⟨ct.1 ++ (prims.x25519.pub draw.sk).1,
      ss.1 ++ (prims.x25519.shared draw.sk (prims.x25519.pub ephem)).1,
      ?_, .inr ⟨hgroup, hlen⟩, ?_⟩
    · rw [serverKeyExchange, if_pos hgroup, hshares.hybrid]
      show (okOr (encapsulate _ _ _) _ >>= _) = _
      rw [henc']
      rfl
    · rw [clientKeyExchange, if_pos hgroup]
      simp only [hlen, List.take_left' ct.2, List.drop_left' ct.2, Block.ofList_val, hdec', ← hdh]
      rfl

/-! ## The flight -/

section

variable (suite : CipherSuite) (clientHello sh shared : Bytes) (authKey : Block 32)
  (cert : ServerCert prims)

theorem length_certMsg : (serverFlight suite clientHello sh shared authKey cert).certMsg.length =
    cert.derTemplate.length + 13 := by
  refine (length_buildCertificate _).trans ?_
  rw [cert.length_signedFor]

theorem length_cvMsg : (serverFlight suite clientHello sh shared authKey cert).cvMsg.length = 72 := by
  refine (length_buildCertificateVerify 0x0807 _).trans ?_
  rw [cert.length_signTranscript]

theorem length_finMsg : (serverFlight suite clientHello sh shared authKey cert).finMsg.length =
    suite.hashLen + 4 := by
  refine (length_buildFinished _).trans ?_
  rw [(finishedVerifyData prims.toSuitePrimitives suite _ _).2]

/-- The flight fits one record. -/
theorem length_inner_lt :
    (serverFlight suite clientHello sh shared authKey cert).inner.length + 17 < 2 ^ 14 := by
  have hee : (serverFlight suite clientHello sh shared authKey cert).ee.length = 6 := rfl
  have hfits := cert.fits
  have hhash := suite.hashLen_le
  rw [ServerFlight.inner, List.length_append, List.length_append, List.length_append, hee,
    length_certMsg, length_cvMsg, length_finMsg]
  omega

/-- The messages are taken one behind the other. -/
theorem nextMsg_inner :
    let f := serverFlight suite clientHello sh shared authKey cert
    nextMsg f.inner = .ok (f.ee, f.certMsg ++ (f.cvMsg ++ f.finMsg)) ∧
      nextMsg (f.certMsg ++ (f.cvMsg ++ f.finMsg)) = .ok (f.certMsg, f.cvMsg ++ f.finMsg) ∧
      nextMsg (f.cvMsg ++ f.finMsg) = .ok (f.cvMsg, f.finMsg) ∧
      nextMsg f.finMsg = .ok (f.finMsg, []) := by
  intro f
  have hfits := cert.fits
  have hhash := suite.hashLen_le
  have hcertLen := length_certMsg suite clientHello sh shared authKey cert
  have hcvLen := length_cvMsg suite clientHello sh shared authKey cert
  have hfinLen := length_finMsg suite clientHello sh shared authKey cert
  refine ⟨nextMsg_hsMsg (by decide) _, nextMsg_hsMsg (Nat.lt_of_le_of_lt hcertLen.le (by omega)) _,
    nextMsg_hsMsg (Nat.lt_of_le_of_lt hcvLen.le (by decide)) _, ?_⟩
  have hfin := nextMsg_hsMsg (Nat.lt_of_le_of_lt hfinLen.le (by omega)) []
  rwa [List.append_nil] at hfin

/-- **The client accepts the server's flight**: it opens to the messages, each of which is as the
client expects it, and both come to the same session. -/
theorem clientFlight_serverFlight (hcorrect : prims.Correct) :
    let s := prims.toSuitePrimitives
    let f := serverFlight suite clientHello sh shared authKey cert
    let sHsKey := trafficKey s suite f.sHs
    let cHsKey := trafficKey s suite f.cHs
    ∃ enc finRec, sealRecord s suite sHsKey.1 sHsKey.2 0 0x16 f.inner = .ok enc ∧
      clientFlight prims suite clientHello sh shared enc authKey =
        .ok ⟨serverSession prims suite f.hs f.thSfin, finRec⟩ ∧
      openRecord s suite cHsKey.1 cHsKey.2 0 finRec =
        .ok (0x16, buildFinished (finishedVerifyData s suite f.cHs f.thSfin).1) := by
  intro s f sHsKey cHsKey
  have hlen := length_inner_lt suite clientHello sh shared authKey cert
  have hfits := cert.fits
  have hhash := suite.hashLen_le
  have hfin : (buildFinished (finishedVerifyData s suite f.cHs f.thSfin).1).length + 17 <
      2 ^ 16 := by
    rw [length_buildFinished, (finishedVerifyData s suite f.cHs f.thSfin).2]
    omega
  obtain ⟨enc, hseal, hopen⟩ : ∃ enc, sealRecord s suite sHsKey.1 sHsKey.2 0 0x16 f.inner = .ok enc ∧
      openRecord s suite sHsKey.1 sHsKey.2 0 enc = .ok (0x16, f.inner) :=
    openRecord_sealRecord hcorrect.suites (hlen.trans (by decide)) (by decide)
  obtain ⟨finRec, hfinSeal, hfinOpen⟩ : ∃ finRec, sealRecord s suite cHsKey.1 cHsKey.2 0 0x16
        (buildFinished (finishedVerifyData s suite f.cHs f.thSfin).1) = .ok finRec ∧
      openRecord s suite cHsKey.1 cHsKey.2 0 finRec =
        .ok (0x16, buildFinished (finishedVerifyData s suite f.cHs f.thSfin).1) :=
    openRecord_sealRecord hcorrect.suites hfin (by decide)
  refine ⟨enc, finRec, hseal, ?_, hfinOpen⟩
  obtain ⟨hee, hcert, hcv, hfinMsg⟩ := nextMsg_inner suite clientHello sh shared authKey cert
  -- What each of them says.
  have hder : parseCertificate f.certMsg = .ok (cert.signedFor authKey) :=
    parseCertificate_buildCertificate (by rw [cert.length_signedFor]; omega)
  have hid : (decide (64 ≤ (cert.signedFor authKey).length) &&
      (hmacSha512 prims authKey.1 cert.publicKeyBytes.1).1 ==
        (cert.signedFor authKey).drop ((cert.signedFor authKey).length - 64)) = true := by
    rw [cert.drop_signedFor, beq_self_eq_true, Bool.and_true]
    exact decide_eq_true (cert.le_length_signedFor authKey)
  have hsig : parseCertificateVerify f.cvMsg = .ok (0x0807, _) :=
    parseCertificateVerify_build (by rw [cert.length_signTranscript]; decide)
  have hvd : parseFinished f.finMsg = .ok _ := parseFinished_buildFinished (by
    rw [(finishedVerifyData s suite _ _).2]
    omega)
  -- The client's steps in their order. Behind each message its transcript is the server's.
  refine (liftTls_bind hopen).trans ?_
  refine (ensure_bind rfl).trans ?_
  refine (ok_bind hee).trans ?_
  refine (ok_bind hcert).trans ?_
  refine (liftTls_bind hder).trans ?_
  refine (okOr_bind (cert.extractEd25519Pubkey_signedFor authKey)).trans ?_
  refine (ensure_bind hid).trans ?_
  refine (ok_bind hcv).trans ?_
  refine (liftTls_bind hsig).trans ?_
  refine (ensure_bind (cert.verify_signTranscript hcorrect.ed25519 _)).trans ?_
  refine (ok_bind hfinMsg).trans ?_
  refine (liftTls_bind hvd).trans ?_
  refine (ensure_bind (beq_self_eq_true _)).trans ?_
  exact liftTls_bind hfinSeal

end

/-! ## Both sides together -/

section

variable {destServerHello share : Bytes} {p : ServerHelloParams}

/-- An adapted hello is short. -/
theorem length_serverHello_le (hparse : parseServerHello destServerHello = .ok p)
    (hshare : ShareFits p.keyShareGroup share) :
    (buildServerHello { p with keyShare := share }).length ≤ MAX_RECORD_ON_WIRE :=
  (length_buildServerHello_lt hparse hshare).le.trans (by decide)

/-- The record of the hello fits its length field. -/
theorem encode_serverHello (hparse : parseServerHello destServerHello = .ok p)
    (hshare : ShareFits p.keyShareGroup share) :
    (Record.mk HANDSHAKE (buildServerHello { p with keyShare := share })).encode =
      some ((Record.mk HANDSHAKE (buildServerHello { p with keyShare := share })).withVersion
        0x03 0x03) :=
  if_pos (Nat.lt_of_le_of_lt (length_serverHello_le hparse hshare) (by decide))

variable {clientHello : Bytes} {fields : ClientHelloFields} {ephem : Block 32} {r : R}
  {suite : CipherSuite}

/-- **Client and server agree.** For a hello with the client's shares and a ServerHello of a known
suite and group, the client accepts the server's flight, the server accepts the client's Finished,
and both have the same session. -/
theorem handshake_agree (hcorrect : prims.Correct)
    (hfields : extractClientHelloFields clientHello = .ok fields)
    (hshares : ClientShares prims fields ephem r)
    (hparse : parseServerHello destServerHello = .ok p)
    (hgroup : p.keyShareGroup = 0x001d ∨ p.keyShareGroup = 0x11ec)
    (hsuite : CipherSuite.fromU16 p.suite = some suite) (authKey : Block 32)
    (cert : ServerCert prims) (draw : ServerDraw R) :
    ∃ state flight out,
      serverHandshake clientHello destServerHello authKey cert draw = .ok (state, flight) ∧
      clientHandshake prims clientHello flight ephem authKey (prims.mlkem.generate r).1 = .ok out ∧
      state.finish prims out.clientFinishedRecord = .ok out.session ∧
      out.session.suite = suite := by
  obtain ⟨share, shared, hserver, hshare, hclient⟩ := keyExchange_agree hcorrect hshares hgroup draw
  obtain ⟨hadapt, hadapted⟩ := adaptServerHello_eq hparse hshare
  have hlen := length_serverHello_le hparse hshare
  generalize buildServerHello { p with keyShare := share } = sh at hadapt hadapted hlen
  obtain ⟨enc, finRec, hseal, hflight, hfin⟩ :=
    clientFlight_serverFlight suite clientHello sh shared authKey cert hcorrect
  have hrecord : Record.decode ((Record.mk HANDSHAKE sh).withVersion 0x03 0x03 ++ enc) =
      .ok (_, _) := decode_withVersion hlen
  let f := serverFlight suite clientHello sh shared authKey cert
  refine ⟨f.state prims, (Record.mk HANDSHAKE sh).withVersion 0x03 0x03 ++ enc,
    ⟨serverSession prims suite f.hs f.thSfin, finRec⟩, ?_, ?_, ?_, rfl⟩
  · refine (liftTls_bind hfields).trans ?_
    refine (liftTls_bind hparse).trans ?_
    refine (okOr_bind hsuite).trans ?_
    refine (ok_bind hserver).trans ?_
    refine (liftTls_bind hadapt).trans ?_
    exact liftTls_bind hseal
  · refine (liftTls_bind hrecord).trans ?_
    refine (ensure_bind rfl).trans ?_
    refine (liftTls_bind hadapted).trans ?_
    refine (okOr_bind hsuite).trans ?_
    refine (ok_bind hclient).trans ?_
    rw [List.drop_left]
    exact hflight
  · refine (liftTls_bind hfin).trans ?_
    refine (ensure_bind rfl).trans ?_
    refine (liftTls_bind (parseFinished_buildFinished ?_)).trans ?_
    · rw [(finishedVerifyData _ suite _ _).2]
      have hhash := suite.hashLen_le
      omega
    exact ensure_bind (beq_self_eq_true _)

end

end

end Leshiy.Reality
