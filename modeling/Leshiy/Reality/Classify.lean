import Mathlib.Data.Finset.Basic
import Leshiy.Lib.Duration
import Leshiy.Reality.Auth

/-!
# Authenticated hellos

`build_authed_client_hello` (`leshiy-reality/src/client.rs`) and `classify_full` (`server.rs`), over
the primitives they use. What the client draws at random is an argument.
-/

namespace Leshiy.Reality

open Leshiy.Lib Leshiy.Tls

/-! ## Configuration -/

/-- What is read of the server's configuration when a connection comes in. (`short_ids` is not:
the user store is the registry.) -/
structure ServerAuthConfig where
  staticSecret : Block 32
  serverNames : Finset String
  maxTimeDiff : Duration
  dest : String
  /-- The borrowed sites of single names. -/
  destBySni : String → Option String
  /-- The secret of MTProxy clients, if they are served. -/
  mtproxy : Option (Block 16)

def ServerAuthConfig.sniAllowed (cfg : ServerAuthConfig) (sni : String) : Bool :=
  sni ∈ cfg.serverNames

def ServerAuthConfig.destFor (cfg : ServerAuthConfig) (sni : Option String) : String :=
  (sni.bind cfg.destBySni).getD cfg.dest

structure ClientAuthConfig where
  serverPublic : Block 32
  shortId : Block 8
  sni : String

/-! ## The client -/

def LESHIY_VERSION : Block 3 := ⟨[1, 0, 0], rfl⟩

/-- What the client draws for one hello: the x25519 secret, the randomness of the ML-KEM keys,
the hello's random and the entropy of its camouflage. -/
structure ClientDraw (R : Type) where
  ephem : Block 32
  mlkem : R
  chRandom : Block 32
  entropy : Block 32

section

variable {R DK : Type} (sha256 : HashSuite 32) (aes256Gcm : Aead (Block 32) (Block 12))
  (x25519 : KeyAgreement (Block 32) (Block 32) (Block 32))
  (mlkem : Kem R DK (Block 1184) (Block 1088) (Block 32))

/-- What the hello of a draw is built from. -/
def helloParams (profile : Profile) (cfg : ClientAuthConfig) (draw : ClientDraw R) :
    HelloParams where
  profile := profile
  sni := cfg.sni
  x25519Pub := x25519.pub draw.ephem
  mlkemEk := (mlkem.generate draw.mlkem).2
  random := draw.chRandom
  entropy := draw.entropy

def authPayload (cfg : ClientAuthConfig) (nowSecs : UInt32) : AuthPayload where
  version := LESHIY_VERSION
  unixSecs := nowSecs
  shortId := cfg.shortId

/-- The client's key: shared with what it takes for the server's public key. -/
def clientAuthKey (cfg : ClientAuthConfig) (draw : ClientDraw R) : Block 32 :=
  deriveAuthKey sha256 (x25519.shared draw.ephem cfg.serverPublic) draw.chRandom

/-- The hello, the x25519 secret and the decapsulation key; `none` where the source panics. -/
def buildAuthedClientHello (profile : Profile) (cfg : ClientAuthConfig) (nowSecs : UInt32)
    (draw : ClientDraw R) : Option (Bytes × Block 32 × DK) := do
  let ch := buildClientHelloWithEntropy sha256 (helloParams x25519 mlkem profile cfg draw)
  let aad := aadFromClientHello ch
  let sid ← sealSessionId aes256Gcm (clientAuthKey sha256 x25519 cfg draw) draw.chRandom
    (authPayload cfg nowSecs) aad
  let stop := min (SID_OFFSET + 32) ch.length
  let ch := ch.take SID_OFFSET ++ (sid.1.take (stop - SID_OFFSET) ++ ch.drop stop)
  return (ch, draw.ephem, (mlkem.generate draw.mlkem).1)

/-! ## The server -/

inductive ClassificationFull where
  | authed (shortId : Block 8) (clientTime : UInt32) (authKey : Block 32)
  | unauthed
  deriving DecidableEq

/-- The server's key: shared with the key share of the hello. -/
def serverAuthKey (cfg : ServerAuthConfig) (clientPub chRandom : Block 32) : Block 32 :=
  deriveAuthKey sha256 (x25519.shared cfg.staticSecret clientPub) chRandom

/-- All checks are made before any of them decides, so that they take the same time. -/
def classifyFull (ch : Bytes) (cfg : ServerAuthConfig) (nowSecs : UInt32) : ClassificationFull :=
  match extractClientHelloFields ch with
  | .error _ => .unauthed
  | .ok fields =>
    let sniOk := fields.sni.any cfg.sniAllowed
    let sessionOk := fields.sessionId.length = 32
    let keyshareOk := fields.keyShareX25519.isSome
    -- A dummy stands in for a missing key share, and zeros for a missing end of the session id.
    let clientPub := fields.keyShareX25519.getD (Block.fill 32 0x09)
    let authKey := serverAuthKey sha256 x25519 cfg clientPub fields.random
    let aad := aadFromClientHello ch
    let sid := Block.ofList 32 fields.sessionId
    match openSessionId aes256Gcm authKey fields.random sid aad with
    | none => .unauthed
    | some pt =>
      if sniOk && sessionOk && keyshareOk then
        let payload := AuthPayload.decode pt
        if cfg.maxTimeDiff.asSecs < absDiff nowSecs payload.unixSecs then .unauthed
        else .authed payload.shortId payload.unixSecs authKey
      else .unauthed

end

/-! ## What the client sends -/

section

variable {R DK : Type} {sha256 : HashSuite 32} {aes256Gcm : Aead (Block 32) (Block 12)}
  {x25519 : KeyAgreement (Block 32) (Block 32) (Block 32)}
  {mlkem : Kem R DK (Block 1184) (Block 1088) (Block 32)}

/-- Writing a session id over the one that is there. -/
theorem splice_sessionId (h : HelloParams) (sid : Block 32) {old : Bytes} (hold : old.length = 32) :
    let ch := h.withSessionId sha256 old
    let stop := min (SID_OFFSET + 32) ch.length
    ch.take SID_OFFSET ++ (sid.1.take (stop - SID_OFFSET) ++ ch.drop stop) =
      h.withSessionId sha256 sid.1 := by
  obtain ⟨pre, post, hpre, hsplit⟩ := withSessionId_split sha256 h
  have hhead : (pre ++ [32]).length = SID_OFFSET := by simp [hpre, SID_OFFSET]
  have hassoc : pre ++ ([32] ++ (old ++ post)) = (pre ++ [32]) ++ (old ++ post) := by simp
  have hfront : ((pre ++ [32]) ++ old).length = SID_OFFSET + 32 := by
    rw [List.length_append, hhead, hold]
  have hstop : min (SID_OFFSET + 32) (h.withSessionId sha256 old).length = SID_OFFSET + 32 := by
    rw [hsplit old hold, hassoc, ← List.append_assoc, List.length_append, hfront]
    omega
  have hsub : SID_OFFSET + 32 - SID_OFFSET = 32 := by omega
  have hdrop : ((pre ++ [32]) ++ (old ++ post)).drop (SID_OFFSET + 32) = post := by
    rw [← List.append_assoc]
    exact List.drop_left' hfront
  simp only [hstop, hsub]
  rw [hsplit old hold, hsplit sid.1 sid.2, hassoc, List.take_left' hhead,
    List.take_of_length_le sid.2.le, hdrop]
  simp

/-- The hello over which the client seals, with its session id zeroed. -/
def sealedOver (sha256 : HashSuite 32) (x25519 : KeyAgreement (Block 32) (Block 32) (Block 32))
    (mlkem : Kem R DK (Block 1184) (Block 1088) (Block 32)) (profile : Profile)
    (cfg : ClientAuthConfig) (draw : ClientDraw R) : Bytes :=
  (helloParams x25519 mlkem profile cfg draw).withSessionId sha256 (List.replicate 32 0)

variable (sha256 x25519 mlkem) in
/-- **The hello a client sends** is the built one with the sealed payload as its session id. -/
theorem buildAuthedClientHello_eq (hcorrect : aes256Gcm.Correct 16 16) (profile : Profile)
    (cfg : ClientAuthConfig) (nowSecs : UInt32) (draw : ClientDraw R) :
    ∃ sid : Block 32, buildAuthedClientHello sha256 aes256Gcm x25519 mlkem profile cfg nowSecs draw =
        some ((helloParams x25519 mlkem profile cfg draw).withSessionId sha256 sid.1, draw.ephem,
          (mlkem.generate draw.mlkem).1) ∧
      aes256Gcm.encrypt (clientAuthKey sha256 x25519 cfg draw) (authNonce draw.chRandom)
        (sealedOver sha256 x25519 mlkem profile cfg draw) (authPayload cfg nowSecs).encode.1 =
          some sid.1 ∧
      openSessionId aes256Gcm (clientAuthKey sha256 x25519 cfg draw) draw.chRandom sid
        (sealedOver sha256 x25519 mlkem profile cfg draw) = some (authPayload cfg nowSecs).encode := by
  obtain ⟨sid, hseal, henc, hopen⟩ := openSessionId_sealSessionId hcorrect
    (clientAuthKey sha256 x25519 cfg draw) draw.chRandom (authPayload cfg nowSecs)
    (sealedOver sha256 x25519 mlkem profile cfg draw)
  refine ⟨sid, ?_, henc, hopen⟩
  have haad : aadFromClientHello (buildClientHelloWithEntropy sha256
      (helloParams x25519 mlkem profile cfg draw)) =
        sealedOver sha256 x25519 mlkem profile cfg draw :=
    aadFromClientHello_withSessionId draw.chRandom.2
  rw [buildAuthedClientHello, haad, hseal]
  show some _ = some _
  rw [buildClientHelloWithEntropy,
    splice_sessionId _ _ (helloParams x25519 mlkem profile cfg draw).random.2]

/-! ## What the server accepts -/

/-- A hello that passes every check: its name is allowed, its session id has 32 bytes and opens,
under the key shared with its key share and over all of the hello outside of the session id, to a
payload of the right time. -/
structure Accepted (sha256 : HashSuite 32) (aes256Gcm : Aead (Block 32) (Block 12))
    (x25519 : KeyAgreement (Block 32) (Block 32) (Block 32)) (ch : Bytes) (cfg : ServerAuthConfig)
    (nowSecs : UInt32) (fields : ClientHelloFields) (clientPub : Block 32) (pt : Block 16) :
    Prop where
  parsed : extractClientHelloFields ch = .ok fields
  serverName : ∃ sni, fields.sni = some sni ∧ sni ∈ cfg.serverNames
  keyShare : fields.keyShareX25519 = some clientPub
  sessionId : fields.sessionId.length = 32
  opens : ∃ pre n post, ch = pre ++ ([n] ++ (fields.sessionId ++ post)) ∧ pre.length = 38 ∧
    aes256Gcm.decrypt (serverAuthKey sha256 x25519 cfg clientPub fields.random)
      (authNonce fields.random) (pre ++ ([n] ++ (List.replicate 32 0 ++ post)))
      fields.sessionId = some pt.1
  inTime : absDiff nowSecs (AuthPayload.decode pt).unixSecs ≤ cfg.maxTimeDiff.asSecs

theorem openSessionId_eq_some {authKey chRandom sessionId : Block 32} {aad : Bytes} {pt : Block 16} :
    openSessionId aes256Gcm authKey chRandom sessionId aad = some pt ↔
      aes256Gcm.decrypt authKey (authNonce chRandom) aad sessionId.1 = some pt.1 := by
  unfold openSessionId
  cases hdec : aes256Gcm.decrypt authKey (authNonce chRandom) aad sessionId.1 with
  | none => simp
  | some b =>
    show (if h : b.length = 16 then some ⟨b, h⟩ else none) = some pt ↔ some b = some pt.1
    by_cases hlen : b.length = 16
    · rw [dif_pos hlen]
      simp [Subtype.ext_iff]
    · rw [dif_neg hlen]
      constructor
      · intro h
        cases h
      · intro h
        cases h
        exact absurd pt.2 hlen

/-- The associated data of an accepted hello, from where its session id stands. -/
theorem aadFromClientHello_of_extract {ch : Bytes} {fields : ClientHelloFields}
    (hparse : extractClientHelloFields ch = .ok fields) {pre post : Bytes} {n : UInt8}
    (hch : ch = pre ++ ([n] ++ (fields.sessionId ++ post))) (hpre : pre.length = 38) :
    aadFromClientHello ch =
      pre ++ ([n] ++ (List.replicate fields.sessionId.length 0 ++ post)) := by
  obtain ⟨pre', n', post', hch', hpre', hsid⟩ := extract_sessionId hparse
  obtain ⟨-, hrest⟩ := List.append_inj (hch.symm.trans hch') (hpre.trans hpre'.symm)
  obtain ⟨hn, -⟩ := List.append_inj hrest rfl
  have hn : n = n' := by simpa using hn
  rw [hch]
  exact aadFromClientHello_eq hpre (hn ▸ hsid)

/-- **A hello is accepted exactly if it passes every check.** -/
theorem classifyFull_eq_authed_iff {ch : Bytes} {cfg : ServerAuthConfig}
    {nowSecs clientTime : UInt32} {shortId : Block 8} {authKey : Block 32} :
    classifyFull sha256 aes256Gcm x25519 ch cfg nowSecs = .authed shortId clientTime authKey ↔
      ∃ fields clientPub pt,
        Accepted sha256 aes256Gcm x25519 ch cfg nowSecs fields clientPub pt ∧
        (AuthPayload.decode pt).shortId = shortId ∧ (AuthPayload.decode pt).unixSecs = clientTime ∧
        authKey = serverAuthKey sha256 x25519 cfg clientPub fields.random := by
  constructor
  · intro h
    unfold classifyFull at h
    cases hparse : extractClientHelloFields ch with
    | error err =>
      rw [hparse] at h
      cases h
    | ok fields =>
      rw [hparse] at h
      dsimp only at h
      split at h
      · cases h
      · next pt hopen =>
        split at h
        · next hok =>
          split at h
          · cases h
          · next htime =>
            simp only [Bool.and_eq_true, decide_eq_true_eq] at hok
            obtain ⟨⟨hsni, hsid⟩, hshare⟩ := hok
            obtain ⟨sni, hname, hallowed⟩ := (Option.any_eq_true _ _).mp hsni
            obtain ⟨clientPub, hpub⟩ := Option.isSome_iff_exists.mp hshare
            obtain ⟨pre, n, post, hch, hpre, -⟩ := extract_sessionId hparse
            rw [hpub, Option.getD_some] at h hopen
            rw [aadFromClientHello_of_extract hparse hch hpre, openSessionId_eq_some,
              Block.ofList_val ⟨fields.sessionId, hsid⟩, hsid] at hopen
            cases h
            exact ⟨fields, clientPub, pt,
              ⟨hparse, ⟨sni, hname, by simpa [ServerAuthConfig.sniAllowed] using hallowed⟩, hpub,
                hsid, ⟨pre, n, post, hch, hpre, hopen⟩, Nat.le_of_not_lt htime⟩, rfl, rfl, rfl⟩
        · cases h
  · rintro ⟨fields, clientPub, pt, ha, rfl, rfl, rfl⟩
    obtain ⟨sni, hname, hallowed⟩ := ha.serverName
    obtain ⟨pre, n, post, hch, hpre, hdec⟩ := ha.opens
    have hopen : openSessionId aes256Gcm (serverAuthKey sha256 x25519 cfg clientPub fields.random)
        fields.random (Block.ofList 32 fields.sessionId) (aadFromClientHello ch) = some pt := by
      rw [aadFromClientHello_of_extract ha.parsed hch hpre, openSessionId_eq_some,
        Block.ofList_val ⟨fields.sessionId, ha.sessionId⟩, ha.sessionId]
      exact hdec
    unfold classifyFull
    rw [ha.parsed]
    simp only [ha.keyShare, Option.getD_some, hopen, hname, ha.sessionId]
    simp [ServerAuthConfig.sniAllowed, hallowed, Nat.not_lt.mpr ha.inTime]

/-! ## A client's hello at a server -/

/-- What is assumed of the primitives in one attempt: with the wrong public key the client shares
another secret, which gives another key, under which the session id does not open. -/
structure Ideal (sha256 : HashSuite 32) (aes256Gcm : Aead (Block 32) (Block 12))
    (x25519 : KeyAgreement (Block 32) (Block 32) (Block 32))
    (mlkem : Kem R DK (Block 1184) (Block 1088) (Block 32)) (profile : Profile)
    (cfg : ClientAuthConfig) (scfg : ServerAuthConfig) (nowSecs : UInt32) (draw : ClientDraw R) :
    Prop where
  agreement : x25519.Separates draw.ephem cfg.serverPublic (x25519.pub scfg.staticSecret)
  derivation : sha256.Separates (draw.chRandom.slice 0 20 (by decide)).1 HKDF_INFO 32
    (x25519.shared draw.ephem cfg.serverPublic).1
    (x25519.shared draw.ephem (x25519.pub scfg.staticSecret)).1
  sealing : aes256Gcm.Separates (clientAuthKey sha256 x25519 cfg draw)
    (serverAuthKey sha256 x25519 scfg (x25519.pub draw.ephem) draw.chRandom)
    (authNonce draw.chRandom) (sealedOver sha256 x25519 mlkem profile cfg draw)
    (authPayload cfg nowSecs).encode.1

variable {profile : Profile} {cfg : ClientAuthConfig} {scfg : ServerAuthConfig}
  {nowSecs nowSecs' : UInt32} {draw : ClientDraw R}

/-- Client and server derive the same key if the client has the server's public key. -/
theorem serverAuthKey_eq_clientAuthKey (hdh : x25519.Commutes)
    (hpub : cfg.serverPublic = x25519.pub scfg.staticSecret) :
    serverAuthKey sha256 x25519 scfg (x25519.pub draw.ephem) draw.chRandom =
      clientAuthKey sha256 x25519 cfg draw := by
  rw [serverAuthKey, clientAuthKey, hpub, hdh]

/-- With ideal primitives it does so only then. -/
theorem serverPublic_of_clientAuthKey (hdh : x25519.Commutes)
    (hideal : Ideal sha256 aes256Gcm x25519 mlkem profile cfg scfg nowSecs draw)
    (hkey : clientAuthKey sha256 x25519 cfg draw =
      serverAuthKey sha256 x25519 scfg (x25519.pub draw.ephem) draw.chRandom) :
    cfg.serverPublic = x25519.pub scfg.staticSecret := by
  rw [serverAuthKey, hdh scfg.staticSecret draw.ephem] at hkey
  exact hideal.agreement (Subtype.ext (hideal.derivation hkey))

/-- What the server reads from the hello of a client. -/
def sentFields (x25519 : KeyAgreement (Block 32) (Block 32) (Block 32))
    (mlkem : Kem R DK (Block 1184) (Block 1088) (Block 32)) (cfg : ClientAuthConfig)
    (draw : ClientDraw R) (sid : Block 32) : ClientHelloFields where
  random := draw.chRandom
  sessionId := sid.1
  keyShareX25519 := some (x25519.pub draw.ephem)
  keyShareMlkem := some ⟨(mlkem.generate draw.mlkem).2.1, x25519.pub draw.ephem⟩
  sni := some cfg.sni

/-- The server opens the session id over what the client sealed it over. -/
theorem aad_of_sent {sid : Block 32} {pre post : Bytes} {n : UInt8}
    (hparse : extractClientHelloFields
      ((helloParams x25519 mlkem profile cfg draw).withSessionId sha256 sid.1) =
        .ok (sentFields x25519 mlkem cfg draw sid))
    (hch : (helloParams x25519 mlkem profile cfg draw).withSessionId sha256 sid.1 =
      pre ++ ([n] ++ (sid.1 ++ post))) (hpre : pre.length = 38) :
    pre ++ ([n] ++ (List.replicate 32 0 ++ post)) =
      sealedOver sha256 x25519 mlkem profile cfg draw := by
  have haad := aadFromClientHello_of_extract hparse hch hpre
  rw [aadFromClientHello_withSessionId sid.2] at haad
  have hsid : (sentFields x25519 mlkem cfg draw sid).sessionId.length = 32 := sid.2
  rw [hsid] at haad
  exact haad.symm

/-- The session id of the client's hello opens under the key it was sealed with. -/
theorem decrypt_sent (haead : aes256Gcm.Correct 16 16) {sid : Block 32}
    (hseal : aes256Gcm.encrypt (clientAuthKey sha256 x25519 cfg draw) (authNonce draw.chRandom)
      (sealedOver sha256 x25519 mlkem profile cfg draw) (authPayload cfg nowSecs).encode.1 =
        some sid.1) :
    aes256Gcm.decrypt (clientAuthKey sha256 x25519 cfg draw) (authNonce draw.chRandom)
      (sealedOver sha256 x25519 mlkem profile cfg draw) sid.1 =
        some (authPayload cfg nowSecs).encode.1 := by
  obtain ⟨ct, henc, -, hdec⟩ := haead (clientAuthKey sha256 x25519 cfg draw)
    (authNonce draw.chRandom) (sealedOver sha256 x25519 mlkem profile cfg draw)
    (authPayload cfg nowSecs).encode.1 (authPayload cfg nowSecs).encode.2.le
  rw [hseal] at henc
  cases henc
  exact hdec

theorem unixSecs_decode_authPayload :
    (AuthPayload.decode (authPayload cfg nowSecs).encode).unixSecs = nowSecs := by
  rw [AuthPayload.decode_encode]
  rfl

variable (nowSecs') in
/-- The client's hello passes every check of the server it was sealed for. -/
theorem accepted_sent (hdh : x25519.Commutes) (haead : aes256Gcm.Correct 16 16) {sid : Block 32}
    (hseal : aes256Gcm.encrypt (clientAuthKey sha256 x25519 cfg draw) (authNonce draw.chRandom)
      (sealedOver sha256 x25519 mlkem profile cfg draw) (authPayload cfg nowSecs).encode.1 =
        some sid.1)
    (hparse : extractClientHelloFields
      ((helloParams x25519 mlkem profile cfg draw).withSessionId sha256 sid.1) =
        .ok (sentFields x25519 mlkem cfg draw sid))
    (hpub : cfg.serverPublic = x25519.pub scfg.staticSecret) (hallowed : cfg.sni ∈ scfg.serverNames)
    (hle : absDiff nowSecs' nowSecs ≤ scfg.maxTimeDiff.asSecs) :
    Accepted sha256 aes256Gcm x25519
      ((helloParams x25519 mlkem profile cfg draw).withSessionId sha256 sid.1) scfg nowSecs'
      (sentFields x25519 mlkem cfg draw sid) (x25519.pub draw.ephem)
      (authPayload cfg nowSecs).encode := by
  obtain ⟨pre, post, hpre, hsplit⟩ := withSessionId_split sha256
    (helloParams x25519 mlkem profile cfg draw)
  have haad : pre ++ ([32] ++ (List.replicate 32 0 ++ post)) =
      sealedOver sha256 x25519 mlkem profile cfg draw :=
    (hsplit _ List.length_replicate).symm
  refine ⟨hparse, ⟨cfg.sni, rfl, hallowed⟩, rfl, sid.2, ⟨pre, 32, post, hsplit _ sid.2, hpre, ?_⟩,
    by rwa [unixSecs_decode_authPayload]⟩
  rw [haad]
  show aes256Gcm.decrypt (serverAuthKey sha256 x25519 scfg (x25519.pub draw.ephem) draw.chRandom)
    (authNonce draw.chRandom) _ sid.1 = _
  rw [serverAuthKey_eq_clientAuthKey hdh hpub]
  exact decrypt_sent haead hseal

variable (nowSecs') in
/-- With ideal primitives it passes the checks of no other server. -/
theorem of_accepted_sent (hdh : x25519.Commutes) (haead : aes256Gcm.Correct 16 16)
    (hideal : Ideal sha256 aes256Gcm x25519 mlkem profile cfg scfg nowSecs draw) {sid : Block 32}
    (hseal : aes256Gcm.encrypt (clientAuthKey sha256 x25519 cfg draw) (authNonce draw.chRandom)
      (sealedOver sha256 x25519 mlkem profile cfg draw) (authPayload cfg nowSecs).encode.1 =
        some sid.1)
    (hparse : extractClientHelloFields
      ((helloParams x25519 mlkem profile cfg draw).withSessionId sha256 sid.1) =
        .ok (sentFields x25519 mlkem cfg draw sid)) {pt : Block 16}
    (ha : Accepted sha256 aes256Gcm x25519
        ((helloParams x25519 mlkem profile cfg draw).withSessionId sha256 sid.1) scfg nowSecs'
        (sentFields x25519 mlkem cfg draw sid) (x25519.pub draw.ephem) pt) :
    pt = (authPayload cfg nowSecs).encode ∧ cfg.serverPublic = x25519.pub scfg.staticSecret ∧
      cfg.sni ∈ scfg.serverNames ∧ absDiff nowSecs' nowSecs ≤ scfg.maxTimeDiff.asSecs := by
  obtain ⟨pre, n, post, hch, hpre, hdec⟩ := ha.opens
  have haad : pre ++ ([n] ++ (List.replicate 32 0 ++ post)) =
      sealedOver sha256 x25519 mlkem profile cfg draw := aad_of_sent hparse hch hpre
  rw [haad] at hdec
  have hkey : clientAuthKey sha256 x25519 cfg draw =
      serverAuthKey sha256 x25519 scfg (x25519.pub draw.ephem) draw.chRandom := by
    by_contra hne
    have hnone := hideal.sealing hne _ hseal
    exact Option.some_ne_none _ (hdec.symm.trans hnone)
  have hpt : pt = (authPayload cfg nowSecs).encode := by
    have hopen := decrypt_sent haead hseal
    rw [hkey] at hopen
    exact Subtype.ext (Option.some.inj (hdec.symm.trans hopen))
  obtain ⟨sni, hname, hallowed⟩ := ha.serverName
  cases hname
  refine ⟨hpt, serverPublic_of_clientAuthKey hdh hideal hkey, hallowed, ?_⟩
  have hle := ha.inTime
  rwa [hpt, unixSecs_decode_authPayload] at hle

/-- A shipped profile carries what is read from its hellos. -/
theorem carries_helloParams (hprofile : profile = .yandex ∨ profile = .chrome) :
    (helloParams x25519 mlkem profile cfg draw).profile.Carries := by
  obtain rfl | rfl := hprofile
  · exact Profile.carries_yandex
  · exact Profile.carries_yandex

/-- A hello of a shipped profile is read back if its extensions fit their block. -/
theorem extract_sent_of_fits (hprofile : profile = .yandex ∨ profile = .chrome)
    (hfits : ((helloParams x25519 mlkem profile cfg draw).extBytes sha256).length < 2 ^ 16)
    (sid : Block 32) :
    extractClientHelloFields
      ((helloParams x25519 mlkem profile cfg draw).withSessionId sha256 sid.1) =
        .ok (sentFields x25519 mlkem cfg draw sid) := by
  have hsid : sid.1.length < 2 ^ 8 := by
    rw [sid.2]
    decide
  exact extract_withSessionId (carries_helloParams hprofile) hsid hfits

variable (sha256 x25519 mlkem draw) in
/-- They do if the name is short. -/
theorem extract_sent (hprofile : profile = .yandex ∨ profile = .chrome)
    (hsni : (utf8Bytes cfg.sni).length ≤ 255) (sid : Block 32) :
    extractClientHelloFields
      ((helloParams x25519 mlkem profile cfg draw).withSessionId sha256 sid.1) =
        .ok (sentFields x25519 mlkem cfg draw sid) := by
  have hp : (helloParams x25519 mlkem profile cfg draw).profile = .yandex := by
    obtain hp | hp := hprofile
    · exact hp
    · exact hp
  exact extract_sent_of_fits hprofile (length_extBytes_yandex_lt hp (hsni.trans (by decide))) sid

/-- **The hello a client sends to its server is accepted**, at any time that is close enough. -/
theorem classifyFull_sent (hdh : x25519.Commutes) (haead : aes256Gcm.Correct 16 16) {sid : Block 32}
    (hseal : aes256Gcm.encrypt (clientAuthKey sha256 x25519 cfg draw) (authNonce draw.chRandom)
      (sealedOver sha256 x25519 mlkem profile cfg draw) (authPayload cfg nowSecs).encode.1 =
        some sid.1)
    (hprofile : profile = .yandex ∨ profile = .chrome) (hsni : (utf8Bytes cfg.sni).length ≤ 255)
    (hpub : cfg.serverPublic = x25519.pub scfg.staticSecret) (hallowed : cfg.sni ∈ scfg.serverNames)
    (hle : absDiff nowSecs' nowSecs ≤ scfg.maxTimeDiff.asSecs) :
    classifyFull sha256 aes256Gcm x25519
        ((helloParams x25519 mlkem profile cfg draw).withSessionId sha256 sid.1) scfg nowSecs' =
      .authed cfg.shortId nowSecs
        (serverAuthKey sha256 x25519 scfg (x25519.pub draw.ephem) draw.chRandom) := by
  refine classifyFull_eq_authed_iff.mpr ⟨_, _, _, accepted_sent nowSecs' hdh haead hseal
    (extract_sent sha256 x25519 mlkem draw hprofile hsni sid) hpub hallowed hle, ?_,
    unixSecs_decode_authPayload, rfl⟩
  rw [AuthPayload.decode_encode]
  rfl

variable (sha256 aes256Gcm x25519 mlkem) in
/--
**Authentication is complete and sound.** The hello a client sends is accepted, with the client's
short id and time, exactly if the client has the server's public key, its name is allowed and the
clocks are close enough; and no byte string is accepted that does not pass every check.
-/
theorem classifyFull_complete_and_sound (hdh : x25519.Commutes)
    (haead : aes256Gcm.Correct 16 16) :
    (∀ (profile : Profile) (cfg : ClientAuthConfig) (scfg : ServerAuthConfig)
      (draw : ClientDraw R) (nowSecs nowSecs' : UInt32),
      profile = .yandex ∨ profile = .chrome → (utf8Bytes cfg.sni).length ≤ 255 →
      Ideal sha256 aes256Gcm x25519 mlkem profile cfg scfg nowSecs draw →
      ∃ ch ephem dk, buildAuthedClientHello sha256 aes256Gcm x25519 mlkem profile cfg nowSecs draw =
          some (ch, ephem, dk) ∧
        ∀ shortId clientTime, (∃ authKey, classifyFull sha256 aes256Gcm x25519 ch scfg nowSecs' =
            .authed shortId clientTime authKey) ↔
          (shortId = cfg.shortId ∧ clientTime = nowSecs) ∧
            cfg.serverPublic = x25519.pub scfg.staticSecret ∧ cfg.sni ∈ scfg.serverNames ∧
            absDiff nowSecs' nowSecs ≤ scfg.maxTimeDiff.asSecs) ∧
    (∀ (ch : Bytes) (scfg : ServerAuthConfig) (nowSecs' clientTime : UInt32) (shortId : Block 8)
      (authKey : Block 32),
      classifyFull sha256 aes256Gcm x25519 ch scfg nowSecs' = .authed shortId clientTime authKey →
      ∃ fields clientPub pt, Accepted sha256 aes256Gcm x25519 ch scfg nowSecs' fields clientPub pt ∧
        (AuthPayload.decode pt).shortId = shortId ∧ (AuthPayload.decode pt).unixSecs = clientTime ∧
        authKey = serverAuthKey sha256 x25519 scfg clientPub fields.random) := by
  constructor
  · intro profile cfg scfg draw nowSecs nowSecs' hprofile hsni hideal
    obtain ⟨sid, hbuild, hseal, -⟩ :=
      buildAuthedClientHello_eq sha256 x25519 mlkem haead profile cfg nowSecs draw
    refine ⟨_, _, _, hbuild, fun shortId clientTime => ⟨?_, ?_⟩⟩
    · rintro ⟨authKey, hauthed⟩
      obtain ⟨fields, clientPub, pt, ha, rfl, rfl, -⟩ := classifyFull_eq_authed_iff.mp hauthed
      have hparse := extract_sent sha256 x25519 mlkem draw hprofile hsni sid
      have hfields : fields = sentFields x25519 mlkem cfg draw sid :=
        Except.ok.inj (ha.parsed.symm.trans hparse)
      subst hfields
      have hshare := ha.keyShare
      cases hshare
      obtain ⟨rfl, hcond⟩ := of_accepted_sent nowSecs' hdh haead hideal hseal hparse ha
      rw [AuthPayload.decode_encode]
      exact ⟨⟨rfl, rfl⟩, hcond⟩
    · rintro ⟨⟨rfl, rfl⟩, hpub, hallowed, hle⟩
      exact ⟨_, classifyFull_sent hdh haead hseal hprofile hsni hpub hallowed hle⟩
  · intro ch scfg nowSecs' clientTime shortId authKey hauthed
    exact classifyFull_eq_authed_iff.mp hauthed

end

/-- A client with the server's public key is accepted, and with another key it is not. -/
theorem classifyFull_complete_and_sound_of_xor :
    let cfg (key : UInt8) : ClientAuthConfig := ⟨Block.fill 32 key, Block.fill 8 1, "example.org"⟩
    let scfg : ServerAuthConfig := ⟨Block.fill 32 5, {"example.org"}, ⟨120, 0⟩,
      "example.org:443", fun _ => none, none⟩
    let draw : ClientDraw Bytes := ⟨Block.fill 32 3, [7], Block.fill 32 2, Block.fill 32 4⟩
    let classified (key : UInt8) := (buildAuthedClientHello (HashSuite.start 32)
      (Aead.tagged (Block 12) 32 16) (KeyAgreement.xor 32) (Kem.start 1184 1088 32) .yandex (cfg key)
      1000 draw).map fun r => classifyFull (HashSuite.start 32) (Aead.tagged (Block 12) 32 16)
        (KeyAgreement.xor 32) r.1 scfg 1060
    (∃ authKey, classified 5 = some (.authed (Block.fill 8 1) 1000 authKey)) ∧
      ∀ authKey, classified 6 ≠ some (.authed (Block.fill 8 1) 1000 authKey) := by
  intro cfg scfg draw classified
  have hmain := (classifyFull_complete_and_sound (HashSuite.start 32) (Aead.tagged (Block 12) 32 16)
    (KeyAgreement.xor 32) (Kem.start 1184 1088 32) KeyAgreement.xor_commutes
    Aead.tagged_correct).1 .yandex
  have hsni : ∀ key, (utf8Bytes (cfg key).sni).length ≤ 255 := fun _ => by
    show (utf8Bytes "example.org").length ≤ 255
    decide
  constructor
  · obtain ⟨ch, ephem, dk, hbuild, hclass⟩ := hmain (cfg 5) scfg draw 1000 1060 (.inl rfl) (hsni 5)
      ⟨fun _ => rfl, fun _ => rfl, fun hne => absurd rfl hne⟩
    obtain ⟨authKey, hauthed⟩ := (hclass _ _).mpr ⟨⟨rfl, rfl⟩, rfl, by decide, by decide⟩
    refine ⟨authKey, ?_⟩
    show Option.map _ (buildAuthedClientHello _ _ _ _ _ (cfg 5) _ _) = _
    rw [hbuild, Option.map_some, hauthed]
  · obtain ⟨ch, ephem, dk, hbuild, hclass⟩ := hmain (cfg 6) scfg draw 1000 1060 (.inl rfl) (hsni 6)
      { agreement := fun h => absurd h (by decide)
        derivation := fun h => absurd h (by decide)
        sealing := Aead.tagged_separates (by decide) }
    intro authKey hauthed
    replace hauthed : Option.map _ (buildAuthedClientHello _ _ _ _ _ (cfg 6) _ _) = _ := hauthed
    rw [hbuild, Option.map_some] at hauthed
    obtain ⟨-, hpub, -⟩ := (hclass _ _).mp ⟨authKey, Option.some.inj hauthed⟩
    exact absurd hpub (by decide)

end Leshiy.Reality
