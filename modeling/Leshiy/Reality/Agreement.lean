import Leshiy.Reality.Classify
import Leshiy.Reality.Tunnel

/-!
# Agreement of the handshake

The hello of `build_authed_client_hello`, the server's answer to it, the client's answer to that, and
the transports of the two sessions, for every suite and group.
-/

namespace Leshiy.Reality

open Leshiy.Lib Leshiy.Tls Leshiy.Mux

/-- The reader has the key, the iv and the count of the writer, and reads whatever it sends. -/
structure Decrypts (prims : SuitePrimitives) (w : TlsFrameWriter) (r : TlsFrameReader) : Prop where
  mirrored : r = w.peer
  frames : ∀ frames : List Frame,
    (∀ frame ∈ frames, frame.encode.length ≤ MAX_TLS_FRAME_ENCODE) → frames.length < 2 ^ 64 →
    ∃ stream w', w.sendAll prims frames = .ok (stream, w') ∧
      r.recvAll prims frames.length stream = .ok (frames, w'.peer, [])

theorem decrypts_peer {prims : SuitePrimitives} (hcorrect : prims.Correct) {w : TlsFrameWriter}
    (hseq : w.seq = 0) : Decrypts prims w w.peer where
  mirrored := rfl
  frames := by
    intro frames hlen hcount
    have hroom : w.seq.toNat + frames.length < 2 ^ 64 := by
      rw [hseq]
      simpa using hcount
    obtain ⟨stream, w', hsend, hrecv⟩ := recvAll_sendAll hcorrect frames w hlen hroom
    have h := hrecv []
    rw [List.append_nil] at h
    exact ⟨stream, w', hsend, h⟩

/-- Two sessions of the suite whose transports read each other. -/
structure Agree (prims : SuitePrimitives) (suite : CipherSuite) (client server : TlsSession) :
    Prop where
  clientSuite : client.suite = suite
  serverSuite : server.suite = suite
  down : Decrypts prims (intoTransport server .server).2 (intoTransport client .client).1
  up : Decrypts prims (intoTransport client .client).2 (intoTransport server .server).1

theorem agree_self {prims : SuitePrimitives} (hcorrect : prims.Correct) {suite : CipherSuite}
    {session : TlsSession} (hsuite : session.suite = suite) : Agree prims suite session session := by
  obtain ⟨hdown, hup⟩ := intoTransport_mirrored session
  refine ⟨hsuite, hsuite, ?_, ?_⟩
  · rw [hdown]
    exact decrypts_peer hcorrect rfl
  · rw [hup]
    exact decrypts_peer hcorrect rfl

section

variable {R DK : Type}

/-- The client's hello carries both shares of its draw. -/
theorem clientShares_sentFields (prims : Primitives R DK) (cfg : ClientAuthConfig)
    (draw : ClientDraw R) (sid : Block 32) :
    ClientShares prims (sentFields prims.x25519 prims.mlkem cfg draw sid) draw.ephem draw.mlkem where
  plain := rfl
  hybrid := rfl

/-- What is asked of the AEAD of the session id is what is asked of its suite. -/
theorem aes256Gcm_correct {prims : Primitives R DK} (hcorrect : prims.Correct) :
    prims.aes256Gcm.Correct 16 16 :=
  fun k n aad m hm => hcorrect.suites.aes256Gcm k n aad m (hm.trans (by decide))

/--
**The handshake succeeds and both sides agree.** For every hello of a client whose extensions fit
their block, every authentication key, and every ServerHello of the destination with a known suite
and group: the client accepts the server's flight, the server accepts the client's Finished, both
have a session of that suite, and the transports of the two roles read each other.
-/
theorem handshake_agreement (prims : Primitives R DK) (hcorrect : prims.Correct) (profile : Profile)
    (hprofile : profile = .yandex ∨ profile = .chrome) (cfg : ClientAuthConfig) (nowSecs : UInt32)
    (draw : ClientDraw R)
    (hfits : ((helloParams prims.x25519 prims.mlkem profile cfg draw).extBytes
      prims.sha256).length < 2 ^ 16)
    (destServerHello : Bytes) (p : ServerHelloParams) (suite : CipherSuite)
    (hparse : parseServerHello destServerHello = .ok p)
    (hgroup : p.keyShareGroup = 0x001d ∨ p.keyShareGroup = 0x11ec)
    (hsuite : CipherSuite.fromU16 p.suite = some suite) (authKey : Block 32)
    (cert : ServerCert prims) (serverDraw : ServerDraw R) :
    ∃ ch ephem dk, buildAuthedClientHello prims.sha256 prims.aes256Gcm prims.x25519 prims.mlkem
        profile cfg nowSecs draw = some (ch, ephem, dk) ∧
      ∃ state flight out session,
        serverHandshake ch destServerHello authKey cert serverDraw = .ok (state, flight) ∧
        clientHandshake prims ch flight ephem authKey dk = .ok out ∧
        state.finish prims out.clientFinishedRecord = .ok session ∧
        Agree prims.toSuitePrimitives suite out.session session := by
  obtain ⟨sid, hbuild, -, -⟩ := buildAuthedClientHello_eq prims.sha256 prims.x25519 prims.mlkem
    (aes256Gcm_correct hcorrect) profile cfg nowSecs draw
  obtain ⟨state, flight, out, hserver, hclient, hfinish, hsame⟩ := handshake_agree hcorrect
    (extract_sent_of_fits hprofile hfits sid) (clientShares_sentFields prims cfg draw sid) hparse
    hgroup hsuite authKey cert serverDraw
  exact ⟨_, _, _, hbuild, state, flight, out, out.session, hserver, hclient, hfinish,
    agree_self hcorrect.suites hsame⟩

end

/-! ## Instances -/

/-- The smallest primitives together. -/
def Primitives.start : Primitives Bytes Unit where
  sha256 := HashSuite.start 32
  sha384 := HashSuite.start 48
  aes128Gcm := Aead.tagged (Block 12) 16 16
  aes256Gcm := Aead.tagged (Block 12) 32 16
  chacha20Poly1305 := Aead.tagged (Block 12) 32 16
  sha512 := HashSuite.start 64
  x25519 := KeyAgreement.xor 32
  mlkem := Kem.start 1184 1088 32
  ed25519 := Signature.start 32 64

theorem Primitives.start_correct : Primitives.start.Correct where
  suites := ⟨Aead.tagged_correct, Aead.tagged_correct, Aead.tagged_correct⟩
  x25519 := KeyAgreement.xor_commutes
  mlkem := Kem.start_correct
  ed25519 := Signature.start_correct

/-- The shortest certificate: a key and a signature. -/
def ServerCert.bare {R DK : Type} (prims : Primitives R DK) (signingKey : Block 32) :
    ServerCert prims where
  derTemplate := ED25519_SPKI_PREFIX.1 ++ ((prims.ed25519.pub signingKey).1 ++ List.replicate 64 0)
  signingKey := signingKey
  layout := ⟨[], [], List.replicate 64 0, rfl, List.length_replicate,
    fun _ hi => absurd hi (Nat.not_lt_zero _)⟩
  fits := by
    rw [List.length_append, List.length_append, ED25519_SPKI_PREFIX.2,
      (prims.ed25519.pub signingKey).2, List.length_replicate]
    decide

/-- The parameters of a destination's hello with a key share of some bytes. -/
def destParams (suite group : UInt16) (len : Nat) : ServerHelloParams :=
  ⟨suite, Block.fill 32 9, [1, 2, 3], group, List.replicate len 0xAA⟩

theorem parse_destParams {suite group : UInt16} {len : Nat} (hlen : len ≤ 1120) :
    parseServerHello (buildServerHello (destParams suite group len)) =
      .ok (destParams suite group len) := by
  refine parseServerHello_buildServerHello ⟨?_, ?_⟩
  · show ([1, 2, 3] : Bytes).length < 2 ^ 8
    decide
  · show (List.replicate len (0xAA : UInt8)).length + 14 < 2 ^ 16
    rw [List.length_replicate]
    omega

/-- A client of a server behind a site that negotiates the hybrid group and the suite with SHA-384. -/
theorem handshake_agreement_hybrid :
    let cfg : ClientAuthConfig := ⟨Block.fill 32 5, Block.fill 8 1, "example.org"⟩
    let draw : ClientDraw Bytes := ⟨Block.fill 32 3, [7], Block.fill 32 2, Block.fill 32 4⟩
    let dest := buildServerHello (destParams 0x1302 0x11ec 1120)
    ∃ ch ephem dk, buildAuthedClientHello (HashSuite.start 32) (Aead.tagged (Block 12) 32 16)
        (KeyAgreement.xor 32) (Kem.start 1184 1088 32) .chrome cfg 1000 draw = some (ch, ephem, dk) ∧
      ∃ state flight out session,
        serverHandshake ch dest (Block.fill 32 8) (ServerCert.bare .start (Block.fill 32 6))
          ⟨Block.fill 32 11, [13]⟩ = .ok (state, flight) ∧
        clientHandshake .start ch flight ephem (Block.fill 32 8) dk = .ok out ∧
        state.finish .start out.clientFinishedRecord = .ok session ∧
        Agree Primitives.start.toSuitePrimitives .aes256GcmSha384 out.session session := by
  intro cfg draw dest
  refine handshake_agreement .start Primitives.start_correct .chrome (.inr rfl) cfg 1000 draw ?_ dest
    (destParams 0x1302 0x11ec 1120) .aes256GcmSha384 (parse_destParams (by decide)) (.inr rfl) rfl
    (Block.fill 32 8) (ServerCert.bare .start (Block.fill 32 6)) ⟨Block.fill 32 11, [13]⟩
  refine length_extBytes_yandex_lt rfl ?_
  show (utf8Bytes "example.org").length ≤ 63000
  decide

/-- **A name of 63940 bytes** makes the extensions 65536 bytes long: the length field says zero, and
the server finds no key share. -/
theorem handshake_fails_on_long_name :
    let cfg : ClientAuthConfig :=
      ⟨Block.fill 32 5, Block.fill 8 1, String.ofList (List.replicate 63940 'a')⟩
    let draw : ClientDraw Bytes := ⟨Block.fill 32 3, [7], Block.fill 32 2, Block.fill 32 0⟩
    let dest := buildServerHello (destParams 0x1301 0x001d 32)
    ∃ ch ephem dk, buildAuthedClientHello (HashSuite.start 32) (Aead.tagged (Block 12) 32 16)
        (KeyAgreement.xor 32) (Kem.start 1184 1088 32) .yandex cfg 1000 draw = some (ch, ephem, dk) ∧
      serverHandshake ch dest (Block.fill 32 8) (ServerCert.bare .start (Block.fill 32 6))
        ⟨Block.fill 32 11, [13]⟩ = .error (.malformed "no x25519 key_share") := by
  intro cfg draw dest
  have hech : (greaseEchOuter (HashSuite.start 32) (Block.fill 32 0)).length = 186 := by
    decide +kernel
  have hname : (utf8Bytes cfg.sni).length = 63940 := length_utf8Bytes_replicate 'a' 63940
  have hlen : ((helloParams (KeyAgreement.xor 32) (Kem.start 1184 1088 32) .yandex cfg
      draw).extBytes (HashSuite.start 32)).length = 2 ^ 16 := by
    rw [length_extBytes_yandex rfl]
    show 1410 + (greaseEchOuter (HashSuite.start 32) (Block.fill 32 0)).length +
      (utf8Bytes cfg.sni).length = 2 ^ 16
    rw [hech, hname]
    norm_num
  obtain ⟨sid, hbuild, -, -⟩ := buildAuthedClientHello_eq (HashSuite.start 32) (KeyAgreement.xor 32)
    (Kem.start 1184 1088 32) (Aead.tagged_correct (N := Block 12)) .yandex cfg 1000 draw
  have hsid : sid.1.length < 2 ^ 8 := by
    rw [sid.2]
    decide
  refine ⟨_, _, _, hbuild, ?_⟩
  refine (liftTls_bind (extract_withSessionId_of_wrapped (carries_helloParams (.inl rfl)) hsid
    hlen)).trans ?_
  refine (liftTls_bind (parse_destParams (by decide))).trans ?_
  rfl

end Leshiy.Reality
