import Leshiy.Tls.ClientHello

/-!
# REALITY authentication

`leshiy-reality/src/auth.rs`: the payload sealed into the session id of a ClientHello, the key it is
sealed with, and the associated data, which is the hello with its session id zeroed.
-/

namespace Leshiy.Reality

open Leshiy.Lib Leshiy.Tls

/-! ## The payload -/

structure AuthPayload where
  version : Block 3
  unixSecs : UInt32
  shortId : Block 8
  deriving DecidableEq

namespace AuthPayload

/-- Version, a zero, seconds and short id. -/
def encode (p : AuthPayload) : Block 16 :=
  ⟨p.version.1 ++ ([0] ++ (beEncode 4 p.unixSecs.toNat ++ p.shortId.1)), by
    simp [p.version.2, p.shortId.2]⟩

def decode (b : Block 16) : AuthPayload where
  version := b.slice 0 3 (by decide)
  unixSecs := u32FromBeBytes (b.slice 4 8 (by decide)).1
  shortId := b.slice 8 16 (by decide)

/-- What is sealed is what is opened. -/
theorem decode_encode (p : AuthPayload) : decode p.encode = p := by
  have hversion : (p.encode.slice 0 3 (by decide)).1 = p.version.1 :=
    Block.slice_val [] p.version.1 _ rfl rfl (by simp [p.version.2])
  have hsecs : (p.encode.slice 4 8 (by decide)).1 = beEncode 4 p.unixSecs.toNat :=
    Block.slice_val (p.version.1 ++ [0]) _ p.shortId.1 (by simp [encode])
      (by simp [p.version.2]) (by simp [p.version.2])
  have hid : (p.encode.slice 8 16 (by decide)).1 = p.shortId.1 :=
    Block.slice_val (p.version.1 ++ ([0] ++ beEncode 4 p.unixSecs.toNat)) _ [] (by simp [encode])
      (by simp [p.version.2]) (by simp [p.version.2, p.shortId.2])
  unfold decode
  rw [hsecs, u32FromBeBytes_beEncode]
  congr 1
  · exact Subtype.ext hversion
  · exact Subtype.ext hid

end AuthPayload

/-! ## Key, seal and open -/

def HKDF_INFO : Bytes := utf8Bytes "leshiy-reality"

/-- ClientHello: type, length, version, random and the length of the session id. -/
def SID_OFFSET : Nat := 39

section

variable (sha256 : HashSuite 32) (aes256Gcm : Aead (Block 32) (Block 12))

def deriveAuthKey (shared chRandom : Block 32) : Block 32 :=
  sha256.expand (sha256.extract (chRandom.slice 0 20 (by decide)).1 shared.1) HKDF_INFO 32

/-- The nonce is the end of the random. -/
def authNonce (chRandom : Block 32) : Block 12 := chRandom.slice 20 32 (by decide)

/-- `none` stands for the panics of the source: a failed encryption, or one whose output is not
32 bytes long. -/
def sealSessionId (authKey chRandom : Block 32) (payload : AuthPayload) (aad : Bytes) :
    Option (Block 32) := do
  let ct ← aes256Gcm.encrypt authKey (authNonce chRandom) aad payload.encode.1
  if h : ct.length = 32 then return ⟨ct, h⟩ else none

def openSessionId (authKey chRandom sessionId : Block 32) (aad : Bytes) : Option (Block 16) := do
  let pt ← aes256Gcm.decrypt authKey (authNonce chRandom) aad sessionId.1
  if h : pt.length = 16 then return ⟨pt, h⟩ else none

variable {aes256Gcm}

/-- **A sealed payload is opened again** with the same key and associated data. -/
theorem openSessionId_sealSessionId (hcorrect : aes256Gcm.Correct 16 16)
    (authKey chRandom : Block 32) (payload : AuthPayload) (aad : Bytes) :
    ∃ sid, sealSessionId aes256Gcm authKey chRandom payload aad = some sid ∧
      aes256Gcm.encrypt authKey (authNonce chRandom) aad payload.encode.1 = some sid.1 ∧
      openSessionId aes256Gcm authKey chRandom sid aad = some payload.encode := by
  obtain ⟨ct, hseal, hlen, hopen⟩ := hcorrect authKey (authNonce chRandom) aad payload.encode.1
    payload.encode.2.le
  rw [payload.encode.2] at hlen
  refine ⟨⟨ct, hlen⟩, ?_, hseal, ?_⟩
  · rw [sealSessionId, hseal]
    exact dif_pos hlen
  · rw [openSessionId, hopen]
    exact dif_pos payload.encode.2

end

/-! ## Associated data -/

/-- The hello with the bytes of its session id set to zero. -/
def aadFromClientHello (ch : Bytes) : Bytes :=
  if SID_OFFSET < ch.length then
    let sidLen := (ch.getD (SID_OFFSET - 1) 0).toNat
    let stop := min (SID_OFFSET + sidLen) ch.length
    ch.take SID_OFFSET ++ (List.replicate (stop - SID_OFFSET) 0 ++ ch.drop stop)
  else ch

/-- The associated data of a hello whose session id stands where it is read. -/
theorem aadFromClientHello_eq {pre sid post : Bytes} {n : UInt8} (hpre : pre.length = 38)
    (hsid : sid.length = n.toNat) :
    aadFromClientHello (pre ++ ([n] ++ (sid ++ post))) =
      pre ++ ([n] ++ (List.replicate sid.length 0 ++ post)) := by
  have hlen : (pre ++ ([n] ++ (sid ++ post))).length = 39 + sid.length + post.length := by
    simp only [List.length_append, hpre, List.length_singleton]
    omega
  have hbyte : (pre ++ ([n] ++ (sid ++ post))).getD (SID_OFFSET - 1) 0 = n := by
    simp [SID_OFFSET, List.getD, hpre]
  have hhead : (pre ++ [n]).length = SID_OFFSET := by
    simp [SID_OFFSET, hpre]
  have hstop : min (SID_OFFSET + sid.length) (39 + sid.length + post.length) =
      39 + sid.length := by
    unfold SID_OFFSET
    omega
  have hassoc : pre ++ ([n] ++ (sid ++ post)) = (pre ++ [n]) ++ (sid ++ post) := by simp
  have htail : (pre ++ ([n] ++ (sid ++ post))).drop (39 + sid.length) = post := by
    have hsplit : pre ++ ([n] ++ (sid ++ post)) = (pre ++ ([n] ++ sid)) ++ post := by simp
    rw [hsplit]
    exact List.drop_left' (by simp [hpre]; omega)
  unfold aadFromClientHello
  split
  · simp only [hbyte, ← hsid, hlen, hstop, htail]
    rw [hassoc, List.take_left' hhead]
    simp [SID_OFFSET]
  · next hshort =>
    -- Nothing follows the length byte, so there is nothing to zero.
    rw [hlen, SID_OFFSET] at hshort
    have hnil : sid = [] := List.length_eq_zero_iff.mp (by omega)
    rw [hnil]
    rfl

theorem aadFromClientHello_withSessionId {sha256 : HashSuite 32} {h : HelloParams} {sid : Bytes}
    (hsid : sid.length = 32) : aadFromClientHello (h.withSessionId sha256 sid) =
      h.withSessionId sha256 (List.replicate 32 0) := by
  obtain ⟨pre, post, hpre, hsplit⟩ := withSessionId_split sha256 h
  rw [hsplit sid hsid, hsplit _ List.length_replicate, aadFromClientHello_eq hpre hsid, hsid]

end Leshiy.Reality
