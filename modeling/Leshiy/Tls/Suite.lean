import Leshiy.Core.Frame
import Leshiy.Lib.Crypto
import Leshiy.Lib.Utf8

/-!
# Cipher suites and the key schedule

`leshiy-tls/src/tls13/suite.rs`, `kdf.rs` and `schedule.rs`. The length of a hash and of a key
depends on the suite, and is part of the type: a secret of the wrong length, on which `from_prk`
panics, cannot be written down, and no output is as long as HKDF's bound.
-/

namespace Leshiy.Tls

open Leshiy.Lib

/-- What the suites are made of. -/
structure SuitePrimitives where
  sha256 : HashSuite 32
  sha384 : HashSuite 48
  aes128Gcm : Aead (Block 16) (Block 12)
  aes256Gcm : Aead (Block 32) (Block 12)
  chacha20Poly1305 : Aead (Block 32) (Block 12)

/-- Each of the ciphers decrypts what it encrypts. The longest text is a record. -/
structure SuitePrimitives.Correct (prims : SuitePrimitives) : Prop where
  aes128Gcm : prims.aes128Gcm.Correct 16 (2 ^ 16)
  aes256Gcm : prims.aes256Gcm.Correct 16 (2 ^ 16)
  chacha20Poly1305 : prims.chacha20Poly1305.Correct 16 (2 ^ 16)

inductive CipherSuite where
  | aes128GcmSha256
  | aes256GcmSha384
  | chaCha20Poly1305Sha256
  deriving DecidableEq, Repr

namespace CipherSuite

def fromU16 (v : UInt16) : Option CipherSuite :=
  if v = 0x1301 then some .aes128GcmSha256
  else if v = 0x1302 then some .aes256GcmSha384
  else if v = 0x1303 then some .chaCha20Poly1305Sha256
  else none

def toU16 : CipherSuite → UInt16
  | .aes128GcmSha256 => 0x1301
  | .aes256GcmSha384 => 0x1302
  | .chaCha20Poly1305Sha256 => 0x1303

theorem fromU16_eq_some {v : UInt16} {suite : CipherSuite} :
    fromU16 v = some suite ↔ v = suite.toU16 := by
  unfold fromU16
  constructor
  · intro h
    split_ifs at h with h1 h2 h3
    · cases h
      exact h1
    · cases h
      exact h2
    · cases h
      exact h3
  · rintro rfl
    cases suite <;> rfl

def hashLen : CipherSuite → Nat
  | .aes256GcmSha384 => 48
  | _ => 32

def keyLen : CipherSuite → Nat
  | .aes128GcmSha256 => 16
  | _ => 32

def tagLen (_ : CipherSuite) : Nat := 16

theorem hashLen_le (suite : CipherSuite) : suite.hashLen ≤ 48 := by
  cases suite <;> decide

variable (prims : SuitePrimitives)

/-- The hash of the suite and the functions made from it. -/
def hasher : (suite : CipherSuite) → HashSuite suite.hashLen
  | .aes128GcmSha256 => prims.sha256
  | .aes256GcmSha384 => prims.sha384
  | .chaCha20Poly1305Sha256 => prims.sha256

/-- The cipher of the suite; `aead_seal_in_place` and `aead_open_in_place` are its functions. -/
def aead : (suite : CipherSuite) → Aead (Block suite.keyLen) (Block 12)
  | .aes128GcmSha256 => prims.aes128Gcm
  | .aes256GcmSha384 => prims.aes256Gcm
  | .chaCha20Poly1305Sha256 => prims.chacha20Poly1305

variable {prims} in
theorem aead_correct (h : prims.Correct) (suite : CipherSuite) :
    (suite.aead prims).Correct 16 (2 ^ 16) := by
  cases suite with
  | aes128GcmSha256 => exact h.aes128Gcm
  | aes256GcmSha384 => exact h.aes256Gcm
  | chaCha20Poly1305Sha256 => exact h.chacha20Poly1305

def hash (suite : CipherSuite) (data : Bytes) : Block suite.hashLen :=
  (suite.hasher prims).digest data

end CipherSuite

/-! ## Transcripts -/

/-- The handshake messages so far. -/
structure Transcript (suite : CipherSuite) where
  buf : Bytes

namespace Transcript

variable {suite : CipherSuite}

def new (suite : CipherSuite) : Transcript suite := ⟨[]⟩

def update (t : Transcript suite) (msg : Bytes) : Transcript suite := ⟨t.buf ++ msg⟩

def hash (prims : SuitePrimitives) (t : Transcript suite) : Block suite.hashLen :=
  suite.hash prims t.buf

end Transcript

/-! ## HKDF -/

section

variable (prims : SuitePrimitives) (suite : CipherSuite)

def hkdfExtract (salt ikm : Bytes) : Block suite.hashLen := (suite.hasher prims).extract salt ikm

/-- Output length, label and context, the last two with their lengths. -/
def hkdfLabel (label : String) (context : Bytes) (length : Nat) : Bytes :=
  let fullLabel := utf8Bytes ("tls13 " ++ label)
  beEncode 2 length ++ ([UInt8.ofNat fullLabel.length] ++ (fullLabel ++
    ([UInt8.ofNat context.length] ++ context)))

def hkdfExpandLabel (secret : Block suite.hashLen) (label : String) (context : Bytes)
    (length : Nat) : Block length :=
  (suite.hasher prims).expand secret (hkdfLabel label context length) length

def deriveSecret (secret : Block suite.hashLen) (label : String)
    (transcriptHash : Block suite.hashLen) : Block suite.hashLen :=
  hkdfExpandLabel prims suite secret label transcriptHash.1 suite.hashLen

/-! ## The schedule -/

def zeros : Block suite.hashLen := Block.fill suite.hashLen 0

def earlySecret : Block suite.hashLen := hkdfExtract prims suite [] (zeros suite).1

/-- The salt of the next secret. -/
def derived (secret : Block suite.hashLen) : Block suite.hashLen :=
  hkdfExpandLabel prims suite secret "derived" (suite.hash prims []).1 suite.hashLen

def handshakeSecret (early : Block suite.hashLen) (ecdhe : Bytes) : Block suite.hashLen :=
  hkdfExtract prims suite (derived prims suite early).1 ecdhe

def masterSecret (handshake : Block suite.hashLen) : Block suite.hashLen :=
  hkdfExtract prims suite (derived prims suite handshake).1 (zeros suite).1

def clientHsTraffic (hs thChsh : Block suite.hashLen) : Block suite.hashLen :=
  deriveSecret prims suite hs "c hs traffic" thChsh

def serverHsTraffic (hs thChsh : Block suite.hashLen) : Block suite.hashLen :=
  deriveSecret prims suite hs "s hs traffic" thChsh

def clientApTraffic (master thSfin : Block suite.hashLen) : Block suite.hashLen :=
  deriveSecret prims suite master "c ap traffic" thSfin

def serverApTraffic (master thSfin : Block suite.hashLen) : Block suite.hashLen :=
  deriveSecret prims suite master "s ap traffic" thSfin

def trafficKey (trafficSecret : Block suite.hashLen) : Block suite.keyLen × Block 12 :=
  (hkdfExpandLabel prims suite trafficSecret "key" [] suite.keyLen,
    hkdfExpandLabel prims suite trafficSecret "iv" [] 12)

def finishedVerifyData (baseKey transcriptHash : Block suite.hashLen) : Block suite.hashLen :=
  let fk := hkdfExpandLabel prims suite baseKey "finished" [] suite.hashLen
  (suite.hasher prims).hmac fk.1 transcriptHash.1

end

end Leshiy.Tls
