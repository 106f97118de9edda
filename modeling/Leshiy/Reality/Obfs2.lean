import Leshiy.Core.Frame
import Leshiy.Lib.Crypto
import Leshiy.Lib.Keystream
import Leshiy.Lib.Utf8

/-!
# The obfuscated2 layer of MTProxy

`leshiy-reality/src/mtproxy/obfs2.rs`: a handshake of 64 bytes that seeds two AES-256-CTR streams. A client
mixes the proxy's secret into its keys; a data centre has no secret and takes the keys from the handshake
alone. The two peers are modelled from the transport that the handshake belongs to, AES-CTR as a keystream
for each key and nonce, and SHA-256 as a parameter.
-/

namespace Leshiy.Reality.MtProxy

open Leshiy.Lib

def HANDSHAKE_LEN : Nat := 64

def PROTO_TAG_SECURE : Bytes := [0xdd, 0xdd, 0xdd, 0xdd]

def DCS : List String :=
  ["149.154.175.50:443", "149.154.167.51:443", "149.154.175.100:443", "149.154.167.91:443",
    "149.154.171.5:443"]

/-- The keystream of AES-256-CTR for a key and a first counter block. -/
abbrev AesCtr := Block 32 → Block 16 → Nat → UInt8

/-- The streams of one side of the relay: `dec` for what comes from that peer, `enc` for what goes to it. -/
structure Ciphers where
  dec : Ctr
  enc : Ctr

structure ClientSession where
  ciphers : Ciphers
  dc : Int

structure Upstream where
  hello : Block 64
  ciphers : Ciphers

/-- `key_iv` of bytes 8 to 56, cut where `new_ctr` gets them. -/
def keyIv (hs : Block 64) : Block 32 × Block 16 :=
  (hs.slice 8 40 (by decide), hs.slice 40 56 (by decide))

/-- `reversed_key_iv`. -/
def reversedKeyIv (hs : Block 64) : Block 32 × Block 16 :=
  let rev : Block 48 := ⟨(hs.slice 8 56 (by decide)).1.reverse, by
    rw [List.length_reverse]
    exact (hs.slice 8 56 (by decide)).2⟩
  (rev.slice 0 32 (by decide), rev.slice 32 48 (by decide))

def keyed (sha256 : HashSuite 32) (prekey : Block 32) (secret : Block 16) : Block 32 :=
  sha256.digest (prekey.1 ++ secret.1)

/-- `i16::from_le_bytes`. -/
def i16FromLeBytes (lo hi : UInt8) : Int :=
  let n := lo.toNat + 256 * hi.toNat
  if n < 2 ^ 15 then n else (n : Int) - 2 ^ 16

def dcAddr (dc : Int) : Option String :=
  match dc.natAbs with
  | 0 => none
  | idx + 1 => DCS[idx]?

/-- Nonces that a data centre would take for another protocol. -/
def isReserved (rnd : Block 64) : Bool :=
  let start : List Bytes := [utf8Bytes "HEAD", utf8Bytes "POST", utf8Bytes "GET ", utf8Bytes "OPTI",
    [0x16, 0x03, 0x01, 0x02], [0xdd, 0xdd, 0xdd, 0xdd], [0xee, 0xee, 0xee, 0xee]]
  rnd.1.head? = some 0xef || start.any (fun r => rnd.1.take 4 = r) ||
    (rnd.1.take 8).drop 4 = [0, 0, 0, 0]

section

variable (sha256 : HashSuite 32) (aes : AesCtr)

/-- The keystreams of a client's handshake: from the client and to it. -/
def clientKs (secret : Block 16) (hs : Block 64) : (Nat → UInt8) × (Nat → UInt8) :=
  (aes (keyed sha256 (keyIv hs).1 secret) (keyIv hs).2,
    aes (keyed sha256 (reversedKeyIv hs).1 secret) (reversedKeyIv hs).2)

/-- The keystreams of a handshake with a data centre: to it and from it. -/
def dcKs (hs : Block 64) : (Nat → UInt8) × (Nat → UInt8) :=
  (aes (keyIv hs).1 (keyIv hs).2, aes (reversedKeyIv hs).1 (reversedKeyIv hs).2)

def acceptClient (hs : Block 64) (secret : Block 16) : Option ClientSession :=
  let ks := clientKs sha256 aes secret hs
  let (plain, dec) := (Ctr.new ks.1).apply hs.1
  if (plain.take 60).drop 56 ≠ PROTO_TAG_SECURE then none
  else some ⟨⟨dec, Ctr.new ks.2⟩, i16FromLeBytes (plain.getD 60 0) (plain.getD 61 0)⟩

/-- The nonce with the protocol tag in its place. -/
def tagged (rnd : Block 64) : Block 64 :=
  ⟨rnd.1.take 56 ++ (PROTO_TAG_SECURE ++ rnd.1.drop 60), by
    simp [rnd.2, PROTO_TAG_SECURE]⟩

/-- `upstream`, with the blocks that the generator gives; the first that is not reserved is taken. -/
def upstream (draws : List (Block 64)) : Option Upstream :=
  (draws.find? fun rnd => !isReserved rnd).map fun rnd =>
    let rnd := tagged rnd
    let ks := dcKs aes rnd
    let sealed := (Ctr.new ks.1).apply rnd.1
    { hello := ⟨rnd.1.take 56 ++ sealed.1.drop 56, by
        have hsealed : sealed.1.length = 64 := (length_xorAt _ _).trans rnd.2
        simp [rnd.2, hsealed]⟩
      ciphers := ⟨Ctr.new ks.2, sealed.2⟩ }

end

/-! ## The peers -/

/-- What a client puts into its handshake: a nonce, the data centre it asks for and padding. -/
structure Client where
  secret : Block 16
  nonce : Block 56
  dcLo : UInt8
  dcHi : UInt8
  pad : Block 2

section

variable (sha256 : HashSuite 32) (aes : AesCtr)

namespace Client

/-- The end of the handshake, which is sent encrypted. -/
def tail (c : Client) : Bytes := PROTO_TAG_SECURE ++ ([c.dcLo, c.dcHi] ++ c.pad.1)

def plain (c : Client) : Block 64 :=
  ⟨c.nonce.1 ++ c.tail, by simp [tail, PROTO_TAG_SECURE, c.nonce.2, c.pad.2]⟩

/-- The handshake as sent. -/
def header (c : Client) : Block 64 :=
  ⟨c.nonce.1 ++ xorAt (clientKs sha256 aes c.secret c.plain).1 56 c.tail, by
    simp [tail, PROTO_TAG_SECURE, c.nonce.2, c.pad.2]⟩

/-- The obfuscated2 stream of a text: the handshake, and the text under the same keystream behind it. -/
def stream (c : Client) (text : Bytes) : Bytes :=
  (c.header sha256 aes).1 ++ xorAt (clientKs sha256 aes c.secret c.plain).1 64 text

/-- What a client makes of the data that it gets. -/
def decrypts (c : Client) (data : Bytes) : Bytes :=
  xorAt (clientKs sha256 aes c.secret c.plain).2 0 data

end Client

/-- What a data centre makes of what it gets: it takes the keys from the first 64 bytes and decrypts the
rest behind them. -/
def dcDecrypts (wire : Bytes) : Bytes :=
  xorAt (dcKs aes (Block.ofList 64 wire)).1 64 (wire.drop 64)

/-- What a data centre sends for a text. -/
def dcEncrypts (hello : Block 64) (text : Bytes) : Bytes := xorAt (dcKs aes hello).2 0 text

end

/-! ## Both ends agree -/

/-- The keys come from the first 56 bytes. -/
theorem keyIv_congr {hs hs' : Block 64} (h : hs.1.take 56 = hs'.1.take 56) :
    keyIv hs = keyIv hs' ∧ reversedKeyIv hs = reversedKeyIv hs' := by
  have hslice : ∀ i j (hij : i ≤ j ∧ j ≤ 64), j ≤ 56 → hs.slice i j hij = hs'.slice i j hij := by
    intro i j hij hj
    apply Subtype.ext
    show (hs.1.take j).drop i = (hs'.1.take j).drop i
    have htake : ∀ b : Block 64, b.1.take j = (b.1.take 56).take j := by
      intro b
      rw [List.take_take, Nat.min_eq_left hj]
    rw [htake hs, htake hs', h]
  constructor
  · rw [keyIv, keyIv, hslice 8 40 _ (by decide), hslice 40 56 _ (by decide)]
  · unfold reversedKeyIv
    simp only [hslice 8 56 (by decide) (by decide)]

section

variable {sha256 : HashSuite 32} {aes : AesCtr}

theorem clientKs_congr {secret : Block 16} {hs hs' : Block 64} (h : hs.1.take 56 = hs'.1.take 56) :
    clientKs sha256 aes secret hs = clientKs sha256 aes secret hs' := by
  obtain ⟨hk, hr⟩ := keyIv_congr h
  rw [clientKs, clientKs, hk, hr]

theorem dcKs_congr {hs hs' : Block 64} (h : hs.1.take 56 = hs'.1.take 56) :
    dcKs aes hs = dcKs aes hs' := by
  obtain ⟨hk, hr⟩ := keyIv_congr h
  rw [dcKs, dcKs, hk, hr]

theorem clientKs_header (c : Client) :
    clientKs sha256 aes c.secret (c.header sha256 aes) = clientKs sha256 aes c.secret c.plain := by
  apply clientKs_congr
  show (c.nonce.1 ++ _).take 56 = (c.nonce.1 ++ _).take 56
  rw [List.take_left' c.nonce.2, List.take_left' c.nonce.2]

/-- **The handshake of a client is accepted**, and the streams go on where the client's do. -/
theorem acceptClient_header (c : Client) :
    acceptClient sha256 aes (c.header sha256 aes) c.secret = some
      ⟨⟨⟨(clientKs sha256 aes c.secret c.plain).1, 64⟩, ⟨(clientKs sha256 aes c.secret c.plain).2, 0⟩⟩,
        i16FromLeBytes c.dcLo c.dcHi⟩ := by
  have hplain : xorAt (clientKs sha256 aes c.secret c.plain).1 0 (c.header sha256 aes).1 =
      xorAt (clientKs sha256 aes c.secret c.plain).1 0 c.nonce.1 ++ c.tail := by
    rw [Client.header, xorAt_append, c.nonce.2, Nat.zero_add, xorAt_xorAt]
  have hlen : (xorAt (clientKs sha256 aes c.secret c.plain).1 0 c.nonce.1).length = 56 := by
    rw [length_xorAt, c.nonce.2]
  have htag : ((xorAt (clientKs sha256 aes c.secret c.plain).1 0 c.nonce.1 ++ c.tail).take 60).drop 56 =
      PROTO_TAG_SECURE := by
    rw [List.drop_take, List.drop_left' hlen]
    rfl
  have hget : ∀ i, (xorAt (clientKs sha256 aes c.secret c.plain).1 0 c.nonce.1 ++ c.tail).getD (56 + i) 0 =
      c.tail.getD i 0 := by
    intro i
    simp only [List.getD_eq_getElem?_getD]
    rw [List.getElem?_append_right (by omega), hlen, Nat.add_sub_cancel_left]
  simp only [acceptClient, Ctr.apply, Ctr.new, clientKs_header, hplain, htag, hget 4, hget 5,
    (c.header sha256 aes).2]
  rfl

/-- **A data centre is on the same streams** as the relay that has sent it a hello. -/
theorem upstream_ciphers {draws : List (Block 64)} {u : Upstream} (h : upstream aes draws = some u) :
    u.ciphers = ⟨⟨(dcKs aes u.hello).2, 0⟩, ⟨(dcKs aes u.hello).1, 64⟩⟩ := by
  obtain ⟨rnd, -, rfl⟩ := Option.map_eq_some_iff.mp h
  have hks : dcKs aes ⟨(tagged rnd).1.take 56 ++ (xorAt (dcKs aes (tagged rnd)).1 0 (tagged rnd).1).drop 56,
      by simp [(tagged rnd).2]⟩ = dcKs aes (tagged rnd) := by
    apply dcKs_congr
    have hlen : ((tagged rnd).1.take 56).length = 56 := by simp [(tagged rnd).2]
    exact List.take_left' hlen
  simp only [Ctr.apply, Ctr.new, (tagged rnd).2, hks]

end

end Leshiy.Reality.MtProxy
