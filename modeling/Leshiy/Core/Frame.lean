import Leshiy.Lib.BigEndian

/-!
# Plaintext frames

`leshiy-core/src/frame.rs`. A frame is a 5-byte header (big-endian stream id, type byte)
followed by the payload. The high bit of the type byte marks a frame whose unknown type must
abort the session.
-/

namespace Leshiy

open Leshiy.Lib

abbrev Bytes := List UInt8

/-- `u32::from_be_bytes`. -/
def u32FromBeBytes (b : Bytes) : UInt32 := UInt32.ofNat (beDecode b)

theorem u32FromBeBytes_beEncode (n : UInt32) : u32FromBeBytes (beEncode 4 n.toNat) = n := by
  have h : n.toNat < 256 ^ 4 := n.toNat_lt
  rw [u32FromBeBytes, beDecode_beEncode h, UInt32.ofNat_toNat]

/-! ## Constants -/

def HEADER_LEN : Nat := 5

/-- Noise message maximum minus the 16-byte tag. -/
def MAX_PLAINTEXT : Nat := 65535 - 16

/--
Largest payload put in one frame. On the REALITY path each frame is sealed into one TLS
record, whose inner plaintext (header, payload and a content-type byte) is at most 2^14 bytes.
-/
def MAX_FRAME_PAYLOAD : Nat := 16384 - HEADER_LEN - 1

def CRITICAL_BIT : UInt8 := 0x80

/-! ## Frame types -/

inductive FrameType where
  | hello
  | bye
  | «open»
  | data
  | close
  | datagram
  | ping
  | pong
  | windowUpdate
  deriving DecidableEq, Repr

/-- The discriminants of the `repr(u8)` enum. -/
def FrameType.toU8 : FrameType → UInt8
  | .hello => 0
  | .bye => 1
  | .open => 2
  | .data => 3
  | .close => 4
  | .datagram => 5
  | .ping => 6
  | .pong => 7
  | .windowUpdate => 8

def isCritical (ftype : UInt8) : Bool := ftype &&& CRITICAL_BIT != 0

def baseType (ftype : UInt8) : UInt8 := ftype &&& ~~~CRITICAL_BIT

@[simp] theorem baseType_toU8 (t : FrameType) : baseType t.toU8 = t.toU8 := by
  cases t <;> decide

theorem FrameType.toU8_inj {t t' : FrameType} : t.toU8 = t'.toU8 ↔ t = t' := by
  cases t <;> cases t' <;> decide

/-! ## Frames -/

structure Frame where
  streamId : UInt32
  ftype : UInt8
  payload : Bytes
  deriving DecidableEq, Repr

namespace Frame

def encode (f : Frame) : Bytes := beEncode 4 f.streamId.toNat ++ f.ftype :: f.payload

/-- `decode_from_bytes`; the only error is a buffer shorter than the header. -/
def decode (buf : Bytes) : Option Frame :=
  if buf.length < HEADER_LEN then none
  else some ⟨u32FromBeBytes (buf.take 4), buf.getD 4 0, buf.drop HEADER_LEN⟩

/-- A frame is its header and its payload. -/
theorem length_encode (f : Frame) : f.encode.length = HEADER_LEN + f.payload.length := by
  simp [encode, HEADER_LEN]
  omega

/-- **A frame is read back from its own encoding.** -/
theorem decode_encode (f : Frame) : decode f.encode = some f := by
  have hlen : ¬ f.encode.length < HEADER_LEN := by
    simp [encode, HEADER_LEN]
    omega
  have h4 : (beEncode 4 f.streamId.toNat).length = 4 := length_beEncode _ _
  have htake : f.encode.take 4 = beEncode 4 f.streamId.toNat := by
    rw [encode, List.take_left' h4]
  have hget : f.encode.getD 4 0 = f.ftype := by
    simp [encode, List.getD, h4]
  have hdrop : f.encode.drop HEADER_LEN = f.payload := by
    simp [encode, HEADER_LEN, List.drop_append, h4]
  rw [decode, if_neg hlen, htake, hget, hdrop, u32FromBeBytes_beEncode]

end Frame

end Leshiy
