import Leshiy.Mux.Basic
import Leshiy.Reality.Handshake

/-!
# Frames over the TLS session

`leshiy-reality/src/tunnel.rs`: each frame is one sealed record of application data, numbered from
zero in each direction. A reader is given the stream that it reads from, and hands back what follows
the record.
-/

namespace Leshiy.Reality

open Leshiy.Lib Leshiy.Tls Leshiy.Mux

/-- The inner plaintext of a record is at most 2^14 bytes, of which the content type is one. -/
def MAX_TLS_FRAME_ENCODE : Nat := MAX_RECORD_PAYLOAD - 1

structure TlsFrameReader where
  suite : CipherSuite
  key : Block suite.keyLen
  iv : Block 12
  seq : UInt64

structure TlsFrameWriter where
  suite : CipherSuite
  key : Block suite.keyLen
  iv : Block 12
  seq : UInt64

/-- A sequence number is never used twice. -/
def nextSeq (seq : UInt64) : Except Error UInt64 :=
  if seq.toNat + 1 < 2 ^ 64 then .ok (seq + 1)
  else .error (.protocol "tls record sequence exhausted")

section

variable (prims : SuitePrimitives)

/-- The record of a frame. -/
def TlsFrameWriter.send (w : TlsFrameWriter) (frame : Frame) :
    Except Error (Bytes × TlsFrameWriter) := do
  let bytes := frame.encode
  if MAX_TLS_FRAME_ENCODE < bytes.length then throw (.frameTooLarge bytes.length)
  else match sealRecord prims w.suite w.key w.iv w.seq APPLICATION_DATA bytes with
    | .error _ => throw (.protocol "tls record seal")
    | .ok record => do
      let seq ← nextSeq w.seq
      return (record, { w with seq })

/-- The frame of the next record. -/
def TlsFrameReader.recv (r : TlsFrameReader) (stream : Bytes) :
    Except Error (Frame × TlsFrameReader × Bytes) :=
  match readRecord stream with
  | none => .error .closed
  | some (record, rest) =>
    let header := [record.contentType, 0x03, 0x03] ++ beEncode 2 record.payload.length
    match openRecordParts prims r.suite r.key r.iv r.seq header record.payload with
    | .error _ => .error (.protocol "tls record open")
    | .ok (innerType, pt) => do
      let seq ← nextSeq r.seq
      if innerType ≠ APPLICATION_DATA then throw (.protocol "unexpected inner content type")
      else match Frame.decode pt with
        | none => throw (.protocol "frame shorter than header")
        | some frame => return (frame, { r with seq }, rest)

/-- The reader and the writer of a role: each sends under its own key. -/
def intoTransport (session : TlsSession) : Role → TlsFrameReader × TlsFrameWriter
  | .server => (⟨session.suite, session.clientKey, session.clientIv, 0⟩,
      ⟨session.suite, session.serverKey, session.serverIv, 0⟩)
  | .client => (⟨session.suite, session.serverKey, session.serverIv, 0⟩,
      ⟨session.suite, session.clientKey, session.clientIv, 0⟩)

/-! ## Streams of frames -/

/-- Frames sent one after the other. -/
def TlsFrameWriter.sendAll (w : TlsFrameWriter) : List Frame → Except Error (Bytes × TlsFrameWriter)
  | [] => .ok ([], w)
  | frame :: frames => do
    let (record, w) ← w.send prims frame
    let (stream, w) ← w.sendAll frames
    return (record ++ stream, w)

/-- As many frames as are asked for. -/
def TlsFrameReader.recvAll (r : TlsFrameReader) :
    Nat → Bytes → Except Error (List Frame × TlsFrameReader × Bytes)
  | 0, stream => .ok ([], r, stream)
  | n + 1, stream => do
    let (frame, r, stream) ← r.recv prims stream
    let (frames, r, stream) ← r.recvAll n stream
    return (frame :: frames, r, stream)

end

/-- The reader that reads what the writer writes. -/
def TlsFrameWriter.peer (w : TlsFrameWriter) : TlsFrameReader := ⟨w.suite, w.key, w.iv, w.seq⟩

/-- **The two ends of a session mirror each other.** -/
theorem intoTransport_mirrored (session : TlsSession) :
    (intoTransport session .client).1 = (intoTransport session .server).2.peer ∧
      (intoTransport session .server).1 = (intoTransport session .client).2.peer :=
  ⟨rfl, rfl⟩

section

variable {prims : SuitePrimitives} {w : TlsFrameWriter} {frame : Frame}

/-- **A frame that fits is sent, and read by the peer**, whatever follows it. -/
theorem recv_send (hcorrect : prims.Correct) (hlen : frame.encode.length ≤ MAX_TLS_FRAME_ENCODE)
    (hseq : w.seq.toNat + 1 < 2 ^ 64) :
    ∃ record w', w.send prims frame = .ok (record, w') ∧ w'.seq.toNat = w.seq.toNat + 1 ∧
      ∀ rest, w.peer.recv prims (record ++ rest) = .ok (frame, w'.peer, rest) := by
  have hnext : nextSeq w.seq = .ok (w.seq + 1) := if_pos hseq
  have hwire : frame.encode.length + 17 ≤ MAX_RECORD_ON_WIRE := by
    unfold MAX_TLS_FRAME_ENCODE at hlen
    unfold MAX_RECORD_ON_WIRE MAX_RECORD_SLACK
    omega
  obtain ⟨ct, hseal, hct, hopen⟩ : ∃ ct, sealRecord prims w.suite w.key w.iv w.seq APPLICATION_DATA
        frame.encode = .ok ((Record.mk APPLICATION_DATA ct).withVersion 0x03 0x03) ∧
      ct.length = frame.encode.length + 17 ∧
      openRecordParts prims w.suite w.key w.iv w.seq (sealedHeader ct.length) ct =
        .ok (APPLICATION_DATA, frame.encode) :=
    openRecordParts_sealRecord hcorrect (Nat.lt_of_le_of_lt hwire (by decide)) (by decide)
  refine ⟨(Record.mk APPLICATION_DATA ct).withVersion 0x03 0x03, { w with seq := w.seq + 1 },
    ?_, ?_, ?_⟩
  · rw [TlsFrameWriter.send, if_neg (Nat.not_lt.mpr hlen), hseal]
    dsimp only
    rw [hnext]
    rfl
  · show (w.seq + 1).toNat = w.seq.toNat + 1
    rw [UInt64.toNat_add]
    exact Nat.mod_eq_of_lt hseq
  · intro rest
    have hopen' : openRecordParts prims w.peer.suite w.peer.key w.peer.iv w.peer.seq
        ([APPLICATION_DATA, 0x03, 0x03] ++ beEncode 2 ct.length) ct =
          .ok (APPLICATION_DATA, frame.encode) := hopen
    have hnext' : nextSeq w.peer.seq = .ok (w.seq + 1) := hnext
    rw [TlsFrameReader.recv, readRecord_withVersion (hct.le.trans hwire)]
    dsimp only
    rw [hopen']
    dsimp only
    rw [hnext', Frame.decode_encode]
    rfl

/-- **What is sent is read**: any number of frames that fit, in their order. -/
theorem recvAll_sendAll (hcorrect : prims.Correct) (frames : List Frame) (w : TlsFrameWriter)
    (hlen : ∀ frame ∈ frames, frame.encode.length ≤ MAX_TLS_FRAME_ENCODE)
    (hseq : w.seq.toNat + frames.length < 2 ^ 64) :
    ∃ stream w', w.sendAll prims frames = .ok (stream, w') ∧
      ∀ rest, w.peer.recvAll prims frames.length (stream ++ rest) = .ok (frames, w'.peer, rest) := by
  induction frames generalizing w with
  | nil => exact ⟨[], w, rfl, fun _ => rfl⟩
  | cons frame frames ih =>
    rw [List.length_cons] at hseq
    obtain ⟨record, w₁, hsend, hseq₁, hrecv⟩ := recv_send (w := w) hcorrect
      (hlen frame List.mem_cons_self) (by omega)
    obtain ⟨stream, w₂, hsends, hrecvs⟩ :=
      ih w₁ (fun frame' h => hlen frame' (List.mem_cons_of_mem _ h)) (by omega)
    refine ⟨record ++ stream, w₂, ?_, ?_⟩
    · rw [TlsFrameWriter.sendAll, hsend]
      show (w₁.sendAll prims frames >>= _) = _
      rw [hsends]
      rfl
    · intro rest
      rw [List.append_assoc, List.length_cons, TlsFrameReader.recvAll, hrecv]
      show (w₁.peer.recvAll prims frames.length (stream ++ rest) >>= _) = _
      rw [hrecvs]
      rfl

end

end Leshiy.Reality
