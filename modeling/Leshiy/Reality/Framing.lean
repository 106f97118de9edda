import Leshiy.Mux.Pair
import Leshiy.Reality.Agreement

/-!
# The encrypted frame stream

What `TlsFrameWriter::write_frame` accepts, and that the peer's `read_frame` gives it back in the
same order, however the network cuts the stream. A writer numbers its records; the number is mixed
into the nonce, so no two records of a direction share one. The counter does not wrap: the writer
stops at its end.

The size limits nest: the mux keeps a payload to `MAX_FRAME_PAYLOAD`, which with header and content
type is the largest plaintext of a record, which sealed is still accepted on the wire.
-/

namespace Leshiy.Reality

open Leshiy.Lib Leshiy.Tls Leshiy.Mux

/-! ## Reading from chunks -/

section

variable (prims : SuitePrimitives)

/-- What `recv` does once it has a record. -/
def TlsFrameReader.openFrame (r : TlsFrameReader) (record : Record) :
    Except Error (Frame × TlsFrameReader) :=
  let header := [record.contentType, 0x03, 0x03] ++ beEncode 2 record.payload.length
  match openRecordParts prims r.suite r.key r.iv r.seq header record.payload with
  | .error _ => .error (.protocol "tls record open")
  | .ok (innerType, pt) => do
    let seq ← nextSeq r.seq
    if innerType ≠ APPLICATION_DATA then throw (.protocol "unexpected inner content type")
    else match Frame.decode pt with
      | none => throw (.protocol "frame shorter than header")
      | some frame => return (frame, { r with seq })

/-- `read_frame` on a stream that arrives in chunks. -/
def TlsFrameReader.readFrame (r : TlsFrameReader) (chunks : List Bytes) :
    Except Error (Frame × TlsFrameReader × List Bytes) :=
  match readRecordFrom chunks with
  | none => .error .closed
  | some (record, rest) => (r.openFrame prims record).map fun (frame, r) => (frame, r, rest)

def TlsFrameReader.readFrames (r : TlsFrameReader) :
    Nat → List Bytes → Except Error (List Frame × TlsFrameReader × List Bytes)
  | 0, chunks => .ok ([], r, chunks)
  | n + 1, chunks => do
    let (frame, r, chunks) ← r.readFrame prims chunks
    let (frames, r, chunks) ← r.readFrames n chunks
    return (frame :: frames, r, chunks)

end

section

variable {prims : SuitePrimitives}

theorem recv_eq (r : TlsFrameReader) {stream rest : Bytes} {record : Record}
    (h : readRecord stream = some (record, rest)) :
    r.recv prims stream =
      (r.openFrame prims record).map fun (frame, r) => (frame, r, rest) := by
  rw [TlsFrameReader.recv, h, TlsFrameReader.openFrame]
  dsimp only
  cases openRecordParts prims r.suite r.key r.iv r.seq
      ([record.contentType, 0x03, 0x03] ++ beEncode 2 record.payload.length) record.payload with
  | error e => rfl
  | ok p =>
    obtain ⟨innerType, pt⟩ := p
    dsimp only
    cases nextSeq r.seq with
    | error e => rfl
    | ok seq =>
      simp only [bind, Except.bind]
      by_cases htype : innerType ≠ APPLICATION_DATA
      · rw [if_pos htype, if_pos htype]
        rfl
      · rw [if_neg htype, if_neg htype]
        cases Frame.decode pt with
        | none => rfl
        | some frame => rfl

/-- **The cut does not matter**: what is read from the whole is read from its chunks. -/
theorem readFrame_of_recv {r r' : TlsFrameReader} {chunks : List Bytes} {frame : Frame}
    {rest : Bytes} (h : r.recv prims chunks.flatten = .ok (frame, r', rest)) :
    ∃ chunks', r.readFrame prims chunks = .ok (frame, r', chunks') ∧ chunks'.flatten = rest := by
  cases hread : readRecord chunks.flatten with
  | none =>
    rw [TlsFrameReader.recv, hread] at h
    cases h
  | some p =>
    obtain ⟨record, rest₁⟩ := p
    obtain ⟨chunks', hfrom, hflat⟩ := (readRecordFrom_eq chunks).2 record rest₁ hread
    rw [recv_eq r hread] at h
    simp only [TlsFrameReader.readFrame, hfrom]
    cases hopen : r.openFrame prims record with
    | error e =>
      rw [hopen] at h
      cases h
    | ok p =>
      rw [hopen] at h
      cases h
      exact ⟨chunks', rfl, hflat⟩

theorem readFrames_of_recvAll (n : Nat) {r r' : TlsFrameReader} {chunks : List Bytes}
    {frames : List Frame} {rest : Bytes}
    (h : r.recvAll prims n chunks.flatten = .ok (frames, r', rest)) :
    ∃ chunks', r.readFrames prims n chunks = .ok (frames, r', chunks') ∧ chunks'.flatten = rest := by
  induction n generalizing r chunks frames with
  | zero =>
    cases h
    exact ⟨chunks, rfl, rfl⟩
  | succ n ih =>
    rw [TlsFrameReader.recvAll] at h
    cases hone : r.recv prims chunks.flatten with
    | error e =>
      rw [hone] at h
      cases h
    | ok p =>
      obtain ⟨frame, r₁, rest₁⟩ := p
      rw [hone] at h
      obtain ⟨chunks₁, hread, rfl⟩ := readFrame_of_recv hone
      simp only [bind, Except.bind] at h
      cases hmany : r₁.recvAll prims n chunks₁.flatten with
      | error e =>
        rw [hmany] at h
        cases h
      | ok q =>
        obtain ⟨frames₁, r₂, rest₂⟩ := q
        rw [hmany] at h
        cases h
        obtain ⟨chunks₂, hreads, hflat⟩ := ih hmany
        refine ⟨chunks₂, ?_, hflat⟩
        rw [TlsFrameReader.readFrames, hread]
        simp only [bind, Except.bind]
        rw [hreads]
        rfl

/-! ## What the writer accepts -/

variable {w w' : TlsFrameWriter} {frame : Frame}

theorem send_too_large (h : MAX_TLS_FRAME_ENCODE < frame.encode.length) :
    w.send prims frame = .error (.frameTooLarge frame.encode.length) := by
  rw [TlsFrameWriter.send, if_pos h]
  rfl

/-- At the end of its counter the writer refuses. -/
theorem send_exhausted (hcorrect : prims.Correct)
    (hlen : frame.encode.length ≤ MAX_TLS_FRAME_ENCODE) (hseq : ¬ w.seq.toNat + 1 < 2 ^ 64) :
    w.send prims frame = .error (.protocol "tls record sequence exhausted") := by
  have hwire : frame.encode.length + 17 < 2 ^ 16 :=
    Nat.lt_of_le_of_lt (Nat.add_le_add_right hlen 17) (by decide)
  obtain ⟨ct, hseal, -⟩ : ∃ ct, sealRecord prims w.suite w.key w.iv w.seq APPLICATION_DATA
        frame.encode = .ok ((Record.mk APPLICATION_DATA ct).withVersion 0x03 0x03) ∧ _ :=
    openRecordParts_sealRecord hcorrect hwire (by decide)
  rw [TlsFrameWriter.send, if_neg (Nat.not_lt.mpr hlen), hseal]
  dsimp only
  rw [nextSeq, if_neg hseq]
  rfl

/-- **A frame is accepted exactly if it fits and the counter has a next value.** -/
theorem send_isOk_iff (hcorrect : prims.Correct) :
    (∃ record w', w.send prims frame = .ok (record, w')) ↔
      frame.encode.length ≤ MAX_TLS_FRAME_ENCODE ∧ w.seq.toNat + 1 < 2 ^ 64 := by
  constructor
  · rintro ⟨record, w', h⟩
    by_cases hlen : frame.encode.length ≤ MAX_TLS_FRAME_ENCODE
    · by_cases hseq : w.seq.toNat + 1 < 2 ^ 64
      · exact ⟨hlen, hseq⟩
      · rw [send_exhausted hcorrect hlen hseq] at h
        cases h
    · rw [send_too_large (Nat.lt_of_not_le hlen)] at h
      cases h
  · rintro ⟨hlen, hseq⟩
    obtain ⟨record, w', hsend, -, -⟩ := recv_send hcorrect hlen hseq
    exact ⟨record, w', hsend⟩

/-- Sending counts, and changes nothing else. -/
theorem of_send {record : Bytes} (h : w.send prims frame = .ok (record, w')) :
    w' = { w with seq := w.seq + 1 } ∧ w'.seq.toNat = w.seq.toNat + 1 := by
  unfold TlsFrameWriter.send at h
  dsimp only at h
  split at h
  · cases h
  · split at h
    · cases h
    · unfold nextSeq at h
      split at h
      · rename_i hseq
        cases h
        refine ⟨rfl, ?_⟩
        show (w.seq + 1).toNat = w.seq.toNat + 1
        rw [UInt64.toNat_add]
        exact Nat.mod_eq_of_lt hseq
      · cases h

/-- An accepted frame is read by the peer, and both ends count it. -/
theorem recv_of_send (hcorrect : prims.Correct) {record : Bytes}
    (h : w.send prims frame = .ok (record, w')) :
    w'.seq.toNat = w.seq.toNat + 1 ∧
      ∀ rest, w.peer.recv prims (record ++ rest) = .ok (frame, w'.peer, rest) := by
  obtain ⟨hlen, hseq⟩ := (send_isOk_iff hcorrect).mp ⟨record, w', h⟩
  obtain ⟨record', w'', hsend, hnum, hrecv⟩ := recv_send hcorrect hlen hseq
  rw [h] at hsend
  cases hsend
  exact ⟨hnum, hrecv⟩

/-- **What was accepted is what is read**, and both ends have counted it. -/
theorem recvAll_of_sendAll (hcorrect : prims.Correct) {frames : List Frame} {stream : Bytes}
    (h : w.sendAll prims frames = .ok (stream, w')) :
    w'.seq.toNat = w.seq.toNat + frames.length ∧
      ∀ rest, w.peer.recvAll prims frames.length (stream ++ rest) =
        .ok (frames, w'.peer, rest) := by
  induction frames generalizing w stream with
  | nil =>
    cases h
    exact ⟨rfl, fun _ => rfl⟩
  | cons frame frames ih =>
    rw [TlsFrameWriter.sendAll] at h
    cases hone : w.send prims frame with
    | error e =>
      rw [hone] at h
      cases h
    | ok p =>
      obtain ⟨record, w₁⟩ := p
      rw [hone] at h
      simp only [bind, Except.bind] at h
      cases hmany : w₁.sendAll prims frames with
      | error e =>
        rw [hmany] at h
        cases h
      | ok q =>
        obtain ⟨stream₁, w₂⟩ := q
        rw [hmany] at h
        cases h
        obtain ⟨hnum, hrecv⟩ := recv_of_send hcorrect hone
        obtain ⟨hnums, hrecvs⟩ := ih hmany
        refine ⟨by rw [hnums, hnum, List.length_cons]; omega, fun rest => ?_⟩
        rw [List.append_assoc, List.length_cons, TlsFrameReader.recvAll, hrecv]
        simp only [bind, Except.bind]
        rw [hrecvs]
        rfl

/-! ## Nonces -/

theorem zipWith_xor_left_cancel {a b c : Bytes} (hb : b.length = a.length)
    (hc : c.length = a.length)
    (h : List.zipWith (· ^^^ ·) a b = List.zipWith (· ^^^ ·) a c) : b = c := by
  induction a generalizing b c with
  | nil =>
    rw [List.length_eq_zero_iff.mp hb, List.length_eq_zero_iff.mp hc]
  | cons x a ih =>
    match b, c with
    | y :: b, z :: c =>
      simp only [List.zipWith_cons_cons, List.cons.injEq] at h
      have hyz : y = z := (UInt8.xor_right_inj x).mp h.1
      simp only [List.length_cons, Nat.add_right_cancel_iff] at hb hc
      rw [hyz, ih hb hc h.2]

/-- **Different numbers make different nonces.** -/
theorem nonce_injective (iv : Block 12) : Function.Injective (nonce iv) := by
  intro s t h
  have hlist := congrArg Subtype.val h
  simp only [nonce] at hlist
  have hdrop : (iv.1.drop 4).length = 8 := by simp [iv.2]
  have henc := zipWith_xor_left_cancel (by simp [hdrop]) (by simp [hdrop])
    (List.append_cancel_left hlist)
  have hs : s.toNat < 256 ^ 8 := s.toNat_lt
  have ht : t.toNat < 256 ^ 8 := t.toNat_lt
  have hnat := congrArg beDecode henc
  rw [beDecode_beEncode hs, beDecode_beEncode ht] at hnat
  exact UInt64.toNat_inj.mp hnat

variable (prims) in
/-- The key and the nonce of each record that is written. -/
def TlsFrameWriter.used (w : TlsFrameWriter) : List Frame → List (Bytes × Block 12)
  | [] => []
  | frame :: frames =>
    match w.send prims frame with
    | .ok (_, w') => (w.key.1, nonce w.iv w.seq) :: w'.used frames
    | .error _ => []

theorem mem_used {frames : List Frame} {pair : Bytes × Block 12}
    (h : pair ∈ w.used prims frames) :
    pair.1 = w.key.1 ∧ ∃ n : UInt64, w.seq.toNat ≤ n.toNat ∧ pair.2 = nonce w.iv n := by
  induction frames generalizing w with
  | nil => cases h
  | cons frame frames ih =>
    rw [TlsFrameWriter.used] at h
    split at h
    · next record w₁ hone =>
      obtain ⟨rfl, hnum⟩ := of_send hone
      rcases List.mem_cons.mp h with rfl | h
      · exact ⟨rfl, w.seq, le_rfl, rfl⟩
      · obtain ⟨hkey, n, hn, hnonce⟩ := ih h
        exact ⟨hkey, n, by omega, hnonce⟩
    · cases h

/-- **No key and nonce are used for two records.** -/
theorem nodup_used (w : TlsFrameWriter) (frames : List Frame) : (w.used prims frames).Nodup := by
  induction frames generalizing w with
  | nil => exact List.nodup_nil
  | cons frame frames ih =>
    rw [TlsFrameWriter.used]
    split
    · next record w₁ hone =>
      obtain ⟨rfl, hnum⟩ := of_send hone
      refine List.nodup_cons.mpr ⟨fun hmem => ?_, ih _⟩
      obtain ⟨-, n, hn, hnonce⟩ := mem_used hmem
      -- a later record has a greater number, so another nonce
      have heq : w.seq = n := nonce_injective w.iv hnonce
      rw [← heq] at hn
      omega
    · exact List.nodup_nil

/-! ## What a stream sends -/

@[simp] theorem dataFrame_payload (kind : StreamKind) (id : UInt32) (payload : Bytes) :
    (dataFrame kind id payload).payload = payload := by
  cases kind <;> rfl

/-- A payload within the mux's limit makes a frame within the transport's. -/
theorem length_encode_le {f : Frame} :
    f.encode.length ≤ MAX_TLS_FRAME_ENCODE ↔ f.payload.length ≤ MAX_FRAME_PAYLOAD := by
  rw [Frame.length_encode]
  simp only [HEADER_LEN, MAX_TLS_FRAME_ENCODE, MAX_RECORD_PAYLOAD, MAX_FRAME_PAYLOAD]
  omega

theorem wf_of_exec {negotiated : Negotiated} {role : Role} {log : List (Taken Endpoint Act Event)}
    {e : Endpoint} (hrun : Exec Endpoint.step (Endpoint.start negotiated role) log e) : e.Wf :=
  hrun.state_inv (P := Endpoint.Wf) (Endpoint.wf_start negotiated role)
    fun _ _ _ _ hwf hs => (Endpoint.step_effect hs).wf hwf

/-- **Every frame that `Stream::send` queues fits a record.** -/
theorem length_encode_of_sendQueue {e e' : Endpoint} {h k : Nat} {ev : List Event} {f : Frame}
    (hwf : e.Wf) (hstep : e.step (.sendQueue h k) = some (e', ev)) (hf : .queued f ∈ ev) :
    f.encode.length ≤ MAX_TLS_FRAME_ENCODE := by
  rw [length_encode_le]
  cases Endpoint.step_effect hstep with
  | queueClosed => simp at hf
  | sentLast hst _ hk =>
    simp only [List.mem_cons, Event.queued.injEq, reduceCtorEq, List.not_mem_nil, or_false] at hf
    rw [hf, dataFrame_payload]
    exact hwf.chunk _ (List.mem_of_getElem? hst) _ (List.mem_of_getElem? hk)
  | sentMore hst _ hk =>
    simp only [List.mem_cons, Event.queued.injEq, List.not_mem_nil, or_false] at hf
    rw [hf, dataFrame_payload]
    exact hwf.chunk _ (List.mem_of_getElem? hst) _ (List.mem_of_getElem? hk)

/-- **Encrypted framing.** Frames accepted by one end's writer are read by the other end in the
same order, however the stream is cut; both have counted them; no key and nonce serve two records,
also not over both directions when these have different keys; and what `Stream::send` queues in
any run of the mux is accepted, until the counter ends. -/
theorem tunnel_framing (prims : SuitePrimitives) (hcorrect : prims.Correct) (session : TlsSession)
    (role : Role) :
    (∀ frames stream w', (intoTransport session role).2.sendAll prims frames = .ok (stream, w') →
      ∀ chunks : List Bytes, chunks.flatten = stream →
        ∃ r' chunks', (intoTransport session role.peer).1.readFrames prims frames.length chunks =
            .ok (frames, r', chunks') ∧ chunks'.flatten = [] ∧
          r'.seq = w'.seq ∧ w'.seq.toNat = frames.length) ∧
    (∀ frames frames',
      ((intoTransport session role).2.used prims frames).Nodup ∧
      (session.clientKey ≠ session.serverKey →
        ((intoTransport session .client).2.used prims frames ++
          (intoTransport session .server).2.used prims frames').Nodup)) ∧
    (∀ negotiated muxRole log e h k e' ev f,
      Exec Endpoint.step (Endpoint.start negotiated muxRole) log e →
      e.step (.sendQueue h k) = some (e', ev) → Event.queued f ∈ ev →
      ∀ w : TlsFrameWriter,
        (∃ record w', w.send prims f = .ok (record, w')) ↔ w.seq.toNat + 1 < 2 ^ 64) := by
  refine ⟨fun frames stream w' hsend chunks hflat => ?_, fun frames frames' => ⟨nodup_used _ _, ?_⟩, ?_⟩
  · have hpeer : (intoTransport session role.peer).1 = (intoTransport session role).2.peer := by
      cases role <;> rfl
    obtain ⟨hnum, hrecv⟩ := recvAll_of_sendAll hcorrect hsend
    have hall := hrecv []
    rw [List.append_nil, ← hflat] at hall
    obtain ⟨chunks', hread, hrest⟩ := readFrames_of_recvAll _ hall
    have hzero : (intoTransport session role).2.seq.toNat = 0 := by
      cases role <;> rfl
    refine ⟨w'.peer, chunks', by rw [hpeer]; exact hread, hrest, rfl, by omega⟩
  · intro hkeys
    refine List.nodup_append.mpr ⟨nodup_used _ _, nodup_used _ _, fun a ha b hb heq => ?_⟩
    have ha' : a.1 = session.clientKey.1 := (mem_used ha).1
    have hb' : b.1 = session.serverKey.1 := (mem_used hb).1
    exact hkeys (Subtype.ext (by rw [← ha', ← hb', heq]))
  · intro negotiated muxRole log e h k e' ev f hrun hstep hf w
    rw [send_isOk_iff hcorrect]
    exact and_iff_right (length_encode_of_sendQueue (wf_of_exec hrun) hstep hf)

end

/-- A session under the smallest primitives. -/
def plainSession : TlsSession :=
  ⟨.aes128GcmSha256, Block.fill 16 1, Block.fill 12 0, Block.fill 16 2, Block.fill 12 0⟩

theorem flatten_map_singleton (l : Bytes) : (l.map fun b => [b]).flatten = l := by
  induction l with
  | nil => rfl
  | cons b l ih => rw [List.map_cons, List.flatten_cons, ih, List.singleton_append]

/-- Two frames, read one byte at a time. -/
theorem tunnel_framing_bytewise :
    ∃ stream w' r' chunks',
      (intoTransport plainSession .client).2.sendAll Primitives.start.toSuitePrimitives
        [dataFrame .tcp 1 [1, 2, 3], closeFrame 1] = .ok (stream, w') ∧
      (intoTransport plainSession .server).1.readFrames Primitives.start.toSuitePrimitives 2
        (stream.map fun b => [b]) =
          .ok ([dataFrame .tcp 1 [1, 2, 3], closeFrame 1], r', chunks') ∧ r'.seq = w'.seq := by
  obtain ⟨stream, w', hsend, -⟩ := recvAll_sendAll Primitives.start_correct.suites
    [dataFrame .tcp 1 [1, 2, 3], closeFrame 1] (intoTransport plainSession .client).2
    (by decide) (by decide)
  obtain ⟨r', chunks', hread, -, hseq, -⟩ :=
    (tunnel_framing _ Primitives.start_correct.suites plainSession .client).1 _ _ _ hsend
      (stream.map fun b => [b]) (flatten_map_singleton stream)
  exact ⟨stream, w', r', chunks', hsend, hread, hseq⟩

/-- **The last number is not used.** After 2^64 - 1 frames the writer refuses a frame that
`Stream::send` queues. -/
theorem last_number_refused :
    (∃ stream w', (intoTransport plainSession .client).2.sendAll
        Primitives.start.toSuitePrimitives (List.replicate (2 ^ 64 - 1) pingFrame) =
          .ok (stream, w') ∧
      w'.send Primitives.start.toSuitePrimitives (dataFrame .tcp 1 [0]) =
        .error (.protocol "tls record sequence exhausted")) ∧
    ∃ log e e' ev, Exec Endpoint.step (Endpoint.start ⟨1, 0, 45, 45⟩ .client) log e ∧
      e.step (.sendQueue 0 0) = some (e', ev) ∧ .queued (dataFrame .tcp 1 [0]) ∈ ev := by
  constructor
  · have hfits : ∀ frame ∈ List.replicate (2 ^ 64 - 1) pingFrame,
        frame.encode.length ≤ MAX_TLS_FRAME_ENCODE := by
      intro frame hmem
      rw [List.eq_of_mem_replicate hmem]
      decide
    obtain ⟨stream, w', hsend, -⟩ := recvAll_sendAll Primitives.start_correct.suites
      (List.replicate (2 ^ 64 - 1) pingFrame) (intoTransport plainSession .client).2 hfits
      (by rw [List.length_replicate]; decide)
    obtain ⟨hnum, -⟩ := recvAll_of_sendAll Primitives.start_correct.suites hsend
    rw [List.length_replicate] at hnum
    have hzero : (intoTransport plainSession .client).2.seq.toNat = 0 := rfl
    refine ⟨stream, w', hsend, send_exhausted Primitives.start_correct.suites (by decide) ?_⟩
    rw [hnum, hzero]
    decide
  · refine ⟨_, _, _, _, (((Exec.nil.snoc (a := .open .tcp "a") rfl).snoc
      (a := .sendCall 0 [0]) rfl).snoc (a := .sendAcquire 0 0) rfl), rfl, ?_⟩
    exact List.mem_cons_self

end Leshiy.Reality
