import Mathlib.Logic.Function.Basic
import Leshiy.Core.Version
import Leshiy.Lib.Chunks
import Leshiy.Lib.Crypto
import Leshiy.Lib.Run

/-!
# Sealed frames over a Noise session

`leshiy-core/src/session.rs` after the handshake. A frame is encoded, sealed by the cipher of the session and
written behind the length of what was sealed. The two halves of a session share one cipher state, which counts
what it has sealed and what it has opened; the cipher opens a message only at the number it was sealed with.

The cipher is a parameter. What is assumed of it is its documentation: it seals up to the end of its counter,
and opens what the other end has sealed.
-/

namespace Leshiy.Session

open Leshiy.Lib

/-! ## The cipher -/

/-- The longest message, and what sealing adds to a payload. -/
def MAXMSGLEN : Nat := 65535

def TAGLEN : Nat := 16

/-- The number that is not used for a message. -/
def MAX_NONCE : Nat := 2 ^ 64 - 1

/-- `snow::TransportState`. Both operations have a buffer of the given size for what they give. -/
structure Noise (T : Type) where
  sendingNonce : T → Nat
  receivingNonce : T → Nat
  writeMessage : T → Bytes → Nat → Except String Bytes × T
  readMessage : T → Bytes → Nat → Except String Bytes × T

namespace Noise

variable {T K : Type} (noise : Noise T) (outKey inKey : T → K)

/-- A state after some messages. -/
structure Counted (t t' : T) (sent received : Nat) : Prop where
  sending : noise.sendingNonce t' = noise.sendingNonce t + sent
  receiving : noise.receivingNonce t' = noise.receivingNonce t + received
  outKey : outKey t' = outKey t
  inKey : inKey t' = inKey t

/-- What is relied on: a payload is sealed with the key and the number of the sender, and opened with the same
key and number. -/
structure Correct (sealed : K → Nat → Bytes → Bytes) : Prop where
  length_sealed : ∀ k n m, m.length + TAGLEN ≤ MAXMSGLEN → (sealed k n m).length = m.length + TAGLEN
  write : ∀ t m room, m.length + TAGLEN ≤ MAXMSGLEN → m.length + TAGLEN ≤ room →
    noise.sendingNonce t < MAX_NONCE → ∃ t',
      noise.writeMessage t m room = (.ok (sealed (outKey t) (noise.sendingNonce t) m), t') ∧
      noise.Counted outKey inKey t t' 1 0
  exhausted : ∀ t m room, ¬noise.sendingNonce t < MAX_NONCE → ∃ e, noise.writeMessage t m room = (.error e, t)
  read : ∀ t m room, m.length + TAGLEN ≤ MAXMSGLEN → m.length + TAGLEN ≤ room →
    noise.receivingNonce t < MAX_NONCE → ∃ t',
      noise.readMessage t (sealed (inKey t) (noise.receivingNonce t) m) room = (.ok m, t') ∧
      noise.Counted outKey inKey t t' 0 1

end Noise

/-! ## Sending and receiving -/

/-- How a call fails. -/
inductive Failure where
  /-- A `debug_assert!`. -/
  | panicked
  | noise (detail : String)
  | error (e : Error)
  deriving DecidableEq, Repr

section

variable {T : Type} (noise : Noise T) (debugAssertions : Bool)

/-- `write_sealed`: what is written, in two writes. -/
def writeSealed (ct : Bytes) : Except Failure (List Bytes) :=
  if ct.length < 2 ^ 16 then .ok [beEncode 2 ct.length, ct]
  else .error (.error (.frameTooLarge ct.length))

/-- `read_sealed`; `none` where it waits for more. -/
def readSealed (chunks : List Bytes) : Option (Bytes × List Bytes) :=
  match readExact 2 chunks with
  | none => none
  | some (len, chunks) => readExact (beDecode len) chunks

/-- `SessionWriter::send_frame`, which is also `Session::write_frame`. -/
def sendFrame (t : T) (f : Frame) : Except Failure (List Bytes) × T :=
  -- `Frame::encode` asserts a limit of its own, on the payload
  if debugAssertions ∧ MAX_PLAINTEXT < f.payload.length then (.error .panicked, t)
  else
    let pt := f.encode
    if MAX_PLAINTEXT < pt.length then (.error (.error (.frameTooLarge pt.length)), t)
    else
      match noise.writeMessage t pt (pt.length + 16) with
      | (.error e, t) => (.error (.noise e), t)
      | (.ok ct, t) => (writeSealed ct, t)

/-- `SessionReader::recv_frame`, which is also `Session::read_frame`. -/
def recvFrame (t : T) (chunks : List Bytes) : Option (Except Failure Frame × T × List Bytes) :=
  match readSealed chunks with
  | none => none
  | some (ct, chunks) =>
    match noise.readMessage t ct ct.length with
    | (.error e, t) => some (.error (.noise e), t, chunks)
    | (.ok pt, t) =>
      match Frame.decode pt with
      | none => some (.error (.error (.protocol "frame shorter than header")), t, chunks)
      | some f => some (.ok f, t, chunks)

/-- Calls one after the other. -/
def recvFrames (t : T) : Nat → List Bytes → Option (List (Except Failure Frame) × T × List Bytes)
  | 0, chunks => some ([], t, chunks)
  | n + 1, chunks => do
    let (res, t, chunks) ← recvFrame noise t chunks
    let (ress, t, chunks) ← recvFrames t n chunks
    return (res :: ress, t, chunks)

end

/-! ## Two sessions -/

inductive Side where
  | initiator
  | responder
  deriving DecidableEq, Repr

def Side.peer : Side → Side
  | .initiator => .responder
  | .responder => .initiator

@[simp] theorem Side.peer_peer (side : Side) : side.peer.peer = side := by
  cases side <;> rfl

theorem Side.peer_ne (side : Side) : side.peer ≠ side := by
  cases side <;> decide

theorem Side.eq_or_eq_peer (side side' : Side) : side' = side ∨ side' = side.peer := by
  cases side <;> cases side' <;> decide

/-- Two sessions and what is between them. -/
structure Link (T : Type) where
  /-- The cipher state of a session. -/
  transport : Side → T
  /-- What a session has written and the other has not read, as the network has cut it. -/
  wire : Side → List Bytes

inductive Action where
  | send (side : Side) (f : Frame)
  | recv (side : Side)
  /-- The network cuts what is under way in another way. -/
  | cut (side : Side) (chunks : List Bytes)
  deriving DecidableEq, Repr

inductive Event where
  | sent (side : Side) (f : Frame) (written : List Bytes)
  | refused (side : Side) (f : Frame) (e : Failure)
  | received (side : Side) (res : Except Failure Frame)

/-- Two sessions whose handshake has just ended. -/
def Link.new {T : Type} (transport : Side → T) : Link T := ⟨transport, fun _ => []⟩

/-- What the sessions and the network do. -/
def Link.step {T : Type} (noise : Noise T) (debugAssertions : Bool) (c : Link T) :
    Action → Option (Link T × List Event)
  | .send side f =>
    match sendFrame noise debugAssertions (c.transport side) f with
    | (.error e, t) => some ({ c with transport := Function.update c.transport side t }, [.refused side f e])
    | (.ok written, t) =>
      some (⟨Function.update c.transport side t, Function.update c.wire side (c.wire side ++ written)⟩,
        [.sent side f written])
  | .recv side =>
    match recvFrame noise (c.transport side) (c.wire side.peer) with
    | none => none
    | some (res, t, rest) =>
      some (⟨Function.update c.transport side t, Function.update c.wire side.peer rest⟩, [.received side res])
  | .cut side chunks =>
    if chunks.flatten = (c.wire side).flatten then
      some ({ c with wire := Function.update c.wire side chunks }, [])
    else none

/-- The frames a session was asked to send and did. -/
def sentBy (side : Side) (evs : List Event) : List Frame :=
  evs.filterMap fun
    | .sent side' f _ => if side' = side then some f else none
    | _ => none

/-- The frames a session has received. -/
def receivedBy (side : Side) (evs : List Event) : List Frame :=
  evs.filterMap fun
    | .received side' (.ok f) => if side' = side then some f else none
    | _ => none

/-! ## One frame -/

section

variable {T K : Type} {noise : Noise T} {outKey inKey : T → K} {sealed : K → Nat → Bytes → Bytes}
  {debugAssertions : Bool} {t : T} {f : Frame} {chunks : List Bytes}

/-- **A frame above the limit is refused before anything else happens**: the cipher has not counted it. -/
theorem sendFrame_large (h : MAX_PLAINTEXT < f.encode.length) :
    sendFrame noise debugAssertions t f =
      (.error (if debugAssertions ∧ MAX_PLAINTEXT < f.payload.length then .panicked
        else .error (.frameTooLarge f.encode.length)), t) := by
  rw [sendFrame]
  split
  · rfl
  · rw [if_pos h]

theorem not_assert_fails (h : f.encode.length ≤ MAX_PLAINTEXT) :
    ¬(debugAssertions ∧ MAX_PLAINTEXT < f.payload.length) := by
  rw [Frame.length_encode] at h
  omega

/-- **A frame within the limit is written**, and its sealed length fits the prefix. -/
theorem sendFrame_fits (debugAssertions : Bool) (hnoise : noise.Correct outKey inKey sealed)
    (h : f.encode.length ≤ MAX_PLAINTEXT) (hcount : noise.sendingNonce t < MAX_NONCE) :
    ∃ t' ct, sendFrame noise debugAssertions t f = (.ok [beEncode 2 ct.length, ct], t') ∧
      ct = sealed (outKey t) (noise.sendingNonce t) f.encode ∧ ct.length = f.encode.length + TAGLEN ∧
      ct.length < 2 ^ 16 ∧ noise.Counted outKey inKey t t' 1 0 := by
  have hmax : f.encode.length + TAGLEN ≤ MAXMSGLEN := Nat.add_le_add_right h 16
  obtain ⟨t', hwrite, hcounted⟩ := hnoise.write t f.encode (f.encode.length + 16) hmax le_rfl hcount
  have hlen := hnoise.length_sealed (outKey t) (noise.sendingNonce t) f.encode hmax
  have hshort : (sealed (outKey t) (noise.sendingNonce t) f.encode).length < 2 ^ 16 := by
    rw [hlen]
    exact Nat.lt_succ_of_le hmax
  refine ⟨t', _, ?_, rfl, hlen, hshort, hcounted⟩
  rw [sendFrame, if_neg (not_assert_fails h)]
  simp only [if_neg (Nat.not_lt.mpr h), hwrite, writeSealed, if_pos hshort]

/-- At the end of the counter nothing is written either. -/
theorem sendFrame_exhausted (debugAssertions : Bool) (f : Frame) (hnoise : noise.Correct outKey inKey sealed)
    (hcount : ¬noise.sendingNonce t < MAX_NONCE) :
    ∃ e, sendFrame noise debugAssertions t f = (.error e, t) := by
  by_cases h : MAX_PLAINTEXT < f.encode.length
  · exact ⟨_, sendFrame_large h⟩
  · obtain ⟨e, hwrite⟩ := hnoise.exhausted t f.encode (f.encode.length + 16) hcount
    refine ⟨.noise e, ?_⟩
    rw [sendFrame, if_neg (not_assert_fails (Nat.le_of_not_lt h))]
    simp only [if_neg h, hwrite]

/-- A sealed message comes out whole, however the stream is cut. -/
theorem readSealed_append {ct rest : Bytes} (hshort : ct.length < 2 ^ 16)
    (h : chunks.flatten = beEncode 2 ct.length ++ (ct ++ rest)) :
    ∃ chunks', readSealed chunks = some (ct, chunks') ∧ chunks'.flatten = rest := by
  have hlen : (beEncode 2 ct.length).length = 2 := length_beEncode _ _
  obtain ⟨chunks₁, hhead, hrest₁⟩ := readExact_eq_some (show 2 ≤ chunks.flatten.length by
    rw [h, List.length_append, hlen]
    omega)
  rw [h, List.take_left' hlen] at hhead
  rw [h, List.drop_left' hlen] at hrest₁
  obtain ⟨chunks₂, hbody, hrest₂⟩ := readExact_eq_some (show ct.length ≤ chunks₁.flatten.length by
    rw [hrest₁, List.length_append]
    omega)
  rw [hrest₁, List.take_left' rfl] at hbody
  rw [hrest₁, List.drop_left' rfl] at hrest₂
  have hdec : beDecode (beEncode 2 ct.length) = ct.length := beDecode_beEncode hshort
  refine ⟨chunks₂, ?_, hrest₂⟩
  rw [readSealed, hhead]
  simp only [hdec, hbody]

/-- **What was sealed at the number of the reader is the frame it reads.** -/
theorem recvFrame_append (hnoise : noise.Correct outKey inKey sealed) {ct rest : Bytes}
    (hct : ct = sealed (inKey t) (noise.receivingNonce t) f.encode)
    (h : f.encode.length ≤ MAX_PLAINTEXT) (hcount : noise.receivingNonce t < MAX_NONCE)
    (hchunks : chunks.flatten = beEncode 2 ct.length ++ (ct ++ rest)) :
    ∃ t' chunks', recvFrame noise t chunks = some (.ok f, t', chunks') ∧ chunks'.flatten = rest ∧
      noise.Counted outKey inKey t t' 0 1 := by
  have hmax : f.encode.length + TAGLEN ≤ MAXMSGLEN := Nat.add_le_add_right h 16
  have hlen : ct.length = f.encode.length + TAGLEN := hct ▸ hnoise.length_sealed _ _ _ hmax
  obtain ⟨chunks', hread, hrest⟩ := readSealed_append (hlen ▸ Nat.lt_succ_of_le hmax) hchunks
  obtain ⟨t', hopen, hcounted⟩ := hnoise.read t f.encode ct.length hmax hlen.ge hcount
  refine ⟨t', chunks', ?_, hrest, hcounted⟩
  rw [← hct] at hopen
  simp only [recvFrame, hread, hopen, Frame.decode_encode]

/-- With nothing on the wire the reader waits. -/
theorem recvFrame_nil (h : chunks.flatten = []) : recvFrame noise t chunks = none := by
  rw [recvFrame, readSealed, readExact_eq_none (by rw [h]; decide)]

end

/-! ## Every run -/

/-- Frames as they stand on the wire, from a number of the cipher on. -/
def wireOf (seal' : Nat → Bytes → Bytes) : Nat → List Frame → Bytes
  | _, [] => []
  | n, f :: fs => beEncode 2 (seal' n f.encode).length ++ (seal' n f.encode ++ wireOf seal' (n + 1) fs)

theorem wireOf_snoc (seal' : Nat → Bytes → Bytes) (f : Frame) : ∀ (n : Nat) (fs : List Frame),
    wireOf seal' n (fs ++ [f]) = wireOf seal' n fs ++
      (beEncode 2 (seal' (n + fs.length) f.encode).length ++ seal' (n + fs.length) f.encode)
  | n, [] => by simp [wireOf]
  | n, g :: fs => by
    have hn : n + (g :: fs).length = n + 1 + fs.length := by
      rw [List.length_cons]
      omega
    rw [List.cons_append, wireOf, wireOf_snoc seal' f (n + 1) fs, hn, wireOf]
    simp only [List.append_assoc]

section

variable {T K : Type} {noise : Noise T} {outKey inKey : T → K} {sealed : K → Nat → Bytes → Bytes}
  {debugAssertions : Bool}

/-- All frames on the wire are read, however it is cut. -/
theorem recvFrames_wireOf (hnoise : noise.Correct outKey inKey sealed) {t : T} {fs : List Frame}
    {chunks : List Bytes} (hfits : ∀ f ∈ fs, f.encode.length ≤ MAX_PLAINTEXT)
    (hcount : noise.receivingNonce t + fs.length ≤ MAX_NONCE)
    (hchunks : chunks.flatten = wireOf (sealed (inKey t)) (noise.receivingNonce t) fs) :
    ∃ t' rest, recvFrames noise t fs.length chunks = some (fs.map .ok, t', rest) ∧
      recvFrame noise t' rest = none := by
  induction fs generalizing t chunks with
  | nil => exact ⟨t, chunks, rfl, recvFrame_nil hchunks⟩
  | cons f fs ih =>
    rw [List.length_cons] at hcount
    obtain ⟨t₁, chunks₁, hrecv, hrest, hcounted⟩ := recvFrame_append hnoise rfl (hfits f List.mem_cons_self)
      (by omega) hchunks
    rw [← hcounted.receiving, ← hcounted.inKey] at hrest
    obtain ⟨t₂, rest, hrecvs, hwaits⟩ := ih (fun g hg => hfits g (List.mem_cons_of_mem f hg))
      (by rw [hcounted.receiving]; omega) hrest
    refine ⟨t₂, rest, ?_, hwaits⟩
    rw [List.length_cons, recvFrames, hrecv]
    simp only [Option.bind_eq_bind, Option.bind_some, hrecvs]
    rfl

variable (noise outKey inKey sealed) in
/-- One direction: what was sent and received, the two ends, and what is under way. -/
structure Flow (sent received : List Frame) (w r : T) (wire : List Bytes) (pending : List Frame) : Prop where
  history : sent = received ++ pending
  fits : ∀ f ∈ pending, f.encode.length ≤ MAX_PLAINTEXT
  wire : wire.flatten = wireOf (sealed (inKey r)) (noise.receivingNonce r) pending
  key : outKey w = inKey r
  sending : noise.sendingNonce w = sent.length
  receiving : noise.receivingNonce r = received.length
  within : noise.sendingNonce w ≤ MAX_NONCE

namespace Flow

variable {sent received pending : List Frame} {w r w' r' : T} {wire : List Bytes} {f : Frame}

/-- The numbers of the two ends differ by what is under way. -/
theorem count (h : Flow noise outKey inKey sealed sent received w r wire pending) :
    noise.sendingNonce w = noise.receivingNonce r + pending.length := by
  rw [h.sending, h.receiving, h.history, List.length_append]

theorem send (h : Flow noise outKey inKey sealed sent received w r wire pending)
    (hfits : f.encode.length ≤ MAX_PLAINTEXT) (hcount : noise.sendingNonce w < MAX_NONCE) {ct : Bytes}
    (hct : ct = sealed (outKey w) (noise.sendingNonce w) f.encode)
    (hcounted : noise.Counted outKey inKey w w' 1 0) :
    Flow noise outKey inKey sealed (sent ++ [f]) received w' r (wire ++ [beEncode 2 ct.length, ct])
      (pending ++ [f]) where
  history := by rw [h.history, List.append_assoc]
  fits g hg := (List.mem_append.mp hg).elim (h.fits g) fun hg => List.mem_singleton.mp hg ▸ hfits
  wire := by
    rw [List.flatten_append, h.wire, wireOf_snoc, ← h.count, ← h.key, ← hct]
    simp
  key := hcounted.outKey.trans h.key
  sending := by rw [hcounted.sending, h.sending, List.length_append, List.length_singleton]
  receiving := h.receiving
  within := hcounted.sending ▸ hcount

theorem recv (h : Flow noise outKey inKey sealed sent received w r wire (f :: pending)) {rest : List Bytes}
    (hrest : rest.flatten = wireOf (sealed (inKey r)) (noise.receivingNonce r + 1) pending)
    (hcounted : noise.Counted outKey inKey r r' 0 1) :
    Flow noise outKey inKey sealed sent (received ++ [f]) w r' rest pending where
  history := by rw [h.history, List.append_assoc, List.singleton_append]
  fits g hg := h.fits g (List.mem_cons_of_mem f hg)
  wire := by rw [hrest, hcounted.inKey, hcounted.receiving]
  key := h.key.trans hcounted.inKey.symm
  sending := h.sending
  receiving := by rw [hcounted.receiving, h.receiving, List.length_append, List.length_singleton]
  within := h.within

/-- What the ends do in the other direction does not matter. -/
theorem congr (h : Flow noise outKey inKey sealed sent received w r wire pending) {n m : Nat}
    (hw : noise.Counted outKey inKey w w' 0 n) (hr : noise.Counted outKey inKey r r' m 0) :
    Flow noise outKey inKey sealed sent received w' r' wire pending where
  history := h.history
  fits := h.fits
  wire := by rw [h.wire, hr.inKey, hr.receiving, Nat.add_zero]
  key := hw.outKey.trans (h.key.trans hr.inKey.symm)
  sending := hw.sending.trans h.sending
  receiving := hr.receiving.trans h.receiving
  within := hw.sending.le.trans h.within

theorem cut (h : Flow noise outKey inKey sealed sent received w r wire pending) {chunks : List Bytes}
    (hchunks : chunks.flatten = wire.flatten) :
    Flow noise outKey inKey sealed sent received w r chunks pending :=
  { h with wire := hchunks.trans h.wire }

end Flow

theorem Noise.Counted.refl (t : T) : noise.Counted outKey inKey t t 0 0 := ⟨rfl, rfl, rfl, rfl⟩

/-! ### One step -/

variable {c c' : Link T} {side : Side} {f : Frame} {ev evs : List Event}

/-- **What a call to send does**: nothing, or the frame goes on the wire. -/
theorem send_effect (hnoise : noise.Correct outKey inKey sealed)
    (hs : c.step noise debugAssertions (.send side f) = some (c', ev)) :
    (∃ e, c' = c ∧ ev = [.refused side f e] ∧
      (MAX_PLAINTEXT < f.encode.length ∨ ¬noise.sendingNonce (c.transport side) < MAX_NONCE)) ∨
    ∃ t ct, c' = ⟨Function.update c.transport side t,
        Function.update c.wire side (c.wire side ++ [beEncode 2 ct.length, ct])⟩ ∧
      ev = [.sent side f [beEncode 2 ct.length, ct]] ∧ f.encode.length ≤ MAX_PLAINTEXT ∧
      noise.sendingNonce (c.transport side) < MAX_NONCE ∧
      ct = sealed (outKey (c.transport side)) (noise.sendingNonce (c.transport side)) f.encode ∧
      ct.length = f.encode.length + TAGLEN ∧ ct.length < 2 ^ 16 ∧
      noise.Counted outKey inKey (c.transport side) t 1 0 := by
  by_cases hfits : f.encode.length ≤ MAX_PLAINTEXT
  · by_cases hcount : noise.sendingNonce (c.transport side) < MAX_NONCE
    · obtain ⟨t, ct, hsend, hct, hlen, hshort, hcounted⟩ :=
        sendFrame_fits debugAssertions hnoise hfits hcount
      rw [Link.step, hsend] at hs
      obtain ⟨rfl, rfl⟩ := Prod.mk.inj (Option.some.inj hs)
      exact .inr ⟨t, ct, rfl, rfl, hfits, hcount, hct, hlen, hshort, hcounted⟩
    · obtain ⟨e, hsend⟩ := sendFrame_exhausted debugAssertions f hnoise hcount
      rw [Link.step, hsend] at hs
      obtain ⟨rfl, rfl⟩ := Prod.mk.inj (Option.some.inj hs)
      exact .inl ⟨e, by rw [Function.update_eq_self], rfl, .inr hcount⟩
  · have hlarge := Nat.lt_of_not_le hfits
    rw [Link.step, sendFrame_large hlarge] at hs
    obtain ⟨rfl, rfl⟩ := Prod.mk.inj (Option.some.inj hs)
    exact .inl ⟨_, by rw [Function.update_eq_self], rfl, .inl hlarge⟩

variable (noise outKey inKey sealed) in
/-- Both directions are in order. -/
def Agree (evs : List Event) (c : Link T) : Prop :=
  ∀ side, ∃ pending, Flow noise outKey inKey sealed (sentBy side evs) (receivedBy side.peer evs)
    (c.transport side) (c.transport side.peer) (c.wire side) pending

/-- **What a call to receive does**: it gives the frame that was sent first of those under way. -/
theorem recv_effect (hnoise : noise.Correct outKey inKey sealed)
    {sent received pending : List Frame}
    (h : Flow noise outKey inKey sealed sent received (c.transport side.peer) (c.transport side)
      (c.wire side.peer) pending)
    (hs : c.step noise debugAssertions (.recv side) = some (c', ev)) :
    ∃ f pending' t rest, pending = f :: pending' ∧
      c' = ⟨Function.update c.transport side t, Function.update c.wire side.peer rest⟩ ∧
      ev = [.received side (.ok f)] ∧ noise.Counted outKey inKey (c.transport side) t 0 1 ∧
      rest.flatten = wireOf (sealed (inKey (c.transport side)))
        (noise.receivingNonce (c.transport side) + 1) pending' := by
  cases pending with
  | nil =>
    rw [Link.step, recvFrame_nil h.wire] at hs
    cases hs
  | cons f pending' =>
    have hcount := h.count
    rw [List.length_cons] at hcount
    obtain ⟨t, rest, hrecv, hrest, hcounted⟩ := recvFrame_append hnoise rfl (h.fits f List.mem_cons_self)
      (by have := h.within; omega) h.wire
    rw [Link.step, hrecv] at hs
    obtain ⟨rfl, rfl⟩ := Prod.mk.inj (Option.some.inj hs)
    exact ⟨f, pending', t, rest, rfl, rfl, rfl, hcounted, hrest⟩

theorem Agree.new {transport : Side → T} (hkeys : ∀ side, outKey (transport side) = inKey (transport side.peer))
    (hsending : ∀ side, noise.sendingNonce (transport side) = 0)
    (hreceiving : ∀ side, noise.receivingNonce (transport side) = 0) :
    Agree noise outKey inKey sealed [] (Link.new transport) :=
  fun side => ⟨[], rfl, nofun, rfl, hkeys side, hsending side, hreceiving side.peer,
    (hsending side).trans_le (Nat.zero_le _)⟩

theorem Agree.step (hnoise : noise.Correct outKey inKey sealed) {a : Action}
    (h : Agree noise outKey inKey sealed evs c) (hs : c.step noise debugAssertions a = some (c', ev)) :
    Agree noise outKey inKey sealed (evs ++ ev) c' := by
  cases a with
  | send side f =>
    obtain ⟨e, rfl, rfl, -⟩ | ⟨t, ct, rfl, rfl, hfits, hcount, hct, -, -, hcounted⟩ := send_effect hnoise hs
    · intro side'
      simpa [sentBy, receivedBy] using h side'
    · intro side'
      obtain ⟨pending, hflow⟩ := h side'
      obtain rfl | rfl := side.eq_or_eq_peer side'
      · refine ⟨pending ++ [f], ?_⟩
        have hsent := hflow.send hfits hcount hct hcounted
        simpa [sentBy, receivedBy, Side.peer_ne] using hsent
      · refine ⟨pending, ?_⟩
        rw [Side.peer_peer] at hflow
        have hother := hflow.congr (.refl _) hcounted
        simpa [sentBy, receivedBy, Side.peer_ne, (Side.peer_ne side).symm] using hother
  | recv side =>
    obtain ⟨sent, hpeer⟩ := h side.peer
    rw [Side.peer_peer] at hpeer
    obtain ⟨f, pending', t, rest, rfl, rfl, rfl, hcounted, hrest⟩ := recv_effect hnoise hpeer hs
    intro side'
    obtain rfl | rfl := side.eq_or_eq_peer side'
    · obtain ⟨pending, hflow⟩ := h side'
      refine ⟨pending, ?_⟩
      have hother := hflow.congr hcounted (.refl _)
      simpa [sentBy, receivedBy, Side.peer_ne, (Side.peer_ne side').symm] using hother
    · refine ⟨pending', ?_⟩
      have hreceived := hpeer.recv hrest hcounted
      simpa [sentBy, receivedBy, Side.peer_ne] using hreceived
  | cut side chunks =>
    rw [Link.step] at hs
    split at hs
    · next hchunks =>
      obtain ⟨rfl, rfl⟩ := Prod.mk.inj (Option.some.inj hs)
      intro side'
      obtain ⟨pending, hflow⟩ := h side'
      refine ⟨pending, ?_⟩
      obtain rfl | rfl := side.eq_or_eq_peer side'
      · simpa using hflow.cut hchunks
      · simpa [Side.peer_ne] using hflow
    · cases hs

/-- No call to receive fails. -/
theorem Agree.received (hnoise : noise.Correct outKey inKey sealed) {a : Action} {res : Except Failure Frame}
    (h : Agree noise outKey inKey sealed evs c) (hs : c.step noise debugAssertions a = some (c', ev))
    (hev : .received side res ∈ ev) : ∃ f, res = .ok f := by
  cases a with
  | send side' f =>
    obtain ⟨e, -, rfl, -⟩ | ⟨t, ct, -, rfl, -⟩ := send_effect hnoise hs <;> cases List.mem_singleton.mp hev
  | recv side' =>
    obtain ⟨sent, hpeer⟩ := h side'.peer
    rw [Side.peer_peer] at hpeer
    obtain ⟨f, pending', t, rest, -, -, rfl, -⟩ := recv_effect hnoise hpeer hs
    cases List.mem_singleton.mp hev
    exact ⟨f, rfl⟩
  | cut side' chunks =>
    rw [Link.step] at hs
    split at hs
    · obtain ⟨-, rfl⟩ := Prod.mk.inj (Option.some.inj hs)
      cases hev
    · cases hs

variable (debugAssertions) in
theorem send_fits (hnoise : noise.Correct outKey inKey sealed) (hfits : f.encode.length ≤ MAX_PLAINTEXT)
    (hcount : noise.sendingNonce (c.transport side) < MAX_NONCE) :
    ∃ c' ct, c.step noise debugAssertions (.send side f) =
        some (c', [.sent side f [beEncode 2 ct.length, ct]]) ∧
      c'.wire side = c.wire side ++ [beEncode 2 ct.length, ct] ∧ ct.length = f.encode.length + TAGLEN ∧
      ct.length < 2 ^ 16 := by
  obtain ⟨t, ct, hsend, -, hlen, hshort, -⟩ := sendFrame_fits debugAssertions hnoise hfits hcount
  refine ⟨⟨Function.update c.transport side t,
    Function.update c.wire side (c.wire side ++ [beEncode 2 ct.length, ct])⟩, ct, ?_, ?_, hlen, hshort⟩
  · rw [Link.step, hsend]
  · exact Function.update_self _ _ _

variable (debugAssertions) in
theorem send_refused (hnoise : noise.Correct outKey inKey sealed)
    (h : MAX_PLAINTEXT < f.encode.length ∨ ¬noise.sendingNonce (c.transport side) < MAX_NONCE) :
    ∃ e, c.step noise debugAssertions (.send side f) = some (c, [.refused side f e]) := by
  obtain ⟨e, hsend⟩ : ∃ e,
      sendFrame noise debugAssertions (c.transport side) f = (.error e, c.transport side) :=
    h.elim (fun hlarge => ⟨_, sendFrame_large hlarge⟩) (sendFrame_exhausted debugAssertions f hnoise)
  refine ⟨e, ?_⟩
  rw [Link.step, hsend]
  simp only [Function.update_eq_self]

end

/-- **Framing of a Noise session.** In every run of two sessions and a network that cuts as it likes, what one
session has received is what the other has sent, in order, up to what is under way, and that is read from
every way to cut the stream. A frame within the limit is written with a length that fits its prefix until the
counter ends; any other is refused and changes nothing; no call to receive fails. -/
theorem session_framing {T K : Type} {noise : Noise T} {outKey inKey : T → K} {sealed : K → Nat → Bytes → Bytes}
    (hnoise : noise.Correct outKey inKey sealed) (debugAssertions : Bool) (transport : Side → T)
    (hkeys : ∀ side, outKey (transport side) = inKey (transport side.peer))
    (hsending : ∀ side, noise.sendingNonce (transport side) = 0)
    (hreceiving : ∀ side, noise.receivingNonce (transport side) = 0)
    {log : List (Taken (Link T) Action Event)} {c : Link T}
    (hrun : Exec (Link.step noise debugAssertions) (Link.new transport) log c) (side : Side) :
    (∃ pending, sentBy side (shown log) = receivedBy side.peer (shown log) ++ pending ∧
      ∀ chunks : List Bytes, chunks.flatten = (c.wire side).flatten → ∃ t rest,
        recvFrames noise (c.transport side.peer) pending.length chunks = some (pending.map .ok, t, rest) ∧
        recvFrame noise t rest = none) ∧
    (∀ f : Frame, f.encode.length ≤ MAX_PLAINTEXT → (sentBy side (shown log)).length < MAX_NONCE →
      ∃ c' ct, c.step noise debugAssertions (.send side f) =
          some (c', [.sent side f [beEncode 2 ct.length, ct]]) ∧
        c'.wire side = c.wire side ++ [beEncode 2 ct.length, ct] ∧ ct.length = f.encode.length + TAGLEN ∧
        ct.length < 2 ^ 16) ∧
    (∀ f : Frame, MAX_PLAINTEXT < f.encode.length ∨ ¬(sentBy side (shown log)).length < MAX_NONCE →
      ∃ e, c.step noise debugAssertions (.send side f) = some (c, [.refused side f e])) ∧
    ∀ res, .received side res ∈ shown log → ∃ f, res = .ok f := by
  have hagree : ∀ {log c}, Exec (Link.step noise debugAssertions) (Link.new transport) log c →
      Agree noise outKey inKey sealed (shown log) c := by
    intro log c hrun
    refine hrun.inv (P := fun log c => Agree noise outKey inKey sealed (shown log) c)
      (.new hkeys hsending hreceiving) fun log s a s' ev _ ih hs => ?_
    rw [shown_snoc]
    exact ih.step hnoise hs
  obtain ⟨pending, hflow⟩ := hagree hrun side
  refine ⟨⟨pending, hflow.history, fun chunks hchunks => ?_⟩, fun f hfits hcount => ?_, fun f hlarge => ?_,
    fun res hres => ?_⟩
  · exact recvFrames_wireOf hnoise hflow.fits (hflow.count ▸ hflow.within) (hchunks.trans hflow.wire)
  · rw [← hflow.sending] at hcount
    exact send_fits debugAssertions hnoise hfits hcount
  · rw [← hflow.sending] at hlarge
    exact send_refused debugAssertions hnoise hlarge
  · obtain ⟨t, ht, hev⟩ := List.mem_flatMap.mp hres
    obtain ⟨log', s', hpre, -, hs⟩ := hrun.pre_reached t ht
    exact (hagree hpre).received hnoise hs hev

/-! ## A cipher -/

/-- A cipher state over a sealing that is given: its keys and what it has counted. -/
structure CipherState (n : Nat) where
  outKey : Block n
  inKey : Block n
  sending : Nat
  receiving : Nat

/-- The operations as they are documented, over authenticated encryption. -/
def Noise.ofAead {n : Nat} (aead : Aead (Block n) Nat) : Noise (CipherState n) where
  sendingNonce := CipherState.sending
  receivingNonce := CipherState.receiving
  writeMessage t m room :=
    if MAXMSGLEN < m.length + TAGLEN ∨ room < m.length + TAGLEN then (.error "input error", t)
    else if ¬t.sending < MAX_NONCE then (.error "state error: exhausted", t)
    else
      match aead.encrypt t.outKey t.sending [] m with
      | none => (.error "encrypt error", t)
      | some ct => (.ok ct, { t with sending := t.sending + 1 })
  readMessage t ct room :=
    if MAXMSGLEN < ct.length then (.error "input error", t)
    else if ¬t.receiving < MAX_NONCE then (.error "state error: exhausted", t)
    else if room + TAGLEN < ct.length then (.error "decrypt error", t)
    else
      match aead.decrypt t.inKey t.receiving [] ct with
      | none => (.error "decrypt error", t)
      | some m => (.ok m, { t with receiving := t.receiving + 1 })

theorem Noise.ofAead_correct {n : Nat} {aead : Aead (Block n) Nat}
    (h : aead.Correct TAGLEN (MAXMSGLEN - TAGLEN)) :
    (Noise.ofAead aead).Correct CipherState.outKey CipherState.inKey
      (fun k number m => (aead.encrypt k number [] m).getD []) where
  length_sealed k number m hm := by
    obtain ⟨ct, hct, hlen, -⟩ := h k number [] m (Nat.le_sub_of_add_le hm)
    rw [hct, Option.getD_some, hlen]
  write t m room hm hroom hcount := by
    obtain ⟨ct, hct, -, -⟩ := h t.outKey t.sending [] m (Nat.le_sub_of_add_le hm)
    refine ⟨{ t with sending := t.sending + 1 }, ?_, rfl, rfl, rfl, rfl⟩
    have hinput : ¬(MAXMSGLEN < m.length + TAGLEN ∨ room < m.length + TAGLEN) := by omega
    have hgoes : t.sending < MAX_NONCE := hcount
    simp only [Noise.ofAead, if_neg hinput, hgoes, not_true_eq_false, if_false, hct, Option.getD_some]
  exhausted t m room hcount := by
    have hstops : ¬t.sending < MAX_NONCE := hcount
    simp only [Noise.ofAead, hstops, not_false_eq_true, if_true]
    split
    · exact ⟨_, rfl⟩
    · exact ⟨_, rfl⟩
  read t m room hm hroom hcount := by
    obtain ⟨ct, hct, hlen, hopen⟩ := h t.inKey t.receiving [] m (Nat.le_sub_of_add_le hm)
    refine ⟨{ t with receiving := t.receiving + 1 }, ?_, rfl, rfl, rfl, rfl⟩
    have hgoes : t.receiving < MAX_NONCE := hcount
    have hinput : ¬MAXMSGLEN < ct.length := by omega
    have hroom' : ¬room + TAGLEN < ct.length := by omega
    simp only [Noise.ofAead, hct, Option.getD_some, if_neg hinput, hgoes, not_true_eq_false, if_false,
      if_neg hroom', hopen]

/-- The two ends of a session over the smallest encryption there is. -/
def bare : Side → CipherState 1
  | .initiator => ⟨Block.fill 1 1, Block.fill 1 2, 0, 0⟩
  | .responder => ⟨Block.fill 1 2, Block.fill 1 1, 0, 0⟩

theorem session_framing_bare : ∃ c' ct,
    (Link.new bare).step (.ofAead (.tagged Nat 1 TAGLEN)) true (.send .initiator ⟨1, 3, [7, 8]⟩) =
      some (c', [.sent .initiator ⟨1, 3, [7, 8]⟩ [beEncode 2 ct.length, ct]]) ∧
    c'.wire .initiator = [beEncode 2 ct.length, ct] ∧ ct.length = 7 + TAGLEN ∧ ct.length < 2 ^ 16 := by
  have hframing := session_framing (Noise.ofAead_correct Aead.tagged_correct) true bare
    (by rintro (_ | _) <;> rfl) (by rintro (_ | _) <;> rfl) (by rintro (_ | _) <;> rfl) .nil .initiator
  exact hframing.2.1 ⟨1, 3, [7, 8]⟩ (by decide) (by decide)

end Leshiy.Session
