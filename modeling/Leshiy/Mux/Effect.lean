import Leshiy.Mux.Step

/-!
# What one step of an endpoint can do

`Effect e a e' ev` lists the branches of `Endpoint.step`, each with the guards the code checks
on the way and the state it leaves. `step_effect` is the only proof that unfolds the step
function; every invariant is a case analysis on `Effect`.
-/

namespace Leshiy.Mux

open Leshiy.Lib

namespace Endpoint

inductive Effect (e : Endpoint) : Act → Endpoint → List Event → Prop
  | openRefused {kind : StreamKind} {target : String} {err : Error} :
      e.openError kind = some err →
      Effect e (.open kind target) e [.failed err]
  | openClosed {kind : StreamKind} {target : String} :
      e.cmdOpen = false → e.nextId.toNat + 2 < 2 ^ 32 →
      Effect e (.open kind target) { e with nextId := e.nextId + 2 } [.failed .closed]
  | opened {kind : StreamKind} {target : String} :
      e.muxAlive = true → e.openError kind = none → e.nextId.toNat + 2 < 2 ^ 32 →
      e.cmdOpen = true → e.cmdRoom = true →
      Effect e (.open kind target)
        { e with
          nextId := e.nextId + 2
          objs := e.objs ++ [newStream e.nextId target kind e.flowcontrolOn .caller]
          cmdQ := e.cmdQ ++ [.open e.nextId (openPayload kind target) e.objs.length] }
        [.queued (openFrame e.nextId (openPayload kind target)), .opened e.objs.length]
  | openDropped {kind : StreamKind} :
      e.nextId.toNat + 2 < 2 ^ 32 →
      Effect e (.openDropped kind) { e with nextId := e.nextId + 2 } []
  | accepted {h : Nat} {rest : List Nat} :
      e.incoming = h :: rest →
      Effect e .accept
        { e.modify h (fun st => { st with owner := .caller }) with incoming := rest } [.opened h]
  | muxDropped :
      Effect e .dropMux
        { e with
          muxAlive := false
          incoming := []
          objs := e.objs.mapIdx fun h st => if h ∈ e.incoming then st.drop else st } []
  | sendEmpty {h : Nat} {st : Stream} :
      e.objs[h]? = some st → st.owner = .caller → st.kind = .tcp →
      Effect e (.sendCall h []) e [.sendCalled h [], .sendOk h]
  | sendTooLarge {h : Nat} {data : Bytes} {st : Stream} :
      e.objs[h]? = some st → st.owner = .caller → st.kind ≠ .tcp →
      MAX_FRAME_PAYLOAD < data.length →
      Effect e (.sendCall h data) e
        [.failed (.protocol "datagram exceeds max frame payload")]
  | sendStarted {h : Nat} {data : Bytes} {st : Stream} {c : SendCall} :
      e.objs[h]? = some st → st.owner = .caller → c.charged = false →
      c.chunk ++ c.rest = data → c.chunk.length ≤ MAX_FRAME_PAYLOAD →
      (st.kind ≠ .tcp → c.rest = []) → (st.kind = .tcp → c = nextChunk data ∧ data ≠ []) →
      Effect e (.sendCall h data) (e.modify h fun st => { st with sends := st.sends ++ [c] })
        [.sendCalled h data]
  | charged {h k : Nat} {st : Stream} {c : SendCall} :
      e.objs[h]? = some st → st.owner = .caller → st.sends[k]? = some c → c.charged = false →
      (∀ sem ∈ st.sendWindow, sem.closed = false ∧ c.chunk.length ≤ sem.permits) →
      Effect e (.sendAcquire h k)
        (e.modify h fun st => { st with
          sends := st.sends.set k { c with charged := true }
          sendWindow := st.sendWindow.map fun sem =>
            { sem with permits := sem.permits - c.chunk.length } }) []
  | windowClosed {h k : Nat} {st : Stream} {c : SendCall} {sem : Semaphore} :
      e.objs[h]? = some st → st.owner = .caller → st.sends[k]? = some c → c.charged = false →
      st.sendWindow = some sem → sem.closed = true →
      Effect e (.sendAcquire h k) (e.endSend h k) [.sendStopped h (c.chunk ++ c.rest)]
  | queueClosed {h k : Nat} {st : Stream} {c : SendCall} :
      e.objs[h]? = some st → st.owner = .caller → st.sends[k]? = some c → c.charged = true →
      e.cmdOpen = false →
      Effect e (.sendQueue h k) (e.endSend h k) [.sendStopped h (c.chunk ++ c.rest)]
  | sentLast {h k : Nat} {st : Stream} {c : SendCall} :
      e.objs[h]? = some st → st.owner = .caller → st.sends[k]? = some c → c.charged = true →
      e.cmdOpen = true → e.cmdRoom = true → c.rest = [] →
      Effect e (.sendQueue h k)
        ((e.enqueue (.write (dataFrame st.kind st.id c.chunk))).endSend h k)
        [.queued (dataFrame st.kind st.id c.chunk), .sendOk h]
  | sentMore {h k : Nat} {st : Stream} {c : SendCall} :
      e.objs[h]? = some st → st.owner = .caller → st.sends[k]? = some c → c.charged = true →
      e.cmdOpen = true → e.cmdRoom = true → c.rest ≠ [] →
      Effect e (.sendQueue h k)
        ((e.enqueue (.write (dataFrame st.kind st.id c.chunk))).setSend h k (nextChunk c.rest))
        [.queued (dataFrame st.kind st.id c.chunk)]
  | sendDropped {h k : Nat} {st : Stream} {c : SendCall} :
      e.objs[h]? = some st → st.owner = .caller → st.sends[k]? = some c →
      Effect e (.sendDrop h k) (e.endSend h k) [.sendStopped h (c.chunk ++ c.rest)]
  | popped {h : Nat} {st : Stream} {chunk : Bytes} {rx : List Bytes} :
      e.objs[h]? = some st → st.owner = .caller → st.pending = none → st.rx = chunk :: rx →
      Effect e (.recvPop h)
        (e.modify h fun st => { st with
          rx := rx
          buffered := st.buffered - chunk.length
          consumed := if st.sendWindow.isSome then st.consumed + chunk.length else st.consumed
          pending := some chunk }) []
  | returned {h : Nat} {st : Stream} {chunk : Bytes} :
      e.objs[h]? = some st → st.owner = .caller → st.pending = some chunk →
      st.consumed < WINDOW_THRESHOLD →
      Effect e (.recvReturn h) (e.modify h fun st => { st with pending := none })
        [.recvOk h chunk]
  | returnedClosed {h : Nat} {st : Stream} {chunk : Bytes} :
      e.objs[h]? = some st → st.owner = .caller → st.pending = some chunk →
      WINDOW_THRESHOLD ≤ st.consumed → e.cmdOpen = false →
      Effect e (.recvReturn h) (e.modify h fun st => { st with consumed := 0, pending := none })
        [.recvOk h chunk]
  | credited {h : Nat} {st : Stream} {chunk : Bytes} {f : Frame} :
      e.objs[h]? = some st → st.owner = .caller → st.pending = some chunk →
      WINDOW_THRESHOLD ≤ st.consumed → e.cmdOpen = true → e.cmdRoom = true →
      f = windowUpdateFrame st.id (UInt32.ofNat (min st.consumed (2 ^ 32 - 1))) →
      Effect e (.recvReturn h)
        ((e.enqueue (.write f)).modify h fun st => { st with consumed := 0, pending := none })
        [.queued f, .recvOk h chunk]
  | recvClosed {h : Nat} {st : Stream} :
      e.objs[h]? = some st → st.owner = .caller → st.pending = none → st.rx = [] →
      e.sinkAlive h = false →
      Effect e (.recvClosed h) e [.recvClosed h]
  | closeFailed {h : Nat} : e.cmdOpen = false → Effect e (.close h) e [.failed .closed]
  | closeQueued {h : Nat} {st : Stream} :
      e.objs[h]? = some st → st.owner = .caller → e.cmdOpen = true → e.cmdRoom = true →
      Effect e (.close h) (e.enqueue (.write (closeFrame st.id)))
        [.queued (closeFrame st.id), .closed h]
  | streamDropped {h : Nat} {st : Stream} :
      e.objs[h]? = some st → st.owner = .caller → st.sends = [] →
      Effect e (.dropStream h) (e.modify h Stream.drop) []
  | pinged :
      e.keepaliveOn = true → e.cmdOpen = true → e.cmdRoom = true →
      Effect e .ping (e.enqueue (.write pingFrame)) [.queued pingFrame]
  | tookOpen {id : UInt32} {target : String} {h : Nat} {q : List Command} :
      e.writer = .idle → e.cmdQ = .open id target h :: q →
      Effect e .writerTake
        { e with
          cmdQ := q
          writer := .writing (openFrame id target)
          streams := e.streams.insert id h } []
  | tookClose {f : Frame} {q : List Command} :
      e.writer = .idle → e.cmdQ = .write f :: q → baseType f.ftype = FrameType.close.toU8 →
      Effect e .writerTake
        { e.removeStream f.streamId with cmdQ := q, writer := .writing f } []
  | tookWrite {f : Frame} {q : List Command} :
      e.writer = .idle → e.cmdQ = .write f :: q → baseType f.ftype ≠ FrameType.close.toU8 →
      Effect e .writerTake { e with cmdQ := q, writer := .writing f } []
  | wrote {f : Frame} :
      e.writer = .writing f → Effect e .writerWrote { e with writer := .idle } []
  | writerLeft : e.cmdOpen = true → Effect e .writerExit { e with writer := .draining } []
  | drainedOpen {id : UInt32} {target : String} {h : Nat} {q : List Command} :
      e.writer = .draining → e.cmdQ = .open id target h :: q →
      Effect e .writerDrain { e.modify h Stream.closeWindow with cmdQ := q } []
  | drainedWrite {f : Frame} {q : List Command} :
      e.writer = .draining → e.cmdQ = .write f :: q →
      Effect e .writerDrain { e with cmdQ := q } []
  | writerClosed :
      e.writer = .draining → e.cmdQ = [] →
      Effect e .writerCloseAll { e.closeAllStreams with writer := .publishing } []
  | writerPublished :
      e.writer = .publishing →
      Effect e .writerPublish { e with writer := .done, closed := true } []
  | readPing {f : Frame} :
      e.reader = .idle → baseType f.ftype = FrameType.ping.toU8 →
      Effect e (.readerTake f) { e with reader := .replying pongFrame } [.read f]
  | readIgnored {f : Frame} :
      e.reader = .idle → baseType f.ftype ≠ FrameType.ping.toU8 →
      baseType f.ftype ≠ FrameType.open.toU8 → baseType f.ftype ≠ FrameType.close.toU8 →
      (baseType f.ftype = FrameType.data.toU8 ∨ baseType f.ftype = FrameType.datagram.toU8 →
        e.streams.lookup f.streamId = none ∨
          ∃ h, e.streams.lookup f.streamId = some h ∧ e.objs[h]? = none) →
      (baseType f.ftype = FrameType.windowUpdate.toU8 →
        windowUpdateCredit f.payload = none ∨ e.streams.lookup f.streamId = none) →
      Effect e (.readerTake f) e [.read f]
  | readOpenCap {f : Frame} :
      e.reader = .idle → baseType f.ftype = FrameType.open.toU8 →
      MAX_CONCURRENT_PEER_STREAMS ≤ e.streams.entries.length →
      Effect e (.readerTake f) { e with reader := .closing } [.read f, .capAbort]
  | readOpen {f : Frame} {kind : StreamKind} {target : String} :
      e.reader = .idle → baseType f.ftype = FrameType.open.toU8 →
      e.streams.entries.length < MAX_CONCURRENT_PEER_STREAMS →
      parseOpenTarget (fromUtf8Lossy f.payload) = (kind, target) →
      Effect e (.readerTake f)
        { e with
          objs := e.objs ++ [newStream f.streamId target kind e.flowcontrolOn .inTransit]
          streams := e.streams.insert f.streamId e.objs.length
          reader := .delivering e.objs.length } [.read f]
  | readReset {f : Frame} {h : Nat} {st : Stream} {cause : ResetCause} :
      e.reader = .idle →
      baseType f.ftype = FrameType.data.toU8 ∨ baseType f.ftype = FrameType.datagram.toU8 →
      e.streams.lookup f.streamId = some h → e.objs[h]? = some st →
      st.refuses f.payload.length = some cause →
      Effect e (.readerTake f)
        { e.removeStream f.streamId with reader := .replying (closeFrame f.streamId) }
        [.read f, .reset h cause]
  | readPushed {f : Frame} {h : Nat} {st : Stream} :
      e.reader = .idle →
      baseType f.ftype = FrameType.data.toU8 ∨ baseType f.ftype = FrameType.datagram.toU8 →
      e.streams.lookup f.streamId = some h → e.objs[h]? = some st →
      st.refuses f.payload.length = none →
      Effect e (.readerTake f)
        (e.modify h fun st => { st with
          buffered := st.buffered + f.payload.length
          rx := st.rx ++ [f.payload] }) [.read f]
  | readCredit {f : Frame} {h credit : Nat} :
      e.reader = .idle → baseType f.ftype = FrameType.windowUpdate.toU8 →
      windowUpdateCredit f.payload = some credit → e.streams.lookup f.streamId = some h →
      Effect e (.readerTake f) (e.modify h fun st => st.addPermits credit) [.read f]
  | readClose {f : Frame} :
      e.reader = .idle → baseType f.ftype = FrameType.close.toU8 →
      Effect e (.readerTake f) (e.removeStream f.streamId) [.read f]
  | readCritical {f : Frame} :
      e.reader = .idle → isCritical f.ftype = true →
      (∀ ty : FrameType, ty ≠ .hello → ty ≠ .bye → baseType f.ftype ≠ ty.toU8) →
      Effect e (.readerTake f) { e with reader := .closing } [.read f]
  | replyLost {f : Frame} :
      e.reader = .replying f → e.cmdOpen = false →
      Effect e .readerReply { e with reader := .idle } []
  | replied {f : Frame} :
      e.reader = .replying f → e.cmdOpen = true → e.cmdRoom = true →
      Effect e .readerReply { e.enqueue (.write f) with reader := .idle } [.queued f]
  | deliveryFailed {h : Nat} :
      e.reader = .delivering h → e.muxAlive = false →
      Effect e .readerDeliver { e.modify h Stream.drop with reader := .closing } []
  | delivered {h : Nat} :
      e.reader = .delivering h → e.muxAlive = true → e.incoming.length < INC_CHANNEL →
      Effect e .readerDeliver { e with incoming := e.incoming ++ [h], reader := .idle } []
  | readerLeft :
      (e.reader = .idle ∨ ∃ f, e.reader = .replying f) →
      Effect e .readerExit { e with reader := .closing } []
  | readerLeftDelivering {h : Nat} :
      e.reader = .delivering h →
      Effect e .readerExit { e.modify h Stream.drop with reader := .closing } []
  | readerClosed :
      e.reader = .closing →
      Effect e .readerCloseAll { e.closeAllStreams with reader := .publishing } []
  | readerPublished :
      e.reader = .publishing →
      Effect e .readerPublish { e with reader := .done, closed := true } []
  | watchdogFired :
      e.watchdog = .watching →
      Effect e .watchdogFire { e.closeAllStreams with watchdog := .publishing } []
  | watchdogPublished :
      e.watchdog = .publishing →
      Effect e .watchdogPublish { e with watchdog := .done, closed := true } []
  | watchdogLeft :
      e.watchdog = .watching →
      Effect e .watchdogExit { e with watchdog := .done } []

variable {e e' : Endpoint} {a : Act} {ev : List Event}

theorem held_eq_some {h : Nat} {st : Stream} (hh : e.held h = some st) :
    e.objs[h]? = some st ∧ st.owner = .caller := by
  simp only [held, Option.filter_eq_some_iff, beq_iff_eq] at hh
  exact hh

theorem bumpId_eq_some (h : e.bumpId = some e') :
    e.nextId.toNat + 2 < 2 ^ 32 ∧ e' = { e with nextId := e.nextId + 2 } := by
  simp only [bumpId, Option.ite_none_right_eq_some, Option.some.injEq] at h
  exact ⟨h.1, h.2.symm⟩

/-! ## Calls of the application -/

theorem openStream_effect {kind : StreamKind} {target : String}
    (h : e.openStream kind target = some (e', ev)) : Effect e (.open kind target) e' ev := by
  simp only [openStream] at h
  split at h
  · cases h
  · next hm =>
    split at h
    · next err herr =>
      cases h
      exact .openRefused herr
    · next herr =>
      split at h
      · cases h
      · next e₁ hb =>
        obtain ⟨hlt, rfl⟩ := bumpId_eq_some hb
        split at h
        · next hc =>
          cases h
          exact .openClosed (by simpa using hc) hlt
        · next hc =>
          split at h
          · next hr =>
            cases h
            exact .opened (by simpa using hm) herr hlt (by simpa using hc) hr
          · cases h

theorem openDropped_effect {kind : StreamKind} (h : e.openDropped kind = some (e', ev)) :
    Effect e (.openDropped kind) e' ev := by
  simp only [openDropped, Option.ite_none_right_eq_some, Option.map_eq_some_iff] at h
  obtain ⟨-, e₁, hb, heq⟩ := h
  obtain ⟨hlt, rfl⟩ := bumpId_eq_some hb
  cases heq
  exact .openDropped hlt

theorem accept_effect (h : e.accept = some (e', ev)) : Effect e .accept e' ev := by
  simp only [accept] at h
  split at h
  · cases h
  · next hd rest hi =>
    split at h
    · cases h
      exact .accepted hi
    · cases h

theorem dropMux_effect (h : e.dropMux = some (e', ev)) : Effect e .dropMux e' ev := by
  simp only [dropMux] at h
  split at h
  · cases h
    exact .muxDropped
  · cases h

theorem nextChunk_append (data : Bytes) : (nextChunk data).chunk ++ (nextChunk data).rest = data :=
  List.take_append_drop _ _

theorem length_nextChunk_le (data : Bytes) : (nextChunk data).chunk.length ≤ MAX_FRAME_PAYLOAD :=
  List.length_take_le _ _

theorem sendCall_effect {h : Nat} {data : Bytes} (hs : e.sendCall h data = some (e', ev)) :
    Effect e (.sendCall h data) e' ev := by
  simp only [sendCall] at hs
  split at hs
  · cases hs
  · next st hh =>
    obtain ⟨hst, ho⟩ := held_eq_some hh
    split at hs
    · next hk =>
      split at hs
      · next hd =>
        cases hs
        cases List.isEmpty_iff.mp hd
        exact .sendEmpty hst ho hk
      · next hd =>
        cases hs
        exact .sendStarted hst ho rfl (nextChunk_append data) (length_nextChunk_le data)
          (fun hne => absurd hk hne) fun _ => ⟨rfl, by simpa using hd⟩
    all_goals
      next hk =>
      split at hs
      · next hlt =>
        cases hs
        exact .sendTooLarge hst ho (by simp [hk]) hlt
      · next hlt =>
        cases hs
        exact .sendStarted hst ho rfl (List.append_nil _) (Nat.not_lt.mp hlt)
          (fun _ => rfl) fun hk' => absurd (hk.symm.trans hk') (by decide)

/-- Two updates of a stream that agree on it are the same. -/
theorem modify_congr {h : Nat} {st : Stream} {f g : Stream → Stream}
    (hst : e.objs[h]? = some st) (hfg : f st = g st) : e.modify h f = e.modify h g := by
  have hobjs : e.objs.modify h f = e.objs.modify h g := by
    apply List.ext_getElem?
    intro i
    simp only [List.getElem?_modify]
    split
    · next hi =>
      subst hi
      simp [hst, hfg]
    · rfl
  simp only [modify, hobjs]

theorem modify_modify {h : Nat} {f g : Stream → Stream} :
    (e.modify h f).modify h g = e.modify h (g ∘ f) := by
  simp [modify, List.modify_modify_eq]

theorem sendAcquire_effect {h k : Nat} (hs : e.sendAcquire h k = some (e', ev)) :
    Effect e (.sendAcquire h k) e' ev := by
  simp only [sendAcquire] at hs
  split at hs
  · cases hs
  · next st hh =>
    obtain ⟨hst, ho⟩ := held_eq_some hh
    split at hs
    · cases hs
    · next c hc =>
      split at hs
      · cases hs
      · next hch =>
        have hch : c.charged = false := by simpa using hch
        split at hs
        · next hw =>
          cases hs
          have heff := Effect.charged hst ho hc hch (by simp [hw])
          rwa [modify_congr (g := fun st => { st with
            sends := st.sends.set k { c with charged := true } }) hst (by simp [hw])] at heff
        · next sem hw =>
          split at hs
          · next hcl =>
            cases hs
            exact .windowClosed hst ho hc hch hw hcl
          · next hcl =>
            split at hs
            · next hle =>
              cases hs
              have heff := Effect.charged hst ho hc hch (by simp [hw, hcl, hle])
              rw [setSend, modify_modify]
              rwa [modify_congr hst (by simp [hw]; rfl)] at heff
            · cases hs

theorem sendQueue_effect {h k : Nat} (hs : e.sendQueue h k = some (e', ev)) :
    Effect e (.sendQueue h k) e' ev := by
  simp only [sendQueue] at hs
  split at hs
  · cases hs
  · next st hh =>
    obtain ⟨hst, ho⟩ := held_eq_some hh
    split at hs
    · cases hs
    · next c hc =>
      split at hs
      · cases hs
      · next hch =>
        have hch : c.charged = true := by simpa using hch
        split at hs
        · next hco =>
          cases hs
          exact .queueClosed hst ho hc hch (by simpa using hco)
        · next hco =>
          have hco : e.cmdOpen = true := by simpa using hco
          split at hs
          · next hr =>
            split at hs
            · next hrest =>
              cases hs
              exact .sentLast hst ho hc hch hco hr (List.isEmpty_iff.mp hrest)
            · next hrest =>
              cases hs
              exact .sentMore hst ho hc hch hco hr (by simpa using hrest)
          · cases hs

theorem sendDrop_effect {h k : Nat} (hs : e.sendDrop h k = some (e', ev)) :
    Effect e (.sendDrop h k) e' ev := by
  simp only [sendDrop] at hs
  split at hs
  · cases hs
  · next st hh =>
    obtain ⟨hst, ho⟩ := held_eq_some hh
    split at hs
    · cases hs
    · next c hc =>
      cases hs
      exact .sendDropped hst ho hc

theorem recvPop_effect {h : Nat} (hs : e.recvPop h = some (e', ev)) :
    Effect e (.recvPop h) e' ev := by
  simp only [recvPop] at hs
  split at hs
  · cases hs
  · next st hh =>
    obtain ⟨hst, ho⟩ := held_eq_some hh
    split at hs
    · next chunk rx hp hrx =>
      cases hs
      exact .popped hst ho hp hrx
    · cases hs

theorem recvReturn_effect {h : Nat} (hs : e.recvReturn h = some (e', ev)) :
    Effect e (.recvReturn h) e' ev := by
  simp only [recvReturn, modify_modify] at hs
  split at hs
  · cases hs
  · next st hh =>
    obtain ⟨hst, ho⟩ := held_eq_some hh
    split at hs
    · cases hs
    · next chunk hp =>
      split at hs
      · next hle =>
        split at hs
        · next hco =>
          cases hs
          exact .returnedClosed hst ho hp hle (by simpa using hco)
        · next hco =>
          split at hs
          · next hr =>
            cases hs
            exact .credited hst ho hp hle (by simpa using hco) hr rfl
          · cases hs
      · next hlt =>
        cases hs
        exact .returned hst ho hp (Nat.not_le.mp hlt)

theorem recvClosed_effect {h : Nat} (hs : e.recvClosed h = some (e', ev)) :
    Effect e (.recvClosed h) e' ev := by
  simp only [Endpoint.recvClosed] at hs
  split at hs
  · cases hs
  · next st hh =>
    obtain ⟨hst, ho⟩ := held_eq_some hh
    split at hs
    · next hc =>
      cases hs
      simp only [Bool.and_eq_true, Option.isNone_iff_eq_none, List.isEmpty_iff,
        Bool.not_eq_true'] at hc
      exact .recvClosed hst ho hc.1.1 hc.1.2 hc.2
    · cases hs

theorem closeStream_effect {h : Nat} (hs : e.closeStream h = some (e', ev)) :
    Effect e (.close h) e' ev := by
  simp only [closeStream] at hs
  split at hs
  · cases hs
  · next st hh =>
    obtain ⟨hst, ho⟩ := held_eq_some hh
    split at hs
    · next hco =>
      cases hs
      exact .closeFailed (by simpa using hco)
    · next hco =>
      split at hs
      · next hr =>
        cases hs
        exact .closeQueued hst ho (by simpa using hco) hr
      · cases hs

theorem dropStream_effect {h : Nat} (hs : e.dropStream h = some (e', ev)) :
    Effect e (.dropStream h) e' ev := by
  simp only [dropStream] at hs
  split at hs
  · cases hs
  · next st hh =>
    obtain ⟨hst, ho⟩ := held_eq_some hh
    split at hs
    · next hem =>
      cases hs
      exact .streamDropped hst ho (List.isEmpty_iff.mp hem)
    · cases hs

theorem ping_effect (hs : e.ping = some (e', ev)) : Effect e .ping e' ev := by
  simp only [ping, Bool.and_eq_true, Option.ite_none_right_eq_some, Option.some.injEq,
    Prod.mk.injEq] at hs
  obtain ⟨⟨⟨⟨hk, -⟩, hco⟩, hr⟩, rfl, rfl⟩ := hs
  exact .pinged hk hco hr

/-! ## The writer -/

theorem removeStream_with {q : List Command} {w : WriterState} {id : UInt32} :
    Endpoint.removeStream { e with cmdQ := q, writer := w } id =
      { e.removeStream id with cmdQ := q, writer := w } := by
  simp only [removeStream]
  split <;> rfl

theorem writerTake_effect (hs : e.writerTake = some (e', ev)) : Effect e .writerTake e' ev := by
  simp only [writerTake] at hs
  split at hs
  · next c q hw hq =>
    split at hs
    · next id target h =>
      cases hs
      exact .tookOpen hw hq
    · next f =>
      split at hs
      · next hb =>
        cases hs
        rw [removeStream_with]
        exact .tookClose hw hq hb
      · next hb =>
        cases hs
        exact .tookWrite hw hq hb
  · cases hs

theorem writerDrain_effect (hs : e.writerDrain = some (e', ev)) :
    Effect e .writerDrain e' ev := by
  simp only [writerDrain] at hs
  split at hs
  · next hw hq =>
    cases hs
    exact .drainedOpen hw hq
  · next hw hq =>
    cases hs
    exact .drainedWrite hw hq
  · cases hs

theorem writer_effect (ha : a = .writerWrote ∨ a = .writerExit ∨ a = .writerCloseAll ∨
    a = .writerPublish) (hs : e.step a = some (e', ev)) : Effect e a e' ev := by
  rcases ha with rfl | rfl | rfl | rfl
  · simp only [step, writerWrote] at hs
    split at hs
    · next f hw =>
      cases hs
      exact .wrote hw
    · cases hs
  · simp only [step, writerExit] at hs
    split at hs
    · next hc =>
      cases hs
      exact .writerLeft hc
    · cases hs
  · simp only [step, writerCloseAll] at hs
    split at hs
    · next hw hq =>
      cases hs
      exact .writerClosed hw hq
    · cases hs
  · simp only [step, writerPublish] at hs
    split at hs
    · next hw =>
      cases hs
      exact .writerPublished hw
    · cases hs

/-! ## The reader -/

theorem onData_effect {f : Frame} (hr : e.reader = .idle)
    (hb : baseType f.ftype = FrameType.data.toU8 ∨ baseType f.ftype = FrameType.datagram.toU8) :
    Effect e (.readerTake f) (e.onData f).1 (.read f :: (e.onData f).2) := by
  have hother : ∀ ty : FrameType, ty ≠ .data → ty ≠ .datagram → baseType f.ftype ≠ ty.toU8 := by
    intro ty h1 h2
    rcases hb with hb | hb <;> rw [hb, ne_eq, FrameType.toU8_inj]
    · exact Ne.symm h1
    · exact Ne.symm h2
  have hignored : (e.streams.lookup f.streamId = none ∨
      ∃ h, e.streams.lookup f.streamId = some h ∧ e.objs[h]? = none) →
      Effect e (.readerTake f) e [.read f] := fun h =>
    .readIgnored hr (hother _ (by decide) (by decide)) (hother _ (by decide) (by decide))
      (hother _ (by decide) (by decide)) (fun _ => h)
      (fun hw => absurd hw (hother _ (by decide) (by decide)))
  simp only [onData]
  split
  · next hl => exact hignored (Or.inl hl)
  · next h hl =>
    split
    · next ho => exact hignored (Or.inr ⟨h, hl, ho⟩)
    · next st ho =>
      split
      · next cause hc => exact .readReset hr hb hl ho hc
      · next hc => exact .readPushed hr hb hl ho hc

theorem readerTake_effect {f : Frame} (hs : e.readerTake f = some (e', ev)) :
    Effect e (.readerTake f) e' ev := by
  simp only [readerTake, Option.ite_none_right_eq_some, Option.some.injEq, Prod.mk.injEq] at hs
  obtain ⟨hr, rfl, rfl⟩ := hs
  simp only [onFrame]
  split
  · next hb => exact .readPing hr hb
  · next hping =>
    split
    · next hb =>
      have hne : ∀ ty : FrameType, ty ≠ .pong → baseType f.ftype ≠ ty.toU8 := by
        intro ty hty
        rw [hb, ne_eq, FrameType.toU8_inj]
        exact Ne.symm hty
      exact .readIgnored hr hping (hne _ (by decide)) (hne _ (by decide))
        (fun h => h.elim (fun h => absurd h (hne _ (by decide)))
          fun h => absurd h (hne _ (by decide)))
        fun h => absurd h (hne _ (by decide))
    · next hpong =>
      split
      · next hb =>
        simp only [onOpen]
        split
        · next hcap => exact .readOpenCap hr hb hcap
        · next hcap => exact .readOpen hr hb (Nat.not_le.mp hcap) rfl
      · next hopen =>
        split
        · next hb => exact onData_effect hr hb
        · next hdata =>
          split
          · next hb =>
            have hclose : baseType f.ftype ≠ FrameType.close.toU8 := by
              rw [hb, ne_eq, FrameType.toU8_inj]
              decide
            simp only [onWindowUpdate]
            split
            · next credit h hc hl => exact .readCredit hr hb hc hl
            · next hno =>
              refine .readIgnored hr hping hopen hclose (fun h => absurd h hdata) fun _ => ?_
              cases hc : windowUpdateCredit f.payload with
              | none => exact Or.inl rfl
              | some credit =>
                cases hl : e.streams.lookup f.streamId with
                | none => exact Or.inr rfl
                | some h => exact absurd hl (hno credit h hc)
          · next hwu =>
            split
            · next hb => exact .readClose hr hb
            · next hclose =>
              split
              · next hcrit =>
                refine .readCritical hr hcrit fun ty h1 h2 => ?_
                rw [not_or] at hdata
                cases ty with
                | hello => exact absurd rfl h1
                | bye => exact absurd rfl h2
                | «open» => exact hopen
                | data => exact hdata.1
                | close => exact hclose
                | datagram => exact hdata.2
                | ping => exact hping
                | pong => exact hpong
                | windowUpdate => exact hwu
              · exact .readIgnored hr hping hopen hclose (fun h => absurd h hdata)
                  fun h => absurd h hwu

theorem reader_effect (ha : a = .readerReply ∨ a = .readerDeliver ∨ a = .readerExit ∨
    a = .readerCloseAll ∨ a = .readerPublish) (hs : e.step a = some (e', ev)) :
    Effect e a e' ev := by
  rcases ha with rfl | rfl | rfl | rfl | rfl
  · simp only [step, readerReply] at hs
    split at hs
    · next f hr =>
      split at hs
      · next hc =>
        cases hs
        exact .replyLost hr (by simpa using hc)
      · next hc =>
        split at hs
        · next hroom =>
          cases hs
          exact .replied hr (by simpa using hc) hroom
        · cases hs
    · cases hs
  · simp only [step, readerDeliver] at hs
    split at hs
    · next h hr =>
      split at hs
      · next hm =>
        cases hs
        exact .deliveryFailed hr (by simpa using hm)
      · next hm =>
        split at hs
        · next hlt =>
          cases hs
          exact .delivered hr (by simpa using hm) hlt
        · cases hs
    · cases hs
  · simp only [step, readerExit] at hs
    split at hs
    · next hr =>
      cases hs
      exact .readerLeft (Or.inl hr)
    · next f hr =>
      cases hs
      exact .readerLeft (Or.inr ⟨f, hr⟩)
    · next h hr =>
      cases hs
      exact .readerLeftDelivering hr
    · cases hs
  · simp only [step, readerCloseAll] at hs
    split at hs
    · next hr =>
      cases hs
      exact .readerClosed hr
    · cases hs
  · simp only [step, readerPublish] at hs
    split at hs
    · next hr =>
      cases hs
      exact .readerPublished hr
    · cases hs

theorem watchdog_effect (ha : a = .watchdogFire ∨ a = .watchdogPublish ∨ a = .watchdogExit)
    (hs : e.step a = some (e', ev)) : Effect e a e' ev := by
  rcases ha with rfl | rfl | rfl
  · simp only [step, watchdogFire] at hs
    split at hs
    · next hw =>
      cases hs
      exact .watchdogFired hw
    · cases hs
  · simp only [step, watchdogPublish] at hs
    split at hs
    · next hw =>
      cases hs
      exact .watchdogPublished hw
    · cases hs
  · simp only [step, watchdogExit] at hs
    split at hs
    · next hw =>
      cases hs
      exact .watchdogLeft hw.1
    · cases hs

/-- **Inversion of the step function.** -/
theorem step_effect (hs : e.step a = some (e', ev)) : Effect e a e' ev := by
  cases a with
  | «open» kind target => exact openStream_effect hs
  | openDropped kind => exact openDropped_effect hs
  | accept => exact accept_effect hs
  | dropMux => exact dropMux_effect hs
  | sendCall h data => exact sendCall_effect hs
  | sendAcquire h k => exact sendAcquire_effect hs
  | sendQueue h k => exact sendQueue_effect hs
  | sendDrop h k => exact sendDrop_effect hs
  | recvPop h => exact recvPop_effect hs
  | recvReturn h => exact recvReturn_effect hs
  | recvClosed h => exact recvClosed_effect hs
  | close h => exact closeStream_effect hs
  | dropStream h => exact dropStream_effect hs
  | ping => exact ping_effect hs
  | writerTake => exact writerTake_effect hs
  | writerDrain => exact writerDrain_effect hs
  | readerTake f => exact readerTake_effect hs
  | writerWrote | writerExit | writerCloseAll | writerPublish =>
    exact writer_effect (by simp) hs
  | readerReply | readerDeliver | readerExit | readerCloseAll | readerPublish =>
    exact reader_effect (by simp) hs
  | watchdogFire | watchdogPublish | watchdogExit => exact watchdog_effect (by simp) hs

end Endpoint

end Leshiy.Mux
