import Leshiy.Mux.Basic

/-!
# The stream multiplexer: steps of one endpoint

A step is what one task or one API call does between two places where it may wait: a full or
empty channel, missing send credit, the transport. `none` means that the task waits there (or
is not at that place). A call that is dropped while it waits is a step of its own
(`openDropped`, `sendDrop`); a dropped `recv` leaves `pending` and `consumed` as they are, which
is the state every `recv` starts from, so it needs no step.

What the environment decides is left open: a transport error, an idle timeout or the closed
flag may end the writer and the reader at any of their waiting places, and the watchdog may
fire at any time.
-/

namespace Leshiy.Mux

open Leshiy.Lib

/-- Why the reader took the reset path of its `Data`/`Datagram` branch. -/
inductive ResetCause where
  /-- `buffered > MAX_BUFFERED`. -/
  | runaway
  /-- `try_send` failed: the data channel holds as many messages as it can. -/
  | full
  /-- `try_send` failed: the `Stream` was dropped. -/
  | dropped
  deriving DecidableEq, Repr

/-- What a step shows: results of calls, frames queued and read, decisions of the reader. -/
inductive Event where
  | queued (f : Frame)
  | read (f : Frame)
  | opened (h : Nat)
  | sendCalled (h : Nat) (data : Bytes)
  | sendOk (h : Nat)
  /-- The call returned an error or was dropped; the bytes it had not queued. -/
  | sendStopped (h : Nat) (unsent : Bytes)
  | recvOk (h : Nat) (chunk : Bytes)
  | recvClosed (h : Nat)
  | closed (h : Nat)
  | failed (err : Error)
  | reset (h : Nat) (cause : ResetCause)
  | capAbort
  deriving DecidableEq, Repr

inductive Act where
  | «open» (kind : StreamKind) (target : String)
  | openDropped (kind : StreamKind)
  | accept
  | dropMux
  | sendCall (h : Nat) (data : Bytes)
  | sendAcquire (h k : Nat)
  | sendQueue (h k : Nat)
  | sendDrop (h k : Nat)
  | recvPop (h : Nat)
  | recvReturn (h : Nat)
  | recvClosed (h : Nat)
  | close (h : Nat)
  | dropStream (h : Nat)
  | ping
  | writerTake
  | writerWrote
  | writerExit
  | writerDrain
  | writerCloseAll
  | writerPublish
  | readerTake (f : Frame)
  | readerReply
  | readerDeliver
  | readerExit
  | readerCloseAll
  | readerPublish
  | watchdogFire
  | watchdogPublish
  | watchdogExit
  deriving DecidableEq, Repr

/-- What makes `try_send` (or the check before it) refuse a message of `n` bytes. -/
def Stream.refuses (st : Stream) (n : Nat) : Option ResetCause :=
  if MAX_BUFFERED < st.buffered + n then some .runaway
  else if st.owner = .dropped then some .dropped
  else if DATA_CHANNEL ≤ st.rx.length then some .full
  else none

namespace Endpoint

/-! ## `Mux::open`, `open_datagram`, `open_icmp` and `accept` -/

/-- The capability `open_datagram` and `open_icmp` require of the peer. -/
def openError (e : Endpoint) (kind : StreamKind) : Option Error :=
  match kind with
  | .tcp => none
  | .udp =>
    if e.negotiated.capabilities &&& CAP_DATAGRAM == 0 then
      some (.protocol "peer does not support CAP_DATAGRAM")
    else none
  | .icmp =>
    if e.negotiated.capabilities &&& CAP_ICMP == 0 then
      some (.protocol "peer does not support CAP_ICMP")
    else none

/-- `self.next_id += 2`. Overflow of the `u32` is an arithmetic error: there is no such step. -/
def bumpId (e : Endpoint) : Option Endpoint :=
  if e.nextId.toNat + 2 < 2 ^ 32 then some { e with nextId := e.nextId + 2 } else none

/-- The three `open` functions: they differ in the capability and the payload's prefix. -/
def openStream (e : Endpoint) (kind : StreamKind) (target : String) :
    Option (Endpoint × List Event) :=
  if !e.muxAlive then none
  else
    match e.openError kind with
    | some err => some (e, [.failed err])
    | none =>
      match e.bumpId with
      | none => none
      | some e' =>
        let id := e.nextId
        let h := e.objs.length
        if !e.cmdOpen then some (e', [.failed .closed])
        else if e.cmdRoom then
          some (({ e' with
              objs := e.objs ++ [newStream id target kind e.flowcontrolOn .caller] }).enqueue
                (.open id (openPayload kind target) h),
            [.queued (openFrame id (openPayload kind target)), .opened h])
        else none

/-- An `open` dropped while it waits for queue room: the id is spent, the stream is gone. -/
def openDropped (e : Endpoint) (kind : StreamKind) : Option (Endpoint × List Event) :=
  if e.muxAlive && e.cmdOpen && !e.cmdRoom && (e.openError kind).isNone then
    e.bumpId.map fun e' => (e', [])
  else none

def accept (e : Endpoint) : Option (Endpoint × List Event) :=
  match e.incoming with
  | [] => none
  | h :: rest =>
    if e.muxAlive then
      some ({ e.modify h fun st => { st with owner := .caller } with incoming := rest },
        [.opened h])
    else none

/-- Dropping the `Mux` drops the streams that wait to be accepted. -/
def dropMux (e : Endpoint) : Option (Endpoint × List Event) :=
  if e.muxAlive then
    some ({ e with
        muxAlive := false
        incoming := []
        objs := e.objs.mapIdx fun h st => if h ∈ e.incoming then st.drop else st }, [])
  else none

/-! ## `Stream::send` -/

/-- Cut the next chunk off a TCP payload. -/
def nextChunk (data : Bytes) : SendCall where
  chunk := data.take MAX_FRAME_PAYLOAD
  rest := data.drop MAX_FRAME_PAYLOAD
  charged := false

@[simps!]
def setSend (e : Endpoint) (h k : Nat) (c : SendCall) : Endpoint :=
  e.modify h fun st => { st with sends := st.sends.set k c }

@[simps!]
def endSend (e : Endpoint) (h k : Nat) : Endpoint :=
  e.modify h fun st => { st with sends := st.sends.eraseIdx k }

/-- The call up to its first wait. An empty TCP payload is no frame at all. -/
def sendCall (e : Endpoint) (h : Nat) (data : Bytes) : Option (Endpoint × List Event) :=
  match e.held h with
  | none => none
  | some st =>
    let start (c : SendCall) : Endpoint :=
      e.modify h fun st => { st with sends := st.sends ++ [c] }
    match st.kind with
    | .tcp =>
      if data.isEmpty then some (e, [.sendCalled h data, .sendOk h])
      else some (start (nextChunk data), [.sendCalled h data])
    | .udp | .icmp =>
      if MAX_FRAME_PAYLOAD < data.length then
        some (e, [.failed (.protocol "datagram exceeds max frame payload")])
      else some (start ⟨data, [], false⟩, [.sendCalled h data])

/-- `acquire_credit` of call `k`: it returns once the window holds the chunk's length. -/
def sendAcquire (e : Endpoint) (h k : Nat) : Option (Endpoint × List Event) :=
  match e.held h with
  | none => none
  | some st =>
    match st.sends[k]? with
    | none => none
    | some c =>
      if c.charged then none
      else
        match st.sendWindow with
        | none => some (e.setSend h k { c with charged := true }, [])
        | some sem =>
          if sem.closed then some (e.endSend h k, [.sendStopped h (c.chunk ++ c.rest)])
          else if c.chunk.length ≤ sem.permits then
            some ((e.setSend h k { c with charged := true }).modify h fun st =>
              { st with sendWindow := some ⟨sem.permits - c.chunk.length, sem.closed⟩ }, [])
          else none

/-- `self.tx.send(..)` of call `k`, then the head of the chunk loop. -/
def sendQueue (e : Endpoint) (h k : Nat) : Option (Endpoint × List Event) :=
  match e.held h with
  | none => none
  | some st =>
    match st.sends[k]? with
    | none => none
    | some c =>
      if !c.charged then none
      else if !e.cmdOpen then some (e.endSend h k, [.sendStopped h (c.chunk ++ c.rest)])
      else if e.cmdRoom then
        let f := dataFrame st.kind st.id c.chunk
        let e' := e.enqueue (.write f)
        if c.rest.isEmpty then some (e'.endSend h k, [.queued f, .sendOk h])
        else some (e'.setSend h k (nextChunk c.rest), [.queued f])
      else none

/-- The `send` future is dropped where it waits. Credit already forgotten is not given back. -/
def sendDrop (e : Endpoint) (h k : Nat) : Option (Endpoint × List Event) :=
  match e.held h with
  | none => none
  | some st =>
    match st.sends[k]? with
    | none => none
    | some c => some (e.endSend h k, [.sendStopped h (c.chunk ++ c.rest)])

/-! ## `Stream::recv`, `close` and drop -/

/-- `recv` without a pending chunk takes the next message off the data channel. -/
def recvPop (e : Endpoint) (h : Nat) : Option (Endpoint × List Event) :=
  match e.held h with
  | none => none
  | some st =>
    match st.pending, st.rx with
    | none, chunk :: rx =>
      some (e.modify h fun st => { st with
          rx := rx
          buffered := st.buffered - chunk.length
          consumed := if st.sendWindow.isSome then st.consumed + chunk.length else st.consumed
          pending := some chunk }, [])
    | _, _ => none

/-- `recv` with a pending chunk: re-grant credit when due, then return the chunk. -/
def recvReturn (e : Endpoint) (h : Nat) : Option (Endpoint × List Event) :=
  match e.held h with
  | none => none
  | some st =>
    match st.pending with
    | none => none
    | some chunk =>
      let done (e : Endpoint) : Endpoint := e.modify h fun st => { st with pending := none }
      let credited (e : Endpoint) : Endpoint := e.modify h fun st => { st with consumed := 0 }
      if WINDOW_THRESHOLD ≤ st.consumed then
        let f := windowUpdateFrame st.id (UInt32.ofNat (min st.consumed (2 ^ 32 - 1)))
        if !e.cmdOpen then some (done (credited e), [.recvOk h chunk])
        else if e.cmdRoom then
          some (done (credited (e.enqueue (.write f))), [.queued f, .recvOk h chunk])
        else none
      else some (done e, [.recvOk h chunk])

/-- `rx.recv()` returns `None`: the channel is empty and every sink is gone. -/
def recvClosed (e : Endpoint) (h : Nat) : Option (Endpoint × List Event) :=
  match e.held h with
  | none => none
  | some st =>
    if st.pending.isNone && st.rx.isEmpty && !e.sinkAlive h then some (e, [.recvClosed h])
    else none

def closeStream (e : Endpoint) (h : Nat) : Option (Endpoint × List Event) :=
  match e.held h with
  | none => none
  | some st =>
    if !e.cmdOpen then some (e, [.failed .closed])
    else if e.cmdRoom then
      some (e.enqueue (.write (closeFrame st.id)), [.queued (closeFrame st.id), .closed h])
    else none

/-- A `Stream` can be dropped when no call borrows it. -/
def dropStream (e : Endpoint) (h : Nat) : Option (Endpoint × List Event) :=
  match e.held h with
  | none => none
  | some st => if st.sends.isEmpty then some (e.modify h Stream.drop, []) else none

/-- The keepalive task queues a `Ping`. -/
def ping (e : Endpoint) : Option (Endpoint × List Event) :=
  if e.keepaliveOn && !e.closed && e.cmdOpen && e.cmdRoom then
    some (e.enqueue (.write pingFrame), [.queued pingFrame])
  else none

/-! ## The writer task -/

/-- Take a command: register or remove its stream, then start writing its frame. -/
def writerTake (e : Endpoint) : Option (Endpoint × List Event) :=
  match e.writer, e.cmdQ with
  | .idle, c :: q =>
    let e := { e with cmdQ := q, writer := .writing c.frame }
    match c with
    | .open id _ h => some ({ e with streams := e.streams.insert id h }, [])
    | .write f =>
      if baseType f.ftype = FrameType.close.toU8 then some (e.removeStream f.streamId, [])
      else some (e, [])
  | _, _ => none

/-- `write_frame` has returned. -/
def writerWrote (e : Endpoint) : Option (Endpoint × List Event) :=
  match e.writer with
  | .writing _ => some ({ e with writer := .idle }, [])
  | _ => none

/-- The loop ends (write error, no more senders, or the closed flag): `cmd_rx.close()`. -/
def writerExit (e : Endpoint) : Option (Endpoint × List Event) :=
  if e.cmdOpen then some ({ e with writer := .draining }, []) else none

/-- A queued open already gave its caller a send window. -/
def writerDrain (e : Endpoint) : Option (Endpoint × List Event) :=
  match e.writer, e.cmdQ with
  | .draining, .open _ _ h :: q =>
    some ({ e.modify h Stream.closeWindow with cmdQ := q }, [])
  | .draining, .write _ :: q => some ({ e with cmdQ := q }, [])
  | _, _ => none

def writerCloseAll (e : Endpoint) : Option (Endpoint × List Event) :=
  match e.writer, e.cmdQ with
  | .draining, [] => some ({ e.closeAllStreams with writer := .publishing }, [])
  | _, _ => none

def writerPublish (e : Endpoint) : Option (Endpoint × List Event) :=
  if e.writer = .publishing then some ({ e with writer := .done, closed := true }, []) else none

/-! ## The reader task -/

/-- `Open`: create the stream, register it (whatever the map held under that id) and deliver. -/
def onOpen (e : Endpoint) (f : Frame) : Endpoint × List Event :=
  let (kind, target) := parseOpenTarget (fromUtf8Lossy f.payload)
  if MAX_CONCURRENT_PEER_STREAMS ≤ e.streams.entries.length then
    ({ e with reader := .closing }, [.capAbort])
  else
    let h := e.objs.length
    ({ e with
        objs := e.objs ++ [newStream f.streamId target kind e.flowcontrolOn .inTransit]
        streams := e.streams.insert f.streamId h
        reader := .delivering h }, [])

/-- The reset path: remove the sink, close its window and answer with `Close`. -/
def resetStream (e : Endpoint) (id : UInt32) : Endpoint :=
  { e.removeStream id with reader := .replying (closeFrame id) }

/-- `Data` and `Datagram`: push into the stream's channel without waiting. -/
def onData (e : Endpoint) (f : Frame) : Endpoint × List Event :=
  match e.streams.lookup f.streamId with
  | none => (e, [])
  | some h =>
    match e.objs[h]? with
    | none => (e, [])
    | some st =>
      match st.refuses f.payload.length with
      | some cause => (e.resetStream f.streamId, [.reset h cause])
      | none =>
        (e.modify h fun st => { st with
            buffered := st.buffered + f.payload.length
            rx := st.rx ++ [f.payload] }, [])

def onWindowUpdate (e : Endpoint) (f : Frame) : Endpoint :=
  match windowUpdateCredit f.payload, e.streams.lookup f.streamId with
  | some credit, some h => e.modify h fun st => st.addPermits credit
  | _, _ => e

/-- One frame through the reader's dispatch. -/
def onFrame (e : Endpoint) (f : Frame) : Endpoint × List Event :=
  let bt := baseType f.ftype
  if bt = FrameType.ping.toU8 then ({ e with reader := .replying pongFrame }, [])
  else if bt = FrameType.pong.toU8 then (e, [])
  else if bt = FrameType.open.toU8 then e.onOpen f
  else if bt = FrameType.data.toU8 ∨ bt = FrameType.datagram.toU8 then e.onData f
  else if bt = FrameType.windowUpdate.toU8 then (e.onWindowUpdate f, [])
  else if bt = FrameType.close.toU8 then (e.removeStream f.streamId, [])
  else if isCritical f.ftype then ({ e with reader := .closing }, [])
  else (e, [])

def readerTake (e : Endpoint) (f : Frame) : Option (Endpoint × List Event) :=
  if e.reader = .idle then some ((e.onFrame f).1, .read f :: (e.onFrame f).2) else none

/-- The reply is queued; if the writer is gone it is lost and the reader goes on. -/
def readerReply (e : Endpoint) : Option (Endpoint × List Event) :=
  match e.reader with
  | .replying f =>
    if !e.cmdOpen then some ({ e with reader := .idle }, [])
    else if e.cmdRoom then some ({ e.enqueue (.write f) with reader := .idle }, [.queued f])
    else none
  | _ => none

def readerDeliver (e : Endpoint) : Option (Endpoint × List Event) :=
  match e.reader with
  | .delivering h =>
    if !e.muxAlive then some ({ e.modify h Stream.drop with reader := .closing }, [])
    else if e.incoming.length < INC_CHANNEL then
      some ({ e with incoming := e.incoming ++ [h], reader := .idle }, [])
    else none
  | _ => none

/-- The loop ends (read error, idle timeout or the closed flag) at one of its waiting places. -/
def readerExit (e : Endpoint) : Option (Endpoint × List Event) :=
  match e.reader with
  | .idle | .replying _ => some ({ e with reader := .closing }, [])
  | .delivering h => some ({ e.modify h Stream.drop with reader := .closing }, [])
  | _ => none

def readerCloseAll (e : Endpoint) : Option (Endpoint × List Event) :=
  if e.reader = .closing then some ({ e.closeAllStreams with reader := .publishing }, []) else none

def readerPublish (e : Endpoint) : Option (Endpoint × List Event) :=
  if e.reader = .publishing then some ({ e with reader := .done, closed := true }, []) else none

/-! ## The suspend watchdog -/

def watchdogFire (e : Endpoint) : Option (Endpoint × List Event) :=
  if e.watchdog = .watching then
    some ({ e.closeAllStreams with watchdog := .publishing }, [])
  else none

def watchdogPublish (e : Endpoint) : Option (Endpoint × List Event) :=
  if e.watchdog = .publishing then some ({ e with watchdog := .done, closed := true }, [])
  else none

/-- Another task tore the session down first. -/
def watchdogExit (e : Endpoint) : Option (Endpoint × List Event) :=
  if e.watchdog = .watching ∧ e.closed then some ({ e with watchdog := .done }, []) else none

/-! ## The step function -/

def step (e : Endpoint) : Act → Option (Endpoint × List Event)
  | .open kind target => e.openStream kind target
  | .openDropped kind => e.openDropped kind
  | .accept => e.accept
  | .dropMux => e.dropMux
  | .sendCall h data => e.sendCall h data
  | .sendAcquire h k => e.sendAcquire h k
  | .sendQueue h k => e.sendQueue h k
  | .sendDrop h k => e.sendDrop h k
  | .recvPop h => e.recvPop h
  | .recvReturn h => e.recvReturn h
  | .recvClosed h => e.recvClosed h
  | .close h => e.closeStream h
  | .dropStream h => e.dropStream h
  | .ping => e.ping
  | .writerTake => e.writerTake
  | .writerWrote => e.writerWrote
  | .writerExit => e.writerExit
  | .writerDrain => e.writerDrain
  | .writerCloseAll => e.writerCloseAll
  | .writerPublish => e.writerPublish
  | .readerTake f => e.readerTake f
  | .readerReply => e.readerReply
  | .readerDeliver => e.readerDeliver
  | .readerExit => e.readerExit
  | .readerCloseAll => e.readerCloseAll
  | .readerPublish => e.readerPublish
  | .watchdogFire => e.watchdogFire
  | .watchdogPublish => e.watchdogPublish
  | .watchdogExit => e.watchdogExit

/-- Call `k` on a stream its caller holds waits for credit and cannot go on. -/
def blockedOnCredit (e : Endpoint) (h k : Nat) : Prop :=
  ∃ st c, e.held h = some st ∧ st.sends[k]? = some c ∧ c.charged = false ∧
    e.step (.sendAcquire h k) = none

end Endpoint

end Leshiy.Mux
