import Mathlib.Data.List.AList
import Mathlib.Data.List.DropRight
import Mathlib.Tactic.Simps.Basic
import Leshiy.Core.Version
import Leshiy.Lib.Utf8

/-!
# The stream multiplexer: data

`leshiy-core/src/mux.rs`. One endpoint is the `Mux` handle with its `Stream`s, the command
queue, the shared stream map and the background tasks (writer, reader, keepalive, watchdog).

`Stream` and `StreamSink` share a byte counter, a data channel and a send window through
`Arc`s. Here one record `Stream` holds all of it; a *handle* is its index in `Endpoint.objs`.
The stream map and a queued `Command::Open` hold handles, which is what a `StreamSink` is.
-/

namespace Leshiy.Mux

open Leshiy.Lib

/-! ## Constants -/

def MAX_CONCURRENT_PEER_STREAMS : Nat := 1024
def INIT_WINDOW : Nat := 256 * 1024
def WINDOW_THRESHOLD : Nat := INIT_WINDOW / 2
def MAX_CREDIT : Nat := INIT_WINDOW
def MAX_BUFFERED : Nat := 4 * 1024 * 1024

/-- Capacity of a stream's data channel, in messages. -/
def DATA_CHANNEL : Nat := 1024
/-- Capacity of the command queue. -/
def CMD_CHANNEL : Nat := 256
/-- Capacity of the channel of accepted streams. -/
def INC_CHANNEL : Nat := 32

/-! ## Roles, kinds and open targets -/

inductive Role where
  | client
  | server
  deriving DecidableEq, Repr

inductive StreamKind where
  | tcp
  | udp
  | icmp
  deriving DecidableEq, Repr

/-- `str::strip_prefix`. -/
def stripPrefix (s pre : String) : Option String :=
  (s.toList.dropPrefix? pre.toList).map String.ofList

/-- The scheme prefixes in the order `parse_open_target` tries them. -/
def openSchemes : List (String × StreamKind) :=
  [("udp:", .udp), ("icmp:", .icmp), ("tcp:", .tcp)]

/-- Split an `Open` payload into its kind and target. A bare target is TCP. -/
def parseOpenTarget (raw : String) : StreamKind × String :=
  (openSchemes.findSome? fun (pre, kind) => (stripPrefix raw pre).map fun rest => (kind, rest)).getD
    (.tcp, raw)

/-- The target text that `open`, `open_datagram` and `open_icmp` put in the `Open` payload. -/
def openPayload (kind : StreamKind) (target : String) : String :=
  match kind with
  | .tcp => target
  | .udp => "udp:" ++ target
  | .icmp => "icmp:" ++ target

/-! ## Frames the mux builds -/

def openFrame (id : UInt32) (target : String) : Frame :=
  ⟨id, FrameType.open.toU8, utf8Bytes target⟩

def dataFrame (kind : StreamKind) (id : UInt32) (payload : Bytes) : Frame :=
  match kind with
  | .tcp => ⟨id, FrameType.data.toU8, payload⟩
  | .udp | .icmp => ⟨id, FrameType.datagram.toU8, payload⟩

def closeFrame (id : UInt32) : Frame := ⟨id, FrameType.close.toU8, []⟩

def windowUpdateFrame (id : UInt32) (credit : UInt32) : Frame :=
  ⟨id, FrameType.windowUpdate.toU8, beEncode 4 credit.toNat⟩

def pingFrame : Frame := ⟨0, FrameType.ping.toU8, []⟩

def pongFrame : Frame := ⟨0, FrameType.pong.toU8, []⟩

/-- The credit a `WindowUpdate` payload carries after the clamp, if it has its four bytes. -/
def windowUpdateCredit (payload : Bytes) : Option Nat :=
  if 4 ≤ payload.length then some (min (u32FromBeBytes (payload.take 4)).toNat MAX_CREDIT)
  else none

/-! ## Streams -/

/-- A `tokio` semaphore: available permits, and whether it was closed. -/
structure Semaphore where
  permits : Nat
  closed : Bool
  deriving DecidableEq, Repr

/-- A `Stream::send` call that has not returned yet. -/
structure SendCall where
  /-- The chunk being sent. -/
  chunk : Bytes
  /-- What is left of the payload after it. -/
  rest : Bytes
  /-- `acquire_credit` has returned; the call waits for room in the command queue. -/
  charged : Bool
  deriving DecidableEq, Repr

/-- Where the `Stream` value is: not yet accepted, with its caller, or dropped. -/
inductive Owner where
  | inTransit
  | caller
  | dropped
  deriving DecidableEq, Repr

structure Stream where
  target : String
  kind : StreamKind
  id : UInt32
  owner : Owner
  /-- Messages in the data channel. -/
  rx : List Bytes
  consumed : Nat
  pending : Option Bytes
  buffered : Nat
  sendWindow : Option Semaphore
  /-- The `send` calls in progress on this stream. -/
  sends : List SendCall
  deriving DecidableEq, Repr

def newStream (id : UInt32) (target : String) (kind : StreamKind) (flowcontrol : Bool)
    (owner : Owner) : Stream where
  target := target
  kind := kind
  id := id
  owner := owner
  rx := []
  consumed := 0
  pending := none
  buffered := 0
  sendWindow := if flowcontrol then some ⟨INIT_WINDOW, false⟩ else none
  sends := []

namespace Stream

/-- `StreamSink::close`. -/
def closeWindow (st : Stream) : Stream :=
  { st with sendWindow := st.sendWindow.map fun sem => { sem with closed := true } }

def addPermits (st : Stream) (n : Nat) : Stream :=
  { st with sendWindow := st.sendWindow.map fun sem => { sem with permits := sem.permits + n } }

/-- Dropping a `Stream` drops its receiver and what the data channel holds. -/
def drop (st : Stream) : Stream := { st with owner := .dropped, rx := [], pending := none }

end Stream

/-! ## Endpoints -/

inductive Command where
  | «open» (id : UInt32) (target : String) (sink : Nat)
  | write (f : Frame)
  deriving DecidableEq, Repr

/-- The frame the writer puts on the transport for a command. -/
def Command.frame : Command → Frame
  | .open id target _ => openFrame id target
  | .write f => f

/-- The writer task: its loop, then the phases of its cleanup. -/
inductive WriterState where
  | idle
  | writing (f : Frame)
  | draining
  | publishing
  | done
  deriving DecidableEq, Repr

/-- The reader task: its loop with the two places where it waits, then its cleanup. -/
inductive ReaderState where
  | idle
  /-- Waiting for command-queue room for a `Pong` or a reset `Close`. -/
  | replying (f : Frame)
  /-- Waiting for room in the channel of accepted streams. -/
  | delivering (sink : Nat)
  | closing
  | publishing
  | done
  deriving DecidableEq, Repr

inductive WatchdogState where
  | watching
  | publishing
  | done
  deriving DecidableEq, Repr

/-- The shared map: stream id to the handle of its sink. -/
abbrev Streams := AList fun _ : UInt32 => Nat

structure Endpoint where
  negotiated : Negotiated
  objs : List Stream
  streams : Streams
  cmdQ : List Command
  incoming : List Nat
  nextId : UInt32
  /-- The `Mux` value has not been dropped. -/
  muxAlive : Bool
  closed : Bool
  writer : WriterState
  reader : ReaderState
  watchdog : WatchdogState
  deriving DecidableEq

namespace Endpoint

def flowcontrolOn (e : Endpoint) : Bool := e.negotiated.capabilities &&& CAP_FLOWCONTROL != 0

def keepaliveOn (e : Endpoint) : Bool := e.negotiated.capabilities &&& CAP_KEEPALIVE != 0

/-- The state `start_with_keepalive` leaves when the HELLO exchange has succeeded. -/
def start (negotiated : Negotiated) (role : Role) : Endpoint where
  negotiated := negotiated
  objs := []
  streams := ∅
  cmdQ := []
  incoming := []
  nextId := if role = .client then 1 else 2
  muxAlive := true
  closed := false
  writer := .idle
  reader := .idle
  watchdog := if negotiated.capabilities &&& CAP_KEEPALIVE != 0 then .watching else .done

/-- The command queue still takes commands: the writer has not closed its receiver. -/
def cmdOpen (e : Endpoint) : Bool :=
  match e.writer with
  | .idle | .writing _ => true
  | _ => false

/-- The command queue has a free slot. -/
def cmdRoom (e : Endpoint) : Bool := e.cmdQ.length < CMD_CHANNEL

@[simps]
def enqueue (e : Endpoint) (c : Command) : Endpoint := { e with cmdQ := e.cmdQ ++ [c] }

@[simps]
def modify (e : Endpoint) (h : Nat) (f : Stream → Stream) : Endpoint :=
  { e with objs := e.objs.modify h f }

/-- The stream of a handle that its caller still has. -/
def held (e : Endpoint) (h : Nat) : Option Stream :=
  e.objs[h]?.filter fun st => st.owner == .caller

/-- Remove a stream from the map and close its window. -/
def removeStream (e : Endpoint) (id : UInt32) : Endpoint :=
  match e.streams.lookup id with
  | none => e
  | some h => { e.modify h Stream.closeWindow with streams := e.streams.erase id }

/-- The handles in the stream map. -/
def sinks (e : Endpoint) : List Nat := e.streams.entries.map Sigma.snd

/-- Drain the stream map, closing every send window. -/
@[simps]
def closeAllStreams (e : Endpoint) : Endpoint :=
  { e with
    streams := ∅
    objs := e.objs.mapIdx fun h st => if h ∈ e.sinks then st.closeWindow else st }

/-- Some `StreamSink` of the handle exists, so its `data_tx` has not been dropped. -/
def sinkAlive (e : Endpoint) (h : Nat) : Bool :=
  h ∈ e.sinks || e.cmdQ.any fun
    | .open _ _ h' => h' == h
    | .write _ => false

end Endpoint

end Leshiy.Mux
