import Leshiy.Lib.Run
import Leshiy.Client.Supervisor

/-!
# The supervisor's shell

`Inner` and its event loop `run` (`leshiy-client/src/runtime.rs`), which drive the machine against a
transport, the system's proxy setting and a listener on the local port.

The tasks that the shell has spawned and not heard of again stand in one list: dials, backoff timers,
and the listener and the monitor of a tunnel. Which of them reports next is open, and so is what the
system answers when the shell binds its port or sets or clears the proxy.
-/

namespace Leshiy.Client

open Leshiy.Lib

structure SocketAddr where
  ip : List UInt8
  port : UInt16
  deriving DecidableEq, Repr

/-- A port the system hands out. -/
abbrev Port := { p : UInt16 // p ≠ 0 }

/-- `local_addr` of a socket bound to the address: port 0 lets the system choose. -/
def SocketAddr.bound (a : SocketAddr) (p : Port) : SocketAddr :=
  if a.port = 0 then { a with port := p.1 } else a

structure SupervisorConfig where
  socksAddr : SocketAddr
  killSwitch : Bool
  backoffBase : Duration
  backoffMax : Duration

instance : Inhabited SupervisorConfig where
  default :=
    { socksAddr := ⟨[127, 0, 0, 1], 1080⟩
      killSwitch := true
      backoffBase := ⟨0, 500000000⟩
      backoffMax := ⟨30, 0⟩ }

abbrev TaskId := Nat

inductive Job where
  | dial (uri : String)
  | backoff (delay : Duration)
  | listener
  | monitor
  deriving DecidableEq, Repr

/-- A task that has been spawned: the generation it reports under, and whether it has been aborted. An
aborted task may still have its report in the channel. -/
structure Task where
  id : TaskId
  job : Job
  generation : Nat
  aborted : Bool
  deriving DecidableEq, Repr

def Task.isDial (t : Task) : Bool :=
  match t.job with
  | .dial _ => true
  | _ => false

def Task.isBackoff (t : Task) : Bool :=
  match t.job with
  | .backoff _ => true
  | _ => false

/-- The tasks that report the end of a tunnel. -/
def Task.isServing (t : Task) : Bool :=
  match t.job with
  | .listener | .monitor => true
  | _ => false

/-- What `proxy.set` did. One that fails may have got part of the way. -/
inductive SetOutcome where
  | done
  | failed (applied : Bool)
  deriving DecidableEq, Repr

/-- What the system answers during one event: the port of the listener unless it cannot be bound, what
becomes of `proxy.set`, and whether `proxy.clear` succeeds. -/
structure Answers where
  bind : Option Port
  set : SetOutcome
  clear : Bool
  deriving DecidableEq

/-- What can be seen of the shell: its calls of the proxy, the states it publishes, and the user's
disconnects. -/
inductive Effect where
  | disconnect
  | proxySet (addr : SocketAddr) (outcome : SetOutcome)
  | proxyClear (ok : Bool)
  | publish (state : State)
  deriving DecidableEq, Repr

/-- The state of the shell, then the tasks, how many have been spawned, and the address the system's
proxy setting points at. -/
structure Inner (Tunnel : Type) where
  machine : Machine
  socksAddr : SocketAddr
  currentUri : String
  current : Option Tunnel
  listener : Option TaskId
  closedMonitor : Option TaskId
  generation : Nat
  dial : Option TaskId
  tasks : List Task
  spawned : Nat
  os : Option SocketAddr
  deriving DecidableEq

namespace Inner

section

variable {Tunnel : Type}

def spawn (s : Inner Tunnel) (job : Job) : Inner Tunnel :=
  { s with tasks := s.tasks ++ [⟨s.spawned, job, s.generation, false⟩], spawned := s.spawned + 1 }

/-- `take` a handle and abort its task. -/
def abort (s : Inner Tunnel) (handle : Option TaskId) : Inner Tunnel :=
  { s with tasks := s.tasks.map fun t => if handle = some t.id then { t with aborted := true } else t }

/-- A dial under a generation of its own. -/
def startDial (s : Inner Tunnel) : Inner Tunnel :=
  let s := { s with generation := s.generation + 1 }
  { s.spawn (.dial s.currentUri) with dial := some s.spawned }

/-- The listener is bound: it serves the tunnel, and the monitor waits for the tunnel to close. -/
def listen (s : Inner Tunnel) (port : Port) : Inner Tunnel :=
  let s := { s with socksAddr := s.socksAddr.bound port }
  let s' := { s.spawn .listener with listener := some s.spawned }
  { s'.spawn .monitor with closedMonitor := some s'.spawned }

def stopServing (s : Inner Tunnel) : Inner Tunnel :=
  { (s.abort s.listener).abort s.closedMonitor with
    listener := none, closedMonitor := none, current := none }

/-- The shell after an action, what it showed, and whether the action failed. -/
structure Outcome (Tunnel : Type) where
  inner : Inner Tunnel
  ev : List Effect
  failed : Bool

/-- One action of `apply`. -/
def perform (o : Answers) (s : Inner Tunnel) : Action → Outcome Tunnel
  | .dial =>
    match s.dial with
    | some _ => ⟨s, [], false⟩
    | none => ⟨s.startDial, [], false⟩
  | .setProxy =>
    match o.set with
    | .done => ⟨{ s with os := some s.socksAddr }, [.proxySet s.socksAddr .done], false⟩
    | .failed applied =>
      -- the setting is cleared for what may have been applied of it
      let os := if applied then some s.socksAddr else s.os
      ⟨{ s with os := if o.clear then none else os },
        [.proxySet s.socksAddr (.failed applied), .proxyClear o.clear], true⟩
  | .clearProxy =>
    ⟨{ s with os := if o.clear then none else s.os }, [.proxyClear o.clear], !o.clear⟩
  | .startServing =>
    match s.current with
    | none => ⟨s, [], false⟩
    | some _ =>
      match o.bind with
      | none => ⟨s, [], true⟩
      | some port => ⟨s.listen port, [], false⟩
  | .stopServing => ⟨s.stopServing, [], false⟩
  | .scheduleBackoff delay => ⟨s.spawn (.backoff delay), [], false⟩
  | .emit state => ⟨s, [.publish state], false⟩

/-- The actions in order, up to the first that fails. -/
def applyUntil (o : Answers) (s : Inner Tunnel) : List Action → Outcome Tunnel
  | [] => ⟨s, [], false⟩
  | a :: as =>
    let r := s.perform o a
    if r.failed then r
    else
      let r' := r.inner.applyUntil o as
      ⟨r'.inner, r.ev ++ r'.ev, r'.failed⟩

/-- The machine's answer to an input, up to the first action that fails. -/
def feedUntil (o : Answers) (s : Inner Tunnel) (input : Input) : Outcome Tunnel :=
  let (m, actions) := s.machine.handle input
  { s with machine := m }.applyUntil o actions

/-- `feed` and `apply`: a failed action feeds `ServiceFailed` and abandons what is left of the list.
The second feed is the last one, see `feedUntil_serviceFailed`. -/
def feed (o : Answers) (s : Inner Tunnel) (input : Input) : Inner Tunnel × List Effect :=
  let r := s.feedUntil o input
  if r.failed then
    let r' := r.inner.feedUntil o .serviceFailed
    (r'.inner, r.ev ++ r'.ev)
  else (r.inner, r.ev)

/-- The start of a disconnect: what is still under way belongs to an older generation from now on. -/
def hangUp (s : Inner Tunnel) : Inner Tunnel :=
  { s.abort s.dial with generation := s.generation + 1, dial := none }

inductive Command where
  | connect (uri : String)
  | disconnect
  | connectivity (online : Bool)
  deriving DecidableEq, Repr

def onCommand (o : Answers) (s : Inner Tunnel) : Command → Inner Tunnel × List Effect
  | .connect uri =>
    if s.machine.state = .disconnected ∨ s.machine.state = .error then
      { s with currentUri := uri }.feed o .connect
    else (s, [])
  | .disconnect =>
    let r := s.hangUp.feed o .disconnect
    (r.1, .disconnect :: r.2)
  | .connectivity online => s.feed o (.connectivity online)

/-- The tunnel is there before the event is fed, and dropped if the machine did not adopt it. -/
def onDialResult (o : Answers) (s : Inner Tunnel) : Option Tunnel → Inner Tunnel × List Effect
  | some tunnel =>
    let r := { s with current := some tunnel }.feed o .dialSucceeded
    if r.1.machine.state ≠ .connected then ({ r.1 with current := none }, r.2) else r
  | none => s.feed o .dialFailed

/-- A task of the given kind and the shell without it: its report has been received. -/
def take (s : Inner Tunnel) (kind : Task → Bool) (id : TaskId) : Option (Task × Inner Tunnel) :=
  (s.tasks.find? fun t => t.id = id && kind t).map fun t =>
    (t, { s with tasks := s.tasks.filter (·.id ≠ id) })

end

end Inner

/-- The event loop: the shell, and whether the loop is still running. -/
structure Runtime (Tunnel : Type) where
  inner : Inner Tunnel
  running : Bool
  deriving DecidableEq

/-- What the loop wakes up for: a command, the report of one of the tasks, or the end of the command
channel. An aborted task may also end without a report. -/
inductive Event (Tunnel : Type) where
  | command (cmd : Inner.Command)
  | dialed (id : TaskId) (res : Option Tunnel)
  | elapsed (id : TaskId)
  | dropped (id : TaskId)
  | vanished (id : TaskId)
  | closed
  deriving DecidableEq

/-- The task whose report is delivered. -/
def Event.report {Tunnel : Type} : Event Tunnel → Option TaskId
  | .dialed id _ | .elapsed id | .dropped id => some id
  | _ => none

def Event.goesOn {Tunnel : Type} : Event Tunnel → Bool
  | .closed => false
  | _ => true

namespace Runtime

section

variable {Tunnel : Type}

/-- `spawn_supervisor`. -/
def spawnSupervisor (cfg : SupervisorConfig) : Runtime Tunnel where
  inner :=
    { machine := .new cfg.killSwitch cfg.backoffBase cfg.backoffMax
      socksAddr := cfg.socksAddr
      currentUri := ""
      current := none
      listener := none
      closedMonitor := none
      generation := 0
      dial := none
      tasks := []
      spawned := 0
      os := none }
  running := true

/-- The report of a task: it counts if it carries the current generation. -/
def receive (s : Inner Tunnel) (kind : Task → Bool) (id : TaskId)
    (handler : Inner Tunnel → Inner Tunnel × List Effect) : Option (Inner Tunnel × List Effect) :=
  (s.take kind id).map fun (t, s) => if t.generation = s.generation then handler s else (s, [])

/-- One turn of the loop of `run`. -/
def turn (o : Answers) (s : Inner Tunnel) : Event Tunnel → Option (Inner Tunnel × List Effect)
  | .command cmd => some (s.onCommand o cmd)
  | .dialed id res =>
    receive s Task.isDial id fun s => { s with dial := none }.onDialResult o res
  | .elapsed id => receive s Task.isBackoff id fun s => s.feed o .backoffElapsed
  | .dropped id => receive s Task.isServing id fun s => s.feed o .tunnelDropped
  | .vanished id => (s.take Task.aborted id).map fun (_, s) => (s, [])
  | .closed => some (s.onCommand o .disconnect)

def step (s : Runtime Tunnel) (a : Event Tunnel × Answers) : Option (Runtime Tunnel × List Effect) :=
  if s.running then
    (turn a.2 s.inner a.1).map fun r => (⟨r.1, a.1.goesOn⟩, r.2)
  else none

end

end Runtime

end Leshiy.Client
