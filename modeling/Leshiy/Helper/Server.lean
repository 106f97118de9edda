import Leshiy.Helper.Runner

/-!
# The control server

`leshiy-helper/src/server.rs` over the engine of one helper: each connection carries one request and has a
task of its own, and an ephemeral helper exits when a `Shutdown` was handled or a `Subscribe` stream has
ended. A handler stops the engine, replies and signals the exit in steps of their own, with other
connections between them.

A stop is never dropped here: nothing aborts the task of a connection. Throughput rates are left out.
-/

namespace Leshiy.Helper

open Leshiy.Lib Leshiy.Client

inductive ServeMode where
  | persistent
  | ephemeral
  deriving DecidableEq, Repr

inductive Request where
  | startVpn
  | stop
  | shutdown
  | getStatus
  | subscribe
  deriving DecidableEq, Repr

/-- The end of the session of an ephemeral helper. -/
def Request.closes : Request → Bool
  | .shutdown | .subscribe => true
  | _ => false

inductive Response where
  | ok
  | status (state : State)
  | event (state : State)
  | err (message : String)
  deriving DecidableEq, Repr

def HelperError.toString : HelperError → String
  | .alreadyRunning => "a VPN session is already running"
  | .engine msg => "engine error: " ++ msg

/-- What comes of reading the request line. -/
inductive Line where
  | eof
  | failed
  | malformed (detail : String)
  | request (req : Request)
  deriving DecidableEq, Repr

/-- Where the task of a connection is: before its request, in the two parts of `start`, in `stop`, before a
write, in `subscribe_loop`, before `exit.notify_one()`, or at its end. The request is `none` where the line
held none. -/
inductive ConnPhase where
  | reading
  | starting (w : Nat)
  | awaiting (w : Nat)
  | stopping (i : Nat) (req : Request)
  | replying (resp : Response) (req : Option Request)
  | subscribed
  | signalling (req : Request)
  | ended (req : Option Request)
  deriving DecidableEq, Repr

structure ControlServer where
  mode : ServeMode
  runner : EngineRunner
  /-- What the workers have told their callers. -/
  ready : List (Nat × Except HelperError Unit)
  conns : List ConnPhase
  /-- `exit` was notified. -/
  exit : Bool
  /-- `serve_control` has returned, and the process with it. -/
  returned : Bool
  deriving DecidableEq

namespace ControlServer

/-- The steps of the tasks of the connections, of the workers, and of `serve_control`. -/
inductive Act where
  | accept
  | read (c : Nat) (line : Line)
  | store (c : Nat)
  | ready (c : Nat)
  | acquire (c : Nat)
  | joined (c : Nat)
  | write (c : Nat) (ok : Bool)
  | hangUp (c : Nat)
  | notify (c : Nat)
  | worker (a : Helper.Act)
  | serveReturn
  deriving DecidableEq

def new (mode : ServeMode) : ControlServer := ⟨mode, EngineRunner.new, [], [], false, false⟩

def setConn (s : ControlServer) (c : Nat) (p : ConnPhase) : ControlServer :=
  { s with conns := s.conns.set c p }

/-- What the runner shows goes to the callers of `start`. -/
def withRunner (s : ControlServer) (r : EngineRunner) (ev : List Event) : ControlServer :=
  { s with
    runner := r
    ready := s.ready ++ ev.filterMap fun
      | .ready w res => some (w, res)
      | _ => none }

/-- A step of the runner, and what the task of the connection makes of it. -/
def runStep (s : ControlServer) (c : Nat) (a : Helper.Act) (next : List Event → ConnPhase) :
    Option ControlServer :=
  match s.runner.step a with
  | some (r, ev) => some ((s.withRunner r ev).setConn c (next ev))
  | none => none

/-- A refusal is the reply, else a worker was spawned. -/
def startPhase (w : Nat) : List Event → ConnPhase
  | [.refused e] => .replying (.err e.toString) (some .startVpn)
  | _ => .starting w

def start (s : ControlServer) (c : Nat) : Option ControlServer :=
  s.runStep c .start (startPhase s.runner.workers.length)

def stop (s : ControlServer) (c : Nat) (req : Request) : Option ControlServer :=
  s.runStep c .stop fun _ => .stopping s.runner.stops.length req

def dispatch (s : ControlServer) (c : Nat) : Request → Option ControlServer
  | .startVpn => s.start c
  | .stop => s.stop c .stop
  | .shutdown => s.stop c .shutdown
  | .getStatus => some (s.setConn c (.replying (.status s.runner.state) (some .getStatus)))
  | .subscribe => some (s.setConn c .subscribed)

/-- Behind a handler: an ephemeral helper is told to exit. -/
def finish (s : ControlServer) (req : Request) : ConnPhase :=
  if req.closes = true ∧ s.mode = .ephemeral then .signalling req else .ended (some req)

/-- Behind its stop: the stream of a subscriber gets no reply. -/
def afterStop (s : ControlServer) (req : Request) : ConnPhase :=
  if req = .subscribe then s.finish req else .replying .ok (some req)

def isReturned : List Event → Bool
  | [.returned _ _] => true
  | _ => false

/-- The stop of a connection goes on, and may return with that. -/
def stopStep (s : ControlServer) (c i : Nat) (req : Request) (a : Helper.Act) : Option ControlServer :=
  s.runStep c a fun ev => if isReturned ev then s.afterStop req else .stopping i req

def advance (s : ControlServer) : Act → Option ControlServer
  | .accept => some { s with conns := s.conns ++ [.reading] }
  | .read c line =>
    match s.conns[c]?, line with
    | some .reading, .eof | some .reading, .failed => some (s.setConn c (.ended none))
    | some .reading, .malformed detail =>
      some (s.setConn c (.replying (.err ("bad request: " ++ detail)) none))
    | some .reading, .request req => s.dispatch c req
    | _, _ => none
  | .store c =>
    match s.conns[c]? with
    | some (.starting w) => s.runStep c .store fun _ => .awaiting w
    | _ => none
  | .ready c =>
    match s.conns[c]? with
    | some (.awaiting w) =>
      match s.ready.lookup w with
      | some (.ok _) => some (s.setConn c (.replying .ok (some .startVpn)))
      | some (.error e) => some (s.setConn c (.replying (.err e.toString) (some .startVpn)))
      | none => none
    | _ => none
  | .acquire c =>
    match s.conns[c]? with
    | some (.stopping i req) => s.stopStep c i req (.acquire i)
    | _ => none
  | .joined c =>
    match s.conns[c]? with
    | some (.stopping i req) => s.stopStep c i req (.joined i)
    | _ => none
  | .write c ok =>
    match s.conns[c]? with
    | some (.replying _ req) =>
      if ok then some (s.setConn c (req.elim (.ended none) s.finish)) else some (s.setConn c (.ended req))
    | some .subscribed => if ok then some s else s.stop c .subscribe
    | _ => none
  | .hangUp c =>
    match s.conns[c]? with
    | some .subscribed => s.stop c .subscribe
    | _ => none
  | .notify c =>
    match s.conns[c]? with
    | some (.signalling req) => some { s.setConn c (.ended (some req)) with exit := true }
    | _ => none
  | .worker a =>
    if a.worker.isSome then
      match s.runner.step a with
      | some (r, ev) => some (s.withRunner r ev)
      | none => none
    else none
  | .serveReturn => if s.exit then some { s with returned := true } else none

/-- What a step writes to a connection. -/
def written (s : ControlServer) : Act → List (Nat × Response)
  | .write c true =>
    match s.conns[c]? with
    | some (.replying resp _) => [(c, resp)]
    | some .subscribed => [(c, .event s.runner.state)]
    | _ => []
  | _ => []

/-- The process is gone when `serve_control` has returned. -/
def step (s : ControlServer) (a : Act) : Option (ControlServer × List (Nat × Response)) :=
  if s.returned then none else (s.advance a).map fun s' => (s', s.written a)

/-! ## One step -/

/-- What the task of a connection does by itself. -/
inductive Turns (s : ControlServer) (c : Nat) : Act → ConnPhase → ConnPhase → Prop
  | unread {line : Line} : Turns s c (.read c line) .reading (.ended none)
  | malformed {detail : String} :
      Turns s c (.read c (.malformed detail)) .reading (.replying (.err ("bad request: " ++ detail)) none)
  | status : Turns s c (.read c (.request .getStatus)) .reading
      (.replying (.status s.runner.state) (some .getStatus))
  | subscribed : Turns s c (.read c (.request .subscribe)) .reading .subscribed
  | started {w : Nat} {resp : Response} :
      Turns s c (.ready c) (.awaiting w) (.replying resp (some .startVpn))
  | wrote {resp : Response} {req : Option Request} :
      Turns s c (.write c true) (.replying resp req) (req.elim (.ended none) s.finish)
  | unwritten {resp : Response} {req : Option Request} :
      Turns s c (.write c false) (.replying resp req) (.ended req)
  | event : Turns s c (.write c true) .subscribed .subscribed

/-- What it does with the runner. -/
inductive Runs (s : ControlServer) : Act → Helper.Act → List Event → ConnPhase → ConnPhase → Prop
  | started {c : Nat} {ev : List Event} : Runs s (.read c (.request .startVpn)) .start ev .reading
      (startPhase s.runner.workers.length ev)
  | stopped {c : Nat} {ev : List Event} {req : Request} (hreq : req = .stop ∨ req = .shutdown) :
      Runs s (.read c (.request req)) .stop ev .reading (.stopping s.runner.stops.length req)
  | dropped {a : Act} {ev : List Event} :
      Runs s a .stop ev .subscribed (.stopping s.runner.stops.length .subscribe)
  | stored {c w : Nat} {ev : List Event} : Runs s (.store c) .store ev (.starting w) (.awaiting w)
  | waits {a : Act} {a' : Helper.Act} {ev : List Event} {i : Nat} {req : Request}
      (ha : a' = .acquire i ∨ a' = .joined i) (hev : isReturned ev = false) :
      Runs s a a' ev (.stopping i req) (.stopping i req)
  | back {a : Act} {a' : Helper.Act} {ev : List Event} {i : Nat} {req : Request}
      (ha : a' = .acquire i ∨ a' = .joined i) (hev : isReturned ev = true) :
      Runs s a a' ev (.stopping i req) (s.afterStop req)

/-- Everything a step can do. -/
inductive Effect (s : ControlServer) : Act → ControlServer → Prop
  | accepted : Effect s .accept { s with conns := s.conns ++ [.reading] }
  | turned {a : Act} {c : Nat} {p q : ConnPhase} (hp : s.conns[c]? = some p) (hturn : Turns s c a p q) :
      Effect s a (s.setConn c q)
  | ran {a : Act} {a' : Helper.Act} {c : Nat} {p q : ConnPhase} {r : EngineRunner} {ev : List Event}
      (hp : s.conns[c]? = some p) (hs : s.runner.step a' = some (r, ev)) (hrun : Runs s a a' ev p q) :
      Effect s a ((s.withRunner r ev).setConn c q)
  | worked {a' : Helper.Act} {r : EngineRunner} {ev : List Event} (hworker : a'.worker.isSome = true)
      (hs : s.runner.step a' = some (r, ev)) : Effect s (.worker a') (s.withRunner r ev)
  | notified {c : Nat} {req : Request} (hp : s.conns[c]? = some (.signalling req)) :
      Effect s (.notify c) { s.setConn c (.ended (some req)) with exit := true }
  | left (hexit : s.exit = true) : Effect s .serveReturn { s with returned := true }

variable {s s' : ControlServer} {a : Act} {c : Nat} {p q : ConnPhase}

theorem runStep_effect {a' : Helper.Act} {next : List Event → ConnPhase} (hp : s.conns[c]? = some p)
    (hrun : ∀ ev, Runs s a a' ev p (next ev)) (h : s.runStep c a' next = some s') : Effect s a s' := by
  unfold runStep at h
  split at h
  · rename_i r ev hs
    cases h
    exact .ran hp hs (hrun ev)
  · cases h

theorem stopStep_effect {a' : Helper.Act} {i : Nat} {req : Request} (hp : s.conns[c]? = some (.stopping i req))
    (ha : a' = .acquire i ∨ a' = .joined i) (h : s.stopStep c i req a' = some s') : Effect s a s' := by
  unfold stopStep at h
  refine runStep_effect hp (fun ev => ?_) h
  show Runs s a a' ev _ (if isReturned ev then _ else _)
  cases hev : isReturned ev with
  | true => exact .back ha hev
  | false => exact .waits ha hev

theorem setConn_self (hp : s.conns[c]? = some p) : s.setConn c p = s := by
  obtain ⟨hlt, rfl⟩ := List.getElem?_eq_some_iff.mp hp
  unfold setConn
  rw [List.set_getElem_self]

theorem advance_effect (h : s.advance a = some s') : Effect s a s' := by
  cases a with simp only [advance] at h
  | accept =>
    cases h
    exact .accepted
  | read d line =>
    split at h
    · rename_i hp
      cases h
      exact .turned hp .unread
    · rename_i hp
      cases h
      exact .turned hp .unread
    · rename_i hp
      cases h
      exact .turned hp .malformed
    · rename_i req hp
      cases req with
      | startVpn => exact runStep_effect hp (fun _ => .started) h
      | stop => exact runStep_effect hp (fun _ => .stopped (.inl rfl)) h
      | shutdown => exact runStep_effect hp (fun _ => .stopped (.inr rfl)) h
      | getStatus =>
        cases h
        exact .turned hp .status
      | subscribe =>
        cases h
        exact .turned hp .subscribed
    · cases h
  | store d =>
    split at h
    · rename_i hp
      exact runStep_effect hp (fun _ => .stored) h
    · cases h
  | ready d =>
    split at h
    · rename_i hp
      split at h
      · cases h
        exact .turned hp .started
      · cases h
        exact .turned hp .started
      · cases h
    · cases h
  | acquire d =>
    split at h
    · rename_i hp
      exact stopStep_effect hp (.inl rfl) h
    · cases h
  | joined d =>
    split at h
    · rename_i hp
      exact stopStep_effect hp (.inr rfl) h
    · cases h
  | write d ok =>
    split at h
    · rename_i hp
      split at h
      · rename_i hok
        cases h
        subst hok
        exact .turned hp .wrote
      · rename_i hok
        cases h
        obtain rfl : ok = false := by simpa using hok
        exact .turned hp .unwritten
    · rename_i hp
      split at h
      · rename_i hok
        cases h
        subst hok
        have heff : Effect s (.write d true) (s.setConn d .subscribed) :=
          .turned hp .event
        rwa [setConn_self hp] at heff
      · exact runStep_effect hp (fun _ => .dropped) h
    · cases h
  | hangUp d =>
    split at h
    · rename_i hp
      exact runStep_effect hp (fun _ => .dropped) h
    · cases h
  | notify d =>
    split at h
    · rename_i hp
      cases h
      exact .notified hp
    · cases h
  | worker a' =>
    split at h
    · rename_i hworker
      split at h
      · rename_i hs
        cases h
        exact .worked hworker hs
      · cases h
    · cases h
  | serveReturn =>
    split at h
    · rename_i hexit
      cases h
      exact .left hexit
    · cases h

theorem step_effect {ev : List (Nat × Response)} (h : s.step a = some (s', ev)) : Effect s a s' := by
  unfold step at h
  split at h
  · cases h
  · obtain ⟨s₁, hs₁, heq⟩ := Option.map_eq_some_iff.mp h
    cases heq
    exact advance_effect hs₁

theorem getElem?_setConn (hp : s.conns[c]? = some p) (q : ConnPhase) (d : Nat) :
    (s.setConn c q).conns[d]? = if d = c then some q else s.conns[d]? := by
  have hlt : c < s.conns.length := (List.getElem?_eq_some_iff.mp hp).1
  unfold setConn
  by_cases hd : d = c
  · subst hd
    simp [hlt]
  · simp [hd, List.getElem?_set_ne (Ne.symm hd)]

/-- How a connection has come to where it is behind a step. -/
theorem Effect.conn {d : Nat} (h : Effect s a s') (hq : s'.conns[d]? = some q) :
    s.conns[d]? = some q ∨ q = .reading ∨ (∃ p, s.conns[d]? = some p ∧ Turns s d a p q) ∨
      (∃ p a' ev, s.conns[d]? = some p ∧ s.runner.step a' = some (s'.runner, ev) ∧ Runs s a a' ev p q) ∨
      ∃ req, q = .ended (some req) ∧ s'.exit = true := by
  cases h with
  | accepted =>
    replace hq : (s.conns ++ [.reading])[d]? = some q := hq
    by_cases hlt : d < s.conns.length
    · rw [List.getElem?_append_left hlt] at hq
      exact .inl hq
    · rw [List.getElem?_append_right (Nat.le_of_not_lt hlt)] at hq
      refine .inr (.inl ?_)
      have hmem := List.mem_of_getElem? hq
      simpa using hmem
  | @turned _ c p q' hp hturn =>
    rw [getElem?_setConn hp] at hq
    by_cases hd : d = c
    · rw [if_pos hd] at hq
      cases hq
      subst hd
      exact .inr (.inr (.inl ⟨p, hp, hturn⟩))
    · rw [if_neg hd] at hq
      exact .inl hq
  | @ran _ a' c p q' r ev hp hs hrun =>
    rw [getElem?_setConn (s := s.withRunner r ev) hp] at hq
    by_cases hd : d = c
    · rw [if_pos hd] at hq
      cases hq
      subst hd
      exact .inr (.inr (.inr (.inl ⟨p, a', ev, hp, hs, hrun⟩)))
    · rw [if_neg hd] at hq
      exact .inl hq
  | worked => exact .inl hq
  | @notified c req hp =>
    replace hq : (s.setConn c (.ended (some req))).conns[d]? = some q := hq
    rw [getElem?_setConn hp] at hq
    by_cases hd : d = c
    · rw [if_pos hd] at hq
      cases hq
      exact .inr (.inr (.inr (.inr ⟨req, rfl, rfl⟩)))
    · rw [if_neg hd] at hq
      exact .inl hq
  | left => exact .inl hq

theorem Effect.mode (h : Effect s a s') : s'.mode = s.mode := by
  cases h <;> rfl

theorem Effect.runner (h : Effect s a s') :
    s'.runner = s.runner ∨ ∃ a' ev, s.runner.step a' = some (s'.runner, ev) ∧
      (a = .worker a' ∨ a'.worker = none) := by
  cases h with
  | ran _ hs hrun =>
    refine .inr ⟨_, _, hs, .inr ?_⟩
    cases hrun with
    | waits ha | back ha =>
      rcases ha with rfl | rfl
      · rfl
      · rfl
    | _ => rfl
  | worked _ hs => exact .inr ⟨_, _, hs, .inl rfl⟩
  | _ => exact .inl rfl

theorem Effect.exit (h : Effect s a s') (hexit : s'.exit = true) :
    s.exit = true ∨ ∃ (d : Nat) (req : Request), s.conns[d]? = some (.signalling req) := by
  cases h with
  | notified hp => exact .inr ⟨_, _, hp⟩
  | _ => exact .inl hexit

theorem Effect.exit_mono (h : Effect s a s') (hexit : s.exit = true) : s'.exit = true := by
  cases h with
  | notified => rfl
  | _ => exact hexit

/-! ## Every run -/

/-- What holds of an ephemeral helper under any order of steps. A subscriber gets no reply behind its
stop. -/
structure Inv (s : ControlServer) : Prop where
  runner : s.runner.Inv
  ephemeral : s.mode = .ephemeral
  unreplied : ∀ (c : Nat) (resp : Response), s.conns[c]? ≠ some (.replying resp (some .subscribe))

theorem inv_new : (new .ephemeral).Inv where
  runner := EngineRunner.inv_new
  ephemeral := rfl
  unreplied := by
    intro c resp
    simp [new]

theorem finish_ne_replying {req : Request} {resp : Response} {req' : Option Request} :
    s.finish req ≠ .replying resp req' := by
  unfold finish
  split <;> simp

theorem Inv.step (h : s.Inv) (he : Effect s a s') : s'.Inv where
  runner := by
    rcases he.runner with heq | ⟨a', ev, hs, -⟩
    · rw [heq]
      exact h.runner
    · exact h.runner.step hs
  ephemeral := he.mode.trans h.ephemeral
  unreplied := by
    intro c resp hc
    rcases he.conn hc with hc | hc | ⟨p, hp, hturn⟩ | ⟨p, a', ev, hp, -, hrun⟩ | ⟨req, hc, -⟩
    · exact h.unreplied c resp hc
    · cases hc
    · generalize hq : ConnPhase.replying resp (some .subscribe) = q at hturn
      cases hturn with
      | @wrote _ req =>
        cases req with
        | none => cases hq
        | some req => exact finish_ne_replying hq.symm
      | _ => cases hq
    · generalize hq : ConnPhase.replying resp (some .subscribe) = q at hrun
      cases hrun with
      | started =>
        unfold startPhase at hq
        split at hq <;> cases hq
      | back =>
        unfold afterStop at hq
        split at hq
        · exact finish_ne_replying hq.symm
        · rename_i hreq
          cases hq
          exact hreq rfl
      | _ => cases hq
    · cases hc

end ControlServer

/-! ## The engine and the exit -/

/-- The engine has the routes and the DNS of the host. -/
def WorkerPhase.inEngine : WorkerPhase → Bool
  | .running | .draining => true
  | _ => false

namespace EngineRunner

variable {r r' : EngineRunner} {a : Act} {ev : List Event} {w : Nat} {wk wk' : Worker}

def EngineUp (r : EngineRunner) : Prop := ∃ wk ∈ r.workers, wk.phase.inEngine = true

theorem engineUp_iff : r.EngineUp ↔ ∃ (w : Nat) (wk : Worker), r.workers[w]? = some wk ∧ wk.phase.inEngine = true := by
  simp only [EngineUp, List.mem_iff_getElem?]
  constructor
  · rintro ⟨wk, ⟨w, hw⟩, hup⟩
    exact ⟨w, wk, hw, hup⟩
  · rintro ⟨w, wk, hw, hup⟩
    exact ⟨wk, ⟨w, hw⟩, hup⟩

theorem not_engineUp_of_none (h : ∀ w, ¬ r.Alive w) : ¬ r.EngineUp := by
  intro hup
  obtain ⟨w, wk, hw, hphase⟩ := engineUp_iff.mp hup
  refine h w ⟨wk, hw, ?_⟩
  intro heq
  rw [heq] at hphase
  cases hphase

theorem Moves.inEngine {st st' : State} (h : Moves wk st wk' st') (hup : wk'.phase.inEngine = true) :
    wk.phase.inEngine = true ∨ ∃ b, wk = ⟨.polling, b⟩ := by
  cases h with
  | runs => exact .inr ⟨_, rfl⟩
  | drains => exact .inl rfl
  | _ => cases hup

/-- Only a preparation that succeeds brings the worker into the engine. -/
theorem not_inEngine_of_polling {b : Bool} (hw : r.workers[w]? = some ⟨.polling, b⟩) (hact : a.worker = some w)
    (ha : ∀ u, a ≠ .pollPrepare w (.ready (.ok u))) (hs : r.step a = some (r', ev)) :
    ∃ wk', r'.workers[w]? = some wk' ∧ wk'.phase.inEngine = false := by
  have hself : ∀ wk', (r.setWorker w wk').workers[w]? = some wk' := fun wk' => by
    rw [getElem?_setWorker hw, if_pos rfl]
  cases a with
  | pollPrepare v p =>
    cases hact
    cases p with
    | pending =>
      simp only [step, hw, Option.some.injEq, Prod.mk.injEq] at hs
      exact ⟨_, hs.1 ▸ hself _, rfl⟩
    | ready res =>
      cases res with
      | ok u => exact absurd rfl (ha u)
      | error e =>
        simp only [step, hw, Option.some.injEq, Prod.mk.injEq] at hs
        exact ⟨_, hs.1 ▸ hself _, rfl⟩
  | pollCancel v | engineCancel v | engineExit v | publish v | finish v =>
    cases hact
    simp [step, hw] at hs
  | _ => cases hact

theorem engineUp_step (ha : ∀ w u, a ≠ .pollPrepare w (.ready (.ok u))) (hs : r.step a = some (r', ev))
    (h : r'.EngineUp) : r.EngineUp := by
  cases EngineRunner.step_effect hs with
  | spawned =>
    obtain ⟨w, wk, hw, hup⟩ := engineUp_iff.mp h
    rcases getElem?_spawn.mp hw with hw | ⟨-, rfl⟩
    · exact engineUp_iff.mpr ⟨w, wk, hw, hup⟩
    · cases hup
  | @found i v =>
    obtain ⟨w, wk, hw, hup⟩ := engineUp_iff.mp h
    replace hw : (r.notifyOne v).workers[w]? = some wk := hw
    rw [getElem?_notifyOne] at hw
    obtain ⟨wk₀, hw₀, rfl⟩ := Option.map_eq_some_iff.mp hw
    refine engineUp_iff.mpr ⟨w, wk₀, hw₀, ?_⟩
    by_cases hwv : w = v <;> simpa [hwv] using hup
  | @worked _ w wk wk' st _ hw hmoves _ hact =>
    obtain ⟨v, wk₁, hv, hup⟩ := engineUp_iff.mp h
    replace hv : (r.setWorker w wk').workers[v]? = some wk₁ := hv
    by_cases hvw : v = w
    · subst hvw
      have hself := hv
      rw [getElem?_setWorker hw, if_pos rfl] at hself
      cases hself
      rcases hmoves.inEngine hup with hwk | ⟨b, rfl⟩
      · exact engineUp_iff.mpr ⟨v, wk, hw, hwk⟩
      · obtain ⟨wk₂, hwk₂, hdown⟩ := not_inEngine_of_polling hw hact (ha v) hs
        cases hv.symm.trans hwk₂
        rw [hup] at hdown
        cases hdown
    · rw [getElem?_setWorker hw, if_neg hvw] at hv
      exact engineUp_iff.mpr ⟨v, wk₁, hv, hup⟩
  | _ => exact h

theorem engineUp_of_prepared {u : Unit} (hs : r.step (.pollPrepare w (.ready (.ok u))) = some (r', ev)) :
    r'.EngineUp := by
  simp only [step] at hs
  split at hs
  · rename_i heq
    cases heq
  · rename_i permit _ hw _
    cases hs
    refine engineUp_iff.mpr ⟨w, ⟨.running, permit⟩, ?_, rfl⟩
    show (r.setWorker w _).workers[w]? = _
    rw [getElem?_setWorker hw, if_pos rfl]
  · rename_i heq
    cases heq
  · cases hs

end EngineRunner

namespace ControlServer

variable {s s' : ControlServer} {a : Act} {p q : ConnPhase}

/-- The handler has come back from its stop, and the exit comes next. -/
def closingPhase : ConnPhase → Bool
  | .replying _ (some .shutdown) | .signalling _ => true
  | _ => false

/-- The exit was signalled, or is about to be. -/
def Closing (s : ControlServer) : Prop := s.exit = true ∨ ∃ p ∈ s.conns, closingPhase p = true

/-- What an ephemeral helper promises: who has handled the end of a session has signalled the exit, and no
engine is up behind the signal. -/
structure ExitSafe (s : ControlServer) : Prop where
  certain : ∀ (c : Nat) (req : Request), s.conns[c]? = some (.ended (some req)) → req.closes = true → s.exit = true
  safe : s.exit = true → ¬ s.runner.EngineUp

/-- No engine comes up once a handler has come back from its stop, and a `Shutdown` gets its reply, at least
as long as nobody has signalled the exit. -/
structure Orderly (s : ControlServer) (a : Act) : Prop where
  engine : ∀ w u, a = .worker (.pollPrepare w (.ready (.ok u))) → ¬ s.Closing
  reply : ∀ (c : Nat) (resp : Response), a = .write c false → s.conns[c]? = some (.replying resp (some .shutdown)) →
    s.exit = true

theorem closing_of_conn {d : Nat} (hp : s.conns[d]? = some p) (h : closingPhase p = true) : s.Closing :=
  .inr ⟨p, List.mem_of_getElem? hp, h⟩

theorem finish_of_not_closes {req : Request} (h : req.closes = false) : s.finish req = .ended (some req) := by
  unfold finish
  rw [if_neg (by simp [h])]

theorem Inv.finish_of_closes {req : Request} (h : s.Inv) (hreq : req.closes = true) :
    s.finish req = .signalling req := by
  unfold finish
  rw [if_pos ⟨hreq, h.ephemeral⟩]

/-- A handler that only replies is no closer to the exit than before. -/
theorem Turns.closing {d : Nat} (hinv : s.Inv) (hp : s.conns[d]? = some p) (h : Turns s d a p q)
    (hq : closingPhase q = true) : closingPhase p = true := by
  cases h with
  | @wrote resp req =>
    cases req with
    | none => cases hq
    | some req =>
      cases req with
      | shutdown => rfl
      | subscribe => exact absurd hp (hinv.unreplied d resp)
      | _ =>
        rw [Option.elim_some, finish_of_not_closes rfl] at hq
        cases hq
  | unwritten => cases hq
  | _ => cases hq

/-- Only the return of a stop brings a handler there. -/
theorem Runs.closing {a' : Helper.Act} {ev : List Event} (h : Runs s a a' ev p q) (hq : closingPhase q = true) :
    isReturned ev = true := by
  cases h with
  | started =>
    unfold startPhase at hq
    split at hq <;> cases hq
  | back _ hev => exact hev
  | _ => cases hq

theorem not_engineUp_of_returned {r r' : EngineRunner} {a' : Helper.Act} {ev : List Event} (h : r.Inv)
    (hs : r.step a' = some (r', ev)) (hev : isReturned ev = true) : ¬ r'.EngineUp := by
  unfold isReturned at hev
  split at hev
  · rename_i i v
    exact EngineRunner.not_engineUp_of_none (EngineRunner.quiet_of_returned h hs (List.mem_singleton_self _)).1.1
  · cases hev

/-- **The step lemma**: as long as the steps are orderly, there is no engine behind a handler that has come
back from its stop. -/
theorem closing_step (hinv : s.Inv) (he : Effect s a s') (hok : s.Orderly a)
    (h : s.Closing → ¬ s.runner.EngineUp) : s'.Closing → ¬ s'.runner.EngineUp := by
  intro hclosing
  by_cases hpre : s.Closing
  · rcases he.runner with heq | ⟨a', ev, hs, ha'⟩
    · rw [heq]
      exact h hpre
    · intro hup
      refine h hpre (EngineRunner.engineUp_step ?_ hs hup)
      rintro w u rfl
      rcases ha' with ha' | ha'
      · exact hok.engine w u ha' hpre
      · cases ha'
  · have hnew : ∃ (d : Nat) (q : ConnPhase), s'.conns[d]? = some q ∧ closingPhase q = true := by
      rcases hclosing with hexit | ⟨q, hq, hcl⟩
      · exfalso
        rcases he.exit hexit with hexit | ⟨d, req, hd⟩
        · exact hpre (.inl hexit)
        · exact hpre (closing_of_conn hd rfl)
      · obtain ⟨d, hd⟩ := List.mem_iff_getElem?.mp hq
        exact ⟨d, q, hd, hcl⟩
    obtain ⟨d, q, hd, hcl⟩ := hnew
    rcases he.conn hd with hd | rfl | ⟨p, hp, hturn⟩ | ⟨p, a', ev, hp, hs, hrun⟩ | ⟨req, rfl, -⟩
    · exact absurd (closing_of_conn hd hcl) hpre
    · cases hcl
    · exact absurd (closing_of_conn hp (hturn.closing hinv hp hcl)) hpre
    · exact not_engineUp_of_returned hinv.runner hs (hrun.closing hcl)
    · cases hcl

theorem certain_step (hinv : s.Inv) (he : Effect s a s') (hok : s.Orderly a)
    (h : ∀ (c : Nat) (req : Request), s.conns[c]? = some (.ended (some req)) → req.closes = true → s.exit = true)
    {c : Nat} {req : Request} (hc : s'.conns[c]? = some (.ended (some req))) (hreq : req.closes = true) :
    s'.exit = true := by
  rcases he.conn hc with hc | hc | ⟨p, hp, hturn⟩ | ⟨p, a', ev, hp, -, hrun⟩ | ⟨-, -, hexit⟩
  · exact he.exit_mono (h c req hc hreq)
  · cases hc
  · generalize hq : ConnPhase.ended (some req) = q at hturn
    cases hturn with
    | @wrote resp req' =>
      cases req' with
      | none => cases hq
      | some req' =>
        rw [Option.elim_some] at hq
        cases hreq' : req'.closes with
        | true =>
          rw [hinv.finish_of_closes hreq'] at hq
          cases hq
        | false =>
          rw [finish_of_not_closes hreq'] at hq
          cases hq
          rw [hreq] at hreq'
          cases hreq'
    | @unwritten resp req' =>
      cases hq
      cases req with
      | shutdown => exact he.exit_mono (hok.reply c resp rfl hp)
      | subscribe => exact absurd hp (hinv.unreplied c resp)
      | _ => cases hreq
    | _ => cases hq
  · generalize hq : ConnPhase.ended (some req) = q at hrun
    cases hrun with
    | started =>
      unfold startPhase at hq
      split at hq <;> cases hq
    | back =>
      unfold afterStop at hq
      split at hq
      · rename_i hsub
        rw [hsub, hinv.finish_of_closes rfl] at hq
        cases hq
      · cases hq
    | _ => cases hq
  · exact hexit

variable {log : List (Taken ControlServer Act (Nat × Response))}

theorem inv_run (h : Exec step (new .ephemeral) log s) : s.Inv :=
  h.state_inv inv_new fun _ _ _ _ hinv hs => hinv.step (step_effect hs)

theorem exitSafe_run (h : Exec step (new .ephemeral) log s) (hok : Steps Orderly log) : s.ExitSafe := by
  have hrun : (∀ (c : Nat) (req : Request), s.conns[c]? = some (.ended (some req)) → req.closes = true →
      s.exit = true) ∧ (s.Closing → ¬ s.runner.EngineUp) := by
    induction h with
    | nil =>
      refine ⟨?_, ?_⟩
      · intro c req hc
        simp [new] at hc
      · rintro - ⟨wk, hwk, -⟩
        cases hwk
    | snoc hrun hs ih =>
      rw [steps_snoc] at hok
      obtain ⟨hcertain, hclosing⟩ := ih hok.1
      exact ⟨fun _ _ => certain_step (inv_run hrun) (step_effect hs) hok.2 hcertain,
        closing_step (inv_run hrun) (step_effect hs) hok.2 hclosing⟩
  exact ⟨hrun.1, fun hexit => hrun.2 (.inl hexit)⟩

/-! ### What a disorderly step leads to -/

theorem advance_of_step {ev : List (Nat × Response)} (h : s.step a = some (s', ev)) :
    s.returned = false ∧ s.advance a = some s' := by
  unfold step at h
  split at h
  · cases h
  · rename_i hret
    obtain ⟨s₁, hs₁, heq⟩ := Option.map_eq_some_iff.mp h
    cases heq
    exact ⟨by simpa using hret, hs₁⟩

theorem step_of_advance (hret : s.returned = false) (h : s.advance a = some s') :
    s.step a = some (s', s.written a) := by
  unfold step
  simp [hret, h]

/-- A handler behind its stop goes on to the exit whatever the engine does. -/
theorem unsafe_of_closingPhase {d : Nat} (hinv : s.Inv) (hret : s.returned = false)
    (hp : s.conns[d]? = some p) (hcl : closingPhase p = true) (hup : s.runner.EngineUp) :
    ∃ s', Reaches step s s' ∧ ¬ s'.ExitSafe := by
  have hsignalling : ∀ (s₁ : ControlServer) (req : Request), s₁.returned = false → s₁.runner = s.runner →
      s₁.conns[d]? = some (.signalling req) → ∃ s', Reaches step s₁ s' ∧ ¬ s'.ExitSafe := by
    intro s₁ req hret₁ hrunner hd
    have hnotify : s₁.advance (.notify d) =
        some { s₁.setConn d (.ended (some req)) with exit := true } := by
      simp [advance, hd]
    refine ⟨_, Reaches.refl.snoc (step_of_advance hret₁ hnotify), ?_⟩
    exact fun hsafe => hsafe.safe rfl (show s₁.runner.EngineUp from hrunner ▸ hup)
  unfold closingPhase at hcl
  split at hcl
  · rename_i resp
    have hwrite : s.advance (.write d true) = some (s.setConn d (.signalling .shutdown)) := by
      simp [advance, hp, hinv.finish_of_closes (show Request.closes .shutdown = true from rfl)]
    obtain ⟨s', hreach, hunsafe⟩ := hsignalling (s.setConn d (.signalling .shutdown)) .shutdown hret rfl
      (by rw [getElem?_setConn hp, if_pos rfl])
    exact ⟨s', (Reaches.refl.snoc (step_of_advance hret hwrite)).trans hreach, hunsafe⟩
  · exact hsignalling s _ hret rfl hp
  · cases hcl

/-- No step is excluded for nothing. -/
theorem unsafe_of_disorderly {ev : List (Nat × Response)} (hinv : s.Inv) (hs : s.step a = some (s', ev))
    (hdis : ¬ s.Orderly a) : ∃ s'', Reaches step s' s'' ∧ ¬ s''.ExitSafe := by
  obtain ⟨hret, hadv⟩ := advance_of_step hs
  have hinv' : s'.Inv := hinv.step (step_effect hs)
  by_cases hreply : ∀ (c : Nat) (resp : Response), a = .write c false →
      s.conns[c]? = some (.replying resp (some .shutdown)) → s.exit = true
  · have hengine : ∃ w u, a = .worker (.pollPrepare w (.ready (.ok u))) ∧ s.Closing := by
      by_contra hnone
      push Not at hnone
      exact hdis ⟨hnone, hreply⟩
    obtain ⟨w, u, rfl, hclosing⟩ := hengine
    obtain ⟨r, ev', hrun, rfl⟩ : ∃ r ev', s.runner.step (.pollPrepare w (.ready (.ok u))) = some (r, ev') ∧
        s' = s.withRunner r ev' := by
      simp only [advance, Helper.Act.worker, Option.isSome_some, if_true] at hadv
      split at hadv
      · rename_i r ev' hrun
        cases hadv
        exact ⟨r, ev', hrun, rfl⟩
      · cases hadv
    have hup : r.EngineUp := EngineRunner.engineUp_of_prepared hrun
    rcases hclosing with hexit | ⟨p, hp, hcl⟩
    · exact ⟨_, .refl, fun hsafe => hsafe.safe hexit hup⟩
    · obtain ⟨d, hd⟩ := List.mem_iff_getElem?.mp hp
      exact unsafe_of_closingPhase hinv' hret (d := d) (p := p) hd hcl hup
  · push Not at hreply
    obtain ⟨c, resp, rfl, hc, hexit⟩ := hreply
    refine ⟨s', .refl, fun hsafe => hexit ?_⟩
    have hended : s' = s.setConn c (.ended (some .shutdown)) := by
      simpa [advance, hc] using hadv.symm
    have hcertain := hsafe.certain c .shutdown (by rw [hended, getElem?_setConn hc, if_pos rfl]) rfl
    rwa [hended] at hcertain

instance (s : ControlServer) : Decidable s.Closing :=
  inferInstanceAs (Decidable (s.exit = true ∨ ∃ p ∈ s.conns, closingPhase p = true))

end ControlServer

end Leshiy.Helper
