import Leshiy.Lib.Run
import Leshiy.Client.Supervisor

/-!
# The helper's engine

`EngineRunner` (`leshiy-helper/src/runner.rs`): callers start and stop an engine that runs in a worker
task of its own. The session slot holds the worker and its cancel signal behind a mutex. A start only
tries the mutex and refuses when it is taken; a stop waits for it and keeps it until the worker is done.
The published state is written by both and by the worker.

A `Notify` holds at most one permit. One that reaches a waiter which is dropped before it is polled goes
back, so a permit is lost only to a check that has seen it.
-/

namespace Leshiy.Helper

open Leshiy.Lib Leshiy.Client

inductive HelperError where
  | alreadyRunning
  | engine (msg : String)
  deriving DecidableEq, Repr

/-- Where a worker is: before a poll of its `select!`, within one (it has found no permit and polls
`prepare` next), in the engine, in the engine behind its cancel signal, behind the engine, behind its
last publication, or at its end. -/
inductive WorkerPhase where
  | preparing
  | polling
  | running
  | draining
  | exiting
  | published
  | finished
  deriving DecidableEq, Repr

/-- A worker that has not published its end. -/
def WorkerPhase.busy : WorkerPhase → Bool
  | .published | .finished => false
  | _ => true

/-- A worker that looks at its cancel signal again. -/
def WorkerPhase.heeds : WorkerPhase → Bool
  | .preparing | .polling | .running => true
  | _ => false

/-- How many steps a worker with a signal has left at most. -/
def WorkerPhase.rank : WorkerPhase → Nat
  | .polling => 6
  | .preparing => 5
  | .running => 4
  | .draining => 3
  | .exiting => 2
  | .published => 1
  | .finished => 0

structure Worker where
  phase : WorkerPhase
  /-- The permit of its cancel signal. -/
  permit : Bool
  deriving DecidableEq, Repr

/-- Who has the mutex: a start that has spawned a worker, or a stop. -/
inductive Holder where
  | start (w : Nat)
  | stop (i : Nat)
  deriving DecidableEq, Repr

/-- A call of `stop`: it waits for the mutex, or for the worker it found; it has returned, or its future
was dropped. -/
inductive StopPhase where
  | waiting
  | draining (w : Nat)
  | returned
  | cancelled
  deriving DecidableEq, Repr

structure EngineRunner where
  state : State
  /-- The worker in the session slot. -/
  session : Option Nat
  lock : Option Holder
  /-- All workers that were spawned. -/
  workers : List Worker
  stops : List StopPhase
  deriving DecidableEq, Repr

/-- What a caller gets to see: a refusal, the outcome of a start, and the return of a stop with the worker
it has waited for. -/
inductive Event where
  | refused (err : HelperError)
  | ready (w : Nat) (res : Except HelperError Unit)
  | returned (i : Nat) (w : Option Nat)
  deriving DecidableEq

/-- What `prepare` answers to a poll. -/
inductive Poll where
  | pending
  | ready (res : Except HelperError Unit)
  deriving DecidableEq

/-- A call of `start`, and its end; a call of `stop`, the mutex for it, the end of its wait, the end of its
future; and the steps of a worker. -/
inductive Act where
  | start
  | store
  | stop
  | acquire (i : Nat)
  | joined (i : Nat)
  | cancelStop (i : Nat)
  | pollCancel (w : Nat)
  | pollPrepare (w : Nat) (p : Poll)
  | engineCancel (w : Nat)
  | engineExit (w : Nat)
  | publish (w : Nat)
  | finish (w : Nat)
  deriving DecidableEq

/-- The worker whose step it is. -/
def Act.worker : Act → Option Nat
  | .pollCancel w | .pollPrepare w _ | .engineCancel w | .engineExit w | .publish w | .finish w => some w
  | _ => none

namespace EngineRunner

def new : EngineRunner := ⟨.disconnected, none, none, [], []⟩

def isFinished (r : EngineRunner) (w : Nat) : Bool :=
  r.workers[w]?.all fun wk => wk.phase = .finished

def setWorker (r : EngineRunner) (w : Nat) (wk : Worker) : EngineRunner :=
  { r with workers := r.workers.set w wk }

def setStop (r : EngineRunner) (i : Nat) (p : StopPhase) : EngineRunner :=
  { r with stops := r.stops.set i p }

/-- `notify_one` on the cancel signal of a worker. -/
def notifyOne (r : EngineRunner) (w : Nat) : EngineRunner :=
  { r with workers := r.workers.modify w fun wk => { wk with permit := true } }

/-- The end of `stop`. -/
def returnStop (r : EngineRunner) (i : Nat) (w : Option Nat) : EngineRunner × List Event :=
  ({ r.setStop i .returned with session := none, state := .disconnected, lock := none }, [.returned i w])

def step (r : EngineRunner) : Act → Option (EngineRunner × List Event)
  | .start =>
    if r.lock.isSome then some (r, [.refused .alreadyRunning])
    else if r.session.any fun w => !r.isFinished w then some (r, [.refused .alreadyRunning])
    else
      let w := r.workers.length
      some ({ r with
        state := .connecting
        workers := r.workers ++ [⟨.preparing, false⟩]
        lock := some (.start w) }, [])
  | .store =>
    match r.lock with
    | some (.start w) => some ({ r with session := some w, lock := none }, [])
    | _ => none
  | .stop => some ({ r with stops := r.stops ++ [.waiting] }, [])
  | .acquire i =>
    match r.stops[i]?, r.lock with
    | some .waiting, none =>
      match r.session with
      | none => some (r.returnStop i none)
      | some w => some ({ (r.notifyOne w).setStop i (.draining w) with lock := some (.stop i) }, [])
    | _, _ => none
  | .joined i =>
    match r.stops[i]? with
    | some (.draining w) => if r.isFinished w then some (r.returnStop i (some w)) else none
    | _ => none
  | .cancelStop i =>
    match r.stops[i]? with
    | some .waiting => some (r.setStop i .cancelled, [])
    | some (.draining _) => some ({ r.setStop i .cancelled with lock := none }, [])
    | _ => none
  | .pollCancel w =>
    match r.workers[w]? with
    | some ⟨.preparing, true⟩ =>
      some (r.setWorker w ⟨.exiting, false⟩, [.ready w (.error (.engine "startup cancelled"))])
    | some ⟨.preparing, false⟩ => some (r.setWorker w ⟨.polling, false⟩, [])
    | _ => none
  | .pollPrepare w p =>
    match r.workers[w]?, p with
    | some ⟨.polling, permit⟩, .pending => some (r.setWorker w ⟨.preparing, permit⟩, [])
    | some ⟨.polling, permit⟩, .ready (.ok _) =>
      some ({ r.setWorker w ⟨.running, permit⟩ with state := .connected }, [.ready w (.ok ())])
    | some ⟨.polling, permit⟩, .ready (.error e) =>
      some (r.setWorker w ⟨.exiting, permit⟩, [.ready w (.error e)])
    | _, _ => none
  | .engineCancel w =>
    match r.workers[w]? with
    | some ⟨.running, true⟩ => some (r.setWorker w ⟨.draining, false⟩, [])
    | _ => none
  | .engineExit w =>
    match r.workers[w]? with
    | some ⟨.running, permit⟩ => some (r.setWorker w ⟨.exiting, permit⟩, [])
    | some ⟨.draining, permit⟩ => some (r.setWorker w ⟨.exiting, permit⟩, [])
    | _ => none
  | .publish w =>
    match r.workers[w]? with
    | some ⟨.exiting, permit⟩ =>
      some ({ r.setWorker w ⟨.published, permit⟩ with state := .disconnected }, [])
    | _ => none
  | .finish w =>
    match r.workers[w]? with
    | some ⟨.published, permit⟩ => some (r.setWorker w ⟨.finished, permit⟩, [])
    | _ => none

/-! ## One step -/

/-- What a worker does by itself, and what it publishes on the way. -/
inductive Moves : Worker → State → Worker → State → Prop
  | cancelled {st : State} : Moves ⟨.preparing, true⟩ st ⟨.exiting, false⟩ st
  | polls {st : State} : Moves ⟨.preparing, false⟩ st ⟨.polling, false⟩ st
  | pends {st : State} {b : Bool} : Moves ⟨.polling, b⟩ st ⟨.preparing, b⟩ st
  | runs {st : State} {b : Bool} : Moves ⟨.polling, b⟩ st ⟨.running, b⟩ .connected
  | fails {st : State} {b : Bool} : Moves ⟨.polling, b⟩ st ⟨.exiting, b⟩ st
  | drains {st : State} : Moves ⟨.running, true⟩ st ⟨.draining, false⟩ st
  | exits {st : State} {b : Bool} : Moves ⟨.running, b⟩ st ⟨.exiting, b⟩ st
  | drained {st : State} {b : Bool} : Moves ⟨.draining, b⟩ st ⟨.exiting, b⟩ st
  | publishes {st : State} {b : Bool} : Moves ⟨.exiting, b⟩ st ⟨.published, b⟩ .disconnected
  | ends {st : State} {b : Bool} : Moves ⟨.published, b⟩ st ⟨.finished, b⟩ st

/-- Everything a step can do. -/
inductive Effect (r : EngineRunner) : Act → EngineRunner → List Event → Prop
  | refused : Effect r .start r [.refused .alreadyRunning]
  | spawned (hlock : r.lock = none) (hfree : ∀ w, r.session = some w → r.isFinished w = true) :
      Effect r .start { r with
        state := .connecting
        workers := r.workers ++ [⟨.preparing, false⟩]
        lock := some (.start r.workers.length) } []
  | stored {w : Nat} (hlock : r.lock = some (.start w)) :
      Effect r .store { r with session := some w, lock := none } []
  | called : Effect r .stop { r with stops := r.stops ++ [.waiting] } []
  | idle {i : Nat} (hlock : r.lock = none) (hsession : r.session = none) :
      Effect r (.acquire i) (r.returnStop i none).1 [.returned i none]
  | found {i w : Nat} (hstop : r.stops[i]? = some .waiting) (hlock : r.lock = none)
      (hsession : r.session = some w) :
      Effect r (.acquire i) { (r.notifyOne w).setStop i (.draining w) with lock := some (.stop i) } []
  | joined {i w : Nat} (hstop : r.stops[i]? = some (.draining w)) (hfin : r.isFinished w = true) :
      Effect r (.joined i) (r.returnStop i (some w)).1 [.returned i (some w)]
  | gaveUp {i : Nat} (hstop : r.stops[i]? = some .waiting) :
      Effect r (.cancelStop i) (r.setStop i .cancelled) []
  | dropped {i w : Nat} (hstop : r.stops[i]? = some (.draining w)) :
      Effect r (.cancelStop i) { r.setStop i .cancelled with lock := none } []
  | worked {a : Act} {w : Nat} {wk wk' : Worker} {st : State} {ev : List Event}
      (hw : r.workers[w]? = some wk) (hmoves : Moves wk r.state wk' st)
      (hev : ∀ i v, .returned i v ∉ ev) (hact : a.worker = some w) :
      Effect r a { r.setWorker w wk' with state := st } ev

variable {r r' : EngineRunner} {a : Act} {ev : List Event}

theorem step_effect (h : r.step a = some (r', ev)) : Effect r a r' ev := by
  cases a with simp only [step] at h
  | start =>
    split at h
    · cases h
      exact .refused
    · rename_i hlock
      split at h
      · cases h
        exact .refused
      · rename_i hfree
        cases h
        refine .spawned (by simpa using hlock) fun w hw => ?_
        rw [hw] at hfree
        simpa using hfree
  | store =>
    split at h
    · rename_i w hlock
      cases h
      exact .stored hlock
    · cases h
  | stop =>
    cases h
    exact .called
  | acquire i =>
    split at h
    · rename_i hstop hlock
      split at h
      · rename_i hsession
        cases h
        exact .idle hlock hsession
      · rename_i w hsession
        cases h
        exact .found hstop hlock hsession
    · cases h
  | joined i =>
    split at h
    · rename_i w hstop
      split at h
      · rename_i hfin
        cases h
        exact .joined hstop hfin
      · cases h
    · cases h
  | cancelStop i =>
    split at h
    · rename_i hstop
      cases h
      exact .gaveUp hstop
    · rename_i w hstop
      cases h
      exact .dropped hstop
    · cases h
  | pollCancel w =>
    split at h
    · rename_i hw
      cases h
      exact .worked hw .cancelled (by simp) rfl
    · rename_i hw
      cases h
      exact .worked hw .polls (by simp) rfl
    · cases h
  | pollPrepare w p =>
    split at h
    · rename_i hw
      cases h
      exact .worked hw .pends (by simp) rfl
    · rename_i hw
      cases h
      exact .worked hw .runs (by simp) rfl
    · rename_i hw
      cases h
      exact .worked hw .fails (by simp) rfl
    · cases h
  | engineCancel w =>
    split at h
    · rename_i hw
      cases h
      exact .worked hw .drains (by simp) rfl
    · cases h
  | engineExit w =>
    split at h
    · rename_i hw
      cases h
      exact .worked hw .exits (by simp) rfl
    · rename_i hw
      cases h
      exact .worked hw .drained (by simp) rfl
    · cases h
  | publish w =>
    split at h
    · rename_i hw
      cases h
      exact .worked hw .publishes (by simp) rfl
    · cases h
  | finish w =>
    split at h
    · rename_i hw
      cases h
      exact .worked hw .ends (by simp) rfl
    · cases h

/-! ## One worker at a time -/

/-- A worker that was spawned and has not finished. -/
def Alive (r : EngineRunner) (w : Nat) : Prop :=
  ∃ wk, r.workers[w]? = some wk ∧ wk.phase ≠ .finished

theorem isFinished_iff {w : Nat} : r.isFinished w = true ↔ ¬ r.Alive w := by
  simp only [isFinished, Alive]
  cases r.workers[w]? with
  | none => simp
  | some wk => simp

/-- The worker of the session, or of the start that is about to store it. -/
def current (r : EngineRunner) : Option Nat :=
  match r.lock with
  | some (.start w) => some w
  | _ => r.session

structure Inv (r : EngineRunner) : Prop where
  one : ∀ w, r.Alive w → r.current = some w
  stored : ∀ w, r.session = some w → w < r.workers.length
  spawned : ∀ w, r.lock = some (.start w) → w < r.workers.length
  drains : ∀ i w, r.stops[i]? = some (.draining w) → r.lock = some (.stop i) ∧ r.session = some w
  held : ∀ i, r.lock = some (.stop i) → ∃ w, r.stops[i]? = some (.draining w)
  busy : r.state ≠ .disconnected → ∃ (w : Nat) (wk : Worker), r.workers[w]? = some wk ∧ wk.phase.busy = true

theorem getElem?_setWorker {w : Nat} {wk : Worker} (hw : r.workers[w]? = some wk) (wk' : Worker) (v : Nat) :
    (r.setWorker w wk').workers[v]? = if v = w then some wk' else r.workers[v]? := by
  have hlt : w < r.workers.length := (List.getElem?_eq_some_iff.mp hw).1
  by_cases hv : v = w
  · subst hv
    simp [setWorker, hlt]
  · simp [setWorker, hv, List.getElem?_set_ne (Ne.symm hv)]

theorem getElem?_notifyOne (w v : Nat) :
    (r.notifyOne w).workers[v]? =
      r.workers[v]?.map fun wk => if v = w then { wk with permit := true } else wk := by
  rw [notifyOne, List.getElem?_modify]
  by_cases hv : w = v
  · simp [hv]
  · simp [hv, Ne.symm hv]

theorem alive_notifyOne {w v : Nat} : (r.notifyOne w).Alive v ↔ r.Alive v := by
  simp only [Alive, getElem?_notifyOne]
  cases r.workers[v]? with
  | none => simp
  | some wk => by_cases hv : v = w <;> simp [hv]

/-- A step of a worker ends no other worker and wakes none. -/
theorem alive_of_worked {w v : Nat} {wk wk' : Worker} {st st' : State} (hw : r.workers[w]? = some wk)
    (hmoves : Moves wk st wk' st') (h : (r.setWorker w wk').Alive v) : r.Alive v := by
  obtain ⟨wk₁, hget, hphase⟩ := h
  rw [getElem?_setWorker hw] at hget
  by_cases hv : v = w
  · subst hv
    refine ⟨wk, hw, ?_⟩
    cases hmoves <;> simp
  · rw [if_neg hv] at hget
    exact ⟨wk₁, hget, hphase⟩

/-- No worker is alive when the current one has finished, or there is none. -/
theorem Inv.none_alive (h : r.Inv) (hcur : ∀ w, r.current = some w → r.isFinished w = true) (w : Nat) :
    ¬ r.Alive w := by
  intro ha
  exact isFinished_iff.mp (hcur w (h.one w ha)) ha

theorem inv_new : new.Inv where
  one := by
    rintro w ⟨wk, hw, -⟩
    simp [new] at hw
  stored := nofun
  spawned := nofun
  drains := by
    intro i w h
    simp [new] at h
  held := nofun
  busy := fun h => absurd rfl h

theorem getElem?_setStop_draining {i j w : Nat} {p : StopPhase} (hp : p ≠ .draining w)
    (h : (r.setStop i p).stops[j]? = some (.draining w)) : j ≠ i ∧ r.stops[j]? = some (.draining w) := by
  rw [setStop] at h
  by_cases hj : i = j
  · subst hj
    rw [List.getElem?_set] at h
    simp only [if_true] at h
    split at h
    · exact absurd (Option.some.inj h) hp
    · cases h
  · rw [List.getElem?_set_ne hj] at h
    exact ⟨Ne.symm hj, h⟩

/-- The end of a stop that has found no worker, or one that has finished. -/
theorem Inv.returnStop (h : r.Inv) (i : Nat) (w : Option Nat) (hnone : ∀ v, ¬ r.Alive v)
    (hlock : r.lock = none ∨ r.lock = some (.stop i)) : (r.returnStop i w).1.Inv where
  one := fun v hv => absurd hv (hnone v)
  stored := nofun
  spawned := nofun
  drains := by
    intro j v hj
    obtain ⟨hne, hj⟩ := getElem?_setStop_draining (by simp) hj
    rcases hlock with hlock | hlock
    · rw [(h.drains j v hj).1] at hlock
      cases hlock
    · rw [(h.drains j v hj).1] at hlock
      cases hlock
      exact absurd rfl hne
  held := nofun
  busy := fun hst => absurd rfl hst

theorem getElem?_spawn {l : List Worker} {x wk : Worker} {w : Nat} :
    (l ++ [x])[w]? = some wk ↔ l[w]? = some wk ∨ (w = l.length ∧ x = wk) := by
  rcases Nat.lt_trichotomy w l.length with hlt | rfl | hgt
  · rw [List.getElem?_append_left hlt]
    simp [Nat.ne_of_lt hlt]
  · simp
  · have h₁ : (l ++ [x])[w]? = none := by
      rw [List.getElem?_eq_none_iff, List.length_append, List.length_singleton]
      omega
    have h₂ : l[w]? = none := List.getElem?_eq_none_iff.mpr (Nat.le_of_lt hgt)
    simp [h₁, h₂, Nat.ne_of_gt hgt]

theorem Inv.spawn (h : r.Inv) (hlock : r.lock = none)
    (hfree : ∀ w, r.session = some w → r.isFinished w = true) :
    ({ r with
      state := .connecting
      workers := r.workers ++ [⟨.preparing, false⟩]
      lock := some (.start r.workers.length) } : EngineRunner).Inv := by
  have hnone : ∀ w, ¬ r.Alive w := h.none_alive fun w hw => by
    rw [current, hlock] at hw
    exact hfree w hw
  refine ⟨?_, ?_, ?_, ?_, nofun, ?_⟩
  · rintro w ⟨wk, hw, hphase⟩
    rcases getElem?_spawn.mp hw with hw | ⟨rfl, -⟩
    · exact absurd ⟨wk, hw, hphase⟩ (hnone w)
    · rfl
  · intro w hw
    have hlt := h.stored w hw
    rw [List.length_append, List.length_singleton]
    omega
  · rintro w hw
    cases hw
    simp
  · intro i w hi
    have hheld := (h.drains i w hi).1
    rw [hlock] at hheld
    cases hheld
  · intro _
    exact ⟨r.workers.length, _, getElem?_spawn.mpr (.inr ⟨rfl, rfl⟩), rfl⟩

theorem Inv.worked (h : r.Inv) {w : Nat} {wk wk' : Worker} {st : State} (hw : r.workers[w]? = some wk)
    (hmoves : Moves wk r.state wk' st) : ({ r.setWorker w wk' with state := st } : EngineRunner).Inv := by
  have hlen : (r.setWorker w wk').workers.length = r.workers.length := by simp [setWorker]
  refine ⟨fun v hv => h.one v (alive_of_worked hw hmoves hv), ?_, ?_, h.drains, h.held, ?_⟩
  · intro v hv
    exact hlen ▸ h.stored v hv
  · intro v hv
    exact hlen ▸ h.spawned v hv
  · intro hst
    by_cases hbusy : wk'.phase.busy = true
    · refine ⟨w, wk', ?_, hbusy⟩
      show (r.setWorker w wk').workers[w]? = _
      rw [getElem?_setWorker hw, if_pos rfl]
    · -- a worker that is behind its publication has published, and no other is there to undo it
      cases hmoves with
      | publishes => exact absurd rfl hst
      | ends =>
        obtain ⟨v, wk₁, hv, hb⟩ := h.busy hst
        have hcur := h.one w ⟨_, hw, by simp⟩
        have hcur' := h.one v ⟨wk₁, hv, by rintro heq; rw [heq] at hb; cases hb⟩
        obtain rfl : w = v := Option.some.inj (hcur.symm.trans hcur')
        rw [hw] at hv
        cases hv
        cases hb
      | _ => exact absurd rfl hbusy

/-- A new call waits for nobody yet. -/
theorem draining_of_called {i w : Nat} (hi : (r.stops ++ [.waiting])[i]? = some (.draining w)) :
    r.stops[i]? = some (.draining w) := by
  by_cases hlt : i < r.stops.length
  · rwa [List.getElem?_append_left hlt] at hi
  · rw [List.getElem?_append_right (Nat.le_of_not_lt hlt)] at hi
    cases hk : i - r.stops.length with
    | zero => simp [hk] at hi
    | succ k => simp [hk] at hi

theorem Inv.step (h : r.Inv) (hs : r.step a = some (r', ev)) : r'.Inv := by
  cases step_effect hs with
  | refused => exact h
  | spawned hlock hfree => exact h.spawn hlock hfree
  | @stored w hlock =>
    refine ⟨?_, ?_, nofun, ?_, nofun, h.busy⟩
    · intro v hv
      have hcur := h.one v hv
      rw [current, hlock] at hcur
      exact hcur
    · rintro v hv
      cases hv
      exact h.spawned w hlock
    · intro i v hi
      have hheld := (h.drains i v hi).1
      rw [hlock] at hheld
      cases hheld
  | called =>
    refine ⟨h.one, h.stored, h.spawned, ?_, ?_, h.busy⟩
    · intro i w hi
      exact h.drains i w (draining_of_called hi)
    · intro i hi
      obtain ⟨w, hw⟩ := h.held i hi
      exact ⟨w, (List.getElem?_append_left (List.getElem?_eq_some_iff.mp hw).1).trans hw⟩
  | @idle i hlock hsession =>
    refine h.returnStop i none (h.none_alive fun w hw => ?_) (.inl hlock)
    rw [current, hlock, hsession] at hw
    cases hw
  | @found i w hstop hlock hsession =>
    have hlen : (r.notifyOne w).workers.length = r.workers.length := by simp [notifyOne]
    have hself : ((r.notifyOne w).setStop i (.draining w)).stops[i]? = some (.draining w) := by
      simp [setStop, notifyOne, (List.getElem?_eq_some_iff.mp hstop).1]
    refine ⟨?_, ?_, nofun, ?_, ?_, ?_⟩
    · intro v hv
      have hcur := h.one v (alive_notifyOne.mp hv)
      rw [current, hlock] at hcur
      exact hcur
    · intro v hv
      exact hlen ▸ h.stored v hv
    · intro j v hj
      by_cases hji : j = i
      · subst hji
        rw [show _ = some (StopPhase.draining w) from hself] at hj
        cases hj
        exact ⟨rfl, hsession⟩
      · have hother : ((r.notifyOne w).setStop i (.draining w)).stops[j]? = r.stops[j]? := by
          simp [setStop, notifyOne, List.getElem?_set_ne (Ne.symm hji)]
        rw [show _ = r.stops[j]? from hother] at hj
        have hheld := (h.drains j v hj).1
        rw [hlock] at hheld
        cases hheld
    · intro j hj
      cases hj
      exact ⟨w, hself⟩
    · intro hst
      obtain ⟨v, wk, hv, hb⟩ := h.busy hst
      refine ⟨v, if v = w then { wk with permit := true } else wk, ?_, ?_⟩
      · show (r.notifyOne w).workers[v]? = _
        rw [getElem?_notifyOne, hv]
        rfl
      · by_cases hvw : v = w <;> simpa [hvw] using hb
  | @joined i w hstop hfin =>
    obtain ⟨hlock, hsession⟩ := h.drains i w hstop
    refine h.returnStop i (some w) (h.none_alive fun v hv => ?_) (.inr hlock)
    rw [current, hlock] at hv
    cases hsession.symm.trans hv
    exact hfin
  | @gaveUp i hstop =>
    refine ⟨h.one, h.stored, h.spawned, ?_, ?_, h.busy⟩
    · intro j w hj
      exact h.drains j w (getElem?_setStop_draining (by simp) hj).2
    · intro j hj
      obtain ⟨w, hw⟩ := h.held j hj
      have hne : i ≠ j := by
        rintro rfl
        rw [hstop] at hw
        cases hw
      exact ⟨w, (List.getElem?_set_ne hne).trans hw⟩
  | @dropped i w hstop =>
    obtain ⟨hlock, hsession⟩ := h.drains i w hstop
    refine ⟨?_, h.stored, nofun, ?_, nofun, h.busy⟩
    · intro v hv
      have hcur := h.one v hv
      rw [current, hlock] at hcur
      exact hcur
    · intro j v hj
      obtain ⟨hne, hj⟩ := getElem?_setStop_draining (by simp) hj
      rw [(h.drains j v hj).1] at hlock
      cases hlock
      exact absurd rfl hne
  | worked hw hmoves => exact h.worked hw hmoves

/-! ## A stop is not lost -/

/-- As long as the worker looks at its cancel signal, the signal is there. -/
def Signalled (r : EngineRunner) (w : Nat) : Prop :=
  w < r.workers.length ∧ ∀ wk, r.workers[w]? = some wk → wk.phase.heeds = true → wk.permit = true

/-- A worker takes the permit only with the check that ends its part. -/
theorem Moves.signalled {wk wk' : Worker} {st st' : State} (h : Moves wk st wk' st')
    (hwk : wk.phase.heeds = true → wk.permit = true) : wk'.phase.heeds = true → wk'.permit = true := by
  cases h with
  | pends | runs => exact fun _ => hwk rfl
  | polls => exact fun _ => hwk rfl
  | _ => nofun

theorem Signalled.step {w : Nat} (h : r.Signalled w) (hs : r.step a = some (r', ev)) : r'.Signalled w := by
  obtain ⟨hlt, hperm⟩ := h
  cases step_effect hs with
  | spawned hlock hfree =>
    refine ⟨?_, ?_⟩
    · rw [List.length_append]
      exact Nat.lt_add_right _ hlt
    · intro wk hwk
      rcases getElem?_spawn.mp hwk with hwk | ⟨rfl, -⟩
      · exact hperm wk hwk
      · exact absurd hlt (Nat.lt_irrefl _)
  | @found i v hstop hlock hsession =>
    refine ⟨by simpa [setStop, notifyOne] using hlt, ?_⟩
    intro wk hwk hheeds
    replace hwk : (r.notifyOne v).workers[w]? = some wk := hwk
    rw [getElem?_notifyOne] at hwk
    obtain ⟨wk₀, hw₀, rfl⟩ := Option.map_eq_some_iff.mp hwk
    by_cases hwv : w = v
    · simp [hwv]
    · simp only [hwv, if_false] at hheeds ⊢
      exact hperm wk₀ hw₀ hheeds
  | @worked _ v wk wk' st ev hw hmoves =>
    refine ⟨by simpa [setWorker] using hlt, ?_⟩
    intro wk₁ hwk₁
    replace hwk₁ : (r.setWorker v wk').workers[w]? = some wk₁ := hwk₁
    rw [getElem?_setWorker hw] at hwk₁
    by_cases hwv : w = v
    · rw [if_pos hwv] at hwk₁
      cases hwk₁
      subst hwv
      exact hmoves.signalled (hperm wk hw)
    · rw [if_neg hwv] at hwk₁
      exact hperm wk₁ hwk₁
  | _ => exact ⟨hlt, hperm⟩

/-- The mutex goes to a stop that finds a worker: it is signalled. -/
theorem signalled_of_acquire {i w : Nat} (h : r.Inv) (hs : r.step (.acquire i) = some (r', ev))
    (hsession : r.session = some w) : r'.Signalled w := by
  have hlt := h.stored w hsession
  cases step_effect hs with
  | idle _ hnone =>
    rw [hnone] at hsession
    cases hsession
  | @found _ v _ _ hfound =>
    cases hfound.symm.trans hsession
    refine ⟨by simpa [setStop, notifyOne] using hlt, ?_⟩
    intro wk hwk _
    replace hwk : (r.notifyOne w).workers[w]? = some wk := hwk
    rw [getElem?_notifyOne] at hwk
    obtain ⟨wk₀, -, rfl⟩ := Option.map_eq_some_iff.mp hwk
    simp
  | worked _ _ _ hact => cases hact

/-! ## The end of a session -/

/-- No worker is left, and the published state says so. -/
def Quiet (r : EngineRunner) : Prop := (∀ w, ¬ r.Alive w) ∧ r.state = .disconnected

theorem Inv.quiet (h : r.Inv) (hnone : ∀ w, ¬ r.Alive w) : r.Quiet := by
  refine ⟨hnone, ?_⟩
  by_contra hst
  obtain ⟨w, wk, hw, hb⟩ := h.busy hst
  refine hnone w ⟨wk, hw, ?_⟩
  intro heq
  rw [heq] at hb
  cases hb

/-- Only a start ends the quiet. -/
theorem Quiet.step (h : r.Quiet) (ha : a ≠ .start) (hs : r.step a = some (r', ev)) : r'.Quiet := by
  cases step_effect hs with
  | refused | spawned => exact absurd rfl ha
  | idle | joined => exact ⟨h.1, rfl⟩
  | found => exact ⟨fun w hw => h.1 w (alive_notifyOne.mp hw), h.2⟩
  | @worked _ w wk _ _ _ hw hmoves =>
    refine absurd ⟨wk, hw, ?_⟩ (h.1 w)
    cases hmoves <;> simp
  | _ => exact h

/-- A stop returns when the worker that it has found is done, and leaves no other. -/
theorem quiet_of_returned {i : Nat} {v : Option Nat} (h : r.Inv) (hs : r.step a = some (r', ev))
    (hret : .returned i v ∈ ev) : r'.Quiet ∧ ∀ w, v = some w → ∃ wk, r'.workers[w]? = some wk := by
  have hinv := h.step hs
  cases step_effect hs with
  | refused => simp at hret
  | idle hlock hsession =>
    have hnone : ∀ w, ¬ r.Alive w := h.none_alive fun w hw => by
      rw [current, hlock, hsession] at hw
      cases hw
    rw [List.mem_singleton] at hret
    cases hret
    exact ⟨hinv.quiet hnone, nofun⟩
  | @joined j w hstop hfin =>
    obtain ⟨hlock, hsession⟩ := h.drains j w hstop
    have hnone : ∀ w, ¬ r.Alive w := h.none_alive fun u hu => by
      rw [current, hlock] at hu
      cases hsession.symm.trans hu
      exact hfin
    rw [List.mem_singleton] at hret
    cases hret
    refine ⟨hinv.quiet hnone, ?_⟩
    intro u hu
    cases hu
    exact ⟨_, List.getElem?_eq_getElem (h.stored _ hsession)⟩
  | worked _ _ hev => exact absurd hret (hev i v)
  | _ => cases hret

/-- A worker that has finished stays so. -/
theorem not_alive_step {w : Nat} {wk : Worker} (hw : r.workers[w]? = some wk) (h : ¬ r.Alive w)
    (hs : r.step a = some (r', ev)) : (∃ wk', r'.workers[w]? = some wk') ∧ ¬ r'.Alive w := by
  cases step_effect hs with
  | spawned hlock hfree =>
    refine ⟨⟨wk, getElem?_spawn.mpr (.inl hw)⟩, ?_⟩
    rintro ⟨wk', hw', hphase⟩
    rw [show _ = some wk from getElem?_spawn.mpr (.inl hw)] at hw'
    cases hw'
    exact h ⟨wk, hw, hphase⟩
  | @found i v =>
    refine ⟨⟨_, (getElem?_notifyOne v w).trans (by rw [hw]; rfl)⟩, ?_⟩
    exact fun ha => h (alive_notifyOne.mp ha)
  | @worked _ v wk₀ wk₁ _ _ hv hmoves =>
    refine ⟨⟨if w = v then wk₁ else wk, (getElem?_setWorker hv wk₁ w).trans ?_⟩, ?_⟩
    · by_cases hwv : w = v <;> simp [hwv, hw]
    · exact fun ha => h (alive_of_worked hv hmoves ha)
  | _ => exact ⟨⟨wk, hw⟩, h⟩

/-! ## What is left of a worker behind a stop -/

def rank (r : EngineRunner) (w : Nat) : Nat :=
  match r.workers[w]? with
  | some wk => wk.phase.rank
  | none => 0

theorem Moves.rank_lt {wk wk' : Worker} {st st' : State} (h : Moves wk st wk' st')
    (hwk : wk.phase.heeds = true → wk.permit = true) : wk'.phase.rank < wk.phase.rank := by
  cases h with
  | polls => cases hwk rfl
  | _ => simp [WorkerPhase.rank]

/-- A worker with a signal does not go round again: each of its steps brings it closer to its end. -/
theorem Signalled.rank_step {w : Nat} (h : r.Signalled w) (hs : r.step a = some (r', ev)) :
    r'.rank w + (if a.worker = some w then 1 else 0) ≤ r.rank w := by
  cases step_effect hs with
  | spawned => simp [rank, Act.worker, List.getElem?_append_left h.1]
  | @found i v =>
    have hget : (r.notifyOne v).rank w = r.rank w := by
      rw [rank, rank, getElem?_notifyOne]
      cases r.workers[w]? with
      | none => rfl
      | some wk => by_cases hwv : w = v <;> simp [hwv]
    exact Nat.le_of_eq hget
  | @worked _ v wk wk' st _ hw hmoves _ hact =>
    have hget : ({ r.setWorker v wk' with state := st } : EngineRunner).rank w =
        match if w = v then some wk' else r.workers[w]? with
        | some wk => wk.phase.rank
        | none => 0 := by
      rw [rank, ← getElem?_setWorker hw]
    rw [hget, hact]
    by_cases hwv : w = v
    · subst hwv
      simp only [if_true, rank, hw]
      exact hmoves.rank_lt (h.2 wk hw)
    · simp [hwv, Ne.symm hwv, rank]
  | _ => exact Nat.le_refl _

/-- A worker that is alive can take a step. -/
theorem Alive.enabled {w : Nat} (h : r.Alive w) : ∃ a, a.worker = some w ∧ (r.step a).isSome := by
  obtain ⟨⟨phase, permit⟩, hw, hphase⟩ := h
  cases phase with
  | preparing => exact ⟨.pollCancel w, rfl, by cases permit <;> simp [step, hw]⟩
  | polling => exact ⟨.pollPrepare w .pending, rfl, by simp [step, hw]⟩
  | running | draining => exact ⟨.engineExit w, rfl, by simp [step, hw]⟩
  | exiting => exact ⟨.publish w, rfl, by simp [step, hw]⟩
  | published => exact ⟨.finish w, rfl, by simp [step, hw]⟩
  | finished => exact absurd rfl hphase

/-! ## Whole runs -/

variable {log : List (Taken EngineRunner Act Event)}

theorem inv_run (h : Exec step new log r) : r.Inv :=
  h.state_inv inv_new fun _ _ _ _ hinv hs => hinv.step hs

/-- What the acquire step of a stop does to the worker holds for the rest of the run. -/
theorem signalled_run (h : Exec step new log r) {before after : List (Taken EngineRunner Act Event)}
    {t : Taken EngineRunner Act Event} {i w : Nat} (hlog : log = before ++ t :: after)
    (hact : t.act = .acquire i) (hsession : t.pre.session = some w) :
    r.Signalled w ∧ (after.filter fun t' => t'.act.worker = some w).length + r.rank w ≤ 6 := by
  induction h generalizing after with
  | nil => simp at hlog
  | @snoc log r₁ r₂ a ev hrun hs ih =>
    rcases snoc_eq_append_cons hlog with ⟨rfl, rfl, rfl⟩ | ⟨after', rfl, hlog'⟩
    · cases hact
      refine ⟨signalled_of_acquire (inv_run hrun) hs hsession, ?_⟩
      simp only [List.filter_nil, List.length_nil, Nat.zero_add, rank]
      split
      · rename_i wk _
        cases wk.phase <;> simp [WorkerPhase.rank]
      · omega
    · obtain ⟨hsig, hle⟩ := ih hlog'
      have hstep := hsig.rank_step hs
      refine ⟨hsig.step hs, ?_⟩
      rw [List.filter_append, List.length_append]
      by_cases ha : a.worker = some w
      · simp only [ha, if_true, decide_true, List.filter_cons_of_pos, List.filter_nil,
          List.length_singleton] at hstep ⊢
        omega
      · simp only [ha, if_false, decide_false, Bool.false_eq_true, not_false_eq_true,
          List.filter_cons_of_neg, List.filter_nil, List.length_nil] at hstep ⊢
        omega

theorem draining_of_step {i w : Nat} (hs : r.step a = some (r', ev))
    (hi : r'.stops[i]? = some (.draining w)) :
    r.stops[i]? = some (.draining w) ∨ (a = .acquire i ∧ r.session = some w) := by
  cases step_effect hs with
  | called => exact .inl (draining_of_called hi)
  | idle | joined | gaveUp | dropped => exact .inl (getElem?_setStop_draining (by simp) hi).2
  | @found j v hstop hlock hsession =>
    replace hi : ((r.notifyOne v).setStop j (.draining v)).stops[i]? = some (.draining w) := hi
    by_cases hji : j = i
    · subst hji
      simp [setStop, notifyOne, (List.getElem?_eq_some_iff.mp hstop).1] at hi
      exact .inr ⟨rfl, hi ▸ hsession⟩
    · left
      rwa [setStop, List.getElem?_set_ne hji] at hi
  | _ => exact .inl hi

/-- A stop that waits for a worker has signalled it. -/
theorem draining_run (h : Exec step new log r) {i w : Nat} (hi : r.stops[i]? = some (.draining w)) :
    r.Signalled w := by
  induction h generalizing i w with
  | nil => simp [new] at hi
  | @snoc log r₁ r₂ a ev hrun hs ih =>
    have hinv := inv_run hrun
    rcases draining_of_step hs hi with hi | ⟨rfl, hsession⟩
    · exact (ih hi).step hs
    · exact signalled_of_acquire (inv_run hrun) hs hsession

/-- Who keeps a stop waiting: nobody, a start that is about to store its worker, or another stop, which
has then signalled the worker. -/
theorem waiting_run (h : Exec step new log r) {i : Nat} (hi : r.stops[i]? = some .waiting) :
    (r.step (.acquire i)).isSome ∨ (∃ w, r.lock = some (.start w)) ∨
      ∃ j w, r.lock = some (.stop j) ∧ r.session = some w ∧ r.Signalled w := by
  cases hlock : r.lock with
  | none =>
    left
    cases hsession : r.session <;> simp [step, hi, hlock, hsession]
  | some holder =>
    cases holder with
    | start w => exact .inr (.inl ⟨w, rfl⟩)
    | stop j =>
      obtain ⟨w, hj⟩ := (inv_run h).held j hlock
      exact .inr (.inr ⟨j, w, rfl, ((inv_run h).drains j w hj).2, draining_run h hj⟩)

/-- The worker that a stop has waited for is done for good. -/
theorem finished_run (h : Exec step new log r) {i w : Nat} (hret : .returned i (some w) ∈ shown log) :
    (∃ wk, r.workers[w]? = some wk) ∧ ¬ r.Alive w := by
  induction h with
  | nil => simp at hret
  | @snoc log r₁ r₂ a ev hrun hs ih =>
    rw [shown_snoc, List.mem_append] at hret
    rcases hret with hret | hret
    · obtain ⟨⟨wk, hw⟩, hdead⟩ := ih hret
      exact not_alive_step hw hdead hs
    · obtain ⟨⟨hnone, -⟩, hspawned⟩ := quiet_of_returned (inv_run hrun) hs hret
      exact ⟨hspawned w rfl, hnone w⟩

/-- A stop has returned and no start has come after it. -/
theorem quiet_run (h : Exec step new log r) {before after : List (Taken EngineRunner Act Event)}
    {t : Taken EngineRunner Act Event} {i : Nat} {v : Option Nat} (hlog : log = before ++ t :: after)
    (hret : .returned i v ∈ t.ev) (hafter : ∀ t' ∈ after, t'.act ≠ .start) : r.Quiet := by
  induction h generalizing after with
  | nil => simp at hlog
  | @snoc log r₁ r₂ a ev hrun hs ih =>
    rcases snoc_eq_append_cons hlog with ⟨rfl, rfl, rfl⟩ | ⟨after', rfl, hlog'⟩
    · exact (quiet_of_returned (inv_run hrun) hs hret).1
    · have hquiet := ih hlog' fun t' ht' => hafter t' (List.mem_append_left _ ht')
      exact hquiet.step (hafter ⟨r₁, a, ev⟩ (by simp)) hs

/-- The current worker is alive: nobody gets to start another one. -/
theorem refused_of_alive (h : r.Inv) {w : Nat} (ha : r.Alive w) :
    r.step .start = some (r, [.refused .alreadyRunning]) := by
  have hcur := h.one w ha
  cases hlock : r.lock with
  | some holder => simp [step, hlock]
  | none =>
    rw [current, hlock] at hcur
    have hfin : r.isFinished w = false := by
      rw [← Bool.not_eq_true, isFinished_iff]
      exact not_not_intro ha
    simp [step, hlock, hcur, hfin]

/-- The life of the helper's engine over every run. A stop that has the mutex signals the worker in the
slot; the signal stays until the worker has seen it, so that its next look at it while it prepares ends
the startup, an engine that runs nevertheless finds it at once, and the worker has at most six steps left.
Every other stop is behind a start that is about to store its worker, behind a stop that has signalled the
worker, or was given up by its caller. -/
theorem engine_lifecycle (h : Exec step new log r) :
    (∀ v w, r.Alive v → r.Alive w → v = w) ∧
    (∀ w, r.Alive w → r.step .start = some (r, [.refused .alreadyRunning])) ∧
    (∀ before t after i w, log = before ++ t :: after → t.act = .acquire i → t.pre.session = some w →
      (∀ wk, r.workers[w]? = some wk → wk.phase.heeds = true → wk.permit = true) ∧
      (after.filter fun t' => t'.act.worker = some w).length ≤ 6) ∧
    (∀ w, r.workers[w]? = some ⟨.preparing, true⟩ → r.step (.pollCancel w) =
      some (r.setWorker w ⟨.exiting, false⟩, [.ready w (.error (.engine "startup cancelled"))])) ∧
    (∀ w, r.workers[w]? = some ⟨.running, true⟩ → (r.step (.engineCancel w)).isSome) ∧
    (∀ i, r.stops[i]? = some .waiting → (r.step (.acquire i)).isSome ∨ (∃ w, r.lock = some (.start w)) ∨
      ∃ j w, r.lock = some (.stop j) ∧ r.session = some w ∧ r.Signalled w) ∧
    (∀ i w, .returned i (some w) ∈ shown log → r.isFinished w = true) ∧
    (∀ w, r.Alive w → ∃ a, a.worker = some w ∧ (r.step a).isSome) ∧
    ((∀ w, ¬ r.Alive w) → r.state = .disconnected) ∧
    (∀ before t after i v, log = before ++ t :: after → .returned i v ∈ t.ev →
      (∀ t' ∈ after, t'.act ≠ .start) → r.state = .disconnected ∧ ∀ w, ¬ r.Alive w) := by
  have hinv := inv_run h
  refine ⟨?_, fun w ha => refused_of_alive hinv ha, ?_, ?_, ?_, fun i hi => waiting_run h hi, ?_,
    fun w ha => ha.enabled, fun hnone => (hinv.quiet hnone).2, ?_⟩
  · intro v w hv hw
    exact Option.some.inj ((hinv.one v hv).symm.trans (hinv.one w hw))
  · intro before t after i w hlog hact hsession
    obtain ⟨hsig, hle⟩ := signalled_run h hlog hact hsession
    exact ⟨hsig.2, by omega⟩
  · intro w hw
    simp [step, hw]
  · intro w hw
    simp [step, hw]
  · intro i w hret
    exact isFinished_iff.mpr (finished_run h hret).2
  · intro before t after i v hlog hret hafter
    obtain ⟨hnone, hst⟩ := quiet_run h hlog hret hafter
    exact ⟨hst, hnone⟩

/-- A stop during the preparation: the engine never runs, and the stop returns behind the worker. -/
theorem engine_lifecycle_stopped : ∃ log r, Exec step new log r ∧ .returned 0 (some 0) ∈ shown log ∧
    (∀ v, .ready v (.ok ()) ∉ shown log) ∧ r.isFinished 0 = true ∧
    ((∀ w, ¬ r.Alive w) → r.state = .disconnected) := by
  obtain ⟨log, r, hrun, hshown⟩ := exec_reaches step new
    [.start, .store, .pollCancel 0, .stop, .acquire 0, .pollPrepare 0 .pending, .pollCancel 0, .publish 0,
      .finish 0, .joined 0]
    (fun log _ => shown log =
      [.ready 0 (.error (.engine "startup cancelled")), .returned 0 (some 0)]) (by decide)
  obtain ⟨-, -, -, -, -, -, hfin, -, hnone, -⟩ := engine_lifecycle hrun
  have hret : .returned 0 (some 0) ∈ shown log := by simp [hshown]
  exact ⟨log, r, hrun, hret, by simp [hshown], hfin 0 0 hret, hnone⟩

/-- A stop that is called while the worker prepares, and whose caller gives it up while the start still
has the mutex: the engine runs and has no signal. -/
theorem stop_withdrawn :
    ¬ ∀ log (r : EngineRunner), Exec step new log r → ∀ t ∈ log, ∀ w : Nat, t.act = .stop →
      t.pre.workers[w]? = some ⟨.preparing, false⟩ → r.stops[t.pre.stops.length]? ≠ some .waiting →
      ∀ wk, r.workers[w]? = some wk → wk.phase.heeds = true → wk.permit = true := by
  intro hclaim
  obtain ⟨log, r, hrun, t, ht, hact, hpre, hstop, hw⟩ := exec_reaches step new
    [.start, .stop, .cancelStop 0, .store, .pollCancel 0, .pollPrepare 0 (.ready (.ok ()))]
    (fun log r => ∃ t ∈ log, t.act = .stop ∧ t.pre.workers[0]? = some ⟨.preparing, false⟩ ∧
      r.stops[t.pre.stops.length]? ≠ some .waiting ∧ r.workers[0]? = some ⟨.running, false⟩) (by decide)
  cases hclaim log r hrun t ht 0 hact hpre hstop _ hw rfl

end EngineRunner

end Leshiy.Helper
