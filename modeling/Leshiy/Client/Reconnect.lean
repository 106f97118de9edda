import Leshiy.Lib.Run
import Leshiy.Client.Supervisor

/-!
# The reconnecting tunnel

`ReconnectingTunnel` (`leshiy-client/src/reconnect.rs`). A background task watches the live tunnel,
publishes that there is none when it drops, and dials until it has the next one. Calls read what is
published and open on it.

The tunnels are numbered in the order they were dialed: 0 is the seed. A call takes its steps one by one,
also within a poll of its `select!`, which looks at the timer, at the watch channel and at the attempt, in
this order; the task may publish between any two of them. Times are in nanoseconds, and a timer fires
exactly.
-/

namespace Leshiy.Client

open Leshiy.Lib

structure ReconnectParams where
  base : Duration
  max : Duration
  hold : Duration
  deriving DecidableEq, Repr

instance : Inhabited ReconnectParams where
  default :=
    { base := ⟨0, 500000000⟩
      max := ⟨30, 0⟩
      hold := ⟨5, 0⟩ }

/-- The `watch` channel: what was sent last, how many times something was sent, and whether the sender is
gone. -/
structure Watch where
  value : Option Nat
  version : Nat
  closed : Bool
  deriving DecidableEq, Repr

def Watch.send (w : Watch) (value : Option Nat) : Watch :=
  { w with value := value, version := w.version + 1 }

/-! ## One call -/

inductive OpenKind where
  | tcp
  | udp
  | icmp
  deriving DecidableEq, Repr

/-- Where a call is: at the top of its loop, before it reads the channel, within a poll of an attempt on a
tunnel (before the timer, the channel, the attempt), between two polls, waiting for a replacement, within
a poll of that wait (before its timer), or at its end. -/
inductive CallPhase where
  | top
  | reading
  | timer (g : Nat)
  | changed (g : Nat)
  | inner (g : Nat)
  | parked (g : Nat)
  | waiting
  | waitTimer
  | returned (g : Nat)
  | failed
  deriving DecidableEq, Repr

namespace CallPhase

/-- The tunnel of an attempt under way. -/
def attempt : CallPhase → Option Nat
  | .timer g | .changed g | .inner g | .parked g => some g
  | _ => none

def isDone : CallPhase → Bool
  | .returned _ | .failed => true
  | _ => false

/-- How many steps a call has left at most once its deadline has passed. -/
def rank : CallPhase → Nat
  | .changed _ => 4
  | .reading | .inner _ => 3
  | .parked _ | .waiting => 2
  | .top | .timer _ | .waitTimer => 1
  | .returned _ | .failed => 0

end CallPhase

structure OpenCall where
  kind : OpenKind
  target : String
  deadline : Nat
  /-- The version that its receiver has seen. -/
  seen : Nat
  phase : CallPhase
  deriving DecidableEq, Repr

/-- What the attempt on a tunnel answers to a poll. -/
inductive AttemptPoll where
  | pending
  | ready (ok : Bool)
  deriving DecidableEq, Repr

inductive CallAct where
  | topCheck
  | read
  | pollTimer
  | pollChanged
  | pollInner (r : AttemptPoll)
  | wake
  | pollWait
  | pollDeadline
  deriving DecidableEq, Repr

/-- A call begins an attempt on a tunnel, returns a stream of one, or fails. -/
inductive CallEvent where
  | attempt (g : Nat)
  | returned (g : Nat)
  | failed
  deriving DecidableEq, Repr

namespace OpenCall

def goto (call : OpenCall) (phase : CallPhase) : OpenCall := { call with phase := phase }

/-- `open`, `open_datagram` and `open_icmp` differ in what they call on the tunnel only. -/
def step (now : Nat) (w : Watch) (call : OpenCall) : CallAct → Option (OpenCall × List CallEvent)
  | .topCheck =>
    match call.phase with
    | .top =>
      if call.deadline ≤ now then some (call.goto .failed, [.failed]) else some (call.goto .reading, [])
    | _ => none
  | .read =>
    match call.phase with
    | .reading =>
      match w.value with
      | some g => some ({ call with seen := w.version, phase := .timer g }, [.attempt g])
      | none => some ({ call with seen := w.version, phase := .waiting }, [])
    | _ => none
  | .pollTimer =>
    match call.phase with
    | .timer g =>
      if call.deadline ≤ now then some (call.goto .failed, [.failed]) else some (call.goto (.changed g), [])
    | _ => none
  | .pollChanged =>
    match call.phase with
    | .changed g =>
      if call.seen ≠ w.version then some ({ call with seen := w.version, phase := .top }, [])
      else if w.closed then some (call.goto .failed, [.failed])
      else some (call.goto (.inner g), [])
    | _ => none
  | .pollInner r =>
    match call.phase, r with
    | .inner g, .pending => some (call.goto (.parked g), [])
    | .inner g, .ready true => some (call.goto (.returned g), [.returned g])
    | .inner _, .ready false => some (call.goto .waiting, [])
    | _, _ => none
  | .wake =>
    match call.phase with
    | .parked g => some (call.goto (.timer g), [])
    | _ => none
  | .pollWait =>
    match call.phase with
    | .waiting =>
      -- `timeout_at` polls the channel before its own timer
      if call.seen ≠ w.version then some ({ call with seen := w.version, phase := .top }, [])
      else if w.closed then some (call.goto .failed, [.failed])
      else some (call.goto .waitTimer, [])
    | _ => none
  | .pollDeadline =>
    match call.phase with
    | .waitTimer =>
      if call.deadline ≤ now then some (call.goto .failed, [.failed]) else some (call.goto .waiting, [])
    | _ => none

variable {now : Nat} {w : Watch} {call call' : OpenCall} {a : CallAct} {ev : List CallEvent}

/-- Everything a step of a call can do to its phase and to what it has seen. -/
inductive Moves (now : Nat) (w : Watch) (call : OpenCall) : CallAct → OpenCall → List CallEvent → Prop
  | expired {a : CallAct} (hpast : call.deadline ≤ now) (hrank : 0 < call.phase.rank)
      (hinner : ∀ r, a ≠ .pollInner r) : Moves now w call a (call.goto .failed) [.failed]
  | checked (hphase : call.phase = .top) (htime : now < call.deadline) :
      Moves now w call .topCheck (call.goto .reading) []
  | began {g : Nat} (hphase : call.phase = .reading) (hvalue : w.value = some g) :
      Moves now w call .read { call with seen := w.version, phase := .timer g } [.attempt g]
  | held (hphase : call.phase = .reading) (hvalue : w.value = none) :
      Moves now w call .read { call with seen := w.version, phase := .waiting } []
  | inTime {g : Nat} (hphase : call.phase = .timer g) (htime : now < call.deadline) :
      Moves now w call .pollTimer (call.goto (.changed g)) []
  | superseded {a : CallAct} (hseen : call.seen ≠ w.version)
      (hphase : (a = .pollChanged ∧ ∃ g, call.phase = .changed g) ∨ (a = .pollWait ∧ call.phase = .waiting)) :
      Moves now w call a { call with seen := w.version, phase := .top } []
  | orphaned {a : CallAct} (hrank : 0 < call.phase.rank) (hseen : call.seen = w.version)
      (hclosed : w.closed = true) (hact : a = .pollChanged ∨ a = .pollWait) :
      Moves now w call a (call.goto .failed) [.failed]
  | latest {g : Nat} (hphase : call.phase = .changed g) (hseen : call.seen = w.version) :
      Moves now w call .pollChanged (call.goto (.inner g)) []
  | pends {g : Nat} (hphase : call.phase = .inner g) :
      Moves now w call (.pollInner .pending) (call.goto (.parked g)) []
  | returns {g : Nat} (hphase : call.phase = .inner g) :
      Moves now w call (.pollInner (.ready true)) (call.goto (.returned g)) [.returned g]
  | refused {g : Nat} (hphase : call.phase = .inner g) :
      Moves now w call (.pollInner (.ready false)) (call.goto .waiting) []
  | wakes {g : Nat} (hphase : call.phase = .parked g) : Moves now w call .wake (call.goto (.timer g)) []
  | unchanged (hphase : call.phase = .waiting) (hseen : call.seen = w.version) :
      Moves now w call .pollWait (call.goto .waitTimer) []
  | waits (hphase : call.phase = .waitTimer) (htime : now < call.deadline) :
      Moves now w call .pollDeadline (call.goto .waiting) []

theorem step_moves (h : call.step now w a = some (call', ev)) : Moves now w call a call' ev := by
  cases a with simp only [step] at h
  | topCheck =>
    split at h
    · rename_i hphase
      split at h
      · rename_i hpast
        cases h
        exact .expired hpast (by simp [hphase, CallPhase.rank]) nofun
      · rename_i htime
        cases h
        exact .checked hphase (Nat.lt_of_not_le htime)
    · cases h
  | read =>
    split at h
    · rename_i hphase
      split at h
      · rename_i g hvalue
        cases h
        exact .began hphase hvalue
      · rename_i hvalue
        cases h
        exact .held hphase hvalue
    · cases h
  | pollTimer =>
    split at h
    · rename_i g hphase
      split at h
      · rename_i hpast
        cases h
        exact .expired hpast (by simp [hphase, CallPhase.rank]) nofun
      · rename_i htime
        cases h
        exact .inTime hphase (Nat.lt_of_not_le htime)
    · cases h
  | pollChanged =>
    split at h
    · rename_i g hphase
      split at h
      · rename_i hseen
        cases h
        exact .superseded hseen (.inl ⟨rfl, g, hphase⟩)
      · rename_i hseen
        split at h
        · rename_i hclosed
          cases h
          exact .orphaned (by simp [hphase, CallPhase.rank]) (by simpa using hseen) hclosed (.inl rfl)
        · cases h
          exact .latest hphase (by simpa using hseen)
    · cases h
  | pollInner r =>
    split at h
    · rename_i hphase
      cases h
      exact .pends hphase
    · rename_i hphase
      cases h
      exact .returns hphase
    · rename_i hphase
      cases h
      exact .refused hphase
    · cases h
  | wake =>
    split at h
    · rename_i hphase
      cases h
      exact .wakes hphase
    · cases h
  | pollWait =>
    split at h
    · rename_i hphase
      split at h
      · rename_i hseen
        cases h
        exact .superseded hseen (.inr ⟨rfl, hphase⟩)
      · rename_i hseen
        split at h
        · rename_i hclosed
          cases h
          exact .orphaned (by simp [hphase, CallPhase.rank]) (by simpa using hseen) hclosed (.inr rfl)
        · cases h
          exact .unchanged hphase (by simpa using hseen)
    · cases h
  | pollDeadline =>
    split at h
    · rename_i hphase
      split at h
      · rename_i hpast
        cases h
        exact .expired hpast (by simp [hphase, CallPhase.rank]) nofun
      · rename_i htime
        cases h
        exact .waits hphase (Nat.lt_of_not_le htime)
    · cases h

/-- An attempt goes on with what it has seen, or begins on what is published. -/
theorem attempt_step (h : call.step now w a = some (call', ev)) {g : Nat}
    (hg : call'.phase.attempt = some g) :
    (call.phase.attempt = some g ∧ call'.seen = call.seen) ∨ (call'.seen = w.version ∧ w.value = some g) := by
  cases step_moves h with
  | began _ hvalue =>
    cases hg
    exact .inr ⟨rfl, hvalue⟩
  | inTime hphase | latest hphase | pends hphase | wakes hphase =>
    cases hg
    exact .inl ⟨by rw [hphase]; rfl, rfl⟩
  | _ => cases hg

theorem deadline_step (h : call.step now w a = some (call', ev)) : call'.deadline = call.deadline := by
  cases step_moves h <;> rfl

/-- Behind its deadline a call does not go round again. -/
theorem rank_step (h : call.step now w a = some (call', ev)) (hpast : call.deadline ≤ now) :
    call'.phase.rank < call.phase.rank := by
  cases step_moves h with
  | expired _ hrank => exact hrank
  | orphaned hrank => exact hrank
  | checked _ htime | inTime _ htime | waits _ htime => exact absurd hpast (Nat.not_le_of_lt htime)
  | superseded _ hphase =>
    rcases hphase with ⟨rfl, g, hphase⟩ | ⟨rfl, hphase⟩ <;> simp [hphase, CallPhase.rank]
  | _ hphase => simp [hphase, goto, CallPhase.rank]

/-- A call that is not at its end can take a step. -/
theorem enabled (now : Nat) (w : Watch) (h : call.phase.isDone = false) :
    ∃ a, (call.step now w a).isSome := by
  cases hphase : call.phase with
  | top => exact ⟨.topCheck, by simp only [step, hphase]; split <;> rfl⟩
  | reading => exact ⟨.read, by simp only [step, hphase]; split <;> rfl⟩
  | timer g => exact ⟨.pollTimer, by simp only [step, hphase]; split <;> rfl⟩
  | changed g => exact ⟨.pollChanged, by simp only [step, hphase]; split <;> [rfl; split <;> rfl]⟩
  | inner g => exact ⟨.pollInner .pending, by simp [step, hphase]⟩
  | parked g => exact ⟨.wake, by simp [step, hphase]⟩
  | waiting => exact ⟨.pollWait, by simp only [step, hphase]; split <;> [rfl; split <;> rfl]⟩
  | waitTimer => exact ⟨.pollDeadline, by simp only [step, hphase]; split <;> rfl⟩
  | returned g | failed => simp [hphase, CallPhase.isDone] at h

end OpenCall

/-! ## The tunnel -/

/-- Where the background task is: with a live tunnel, in a dial, in its backoff, or gone. -/
inductive SupervisePhase where
  | watching (g : Nat)
  | dialing (attempt : Nat)
  | sleeping (attempt : Nat) (wakeup : Nat)
  | gone
  deriving DecidableEq, Repr

structure ReconnectingTunnel where
  now : Nat
  current : Watch
  /-- How many tunnels were dialed, the seed included. -/
  generations : Nat
  task : SupervisePhase
  calls : List OpenCall
  deriving DecidableEq, Repr

/-- Time passes; the task sees its tunnel drop (or is told to redial), hears from a dial, wakes up, or
dies; a call is made, or takes a step. -/
inductive ReconnectAct where
  | tick (d : Nat)
  | dropped
  | dialed (ok : Bool)
  | slept
  | died
  | call (kind : OpenKind) (target : String)
  | on (c : Nat) (a : CallAct)
  deriving DecidableEq, Repr

namespace ReconnectAct

def «open» (target : String) : ReconnectAct := .call .tcp target
def openDatagram (target : String) : ReconnectAct := .call .udp target
def openIcmp (target : String) : ReconnectAct := .call .icmp target

/-- A step of the call. -/
def isOf (c : Nat) : ReconnectAct → Bool
  | .on c' _ => c' = c
  | _ => false

end ReconnectAct

namespace ReconnectingTunnel

/-- The tunnel with its seed at some time. -/
def spawn (now : Nat) : ReconnectingTunnel where
  now := now
  current := ⟨some 0, 0, false⟩
  generations := 1
  task := .watching 0
  calls := []

def step (params : ReconnectParams) (s : ReconnectingTunnel) :
    ReconnectAct → Option (ReconnectingTunnel × List (Nat × CallEvent))
  | .tick d => some ({ s with now := s.now + d }, [])
  | .dropped =>
    match s.task with
    | .watching _ => some ({ s with current := s.current.send none, task := .dialing 0 }, [])
    | _ => none
  | .dialed ok =>
    match s.task, ok with
    | .dialing _, true =>
      some ({ s with
        current := s.current.send (some s.generations)
        generations := s.generations + 1
        task := .watching s.generations }, [])
    | .dialing attempt, false =>
      let delay := backoffDelay attempt params.base params.max
      some ({ s with task := .sleeping (Nat.min (attempt + 1) (2 ^ 32 - 1)) (s.now + delay.asNanos) }, [])
    | _, _ => none
  | .slept =>
    match s.task with
    | .sleeping attempt wakeup => if wakeup ≤ s.now then some ({ s with task := .dialing attempt }, []) else none
    | _ => none
  | .died =>
    match s.task with
    | .gone => none
    | _ => some ({ s with current := { s.current with closed := true }, task := .gone }, [])
  | .call kind target =>
    some ({ s with calls := s.calls ++ [⟨kind, target, s.now + params.hold.asNanos, 0, .top⟩] }, [])
  | .on c a =>
    match s.calls[c]? with
    | some call =>
      match call.step s.now s.current a with
      | some (call', ev) => some ({ s with calls := s.calls.set c call' }, ev.map fun e => (c, e))
      | none => none
    | none => none

variable {params : ReconnectParams} {s s' : ReconnectingTunnel} {a : ReconnectAct}
  {ev : List (Nat × CallEvent)}

/-- What a step that is not one of a call leaves and what it can publish. -/
theorem step_call {c : Nat} {a : CallAct} (h : s.step params (.on c a) = some (s', ev)) :
    ∃ call call' ev', s.calls[c]? = some call ∧ call.step s.now s.current a = some (call', ev') ∧
      s' = { s with calls := s.calls.set c call' } ∧ ev = ev'.map fun e => (c, e) := by
  simp only [step] at h
  split at h
  · rename_i call hcall
    split at h
    · rename_i call' ev' hstep
      cases h
      exact ⟨call, call', ev', hcall, hstep, rfl, rfl⟩
    · cases h
  · cases h

/-- A step of another kind. -/
inductive Env (params : ReconnectParams) (s : ReconnectingTunnel) :
    ReconnectAct → ReconnectingTunnel → Prop
  | quiet {a : ReconnectAct} {now : Nat} {task : SupervisePhase} (hnow : s.now ≤ now) :
      Env params s a { s with now := now, task := task }
  | published {a : ReconnectAct} {value : Option Nat} {generations : Nat} {task : SupervisePhase}
      (hgen : s.generations ≤ generations) (hvalue : ∀ g, value = some g → g < generations) :
      Env params s a { s with current := s.current.send value, generations := generations, task := task }
  | died {a : ReconnectAct} {task : SupervisePhase} :
      Env params s a { s with current := { s.current with closed := true }, task := task }
  | called {kind : OpenKind} {target : String} : Env params s (.call kind target) { s with
      calls := s.calls ++ [⟨kind, target, s.now + params.hold.asNanos, 0, .top⟩] }

theorem step_env (ha : ∀ c a', a ≠ .on c a') (h : s.step params a = some (s', ev)) :
    Env params s a s' ∧ ev = [] := by
  cases a with simp only [step] at h
  | tick d =>
    cases h
    exact ⟨.quiet (Nat.le_add_right _ _), rfl⟩
  | dropped =>
    split at h
    · cases h
      exact ⟨.published (Nat.le_refl _) nofun, rfl⟩
    · cases h
  | dialed ok =>
    split at h
    · cases h
      refine ⟨.published (Nat.le_succ _) ?_, rfl⟩
      intro g hg
      cases hg
      exact Nat.lt_succ_self _
    · cases h
      exact ⟨.quiet (Nat.le_refl _), rfl⟩
    · cases h
  | slept =>
    split at h
    · split at h
      · cases h
        exact ⟨.quiet (Nat.le_refl _), rfl⟩
      · cases h
    · cases h
  | died =>
    split at h
    · cases h
    · cases h
      exact ⟨.died, rfl⟩
  | call kind target =>
    cases h
    exact ⟨.called, rfl⟩
  | on c a' => exact absurd rfl (ha c a')

/-! ## The attempts -/

/-- A call has seen what it attempts: as long as nothing else is published, that is its tunnel. -/
structure Inv (s : ReconnectingTunnel) : Prop where
  published : ∀ g, s.current.value = some g → g < s.generations
  seen : ∀ (c : Nat) (call : OpenCall) (g : Nat), s.calls[c]? = some call → call.phase.attempt = some g →
    g < s.generations ∧ call.seen ≤ s.current.version ∧
      (call.seen = s.current.version → s.current.value = some g)

theorem inv_spawn (now : Nat) : (spawn now).Inv where
  published := by
    intro g hg
    cases hg
    exact Nat.one_pos
  seen := by
    intro c call g hc
    simp [spawn] at hc

/-- Where a call of a list that has grown or changed in one place stands. -/
theorem getElem?_calls {l : List OpenCall} {c d : Nat} {call call' x : OpenCall} (hc : l[c]? = some call)
    (hx : (l.set c call')[d]? = some x) : (d = c ∧ x = call') ∨ (d ≠ c ∧ l[d]? = some x) := by
  have hlt : c < l.length := (List.getElem?_eq_some_iff.mp hc).1
  by_cases hd : c = d
  · subst hd
    rw [List.getElem?_set_self hlt] at hx
    exact .inl ⟨rfl, (Option.some.inj hx).symm⟩
  · rw [List.getElem?_set_ne hd] at hx
    exact .inr ⟨Ne.symm hd, hx⟩

theorem getElem?_called {l : List OpenCall} {d : Nat} {call x : OpenCall} (hx : (l ++ [call])[d]? = some x) :
    (d = l.length ∧ x = call) ∨ l[d]? = some x := by
  by_cases hlt : d < l.length
  · rw [List.getElem?_append_left hlt] at hx
    exact .inr hx
  · rw [List.getElem?_append_right (Nat.le_of_not_lt hlt)] at hx
    cases hk : d - l.length with
    | zero =>
      rw [hk] at hx
      exact .inl ⟨by omega, (Option.some.inj hx).symm⟩
    | succ k => simp [hk] at hx

theorem Inv.env (h : s.Inv) (he : Env params s a s') : s'.Inv := by
  cases he with
  | quiet | died => exact ⟨h.published, h.seen⟩
  | published hgen hvalue =>
    refine ⟨hvalue, ?_⟩
    intro c call g hc hg
    obtain ⟨hlt, hle, -⟩ := h.seen c call g hc hg
    refine ⟨Nat.lt_of_lt_of_le hlt hgen, Nat.le_succ_of_le hle, ?_⟩
    intro heq
    -- the version that the call has seen is behind the new one
    have hnew : call.seen = s.current.version + 1 := heq
    omega
  | called =>
    refine ⟨h.published, ?_⟩
    intro c call g hc hg
    rcases getElem?_called hc with ⟨rfl, rfl⟩ | hc
    · cases hg
    · exact h.seen c call g hc hg

theorem Inv.step (h : s.Inv) (hs : s.step params a = some (s', ev)) : s'.Inv := by
  by_cases ha : ∃ c a', a = .on c a'
  · obtain ⟨c, a', rfl⟩ := ha
    obtain ⟨call, call', ev', hcall, hstep, rfl, -⟩ := step_call hs
    refine ⟨h.published, ?_⟩
    intro d x g hx hg
    rcases getElem?_calls hcall hx with ⟨rfl, rfl⟩ | ⟨-, hx⟩
    · rcases OpenCall.attempt_step hstep hg with ⟨hg, hseen⟩ | ⟨hseen, hvalue⟩
      · rw [hseen]
        exact h.seen d call g hcall hg
      · exact ⟨h.published g hvalue, Nat.le_of_eq hseen, fun _ => hvalue⟩
    · exact h.seen d x g hx hg
  · exact h.env (step_env (fun c a' hact => ha ⟨c, a', hact⟩) hs).1

/-! ## What a call has done -/

/-- The steps of a call, in order. -/
def own (c : Nat) (log : List (Taken ReconnectingTunnel ReconnectAct (Nat × CallEvent))) :
    List (Taken ReconnectingTunnel ReconnectAct (Nat × CallEvent)) :=
  log.filter fun t => t.act.isOf c

variable {log : List (Taken ReconnectingTunnel ReconnectAct (Nat × CallEvent))}

@[simp] theorem own_snoc (c : Nat) (t : Taken ReconnectingTunnel ReconnectAct (Nat × CallEvent)) :
    own c (log ++ [t]) = own c log ++ if t.act.isOf c then [t] else [] := by
  rw [own, List.filter_append]
  by_cases h : t.act.isOf c <;> simp [own, h]

/-- The call has looked at the timer, and then at the channel, in this poll. -/
structure History (params : ReconnectParams)
    (log : List (Taken ReconnectingTunnel ReconnectAct (Nat × CallEvent))) (c : Nat) (call : OpenCall) :
    Prop where
  made : ∃ t ∈ log, ∃ kind target, t.act = .call kind target ∧ t.pre.calls.length = c ∧
    call.deadline = t.pre.now + params.hold.asNanos
  timed : ∀ g, call.phase = .changed g → ∃ l t, own c log = l ++ [t] ∧ t.act = .on c .pollTimer ∧
    t.pre.now < call.deadline
  latest : ∀ g, call.phase = .inner g → ∃ l t₁ t₂, own c log = l ++ [t₁, t₂] ∧
    t₁.act = .on c .pollTimer ∧ t₁.pre.now < call.deadline ∧ t₂.act = .on c .pollChanged ∧
    t₂.pre.current.value = some g

theorem History.snoc {c : Nat} {call : OpenCall} (h : History params log c call)
    {t : Taken ReconnectingTunnel ReconnectAct (Nat × CallEvent)} (ht : t.act.isOf c = false) :
    History params (log ++ [t]) c call := by
  have hown : own c (log ++ [t]) = own c log := by simp [ht]
  obtain ⟨t₀, ht₀, hmade⟩ := h.made
  refine ⟨⟨t₀, List.mem_append_left _ ht₀, hmade⟩, ?_, ?_⟩
  · rw [hown]
    exact h.timed
  · rw [hown]
    exact h.latest

/-- The step of the call itself. -/
theorem History.stepped {c : Nat} {call call' : OpenCall} {a : CallAct} {ev' : List CallEvent}
    (h : History params log c call) (hinv : s.Inv) (hcall : s.calls[c]? = some call)
    (hstep : call.step s.now s.current a = some (call', ev')) :
    History params (log ++ [⟨s, .on c a, ev⟩]) c call' := by
  have hown : own c (log ++ [⟨s, .on c a, ev⟩]) = own c log ++ [⟨s, .on c a, ev⟩] := by
    simp [ReconnectAct.isOf]
  obtain ⟨t₀, ht₀, kind, target, hact, hlen, hdl⟩ := h.made
  refine ⟨⟨t₀, List.mem_append_left _ ht₀, kind, target, hact, hlen, ?_⟩, ?_, ?_⟩
  · rw [OpenCall.deadline_step hstep, hdl]
  · intro g hg
    cases OpenCall.step_moves hstep with
    | inTime _ htime => exact ⟨_, _, hown, rfl, htime⟩
    | _ => cases hg
  · intro g hg
    cases OpenCall.step_moves hstep with
    | latest hphase hseen =>
      cases hg
      obtain ⟨l, t, hl, htimer, htime⟩ := h.timed g hphase
      refine ⟨l, t, ⟨s, .on c .pollChanged, ev⟩, ?_, htimer, htime, rfl, ?_⟩
      · rw [hown, hl, List.append_assoc, List.singleton_append]
      · exact (hinv.seen c call g hcall (by rw [hphase]; rfl)).2.2 hseen
    | _ => cases hg

theorem History.called {kind : OpenKind} {target : String} :
    History params (log ++ [⟨s, .call kind target, ev⟩]) s.calls.length
      ⟨kind, target, s.now + params.hold.asNanos, 0, .top⟩ where
  made := ⟨_, List.mem_append_right _ (List.mem_singleton_self _), kind, target, rfl, rfl, rfl⟩
  timed := nofun
  latest := nofun

/-! ## Whole runs -/

variable {start : Nat}

theorem inv_run (h : Exec (step params) (spawn start) log s) : s.Inv :=
  h.state_inv (inv_spawn start) fun _ _ _ _ hinv hs => hinv.step hs

theorem isOf_iff {c : Nat} : a.isOf c = true ↔ ∃ a', a = .on c a' := by
  cases a with
  | on d a' =>
    simp only [ReconnectAct.isOf, decide_eq_true_eq]
    constructor
    · rintro rfl
      exact ⟨a', rfl⟩
    · rintro ⟨_, heq⟩
      cases heq
      rfl
  | _ => simp [ReconnectAct.isOf]

theorem history_run (h : Exec (step params) (spawn start) log s) {c : Nat} {call : OpenCall}
    (hc : s.calls[c]? = some call) : History params log c call := by
  induction h generalizing c call with
  | nil => simp [spawn] at hc
  | @snoc log s₁ s₂ a ev hrun hs ih =>
    by_cases ha : ∃ d a', a = .on d a'
    · obtain ⟨d, a', rfl⟩ := ha
      obtain ⟨x, x', ev', hx, hstep, rfl, -⟩ := step_call hs
      rcases getElem?_calls hx hc with ⟨rfl, rfl⟩ | ⟨hne, hc⟩
      · exact (ih hx).stepped (inv_run hrun) hx hstep
      · exact (ih hc).snoc (by simpa [ReconnectAct.isOf] using Ne.symm hne)
    · have hother : ∀ d, a.isOf d = false := by
        intro d
        rw [← Bool.not_eq_true, isOf_iff]
        exact fun ⟨a', hact⟩ => ha ⟨d, a', hact⟩
      cases (step_env (fun d a' hact => ha ⟨d, a', hact⟩) hs).1 with
      | quiet | published | died => exact (ih hc).snoc (hother c)
      | called =>
        rcases getElem?_called hc with ⟨rfl, rfl⟩ | hc
        · exact .called
        · exact (ih hc).snoc (hother c)

theorem now_step (hs : s.step params a = some (s', ev)) : s.now ≤ s'.now := by
  by_cases ha : ∃ c a', a = .on c a'
  · obtain ⟨c, a', rfl⟩ := ha
    obtain ⟨_, _, _, -, -, rfl, -⟩ := step_call hs
    exact Nat.le_refl _
  · cases (step_env (fun c a' hact => ha ⟨c, a', hact⟩) hs).1 with
    | quiet hnow => exact hnow
    | published | died | called => exact Nat.le_refl _

/-- A call behind its deadline keeps it, and each of its steps brings it closer to its end. -/
theorem expired_run (h : Exec (step params) s log s') {c : Nat} {call : OpenCall}
    (hc : s.calls[c]? = some call) (hpast : call.deadline ≤ s.now) :
    s.now ≤ s'.now ∧ ∃ call', s'.calls[c]? = some call' ∧ call'.deadline = call.deadline ∧
      (own c log).length + call'.phase.rank ≤ call.phase.rank := by
  induction h with
  | nil => exact ⟨Nat.le_refl _, call, hc, rfl, by simp [own]⟩
  | @snoc log s₁ s₂ a ev hrun hs ih =>
    obtain ⟨hnow, x, hx, hdl, hle⟩ := ih
    refine ⟨Nat.le_trans hnow (now_step hs), ?_⟩
    by_cases ha : ∃ d a', a = .on d a'
    · obtain ⟨d, a', rfl⟩ := ha
      obtain ⟨y, y', ev', hy, hstep, rfl, -⟩ := step_call hs
      by_cases hd : d = c
      · subst hd
        cases hy.symm.trans hx
        have hrank := OpenCall.rank_step hstep (by omega)
        refine ⟨y', ?_, (OpenCall.deadline_step hstep).trans hdl, ?_⟩
        · exact List.getElem?_set_self (List.getElem?_eq_some_iff.mp hx).1
        · simp only [own_snoc, ReconnectAct.isOf, decide_true, if_true, List.length_append,
            List.length_singleton]
          omega
      · refine ⟨x, (List.getElem?_set_ne hd).trans hx, hdl, ?_⟩
        simpa [ReconnectAct.isOf, hd] using hle
    · have hother : a.isOf c = false := by
        rw [← Bool.not_eq_true, isOf_iff]
        exact fun ⟨a', hact⟩ => ha ⟨c, a', hact⟩
      refine ⟨x, ?_, hdl, by simpa [hother] using hle⟩
      cases (step_env (fun d a' hact => ha ⟨d, a', hact⟩) hs).1 with
      | quiet | published | died => exact hx
      | called => exact (List.getElem?_append_left (List.getElem?_eq_some_iff.mp hx).1).trans hx

/-- A stream is returned from the attempt that the call was in, in the step that reports it. -/
theorem returned_step {c g : Nat} (hs : s.step params a = some (s', ev)) (hev : (c, .returned g) ∈ ev) :
    ∃ call, s.calls[c]? = some call ∧ call.phase = .inner g := by
  by_cases ha : ∃ d a', a = .on d a'
  · obtain ⟨d, a', rfl⟩ := ha
    obtain ⟨call, call', ev', hcall, hstep, -, rfl⟩ := step_call hs
    obtain ⟨e, he, heq⟩ := List.mem_map.mp hev
    cases heq
    refine ⟨call, hcall, ?_⟩
    cases OpenCall.step_moves hstep with
    | returns hphase =>
      rw [List.mem_singleton] at he
      cases he
      exact hphase
    | expired | orphaned | began =>
      rw [List.mem_singleton] at he
      cases he
    | _ => cases he
  · rw [(step_env (fun d a' hact => ha ⟨d, a', hact⟩) hs).2] at hev
    cases hev

/-- The look at the channel finds something else than what is attempted: the attempt is over, and the
call is at the top of its loop again. -/
theorem superseded_step (hinv : s.Inv) {c g : Nat} {call : OpenCall} (hcall : s.calls[c]? = some call)
    (hphase : call.phase = .changed g) (hvalue : s.current.value ≠ some g)
    (hs : s.step params (.on c .pollChanged) = some (s', ev)) :
    ev = [] ∧ ∃ call', s'.calls[c]? = some call' ∧ call'.phase = .top ∧ call'.deadline = call.deadline := by
  obtain ⟨x, x', ev', hx, hstep, rfl, rfl⟩ := step_call hs
  cases hx.symm.trans hcall
  have hseen : call.seen ≠ s.current.version := by
    intro heq
    exact hvalue ((hinv.seen c call g hcall (by rw [hphase]; rfl)).2.2 heq)
  simp only [OpenCall.step, hphase, if_pos hseen, Option.some.injEq, Prod.mk.injEq] at hstep
  obtain ⟨rfl, rfl⟩ := hstep
  exact ⟨rfl, _, List.getElem?_set_self (List.getElem?_eq_some_iff.mp hcall).1, rfl, rfl⟩

theorem returned_run (h : Exec (step params) (spawn start) log s)
    {before after : List (Taken ReconnectingTunnel ReconnectAct (Nat × CallEvent))}
    {t : Taken ReconnectingTunnel ReconnectAct (Nat × CallEvent)} {c g : Nat}
    (hlog : log = before ++ t :: after) (hev : (c, .returned g) ∈ t.ev) :
    g < t.pre.generations ∧ ∃ l t₁ t₂ call, own c before = l ++ [t₁, t₂] ∧
      t.pre.calls[c]? = some call ∧ t₁.act = .on c .pollTimer ∧ t₁.pre.now < call.deadline ∧
      t₂.act = .on c .pollChanged ∧ t₂.pre.current.value = some g := by
  subst hlog
  obtain ⟨hbefore, s₁, hs, -⟩ := h.split
  obtain ⟨call, hcall, hphase⟩ := returned_step hs hev
  obtain ⟨l, t₁, t₂, hown, htimer, htime, hchan, hvalue⟩ := (history_run hbefore hcall).latest g hphase
  have hattempt : call.phase.attempt = some g := by rw [hphase]; rfl
  exact ⟨((inv_run hbefore).seen c call g hcall hattempt).1,
    l, t₁, t₂, call, hown, hcall, htimer, htime, hchan, hvalue⟩

/-- The calls over every run. The last two steps of a call before it returns a stream of a tunnel were its
looks at the timer and at the channel: its time was not over, and that tunnel was the one published. If
the look finds anything else published, the call starts over. Nothing changes the deadline, which is the
time of the call and the hold; behind it the call has at most four steps left, and can always take one
until it has returned or failed. -/
theorem opens_on_latest (h : Exec (step params) (spawn start) log s) :
    (∀ before t after c g, log = before ++ t :: after → (c, .returned g) ∈ t.ev →
      g < t.pre.generations ∧ ∃ l t₁ t₂ call, own c before = l ++ [t₁, t₂] ∧
        t.pre.calls[c]? = some call ∧ t₁.act = .on c .pollTimer ∧ t₁.pre.now < call.deadline ∧
        t₂.act = .on c .pollChanged ∧ t₂.pre.current.value = some g) ∧
    (∀ before t after c g call, log = before ++ t :: after → t.act = .on c .pollChanged →
      t.pre.calls[c]? = some call → call.phase = .changed g → t.pre.current.value ≠ some g →
      t.ev = [] ∧ ∃ s₁ call', step params t.pre t.act = some (s₁, t.ev) ∧ s₁.calls[c]? = some call' ∧
        call'.phase = .top ∧ call'.deadline = call.deadline) ∧
    (∀ c call, s.calls[c]? = some call → ∃ t ∈ log, ∃ kind target, t.act = .call kind target ∧
      t.pre.calls.length = c ∧ call.deadline = t.pre.now + params.hold.asNanos) ∧
    (∀ c call, s.calls[c]? = some call → call.deadline ≤ s.now →
      ∀ log' s', Exec (step params) s log' s' → (own c log').length ≤ 4) ∧
    (∀ c call, s.calls[c]? = some call → call.phase.isDone = false →
      ∃ a, (s.step params (.on c a)).isSome) ∧
    (∀ c, (∀ t ∈ log, t.act = .on c .pollChanged → t.pre.current.value = none) →
      ∀ g, (c, .returned g) ∉ shown log) := by
  refine ⟨fun _ _ _ _ _ hlog hev => returned_run h hlog hev, ?_, ?_, ?_, ?_, ?_⟩
  · rintro before t after c g call rfl hact hcall hphase hvalue
    obtain ⟨hbefore, s₁, hs, -⟩ := h.split
    rw [hact] at hs
    obtain ⟨hev, call', hcall', htop, hdl⟩ := superseded_step (inv_run hbefore) hcall hphase hvalue hs
    exact ⟨hev, s₁, call', hact ▸ hs, hcall', htop, hdl⟩
  · exact fun c call hcall => (history_run h hcall).made
  · intro c call hcall hpast log' s' hrun
    obtain ⟨-, call', -, -, hle⟩ := expired_run hrun hcall hpast
    have hrank : call.phase.rank ≤ 4 := by
      cases call.phase <;> simp [CallPhase.rank]
    omega
  · intro c call hcall hdone
    obtain ⟨a, ha⟩ := OpenCall.enabled s.now s.current hdone
    obtain ⟨r, hr⟩ := Option.isSome_iff_exists.mp ha
    exact ⟨a, by simp [step, hcall, hr]⟩
  · intro c hnone g hmem
    obtain ⟨t, ht, hev⟩ := List.mem_flatMap.mp hmem
    obtain ⟨before, after, hlog⟩ := List.append_of_mem ht
    obtain ⟨-, l, t₁, t₂, call, hown, -, -, -, hchan, hvalue⟩ := returned_run h hlog hev
    have hmem₂ : t₂ ∈ own c before := by
      rw [hown]
      simp
    have hmem₂' : t₂ ∈ log := by
      rw [hlog]
      exact List.mem_append_left _ (List.mem_filter.mp hmem₂).1
    rw [hnone t₂ hmem₂' hchan] at hvalue
    cases hvalue

/-- The tunnel drops while a call attempts it, and the call returns a stream of the next one. -/
theorem opens_on_latest_redialed : ∃ log s,
    Exec (step default) (spawn 0) log s ∧ shown log = [(0, .attempt 0), (0, .attempt 1), (0, .returned 1)] ∧
      ∀ c call, s.calls[c]? = some call → ∃ t ∈ log, ∃ kind target, t.act = .call kind target ∧
        t.pre.calls.length = c ∧ call.deadline = t.pre.now + 5000000000 := by
  obtain ⟨log, s, hrun, hshown⟩ := exec_reaches (step default) (spawn 0)
    [.open "example.com:443", .on 0 .topCheck, .on 0 .read, .on 0 .pollTimer, .on 0 .pollChanged,
      .on 0 (.pollInner .pending), .dropped, .dialed true, .on 0 .wake, .on 0 .pollTimer,
      .on 0 .pollChanged, .on 0 .topCheck, .on 0 .read, .on 0 .pollTimer, .on 0 .pollChanged,
      .on 0 (.pollInner (.ready true))]
    (fun log _ => shown log = [(0, .attempt 0), (0, .attempt 1), (0, .returned 1)]) (by decide)
  exact ⟨log, s, hrun, hshown, (opens_on_latest hrun).2.2.1⟩

/-- The task publishes the next tunnel between the look of a call at the channel and the answer of its
attempt in the same poll: the call returns a stream of the tunnel before. -/
theorem returned_superseded :
    ¬ ∀ log s, Exec (step default) (spawn 0) log s → ∀ t ∈ log, ∀ c g, (c, .returned g) ∈ t.ev →
      ∀ g', t.pre.current.value = some g' → g' = g := by
  intro hclaim
  obtain ⟨log, s, hrun, t, ht, hev, hvalue⟩ := exec_reaches (step default) (spawn 0)
    [.open "example.com:443", .on 0 .topCheck, .on 0 .read, .on 0 .pollTimer, .on 0 .pollChanged,
      .dropped, .dialed true, .on 0 (.pollInner (.ready true))]
    (fun log _ => ∃ t ∈ log, (0, .returned 0) ∈ t.ev ∧ t.pre.current.value = some 1) (by decide)
  cases hclaim log s hrun t ht 0 0 hev 1 hvalue

end ReconnectingTunnel

end Leshiy.Client
