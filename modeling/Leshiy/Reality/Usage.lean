import Mathlib.Algebra.BigOperators.Group.List.Basic
import Leshiy.Core.Frame
import Leshiy.Lib.Run
import Leshiy.Reality.User

/-!
# Accounting for what a stream carries

`relay_stream` (`leshiy-reality/src/server.rs`) and `tunnel` (`leshiy-quic/src/server.rs`) carry one
stream both ways. Each direction counts what it has forwarded, reports it to the user store when it comes
to 64 KiB, and both report what is left when the relay ends. Between two awaits nothing else of the
process touches the relay, so a state is an await point and a step is the code from one to the next. The
store is shared: other sessions and the control plane change it in between.
-/

namespace Leshiy.Reality

open Leshiy.Lib

/-- Client to target, and target to client. -/
inductive Dir where
  | up
  | down
  deriving DecidableEq, Repr

def Dir.pick {α : Type} (d : Dir) (up down : α) : α :=
  match d with
  | .up => up
  | .down => down

/-- The two implementations. `relayStream` ends when either direction ends, `tunnel` lets the other one
go on after an end of file. -/
inductive Mode where
  | relayStream
  | tunnel
  deriving DecidableEq, Repr

/-- `FLUSH`: usage is reported when it comes to this much. -/
def FLUSH : Nat := 64 * 1024

/-- Where a direction waits: for data, for the token bucket, for the forwarding call of a chunk (with the
chunks that came together with it), for its shutdown; or it has returned. -/
inductive FlowPhase where
  | reads
  | throttled (n : Nat) (rest : List Nat)
  | forwards (n : Nat) (rest : List Nat)
  | closes
  | returned
  deriving DecidableEq, Repr

structure Flow where
  phase : FlowPhase
  acc : Nat
  deriving DecidableEq, Repr

/-- What a relay is started with. -/
structure Job where
  mode : Mode
  id : ShortId
  limited : Dir → Bool

/-- The relay, with the store that it shares. The result comes with the last report; an error has its text
inside. -/
structure StreamRelay where
  store : InMemoryUserStore
  up : Flow
  down : Flow
  result : Option (Except String Unit)

/-- A forwarding call completed; usage was added to the user's counters; usage was reported, but the user
was not in the store. -/
inductive UsageEvent where
  | forwarded (d : Dir) (n : Nat)
  | added (up down : Nat)
  | dropped (up down : Nat)
  deriving DecidableEq, Repr

/-- What others do to the store. -/
inductive StoreOp where
  | upsert (user : User)
  | remove (id : ShortId)
  | setEnabled (id : ShortId) (on : Bool)
  | resetUsage (id : ShortId)
  | addUsage (id : ShortId) (up down : UInt64)

def StoreOp.apply (s : InMemoryUserStore) : StoreOp → InMemoryUserStore
  | .upsert user => s.upsert user
  | .remove id => (s.remove id).2
  | .setEnabled id on => (s.setEnabled id on).2
  | .resetUsage id => (s.resetUsage id).2
  | .addUsage id up down => s.addUsage id up down

/-- What a relay is woken by: data; tokens; the end of a forwarding call; end of file; the end of the
shutdown; an error; the revocation timer. -/
inductive Wake where
  | received (d : Dir) (chunks : List Nat)
  | ready (d : Dir)
  | forwarded (d : Dir) (now : UInt64)
  | ended (d : Dir)
  | closed (d : Dir)
  | failed (d : Dir) (msg : String)
  | tick (now : UInt64)

/-- What one read can give. Reads from the target have a buffer, and of nothing they mean end of file; a
client's stream gives one chunk in the mux, and in HTTP/3 the parts of a frame. -/
def Mode.admits : Mode → Dir → List Nat → Bool
  | .relayStream, .up, [_] => true
  | .relayStream, .down, [n] => 0 < n && n ≤ MAX_FRAME_PAYLOAD
  | .tunnel, .up, chunks => chunks.all (0 < ·)
  | .tunnel, .down, [n] => 0 < n && n ≤ 16384
  | _, _, _ => false

/-- How a relay ends when a report finds that the user is no longer allowed. -/
def Mode.revoked : Mode → Except String Unit
  | .relayStream => .ok ()
  | .tunnel => .error "session ended"

/-- What comes next in a direction with some chunks left. -/
def Job.next (job : Job) (d : Dir) : List Nat → FlowPhase
  | [] => .reads
  | n :: rest => if job.limited d then .throttled n rest else .forwards n rest

/-- `add_usage`. -/
def Job.report (job : Job) (store : InMemoryUserStore) (up down : Nat) :
    InMemoryUserStore × UsageEvent :=
  (store.addUsage job.id (UInt64.ofNat up) (UInt64.ofNat down),
    if (store.find job.id).isSome then .added up down else .dropped up down)

namespace StreamRelay

def start (store : InMemoryUserStore) : StreamRelay := ⟨store, ⟨.reads, 0⟩, ⟨.reads, 0⟩, none⟩

def flow (s : StreamRelay) (d : Dir) : Flow := d.pick s.up s.down

def put (s : StreamRelay) (d : Dir) (f : Flow) : StreamRelay :=
  match d with
  | .up => { s with up := f }
  | .down => { s with down := f }

def enter (s : StreamRelay) (d : Dir) (p : FlowPhase) : StreamRelay := s.put d { s.flow d with phase := p }

/-- The report after the `select!`, with which the relay returns. -/
def finish (job : Job) (s : StreamRelay) (res : Except String Unit) : StreamRelay × List UsageEvent :=
  let r := job.report s.store s.up.acc s.down.acc
  ({ s with store := r.1, result := some res }, [r.2])

/-- A forwarding call has completed. -/
def complete (job : Job) (s : StreamRelay) (d : Dir) (n : Nat) (rest : List Nat) (now : UInt64) :
    StreamRelay × List UsageEvent :=
  let acc := (s.flow d).acc + n
  if FLUSH ≤ acc then
    let r := job.report s.store (d.pick acc 0) (d.pick 0 acc)
    let s := { s.put d ⟨job.next d rest, 0⟩ with store := r.1 }
    if s.store.stillAllowed job.id now then (s, [.forwarded d n, r.2])
    else
      let f := s.finish job job.mode.revoked
      (f.1, [.forwarded d n, r.2] ++ f.2)
  else (s.put d ⟨job.next d rest, acc⟩, [.forwarded d n])

/-- The relay runs from one await to the next. -/
def wake (job : Job) (s : StreamRelay) : Wake → Option (StreamRelay × List UsageEvent)
  | .received d chunks =>
    match (s.flow d).phase with
    | .reads => if job.mode.admits d chunks then some (s.enter d (job.next d chunks), []) else none
    | _ => none
  | .ready d =>
    match (s.flow d).phase with
    | .throttled n rest => some (s.enter d (.forwards n rest), [])
    | _ => none
  | .forwarded d now =>
    match (s.flow d).phase with
    | .forwards n rest => some (s.complete job d n rest now)
    | _ => none
  | .ended d =>
    match (s.flow d).phase, job.mode with
    | .reads, .relayStream => some (s.finish job (.ok ()))
    | .reads, .tunnel => some (s.enter d .closes, [])
    | _, _ => none
  | .closed d =>
    match (s.flow d).phase with
    | .closes =>
      let s := s.enter d .returned
      -- `try_join!` waits for both
      if s.up.phase = .returned ∧ s.down.phase = .returned then some (s.finish job (.ok ()))
      else some (s, [])
    | _ => none
  | .failed d msg =>
    match (s.flow d).phase, job.mode, d with
    -- `while let Ok(b) = stream.recv().await`
    | .reads, .relayStream, .up => some (s.finish job (.ok ()))
    | .reads, _, _ | .forwards .., _, _ | .closes, _, _ => some (s.finish job (.error msg))
    | _, _, _ => none
  | .tick now =>
    if s.store.stillAllowed job.id now then some (s, []) else some (s.finish job (.ok ()))

inductive Act where
  | admin (op : StoreOp)
  | wakes (w : Wake)

def step (job : Job) (s : StreamRelay) : Act → Option (StreamRelay × List UsageEvent)
  | .admin op => some ({ s with store := op.apply s.store }, [])
  | .wakes w => if s.result.isSome then none else s.wake job w

/-- What a direction has forwarded and not reported. -/
def pending (s : StreamRelay) (d : Dir) : Nat := if s.result.isSome then 0 else (s.flow d).acc

end StreamRelay

/-! ## Sums over what was seen -/

section

variable (d : Dir)

def forwardedIn (evs : List UsageEvent) : Nat :=
  (evs.map fun | .forwarded d' n => if d' = d then n else 0 | _ => 0).sum

def addedIn (evs : List UsageEvent) : Nat :=
  (evs.map fun | .added up down => d.pick up down | _ => 0).sum

def droppedIn (evs : List UsageEvent) : Nat :=
  (evs.map fun | .dropped up down => d.pick up down | _ => 0).sum

@[simp] theorem forwardedIn_append (evs evs' : List UsageEvent) :
    forwardedIn d (evs ++ evs') = forwardedIn d evs + forwardedIn d evs' := by
  simp [forwardedIn]

@[simp] theorem addedIn_append (evs evs' : List UsageEvent) :
    addedIn d (evs ++ evs') = addedIn d evs + addedIn d evs' := by
  simp [addedIn]

@[simp] theorem droppedIn_append (evs evs' : List UsageEvent) :
    droppedIn d (evs ++ evs') = droppedIn d evs + droppedIn d evs' := by
  simp [droppedIn]

@[simp] theorem forwardedIn_forwarded (d' : Dir) (n : Nat) :
    forwardedIn d [.forwarded d' n] = if d' = d then n else 0 := by
  simp [forwardedIn]

end

/-- A list of reports: nothing in it was forwarded. -/
structure Reports (evs : List UsageEvent) (up down : Nat) : Prop where
  quiet : ∀ d, forwardedIn d evs = 0
  settled : ∀ d, addedIn d evs + droppedIn d evs = d.pick up down

theorem reports_report (job : Job) (store : InMemoryUserStore) (up down : Nat) :
    Reports [(job.report store up down).2] up down := by
  unfold Job.report
  by_cases hfind : (store.find job.id).isSome
  · simp only [hfind, if_true]
    refine ⟨fun d => rfl, fun d => ?_⟩
    simp [addedIn, droppedIn]
  · simp only [hfind]
    refine ⟨fun d => rfl, fun d => ?_⟩
    simp [addedIn, droppedIn]

namespace StreamRelay

section

variable {job : Job} {s s' : StreamRelay} {d : Dir} {ev : List UsageEvent}

theorem flow_put (s : StreamRelay) (d : Dir) (f : Flow) (d' : Dir) :
    (s.put d f).flow d' = if d' = d then f else s.flow d' := by
  cases d <;> cases d' <;> rfl

@[simp] theorem store_put (s : StreamRelay) (d : Dir) (f : Flow) : (s.put d f).store = s.store := by
  cases d <;> rfl

@[simp] theorem result_put (s : StreamRelay) (d : Dir) (f : Flow) :
    (s.put d f).result = s.result := by
  cases d <;> rfl

theorem acc_enter (s : StreamRelay) (d : Dir) (p : FlowPhase) (d' : Dir) :
    ((s.enter d p).flow d').acc = (s.flow d').acc := by
  rw [enter, flow_put]
  by_cases hd : d' = d
  · rw [if_pos hd, hd]
  · rw [if_neg hd]

/-- Two states that differ in nothing that is accounted for. -/
structure SameBooks (s s' : StreamRelay) : Prop where
  store : s'.store = s.store
  acc : ∀ d, (s'.flow d).acc = (s.flow d).acc
  result : s'.result = s.result

theorem SameBooks.refl : SameBooks s s := ⟨rfl, fun _ => rfl, rfl⟩

theorem sameBooks_enter (s : StreamRelay) (d : Dir) (p : FlowPhase) : SameBooks s (s.enter d p) :=
  ⟨store_put _ _ _, acc_enter s d p, result_put _ _ _⟩

/-- What a relay can do from one await to the next. -/
inductive Woken (job : Job) (s : StreamRelay) : StreamRelay → List UsageEvent → Prop
  | quiet {s' : StreamRelay} (hsame : SameBooks s s') : Woken job s s' []
  | finish {s₁ : StreamRelay} (hsame : SameBooks s s₁) (res : Except String Unit) :
      Woken job s (s₁.finish job res).1 (s₁.finish job res).2
  | complete {d : Dir} {n : Nat} {rest : List Nat} (hphase : (s.flow d).phase = .forwards n rest)
      (now : UInt64) : Woken job s (s.complete job d n rest now).1 (s.complete job d n rest now).2

theorem woken_of_wake {w : Wake} (h : s.wake job w = some (s', ev)) : Woken job s s' ev := by
  cases w with simp only [wake] at h
  | received d chunks =>
    split at h
    · split at h
      · cases h
        exact .quiet (sameBooks_enter s d _)
      · cases h
    · cases h
  | ready d =>
    split at h
    · cases h
      exact .quiet (sameBooks_enter s d _)
    · cases h
  | forwarded d now =>
    split at h
    · next n rest hphase =>
      have heq := Option.some.inj h
      obtain rfl : (s.complete job d n rest now).1 = s' := congrArg Prod.fst heq
      obtain rfl : (s.complete job d n rest now).2 = ev := congrArg Prod.snd heq
      exact .complete hphase now
    · cases h
  | ended d =>
    split at h
    · cases h
      exact .finish .refl (.ok ())
    · cases h
      exact .quiet (sameBooks_enter s d _)
    · cases h
  | closed d =>
    split at h
    · split at h
      · cases h
        exact .finish (sameBooks_enter s d _) (.ok ())
      · cases h
        exact .quiet (sameBooks_enter s d _)
    · cases h
  | failed d msg =>
    split at h
    · cases h
      exact .finish .refl (.ok ())
    · cases h
      exact .finish .refl (.error msg)
    · cases h
      exact .finish .refl (.error msg)
    · cases h
      exact .finish .refl (.error msg)
    · cases h
  | tick now =>
    split at h
    · cases h
      exact .quiet .refl
    · cases h
      exact .finish .refl (.ok ())

/-! ## One step -/

/-- Nothing is left unreported up to the threshold. -/
def Bounded (s : StreamRelay) : Prop := ∀ d, (s.flow d).acc < FLUSH

/-- The books of a step balance: what was pending and what was forwarded is reported or pending. -/
def Balanced (s : StreamRelay) (ev : List UsageEvent) (s' : StreamRelay) : Prop :=
  ∀ d, forwardedIn d ev + s.pending d = addedIn d ev + droppedIn d ev + s'.pending d

theorem pending_of_running (h : s.result = none) (d : Dir) : s.pending d = (s.flow d).acc := by
  rw [pending, h]
  rfl

theorem Balanced.trans {s₁ : StreamRelay} {ev₁ ev₂ : List UsageEvent} (h₁ : s.Balanced ev₁ s₁)
    (h₂ : s₁.Balanced ev₂ s') : s.Balanced (ev₁ ++ ev₂) s' := by
  intro d
  have e₁ := h₁ d
  have e₂ := h₂ d
  rw [forwardedIn_append, addedIn_append, droppedIn_append]
  omega

theorem SameBooks.bounded (h : SameBooks s s') (hb : s.Bounded) : s'.Bounded := by
  intro d
  rw [h.acc d]
  exact hb d

theorem SameBooks.balanced (h : SameBooks s s') : s.Balanced [] s' := by
  intro d
  show 0 + s.pending d = 0 + 0 + s'.pending d
  rw [pending, pending, h.result, h.acc d]

theorem bounded_finish (hb : s.Bounded) (res : Except String Unit) :
    (s.finish job res).1.Bounded := hb

theorem balanced_finish (hrun : s.result = none) (res : Except String Unit) :
    s.Balanced (s.finish job res).2 (s.finish job res).1 := by
  intro d
  have hrep : Reports (s.finish job res).2 s.up.acc s.down.acc := reports_report job s.store _ _
  have hflow : d.pick s.up.acc s.down.acc = (s.flow d).acc := by
    cases d <;> rfl
  have hdone : (s.finish job res).1.pending d = 0 := rfl
  rw [hrep.quiet d, hrep.settled d, pending_of_running hrun, hflow, hdone]
  omega

/-- The state after a report of one direction. -/
def reported (job : Job) (s : StreamRelay) (d : Dir) (acc : Nat) (rest : List Nat) : StreamRelay :=
  { s.put d ⟨job.next d rest, 0⟩ with
    store := (job.report s.store (d.pick acc 0) (d.pick 0 acc)).1 }

theorem bounded_put (hb : s.Bounded) (d : Dir) (p : FlowPhase) {acc : Nat} (hacc : acc < FLUSH) :
    (s.put d ⟨p, acc⟩).Bounded := by
  intro d'
  rw [flow_put]
  by_cases hd : d' = d
  · rw [if_pos hd]
    exact hacc
  · rw [if_neg hd]
    exact hb d'

/-- A report in a direction, right after a forwarding call. -/
theorem balanced_reported (hrun : s.result = none) (d : Dir) (n : Nat) (rest : List Nat) :
    s.Balanced [.forwarded d n,
        (job.report s.store (d.pick ((s.flow d).acc + n) 0) (d.pick 0 ((s.flow d).acc + n))).2]
      (s.reported job d ((s.flow d).acc + n) rest) := by
  intro d'
  have hrep := reports_report job s.store (d.pick ((s.flow d).acc + n) 0)
    (d.pick 0 ((s.flow d).acc + n))
  generalize (job.report s.store _ _).2 = e at hrep ⊢
  have hrun' : (s.reported job d ((s.flow d).acc + n) rest).result = none :=
    (result_put _ _ _).trans hrun
  have hflow : (s.reported job d ((s.flow d).acc + n) rest).flow d' =
      (s.put d ⟨job.next d rest, 0⟩).flow d' := rfl
  have hquiet : addedIn d' [.forwarded d n, e] + droppedIn d' [.forwarded d n, e] =
      addedIn d' [e] + droppedIn d' [e] := by
    simp [addedIn, droppedIn]
  have hforwarded : forwardedIn d' [.forwarded d n, e] = (if d = d' then n else 0) + forwardedIn d' [e] := by
    simp [forwardedIn]
  rw [hforwarded, hrep.quiet d', hquiet, hrep.settled d', pending_of_running hrun,
    pending_of_running hrun', hflow, flow_put]
  by_cases hd : d' = d
  · subst hd
    rw [if_pos rfl, if_pos rfl]
    cases d' <;> simp only [Dir.pick] <;> omega
  · rw [if_neg (Ne.symm hd), if_neg hd]
    have hother : d'.pick (d.pick ((s.flow d).acc + n) 0) (d.pick 0 ((s.flow d).acc + n)) = 0 := by
      cases d <;> cases d' <;> first | rfl | exact absurd rfl hd
    rw [hother]

theorem balanced_put (hrun : s.result = none) (d : Dir) (n : Nat) (p : FlowPhase) :
    s.Balanced [.forwarded d n] (s.put d ⟨p, (s.flow d).acc + n⟩) := by
  intro d'
  have hrun' : (s.put d ⟨p, (s.flow d).acc + n⟩).result = none := (result_put _ _ _).trans hrun
  have hnone : addedIn d' [.forwarded d n] + droppedIn d' [.forwarded d n] = 0 := rfl
  rw [forwardedIn_forwarded, hnone, pending_of_running hrun, pending_of_running hrun', flow_put]
  by_cases hd : d' = d
  · subst hd
    rw [if_pos rfl, if_pos rfl]
    show n + (s.flow d').acc = 0 + ((s.flow d').acc + n)
    omega
  · rw [if_neg (Ne.symm hd), if_neg hd]

/-- How a completed call goes on: below the threshold, reported, or reported and over. -/
theorem complete_cases (job : Job) (s : StreamRelay) (d : Dir) (n : Nat) (rest : List Nat)
    (now : UInt64) :
    ((s.flow d).acc + n < FLUSH ∧ s.complete job d n rest now =
        (s.put d ⟨job.next d rest, (s.flow d).acc + n⟩, [.forwarded d n])) ∨
      ∃ e, e = (job.report s.store (d.pick ((s.flow d).acc + n) 0)
          (d.pick 0 ((s.flow d).acc + n))).2 ∧
        (s.complete job d n rest now =
            (s.reported job d ((s.flow d).acc + n) rest, [.forwarded d n, e]) ∨
          s.complete job d n rest now =
            (((s.reported job d ((s.flow d).acc + n) rest).finish job job.mode.revoked).1,
              [.forwarded d n, e] ++
                ((s.reported job d ((s.flow d).acc + n) rest).finish job job.mode.revoked).2)) := by
  by_cases hlt : FLUSH ≤ (s.flow d).acc + n
  · refine .inr ⟨_, rfl, ?_⟩
    simp only [complete, if_pos hlt]
    by_cases hok : (s.reported job d ((s.flow d).acc + n) rest).store.stillAllowed job.id now = true
    · exact .inl (if_pos hok)
    · exact .inr (if_neg hok)
  · refine .inl ⟨Nat.lt_of_not_le hlt, ?_⟩
    simp only [complete, if_neg hlt]

/-- **The books of every step balance**, and the threshold is kept. -/
theorem Woken.balanced (h : Woken job s s' ev) (hrun : s.result = none) (hb : s.Bounded) :
    s'.Bounded ∧ s.Balanced ev s' := by
  cases h with
  | quiet hsame => exact ⟨hsame.bounded hb, hsame.balanced⟩
  | @finish s₁ hsame res =>
    have hrun₁ := hsame.result.trans hrun
    exact ⟨bounded_finish (hsame.bounded hb) res, hsame.balanced.trans (balanced_finish hrun₁ res)⟩
  | @complete d n rest hphase now =>
    have hzero : (s.reported job d ((s.flow d).acc + n) rest).Bounded :=
      bounded_put hb d (job.next d rest) (by decide)
    have hrun₁ : (s.reported job d ((s.flow d).acc + n) rest).result = none :=
      (result_put _ _ _).trans hrun
    rcases complete_cases job s d n rest now with ⟨hlt, heq⟩ | ⟨e, rfl, heq | heq⟩
    · rw [heq]
      exact ⟨bounded_put hb d _ hlt, balanced_put hrun d n _⟩
    · rw [heq]
      exact ⟨hzero, balanced_reported hrun d n rest⟩
    · rw [heq]
      exact ⟨bounded_finish hzero _, (balanced_reported hrun d n rest).trans (balanced_finish hrun₁ _)⟩

/-! ## The counters of the user -/

/-- An entry with more usage. -/
def credit (e : Entry) (ev : List UsageEvent) : Entry :=
  { e with
    usedUp := e.usedUp + UInt64.ofNat (addedIn .up ev)
    usedDown := e.usedDown + UInt64.ofNat (addedIn .down ev) }

/-- The counters of the user grow by what was added, and nothing is dropped while the user is there. -/
structure Credited (id : ShortId) (store : InMemoryUserStore) (ev : List UsageEvent)
    (store' : InMemoryUserStore) : Prop where
  found : store'.find id = (store.find id).map fun e => credit e ev
  kept : (store.find id).isSome → ∀ d, droppedIn d ev = 0

variable {id : ShortId} {store store₁ store₂ : InMemoryUserStore} {ev₁ ev₂ : List UsageEvent}

/-- Events that are no reports. -/
theorem Credited.of_quiet (hadded : ∀ d, addedIn d ev = 0) (hdropped : ∀ d, droppedIn d ev = 0) :
    Credited id store ev store where
  found := by
    have hid : (fun e => credit e ev) = fun e => e := by
      funext e
      simp [credit, hadded]
    rw [hid, Option.map_id']
  kept := fun _ => hdropped

theorem Credited.trans (h₁ : Credited id store ev₁ store₁) (h₂ : Credited id store₁ ev₂ store₂) :
    Credited id store (ev₁ ++ ev₂) store₂ where
  found := by
    have hcredit : (fun e => credit (credit e ev₁) ev₂) = fun e => credit e (ev₁ ++ ev₂) := by
      funext e
      simp only [credit, addedIn_append, UInt64.ofNat_add, UInt64.add_assoc]
    rw [h₂.found, h₁.found, Option.map_map]
    exact congrArg (Option.map · (store.find id)) hcredit
  kept := by
    intro hthere d
    have hthere₁ : (store₁.find id).isSome := by
      rw [h₁.found, Option.isSome_map]
      exact hthere
    rw [droppedIn_append, h₁.kept hthere d, h₂.kept hthere₁ d]

theorem credited_report (job : Job) (store : InMemoryUserStore) (up down : Nat) :
    Credited job.id store [(job.report store up down).2] (job.report store up down).1 where
  found := by
    show (store.addUsage job.id _ _).find job.id = _
    rw [InMemoryUserStore.find_addUsage, if_pos rfl]
    cases hfind : store.find job.id with
    | none => rfl
    | some e => simp [Job.report, hfind, credit, addedIn, Dir.pick]
  kept := by
    intro hthere d
    simp [Job.report, hthere, droppedIn]

theorem credited_finish (s : StreamRelay) (res : Except String Unit) :
    Credited job.id s.store (s.finish job res).2 (s.finish job res).1.store :=
  credited_report job s.store _ _

/-- A report in a direction, right after a forwarding call. -/
theorem credited_reported (s : StreamRelay) (d : Dir) (n acc : Nat) (rest : List Nat) :
    Credited job.id s.store
      [.forwarded d n, (job.report s.store (d.pick acc 0) (d.pick 0 acc)).2]
      (s.reported job d acc rest).store := by
  have hforwarded : Credited job.id s.store [.forwarded d n] s.store :=
    .of_quiet (fun _ => rfl) fun _ => rfl
  exact hforwarded.trans (credited_report job s.store _ _)

/-- **Every step credits the user with what it adds.** -/
theorem Woken.credited (h : Woken job s s' ev) : Credited job.id s.store ev s'.store := by
  cases h with
  | quiet hsame =>
    rw [hsame.store]
    exact .of_quiet (fun _ => rfl) fun _ => rfl
  | @finish s₁ hsame res =>
    rw [← hsame.store]
    exact credited_finish s₁ res
  | @complete d n rest hphase now =>
    rcases complete_cases job s d n rest now with ⟨-, heq⟩ | ⟨e, rfl, heq | heq⟩
    · rw [heq, store_put]
      exact .of_quiet (fun _ => rfl) fun _ => rfl
    · rw [heq]
      exact credited_reported s d n _ rest
    · rw [heq]
      exact (credited_reported s d n _ rest).trans (credited_finish _ _)

/-! ## Runs -/

variable {log : List (Taken StreamRelay Act UsageEvent)}

theorem step_admin {op : StoreOp} (h : s.step job (.admin op) = some (s', ev)) :
    s' = { s with store := op.apply s.store } ∧ ev = [] := by
  cases h
  exact ⟨rfl, rfl⟩

theorem step_wakes {w : Wake} (h : s.step job (.wakes w) = some (s', ev)) :
    s.result = none ∧ Woken job s s' ev := by
  simp only [step] at h
  by_cases hres : s.result.isSome = true
  · rw [if_pos hres] at h
    cases h
  · rw [if_neg hres] at h
    refine ⟨?_, woken_of_wake h⟩
    simpa using hres

theorem balanced_of_step {a : Act} (h : s.step job a = some (s', ev)) (hb : s.Bounded) :
    s'.Bounded ∧ s.Balanced ev s' := by
  cases a with
  | admin op =>
    obtain ⟨rfl, rfl⟩ := step_admin h
    exact ⟨hb, fun d => by simp [forwardedIn, addedIn, droppedIn, pending, flow]⟩
  | wakes w =>
    obtain ⟨hrun, hw⟩ := step_wakes h
    exact hw.balanced hrun hb

theorem balanced_run {store : InMemoryUserStore} (h : Exec (step job) (start store) log s) :
    s.Bounded ∧ ∀ d, forwardedIn d (shown log) =
      addedIn d (shown log) + droppedIn d (shown log) + s.pending d := by
  refine h.inv (P := fun log s => s.Bounded ∧ ∀ d, forwardedIn d (shown log) =
    addedIn d (shown log) + droppedIn d (shown log) + s.pending d) ?_ ?_
  · refine ⟨fun d => ?_, fun d => ?_⟩
    · have hzero : ((start store).flow d).acc = 0 := by
        cases d <;> rfl
      rw [hzero]
      decide
    · cases d <;> rfl
  · rintro log s a s' ev - ⟨hb, hsum⟩ hs
    obtain ⟨hb', hbal⟩ := balanced_of_step hs hb
    refine ⟨hb', fun d => ?_⟩
    have h₁ := hsum d
    have h₂ := hbal d
    simp only [shown_snoc, forwardedIn_append, addedIn_append, droppedIn_append]
    omega

/-- The user is in the store when the relay runs. -/
def Listed (job : Job) (s : StreamRelay) : Act → Prop
  | .admin _ => True
  | .wakes _ => (s.store.find job.id).isSome

theorem dropped_run {store : InMemoryUserStore} (h : Exec (step job) (start store) log s)
    (hlisted : Steps (Listed job) log) (d : Dir) : droppedIn d (shown log) = 0 := by
  refine h.inv (P := fun log _ => Steps (Listed job) log → droppedIn d (shown log) = 0) ?_ ?_ hlisted
  · intro _
    rfl
  · intro log s a s' ev _ ih hs hlisted
    obtain ⟨hlog, ha⟩ := steps_snoc.mp hlisted
    rw [shown_snoc, droppedIn_append, ih hlog]
    cases a with
    | admin op =>
      obtain ⟨-, rfl⟩ := step_admin hs
      rfl
    | wakes w =>
      obtain ⟨-, hw⟩ := step_wakes hs
      rw [hw.credited.kept ha d]

/-- **Usage is accounted for exactly.** At every await of every run, what the forwarding calls of a
direction have completed is what was added to the user's counters, what was reported while the user was
not in the store, and less than 64 KiB that is still to be reported; when the relay has returned, nothing
is still to be reported. Nothing is lost while the user is in the store, and each step raises the user's
counters by what it adds. -/
theorem usage_exact (job : Job) (store : InMemoryUserStore) (h : Exec (step job) (start store) log s) :
    (∀ d, forwardedIn d (shown log) =
        addedIn d (shown log) + droppedIn d (shown log) + s.pending d ∧ s.pending d < 64 * 1024) ∧
      (s.result.isSome → ∀ d, s.pending d = 0) ∧
      (Steps (Listed job) log → ∀ d, droppedIn d (shown log) = 0) ∧
      ∀ t ∈ log, ∀ w s', t.act = .wakes w → t.pre.step job t.act = some (s', t.ev) →
        s'.store.find job.id = (t.pre.store.find job.id).map fun e => credit e t.ev := by
  obtain ⟨hb, hsum⟩ := balanced_run h
  refine ⟨fun d => ⟨hsum d, ?_⟩, ?_, fun hlisted d => dropped_run h hlisted d, ?_⟩
  · unfold pending
    split
    · decide
    · exact hb d
  · intro hres d
    exact if_pos hres
  · intro t _ w s' hact hs
    rw [hact] at hs
    exact (step_wakes hs).2.credited.found

end

instance (job : Job) (s : StreamRelay) (a : Act) : Decidable (Listed job s a) :=
  match a with
  | .admin _ => isTrue trivial
  | .wakes _ => inferInstanceAs (Decidable ((s.store.find job.id).isSome = true))

/-- A user without limits. -/
def unlimited : User := ⟨Block.fill 8 1, true, none, none, none, none⟩

/-- More than the threshold goes up, some goes down, and then the target resets the connection. -/
def bothWays : List Act :=
  [.wakes (.received .up [70000]), .wakes (.received .down [100]), .wakes (.forwarded .up 0),
    .wakes (.tick 1), .wakes (.forwarded .down 1), .wakes (.failed .down "reset")]

theorem usage_exact_bothWays :
    ∃ log s, Exec (step ⟨.relayStream, unlimited.shortId, fun _ => false⟩)
        (start (InMemoryUserStore.empty.upsert unlimited)) log s ∧ s.result.isSome ∧
      addedIn .up (shown log) = 70000 ∧ addedIn .down (shown log) = 100 := by
  obtain ⟨log, s, h, hres, hlisted, hup, hdown⟩ := exec_reaches
    (step ⟨.relayStream, unlimited.shortId, fun _ => false⟩)
    (start (InMemoryUserStore.empty.upsert unlimited)) bothWays
    (fun log s => s.result.isSome ∧ Steps (Listed ⟨.relayStream, unlimited.shortId, fun _ => false⟩) log ∧
      forwardedIn .up (shown log) = 70000 ∧ forwardedIn .down (shown log) = 100) (by decide)
  obtain ⟨hsum, hzero, hdropped, -⟩ := usage_exact _ _ h
  refine ⟨log, s, h, hres, ?_, ?_⟩
  · have hu := (hsum .up).1
    rw [hup, hdropped hlisted, hzero hres] at hu
    exact hu.symm
  · have hd := (hsum .down).1
    rw [hdown, hdropped hlisted, hzero hres] at hd
    exact hd.symm

/-- The user is removed while the stream runs: the last report finds no counters. -/
theorem removed_user_not_counted :
    ¬∀ job store log s, Exec (step job) (start store) log s → s.result.isSome →
      ∀ d, addedIn d (shown log) = forwardedIn d (shown log) := by
  intro hclaim
  obtain ⟨log, s, h, hres, hforwarded, hadded⟩ := exec_reaches
    (step ⟨.tunnel, unlimited.shortId, fun _ => false⟩) (start (InMemoryUserStore.empty.upsert unlimited))
    [.wakes (.received .up [10]), .wakes (.forwarded .up 0), .admin (.remove unlimited.shortId),
      .wakes (.tick 2)]
    (fun log s => s.result.isSome ∧ forwardedIn .up (shown log) = 10 ∧ addedIn .up (shown log) = 0)
    (by decide)
  have hsame := hclaim _ _ log s h hres .up
  rw [hforwarded, hadded] at hsame
  cases hsame

end StreamRelay

end Leshiy.Reality
