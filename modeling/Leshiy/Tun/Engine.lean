import Leshiy.Mux.StreamCap

/-!
# The TUN engine

`leshiy-tun/src/engine.rs`. The accept loop takes flows off the userspace netstack; a semaphore
of `MAX_CONCURRENT_FLOWS` permits bounds the tasks that serve them. Each task opens one mux
stream for its flow, relays, and ends. The engine runs over the client's mux, so a step is one
of the accept loop, of a flow's task, of a task of the client's mux, or of the server.

A task that ends through an error of the device or of the association (`?` in `pump_udp` and
`relay_icmp_echo`) returns without `close`: its permit is free again, its stream is not.
-/

namespace Leshiy.Tun

open Leshiy.Lib Leshiy.Mux

def MAX_CONCURRENT_FLOWS : Nat := 4096

/-- What `ip_stack.accept()` yields. `dst` is the destination's text (`target_of`). -/
inductive IpStackStream where
  | tcp (dst : String)
  | udp (dst : String)
  | unknownTransport (dst : String)
  | unknownNetwork

/-- Where the task of a flow is. Handles are those of the client's mux. -/
inductive Stage where
  | opening
  | relaying (h : Nat)
  /-- `close` has returned; whether it queued a `Close`. -/
  | closing (h : Nat) (queued : Bool)
  /-- The task has ended and the permit is back. -/
  | done (h : Option Nat) (queued : Bool)
  deriving DecidableEq, Repr

namespace Stage

/-- The task still runs and holds its permit. -/
def running : Stage → Bool
  | .done _ _ => false
  | _ => true

/-- The stream of a flow that was opened and for which no `Close` was queued. -/
def unclosed : Stage → Option Nat
  | .relaying h | .closing h false | .done (some h) false => some h
  | _ => none

end Stage

structure Flow where
  kind : StreamKind
  target : String
  stage : Stage
  deriving DecidableEq, Repr

structure Engine where
  sys : Sys
  /-- Free permits of `flow_sem`. -/
  permits : Nat
  /-- Every flow ever admitted. -/
  flows : List Flow

/-- The calls a relay makes on its stream. -/
inductive Call where
  | send (data : Bytes)
  | sendAcquire (k : Nat)
  | sendQueue (k : Nat)
  | sendDrop (k : Nat)
  | recvPop
  | recvReturn
  | recvClosed

def Call.act (h : Nat) : Call → Act
  | .send data => .sendCall h data
  | .sendAcquire k => .sendAcquire h k
  | .sendQueue k => .sendQueue h k
  | .sendDrop k => .sendDrop h k
  | .recvPop => .recvPop h
  | .recvReturn => .recvReturn h
  | .recvClosed => .recvClosed h

inductive EngineAct where
  | accept (s : IpStackStream)
  | «open» (i : Nat)
  /-- `relay_icmp_echo` turns the packet down before it opens anything. -/
  | refuse (i : Nat)
  | call (i : Nat) (c : Call)
  | close (i : Nat)
  | finish (i : Nat)
  | mux (p : Role) (a : Act)

/-- Steps of the mux's own tasks. -/
def isTask : Act → Bool
  | .ping | .writerTake | .writerWrote | .writerExit | .writerDrain | .writerCloseAll
  | .writerPublish | .readerTake _ | .readerReply | .readerDeliver | .readerExit
  | .readerCloseAll | .readerPublish | .watchdogFire | .watchdogPublish | .watchdogExit => true
  | _ => false

namespace Engine

/-- The engine when its session is connected. -/
def start (s₀ : Sys) : Engine where
  sys := s₀
  permits := MAX_CONCURRENT_FLOWS
  flows := []

/-- Spawn a task for the flow, or drop it at the cap. -/
def spawnFlow (g : Engine) (kind : StreamKind) (target : String) : Engine :=
  if 0 < g.permits then
    { g with permits := g.permits - 1, flows := g.flows ++ [⟨kind, target, .opening⟩] }
  else g

/-- One round of `accept_loop`. -/
def accept (g : Engine) : IpStackStream → Engine
  | .tcp dst => g.spawnFlow .tcp dst
  | .udp dst => g.spawnFlow .udp dst
  | .unknownTransport dst => g.spawnFlow .icmp dst
  | .unknownNetwork => g

/-- Flow `i` goes on to a stage; a task that ends gives its permit back. -/
def setStage (g : Engine) (i : Nat) (f : Flow) (stage : Stage) : Engine :=
  { g with
    permits := if f.stage.running && !stage.running then g.permits + 1 else g.permits
    flows := g.flows.set i { f with stage := stage } }

/-- A step of the client's mux made by flow `i`, and the stage its result leads to. -/
def client (cap : Nat) (g : Engine) (a : Act) (i : Nat) (f : Flow)
    (next : List (Role × Event) → Stage) : Option (Engine × List (Role × Event)) :=
  match g.sys.step cap (.client, a) with
  | none => none
  | some (s, ev) => some ({ g with sys := s }.setStage i f (next ev), ev)

/-- The stage after `open`: the stream it returned, or the end of the task. -/
def afterOpen (ev : List (Role × Event)) : Stage :=
  match ev.findSome? fun | (_, .opened h) => some h | _ => none with
  | some h => .relaying h
  | none => .done none false

/-- The result of `close` is ignored; it queued a `Close` or the session is gone. -/
def afterClose (h : Nat) (ev : List (Role × Event)) : Stage := .closing h ((.client, .closed h) ∈ ev)

def step (cap : Nat) (g : Engine) : EngineAct → Option (Engine × List (Role × Event))
  | .accept s => some (g.accept s, [])
  | .open i =>
    match g.flows[i]? with
    | some f =>
      if f.stage = .opening then g.client cap (.open f.kind f.target) i f afterOpen else none
    | none => none
  | .refuse i =>
    match g.flows[i]? with
    | some f =>
      if f.stage = .opening ∧ f.kind = .icmp then some (g.setStage i f (.done none false), [])
      else none
    | none => none
  | .call i c =>
    match g.flows[i]? with
    | some f =>
      match f.stage with
      | .relaying h => g.client cap (c.act h) i f fun _ => .relaying h
      | _ => none
    | none => none
  | .close i =>
    match g.flows[i]? with
    | some f =>
      match f.stage with
      | .relaying h => g.client cap (.close h) i f (afterClose h)
      | _ => none
    | none => none
  | .finish i =>
    match g.flows[i]? with
    | some f =>
      match f.stage with
      | .closing h queued => g.client cap (.dropStream h) i f fun _ => .done (some h) queued
      -- An error return without `close`; `relay_tcp` always closes.
      | .relaying h =>
        if f.kind = .tcp then none
        else g.client cap (.dropStream h) i f fun _ => .done (some h) false
      | _ => none
    | none => none
  | .mux p a =>
    if p = .server ∨ isTask a then
      (g.sys.step cap (p, a)).map fun r => ({ g with sys := r.1 }, r.2)
    else none

/-! ## What one step can do -/

/-- The branches of `step`. Calls on a stream and the end of a task change neither what is
opened nor what is closed, so they are one case. -/
inductive Effect (cap : Nat) (g : Engine) : EngineAct → Engine → List (Role × Event) → Prop
  | accepted {s : IpStackStream} : Effect cap g (.accept s) (g.accept s) []
  | refused {i : Nat} {f : Flow} :
      g.flows[i]? = some f → f.stage = .opening →
      Effect cap g (.refuse i) (g.setStage i f (.done none false)) []
  | opened {i : Nat} {f : Flow} {s' : Sys} {ev : List (Role × Event)} :
      g.flows[i]? = some f → f.stage = .opening →
      g.sys.step cap (.client, .open f.kind f.target) = some (s', ev) →
      Effect cap g (.open i) ({ g with sys := s' }.setStage i f (afterOpen ev)) ev
  | closed {i h : Nat} {f : Flow} {s' : Sys} {ev : List (Role × Event)} :
      g.flows[i]? = some f → f.stage = .relaying h →
      g.sys.step cap (.client, .close h) = some (s', ev) →
      Effect cap g (.close i) ({ g with sys := s' }.setStage i f (afterClose h ev)) ev
  | called {act : EngineAct} {i : Nat} {f : Flow} {stage : Stage} {a : Act} {s' : Sys}
      {ev : List (Role × Event)} :
      g.flows[i]? = some f → f.stage.running = true → stage.unclosed = f.stage.unclosed →
      (∀ kind target, a ≠ .open kind target) → g.sys.step cap (.client, a) = some (s', ev) →
      Effect cap g act ({ g with sys := s' }.setStage i f stage) ev
  | moved {p : Role} {a : Act} {s' : Sys} {ev : List (Role × Event)} :
      p = .server ∨ isTask a = true → g.sys.step cap (p, a) = some (s', ev) →
      Effect cap g (.mux p a) { g with sys := s' } ev

variable {cap : Nat} {g g' : Engine} {act : EngineAct} {ev : List (Role × Event)}

theorem client_eq_some {a : Act} {i : Nat} {f : Flow} {next : List (Role × Event) → Stage}
    (h : g.client cap a i f next = some (g', ev)) :
    ∃ s', g.sys.step cap (.client, a) = some (s', ev) ∧
      g' = { g with sys := s' }.setStage i f (next ev) := by
  unfold client at h
  split at h
  · cases h
  · next s' ev' hs =>
    cases h
    exact ⟨s', hs, rfl⟩

/-- **Inversion of the engine's step.** -/
theorem step_effect (h : g.step cap act = some (g', ev)) : Effect cap g act g' ev := by
  unfold step at h
  split at h
  · cases h
    exact .accepted
  · split at h
    · next f hf =>
      split at h
      · next hst =>
        obtain ⟨s', hs, rfl⟩ := client_eq_some h
        exact .opened hf hst hs
      · cases h
    · cases h
  · split at h
    · next f hf =>
      split at h
      · next hst =>
        cases h
        exact .refused hf hst.1
      · cases h
    · cases h
  · next i c =>
    split at h
    · next f hf =>
      split at h
      · next h' hst =>
        obtain ⟨s', hs, rfl⟩ := client_eq_some h
        exact .called hf (by rw [hst]; rfl) (by rw [hst]) (by cases c <;> simp [Call.act]) hs
      · cases h
    · cases h
  · split at h
    · next f hf =>
      split at h
      · next h' hst =>
        obtain ⟨s', hs, rfl⟩ := client_eq_some h
        exact .closed hf hst hs
      · cases h
    · cases h
  · split at h
    · next f hf =>
      split at h
      · next h' queued hst =>
        obtain ⟨s', hs, rfl⟩ := client_eq_some h
        exact .called hf (by rw [hst]; rfl) (by rw [hst]; cases queued <;> rfl) (by simp) hs
      · next h' hst =>
        split at h
        · cases h
        · obtain ⟨s', hs, rfl⟩ := client_eq_some h
          exact .called hf (by rw [hst]; rfl) (by rw [hst]; rfl) (by simp) hs
      · cases h
    · cases h
  · split at h
    · next hp =>
      obtain ⟨⟨s', ev'⟩, hs, hr⟩ := Option.map_eq_some_iff.mp h
      cases hr
      exact .moved hp hs
    · cases h

/-! ## Permits -/

/-- Replacing one element changes what is collected by that element alone. -/
theorem filterMap_set_perm {α β : Type} (k : α → Option β) {l : List α} {i : Nat} {x y : α}
    (h : l[i]? = some x) :
    ((k x).toList ++ (l.set i y).filterMap k).Perm ((k y).toList ++ l.filterMap k) := by
  have hcons : ∀ (z : α) (l : List α), (z :: l).filterMap k = (k z).toList ++ l.filterMap k := by
    intro z l
    rw [List.filterMap_cons]
    cases k z <;> rfl
  induction l generalizing i with
  | nil => cases h
  | cons z l ih =>
    cases i with
    | zero =>
      cases h
      rw [List.set_cons_zero, hcons, hcons]
      exact List.perm_append_comm_assoc _ _ _
    | succ i =>
      rw [List.set_cons_succ, hcons, hcons]
      have hx := List.perm_append_comm_assoc (k x).toList (k z).toList ((l.set i y).filterMap k)
      have hy := List.perm_append_comm_assoc (k z).toList (k y).toList (l.filterMap k)
      exact hx.trans (((ih h).append_left _).trans hy)

/-- The flows whose tasks run. -/
def running (g : Engine) : List Flow :=
  g.flows.filterMap fun f => if f.stage.running then some f else none

theorem setStage_permits {i : Nat} {f : Flow} {stage : Stage} (hf : g.flows[i]? = some f)
    (hst : f.stage.running = true) :
    (g.setStage i f stage).permits + (g.setStage i f stage).running.length =
      g.permits + g.running.length := by
  have hlen := (filterMap_set_perm (fun f : Flow => if f.stage.running then some f else none)
    (y := { f with stage := stage }) hf).length_eq
  simp only [hst, List.length_append] at hlen
  simp only [setStage, running, hst]
  cases hr : stage.running <;> simp [hr] at hlen ⊢ <;> omega

theorem spawnFlow_permits {kind : StreamKind} {target : String} :
    (g.spawnFlow kind target).permits + (g.spawnFlow kind target).running.length =
      g.permits + g.running.length := by
  unfold spawnFlow
  split
  · simp only [running, List.filterMap_append, List.length_append]
    simp [Stage.running]
    omega
  · rfl

/-- A permit is free or held by a task that runs. -/
theorem Effect.permits (he : Effect cap g act g' ev) :
    g'.permits + g'.running.length = g.permits + g.running.length := by
  cases he with
  | @accepted s => cases s <;> first | exact spawnFlow_permits | rfl
  | refused hf hst => exact setStage_permits hf (by rw [hst]; rfl)
  | opened hf hst => exact setStage_permits (g := { g with sys := _ }) hf (by rw [hst]; rfl)
  | closed hf hst => exact setStage_permits (g := { g with sys := _ }) hf (by rw [hst]; rfl)
  | called hf hst => exact setStage_permits (g := { g with sys := _ }) hf hst
  | moved => rfl

/-- **The engine serves at most `MAX_CONCURRENT_FLOWS` flows at a time.** -/
theorem running_le {s₀ : Sys} {log : List (Taken Engine EngineAct (Role × Event))}
    (hrun : Exec (Engine.step cap) (start s₀) log g) :
    g.running.length ≤ MAX_CONCURRENT_FLOWS := by
  have hinv : g.permits + g.running.length = MAX_CONCURRENT_FLOWS := by
    refine hrun.state_inv (P := fun g => g.permits + g.running.length = MAX_CONCURRENT_FLOWS) rfl
      fun g act g' ev h hs => ?_
    rw [(step_effect hs).permits, h]
  omega

/-! ## Streams without a `Close` -/

/-- The streams the engine has opened and not closed. A task that ended without `close` counts. -/
def unclosed (g : Engine) : List Nat := g.flows.filterMap fun f => f.stage.unclosed

/-- The id of a stream of the client. -/
def streamId (g : Engine) (h : Nat) : Option UInt32 := (g.sys.ep .client).objs[h]?.map Stream.id

def unclosedIds (g : Engine) : List UInt32 := g.unclosed.filterMap g.streamId

theorem setStage_unclosed (stage : Stage) {i : Nat} {f : Flow} (hf : g.flows[i]? = some f) :
    (f.stage.unclosed.toList ++ (g.setStage i f stage).unclosed).Perm
      (stage.unclosed.toList ++ g.unclosed) :=
  filterMap_set_perm (fun f : Flow => f.stage.unclosed) hf

/-- The engine opens a stream only while fewer than the peer's cap are without a `Close`, and
the server opens none. -/
def withinCap (g : Engine) : EngineAct → Prop
  | .open _ => g.unclosed.length < MAX_CONCURRENT_PEER_STREAMS
  | .mux .server (.open _ _) => False
  | _ => True

theorem filterMap_sublist {α β : Type} {k k' : α → Option β} {l : List α}
    (h : ∀ x y, k x = some y → k' x = some y) : (l.filterMap k).Sublist (l.filterMap k') := by
  induction l with
  | nil => exact List.Sublist.slnil
  | cons x l ih =>
    rw [List.filterMap_cons, List.filterMap_cons]
    cases hk : k x with
    | some y =>
      rw [h x y hk]
      exact ih.cons_cons y
    | none =>
      cases hk' : k' x with
      | none => exact ih
      | some y => exact ih.cons y

/-- A stream keeps its id. -/
theorem streamId_mono {a : Act} {evs : List Event} {s' : Sys}
    (he : (g.sys.ep .client).Effect a (s'.ep .client) evs) (h : Nat) (id : UInt32)
    (hid : g.streamId h = some id) : { g with sys := s' }.streamId h = some id := by
  unfold streamId at hid ⊢
  obtain ⟨st, hst, rfl⟩ := Option.map_eq_some_iff.mp hid
  obtain ⟨st', hst', hev⟩ := he.evolves hst
  rw [hst', Option.map_some, hev.id]

theorem unclosedIds_mono {a : Act} {evs : List Event} {s' : Sys}
    (he : (g.sys.ep .client).Effect a (s'.ep .client) evs) :
    g.unclosedIds.Sublist (g.unclosed.filterMap { g with sys := s' }.streamId) :=
  filterMap_sublist fun h id => streamId_mono he h id

/-- A step of the client that opens nothing. -/
theorem capped_quiet {a : Act} {evs : List Event} {s' : Sys} {i : Nat} {f : Flow} {stage : Stage}
    (hc : g.sys.Capped g.unclosedIds) (hwf : (g.sys.ep .client).Wf)
    (hm : g.sys.Move .client a s' evs) (ha : ∀ kind target, a ≠ .open kind target)
    (hf : g.flows[i]? = some f) (hst : stage.unclosed = f.stage.unclosed) :
    ({ g with sys := s' }.setStage i f stage).sys.Capped
      ({ g with sys := s' }.setStage i f stage).unclosedIds := by
  have hno : ∀ x ∈ queuedFrames evs, x.opens = false := fun x hx =>
    (hm.effect.mayQueue hwf ha x hx).1
  have hperm : ({ g with sys := s' }.setStage i f stage).unclosed.Perm g.unclosed := by
    have h := setStage_unclosed (g := { g with sys := s' }) stage hf
    rw [hst] at h
    exact (List.perm_append_left_iff _).mp h
  refine (hc.client hm (belowCap_of_opens hno)).mono fun _ => ?_
  refine (afterRead_subperm_self hno).trans ?_
  exact (unclosedIds_mono hm.effect).subperm.trans (hperm.symm.filterMap _).subperm

/-- What `open` came to: an error, or a stream whose `Open` is queued. -/
theorem afterOpen_cases {e e' : Endpoint} {kind : StreamKind} {target : String}
    {evs : List Event} (he : e.Effect (.open kind target) e' evs) :
    (queuedFrames evs = [] ∧ afterOpen (evs.map fun x => (.client, x)) = .done none false) ∨
    (queuedFrames evs = [openFrame e.nextId (openPayload kind target)] ∧
      afterOpen (evs.map fun x => (.client, x)) = .relaying e.objs.length ∧
      e'.objs[e.objs.length]?.map Stream.id = some e.nextId) := by
  cases he with
  | openRefused => exact Or.inl ⟨rfl, rfl⟩
  | openClosed => exact Or.inl ⟨rfl, rfl⟩
  | opened => exact Or.inr ⟨rfl, rfl, by rw [List.getElem?_concat_length]; rfl⟩

theorem afterClose_cases {e e' : Endpoint} {h : Nat} {evs : List Event}
    (he : e.Effect (.close h) e' evs) :
    (queuedFrames evs = [] ∧ afterClose h (evs.map fun x => (.client, x)) = .closing h false) ∨
    (∃ st, e.objs[h]? = some st ∧ queuedFrames evs = [closeFrame st.id] ∧
      afterClose h (evs.map fun x => (.client, x)) = .closing h true) := by
  cases he with
  | closeFailed => exact Or.inl ⟨rfl, by simp [afterClose]⟩
  | closeQueued hst => exact Or.inr ⟨_, hst, rfl, by simp [afterClose]⟩

section

variable {evs : List Event} {s' : Sys} {i : Nat} {f : Flow} (hc : g.sys.Capped g.unclosedIds)
  (hf : g.flows[i]? = some f)
include hc hf

/-- A flow opens its stream below the cap. -/
theorem capped_open (hm : g.sys.Move .client (.open f.kind f.target) s' evs)
    (hst : f.stage = .opening) (hlt : g.unclosed.length < MAX_CONCURRENT_PEER_STREAMS) :
    ({ g with sys := s' }.setStage i f (afterOpen (evs.map fun x => (.client, x)))).sys.Capped
      ({ g with sys := s' }.setStage i f
        (afterOpen (evs.map fun x => (.client, x)))).unclosedIds := by
  rcases afterOpen_cases hm.effect with ⟨hq, hnext⟩ | ⟨hq, hnext, hid⟩
  all_goals
    rw [hnext]
    have hperm := setStage_unclosed (g := { g with sys := s' })
      (afterOpen (evs.map fun x => (.client, x))) hf
    rw [hnext, hst] at hperm
  · refine (hc.client hm (by rw [hq]; trivial)).mono fun _ => ?_
    rw [hq]
    exact (unclosedIds_mono hm.effect).subperm.trans (List.Perm.filterMap _ hperm.symm).subperm
  · have hbelow : belowCap g.unclosedIds (queuedFrames evs) := by
      rw [hq, belowCap, if_pos (opens_openFrame _ _)]
      exact ⟨(List.length_filterMap_le _ _).trans_lt hlt, trivial⟩
    refine (hc.client hm hbelow).mono fun _ => ?_
    -- The new stream is the head of what is unclosed now.
    have hids := List.Perm.filterMap { g with sys := s' }.streamId hperm.symm
    have hnew : { g with sys := s' }.streamId (g.sys.ep .client).objs.length =
        some (g.sys.ep .client).nextId := hid
    simp only [Stage.unclosed, Option.toList_some, List.singleton_append, List.filterMap_cons,
      hnew] at hids
    rw [hq, afterRead, if_pos (opens_openFrame _ _), afterRead, streamId_openFrame]
    exact ((List.subperm_cons _).mpr (unclosedIds_mono hm.effect).subperm).trans hids.subperm

/-- A flow closes its stream. -/
theorem capped_close {h : Nat} (hwf : (g.sys.ep .client).Wf)
    (hm : g.sys.Move .client (.close h) s' evs) (hst : f.stage = .relaying h) :
    ({ g with sys := s' }.setStage i f (afterClose h (evs.map fun x => (.client, x)))).sys.Capped
      ({ g with sys := s' }.setStage i f
        (afterClose h (evs.map fun x => (.client, x)))).unclosedIds := by
  rcases afterClose_cases hm.effect with ⟨hq, hnext⟩ | ⟨st, hobj, hq, hnext⟩
  · rw [hnext]
    exact capped_quiet hc hwf hm (by simp) hf (by rw [hst]; rfl)
  · rw [hnext]
    have hperm := setStage_unclosed (g := { g with sys := s' }) (.closing h true) hf
    rw [hst] at hperm
    have hids := List.Perm.filterMap { g with sys := s' }.streamId hperm.symm
    have hid : { g with sys := s' }.streamId h = some st.id := by
      refine streamId_mono hm.effect h st.id ?_
      rw [streamId, hobj]
      rfl
    simp only [Stage.unclosed, Option.toList_some, Option.toList_none, List.singleton_append,
      List.nil_append, List.filterMap_cons, hid] at hids
    have hno : ∀ x ∈ queuedFrames evs, x.opens = false := by
      rw [hq]
      simp
    refine (hc.client hm (belowCap_of_opens hno)).mono fun _ => ?_
    have hsub := (unclosedIds_mono hm.effect).subperm.trans hids.subperm
    have hcloses : (closeFrame st.id).closes = true := by
      simp [Frame.closes, closeFrame]
    rw [hq, afterRead, if_neg (by simp), if_pos hcloses, afterRead, streamId_closeFrame]
    have herase := hsub.erase st.id
    rwa [List.erase_cons_head] at herase

end

theorem accept_sys {st : IpStackStream} : (g.accept st).sys = g.sys := by
  have hspawn : ∀ kind target, (g.spawnFlow kind target).sys = g.sys := by
    intro kind target
    unfold spawnFlow
    split <;> rfl
  cases st with
  | unknownNetwork => rfl
  | _ => exact hspawn _ _

theorem accept_unclosed {st : IpStackStream} : (g.accept st).unclosed = g.unclosed := by
  have hspawn : ∀ kind target, (g.spawnFlow kind target).unclosed = g.unclosed := by
    intro kind target
    unfold spawnFlow
    split
    · simp [unclosed, Stage.unclosed]
    · rfl
  cases st with
  | unknownNetwork => rfl
  | _ => exact hspawn _ _

/-- **One step of the engine** that stays within the cap keeps the server below it. -/
theorem Effect.capped (he : Effect cap g act g' ev) (hinv : ∀ p, (g.sys.ep p).Wf ∧ g.sys.Ids p)
    (hc : g.sys.Capped g.unclosedIds) (hok : g.withinCap act) :
    g'.sys.Capped g'.unclosedIds ∧ (.server, .capAbort) ∉ ev := by
  have hclient : ∀ evs : List Event,
      (Role.server, Event.capAbort) ∉ evs.map fun x => (Role.client, x) := by simp
  cases he with
  | @accepted st =>
    refine ⟨?_, by simp⟩
    rw [accept_sys, unclosedIds, accept_unclosed]
    unfold streamId
    rw [accept_sys]
    exact hc
  | refused hf hst =>
    have hperm := setStage_unclosed (.done none false) hf
    rw [hst] at hperm
    exact ⟨hc.mono fun _ => (List.Perm.filterMap _ hperm.symm).subperm, by simp⟩
  | opened hf hst hs =>
    obtain ⟨evs, rfl, hm⟩ := Sys.step_move hs
    exact ⟨capped_open hc hf hm hst hok, hclient evs⟩
  | closed hf hst hs =>
    obtain ⟨evs, rfl, hm⟩ := Sys.step_move hs
    exact ⟨capped_close hc hf (hinv .client).1 hm hst, hclient evs⟩
  | called hf _ hst ha hs =>
    obtain ⟨evs, rfl, hm⟩ := Sys.step_move hs
    exact ⟨capped_quiet hc (hinv .client).1 hm ha hf hst, hclient evs⟩
  | @moved p a s' _ hp hs =>
    obtain ⟨evs, rfl, hm⟩ := Sys.step_move hs
    cases p with
    | client =>
      have ha : ∀ kind target, a ≠ .open kind target := by
        rintro kind target rfl
        simp [isTask] at hp
      have hno : ∀ x ∈ queuedFrames evs, x.opens = false := fun x hx =>
        (hm.effect.mayQueue (hinv .client).1 ha x hx).1
      refine ⟨(hc.client hm (belowCap_of_opens hno)).mono fun _ => ?_, hclient evs⟩
      exact (afterRead_subperm_self hno).trans (unclosedIds_mono hm.effect).subperm
    | server =>
      have ha : ∀ kind target, a ≠ .open kind target := by
        rintro kind target rfl
        exact hok
      obtain ⟨hc', habort⟩ := hc.server (hinv .client).2 hm ha
      have hsame : s'.ep .client = g.sys.ep .client := hm.other
      refine ⟨?_, by simpa using habort⟩
      have hids : { g with sys := s' }.unclosedIds = g.unclosedIds := by
        unfold unclosedIds streamId
        rw [hsame]
        rfl
      rw [hids]
      exact hc'

/-- Every step of the engine is a step of its session, or leaves it alone. -/
theorem Effect.sys_cases (he : Effect cap g act g' ev) :
    g'.sys = g.sys ∨ ∃ p a, g.sys.step cap (p, a) = some (g'.sys, ev) := by
  cases he with
  | accepted => exact Or.inl accept_sys
  | refused => exact Or.inl rfl
  | opened _ _ hs | closed _ _ hs | called _ _ _ _ hs | moved _ hs => exact Or.inr ⟨_, _, hs⟩

theorem wf_step (he : Effect cap g act g' ev) (hinv : ∀ p, (g.sys.ep p).Wf ∧ g.sys.Ids p) :
    ∀ p, (g'.sys.ep p).Wf ∧ g'.sys.Ids p := by
  rcases he.sys_cases with hsame | ⟨p, a, hs⟩
  · rw [hsame]
    exact hinv
  · obtain ⟨evs, -, hm⟩ := Sys.step_move hs
    obtain ⟨hp, hq⟩ := (hinv p).2.move hm (hinv p.peer).2 (hinv p).1
    intro q
    rcases Role.eq_or_eq_peer p q with rfl | rfl
    · exact ⟨hm.effect.wf (hinv q).1, hp⟩
    · rw [hm.other]
      exact ⟨(hinv p.peer).1, hq⟩

/-- **The server never aborts** the session of an engine that stays within the cap, and counts
the streams of its peer only. -/
theorem cap_not_reached {hello : Role → Hello} {s₀ : Sys}
    {log : List (Taken Engine EngineAct (Role × Event))} (h0 : Sys.connect hello = .ok s₀)
    (hrun : Exec (Engine.step cap) (start s₀) log g) (hok : Steps withinCap log) :
    (∀ t ∈ log, (.server, .capAbort) ∉ t.ev ∧ t.pre.sys.countsPeerOnly) ∧
      g.sys.countsPeerOnly := by
  suffices h : Steps withinCap log → ((∀ t ∈ log, (.server, .capAbort) ∉ t.ev ∧
      t.pre.sys.countsPeerOnly) ∧ g.sys.Capped g.unclosedIds) ∧
      ∀ p, (g.sys.ep p).Wf ∧ g.sys.Ids p from
    ⟨(h hok).1.1, (h hok).1.2.peerOnly⟩
  refine hrun.inv (P := fun log g => Steps withinCap log → ((∀ t ∈ log,
    (.server, .capAbort) ∉ t.ev ∧ t.pre.sys.countsPeerOnly) ∧ g.sys.Capped g.unclosedIds) ∧
      ∀ p, (g.sys.ep p).Wf ∧ g.sys.Ids p) ?_ ?_
  · intro _
    exact ⟨⟨by simp, Sys.capped_connect h0⟩, fun p => ⟨Sys.wf_connect h0 p, Sys.ids_connect h0 p⟩⟩
  · intro log g act g' ev _ ih hs hsteps
    rw [steps_snoc] at hsteps
    obtain ⟨⟨hlog, hc⟩, hinv⟩ := ih hsteps.1
    have he := step_effect hs
    obtain ⟨hc', habort⟩ := he.capped hinv hc hsteps.2
    refine ⟨⟨?_, hc'⟩, wf_step he hinv⟩
    intro t ht
    rcases List.mem_append.mp ht with ht | ht
    · exact hlog t ht
    · rw [List.mem_singleton] at ht
      subst ht
      exact ⟨habort, hc.peerOnly⟩

instance (g : Engine) (act : EngineAct) : Decidable (g.withinCap act) := by
  unfold withinCap
  split <;> infer_instance

/-- The client's mux opens the stream of one flow and the server registers it. -/
def oneFlow : List EngineAct :=
  [.accept (.tcp "a:1"), .open 0, .mux .client .writerTake, .mux .client .writerWrote,
    .mux .server (.readerTake (openFrame 1 "a:1")), .mux .server .readerDeliver]

theorem cap_not_reached_one_flow : ∃ s₀ log g, Sys.connect Sys.offers = .ok s₀ ∧
    Exec (Engine.step 1) (start s₀) log g ∧ Steps withinCap log ∧ log.length = 6 ∧
    (g.sys.ep .server).streams.keys = [1] ∧
    ((∀ t ∈ log, (.server, .capAbort) ∉ t.ev ∧ t.pre.sys.countsPeerOnly) ∧
      g.sys.countsPeerOnly) := by
  obtain ⟨log, g, hrun, hok, hlen, hkeys⟩ := exec_reaches (Engine.step 1)
    (start (Sys.link (Sys.offered .client) (Sys.offered .server) [])) oneFlow
    (fun log g => Steps withinCap log ∧ log.length = 6 ∧
      (g.sys.ep .server).streams.keys = [1])
    (by decide +kernel)
  exact ⟨_, log, g, Sys.connect_offers, hrun, hok, hlen, hkeys,
    cap_not_reached Sys.connect_offers hrun hok⟩

/-! ## More flows than streams -/

/-- A client that has opened `n` streams and written all their `Open` frames. -/
structure Opened (n : Nat) (c : Endpoint) : Prop where
  muxAlive : c.muxAlive = true
  writer : c.writer = .idle
  cmdQ : c.cmdQ = []
  nextId : c.nextId.toNat = 2 * n + 1

/-- A server that has accepted `n` streams and holds them all. -/
structure Holding (n : Nat) (e : Endpoint) : Prop where
  muxAlive : e.muxAlive = true
  reader : e.reader = .idle
  incoming : e.incoming = []
  count : e.streams.entries.length = n
  keys : ∀ id ∈ e.streams.keys, id.toNat < 2 * n + 1

/-- An engine that serves `n` flows. -/
structure Serving (n : Nat) (g : Engine) : Prop where
  flows : g.flows.length = n
  permits : g.permits + n = MAX_CONCURRENT_FLOWS

theorem reaches_mux {p : Role} {a : Act} {s' : Sys} {g₀ : Engine} (h : Reaches (step cap) g₀ g)
    (hp : p = .server ∨ isTask a = true) (hs : g.sys.step cap (p, a) = some (s', ev)) :
    Reaches (step cap) g₀ { g with sys := s' } := by
  have hstep : g.step cap (.mux p a) = some ({ g with sys := s' }, ev) := by
    simp only [step, if_pos hp, hs, Option.map_some]
  exact h.snoc hstep

/-- `open` of a TCP stream with room in the command queue. -/
theorem open_tcp {n : Nat} {c : Endpoint} (hc : Opened n c) (hid : c.nextId.toNat + 2 < 2 ^ 32) :
    c.step (.open .tcp "a:1") = some ({ c with
        nextId := c.nextId + 2
        objs := c.objs ++ [newStream c.nextId "a:1" .tcp c.flowcontrolOn .caller]
        cmdQ := [.open c.nextId "a:1" c.objs.length] },
      [.queued (openFrame c.nextId "a:1"), .opened c.objs.length]) := by
  have hbump : c.bumpId = some { c with nextId := c.nextId + 2 } := by
    unfold Endpoint.bumpId
    rw [if_pos hid]
  have hopen : c.cmdOpen = true := by simp [Endpoint.cmdOpen, hc.writer]
  have hroom : c.cmdRoom = true := by simp [Endpoint.cmdRoom, hc.cmdQ, CMD_CHANNEL]
  simp [Endpoint.step, Endpoint.openStream, hc.muxAlive, Endpoint.openError, hbump, hopen, hroom,
    hc.cmdQ, Endpoint.enqueue, openPayload]

/-- One more flow: its `Open` reaches the transport. -/
theorem flow_opened {n : Nat} {c e : Endpoint} (hg : Serving n g)
    (hsys : g.sys = Sys.link c e []) (hc : Opened n c) (hn : n < MAX_CONCURRENT_FLOWS) :
    ∃ c' id g', Reaches (step 1) g g' ∧ Serving (n + 1) g' ∧
      g'.sys = Sys.link c' e [openFrame id "a:1"] ∧ Opened (n + 1) c' ∧ id.toNat = 2 * n + 1 := by
  have hid : c.nextId.toNat + 2 < 2 ^ 32 := by
    rw [hc.nextId]
    simp only [MAX_CONCURRENT_FLOWS] at hn
    omega
  have hpermits := hg.permits
  -- The flow gets a permit and a task.
  let f : Flow := ⟨.tcp, "a:1", .opening⟩
  let g₁ : Engine := { g with permits := g.permits - 1, flows := g.flows ++ [f] }
  have h₁ : g.step 1 (.accept (.tcp "a:1")) = some (g₁, []) := by
    simp only [step, accept, spawnFlow, if_pos (show 0 < g.permits by omega)]
    rfl
  -- Its task opens a stream.
  let c₁ : Endpoint := { c with
    nextId := c.nextId + 2
    objs := c.objs ++ [newStream c.nextId "a:1" .tcp c.flowcontrolOn .caller]
    cmdQ := [.open c.nextId "a:1" c.objs.length] }
  let g₂ : Engine := ⟨Sys.link c₁ e [], g.permits - 1,
    g₁.flows.set n { f with stage := .relaying c.objs.length }⟩
  have hflow : g₁.flows[n]? = some f := by
    rw [← hg.flows]
    exact List.getElem?_concat_length
  have hs : g₁.sys.step 1 (.client, .open .tcp "a:1") = some (Sys.link c₁ e [],
      [(.client, .queued (openFrame c.nextId "a:1")), (.client, .opened c.objs.length)]) := by
    show g.sys.step 1 _ = _
    rw [hsys]
    exact Sys.link_client (open_tcp hc hid) (by simp) (by simp)
  have h₂ : g₁.step 1 (.open n) = some (g₂,
      [(.client, .queued (openFrame c.nextId "a:1")), (.client, .opened c.objs.length)]) := by
    simp only [step, hflow]
    rw [if_pos rfl, client, hs]
    rfl
  -- The writer puts the frame on the transport.
  let c₂ : Endpoint := { c₁ with
    cmdQ := []
    writer := .writing (openFrame c.nextId "a:1")
    streams := c.streams.insert c.nextId c.objs.length }
  have htake : c₁.step .writerTake = some (c₂, []) := by
    have hw : c₁.writer = .idle := hc.writer
    have hq : c₁.cmdQ = [.open c.nextId "a:1" c.objs.length] := rfl
    simp only [Endpoint.step, Endpoint.writerTake, hw, hq]
    rfl
  have hr₂ := (Reaches.refl.snoc h₁).snoc h₂
  have hr₃ := reaches_mux hr₂ (Or.inr rfl) (Sys.link_client htake (by simp) (by simp))
  have hr₄ := reaches_mux hr₃ (Or.inr rfl) (Sys.link_write (f := openFrame c.nextId "a:1") rfl
    (by decide))
  refine ⟨_, c.nextId, _, hr₄, ⟨?_, ?_⟩, rfl, ⟨hc.muxAlive, rfl, rfl, ?_⟩, hc.nextId⟩
  · simp [g₂, g₁, hg.flows]
  · show g.permits - 1 + (n + 1) = _
    omega
  · show (c.nextId + 2).toNat = _
    rw [(Sys.owns_nextId_add_two (p := .client) hid).1, hc.nextId]
    ring

/-- The server registers and accepts it, below the cap. -/
theorem flow_accepted {n : Nat} {c e : Endpoint} {id : UInt32} (he : Holding n e)
    (hsys : g.sys = Sys.link c e [openFrame id "a:1"]) (hid : id.toNat = 2 * n + 1)
    (hn : n < MAX_CONCURRENT_PEER_STREAMS) :
    ∃ e' s', Reaches (step 1) g { g with sys := s' } ∧ s' = Sys.link c e' [] ∧
      Holding (n + 1) e' := by
  let st : Stream := newStream id "a:1" .tcp e.flowcontrolOn .inTransit
  let e₁ : Endpoint := { e with
    objs := e.objs ++ [st]
    streams := e.streams.insert id e.objs.length
    reader := .delivering e.objs.length }
  have hread : e.step (.readerTake (openFrame id "a:1")) =
      some (e₁, [.read (openFrame id "a:1")]) :=
    Sys.readerTake_open he.reader (by rw [he.count]; exact hn) (by decide)
  let e₂ : Endpoint := { e₁ with incoming := [e.objs.length], reader := .idle }
  have hdeliver : e₁.step .readerDeliver = some (e₂, []) := by
    simp [Endpoint.step, Endpoint.readerDeliver, e₁, e₂, he.muxAlive, he.incoming, INC_CHANNEL]
  let e₃ : Endpoint :=
    { e₂.modify e.objs.length (fun st => { st with owner := .caller }) with incoming := [] }
  have haccept : e₂.step .accept = some (e₃, [.opened e.objs.length]) := by
    simp [Endpoint.step, Endpoint.accept, e₁, e₂, e₃, he.muxAlive]
  have hnew : id ∉ e.streams := fun hmem => by
    have hlt := he.keys id (AList.mem_keys.mp hmem)
    omega
  have h₀ : Reaches (step 1) g { g with sys := Sys.link c e [openFrame id "a:1"] } := by
    rw [← hsys]
    exact .refl
  have h₁ := reaches_mux h₀ (Or.inl rfl) (Sys.link_read hread)
  have h₂ := reaches_mux h₁ (Or.inl rfl) (Sys.link_server hdeliver (by simp) (by simp))
  have h₃ := reaches_mux h₂ (Or.inl rfl) (Sys.link_server haccept (by simp) (by simp))
  refine ⟨e₃, _, h₃, rfl, he.muxAlive, rfl, rfl, ?_, ?_⟩
  · show (e.streams.insert id e.objs.length).entries.length = _
    rw [AList.entries_insert_of_notMem hnew, List.length_cons, he.count]
  · intro k hk
    have hk : k ∈ (e.streams.insert id e.objs.length).keys := hk
    rw [AList.keys_insert, List.mem_cons] at hk
    rcases hk with rfl | hk
    · omega
    · have hlt := he.keys k (List.mem_of_mem_erase hk)
      omega

/-- The engine serves `n` flows whose streams the server holds. -/
theorem flows_served {n : Nat} (hn : n ≤ MAX_CONCURRENT_PEER_STREAMS) :
    ∃ c e g, Reaches (step 1) (start (Sys.link (Sys.offered .client) (Sys.offered .server) [])) g ∧
      Serving n g ∧ g.sys = Sys.link c e [] ∧ Opened n c ∧ Holding n e := by
  induction n with
  | zero =>
    have hkeys : ∀ id ∈ (Sys.offered .server).streams.keys, id.toNat < 2 * 0 + 1 :=
      fun id hid => absurd hid List.not_mem_nil
    exact ⟨_, _, _, .refl, ⟨rfl, rfl⟩, rfl, ⟨rfl, rfl, rfl, rfl⟩, ⟨rfl, rfl, rfl, rfl, hkeys⟩⟩
  | succ n ih =>
    obtain ⟨c, e, g, hreach, hg, hsys, hc, he⟩ := ih (Nat.le_of_succ_le hn)
    have hlt : n < MAX_CONCURRENT_FLOWS := by
      simp only [MAX_CONCURRENT_PEER_STREAMS] at hn
      simp only [MAX_CONCURRENT_FLOWS]
      omega
    obtain ⟨c', id, g', hopened, hg', hsys', hc', hid⟩ := flow_opened hg hsys hc hlt
    obtain ⟨e', s', haccepted, rfl, he'⟩ := flow_accepted he hsys' hid hn
    exact ⟨c', e', _, (hreach.trans hopened).trans haccepted, ⟨hg'.flows, hg'.permits⟩, rfl, hc',
      he'⟩

/-- The engine admits a flow the server does not: with 1025 of its 4096 flows the whole session
is aborted. -/
theorem engine_flows_abort_session :
    ¬ ∀ (cap : Nat) (hello : Role → Hello) (s₀ : Sys) (g : Engine)
        (log : List (Taken Engine EngineAct (Role × Event))),
      0 < cap → Sys.connect hello = .ok s₀ → Exec (Engine.step cap) (start s₀) log g →
      ∀ t ∈ log, (.server, .capAbort) ∉ t.ev := by
  intro hall
  obtain ⟨c, e, g, hreach, hg, hsys, hc, he⟩ := flows_served le_rfl
  obtain ⟨c', id, g', hopened, -, hsys', -, -⟩ := flow_opened hg hsys hc (by decide)
  obtain ⟨log, hrun⟩ := hreach.trans hopened
  have habort : e.step (.readerTake (openFrame id "a:1")) = _ :=
    Sys.readerTake_open_cap he.reader he.count.ge
  have hs : g'.step 1 (.mux .server (.readerTake (openFrame id "a:1"))) =
      some ({ g' with sys := Sys.link c' { e with reader := .closing } [] },
        [(.server, .read (openFrame id "a:1")), (.server, .capAbort)]) := by
    simp only [step, true_or, if_true, hsys', Sys.link_read habort]
    rfl
  have hno := hall 1 Sys.offers _ _ _ Nat.one_pos Sys.connect_offers (hrun.snoc hs) _
    (List.mem_append_right _ (List.mem_singleton.mpr rfl))
  exact hno (by simp)

end Engine

end Leshiy.Tun
