import Leshiy.Core.Frame
import Leshiy.Lib.Run
import Leshiy.Lib.Utf8

/-!
# SOCKS UDP ASSOCIATE

`serve_udp_associate` and `udp_assoc_flow` (`leshiy-reality/src/client.rs`): a receive loop reads the
client's datagrams and hands each to the flow of its target, a task with a mux datagram stream of its
own. The map from targets to flows is the loop's; a flow ends by itself, and nothing takes its entry out
of the map.

A flow is alive while its task holds the receiving end of its channel. The loop is in one datagram at a
time: it waits for the mux to open a flow, or for room in the channel of one.
-/

namespace Leshiy.Reality

open Leshiy.Lib

/-- The address of a SOCKS UDP request. -/
inductive Host where
  | v4 (octets : List UInt8)
  | v6 (octets : List UInt8)
  | domain (name : String)
  deriving DecidableEq, Repr

/-- Capacity of the channel of a flow, in datagrams. -/
def ASSOC_CHANNEL : Nat := 64

structure AssocFlow (Addr : Type) where
  target : String
  clientAddr : Addr
  /-- What stands before the data of a reply. -/
  reply : Bytes
  /-- Datagrams in the channel. -/
  queue : List Bytes
  alive : Bool
  deriving DecidableEq, Repr

/-- Where the receive loop is. -/
inductive LoopPhase (Addr : Type) where
  | receiving
  | opening (target : String) (source : Addr) (header data : Bytes)
  | sending (f : Nat) (target : String) (data : Bytes)
  | ended
  deriving DecidableEq, Repr

structure Association (Addr : Type) where
  clientAddr : Option Addr
  assocs : List (String × Nat)
  /-- All flows that were spawned. -/
  flows : List (AssocFlow Addr)
  phase : LoopPhase Addr
  deriving DecidableEq, Repr

/-- What becomes of the datagrams: in the channel of a flow, dropped because the mux opened no flow,
dropped because the flow had ended; on the stream of a flow, and back to the client. -/
inductive AssocEvent (Addr : Type) where
  | handed (target : String) (f : Nat) (data : Bytes)
  | openFailed (target : String) (data : Bytes)
  | lost (target : String) (data : Bytes)
  | up (f : Nat) (data : Bytes)
  | toClient (dest : Addr) (pkt : Bytes)
  deriving DecidableEq, Repr

/-- A result of the control connection's `read` and of `recv_from`; the mux's answer to `open_datagram`;
the end of `tx.send`; and the steps of a flow: one of its `select!` arms, or the end of its channel. -/
inductive AssocAct (Addr : Type) where
  | ctrlClosed
  | ctrlBytes
  | recvErr
  | recvFrom (source : Addr) (pkt : Bytes)
  | openDone (ok : Bool)
  | sendDone
  | flowUp (f : Nat) (ok : Bool)
  | flowDown (f : Nat) (data : Bytes) (ok : Bool)
  | flowClosed (f : Nat)
  | flowDrained (f : Nat)
  deriving DecidableEq, Repr

/-- The address of a request and where it ends, by its `ATYP`. -/
def udpHost (pkt : Bytes) : Option (Host × Nat) :=
  match (pkt[3]? : Option UInt8) with
  | some 0x01 => if 8 ≤ pkt.length then some (.v4 ((pkt.drop 4).take 4), 8) else none
  | some 0x04 => if 20 ≤ pkt.length then some (.v6 ((pkt.drop 4).take 16), 20) else none
  | some 0x03 =>
    match pkt[4]? with
    | some len =>
      if 5 + len.toNat ≤ pkt.length then
        some (.domain (fromUtf8Lossy ((pkt.drop 5).take len.toNat)), 5 + len.toNat)
      else none
    | none => none
  | _ => none

/-- `parse_udp_datagram`: the target, where the data begins and the address as it was sent. `text` is
the text of an address with its port. -/
def parseUdpDatagram (text : Host → Nat → String) (pkt : Bytes) : Option (String × Nat × Bytes) :=
  if pkt.length < 4 || pkt[2]? != some 0 then none
  else
    match udpHost pkt with
    | some (host, addrEnd) =>
      match pkt[addrEnd]?, pkt[addrEnd + 1]? with
      | some hi, some lo =>
        if pkt.length < addrEnd + 2 then none
        else some (text host (hi.toNat * 256 + lo.toNat), addrEnd + 2, (pkt.take (addrEnd + 2)).drop 3)
      | _, _ => none
    | none => none

namespace Association

variable {Addr : Type}

def new : Association Addr := ⟨none, [], [], .receiving⟩

def flowAlive (s : Association Addr) (f : Nat) : Bool := s.flows[f]?.any AssocFlow.alive

def setFlow (s : Association Addr) (f : Nat) (fl : AssocFlow Addr) : Association Addr :=
  { s with flows := s.flows.set f fl }

/-- The task of a flow ends; its channel goes with it. -/
def endFlow (s : Association Addr) (f : Nat) : Association Addr :=
  { s with flows := s.flows.modify f fun fl => { fl with alive := false, queue := [] } }

section

variable {s : Association Addr}

/-! ## The map and the flows -/

/-- An entry of the map names a flow to its target, and every flow has its entry. -/
structure Inv (s : Association Addr) : Prop where
  keyed : ∀ target f, s.assocs.lookup target = some f →
    ∃ fl, s.flows[f]? = some fl ∧ fl.target = target
  entered : ∀ (f : Nat) (fl : AssocFlow Addr), s.flows[f]? = some fl → s.assocs.lookup fl.target = some f
  absent : ∀ target source header data, s.phase = .opening target source header data →
    s.assocs.lookup target = none
  sending : ∀ f target data, s.phase = .sending f target data → s.assocs.lookup target = some f

/-- The flow of the target has ended and the map still names it. -/
def Severed (s : Association Addr) (target : String) : Prop :=
  ∃ f, s.assocs.lookup target = some f ∧ s.flowAlive f = false

theorem inv_new : (new : Association Addr).Inv where
  keyed := nofun
  entered := by
    intro f fl h
    simp [new] at h
  absent := nofun
  sending := nofun

theorem getElem?_setFlow {f g : Nat} {fl fl' : AssocFlow Addr} (hf : s.flows[f]? = some fl) :
    (s.setFlow f fl').flows[g]? = if g = f then some fl' else s.flows[g]? := by
  have hlt : f < s.flows.length := (List.getElem?_eq_some_iff.mp hf).1
  by_cases hg : g = f
  · subst hg
    simp [setFlow, hlt]
  · simp [setFlow, hg, List.getElem?_set_ne (Ne.symm hg)]

theorem getElem?_endFlow {f g : Nat} :
    (s.endFlow f).flows[g]? =
      s.flows[g]?.map fun fl => if g = f then { fl with alive := false, queue := [] } else fl := by
  rw [endFlow, List.getElem?_modify]
  by_cases hg : f = g
  · simp [hg]
  · simp [hg, Ne.symm hg]

theorem flowAlive_setFlow {f : Nat} {fl : AssocFlow Addr} (hf : s.flows[f]? = some fl)
    (fl' : AssocFlow Addr) (ha : fl'.alive = fl.alive) (g : Nat) :
    (s.setFlow f fl').flowAlive g = s.flowAlive g := by
  unfold flowAlive
  rw [getElem?_setFlow hf]
  by_cases hg : g = f
  · simp [hg, hf, ha]
  · simp [hg]

theorem flowAlive_endFlow {f g : Nat} : (s.endFlow f).flowAlive g = (!decide (g = f) && s.flowAlive g) := by
  unfold flowAlive
  rw [getElem?_endFlow]
  cases s.flows[g]? with
  | none => simp
  | some fl => by_cases hg : g = f <;> simp [hg]

/-- A change to the flows that leaves their targets, the map and the loop. -/
theorem Inv.of_flows (h : s.Inv) {s₁ : Association Addr} (hassocs : s₁.assocs = s.assocs)
    (htarget : ∀ g : Nat, s₁.flows[g]?.map AssocFlow.target = s.flows[g]?.map AssocFlow.target)
    (hopen : ∀ target source header data, s₁.phase = .opening target source header data →
      s.assocs.lookup target = none)
    (hsend : ∀ f target data, s₁.phase = .sending f target data → s.assocs.lookup target = some f) :
    s₁.Inv where
  keyed := by
    intro target f hf
    rw [hassocs] at hf
    obtain ⟨fl, hfl, rfl⟩ := h.keyed target f hf
    have hmap := htarget f
    rw [hfl] at hmap
    exact Option.map_eq_some_iff.mp hmap
  entered := by
    intro f fl hf
    have hmap := htarget f
    rw [hf] at hmap
    obtain ⟨fl₀, hfl₀, htgt⟩ := Option.map_eq_some_iff.mp hmap.symm
    rw [hassocs, ← htgt]
    exact h.entered f fl₀ hfl₀
  absent := by
    intro target source header data hphase
    rw [hassocs]
    exact hopen target source header data hphase
  sending := by
    intro f target data hphase
    rw [hassocs]
    exact hsend f target data hphase

theorem target_setFlow {f : Nat} {fl fl' : AssocFlow Addr} (hf : s.flows[f]? = some fl)
    (ht : fl'.target = fl.target) (g : Nat) :
    (s.setFlow f fl').flows[g]?.map AssocFlow.target = s.flows[g]?.map AssocFlow.target := by
  rw [getElem?_setFlow hf]
  by_cases hg : g = f
  · simp [hg, hf, ht]
  · simp [hg]

theorem target_endFlow (f g : Nat) :
    (s.endFlow f).flows[g]?.map AssocFlow.target = s.flows[g]?.map AssocFlow.target := by
  rw [getElem?_endFlow, Option.map_map]
  congr 1
  funext fl
  by_cases hg : g = f <;> simp [hg]

theorem Inv.opened (h : s.Inv) {target : String} {source : Addr} {header data : Bytes}
    (hphase : s.phase = .opening target source header data) :
    ({ s with
      assocs := (target, s.flows.length) :: s.assocs
      flows := s.flows ++ [⟨target, source, [0, 0, 0] ++ header, [], true⟩]
      phase := .sending s.flows.length target data } : Association Addr).Inv := by
  have habsent := h.absent target source header data hphase
  refine ⟨?_, ?_, nofun, ?_⟩
  · intro tgt f hf
    by_cases htgt : tgt = target
    · subst htgt
      simp only [List.lookup_cons_self, Option.some.injEq] at hf
      subst hf
      exact ⟨_, List.getElem?_concat_length, rfl⟩
    · rw [List.lookup_cons, beq_false_of_ne htgt] at hf
      obtain ⟨fl, hfl, ht⟩ := h.keyed tgt f hf
      exact ⟨fl, (List.getElem?_append_left (List.getElem?_eq_some_iff.mp hfl).1).trans hfl, ht⟩
  · intro f fl hf
    by_cases hlt : f < s.flows.length
    · rw [List.getElem?_append_left hlt] at hf
      have hentry := h.entered f fl hf
      have hne : fl.target ≠ target := by
        rintro rfl
        rw [habsent] at hentry
        cases hentry
      rw [List.lookup_cons, beq_false_of_ne hne]
      exact hentry
    · rw [List.getElem?_append_right (Nat.le_of_not_lt hlt)] at hf
      cases hk : f - s.flows.length with
      | zero =>
        rw [hk] at hf
        cases hf
        rw [List.lookup_cons_self]
        congr 1
        omega
      | succ k => simp [hk] at hf
  · intro f tgt d hsend
    cases hsend
    exact List.lookup_cons_self

end

/-! ## The receive loop -/

section

variable [DecidableEq Addr] (text : Host → Nat → String)

/-- The association belongs to the first source. -/
def pinned (s : Association Addr) (source : Addr) : Bool := s.clientAddr.all (· = source)

/-- A datagram of the pinned client that is well formed, by target, header and data. -/
def accepts (s : Association Addr) (source : Addr) (pkt : Bytes) : Option (String × Bytes × Bytes) :=
  if s.pinned source then
    (parseUdpDatagram text pkt).map fun (target, dataOff, header) => (target, header, pkt.drop dataOff)
  else none

def step (s : Association Addr) : AssocAct Addr → Option (Association Addr × List (AssocEvent Addr))
  | .ctrlClosed | .recvErr =>
    match s.phase with
    | .receiving => some ({ s with phase := .ended }, [])
    | _ => none
  | .ctrlBytes =>
    match s.phase with
    | .receiving => some (s, [])
    | _ => none
  | .recvFrom source pkt =>
    match s.phase with
    | .receiving =>
      let clientAddr := some (s.clientAddr.getD source)
      match s.accepts text source pkt with
      | none => some ({ s with clientAddr := clientAddr }, [])
      | some (target, header, data) =>
        match s.assocs.lookup target with
        | none => some ({ s with clientAddr := clientAddr, phase := .opening target source header data }, [])
        | some f => some ({ s with clientAddr := clientAddr, phase := .sending f target data }, [])
    | _ => none
  | .openDone ok =>
    match s.phase, ok with
    | .opening target source header data, true =>
      let f := s.flows.length
      some ({ s with
        assocs := (target, f) :: s.assocs
        flows := s.flows ++ [⟨target, source, [0, 0, 0] ++ header, [], true⟩]
        phase := .sending f target data }, [])
    | .opening target _ _ data, false => some ({ s with phase := .receiving }, [.openFailed target data])
    | _, _ => none
  | .sendDone =>
    match s.phase with
    | .sending f target data =>
      match s.flows[f]? with
      | some fl =>
        if fl.alive then
          if fl.queue.length < ASSOC_CHANNEL then
            some ({ s.setFlow f { fl with queue := fl.queue ++ [data] } with phase := .receiving },
              [.handed target f data])
          else none
        else some ({ s with phase := .receiving }, [.lost target data])
      | none => none
    | _ => none
  | .flowUp f ok =>
    match s.flows[f]? with
    | some ⟨target, clientAddr, reply, data :: queue, true⟩ =>
      -- a datagram that is too long for a frame is an error of `send`, as is a closed stream
      if ok && data.length ≤ MAX_FRAME_PAYLOAD then
        some (s.setFlow f ⟨target, clientAddr, reply, queue, true⟩, [.up f data])
      else some (s.endFlow f, [])
    | _ => none
  | .flowDown f data ok =>
    match s.flows[f]? with
    | some ⟨_, clientAddr, reply, _, true⟩ =>
      if ok then some (s, [.toClient clientAddr (reply ++ data)]) else some (s.endFlow f, [])
    | _ => none
  | .flowClosed f => if s.flowAlive f then some (s.endFlow f, []) else none
  | .flowDrained f =>
    match s.phase, s.flows[f]? with
    | .ended, some ⟨_, _, _, [], true⟩ => some (s.endFlow f, [])
    | _, _ => none

/-! ## One step -/

/-- The step of a flow with which its task ends: the mux has closed its stream, the reply cannot be sent
to the client, or `send` fails. -/
def endsFlow (s : Association Addr) : AssocAct Addr → Bool
  | .flowClosed _ => true
  | .flowDown _ _ ok => !ok
  | .flowUp f ok =>
    !ok || ((s.flows[f]?.bind fun fl => fl.queue.head?).any fun data => MAX_FRAME_PAYLOAD < data.length)
  | _ => false

/-- Everything a step can do. -/
inductive Effect (s : Association Addr) :
    AssocAct Addr → Association Addr → List (AssocEvent Addr) → Prop
  | stopped {a : AssocAct Addr} (hphase : s.phase = .receiving) (hact : a = .ctrlClosed ∨ a = .recvErr) :
      Effect s a { s with phase := .ended } []
  | ignored : Effect s .ctrlBytes s []
  | dropped {source : Addr} {pkt : Bytes} (hphase : s.phase = .receiving)
      (haccept : s.accepts text source pkt = none) :
      Effect s (.recvFrom source pkt) { s with clientAddr := some (s.clientAddr.getD source) } []
  | wanted {source : Addr} {pkt : Bytes} {target : String} {header data : Bytes}
      (hphase : s.phase = .receiving) (haccept : s.accepts text source pkt = some (target, header, data))
      (habsent : s.assocs.lookup target = none) :
      Effect s (.recvFrom source pkt) { s with
        clientAddr := some (s.clientAddr.getD source), phase := .opening target source header data } []
  | found {source : Addr} {pkt : Bytes} {target : String} {header data : Bytes} {f : Nat}
      (hphase : s.phase = .receiving) (haccept : s.accepts text source pkt = some (target, header, data))
      (hentry : s.assocs.lookup target = some f) :
      Effect s (.recvFrom source pkt) { s with
        clientAddr := some (s.clientAddr.getD source), phase := .sending f target data } []
  | opened {target : String} {source : Addr} {header data : Bytes}
      (hphase : s.phase = .opening target source header data) :
      Effect s (.openDone true) { s with
        assocs := (target, s.flows.length) :: s.assocs
        flows := s.flows ++ [⟨target, source, [0, 0, 0] ++ header, [], true⟩]
        phase := .sending s.flows.length target data } []
  | refused {target : String} {source : Addr} {header data : Bytes}
      (hphase : s.phase = .opening target source header data) :
      Effect s (.openDone false) { s with phase := .receiving } [.openFailed target data]
  | handed {f : Nat} {target : String} {data : Bytes} {fl : AssocFlow Addr}
      (hphase : s.phase = .sending f target data) (hf : s.flows[f]? = some fl) (halive : fl.alive = true) :
      Effect s .sendDone { s.setFlow f { fl with queue := fl.queue ++ [data] } with phase := .receiving }
        [.handed target f data]
  | lost {f : Nat} {target : String} {data : Bytes} (hphase : s.phase = .sending f target data)
      (hdead : s.flowAlive f = false) :
      Effect s .sendDone { s with phase := .receiving } [.lost target data]
  | up {f : Nat} {ok : Bool} {fl : AssocFlow Addr} {data : Bytes} {queue : List Bytes}
      (hf : s.flows[f]? = some fl) (hends : s.endsFlow (.flowUp f ok) = false) :
      Effect s (.flowUp f ok) (s.setFlow f { fl with queue := queue }) [.up f data]
  | down {f : Nat} {dest : Addr} {reply data : Bytes} :
      Effect s (.flowDown f data true) s [.toClient dest (reply ++ data)]
  | closed {a : AssocAct Addr} {f : Nat} (halive : s.flowAlive f = true)
      (hends : s.endsFlow a = true ∨ s.phase = .ended) (hact : ∀ source pkt, a ≠ .recvFrom source pkt) :
      Effect s a (s.endFlow f) []

variable {text} {s s' : Association Addr} {a : AssocAct Addr} {ev : List (AssocEvent Addr)}

theorem step_effect (h : s.step text a = some (s', ev)) : Effect text s a s' ev := by
  cases a with simp only [step] at h
  | ctrlClosed =>
    split at h
    · rename_i hphase
      cases h
      exact .stopped hphase (.inl rfl)
    · cases h
  | recvErr =>
    split at h
    · rename_i hphase
      cases h
      exact .stopped hphase (.inr rfl)
    · cases h
  | ctrlBytes =>
    split at h
    · cases h
      exact .ignored
    · cases h
  | recvFrom source pkt =>
    split at h
    · rename_i hphase
      split at h
      · rename_i haccept
        cases h
        exact .dropped hphase haccept
      · rename_i target header data haccept
        split at h
        · rename_i habsent
          cases h
          exact .wanted hphase haccept habsent
        · rename_i f hentry
          cases h
          exact .found hphase haccept hentry
    · cases h
  | openDone ok =>
    split at h
    · rename_i hphase
      cases h
      exact .opened hphase
    · rename_i hphase
      cases h
      exact .refused hphase
    · cases h
  | sendDone =>
    split at h
    · rename_i f target data hphase
      split at h
      · rename_i fl hf
        split at h
        · rename_i halive
          split at h
          · cases h
            exact .handed hphase hf halive
          · cases h
        · rename_i hdead
          cases h
          exact .lost hphase (by simpa [flowAlive, hf] using hdead)
      · cases h
    · cases h
  | flowUp f ok =>
    split at h
    · rename_i target clientAddr reply data queue hf
      split at h
      · rename_i hok
        cases h
        simp only [Bool.and_eq_true, decide_eq_true_eq] at hok
        refine .up hf ?_
        simp [endsFlow, hf, hok.1, Nat.not_lt.mpr hok.2]
      · rename_i hok
        cases h
        refine .closed (by simp [flowAlive, hf]) (.inl ?_) nofun
        simp only [Bool.and_eq_true, decide_eq_true_eq, not_and] at hok
        cases ok with
        | false => rfl
        | true => simpa [endsFlow, hf] using hok rfl
    · cases h
  | flowDown f data ok =>
    split at h
    · rename_i hf
      split at h
      · rename_i hok
        cases h
        subst hok
        exact .down
      · rename_i hok
        cases h
        exact .closed (by simp [flowAlive, hf]) (.inl (by simpa [endsFlow] using hok)) nofun
    · cases h
  | flowClosed f =>
    split at h
    · rename_i halive
      cases h
      exact .closed halive (.inl rfl) nofun
    · cases h
  | flowDrained f =>
    split at h
    · rename_i hphase hf
      cases h
      exact .closed (by simp [flowAlive, hf]) (.inr hphase) nofun
    · cases h

theorem Inv.step (h : s.Inv) (hs : s.step text a = some (s', ev)) : s'.Inv := by
  cases step_effect hs with
  | stopped => exact h.of_flows rfl (fun _ => rfl) nofun nofun
  | dropped => exact h.of_flows rfl (fun _ => rfl) h.absent h.sending
  | ignored | down => exact h
  | wanted _ _ habsent =>
    refine h.of_flows rfl (fun _ => rfl) ?_ nofun
    intro target source header data hphase
    cases hphase
    exact habsent
  | found _ _ hentry =>
    refine h.of_flows rfl (fun _ => rfl) nofun ?_
    intro f target data hphase
    cases hphase
    exact hentry
  | opened hphase => exact h.opened hphase
  | refused | lost => exact h.of_flows rfl (fun _ => rfl) nofun nofun
  | handed _ hf => exact h.of_flows rfl (target_setFlow hf rfl) nofun nofun
  | up hf => exact h.of_flows rfl (target_setFlow hf rfl) h.absent h.sending
  | @closed _ f => exact h.of_flows rfl (target_endFlow f) h.absent h.sending

/-! ## What becomes of a datagram -/

/-- The datagram the loop is in. -/
def pending (s : Association Addr) : List (String × Bytes) :=
  match s.phase with
  | .opening target _ _ data => [(target, data)]
  | .sending _ target data => [(target, data)]
  | _ => []

/-- The outcome that an event reports. -/
def outcome : AssocEvent Addr → Option (String × Bytes)
  | .handed target _ data => some (target, data)
  | .openFailed target data => some (target, data)
  | .lost target data => some (target, data)
  | _ => none

variable (text) in
/-- The well-formed datagrams of the pinned client, in the order the loop read them. -/
def received (log : List (Taken (Association Addr) (AssocAct Addr) (AssocEvent Addr))) :
    List (String × Bytes) :=
  log.flatMap fun t =>
    match t.act with
    | .recvFrom source pkt =>
      ((t.pre.accepts text source pkt).map fun (target, _, data) => (target, data)).toList
    | _ => []

/-- A step reads a datagram while it is in none, or reports what has become of the one it is in. -/
theorem pending_step (hs : s.step text a = some (s', ev)) :
    s.pending ++ received text [⟨s, a, ev⟩] = ev.filterMap outcome ++ s'.pending := by
  cases step_effect hs with
  | stopped hphase hact =>
    rcases hact with rfl | rfl <;> simp [pending, received, hphase]
  | ignored => simp [received]
  | dropped hphase haccept => simp [pending, received, hphase, haccept]
  | wanted hphase haccept => simp [pending, received, hphase, haccept]
  | found hphase haccept => simp [pending, received, hphase, haccept]
  | opened hphase => simp [pending, received, hphase]
  | refused hphase => simp [pending, received, hphase, outcome]
  | handed hphase => simp [pending, received, hphase, outcome]
  | lost hphase => simp [pending, received, hphase, outcome]
  | up => simp [pending, received, setFlow, outcome]
  | down => simp [received, outcome]
  | @closed _ f _ _ hact =>
    have hrecv : received text [⟨s, a, []⟩] = [] := by
      cases a with
      | recvFrom source pkt => exact absurd rfl (hact source pkt)
      | _ => rfl
    simp [hrecv, pending, endFlow]

/-- A datagram goes into the channel of a live flow to its target only. -/
theorem alive_of_handed (h : s.Inv) (hs : s.step text a = some (s', ev)) {target : String} {f : Nat}
    {data : Bytes} (hev : .handed target f data ∈ ev) :
    s.flowAlive f = true ∧ ∃ fl, s.flows[f]? = some fl ∧ fl.target = target := by
  cases step_effect hs with
  | handed hphase hf halive =>
    rw [List.mem_singleton] at hev
    cases hev
    exact ⟨by simp [flowAlive, hf, halive], h.keyed _ _ (h.sending _ _ _ hphase)⟩
  | refused | lost | up | down =>
    rw [List.mem_singleton] at hev
    cases hev
  | _ => cases hev

/-! ## A flow that has ended -/

/-- The entry of a flow that has ended stays, and the loop hands its target nothing any more. -/
theorem Severed.step {target : String} (h : s.Inv) (hsev : s.Severed target)
    (hs : s.step text a = some (s', ev)) :
    s'.Severed target ∧ ∀ f data, .handed target f data ∉ ev := by
  obtain ⟨f, hentry, hdead⟩ := hsev
  have hnot : ∀ g data, .handed target g data ∉ ev := by
    intro g data hev
    obtain ⟨halive, fl, hfl, rfl⟩ := alive_of_handed h hs hev
    cases (h.entered g fl hfl).symm.trans hentry
    rw [hdead] at halive
    cases halive
  refine ⟨?_, hnot⟩
  cases step_effect hs with
  | @opened tgt source header data hphase =>
    have hne : target ≠ tgt := by
      rintro rfl
      rw [h.absent _ _ _ _ hphase] at hentry
      cases hentry
    obtain ⟨fl, hfl, -⟩ := h.keyed target f hentry
    refine ⟨f, ?_, ?_⟩
    · rw [List.lookup_cons, beq_false_of_ne hne]
      exact hentry
    · unfold flowAlive at hdead ⊢
      rwa [List.getElem?_append_left (List.getElem?_eq_some_iff.mp hfl).1]
  | @handed _ _ data fl _ hf =>
    have halive := flowAlive_setFlow hf { fl with queue := fl.queue ++ [data] } rfl f
    exact ⟨f, hentry, halive.trans hdead⟩
  | @up _ _ fl _ queue hf =>
    have halive := flowAlive_setFlow hf { fl with queue := queue } rfl f
    exact ⟨f, hentry, halive.trans hdead⟩
  | closed =>
    refine ⟨f, hentry, ?_⟩
    rw [flowAlive_endFlow, hdead, Bool.and_false]
  | _ => exact ⟨f, hentry, hdead⟩

/-- A flow that ends while the loop runs severs its target. -/
theorem severed_of_ends (h : s.Inv) (hs : s.step text a = some (s', ev)) (hends : s.endsFlow a = true) :
    ∃ target, s'.Severed target := by
  cases step_effect hs with
  | stopped _ hact => rcases hact with rfl | rfl <;> cases hends
  | up _ hgoes =>
    rw [hgoes] at hends
    cases hends
  | @closed _ f halive =>
    obtain ⟨fl, hfl, -⟩ := (Option.any_eq_true _ _).mp halive
    refine ⟨fl.target, f, h.entered f fl hfl, ?_⟩
    rw [flowAlive_endFlow]
    simp
  | _ => cases hends

/-! ## Whole runs -/

variable {log : List (Taken (Association Addr) (AssocAct Addr) (AssocEvent Addr))}

theorem inv_run (h : Exec (step text) new log s) : s.Inv :=
  h.state_inv inv_new fun _ _ _ _ hinv hs => hinv.step hs

/-- Every datagram has one outcome, in the order they were read, but for the one the loop is in. -/
theorem received_run (h : Exec (step text) new log s) :
    received text log = (shown log).filterMap outcome ++ s.pending := by
  induction h with
  | nil => rfl
  | @snoc log s₁ s₂ a ev hrun hs ih =>
    have hsplit : received text (log ++ [⟨s₁, a, ev⟩]) = received text log ++ received text [⟨s₁, a, ev⟩] :=
      List.flatMap_append
    rw [hsplit, ih, List.append_assoc, pending_step hs, shown_snoc, List.filterMap_append, List.append_assoc]

theorem severed_run {target : String} (hinv : s.Inv) (hsev : s.Severed target)
    (h : Exec (step text) s log s') : s'.Severed target ∧ ∀ f data, .handed target f data ∉ shown log := by
  have hall : s'.Inv ∧ s'.Severed target ∧ ∀ f data, .handed target f data ∉ shown log := by
    refine h.inv (P := fun log s' => s'.Inv ∧ s'.Severed target ∧ ∀ f data, .handed target f data ∉ shown log)
      ⟨hinv, hsev, by simp⟩ ?_
    rintro log s a s' ev - ⟨hinv, hsev, hnot⟩ hs
    obtain ⟨hsev', hnot'⟩ := hsev.step hinv hs
    refine ⟨hinv.step hs, hsev', fun f data hmem => ?_⟩
    rw [shown_snoc, List.mem_append] at hmem
    rcases hmem with hmem | hmem
    · exact hnot f data hmem
    · exact hnot' f data hmem
  exact hall.2

/-- While no flow ends, the map names live flows only, and no datagram is lost to one that has ended. -/
theorem live_step (h : s.Inv) (hlive : ∀ target, ¬ s.Severed target) (hphase : s'.phase ≠ .ended)
    (hends : s.endsFlow a = false) (hs : s.step text a = some (s', ev)) :
    (∀ target, ¬ s'.Severed target) ∧ ∀ target data, .lost target data ∉ ev := by
  cases step_effect hs with
  | stopped => exact absurd rfl hphase
  | @opened tgt =>
    refine ⟨?_, by simp⟩
    rintro target ⟨f, hentry, hdead⟩
    by_cases htgt : target = tgt
    · rw [htgt, List.lookup_cons_self] at hentry
      cases hentry
      simp [flowAlive] at hdead
    · rw [List.lookup_cons, beq_false_of_ne htgt] at hentry
      obtain ⟨fl, hfl, -⟩ := h.keyed target f hentry
      refine hlive target ⟨f, hentry, ?_⟩
      unfold flowAlive at hdead ⊢
      rwa [List.getElem?_append_left (List.getElem?_eq_some_iff.mp hfl).1] at hdead
  | refused => exact ⟨hlive, by simp⟩
  | @handed _ _ data fl _ hf =>
    refine ⟨?_, by simp⟩
    rintro target ⟨g, hentry, hdead⟩
    have halive := flowAlive_setFlow hf { fl with queue := fl.queue ++ [data] } rfl g
    exact hlive target ⟨g, hentry, halive.symm.trans hdead⟩
  | lost hsending hdead => exact absurd ⟨_, h.sending _ _ _ hsending, hdead⟩ (hlive _)
  | @up _ _ fl _ queue hf =>
    refine ⟨?_, by simp⟩
    rintro target ⟨g, hentry, hdead⟩
    have halive := flowAlive_setFlow hf { fl with queue := queue } rfl g
    exact hlive target ⟨g, hentry, halive.symm.trans hdead⟩
  | down => exact ⟨hlive, by simp⟩
  | closed _ hcause =>
    rcases hcause with hcause | hcause
    · rw [hends] at hcause
      cases hcause
    · exact absurd hcause hphase
  | _ => exact ⟨hlive, by simp⟩

theorem ended_step (hphase : s.phase = .ended) (hs : s.step text a = some (s', ev)) : s'.phase = .ended := by
  cases step_effect hs with
  | stopped => rfl
  | ignored | down | up | closed => exact hphase
  | _ hother =>
    rw [hphase] at hother
    cases hother

/-- As long as the loop runs: the targets are reachable and nothing was lost iff no flow has ended. -/
theorem live_run (h : Exec (step text) new log s) (hphase : s.phase ≠ .ended) :
    ((∀ target data, .lost target data ∉ shown log) ∧ ∀ target, ¬ s.Severed target) ↔
      Steps (fun s a => s.endsFlow a = false) log := by
  induction h with
  | nil => simp [Severed, new]
  | @snoc log s₁ s₂ a ev hrun hs ih =>
    have hphase₁ : s₁.phase ≠ .ended := fun hended => hphase (ended_step hended hs)
    have hinv := inv_run hrun
    rw [steps_snoc, ← ih hphase₁]
    constructor
    · rintro ⟨hlost, hlive⟩
      refine ⟨⟨?_, ?_⟩, ?_⟩
      · intro target data hmem
        refine hlost target data ?_
        rw [shown_snoc]
        exact List.mem_append_left _ hmem
      · exact fun target hsev => hlive target (hsev.step hinv hs).1
      · by_contra hends
        obtain ⟨target, hsev⟩ := severed_of_ends hinv hs (Bool.not_eq_false _ ▸ hends)
        exact hlive target hsev
    · rintro ⟨⟨hlost, hlive⟩, hends⟩
      obtain ⟨hlive', hnot⟩ := live_step hinv hlive hphase hends hs
      refine ⟨?_, hlive'⟩
      intro target data hmem
      rw [shown_snoc, List.mem_append] at hmem
      rcases hmem with hmem | hmem
      · exact hlost target data hmem
      · exact hnot target data hmem

variable (text) in
/-- The life of an association over every run. Every well-formed datagram of the pinned client has one
outcome; it goes to a live flow to its target, or to none. A target whose flow has ended gets nothing any
more, whatever comes after. So the association keeps its targets reachable as long as no flow ends, and no
longer. -/
theorem association_live_iff (h : Exec (step text) new log s) :
    received text log = (shown log).filterMap outcome ++ s.pending ∧
    (∀ t ∈ log, ∀ target f data, .handed target f data ∈ t.ev →
      t.pre.flowAlive f = true ∧ ∃ fl, t.pre.flows[f]? = some fl ∧ fl.target = target) ∧
    (∀ target, s.Severed target → ∀ log' s', Exec (step text) s log' s' →
      s'.Severed target ∧ ∀ f data, .handed target f data ∉ shown log') ∧
    (s.phase ≠ .ended →
      (((∀ target data, .lost target data ∉ shown log) ∧ ∀ target, ¬ s.Severed target) ↔
        Steps (fun s a => s.endsFlow a = false) log)) := by
  refine ⟨received_run h, ?_, ?_, live_run h⟩
  · intro t ht target f data hev
    obtain ⟨log', s', hrun, -, hs⟩ := h.pre_reached t ht
    exact alive_of_handed (inv_run hrun) hs hev
  · exact fun target hsev log' s' hrun => severed_run (inv_run h) hsev hrun

end

/-- A request with a short datagram to port 53 of an IPv4 address. -/
def dnsQuery (data : UInt8) : Bytes := [0, 0, 0, 1, 9, 9, 9, 9, 0, 53, data]

/-- The text of an IPv4 address with its port. -/
def dotted (host : Host) (port : Nat) : String :=
  match host with
  | .v4 octets => ".".intercalate (octets.map fun b => toString b.toNat) ++ ":" ++ toString port
  | .v6 _ | .domain _ => ""

/-- Two datagrams and a reply, and the flow is still there for the next. -/
theorem association_live_query : ∃ log s, Exec (step dotted) (new : Association Nat) log s ∧
    (shown log).filterMap outcome = [("9.9.9.9:53", [1]), ("9.9.9.9:53", [2])] ∧
    (∀ target, ¬ s.Severed target) := by
  obtain ⟨log, s, hrun, hshown, hphase, hsteps⟩ := exec_reaches (step dotted) (new : Association Nat)
    [.recvFrom 7 (dnsQuery 1), .openDone true, .sendDone, .flowUp 0 true, .flowDown 0 [4] true,
      .recvFrom 7 (dnsQuery 2), .sendDone]
    (fun log s => (shown log).filterMap outcome = [("9.9.9.9:53", [1]), ("9.9.9.9:53", [2])] ∧
      s.phase = .receiving ∧ Steps (fun s a => s.endsFlow a = false) log) (by decide)
  have hend : s.phase ≠ .ended := by simp [hphase]
  exact ⟨log, s, hrun, hshown, (((association_live_iff dotted hrun).2.2.2 hend).mpr hsteps).2⟩

/-- The server lets the flow expire, and the next datagram to the same target is lost. -/
theorem association_not_live :
    ¬ ∀ log (s : Association Nat), Exec (step dotted) new log s → s.phase ≠ .ended →
      (∀ target data, data.length ≤ MAX_FRAME_PAYLOAD → .lost target data ∉ shown log) ∧
        ∀ target, ¬ s.Severed target := by
  intro hclaim
  obtain ⟨log, s, hrun, hphase, hlost⟩ := exec_reaches (step dotted) (new : Association Nat)
    [.recvFrom 7 (dnsQuery 1), .openDone true, .sendDone, .flowUp 0 true, .flowClosed 0,
      .recvFrom 7 (dnsQuery 2), .sendDone]
    (fun log s => s.phase = .receiving ∧ .lost "9.9.9.9:53" [2] ∈ shown log) (by decide)
  have hend : s.phase ≠ .ended := by simp [hphase]
  exact (hclaim log s hrun hend).1 _ _ (by decide) hlost

end Association

end Leshiy.Reality
