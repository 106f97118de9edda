import Leshiy.Lib.Run
import Leshiy.Mux.Datagram
import Leshiy.Reality.Usage

/-!
# Datagrams through the TUN engine

`pump_udp` (`leshiy-tun/src/engine.rs`) forwards the datagrams of one UDP flow of the netstack to an
association of the tunnel, and back. It has one loop: a `select!` over both sides and an idle timer, whose
arms run to their end before the next datagram is taken. That a side is closed it infers from what the side
returns: the flow from a read of no bytes, the association from an error or from an empty datagram.
-/

namespace Leshiy.Tun

open Leshiy.Lib Leshiy.Mux Leshiy.Reality

inductive ClientError where
  | connectFailed
  deriving DecidableEq, Repr

def ClientError.text : ClientError → String
  | .connectFailed => "connection failed"

/-- An association of the tunnel: the result of `recv` once it is closed, and that of `send` while it is
alive or not. -/
structure DatagramFlow where
  closed : Except ClientError Bytes
  send : Bytes → Bool → Except ClientError Unit
  closed_empty : ∀ b, closed = .ok b → b = []
  send_dead : ∀ b, send b false ≠ .ok ()

/-- `MuxDatagramFlow`, of a REALITY tunnel (`leshiy-client/src/adapter/reality.rs`). -/
def muxDatagramFlow : DatagramFlow where
  closed := .error .connectFailed
  send b live := (sendDatagram b live).mapError fun _ => .connectFailed
  closed_empty := nofun
  send_dead b := by
    cases hsend : sendDatagram b false with
    | error err => nofun
    | ok u => simpa using (sendDatagram_eq_ok.mp hsend).2

/-- `QuicDatagram` (`leshiy-client/src/adapter/quic.rs`), on a path whose QUIC datagrams hold `max` bytes
of a datagram. -/
def quicDatagram (max : Nat) : DatagramFlow where
  closed := .ok []
  send b live := if b.length ≤ max ∧ live = true then .ok () else .error .connectFailed
  closed_empty _ h := by cases h; rfl
  send_dead b := by simp

/-- The datagram fits the association. -/
def DatagramFlow.Takes (assoc : DatagramFlow) (b : Bytes) : Prop :=
  assoc.send b true = .ok ()

theorem muxDatagramFlow_takes_iff (b : Bytes) :
    muxDatagramFlow.Takes b ↔ b.length ≤ MAX_FRAME_PAYLOAD := by
  change (sendDatagram b true).mapError _ = .ok () ↔ _
  cases hsend : sendDatagram b true with
  | ok u => exact iff_of_true rfl (sendDatagram_eq_ok.mp hsend).1
  | error err =>
    refine iff_of_false (fun h => by cases h) fun hlen => ?_
    rw [sendDatagram_eq_ok.mpr ⟨hlen, rfl⟩] at hsend
    cases hsend

/-- Where the loop is: in the `select!`, in `flow.write_all` or in `assoc.send`. -/
inductive PumpPhase where
  | selecting
  | writing (b : Bytes)
  | sending (b : Bytes)
  deriving DecidableEq, Repr

structure UdpPump where
  phase : PumpPhase
  result : Option (Except String Unit)
  deriving DecidableEq, Repr

/-- What the loop waits for: a datagram of the association or its end; a datagram of the flow, its end or an
error; the timer; the end of a write and of a send. -/
inductive PumpAct where
  | recv (b : Bytes)
  | assocClosed
  | read (b : Bytes)
  | flowClosed
  | readFailed (msg : String)
  | idle
  | written (res : Except String Unit)
  | sent (live : Bool)

inductive PumpEvent where
  | toFlow (b : Bytes)
  | toAssoc (b : Bytes)
  | count (d : Dir) (n : Nat)
  /-- `assoc.close`. -/
  | close
  deriving DecidableEq, Repr

namespace UdpPump

def start : UdpPump := ⟨.selecting, none⟩

/-- `break`. -/
def leave (s : UdpPump) : UdpPump × List PumpEvent :=
  ({ s with result := some (.ok ()) }, [.close])

def fail (s : UdpPump) (msg : String) : UdpPump × List PumpEvent :=
  ({ s with result := some (.error msg) }, [])

def onInbound (s : UdpPump) : Except ClientError Bytes → UdpPump × List PumpEvent
  | .ok b =>
    if !b.isEmpty then ({ s with phase := .writing b }, [.count .down b.length]) else s.leave
  | .error _ => s.leave

def onRead (s : UdpPump) : Except String Bytes → UdpPump × List PumpEvent
  | .ok b =>
    if b.length = 0 then s.leave else ({ s with phase := .sending b }, [.count .up b.length])
  | .error msg => s.fail msg

/-- Length of the buffer that the flow is read into. -/
def READ_BUF : Nat := 65535

def step (assoc : DatagramFlow) (s : UdpPump) (a : PumpAct) : Option (UdpPump × List PumpEvent) :=
  match s.result, s.phase, a with
  | none, .selecting, .recv b => some (s.onInbound (.ok b))
  | none, .selecting, .assocClosed => some (s.onInbound assoc.closed)
  | none, .selecting, .read b => if b.length ≤ READ_BUF then some (s.onRead (.ok b)) else none
  -- a closed flow reads as no bytes
  | none, .selecting, .flowClosed => some (s.onRead (.ok []))
  | none, .selecting, .readFailed msg => some (s.onRead (.error msg))
  | none, .selecting, .idle => some s.leave
  | none, .writing b, .written (.ok ()) => some ({ s with phase := .selecting }, [.toFlow b])
  | none, .writing _, .written (.error msg) => some (s.fail msg)
  | none, .sending b, .sent live =>
    match assoc.send b live with
    | .ok () => some ({ s with phase := .selecting }, [.toAssoc b])
    | .error err => some (s.fail err.text)
  | _, _, _ => none

/-- The steps of the loop. -/
inductive Effect (assoc : DatagramFlow) (s : UdpPump) : PumpAct → UdpPump → List PumpEvent → Prop
  | incoming {b : Bytes} : s.phase = .selecting → b ≠ [] →
      Effect assoc s (.recv b) { s with phase := .writing b } [.count .down b.length]
  | emptyIn : s.phase = .selecting →
      Effect assoc s (.recv []) { s with result := some (.ok ()) } [.close]
  | outgoing {b : Bytes} : s.phase = .selecting → b ≠ [] →
      Effect assoc s (.read b) { s with phase := .sending b } [.count .up b.length]
  | emptyOut : s.phase = .selecting →
      Effect assoc s (.read []) { s with result := some (.ok ()) } [.close]
  | left {a : PumpAct} : s.phase = .selecting → a = .assocClosed ∨ a = .flowClosed ∨ a = .idle →
      Effect assoc s a { s with result := some (.ok ()) } [.close]
  | readFailed {msg : String} : s.phase = .selecting →
      Effect assoc s (.readFailed msg) { s with result := some (.error msg) } []
  | written {b : Bytes} : s.phase = .writing b →
      Effect assoc s (.written (.ok ())) { s with phase := .selecting } [.toFlow b]
  | notWritten {b : Bytes} {msg : String} : s.phase = .writing b →
      Effect assoc s (.written (.error msg)) { s with result := some (.error msg) } []
  | sent {b : Bytes} : s.phase = .sending b → assoc.Takes b →
      Effect assoc s (.sent true) { s with phase := .selecting } [.toAssoc b]
  | notSent {b : Bytes} {live : Bool} {err : ClientError} : s.phase = .sending b →
      assoc.send b live = .error err →
      Effect assoc s (.sent live) { s with result := some (.error err.text) } []

variable {assoc : DatagramFlow} {s s' : UdpPump} {a : PumpAct} {ev : List PumpEvent}

theorem effect_onInbound {b : Bytes} (hphase : s.phase = .selecting) :
    Effect assoc s (.recv b) (s.onInbound (.ok b)).1 (s.onInbound (.ok b)).2 := by
  cases b with
  | nil => exact .emptyIn hphase
  | cons x xs => exact .incoming hphase (List.cons_ne_nil x xs)

theorem effect_onRead {b : Bytes} (hphase : s.phase = .selecting) :
    Effect assoc s (.read b) (s.onRead (.ok b)).1 (s.onRead (.ok b)).2 := by
  cases b with
  | nil => exact .emptyOut hphase
  | cons x xs => exact .outgoing hphase (List.cons_ne_nil x xs)

/-- However the adapter says that the association is closed, the loop is left. -/
theorem onInbound_closed (assoc : DatagramFlow) (s : UdpPump) : s.onInbound assoc.closed = s.leave := by
  cases hclosed : assoc.closed with
  | error err => rfl
  | ok b =>
    rw [assoc.closed_empty b hclosed]
    rfl

theorem step_effect (h : step assoc s a = some (s', ev)) :
    s.result = none ∧ Effect assoc s a s' ev := by
  unfold step at h
  split at h
  · next b hres hphase =>
    have heff : Effect assoc s (.recv b) _ _ := effect_onInbound hphase
    rw [Option.some.inj h] at heff
    exact ⟨hres, heff⟩
  · next hres hphase =>
    rw [onInbound_closed] at h
    cases h
    exact ⟨hres, .left hphase (Or.inl rfl)⟩
  · next b hres hphase =>
    split at h
    · have heff : Effect assoc s (.read b) _ _ := effect_onRead hphase
      rw [Option.some.inj h] at heff
      exact ⟨hres, heff⟩
    · cases h
  · next hres hphase =>
    cases h
    exact ⟨hres, .left hphase (Or.inr (Or.inl rfl))⟩
  · next msg hres hphase =>
    cases h
    exact ⟨hres, .readFailed hphase⟩
  · next hres hphase =>
    cases h
    exact ⟨hres, .left hphase (Or.inr (Or.inr rfl))⟩
  · next b hres hphase =>
    cases h
    exact ⟨hres, .written hphase⟩
  · next b msg hres hphase =>
    cases h
    exact ⟨hres, .notWritten hphase⟩
  · next b live hres hphase =>
    split at h
    · next hsend =>
      cases h
      cases live with
      | true => exact ⟨hres, .sent hphase hsend⟩
      | false => exact absurd hsend (assoc.send_dead b)
    · next err hsend =>
      cases h
      exact ⟨hres, .notSent hphase hsend⟩
  · cases h

end UdpPump

/-! ## What the two sides see -/

/-- The datagram that has come in for this direction. -/
def PumpAct.arrival (d : Dir) : PumpAct → Option Bytes
  | .recv b => if d = .down then some b else none
  | .read b => if d = .up then some b else none
  | _ => none

def PumpEvent.forwarded (d : Dir) : PumpEvent → Option Bytes
  | .toFlow b => if d = .down then some b else none
  | .toAssoc b => if d = .up then some b else none
  | _ => none

/-- The datagram that is being forwarded. -/
def PumpPhase.inHand (d : Dir) : PumpPhase → Option Bytes
  | .writing b => if d = .down then some b else none
  | .sending b => if d = .up then some b else none
  | .selecting => none

/-- A side is closed or fails, or the timer has run out. -/
def PumpAct.closes : PumpAct → Bool
  | .assocClosed | .flowClosed | .readFailed _ | .idle | .written (.error _) | .sent false => true
  | _ => false

namespace UdpPump

variable {assoc : DatagramFlow} {s s' : UdpPump} {a : PumpAct} {ev : List PumpEvent}
variable {log : List (Taken UdpPump PumpAct PumpEvent)}

def arrivals (d : Dir) (log : List (Taken UdpPump PumpAct PumpEvent)) : List Bytes :=
  log.filterMap fun t => t.act.arrival d

def forwards (d : Dir) (log : List (Taken UdpPump PumpAct PumpEvent)) : List Bytes :=
  (shown log).filterMap (PumpEvent.forwarded d)

/-- The pump forwards what has come, once, unchanged and in order, up to the one datagram in hand, and stops
only because a side is closed. -/
structure Transparent (log : List (Taken UdpPump PumpAct PumpEvent)) (s : UdpPump) : Prop where
  forwarded : ∀ d, forwards d log ++ (s.phase.inHand d).toList = arrivals d log
  continues : s.result.isSome → ∃ t ∈ log, t.act.closes = true

/-- A datagram of this direction that the pump can carry. -/
def Carries (assoc : DatagramFlow) (d : Dir) (b : Bytes) : Prop :=
  b ≠ [] ∧ (d = .up → assoc.Takes b)

/-- No datagram that comes is empty, and one that is sent on a live association fits it. -/
def Carried (assoc : DatagramFlow) (s : UdpPump) (a : PumpAct) : Prop :=
  (∀ d, a.arrival d ≠ some []) ∧ (a = .sent true → ∀ b, s.phase = .sending b → assoc.Takes b)

theorem ends_step (h : step assoc s a = some (s', ev)) :
    ¬s.result.isSome ∧ (¬s'.result.isSome → ¬a.closes = true ∧ Carried assoc s a) ∧
      (s'.result.isSome → (a.closes = true ↔ Carried assoc s a)) := by
  obtain ⟨hres, heff⟩ := step_effect h
  refine ⟨by simp [hres], ?_⟩
  cases heff with
  | incoming hphase hb => simp [hres, PumpAct.closes, Carried, PumpAct.arrival, hb]
  | outgoing hphase hb => simp [hres, PumpAct.closes, Carried, PumpAct.arrival, hb]
  | left hphase ha =>
    rcases ha with rfl | rfl | rfl <;> simp [PumpAct.closes, Carried, PumpAct.arrival]
  | sent hphase htakes => simp [hres, PumpAct.closes, Carried, PumpAct.arrival, hphase, htakes]
  | @notSent b live err hphase hsend =>
    cases live with
    | false => simp [PumpAct.closes, Carried, PumpAct.arrival]
    | true => simp [PumpAct.closes, Carried, PumpAct.arrival, hphase, DatagramFlow.Takes, hsend]
  | _ => simp [hres, PumpAct.closes, Carried, PumpAct.arrival]

theorem forwards_step (h : step assoc s a = some (s', ev)) (hok : Carried assoc s a) (d : Dir) :
    ev.filterMap (PumpEvent.forwarded d) ++ (s'.phase.inHand d).toList =
      (s.phase.inHand d).toList ++ (a.arrival d).toList := by
  obtain ⟨-, heff⟩ := step_effect h
  cases heff with
  | emptyIn hphase => exact absurd rfl (hok.1 .down)
  | emptyOut hphase => exact absurd rfl (hok.1 .up)
  | incoming hphase hb => cases d <;> simp [PumpEvent.forwarded, PumpPhase.inHand, PumpAct.arrival, hphase]
  | outgoing hphase hb => cases d <;> simp [PumpEvent.forwarded, PumpPhase.inHand, PumpAct.arrival, hphase]
  | left hphase ha =>
    rcases ha with rfl | rfl | rfl <;> simp [PumpEvent.forwarded, PumpPhase.inHand, PumpAct.arrival, hphase]
  | written hphase => cases d <;> simp [PumpEvent.forwarded, PumpPhase.inHand, PumpAct.arrival, hphase]
  | sent hphase htakes => cases d <;> simp [PumpEvent.forwarded, PumpPhase.inHand, PumpAct.arrival, hphase]
  | _ => simp [PumpEvent.forwarded, PumpPhase.inHand, PumpAct.arrival]

theorem forwards_run (h : Exec (step assoc) start log s) (hok : Steps (Carried assoc) log) (d : Dir) :
    forwards d log ++ (s.phase.inHand d).toList = arrivals d log := by
  refine h.inv (P := fun log s => Steps (Carried assoc) log →
    forwards d log ++ (s.phase.inHand d).toList = arrivals d log) (fun _ => rfl) ?_ hok
  intro log s a s' ev _ ih hs hsteps
  obtain ⟨hbefore, hlast⟩ := steps_snoc.mp hsteps
  have hstep := forwards_step hs hlast d
  have harrivals : arrivals d (log ++ [⟨s, a, ev⟩]) = arrivals d log ++ (a.arrival d).toList := by
    rw [arrivals, List.filterMap_append, ← arrivals]
    cases ha : a.arrival d <;> simp [ha]
  rw [forwards, shown_snoc, List.filterMap_append, List.append_assoc, hstep, ← List.append_assoc,
    ← forwards, ih hbefore, harrivals]

theorem mem_arrivals_of_inHand (h : Exec (step assoc) start log s) (d : Dir) :
    ∀ b ∈ s.phase.inHand d, b ∈ arrivals d log := by
  refine h.inv (P := fun log s => ∀ b ∈ s.phase.inHand d, b ∈ arrivals d log)
    (by simp [start, PumpPhase.inHand]) ?_
  intro log s a s' ev _ ih hs b hb
  rw [arrivals, List.filterMap_append, ← arrivals, List.mem_append]
  obtain ⟨-, heff⟩ := step_effect hs
  cases heff with
  | incoming hphase hne => exact Or.inr (by cases d <;> simp_all [PumpPhase.inHand, PumpAct.arrival])
  | outgoing hphase hne => exact Or.inr (by cases d <;> simp_all [PumpPhase.inHand, PumpAct.arrival])
  | written hphase => cases hb
  | sent hphase htakes => cases hb
  | _ => exact Or.inl (ih b hb)

theorem transparent_iff_carried (h : Exec (step assoc) start log s) :
    Transparent log s ↔ Steps (Carried assoc) log := by
  have hends := h.stops_iff (fun s => s.result.isSome) (fun a => a.closes = true) (Carried assoc)
    (by simp [start]) fun _ _ _ _ hs => ends_step hs
  exact ⟨fun htrans => hends.mp htrans.continues,
    fun hsteps => ⟨forwards_run h hsteps, hends.mpr hsteps⟩⟩

/-- The step by which a datagram of this direction comes in. -/
def arrive (d : Dir) (b : Bytes) : PumpAct :=
  match d with
  | .up => .read b
  | .down => .recv b

theorem arrival_arrive (d d' : Dir) (b : Bytes) :
    (arrive d' b).arrival d = if d = d' then some b else none := by
  cases d <;> cases d' <;> rfl

/-- A datagram that the pump can carry, carried. -/
theorem exec_carries {d : Dir} {b : Bytes} (hlen : b.length ≤ READ_BUF) (hb : Carries assoc d b) :
    ∃ log, Exec (step assoc) start log start ∧ ∀ d', arrivals d' log = if d' = d then [b] else [] := by
  cases d with
  | down =>
    have hin : step assoc start (.recv b) = some (⟨.writing b, none⟩, [.count .down b.length]) := by
      simp [step, start, onInbound, hb.1]
    have hout : step assoc ⟨.writing b, none⟩ (.written (.ok ())) = some (start, [.toFlow b]) := rfl
    refine ⟨_, (Exec.nil.snoc hin).snoc hout, fun d' => ?_⟩
    cases d' <;> rfl
  | up =>
    have htakes : assoc.send b true = .ok () := hb.2 rfl
    have hin : step assoc start (.read b) = some (⟨.sending b, none⟩, [.count .up b.length]) := by
      simp [step, start, onRead, hlen, hb.1]
    have hout : step assoc ⟨.sending b, none⟩ (.sent true) = some (start, [.toAssoc b]) := by
      simp [step, start, htakes]
    refine ⟨_, (Exec.nil.snoc hin).snoc hout, fun d' => ?_⟩
    cases d' <;> rfl

theorem exec_carries_all {d : Dir} (bs : List Bytes)
    (hbs : ∀ b ∈ bs, b.length ≤ READ_BUF ∧ Carries assoc d b) :
    ∃ log, Exec (step assoc) start log start ∧ ∀ d', arrivals d' log = if d' = d then bs else [] := by
  induction bs with
  | nil => exact ⟨[], .nil, fun d' => by simp [arrivals]⟩
  | cons b bs ih =>
    obtain ⟨hb, hrest⟩ := List.forall_mem_cons.mp hbs
    obtain ⟨log, hrun, hlog⟩ := exec_carries hb.1 hb.2
    obtain ⟨log', hrun', hlog'⟩ := ih hrest
    refine ⟨log ++ log', hrun.trans hrun', fun d' => ?_⟩
    rw [arrivals, List.filterMap_append, ← arrivals, ← arrivals, hlog, hlog']
    by_cases hd : d' = d <;> simp [hd]

/-- One that it cannot carry stops it. -/
theorem exec_not_carries {d : Dir} {b : Bytes} (hlen : b.length ≤ READ_BUF) (hb : ¬Carries assoc d b) :
    ∃ log s, Exec (step assoc) start log s ∧ (∀ d', arrivals d' log = if d' = d then [b] else []) ∧
      ¬Steps (Carried assoc) log := by
  by_cases hempty : b = []
  · -- the arm of the `select!` takes it for the end
    subst hempty
    have hin : step assoc start (arrive d []) = some start.leave := by
      cases d <;> rfl
    refine ⟨_, _, Exec.nil.snoc hin, fun d' => ?_, fun hsteps => ?_⟩
    · cases d <;> cases d' <;> rfl
    · exact ((steps_snoc.mp hsteps).2.1 d) (by rw [arrival_arrive, if_pos rfl])
  · -- it is one for the association that does not fit
    obtain ⟨rfl, hnot⟩ : d = .up ∧ ¬assoc.Takes b := by
      unfold Carries at hb
      tauto
    have hin : step assoc start (.read b) = some (⟨.sending b, none⟩, [.count .up b.length]) := by
      simp [step, start, onRead, hlen, hempty]
    cases hsend : assoc.send b true with
    | ok u => exact absurd hsend hnot
    | error err =>
      have hout : step assoc ⟨.sending b, none⟩ (.sent true) =
          some (fail ⟨.sending b, none⟩ err.text) := by
        simp [step, hsend]
      refine ⟨_, _, (Exec.nil.snoc hin).snoc hout, fun d' => ?_, fun hsteps => ?_⟩
      · cases d' <;> rfl
      · exact hnot ((steps_snoc.mp hsteps).2.2 rfl b rfl)

/-- **The pump is transparent to what it can carry**: in every run, exactly if no datagram that comes is
empty and none is sent to a live association that it does not fit; for what the two sides offer, in every
run, exactly if it is all such. The mux takes a datagram of up to `MAX_FRAME_PAYLOAD` bytes. -/
theorem pump_transparent_iff (assoc : DatagramFlow) :
    (∀ log s, Exec (step assoc) start log s → (Transparent log s ↔ Steps (Carried assoc) log)) ∧
    (∀ offered : Dir → List Bytes, (∀ d, ∀ b ∈ offered d, b.length ≤ 65507) →
      ((∀ log s, Exec (step assoc) start log s → (∀ d, arrivals d log <+: offered d) → Transparent log s) ↔
        ∀ d, ∀ b ∈ offered d, Carries assoc d b)) ∧
    ∀ b, muxDatagramFlow.Takes b ↔ b.length ≤ MAX_FRAME_PAYLOAD := by
  refine ⟨fun log s => transparent_iff_carried, fun offered hlegal => ⟨fun hall d => ?_, ?_⟩,
    muxDatagramFlow_takes_iff⟩
  · have hbuf : ∀ b ∈ offered d, b.length ≤ READ_BUF := fun b hb => (hlegal d b hb).trans (by decide)
    refine forall_mem_of_prefix fun before b hpre hbefore => ?_
    by_contra hb
    have hmem : ∀ c ∈ before ++ [b], c.length ≤ READ_BUF := fun c hc => hbuf c (hpre.subset hc)
    obtain ⟨log, hrun, hlog⟩ := exec_carries_all before fun c hc =>
      ⟨hmem c (List.mem_append_left _ hc), hbefore c hc⟩
    obtain ⟨log', s, hrun', hlog', hnot⟩ :=
      exec_not_carries (hmem b (List.mem_append_right _ (List.mem_singleton_self b))) hb
    have hoffered : ∀ d', arrivals d' (log ++ log') <+: offered d' := by
      intro d'
      rw [arrivals, List.filterMap_append, ← arrivals, ← arrivals, hlog, hlog']
      by_cases hd : d' = d
      · simpa [hd] using hpre
      · simp [hd]
    have hsteps := (transparent_iff_carried (hrun.trans hrun')).mp (hall _ s (hrun.trans hrun') hoffered)
    exact hnot fun t ht => hsteps t (List.mem_append_right _ ht)
  · intro hcarries log s hrun hoffered
    refine (transparent_iff_carried hrun).mpr fun t ht => ⟨fun d hd => ?_, fun hsent b hphase => ?_⟩
    · have hmem : [] ∈ arrivals d log := List.mem_filterMap.mpr ⟨t, ht, hd⟩
      exact (hcarries d [] ((hoffered d).subset hmem)).1 rfl
    · obtain ⟨log', -, hrun', hlog', -⟩ := hrun.pre_reached t ht
      have hmem : b ∈ arrivals .up log' := mem_arrivals_of_inHand hrun' .up b (by rw [hphase]; rfl)
      exact (hcarries .up b ((hoffered .up).subset ((hlog'.filterMap _).subset hmem))).2 rfl

theorem pump_transparent_iff_small :
    ∃ log s, Exec (step muxDatagramFlow) start log s ∧ arrivals .up log = [[1], [2]] ∧ Transparent log s := by
  have hbs : ∀ b ∈ ([[1], [2]] : List Bytes), b.length ≤ READ_BUF ∧ Carries muxDatagramFlow .up b :=
    List.forall_mem_cons.mpr ⟨⟨by decide, by decide, fun _ => rfl⟩,
      List.forall_mem_singleton.mpr ⟨by decide, by decide, fun _ => rfl⟩⟩
  obtain ⟨log, hrun, hlog⟩ := exec_carries_all (d := .up) [[1], [2]] hbs
  have hall := ((pump_transparent_iff muxDatagramFlow).2.1 (fun d => d.pick [[1], [2]] [])
    (by intro d; cases d <;> decide)).mpr
    (by
      intro d
      cases d with
      | up => exact fun b hb => (hbs b hb).2
      | down => exact fun b hb => by cases hb)
  refine ⟨log, start, hrun, hlog .up, hall log start hrun fun d => ?_⟩
  cases d <;> exact (hlog _).symm ▸ List.prefix_rfl

/-- An empty datagram of either side ends the association, and what comes after it is not forwarded; so does a
datagram of the flow that is one byte too long for a frame. -/
theorem pump_not_transparent :
    (∃ log s, Exec (step muxDatagramFlow) start log s ∧ arrivals .down log = [[]] ∧ ¬Transparent log s) ∧
      (∃ log s, Exec (step muxDatagramFlow) start log s ∧ arrivals .up log = [[]] ∧ ¬Transparent log s) ∧
      ∃ log s, Exec (step muxDatagramFlow) start log s ∧ arrivals .up log = [List.replicate 16379 0] ∧
        ¬Transparent log s := by
  have hnot : ∀ (d : Dir) (b : Bytes), b.length ≤ READ_BUF → ¬Carries muxDatagramFlow d b →
      ∃ log s, Exec (step muxDatagramFlow) start log s ∧ arrivals d log = [b] ∧ ¬Transparent log s := by
    intro d b hlen hb
    obtain ⟨log, s, hrun, hlog, hsteps⟩ := exec_not_carries hlen hb
    exact ⟨log, s, hrun, (hlog d).trans (if_pos rfl), fun h => hsteps ((transparent_iff_carried hrun).mp h)⟩
  refine ⟨hnot .down [] (by decide) fun h => h.1 rfl, hnot .up [] (by decide) fun h => h.1 rfl,
    hnot .up _ (by rw [List.length_replicate]; decide) fun h => ?_⟩
  have hfits := (muxDatagramFlow_takes_iff _).mp (h.2 rfl)
  rw [List.length_replicate] at hfits
  exact absurd hfits (by decide)

end UdpPump

end Leshiy.Tun
