import Leshiy.Lib.Run
import Leshiy.Mux.Invariant

/-!
# Two endpoints over a transport

A session: the client's and the server's endpoint, joined by one bounded FIFO of frames in each
direction. `connect` is the HELLO exchange; after it any task of either side may take the next
step. What a side has queued and its peer has not read yet is its *flight*: the transport, the
frame the writer holds and the command queue, in that order.
-/

namespace Leshiy.Mux

open Leshiy.Lib

def Role.peer : Role → Role
  | .client => .server
  | .server => .client

@[simp] theorem Role.peer_peer (p : Role) : p.peer.peer = p := by cases p <;> rfl

@[simp] theorem Role.peer_ne (p : Role) : p.peer ≠ p := by cases p <;> decide

@[simp] theorem Role.ne_peer (p : Role) : p ≠ p.peer := by cases p <;> decide

instance {P : Role → Prop} [DecidablePred P] : Decidable (∀ p, P p) :=
  decidable_of_iff (P .client ∧ P .server)
    ⟨fun h p => by cases p; exacts [h.1, h.2], fun h => ⟨h .client, h .server⟩⟩

theorem Role.eq_or_eq_peer (p q : Role) : q = p ∨ q = p.peer := by cases p <;> cases q <;> decide

/-! ## The HELLO exchange -/

def helloFrame (hello : Hello) : Frame := ⟨0, FrameType.hello.toU8, hello.encode⟩

/-- `start_with_keepalive` once the peer's first frame has been read. -/
def Endpoint.afterHello (localHello : Hello) (role : Role) (peerFrame : Frame) :
    Except Error Endpoint :=
  if baseType peerFrame.ftype ≠ FrameType.hello.toU8 then
    .error (.version "expected HELLO first")
  else
    match Hello.decode peerFrame.payload with
    | .error err => .error err
    | .ok peerHello => (negotiate localHello peerHello).map fun n => Endpoint.start n role

structure Sys where
  ep : Role → Endpoint
  /-- Frames written by a side that its peer has not read. -/
  wire : Role → List Frame

namespace Sys

/-- Both sides write their hello, then read the other's. -/
def connect (hello : Role → Hello) : Except Error Sys :=
  match Endpoint.afterHello (hello .client) .client (helloFrame (hello .server)),
    Endpoint.afterHello (hello .server) .server (helloFrame (hello .client)) with
  | .ok c, .ok s => .ok ⟨fun | .client => c | .server => s, fun _ => []⟩
  | .error err, _ => .error err
  | _, .error err => .error err

/-! ## Steps -/

/-- Replace the endpoint that stepped and tag what it showed. -/
def put (s : Sys) (p : Role) (wire : Role → List Frame) (r : Endpoint × List Event) :
    Sys × List (Role × Event) :=
  (⟨Function.update s.ep p r.1, wire⟩, r.2.map fun ev => (p, ev))

/-- One step of one side, over a transport that holds `cap` frames in each direction. -/
def step (cap : Nat) (s : Sys) : Role × Act → Option (Sys × List (Role × Event))
  | (p, .readerTake f) =>
    match s.wire p.peer with
    | g :: rest =>
      if g = f then
        ((s.ep p).step (.readerTake f)).map (s.put p (Function.update s.wire p.peer rest))
      else none
    | [] => none
  | (p, .writerWrote) =>
    match (s.ep p).writer with
    | .writing f =>
      if (s.wire p).length < cap then
        ((s.ep p).step .writerWrote).map (s.put p (Function.update s.wire p (s.wire p ++ [f])))
      else none
    | _ => none
  | (p, a) => ((s.ep p).step a).map (s.put p s.wire)

end Sys

/-! ## What is in flight -/

namespace Endpoint

/-- Frames queued and not yet on the transport. A writer that has left sends none of them. -/
def outbox (e : Endpoint) : List Frame :=
  match e.writer with
  | .idle => e.cmdQ.map Command.frame
  | .writing f => f :: e.cmdQ.map Command.frame
  | _ => []

end Endpoint

def queuedFrames (ev : List Event) : List Frame :=
  ev.filterMap fun
    | .queued f => some f
    | _ => none

def readFrames (ev : List Event) : List Frame :=
  ev.filterMap fun
    | .read f => some f
    | _ => none

def Sys.flight (s : Sys) (p : Role) : List Frame := s.wire p ++ (s.ep p).outbox

namespace Endpoint

variable {e e' : Endpoint} {a : Act} {ev : List Event}

/-- The writer takes frames off the outbox in the order they were queued. -/
theorem Effect.outbox (he : Effect e a e' ev) :
    (a ≠ .writerWrote ∧ a ≠ .writerExit ∧ e'.outbox = e.outbox ++ queuedFrames ev) ∨
    (a = .writerWrote ∧ ev = [] ∧ ∃ f, e.writer = .writing f ∧ e.outbox = f :: e'.outbox) ∨
    (a = .writerExit ∧ ev = [] ∧ e'.outbox = []) := by
  have hopen : ∀ {c : Command}, e.cmdOpen = true →
      (e.enqueue c).outbox = e.outbox ++ [c.frame] := by
    intro c ho
    cases hw : e.writer <;> simp_all [Endpoint.outbox, cmdOpen]
  cases he with
  | wrote hw => exact Or.inr (Or.inl ⟨rfl, rfl, _, hw, by simp [Endpoint.outbox, hw]⟩)
  | writerLeft => exact Or.inr (Or.inr ⟨rfl, rfl, rfl⟩)
  | opened _ _ _ ho | sentLast _ _ _ _ ho | sentMore _ _ _ _ ho | credited _ _ _ _ ho
  | closeQueued _ _ ho | pinged _ ho | replied _ ho =>
    exact Or.inl ⟨by simp, by simp, hopen ho⟩
  | tookOpen hw hq | tookClose hw hq | tookWrite hw hq | drainedOpen hw hq
  | drainedWrite hw hq | writerClosed hw hq =>
    exact Or.inl ⟨by simp, by simp, by simp [Endpoint.outbox, hw, hq, queuedFrames, Command.frame]⟩
  | writerPublished hw =>
    exact Or.inl ⟨by simp, by simp, by simp [Endpoint.outbox, hw, queuedFrames]⟩
  | _ => exact Or.inl ⟨by simp, by simp, by simp [Endpoint.outbox, queuedFrames]⟩

theorem Effect.reads (he : Effect e a e' ev) :
    (∃ f, a = .readerTake f ∧ readFrames ev = [f] ∧ queuedFrames ev = [] ∧ e.reader = .idle) ∨
      ((∀ f, a ≠ .readerTake f) ∧ readFrames ev = []) := by
  cases he with
  | readPing hr | readIgnored hr | readOpenCap hr | readOpen hr | readReset hr | readPushed hr
  | readCredit hr | readClose hr | readCritical hr => exact Or.inl ⟨_, rfl, rfl, rfl, hr⟩
  | _ => exact Or.inr ⟨by simp, rfl⟩

end Endpoint

namespace Sys

/-- What a step of side `p` does to the session. -/
structure Move (s : Sys) (p : Role) (a : Act) (s' : Sys) (ev : List Event) : Prop where
  effect : (s.ep p).Effect a (s'.ep p) ev
  other : s'.ep p.peer = s.ep p.peer
  /-- Its own flight grows by what it queued, unless the writer leaves. -/
  out : s'.flight p = s.flight p ++ queuedFrames ev ∨
    (a = .writerExit ∧ ev = [] ∧ s'.flight p <+: s.flight p)
  /-- The peer's flight loses what it read. -/
  inn : s.flight p.peer = readFrames ev ++ s'.flight p.peer

variable {s s' : Sys} {cap : Nat} {p : Role} {a : Act} {ev : List (Role × Event)}

/-- Steps that leave the transport alone. -/
theorem move_local {ev : List Event} {e' : Endpoint} (he : (s.ep p).Effect a e' ev)
    (hr : ∀ f, a ≠ .readerTake f) (hw : a ≠ .writerWrote) :
    s.Move p a ⟨Function.update s.ep p e', s.wire⟩ ev where
  effect := by simpa using he
  other := by simp
  out := by
    rcases he.outbox with ⟨-, -, hout⟩ | ⟨rfl, -⟩ | ⟨rfl, rfl, hout⟩
    · exact Or.inl (by simp [flight, hout])
    · exact absurd rfl hw
    · exact Or.inr ⟨rfl, rfl, by simp [flight, hout]⟩
  inn := by
    rcases he.reads with ⟨f, rfl, -⟩ | ⟨-, hread⟩
    · exact absurd rfl (hr f)
    · simp [flight, hread]

theorem move_read {ev : List Event} {e' : Endpoint} {f : Frame} {rest : List Frame}
    (he : (s.ep p).Effect (.readerTake f) e' ev) (hwire : s.wire p.peer = f :: rest) :
    s.Move p (.readerTake f)
      ⟨Function.update s.ep p e', Function.update s.wire p.peer rest⟩ ev where
  effect := by simpa using he
  other := by simp
  out := by
    rcases he.outbox with ⟨-, -, hout⟩ | ⟨h, -⟩ | ⟨h, -⟩
    · exact Or.inl (by simp [flight, hout])
    · cases h
    · cases h
  inn := by
    rcases he.reads with ⟨g, hg, hread, -⟩ | ⟨hno, -⟩
    · cases hg
      simp [flight, hread, hwire]
    · exact absurd rfl (hno f)

theorem move_wrote {ev : List Event} {e' : Endpoint} {f : Frame}
    (he : (s.ep p).Effect .writerWrote e' ev) (hf : (s.ep p).writer = .writing f) :
    s.Move p .writerWrote
      ⟨Function.update s.ep p e', Function.update s.wire p (s.wire p ++ [f])⟩ ev where
  effect := by simpa using he
  other := by simp
  out := by
    rcases he.outbox with ⟨h, -⟩ | ⟨-, rfl, g, hg, hout⟩ | ⟨h, -⟩
    · exact absurd rfl h
    · cases hf.symm.trans hg
      exact Or.inl (by simp [flight, hout, queuedFrames])
    · cases h
  inn := by
    rcases he.reads with ⟨g, hg, -⟩ | ⟨-, hread⟩
    · cases hg
    · simp [flight, hread]

/-- **Inversion of a session's step.** -/
theorem step_move (h : s.step cap (p, a) = some (s', ev)) :
    ∃ ev₀, ev = ev₀.map (fun x => (p, x)) ∧ s.Move p a s' ev₀ := by
  have hput : ∀ {wire}, ((s.ep p).step a).map (s.put p wire) = some (s', ev) →
      ∃ e' ev₀, (s.ep p).Effect a e' ev₀ ∧ s' = ⟨Function.update s.ep p e', wire⟩ ∧
        ev = ev₀.map (fun x => (p, x)) := by
    intro wire h
    obtain ⟨⟨e', ev₀⟩, hs, hr⟩ := Option.map_eq_some_iff.mp h
    cases hr
    exact ⟨e', ev₀, Endpoint.step_effect hs, rfl, rfl⟩
  unfold step at h
  split at h
  · next q f heq =>
    cases heq
    split at h
    · next g rest hwire =>
      split at h
      · next hg =>
        subst hg
        obtain ⟨e', ev₀, he, rfl, rfl⟩ := hput h
        exact ⟨ev₀, rfl, move_read he hwire⟩
      · cases h
    · cases h
  · next q heq =>
    cases heq
    split at h
    · next f hf =>
      split at h
      · obtain ⟨e', ev₀, he, rfl, rfl⟩ := hput h
        exact ⟨ev₀, rfl, move_wrote he hf⟩
      · cases h
    · cases h
  · next q b hr hw heq =>
    cases heq
    obtain ⟨e', ev₀, he, rfl, rfl⟩ := hput h
    exact ⟨ev₀, rfl, move_local he hr hw⟩

/-! ## Starting a session -/

theorem afterHello_ok {l r : Hello} {role : Role} {e : Endpoint}
    (h : Endpoint.afterHello l role (helloFrame r) = .ok e) :
    ∃ n, negotiate l r = .ok n ∧ e = Endpoint.start n role := by
  simp only [Endpoint.afterHello, helloFrame, baseType_toU8, ne_eq, not_true_eq_false, if_false,
    Hello.decode_encode] at h
  cases hn : negotiate l r with
  | error err =>
    rw [hn] at h
    cases h
  | ok n =>
    rw [hn] at h
    cases h
    exact ⟨n, rfl, rfl⟩

/-- Both sides start from what they negotiated, with nothing on the transport. -/
theorem connect_ok {hello : Role → Hello} {s₀ : Sys} (h : connect hello = .ok s₀) (p : Role) :
    s₀.wire p = [] ∧ ∃ n, negotiate (hello p) (hello p.peer) = .ok n ∧
      s₀.ep p = Endpoint.start n p := by
  unfold connect at h
  split at h
  · next c s hc hs =>
    cases h
    cases p with
    | client => exact ⟨rfl, afterHello_ok hc⟩
    | server => exact ⟨rfl, afterHello_ok hs⟩
  · cases h
  · cases h

/-- Flow control is on at both sides or at none. -/
theorem connect_flowcontrolOn {hello : Role → Hello} {s₀ : Sys} (h : connect hello = .ok s₀)
    (p : Role) : (s₀.ep p.peer).flowcontrolOn = (s₀.ep p).flowcontrolOn := by
  obtain ⟨-, n, hn, hp⟩ := connect_ok h p
  obtain ⟨-, m, hm, hq⟩ := connect_ok h p.peer
  rw [Role.peer_peer] at hm
  rw [hp, hq]
  simp only [Endpoint.flowcontrolOn, Endpoint.start, negotiate_capabilities_comm hn hm]

/-- Both sides offer keepalive and flow control. -/
def offers : Role → Hello := fun _ => Hello.new 1 1 (CAP_KEEPALIVE ||| CAP_FLOWCONTROL)

/-- A session that takes the given actions and ends in a state with the given property. -/
theorem connect_reaches (hello : Role → Hello) (cap : Nat) (acts : List (Role × Act))
    (P : Sys → List (Taken Sys (Role × Act) (Role × Event)) → Sys → Prop)
    [∀ s₀ log s, Decidable (P s₀ log s)]
    (h : (connect hello).toOption.any (fun s₀ =>
      (exec (Sys.step cap) s₀ acts).any fun r => decide (P s₀ r.1 r.2)) = true) :
    ∃ s₀ log s, connect hello = .ok s₀ ∧ Exec (Sys.step cap) s₀ log s ∧ P s₀ log s := by
  cases hc : connect hello with
  | error err =>
    rw [hc] at h
    cases h
  | ok s₀ =>
    rw [hc] at h
    obtain ⟨log, s, hrun, hp⟩ := exec_reaches (Sys.step cap) s₀ acts (P s₀) h
    exact ⟨s₀, log, s, rfl, hrun, hp⟩

theorem wf_connect {hello : Role → Hello} {s₀ : Sys} (h : connect hello = .ok s₀) (p : Role) :
    (s₀.ep p).Wf := by
  obtain ⟨-, n, -, he⟩ := connect_ok h p
  rw [he]
  exact Endpoint.wf_start n p

/-! ## Runs -/

/-- The invariant rule for sessions, over what one side can do. The step case may use that the
state was reached. -/
theorem run_inv {P : List (Taken Sys (Role × Act) (Role × Event)) → Sys → Prop} {s₀ : Sys}
    {log : List (Taken Sys (Role × Act) (Role × Event))} (h0 : P [] s₀)
    (hstep : ∀ log s p a s' ev, Exec (Sys.step cap) s₀ log s → P log s → s.Move p a s' ev →
      P (log ++ [⟨s, (p, a), ev.map fun x => (p, x)⟩]) s')
    (hrun : Exec (Sys.step cap) s₀ log s) : P log s := by
  refine hrun.inv h0 fun log s a s' ev hr hp hs => ?_
  obtain ⟨ev₀, rfl, hm⟩ := step_move hs
  exact hstep log s a.1 a.2 s' ev₀ hr hp hm

/-! ## Sessions with traffic in one direction -/

/-- A session in which only the client's frames are under way. -/
def link (c s : Endpoint) (w : List Frame) : Sys where
  ep
    | .client => c
    | .server => s
  wire
    | .client => w
    | .server => []

variable {c c' e e' : Endpoint} {w : List Frame} {evs : List Event}

theorem eq_link (hc : s.ep .client = c) (he : s.ep .server = e) (hw : s.wire .client = w)
    (hw' : s.wire .server = []) : s = link c e w := by
  obtain ⟨ep, wire⟩ := s
  have h1 : ep = (link c e w).ep := by
    funext p
    cases p
    · exact hc
    · exact he
  have h2 : wire = (link c e w).wire := by
    funext p
    cases p
    · exact hw
    · exact hw'
  rw [h1, h2]

/-- An endpoint after two sides with `offers` have exchanged their hellos. -/
def offered (p : Role) : Endpoint :=
  Endpoint.start ⟨1, CAP_KEEPALIVE ||| CAP_FLOWCONTROL, DEFAULT_IDLE_TOLERANCE,
    DEFAULT_IDLE_TOLERANCE⟩ p

theorem connect_offers : connect offers = .ok (link (offered .client) (offered .server) []) := by
  have hafter : ∀ p q r, Endpoint.afterHello (offers p) q (helloFrame (offers r)) =
      .ok (offered q) := by
    intro p q r
    have hn : negotiate (offers p) (offers r) = .ok (offered q).negotiated :=
      (by decide : negotiate (offers .client) (offers .client) = .ok (offered .client).negotiated)
    simp only [Endpoint.afterHello, helloFrame, baseType_toU8, ne_eq, not_true_eq_false, if_false,
      Hello.decode_encode, hn]
    rfl
  simp only [connect, hafter]
  exact congrArg Except.ok (eq_link rfl rfl rfl rfl)

/-- The reader's `Data` branch on a registered stream. -/
theorem readerTake_data {f : Frame} {h : Nat} {st : Stream}
    (hr : e.reader = .idle) (hb : baseType f.ftype = FrameType.data.toU8)
    (hl : e.streams.lookup f.streamId = some h) (hst : e.objs[h]? = some st) :
    e.step (.readerTake f) =
      match st.refuses f.payload.length with
      | some cause => some (e.resetStream f.streamId, [.read f, .reset h cause])
      | none => some (e.modify h fun st => { st with
          buffered := st.buffered + f.payload.length
          rx := st.rx ++ [f.payload] }, [.read f]) := by
  have hty : ∀ ty : FrameType, ty ≠ .data → FrameType.data.toU8 ≠ ty.toU8 := by
    intro ty hne
    rw [ne_eq, FrameType.toU8_inj]
    exact Ne.symm hne
  simp only [Endpoint.step, Endpoint.readerTake, hr, if_true, Endpoint.onFrame, hb,
    hty .ping (by decide), hty .pong (by decide), hty .open (by decide), if_false, true_or,
    Endpoint.onData, hl, hst]
  cases st.refuses f.payload.length <;> rfl

/-- The reader's `Open` branch below the stream cap. -/
theorem readerTake_open {id : UInt32} {raw target : String} {kind : StreamKind}
    (hr : e.reader = .idle) (hcap : e.streams.entries.length < MAX_CONCURRENT_PEER_STREAMS)
    (hparse : parseOpenTarget raw = (kind, target)) :
    e.step (.readerTake (openFrame id raw)) = some ({ e with
        objs := e.objs ++ [newStream id target kind e.flowcontrolOn .inTransit]
        streams := e.streams.insert id e.objs.length
        reader := .delivering e.objs.length }, [.read (openFrame id raw)]) := by
  have hb : baseType (openFrame id raw).ftype = FrameType.open.toU8 := baseType_toU8 .open
  have hty : ∀ ty : FrameType, ty ≠ .open → FrameType.open.toU8 ≠ ty.toU8 := by
    intro ty hne
    rw [ne_eq, FrameType.toU8_inj]
    exact Ne.symm hne
  have hraw : fromUtf8Lossy (openFrame id raw).payload = raw := fromUtf8Lossy_utf8Bytes raw
  simp only [Endpoint.step, Endpoint.readerTake, hr, if_true, Endpoint.onFrame, hb,
    hty .ping (by decide), hty .pong (by decide), if_false, Endpoint.onOpen, hraw, hparse,
    Nat.not_le.mpr hcap]
  rfl

/-- The reader's `Open` branch at the stream cap. -/
theorem readerTake_open_cap {id : UInt32} {raw : String} (hr : e.reader = .idle)
    (hcap : MAX_CONCURRENT_PEER_STREAMS ≤ e.streams.entries.length) :
    e.step (.readerTake (openFrame id raw)) =
      some ({ e with reader := .closing }, [.read (openFrame id raw), .capAbort]) := by
  have hb : baseType (openFrame id raw).ftype = FrameType.open.toU8 := baseType_toU8 .open
  have hping : FrameType.open.toU8 ≠ FrameType.ping.toU8 := by decide
  have hpong : FrameType.open.toU8 ≠ FrameType.pong.toU8 := by decide
  simp only [Endpoint.step, Endpoint.readerTake, hr, if_true, Endpoint.onFrame, hb, hping, hpong,
    if_false, Endpoint.onOpen, hcap]

theorem link_client (hs : c.step a = some (c', evs)) (hr : ∀ f, a ≠ .readerTake f)
    (hw : a ≠ .writerWrote) :
    (link c e w).step cap (.client, a) = some (link c' e w, evs.map fun x => (.client, x)) := by
  have hstep : (link c e w).step cap (.client, a) =
      (c.step a).map ((link c e w).put .client (link c e w).wire) := by
    cases a with
    | readerTake f => exact absurd rfl (hr f)
    | writerWrote => exact absurd rfl hw
    | _ => rfl
  rw [hstep, hs, Option.map_some, put]
  exact congrArg (fun x => some (x, _)) (eq_link rfl rfl rfl rfl)

theorem link_server (hs : e.step a = some (e', evs)) (hr : ∀ f, a ≠ .readerTake f)
    (hw : a ≠ .writerWrote) :
    (link c e w).step cap (.server, a) = some (link c e' w, evs.map fun x => (.server, x)) := by
  have hstep : (link c e w).step cap (.server, a) =
      (e.step a).map ((link c e w).put .server (link c e w).wire) := by
    cases a with
    | readerTake f => exact absurd rfl (hr f)
    | writerWrote => exact absurd rfl hw
    | _ => rfl
  rw [hstep, hs, Option.map_some, put]
  exact congrArg (fun x => some (x, _)) (eq_link rfl rfl rfl rfl)

theorem link_write {f : Frame} (hf : c.writer = .writing f) (hcap : w.length < cap) :
    (link c e w).step cap (.client, .writerWrote) =
      some (link { c with writer := .idle } e (w ++ [f]), []) := by
  have hc : (link c e w).ep .client = c := rfl
  have hwire : (link c e w).wire .client = w := rfl
  simp only [step, hc, hf, hwire, hcap, if_true, Endpoint.step, Endpoint.writerWrote,
    Option.map_some, put, List.map_nil]
  exact congrArg (fun x => some (x, [])) (eq_link rfl rfl rfl rfl)

theorem link_read {f : Frame} (hs : e.step (.readerTake f) = some (e', evs)) :
    (link c e (f :: w)).step cap (.server, .readerTake f) =
      some (link c e' w, evs.map fun x => (.server, x)) := by
  have he : (link c e (f :: w)).ep .server = e := rfl
  have hwire : (link c e (f :: w)).wire Role.server.peer = f :: w := rfl
  simp only [step, he, hwire, hs, if_true, Option.map_some, put]
  exact congrArg (fun x => some (x, _)) (eq_link rfl rfl rfl rfl)

end Sys

end Leshiy.Mux
