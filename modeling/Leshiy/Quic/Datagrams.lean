import Leshiy.Lib.Lossy
import Leshiy.Lib.QuicVarint
import Leshiy.Quic.OpenConnect

/-!
# UDP associations over HTTP datagrams

The two ends of one QUIC connection: `open_datagram` and `QuicDatagramFlow` (`leshiy-quic/src/client.rs`),
`tunnel_udp` (`server.rs`), and at both ends the table and the `demux_loop` of `dgram.rs`. A request stream
names an association; QUIC carries the datagrams of all of them, and may lose and reorder them.

The exit answers with 200 before it registers the association, and the client registers it when it has read
that answer. A datagram that finds no association in the table, or a full channel, is dropped. A
`send_datagram` that fails sends nothing and is no step.
-/

namespace Leshiy.Quic

open Leshiy.Lib

/-- `h3_datagram`: the quarter stream id of the request stream, then the payload. A client numbers its request
streams in steps of four, and there are `2 ^ 60` of them at most. -/
structure HttpDatagram where
  encode : StreamId → List UInt8 → List UInt8
  decode : List UInt8 → Option (StreamId × List UInt8)
  decode_encode : ∀ n payload, n < 2 ^ 60 → decode (encode (4 * n) payload) = some (4 * n, payload)

/-- What `Datagram::encode` and `decode` do for the ids of request streams. -/
def quarterStreamId : HttpDatagram where
  encode id payload := QuicVarint.encode (id / 4) ++ payload
  decode raw := (QuicVarint.decode raw).map fun r => (4 * r.1, r.2)
  decode_encode n payload h := by
    rw [Nat.mul_div_cancel_left n (by decide),
      QuicVarint.decode_encode (h.trans (by decide)) payload, Option.map_some]

namespace Datagrams

inductive End where
  | client
  | exit
  deriving DecidableEq, Repr

def End.peer : End → End
  | .client => .exit
  | .exit => .client

/-- Where one end is with a request stream. -/
inductive Stage where
  | absent
  /-- The request is sent, and the exit opens its UDP egress. -/
  | opening
  /-- The exit has answered 502. -/
  | refused
  /-- The exit has sent 200, or the client has read it; `register` comes next. -/
  | answered
  | live
  /-- `recv` has returned `None`, or the `select!` of `tunnel_udp` is over. -/
  | ended
  /-- The flow is dropped, or `tunnel_udp` has returned. -/
  | gone
  deriving DecidableEq, Repr

/-- `inbound` is the queue of the channel, as long as its receiver is there. -/
structure Assoc where
  stage : Stage
  registered : Bool
  inbound : Option (List (List UInt8))
  deriving DecidableEq, Repr

/-- Where `demux_loop` is: `found` holds the sender that it has cloned out of the table. -/
inductive Demux where
  | reading
  | decoded (id : StreamId) (payload : List UInt8)
  | found (id : StreamId) (payload : List UInt8)
  | stopped
  deriving DecidableEq, Repr

structure Half where
  assocs : StreamId → Assoc
  demux : Demux
  /-- QUIC datagrams on their way to this end. -/
  arriving : List (List UInt8)

structure Conn where
  ends : End → Half
  /-- How many request streams the client has opened. -/
  streams : Nat
  closed : Bool

inductive Drop where
  | unknown
  | full
  | closed
  | unread
  deriving DecidableEq, Repr

inductive Event where
  | sent (src : End) (id : StreamId) (payload : List UInt8)
  | lost (dest : End) (raw : List UInt8)
  | dropped (dest : End) (id : StreamId) (payload : List UInt8) (why : Drop)
  | handed (dest : End) (id : StreamId) (payload : List UInt8)
  deriving DecidableEq, Repr

inductive Act where
  | request (udp : Bool)
  | answer (id : StreamId) (opened : Bool)
  | response (id : StreamId)
  | register (e : End) (id : StreamId)
  | send (e : End) (id : StreamId) (payload : List UInt8)
  | lose (e : End) (i : Nat)
  | read (e : End) (i : Nat)
  | lookup (e : End)
  | trySend (e : End)
  | recv (e : End) (id : StreamId)
  | finish (e : End) (id : StreamId)
  | deregister (e : End) (id : StreamId)
  | drop (e : End) (id : StreamId)
  | close
  | stop (e : End)
  deriving DecidableEq, Repr

/-- The capacity of the channel that `register` makes. -/
def CHANNEL : Nat := 256

/-- `send` of a flow works until the flow is dropped, the download of the exit until the `select!` is over. -/
def Stage.sends : End → Stage → Bool
  | _, .live => true
  | .client, .ended => true
  | _, _ => false

/-- What the client makes of the exit's answer. -/
def Stage.response : Stage → Option Stage
  | .absent | .opening => none
  | .refused => some .refused
  | .answered | .live | .ended | .gone => some .answered

namespace Conn

def new : Conn := ⟨fun _ => ⟨fun _ => ⟨.absent, false, none⟩, .reading, []⟩, 0, false⟩

def setHalf (c : Conn) (e : End) (h : Half) : Conn := { c with ends := Function.update c.ends e h }

def assoc (c : Conn) (e : End) (id : StreamId) : Assoc := (c.ends e).assocs id

def setAssoc (c : Conn) (e : End) (id : StreamId) (a : Assoc) : Conn :=
  c.setHalf e { c.ends e with assocs := Function.update (c.ends e).assocs id a }

/-- The channel goes with what is in it. -/
def unread (e : End) (id : StreamId) (a : Assoc) : List Event :=
  (a.inbound.getD []).map fun p => .dropped e id p .unread

def step (dg : HttpDatagram) (c : Conn) : Act → Option (Conn × List Event)
  | .request udp =>
    if c.closed || c.streams == 2 ^ 60 then none
    else
      let id := 4 * c.streams
      let c' := { c with streams := c.streams + 1 }
      if udp then
        some ((c'.setAssoc .client id ⟨.opening, false, none⟩).setAssoc .exit id ⟨.opening, false, none⟩, [])
      else some (c', [])
  | .answer id opened =>
    let a := c.assoc .exit id
    if c.closed || a.stage != .opening then none
    else some (c.setAssoc .exit id { a with stage := if opened then .answered else .refused }, [])
  | .response id =>
    let a := c.assoc .client id
    if a.stage != .opening then none
    else
      match (c.assoc .exit id).stage.response with
      | none => none
      | some stage => some (c.setAssoc .client id { a with stage }, [])
  | .register e id =>
    if (c.assoc e id).stage != .answered then none
    else some (c.setAssoc e id ⟨.live, true, some []⟩, [])
  | .send e id payload =>
    if c.closed || !(c.assoc e id).stage.sends e then none
    else
      let h := c.ends e.peer
      some (c.setHalf e.peer { h with arriving := h.arriving ++ [dg.encode id payload] },
        [.sent e id payload])
  | .lose e i =>
    let h := c.ends e
    match h.arriving[i]? with
    | none => none
    | some raw => some (c.setHalf e { h with arriving := h.arriving.eraseIdx i }, [.lost e raw])
  | .read e i =>
    let h := c.ends e
    match h.demux, h.arriving[i]? with
    | .reading, some raw =>
      let arriving := h.arriving.eraseIdx i
      match dg.decode raw with
      | none => some (c.setHalf e { h with arriving }, [])
      | some (id, payload) => some (c.setHalf e { h with arriving, demux := .decoded id payload }, [])
    | _, _ => none
  | .lookup e =>
    let h := c.ends e
    match h.demux with
    | .decoded id payload =>
      if (h.assocs id).registered then some (c.setHalf e { h with demux := .found id payload }, [])
      else some (c.setHalf e { h with demux := .reading }, [.dropped e id payload .unknown])
    | _ => none
  | .trySend e =>
    let h := c.ends e
    match h.demux with
    | .found id payload =>
      let a := h.assocs id
      let c' := c.setHalf e { h with demux := .reading }
      match a.inbound with
      | none => some (c', [.dropped e id payload .closed])
      | some queue =>
        if queue.length < CHANNEL then
          some (c'.setAssoc e id { a with inbound := some (queue ++ [payload]) }, [])
        else some (c', [.dropped e id payload .full])
    | _ => none
  | .recv e id =>
    let a := c.assoc e id
    match a.stage, a.inbound with
    | .live, some (payload :: queue) =>
      some (c.setAssoc e id { a with inbound := some queue }, [.handed e id payload])
    | _, _ => none
  | .finish e id =>
    let a := c.assoc e id
    if a.stage != .live then none
    else
      match e with
      -- `recv` closes the channel
      | .client => some (c.setAssoc e id { a with stage := .ended, inbound := none }, unread e id a)
      | .exit => some (c.setAssoc e id { a with stage := .ended }, [])
  | .deregister e id =>
    let a := c.assoc e id
    if a.stage == .ended || a.stage == .gone then some (c.setAssoc e id { a with registered := false }, [])
    else none
  | .drop e id =>
    let a := c.assoc e id
    let leaves : Bool :=
      match e with
      | .client => a.stage == .live || a.stage == .ended
      | .exit => a.stage == .ended && !a.registered
    if leaves then some (c.setAssoc e id { a with stage := .gone, inbound := none }, unread e id a) else none
  | .close => if c.closed then none else some ({ c with closed := true }, [])
  | .stop e =>
    let h := c.ends e
    match h.demux with
    | .reading =>
      if c.closed then
        let assocs := fun id => { h.assocs id with registered := false }
        some (c.setHalf e { h with assocs, demux := .stopped }, [])
      else none
    | _ => none

/-! ## What a step can do -/

/-- An association is numbered like a request stream of the client, and has a channel only between
`register` and the end of its receiver. -/
structure Inv (c : Conn) : Prop where
  streams : c.streams ≤ 2 ^ 60
  id : ∀ e id, (c.assoc e id).stage ≠ .absent → ∃ n < c.streams, id = 4 * n
  inbound : ∀ e id, (c.assoc e id).inbound ≠ none →
    (c.assoc e id).stage = .live ∨ (c.assoc e id).stage = .ended

/-- Everything a step can do. -/
inductive Effect (dg : HttpDatagram) (c : Conn) : Act → Conn → List Event → Prop
  | associate (hstreams : c.streams < 2 ^ 60) :
      Effect dg c (.request true)
        (({ c with streams := c.streams + 1 }.setAssoc .client (4 * c.streams) ⟨.opening, false, none⟩).setAssoc
          .exit (4 * c.streams) ⟨.opening, false, none⟩) []
  | connect (hstreams : c.streams < 2 ^ 60) :
      Effect dg c (.request false) { c with streams := c.streams + 1 } []
  | enter {act : Act} {e : End} {id : StreamId} {a : Assoc} (hpresent : (c.assoc e id).stage ≠ .absent)
      (hstage : a.stage ≠ .absent) (hinbound : a.inbound ≠ none → a.stage = .live ∨ a.stage = .ended)
      (hqueue : a.inbound.getD [] = (c.assoc e id).inbound.getD []) :
      Effect dg c act (c.setAssoc e id a) []
  | send {e : End} {id : StreamId} {payload : List UInt8} (hpresent : (c.assoc e id).stage ≠ .absent) :
      Effect dg c (.send e id payload)
        (c.setHalf e.peer
          { c.ends e.peer with arriving := (c.ends e.peer).arriving ++ [dg.encode id payload] })
        [.sent e id payload]
  | lose {e : End} {i : Nat} {raw : List UInt8} (hraw : (c.ends e).arriving[i]? = some raw) :
      Effect dg c (.lose e i)
        (c.setHalf e { c.ends e with arriving := (c.ends e).arriving.eraseIdx i }) [.lost e raw]
  | malformed {e : End} {i : Nat} {raw : List UInt8} (hraw : (c.ends e).arriving[i]? = some raw)
      (hdecode : dg.decode raw = none) :
      Effect dg c (.read e i)
        (c.setHalf e { c.ends e with arriving := (c.ends e).arriving.eraseIdx i }) []
  | take {e : End} {i : Nat} {raw payload : List UInt8} {id : StreamId}
      (hdemux : (c.ends e).demux = .reading) (hraw : (c.ends e).arriving[i]? = some raw)
      (hdecode : dg.decode raw = some (id, payload)) :
      Effect dg c (.read e i)
        (c.setHalf e
          { c.ends e with arriving := (c.ends e).arriving.eraseIdx i, demux := .decoded id payload }) []
  | find {e : End} {id : StreamId} {payload : List UInt8} (hdemux : (c.ends e).demux = .decoded id payload) :
      Effect dg c (.lookup e) (c.setHalf e { c.ends e with demux := .found id payload }) []
  | refuse {act : Act} {e : End} {id : StreamId} {payload : List UInt8} {why : Drop}
      (hdemux : (c.ends e).demux = .decoded id payload ∨ (c.ends e).demux = .found id payload) :
      Effect dg c act (c.setHalf e { c.ends e with demux := .reading }) [.dropped e id payload why]
  | accept {e : End} {id : StreamId} {payload : List UInt8} {queue : List (List UInt8)}
      (hdemux : (c.ends e).demux = .found id payload) (hinbound : (c.assoc e id).inbound = some queue)
      (hroom : queue.length < CHANNEL) :
      Effect dg c (.trySend e)
        ((c.setHalf e { c.ends e with demux := .reading }).setAssoc e id
          { c.assoc e id with inbound := some (queue ++ [payload]) }) []
  | hand {e : End} {id : StreamId} {payload : List UInt8} {queue : List (List UInt8)}
      (hstage : (c.assoc e id).stage = .live) (hinbound : (c.assoc e id).inbound = some (payload :: queue)) :
      Effect dg c (.recv e id) (c.setAssoc e id { c.assoc e id with inbound := some queue })
        [.handed e id payload]
  | abandon {act : Act} {e : End} {id : StreamId} {stage : Stage}
      (hpresent : (c.assoc e id).stage ≠ .absent) (hstage : stage ≠ .absent) :
      Effect dg c act (c.setAssoc e id { c.assoc e id with stage, inbound := none })
        (unread e id (c.assoc e id))
  | close : Effect dg c .close { c with closed := true } []
  | stop {e : End} (hdemux : (c.ends e).demux = .reading) :
      Effect dg c (.stop e)
        (c.setHalf e
          { c.ends e with
            assocs := fun id => { (c.ends e).assocs id with registered := false }, demux := .stopped }) []

variable {dg : HttpDatagram} {c c' : Conn} {a : Act} {ev : List Event}

theorem present_of_sends {e : End} {id : StreamId} (h : (c.assoc e id).stage.sends e = true) :
    (c.assoc e id).stage ≠ .absent := by
  intro habsent
  rw [habsent] at h
  cases e <;> cases h

theorem step_effect (hi : c.Inv) (h : step dg c a = some (c', ev)) : Effect dg c a c' ev := by
  cases a with
  | request udp =>
    simp only [step, Option.ite_none_left_eq_some, Bool.or_eq_true, not_or, beq_iff_eq] at h
    obtain ⟨⟨-, hne⟩, h⟩ := h
    have hlt : c.streams < 2 ^ 60 := Nat.lt_of_le_of_ne hi.streams hne
    cases udp <;> cases h
    · exact .connect hlt
    · exact .associate hlt
  | answer id opened =>
    simp only [step, Option.ite_none_left_eq_some, Bool.or_eq_true, not_or, bne_iff_ne, not_not] at h
    obtain ⟨⟨-, hstage⟩, h⟩ := h
    cases h
    refine .enter (by simp [hstage]) (by cases opened <;> simp) (fun hne => ?_) rfl
    have := hi.inbound .exit id hne
    simp [hstage] at this
  | response id =>
    simp only [step, Option.ite_none_left_eq_some, bne_iff_ne, not_not] at h
    obtain ⟨hstage, h⟩ := h
    cases hresp : (c.assoc .exit id).stage.response with
    | none => simp [hresp] at h
    | some stage =>
      rw [hresp] at h
      cases h
      refine .enter (by simp [hstage]) ?_ (fun hne => ?_) rfl
      · rintro rfl
        cases hexit : (c.assoc .exit id).stage <;> simp [hexit, Stage.response] at hresp
      · have := hi.inbound .client id hne
        simp [hstage] at this
  | register e id =>
    simp only [step, Option.ite_none_left_eq_some, bne_iff_ne, not_not] at h
    obtain ⟨hstage, h⟩ := h
    cases h
    refine .enter (by simp [hstage]) (by simp) (fun _ => .inl rfl) ?_
    cases hq : (c.assoc e id).inbound with
    | none => rfl
    | some q =>
      have := hi.inbound e id (by simp [hq])
      simp [hstage] at this
  | send e id payload =>
    simp only [step, Option.ite_none_left_eq_some, Bool.or_eq_true, not_or, Bool.not_eq_true',
      Bool.not_eq_false] at h
    obtain ⟨⟨-, hsends⟩, h⟩ := h
    cases h
    exact .send (present_of_sends hsends)
  | lose e i =>
    simp only [step] at h
    split at h
    · cases h
    next raw hraw =>
    cases h
    exact .lose hraw
  | read e i =>
    simp only [step] at h
    split at h
    next raw hdemux hraw =>
      split at h
      · next hdecode =>
        cases h
        exact .malformed hraw hdecode
      · next id payload hdecode =>
        cases h
        exact .take hdemux hraw hdecode
    next => cases h
  | lookup e =>
    simp only [step] at h
    split at h
    next id payload hdemux =>
      split at h
      · cases h
        exact .find hdemux
      · cases h
        exact .refuse (.inl hdemux)
    next => cases h
  | trySend e =>
    simp only [step] at h
    split at h
    next id payload hdemux =>
      split at h
      · cases h
        exact .refuse (.inr hdemux)
      · next queue hinbound =>
        split at h
        · next hroom =>
          cases h
          exact .accept hdemux hinbound hroom
        · cases h
          exact .refuse (.inr hdemux)
    next => cases h
  | recv e id =>
    simp only [step] at h
    split at h
    next payload queue hstage hinbound =>
      cases h
      exact .hand hstage hinbound
    next => cases h
  | finish e id =>
    simp only [step, Option.ite_none_left_eq_some, bne_iff_ne, not_not] at h
    obtain ⟨hstage, h⟩ := h
    cases e <;> cases h
    · exact .abandon (by simp [hstage]) (by simp)
    · exact .enter (by simp [hstage]) (by simp) (fun _ => .inr rfl) rfl
  | deregister e id =>
    simp only [step, Option.ite_none_right_eq_some, Bool.or_eq_true, beq_iff_eq] at h
    obtain ⟨hstage, h⟩ := h
    cases h
    have hpresent : (c.assoc e id).stage ≠ .absent := by
      rcases hstage with h | h <;> simp [h]
    exact .enter hpresent hpresent (hi.inbound e id) rfl
  | drop e id =>
    simp only [step, Option.ite_none_right_eq_some] at h
    obtain ⟨hleaves, h⟩ := h
    cases h
    refine .abandon (fun habsent => ?_) (by simp)
    cases e <;> simp [habsent] at hleaves
  | close =>
    simp only [step, Option.ite_none_left_eq_some] at h
    obtain ⟨-, h⟩ := h
    cases h
    exact .close
  | stop e =>
    simp only [step] at h
    split at h
    next hdemux =>
      simp only [Option.ite_none_right_eq_some] at h
      obtain ⟨-, h⟩ := h
      cases h
      exact .stop hdemux
    next => cases h

/-! ## The invariant -/

@[simp] theorem streams_setHalf {e : End} {h : Half} : (c.setHalf e h).streams = c.streams := rfl

@[simp] theorem streams_setAssoc {e : End} {id : StreamId} {x : Assoc} :
    (c.setAssoc e id x).streams = c.streams := rfl

theorem assoc_setHalf {e : End} {h : Half} (hassocs : h.assocs = (c.ends e).assocs) (e' : End)
    (id : StreamId) : (c.setHalf e h).assoc e' id = c.assoc e' id := by
  unfold assoc setHalf
  by_cases he : e' = e
  · subst he
    simp [hassocs]
  · simp [he]

theorem assoc_setAssoc (e e' : End) (id id' : StreamId) (x : Assoc) :
    (c.setAssoc e id x).assoc e' id' = if e' = e ∧ id' = id then x else c.assoc e' id' := by
  unfold assoc setAssoc setHalf
  by_cases he : e' = e
  · subst he
    by_cases hid : id' = id
    · subst hid
      simp
    · simp [hid]
  · simp [he]

theorem setAssoc_setHalf (e : End) (id : StreamId) (h : Half) (x : Assoc) :
    (c.setHalf e h).setAssoc e id x = c.setHalf e { h with assocs := Function.update h.assocs id x } := by
  simp [setAssoc, setHalf]

/-- What the invariant speaks of stays, or there is one request stream more. -/
theorem Inv.congr (hi : c.Inv) (hle : c.streams ≤ c'.streams) (hmax : c'.streams ≤ 2 ^ 60)
    (hassoc : ∀ e id, (c'.assoc e id).stage = (c.assoc e id).stage ∧
      (c'.assoc e id).inbound = (c.assoc e id).inbound) : c'.Inv where
  streams := hmax
  id e id hne := by
    rw [(hassoc e id).1] at hne
    obtain ⟨n, hn, rfl⟩ := hi.id e id hne
    exact ⟨n, hn.trans_le hle, rfl⟩
  inbound e id hne := by
    rw [(hassoc e id).2] at hne
    rw [(hassoc e id).1]
    exact hi.inbound e id hne

theorem Inv.setHalf (hi : c.Inv) {e : End} {h : Half} (hassocs : h.assocs = (c.ends e).assocs) :
    (c.setHalf e h).Inv :=
  hi.congr le_rfl hi.streams fun e' id => by simp [assoc_setHalf hassocs]

theorem Inv.setAssoc (hi : c.Inv) {e : End} {id : StreamId} {x : Assoc}
    (hid : ∃ n < c.streams, id = 4 * n)
    (hinbound : x.inbound ≠ none → x.stage = .live ∨ x.stage = .ended) : (c.setAssoc e id x).Inv where
  streams := hi.streams
  id e' id' hne := by
    rw [assoc_setAssoc] at hne
    split at hne
    · next heq => exact heq.2 ▸ hid
    · exact hi.id e' id' hne
  inbound e' id' := by
    rw [assoc_setAssoc]
    split
    · exact hinbound
    · exact hi.inbound e' id'

theorem inv_new : new.Inv where
  streams := Nat.zero_le _
  id _ _ h := absurd rfl h
  inbound _ _ h := absurd rfl h

theorem Inv.step (hi : c.Inv) (h : step dg c a = some (c', ev)) : c'.Inv := by
  cases step_effect hi h with
  | associate hstreams =>
    have hmore : ({ c with streams := c.streams + 1 } : Conn).Inv :=
      hi.congr (Nat.le_succ _) hstreams fun _ _ => ⟨rfl, rfl⟩
    have hid : ∃ n < c.streams + 1, 4 * c.streams = 4 * n := ⟨c.streams, Nat.lt_succ_self _, rfl⟩
    exact (hmore.setAssoc hid fun hne => absurd rfl hne).setAssoc hid fun hne => absurd rfl hne
  | connect hstreams => exact hi.congr (Nat.le_succ _) hstreams fun _ _ => ⟨rfl, rfl⟩
  | enter hpresent _ hinbound => exact hi.setAssoc (hi.id _ _ hpresent) hinbound
  | send => exact hi.setHalf rfl
  | lose => exact hi.setHalf rfl
  | malformed => exact hi.setHalf rfl
  | take => exact hi.setHalf rfl
  | find => exact hi.setHalf rfl
  | refuse => exact hi.setHalf rfl
  | @accept e id payload queue hdemux hinbound =>
    have hsome : (c.assoc e id).inbound ≠ none := by simp [hinbound]
    have hlive := hi.inbound e id hsome
    have hpresent : (c.assoc e id).stage ≠ .absent := by rcases hlive with h | h <;> simp [h]
    have hreading : (c.setHalf e { c.ends e with demux := .reading }).Inv := hi.setHalf rfl
    refine hreading.setAssoc (hi.id e id hpresent) ?_
    exact fun _ => hlive
  | @hand e id payload queue hstage =>
    exact hi.setAssoc (hi.id e id (by simp [hstage])) fun _ => .inl hstage
  | abandon hpresent => exact hi.setAssoc (hi.id _ _ hpresent) fun hne => absurd rfl hne
  | close => exact hi.congr le_rfl hi.streams fun _ _ => ⟨rfl, rfl⟩
  | @stop e =>
    refine hi.congr le_rfl hi.streams fun e' id => ?_
    unfold assoc Conn.setHalf
    by_cases he : e' = e
    · subst he
      simp
    · simp [he]

theorem inv_run {log : List (Taken Conn Act Event)} (h : Exec (step dg) new log c) : c.Inv :=
  h.state_inv inv_new fun _ _ _ _ hi hs => hi.step hs

end Conn

/-! ## Each association is a channel of its own -/

section

variable (dg : HttpDatagram) (e : End) (id : StreamId)

/-- The payload, if the datagram belongs to the association. -/
def payloadOf (raw : List UInt8) : Option (List UInt8) :=
  match dg.decode raw with
  | some (id', payload) => if id' = id then some payload else none
  | none => none

def Demux.payload : Demux → Option (List UInt8)
  | .decoded id' payload | .found id' payload => if id' = id then some payload else none
  | .reading | .stopped => none

/-- What one end still has to make of the datagrams of one association. -/
def Half.lane (h : Half) : Lossy (List UInt8) :=
  ⟨h.arriving.filterMap (payloadOf dg id), h.demux.payload id, (h.assocs id).inbound.getD []⟩

/-- Sent to this end. -/
def Event.sentTo : Event → Option (List UInt8)
  | .sent src id' payload => if src.peer = e ∧ id' = id then some payload else none
  | _ => none

def Event.handedAt : Event → Option (List UInt8)
  | .handed dest id' payload => if dest = e ∧ id' = id then some payload else none
  | _ => none

/-- Lost on the way to this end, or dropped by it. -/
def Event.goneAt : Event → Option (List UInt8)
  | .lost dest raw => if dest = e then payloadOf dg id raw else none
  | .dropped dest id' payload _ => if dest = e ∧ id' = id then some payload else none
  | _ => none

end

/-- The network does not reorder: the datagram read is the one that was sent first. -/
def Act.InOrder : Act → Prop
  | .read _ i => i = 0
  | _ => True

instance (a : Act) : Decidable a.InOrder := by
  cases a <;> unfold Act.InOrder <;> infer_instance

variable {dg : HttpDatagram} {c c' : Conn} {a : Act} {ev : List Event} {fifo : Prop}

/-- What becomes of one channel in a step. -/
def Moves (fifo : Prop) (dg : HttpDatagram) (e : End) (id : StreamId) (h h' : Half) (ev : List Event) : Prop :=
  Lossy.Step CHANNEL fifo (h.lane dg id) (ev.filterMap (Event.sentTo e id))
    (ev.filterMap (Event.handedAt e id)) (ev.filterMap (Event.goneAt dg e id)) (h'.lane dg id)

/-- The end that an event is about. -/
def Event.dest : Event → End
  | .sent src _ _ => src.peer
  | .lost dest _ | .dropped dest _ _ _ | .handed dest _ _ => dest

theorem moves_other {e e' : End} {id : StreamId} {h : Half} (hev : ∀ x ∈ ev, x.dest = e') (hne : e ≠ e') :
    Moves fifo dg e id h h ev := by
  have hnone : ∀ x ∈ ev, x.sentTo e id = none ∧ x.handedAt e id = none ∧ x.goneAt dg e id = none := by
    intro x hx
    have hdest : x.dest ≠ e := hev x hx ▸ hne.symm
    cases x <;> simp_all [Event.dest, Event.sentTo, Event.handedAt, Event.goneAt]
  unfold Moves
  rw [List.filterMap_eq_nil_iff.mpr fun x hx => (hnone x hx).1,
    List.filterMap_eq_nil_iff.mpr fun x hx => (hnone x hx).2.1,
    List.filterMap_eq_nil_iff.mpr fun x hx => (hnone x hx).2.2]
  exact .idle

/-- A step of one end leaves the channels to the other alone. -/
theorem moves_setHalf {e' : End} {h' : Half} (hev : ∀ x ∈ ev, x.dest = e')
    (hmoves : ∀ id, Moves fifo dg e' id (c.ends e') h' ev) (e : End) (id : StreamId) :
    Moves fifo dg e id (c.ends e) ((c.setHalf e' h').ends e) ev := by
  by_cases he : e = e'
  · subst he
    simpa [Conn.setHalf] using hmoves id
  · simpa [Conn.setHalf, he] using moves_other hev he

/-- Taking a datagram off the way takes it off the way of its own association. -/
theorem filterMap_eraseIdx {α β : Type} (f : α → Option β) {l : List α} {i : Nat} {x : α} (h : l[i]? = some x) :
    ∃ before after, l.filterMap f = before ++ (f x).toList ++ after ∧
      (l.eraseIdx i).filterMap f = before ++ after ∧ (i = 0 → before = []) := by
  obtain ⟨hlt, hget⟩ := List.getElem?_eq_some_iff.mp h
  refine ⟨(l.take i).filterMap f, (l.drop (i + 1)).filterMap f, ?_, ?_, ?_⟩
  · conv_lhs => rw [← List.take_append_drop i l, List.drop_eq_getElem_cons hlt, hget]
    rw [List.filterMap_append, List.filterMap_cons, List.append_assoc]
    cases f x <;> rfl
  · rw [List.eraseIdx_eq_take_drop_succ, List.filterMap_append]
  · rintro rfl
    rfl

theorem lane_setAssoc (h : Half) (id id' : StreamId) (x : Assoc) :
    Half.lane dg id' { h with assocs := Function.update h.assocs id x } =
      if id' = id then { h.lane dg id' with inbox := x.inbound.getD [] } else h.lane dg id' := by
  by_cases hid : id' = id
  · subst hid
    simp [Half.lane]
  · simp [Half.lane, hid]

/-- An association other than the one that an event names is left alone. -/
theorem moves_setAssoc {e : End} {id : StreamId} {h : Half} {x : Assoc}
    (hev : ∀ y ∈ ev, ∀ id', id' ≠ id →
      y.sentTo e id' = none ∧ y.handedAt e id' = none ∧ y.goneAt dg e id' = none)
    (hmoves : Lossy.Step CHANNEL fifo (h.lane dg id) (ev.filterMap (Event.sentTo e id))
      (ev.filterMap (Event.handedAt e id)) (ev.filterMap (Event.goneAt dg e id))
      { h.lane dg id with inbox := x.inbound.getD [] }) (id' : StreamId) :
    Moves fifo dg e id' h { h with assocs := Function.update h.assocs id x } ev := by
  unfold Moves
  rw [lane_setAssoc]
  by_cases hid : id' = id
  · subst hid
    rwa [if_pos rfl]
  · rw [if_neg hid, List.filterMap_eq_nil_iff.mpr fun y hy => (hev y hy id' hid).1,
      List.filterMap_eq_nil_iff.mpr fun y hy => (hev y hy id' hid).2.1,
      List.filterMap_eq_nil_iff.mpr fun y hy => (hev y hy id' hid).2.2]
    exact .idle

theorem payloadOf_encode {n : Nat} (hn : n < 2 ^ 60) (id : StreamId) (payload : List UInt8) :
    payloadOf dg id (dg.encode (4 * n) payload) = if 4 * n = id then some payload else none := by
  simp [payloadOf, dg.decode_encode n payload hn]

section

variable {h : Half} {e : End} {id id' : StreamId} {i : Nat} {raw payload : List UInt8}

theorem moves_send {n : Nat} (hn : n < 2 ^ 60) :
    Moves fifo dg e.peer id h { h with arriving := h.arriving ++ [dg.encode (4 * n) payload] }
      [.sent e (4 * n) payload] := by
  have hencode : [dg.encode (4 * n) payload].filterMap (payloadOf dg id) =
      if 4 * n = id then [payload] else [] := by
    rw [List.filterMap_cons, payloadOf_encode hn]
    by_cases hid : 4 * n = id <;> simp [hid]
  unfold Moves Half.lane
  rw [List.filterMap_append, hencode]
  by_cases hid : 4 * n = id
  · simpa [hid, List.filterMap_cons, Event.sentTo, Event.handedAt, Event.goneAt] using Lossy.Step.put payload
  · simpa [hid, List.filterMap_cons, Event.sentTo, Event.handedAt, Event.goneAt] using Lossy.Step.idle

theorem moves_lose (hraw : h.arriving[i]? = some raw) :
    Moves fifo dg e id h { h with arriving := h.arriving.eraseIdx i } [.lost e raw] := by
  obtain ⟨before, after, hfull, herased, -⟩ := filterMap_eraseIdx (payloadOf dg id) hraw
  unfold Moves Half.lane
  rw [hfull, herased]
  cases hp : payloadOf dg id raw with
  | none => simpa [hp, List.filterMap_cons, Event.sentTo, Event.handedAt, Event.goneAt] using Lossy.Step.idle
  | some p => simpa [hp, List.filterMap_cons, Event.sentTo, Event.handedAt, Event.goneAt] using Lossy.Step.lose

theorem moves_malformed (hraw : h.arriving[i]? = some raw) (hdecode : dg.decode raw = none) :
    Moves fifo dg e id h { h with arriving := h.arriving.eraseIdx i } [] := by
  obtain ⟨before, after, hfull, herased, -⟩ := filterMap_eraseIdx (payloadOf dg id) hraw
  have hp : payloadOf dg id raw = none := by simp [payloadOf, hdecode]
  unfold Moves Half.lane
  rw [hfull, herased, hp, Option.toList_none, List.append_nil]
  exact .idle

theorem moves_take (hdemux : h.demux = .reading) (hraw : h.arriving[i]? = some raw)
    (hdecode : dg.decode raw = some (id', payload)) (hfirst : fifo → i = 0) :
    Moves fifo dg e id h
      { h with arriving := h.arriving.eraseIdx i, demux := .decoded id' payload } [] := by
  obtain ⟨before, after, hfull, herased, hbefore⟩ := filterMap_eraseIdx (payloadOf dg id) hraw
  have hp : payloadOf dg id raw = if id' = id then some payload else none := by simp [payloadOf, hdecode]
  unfold Moves Half.lane
  rw [hfull, herased, hp, hdemux]
  by_cases hid : id' = id
  · simpa [hid, Demux.payload] using Lossy.Step.take fun hfifo => hbefore (hfirst hfifo)
  · simpa [hid, Demux.payload] using Lossy.Step.idle

theorem moves_refuse {why : Drop}
    (hdemux : h.demux = .decoded id' payload ∨ h.demux = .found id' payload) :
    Moves fifo dg e id h { h with demux := .reading } [.dropped e id' payload why] := by
  have hheld : h.demux.payload id = if id' = id then some payload else none := by
    rcases hdemux with h | h <;> rw [h] <;> rfl
  unfold Moves Half.lane
  rw [hheld]
  by_cases hid : id' = id
  · simpa [hid, Demux.payload, List.filterMap_cons, Event.sentTo, Event.handedAt, Event.goneAt] using
      Lossy.Step.refuse
  · simpa [hid, Demux.payload, List.filterMap_cons, Event.sentTo, Event.handedAt, Event.goneAt] using
      Lossy.Step.idle

theorem moves_accept {queue : List (List UInt8)} (hdemux : h.demux = .found id' payload)
    (hinbound : (h.assocs id').inbound = some queue) (hroom : queue.length < CHANNEL) :
    Moves fifo dg e id h
      { h with
        demux := .reading
        assocs := Function.update h.assocs id' { h.assocs id' with inbound := some (queue ++ [payload]) } }
      [] := by
  unfold Moves Half.lane
  rw [hdemux]
  by_cases hid : id = id'
  · subst hid
    simpa [hinbound, Demux.payload] using Lossy.Step.accept hroom
  · simpa [hid, Ne.symm hid, Demux.payload] using Lossy.Step.idle

theorem moves_hand {queue : List (List UInt8)} (hinbound : (h.assocs id').inbound = some (payload :: queue)) :
    Moves fifo dg e id h
      { h with assocs := Function.update h.assocs id' { h.assocs id' with inbound := some queue } }
      [.handed e id' payload] := by
  refine moves_setAssoc (fun y hy id hne => ?_) ?_ id
  · obtain rfl := List.mem_singleton.mp hy
    simp [Event.sentTo, Event.handedAt, Event.goneAt, hne.symm]
  · unfold Half.lane
    rw [hinbound]
    simpa [List.filterMap_cons, Event.sentTo, Event.handedAt, Event.goneAt] using Lossy.Step.hand

theorem moves_abandon {stage : Stage} :
    Moves fifo dg e id h
      { h with assocs := Function.update h.assocs id' { h.assocs id' with stage, inbound := none } }
      (Conn.unread e id' (h.assocs id')) := by
  refine moves_setAssoc (fun y hy id hne => ?_) ?_ id
  · obtain ⟨p, -, rfl⟩ := List.mem_map.mp hy
    simp [Event.sentTo, Event.handedAt, Event.goneAt, hne.symm]
  · have hgone : (Conn.unread e id' (h.assocs id')).filterMap (Event.goneAt dg e id') =
        (h.assocs id').inbound.getD [] := by
      simp [Conn.unread, List.filterMap_map, Function.comp_def, Event.goneAt]
    have hnone : (Conn.unread e id' (h.assocs id')).filterMap (Event.sentTo e id') = [] ∧
        (Conn.unread e id' (h.assocs id')).filterMap (Event.handedAt e id') = [] := by
      simp [Conn.unread, List.filterMap_map, Function.comp_def, Event.sentTo, Event.handedAt]
    rw [hgone, hnone.1, hnone.2]
    exact .abandon

end

/-- A request stream that has no association yet. -/
theorem Conn.Inv.fresh (hi : c.Inv) (e : End) : (c.assoc e (4 * c.streams)).inbound = none := by
  by_contra hne
  have hpresent : (c.assoc e (4 * c.streams)).stage ≠ .absent := by
    rcases hi.inbound e _ hne with h | h <;> simp [h]
  obtain ⟨n, hn, heq⟩ := hi.id e _ hpresent
  exact hn.ne' (Nat.eq_of_mul_eq_mul_left (by decide) heq)

/-- Every step moves each channel on, or leaves it alone. -/
theorem moves_of_step (hi : c.Inv) (h : c.step dg a = some (c', ev)) (hfifo : fifo → a.InOrder) (e : End)
    (id : StreamId) : Moves fifo dg e id (c.ends e) (c'.ends e) ev := by
  cases Conn.step_effect hi h with
  | associate hstreams =>
    have hlane : ∀ h : Half, (h.assocs (4 * c.streams)).inbound = none →
        Half.lane dg id
          { h with assocs := Function.update h.assocs (4 * c.streams) ⟨.opening, false, none⟩ } =
            h.lane dg id := by
      intro h hnone
      rw [lane_setAssoc]
      split
      · next hid => simp [Half.lane, hid, hnone]
      · rfl
    unfold Moves
    cases e
    · simpa [Conn.setAssoc, Conn.setHalf, hlane _ (hi.fresh .client)] using Lossy.Step.idle
    · simpa [Conn.setAssoc, Conn.setHalf, hlane _ (hi.fresh .exit)] using Lossy.Step.idle
  | connect => exact .idle
  | @enter act e' id' x hpresent hstage hinbound hqueue =>
    refine moves_setHalf (by simp) (moves_setAssoc (by simp) ?_) e id
    rw [hqueue]
    exact .idle
  | @send e' id' payload hpresent =>
    obtain ⟨n, hn, rfl⟩ := hi.id e' id' hpresent
    exact moves_setHalf (by simp [Event.dest]) (fun _ => moves_send (hn.trans_le hi.streams)) e id
  | lose hraw => exact moves_setHalf (by simp [Event.dest]) (fun _ => moves_lose hraw) e id
  | malformed hraw hdecode => exact moves_setHalf (by simp) (fun _ => moves_malformed hraw hdecode) e id
  | take hdemux hraw hdecode =>
    exact moves_setHalf (by simp) (fun _ => moves_take hdemux hraw hdecode hfifo) e id
  | @find e' id' payload hdemux =>
    refine moves_setHalf (by simp) (fun id => ?_) e id
    unfold Moves Half.lane
    rw [hdemux]
    exact .idle
  | refuse hdemux => exact moves_setHalf (by simp [Event.dest]) (fun _ => moves_refuse hdemux) e id
  | accept hdemux hinbound hroom =>
    rw [Conn.setAssoc_setHalf]
    exact moves_setHalf (by simp) (fun _ => moves_accept hdemux hinbound hroom) e id
  | hand hstage hinbound => exact moves_setHalf (by simp [Event.dest]) (fun _ => moves_hand hinbound) e id
  | abandon hpresent => exact moves_setHalf (by simp [Conn.unread, Event.dest]) (fun _ => moves_abandon) e id
  | close => exact .idle
  | @stop e' hdemux =>
    refine moves_setHalf (by simp) (fun id => ?_) e id
    unfold Moves Half.lane
    rw [hdemux]
    exact .idle

/-! ## Runs -/

section

variable {log : List (Taken Conn Act Event)}

theorem carried_run (h : Exec (Conn.step dg) Conn.new log c) (hfifo : fifo → Steps (fun _ a => a.InOrder) log)
    (e : End) (id : StreamId) :
    Lossy.Carried CHANNEL fifo ((shown log).filterMap (Event.sentTo e id))
      ((shown log).filterMap (Event.handedAt e id)) ((shown log).filterMap (Event.goneAt dg e id))
      ((c.ends e).lane dg id) := by
  induction h with
  | nil => cases e <;> exact .start
  | @snoc log s s' a ev hr hs ih =>
    have hsteps : fifo → Steps (fun _ a => a.InOrder) log ∧ a.InOrder := fun hf =>
      steps_snoc.mp (hfifo hf)
    have hmoves := moves_of_step (Conn.inv_run hr) hs (fun hf => (hsteps hf).2) e id
    simp only [shown_snoc, List.filterMap_append]
    exact (ih fun hf => (hsteps hf).1).step hmoves

/-- **Associations do not mix.** In every run, what was sent to one end of an association is what has been
handed over there, what was lost or dropped and what is under way, as often as it was sent. No channel holds
more than it can. -/
theorem accounted (h : Exec (Conn.step dg) Conn.new log c) (e : End) (id : StreamId) :
    ((shown log).filterMap (Event.sentTo e id)).Perm
        ((shown log).filterMap (Event.handedAt e id) ++ (shown log).filterMap (Event.goneAt dg e id) ++
          ((c.ends e).lane dg id).pending) ∧
      ((c.assoc e id).inbound.getD []).length ≤ CHANNEL := by
  have hc := carried_run h False.elim e id
  exact ⟨hc.perm, hc.length_inbox_le⟩

end

/-- Two associations, each with a datagram to the exit. The second is sent before the exit has registered its
association, and arrives first. -/
def twoFlows : List Act :=
  [.request true, .request true, .answer 0 true, .answer 4 true, .response 0, .response 4,
    .register .client 0, .register .client 4, .register .exit 0, .send .client 0 [1], .send .client 4 [2],
    .read .exit 1, .lookup .exit, .read .exit 0, .lookup .exit, .trySend .exit, .recv .exit 0]

theorem accounted_twoFlows :
    ∃ log c, Exec (Conn.step quarterStreamId) Conn.new log c ∧
      (shown log).filterMap (Event.goneAt quarterStreamId .exit 4) = [[2]] ∧
      ([[1]] : List (List UInt8)).Perm ([[1]] ++ [] ++ ((c.ends .exit).lane quarterStreamId 0).pending) := by
  obtain ⟨log, c, h, hsent, hhanded, hgone, hunknown⟩ := exec_reaches (Conn.step quarterStreamId) Conn.new
    twoFlows
    (fun log _ => (shown log).filterMap (Event.sentTo .exit 0) = [[1]] ∧
      (shown log).filterMap (Event.handedAt .exit 0) = [[1]] ∧
      (shown log).filterMap (Event.goneAt quarterStreamId .exit 0) = [] ∧
      (shown log).filterMap (Event.goneAt quarterStreamId .exit 4) = [[2]]) (by decide +kernel)
  have hperm := (accounted h .exit 0).1
  rw [hsent, hhanded, hgone] at hperm
  exact ⟨log, c, h, hunknown, hperm⟩

end Datagrams

end Leshiy.Quic
