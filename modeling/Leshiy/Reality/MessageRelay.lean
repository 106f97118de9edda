import Leshiy.Core.Icmp
import Leshiy.Lib.NetAddr
import Leshiy.Lib.Run
import Leshiy.Mux.Datagram
import Leshiy.Reality.Handshake

/-!
# Relaying messages to a target

`relay_datagram` and `relay_icmp` (`leshiy-reality/src/server.rs`) race two loops and a clock. `upload`
takes messages from the mux stream to a socket, `download` takes them from the socket to the stream; the
first of the three to return ends the association. They differ in which messages `upload` lets through,
in what it remembers of them, and in what `download` makes of a message with that.

An error of the socket's `send` is ignored. One of the stream's `send` ends the association, whether the
stream is dead or the message is too long for a frame.
-/

namespace Leshiy.Reality

open Leshiy.Lib Leshiy.Mux

/-- Length of the buffer that `download` receives in. -/
def RECV_BUF : Nat := 65535

/-- What tells the two relays apart. -/
structure RelayJob (M : Type) where
  /-- What is remembered at the start. -/
  memory : M
  /-- What is remembered of a message that `upload` lets through. -/
  letThrough : Bytes → Option M
  rewrite : M → Bytes → Bytes

structure MessageRelay (M : Type) where
  memory : M
  /-- In the hand of `upload`, from `stream.recv` to the end of the socket's `send`. -/
  uploading : Option Bytes
  /-- In the hand of `download`, from the socket's `recv` to the end of `stream.send`. -/
  downloading : Option Bytes
  result : Option (Except RealityError Unit)
  deriving DecidableEq, Repr

/-- What the two loops wait for, in turn, and the clock: `datagram_expired` has seen no activity, or a user
who is no longer allowed. -/
inductive RelayAct where
  | streamRecv (b : Bytes)
  | streamClosed
  | socketSent (sent : Option Nat)
  | socketRecv (b : Bytes)
  | socketFailed
  | streamSent (live : Bool)
  | expired
  deriving DecidableEq, Repr

inductive RelayEvent where
  | toTarget (b : Bytes)
  | toClient (b : Bytes)
  | usage (up down : Nat)
  deriving DecidableEq, Repr

namespace MessageRelay

variable {M : Type} {job : RelayJob M} {r r' : MessageRelay M} {a : RelayAct} {ev : List RelayEvent}

def start (job : RelayJob M) : MessageRelay M :=
  ⟨job.memory, none, none, none⟩

def finish (r : MessageRelay M) (res : Except RealityError Unit) : MessageRelay M × List RelayEvent :=
  ({ r with result := some res }, [])

def wait (job : RelayJob M) (r : MessageRelay M) : RelayAct → Option (MessageRelay M × List RelayEvent)
  | .streamRecv b =>
    match r.uploading, job.letThrough b with
    | none, some memory => some ({ r with memory, uploading := some b }, [])
    -- `continue`
    | none, none => some (r, [])
    | some _, _ => none
  | .streamClosed =>
    match r.uploading with
    | none => some (r.finish (.ok ()))
    | some _ => none
  | .socketSent sent =>
    match r.uploading, sent with
    | some b, some n => some ({ r with uploading := none }, [.toTarget b, .usage n 0])
    -- `if let Ok(n) = udp.send(&b).await`
    | some _, none => some ({ r with uploading := none }, [])
    | none, _ => none
  | .socketRecv b =>
    match r.downloading with
    | none =>
      if b.length ≤ RECV_BUF then some ({ r with downloading := some (job.rewrite r.memory b) }, [])
      else none
    | some _ => none
  | .socketFailed =>
    match r.downloading with
    | none => some (r.finish (.ok ()))
    | some _ => none
  | .streamSent live =>
    match r.downloading with
    | some b =>
      match sendDatagram b live with
      | .ok () => some ({ r with downloading := none }, [.toClient b, .usage 0 b.length])
      | .error err => some (r.finish (.error (.malformed err.text)))
    | none => none
  | .expired => some (r.finish (.ok ()))

/-- One step of the `select!`, which is over once there is a result. -/
def step (job : RelayJob M) (r : MessageRelay M) (a : RelayAct) :
    Option (MessageRelay M × List RelayEvent) :=
  match r.result with
  | none => r.wait job a
  | some _ => none

/-! ## What a step can do -/

/-- The steps of a relay. -/
inductive Effect (job : RelayJob M) (r : MessageRelay M) :
    RelayAct → MessageRelay M → List RelayEvent → Prop
  | admitted {b : Bytes} {memory : M} : r.uploading = none → job.letThrough b = some memory →
      Effect job r (.streamRecv b) { r with memory, uploading := some b } []
  | ignored {b : Bytes} : r.uploading = none → job.letThrough b = none →
      Effect job r (.streamRecv b) r []
  | streamClosed : r.uploading = none →
      Effect job r .streamClosed { r with result := some (.ok ()) } []
  | sent {b : Bytes} {n : Nat} : r.uploading = some b →
      Effect job r (.socketSent (some n)) { r with uploading := none } [.toTarget b, .usage n 0]
  | notSent {b : Bytes} : r.uploading = some b →
      Effect job r (.socketSent none) { r with uploading := none } []
  | received {b : Bytes} : r.downloading = none → b.length ≤ RECV_BUF →
      Effect job r (.socketRecv b) { r with downloading := some (job.rewrite r.memory b) } []
  | socketFailed : r.downloading = none →
      Effect job r .socketFailed { r with result := some (.ok ()) } []
  | delivered {b : Bytes} : r.downloading = some b → b.length ≤ MAX_FRAME_PAYLOAD →
      Effect job r (.streamSent true) { r with downloading := none } [.toClient b, .usage 0 b.length]
  | refused {b : Bytes} {live : Bool} {err : Error} : r.downloading = some b →
      sendDatagram b live = .error err →
      Effect job r (.streamSent live) { r with result := some (.error (.malformed err.text)) } []
  | expired : Effect job r .expired { r with result := some (.ok ()) } []

theorem step_effect (h : step job r a = some (r', ev)) :
    r.result = none ∧ Effect job r a r' ev := by
  unfold step at h
  cases hres : r.result with
  | some res =>
    rw [hres] at h
    cases h
  | none =>
    rw [hres] at h
    refine ⟨rfl, ?_⟩
    cases a with
    | streamRecv b =>
      cases hup : r.uploading with
      | some c => simp [wait, hup] at h
      | none =>
        cases hthrough : job.letThrough b with
        | none =>
          simp only [wait, hup, hthrough, Option.some.injEq, Prod.mk.injEq] at h
          obtain ⟨rfl, rfl⟩ := h
          exact .ignored hup hthrough
        | some memory =>
          simp only [wait, hup, hthrough, Option.some.injEq, Prod.mk.injEq] at h
          obtain ⟨rfl, rfl⟩ := h
          exact .admitted hup hthrough
    | streamClosed =>
      cases hup : r.uploading with
      | some c => simp [wait, hup] at h
      | none =>
        simp only [wait, hup] at h
        cases h
        exact .streamClosed hup
    | socketSent sent =>
      cases hup : r.uploading with
      | none => simp [wait, hup] at h
      | some b =>
        cases sent with
        | none =>
          simp only [wait, hup, Option.some.injEq, Prod.mk.injEq] at h
          obtain ⟨rfl, rfl⟩ := h
          exact .notSent hup
        | some n =>
          simp only [wait, hup, Option.some.injEq, Prod.mk.injEq] at h
          obtain ⟨rfl, rfl⟩ := h
          exact .sent hup
    | socketRecv b =>
      cases hdown : r.downloading with
      | some c => simp [wait, hdown] at h
      | none =>
        by_cases hlen : b.length ≤ RECV_BUF
        · simp only [wait, hdown, hlen, if_true, Option.some.injEq, Prod.mk.injEq] at h
          obtain ⟨rfl, rfl⟩ := h
          exact .received hdown hlen
        · simp [wait, hdown, hlen] at h
    | socketFailed =>
      cases hdown : r.downloading with
      | some c => simp [wait, hdown] at h
      | none =>
        simp only [wait, hdown] at h
        cases h
        exact .socketFailed hdown
    | streamSent live =>
      cases hdown : r.downloading with
      | none => simp [wait, hdown] at h
      | some b =>
        cases hsend : sendDatagram b live with
        | ok u =>
          simp only [wait, hdown, hsend, Option.some.injEq, Prod.mk.injEq] at h
          obtain ⟨rfl, rfl⟩ := h
          obtain ⟨hlen, rfl⟩ := sendDatagram_eq_ok.mp hsend
          exact .delivered hdown hlen
        | error err =>
          simp only [wait, hdown, hsend] at h
          cases h
          exact .refused hdown hsend
    | expired =>
      simp only [wait, finish, Option.some.injEq, Prod.mk.injEq] at h
      obtain ⟨rfl, rfl⟩ := h
      exact .expired

/-! ## What has come down -/

/-- A message that fits into one frame of the stream. -/
def fits (b : Bytes) : Bool :=
  b.length ≤ MAX_FRAME_PAYLOAD

/-- What `download` took from the socket, as it passes it on. -/
def taken (job : RelayJob M) (log : List (Taken (MessageRelay M) RelayAct RelayEvent)) : List Bytes :=
  log.filterMap fun t =>
    match t.act with
    | .socketRecv b => some (job.rewrite t.pre.memory b)
    | _ => none

def toClient : RelayEvent → Option Bytes
  | .toClient b => some b
  | _ => none

/-- What the client gets. -/
def delivered (log : List (Taken (MessageRelay M) RelayAct RelayEvent)) : List Bytes :=
  (shown log).filterMap toClient

theorem delivered_step (h : step job r a = some (r', ev)) :
    ev.filterMap toClient ++ r'.downloading.toList.filter fits =
      r.downloading.toList.filter fits ++ (taken job [⟨r, a, ev⟩]).filter fits := by
  obtain ⟨-, heff⟩ := step_effect h
  cases heff with
  | received hdown hlen => simp [taken, hdown]
  | delivered hdown hlen => simp [taken, toClient, hdown, fits, hlen]
  | _ => simp [taken, toClient]

/-- **Every message that fits is delivered**, in order, unless it is still in the hand of `download`. -/
theorem delivered_run {log : List (Taken (MessageRelay M) RelayAct RelayEvent)}
    (h : Exec (step job) (start job) log r) :
    delivered log ++ r.downloading.toList.filter fits = (taken job log).filter fits := by
  refine h.inv (P := fun log r =>
    delivered log ++ r.downloading.toList.filter fits = (taken job log).filter fits) rfl ?_
  intro log r a r' ev _ ih hs
  have hstep := delivered_step hs
  have htaken : taken job (log ++ [⟨r, a, ev⟩]) = taken job log ++ taken job [⟨r, a, ev⟩] :=
    List.filterMap_append
  rw [delivered, shown_snoc, List.filterMap_append, List.append_assoc, hstep, ← List.append_assoc,
    ← delivered, ih, htaken, List.filter_append]

/-! ## When the association ends -/

/-- The steps that say that a side is at its end, or that the association has expired. -/
def closes : RelayAct → Bool
  | .streamClosed | .socketFailed | .streamSent false | .expired => true
  | _ => false

/-- A message that is sent on a live stream fits. -/
def Carried (r : MessageRelay M) (a : RelayAct) : Prop :=
  a = .streamSent true → ∀ b ∈ r.downloading, fits b = true

theorem ends_step (h : step job r a = some (r', ev)) :
    ¬r.result.isSome ∧ (¬r'.result.isSome → ¬closes a = true ∧ r.Carried a) ∧
      (r'.result.isSome → (closes a = true ↔ r.Carried a)) := by
  obtain ⟨hres, heff⟩ := step_effect h
  refine ⟨by simp [hres], ?_⟩
  cases heff with
  | delivered hdown hlen => simp [closes, Carried, hres, hdown, fits, hlen]
  | @refused b live err hdown hsend =>
    cases live with
    | false => simp [closes, Carried]
    | true =>
      -- the stream was there, so it is the length that it refused
      have hlong : ¬b.length ≤ MAX_FRAME_PAYLOAD := by
        intro hlen
        rw [sendDatagram_eq_ok.mpr ⟨hlen, rfl⟩] at hsend
        cases hsend
      simp [closes, Carried, hdown, fits, hlong]
  | _ => simp [closes, Carried, hres]

/-- What is in the hand of `download` has come from the socket. -/
theorem mem_taken_of_downloading {log : List (Taken (MessageRelay M) RelayAct RelayEvent)}
    (h : Exec (step job) (start job) log r) : ∀ b ∈ r.downloading, b ∈ taken job log := by
  refine h.inv (P := fun log r => ∀ b ∈ r.downloading, b ∈ taken job log) (by simp [start]) ?_
  intro log r a r' ev _ ih hs b hb
  have htaken : taken job (log ++ [⟨r, a, ev⟩]) = taken job log ++ taken job [⟨r, a, ev⟩] :=
    List.filterMap_append
  rw [htaken, List.mem_append]
  obtain ⟨-, heff⟩ := step_effect hs
  cases heff with
  | received hdown hlen =>
    rw [Option.mem_some] at hb
    exact Or.inr (by simp [taken, hb])
  | delivered hdown hlen => cases hb
  | _ => exact Or.inl (ih b hb)

/-- What is remembered is that of the last message that was let through. Before the first, nothing has gone to
the target. -/
theorem memory_run {log : List (Taken (MessageRelay M) RelayAct RelayEvent)}
    (h : Exec (step job) (start job) log r) :
    (r.uploading = none ∧ ∀ b, RelayEvent.toTarget b ∉ shown log) ∨
      ∃ b, (∃ t ∈ log, t.act = .streamRecv b) ∧ job.letThrough b = some r.memory := by
  refine h.inv (P := fun log r => (r.uploading = none ∧ ∀ b, RelayEvent.toTarget b ∉ shown log) ∨
    ∃ b, (∃ t ∈ log, t.act = .streamRecv b) ∧ job.letThrough b = some r.memory) (.inl ⟨rfl, fun _ => nofun⟩) ?_
  intro log r a r' ev _ ih hs
  obtain ⟨-, heff⟩ := step_effect hs
  have hkept : r'.memory = r.memory → (∃ b, (∃ t ∈ log, t.act = .streamRecv b) ∧
      job.letThrough b = some r.memory) → ∃ b, (∃ t ∈ log ++ [⟨r, a, ev⟩], t.act = .streamRecv b) ∧
        job.letThrough b = some r'.memory := by
    rintro hmemory ⟨b, ⟨t, ht, hact⟩, hthrough⟩
    exact ⟨b, ⟨t, List.mem_append_left _ ht, hact⟩, hmemory ▸ hthrough⟩
  cases heff with
  | @admitted b memory hup hthrough =>
    exact .inr ⟨b, ⟨_, List.mem_append_right _ (List.mem_singleton_self _), rfl⟩, hthrough⟩
  | sent hup | notSent hup =>
    rcases ih with ⟨hnone, -⟩ | hsome
    · rw [hup] at hnone
      cases hnone
    · exact .inr (hkept rfl hsome)
  | _ =>
    rcases ih with ⟨hnone, hshown⟩ | hsome
    · exact .inl ⟨hnone, fun b => by simpa using hshown b⟩
    · exact .inr (hkept rfl hsome)

/-- A relay that waits for both sides takes any messages that fit. -/
theorem exec_taken (job : RelayJob M) (hrewrite : ∀ m b, (job.rewrite m b).length = b.length)
    (bs : List Bytes) (hfits : ∀ b ∈ bs, fits b = true) :
    ∃ log, Exec (step job) (start job) log (start job) ∧ taken job log = bs.map (job.rewrite job.memory) := by
  induction bs using List.reverseRecOn with
  | nil => exact ⟨[], .nil, rfl⟩
  | append_singleton bs b ih =>
    obtain ⟨log, hrun, htaken⟩ := ih fun c hc => hfits c (List.mem_append_left _ hc)
    have hlen : b.length ≤ MAX_FRAME_PAYLOAD :=
      of_decide_eq_true (hfits b (List.mem_append_right _ (List.mem_singleton_self b)))
    have hbuf : b.length ≤ RECV_BUF := hlen.trans (by decide)
    have hsend : sendDatagram (job.rewrite job.memory b) true = .ok () :=
      sendDatagram_eq_ok.mpr ⟨by rwa [hrewrite], rfl⟩
    have hrecv : step job (start job) (.socketRecv b) =
        some ({ start job with downloading := some (job.rewrite job.memory b) }, []) := by
      simp [step, wait, start, hbuf]
    have hsent : step job { start job with downloading := some (job.rewrite job.memory b) }
        (.streamSent true) = some (start job,
          [.toClient (job.rewrite job.memory b), .usage 0 (job.rewrite job.memory b).length]) := by
      simp [step, wait, start, hsend]
    refine ⟨_, (hrun.snoc hrecv).snoc hsent, ?_⟩
    rw [taken, List.filterMap_append, List.filterMap_append, ← taken, htaken]
    simp [start]

end MessageRelay

/-! ## Datagrams -/

/-- `relay_datagram`: every datagram goes out, and every one comes back as it is. -/
def relayDatagram : RelayJob Unit where
  memory := ()
  letThrough _ := some ()
  rewrite _ b := b

namespace MessageRelay

/-- The datagrams that the target has sent. -/
def received (log : List (Taken (MessageRelay Unit) RelayAct RelayEvent)) : List Bytes :=
  taken relayDatagram log

/-- A datagram that is too long for a frame is dropped alone: every other one is delivered, in order, up to
the one in hand, and the association ends only when a side is at its end or when it expires. -/
structure Isolated (log : List (Taken (MessageRelay Unit) RelayAct RelayEvent)) (r : MessageRelay Unit) :
    Prop where
  others : delivered log ++ r.downloading.toList.filter fits = (received log).filter fits
  continues : r.result.isSome → ∃ t ∈ log, closes t.act = true

theorem isolated_iff_carried {log : List (Taken (MessageRelay Unit) RelayAct RelayEvent)}
    {r : MessageRelay Unit} (h : Exec (step relayDatagram) (start relayDatagram) log r) :
    Isolated log r ↔ Steps Carried log := by
  have hends := h.stops_iff (fun r => r.result.isSome) (fun a => closes a = true) Carried
    (by simp [start]) fun _ _ _ _ hs => ends_step hs
  exact ⟨fun hiso => hends.mp hiso.continues, fun hsteps => ⟨delivered_run h, hends.mpr hsteps⟩⟩

/-- After what fits, a datagram that does not ends the association. -/
theorem exec_refused {ds : List Bytes} (hds : ∀ d ∈ ds, fits d = true) {d : Bytes}
    (hlen : d.length ≤ 65507) (hlong : ¬d.length ≤ MAX_FRAME_PAYLOAD) :
    ∃ log r, Exec (step relayDatagram) (start relayDatagram) log r ∧ received log = ds ++ [d] ∧
      ¬Steps Carried log ∧
      r.result = some (.error (.malformed "protocol violation: datagram exceeds max frame payload")) := by
  obtain ⟨log, hrun, htaken⟩ := exec_taken relayDatagram (fun _ _ => rfl) ds hds
  have hbuf : d.length ≤ RECV_BUF := hlen.trans (by decide)
  have hsend : sendDatagram d true = .error (.protocol "datagram exceeds max frame payload") :=
    if_pos (Nat.lt_of_not_le hlong)
  have hrecv : step relayDatagram (start relayDatagram) (.socketRecv d) =
      some ({ start relayDatagram with downloading := some d }, []) := by
    simp [step, wait, start, hbuf, relayDatagram]
  have hsent : step relayDatagram { start relayDatagram with downloading := some d } (.streamSent true) =
      some (finish { start relayDatagram with downloading := some d }
        (.error (.malformed "protocol violation: datagram exceeds max frame payload"))) := by
    simp only [step, wait, start, hsend]
    rfl
  refine ⟨_, _, (hrun.snoc hrecv).snoc hsent, ?_, ?_, rfl⟩
  · rw [received, taken, List.filterMap_append, List.filterMap_append, ← taken, htaken]
    simp [relayDatagram]
  · intro hsteps
    have hfit := (steps_snoc.mp hsteps).2 rfl d rfl
    exact hlong (of_decide_eq_true hfit)

/-- **An oversize reply is isolated only by never coming**: for what a target may send, in every run, exactly if
none of it is over `MAX_FRAME_PAYLOAD`; in a run, exactly if nothing longer is sent on a live stream. -/
theorem oversize_isolated_iff (ds : List Bytes) (hds : ∀ d ∈ ds, d.length ≤ 65507) :
    ((∀ log r, Exec (step relayDatagram) (start relayDatagram) log r → received log <+: ds →
      Isolated log r) ↔ ∀ d ∈ ds, d.length ≤ MAX_FRAME_PAYLOAD) ∧
    ∀ log r, Exec (step relayDatagram) (start relayDatagram) log r →
      (Isolated log r ↔ Steps Carried log) := by
  refine ⟨⟨fun hall => ?_, fun hfit log r hrun hpre => ?_⟩, fun log r => isolated_iff_carried⟩
  · refine forall_mem_of_prefix fun before d hpre hbefore => ?_
    by_contra hlong
    obtain ⟨log, r, hrun, hreceived, hnot, -⟩ :=
      exec_refused (fun b hb => decide_eq_true (hbefore b hb))
        (hds d (hpre.subset (List.mem_append_right _ (List.mem_singleton_self d)))) hlong
    exact hnot ((isolated_iff_carried hrun).mp (hall log r hrun (hreceived ▸ hpre)))
  · refine (isolated_iff_carried hrun).mpr fun t ht _ b hb => decide_eq_true (hfit b (hpre.subset ?_))
    obtain ⟨log', -, hrun', hlog', -⟩ := hrun.pre_reached t ht
    exact (hlog'.filterMap _).subset (mem_taken_of_downloading hrun' b hb)

theorem oversize_isolated_iff_small :
    ∃ log r, Exec (step relayDatagram) (start relayDatagram) log r ∧ received log = [[1, 2, 3]] ∧
      Isolated log r := by
  obtain ⟨log, hrun, htaken⟩ := exec_taken relayDatagram (fun _ _ => rfl) [[1, 2, 3]] (by decide)
  have hreceived : received log = [[1, 2, 3]] := htaken
  have hall := (oversize_isolated_iff [[1, 2, 3]] (by decide)).1.mpr (by decide)
  exact ⟨log, _, hrun, hreceived, hall log _ hrun (hreceived ▸ List.prefix_rfl)⟩

/-- One byte too many ends the association, and the datagrams after it get nowhere. -/
theorem oversize_not_isolated :
    ∃ log r, Exec (step relayDatagram) (start relayDatagram) log r ∧
      received log = [List.replicate 16379 0] ∧ ¬Isolated log r ∧
      ∀ a, step relayDatagram r a = none := by
  obtain ⟨log, r, hrun, hreceived, hnot, hres⟩ :=
    exec_refused (List.forall_mem_nil _) (d := List.replicate 16379 0)
      (by rw [List.length_replicate]; decide) (by rw [List.length_replicate]; decide)
  refine ⟨log, r, hrun, hreceived, fun hiso => hnot ((isolated_iff_carried hrun).mp hiso), fun a => ?_⟩
  rw [step, hres]

end MessageRelay

/-! ## Echo messages -/

/-- `target.parse::<IpAddr>()`, and whether it is an IPv6 address. -/
def targetIsIpv6 (target : Str) : Bool :=
  match NetAddr.parseIpAddr target with
  | some (.v6 _) => true
  | _ => false

/-- The identifier of the client's request put back into a message of the socket, which has put its own port
there. The ICMPv6 checksum is left to the client. `none` is a panic. -/
def restoreId (v6 : Bool) (lastId : Option UInt16) (msg : Bytes) : Option Bytes :=
  match lastId with
  | none => some msg
  | some id => do
    let (restored, msg) ← Icmp.setId msg id
    if restored && !v6 then
      let (_, msg) ← Icmp.setV4Checksum msg
      return msg
    else return msg

/-- `relay_icmp`: only echo requests go out, and what comes back gets the identifier of the last of them. -/
def relayIcmp (v6 : Bool) : RelayJob (Option UInt16) where
  memory := none
  letThrough b := (Icmp.parseEchoRequest b v6).map fun echo => some echo.id
  rewrite lastId msg := (restoreId v6 lastId msg).getD msg

/-- The message that comes back carries the identifier, and an ICMPv4 one verifies. -/
theorem restoreId_eq (v6 : Bool) (id : UInt16) {msg : Bytes} (hshort : Icmp.HEADER_LEN ≤ msg.length)
    (hlong : msg.length ≤ RECV_BUF) :
    ∃ ck, restoreId v6 (some id) msg = some (Icmp.rewritten msg id ck) ∧
      (v6 = false → Verifies (Icmp.rewritten msg id ck)) := by
  have hset : restoreId v6 (some id) msg =
      (if true && !v6 then (Icmp.setV4Checksum (Icmp.rewritten msg id 0)).map Prod.snd
        else some (Icmp.rewritten msg id 0)) := by
    rw [restoreId, Icmp.setId_eq hshort]
    cases v6 with
    | true => rfl
    | false =>
      show (Icmp.setV4Checksum _).bind _ = (Icmp.setV4Checksum _).map _
      cases Icmp.setV4Checksum (Icmp.rewritten msg id 0) <;> rfl
  cases v6 with
  | true => exact ⟨0, hset, nofun⟩
  | false =>
    have hsame : Icmp.SameEcho msg (Icmp.rewritten msg id 0) := Icmp.sameEcho_rewritten hshort
    have hlen := hsame.length
    obtain ⟨ck, hck, hverifies⟩ := Icmp.setV4Checksum_eq (hlen.symm ▸ hshort) (hlen.symm ▸ hlong)
    rw [Icmp.splice_rewritten hshort] at hck hverifies
    exact ⟨ck, by rw [hset, hck]; rfl, fun _ => hverifies⟩

/-- **No message is indexed out of range, and no accumulator overflows**, on what `download` receives. -/
theorem restoreId_ne_none (v6 : Bool) (lastId : Option UInt16) {msg : Bytes} (hlen : msg.length ≤ RECV_BUF) :
    restoreId v6 lastId msg ≠ none := by
  cases lastId with
  | none => exact Option.some_ne_none _
  | some id =>
    by_cases hshort : Icmp.HEADER_LEN ≤ msg.length
    · obtain ⟨ck, hck, -⟩ := restoreId_eq v6 id hshort hlen
      rw [hck]
      exact Option.some_ne_none _
    · rw [restoreId, Icmp.setId, if_pos (Nat.lt_of_not_le hshort)]
      exact Option.some_ne_none _

end Leshiy.Reality
