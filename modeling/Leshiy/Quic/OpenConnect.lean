import Leshiy.Quic.Connector

/-!
# Opening a target on the shared connection

`open_connect` and `open_datagram` (`leshiy-quic/src/client.rs`) put the target of a peer's `Open` into
an HTTP/3 request. Every error on the way, of the request builder as well as of `h3`, becomes a
`QuicError::Conn`, and only the status of a response becomes a `ConnectStatus`. `ConnectorEgress` decides
by that alone whether the connection is at its end.
-/

namespace Leshiy.Quic

open Leshiy.Lib

/-- What an error of `h3` is confined to: the stream of the request, which the exit may have reset or for
which the header may be too large, or nothing less than the connection. -/
inductive Scope where
  | request
  | connection
  deriving DecidableEq, Repr

structure H3Error where
  scope : Scope
  msg : String
  deriving DecidableEq, Repr

abbrev StreamId := Nat

/-- What `h3` makes of a request: `send_request` gives the stream, `recv_response` the status. -/
structure Exchange where
  sent : Except H3Error StreamId
  status : Except H3Error Nat

/-- The error that ends the exchange. -/
def Exchange.error (x : Exchange) : Option H3Error :=
  match x.sent with
  | .error e => some e
  | .ok _ =>
    match x.status with
    | .error e => some e
    | .ok _ => none

section

-- The parser behind `http::request::Builder::uri`, with the text of its error.
variable (uri : String → Except String Unit)

/-- The request of `open_connect` and of `open_datagram`. The header holds a hex text, which the builder
never refuses. -/
def request (target : String) (x : Exchange) : Except QuicError StreamId :=
  match uri target with
  | .error msg => .error (.conn msg)
  | .ok () =>
    match x.sent with
    | .error e => .error (.conn e.msg)
    | .ok id =>
      match x.status with
      | .error e => .error (.conn e.msg)
      | .ok code => if code ≠ 200 then .error (.connectStatus code) else .ok id

def openConnect (target : String) (x : Exchange) : Except QuicError StreamId :=
  request uri target x

/-- Putting the stream into the demux table, which comes after the response, has no error. -/
def openDatagram (target : String) (x : Exchange) : Except QuicError StreamId :=
  request uri target x

def openOn : Kind → String → Exchange → Except QuicError StreamId
  | .tcp => openConnect uri
  | .udp => openDatagram uri

/-- What the caller gets to see of a failure. -/
def failure {α : Type} : Except QuicError α → Option QuicError
  | .error e => some e
  | .ok _ => none

/-- The request can be built, and `h3` does not end it with an error of the request alone. -/
def Clean (target : String) (x : Exchange) : Prop :=
  uri target = .ok () ∧ ∀ e, x.error = some e → e.scope = .connection

theorem openOn_eq (kind : Kind) (target : String) (x : Exchange) :
    openOn uri kind target x = request uri target x := by
  cases kind with
  | tcp => rfl
  | udp => rfl

/-- How a request fails: the target is not a URI, `h3` gives up, or the response has a status. -/
theorem failure_request {target : String} {x : Exchange} {e : QuicError}
    (h : failure (request uri target x) = some e) :
    (∃ msg, uri target = .error msg ∧ e = .conn msg) ∨
      (uri target = .ok () ∧ ∃ he, x.error = some he ∧ e = .conn he.msg) ∨
      (uri target = .ok () ∧ x.error = none ∧ ∃ code, e = .connectStatus code) := by
  unfold request at h
  cases hu : uri target with
  | error msg =>
    rw [hu] at h
    cases h
    exact .inl ⟨msg, rfl, rfl⟩
  | ok u =>
    rw [hu] at h
    refine .inr ?_
    cases hs : x.sent with
    | error he =>
      rw [hs] at h
      cases h
      exact .inl ⟨rfl, he, by simp [Exchange.error, hs], rfl⟩
    | ok id =>
      rw [hs] at h
      cases hr : x.status with
      | error he =>
        rw [hr] at h
        cases h
        exact .inl ⟨rfl, he, by simp [Exchange.error, hs, hr], rfl⟩
      | ok code =>
        rw [hr] at h
        by_cases hcode : code ≠ 200
        · simp only [if_pos hcode] at h
          cases h
          exact .inr ⟨rfl, by simp [Exchange.error, hs, hr], code, rfl⟩
        · simp only [if_neg hcode] at h
          cases h

/-- What is not clean fails, and as if the connection had. -/
theorem failure_of_not_clean {target : String} {x : Exchange} (h : ¬Clean uri target x) :
    ∃ msg, failure (request uri target x) = some (.conn msg) := by
  unfold request
  cases hu : uri target with
  | error msg => exact ⟨msg, rfl⟩
  | ok u =>
    cases hs : x.sent with
    | error e => exact ⟨e.msg, rfl⟩
    | ok id =>
      cases hr : x.status with
      | error e => exact ⟨e.msg, rfl⟩
      | ok code =>
        refine absurd ⟨hu, ?_⟩ h
        simp [Exchange.error, hs, hr]

end

/-! ## The connector with its requests -/

/-- The connector, the target of each caller, and the connections that have come to their end. -/
structure Upstream where
  conn : Connector
  targets : List String
  dead : List ConnId

namespace Upstream

/-- As for the connector, with the target of a call, what `h3` makes of a request, and the end of a
connection. -/
inductive Act where
  | call (kind : Kind) (target : String)
  | get (i : Nat)
  | dialed (i : Nat) (err : Option QuicError)
  | answered (i : Nat) (x : Exchange)
  | invalidate (i : Nat)
  | cancel (i : Nat)
  | dies (c : ConnId)

/-- The actions of the connector that an action stands for. -/
def Act.drives (a : Act) (b : Connector.Act) : Prop :=
  match a with
  | .call kind _ => b = .call kind
  | .get i => b = .get i
  | .dialed i err => b = .dialed i err
  | .answered i _ => ∃ err, b = .opened i err
  | .invalidate i => b = .invalidate i
  | .cancel i => b = .cancel i
  | .dies _ => False

def connect : Upstream := ⟨.connect, [], []⟩

/-- The connector alone makes a step. -/
def drive (s : Upstream) (a : Connector.Act) : Option (Upstream × List Event) :=
  (s.conn.step a).map fun r => ({ s with conn := r.1 }, r.2)

section

variable (uri : String → Except String Unit)

def step (s : Upstream) : Act → Option (Upstream × List Event)
  | .call kind target => { s with targets := s.targets ++ [target] }.drive (.call kind)
  | .get i => s.drive (.get i)
  | .dialed i err => s.drive (.dialed i err)
  | .answered i x =>
    match s.conn.callers[i]?, s.targets[i]? with
    | some ⟨kind, .opens _ c⟩, some target =>
      -- `h3` reports the end of a connection only where it has come
      if ∀ e ∈ x.error, e.scope = .connection → c ∈ s.dead then
        s.drive (.opened i (failure (openOn uri kind target x)))
      else none
    | _, _ => none
  | .invalidate i => s.drive (.invalidate i)
  | .cancel i => s.drive (.cancel i)
  | .dies c => if c < s.conn.established then some ({ s with dead := c :: s.dead }, []) else none

/-- A request that is answered at the first attempt, on a connection that is alive, is clean. -/
def Isolated (s : Upstream) : Act → Prop
  | .answered i x => ∀ kind c target, s.conn.callers[i]? = some ⟨kind, .opens false c⟩ →
      s.targets[i]? = some target → c ∉ s.dead → Clean uri target x
  | _ => True

/-- No caller comes to empty the slot after the connection it failed on has been replaced. -/
def Timely (s : Upstream) : Act → Prop
  | .invalidate i => s.conn.Timely (.invalidate i)
  | _ => True

/-- A request that fails on a connection that is alive ends with its error, and nothing else changes. -/
def FailsAlone (s : Upstream) (a : Act) (s' : Upstream) : Prop :=
  ∀ i x kind retry c target e, a = .answered i x →
    s.conn.callers[i]? = some ⟨kind, .opens retry c⟩ → s.targets[i]? = some target → c ∉ s.dead →
    failure (openOn uri kind target x) = some e →
    s' = { s with conn := s.conn.become i kind (.done (.error (kind.label ++ e.text))) }

end

section

variable {uri : String → Except String Unit} {s s' : Upstream} {a : Act} {ev : List Event}

theorem drive_eq_some {b : Connector.Act} (h : s.drive b = some (s', ev)) :
    s.conn.step b = some (s'.conn, ev) ∧ s'.targets = s.targets ∧ s'.dead = s.dead := by
  obtain ⟨r, hr, heq⟩ := Option.map_eq_some_iff.mp h
  cases heq
  exact ⟨hr, rfl, rfl⟩

/-- What an answer does. -/
theorem answered_of_step {i : Nat} {x : Exchange} (h : s.step uri (.answered i x) = some (s', ev)) :
    ∃ kind retry c target, s.conn.callers[i]? = some ⟨kind, .opens retry c⟩ ∧
      s.targets[i]? = some target ∧ (∀ e ∈ x.error, e.scope = .connection → c ∈ s.dead) ∧
      s.drive (.opened i (failure (openOn uri kind target x))) = some (s', ev) := by
  simp only [step] at h
  split at h
  · next kind retry c target hx htarget =>
    split at h
    · next hhonest => exact ⟨kind, retry, c, target, hx, htarget, hhonest, h⟩
    · cases h
  · cases h

/-- A step is one of the connector, or a connection comes to its end. -/
theorem connector_of_step (h : s.step uri a = some (s', ev)) :
    (∃ c, s' = { s with dead := c :: s.dead } ∧ ev = []) ∨
      ∃ b, a.drives b ∧ s.conn.step b = some (s'.conn, ev) ∧ s'.dead = s.dead := by
  have hdrive : ∀ {b}, a.drives b → s.drive b = some (s', ev) →
      ∃ b, a.drives b ∧ s.conn.step b = some (s'.conn, ev) ∧ s'.dead = s.dead := by
    intro b ha hd
    obtain ⟨hb, -, hdead⟩ := drive_eq_some hd
    exact ⟨b, ha, hb, hdead⟩
  cases a with
  | call kind target =>
    obtain ⟨hb, -, hdead⟩ := drive_eq_some h
    exact .inr ⟨_, rfl, hb, hdead⟩
  | get i => exact .inr (hdrive rfl h)
  | dialed i err => exact .inr (hdrive rfl h)
  | answered i x =>
    obtain ⟨kind, retry, c, target, -, -, -, hd⟩ := answered_of_step h
    exact .inr (hdrive ⟨_, rfl⟩ hd)
  | invalidate i => exact .inr (hdrive rfl h)
  | cancel i => exact .inr (hdrive rfl h)
  | dies c =>
    simp only [step] at h
    split at h
    · cases h
      exact .inl ⟨c, rfl, rfl⟩
    · cases h

theorem inv_run {log : List (Taken Upstream Act Event)} (h : Exec (step uri) connect log s) :
    s.conn.Inv := by
  refine h.state_inv (P := fun s => s.conn.Inv) Connector.inv_connect ?_
  intro s a s' ev hi hs
  rcases connector_of_step hs with ⟨c, rfl, -⟩ | ⟨b, -, hb, -⟩
  · exact hi
  · exact hi.step hb

/-! ## A request that fails -/

/-- On a connection that is alive, a clean request fails with a status and nothing else. -/
theorem status_of_clean {target : String} {x : Exchange} {c : ConnId} {e : QuicError}
    (hclean : Clean uri target x) (hhonest : ∀ e ∈ x.error, e.scope = .connection → c ∈ s.dead)
    (hlive : c ∉ s.dead) (hfail : failure (request uri target x) = some e) :
    ∃ code, e = .connectStatus code := by
  rcases failure_request uri hfail with ⟨msg, hu, -⟩ | ⟨-, he, hx, -⟩ | ⟨-, -, hcode⟩
  · cases hu.symm.trans hclean.1
  · exact absurd (hhonest he hx (hclean.2 he hx)) hlive
  · exact hcode

/-- Exactly the requests that are clean fail alone. -/
theorem failsAlone_iff (h : s.step uri a = some (s', ev)) :
    s.FailsAlone uri a s' ↔ s.Isolated uri a := by
  constructor
  · intro halone
    cases a with
    | answered i x =>
      intro kind c target hx htarget hlive
      by_contra hclean
      obtain ⟨msg, hmsg⟩ := failure_of_not_clean uri hclean
      rw [← openOn_eq uri kind] at hmsg
      have hs' := halone i x kind false c target _ rfl hx htarget hlive hmsg
      obtain ⟨kind', retry', c', target', hx', htarget', -, hd⟩ := answered_of_step h
      rw [hx] at hx'
      cases hx'
      rw [htarget] at htarget'
      cases htarget'
      -- the caller goes on to discard the connection
      have hstep := (drive_eq_some hd).1
      rw [hmsg, hs'] at hstep
      have hev := congrArg (fun r => r.map Prod.fst) hstep
      simp only [Connector.step, hx, Connector.onError, Bool.false_eq_true, if_false, Option.map_some,
        Option.some.injEq] at hev
      have hcaller := congrArg (fun r => r.callers[i]?) hev
      simp only [Connector.getElem?_become hx, if_true, Option.some.injEq] at hcaller
      cases hcaller
    | _ => trivial
  · intro hiso i x kind retry c target e ha hx htarget hlive hfail
    subst ha
    obtain ⟨kind', retry', c', target', hx', htarget', hhonest, hd⟩ := answered_of_step h
    rw [hx] at hx'
    cases hx'
    rw [htarget] at htarget'
    cases htarget'
    rw [hfail] at hd
    simp only [drive, Connector.step, hx, Option.map_some, Option.some.injEq, Prod.mk.injEq] at hd
    rw [← hd.1]
    cases retry with
    | true =>
      cases e with
      | connectStatus code => rfl
      | _ => rfl
    | false =>
      rw [openOn_eq] at hfail
      obtain ⟨code, rfl⟩ := status_of_clean (hiso kind c target hx htarget hlive) hhonest hlive hfail
      rfl

/-! ## Runs -/

/-! ## Runs -/

/-- A connection that a caller gives up as failed had come to its end. -/
theorem dead_of_failed {c : ConnId} (h : s.step uri a = some (s', ev)) (hiso : s.Isolated uri a)
    (hmem : .failed c ∈ ev) : c ∈ s.dead := by
  rcases connector_of_step h with ⟨c', -, rfl⟩ | ⟨b, ha, hb, -⟩
  · cases hmem
  · obtain ⟨i, kind, e, rfl, hx, hs'⟩ := Connector.failed_of_step hb hmem
    cases a with
    | answered j x =>
      obtain ⟨err, hopened⟩ := ha
      cases hopened
      by_contra hlive
      obtain ⟨kind', retry, c', target, hx', htarget, -, hd⟩ := answered_of_step h
      rw [hx] at hx'
      cases hx'
      cases hf : failure (openOn uri kind target x) with
      | none =>
        rw [hf] at hd
        have hdone := (drive_eq_some hd).1
        simp only [Connector.step, hx, Option.some.injEq, Prod.mk.injEq] at hdone
        rw [← hdone.2] at hmem
        cases hmem
      | some e' =>
        have halone := (failsAlone_iff h).mpr hiso i x kind false c target e' rfl hx htarget hlive hf
        have hcaller := congrArg (fun r => r.callers[i]?) (hs'.symm.trans (congrArg Upstream.conn halone))
        simp only [Connector.getElem?_become hx, if_true, Option.some.injEq] at hcaller
        cases hcaller
    | dies c' => exact ha.elim
    | _ => cases ha

/-- Whoever is about to discard a connection failed on one that had come to its end. -/
def Doomed (s : Upstream) : Prop :=
  ∀ x ∈ s.conn.callers, ∀ c, x.phase = .fails c → c ∈ s.dead

theorem Doomed.step (hd : s.Doomed) (hiso : s.Isolated uri a) (h : s.step uri a = some (s', ev)) :
    s'.Doomed := by
  intro x hx c hc
  rcases connector_of_step h with ⟨c', rfl, -⟩ | ⟨b, -, hb, hdead⟩
  · exact List.mem_cons_of_mem _ (hd x hx c hc)
  · rw [hdead]
    rcases Connector.fails_of_step hb hx hc with hx | hmem
    · exact hd x hx c hc
    · exact dead_of_failed h hiso hmem

theorem doomed_run {log : List (Taken Upstream Act Event)} (h : Exec (step uri) connect log s)
    (hiso : Steps (Isolated uri) log) : s.Doomed := by
  refine h.inv (P := fun log s => Steps (Isolated uri) log → s.Doomed) ?_ ?_ hiso
  · intro _ x hx
    cases hx
  · intro log s a s' ev _ ih hs hiso
    obtain ⟨hlog, ha⟩ := steps_snoc.mp hiso
    exact (ih hlog).step ha hs

/-- What is discarded had come to its end. -/
theorem dead_of_discarded {c f : ConnId} (hi : s.conn.Inv) (hd : s.Doomed) (ht : s.Timely a)
    (h : s.step uri a = some (s', ev)) (hmem : .discarded (some c) f ∈ ev) : c ∈ s.dead := by
  rcases connector_of_step h with ⟨c', -, rfl⟩ | ⟨b, ha, hb, -⟩
  · cases hmem
  · obtain ⟨i, kind, rfl, hx, hslot⟩ := Connector.discarded_of_step hb hmem
    have hinv : a = .invalidate i := by
      cases a with
      | invalidate j =>
        cases ha
        rfl
      | answered j x =>
        obtain ⟨err, he⟩ := ha
        cases he
      | dies c' => exact ha.elim
      | _ => cases ha
    subst hinv
    have hcf : c = f := (Connector.timely_iff hi hb).mp ht c f hmem
    rw [hcf]
    exact hd _ (List.mem_of_getElem? hx) f rfl

/-- **A target is the business of its own request in exactly the runs in which every request is
clean.** Every request that fails on a connection that is alive ends with its error and changes nothing
else, if and only if each request that is answered there at the first attempt has a target that is a URI
and is not ended by an error of its stream. If also nobody comes to empty the slot late, then only
connections that have come to their end are discarded, and the others stay in the slot. -/
theorem target_isolation {log : List (Taken Upstream Act Event)} (h : Exec (step uri) connect log s) :
    ((∀ t ∈ log, ∀ s', t.pre.step uri t.act = some (s', t.ev) → t.pre.FailsAlone uri t.act s') ↔
        Steps (Isolated uri) log) ∧
      (Steps (Isolated uri) log → Steps Timely log →
        ∀ t ∈ log, ∀ s', t.pre.step uri t.act = some (s', t.ev) →
          (∀ c f, .discarded (some c) f ∈ t.ev → c ∈ t.pre.dead) ∧
          ∀ c, t.pre.conn.slot = some c → c ∉ t.pre.dead → s'.conn.slot = some c) := by
  constructor
  · constructor
    · intro hall t ht
      obtain ⟨log', s', -, -, hs⟩ := h.pre_reached t ht
      exact (failsAlone_iff hs).mp (hall t ht s' hs)
    · intro hiso t ht s' hs
      exact (failsAlone_iff hs).mpr (hiso t ht)
  · intro hiso htimely t ht s' hs
    obtain ⟨log', -, hrun, hpre, -⟩ := h.pre_reached t ht
    have hi := inv_run hrun
    have hdoomed := doomed_run hrun fun t' ht' => hiso t' (hpre.subset ht')
    have hdead : ∀ c f, .discarded (some c) f ∈ t.ev → c ∈ t.pre.dead :=
      fun c f => dead_of_discarded hi hdoomed (htimely t ht) hs
    refine ⟨hdead, ?_⟩
    intro c hslot hlive
    rcases connector_of_step hs with ⟨c', rfl, -⟩ | ⟨b, -, hb, -⟩
    · exact hslot
    · rcases Connector.slot_of_step hi hb hslot with hkept | ⟨f, hmem⟩
      · exact hkept
      · exact absurd (hdead c f hmem) hlive

end

instance (uri : String → Except String Unit) (target : String) (x : Exchange) :
    Decidable (Clean uri target x) :=
  inferInstanceAs (Decidable (uri target = .ok () ∧ ∀ e ∈ x.error, e.scope = .connection))

instance (uri : String → Except String Unit) (s : Upstream) (a : Act) : Decidable (s.Isolated uri a) :=
  match a with
  | .answered i x =>
    match hx : s.conn.callers[i]?, ht : s.targets[i]? with
    | some ⟨_, .opens false c⟩, some target =>
      decidable_of_iff (c ∉ s.dead → Clean uri target x) (by simp [Isolated, hx, ht])
    | some ⟨_, .opens true _⟩, _ => isTrue (by simp [Isolated, hx])
    | some ⟨_, .asks _⟩, _ => isTrue (by simp [Isolated, hx])
    | some ⟨_, .dials _⟩, _ => isTrue (by simp [Isolated, hx])
    | some ⟨_, .fails _⟩, _ => isTrue (by simp [Isolated, hx])
    | some ⟨_, .done _⟩, _ => isTrue (by simp [Isolated, hx])
    | some ⟨_, .dropped⟩, _ => isTrue (by simp [Isolated, hx])
    | none, _ => isTrue (by simp [Isolated, hx])
    | _, none => isTrue (by simp [Isolated, ht])
  | .call .. | .get _ | .dialed .. | .invalidate _ | .cancel _ | .dies _ => isTrue trivial

instance (s : Upstream) (a : Act) : Decidable (s.Timely a) :=
  match a with
  | .invalidate i => inferInstanceAs (Decidable (s.conn.Timely (.invalidate i)))
  | .call .. | .get _ | .dialed .. | .answered .. | .cancel _ | .dies _ => isTrue trivial

/-- A parser that, as the one of `http` does, refuses the empty text. -/
def refusesEmpty (target : String) : Except String Unit :=
  if target = "" then .error "empty string" else .ok ()

/-- An exit that answers with a status. -/
def answer (code : Nat) : Exchange := ⟨.ok 0, .ok code⟩

/-- The exit refuses a target with a status, and later the connection is at its end: only then it is
replaced. -/
def refusedThenLost : List Act :=
  [.call .tcp "blocked:80", .get 0, .answered 0 (answer 502), .dies 0, .call .udp "dns:53", .get 1,
    .answered 1 ⟨.error ⟨.connection, "closed"⟩, .ok 200⟩, .invalidate 1, .get 1, .dialed 1 none,
    .answered 1 (answer 200)]

theorem target_isolation_of_status :
    ∃ log s, Exec (step refusesEmpty) connect log s ∧ Steps (Isolated refusesEmpty) log ∧
      s.conn.slot = some 1 ∧
      ∀ t ∈ log, ∀ s', t.pre.step refusesEmpty t.act = some (s', t.ev) →
        t.pre.FailsAlone refusesEmpty t.act s' ∧ ∀ c f, .discarded (some c) f ∈ t.ev → c ∈ t.pre.dead := by
  obtain ⟨log, s, h, hiso, htimely, hslot⟩ := exec_reaches (step refusesEmpty) connect refusedThenLost
    (fun log s => Steps (Isolated refusesEmpty) log ∧ Steps Timely log ∧ s.conn.slot = some 1) (by decide)
  refine ⟨log, s, h, hiso, hslot, ?_⟩
  intro t ht s' hs
  exact ⟨(target_isolation h).1.mpr hiso t ht s' hs,
    ((target_isolation h).2 hiso htimely t ht s' hs).1⟩

/-- The target of one caller is the empty text. No connection has failed, and the one that everybody
shares is taken out of the slot. -/
theorem empty_target_discards :
    ¬∀ log s, Exec (step refusesEmpty) connect log s → Steps Timely log →
      (∀ c, .failed c ∈ shown log → c ∈ s.dead) ∧
        ∀ c f, .discarded (some c) f ∈ shown log → c ∈ s.dead := by
  intro hclaim
  obtain ⟨log, s, h, htimely, hshown, hdead⟩ := exec_reaches (step refusesEmpty) connect
    [.call .tcp "", .get 0, .answered 0 (answer 200), .invalidate 0]
    (fun log s => Steps Timely log ∧ shown log = [.failed 0, .discarded (some 0) 0] ∧ s.dead = [])
    (by decide)
  have hmem := (hclaim log s h htimely).2 0 0 (by rw [hshown]; decide)
  rw [hdead] at hmem
  cases hmem

end Upstream

end Leshiy.Quic
