import Leshiy.Mux.Basic
import Leshiy.Reality.Usage

/-!
# Revocation of a live session

The accept loop of `serve_connection` (`leshiy-reality/src/server.rs`) after takeover. The user was
authorized once; each stream that the client opens gets a relay by its kind, and each relay asks the user
store again: all on a timer, and `relay_stream` also when it reports usage. The timer of `relay_stream`
skips its immediate first tick; `datagram_expired` does not, but it is one of three futures that are
polled in any order.

`relay_datagram` and `relay_icmp` differ in what goes out (echo requests only), in the time to expiry and
in what they do to the text of a message. Of a message only the length is kept here.
-/

namespace Leshiy.Reality

open Leshiy.Lib Leshiy.Mux

/-- A relay of datagrams, in one or the other kind. -/
structure DatagramRelay where
  up : FlowPhase
  down : FlowPhase
  result : Option (Except String Unit)

/-- What wakes a relay: besides what wakes `relay_stream`, a message that is no echo request, the answer
of the socket to a datagram, and the time to expiry. The timers are those of the session's clock. -/
inductive RelayWake where
  | received (d : Dir) (n : Nat)
  | ignored
  | ready (d : Dir)
  | forwarded (d : Dir) (ok : Bool)
  | ended (d : Dir)
  | failed (d : Dir) (msg : String)
  | tick
  | idle
  deriving DecidableEq, Repr

namespace DatagramRelay

def start : DatagramRelay := ⟨.reads, .reads, none⟩

def phase (r : DatagramRelay) (d : Dir) : FlowPhase := d.pick r.up r.down

def enter (r : DatagramRelay) (d : Dir) (p : FlowPhase) : DatagramRelay :=
  match d with
  | .up => { r with up := p }
  | .down => { r with down := p }

def finish (r : DatagramRelay) (res : Except String Unit) : DatagramRelay := { r with result := some res }

/-- `relay_datagram` and `relay_icmp`. -/
def wake (job : Job) (kind : StreamKind) (store : InMemoryUserStore) (now : UInt64) (r : DatagramRelay) :
    RelayWake → Option (InMemoryUserStore × DatagramRelay × List UsageEvent)
  | .received d n =>
    match r.phase d with
    | .reads => some (store, r.enter d (job.next d [n]), [])
    | _ => none
  | .ignored =>
    match r.up, kind with
    | .reads, .icmp => some (store, r, [])
    | _, _ => none
  | .ready d =>
    match r.phase d with
    | .throttled n rest => some (store, r.enter d (.forwards n rest), [])
    | _ => none
  | .forwarded d ok =>
    match r.phase d, d, ok with
    -- `if let Ok(n) = udp.send(&b).await`
    | .forwards _ _, .up, false => some (store, r.enter d .reads, [])
    | .forwards _ _, .down, false => some (store, r.finish (.error "malformed"), [])
    | .forwards n _, d, true =>
      let rep := job.report store (d.pick n 0) (d.pick 0 n)
      some (rep.1, r.enter d .reads, [.forwarded d n, rep.2])
    | _, _, _ => none
  | .ended _ => none
  | .failed d _ =>
    match r.phase d with
    | .reads => some (store, r.finish (.ok ()), [])
    | _ => none
  | .tick =>
    if store.stillAllowed job.id now then some (store, r, []) else some (store, r.finish (.ok ()), [])
  | .idle => some (store, r.finish (.ok ()), [])

end DatagramRelay

/-- Where the task of a stream is: it opens the egress, relays, or has returned without a relay. -/
inductive RelayPhase where
  | opening
  | stream (up down : Flow) (result : Option (Except String Unit))
  | datagram (r : DatagramRelay)
  | refused

structure SessionRelay where
  kind : StreamKind
  phase : RelayPhase
  /-- How many times its timer has ticked. -/
  ticks : Nat

/-- A session after takeover. The clock counts seconds. -/
structure LiveSession where
  store : InMemoryUserStore
  now : UInt64
  relays : List SessionRelay

/-- Others change the store, time passes, the client opens a stream, its egress is there or not, and its
relay wakes up. -/
inductive SessionAct where
  | admin (op : StoreOp)
  | clock (now : UInt64)
  | accept (kind : StreamKind)
  | opened (i : Nat) (ok : Bool)
  | wakes (i : Nat) (w : RelayWake)

namespace SessionRelay

/-- What `relay_stream` is woken by. -/
def streamWake (now : UInt64) : RelayWake → Option Wake
  | .received d n => some (.received d [n])
  | .ready d => some (.ready d)
  | .forwarded d true => some (.forwarded d now)
  | .forwarded d false => some (.failed d "io")
  | .ended d => some (.ended d)
  | .failed d msg => some (.failed d msg)
  | .tick => some (.tick now)
  | .ignored | .idle => none

/-- The relay once its egress is open. -/
def run (kind : StreamKind) : RelayPhase :=
  match kind with
  | .tcp => .stream ⟨.reads, 0⟩ ⟨.reads, 0⟩ none
  | .udp | .icmp => .datagram .start

def countTick (r : SessionRelay) (w : RelayWake) : Nat := if w = .tick then r.ticks + 1 else r.ticks

def wake (job : Job) (store : InMemoryUserStore) (now : UInt64) (r : SessionRelay) (w : RelayWake) :
    Option (InMemoryUserStore × SessionRelay × List UsageEvent) :=
  match r.phase with
  | .stream up down none =>
    match streamWake now w with
    | some w' =>
      match (StreamRelay.mk store up down none).wake job w' with
      | some (s, ev) => some (s.store, { r with phase := .stream s.up s.down s.result, ticks := r.countTick w }, ev)
      | none => none
    | none => none
  | .datagram ⟨up, down, none⟩ =>
    match (DatagramRelay.mk up down none).wake job r.kind store now w with
    | some (store', r', ev) => some (store', { r with phase := .datagram r', ticks := r.countTick w }, ev)
    | none => none
  | _ => none

/-! ## A relay that has had no data -/

/-- It has returned, or neither direction has got anything. -/
def Unused (r : SessionRelay) : Prop :=
  match r.phase with
  | .opening | .refused => True
  | .stream up down result => result.isSome ∨ (up.phase = .reads ∧ down.phase = .reads)
  | .datagram ⟨up, down, result⟩ => result.isSome ∨ (up = .reads ∧ down = .reads)

def Running (r : SessionRelay) : Prop :=
  match r.phase with
  | .opening => True
  | .refused => False
  | .stream _ _ result => result = none
  | .datagram r => r.result = none

/-- It has had no data, and after its first check it runs no more. -/
structure Fresh (r : SessionRelay) : Prop where
  unused : r.Unused
  checked : 0 < r.ticks → ¬ r.Running

variable {job : Job} {store store' : InMemoryUserStore} {now : UInt64} {r r' : SessionRelay}
  {w : RelayWake} {ev : List UsageEvent}

theorem forwarded_not_mem_finish (s : StreamRelay) (res : Except String Unit) (d : Dir) (n : Nat) :
    .forwarded d n ∉ (s.finish job res).2 := by
  unfold StreamRelay.finish Job.report
  rw [List.mem_singleton]
  split <;> nofun

/-- Without data a `relay_stream` of a user that is no longer allowed can only return. -/
theorem streamWake_unused {s s' : StreamRelay} {w' : Wake} (hw : streamWake now w = some w')
    (hdata : ∀ d n, w ≠ .received d n) (hrev : s.store.stillAllowed job.id now = false)
    (hreads : ∀ d, (s.flow d).phase = .reads) (hmode : job.mode = .relayStream)
    (h : s.wake job w' = some (s', ev)) :
    ∃ res, (s', ev) = s.finish job res := by
  have hfailed : ∀ d msg, s.wake job (.failed d msg) = some (s', ev) → ∃ res, (s', ev) = s.finish job res := by
    intro d msg h
    simp only [StreamRelay.wake, hreads, hmode] at h
    cases d with
    | up => exact ⟨_, (Option.some.inj h).symm⟩
    | down => exact ⟨_, (Option.some.inj h).symm⟩
  cases w with
  | received d n => exact absurd rfl (hdata d n)
  | ready d =>
    cases hw
    simp [StreamRelay.wake, hreads] at h
  | forwarded d ok =>
    cases ok with
    | true =>
      cases hw
      simp [StreamRelay.wake, hreads] at h
    | false =>
      cases hw
      exact hfailed d _ h
  | ended d =>
    cases hw
    simp only [StreamRelay.wake, hreads, hmode] at h
    exact ⟨_, (Option.some.inj h).symm⟩
  | failed d msg =>
    cases hw
    exact hfailed d msg h
  | tick =>
    cases hw
    simp only [StreamRelay.wake, hrev] at h
    exact ⟨_, (Option.some.inj h).symm⟩
  | ignored | idle => cases hw

/-- Nor can a relay of datagrams do more than skip a message. -/
theorem datagramWake_unused {kind : StreamKind} {dr dr' : DatagramRelay}
    (hdata : ∀ d n, w ≠ .received d n) (hrev : store.stillAllowed job.id now = false)
    (hreads : ∀ d, dr.phase d = .reads) (h : dr.wake job kind store now w = some (store', dr', ev)) :
    ev = [] ∧ ((w = .ignored ∧ dr' = dr) ∨ dr'.result.isSome) := by
  cases w with
  | received d n => exact absurd rfl (hdata d n)
  | ready d | forwarded d ok => simp [DatagramRelay.wake, hreads] at h
  | ended d => cases h
  | ignored =>
    simp only [DatagramRelay.wake] at h
    split at h
    · cases h
      exact ⟨rfl, .inl ⟨rfl, rfl⟩⟩
    · cases h
  | failed d msg =>
    simp only [DatagramRelay.wake, hreads] at h
    cases h
    exact ⟨rfl, .inr rfl⟩
  | tick =>
    simp only [DatagramRelay.wake, hrev] at h
    cases h
    exact ⟨rfl, .inr rfl⟩
  | idle =>
    cases h
    exact ⟨rfl, .inr rfl⟩

/-- A relay that has had no data when the user is no longer allowed gets none and forwards none. -/
theorem Fresh.wake (h : r.Fresh) (hmode : job.mode = .relayStream)
    (hdata : ∀ d n, w = .received d n → 0 < r.ticks) (hrev : store.stillAllowed job.id now = false)
    (hs : r.wake job store now w = some (store', r', ev)) :
    r'.Fresh ∧ ∀ d n, .forwarded d n ∉ ev := by
  obtain ⟨kind, phase, ticks⟩ := r
  obtain ⟨hunused, hchecked⟩ := h
  simp only [SessionRelay.wake] at hs
  split at hs
  · rename_i up down
    have hnodata : ∀ d n, w ≠ .received d n := fun d n hw => hchecked (hdata d n hw) rfl
    obtain hdone | ⟨hup, hdown⟩ := hunused
    · cases hdone
    split at hs
    · rename_i w' hw
      split at hs
      · rename_i s₁ ev₁ hwake
        obtain ⟨res, hfin⟩ := streamWake_unused hw hnodata hrev (fun d => by cases d <;> assumption) hmode hwake
        cases hs
        obtain rfl : s₁ = _ := congrArg Prod.fst hfin
        obtain rfl : ev = _ := congrArg Prod.snd hfin
        refine ⟨⟨.inl rfl, fun _ => ?_⟩, forwarded_not_mem_finish _ _⟩
        show some res ≠ none
        nofun
      · cases hs
    · cases hs
  · rename_i up down
    have hnodata : ∀ d n, w ≠ .received d n := fun d n hw => hchecked (hdata d n hw) rfl
    obtain hdone | ⟨hup, hdown⟩ := hunused
    · cases hdone
    split at hs
    · rename_i store₁ dr ev₁ hwake
      cases hs
      have hreads : ∀ d, DatagramRelay.phase ⟨up, down, none⟩ d = .reads := fun d => by cases d <;> assumption
      obtain ⟨rfl, hdr⟩ := datagramWake_unused hnodata hrev hreads hwake
      refine ⟨?_, by simp⟩
      rcases hdr with ⟨rfl, rfl⟩ | hdone
      · exact ⟨.inr ⟨hup, hdown⟩, hchecked⟩
      · refine ⟨.inl hdone, fun _ hrun => ?_⟩
        rw [show dr.result = none from hrun] at hdone
        cases hdone
    · cases hs
  · cases hs

end SessionRelay

namespace LiveSession

def takeover (store : InMemoryUserStore) (now : UInt64) : LiveSession := ⟨store, now, []⟩

def setRelay (s : LiveSession) (i : Nat) (r : SessionRelay) : LiveSession :=
  { s with relays := s.relays.set i r }

def step (job : Job) (s : LiveSession) : SessionAct → Option (LiveSession × List (Nat × UsageEvent))
  | .admin op => some ({ s with store := op.apply s.store }, [])
  | .clock now => if s.now ≤ now then some ({ s with now := now }, []) else none
  | .accept kind => some ({ s with relays := s.relays ++ [⟨kind, .opening, 0⟩] }, [])
  | .opened i ok =>
    match s.relays[i]? with
    | some ⟨kind, .opening, ticks⟩ =>
      some (s.setRelay i ⟨kind, if ok then SessionRelay.run kind else .refused, ticks⟩, [])
    | _ => none
  | .wakes i w =>
    match s.relays[i]? with
    | some r =>
      match r.wake job s.store s.now w with
      | some (store, r', ev) => some ({ s.setRelay i r' with store := store }, ev.map fun e => (i, e))
      | none => none
    | none => none

/-- `still_allowed` is false. -/
def Revoked (job : Job) (s : LiveSession) : Prop := s.store.stillAllowed job.id s.now = false

/-- No data comes to a relay from the `n`-th on before its first check. -/
def checkedFirst (n : Nat) (s : LiveSession) : SessionAct → Bool
  | .wakes i (.received _ _) => decide (i < n) || s.relays[i]?.all fun r => 0 < r.ticks
  | _ => true

/-- The relays from the `n`-th on have had no data. -/
def FreshFrom (n : Nat) (s : LiveSession) : Prop :=
  ∀ (i : Nat) (r : SessionRelay), n ≤ i → s.relays[i]? = some r → r.Fresh

variable {job : Job} {s s' : LiveSession} {a : SessionAct} {ev : List (Nat × UsageEvent)} {n : Nat}

theorem getElem?_setRelay {i j : Nat} {r x : SessionRelay} (h : (s.setRelay i r).relays[j]? = some x) :
    (j = i ∧ x = r) ∨ (j ≠ i ∧ s.relays[j]? = some x) := by
  unfold setRelay at h
  by_cases hj : i = j
  · subst hj
    rw [List.getElem?_set] at h
    simp only [if_true] at h
    split at h
    · exact .inl ⟨rfl, (Option.some.inj h).symm⟩
    · cases h
  · rw [List.getElem?_set_ne hj] at h
    exact .inr ⟨Ne.symm hj, h⟩

theorem FreshFrom.accept (h : s.FreshFrom n) (kind : StreamKind) :
    ({ s with relays := s.relays ++ [⟨kind, .opening, 0⟩] } : LiveSession).FreshFrom n := by
  intro i r hi hr
  by_cases hlt : i < s.relays.length
  · rw [List.getElem?_append_left hlt] at hr
    exact h i r hi hr
  · rw [List.getElem?_append_right (Nat.le_of_not_lt hlt)] at hr
    cases hk : i - s.relays.length with
    | zero =>
      rw [hk] at hr
      cases hr
      exact ⟨trivial, nofun⟩
    | succ k => simp [hk] at hr

theorem FreshFrom.setRelay (h : s.FreshFrom n) {i : Nat} {r : SessionRelay} (hr : n ≤ i → r.Fresh) :
    (s.setRelay i r).FreshFrom n := by
  intro j x hj hx
  rcases getElem?_setRelay hx with ⟨rfl, rfl⟩ | ⟨-, hx⟩
  · exact hr hj
  · exact h j x hj hx

/-- A step while the user is not allowed. -/
theorem FreshFrom.step (h : s.FreshFrom n) (hmode : job.mode = .relayStream) (hrev : s.Revoked job)
    (hfirst : s.checkedFirst n a = true) (hs : s.step job a = some (s', ev)) :
    s'.FreshFrom n ∧ ∀ i, n ≤ i → ∀ d k, (i, .forwarded d k) ∉ ev := by
  cases a with simp only [step] at hs
  | admin op =>
    cases hs
    exact ⟨h, by simp⟩
  | clock now =>
    split at hs
    · cases hs
      exact ⟨h, by simp⟩
    · cases hs
  | accept kind =>
    cases hs
    exact ⟨h.accept kind, by simp⟩
  | opened i ok =>
    split at hs
    · rename_i kind ticks hr
      cases hs
      refine ⟨h.setRelay fun hi => ?_, by simp⟩
      have hzero : ¬ 0 < ticks := fun hpos => (h i _ hi hr).checked hpos trivial
      refine ⟨?_, fun hpos => absurd hpos hzero⟩
      cases ok with
      | false => trivial
      | true => cases kind <;> exact .inr ⟨rfl, rfl⟩
    · cases hs
  | wakes i w =>
    split at hs
    · rename_i r hr
      split at hs
      · rename_i store r' ev' hwake
        cases hs
        have hfresh : n ≤ i → r'.Fresh ∧ ∀ d k, .forwarded d k ∉ ev' := by
          intro hi
          refine (h i r hi hr).wake hmode ?_ hrev hwake
          rintro d k rfl
          simpa [checkedFirst, hr, Nat.not_lt.mpr hi] using hfirst
        refine ⟨h.setRelay fun hi => (hfresh hi).1, ?_⟩
        intro j hj d k hmem
        obtain ⟨e, he, heq⟩ := List.mem_map.mp hmem
        cases heq
        exact (hfresh hj).2 d k he
      · cases hs
    · cases hs

variable {log : List (Taken LiveSession SessionAct (Nat × UsageEvent))}

theorem freshFrom_run (hmode : job.mode = .relayStream) (h0 : s.FreshFrom n)
    (h : Exec (step job) s log s') (hrev : ∀ t ∈ log, t.pre.Revoked job)
    (hfirst : Steps (fun s a => s.checkedFirst n a = true) log) :
    s'.FreshFrom n ∧ ∀ i, n ≤ i → ∀ d k, (i, .forwarded d k) ∉ shown log := by
  induction h with
  | nil => exact ⟨h0, by simp⟩
  | @snoc log s₁ s₂ a ev hrun hs ih =>
    obtain ⟨hlog, ha⟩ := steps_snoc.mp hfirst
    obtain ⟨hfresh, hnot⟩ := ih (fun t ht => hrev t (List.mem_append_left _ ht)) hlog
    obtain ⟨hfresh', hnot'⟩ := hfresh.step hmode (hrev ⟨s₁, a, ev⟩ (by simp)) ha hs
    refine ⟨hfresh', fun i hi d k hmem => ?_⟩
    rw [shown_snoc, List.mem_append] at hmem
    rcases hmem with hmem | hmem
    · exact hnot i hi d k hmem
    · exact hnot' i hi d k hmem

/-- **A revoked user gets nothing through a new stream**, from any state of a session on and in every run
in which no data comes to the relay of a stream that was accepted since before that relay has looked at
its timer for the first time. -/
theorem revocation_reaches_streams (id : ShortId) (limited : Dir → Bool)
    (h : Exec (step ⟨.relayStream, id, limited⟩) s log s')
    (hrev : ∀ t ∈ log, t.pre.store.stillAllowed id t.pre.now = false)
    (hfirst : Steps (fun s₁ a => s₁.checkedFirst s.relays.length a = true) log) :
    ∀ i, s.relays.length ≤ i → ∀ d k, (i, .forwarded d k) ∉ shown log := by
  have h0 : s.FreshFrom s.relays.length := by
    intro i r hi hr
    rw [List.getElem?_eq_none hi] at hr
    cases hr
  exact (freshFrom_run rfl h0 h hrev hfirst).2

/-- A session whose user has been disabled. -/
def disabled : LiveSession :=
  takeover ((InMemoryUserStore.empty.upsert StreamRelay.unlimited).setEnabled StreamRelay.unlimited.shortId false).2 0

/-- A stream of the disabled user that is silent until the timer ticks: the relay has returned. -/
theorem revocation_reaches_streams_silent : ∃ log s,
    Exec (step ⟨.relayStream, StreamRelay.unlimited.shortId, fun _ => false⟩) disabled log s ∧
      (s.relays.map fun r => r.ticks) = [1] ∧ ∀ i, 0 ≤ i → ∀ d k, (i, .forwarded d k) ∉ shown log := by
  obtain ⟨log, s, hrun, hrev, hfirst, hticks⟩ := exec_reaches
    (step ⟨.relayStream, StreamRelay.unlimited.shortId, fun _ => false⟩) disabled
    [.accept .tcp, .opened 0 true, .wakes 0 .tick]
    (fun log s => (∀ t ∈ log, t.pre.store.stillAllowed StreamRelay.unlimited.shortId t.pre.now = false) ∧
      Steps (fun s₁ a => s₁.checkedFirst 0 a = true) log ∧ (s.relays.map fun r => r.ticks) = [1])
    (by decide)
  exact ⟨log, s, hrun, hticks, revocation_reaches_streams _ _ hrun hrev hfirst⟩

/-- The user is disabled in a live session, opens a new stream and sends: the bytes go out. -/
theorem revoked_user_relays :
    ¬ ∀ (id : ShortId) (limited : Dir → Bool) (store : InMemoryUserStore) (now : UInt64) (s s' : LiveSession)
        (before after : List (Taken LiveSession SessionAct (Nat × UsageEvent))),
      store.stillAllowed id now = true →
      Exec (step ⟨.relayStream, id, limited⟩) (takeover store now) before s →
      Exec (step ⟨.relayStream, id, limited⟩) s after s' →
      (∀ t ∈ after, t.pre.store.stillAllowed id t.pre.now = false) →
      ∀ i, s.relays.length ≤ i → ∀ d k, (i, .forwarded d k) ∉ shown after := by
  intro hclaim
  have hbefore : Exec (step ⟨.relayStream, StreamRelay.unlimited.shortId, fun _ => false⟩)
      (takeover (InMemoryUserStore.empty.upsert StreamRelay.unlimited) 0)
      [⟨_, .admin (.setEnabled StreamRelay.unlimited.shortId false), []⟩] disabled := Exec.nil.snoc rfl
  obtain ⟨after, s', hafter, hrev, hsent⟩ := exec_reaches
    (step ⟨.relayStream, StreamRelay.unlimited.shortId, fun _ => false⟩) disabled
    [.accept .tcp, .opened 0 true, .wakes 0 (.received .up 10), .wakes 0 (.forwarded .up true)]
    (fun log _ => (∀ t ∈ log, t.pre.store.stillAllowed StreamRelay.unlimited.shortId t.pre.now = false) ∧
      (0, .forwarded .up 10) ∈ shown log) (by decide)
  exact hclaim _ _ _ _ _ _ _ _ (by decide) hbefore hafter hrev 0 (Nat.le_refl _) .up 10 hsent

end LiveSession

end Leshiy.Reality
