import Mathlib.Data.Finset.Card
import Mathlib.Data.Finset.Range
import Leshiy.Lib.Run

/-!
# The shared connection to an exit

`ConnectorEgress` (`leshiy-quic/src/connector.rs`) keeps one connection to Exit B in a slot behind a
mutex. Every `open` and `open_udp` takes the connection from the slot, uses it outside the lock, and on
a transport failure empties the slot and tries once more. Connections are numbered in the order in which
they were established.
-/

namespace Leshiy.Quic

open Leshiy.Lib

inductive QuicError where
  | io (msg : String)
  | conn (msg : String)
  | protocol (msg : String)
  | connectStatus (code : Nat)
  deriving DecidableEq, Repr

def QuicError.text : QuicError → String
  | .io msg => "io: " ++ msg
  | .conn msg => "connection: " ++ msg
  | .protocol msg => "protocol: " ++ msg
  | .connectStatus code => "connect status " ++ toString code

abbrev ConnId := Nat

/-- `open` or `open_udp`. They differ in the request they make and in one message. -/
inductive Kind where
  | tcp
  | udp
  deriving DecidableEq, Repr

def Kind.label : Kind → String
  | .tcp => "connector: "
  | .udp => "connector udp: "

/-- Where a caller is: it waits for the lock of `get_or_connect`, dials under the lock, waits for the
response on a connection, or waits for the lock of `invalidate`. The flag says that it has invalidated
before. -/
inductive Phase where
  | asks (retry : Bool)
  | dials (retry : Bool)
  | opens (retry : Bool) (c : ConnId)
  | fails (c : ConnId)
  | done (res : Except String ConnId)
  | dropped

/-- The connection that a caller is on, or has failed on. -/
def Phase.conn : Phase → Option ConnId
  | .opens _ c | .fails c => some c
  | _ => none

structure Caller where
  kind : Kind
  phase : Phase

/-- The slot, how many connections have been established, who holds the lock across an await, and the
callers. -/
structure Connector where
  slot : Option ConnId
  established : Nat
  holder : Option Nat
  callers : List Caller

/-- What can be seen: a connection was established, a caller failed on one and is going to discard it,
and what a caller found in the slot when it did. -/
inductive Event where
  | established (c : ConnId)
  | failed (c : ConnId)
  | discarded (held : Option ConnId) (failedOn : ConnId)
  deriving DecidableEq, Repr

namespace Connector

/-- What can happen next: a new call; a caller gets the lock of `get_or_connect`; its dial ends (with a
timeout among the errors); its request is answered; it gets the lock of `invalidate`; or it is dropped. -/
inductive Act where
  | call (kind : Kind)
  | get (i : Nat)
  | dialed (i : Nat) (err : Option QuicError)
  | opened (i : Nat) (err : Option QuicError)
  | invalidate (i : Nat)
  | cancel (i : Nat)
  deriving DecidableEq

/-- `connect`: the first connection is established eagerly. -/
def connect : Connector := ⟨some 0, 1, none, []⟩

def become (s : Connector) (i : Nat) (kind : Kind) (p : Phase) : Connector :=
  { s with callers := s.callers.set i ⟨kind, p⟩ }

/-- A request that was answered with an error: a status is the caller's own problem, anything else on
the first attempt counts as the end of the connection. -/
def onError (kind : Kind) (retry : Bool) (c : ConnId) : QuicError → Phase × List Event
  | .connectStatus code => (.done (.error (kind.label ++ (QuicError.connectStatus code).text)), [])
  | e => if retry then (.done (.error (kind.label ++ e.text)), []) else (.fails c, [.failed c])

def step (s : Connector) : Act → Option (Connector × List Event)
  | .call kind => some ({ s with callers := s.callers ++ [⟨kind, .asks false⟩] }, [])
  | .get i =>
    match s.callers[i]?, s.holder with
    | some ⟨kind, .asks retry⟩, none =>
      match s.slot with
      | some c => some (s.become i kind (.opens retry c), [])
      | none => some ({ s.become i kind (.dials retry) with holder := some i }, [])
    | _, _ => none
  | .dialed i err =>
    match s.callers[i]? with
    | some ⟨kind, .dials retry⟩ =>
      match err with
      | none =>
        some ({ s.become i kind (.opens retry s.established) with
            slot := some s.established, established := s.established + 1, holder := none },
          [.established s.established])
      | some e =>
        let label := if retry then "connector reconnect: " else "connector connect: "
        some ({ s.become i kind (.done (.error (label ++ e.text))) with holder := none }, [])
    | _ => none
  | .opened i err =>
    match s.callers[i]? with
    | some ⟨kind, .opens retry c⟩ =>
      match err with
      | none => some (s.become i kind (.done (.ok c)), [])
      | some e =>
        let r := onError kind retry c e
        some (s.become i kind r.1, r.2)
    | _ => none
  | .invalidate i =>
    match s.callers[i]?, s.holder with
    | some ⟨kind, .fails c⟩, none =>
      some ({ s.become i kind (.asks true) with slot := none }, [.discarded s.slot c])
    | _, _ => none
  | .cancel i =>
    match s.callers[i]? with
    | some ⟨kind, _⟩ =>
      -- a guard that the caller holds is dropped with it
      some ({ s.become i kind .dropped with
        holder := if s.holder = some i then none else s.holder }, [])
    | none => none

/-! ## One step -/

/-- What a step can do. -/
inductive Stepped (s : Connector) : Act → Connector → List Event → Prop
  | call (kind : Kind) :
    Stepped s (.call kind) { s with callers := s.callers ++ [⟨kind, .asks false⟩] } []
  | take {i kind retry c} (hx : s.callers[i]? = some ⟨kind, .asks retry⟩) (hfree : s.holder = none)
      (hslot : s.slot = some c) : Stepped s (.get i) (s.become i kind (.opens retry c)) []
  | dial {i kind retry} (hx : s.callers[i]? = some ⟨kind, .asks retry⟩) (hfree : s.holder = none)
      (hslot : s.slot = none) :
    Stepped s (.get i) { s.become i kind (.dials retry) with holder := some i } []
  | establish {i kind retry} (hx : s.callers[i]? = some ⟨kind, .dials retry⟩) :
    Stepped s (.dialed i none)
      { s.become i kind (.opens retry s.established) with
        slot := some s.established, established := s.established + 1, holder := none }
      [.established s.established]
  | refuse {i kind retry e res} (hx : s.callers[i]? = some ⟨kind, .dials retry⟩) :
    Stepped s (.dialed i (some e)) { s.become i kind (.done res) with holder := none } []
  | answer {i kind retry c err res} (hx : s.callers[i]? = some ⟨kind, .opens retry c⟩) :
    Stepped s (.opened i err) (s.become i kind (.done res)) []
  | fail {i kind c e} (hx : s.callers[i]? = some ⟨kind, .opens false c⟩) :
    Stepped s (.opened i (some e)) (s.become i kind (.fails c)) [.failed c]
  | invalidate {i kind c} (hx : s.callers[i]? = some ⟨kind, .fails c⟩) (hfree : s.holder = none) :
    Stepped s (.invalidate i) { s.become i kind (.asks true) with slot := none }
      [.discarded s.slot c]
  | cancel {i x} (hx : s.callers[i]? = some x) :
    Stepped s (.cancel i)
      { s.become i x.kind .dropped with holder := if s.holder = some i then none else s.holder } []

theorem stepped_of_step {s s' : Connector} {a : Act} {ev : List Event}
    (h : s.step a = some (s', ev)) : Stepped s a s' ev := by
  cases a with simp only [step] at h
  | call kind =>
    cases h
    exact .call kind
  | get i =>
    split at h
    · next kind retry hx hfree =>
      split at h
      · next c hslot =>
        cases h
        exact .take hx hfree hslot
      · next hslot =>
        cases h
        exact .dial hx hfree hslot
    · cases h
  | dialed i err =>
    split at h
    · next kind retry hx =>
      cases err with
      | none =>
        cases h
        exact .establish hx
      | some e =>
        cases h
        exact .refuse hx
    · cases h
  | opened i err =>
    split at h
    · next kind retry c hx =>
      cases err with
      | none =>
        cases h
        exact .answer hx
      | some e =>
        simp only [onError] at h
        split at h
        · cases h
          exact .answer hx
        · cases retry with
          | true =>
            cases h
            exact .answer hx
          | false =>
            cases h
            exact .fail hx
    · cases h
  | invalidate i =>
    split at h
    · next kind c hx hfree =>
      cases h
      exact .invalidate hx hfree
    · cases h
  | cancel i =>
    split at h
    · next kind p hx =>
      cases h
      exact .cancel hx
    · cases h

/-! ## What always holds -/

structure Inv (s : Connector) : Prop where
  newest : ∀ c, s.slot = some c → c + 1 = s.established
  used : ∀ x ∈ s.callers, ∀ c, x.phase.conn = some c → c < s.established
  locked : ∀ i kind retry, s.callers[i]? = some (Caller.mk kind (.dials retry)) → s.holder = some i
  vacant : s.holder.isSome = true → s.slot = none

section

variable {s s' : Connector} {a : Act} {ev : List Event} {i : Nat} {x : Caller} {kind : Kind}
  {p q : Phase}

theorem getElem?_become (hx : s.callers[i]? = some x) (j : Nat) :
    (s.become i kind p).callers[j]? = if j = i then some ⟨kind, p⟩ else s.callers[j]? := by
  obtain ⟨hlt, -⟩ := List.getElem?_eq_some_iff.mp hx
  show (s.callers.set i _)[j]? = _
  rw [List.getElem?_set]
  by_cases hij : i = j
  · rw [if_pos hij, if_pos hij.symm, if_pos hlt]
  · rw [if_neg hij, if_neg (Ne.symm hij)]

theorem mem_become {y : Caller} (h : y ∈ (s.become i kind p).callers) :
    y ∈ s.callers ∨ y = ⟨kind, p⟩ := by
  rcases List.mem_or_eq_of_mem_set h with h | h
  · exact .inl h
  · exact .inr h

theorem inv_connect : connect.Inv where
  newest := by
    intro c hc
    cases hc
    rfl
  used := by simp [connect]
  locked := by simp [connect]
  vacant := by simp [connect]

/-- A caller that goes on to a phase of its own without touching slot or lock. -/
theorem Inv.become (h : s.Inv) (hx : s.callers[i]? = some x) (hp : ∀ retry, p ≠ .dials retry)
    (hc : ∀ c, p.conn = some c → c < s.established) : (s.become i kind p).Inv where
  newest := h.newest
  used := by
    intro y hy c hyc
    rcases mem_become hy with hy | rfl
    · exact h.used y hy c hyc
    · exact hc c hyc
  locked := by
    intro j kind' retry hj
    rw [getElem?_become hx] at hj
    split at hj
    · cases hj
      exact absurd rfl (hp retry)
    · exact h.locked j kind' retry hj
  vacant := h.vacant

/-- The lock is released by its holder. -/
theorem Inv.release (h : s.Inv) (hx : s.callers[i]? = some ⟨kind, p⟩) (hheld : s.holder = some i)
    (hq : q.conn = none) (hd : ∀ retry, q ≠ .dials retry) :
    { s.become i kind q with holder := none }.Inv where
  newest := h.newest
  used := by
    intro y hy c hyc
    rcases mem_become hy with hy | rfl
    · exact h.used y hy c hyc
    · cases hq.symm.trans hyc
  locked := by
    intro j kind' retry hj
    have hj' : (s.become i kind q).callers[j]? = some ⟨kind', .dials retry⟩ := hj
    rw [getElem?_become hx] at hj'
    split at hj'
    · cases hj'
      exact absurd rfl (hd retry)
    · next hji =>
      have hold := h.locked j kind' retry hj'
      rw [hheld] at hold
      cases hold
      exact absurd rfl hji
  vacant := by simp

theorem Inv.step (h : s.Inv) (hs : s.step a = some (s', ev)) : s'.Inv := by
  cases stepped_of_step hs with
  | call kind =>
    refine ⟨h.newest, ?_, ?_, h.vacant⟩
    · intro y hy c hyc
      rcases List.mem_append.mp hy with hy | hy
      · exact h.used y hy c hyc
      · rw [List.mem_singleton.mp hy] at hyc
        cases hyc
    · intro j kind' retry hj
      have hj' : (s.callers ++ [⟨kind, .asks false⟩])[j]? = some ⟨kind', .dials retry⟩ := hj
      rw [List.getElem?_append] at hj'
      split at hj'
      · exact h.locked j kind' retry hj'
      · have hmem := List.mem_of_getElem? hj'
        rw [List.mem_singleton] at hmem
        cases hmem
  | take hx hfree hslot =>
    refine h.become hx (by simp) fun c' hc' => ?_
    cases hc'
    exact Nat.lt_of_succ_le (Nat.le_of_eq (h.newest _ hslot))
  | @dial i kind retry hx hfree hslot =>
    refine ⟨h.newest, ?_, ?_, fun _ => hslot⟩
    · intro y hy c hyc
      rcases mem_become hy with hy | rfl
      · exact h.used y hy c hyc
      · cases hyc
    · intro j kind' retry' hj
      have hj' : (s.become i kind (.dials retry)).callers[j]? = some ⟨kind', .dials retry'⟩ := hj
      rw [getElem?_become hx] at hj'
      split at hj'
      · next hji => rw [hji]
      · -- nobody else dials while the lock is free
        cases hfree.symm.trans (h.locked j kind' retry' hj')
  | @establish i kind retry hx =>
    have hheld := h.locked i kind retry hx
    refine ⟨?_, ?_, ?_, by simp⟩
    · intro c hc
      cases hc
      rfl
    · intro y hy c hyc
      show c < s.established + 1
      rcases mem_become hy with hy | rfl
      · exact Nat.lt_succ_of_lt (h.used y hy c hyc)
      · cases hyc
        exact Nat.lt_succ_self _
    · intro j kind' retry' hj
      have hj' : (s.become i kind (.opens retry s.established)).callers[j]? =
        some ⟨kind', .dials retry'⟩ := hj
      rw [getElem?_become hx] at hj'
      split at hj'
      · cases hj'
      · next hji =>
        have hold := h.locked j kind' retry' hj'
        rw [hheld] at hold
        cases hold
        exact absurd rfl hji
  | refuse hx => exact h.release hx (h.locked _ _ _ hx) rfl (by simp)
  | answer hx => exact h.become hx (by simp) fun c hc => nomatch hc
  | fail hx =>
    refine h.become hx (by simp) fun c' hc' => ?_
    cases hc'
    exact h.used _ (List.mem_of_getElem? hx) _ rfl
  | @invalidate i kind c hx hfree =>
    have hb : (s.become i kind (.asks true)).Inv := h.become hx (by simp) fun c hc => nomatch hc
    exact ⟨fun c hc => (nomatch hc), hb.used, hb.locked, fun _ => rfl⟩
  | @cancel i x hx =>
    by_cases hheld : s.holder = some i
    · rw [if_pos hheld]
      exact h.release hx hheld rfl (by simp)
    · rw [if_neg hheld]
      exact h.become hx (by simp) fun c hc => nomatch hc

/-! ## Runs -/

theorem inv_run {log : List (Taken Connector Act Event)} (h : Exec step connect log s) : s.Inv :=
  h.state_inv inv_connect fun _ _ _ _ hi hs => hi.step hs

/-- A caller that comes to empty the slot does not find a connection there that was established after
the one on which it failed. -/
def Timely (s : Connector) : Act → Prop
  | .invalidate i => ∀ kind f, s.callers[i]? = some ⟨kind, .fails f⟩ → ∀ c, s.slot = some c → c ≤ f
  | _ => True

/-- What a step discards. -/
theorem discarded_of_step {c f : ConnId} (hs : s.step a = some (s', ev))
    (hmem : .discarded (some c) f ∈ ev) :
    ∃ i kind, a = .invalidate i ∧ s.callers[i]? = some ⟨kind, .fails f⟩ ∧ s.slot = some c := by
  cases stepped_of_step hs with
  | @invalidate i kind f' hx hfree =>
    obtain ⟨hslot, rfl⟩ := Event.discarded.inj (List.mem_singleton.mp hmem)
    exact ⟨i, kind, rfl, hx, hslot.symm⟩
  | establish hx => cases List.mem_singleton.mp hmem
  | fail hx => cases List.mem_singleton.mp hmem
  | _ => cases hmem

/-- A caller that fails on a connection was at its first attempt. -/
theorem failed_of_step {c : ConnId} (hs : s.step a = some (s', ev)) (hmem : .failed c ∈ ev) :
    ∃ i kind e, a = .opened i (some e) ∧ s.callers[i]? = some ⟨kind, .opens false c⟩ ∧
      s' = s.become i kind (.fails c) := by
  cases stepped_of_step hs with
  | @fail i kind c' e hx =>
    cases List.mem_singleton.mp hmem
    exact ⟨i, kind, e, rfl, hx, rfl⟩
  | establish hx => cases List.mem_singleton.mp hmem
  | invalidate hx hfree => cases List.mem_singleton.mp hmem
  | _ => cases hmem

/-- Who is about to discard a connection was so before or has just failed on it. -/
theorem fails_of_step {c : ConnId} (hs : s.step a = some (s', ev)) (hx : x ∈ s'.callers)
    (hp : x.phase = .fails c) : x ∈ s.callers ∨ .failed c ∈ ev := by
  have hbecome : ∀ {i kind q}, (∀ c, q ≠ Phase.fails c) → x ∈ (s.become i kind q).callers →
      x ∈ s.callers := by
    intro i kind q hq hmem
    rcases mem_become hmem with hmem | rfl
    · exact hmem
    · exact absurd hp (hq c)
  cases stepped_of_step hs with
  | call kind =>
    rcases List.mem_append.mp hx with hx | hx
    · exact .inl hx
    · cases List.mem_singleton.mp hx
      cases hp
  | @fail i kind c' e hi =>
    rcases mem_become hx with hx | rfl
    · exact .inl hx
    · cases hp
      exact .inr (List.mem_singleton.mpr rfl)
  | take => exact .inl (hbecome (by simp) hx)
  | dial => exact .inl (hbecome (by simp) hx)
  | establish => exact .inl (hbecome (by simp) hx)
  | refuse => exact .inl (hbecome (by simp) hx)
  | answer => exact .inl (hbecome (by simp) hx)
  | invalidate => exact .inl (hbecome (by simp) hx)
  | cancel => exact .inl (hbecome (by simp) hx)

/-- A connection leaves the slot only when it is discarded. -/
theorem slot_of_step {c : ConnId} (hi : s.Inv) (hs : s.step a = some (s', ev))
    (hslot : s.slot = some c) : s'.slot = some c ∨ ∃ f, .discarded (some c) f ∈ ev := by
  cases stepped_of_step hs with
  | @establish i kind retry hx =>
    have hnone := hi.vacant (by rw [hi.locked i kind retry hx]; rfl)
    cases hslot.symm.trans hnone
  | @invalidate i kind f hx hfree =>
    rw [hslot]
    exact .inr ⟨f, List.mem_singleton.mpr rfl⟩
  | _ => exact .inl hslot

theorem timely_iff (hi : s.Inv) (hs : s.step a = some (s', ev)) :
    s.Timely a ↔ ∀ c f, .discarded (some c) f ∈ ev → c = f := by
  constructor
  · intro ht c f hmem
    obtain ⟨i, kind, rfl, hx, hslot⟩ := discarded_of_step hs hmem
    have hle := ht kind f hx c hslot
    have hlt := hi.used _ (List.mem_of_getElem? hx) f rfl
    rw [← hi.newest c hslot] at hlt
    exact Nat.le_antisymm hle (Nat.le_of_lt_succ hlt)
  · intro hexact
    cases a with
    | invalidate i =>
      intro kind f hx c hslot
      cases stepped_of_step hs with
      | invalidate hx' hfree =>
        rw [hx] at hx'
        cases hx'
        rw [hslot] at hexact
        exact Nat.le_of_eq (hexact c f (List.mem_singleton.mpr rfl))
    | _ => trivial

theorem exact_iff_timely {log : List (Taken Connector Act Event)} (h : Exec step connect log s) :
    (∀ c f, .discarded (some c) f ∈ shown log → c = f) ↔ Steps Timely log := by
  refine h.inv (P := fun log _ => (∀ c f, .discarded (some c) f ∈ shown log → c = f) ↔ Steps Timely log)
    (by simp) ?_
  intro log s a s' ev hrun ih hs
  rw [steps_snoc, ← ih, timely_iff (inv_run hrun) hs]
  simp only [shown_snoc, List.mem_append]
  constructor
  · intro hall
    exact ⟨fun c f hm => hall c f (.inl hm), fun c f hm => hall c f (.inr hm)⟩
  · rintro ⟨h1, h2⟩ c f (hm | hm)
    · exact h1 c f hm
    · exact h2 c f hm

/-- The connection that a caller has failed on and is going to discard. -/
def failedOn : Event → Option ConnId
  | .failed c => some c
  | _ => none

def isEstablished : Event → Bool
  | .established _ => true
  | _ => false

/-- What has been seen of the run accounts for its connections: every one but the newest has failed, and
the newest has too if the slot is empty. -/
structure Accounts (evs : List Event) (s : Connector) : Prop where
  count : evs.countP isEstablished + 1 = s.established
  failing : ∀ x ∈ s.callers, ∀ c, x.phase = .fails c → .failed c ∈ evs
  replaced : ∀ c, c + 1 < s.established → .failed c ∈ evs
  lost : s.slot = none → .failed (s.established - 1) ∈ evs

theorem accounts_connect : Accounts [] connect where
  count := rfl
  failing := by simp [connect]
  replaced := by
    intro c hc
    simp [connect] at hc
  lost := by simp [connect]

/-- The callers change, but none of them comes to fail on a connection. -/
theorem Accounts.become {evs : List Event} (h : Accounts evs s) (hp : ∀ c, p ≠ .fails c) :
    Accounts evs (s.become i kind p) where
  count := h.count
  failing := by
    intro y hy c hyc
    rcases mem_become hy with hy | rfl
    · exact h.failing y hy c hyc
    · exact absurd hyc (hp c)
  replaced := h.replaced
  lost := h.lost

theorem Accounts.step {evs : List Event} (h : Accounts evs s) (hi : s.Inv) (ht : s.Timely a)
    (hs : s.step a = some (s', ev)) : Accounts (evs ++ ev) s' := by
  cases stepped_of_step hs with
  | call kind =>
    rw [List.append_nil]
    refine ⟨h.count, ?_, h.replaced, h.lost⟩
    intro y hy c hyc
    rcases List.mem_append.mp hy with hy | hy
    · exact h.failing y hy c hyc
    · rw [List.mem_singleton.mp hy] at hyc
      cases hyc
  | take hx hfree hslot =>
    rw [List.append_nil]
    exact h.become (by simp)
  | @dial i kind retry hx hfree hslot =>
    rw [List.append_nil]
    have hb : Accounts evs (s.become i kind (.dials retry)) := h.become (by simp)
    exact ⟨hb.count, hb.failing, hb.replaced, hb.lost⟩
  | @establish i kind retry hx =>
    -- the slot was empty, so the connection that is replaced has failed
    have hlost := h.lost (hi.vacant (by rw [hi.locked i kind retry hx]; rfl))
    have hb : Accounts evs (s.become i kind (.opens retry s.established)) := h.become (by simp)
    refine ⟨?_, ?_, ?_, fun hn => nomatch hn⟩
    · show (evs ++ [Event.established s.established]).countP isEstablished + 1 = s.established + 1
      rw [List.countP_append, ← h.count]
      rfl
    · intro y hy c hyc
      exact List.mem_append_left _ (hb.failing y hy c hyc)
    · intro c hc
      have hc' : c + 1 < s.established + 1 := hc
      rcases Nat.lt_or_ge (c + 1) s.established with hlt | hge
      · exact List.mem_append_left _ (h.replaced c hlt)
      · have hce : c = s.established - 1 := by
          have hpos := h.count
          omega
        exact List.mem_append_left _ (hce ▸ hlost)
  | @refuse i kind retry e res hx =>
    rw [List.append_nil]
    have hb : Accounts evs (s.become i kind (.done res)) := h.become (by simp)
    exact ⟨hb.count, hb.failing, hb.replaced, hb.lost⟩
  | answer hx =>
    rw [List.append_nil]
    exact h.become (by simp)
  | @fail i kind c e hx =>
    refine ⟨?_, ?_, fun c' hc' => List.mem_append_left _ (h.replaced c' hc'),
      fun hn => List.mem_append_left _ (h.lost hn)⟩
    · rw [List.countP_append]
      exact h.count
    · intro y hy c' hyc
      rcases mem_become hy with hy | rfl
      · exact List.mem_append_left _ (h.failing y hy c' hyc)
      · cases hyc
        exact List.mem_append_right _ (List.mem_singleton.mpr rfl)
  | @invalidate i kind c hx hfree =>
    have hb : Accounts evs (s.become i kind (.asks true)) := h.become (by simp)
    refine ⟨?_, ?_, fun c' hc' => List.mem_append_left _ (h.replaced c' hc'), ?_⟩
    · rw [List.countP_append]
      exact h.count
    · intro y hy c' hyc
      exact List.mem_append_left _ (hb.failing y hy c' hyc)
    · -- what was in the slot is what the caller failed on
      intro _
      refine List.mem_append_left _ ?_
      show Event.failed (s.established - 1) ∈ evs
      cases hslot : s.slot with
      | none => exact h.lost hslot
      | some c' =>
        have hcc : c' = c := by
          have hexact := (timely_iff hi hs).mp ht c' c
          rw [hslot] at hexact
          exact hexact (List.mem_singleton.mpr rfl)
        have hnew := hi.newest c' hslot
        have hce : c = s.established - 1 := by
          rw [← hnew, hcc]
          rfl
        rw [← hce]
        exact h.failing _ (List.mem_of_getElem? hx) c rfl
  | @cancel i x hx =>
    rw [List.append_nil]
    have hb : Accounts evs (s.become i x.kind .dropped) := h.become (by simp)
    exact ⟨hb.count, hb.failing, hb.replaced, hb.lost⟩

theorem accounts_run {log : List (Taken Connector Act Event)} (h : Exec step connect log s)
    (ht : Steps Timely log) : Accounts (shown log) s := by
  refine h.inv (P := fun log s => Steps Timely log → Accounts (shown log) s)
    (fun _ => accounts_connect) ?_ ht
  intro log s a s' ev hrun ih hs ht
  obtain ⟨ht', ha⟩ := steps_snoc.mp ht
  rw [shown_snoc]
  exact (ih ht').step (inv_run hrun) ha hs

end

instance (s : Connector) (a : Act) : Decidable (s.Timely a) :=
  match a with
  | .invalidate i =>
    match hx : s.callers[i]?, hc : s.slot with
    | some ⟨kind, .fails f⟩, some c => decidable_of_iff (c ≤ f) (by simp [Timely, hx, hc])
    | _, none => isTrue (by simp [Timely, hc])
    | none, _ => isTrue (by simp [Timely, hx])
    | some ⟨_, .asks _⟩, _ => isTrue (by simp [Timely, hx])
    | some ⟨_, .dials _⟩, _ => isTrue (by simp [Timely, hx])
    | some ⟨_, .opens _ _⟩, _ => isTrue (by simp [Timely, hx])
    | some ⟨_, .done _⟩, _ => isTrue (by simp [Timely, hx])
    | some ⟨_, .dropped⟩, _ => isTrue (by simp [Timely, hx])
  | .call _ | .get _ | .dialed .. | .opened .. | .cancel _ => isTrue trivial

/-- Two callers fail on the first connection, and both say so before either dials. -/
def bothFail : List Act :=
  [.call .tcp, .call .udp, .get 0, .get 1, .opened 0 (some (.conn "closed")),
    .opened 1 (some (.conn "closed"))]

end Connector

end Leshiy.Quic
