import Leshiy.Lib.Duration
import Leshiy.Lib.Run
import Leshiy.Reality.NetGuard
import Leshiy.Reality.Uri
import Leshiy.Tun.PumpUdp

/-!
# Dialing

`RealTransport::dial` (`leshiy-client/src/adapter/dial.rs`), with `connect_quic_multi`
(`leshiy-quic/src/client.rs`). `Auto` races the two transports: QUIC at once, REALITY in a task of its own
after a head start.

The caller and the task step in any order, the resolver and the servers answer when they like or never, and
the caller may drop the dial. Times are in nanoseconds. A timer never fires early, but it may fire late, and
what is awaited under it is looked at first.
-/

namespace Leshiy.Client

open Leshiy.Lib Leshiy.Reality
open Leshiy.Tun (ClientError)

inductive TransportPref where
  | tcp
  | quic
  | auto
  deriving DecidableEq, Repr

def HEAD_START : Duration := ⟨0, 200000000⟩

def QUIC_TIMEOUT : Duration := ⟨3, 0⟩

def REALITY_CONNECT_TIMEOUT : Duration := ⟨10, 0⟩

/-- A tunnel that was brought up. -/
inductive Tunnel where
  | quic (addr : Reality.SocketAddr)
  | reality
  deriving DecidableEq, Repr

/-- Where `connect_quic_from` awaits: its lookup, or in `connect_quic_multi` one address with those after it. -/
inductive QuicAttempt where
  | resolving
  | connecting (addr : Reality.SocketAddr) (rest : List Reality.SocketAddr)
  deriving DecidableEq, Repr

/-- Where the caller is: in `dial_reality`, in `connect_quic_from` (in the race under a timer that was set at
some time, in `dial_quic` under none), or at the handle of the task. -/
inductive DialPhase where
  | reality
  | quic (timer : Option Nat) (attempt : QuicAttempt)
  | joining (since : Nat)
  | returned (r : Except ClientError Tunnel)
  | dropped
  deriving DecidableEq

/-- The REALITY connection, in the task or in `dial_reality`. A task sleeps from its first poll on. -/
inductive RealityPhase where
  | absent
  | spawned (since : Nat)
  | sleeping (since : Nat)
  | connecting (since : Nat)
  | ended (since : Nat) (up : Bool)
  | stopped
  deriving DecidableEq, Repr

structure Dialing where
  now : Nat
  phase : DialPhase
  reality : RealityPhase
  /-- `abort` was called on the task. -/
  aborted : Bool
  deriving DecidableEq

/-- What the network sees: a lookup, an attempt on an address of the QUIC endpoint, one on the REALITY
server. -/
inductive Contact where
  | lookup (addr : String)
  | quic (addr : Reality.SocketAddr)
  | reality
  deriving DecidableEq, Repr

/-! ## The call -/

def dialReality (now : Nat) : Dialing × List (Nat × Contact) :=
  (⟨now, .reality, .connecting now, false⟩, [(now, .reality)])

/-- The first poll: without a pin there is nothing to await. -/
def connectQuicFrom (now : Nat) (q : QuicEndpoint) : Option QuicAttempt × List (Nat × Contact) :=
  match q.certSha256 with
  | none => (none, [])
  | some _ => (some .resolving, [(now, .lookup q.addr)])

def dialQuic (now : Nat) (parsed : RealityUri) : Dialing × List (Nat × Contact) :=
  match parsed.quic with
  | none => (⟨now, .returned (.error .connectFailed), .absent, false⟩, [])
  | some q =>
    match connectQuicFrom now q with
    | (none, seen) => (⟨now, .returned (.error .connectFailed), .absent, false⟩, seen)
    | (some attempt, seen) => (⟨now, .quic none attempt, .absent, false⟩, seen)

def dialAuto (now : Nat) (parsed : RealityUri) : Dialing × List (Nat × Contact) :=
  match parsed.quic with
  | none => dialReality now
  | some q =>
    match connectQuicFrom now q with
    | (none, seen) => (⟨now, .joining now, .spawned now, false⟩, seen)
    | (some attempt, seen) => (⟨now, .quic (some now) attempt, .spawned now, false⟩, seen)

def dial (now : Nat) (uri : String) (pref : TransportPref) : Dialing × List (Nat × Contact) :=
  match RealityUri.parse uri with
  | .error _ => (⟨now, .returned (.error .connectFailed), .absent, false⟩, [])
  | .ok parsed =>
    match pref with
    | .tcp => dialReality now
    | .quic => dialQuic now parsed
    | .auto => dialAuto now parsed

/-! ## What comes after -/

inductive DialAct where
  | wait (d : Nat)
  /-- `lookup_host` answers. -/
  | resolved (addrs : Option (List Reality.SocketAddr))
  /-- `connect_quic` answers. -/
  | quic (up : Bool)
  | quicElapsed
  /-- The task is polled for the first time. -/
  | started
  | woken
  /-- `connect_reality` answers. -/
  | reality (up : Bool)
  | realityElapsed
  /-- The caller takes what the task has come to. -/
  | joined
  /-- The task is dropped. -/
  | stopped
  | dropped
  deriving DecidableEq, Repr

namespace Dialing

variable (s : Dialing)

/-- `connect_quic_from` has failed, or the timer over it has fired. -/
def quicOver (timer : Option Nat) : Dialing :=
  match timer with
  | none => { s with phase := .returned (.error .connectFailed) }
  | some _ => { s with phase := .joining s.now }

/-- Step of the loop in `connect_quic_multi`, and its end. -/
def tryNext (timer : Option Nat) : List Reality.SocketAddr → Dialing × List (Nat × Contact)
  | [] => (s.quicOver timer, [])
  | addr :: rest => ({ s with phase := .quic timer (.connecting addr rest) }, [(s.now, .quic addr)])

def outcome (up : Bool) : Except ClientError Tunnel :=
  if up then .ok .reality else .error .connectFailed

/-- `connect_reality` is over, be it that it was timed out. -/
def realityOver (up : Bool) : Dialing :=
  match s.phase with
  | .reality => { s with phase := .returned (outcome up), reality := .ended s.now up }
  | _ => { s with reality := .ended s.now up }

def step : DialAct → Option (Dialing × List (Nat × Contact))
  | .wait d => some ({ s with now := s.now + d }, [])
  | .resolved addrs =>
    match s.phase with
    | .quic timer .resolving => some (s.tryNext timer (addrs.getD []))
    | _ => none
  | .quic up =>
    match s.phase with
    | .quic timer (.connecting addr rest) =>
      if up then some ({ s with phase := .returned (.ok (.quic addr)), aborted := timer.isSome }, [])
      else some (s.tryNext timer rest)
    | _ => none
  | .quicElapsed =>
    match s.phase with
    | .quic (some since) _ =>
      if since + QUIC_TIMEOUT.asNanos ≤ s.now then some ({ s with phase := .joining s.now }, []) else none
    | _ => none
  | .started =>
    match s.reality with
    | .spawned _ => some ({ s with reality := .sleeping s.now }, [])
    | _ => none
  | .woken =>
    match s.reality with
    | .sleeping since =>
      if since + HEAD_START.asNanos ≤ s.now then
        some ({ s with reality := .connecting s.now }, [(s.now, .reality)])
      else none
    | _ => none
  | .reality up =>
    match s.reality with
    | .connecting _ => some (s.realityOver up, [])
    | _ => none
  | .realityElapsed =>
    match s.reality with
    | .connecting since =>
      if since + REALITY_CONNECT_TIMEOUT.asNanos ≤ s.now then some (s.realityOver false, []) else none
    | _ => none
  | .joined =>
    match s.phase, s.reality with
    | .joining _, .ended _ up => some ({ s with phase := .returned (outcome up) }, [])
    | _, _ => none
  | .stopped =>
    match s.aborted, s.reality with
    | true, .spawned _ | true, .sleeping _ | true, .connecting _ => some ({ s with reality := .stopped }, [])
    | _, _ => none
  | .dropped =>
    match s.phase with
    | .reality => some ({ s with phase := .dropped, reality := .stopped }, [])
    -- the handle of the task goes with the call, and the task goes on without it
    | .quic _ _ | .joining _ => some ({ s with phase := .dropped }, [])
    | _ => none

/-- What a step finds and does. -/
inductive Moves : DialAct → Dialing → List (Nat × Contact) → Prop
  | wait (d : Nat) : Moves (.wait d) { s with now := s.now + d } []
  | resolved {timer : Option Nat} (addrs : Option (List Reality.SocketAddr)) {s' : Dialing}
      {seen : List (Nat × Contact)} (hphase : s.phase = .quic timer .resolving)
      (hnext : s.tryNext timer (addrs.getD []) = (s', seen)) : Moves (.resolved addrs) s' seen
  | up {timer : Option Nat} {addr : Reality.SocketAddr} {rest : List Reality.SocketAddr}
      (hphase : s.phase = .quic timer (.connecting addr rest)) :
      Moves (.quic true) { s with phase := .returned (.ok (.quic addr)), aborted := timer.isSome } []
  | refused {timer : Option Nat} {addr : Reality.SocketAddr} {rest : List Reality.SocketAddr} {s' : Dialing}
      {seen : List (Nat × Contact)} (hphase : s.phase = .quic timer (.connecting addr rest))
      (hnext : s.tryNext timer rest = (s', seen)) : Moves (.quic false) s' seen
  | quicElapsed {since : Nat} {attempt : QuicAttempt} (hphase : s.phase = .quic (some since) attempt)
      (hdue : since + QUIC_TIMEOUT.asNanos ≤ s.now) : Moves .quicElapsed { s with phase := .joining s.now } []
  | started {since : Nat} (hreality : s.reality = .spawned since) :
      Moves .started { s with reality := .sleeping s.now } []
  | woken {since : Nat} (hreality : s.reality = .sleeping since)
      (hdue : since + HEAD_START.asNanos ≤ s.now) :
      Moves .woken { s with reality := .connecting s.now } [(s.now, .reality)]
  | reality {since : Nat} (up : Bool) (hreality : s.reality = .connecting since) :
      Moves (.reality up) (s.realityOver up) []
  | realityElapsed {since : Nat} (hreality : s.reality = .connecting since)
      (hdue : since + REALITY_CONNECT_TIMEOUT.asNanos ≤ s.now) :
      Moves .realityElapsed (s.realityOver false) []
  | joined {begun since : Nat} {up : Bool} (hphase : s.phase = .joining begun)
      (hreality : s.reality = .ended since up) :
      Moves .joined { s with phase := .returned (outcome up) } []
  | stopped (haborted : s.aborted) : Moves .stopped { s with reality := .stopped } []
  | droppedReality (hphase : s.phase = .reality) :
      Moves .dropped { s with phase := .dropped, reality := .stopped } []
  | dropped (hphase : (∃ timer attempt, s.phase = .quic timer attempt) ∨ ∃ since, s.phase = .joining since) :
      Moves .dropped { s with phase := .dropped } []

variable {s} {s' : Dialing} {a : DialAct} {ev : List (Nat × Contact)}

theorem step_moves (h : s.step a = some (s', ev)) : s.Moves a s' ev := by
  cases a with
  | wait d =>
    cases h
    exact .wait d
  | resolved addrs =>
    simp only [step] at h
    split at h
    next timer hphase => exact .resolved addrs hphase (Option.some.inj h)
    next => cases h
  | quic up =>
    simp only [step] at h
    split at h
    next timer addr rest hphase =>
      cases up with
      | true =>
        cases h
        exact .up hphase
      | false => exact .refused hphase (Option.some.inj h)
    next => cases h
  | quicElapsed =>
    simp only [step] at h
    split at h
    next since attempt hphase =>
      split at h
      next hdue =>
        cases h
        exact .quicElapsed hphase hdue
      next => cases h
    next => cases h
  | started =>
    simp only [step] at h
    split at h
    next since hreality =>
      cases h
      exact .started hreality
    next => cases h
  | woken =>
    simp only [step] at h
    split at h
    next since hreality =>
      split at h
      next hdue =>
        cases h
        exact .woken hreality hdue
      next => cases h
    next => cases h
  | reality up =>
    simp only [step] at h
    split at h
    next since hreality =>
      cases h
      exact .reality up hreality
    next => cases h
  | realityElapsed =>
    simp only [step] at h
    split at h
    next since hreality =>
      split at h
      next hdue =>
        cases h
        exact .realityElapsed hreality hdue
      next => cases h
    next => cases h
  | joined =>
    simp only [step] at h
    split at h
    next begun since up hphase hreality =>
      cases h
      exact .joined hphase hreality
    next => cases h
  | stopped =>
    simp only [step] at h
    split at h
    · cases h
      exact .stopped (by assumption)
    · cases h
      exact .stopped (by assumption)
    · cases h
      exact .stopped (by assumption)
    · cases h
  | dropped =>
    simp only [step] at h
    split at h
    next hphase =>
      cases h
      exact .droppedReality hphase
    next timer attempt hphase =>
      cases h
      exact .dropped (.inl ⟨timer, attempt, hphase⟩)
    next since hphase =>
      cases h
      exact .dropped (.inr ⟨since, hphase⟩)
    next => cases h

theorem tryNext_kept {timer : Option Nat} {rest : List Reality.SocketAddr}
    (h : s.tryNext timer rest = (s', ev)) :
    s'.now = s.now ∧ s'.reality = s.reality ∧ s'.aborted = s.aborted := by
  cases rest with
  | nil =>
    cases h
    cases timer <;> exact ⟨rfl, rfl, rfl⟩
  | cons addr rest =>
    cases h
    exact ⟨rfl, rfl, rfl⟩

end Dialing

/-! ## A race -/

def raceUri : RealityUri :=
  ⟨"vps:443", ⟨Block.fill 32 7, Block.fill 8 1, "site"⟩, some ⟨"vps:8443", "site", some (Block.fill 32 9)⟩⟩

def raceAddrs : List Reality.SocketAddr := [⟨.v6 1, 8443⟩, ⟨.v4 1, 8443⟩]

theorem parse_raceUri : RealityUri.parse (RealityUri.format raceUri) = .ok raceUri :=
  RealityUri.parse_format ⟨by decide, by decide, fun q hq => by
    cases hq
    exact ⟨by decide, by decide⟩⟩

theorem dial_pinned {t₀ : Nat} {uri : String} {parsed : RealityUri} {q : QuicEndpoint} {pin : Block 32}
    (hparse : RealityUri.parse uri = .ok parsed) (hquic : parsed.quic = some q)
    (hpin : q.certSha256 = some pin) :
    (dial t₀ uri .auto).1 = ⟨t₀, .quic (some t₀) .resolving, .spawned t₀, false⟩ := by
  unfold dial dialAuto connectQuicFrom
  simp only [hparse, hquic, hpin]

theorem dial_raceUri : (dial 0 (RealityUri.format raceUri) .auto).1 =
    ⟨0, .quic (some 0) .resolving, .spawned 0, false⟩ := dial_pinned parse_raceUri rfl rfl

/-! ## What a dial comes to -/

/-- The addresses of the QUIC endpoint that were tried, in order. -/
def tried (seen : List (Nat × Contact)) : List Reality.SocketAddr :=
  seen.filterMap fun c => match c.2 with | .quic addr => some addr | _ => none

@[simp] theorem tried_append (seen seen' : List (Nat × Contact)) :
    tried (seen ++ seen') = tried seen ++ tried seen' := List.filterMap_append ..

@[simp] theorem tried_nil : tried [] = [] := rfl

section

variable (parsed : RealityUri) (pref : TransportPref) (acts : List DialAct) (addrs : List Reality.SocketAddr)

def Refused (addrs : List Reality.SocketAddr) : Prop := acts.count (.quic false) = addrs.length

/-- QUIC was not to be had: no pin, no address, each one refused, or out of time. -/
inductive QuicFailed (q : QuicEndpoint) : Prop
  | unpinned (h : q.certSha256 = none)
  | unresolved (h : .resolved none ∈ acts)
  | refused (h : .resolved (some addrs) ∈ acts) (hall : Refused acts addrs)
  | elapsed (h : .quicElapsed ∈ acts)

inductive RealityFailed : Prop
  | refused (h : .reality false ∈ acts)
  | elapsed (h : .realityElapsed ∈ acts)

/-- The addresses before this one were refused, in the order in which they were resolved, and the ones after
it were not tried. -/
def Reached (addr : Reality.SocketAddr) (rest : List Reality.SocketAddr) : Prop :=
  ∃ before, .resolved (some (before ++ addr :: rest)) ∈ acts ∧ addrs = before ++ [addr] ∧ Refused acts before

/-- What has been done for the caller to be there. -/
def Told : DialPhase → Prop
  | .reality => pref ≠ .quic ∧ (pref ≠ .tcp → parsed.quic = none)
  | .quic timer attempt =>
    pref ≠ .tcp ∧ (timer = none ↔ pref = .quic) ∧ (∃ q ∈ parsed.quic, q.certSha256.isSome) ∧
      match attempt with
      | .resolving => addrs = [] ∧ Refused acts []
      | .connecting addr rest => Reached acts addrs addr rest
  | .joining _ => pref = .auto ∧ ∀ q ∈ parsed.quic, QuicFailed acts addrs q
  | .returned (.ok (.quic addr)) =>
    pref ≠ .tcp ∧ (∃ q ∈ parsed.quic, q.certSha256.isSome) ∧ .quic true ∈ acts ∧
      ∃ rest, Reached acts addrs addr rest
  | .returned (.ok .reality) =>
    pref ≠ .quic ∧ .reality true ∈ acts ∧ (pref ≠ .tcp → ∀ q ∈ parsed.quic, QuicFailed acts addrs q)
  | .returned (.error _) =>
    (pref ≠ .quic → RealityFailed acts) ∧ (pref ≠ .tcp → ∀ q ∈ parsed.quic, QuicFailed acts addrs q)
  | .dropped => True

def ToldReality : RealityPhase → Prop
  | .ended _ true => .reality true ∈ acts
  | .ended _ false => RealityFailed acts
  | _ => True

end

section

variable {parsed : RealityUri} {pref : TransportPref} {acts : List DialAct} {addrs : List Reality.SocketAddr}
  {a : DialAct} {phase : DialPhase} {s s' : Dialing} {ev : List (Nat × Contact)}

theorem Refused.snoc {before : List Reality.SocketAddr} (h : Refused acts before) (ha : a ≠ .quic false) :
    Refused (acts ++ [a]) before := by
  unfold Refused at h ⊢
  rw [List.count_append, List.count_singleton, if_neg (by simpa using ha), h]
  rfl

theorem QuicFailed.snoc {q : QuicEndpoint} (h : QuicFailed acts addrs q) (ha : a ≠ .quic false) :
    QuicFailed (acts ++ [a]) addrs q := by
  cases h with
  | unpinned h => exact .unpinned h
  | unresolved h => exact .unresolved (List.mem_append_left _ h)
  | refused h hall => exact .refused (List.mem_append_left _ h) (hall.snoc ha)
  | elapsed h => exact .elapsed (List.mem_append_left _ h)

theorem RealityFailed.snoc (h : RealityFailed acts) : RealityFailed (acts ++ [a]) := by
  cases h with
  | refused h => exact .refused (List.mem_append_left _ h)
  | elapsed h => exact .elapsed (List.mem_append_left _ h)

theorem Reached.snoc {addr : Reality.SocketAddr} {rest : List Reality.SocketAddr}
    (h : Reached acts addrs addr rest) (ha : a ≠ .quic false) : Reached (acts ++ [a]) addrs addr rest := by
  obtain ⟨before, hresolved, htried, hrefused⟩ := h
  exact ⟨before, List.mem_append_left _ hresolved, htried, hrefused.snoc ha⟩

/-- What has been done stays done. -/
theorem Told.snoc (h : Told parsed pref acts addrs phase) (ha : a ≠ .quic false) :
    Told parsed pref (acts ++ [a]) addrs phase := by
  match phase, h with
  | .reality, h => exact h
  | .quic _ .resolving, ⟨hpref, htimer, hpin, htried, hrefused⟩ =>
    exact ⟨hpref, htimer, hpin, htried, hrefused.snoc ha⟩
  | .quic _ (.connecting _ _), ⟨hpref, htimer, hpin, hreached⟩ =>
    exact ⟨hpref, htimer, hpin, hreached.snoc ha⟩
  | .joining _, ⟨hpref, hquic⟩ => exact ⟨hpref, fun q hq => (hquic q hq).snoc ha⟩
  | .returned (.ok (.quic _)), ⟨hpref, hpin, hup, rest, hreached⟩ =>
    exact ⟨hpref, hpin, List.mem_append_left _ hup, rest, hreached.snoc ha⟩
  | .returned (.ok .reality), ⟨hpref, hup, hquic⟩ =>
    exact ⟨hpref, List.mem_append_left _ hup, fun hp q hq => (hquic hp q hq).snoc ha⟩
  | .returned (.error _), ⟨hreality, hquic⟩ =>
    exact ⟨fun hp => (hreality hp).snoc, fun hp q hq => (hquic hp q hq).snoc ha⟩
  | .dropped, _ => trivial

theorem ToldReality.snoc {reality : RealityPhase} (h : ToldReality acts reality) :
    ToldReality (acts ++ [a]) reality := by
  match reality, h with
  | .ended _ true, h => exact List.mem_append_left _ h
  | .ended _ false, h => exact RealityFailed.snoc h
  | .absent, _ | .spawned _, _ | .sleeping _, _ | .connecting _, _ | .stopped, _ => trivial

theorem auto_of_timer {since : Nat} (hpref : pref ≠ .tcp) (htimer : some since = none ↔ pref = .quic) :
    pref = .auto := by
  cases pref with
  | tcp => exact absurd rfl hpref
  | quic => exact absurd (htimer.mpr rfl) (Option.some_ne_none since)
  | auto => rfl

/-- Where `connect_quic_from` leaves the caller when it has failed. -/
theorem told_quicOver {timer : Option Nat} (hpref : pref ≠ .tcp) (htimer : timer = none ↔ pref = .quic)
    (hquic : ∀ q ∈ parsed.quic, QuicFailed acts addrs q) :
    Told parsed pref acts addrs (s.quicOver timer).phase := by
  cases timer with
  | none => exact ⟨fun hp => absurd (htimer.mp rfl) hp, fun _ => hquic⟩
  | some since => exact ⟨auto_of_timer hpref htimer, hquic⟩

/-- The loop goes on to the next address, or fails with the last one. -/
theorem told_tryNext {timer : Option Nat} {rest : List Reality.SocketAddr} (hpref : pref ≠ .tcp)
    (htimer : timer = none ↔ pref = .quic) (hpin : ∃ q ∈ parsed.quic, q.certSha256.isSome)
    (hresolved : .resolved (some (addrs ++ rest)) ∈ acts ∨ rest = [] ∧ .resolved none ∈ acts)
    (hrefused : Refused acts addrs) (hnext : s.tryNext timer rest = (s', ev)) :
    Told parsed pref acts (addrs ++ tried ev) s'.phase := by
  cases rest with
  | nil =>
    cases hnext
    rw [tried_nil, List.append_nil]
    refine told_quicOver hpref htimer fun q hq => ?_
    rcases hresolved with hresolved | ⟨-, hresolved⟩
    · exact .refused (by rwa [List.append_nil] at hresolved) hrefused
    · exact .unresolved hresolved
  | cons addr rest =>
    cases hnext
    rcases hresolved with hresolved | ⟨hrest, -⟩
    · exact ⟨hpref, htimer, hpin, addrs, hresolved, rfl, hrefused⟩
    · cases hrest

theorem told_outcome {up : Bool} {since : Nat} (hpref : pref ≠ .quic)
    (hended : ToldReality acts (.ended since up))
    (hquic : pref ≠ .tcp → ∀ q ∈ parsed.quic, QuicFailed acts addrs q) :
    Told parsed pref acts addrs (.returned (Dialing.outcome up)) := by
  cases up with
  | true => exact ⟨hpref, hended, hquic⟩
  | false => exact ⟨fun _ => hended, hquic⟩

theorem told_realityOver {up : Bool} (h : Told parsed pref acts addrs s.phase)
    (hended : ToldReality acts (.ended s.now up)) :
    Told parsed pref acts addrs (s.realityOver up).phase ∧ ToldReality acts (s.realityOver up).reality := by
  unfold Dialing.realityOver
  split
  next hphase =>
    rw [hphase] at h
    refine ⟨told_outcome h.1 hended fun hpref q hq => ?_, hended⟩
    rw [h.2 hpref] at hq
    cases hq
  next => exact ⟨h, hended⟩

theorem tried_contact {t : Nat} : tried [(t, .reality)] = [] := rfl

theorem told_step (hm : s.Moves a s' ev) (h : Told parsed pref acts addrs s.phase)
    (hreality : ToldReality acts s.reality) :
    Told parsed pref (acts ++ [a]) (addrs ++ tried ev) s'.phase ∧ ToldReality (acts ++ [a]) s'.reality := by
  have hlast : a ∈ acts ++ [a] := List.mem_append_right _ (List.mem_singleton_self a)
  cases hm with
  | wait d =>
    rw [tried_nil, List.append_nil]
    exact ⟨h.snoc (by simp), hreality.snoc⟩
  | started _ =>
    rw [tried_nil, List.append_nil]
    exact ⟨h.snoc (by simp), trivial⟩
  | woken _ _ =>
    rw [tried_contact, List.append_nil]
    exact ⟨h.snoc (by simp), trivial⟩
  | stopped _ =>
    rw [tried_nil, List.append_nil]
    exact ⟨h.snoc (by simp), trivial⟩
  | resolved answer hphase hnext =>
    have hkept : s'.reality = s.reality := (Dialing.tryNext_kept hnext).2.1
    rw [hphase] at h
    obtain ⟨hpref, htimer, hpin, rfl, hrefused⟩ := h
    refine ⟨told_tryNext hpref htimer hpin ?_ (hrefused.snoc (by simp)) hnext, hkept ▸ hreality.snoc⟩
    cases answer with
    | none => exact .inr ⟨rfl, hlast⟩
    | some answer => exact .inl hlast
  | up hphase =>
    rw [hphase] at h
    obtain ⟨hpref, htimer, hpin, hreached⟩ := h
    rw [tried_nil, List.append_nil]
    exact ⟨⟨hpref, hpin, hlast, _, hreached.snoc (by simp)⟩, hreality.snoc⟩
  | refused hphase hnext =>
    have hkept : s'.reality = s.reality := (Dialing.tryNext_kept hnext).2.1
    rw [hphase] at h
    obtain ⟨hpref, htimer, hpin, before, hresolved, rfl, hrefused⟩ := h
    refine ⟨told_tryNext hpref htimer hpin (.inl (List.mem_append_left _ ?_)) ?_ hnext, hkept ▸ hreality.snoc⟩
    · rwa [List.append_assoc]
    · unfold Refused at hrefused ⊢
      rw [List.count_append, hrefused, List.length_append]
      rfl
  | quicElapsed hphase hdue =>
    rw [hphase] at h
    rw [tried_nil, List.append_nil]
    exact ⟨⟨auto_of_timer h.1 h.2.1, fun q _ => .elapsed hlast⟩, hreality.snoc⟩
  | reality up _ =>
    rw [tried_nil, List.append_nil]
    refine told_realityOver (h.snoc (by simp)) ?_
    cases up with
    | true => exact hlast
    | false => exact .refused hlast
  | realityElapsed _ _ =>
    rw [tried_nil, List.append_nil]
    exact told_realityOver (h.snoc (by simp)) (RealityFailed.elapsed hlast)
  | joined hphase hended =>
    rw [hphase] at h
    rw [hended] at hreality
    rw [tried_nil, List.append_nil]
    refine ⟨told_outcome ?_ hreality.snoc fun _ q hq => (h.2 q hq).snoc (by simp), ?_⟩
    · rw [h.1]
      exact TransportPref.noConfusion
    · show ToldReality _ s.reality
      rw [hended]
      exact hreality.snoc
  | droppedReality _ => exact ⟨trivial, trivial⟩
  | dropped _ => exact ⟨trivial, hreality.snoc⟩

end

section

variable {parsed : RealityUri} {pref : TransportPref} {t₀ : Nat} {uri : String} {s : Dialing}
  {log : List (Taken Dialing DialAct (Nat × Contact))}

def actsOf (log : List (Taken Dialing DialAct (Nat × Contact))) : List DialAct := log.map Taken.act

@[simp] theorem actsOf_snoc (t : Taken Dialing DialAct (Nat × Contact)) :
    actsOf (log ++ [t]) = actsOf log ++ [t.act] := List.map_append ..

theorem told_dial (hparse : RealityUri.parse uri = .ok parsed) :
    Told parsed pref [] (tried (dial t₀ uri pref).2) (dial t₀ uri pref).1.phase ∧
      ToldReality [] (dial t₀ uri pref).1.reality := by
  unfold dial
  rw [hparse]
  cases pref with
  | tcp => exact ⟨⟨TransportPref.noConfusion, fun hp => absurd rfl hp⟩, trivial⟩
  | quic =>
    unfold dialQuic connectQuicFrom
    dsimp only
    cases hquic : parsed.quic with
    | none =>
      refine ⟨⟨fun hp => absurd rfl hp, fun _ q hq => ?_⟩, trivial⟩
      rw [hquic] at hq
      cases hq
    | some q =>
      dsimp only
      cases hpin : q.certSha256 with
      | none =>
        refine ⟨⟨fun hp => absurd rfl hp, fun _ q' hq' => .unpinned ?_⟩, trivial⟩
        rw [hquic] at hq'
        cases hq'
        exact hpin
      | some pin =>
        refine ⟨⟨TransportPref.noConfusion, iff_of_true rfl rfl, ⟨q, hquic, ?_⟩, rfl, rfl⟩, trivial⟩
        rw [hpin]
        rfl
  | auto =>
    unfold dialAuto connectQuicFrom
    dsimp only
    cases hquic : parsed.quic with
    | none => exact ⟨⟨TransportPref.noConfusion, fun _ => hquic⟩, trivial⟩
    | some q =>
      dsimp only
      cases hpin : q.certSha256 with
      | none =>
        refine ⟨⟨rfl, fun q' hq' => .unpinned ?_⟩, trivial⟩
        rw [hquic] at hq'
        cases hq'
        exact hpin
      | some pin =>
        refine ⟨⟨TransportPref.noConfusion, iff_of_false (Option.some_ne_none _) TransportPref.noConfusion,
          ⟨q, hquic, ?_⟩, rfl, rfl⟩, trivial⟩
        rw [hpin]
        rfl

theorem told_run (hparse : RealityUri.parse uri = .ok parsed)
    (h : Exec Dialing.step (dial t₀ uri pref).1 log s) :
    Told parsed pref (actsOf log) (tried ((dial t₀ uri pref).2 ++ shown log)) s.phase ∧
      ToldReality (actsOf log) s.reality := by
  refine h.inv (P := fun log s => Told parsed pref (actsOf log) (tried ((dial t₀ uri pref).2 ++ shown log))
    s.phase ∧ ToldReality (actsOf log) s.reality) ?_ ?_
  · rw [shown_nil, List.append_nil]
    exact told_dial hparse
  · intro log s a s' ev _ ih hs
    rw [actsOf_snoc, shown_snoc, ← List.append_assoc, tried_append]
    exact told_step (Dialing.step_moves hs) ih.1 ih.2

/-- **What a dial comes to.** A tunnel over QUIC is one to the first address that did not refuse, under a pin.
A tunnel over REALITY is handed over only when QUIC was not to be had. A dial that may use both fails only when
both have failed. -/
theorem dial_outcome (hparse : RealityUri.parse uri = .ok parsed)
    (h : Exec Dialing.step (dial t₀ uri pref).1 log s) {r : Except ClientError Tunnel}
    (hreturned : s.phase = .returned r) :
    let addrs := tried ((dial t₀ uri pref).2 ++ shown log)
    (∀ addr, r = .ok (.quic addr) → pref ≠ .tcp ∧ (∃ q ∈ parsed.quic, q.certSha256.isSome) ∧
      .quic true ∈ actsOf log ∧ ∃ rest, Reached (actsOf log) addrs addr rest) ∧
    (r = .ok .reality → pref ≠ .quic ∧ .reality true ∈ actsOf log ∧
      (pref ≠ .tcp → ∀ q ∈ parsed.quic, QuicFailed (actsOf log) addrs q)) ∧
    ∀ err, r = .error err → (pref ≠ .quic → RealityFailed (actsOf log)) ∧
      (pref ≠ .tcp → ∀ q ∈ parsed.quic, QuicFailed (actsOf log) addrs q) := by
  have htold := (told_run hparse h).1
  rw [hreturned] at htold
  refine ⟨?_, ?_, ?_⟩
  · rintro addr rfl
    exact htold
  · rintro rfl
    exact htold
  · rintro err rfl
    exact htold

end

/-- The first address does not answer in time, and REALITY, which is up by then, is taken. -/
def raceLost : List DialAct :=
  [.started, .resolved (some raceAddrs), .wait 200000000, .woken, .quic false, .reality true,
    .wait 2800000000, .quicElapsed, .joined]

theorem dial_outcome_fallback : ∃ log s, Exec Dialing.step (dial 0 (RealityUri.format raceUri) .auto).1 log s ∧
    s.phase = .returned (.ok .reality) ∧ .reality true ∈ actsOf log := by
  obtain ⟨log, s, hrun, hs⟩ := exec_reaches Dialing.step (dial 0 (RealityUri.format raceUri) .auto).1 raceLost
    (fun _ s => s.phase = .returned (.ok .reality)) (by
      rw [dial_raceUri]
      decide +kernel)
  exact ⟨log, s, hrun, hs, ((dial_outcome parse_raceUri hrun hs).2.1 rfl).2.1⟩

end Leshiy.Client
