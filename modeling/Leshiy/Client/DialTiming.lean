import Leshiy.Client.Dial

/-!
# A dial on the network and on the clock

What the network sees of a dial, and how long a dial takes.
-/

namespace Leshiy.Client

open Leshiy.Lib Leshiy.Reality
open Leshiy.Tun (ClientError)

/-! ## What the network sees -/

section

variable (parsed : RealityUri) (pref : TransportPref) (t₀ : Nat)

/-- The QUIC endpoint may be contacted. -/
def Pinned : Prop := pref ≠ .tcp ∧ ∃ q ∈ parsed.quic, q.certSha256.isSome

/-- The REALITY server is contacted once, in the race not before the head start is over. -/
structure Discreet (seen : List (Nat × Contact)) (s : Dialing) : Prop where
  quic : ∀ c ∈ seen, c.2 ≠ .reality → Pinned parsed pref
  reality : ∀ c ∈ seen, c.2 = .reality → pref ≠ .quic ∧
    (pref = .auto → parsed.quic.isSome → t₀ + HEAD_START.asNanos ≤ c.1)
  once : (seen.filter fun c => c.2 = .reality).length ≤ 1
  waiting : ∀ since, s.reality = .spawned since ∨ s.reality = .sleeping since →
    t₀ ≤ since ∧ pref = .auto ∧ ∀ c ∈ seen, c.2 ≠ .reality
  racing : ∀ timer attempt, s.phase = .quic timer attempt → Pinned parsed pref
  clock : t₀ ≤ s.now

end

section

variable {parsed : RealityUri} {pref : TransportPref} {t₀ : Nat} {uri : String} {s s' : Dialing} {a : DialAct}
  {ev : List (Nat × Contact)} {log : List (Taken Dialing DialAct (Nat × Contact))} {seen : List (Nat × Contact)}

/-- A step that contacts nobody. -/
theorem Discreet.quiet (h : Discreet parsed pref t₀ seen s) (hnow : s.now ≤ s'.now)
    (hwaiting : ∀ since, s'.reality = .spawned since ∨ s'.reality = .sleeping since →
      t₀ ≤ since ∧ ∃ before, s.reality = .spawned before ∨ s.reality = .sleeping before)
    (hracing : ∀ timer attempt, s'.phase = .quic timer attempt → Pinned parsed pref) :
    Discreet parsed pref t₀ seen s' := by
  refine ⟨h.quic, h.reality, h.once, fun since hs => ?_, hracing, h.clock.trans hnow⟩
  obtain ⟨hle, before, hbefore⟩ := hwaiting since hs
  exact ⟨hle, (h.waiting before hbefore).2⟩

/-- A step that leaves the REALITY connection where it is. -/
theorem Discreet.kept (h : Discreet parsed pref t₀ seen s) (hnow : s.now ≤ s'.now)
    (hreality : s'.reality = s.reality)
    (hracing : ∀ timer attempt, s'.phase = .quic timer attempt → Pinned parsed pref) :
    Discreet parsed pref t₀ seen s' :=
  h.quiet hnow (fun since hs => ⟨(h.waiting since (hreality ▸ hs)).1, since, hreality ▸ hs⟩) hracing

theorem discreet_tryNext {timer : Option Nat} {rest : List Reality.SocketAddr}
    (h : Discreet parsed pref t₀ seen s) (hpinned : Pinned parsed pref) (hnext : s.tryNext timer rest = (s', ev)) :
    Discreet parsed pref t₀ (seen ++ ev) s' := by
  obtain ⟨hnow, hreality, -⟩ := Dialing.tryNext_kept hnext
  have hkept : Discreet parsed pref t₀ seen s' := h.kept hnow.ge hreality fun _ _ _ => hpinned
  cases rest with
  | nil =>
    cases hnext
    rwa [List.append_nil]
  | cons addr rest =>
    cases hnext
    refine ⟨fun c _ _ => hpinned, fun c hc hreal => ?_, ?_, fun since hs => ?_, fun _ _ _ => hpinned, h.clock⟩
    · rcases List.mem_append.mp hc with hc | hc
      · exact h.reality c hc hreal
      · rw [List.mem_singleton.mp hc] at hreal
        cases hreal
    · rw [List.filter_append]
      simpa using h.once
    · obtain ⟨hle, hpref, hnone⟩ := h.waiting since hs
      refine ⟨hle, hpref, fun c hc => ?_⟩
      rcases List.mem_append.mp hc with hc | hc
      · exact hnone c hc
      · rw [List.mem_singleton.mp hc]
        exact nofun

theorem discreet_realityOver {up : Bool} (h : Discreet parsed pref t₀ seen s) :
    Discreet parsed pref t₀ seen (s.realityOver up) := by
  unfold Dialing.realityOver
  split
  next => exact h.quiet le_rfl (fun _ hs => by rcases hs with hs | hs <;> cases hs) fun _ _ hp => by cases hp
  next => exact h.quiet le_rfl (fun _ hs => by rcases hs with hs | hs <;> cases hs) h.racing

theorem discreet_step (hm : s.Moves a s' ev) (h : Discreet parsed pref t₀ seen s) :
    Discreet parsed pref t₀ (seen ++ ev) s' := by
  cases hm with
  | resolved _ hphase hnext => exact discreet_tryNext h (h.racing _ _ hphase) hnext
  | refused hphase hnext => exact discreet_tryNext h (h.racing _ _ hphase) hnext
  | wait d =>
    rw [List.append_nil]
    exact h.kept (Nat.le_add_right _ _) rfl h.racing
  | up _ | quicElapsed _ _ | joined _ _ | dropped _ =>
    rw [List.append_nil]
    exact h.kept le_rfl rfl fun _ _ hp => by cases hp
  | started hreality =>
    rw [List.append_nil]
    refine h.quiet le_rfl (fun since hs => ?_) h.racing
    rcases hs with hs | hs
    · cases hs
    · cases hs
      exact ⟨h.clock, _, .inl hreality⟩
  | woken hreality hdue =>
    obtain ⟨hle, hpref, hnone⟩ := h.waiting _ (.inr hreality)
    refine ⟨fun c hc hq => ?_, fun c hc hr => ?_, ?_, fun _ hs => ?_, h.racing, h.clock⟩
    · rcases List.mem_append.mp hc with hc | hc
      · exact h.quic c hc hq
      · rw [List.mem_singleton.mp hc] at hq
        exact absurd rfl hq
    · rcases List.mem_append.mp hc with hc | hc
      · exact h.reality c hc hr
      · rw [List.mem_singleton.mp hc, hpref]
        exact ⟨TransportPref.noConfusion, fun _ _ => by dsimp only; omega⟩
    · rw [List.filter_append, List.filter_eq_nil_iff.mpr fun c hc => by simpa using hnone c hc]
      exact le_rfl
    · rcases hs with hs | hs <;> cases hs
  | reality up _ =>
    rw [List.append_nil]
    exact discreet_realityOver h
  | realityElapsed _ _ =>
    rw [List.append_nil]
    exact discreet_realityOver h
  | stopped _ =>
    rw [List.append_nil]
    exact h.quiet le_rfl (fun _ hs => by rcases hs with hs | hs <;> cases hs) h.racing
  | droppedReality _ =>
    rw [List.append_nil]
    exact h.quiet le_rfl (fun _ hs => by rcases hs with hs | hs <;> cases hs) fun _ _ hp => by cases hp

/-- A dial that has failed at once. -/
theorem discreet_failed {r : Except ClientError Tunnel} :
    Discreet parsed pref t₀ [] ⟨t₀, .returned r, .absent, false⟩ :=
  ⟨nofun, nofun, Nat.zero_le 1, (fun _ hs => by rcases hs with hs | hs <;> cases hs), nofun, le_rfl⟩

theorem discreet_dialReality (hpref : pref ≠ .quic) (hquic : pref = .auto → parsed.quic = none) :
    Discreet parsed pref t₀ (dialReality t₀).2 (dialReality t₀).1 := by
  refine ⟨fun c hc hq => ?_, fun c hc _ => ⟨hpref, fun hp hsome => ?_⟩, le_rfl,
    (fun _ hs => by rcases hs with hs | hs <;> cases hs), nofun, le_rfl⟩
  · rw [List.mem_singleton.mp hc] at hq
    exact absurd rfl hq
  · rw [hquic hp] at hsome
    cases hsome

/-- The lookup is all that the endpoint sees at first. -/
theorem discreet_lookup {timer : Option Nat} {addr : String} {reality : RealityPhase}
    (hpinned : Pinned parsed pref)
    (hreality : reality = .absent ∨ reality = .spawned t₀ ∧ pref = .auto) :
    Discreet parsed pref t₀ [(t₀, .lookup addr)] ⟨t₀, .quic timer .resolving, reality, false⟩ := by
  refine ⟨fun _ _ _ => hpinned, fun c hc hr => ?_, Nat.zero_le 1, fun since hs => ?_, fun _ _ _ => hpinned,
    le_rfl⟩
  · rw [List.mem_singleton.mp hc] at hr
    cases hr
  · rcases hreality with rfl | ⟨rfl, hpref⟩
    · rcases hs with hs | hs <;> cases hs
    · rcases hs with hs | hs <;> cases hs
      refine ⟨le_rfl, hpref, fun c hc => ?_⟩
      rw [List.mem_singleton.mp hc]
      exact nofun

theorem discreet_dial (hparse : RealityUri.parse uri = .ok parsed) :
    Discreet parsed pref t₀ (dial t₀ uri pref).2 (dial t₀ uri pref).1 := by
  unfold dial
  rw [hparse]
  cases pref with
  | tcp => exact discreet_dialReality TransportPref.noConfusion TransportPref.noConfusion
  | quic =>
    unfold dialQuic connectQuicFrom
    dsimp only
    cases hquic : parsed.quic with
    | none => exact discreet_failed
    | some q =>
      dsimp only
      cases hpin : q.certSha256 with
      | none => exact discreet_failed
      | some pin =>
        exact discreet_lookup ⟨TransportPref.noConfusion, q, hquic, Option.isSome_iff_exists.mpr ⟨pin, hpin⟩⟩
          (.inl rfl)
  | auto =>
    unfold dialAuto connectQuicFrom
    dsimp only
    cases hquic : parsed.quic with
    | none => exact discreet_dialReality TransportPref.noConfusion fun _ => hquic
    | some q =>
      dsimp only
      cases hpin : q.certSha256 with
      | none =>
        refine ⟨nofun, nofun, Nat.zero_le 1, fun since hs => ?_, nofun, le_rfl⟩
        rcases hs with hs | hs <;> cases hs
        exact ⟨le_rfl, rfl, nofun⟩
      | some pin =>
        exact discreet_lookup ⟨TransportPref.noConfusion, q, hquic, Option.isSome_iff_exists.mpr ⟨pin, hpin⟩⟩
          (.inr ⟨rfl, rfl⟩)

/-- **What the network sees of a dial**, whether it is dropped or not. The QUIC endpoint, its lookup included,
is contacted under a pin only. The REALITY server is contacted once at most, and in the race not before the
head start is over. -/
theorem dial_contacts (hparse : RealityUri.parse uri = .ok parsed)
    (h : Exec Dialing.step (dial t₀ uri pref).1 log s) :
    let seen := (dial t₀ uri pref).2 ++ shown log
    (∀ c ∈ seen, c.2 ≠ .reality → pref ≠ .tcp ∧ ∃ q ∈ parsed.quic, q.certSha256.isSome) ∧
      (∀ c ∈ seen, c.2 = .reality → pref ≠ .quic ∧
        (pref = .auto → parsed.quic.isSome → t₀ + HEAD_START.asNanos ≤ c.1)) ∧
      (seen.filter fun c => c.2 = .reality).length ≤ 1 := by
  have hall : Discreet parsed pref t₀ ((dial t₀ uri pref).2 ++ shown log) s := by
    refine h.inv (P := fun log s => Discreet parsed pref t₀ ((dial t₀ uri pref).2 ++ shown log) s) ?_ ?_
    · rw [shown_nil, List.append_nil]
      exact discreet_dial hparse
    · intro log s a s' ev _ ih hs
      rw [shown_snoc, ← List.append_assoc]
      exact discreet_step (Dialing.step_moves hs) ih
  exact ⟨hall.quic, hall.reality, hall.once⟩

end

theorem dial_contacts_dropped : ∃ log s, Exec Dialing.step (dial 0 (RealityUri.format raceUri) .auto).1 log s ∧
    s.phase = .dropped ∧ shown log = [(200000000, .reality)] ∧
    ∀ c ∈ shown log, c.2 = .reality → 200000000 ≤ c.1 := by
  obtain ⟨log, s, hrun, hs, hshown⟩ := exec_reaches Dialing.step (dial 0 (RealityUri.format raceUri) .auto).1
    [.started, .dropped, .wait 200000000, .woken]
    (fun log s => s.phase = .dropped ∧ shown log = [(200000000, .reality)]) (by
      rw [dial_raceUri]
      decide +kernel)
  refine ⟨log, s, hrun, hs, hshown, fun c hc hr => ?_⟩
  exact ((dial_contacts parse_raceUri hrun).2.1 c (List.mem_append_right _ hc) hr).2 rfl rfl

/-! ## How long a dial takes -/

namespace Dialing

def quicDue : DialPhase → List Nat
  | .quic (some since) _ => [since + QUIC_TIMEOUT.asNanos]
  | _ => []

def realityDue : RealityPhase → List Nat
  | .spawned since => [since]
  | .sleeping since => [since + HEAD_START.asNanos]
  | .connecting since => [since + REALITY_CONNECT_TIMEOUT.asNanos]
  | _ => []

def joinDue : DialPhase → RealityPhase → List Nat
  | .joining begun, .ended since _ => [max begun since]
  | _, _ => []

/-- When each timer fires and each task that is ready was woken. -/
def due (s : Dialing) : List Nat := quicDue s.phase ++ realityDue s.reality ++ joinDue s.phase s.reality

/-- The runtime is late by this at most. -/
def Prompt (late : Nat) (s : Dialing) (a : DialAct) : Prop :=
  ∀ d, a = .wait d → ∀ t ∈ s.due, s.now + d ≤ t + late

instance (late : Nat) (s : Dialing) (a : DialAct) : Decidable (s.Prompt late a) :=
  match a with
  | .wait d => decidable_of_iff (∀ t ∈ s.due, s.now + d ≤ t + late)
      ⟨fun h _ he => by cases he; exact h, fun h => h d rfl⟩
  | .resolved _ | .quic _ | .quicElapsed | .started | .woken | .reality _ | .realityElapsed | .joined | .stopped
  | .dropped => .isTrue fun _ he => by cases he

def going (s : Dialing) : Bool :=
  match s.phase with
  | .returned _ | .dropped => false
  | _ => true

end Dialing

section

variable (t₀ late : Nat)

/-- How late the REALITY connection is at most. -/
def Bounded : RealityPhase → Prop
  | .absent | .stopped => False
  | .spawned since => since ≤ t₀
  | .sleeping since => since ≤ t₀ + late
  | .connecting since => since ≤ t₀ + HEAD_START.asNanos + 2 * late
  | .ended since _ => since ≤ t₀ + HEAD_START.asNanos + REALITY_CONNECT_TIMEOUT.asNanos + 3 * late

structure OnTime (s : Dialing) : Prop where
  clock : ∀ t ∈ s.due, s.now ≤ t + late
  direct : s.phase = .reality → ∃ since, s.reality = .connecting since ∧ since ≤ t₀
  racing : ∀ timer attempt, s.phase = .quic timer attempt → timer = some t₀ ∧ Bounded t₀ late s.reality
  joining : ∀ begun, s.phase = .joining begun →
    begun ≤ t₀ + QUIC_TIMEOUT.asNanos + late ∧ Bounded t₀ late s.reality
  aborted : s.aborted → ∃ r, s.phase = .returned r

end

section

variable {t₀ late : Nat} {s s' : Dialing} {a : DialAct} {ev : List (Nat × Contact)}

open Dialing

theorem mem_due {t : Nat} :
    t ∈ s.due ↔ t ∈ quicDue s.phase ∨ t ∈ realityDue s.reality ∨ t ∈ joinDue s.phase s.reality := by
  rw [due, List.mem_append, List.mem_append, or_assoc]

/-- The timers are the ones there were, or new. -/
theorem OnTime.clock_of (h : OnTime t₀ late s) (hnow : s'.now = s.now)
    (hdue : ∀ t ∈ s'.due, t ∈ s.due ∨ s.now ≤ t) : ∀ t ∈ s'.due, s'.now ≤ t + late := by
  intro t ht
  rcases hdue t ht with ht | ht
  · exact hnow ▸ h.clock t ht
  · exact hnow ▸ ht.trans (Nat.le_add_right _ _)

/-- The caller turns to the task. -/
theorem onTime_joining {timer : Option Nat} {attempt : QuicAttempt} (h : OnTime t₀ late s)
    (hphase : s.phase = .quic timer attempt) : OnTime t₀ late { s with phase := .joining s.now } := by
  obtain ⟨rfl, hbounded⟩ := h.racing timer attempt hphase
  have hnow : s.now ≤ t₀ + QUIC_TIMEOUT.asNanos + late := by
    refine h.clock _ (mem_due.mpr (.inl ?_))
    rw [hphase]
    exact List.mem_singleton_self _
  refine ⟨h.clock_of rfl fun t ht => ?_, nofun, nofun, fun begun hb => ?_, fun haborted => ?_⟩
  · rcases mem_due.mp ht with ht | ht | ht
    · cases ht
    · exact .inl (mem_due.mpr (.inr (.inl ht)))
    · dsimp only [joinDue] at ht
      split at ht
      next begun since up hphase' _ =>
        cases hphase'
        rw [List.mem_singleton.mp ht]
        exact .inr (le_max_left _ _)
      next => cases ht
  · cases hb
    exact ⟨hnow, hbounded⟩
  · obtain ⟨r, hr⟩ := h.aborted haborted
    rw [hphase] at hr
    cases hr

theorem onTime_tryNext {timer : Option Nat} {attempt : QuicAttempt} {rest : List Reality.SocketAddr}
    (h : OnTime t₀ late s) (hphase : s.phase = .quic timer attempt)
    (hnext : s.tryNext timer rest = (s', ev)) : OnTime t₀ late s' := by
  have hjoining := onTime_joining h hphase
  obtain ⟨rfl, hbounded⟩ := h.racing timer attempt hphase
  cases rest with
  | nil =>
    cases hnext
    exact hjoining
  | cons addr rest =>
    cases hnext
    refine ⟨h.clock_of rfl fun t ht => .inl ?_, nofun, fun timer attempt ht => ?_, nofun, fun haborted => ?_⟩
    · refine mem_due.mpr ?_
      rw [hphase]
      exact mem_due.mp ht
    · cases ht
      exact ⟨rfl, hbounded⟩
    · obtain ⟨r, hr⟩ := h.aborted haborted
      rw [hphase] at hr
      cases hr

/-- The REALITY connection goes on, by a phase with the bound of its own. -/
theorem onTime_reality {reality : RealityPhase} (h : OnTime t₀ late s) (hdirect : s.phase ≠ .reality)
    (hdue : ∀ t ∈ realityDue reality, s.now ≤ t)
    (hjoin : ∀ t ∈ joinDue s.phase reality, s.now ≤ t)
    (hbounded : Bounded t₀ late s.reality → Bounded t₀ late reality) :
    OnTime t₀ late { s with reality := reality } := by
  refine ⟨h.clock_of rfl fun t ht => ?_, fun hp => absurd hp hdirect, fun timer attempt hp => ?_,
    fun begun hp => ?_, h.aborted⟩
  · rcases mem_due.mp ht with ht | ht | ht
    · exact .inl (mem_due.mpr (.inl ht))
    · exact .inr (hdue t ht)
    · exact .inr (hjoin t ht)
  · obtain ⟨htimer, hb⟩ := h.racing timer attempt hp
    exact ⟨htimer, hbounded hb⟩
  · obtain ⟨hbegun, hb⟩ := h.joining begun hp
    exact ⟨hbegun, hbounded hb⟩

theorem onTime_realityOver {since : Nat} {up : Bool} (h : OnTime t₀ late s)
    (hreality : s.reality = .connecting since) : OnTime t₀ late (s.realityOver up) := by
  have hnow : s.now ≤ since + REALITY_CONNECT_TIMEOUT.asNanos + late := by
    refine h.clock _ (mem_due.mpr (.inr (.inl ?_)))
    rw [hreality]
    exact List.mem_singleton_self _
  unfold realityOver
  split
  next hphase => exact ⟨nofun, nofun, nofun, nofun, fun _ => ⟨_, rfl⟩⟩
  next hphase =>
    refine onTime_reality h hphase nofun (fun t ht => ?_) fun hbounded => ?_
    · unfold joinDue at ht
      split at ht
      next heq =>
        cases heq
        rw [List.mem_singleton.mp ht]
        exact le_max_right _ _
      next => cases ht
    · rw [hreality] at hbounded
      dsimp only [Bounded] at hbounded ⊢
      omega

/-- The call is over. -/
theorem onTime_over {phase : DialPhase} {reality : RealityPhase} {aborted : Bool} (h : OnTime t₀ late s)
    (hover : (∃ r, phase = .returned r) ∨ phase = .dropped ∧ aborted = false)
    (hreality : reality = s.reality ∨ reality = .stopped) :
    OnTime t₀ late ⟨s.now, phase, reality, aborted⟩ := by
  have hnone : quicDue phase = [] ∧ joinDue phase reality = [] := by
    rcases hover with ⟨r, rfl⟩ | ⟨rfl, -⟩ <;> exact ⟨rfl, rfl⟩
  refine ⟨h.clock_of rfl fun t ht => ?_, ?_, ?_, ?_, ?_⟩
  · rcases mem_due.mp ht with ht | ht | ht
    · rw [hnone.1] at ht
      cases ht
    · rcases hreality with rfl | rfl
      · exact .inl (mem_due.mpr (.inr (.inl ht)))
      · cases ht
    · rw [hnone.2] at ht
      cases ht
  all_goals rcases hover with ⟨r, rfl⟩ | ⟨rfl, rfl⟩
  · exact nofun
  · exact nofun
  · exact nofun
  · exact nofun
  · exact nofun
  · exact nofun
  · exact fun _ => ⟨r, rfl⟩
  · exact nofun

theorem not_aborted (h : OnTime t₀ late s) (hphase : ∀ r, s.phase ≠ .returned r) : s.aborted = false := by
  cases haborted : s.aborted with
  | false => rfl
  | true =>
    obtain ⟨r, hr⟩ := h.aborted haborted
    exact absurd hr (hphase r)

theorem onTime_step (hm : s.Moves a s' ev) (hprompt : Prompt late s a) (h : OnTime t₀ late s) :
    OnTime t₀ late s' := by
  cases hm with
  | wait d => exact ⟨hprompt d rfl, h.direct, h.racing, h.joining, h.aborted⟩
  | resolved _ hphase hnext => exact onTime_tryNext h hphase hnext
  | refused hphase hnext => exact onTime_tryNext h hphase hnext
  | up hphase => exact onTime_over h (.inl ⟨_, rfl⟩) (.inl rfl)
  | quicElapsed hphase hdue => exact onTime_joining h hphase
  | @started since hreality =>
    have hnow : s.now ≤ since + late := by
      refine h.clock _ (mem_due.mpr (.inr (.inl ?_)))
      rw [hreality]
      exact List.mem_singleton_self _
    refine onTime_reality h (fun hp => ?_) (fun t ht => ?_) (fun t ht => ?_) fun hbounded => ?_
    · obtain ⟨_, hc, -⟩ := h.direct hp
      rw [hreality] at hc
      cases hc
    · rw [List.mem_singleton.mp ht]
      exact Nat.le_add_right _ _
    · unfold joinDue at ht
      split at ht
      next heq => cases heq
      next => cases ht
    · rw [hreality] at hbounded
      dsimp only [Bounded] at hbounded ⊢
      omega
  | @woken since hreality hdue =>
    have hnow : s.now ≤ since + HEAD_START.asNanos + late := by
      refine h.clock _ (mem_due.mpr (.inr (.inl ?_)))
      rw [hreality]
      exact List.mem_singleton_self _
    refine onTime_reality h (fun hp => ?_) (fun t ht => ?_) (fun t ht => ?_) fun hbounded => ?_
    · obtain ⟨_, hc, -⟩ := h.direct hp
      rw [hreality] at hc
      cases hc
    · rw [List.mem_singleton.mp ht]
      exact Nat.le_add_right _ _
    · unfold joinDue at ht
      split at ht
      next heq => cases heq
      next => cases ht
    · rw [hreality] at hbounded
      dsimp only [Bounded] at hbounded ⊢
      omega
  | reality up hreality => exact onTime_realityOver h hreality
  | realityElapsed hreality _ => exact onTime_realityOver h hreality
  | joined _ _ => exact onTime_over h (.inl ⟨_, rfl⟩) (.inl rfl)
  | stopped haborted =>
    obtain ⟨r, hr⟩ := h.aborted haborted
    exact onTime_over h (.inl ⟨r, hr⟩) (.inr rfl)
  | droppedReality hphase =>
    refine onTime_over h (.inr ⟨rfl, not_aborted h fun r hr => ?_⟩) (.inr rfl)
    rw [hphase] at hr
    cases hr
  | dropped hphase =>
    refine onTime_over h (.inr ⟨rfl, not_aborted h fun r hr => ?_⟩) (.inl rfl)
    rcases hphase with ⟨timer, attempt, hphase⟩ | ⟨since, hphase⟩
    · rw [hphase] at hr
      cases hr
    · rw [hphase] at hr
      cases hr

variable {parsed : RealityUri} {pref : TransportPref} {uri : String}
  {log : List (Taken Dialing DialAct (Nat × Contact))}

theorem onTime_dialReality : OnTime t₀ late (dialReality t₀).1 := by
  refine ⟨fun t ht => ?_, fun _ => ⟨t₀, rfl, le_rfl⟩, nofun, nofun, nofun⟩
  rw [List.mem_singleton.mp ht]
  exact (Nat.le_add_right _ _).trans (Nat.le_add_right _ _)

theorem onTime_failed {r : Except ClientError Tunnel} :
    OnTime t₀ late ⟨t₀, .returned r, .absent, false⟩ :=
  ⟨nofun, nofun, nofun, nofun, nofun⟩

theorem onTime_dial (hpref : pref ≠ .quic) : OnTime t₀ late (dial t₀ uri pref).1 := by
  unfold dial
  cases RealityUri.parse uri with
  | error _ => exact onTime_failed
  | ok parsed =>
    cases pref with
    | tcp => exact onTime_dialReality
    | quic => exact absurd rfl hpref
    | auto =>
      unfold dialAuto connectQuicFrom
      dsimp only
      cases parsed.quic with
      | none => exact onTime_dialReality
      | some q =>
        dsimp only
        cases q.certSha256 with
        | none =>
          refine ⟨fun t ht => ?_, nofun, nofun, fun begun hb => ?_, nofun⟩
          · rw [List.mem_singleton.mp ht]
            exact Nat.le_add_right _ _
          · cases hb
            exact ⟨by omega, le_rfl⟩
        | some pin =>
          refine ⟨fun t ht => ?_, nofun, fun timer attempt ht => ?_, nofun, nofun⟩
          · rcases mem_due.mp ht with ht | ht | ht
            · rw [List.mem_singleton.mp ht]
              exact (Nat.le_add_right _ _).trans (Nat.le_add_right _ _)
            · rw [List.mem_singleton.mp ht]
              exact Nat.le_add_right _ _
            · cases ht
          · cases ht
            exact ⟨rfl, le_rfl⟩

/-- The last timer of a call under way is bounded. -/
theorem now_le (h : OnTime t₀ late s) (hgoing : s.going) :
    s.now ≤ t₀ + HEAD_START.asNanos + REALITY_CONNECT_TIMEOUT.asNanos + 4 * late := by
  have hquic : QUIC_TIMEOUT.asNanos ≤ HEAD_START.asNanos + REALITY_CONNECT_TIMEOUT.asNanos := by decide
  unfold going at hgoing
  split at hgoing
  next => cases hgoing
  next => cases hgoing
  next hreturned hdropped =>
  cases hphase : s.phase with
  | returned r => exact absurd hphase (hreturned r)
  | dropped => exact absurd hphase hdropped
  | reality =>
    obtain ⟨since, hreality, hsince⟩ := h.direct hphase
    have hnow := h.clock (since + REALITY_CONNECT_TIMEOUT.asNanos) (mem_due.mpr (.inr (.inl (by
      rw [hreality]
      exact List.mem_singleton_self _))))
    omega
  | quic timer attempt =>
    obtain ⟨rfl, -⟩ := h.racing timer attempt hphase
    have hnow := h.clock (t₀ + QUIC_TIMEOUT.asNanos) (mem_due.mpr (.inl (by
      rw [hphase]
      exact List.mem_singleton_self _)))
    omega
  | joining begun =>
    obtain ⟨hbegun, hbounded⟩ := h.joining begun hphase
    cases hreality : s.reality with
    | absent | stopped =>
      rw [hreality] at hbounded
      cases hbounded
    | ended since up =>
      have hnow := h.clock (max begun since) (mem_due.mpr (.inr (.inr (by
        rw [hphase, hreality]
        exact List.mem_singleton_self _))))
      rw [hreality] at hbounded
      dsimp only [Bounded] at hbounded
      omega
    | spawned since | sleeping since | connecting since =>
      have hnow := h.clock _ (mem_due.mpr (.inr (.inl (by
        rw [hreality]
        exact List.mem_singleton_self _))))
      rw [hreality] at hbounded
      dsimp only [Bounded] at hbounded
      omega

/-- What is due can be done: the runtime is never late for want of a step. -/
theorem enabled_of_due {t : Nat} (ht : t ∈ s.due) (hle : t ≤ s.now) :
    ∃ a, (∀ d, a ≠ .wait d) ∧ a ≠ .dropped ∧ (s.step a).isSome := by
  rcases mem_due.mp ht with ht | ht | ht
  · unfold quicDue at ht
    split at ht
    next since attempt hphase =>
      rw [List.mem_singleton] at ht
      refine ⟨.quicElapsed, (fun _ h => by cases h), (fun h => by cases h), ?_⟩
      simp only [step, hphase]
      rw [if_pos (ht ▸ hle)]
      rfl
    next => cases ht
  · unfold realityDue at ht
    split at ht
    next since hreality =>
      refine ⟨.started, (fun _ h => by cases h), (fun h => by cases h), ?_⟩
      simp only [step, hreality]
      rfl
    next since hreality =>
      rw [List.mem_singleton] at ht
      refine ⟨.woken, (fun _ h => by cases h), (fun h => by cases h), ?_⟩
      simp only [step, hreality]
      rw [if_pos (ht ▸ hle)]
      rfl
    next since hreality =>
      rw [List.mem_singleton] at ht
      refine ⟨.realityElapsed, (fun _ h => by cases h), (fun h => by cases h), ?_⟩
      simp only [step, hreality]
      rw [if_pos (ht ▸ hle)]
      rfl
    next => cases ht
  · unfold joinDue at ht
    split at ht
    next begun since up hphase hreality =>
      refine ⟨.joined, (fun _ h => by cases h), (fun h => by cases h), ?_⟩
      simp only [step, hphase, hreality]
      rfl
    next => cases ht

end

end Leshiy.Client
