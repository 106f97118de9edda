import Mathlib.Data.List.Nodup
import Leshiy.Client.Runtime

/-!
# The machine and its shell agree

What holds between two events of a run: the tunnel that is held, the dial that is under way, the timers
and the system's proxy setting fit the state of the machine. An action that fails half way through a
list leaves the rest of the list undone, so the facts about the tasks are stated without the machine and
carried through the list; the machine comes in again at its end.
-/

namespace Leshiy.Client

open Leshiy.Lib

namespace Inner

section

variable {Tunnel : Type} {o : Answers} {s s' : Inner Tunnel}

/-- The list of tasks: every id is given once, and no task is ahead of the shell's generation. -/
structure Pool (s : Inner Tunnel) : Prop where
  nodup : (s.tasks.map Task.id).Nodup
  fresh : ∀ t ∈ s.tasks, t.id < s.spawned
  generation : ∀ t ∈ s.tasks, t.generation ≤ s.generation

/-- A dial that nobody waits for any more: its report will be discarded. -/
def Stray (s : Inner Tunnel) (t : Task) : Prop := t.aborted = true ∧ t.generation < s.generation

/-- No dial is under way. -/
structure Idle (s : Inner Tunnel) : Prop where
  dial : s.dial = none
  stray : ∀ t ∈ s.tasks, t.isDial = true → s.Stray t

/-- `t` is the dial that is under way, and the only one. -/
structure DialedBy (s : Inner Tunnel) (t : Task) : Prop where
  mem : t ∈ s.tasks
  dial : s.dial = some t.id
  isDial : t.isDial = true
  live : t.aborted = false
  generation : t.generation = s.generation
  stray : ∀ u ∈ s.tasks, u.isDial = true → u ≠ t → s.Stray u

def Dialing (s : Inner Tunnel) : Prop := ∃ t, s.DialedBy t

/-- A timer that will be heeded when it elapses. -/
def Timed (s : Inner Tunnel) : Prop :=
  ∃ t ∈ s.tasks, t.isBackoff = true ∧ t.aborted = false ∧ t.generation = s.generation

/-- No tunnel is held and none is served. -/
structure Quiet (s : Inner Tunnel) : Prop where
  current : s.current = none
  listener : s.listener = none
  closedMonitor : s.closedMonitor = none

/-- What the shell holds in each state of the machine. -/
def Fits (s : Inner Tunnel) : Prop :=
  match s.machine.state with
  | .disconnected => s.Idle ∧ s.Quiet ∧ s.os = none
  | .connecting => s.Dialing ∧ s.Quiet
  | .connected => s.Idle ∧ s.current.isSome = true ∧ s.machine.proxySet = true
  | .reconnecting =>
    (s.Dialing ∨ (s.Idle ∧ (s.machine.online = true → s.Timed))) ∧ s.Quiet ∧
      (s.machine.proxySet = false → s.os = none)
  | .error => s.Idle ∧ s.Quiet

structure Consistent (s : Inner Tunnel) : Prop where
  pool : s.Pool
  fits : s.Fits

/-! ## Tasks -/

theorem Pool.spawn (hp : s.Pool) (job : Job) : (s.spawn job).Pool where
  nodup := by
    show ((s.tasks ++ [_]).map Task.id).Nodup
    rw [List.map_append, List.nodup_append]
    refine ⟨hp.nodup, by simp, ?_⟩
    intro a ha b hb hab
    obtain ⟨t, ht, rfl⟩ := List.mem_map.mp ha
    have hb' : b = s.spawned := by simpa using hb
    exact Nat.ne_of_lt (hp.fresh t ht) (hab.trans hb')
  fresh := by
    intro t ht
    show t.id < s.spawned + 1
    rcases List.mem_append.mp ht with ht | ht
    · exact Nat.lt_succ_of_lt (hp.fresh t ht)
    · rw [List.mem_singleton.mp ht]
      exact Nat.lt_succ_self _
  generation := by
    intro t ht
    rcases List.mem_append.mp ht with ht | ht
    · exact hp.generation t ht
    · rw [List.mem_singleton.mp ht]
      exact Nat.le_refl s.generation

theorem Pool.bump (hp : s.Pool) : { s with generation := s.generation + 1 }.Pool where
  nodup := hp.nodup
  fresh := hp.fresh
  generation t ht := Nat.le_succ_of_le (hp.generation t ht)

theorem Idle.bump (hi : s.Idle) : { s with generation := s.generation + 1 }.Idle where
  dial := hi.dial
  stray t ht hd := ⟨(hi.stray t ht hd).1, Nat.lt_succ_of_lt (hi.stray t ht hd).2⟩

theorem mem_abort {handle : Option TaskId} {t : Task} (h : t ∈ (s.abort handle).tasks) :
    ∃ u ∈ s.tasks, t = { u with aborted := u.aborted || decide (handle = some u.id) } := by
  obtain ⟨u, hu, rfl⟩ := List.mem_map.mp h
  refine ⟨u, hu, ?_⟩
  by_cases hh : handle = some u.id
  · simp [hh]
  · simp [hh]

theorem Pool.abort (hp : s.Pool) (handle : Option TaskId) : (s.abort handle).Pool where
  nodup := by
    have hids : (s.abort handle).tasks.map Task.id = s.tasks.map Task.id := by
      show (s.tasks.map _).map Task.id = _
      rw [List.map_map]
      refine List.map_congr_left fun t _ => ?_
      show Task.id (if _ then _ else _) = _
      split <;> rfl
    rw [hids]
    exact hp.nodup
  fresh := by
    intro t ht
    obtain ⟨u, hu, rfl⟩ := mem_abort ht
    exact hp.fresh u hu
  generation := by
    intro t ht
    obtain ⟨u, hu, rfl⟩ := mem_abort ht
    exact hp.generation u hu

theorem Idle.abort (hi : s.Idle) (handle : Option TaskId) : (s.abort handle).Idle where
  dial := hi.dial
  stray := by
    intro t ht hd
    obtain ⟨u, hu, rfl⟩ := mem_abort ht
    obtain ⟨h1, h2⟩ := hi.stray u hu hd
    exact ⟨by simp [h1], h2⟩

theorem Idle.spawn (hi : s.Idle) (job : Job) (h : ∀ uri, job ≠ .dial uri) : (s.spawn job).Idle where
  dial := hi.dial
  stray := by
    intro t ht hd
    rcases List.mem_append.mp ht with ht | ht
    · exact hi.stray t ht hd
    · rw [List.mem_singleton.mp ht] at hd
      cases job with
      | dial uri => exact absurd rfl (h uri)
      | _ => cases hd

/-- A disconnect leaves no dial under way. -/
theorem Idle.hangUp (h : s.Dialing ∨ s.Idle) : s.hangUp.Idle where
  dial := rfl
  stray := by
    intro t ht hd
    obtain ⟨u, hu, rfl⟩ := mem_abort ht
    show (u.aborted || decide (s.dial = some u.id)) = true ∧ u.generation < s.generation + 1
    obtain ⟨v, hv⟩ | hi := h
    · by_cases huv : u = v
      · subst huv
        exact ⟨by simp [hv.dial], Nat.lt_succ_of_le (Nat.le_of_eq hv.generation)⟩
      · obtain ⟨h1, h2⟩ := hv.stray u hu hd huv
        exact ⟨by simp [h1], Nat.lt_succ_of_lt h2⟩
    · obtain ⟨h1, h2⟩ := hi.stray u hu hd
      exact ⟨by simp [h1], Nat.lt_succ_of_lt h2⟩

theorem Pool.hangUp (hp : s.Pool) : s.hangUp.Pool := by
  have hp' := (hp.abort s.dial).bump
  exact ⟨hp'.nodup, hp'.fresh, hp'.generation⟩

/-! ## One action -/

theorem Pool.stopServing (hp : s.Pool) : s.stopServing.Pool := by
  have hp' := (hp.abort s.listener).abort s.closedMonitor
  exact ⟨hp'.nodup, hp'.fresh, hp'.generation⟩

theorem Idle.stopServing (hi : s.Idle) : s.stopServing.Idle := by
  have hi' := (hi.abort s.listener).abort s.closedMonitor
  exact ⟨hi'.dial, hi'.stray⟩

theorem quiet_stopServing : s.stopServing.Quiet := ⟨rfl, rfl, rfl⟩

theorem Pool.startDial (hp : s.Pool) : s.startDial.Pool := by
  have hp' := hp.bump.spawn (.dial s.currentUri)
  exact ⟨hp'.nodup, hp'.fresh, hp'.generation⟩

theorem Idle.startDial (hi : s.Idle) : s.startDial.Dialing := by
  refine ⟨⟨s.spawned, .dial s.currentUri, s.generation + 1, false⟩, ?_⟩
  refine ⟨List.mem_append_right _ (List.mem_singleton.mpr rfl), rfl, rfl, rfl, rfl, ?_⟩
  intro u hu hd hne
  rcases List.mem_append.mp hu with hu | hu
  · obtain ⟨h1, h2⟩ := hi.stray u hu hd
    exact ⟨h1, Nat.lt_succ_of_lt h2⟩
  · exact absurd (List.mem_singleton.mp hu) hne

theorem Pool.listen (hp : s.Pool) (port : Port) : (s.listen port).Pool := by
  have hp' := (hp.spawn .listener).spawn .monitor
  exact ⟨hp'.nodup, hp'.fresh, hp'.generation⟩

theorem Idle.listen (hi : s.Idle) (port : Port) : (s.listen port).Idle := by
  have hi' := (hi.spawn .listener (by simp)).spawn .monitor (by simp)
  exact ⟨hi'.dial, hi'.stray⟩

theorem spawn_backoff (hp : s.Pool) (hi : s.Idle) (delay : Duration) :
    (s.spawn (.backoff delay)).Pool ∧ (s.spawn (.backoff delay)).Idle ∧
      (s.spawn (.backoff delay)).Timed := by
  refine ⟨hp.spawn _, hi.spawn _ (by simp), ⟨s.spawned, .backoff delay, s.generation, false⟩, ?_⟩
  exact ⟨List.mem_append_right _ (List.mem_singleton.mpr rfl), rfl, rfl, rfl⟩

/-! ## A list of actions -/

/-- The list is through and `Q` holds, or an action has failed while no dial was under way. -/
def Lands (r : Outcome Tunnel) (Q : Inner Tunnel → Prop) : Prop :=
  if r.failed then r.inner.Pool ∧ r.inner.Idle else Q r.inner

theorem Lands.cons {Q : Inner Tunnel → Prop} {a : Action} {as : List Action}
    (h : Lands (s.perform o a) fun s' => Lands (s'.applyUntil o as) Q) :
    Lands (s.applyUntil o (a :: as)) Q := by
  unfold applyUntil
  unfold Lands at h ⊢
  dsimp only
  by_cases hf : (s.perform o a).failed = true
  · simpa [hf] using h
  · simpa [hf] using h

theorem feedUntil_serviceFailed : (s.feedUntil o .serviceFailed).failed = false := by
  simp [feedUntil, Machine.handle_serviceFailed, applyUntil, perform]

/-- A failure ends in the error state, with nothing held. -/
theorem consistent_serviceFailed (hp : s.Pool) (hi : s.Idle) :
    (s.feedUntil o .serviceFailed).inner.Consistent := by
  have hp' := hp.stopServing
  have hi' := hi.stopServing
  have he : (s.feedUntil o .serviceFailed).inner = { s.stopServing with machine :=
      { s.machine with state := .error, proxySet := false } } := by
    simp [feedUntil, Machine.handle_serviceFailed, applyUntil, perform]
    rfl
  rw [he]
  exact ⟨⟨hp'.nodup, hp'.fresh, hp'.generation⟩, ⟨hi'.dial, hi'.stray⟩, ⟨rfl, rfl, rfl⟩⟩

theorem Consistent.feed {input : Input} (h : Lands (s.feedUntil o input) Consistent) :
    (s.feed o input).1.Consistent := by
  unfold Inner.feed
  unfold Lands at h
  dsimp only
  by_cases hf : (s.feedUntil o input).failed = true
  · rw [if_pos hf] at h ⊢
    exact consistent_serviceFailed h.1 h.2
  · rw [if_neg hf] at h ⊢
    exact h

/-! ## One input -/

theorem consistent_connect (hp : s.Pool) (hi : s.Idle) (hq : s.Quiet)
    (hst : s.machine.state = .disconnected ∨ s.machine.state = .error) :
    (s.feed o .connect).1.Consistent := by
  apply Consistent.feed
  have hh : s.machine.handle .connect =
      ({ s.machine with state := .connecting, attempt := 0 }, [.emit .connecting, .dial]) := by
    unfold Machine.handle
    rcases hst with hst | hst <;> simp only [hst]
  simp only [feedUntil, hh]
  refine Lands.cons (Lands.cons ?_)
  simp only [perform, hi.dial]
  have hp' := hp.startDial
  obtain ⟨t, ht⟩ := hi.startDial
  exact ⟨⟨hp'.nodup, hp'.fresh, hp'.generation⟩,
    ⟨t, ht.mem, ht.dial, ht.isDial, ht.live, ht.generation, ht.stray⟩,
    ⟨hq.current, hq.listener, hq.closedMonitor⟩⟩

/-- The way out of every other state: the setting is cleared, or the disconnect has failed. -/
theorem lands_clear (hp : s.Pool) (hi : s.Idle) (hq : s.Quiet)
    (hst : s.machine.state = .disconnected) :
    Lands (s.applyUntil o [.clearProxy, .emit .disconnected]) Consistent := by
  apply Lands.cons
  by_cases hc : o.clear = true
  · simp only [perform, hc, if_true, Bool.not_true]
    refine ⟨⟨hp.nodup, hp.fresh, hp.generation⟩, ?_⟩
    unfold Fits
    simp only [applyUntil, perform, hst, Bool.false_eq_true, if_false]
    exact ⟨⟨hi.dial, hi.stray⟩, ⟨hq.current, hq.listener, hq.closedMonitor⟩, trivial⟩
  · simp only [perform, hc, Bool.not_false, Bool.false_eq_true, if_false]
    exact ⟨⟨hp.nodup, hp.fresh, hp.generation⟩, ⟨hi.dial, hi.stray⟩⟩

/-- The same after the listener has been stopped. -/
theorem lands_stop_clear (hp : s.Pool) (hi : s.Idle) (hst : s.machine.state = .disconnected) :
    Lands (s.applyUntil o [.stopServing, .clearProxy, .emit .disconnected]) Consistent := by
  exact Lands.cons (lands_clear hp.stopServing hi.stopServing quiet_stopServing hst)

theorem Consistent.dialing_or_idle (hc : s.Consistent) : s.Dialing ∨ s.Idle := by
  have hf := hc.fits
  unfold Fits at hf
  split at hf
  · exact .inr hf.1
  · exact .inl hf.1
  · exact .inr hf.1
  · exact hf.1.imp_right And.left
  · exact .inr hf.1

theorem consistent_disconnect (hc : s.Consistent) : (s.hangUp.feed o .disconnect).1.Consistent := by
  have hp := hc.pool.hangUp
  have hi := Idle.hangUp hc.dialing_or_idle
  have hf := hc.fits
  unfold Fits at hf
  apply Consistent.feed
  simp only [feedUntil, Machine.handle, Machine.unset]
  split at hf
  · next hst =>
    -- nothing was connected: the input does nothing
    have hst' : s.hangUp.machine.state = .disconnected := hst
    obtain ⟨-, hq, hos⟩ := hf
    simp only [hst', applyUntil]
    refine ⟨hp, ?_⟩
    unfold Fits
    simp only [hst']
    exact ⟨hi, ⟨hq.current, hq.listener, hq.closedMonitor⟩, hos⟩
  · next hst =>
    have hst' : s.hangUp.machine.state = .connecting := hst
    obtain ⟨-, hq⟩ := hf
    simp only [hst']
    exact lands_clear ⟨hp.nodup, hp.fresh, hp.generation⟩ ⟨hi.dial, hi.stray⟩
      ⟨hq.current, hq.listener, hq.closedMonitor⟩ rfl
  · next hst =>
    have hst' : s.hangUp.machine.state = .connected := hst
    have hps : s.hangUp.machine.proxySet = true := hf.2.2
    simp only [hst', hps, if_true]
    exact lands_stop_clear ⟨hp.nodup, hp.fresh, hp.generation⟩ ⟨hi.dial, hi.stray⟩ rfl
  · next hst =>
    have hst' : s.hangUp.machine.state = .reconnecting := hst
    obtain ⟨-, hq, hos⟩ := hf
    simp only [hst']
    by_cases hps : s.hangUp.machine.proxySet = true
    · simp only [hps, if_true]
      exact lands_clear ⟨hp.nodup, hp.fresh, hp.generation⟩ ⟨hi.dial, hi.stray⟩
        ⟨hq.current, hq.listener, hq.closedMonitor⟩ rfl
    · -- the setting went with the tunnel
      simp only [hps, Bool.false_eq_true, if_false, List.nil_append]
      exact ⟨⟨hp.nodup, hp.fresh, hp.generation⟩, ⟨hi.dial, hi.stray⟩,
        ⟨hq.current, hq.listener, hq.closedMonitor⟩, hos (Bool.eq_false_iff.mpr hps)⟩
  · next hst =>
    have hst' : s.hangUp.machine.state = .error := hst
    simp only [hst']
    exact lands_stop_clear ⟨hp.nodup, hp.fresh, hp.generation⟩ ⟨hi.dial, hi.stray⟩ rfl

/-- What the shell takes up after a dial that succeeded: it serves the tunnel, or it has failed. -/
theorem lands_serve (hp : s.Pool) (hi : s.Idle) (m : Machine) (hcur : s.current.isSome = true) :
    Lands ({ s with machine := m.serve.1 }.applyUntil o m.serve.2) Consistent := by
  obtain ⟨tunnel, htunnel⟩ := Option.isSome_iff_exists.mp hcur
  apply Lands.cons
  cases hb : o.bind with
  | none =>
    simp only [perform, htunnel, hb]
    exact ⟨⟨hp.nodup, hp.fresh, hp.generation⟩, ⟨hi.dial, hi.stray⟩⟩
  | some port =>
    have hp' := hp.listen port
    have hi' := hi.listen port
    simp only [perform, htunnel, hb]
    by_cases hps : m.proxySet = true
    · simp only [hps, if_true, List.nil_append]
      exact ⟨⟨hp'.nodup, hp'.fresh, hp'.generation⟩, ⟨hi'.dial, hi'.stray⟩, rfl, rfl⟩
    · simp only [hps, Bool.false_eq_true, if_false, List.singleton_append]
      apply Lands.cons
      cases hset : o.set with
      | done =>
        simp only [perform, hset]
        exact ⟨⟨hp'.nodup, hp'.fresh, hp'.generation⟩, ⟨hi'.dial, hi'.stray⟩, rfl, rfl⟩
      | failed applied =>
        simp only [perform, hset]
        exact ⟨⟨hp'.nodup, hp'.fresh, hp'.generation⟩, ⟨hi'.dial, hi'.stray⟩⟩

/-- A timer is set and the machine reconnects. -/
theorem lands_backoff (hp : s.Pool) (hi : s.Idle) (hq : s.Quiet)
    (hst : s.machine.state = .reconnecting) (hos : s.machine.proxySet = false → s.os = none)
    (delay : Duration) (rest : List State) :
    Lands (s.applyUntil o (.scheduleBackoff delay :: rest.map .emit)) Consistent := by
  apply Lands.cons
  obtain ⟨hp', hi', ht'⟩ := spawn_backoff hp hi delay
  have hc : (s.spawn (.backoff delay)).Consistent := by
    refine ⟨hp', ?_⟩
    unfold Fits
    have hst' : (s.spawn (.backoff delay)).machine.state = .reconnecting := hst
    simp only [hst']
    exact ⟨.inr ⟨hi', fun _ => ht'⟩, ⟨hq.current, hq.listener, hq.closedMonitor⟩, hos⟩
  show Lands ((s.spawn (.backoff delay)).applyUntil o _) _
  induction rest with
  | nil => exact hc
  | cons st rest ih => exact Lands.cons ih

theorem consistent_tunnelDropped (hc : s.Consistent) : (s.feed o .tunnelDropped).1.Consistent := by
  apply Consistent.feed
  by_cases hst : s.machine.state = .connected
  · obtain ⟨hi, -, hset⟩ : s.Idle ∧ _ ∧ s.machine.proxySet = true := by
      simpa only [Fits, hst] using hc.fits
    have hp' := hc.pool.stopServing
    have hi' := hi.stopServing
    simp only [feedUntil, Machine.handle, hst]
    by_cases hclear : (!s.machine.killSwitch && s.machine.proxySet) = true
    · simp only [hclear, if_true]
      refine Lands.cons (Lands.cons ?_)
      by_cases hok : o.clear = true
      · simp only [perform, hok, if_true, Bool.not_true]
        refine lands_backoff ?_ ?_ ⟨rfl, rfl, rfl⟩ rfl (fun _ => rfl) _ [.reconnecting]
        · exact ⟨hp'.nodup, hp'.fresh, hp'.generation⟩
        · exact ⟨hi'.dial, hi'.stray⟩
      · simp only [perform, hok, Bool.not_false, Bool.false_eq_true, if_false]
        exact ⟨⟨hp'.nodup, hp'.fresh, hp'.generation⟩, ⟨hi'.dial, hi'.stray⟩⟩
    · simp only [hclear, Bool.false_eq_true, if_false]
      apply Lands.cons
      refine lands_backoff ?_ ?_ ⟨rfl, rfl, rfl⟩ rfl ?_ _ [.reconnecting]
      · exact ⟨hp'.nodup, hp'.fresh, hp'.generation⟩
      · exact ⟨hi'.dial, hi'.stray⟩
      · -- the kill switch keeps the flag with the setting
        intro hns
        exact absurd (hset.symm.trans hns) (by simp)
  · have hh : s.machine.handle .tunnelDropped = (s.machine, []) := by
      unfold Machine.handle
      split <;> simp_all
    simp only [feedUntil, hh]
    exact hc

theorem consistent_dialSucceeded (hp : s.Pool) (hi : s.Idle) (hcur : s.current.isSome = true)
    (hst : s.machine.state = .connecting ∨ s.machine.state = .reconnecting) :
    (s.feed o .dialSucceeded).1.Consistent := by
  apply Consistent.feed
  rcases hst with hst | hst
  · simp only [feedUntil, Machine.handle, hst]
    exact lands_serve hp hi _ hcur
  · simp only [feedUntil, Machine.handle, hst]
    exact lands_serve hp hi _ hcur

theorem consistent_dialFailed (hp : s.Pool) (hi : s.Idle) (hq : s.Quiet)
    (hst : s.machine.state = .connecting ∨ s.machine.state = .reconnecting ∧
      (s.machine.proxySet = false → s.os = none)) :
    (s.feed o .dialFailed).1.Consistent := by
  apply Consistent.feed
  rcases hst with hst | ⟨hst, hos⟩
  · simp only [feedUntil, Machine.handle, hst]
    exact ⟨⟨hp.nodup, hp.fresh, hp.generation⟩, ⟨hi.dial, hi.stray⟩,
      ⟨hq.current, hq.listener, hq.closedMonitor⟩⟩
  · simp only [feedUntil, Machine.handle, hst]
    refine lands_backoff ?_ ?_ ?_ rfl ?_ _ []
    · exact ⟨hp.nodup, hp.fresh, hp.generation⟩
    · exact ⟨hi.dial, hi.stray⟩
    · exact ⟨hq.current, hq.listener, hq.closedMonitor⟩
    · exact hos

/-- A dial that is asked for while the machine reconnects. -/
theorem lands_dial (hp : s.Pool) (h : s.Dialing ∨ s.Idle) (hq : s.Quiet)
    (hst : s.machine.state = .reconnecting) (hos : s.machine.proxySet = false → s.os = none) :
    Lands (s.applyUntil o [.dial]) Consistent := by
  apply Lands.cons
  obtain ⟨t, ht⟩ | hi := h
  · simp only [perform, ht.dial]
    refine ⟨hp, ?_⟩
    unfold Fits
    simp only [applyUntil, hst]
    exact ⟨.inl ⟨t, ht⟩, hq, hos⟩
  · simp only [perform, hi.dial]
    refine ⟨hp.startDial, ?_⟩
    unfold Fits
    have hst' : s.startDial.machine.state = .reconnecting := hst
    simp only [applyUntil, hst']
    exact ⟨.inl hi.startDial, ⟨hq.current, hq.listener, hq.closedMonitor⟩, hos⟩

theorem consistent_backoffElapsed (hp : s.Pool) (h : s.Dialing ∨ s.Idle) (hq : s.Quiet)
    (hst : s.machine.state = .reconnecting) (hos : s.machine.proxySet = false → s.os = none) :
    (s.feed o .backoffElapsed).1.Consistent := by
  apply Consistent.feed
  simp only [feedUntil, Machine.handle, hst]
  by_cases hon : s.machine.online = true
  · simp only [hon, if_true]
    exact lands_dial hp h hq hst hos
  · -- offline: the timer is spent, and the next `Connectivity` dials
    simp only [hon, Bool.false_eq_true, if_false]
    refine ⟨hp, ?_⟩
    unfold Fits
    simp only [applyUntil, hst]
    exact ⟨h.imp_right fun hi => ⟨hi, fun hon' => absurd hon' hon⟩, hq, hos⟩

theorem consistent_connectivity (hc : s.Consistent) (online : Bool) :
    (s.feed o (.connectivity online)).1.Consistent := by
  apply Consistent.feed
  have hp : { s with machine := { s.machine with online := online } }.Pool :=
    ⟨hc.pool.nodup, hc.pool.fresh, hc.pool.generation⟩
  by_cases hst : s.machine.state = .reconnecting
  · obtain ⟨hd, hq, hos⟩ : (s.Dialing ∨ (s.Idle ∧ (s.machine.online = true → s.Timed))) ∧
        s.Quiet ∧ (s.machine.proxySet = false → s.os = none) := by
      simpa only [Fits, hst] using hc.fits
    simp only [feedUntil, Machine.handle, hst]
    by_cases hback : (online && !s.machine.online) = true
    · simp only [hback, if_true]
      refine lands_dial ?_ ?_ ?_ rfl ?_
      · exact ⟨hc.pool.nodup, hc.pool.fresh, hc.pool.generation⟩
      · rcases hd with ⟨t, ht⟩ | ⟨hi, -⟩
        · exact .inl ⟨t, ht.mem, ht.dial, ht.isDial, ht.live, ht.generation, ht.stray⟩
        · exact .inr ⟨hi.dial, hi.stray⟩
      · exact ⟨hq.current, hq.listener, hq.closedMonitor⟩
      · exact hos
    · simp only [hback, Bool.false_eq_true, if_false]
      refine ⟨⟨hc.pool.nodup, hc.pool.fresh, hc.pool.generation⟩, ?_⟩
      refine ⟨?_, ⟨hq.current, hq.listener, hq.closedMonitor⟩, hos⟩
      rcases hd with ⟨t, ht⟩ | ⟨hi, htimed⟩
      · exact .inl ⟨t, ht.mem, ht.dial, ht.isDial, ht.live, ht.generation, ht.stray⟩
      · -- the machine was online already, so the timer is still there
        refine .inr ⟨⟨hi.dial, hi.stray⟩, ?_⟩
        intro hon
        have hon' : online = true := hon
        obtain ⟨t, ht⟩ := htimed (by simpa [hon'] using hback)
        exact ⟨t, ht⟩
  · have hh : s.machine.handle (.connectivity online) =
        ({ s.machine with online := online }, []) := by
      unfold Machine.handle
      split <;> simp_all
    have hf := hc.fits
    unfold Fits at hf
    simp only [feedUntil, hh]
    refine ⟨hp, ?_⟩
    unfold Fits
    simp only [applyUntil]
    split at hf
    · next hst' =>
      obtain ⟨hi, hq, hos⟩ := hf
      rw [hst']
      exact ⟨⟨hi.dial, hi.stray⟩, ⟨hq.current, hq.listener, hq.closedMonitor⟩, hos⟩
    · next hst' =>
      obtain ⟨⟨t, ht⟩, hq⟩ := hf
      rw [hst']
      exact ⟨⟨t, ht.mem, ht.dial, ht.isDial, ht.live, ht.generation, ht.stray⟩,
        ⟨hq.current, hq.listener, hq.closedMonitor⟩⟩
    · next hst' =>
      obtain ⟨hi, hcur, hset⟩ := hf
      rw [hst']
      exact ⟨⟨hi.dial, hi.stray⟩, hcur, hset⟩
    · next hst' => exact absurd hst' hst
    · next hst' =>
      obtain ⟨hi, hq⟩ := hf
      rw [hst']
      exact ⟨⟨hi.dial, hi.stray⟩, ⟨hq.current, hq.listener, hq.closedMonitor⟩⟩

/-! ## One report -/

variable {kind : Task → Bool} {id : TaskId} {t : Task}

theorem of_take (h : s.take kind id = some (t, s')) :
    t ∈ s.tasks ∧ t.id = id ∧ kind t = true ∧ s' = { s with tasks := s.tasks.filter (·.id ≠ id) } := by
  unfold take at h
  obtain ⟨u, hu, he⟩ := Option.map_eq_some_iff.mp h
  cases he
  have hfound := List.find?_some hu
  simp only [Bool.and_eq_true, decide_eq_true_eq] at hfound
  exact ⟨List.mem_of_find?_eq_some hu, hfound.1, hfound.2, rfl⟩

/-- Ids are given once, so the report takes one task out of the list. -/
theorem mem_take (hp : s.Pool) (h : s.take kind id = some (t, s')) {u : Task} :
    u ∈ s'.tasks ↔ u ∈ s.tasks ∧ u ≠ t := by
  obtain ⟨hmem, rfl, -, rfl⟩ := of_take h
  show u ∈ s.tasks.filter _ ↔ _
  rw [List.mem_filter]
  simp only [ne_eq, decide_not, Bool.not_eq_eq_eq_not, Bool.not_true, decide_eq_false_iff_not]
  refine and_congr_right fun hu => not_congr ⟨fun hid => ?_, fun he => he ▸ rfl⟩
  exact List.inj_on_of_nodup_map hp.nodup hu hmem hid

/-- Nothing but the list of tasks changes. -/
theorem take_frame (h : s.take kind id = some (t, s')) :
    s'.machine = s.machine ∧ s'.current = s.current ∧ s'.os = s.os ∧ s'.generation = s.generation := by
  obtain ⟨-, -, -, rfl⟩ := of_take h
  exact ⟨rfl, rfl, rfl, rfl⟩

theorem take_socksAddr (h : s.take kind id = some (t, s')) : s'.socksAddr = s.socksAddr := by
  obtain ⟨-, -, -, rfl⟩ := of_take h
  rfl

theorem Quiet.take (hq : s.Quiet) (h : s.take kind id = some (t, s')) : s'.Quiet := by
  obtain ⟨-, -, -, rfl⟩ := of_take h
  exact ⟨hq.current, hq.listener, hq.closedMonitor⟩

theorem Pool.take (hp : s.Pool) (h : s.take kind id = some (t, s')) : s'.Pool := by
  obtain ⟨-, -, -, rfl⟩ := of_take h
  refine ⟨?_, fun u hu => ?_, fun u hu => ?_⟩
  · exact hp.nodup.sublist (List.filter_sublist.map _)
  · exact hp.fresh u (List.mem_of_mem_filter hu)
  · exact hp.generation u (List.mem_of_mem_filter hu)

theorem Idle.take (hi : s.Idle) (h : s.take kind id = some (t, s')) : s'.Idle := by
  obtain ⟨-, -, -, rfl⟩ := of_take h
  exact ⟨hi.dial, fun u hu => hi.stray u (List.mem_of_mem_filter hu)⟩

theorem DialedBy.take (hp : s.Pool) {d : Task} (hd : s.DialedBy d)
    (h : s.take kind id = some (t, s')) (hne : d ≠ t) : s'.DialedBy d := by
  have hmem : d ∈ s'.tasks := (mem_take hp h).mpr ⟨hd.mem, hne⟩
  obtain ⟨-, -, -, rfl⟩ := of_take h
  refine ⟨hmem, hd.dial, hd.isDial, hd.live, hd.generation, ?_⟩
  intro u hu
  exact hd.stray u (List.mem_of_mem_filter hu)

/-- Once its report is in, the dial is over. -/
theorem DialedBy.idle (hp : s.Pool) (hd : s.DialedBy t) (h : s.take kind id = some (t, s')) :
    { s' with dial := none }.Idle := by
  refine ⟨rfl, ?_⟩
  intro u hu hdial
  obtain ⟨hu', hne⟩ := (mem_take hp h).mp hu
  obtain ⟨-, -, -, rfl⟩ := of_take h
  exact hd.stray u hu' hdial hne

theorem Timed.take (hp : s.Pool) (ht : s.Timed) (h : s.take kind id = some (t, s'))
    (hspent : t.isBackoff = true → t.aborted = false → t.generation ≠ s.generation) : s'.Timed := by
  obtain ⟨u, hu, hb, hl, hg⟩ := ht
  have hmem : u ∈ s'.tasks := by
    refine (mem_take hp h).mpr ⟨hu, ?_⟩
    rintro rfl
    exact hspent hb hl hg
  obtain ⟨-, -, -, rfl⟩ := of_take h
  exact ⟨u, hmem, hb, hl, hg⟩

/-- The states in which a dial can be under way. -/
theorem Consistent.of_dialing (hc : s.Consistent) (hd : s.Dialing) : s.Quiet ∧
    (s.machine.state = .connecting ∨ s.machine.state = .reconnecting ∧
      (s.machine.proxySet = false → s.os = none)) := by
  obtain ⟨d, hd⟩ := hd
  have hni : ¬s.Idle := by
    intro hi
    cases hi.dial.symm.trans hd.dial
  have hf := hc.fits
  unfold Fits at hf
  split at hf
  · exact absurd hf.1 hni
  · next hst => exact ⟨hf.2, .inl hst⟩
  · exact absurd hf.1 hni
  · next hst => exact ⟨hf.2.1, .inr ⟨hst, hf.2.2⟩⟩
  · exact absurd hf.1 hni

/-- A task that is neither the dial under way nor a timer that counts is not missed. -/
theorem Consistent.take (hc : s.Consistent) (h : s.take kind id = some (t, s'))
    (hdial : ¬s.DialedBy t) (hspent : s.machine.state = .reconnecting →
      t.isBackoff = true → t.aborted = false → t.generation ≠ s.generation) :
    s'.Consistent := by
  have hdialing : s.Dialing → s'.Dialing := by
    rintro ⟨d, hd⟩
    exact ⟨d, hd.take hc.pool h fun he => hdial (he ▸ hd)⟩
  have hidle : s.Idle → s'.Idle := fun hi => hi.take h
  have htimed : s.machine.state = .reconnecting → s.Timed → s'.Timed :=
    fun hst ht => ht.take hc.pool h (hspent hst)
  have hf := hc.fits
  refine ⟨hc.pool.take h, ?_⟩
  obtain ⟨-, -, -, rfl⟩ := of_take h
  unfold Fits at hf ⊢
  dsimp only at hf ⊢
  split at hf
  · exact ⟨hidle hf.1, ⟨hf.2.1.current, hf.2.1.listener, hf.2.1.closedMonitor⟩, hf.2.2⟩
  · exact ⟨hdialing hf.1, ⟨hf.2.current, hf.2.listener, hf.2.closedMonitor⟩⟩
  · exact ⟨hidle hf.1, hf.2⟩
  · next hst =>
    obtain ⟨hd, hq, hos⟩ := hf
    refine ⟨?_, ⟨hq.current, hq.listener, hq.closedMonitor⟩, hos⟩
    exact hd.imp hdialing fun hi => ⟨hidle hi.1, fun hon => htimed hst (hi.2 hon)⟩
  · exact ⟨hidle hf.1, ⟨hf.2.current, hf.2.listener, hf.2.closedMonitor⟩⟩

theorem Consistent.current_none (hc : s.Consistent) (hst : s.machine.state ≠ .connected) :
    s.current = none := by
  have hf := hc.fits
  unfold Fits at hf
  split at hf
  · exact hf.2.1.current
  · exact hf.2.current
  · next h => exact absurd h hst
  · exact hf.2.1.current
  · exact hf.2.current

theorem consistent_onDialResult (hp : s.Pool) (hi : s.Idle) (hq : s.Quiet)
    (hst : s.machine.state = .connecting ∨ s.machine.state = .reconnecting ∧
      (s.machine.proxySet = false → s.os = none)) (res : Option Tunnel) :
    (s.onDialResult o res).1.Consistent := by
  cases res with
  | none => exact consistent_dialFailed hp hi hq hst
  | some tunnel =>
    have hc : ({ s with current := some tunnel }.feed o .dialSucceeded).1.Consistent :=
      consistent_dialSucceeded ⟨hp.nodup, hp.fresh, hp.generation⟩ ⟨hi.dial, hi.stray⟩ rfl
        (hst.imp_right And.left)
    unfold onDialResult
    dsimp only
    generalize { s with current := some tunnel }.feed o .dialSucceeded = r at hc
    split
    · next hne =>
      -- the machine holds nothing then, so nothing is dropped
      have he : { r.1 with current := none } = r.1 := by
        rw [← hc.current_none hne]
      rw [he]
      exact hc
    · exact hc

end

end Inner

namespace Runtime

section

variable {Tunnel : Type} {o : Answers} {s s' : Inner Tunnel}

theorem receive_eq_some {kind : Task → Bool} {id : TaskId}
    {handler : Inner Tunnel → Inner Tunnel × List Effect} {r : Inner Tunnel × List Effect}
    (h : receive s kind id handler = some r) :
    ∃ t s₁, s.take kind id = some (t, s₁) ∧
      ((t.generation = s.generation ∧ r = handler s₁) ∨ (t.generation ≠ s.generation ∧ r = (s₁, []))) := by
  unfold receive at h
  obtain ⟨⟨t, s₁⟩, htake, hr⟩ := Option.map_eq_some_iff.mp h
  obtain ⟨-, -, -, hs₁⟩ := Inner.of_take htake
  have hg : s₁.generation = s.generation := by rw [hs₁]
  dsimp only at hr
  refine ⟨t, s₁, htake, ?_⟩
  split at hr
  · next heq => exact .inl ⟨heq.trans hg, hr.symm⟩
  · next hne => exact .inr ⟨fun he => hne (he.trans hg.symm), hr.symm⟩

/-- A report under an older generation takes its task out of the list and does nothing else. -/
theorem consistent_stale {kind : Task → Bool} {id : TaskId} {t : Task} (hc : s.Consistent)
    (htake : s.take kind id = some (t, s')) (hstale : t.generation ≠ s.generation) :
    s'.Consistent :=
  hc.take htake (fun hd => hstale hd.generation) fun _ _ _ => hstale

/-- A dial of the current generation is the one that is under way. -/
theorem dialedBy_of_current {t : Task} (hc : s.Consistent) (hmem : t ∈ s.tasks)
    (hdial : t.isDial = true) (hg : t.generation = s.generation) : s.DialedBy t := by
  obtain ⟨d, hd⟩ | hi := hc.dialing_or_idle
  · by_cases htd : t = d
    · exact htd ▸ hd
    · exact absurd hg (Nat.ne_of_lt (hd.stray t hmem hdial htd).2)
  · exact absurd hg (Nat.ne_of_lt (hi.stray t hmem hdial).2)

theorem consistent_dialed {id : TaskId} {res : Option Tunnel} {r : Inner Tunnel × List Effect}
    (hc : s.Consistent) (h : receive s Task.isDial id
      (fun s => { s with dial := none }.onDialResult o res) = some r) : r.1.Consistent := by
  obtain ⟨t, s₁, htake, ⟨hg, rfl⟩ | ⟨hg, rfl⟩⟩ := receive_eq_some h
  · obtain ⟨hmem, -, hdial, -⟩ := Inner.of_take htake
    have hd := dialedBy_of_current hc hmem hdial hg
    have hp₁ := hc.pool.take htake
    obtain ⟨hq, hst⟩ := hc.of_dialing ⟨t, hd⟩
    have hq₁ := hq.take htake
    obtain ⟨hm, -, hos, -⟩ := Inner.take_frame htake
    rw [← hm, ← hos] at hst
    apply Inner.consistent_onDialResult (s := { s₁ with dial := none })
    · exact ⟨hp₁.nodup, hp₁.fresh, hp₁.generation⟩
    · exact hd.idle hc.pool htake
    · exact ⟨hq₁.current, hq₁.listener, hq₁.closedMonitor⟩
    · exact hst
  · exact consistent_stale hc htake hg

theorem not_dialedBy {t : Task} (h : t.isDial = false) : ¬s.DialedBy t := by
  intro hd
  cases hd.isDial.symm.trans h

theorem consistent_elapsed {id : TaskId} {r : Inner Tunnel × List Effect} (hc : s.Consistent)
    (h : receive s Task.isBackoff id (fun s => s.feed o .backoffElapsed) = some r) :
    r.1.Consistent := by
  obtain ⟨t, s₁, htake, ⟨hg, rfl⟩ | ⟨hg, rfl⟩⟩ := receive_eq_some h
  · obtain ⟨-, -, hback, -⟩ := Inner.of_take htake
    have hnd : ¬s.DialedBy t := by
      apply not_dialedBy
      unfold Task.isBackoff at hback
      unfold Task.isDial
      split <;> simp_all
    obtain ⟨hm, -, hos', -⟩ := Inner.take_frame htake
    by_cases hst : s.machine.state = .reconnecting
    · obtain ⟨hd, hq, hos⟩ : (s.Dialing ∨ (s.Idle ∧ (s.machine.online = true → s.Timed))) ∧
          s.Quiet ∧ (s.machine.proxySet = false → s.os = none) := by
        simpa only [Inner.Fits, hst] using hc.fits
      have hd₁ : s₁.Dialing ∨ s₁.Idle := by
        rcases hd with ⟨d, hd⟩ | ⟨hi, -⟩
        · exact .inl ⟨d, hd.take hc.pool htake fun he => hnd (he ▸ hd)⟩
        · exact .inr (hi.take htake)
      rw [← hm] at hst
      rw [← hm, ← hos'] at hos
      exact Inner.consistent_backoffElapsed (hc.pool.take htake) hd₁ (hq.take htake) hst hos
    · -- in the other states the timer does nothing and is not missed
      have hh : s₁.machine.handle .backoffElapsed = (s₁.machine, []) := by
        rw [hm]
        unfold Machine.handle
        split <;> simp_all
      have hc₁ := hc.take htake hnd fun h => absurd h hst
      apply Inner.Consistent.feed
      simp only [Inner.feedUntil, hh]
      exact hc₁
  · exact consistent_stale hc htake hg

theorem consistent_dropped {id : TaskId} {r : Inner Tunnel × List Effect} (hc : s.Consistent)
    (h : receive s Task.isServing id (fun s => s.feed o .tunnelDropped) = some r) :
    r.1.Consistent := by
  obtain ⟨t, s₁, htake, ⟨hg, rfl⟩ | ⟨hg, rfl⟩⟩ := receive_eq_some h
  · obtain ⟨-, -, hserving, -⟩ := Inner.of_take htake
    have hkind : t.isDial = false ∧ t.isBackoff = false := by
      unfold Task.isServing at hserving
      unfold Task.isDial Task.isBackoff
      split at hserving <;> simp_all
    refine Inner.consistent_tunnelDropped (hc.take htake (not_dialedBy hkind.1) ?_)
    intro _ hb
    cases hb.symm.trans hkind.2
  · exact consistent_stale hc htake hg

theorem consistent_onCommand (hc : s.Consistent) (cmd : Inner.Command) :
    (s.onCommand o cmd).1.Consistent := by
  cases cmd with
  | connect uri =>
    show (if _ then _ else _ : Inner Tunnel × List Effect).1.Consistent
    split
    · next hst =>
      have hf := hc.fits
      obtain ⟨hi, hq⟩ : s.Idle ∧ s.Quiet := by
        rcases hst with hst | hst
        · simp only [Inner.Fits, hst] at hf
          exact ⟨hf.1, hf.2.1⟩
        · simpa only [Inner.Fits, hst] using hf
      exact Inner.consistent_connect ⟨hc.pool.nodup, hc.pool.fresh, hc.pool.generation⟩
        ⟨hi.dial, hi.stray⟩ ⟨hq.current, hq.listener, hq.closedMonitor⟩ hst
    · exact hc
  | disconnect => exact Inner.consistent_disconnect hc
  | connectivity online => exact Inner.consistent_connectivity hc online

/-- **Every turn of the loop leaves the machine and the shell in agreement.** -/
theorem consistent_turn {e : Event Tunnel} {r : Inner Tunnel × List Effect} (hc : s.Consistent)
    (h : turn o s e = some r) : r.1.Consistent := by
  cases e with
  | command cmd =>
    cases h
    exact consistent_onCommand hc cmd
  | dialed id res => exact consistent_dialed hc h
  | elapsed id => exact consistent_elapsed hc h
  | dropped id => exact consistent_dropped hc h
  | vanished id =>
    obtain ⟨⟨t, s₁⟩, htake, rfl⟩ := Option.map_eq_some_iff.mp h
    obtain ⟨-, -, haborted, -⟩ := Inner.of_take htake
    refine hc.take htake (fun hd => ?_) fun _ _ hl => ?_
    · cases hd.live.symm.trans haborted
    · cases hl.symm.trans haborted
  | closed =>
    cases h
    exact consistent_onCommand hc .disconnect

theorem receive_stale {kind : Task → Bool} {id : TaskId}
    {handler : Inner Tunnel → Inner Tunnel × List Effect} {r : Inner Tunnel × List Effect} {t : Task}
    (hp : s.Pool) (h : receive s kind id handler = some r) (hmem : t ∈ s.tasks) (hid : t.id = id)
    (hstale : t.generation ≠ s.generation) :
    r.1.machine = s.machine ∧ r.1.current = s.current ∧ r.1.os = s.os ∧ r.2 = [] := by
  obtain ⟨u, s₁, htake, hr⟩ := receive_eq_some h
  obtain ⟨humem, huid, -, -⟩ := Inner.of_take htake
  obtain rfl : u = t := List.inj_on_of_nodup_map hp.nodup humem hmem (huid.trans hid.symm)
  obtain ⟨hm, hcur, hos, -⟩ := Inner.take_frame htake
  rcases hr with ⟨hg, -⟩ | ⟨-, rfl⟩
  · exact absurd hg hstale
  · exact ⟨hm, hcur, hos, rfl⟩

theorem turn_of_step {rt rt' : Runtime Tunnel} {a : Event Tunnel × Answers} {ev : List Effect}
    (h : step rt a = some (rt', ev)) :
    ∃ r, turn a.2 rt.inner a.1 = some r ∧ (⟨r.1, a.1.goesOn⟩, r.2) = (rt', ev) := by
  unfold step at h
  split at h
  · exact Option.map_eq_some_iff.mp h
  · cases h

/-- A report under another generation than the current one does nothing. -/
theorem stale_ignored {e : Event Tunnel} {id : TaskId} {t : Task} {rt rt' : Runtime Tunnel}
    {ev : List Effect} (hp : rt.inner.Pool) (he : e.report = some id) (hmem : t ∈ rt.inner.tasks)
    (hid : t.id = id) (hstale : t.generation ≠ rt.inner.generation)
    (hs : step rt (e, o) = some (rt', ev)) :
    rt'.inner.machine = rt.inner.machine ∧ rt'.inner.current = rt.inner.current ∧
      rt'.inner.os = rt.inner.os ∧ ev = [] := by
  obtain ⟨r, hr, he'⟩ := turn_of_step hs
  cases he'
  cases e with simp only [turn] at hr
  | dialed id' res =>
    cases he
    exact receive_stale hp hr hmem hid hstale
  | elapsed id' =>
    cases he
    exact receive_stale hp hr hmem hid hstale
  | dropped id' =>
    cases he
    exact receive_stale hp hr hmem hid hstale
  | _ => cases he

/-! ## Runs -/

variable {cfg : SupervisorConfig}
  {log : List (Taken (Runtime Tunnel) (Event Tunnel × Answers) Effect)} {rt : Runtime Tunnel}

theorem consistent_run (h : Exec step (spawnSupervisor cfg) log rt) :
    rt.inner.Consistent := by
  refine h.state_inv (P := fun rt => rt.inner.Consistent) ?_ ?_
  · refine ⟨⟨List.nodup_nil, by simp [spawnSupervisor], by simp [spawnSupervisor]⟩, ?_⟩
    exact ⟨⟨rfl, by simp [spawnSupervisor]⟩, ⟨rfl, rfl, rfl⟩, rfl⟩
  · intro rt a rt' ev hc hs
    obtain ⟨r, hr, he⟩ := turn_of_step hs
    cases he
    exact consistent_turn hc hr

/-- A live dial is the one the shell has a handle on. -/
theorem dialedBy_of_live (hc : s.Consistent) {t : Task} (hmem : t ∈ s.tasks)
    (hdial : t.isDial = true) (hlive : t.aborted = false) : s.DialedBy t := by
  obtain ⟨d, hd⟩ | hi := hc.dialing_or_idle
  · by_cases htd : t = d
    · exact htd ▸ hd
    · cases hlive.symm.trans (hd.stray t hmem hdial htd).1
  · cases hlive.symm.trans (hi.stray t hmem hdial).1

/-- **The machine and its shell agree after every event of every run.** The shell holds a tunnel exactly
while the machine is connected; a dial is outstanding only while the machine connects or reconnects, it
carries the current generation and there is no second one; and a report under an older generation changes
neither the machine nor the tunnel nor the system's proxy. -/
theorem shell_agrees (h : Exec step (spawnSupervisor cfg) log rt) :
    (rt.inner.current.isSome = true ↔ rt.inner.machine.state = .connected) ∧
    (∀ id, rt.inner.dial = some id →
      (rt.inner.machine.state = .connecting ∨ rt.inner.machine.state = .reconnecting) ∧
      ∃ t ∈ rt.inner.tasks, t.id = id ∧ t.isDial = true ∧ t.aborted = false) ∧
    (∀ t ∈ rt.inner.tasks, t.isDial = true → t.aborted = false →
      rt.inner.dial = some t.id ∧ t.generation = rt.inner.generation ∧
      ∀ u ∈ rt.inner.tasks, u.isDial = true → u.aborted = false → u = t) ∧
    (∀ e o id t rt' ev, e.report = some id → t ∈ rt.inner.tasks → t.id = id →
      t.generation < rt.inner.generation → step rt (e, o) = some (rt', ev) →
      rt'.inner.machine = rt.inner.machine ∧ rt'.inner.current = rt.inner.current ∧
      rt'.inner.os = rt.inner.os ∧ ev = []) := by
  have hc := consistent_run h
  refine ⟨⟨?_, ?_⟩, ?_, ?_, ?_⟩
  · intro hcur
    by_contra hst
    rw [hc.current_none hst] at hcur
    cases hcur
  · intro hst
    have hf := hc.fits
    simp only [Inner.Fits, hst] at hf
    exact hf.2.1
  · intro id hid
    obtain ⟨d, hd⟩ | hi := hc.dialing_or_idle
    · obtain ⟨-, hst⟩ := hc.of_dialing ⟨d, hd⟩
      refine ⟨hst.imp_right And.left, d, hd.mem, ?_, hd.isDial, hd.live⟩
      exact Option.some.inj (hd.dial.symm.trans hid)
    · cases hi.dial.symm.trans hid
  · intro t hmem hdial hlive
    have ht := dialedBy_of_live hc hmem hdial hlive
    refine ⟨ht.dial, ht.generation, ?_⟩
    intro u hu hud hul
    by_contra hne
    cases hul.symm.trans (ht.stray u hu hud hne).1
  · intro e o id t rt' ev hid hmem htid hstale hs
    exact stale_ignored hc.pool hid hmem htid (Nat.ne_of_lt hstale) hs

/-- **No reconnect is stuck.** While the machine reconnects and is online, a dial is in flight or a timer
of the current generation has yet to be delivered; while it connects, a dial is in flight. -/
theorem never_stuck (h : Exec step (spawnSupervisor cfg) log rt) :
    (rt.inner.machine.state = .reconnecting → rt.inner.machine.online = true →
      (∃ t ∈ rt.inner.tasks, rt.inner.dial = some t.id ∧ t.isDial = true ∧ t.aborted = false ∧
        t.generation = rt.inner.generation) ∨
      (∃ t ∈ rt.inner.tasks, t.isBackoff = true ∧ t.aborted = false ∧
        t.generation = rt.inner.generation)) ∧
    (rt.inner.machine.state = .connecting →
      ∃ t ∈ rt.inner.tasks, rt.inner.dial = some t.id ∧ t.isDial = true ∧ t.aborted = false ∧
        t.generation = rt.inner.generation) := by
  have hc := consistent_run h
  have hf := hc.fits
  refine ⟨?_, ?_⟩
  · intro hst hon
    simp only [Inner.Fits, hst] at hf
    obtain ⟨⟨d, hd⟩ | ⟨-, htimed⟩, -⟩ := hf
    · exact .inl ⟨d, hd.mem, hd.dial, hd.isDial, hd.live, hd.generation⟩
    · exact .inr (htimed hon)
  · intro hst
    simp only [Inner.Fits, hst] at hf
    obtain ⟨⟨d, hd⟩, -⟩ := hf
    exact ⟨d, hd.mem, hd.dial, hd.isDial, hd.live, hd.generation⟩

end

/-- Everything the shell asks for is granted. -/
def granted : Answers := ⟨some ⟨1080, by decide⟩, .done, true⟩

/-- A tunnel comes up and goes down. -/
def firstDrop : List (Event Unit × Answers) :=
  [(.command (.connect "leshiy://x"), granted), (.dialed 0 (some ()), granted), (.dropped 2, granted)]

/-- The tunnel is let go while the machine reconnects. -/
theorem shell_agrees_after_drop :
    ∃ log rt, Exec step (spawnSupervisor default : Runtime Unit) log rt ∧
      rt.inner.machine.state = .reconnecting ∧
      (rt.inner.current.isSome = true ↔ rt.inner.machine.state = .connected) := by
  obtain ⟨log, rt, h, hst⟩ := exec_reaches step (spawnSupervisor default : Runtime Unit) firstDrop
    (fun _ rt => rt.inner.machine.state = .reconnecting) (by decide)
  exact ⟨log, rt, h, hst, (shell_agrees h).1⟩

/-- A timer has been set for the reconnect, or a dial would be in flight. -/
theorem never_stuck_after_drop :
    ∃ log rt, Exec step (spawnSupervisor default : Runtime Unit) log rt ∧
      rt.inner.machine.state = .reconnecting ∧ rt.inner.machine.online = true ∧
      ((∃ t ∈ rt.inner.tasks, rt.inner.dial = some t.id ∧ t.isDial = true ∧ t.aborted = false ∧
          t.generation = rt.inner.generation) ∨
        (∃ t ∈ rt.inner.tasks, t.isBackoff = true ∧ t.aborted = false ∧
          t.generation = rt.inner.generation)) := by
  obtain ⟨log, rt, h, hst, hon⟩ := exec_reaches step (spawnSupervisor default : Runtime Unit) firstDrop
    (fun _ rt => rt.inner.machine.state = .reconnecting ∧ rt.inner.machine.online = true) (by decide)
  exact ⟨log, rt, h, hst, hon, (never_stuck h).1 hst hon⟩

end Runtime

end Leshiy.Client
