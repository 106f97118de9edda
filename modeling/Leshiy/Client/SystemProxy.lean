import Leshiy.Client.Consistent

/-!
# The system's proxy setting

What a run of the client does to the proxy setting of the system. The setting is cleared from three
places: the machine asks for it, `proxy.set` has failed, or the command channel has closed.
-/

namespace Leshiy.Client

open Leshiy.Lib

/-- What a call left behind, if it had an effect: the setting points at the local port, or it does not. -/
def Effect.applied : Effect → Option Bool
  | .proxySet _ .done | .proxySet _ (.failed true) => some true
  | .proxyClear true => some false
  | _ => none

/-- The last call that had an effect. -/
def lastApplied (evs : List Effect) : Option Bool := (evs.filterMap Effect.applied).getLast?

theorem lastApplied_append (evs evs' : List Effect) :
    lastApplied (evs ++ evs') = (lastApplied evs').or (lastApplied evs) := by
  unfold lastApplied
  rw [List.filterMap_append, List.getLast?_append]

namespace Inner

section

variable {Tunnel : Type} {o : Answers} {s : Inner Tunnel}

/-! ## Facts about every action -/

/-- What every action does, a list of actions does. -/
theorem applyUntil_rel {R : Inner Tunnel → List Effect → Inner Tunnel → Prop}
    (hrefl : ∀ s, R s [] s)
    (htrans : ∀ s ev s' ev' s'', R s ev s' → R s' ev' s'' → R s (ev ++ ev') s'') {as : List Action}
    (hperform : ∀ s a, a ∈ as → R s (s.perform o a).ev (s.perform o a).inner) (s : Inner Tunnel) :
    R s (s.applyUntil o as).ev (s.applyUntil o as).inner := by
  induction as generalizing s with
  | nil => exact hrefl s
  | cons a as ih =>
    have ha := hperform s a List.mem_cons_self
    unfold applyUntil
    dsimp only
    split
    · exact ha
    · exact htrans _ _ _ _ _ ha (ih (fun s b hb => hperform s b (List.mem_cons_of_mem a hb)) _)

/-- The same for an input, of a relation that does not look at the machine. -/
theorem feed_rel {R : Inner Tunnel → List Effect → Inner Tunnel → Prop}
    (hrefl : ∀ s, R s [] s)
    (htrans : ∀ s ev s' ev' s'', R s ev s' → R s' ev' s'' → R s (ev ++ ev') s'')
    (hmachine : ∀ s m ev s', R { s with machine := m } ev s' → R s ev s') {input : Input}
    (hperform : ∀ s' a, a ∈ (s.machine.handle input).2 ∨ a ∈ [.stopServing, .emit .error] →
      R s' (s'.perform o a).ev (s'.perform o a).inner) :
    R s (s.feed o input).2 (s.feed o input).1 := by
  have hfirst : R s (s.feedUntil o input).ev (s.feedUntil o input).inner :=
    hmachine _ _ _ _ (applyUntil_rel hrefl htrans (fun s' a ha => hperform s' a (.inl ha)) _)
  unfold feed
  dsimp only
  split
  · refine htrans _ _ _ _ _ hfirst (hmachine _ _ _ _ (applyUntil_rel hrefl htrans ?_ _))
    intro s' a ha
    exact hperform s' a (.inr ha)
  · exact hfirst

/-! ## The last call that had an effect -/

/-- The setting after some calls is what the last one with an effect left, and the old one if there was
none. -/
def Follows (s : Inner Tunnel) (ev : List Effect) (s' : Inner Tunnel) : Prop :=
  s'.os.isSome = (lastApplied ev).getD s.os.isSome

theorem follows_trans {ev ev' : List Effect} {s' s'' : Inner Tunnel} (h : s.Follows ev s')
    (h' : s'.Follows ev' s'') : s.Follows (ev ++ ev') s'' := by
  unfold Follows at h h' ⊢
  rw [h', h, lastApplied_append]
  cases lastApplied ev' <;> rfl

theorem follows_perform (a : Action) : s.Follows (s.perform o a).ev (s.perform o a).inner := by
  unfold Follows
  fun_cases perform o s a with
  | case4 applied => cases applied <;> cases o.clear <;> rfl
  | case5 => cases o.clear <;> rfl
  | _ => rfl

theorem follows_feed (input : Input) : s.Follows (s.feed o input).2 (s.feed o input).1 :=
  feed_rel (fun _ => rfl) (fun _ _ _ _ _ => follows_trans) (fun _ _ _ _ h => h)
    fun _ a _ => follows_perform a

end

end Inner

namespace Runtime

section

variable {Tunnel : Type} {o : Answers} {s : Inner Tunnel}

theorem follows_onCommand (cmd : Inner.Command) :
    s.Follows (s.onCommand o cmd).2 (s.onCommand o cmd).1 := by
  cases cmd with
  | connect uri =>
    show Inner.Follows s (if _ then _ else _ : Inner Tunnel × List Effect).2 _
    unfold Inner.onCommand
    dsimp only
    split
    · exact Inner.follows_feed (s := { s with currentUri := uri }) .connect
    · rfl
  | disconnect => exact Inner.follows_feed (s := s.hangUp) .disconnect
  | connectivity online => exact Inner.follows_feed _

theorem follows_onDialResult (res : Option Tunnel) :
    s.Follows (s.onDialResult o res).2 (s.onDialResult o res).1 := by
  cases res with
  | none => exact Inner.follows_feed _
  | some tunnel =>
    have h := Inner.follows_feed (o := o) (s := { s with current := some tunnel }) .dialSucceeded
    unfold Inner.onDialResult
    dsimp only
    split
    · exact h
    · exact h

theorem follows_receive {kind : Task → Bool} {id : TaskId}
    {handler : Inner Tunnel → Inner Tunnel × List Effect} {r : Inner Tunnel × List Effect}
    (h : receive s kind id handler = some r)
    (hhandler : ∀ s' : Inner Tunnel, s'.Follows (handler s').2 (handler s').1) :
    s.Follows r.2 r.1 := by
  obtain ⟨t, s₁, htake, hr⟩ := receive_eq_some h
  obtain ⟨-, -, hos, -⟩ := Inner.take_frame htake
  rcases hr with ⟨-, rfl⟩ | ⟨-, rfl⟩
  · have := hhandler s₁
    unfold Inner.Follows at this ⊢
    rw [this, hos]
  · unfold Inner.Follows
    rw [hos]
    rfl

theorem follows_turn {e : Event Tunnel} {r : Inner Tunnel × List Effect} (h : turn o s e = some r) :
    s.Follows r.2 r.1 := by
  cases e with simp only [turn] at h
  | command cmd =>
    cases h
    exact follows_onCommand cmd
  | dialed id res =>
    exact follows_receive h fun s' => follows_onDialResult (s := { s' with dial := none }) res
  | elapsed id => exact follows_receive h fun _ => Inner.follows_feed _
  | dropped id => exact follows_receive h fun _ => Inner.follows_feed _
  | vanished id =>
    obtain ⟨⟨t, s₁⟩, htake, rfl⟩ := Option.map_eq_some_iff.mp h
    obtain ⟨-, -, hos, -⟩ := Inner.take_frame htake
    unfold Inner.Follows
    rw [hos]
    rfl
  | closed =>
    cases h
    exact follows_onCommand .disconnect

variable {cfg : SupervisorConfig}
  {log : List (Taken (Runtime Tunnel) (Event Tunnel × Answers) Effect)} {rt : Runtime Tunnel}

theorem follows_run (h : Exec step (spawnSupervisor cfg) log rt) :
    rt.inner.os.isSome = (lastApplied (shown log)).getD false := by
  refine h.inv (P := fun log rt => rt.inner.os.isSome = (lastApplied (shown log)).getD false) rfl ?_
  intro log rt a rt' ev _ ih hs
  obtain ⟨r, hr, he⟩ := turn_of_step hs
  cases he
  have hf := follows_turn hr
  unfold Inner.Follows at hf
  rw [hf, ih, shown_snoc, lastApplied_append]
  dsimp only
  cases lastApplied r.2 <;> rfl

/-- **The proxy never outlives the session.** Whenever the machine rests disconnected, the last call that
had an effect on the system's proxy was one that cleared it, or there was none. -/
theorem proxy_cleared_when_disconnected (h : Exec step (spawnSupervisor cfg) log rt)
    (hst : rt.inner.machine.state = .disconnected) :
    (lastApplied (shown log) = none ∨ lastApplied (shown log) = some false) ∧ rt.inner.os = none := by
  have hf := (consistent_run h).fits
  simp only [Inner.Fits, hst] at hf
  have hos := hf.2.2
  have hlast := follows_run h
  rw [hos] at hlast
  refine ⟨?_, hos⟩
  cases hl : lastApplied (shown log) with
  | none => exact .inl rfl
  | some b =>
    rw [hl] at hlast
    exact .inr (congrArg some hlast.symm)

end

/-- A session that ends. -/
theorem proxy_cleared_after_session :
    ∃ log rt, Exec step (spawnSupervisor default : Runtime Unit) log rt ∧
      rt.inner.machine.state = .disconnected ∧ lastApplied (shown log) = some false ∧
      rt.inner.os = none := by
  obtain ⟨log, rt, h, hst, hlast⟩ := exec_reaches step (spawnSupervisor default : Runtime Unit)
    (firstDrop ++ [(.command .disconnect, granted)])
    (fun log rt => rt.inner.machine.state = .disconnected ∧ lastApplied (shown log) = some false)
    (by decide)
  exact ⟨log, rt, h, hst, hlast, (proxy_cleared_when_disconnected h hst).2⟩

end Runtime

end Leshiy.Client
