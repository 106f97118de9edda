import Leshiy.Client.SystemProxy

/-!
# The kill switch

With the kill switch on, the system's proxy setting is to stay where a session has put it until the user
disconnects, so that applications fail closed. A service failure makes the machine forget that the
setting is there. The next successful dial sets it again, and when that call fails the shell clears
what it should have left.
-/

namespace Leshiy.Client

open Leshiy.Lib

/-- Whether a successful `proxy.set` still has to be honoured, that is, no disconnect has followed it. -/
def pin (pinned : Bool) : Effect → Bool
  | .disconnect => false
  | .proxySet _ .done => true
  | _ => pinned

def pinned (evs : List Effect) : Bool := evs.foldl pin false

def Effect.isPublish : Effect → Bool
  | .publish _ => true
  | _ => false

theorem foldl_pin_publish {ev : List Effect} (h : ∀ e ∈ ev, e.isPublish = true) (b : Bool) :
    ev.foldl pin b = b := by
  induction ev generalizing b with
  | nil => rfl
  | cons e ev ih =>
    have he := h e List.mem_cons_self
    cases e with
    | publish state => exact ih (fun e' h' => h e' (List.mem_cons_of_mem _ h')) b
    | _ => cases he

namespace Inner

section

variable {Tunnel : Type} {o : Answers} {s : Inner Tunnel}

/-- The proxy is not called and the setting stays; so does the local port, once it is known. -/
structure Keeps (s : Inner Tunnel) (ev : List Effect) (s' : Inner Tunnel) : Prop where
  publishes : ∀ e ∈ ev, e.isPublish = true
  os : s'.os = s.os
  socksAddr : s.socksAddr.port ≠ 0 → s'.socksAddr = s.socksAddr

theorem keeps_refl (s : Inner Tunnel) : s.Keeps [] s := ⟨by simp, rfl, fun _ => rfl⟩

theorem Keeps.trans {ev ev' : List Effect} {s' s'' : Inner Tunnel} (h : s.Keeps ev s')
    (h' : s'.Keeps ev' s'') : s.Keeps (ev ++ ev') s'' where
  publishes := by
    intro e he
    rcases List.mem_append.mp he with he | he
    · exact h.publishes e he
    · exact h'.publishes e he
  os := h'.os.trans h.os
  socksAddr := by
    intro hport
    have hs' := h.socksAddr hport
    exact (h'.socksAddr (by rw [hs']; exact hport)).trans hs'

theorem keeps_perform {a : Action} (hset : a ≠ .setProxy) (hclear : a ≠ .clearProxy) :
    s.Keeps (s.perform o a).ev (s.perform o a).inner := by
  fun_cases perform o s a with
  | case3 => exact absurd rfl hset
  | case4 => exact absurd rfl hset
  | case5 => exact absurd rfl hclear
  | case8 tunnel _ port =>
    exact ⟨by simp, rfl, fun hport => if_neg hport⟩
  | case11 state => exact ⟨by simp [Effect.isPublish], rfl, fun _ => rfl⟩
  | _ => exact ⟨by simp, rfl, fun _ => rfl⟩

/-- With the kill switch on, only a disconnect and a dial that succeeded touch the setting. -/
theorem keeps_feed {i : Input} (hkill : s.machine.killSwitch = true) (hd : i ≠ .disconnect)
    (hs : i ≠ .dialSucceeded ∨ s.machine.proxySet = true) :
    s.Keeps (s.feed o i).2 (s.feed o i).1 := by
  apply feed_rel keeps_refl (fun _ _ _ _ _ h h' => h.trans h')
  · intro s m ev s' h
    exact ⟨h.publishes, h.os, h.socksAddr⟩
  · intro s' a ha
    apply keeps_perform
    · rintro rfl
      rcases ha with ha | ha
      · obtain ⟨hi, hps⟩ := Machine.of_setProxy_mem ha
        rcases hs with hs | hs
        · exact hs hi
        · cases hs.symm.trans hps
      · simp at ha
    · rintro rfl
      rcases ha with ha | ha
      · rcases Machine.of_clearProxy_mem ha with hi | ⟨-, hk⟩
        · exact hd hi
        · cases hkill.symm.trans hk
      · simp at ha

/-- No call of a disconnect sets the proxy. -/
theorem feed_disconnect_not_done (addr : SocketAddr) :
    .proxySet addr .done ∉ (s.feed o .disconnect).2 := by
  refine feed_rel (R := fun _ ev _ => .proxySet addr .done ∉ ev) (by simp) ?_ (fun _ _ _ _ h => h) ?_
  · intro s ev s' ev' s'' h h' hmem
    exact (List.mem_append.mp hmem).elim h h'
  · intro s' a ha
    have hne : a ≠ .setProxy := by
      rintro rfl
      rcases ha with ha | ha
      · cases (Machine.of_setProxy_mem ha).1
      · simp at ha
    fun_cases perform o s' a with
    | case3 => exact absurd rfl hne
    | case4 => exact absurd rfl hne
    | _ => simp

/-- What a dial that succeeded does to a setting that the machine does not know of. -/
theorem feed_dialSucceeded (hst : s.machine.state = .connecting ∨ s.machine.state = .reconnecting)
    (hcur : s.current.isSome = true) (hps : s.machine.proxySet = false) :
    (o.bind = none → s.Keeps (s.feed o .dialSucceeded).2 (s.feed o .dialSucceeded).1) ∧
    ∀ port, o.bind = some port →
      (o.set = .done →
        (s.feed o .dialSucceeded).2 =
          [.proxySet (s.socksAddr.bound port) .done, .publish .connected] ∧
        (s.feed o .dialSucceeded).1.os = some (s.socksAddr.bound port) ∧
        (s.feed o .dialSucceeded).1.socksAddr = s.socksAddr.bound port) ∧
      ∀ applied, o.set = .failed applied →
        (s.feed o .dialSucceeded).2 = [.proxySet (s.socksAddr.bound port) (.failed applied),
          .proxyClear o.clear, .publish .error] := by
  obtain ⟨tunnel, htunnel⟩ := Option.isSome_iff_exists.mp hcur
  obtain ⟨m, hm⟩ : ∃ m, s.machine.handle .dialSucceeded =
      (m, [.startServing, .setProxy, .emit .connected]) := by
    rcases hst with hst | hst <;> simp [Machine.handle, hst, Machine.serve, hps]
  refine ⟨?_, ?_⟩
  · intro hb
    simp only [feed, feedUntil, hm, applyUntil, perform, htunnel, hb, if_true,
      Machine.handle_serviceFailed, Bool.false_eq_true, if_false]
    exact ⟨by simp [Effect.isPublish], rfl, fun _ => rfl⟩
  · intro port hb
    refine ⟨?_, ?_⟩
    · intro hset
      simp only [feed, feedUntil, hm, applyUntil, perform, htunnel, hb, hset, Bool.false_eq_true,
        if_false]
      exact ⟨rfl, rfl, rfl⟩
    · intro applied hset
      simp only [feed, feedUntil, hm, applyUntil, perform, htunnel, hb, hset, Bool.false_eq_true,
        if_false, if_true, Machine.handle_serviceFailed]
      rfl

/-- The tunnel that the machine did not adopt is all that `onDialResult` takes back. -/
theorem onDialResult_some (tunnel : Tunnel) :
    let r := { s with current := some tunnel }.feed o .dialSucceeded
    (s.onDialResult o (some tunnel)).2 = r.2 ∧ (s.onDialResult o (some tunnel)).1.os = r.1.os ∧
      (s.onDialResult o (some tunnel)).1.socksAddr = r.1.socksAddr ∧
      (s.onDialResult o (some tunnel)).1.machine = r.1.machine := by
  intro r
  unfold onDialResult
  dsimp only
  split
  · exact ⟨rfl, rfl, rfl, rfl⟩
  · exact ⟨rfl, rfl, rfl, rfl⟩

/-! ## The switch itself -/

theorem applyUntil_machine (as : List Action) : (s.applyUntil o as).inner.machine = s.machine := by
  refine applyUntil_rel (R := fun s _ s' => s'.machine = s.machine) (fun _ => rfl)
    (fun _ _ _ _ _ h h' => h'.trans h) ?_ s
  intro s a _
  fun_cases perform o s a <;> rfl

theorem feed_killSwitch (input : Input) :
    (s.feed o input).1.machine.killSwitch = s.machine.killSwitch := by
  have huntil : ∀ (s : Inner Tunnel) input,
      (s.feedUntil o input).inner.machine.killSwitch = s.machine.killSwitch := by
    intro s input
    unfold feedUntil
    rw [applyUntil_machine]
    exact Machine.handle_killSwitch
  unfold feed
  dsimp only
  split
  · exact (huntil _ _).trans (huntil s input)
  · exact huntil s input

end

end Inner

theorem SocketAddr.bound_port (a : SocketAddr) (p : Port) : (a.bound p).port ≠ 0 := by
  unfold SocketAddr.bound
  split
  · exact p.2
  · next h => exact h

namespace Runtime

section

variable {Tunnel : Type} {o : Answers} {s : Inner Tunnel} {e : Event Tunnel}
  {r : Inner Tunnel × List Effect}

theorem turn_killSwitch (h : turn o s e = some r) :
    r.1.machine.killSwitch = s.machine.killSwitch := by
  have hreceive : ∀ {kind id handler}, receive s kind id handler = some r →
      (∀ s' : Inner Tunnel, (handler s').1.machine.killSwitch = s'.machine.killSwitch) →
      r.1.machine.killSwitch = s.machine.killSwitch := by
    intro kind id handler h hhandler
    obtain ⟨t, s₁, htake, hr⟩ := receive_eq_some h
    obtain ⟨hm, -, -, -⟩ := Inner.take_frame htake
    rcases hr with ⟨-, rfl⟩ | ⟨-, rfl⟩
    · rw [hhandler, hm]
    · exact congrArg Machine.killSwitch hm
  cases e with simp only [turn] at h
  | command cmd =>
    cases h
    cases cmd with
    | connect uri =>
      unfold Inner.onCommand
      dsimp only
      split
      · exact Inner.feed_killSwitch _
      · rfl
    | disconnect => exact Inner.feed_killSwitch (s := s.hangUp) _
    | connectivity online => exact Inner.feed_killSwitch _
  | dialed id res =>
    refine hreceive h fun s' => ?_
    cases res with
    | none => exact Inner.feed_killSwitch _
    | some tunnel =>
      obtain ⟨-, -, -, hm⟩ := Inner.onDialResult_some (o := o) (s := { s' with dial := none }) tunnel
      rw [hm]
      exact Inner.feed_killSwitch _
  | elapsed id => exact hreceive h fun _ => Inner.feed_killSwitch _
  | dropped id => exact hreceive h fun _ => Inner.feed_killSwitch _
  | vanished id =>
    obtain ⟨⟨t, s₁⟩, htake, rfl⟩ := Option.map_eq_some_iff.mp h
    exact congrArg Machine.killSwitch (Inner.take_frame htake).1
  | closed =>
    cases h
    exact Inner.feed_killSwitch (s := s.hangUp) _

/-- The step at which a setting can be lost: the dial under way succeeds and the listener is bound, the
machine does not believe that the proxy is set, and the system refuses to set it. -/
def Refused (s : Inner Tunnel) (e : Event Tunnel) (o : Answers) : Prop :=
  ∃ id tunnel t port applied, e = .dialed id (some tunnel) ∧ t ∈ s.tasks ∧ t.id = id ∧
    t.isDial = true ∧ t.generation = s.generation ∧ s.machine.proxySet = false ∧
    o.bind = some port ∧ o.set = .failed applied

/-- What a turn does to the setting while the kill switch is on. -/
inductive Spec (o : Answers) (s : Inner Tunnel) (e : Event Tunnel) (r : Inner Tunnel × List Effect) :
    Prop
  | disconnect (ev : List Effect) (hev : r.2 = .disconnect :: ev)
      (hdone : ∀ addr, .proxySet addr .done ∉ ev)
  | keeps (h : s.Keeps r.2 r.1)
  | sets (addr : SocketAddr) (hport : addr.port ≠ 0)
      (hev : r.2 = [.proxySet addr .done, .publish .connected]) (hos : r.1.os = some addr)
      (hsocks : r.1.socksAddr = addr)
  | refused (h : Refused s e o) (addr : SocketAddr) (applied : Bool)
      (hev : r.2 = [.proxySet addr (.failed applied), .proxyClear o.clear, .publish .error])

theorem keeps_take {kind : Task → Bool} {id : TaskId} {t : Task} {s₁ : Inner Tunnel}
    (h : s.take kind id = some (t, s₁)) : s.Keeps [] s₁ :=
  ⟨by simp, (Inner.take_frame h).2.2.1, fun _ => Inner.take_socksAddr h⟩

/-- A task of the current generation: its report is handled. -/
theorem spec_receive {kind : Task → Bool} {id : TaskId}
    {handler : Inner Tunnel → Inner Tunnel × List Effect} (h : receive s kind id handler = some r)
    (hhandler : ∀ s₁ : Inner Tunnel, s₁.machine = s.machine → s₁.Keeps (handler s₁).2 (handler s₁).1) :
    Spec o s e r := by
  obtain ⟨t, s₁, htake, hr⟩ := receive_eq_some h
  rcases hr with ⟨-, rfl⟩ | ⟨-, rfl⟩
  · exact .keeps ((keeps_take htake).trans (hhandler s₁ (Inner.take_frame htake).1))
  · exact .keeps (keeps_take htake)

/-- The dial under way succeeds while the machine does not believe that the proxy is set. -/
theorem spec_dialed {id : TaskId} {tunnel : Tunnel} {t : Task} {s₁ : Inner Tunnel}
    (hc : s.Consistent) (htake : s.take Task.isDial id = some (t, s₁))
    (hg : t.generation = s.generation) (hps : s.machine.proxySet = false) :
    Spec o s (.dialed id (some tunnel)) ({ s₁ with dial := none }.onDialResult o (some tunnel)) := by
  obtain ⟨hmem, hid, hdial, -⟩ := Inner.of_take htake
  obtain ⟨hm, -, hos₁, -⟩ := Inner.take_frame htake
  have hd := dialedBy_of_current hc hmem hdial hg
  obtain ⟨-, hst⟩ := hc.of_dialing ⟨t, hd⟩
  obtain ⟨hev, hos, hsocks, -⟩ :=
    Inner.onDialResult_some (o := o) (s := { s₁ with dial := none }) tunnel
  obtain ⟨hbindless, hbound⟩ := Inner.feed_dialSucceeded (o := o)
    (s := { s₁ with dial := none, current := some tunnel })
    (by rw [hm]; exact hst.imp_right And.left) rfl (by rw [hm]; exact hps)
  cases hb : o.bind with
  | none =>
    have hk := hbindless hb
    refine .keeps ⟨?_, ?_, ?_⟩
    · rw [hev]
      exact hk.publishes
    · rw [hos, hk.os, hos₁]
    · intro hport
      rw [← Inner.take_socksAddr htake] at hport ⊢
      rw [hsocks, hk.socksAddr hport]
  | some port =>
    obtain ⟨hdone, hfailed⟩ := hbound port hb
    cases hset : o.set with
    | done =>
      obtain ⟨hev', hos', hsocks'⟩ := hdone hset
      exact .sets _ (SocketAddr.bound_port _ port) (hev.trans hev') (hos.trans hos')
        (hsocks.trans hsocks')
    | failed applied =>
      have href : Refused s (.dialed id (some tunnel)) o :=
        ⟨id, tunnel, t, port, applied, rfl, hmem, hid, hdial, hg, hps, hb, hset⟩
      exact .refused href _ _ (hev.trans (hfailed applied hset))

theorem spec_turn (hc : s.Consistent) (hkill : s.machine.killSwitch = true)
    (h : turn o s e = some r) : Spec o s e r := by
  cases e with simp only [turn] at h
  | command cmd =>
    cases h
    cases cmd with
    | connect uri =>
      unfold Inner.onCommand
      dsimp only
      split
      · have hk := Inner.keeps_feed (o := o) (s := { s with currentUri := uri }) (i := .connect)
          hkill (by simp) (.inl (by simp))
        exact .keeps ⟨hk.publishes, hk.os, hk.socksAddr⟩
      · exact .keeps (Inner.keeps_refl s)
    | disconnect => exact .disconnect _ rfl Inner.feed_disconnect_not_done
    | connectivity online => exact .keeps (Inner.keeps_feed hkill (by simp) (.inl (by simp)))
  | dialed id res =>
    cases res with
    | none =>
      refine spec_receive h fun s₁ hm => ?_
      have hk := Inner.keeps_feed (o := o) (s := { s₁ with dial := none }) (i := .dialFailed)
        (by rw [hm]; exact hkill) (by simp) (.inl (by simp))
      exact ⟨hk.publishes, hk.os, hk.socksAddr⟩
    | some tunnel =>
      cases hps : s.machine.proxySet with
      | true =>
        refine spec_receive h fun s₁ hm => ?_
        have hk := Inner.keeps_feed (o := o) (s := { s₁ with dial := none, current := some tunnel })
          (i := .dialSucceeded) (by rw [hm]; exact hkill) (by simp) (.inr (by rw [hm]; exact hps))
        obtain ⟨hev, hos, hsocks, -⟩ :=
          Inner.onDialResult_some (o := o) (s := { s₁ with dial := none }) tunnel
        refine ⟨?_, hos.trans hk.os, fun hport => hsocks.trans (hk.socksAddr hport)⟩
        rw [hev]
        exact hk.publishes
      | false =>
        obtain ⟨t, s₁, htake, ⟨hg, rfl⟩ | ⟨-, rfl⟩⟩ := receive_eq_some h
        · exact spec_dialed hc htake hg hps
        · exact .keeps (keeps_take htake)
  | elapsed id =>
    exact spec_receive h fun s₁ hm =>
      Inner.keeps_feed (by rw [hm]; exact hkill) (by simp) (.inl (by simp))
  | dropped id =>
    exact spec_receive h fun s₁ hm =>
      Inner.keeps_feed (by rw [hm]; exact hkill) (by simp) (.inl (by simp))
  | vanished id =>
    obtain ⟨⟨t, s₁⟩, htake, rfl⟩ := Option.map_eq_some_iff.mp h
    exact .keeps (keeps_take htake)
  | closed =>
    cases h
    exact .disconnect _ rfl Inner.feed_disconnect_not_done

/-- The setting is cleared at that step. -/
theorem of_refused (hc : s.Consistent) (href : Refused s e o) (h : turn o s e = some r) :
    ∃ addr applied, r.2 = [.proxySet addr (.failed applied), .proxyClear o.clear, .publish .error] := by
  obtain ⟨id, tunnel, t, port, applied, rfl, hmem, hid, -, hg, hps, hb, hset⟩ := href
  simp only [turn] at h
  obtain ⟨u, s₁, htake, hr⟩ := receive_eq_some h
  obtain ⟨humem, huid, hdial, -⟩ := Inner.of_take htake
  obtain rfl : u = t := List.inj_on_of_nodup_map hc.pool.nodup humem hmem (huid.trans hid.symm)
  rcases hr with ⟨-, rfl⟩ | ⟨hne, -⟩
  · obtain ⟨-, hst⟩ := hc.of_dialing ⟨u, dialedBy_of_current hc hmem hdial hg⟩
    obtain ⟨hm, -, -, -⟩ := Inner.take_frame htake
    obtain ⟨hev, -⟩ := Inner.onDialResult_some (o := o) (s := { s₁ with dial := none }) tunnel
    obtain ⟨-, hbound⟩ := Inner.feed_dialSucceeded (o := o)
      (s := { s₁ with dial := none, current := some tunnel })
      (by rw [hm]; exact hst.imp_right And.left) rfl (by rw [hm]; exact hps)
    exact ⟨_, applied, hev.trans ((hbound port hb).2 applied hset)⟩
  · exact absurd hg hne

end

end Runtime

/-! ## Runs -/

/-- No call clears the setting while a successful set has to be honoured, as it has at the start if
`b`. -/
def Honoured (b : Bool) (evs : List Effect) : Prop :=
  ∀ before ok after, evs = before ++ .proxyClear ok :: after → before.foldl pin b = false

theorem honoured_append {b : Bool} {xs ys : List Effect} :
    Honoured b (xs ++ ys) ↔ Honoured b xs ∧ Honoured (xs.foldl pin b) ys := by
  constructor
  · intro h
    refine ⟨fun before ok after he => ?_, fun before ok after he => ?_⟩
    · exact h before ok (after ++ ys) (by rw [he]; simp)
    · rw [← List.foldl_append]
      exact h (xs ++ before) ok after (by rw [he]; simp)
  · rintro ⟨hx, hy⟩ before ok after he
    rcases List.append_eq_append_iff.mp he with ⟨as, rfl, has⟩ | ⟨bs, rfl, hbs⟩
    · rw [List.foldl_append]
      exact hy as ok after has
    · cases bs with
      | nil =>
        have := hy [] ok after hbs.symm
        simpa using this
      | cons c bs =>
        cases hbs
        exact hx before ok bs rfl

theorem honoured_of_no_clear {b : Bool} {ev : List Effect} (h : ∀ ok, .proxyClear ok ∉ ev) :
    Honoured b ev := by
  rintro before ok after rfl
  exact absurd (List.mem_append_right _ List.mem_cons_self) (h ok)

theorem foldl_pin_false {ev : List Effect} (h : ∀ addr, .proxySet addr .done ∉ ev) :
    ev.foldl pin false = false := by
  induction ev with
  | nil => rfl
  | cons e ev ih =>
    have hstay : pin false e = false := by
      cases e with
      | proxySet addr outcome =>
        cases outcome with
        | done => exact absurd List.mem_cons_self (h addr)
        | failed applied => rfl
      | _ => rfl
    rw [List.foldl_cons, hstay]
    exact ih fun addr ha => h addr (List.mem_cons_of_mem e ha)

theorem honoured_disconnect {b : Bool} {ev : List Effect} (h : ∀ addr, .proxySet addr .done ∉ ev) :
    Honoured b (.disconnect :: ev) := by
  intro before ok after he
  cases before with
  | nil => cases he
  | cons e before =>
    cases he
    exact foldl_pin_false fun addr ha => h addr (List.mem_append_left _ ha)

namespace Runtime

section

variable {Tunnel : Type} {cfg : SupervisorConfig}
  {log : List (Taken (Runtime Tunnel) (Event Tunnel × Answers) Effect)} {rt : Runtime Tunnel}

theorem killSwitch_run (h : Exec step (spawnSupervisor cfg) log rt) :
    rt.inner.machine.killSwitch = cfg.killSwitch := by
  refine h.state_inv (P := fun rt => rt.inner.machine.killSwitch = cfg.killSwitch) rfl ?_
  intro rt a rt' ev ih hs
  obtain ⟨r, hr, he⟩ := turn_of_step hs
  cases he
  exact (turn_killSwitch hr).trans ih

/-- No step of the run loses a setting that has to be honoured. -/
def NeverRefused (log : List (Taken (Runtime Tunnel) (Event Tunnel × Answers) Effect)) : Prop :=
  ∀ before t after, log = before ++ t :: after → pinned (shown before) = true →
    ¬Refused t.pre.inner t.act.1 t.act.2

theorem neverRefused_snoc {t : Taken (Runtime Tunnel) (Event Tunnel × Answers) Effect} :
    NeverRefused (log ++ [t]) ↔ NeverRefused log ∧
      (pinned (shown log) = true → ¬Refused t.pre.inner t.act.1 t.act.2) := by
  constructor
  · intro h
    refine ⟨fun before u after he => ?_, ?_⟩
    · exact h before u (after ++ [t]) (by rw [he]; simp)
    · exact h log t [] rfl
  · rintro ⟨hlog, ht⟩ before u after he
    rcases snoc_eq_append_cons he with ⟨-, rfl, rfl⟩ | ⟨after', -, he'⟩
    · exact ht
    · exact hlog before u after' he'

/-- While a set has to be honoured the setting points at the local port, and the port is known. -/
def Pointed (b : Bool) (s : Inner Tunnel) : Prop :=
  b = true → s.os = some s.socksAddr ∧ s.socksAddr.port ≠ 0

theorem Pointed.keeps {b : Bool} {s s' : Inner Tunnel} {ev : List Effect} (h : Pointed b s)
    (hk : s.Keeps ev s') : Pointed (ev.foldl pin b) s' := by
  intro hb
  rw [foldl_pin_publish hk.publishes] at hb
  obtain ⟨hos, hport⟩ := h hb
  rw [hk.os, hk.socksAddr hport]
  exact ⟨hos, hport⟩

/-- One turn, unless it is the one that loses the setting. -/
theorem honoured_turn {o : Answers} {s : Inner Tunnel} {e : Event Tunnel}
    {r : Inner Tunnel × List Effect} {b : Bool} (hspec : Spec o s e r) (hp : Pointed b s)
    (hok : b = true → ¬Refused s e o) : Honoured b r.2 ∧ Pointed (r.2.foldl pin b) r.1 := by
  cases hspec with
  | disconnect ev hev hdone =>
    rw [hev]
    refine ⟨honoured_disconnect hdone, ?_⟩
    intro hb
    rw [List.foldl_cons] at hb
    cases hb.symm.trans (foldl_pin_false hdone)
  | keeps h =>
    refine ⟨honoured_of_no_clear fun ok hmem => ?_, hp.keeps h⟩
    cases h.publishes _ hmem
  | sets addr hport hev hos hsocks =>
    rw [hev]
    refine ⟨honoured_of_no_clear (by simp), ?_⟩
    intro _
    rw [hos, hsocks]
    exact ⟨rfl, hport⟩
  | refused h addr applied hev =>
    have hb : b = false := Bool.eq_false_iff.mpr fun hb => hok hb h
    subst hb
    rw [hev]
    refine ⟨?_, fun hb => nomatch hb⟩
    intro before ok after he
    match before, he with
    | [], he => cases he
    | [_], he =>
      cases he
      rfl
    | [_, _], he => simp at he
    | _ :: _ :: _ :: before, he => simp at he

theorem honoured_run (hk : cfg.killSwitch = true) (h : Exec step (spawnSupervisor cfg) log rt)
    (hok : NeverRefused log) : Honoured false (shown log) ∧ Pointed (pinned (shown log)) rt.inner := by
  refine h.inv (P := fun log rt => NeverRefused log →
    Honoured false (shown log) ∧ Pointed (pinned (shown log)) rt.inner) ?_ ?_ hok
  · intro _
    exact ⟨fun before ok after he => by simp at he, fun hb => nomatch hb⟩
  · intro log rt a rt' ev hrun ih hs hok
    obtain ⟨hok', hlast⟩ := neverRefused_snoc.mp hok
    obtain ⟨hhon, hp⟩ := ih hok'
    obtain ⟨r, hr, he⟩ := turn_of_step hs
    cases he
    have hspec := spec_turn (consistent_run hrun) ((killSwitch_run hrun).trans hk) hr
    obtain ⟨hhon', hp'⟩ := honoured_turn hspec hp hlast
    rw [shown_snoc]
    refine ⟨honoured_append.mpr ⟨hhon, hhon'⟩, ?_⟩
    unfold pinned
    rw [List.foldl_append]
    exact hp'

theorem neverRefused_of_honoured (h : Exec step (spawnSupervisor cfg) log rt)
    (hhon : Honoured false (shown log)) : NeverRefused log := by
  refine h.inv (P := fun log _ => Honoured false (shown log) → NeverRefused log) ?_ ?_ hhon
  · intro _ before t after he
    simp at he
  · intro log rt a rt' ev hrun ih hs hhon
    rw [shown_snoc] at hhon
    obtain ⟨hlog, hev⟩ := honoured_append.mp hhon
    refine neverRefused_snoc.mpr ⟨ih hlog, fun hpin href => ?_⟩
    obtain ⟨r, hr, he⟩ := turn_of_step hs
    cases he
    obtain ⟨addr, applied, hr2⟩ := of_refused (consistent_run hrun) href hr
    -- the set that failed leaves the earlier one to be honoured
    have hlost := hev [.proxySet addr (.failed applied)] a.2.clear [.publish .error] hr2
    cases hpin.symm.trans hlost

/-- **The kill switch holds in exactly the runs in which it is never forgotten.** Once `proxy.set` has
succeeded the shell does not call `proxy.clear` again before a disconnect, and the system's setting
points at the local port all the while; unless in some step a dial succeeds and the listener is bound
while the machine has forgotten the setting, and the system then refuses to set it once more. -/
theorem killSwitch_honoured_iff (hk : cfg.killSwitch = true)
    (h : Exec step (spawnSupervisor cfg) log rt) :
    ((∀ before ok after, shown log = before ++ .proxyClear ok :: after → pinned before = false) ∧
      (pinned (shown log) = true → rt.inner.os = some rt.inner.socksAddr)) ↔
    ∀ before t after, log = before ++ t :: after → pinned (shown before) = true →
      ¬Refused t.pre.inner t.act.1 t.act.2 := by
  constructor
  · rintro ⟨hhon, -⟩
    exact neverRefused_of_honoured h hhon
  · intro hok
    obtain ⟨hhon, hp⟩ := honoured_run hk h hok
    exact ⟨hhon, fun hpin => (hp hpin).1⟩

end

/-- A tunnel that went down leaves the setting where it was, and nothing has been forgotten. -/
theorem killSwitch_honoured_after_drop :
    ∃ log rt, Exec step (spawnSupervisor default : Runtime Unit) log rt ∧
      rt.inner.machine.state = .reconnecting ∧ pinned (shown log) = true ∧
      ∀ before t after, log = before ++ t :: after → pinned (shown before) = true →
        ¬Refused t.pre.inner t.act.1 t.act.2 := by
  obtain ⟨log, rt, h, hst, hpin, hshown, hos⟩ := exec_reaches step
    (spawnSupervisor default : Runtime Unit) firstDrop
    (fun log rt => rt.inner.machine.state = .reconnecting ∧ pinned (shown log) = true ∧
      (∀ e ∈ shown log, e ≠ .proxyClear true ∧ e ≠ .proxyClear false) ∧
      rt.inner.os = some rt.inner.socksAddr) (by decide)
  refine ⟨log, rt, h, hst, hpin, (killSwitch_honoured_iff rfl h).mp ⟨?_, fun _ => hos⟩⟩
  intro before ok after he
  obtain ⟨h1, h2⟩ := hshown (.proxyClear ok) (by rw [he]; simp)
  cases ok with
  | true => exact absurd rfl h1
  | false => exact absurd rfl h2

/-- After a drop the reconnect cannot bind its port, which is a service failure; on the next attempt the
system refuses to set the proxy. -/
def forgotten : List (Event Unit × Answers) :=
  firstDrop ++
    [(.elapsed 3, granted), (.dialed 4 (some ()), { granted with bind := none }),
      (.command (.connect "leshiy://x"), granted),
      (.dialed 5 (some ()), { granted with set := .failed false })]

/-- The kill switch is on, the user has not disconnected, and the shell clears the proxy. -/
theorem killSwitch_not_honoured :
    ¬∀ (cfg : SupervisorConfig) log (rt : Runtime Unit), cfg.killSwitch = true →
      Exec step (spawnSupervisor cfg) log rt →
      (∀ before ok after, shown log = before ++ .proxyClear ok :: after → pinned before = false) ∧
        (pinned (shown log) = true → rt.inner.os = some rt.inner.socksAddr) := by
  intro hclaim
  obtain ⟨log, rt, h, hshown⟩ := exec_reaches step (spawnSupervisor default : Runtime Unit) forgotten
    (fun log _ => shown log =
      [.publish .connecting, .proxySet ⟨[127, 0, 0, 1], 1080⟩ .done, .publish .connected,
        .publish .reconnecting, .publish .error, .publish .connecting,
        .proxySet ⟨[127, 0, 0, 1], 1080⟩ (.failed false)] ++
      .proxyClear true :: [.publish .error]) (by decide)
  cases (hclaim default log rt rfl h).1 _ _ _ hshown

end Runtime

end Leshiy.Client
