import Leshiy.Tun.Windows

/-!
# The Windows session's guard

What undoes the changes of `WindowsOps::start` (`leshiy-tun/src/sys/windows.rs`): the controller in a session that ends,
and the `Drop` of `WindowsTeardown`. They know the bypass routes. They do not know the route of the server's exception,
and the guard undoes the policy whether or not `start` has set it.
-/

namespace Leshiy.Tun

open Leshiy.Lib Leshiy.Client

/-- The adapter is dropped, and its routes go with it. -/
def WinHost.dropDevice (h : WinHost) (sys : Windows) : WinHost :=
  { h with routes := h.routes.filter fun k => k.ifindex ≠ sys.adapter }

namespace WinStart

variable (a : WinStart) (sys : Windows)

/-- The host when a session has been taken down. What the teardown asks for is not refused. -/
def ended (reached : Cidr → Bool) (s : WinSys) (g : WindowsTeardown) (h : WinHost) : WinHost :=
  let s := (a.controller sys fun _ => false).teardownBypass reached s
  (({ g with installedBypass := s.installedBypass } : WindowsTeardown).drop sys { h with routes := s.routes }).dropDevice sys

/-- The host when `start` has failed or has been dropped, or when its session has ended after a resolver whose calls may
have been refused. -/
def after (refused : Nat → Bool) (cs : List (SplitMode × Finset Cidr)) (reached : Cidr → Bool) (h : WinHost) :
    WinHost :=
  match a.start sys h with
  | .failed h => h.dropDevice sys
  | .up h g =>
    let r := Resolvers.cycles (a.controller sys refused).routeController { sys := ⟨h.routes, g.installedBypass, 0⟩ } cs
    a.ended sys reached r.sys g h

end WinStart

/-! ## What the resolver leaves -/

namespace WindowsController

variable {ctrl : WindowsController} {base : Finset WinRoute} {recorded : List Cidr} {named : Cidr → Prop}

/-- The route that a call is about, if it makes a request at all. -/
def target (ctrl : WindowsController) : SplitMode → Cidr → Option NetRoute
  | .exclude, c => (ctrl.bypassGateway c).map fun gw => gatewayRoute c gw ctrl.origIdx
  | .include, c => if ctrl.skipsViaTun c then none else some (ctrl.viaTunRoute c)

def key (ctrl : WindowsController) (m : SplitMode) (c : Cidr) : Option WinRoute := (ctrl.target m c).bind ctrl.sys.row

/-- A bypass' route has its destination. -/
theorem dest_of_key {c : Cidr} {k : WinRoute} (h : ctrl.key .exclude c = some k) : k.dest = c := by
  simp only [key, target, Option.bind_eq_some_iff, Option.map_eq_some_iff, Windows.row] at h
  obtain ⟨r, ⟨gw, -, rfl⟩, i, -, rfl⟩ := h
  rfl

/-- What a call does with the bypass routes that are recorded. -/
def record (m : SplitMode) (op : Op) (c : Cidr) (l : List Cidr) : List Cidr :=
  match m, op with
  | .exclude, .add => l ++ [c]
  | .exclude, .remove => l.filter (· != c)
  | .include, _ => l

theorem request_add (ctrl : WindowsController) (r : NetRoute) (s : WinSys) :
    (∃ e, ctrl.request (ctrl.sys.add r) s = (.error e, { s with requests := s.requests + 1 })) ∨
    ∃ k, ctrl.sys.row r = some k ∧ k ∉ s.routes ∧
      ctrl.request (ctrl.sys.add r) s = (.ok (), { s with routes := insert k s.routes, requests := s.requests + 1 }) := by
  unfold request Windows.add
  cases ctrl.refused s.requests with
  | true => exact .inl ⟨_, rfl⟩
  | false =>
    cases hrow : ctrl.sys.row r with
    | none => exact .inl ⟨_, rfl⟩
    | some k =>
      by_cases hk : k ∈ s.routes
      · exact .inl ⟨_, by simp only [if_pos hk]; rfl⟩
      · exact .inr ⟨k, rfl, hk, by simp only [if_neg hk]; rfl⟩

theorem request_delete (ctrl : WindowsController) (r : NetRoute) (s : WinSys) :
    (∃ e, ctrl.request (ctrl.sys.delete r) s = (.error e, { s with requests := s.requests + 1 }) ∧
      (ctrl.refused s.requests = false → ∀ k, ctrl.sys.row r = some k → k ∉ s.routes)) ∨
    ∃ k, ctrl.sys.row r = some k ∧
      ctrl.request (ctrl.sys.delete r) s = (.ok (), { s with routes := s.routes.erase k, requests := s.requests + 1 }) := by
  unfold request Windows.delete
  cases ctrl.refused s.requests with
  | true => exact .inl ⟨_, rfl, by simp⟩
  | false =>
    cases hrow : ctrl.sys.row r with
    | none => exact .inl ⟨_, rfl, by simp⟩
    | some k =>
      by_cases hk : k ∈ s.routes
      · exact .inr ⟨k, rfl, by simp only [if_pos hk]; rfl⟩
      · exact .inl ⟨_, by simp only [if_neg hk]; rfl, by simpa using hk⟩

/-- One addition: no request, a request that fails, or a new route. -/
theorem call_add_cases (ctrl : WindowsController) (m : SplitMode) (c : Cidr) (s : WinSys) :
    (ctrl.target m c = none ∧ ctrl.routeController.call m .add c s = (.ok (), s)) ∨
    ((ctrl.target m c).isSome = true ∧
      (ctrl.routeController.call m .add c s).2.installedBypass = record m .add c s.installedBypass ∧
      (((ctrl.routeController.call m .add c s).1.isOk = false ∧
          (ctrl.routeController.call m .add c s).2.routes = s.routes) ∨
        ∃ k, ctrl.key m c = some k ∧ k ∉ s.routes ∧ (ctrl.routeController.call m .add c s).1.isOk = true ∧
          (ctrl.routeController.call m .add c s).2.routes = insert k s.routes)) := by
  cases m with
  | exclude =>
    simp only [RouteController.call, routeController, addBypass, target, key]
    cases hgw : ctrl.bypassGateway c with
    | none => exact .inl ⟨rfl, rfl⟩
    | some gw =>
      refine .inr ⟨rfl, ?_⟩
      dsimp only
      rcases request_add ctrl (gatewayRoute c gw ctrl.origIdx)
        { s with installedBypass := s.installedBypass ++ [c] } with ⟨e, hreq⟩ | ⟨k, hrow, hk, hreq⟩
      · rw [hreq]
        exact ⟨rfl, .inl ⟨rfl, rfl⟩⟩
      · rw [hreq]
        exact ⟨rfl, .inr ⟨k, hrow, hk, rfl, rfl⟩⟩
  | «include» =>
    simp only [RouteController.call, routeController, addViaTun, target, key]
    by_cases hskip : ctrl.skipsViaTun c = true
    · simp only [if_pos hskip]
      exact .inl ⟨trivial, trivial⟩
    · simp only [if_neg hskip]
      refine .inr ⟨rfl, ?_⟩
      rcases request_add ctrl (ctrl.viaTunRoute c) s with ⟨e, hreq⟩ | ⟨k, hrow, hk, hreq⟩
      · rw [hreq]
        exact ⟨rfl, .inl ⟨rfl, rfl⟩⟩
      · rw [hreq]
        exact ⟨rfl, .inr ⟨k, hrow, hk, rfl, rfl⟩⟩

/-- One removal: no request, a request that fails, or a route less. -/
theorem call_remove_cases (ctrl : WindowsController) (m : SplitMode) (c : Cidr) (s : WinSys) :
    (ctrl.target m c = none ∧ ctrl.routeController.call m .remove c s = (.ok (), s)) ∨
    ((ctrl.routeController.call m .remove c s).1.isOk = false ∧
      (ctrl.routeController.call m .remove c s).2.routes = s.routes ∧
      (ctrl.routeController.call m .remove c s).2.installedBypass = s.installedBypass ∧
      ((∀ n, ctrl.refused n = false) → ∀ k, ctrl.key m c = some k → k ∉ s.routes)) ∨
    ∃ k, ctrl.key m c = some k ∧ (ctrl.routeController.call m .remove c s).1.isOk = true ∧
      (ctrl.routeController.call m .remove c s).2.routes = s.routes.erase k ∧
      (ctrl.routeController.call m .remove c s).2.installedBypass = record m .remove c s.installedBypass := by
  cases m with
  | exclude =>
    simp only [RouteController.call, routeController, removeBypass, target, key]
    cases hgw : ctrl.bypassGateway c with
    | none => exact .inl ⟨rfl, rfl⟩
    | some gw =>
      refine .inr ?_
      dsimp only
      rcases request_delete ctrl (gatewayRoute c gw ctrl.origIdx) s with ⟨e, hreq, habs⟩ | ⟨k, hrow, hreq⟩
      · rw [hreq]
        exact .inl ⟨rfl, rfl, rfl, fun href => habs (href _)⟩
      · rw [hreq]
        exact .inr ⟨k, hrow, rfl, rfl, rfl⟩
  | «include» =>
    simp only [RouteController.call, routeController, removeViaTun, target, key]
    by_cases hskip : ctrl.skipsViaTun c = true
    · simp only [if_pos hskip]
      exact .inl ⟨trivial, trivial⟩
    · simp only [if_neg hskip]
      refine .inr ?_
      rcases request_delete ctrl (ctrl.viaTunRoute c) s with ⟨e, hreq, habs⟩ | ⟨k, hrow, hreq⟩
      · rw [hreq]
        exact .inl ⟨rfl, rfl, rfl, fun href => habs (href _)⟩
      · rw [hreq]
        exact .inr ⟨k, hrow, rfl, rfl, rfl⟩

/-- What was there when the session came up stays; other routes are the adapter's or those of bypasses that are in, which
are recorded. -/
structure Holds (ctrl : WindowsController) (base : Finset WinRoute) (recorded : List Cidr) (named : Cidr → Prop)
    (s : WinSys × List RouteCall) : Prop where
  subset : base ⊆ s.1.routes
  others : ∀ k ∈ s.1.routes, k ∈ base ∨ k.ifindex = ctrl.sys.adapter ∨
    ∃ c, Installed .exclude s.2 c ∧ ctrl.key .exclude c = some k
  installed : ∀ c k, Installed .exclude s.2 c → ctrl.key .exclude c = some k →
    k ∉ base ∧ c ∈ s.1.installedBypass ∧ (k.ifindex ≠ ctrl.sys.adapter → k ∈ s.1.routes)
  allNamed : ∀ c ∈ s.1.installedBypass, named c
  keeps : ∀ c ∈ recorded, ∀ k ∈ base, ctrl.key .exclude c = some k → c ∈ s.1.installedBypass

/-- A route that a successful addition can be about. -/
def Fresh (ctrl : WindowsController) (base : Finset WinRoute) (m : SplitMode) (c : Cidr) : Prop :=
  ∀ k, ctrl.key m c = some k → k ∉ base

theorem key_eq_none {m : SplitMode} {c : Cidr} (h : ctrl.target m c = none) : ctrl.key m c = none := by
  simp [key, h]

theorem mem_record {m : SplitMode} {c c' : Cidr} {l : List Cidr} (h : c' ∈ l) : c' ∈ record m .add c l := by
  cases m with
  | exclude => exact List.mem_append.mpr (.inl h)
  | «include» => exact h

theorem installed_snoc_false {log : List RouteCall} {m : SplitMode} {op : Op} {c c' : Cidr} :
    Installed .exclude (log ++ [⟨m, op, c, false⟩]) c' ↔ Installed .exclude log c' := by
  rw [Installed.snoc_iff]
  simp

/-- A call without a request is about no route. -/
theorem Holds.asksNothing {s : WinSys} {log : List RouteCall} {m : SplitMode} {op : Op} {c : Cidr}
    (h : ctrl.Holds base recorded named (s, log)) (htarget : ctrl.target m c = none) :
    ctrl.Holds base recorded named (s, log ++ [⟨m, op, c, true⟩]) := by
  have hother : ∀ c' k op', ctrl.key .exclude c' = some k → (⟨m, op, c, true⟩ : RouteCall) ≠ ⟨.exclude, op', c', true⟩ := by
    intro c' k op' hk heq
    simp only [RouteCall.mk.injEq] at heq
    obtain ⟨rfl, -, rfl, -⟩ := heq
    rw [key_eq_none htarget] at hk
    cases hk
  have hinst : ∀ c' k, ctrl.key .exclude c' = some k →
      (Installed .exclude (log ++ [⟨m, op, c, true⟩]) c' ↔ Installed .exclude log c') := by
    intro c' k hk
    rw [Installed.snoc_iff, or_iff_right (hother c' k .add hk), and_iff_left (hother c' k .remove hk)]
  refine ⟨h.subset, fun k hk => ?_, fun c' k hi hk => h.installed c' k ((hinst c' k hk).mp hi) hk, h.allNamed, h.keeps⟩
  exact (h.others k hk).imp_right fun hk => hk.imp_right fun ⟨c', hi, hkey⟩ => ⟨c', (hinst c' k hkey).mpr hi, hkey⟩

/-- A request that fails changes no route. -/
theorem Holds.failed {s s' : WinSys} {log : List RouteCall} {m : SplitMode} {op : Op} {c : Cidr}
    (h : ctrl.Holds base recorded named (s, log)) (hroutes : s'.routes = s.routes)
    (hmem : ∀ c' ∈ s.installedBypass, c' ∈ s'.installedBypass) (hnamed : ∀ c' ∈ s'.installedBypass, named c') :
    ctrl.Holds base recorded named (s', log ++ [⟨m, op, c, false⟩]) := by
  refine ⟨hroutes ▸ h.subset, ?_, ?_, hnamed, fun c' hc' k hk hkey => hmem c' (h.keeps c' hc' k hk hkey)⟩
  · simp only [hroutes, installed_snoc_false]
    exact h.others
  · simp only [hroutes, installed_snoc_false]
    exact fun c' k hi hk => (h.installed c' k hi hk).imp_right (And.imp_left (hmem c'))

/-- A new route. -/
theorem Holds.added {s s' : WinSys} {log : List RouteCall} {m : SplitMode} {c : Cidr} {k : WinRoute}
    (hvia : ∀ c k, ctrl.key .include c = some k → k.ifindex = ctrl.sys.adapter)
    (h : ctrl.Holds base recorded named (s, log)) (hkey : ctrl.key m c = some k) (hfresh : k ∉ base)
    (hroutes : s'.routes = insert k s.routes) (hrec : s'.installedBypass = record m .add c s.installedBypass)
    (hnamed : ∀ c' ∈ s'.installedBypass, named c') :
    ctrl.Holds base recorded named (s', log ++ [⟨m, .add, c, true⟩]) := by
  have hmem : ∀ c' ∈ s.installedBypass, c' ∈ s'.installedBypass := fun c' hc' => hrec ▸ mem_record hc'
  refine ⟨?_, ?_, ?_, hnamed, fun c' hc' k hk hkey => hmem c' (h.keeps c' hc' k hk hkey)⟩
  · rw [hroutes]
    exact h.subset.trans (Finset.subset_insert _ _)
  · rw [hroutes]
    intro k' hk
    simp only [Installed.snoc_iff]
    rcases Finset.mem_insert.mp hk with rfl | hk
    · cases m with
      | exclude => exact .inr (.inr ⟨c, .inl rfl, hkey⟩)
      | «include» => exact .inr (.inl (hvia c k' hkey))
    · exact (h.others k' hk).imp_right fun hk => hk.imp_right fun ⟨c', hi, hkey'⟩ =>
        ⟨c', .inr ⟨hi, by simp⟩, hkey'⟩
  · intro c' k' hi hk
    rw [hroutes]
    rcases Installed.snoc_iff.mp hi with heq | ⟨hi, -⟩
    · simp only [RouteCall.mk.injEq] at heq
      obtain ⟨rfl, -, rfl, -⟩ := heq
      rw [hkey, Option.some.injEq] at hk
      subst hk
      refine ⟨hfresh, ?_, fun _ => Finset.mem_insert_self _ _⟩
      rw [hrec]
      exact List.mem_append.mpr (.inr (List.mem_singleton_self _))
    · obtain ⟨hbase, hin, hthere⟩ := h.installed c' k' hi hk
      exact ⟨hbase, hmem c' hin, fun hne => Finset.mem_insert_of_mem (hthere hne)⟩

/-- A route that could be added is not one of those there before. -/
theorem Holds.removed {s s' : WinSys} {log : List RouteCall} {m : SplitMode} {c : Cidr} {k : WinRoute}
    (hvia : ∀ c k, ctrl.key .include c = some k → k.ifindex = ctrl.sys.adapter)
    (h : ctrl.Holds base recorded named (s, log)) (hkey : ctrl.key m c = some k) (hfresh : ctrl.Fresh base m c)
    (hroutes : s'.routes = s.routes.erase k) (hrec : s'.installedBypass = record m .remove c s.installedBypass) :
    ctrl.Holds base recorded named (s', log ++ [⟨m, .remove, c, true⟩]) := by
  have hne : ∀ k' ∈ base, k' ≠ k := fun k' hk heq => hfresh k hkey (heq ▸ hk)
  have hkeep : ∀ c' ∈ s.installedBypass, (m = .exclude → c' ≠ c) → c' ∈ s'.installedBypass := by
    intro c' hc' hother
    rw [hrec]
    cases m with
    | «include» => exact hc'
    | exclude => exact List.mem_filter.mpr ⟨hc', by simpa using hother rfl⟩
  have hback : ∀ c' ∈ s'.installedBypass, c' ∈ s.installedBypass := by
    rw [hrec]
    cases m with
    | «include» => exact fun _ hc' => hc'
    | exclude => exact fun _ hc' => (List.mem_filter.mp hc').1
  refine ⟨?_, ?_, ?_, fun c' hc' => h.allNamed c' (hback c' hc'), ?_⟩
  · rw [hroutes]
    exact fun k' hk => Finset.mem_erase.mpr ⟨hne k' hk, h.subset hk⟩
  · rw [hroutes]
    intro k' hk
    obtain ⟨hk', hk⟩ := Finset.mem_erase.mp hk
    refine (h.others k' hk).imp_right fun hk => hk.imp_right fun ⟨c', hi, hkey'⟩ => ⟨c', ?_, hkey'⟩
    refine Installed.snoc_iff.mpr (.inr ⟨hi, fun heq => hk' ?_⟩)
    simp only [RouteCall.mk.injEq] at heq
    obtain ⟨rfl, -, rfl, -⟩ := heq
    rw [hkey, Option.some.injEq] at hkey'
    exact hkey'.symm
  · intro c' k' hi hk
    rcases Installed.snoc_iff.mp hi with heq | ⟨hi, hother⟩
    · simp at heq
    · obtain ⟨hbase, hin, hthere⟩ := h.installed c' k' hi hk
      have hc : m = .exclude → c' ≠ c := by
        rintro rfl rfl
        exact hother rfl
      refine ⟨hbase, hkeep c' hin hc, fun hdev => ?_⟩
      rw [hroutes]
      refine Finset.mem_erase.mpr ⟨?_, hthere hdev⟩
      rintro rfl
      cases m with
      | «include» => exact hdev (hvia c k' hkey)
      | exclude => exact hc rfl ((dest_of_key hk).symm.trans (dest_of_key hkey))
  · intro c' hc' k' hk hkey'
    refine hkeep c' (h.keeps c' hc' k' hk hkey') ?_
    rintro rfl rfl
    exact hfresh k' hkey' hk

theorem Holds.call_add {s : WinSys × List RouteCall} {m : SplitMode} {c : Cidr}
    (hvia : ∀ c k, ctrl.key .include c = some k → k.ifindex = ctrl.sys.adapter)
    (hnamed : m = .exclude → (ctrl.target m c).isSome = true → named c) (h : ctrl.Holds base recorded named s) :
    ctrl.Holds base recorded named (ctrl.routeController.logged.call m .add c s).2 ∧
      ((ctrl.routeController.logged.call m .add c s).1.isOk = true → ctrl.Fresh base m c) := by
  rw [logged_call]
  have hcase := ctrl.call_add_cases m c s.1
  generalize ctrl.routeController.call m .add c s.1 = res at hcase
  obtain ⟨r, s'⟩ := res
  dsimp only at hcase ⊢
  rcases hcase with ⟨htarget, heq⟩ | ⟨htarget, hrec, hcase⟩
  · obtain ⟨rfl, rfl⟩ := Prod.mk.inj heq
    refine ⟨h.asksNothing htarget, fun _ k hk => ?_⟩
    rw [key_eq_none htarget] at hk
    cases hk
  · have hnamed' : ∀ c' ∈ s'.installedBypass, named c' := by
      rw [hrec]
      cases m with
      | «include» => exact h.allNamed
      | exclude =>
        intro c' hc'
        rcases List.mem_append.mp hc' with hc' | hc'
        · exact h.allNamed c' hc'
        · rw [List.mem_singleton.mp hc']
          exact hnamed rfl htarget
    rcases hcase with ⟨hfail, hroutes⟩ | ⟨k, hkey, hnew, hok, hroutes⟩
    · rw [hfail]
      exact ⟨h.failed hroutes (fun c' hc' => hrec ▸ mem_record hc') hnamed', by simp⟩
    · have hfresh : k ∉ base := fun hk => hnew (h.subset hk)
      rw [hok]
      refine ⟨h.added hvia hkey hfresh hroutes hrec hnamed', fun _ k' hk => ?_⟩
      rw [hkey, Option.some.injEq] at hk
      exact hk ▸ hfresh

theorem Holds.call_remove {s : WinSys × List RouteCall} {m : SplitMode} {c : Cidr}
    (hvia : ∀ c k, ctrl.key .include c = some k → k.ifindex = ctrl.sys.adapter) (hfresh : ctrl.Fresh base m c)
    (h : ctrl.Holds base recorded named s) :
    ctrl.Holds base recorded named (ctrl.routeController.logged.call m .remove c s).2 := by
  rw [logged_call]
  have hcase := ctrl.call_remove_cases m c s.1
  generalize ctrl.routeController.call m .remove c s.1 = res at hcase
  obtain ⟨r, s'⟩ := res
  dsimp only at hcase ⊢
  rcases hcase with ⟨htarget, heq⟩ | ⟨hfail, hroutes, hby, -⟩ | ⟨k, hkey, hok, hroutes, hrec⟩
  · obtain ⟨rfl, rfl⟩ := Prod.mk.inj heq
    exact h.asksNothing htarget
  · rw [hfail]
    exact h.failed hroutes (fun c' hc' => hby ▸ hc') fun c' hc' => h.allNamed c' (hby ▸ hc')
  · rw [hok]
    exact h.removed hvia hkey hfresh hroutes hrec

/-- A destination that the resolver asks a bypass for. -/
def Asked (ctrl : WindowsController) (cs : List (SplitMode × Finset Cidr)) (c : Cidr) : Prop :=
  ∃ resolved, (.exclude, resolved) ∈ cs ∧ c ∈ resolved ∧ (ctrl.target .exclude c).isSome = true

/-- The session's resolver, with the log of its calls. -/
def resolve (ctrl : WindowsController) (base : Finset WinRoute) (recorded : List Cidr)
    (cs : List (SplitMode × Finset Cidr)) : Resolvers (WinSys × List RouteCall) :=
  Resolvers.cycles ctrl.routeController.logged { sys := (⟨base, recorded, 0⟩, []) } cs

theorem resolve_sys {cs : List (SplitMode × Finset Cidr)} :
    (Resolvers.cycles ctrl.routeController { sys := ⟨base, recorded, 0⟩ } cs).sys =
      (ctrl.resolve base recorded cs).sys.1 := by
  have hforget := @Resolvers.forget_cycles _ ctrl.routeController cs
    ({ sys := (⟨base, recorded, 0⟩, []) } : Resolvers (WinSys × List RouteCall))
  exact (congrArg Resolvers.sys hforget).symm

theorem sound_init (ctrl : WindowsController) (base : Finset WinRoute) (recorded : List Cidr) (named : Cidr → Prop)
    (hnamed : ∀ c ∈ recorded, named c) :
    Resolvers.Sound (ctrl.Holds base recorded named) (ctrl.Fresh base)
      ({ sys := (⟨base, recorded, 0⟩, []) } : Resolvers (WinSys × List RouteCall)) := by
  have hnone : ∀ c, ¬ Installed .exclude [] c := by
    rintro c ⟨before, after, heq, -⟩
    simp at heq
  refine ⟨⟨Finset.Subset.refl _, fun k hk => .inl hk, fun c k hi => absurd hi (hnone c), hnamed, fun c hc _ _ _ => hc⟩, ?_⟩
  intro m c hc
  cases m <;> exact absurd hc (Finset.notMem_empty c)

/-- **What the resolver leaves.** -/
theorem resolve_holds {cs : List (SplitMode × Finset Cidr)}
    (hvia : ∀ c k, ctrl.key .include c = some k → k.ifindex = ctrl.sys.adapter) :
    ctrl.Holds base recorded (fun c => c ∈ recorded ∨ ctrl.Asked cs c) (ctrl.resolve base recorded cs).sys := by
  have hadd : ∀ m c s, (∃ resolved, (m, resolved) ∈ cs ∧ c ∈ resolved) →
      ctrl.Holds base recorded (fun c => c ∈ recorded ∨ ctrl.Asked cs c) s →
      ctrl.Holds base recorded (fun c => c ∈ recorded ∨ ctrl.Asked cs c)
        (ctrl.routeController.logged.call m .add c s).2 ∧
      ((ctrl.routeController.logged.call m .add c s).1.isOk = true → ctrl.Fresh base m c) := by
    rintro m c s ⟨resolved, hmem, hc⟩ hs
    refine Holds.call_add hvia (fun hm htarget => .inr ?_) hs
    subst hm
    exact ⟨resolved, hmem, hc, htarget⟩
  exact ((sound_init ctrl base recorded _ fun c hc => .inl hc).cycles hadd (fun m c s hfresh hs => Holds.call_remove hvia hfresh hs)
    fun m resolved hmem c hc => ⟨resolved, hmem, hc⟩).1

/-- The destination of a route that was there before is recorded when a bypass is asked for, and stays so. -/
theorem resolve_records {cs : List (SplitMode × Finset Cidr)} {c : Cidr} {k : WinRoute}
    (hvia : ∀ c k, ctrl.key .include c = some k → k.ifindex = ctrl.sys.adapter) (hkey : ctrl.key .exclude c = some k)
    (hk : k ∈ base) (hc : c ∈ recorded ∨ ctrl.Asked cs c) :
    c ∈ (ctrl.resolve base recorded cs).sys.1.installedBypass := by
  rcases hc with hc | ⟨resolved, hmem, hc, htarget⟩
  · exact (resolve_holds hvia).keeps c hc k hk hkey
  · have hstart := sound_init ctrl base recorded (fun _ => True) fun _ _ => trivial
    refine hstart.called (Q := fun s => c ∈ s.1.installedBypass)
      (fun m c s hs => Holds.call_add hvia (fun _ _ => trivial) hs)
      (fun m c s hfresh hs => Holds.call_remove hvia hfresh hs) ?_ ?_ ?_ (fun hfresh => hfresh k hkey hk)
      ⟨resolved, hmem, hc⟩
    · -- the addition records it
      intro s _
      rw [logged_call]
      rcases ctrl.call_add_cases .exclude c s.1 with ⟨hnone, -⟩ | ⟨-, hrec, -⟩
      · rw [hnone] at htarget
        cases htarget
      · dsimp only
        rw [hrec]
        exact List.mem_append.mpr (.inr (List.mem_singleton_self c))
    · intro m c' s _ hs
      rw [logged_call]
      rcases ctrl.call_add_cases m c' s.1 with ⟨-, heq⟩ | ⟨-, hrec, -⟩
      · dsimp only
        rw [heq]
        exact hs
      · dsimp only
        rw [hrec]
        exact mem_record hs
    · intro m c' s hfresh _ hs
      rw [logged_call]
      rcases ctrl.call_remove_cases m c' s.1 with ⟨-, heq⟩ | ⟨-, -, hby, -⟩ | ⟨k', hkey', -, -, hby⟩
      · dsimp only
        rw [heq]
        exact hs
      · dsimp only
        rw [hby]
        exact hs
      · dsimp only
        rw [hby]
        cases m with
        | «include» => exact hs
        | exclude =>
          refine List.mem_filter.mpr ⟨hs, ?_⟩
          rw [bne_iff_ne]
          rintro rfl
          exact hfresh k hkey hk

/-! ## What the teardown takes -/

theorem foldl_removeOwned (hrefused : ∀ n, ctrl.refused n = false) (l : List Cidr) (s : WinSys) :
    (∀ k, k ∈ (l.foldl ctrl.removeOwned s).routes ↔ k ∈ s.routes ∧ ∀ c ∈ l, ctrl.key .exclude c ≠ some k) ∧
      (∀ c ∈ (l.foldl ctrl.removeOwned s).installedBypass, c ∈ s.installedBypass) ∧
      ∀ c ∈ s.installedBypass, c ∈ (l.foldl ctrl.removeOwned s).installedBypass ∨ c ∈ l := by
  induction l generalizing s with
  | nil => simp
  | cons c l ih =>
    have hone : (∀ k, k ∈ (ctrl.removeOwned s c).routes ↔ k ∈ s.routes ∧ ctrl.key .exclude c ≠ some k) ∧
        (∀ c' ∈ (ctrl.removeOwned s c).installedBypass, c' ∈ s.installedBypass) ∧
        ∀ c' ∈ s.installedBypass, c' ∈ (ctrl.removeOwned s c).installedBypass ∨ c' = c := by
      have hcase := ctrl.call_remove_cases .exclude c s
      unfold removeOwned
      simp only [RouteController.call, routeController] at hcase
      generalize ctrl.removeBypass c s = res at hcase
      obtain ⟨r, s'⟩ := res
      dsimp only at hcase
      rcases hcase with ⟨htarget, heq⟩ | ⟨hfail, hroutes, hby, habs⟩ | ⟨k₀, hkey₀, hok, hroutes, hby⟩
      · obtain ⟨rfl, rfl⟩ := Prod.mk.inj heq
        refine ⟨fun k => by simp [key_eq_none htarget], fun c' hc' => (List.mem_filter.mp hc').1, fun c' hc' => ?_⟩
        by_cases heq : c' = c
        · exact .inr heq
        · exact .inl (List.mem_filter.mpr ⟨hc', by simpa using heq⟩)
      · cases r with
        | ok u => cases hfail
        | error e =>
          refine ⟨fun k => ?_, fun c' hc' => hby ▸ hc', fun c' hc' => .inl (hby ▸ hc')⟩
          rw [hroutes]
          exact ⟨fun hk => ⟨hk, fun hkey => habs hrefused k hkey hk⟩, And.left⟩
      · cases r with
        | error e => cases hok
        | ok u =>
          dsimp only
          rw [hroutes, hby, record]
          refine ⟨fun k => ?_, fun c' hc' => (List.mem_filter.mp (List.mem_filter.mp hc').1).1, fun c' hc' => ?_⟩
          · rw [Finset.mem_erase, hkey₀, ne_eq, ne_eq, Option.some.injEq, and_comm, eq_comm]
          · by_cases heq : c' = c
            · exact .inr heq
            · have hbne : (c' != c) = true := by simpa using heq
              exact .inl (List.mem_filter.mpr ⟨List.mem_filter.mpr ⟨hc', hbne⟩, hbne⟩)
    obtain ⟨hr, hsub, hleft⟩ := hone
    obtain ⟨hr', hsub', hleft'⟩ := ih (ctrl.removeOwned s c)
    rw [List.foldl_cons]
    refine ⟨fun k => ?_, fun c' hc' => hsub c' (hsub' c' hc'), fun c' hc' => ?_⟩
    · rw [hr' k, hr k, List.forall_mem_cons, and_assoc]
    · rcases hleft c' hc' with hc' | rfl
      · exact (hleft' c' hc').imp_right (List.mem_cons_of_mem _)
      · exact .inr List.mem_cons_self

end WindowsController

theorem mem_netshDeleteRoutes {sys : Windows} {iface : String} {gateway : IpAddr} {l : List Cidr}
    {t : Finset WinRoute} {k : WinRoute} :
    k ∈ l.foldl (sys.netshDeleteRoute iface gateway) t ↔ k ∈ t ∧ ∀ c ∈ l, sys.netshRoute c iface gateway ≠ some k := by
  induction l generalizing t with
  | nil => simp
  | cons c l ih =>
    rw [List.foldl_cons, ih, List.forall_mem_cons, ← and_assoc]
    refine and_congr_left fun _ => ?_
    unfold Windows.netshDeleteRoute
    cases sys.netshRoute c iface gateway with
    | none => simp
    | some k' => rw [Finset.mem_erase, ne_eq, ne_eq, Option.some.injEq, and_comm, eq_comm]

namespace WinStart

variable {a : WinStart} {sys : Windows} {h : WinHost} {refused : Nat → Bool} {cs : List (SplitMode × Finset Cidr)}
  {reached : Cidr → Bool}

/-- The route that a session makes, and takes away, for a bypass. -/
def bypassKey (a : WinStart) (sys : Windows) (c : Cidr) : Option WinRoute :=
  (a.controller sys fun _ => false).key .exclude c

/-- A destination that is recorded: of the plan, or one that the resolver asks a bypass for. -/
def Named (a : WinStart) (sys : Windows) (cs : List (SplitMode × Finset Cidr)) (c : Cidr) : Prop :=
  c ∈ a.carriedBypass.map (·.dest) ∨ (a.controller sys fun _ => false).Asked cs c

/-- Whether the teardown takes the route of a recorded destination: the controller what it reaches, and `netsh` what
its syntax has, if the interface has a name. -/
def tearsDown (a : WinStart) (sys : Windows) (reached : Cidr → Bool) (c : Cidr) : Bool :=
  reached c || (sys.netshRoute c (a.origIface sys) a.plan.serverException.gateway).isSome

/-- `netsh` takes the route that the session has made. -/
theorem bypassKey_of_netshRoute {c : Cidr} {k : WinRoute}
    (hk : sys.netshRoute c (a.origIface sys) a.plan.serverException.gateway = some k) : a.bypassKey sys c = some k := by
  obtain ⟨hrow, hv4, hgw⟩ := Windows.row_of_netshRoute hk
  have hgateway : (a.controller sys fun _ => false).bypassGateway c = some a.plan.serverException.gateway := by
    simp only [WindowsController.bypassGateway, hv4, if_true]
    exact if_pos hgw
  simp only [bypassKey, WindowsController.key, WindowsController.target, hgateway, Option.map_some, Option.bind_some]
  exact hrow

/-- **The routes after the teardown**: of those that the resolver leaves, all but the adapter's and those of the
recorded destinations that it takes. -/
theorem mem_ended {s : WinSys} {k : WinRoute} (h h' : WinHost) :
    k ∈ (a.ended sys reached s (a.guard sys h) h').routes ↔
      k ∈ s.routes ∧ k.ifindex ≠ sys.adapter ∧
        ∀ c ∈ s.installedBypass, a.bypassKey sys c = some k → a.tearsDown sys reached c = false := by
  obtain ⟨hr, hsub, hleft⟩ := @WindowsController.foldl_removeOwned (a.controller sys fun _ => false)
    (fun _ => rfl) (s.installedBypass.filter reached) s
  simp only [ended, WinHost.dropDevice, WindowsTeardown.drop, guard, Finset.mem_filter, mem_netshDeleteRoutes,
    WindowsController.teardownBypass]
  rw [hr k, and_assoc, and_assoc]
  refine and_congr_right fun hk => ?_
  constructor
  · rintro ⟨hctrl, hnetsh, hdev⟩
    refine ⟨hdev, fun c hc hkey => ?_⟩
    unfold tearsDown
    rw [Bool.or_eq_false_iff]
    have hreached : reached c = false := by
      rw [← Bool.not_eq_true]
      exact fun hreached => hctrl c (List.mem_filter.mpr ⟨hc, hreached⟩) hkey
    refine ⟨hreached, ?_⟩
    -- what the controller has not reached is left to the guard
    have hin := (hleft c hc).resolve_right fun hc' => by simp [hreached] at hc'
    cases hroute : sys.netshRoute c (a.origIface sys) a.plan.serverException.gateway with
    | none => rfl
    | some k' =>
      have hkey' := bypassKey_of_netshRoute hroute
      rw [hkey, Option.some.injEq] at hkey'
      rw [← hkey'] at hroute
      exact absurd hroute (hnetsh c hin)
  · rintro ⟨hdev, htorn⟩
    refine ⟨fun c hc hkey => ?_, fun c hc hroute => ?_, hdev⟩
    · obtain ⟨hc, hreached⟩ := List.mem_filter.mp hc
      have hno := htorn c hc hkey
      rw [tearsDown, hreached] at hno
      cases hno
    · have hno := htorn c (hsub c hc) (bypassKey_of_netshRoute hroute)
      rw [tearsDown, hroute, Option.isSome_some, Bool.or_true] at hno
      cases hno

/-- What the guard makes of the policy: its value before, if `start` has read it. -/
theorem policy_restored_iff (hpolicy : ∀ n, h.smartPolicy = some n → n ≤ 1) :
    ((a.guard sys h).smartBackup.map fun v => if v.toList.getLast? = some '1' then 1 else 0) = h.smartPolicy ↔
      (a.forceDns = false → h.smartPolicy = none) := by
  unfold guard readSmartResolutionPolicy regQuery
  cases hforce : a.forceDns with
  | false =>
    simp only [Bool.false_eq_true, if_false, Option.map_none, forall_const]
    exact eq_comm
  | true =>
    simp only [if_true, reduceCtorEq, false_implies, iff_true]
    cases hp : h.smartPolicy with
    | none => rfl
    | some n =>
      have hn := hpolicy n hp
      obtain rfl | rfl : n = 0 ∨ n = 1 := by omega
      · decide
      · decide

/-- What has been unbound was bound. -/
theorem bound_of_unbound {idx : Nat} (hidx : a.unbound h = some idx) : h.v6Bound idx = true := by
  unfold unbound at hidx
  split at hidx
  · exact (Option.filter_eq_some_iff.mp hidx).2
  · cases hidx

theorem binding_restored (routes : Finset WinRoute) :
    ((a.guard sys h).drop sys (a.changed h routes)).v6Bound = h.v6Bound := by
  simp only [WindowsTeardown.drop, guard, changed]
  cases hidx : a.unbound h with
  | none => rfl
  | some idx =>
    simp only [Function.update_idem]
    rw [← bound_of_unbound hidx, Function.update_eq_self]

theorem binding_unchanged_iff (routes : Finset WinRoute) : (a.changed h routes).v6Bound = h.v6Bound ↔ a.unbound h = none := by
  unfold changed
  cases hidx : a.unbound h with
  | none => simp
  | some idx =>
    simp only [reduceCtorEq, iff_false]
    intro heq
    have hfalse := congrFun heq idx
    rw [Function.update_self, bound_of_unbound hidx] at hfalse
    cases hfalse

/-! ## What is restored -/

/-- The calls of the session's resolver. -/
def calls (a : WinStart) (sys : Windows) (refused : Nat → Bool) (cs : List (SplitMode × Finset Cidr)) (h : WinHost) :
    List RouteCall :=
  match a.start sys h with
  | .failed _ => []
  | .up h g => ((a.controller sys refused).resolve h.routes g.installedBypass cs).sys.2

/-- `start` comes to its guard. -/
def HasGuard (a : WinStart) (sys : Windows) : Prop :=
  ¬ a.BeforeAdapter ∧ a.cancelled sys = false ∧ a.fault ≠ some .controller

/-- A `start` that ends without a guard has changed nothing. -/
structure Unchanged (a : WinStart) (sys : Windows) (h : WinHost) : Prop where
  routes : ∀ k, a.Installs sys k → k.ifindex ≠ sys.adapter → k ∈ h.routes
  policy : a.cancelled sys = false → a.forceDns = true → h.smartPolicy = some 1
  binding : a.cancelled sys = false → a.unbound h = none

/-- A session's teardown undoes its changes and no others. -/
structure Undone (a : WinStart) (sys : Windows) (refused : Nat → Bool) (cs : List (SplitMode × Finset Cidr))
    (reached : Cidr → Bool) (h : WinHost) : Prop where
  policy : a.forceDns = false → h.smartPolicy = none
  /-- No route of the host is taken. -/
  own : ∀ c k, a.Named sys cs c → a.bypassKey sys c = some k → a.tearsDown sys reached c = true → k ∉ h.routes
  /-- What `start` has put in is the route of a recorded destination, and is taken. -/
  added : ∀ k, a.Installs sys k → k.ifindex ≠ sys.adapter →
    k ∈ h.routes ∨ ∃ c, a.Named sys cs c ∧ a.bypassKey sys c = some k ∧ a.tearsDown sys reached c = true
  /-- What the resolver has put in is taken. -/
  resolved : ∀ c k, Installed .exclude (a.calls sys refused cs h) c → a.bypassKey sys c = some k →
    k.ifindex ≠ sys.adapter → a.tearsDown sys reached c = true

/-- Routes through the adapter go with it. -/
theorem dropDevice_routes_iff {routes : Finset WinRoute} (hown : ∀ k ∈ h.routes, k.ifindex ≠ sys.adapter)
    (hmem : ∀ k, k ∈ routes ↔ k ∈ h.routes ∨ a.Installs sys k) :
    routes.filter (fun k => k.ifindex ≠ sys.adapter) = h.routes ↔
      ∀ k, a.Installs sys k → k.ifindex ≠ sys.adapter → k ∈ h.routes := by
  constructor
  · intro heq k hinst hdev
    rw [← heq]
    exact Finset.mem_filter.mpr ⟨(hmem k).mpr (.inr hinst), hdev⟩
  · intro hall
    ext k
    rw [Finset.mem_filter, hmem k]
    constructor
    · rintro ⟨hk | hinst, hdev⟩
      · exact hk
      · exact hall k hinst hdev
    · exact fun hk => ⟨.inl hk, hown k hk⟩

/-- **The routes are restored** if and only if no route of the host is taken, and what `start` and the resolver have put
in is. -/
theorem routes_restored_iff {s : WinSys × List RouteCall} {routes final : Finset WinRoute}
    (hown : ∀ k ∈ h.routes, k.ifindex ≠ sys.adapter) (hmem : ∀ k, k ∈ routes ↔ k ∈ h.routes ∨ a.Installs sys k)
    (hholds : (a.controller sys refused).Holds routes (a.carriedBypass.map (·.dest)) (a.Named sys cs) s)
    (hrecords : ∀ c k, a.bypassKey sys c = some k → k ∈ routes → a.Named sys cs c → c ∈ s.1.installedBypass)
    (hfinal : ∀ k, k ∈ final ↔ k ∈ s.1.routes ∧ k.ifindex ≠ sys.adapter ∧
      ∀ c ∈ s.1.installedBypass, a.bypassKey sys c = some k → a.tearsDown sys reached c = false) :
    final = h.routes ↔
      (∀ c k, a.Named sys cs c → a.bypassKey sys c = some k → a.tearsDown sys reached c = true → k ∉ h.routes) ∧
      (∀ k, a.Installs sys k → k.ifindex ≠ sys.adapter →
        k ∈ h.routes ∨ ∃ c, a.Named sys cs c ∧ a.bypassKey sys c = some k ∧ a.tearsDown sys reached c = true) ∧
      ∀ c k, Installed .exclude s.2 c → a.bypassKey sys c = some k → k.ifindex ≠ sys.adapter →
        a.tearsDown sys reached c = true := by
  constructor
  · intro heq
    refine ⟨fun c k hc hkey htorn hk => ?_, fun k hinst hdev => ?_, fun c k hi hkey hdev => ?_⟩
    · have hthere := (hfinal k).mp (heq ▸ hk)
      have hno := hthere.2.2 c (hrecords c k hkey ((hmem k).mpr (.inl hk)) hc) hkey
      rw [htorn] at hno
      cases hno
    · by_contra hnone
      rw [not_or, not_exists] at hnone
      refine hnone.1 (heq ▸ (hfinal k).mpr ⟨hholds.subset ((hmem k).mpr (.inr hinst)), hdev, fun c hc hkey => ?_⟩)
      rw [← Bool.not_eq_true]
      exact fun htorn => hnone.2 c ⟨hholds.allNamed c hc, hkey, htorn⟩
    · by_contra hno
      obtain ⟨hnew, -, hthere⟩ := hholds.installed c k hi hkey
      refine hnew ((hmem k).mpr (.inl (heq ▸ (hfinal k).mpr ⟨hthere hdev, hdev, fun c' _ hkey' => ?_⟩)))
      -- two bypasses have two routes
      rw [(WindowsController.dest_of_key hkey').symm.trans (WindowsController.dest_of_key hkey)]
      simpa using hno
  · rintro ⟨hkept, hadded, hresolved⟩
    ext k
    rw [hfinal k]
    constructor
    · rintro ⟨hk, hdev, htorn⟩
      have hclash : ∀ c ∈ s.1.installedBypass, a.bypassKey sys c = some k → a.tearsDown sys reached c = true → False := by
        intro c hc hkey htrue
        rw [htorn c hc hkey] at htrue
        cases htrue
      rcases hholds.others k hk with hbase | hdev' | ⟨c, hi, hkey⟩
      · rcases (hmem k).mp hbase with hk | hinst
        · exact hk
        · rcases hadded k hinst hdev with hk | ⟨c, hc, hkey, htrue⟩
          · exact hk
          · exact (hclash c (hrecords c k hkey hbase hc) hkey htrue).elim
      · exact absurd hdev' hdev
      · exact (hclash c (hholds.installed c k hi hkey).2.1 hkey (hresolved c k hi hkey hdev)).elim
    · intro hk
      have hbase := (hmem k).mpr (.inl hk)
      refine ⟨hholds.subset hbase, hown k hk, fun c hc hkey => ?_⟩
      rw [← Bool.not_eq_true]
      exact fun htorn => hkept c k (hholds.allNamed c hc) hkey htorn hk

theorem key_viaTun {c : Cidr} {k : WinRoute} (htun : ∀ i, sys.pick a.plan.tunAddr = some i → i = sys.adapter)
    (hk : (a.controller sys refused).key .include c = some k) : k.ifindex = sys.adapter := by
  simp only [WindowsController.key, WindowsController.target] at hk
  split at hk
  · cases hk
  · simp only [Option.bind_some, WindowsController.viaTunRoute, controller] at hk
    cases htunIdx : a.tunIndexed with
    | true =>
      simp only [htunIdx, if_true, Windows.row, Option.some_or, Option.map_some, Option.some.injEq] at hk
      rw [← hk]
    | false =>
      simp only [htunIdx, Bool.false_eq_true, if_false, Windows.row, Option.none_or, Option.bind_some,
        Option.map_eq_some_iff] at hk
      obtain ⟨i, hi, rfl⟩ := hk
      exact htun i hi

theorem host_eq_iff {h' : WinHost} :
    h' = h ↔ h'.routes = h.routes ∧ h'.smartPolicy = h.smartPolicy ∧ h'.v6Bound = h.v6Bound := by
  cases h'
  cases h
  simp

/-- Without a guard the host is as it was before if nothing but the adapter has changed. -/
theorem unguarded_restored_iff {routes : Finset WinRoute} (hown : ∀ k ∈ h.routes, k.ifindex ≠ sys.adapter)
    (hmem : ∀ k, k ∈ routes ↔ k ∈ h.routes ∨ a.Installs sys k) :
    (if a.cancelled sys then { h with routes } else a.changed h routes).dropDevice sys = h ↔ a.Unchanged sys h := by
  have hroutes := dropDevice_routes_iff hown hmem
  rw [host_eq_iff]
  cases hc : a.cancelled sys with
  | true =>
    simp only [if_true, WinHost.dropDevice, and_true]
    rw [hroutes]
    exact ⟨fun hr => ⟨hr, by simp [hc], by simp [hc]⟩, fun hu => hu.routes⟩
  | false =>
    simp only [Bool.false_eq_true, if_false, WinHost.dropDevice]
    have hpolicy : (a.changed h routes).smartPolicy = h.smartPolicy ↔ (a.forceDns = true → h.smartPolicy = some 1) := by
      unfold changed
      cases a.forceDns <;> simp [eq_comm]
    rw [hpolicy, binding_unchanged_iff]
    refine (and_congr_left fun _ => hroutes).trans ?_
    exact ⟨fun ⟨hr, hp, hb⟩ => ⟨hr, fun _ => hp, fun _ => hb⟩, fun hu => ⟨hu.routes, hu.policy hc, hu.binding hc⟩⟩

/-- A session is taken down by its guard. -/
theorem session_restored_iff {routes : Finset WinRoute} (hown : ∀ k ∈ h.routes, k.ifindex ≠ sys.adapter)
    (htun : ∀ i, sys.pick a.plan.tunAddr = some i → i = sys.adapter)
    (hpolicy : ∀ n, h.smartPolicy = some n → n ≤ 1) (hmem : ∀ k, k ∈ routes ↔ k ∈ h.routes ∨ a.Installs sys k)
    (hup : a.start sys h = .up (a.changed h routes) (a.guard sys h)) :
    a.after sys refused cs reached h = h ↔ a.Undone sys refused cs reached h := by
  have hvia : ∀ c k, (a.controller sys refused).key .include c = some k → k.ifindex = sys.adapter :=
    fun c k => key_viaTun htun
  have hholds := @WindowsController.resolve_holds (a.controller sys refused) routes (a.carriedBypass.map (·.dest)) cs hvia
  have hrecords := fun c k => @WindowsController.resolve_records (a.controller sys refused) routes
    (a.carriedBypass.map (·.dest)) cs c k hvia
  have hafter : a.after sys refused cs reached h =
      a.ended sys reached ((a.controller sys refused).resolve routes (a.carriedBypass.map (·.dest)) cs).sys.1
        (a.guard sys h) (a.changed h routes) := by
    rw [after, hup]
    exact congrArg (a.ended sys reached · (a.guard sys h) (a.changed h routes)) WindowsController.resolve_sys
  have hcalls : a.calls sys refused cs h =
      ((a.controller sys refused).resolve routes (a.carriedBypass.map (·.dest)) cs).sys.2 := by
    rw [calls, hup]
    rfl
  generalize (a.controller sys refused).resolve routes (a.carriedBypass.map (·.dest)) cs = r at *
  have hroutes := @routes_restored_iff a sys h refused cs reached r.sys routes _ hown hmem hholds
    (fun c k hkey hk hc => hrecords c k hkey hk hc) fun k => mem_ended h (a.changed h routes)
  have hpol : (a.ended sys reached r.sys.1 (a.guard sys h) (a.changed h routes)).smartPolicy = h.smartPolicy ↔
      (a.forceDns = false → h.smartPolicy = none) := @policy_restored_iff a sys h hpolicy
  have hbinding : (a.ended sys reached r.sys.1 (a.guard sys h) (a.changed h routes)).v6Bound = h.v6Bound :=
    @binding_restored a sys h routes
  rw [hafter, host_eq_iff, hroutes, hpol, and_iff_left hbinding, ← hcalls]
  constructor
  · rintro ⟨⟨ho, ha, hr⟩, hp⟩
    exact ⟨hp, ho, ha, hr⟩
  · exact fun hu => ⟨⟨hu.own, hu.added, hu.resolved⟩, hu.policy⟩

/-- **Teardown.** When `start` has failed or has been dropped, or its session and its resolver have ended in any way,
the host is as it was before if and only if `start` has ended before the adapter, or without a guard and without a
change, or the teardown undoes the changes and no others. -/
theorem teardown_restores_iff (a : WinStart) (sys : Windows) (refused : Nat → Bool) (cs : List (SplitMode × Finset Cidr))
    (reached : Cidr → Bool) (h : WinHost) (hown : ∀ k ∈ h.routes, k.ifindex ≠ sys.adapter)
    (htun : ∀ i, sys.pick a.plan.tunAddr = some i → i = sys.adapter)
    (hpolicy : ∀ n, h.smartPolicy = some n → n ≤ 1) :
    a.after sys refused cs reached h = h ↔
      a.BeforeAdapter ∨ (¬ a.HasGuard sys ∧ a.Unchanged sys h) ∨
        (a.HasGuard sys ∧ a.Undone sys refused cs reached h) := by
  rcases a.start_cases sys h with ⟨hbefore, hstart⟩ | ⟨hbefore, routes, hmem, hstart⟩
  · -- nothing has been changed
    have hafter : a.after sys refused cs reached h = h.dropDevice sys := by rw [after, hstart]
    rw [hafter]
    refine ⟨fun _ => .inl hbefore, fun _ => host_eq_iff.mpr ⟨?_, rfl, rfl⟩⟩
    exact Finset.filter_eq_self.mpr hown
  · rw [or_iff_right hbefore]
    by_cases hguard : a.HasGuard sys
    · rw [or_iff_right fun hu => hu.1 hguard, and_iff_right hguard]
      obtain ⟨-, hc, hfault⟩ := hguard
      rw [hc, if_neg Bool.false_ne_true, if_neg hfault] at hstart
      exact session_restored_iff hown htun hpolicy hmem hstart
    · rw [or_iff_left fun hu => hguard hu.1, and_iff_right hguard, ← unguarded_restored_iff hown hmem]
      have hfail : a.start sys h = .failed (if a.cancelled sys then { h with routes } else a.changed h routes) := by
        rw [hstart]
        cases hc : a.cancelled sys with
        | true => rfl
        | false =>
          have hfault : a.fault = some .controller := by
            by_contra hfault
            exact hguard ⟨hbefore, hc, hfault⟩
          rw [if_neg Bool.false_ne_true, if_pos hfault]
          rfl
      rw [after, hfail]

/-- Windows with the adapter `9` and the egress adapter `4`. -/
def homeWindows : Windows where
  adapter := 9
  pick := fun _ => none
  ifaceName := fun i => if i = 4 then some "Ethernet" else none
  ifaceNamed := fun s => if s = "Ethernet" then some 4 else none
  ifaceNamed_name := by
    intro i s h
    split at h
    · next hi =>
      cases h
      rw [if_pos rfl, hi]
    · cases h
  ifaceNamed_empty := by decide

/-- A full tunnel whose start succeeds, with what is left out of it. -/
def fullTunnelStart (bypass : List ServerException) : WinStart where
  plan :=
    { tunAddr := .v4 0x0a470002
      tunAddr6 := none
      viaTun := [⟨.v4 0, 1⟩, ⟨.v4 0x80000000, 1⟩]
      serverException := ⟨Cidr.host (.v4 0xcb007107), .v4 0xc0a80101⟩
      bypass
      origGateway6 := none }
  forceDns := true
  ipv6Killswitch := true
  origIdx := some 4
  tunIndexed := true
  v6Assigned := false
  adds := fun _ => .answered
  bindingRead := true
  unbinds := true
  fault := none

def homeWinHost : WinHost where
  routes := {⟨⟨.v4 0, 0⟩, some (.v4 0xc0a80101), 4⟩}
  smartPolicy := none
  v6Bound := fun _ => true

/-- A session that leaves its own server out of the tunnel records the server's route, and restores the host. -/
theorem teardown_restores_server_left_out :
    (fullTunnelStart [⟨Cidr.host (.v4 0xcb007107), .v4 0xc0a80101⟩]).after homeWindows (fun _ => false) []
      (fun _ => true) homeWinHost = homeWinHost := by
  refine (teardown_restores_iff (fullTunnelStart [⟨Cidr.host (.v4 0xcb007107), .v4 0xc0a80101⟩]) homeWindows
    (fun _ => false) [] (fun _ => true) homeWinHost (by decide) (fun i hi => ?_) (fun n hn => ?_)).mpr
    (.inr (.inr ⟨⟨?_, by decide, by decide⟩, ?_⟩))
  · cases hi
  · cases hn
  · simp [BeforeAdapter, fullTunnelStart, IpAddr.isIpv4]
  · refine ⟨by decide, fun c k hc hkey _ => ?_, fun k hinst hdev => .inr ?_, fun _ _ _ _ _ => rfl⟩
    · rcases hc with hc | ⟨resolved, hmem, -⟩
      · have hdest := WindowsController.dest_of_key hkey
        simp only [homeWinHost, Finset.mem_singleton]
        rintro rfl
        rw [← hdest] at hc
        revert hc
        decide
      · cases hmem
    · have haccepted : accepted (fun _ => .answered) 0
          ((fullTunnelStart [⟨Cidr.host (.v4 0xcb007107), .v4 0xc0a80101⟩]).requests homeWindows) =
          [⟨Cidr.host (.v4 0xcb007107), some (.v4 0xc0a80101), some 4⟩, ⟨⟨.v4 0, 1⟩, none, some 9⟩,
            ⟨⟨.v4 0x80000000, 1⟩, none, some 9⟩, ⟨Cidr.host (.v4 0xcb007107), some (.v4 0xc0a80101), some 4⟩] := by
        decide
      have hk : k = ⟨Cidr.host (.v4 0xcb007107), some (.v4 0xc0a80101), 4⟩ := by
        rcases hinst with ⟨r, hr, hrow⟩ | ⟨-, hnetsh⟩
        · rw [show (fullTunnelStart [⟨Cidr.host (.v4 0xcb007107), .v4 0xc0a80101⟩]).adds = fun _ => .answered from rfl,
            haccepted] at hr
          simp only [List.mem_cons, List.not_mem_nil, or_false] at hr
          rcases hr with rfl | rfl | rfl | rfl
          · exact (Option.some.inj hrow).symm
          · exact absurd (congrArg WinRoute.ifindex (Option.some.inj hrow)).symm hdev
          · exact absurd (congrArg WinRoute.ifindex (Option.some.inj hrow)).symm hdev
          · exact (Option.some.inj hrow).symm
        · exact (Option.some.inj hnetsh).symm
      subst hk
      exact ⟨Cidr.host (.v4 0xcb007107), .inl (by decide), by decide, rfl⟩

/-- **The server's route stays** after a session in which every step succeeds. -/
theorem exception_route_stays :
    (⟨Cidr.host (.v4 0xcb007107), some (.v4 0xc0a80101), 4⟩ : WinRoute) ∈
        ((fullTunnelStart []).after homeWindows (fun _ => false) [] (fun _ => true) homeWinHost).routes ∧
      (fullTunnelStart []).after homeWindows (fun _ => false) [] (fun _ => true) homeWinHost ≠ homeWinHost := by
  have hstays : (⟨Cidr.host (.v4 0xcb007107), some (.v4 0xc0a80101), 4⟩ : WinRoute) ∈
      ((fullTunnelStart []).after homeWindows (fun _ => false) [] (fun _ => true) homeWinHost).routes := by
    decide
  refine ⟨hstays, fun heq => ?_⟩
  rw [heq] at hstays
  revert hstays
  decide

end WinStart

end Leshiy.Tun
