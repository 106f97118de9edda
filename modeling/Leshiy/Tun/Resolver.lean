import Leshiy.Lib.Run
import Leshiy.Tun.RoutePlan

/-!
# Domain rules

`leshiy-tun/src/resolver.rs`. Domain rules are resolved to host routes, again and again while
the session is up. Each direction remembers the routes it has installed; a snapshot is applied
by adding what is missing and removing what is gone, through a controller whose every call may
fail. A call that fails changes nothing in the memory, so the next snapshot tries it again.

The controller is a record of its four calls over a state of its own (`sys/mod.rs`). The Linux
backend is one such record; `logged` wraps any of them and writes down the calls and their
outcomes.
-/

namespace Leshiy.Tun

open Leshiy.Lib Leshiy.Client

/-- `std::io::Result<()>`. -/
abbrev IoResult := Except String Unit

/-- `sys::RouteController`. -/
structure RouteController (σ : Type) where
  addBypass : Cidr → σ → IoResult × σ
  removeBypass : Cidr → σ → IoResult × σ
  addViaTun : Cidr → σ → IoResult × σ
  removeViaTun : Cidr → σ → IoResult × σ

/-- The two changes a snapshot makes to the routes of a direction. -/
inductive Op where
  | add
  | remove
  deriving DecidableEq, Repr

/-- What a change that succeeded does to the set of installed routes. -/
def Op.apply : Op → Cidr → Finset Cidr → Finset Cidr
  | .add, c, s => insert c s
  | .remove, c, s => s.erase c

/-- Exclude mutates `bypass` routes, include mutates `via_tun` routes. -/
def RouteController.call {σ : Type} (ctrl : RouteController σ) :
    SplitMode → Op → Cidr → σ → IoResult × σ
  | .exclude, .add => ctrl.addBypass
  | .include, .add => ctrl.addViaTun
  | .exclude, .remove => ctrl.removeBypass
  | .include, .remove => ctrl.removeViaTun

structure CidrDiff where
  added : List Cidr
  removed : List Cidr

/-- What is newly present and what is gone, in the order of the sets. -/
def diff (old new : Finset Cidr) : CidrDiff where
  added := (new \ old).sort
  removed := (old \ new).sort

structure ResolverState where
  current : Finset Cidr := ∅

section

variable {σ : Type} (ctrl : RouteController σ) (mode : SplitMode)

/-- One turn of a loop over a diff: the outcome is remembered only when the call succeeds. -/
def changeOne (op : Op) (st : ResolverState × σ) (c : Cidr) : ResolverState × σ :=
  match ctrl.call mode op c st.2 with
  | (.error _, s) => (st.1, s)
  | (.ok _, s) => ({ current := op.apply c st.1.current }, s)

theorem changeOne_snd (op : Op) (st : ResolverState × σ) (c : Cidr) :
    (changeOne ctrl mode op st c).2 = (ctrl.call mode op c st.2).2 := by
  unfold changeOne
  generalize ctrl.call mode op c st.2 = res
  obtain ⟨r, s⟩ := res
  cases r <;> rfl

/-- Apply one snapshot. -/
def applyResolution (st : ResolverState × σ) (resolved : Finset Cidr) : ResolverState × σ :=
  let d := diff st.1.current resolved
  d.removed.foldl (changeOne ctrl mode .remove) (d.added.foldl (changeOne ctrl mode .add) st)

end

/-! ## Resolving -/

def MAX_DOMAINS : Nat := 50000

/-- `resolve_one`: the host routes of one name, none when the lookup fails. -/
def resolveOne (lookup : String → Option (List IpAddr)) (domain : String) : List Cidr :=
  match lookup domain with
  | some addrs => addrs.map Cidr.host
  | none => []

def resolveDomains (lookup : String → Option (List IpAddr)) (domains : List String) :
    Finset Cidr :=
  ((domains.take MAX_DOMAINS).flatMap (resolveOne lookup)).toFinset

/-- `run_resolver`: the two directions and the controller's state. -/
structure Resolvers (σ : Type) where
  incState : ResolverState := {}
  excState : ResolverState := {}
  sys : σ

namespace Resolvers

variable {σ : Type}

def state (r : Resolvers σ) : SplitMode → ResolverState
  | .include => r.incState
  | .exclude => r.excState

/-- One snapshot for one direction. -/
def cycle (ctrl : RouteController σ) (r : Resolvers σ) (c : SplitMode × Finset Cidr) :
    Resolvers σ :=
  let st := applyResolution ctrl c.1 (r.state c.1, r.sys) c.2
  match c.1 with
  | .include => { r with incState := st.1, sys := st.2 }
  | .exclude => { r with excState := st.1, sys := st.2 }

def cycles (ctrl : RouteController σ) (r : Resolvers σ) (cs : List (SplitMode × Finset Cidr)) :
    Resolvers σ :=
  cs.foldl (cycle ctrl) r

/-- The snapshots of one turn of the loop, in which the two directions look up separately. -/
def turn (includeDomains excludeDomains : List String)
    (lookups : (String → Option (List IpAddr)) × (String → Option (List IpAddr))) :
    List (SplitMode × Finset Cidr) :=
  (if includeDomains.isEmpty then []
    else [(.include, resolveDomains lookups.1 includeDomains)]) ++
  (if excludeDomains.isEmpty then []
    else [(.exclude, resolveDomains lookups.2 excludeDomains)])

/-- `run_resolver` after as many turns as there are lookups. -/
def runResolver (ctrl : RouteController σ) (includeDomains excludeDomains : List String) (s : σ)
    (lookups : List ((String → Option (List IpAddr)) × (String → Option (List IpAddr)))) :
    Resolvers σ :=
  cycles ctrl { sys := s } (lookups.flatMap (turn includeDomains excludeDomains))

end Resolvers

/-! ## The calls a run makes -/

/-- One call of the controller and whether it succeeded. -/
structure RouteCall where
  mode : SplitMode
  op : Op
  cidr : Cidr
  ok : Bool
  deriving DecidableEq, Repr

/-- A controller that writes its calls down. -/
def RouteController.logged {σ : Type} (ctrl : RouteController σ) :
    RouteController (σ × List RouteCall) where
  addBypass := record .exclude .add
  removeBypass := record .exclude .remove
  addViaTun := record .include .add
  removeViaTun := record .include .remove
where
  record (mode : SplitMode) (op : Op) (c : Cidr) (s : σ × List RouteCall) :
      IoResult × (σ × List RouteCall) :=
    let r := ctrl.call mode op c s.1
    (r.1, (r.2, s.2 ++ [⟨mode, op, c, r.1.isOk⟩]))

/-- The routes of a direction that were added and not removed since, by the calls alone. -/
def Installed (mode : SplitMode) (log : List RouteCall) (c : Cidr) : Prop :=
  ∃ before after, log = before ++ ⟨mode, .add, c, true⟩ :: after ∧
    (⟨mode, .remove, c, true⟩ : RouteCall) ∉ after

/-- The same set, call by call. -/
def installed (mode : SplitMode) (log : List RouteCall) : Finset Cidr :=
  log.foldl (fun s c => if c.mode = mode ∧ c.ok = true then c.op.apply c.cidr s else s) ∅

theorem installed_snoc (mode : SplitMode) (log : List RouteCall) (c : RouteCall) :
    installed mode (log ++ [c]) =
      if c.mode = mode ∧ c.ok = true then c.op.apply c.cidr (installed mode log)
      else installed mode log := by
  simp [installed]

/-- What one more call does to the routes that are in. -/
theorem Installed.snoc_iff {mode : SplitMode} {log : List RouteCall} {call : RouteCall} {c : Cidr} :
    Installed mode (log ++ [call]) c ↔
      call = ⟨mode, .add, c, true⟩ ∨
        (Installed mode log c ∧ call ≠ ⟨mode, .remove, c, true⟩) := by
  constructor
  · rintro ⟨before, after, heq, hno⟩
    rcases snoc_eq_append_cons heq with ⟨-, rfl, -⟩ | ⟨after', rfl, hlog⟩
    · exact .inl rfl
    · simp only [List.mem_append, List.mem_singleton, not_or] at hno
      exact .inr ⟨⟨before, after', hlog, hno.1⟩, fun h => hno.2 h.symm⟩
  · rintro (rfl | ⟨⟨before, after, rfl, hno⟩, hne⟩)
    · exact ⟨log, [], rfl, by simp⟩
    · refine ⟨before, after ++ [call], by simp, ?_⟩
      simp only [List.mem_append, List.mem_singleton, not_or]
      exact ⟨hno, fun h => hne h.symm⟩

theorem mem_installed_iff {mode : SplitMode} {log : List RouteCall} {c : Cidr} :
    c ∈ installed mode log ↔ Installed mode log c := by
  induction log using List.reverseRecOn with
  | nil => simp [installed, Installed]
  | append_singleton log call ih =>
    rw [installed_snoc, Installed.snoc_iff, ← ih]
    obtain ⟨m, op, c', ok⟩ := call
    by_cases hcall : m = mode ∧ ok = true
    · obtain ⟨rfl, rfl⟩ := hcall
      cases op with
      | add =>
        simp only [and_self, if_true, Op.apply, Finset.mem_insert]
        simp [eq_comm]
      | remove =>
        simp only [and_self, if_true, Op.apply, Finset.mem_erase]
        simp [eq_comm, and_comm]
    · rw [if_neg hcall]
      have h1 : (⟨m, op, c', ok⟩ : RouteCall) ≠ ⟨mode, .add, c, true⟩ := by
        rintro h
        cases h
        exact hcall ⟨rfl, rfl⟩
      have h2 : (⟨m, op, c', ok⟩ : RouteCall) ≠ ⟨mode, .remove, c, true⟩ := by
        rintro h
        cases h
        exact hcall ⟨rfl, rfl⟩
      simp only [h1, h2, false_or, ne_eq, not_false_eq_true, and_true]

/-! ## The memory follows the calls -/

section

variable {σ : Type} {ctrl : RouteController σ} {mode : SplitMode} {op : Op}

theorem logged_call (c : Cidr) (s : σ × List RouteCall) :
    ctrl.logged.call mode op c s =
      ((ctrl.call mode op c s.1).1, ((ctrl.call mode op c s.1).2,
        s.2 ++ [⟨mode, op, c, (ctrl.call mode op c s.1).1.isOk⟩])) := by
  cases mode <;> cases op <;> rfl

/-- One change under the logging controller: one call, remembered when it succeeds. -/
theorem changeOne_logged (ctrl : RouteController σ) (mode : SplitMode) (op : Op)
    (st : ResolverState × (σ × List RouteCall)) (c : Cidr) :
    ∃ ok s, changeOne ctrl.logged mode op st c =
        ({ current := if ok = true then op.apply c st.1.current else st.1.current },
          (s, st.2.2 ++ [⟨mode, op, c, ok⟩])) ∧
      changeOne ctrl mode op (st.1, st.2.1) c =
        ({ current := if ok = true then op.apply c st.1.current else st.1.current }, s) := by
  refine ⟨(ctrl.call mode op c st.2.1).1.isOk, (ctrl.call mode op c st.2.1).2, ?_⟩
  unfold changeOne
  rw [logged_call]
  obtain ⟨r, s⟩ := ctrl.call mode op c st.2.1
  cases r with
  | error e => simp [Except.isOk, Except.toBool]
  | ok u => simp [Except.isOk, Except.toBool]

/-- What a loop over one side of a diff does: its calls are all of this direction, the memory
stays what the calls say, and without a failure every change is in it. -/
theorem foldl_changeOne_logged (ctrl : RouteController σ) (mode : SplitMode) (op : Op)
    (l : List Cidr) (st : ResolverState × (σ × List RouteCall)) :
    ∃ calls,
      (l.foldl (changeOne ctrl.logged mode op) st).2.2 = st.2.2 ++ calls ∧
      (∀ call ∈ calls, call.mode = mode) ∧
      (st.1.current = installed mode st.2.2 →
        (l.foldl (changeOne ctrl.logged mode op) st).1.current =
          installed mode (st.2.2 ++ calls)) ∧
      ((∀ call ∈ calls, call.ok = true) →
        (l.foldl (changeOne ctrl.logged mode op) st).1.current =
          l.foldl (fun s c => op.apply c s) st.1.current) ∧
      l.foldl (changeOne ctrl mode op) (st.1, st.2.1) =
        ((l.foldl (changeOne ctrl.logged mode op) st).1,
          (l.foldl (changeOne ctrl.logged mode op) st).2.1) := by
  induction l generalizing st with
  | nil => exact ⟨[], by simp⟩
  | cons c l ih =>
    obtain ⟨ok, s, hlog, hplain⟩ := changeOne_logged ctrl mode op st c
    obtain ⟨calls, h1, h2, h3, h4, h5⟩ := ih (changeOne ctrl.logged mode op st c)
    simp only [List.foldl_cons]
    rw [hlog] at h1 h3 h4 h5 ⊢
    rw [hplain]
    refine ⟨⟨mode, op, c, ok⟩ :: calls, ?_, ?_, fun htr => ?_, fun hok => ?_, h5⟩
    · rw [h1]
      simp
    · simpa using h2
    · refine (h3 ?_).trans (by simp)
      rw [installed_snoc, ← htr]
      by_cases hk : ok = true <;> simp [hk]
    · have hk : ok = true := hok _ List.mem_cons_self
      rw [h4 fun call hc => hok call (List.mem_cons_of_mem _ hc), if_pos hk]

theorem mem_foldl_insert {l : List Cidr} {s : Finset Cidr} {c : Cidr} :
    c ∈ l.foldl (fun s c => Op.add.apply c s) s ↔ c ∈ s ∨ c ∈ l := by
  induction l generalizing s with
  | nil => simp
  | cons x l ih =>
    rw [List.foldl_cons, ih, Op.apply, Finset.mem_insert, List.mem_cons]
    tauto

theorem mem_foldl_erase {l : List Cidr} {s : Finset Cidr} {c : Cidr} :
    c ∈ l.foldl (fun s c => Op.remove.apply c s) s ↔ c ∈ s ∧ c ∉ l := by
  induction l generalizing s with
  | nil => simp
  | cons x l ih =>
    rw [List.foldl_cons, ih, Op.apply, Finset.mem_erase, List.mem_cons]
    tauto

/-- **One snapshot**: the calls it makes, and the memory after them. -/
theorem applyResolution_logged (ctrl : RouteController σ) (mode : SplitMode)
    (st : ResolverState × (σ × List RouteCall)) (resolved : Finset Cidr) :
    ∃ calls,
      (applyResolution ctrl.logged mode st resolved).2.2 = st.2.2 ++ calls ∧
      (∀ call ∈ calls, call.mode = mode) ∧
      (st.1.current = installed mode st.2.2 →
        (applyResolution ctrl.logged mode st resolved).1.current =
          installed mode (st.2.2 ++ calls)) ∧
      ((∀ call ∈ calls, call.ok = true) →
        (applyResolution ctrl.logged mode st resolved).1.current = resolved) ∧
      applyResolution ctrl mode (st.1, st.2.1) resolved =
        ((applyResolution ctrl.logged mode st resolved).1,
          (applyResolution ctrl.logged mode st resolved).2.1) := by
  simp only [applyResolution]
  obtain ⟨adds, a1, a2, a3, a4, a5⟩ :=
    foldl_changeOne_logged ctrl mode .add (diff st.1.current resolved).added st
  generalize (diff st.1.current resolved).added.foldl (changeOne ctrl.logged mode .add) st = st'
    at *
  obtain ⟨removes, r1, r2, r3, r4, r5⟩ :=
    foldl_changeOne_logged ctrl mode .remove (diff st.1.current resolved).removed st'
  refine ⟨adds ++ removes, ?_, ?_, fun htr => ?_, fun hok => ?_, ?_⟩
  · rw [r1, a1, List.append_assoc]
  · intro call hcall
    rcases List.mem_append.mp hcall with h | h
    · exact a2 call h
    · exact r2 call h
  · rw [r3 (by rw [a3 htr, a1]), a1, List.append_assoc]
  · rw [r4 fun call h => hok call (List.mem_append.mpr (.inr h)),
      a4 fun call h => hok call (List.mem_append.mpr (.inl h))]
    ext c
    simp only [mem_foldl_erase, mem_foldl_insert, diff, Finset.mem_sort, Finset.mem_sdiff]
    tauto
  · rw [a5, r5]

/-- A snapshot that is already installed makes no call. -/
theorem applyResolution_current (ctrl : RouteController σ) (mode : SplitMode) (st : ResolverState)
    (s : σ) : applyResolution ctrl mode (st, s) st.current = (st, s) := by
  simp [applyResolution, diff]

end

/-- Calls of one direction do not change what the other has installed. -/
theorem installed_append_of_ne {mode : SplitMode} {log calls : List RouteCall}
    (h : ∀ call ∈ calls, call.mode ≠ mode) :
    installed mode (log ++ calls) = installed mode log := by
  induction calls generalizing log with
  | nil => rw [List.append_nil]
  | cons call calls ih =>
    rw [List.append_cons, ih fun c hc => h c (List.mem_cons_of_mem _ hc), installed_snoc,
      if_neg fun hm => h call List.mem_cons_self hm.1]

namespace Resolvers

variable {σ : Type} {ctrl : RouteController σ}

theorem cycle_state (ctrl : RouteController σ) (r : Resolvers σ) (c : SplitMode × Finset Cidr)
    (m : SplitMode) :
    (cycle ctrl r c).state m =
      if m = c.1 then (applyResolution ctrl c.1 (r.state c.1, r.sys) c.2).1 else r.state m := by
  obtain ⟨mode, resolved⟩ := c
  cases mode <;> cases m <;> rfl

theorem cycle_sys (ctrl : RouteController σ) (r : Resolvers σ) (c : SplitMode × Finset Cidr) :
    (cycle ctrl r c).sys = (applyResolution ctrl c.1 (r.state c.1, r.sys) c.2).2 := by
  obtain ⟨mode, resolved⟩ := c
  cases mode <;> rfl

/-- A snapshot that is already installed changes nothing. -/
theorem cycle_current (ctrl : RouteController σ) (r : Resolvers σ) (mode : SplitMode) :
    cycle ctrl r (mode, (r.state mode).current) = r := by
  unfold cycle
  rw [applyResolution_current]
  cases mode <;> rfl

/-- The memory of both directions is what the calls say. -/
def Tracks (r : Resolvers (σ × List RouteCall)) : Prop :=
  ∀ mode, (r.state mode).current = installed mode r.sys.2

/-- The run without its log. -/
def forget (r : Resolvers (σ × List RouteCall)) : Resolvers σ :=
  { incState := r.incState, excState := r.excState, sys := r.sys.1 }

theorem Tracks.cycle {r : Resolvers (σ × List RouteCall)} (h : r.Tracks)
    (c : SplitMode × Finset Cidr) : (cycle ctrl.logged r c).Tracks := by
  intro m
  obtain ⟨calls, h1, h2, h3, -, -⟩ :=
    applyResolution_logged ctrl c.1 (r.state c.1, r.sys) c.2
  rw [cycle_state, cycle_sys, h1]
  by_cases hm : m = c.1
  · subst hm
    rw [if_pos rfl, h3 (h c.1)]
  · rw [if_neg hm, h m, installed_append_of_ne]
    intro call hcall
    rw [h2 call hcall]
    exact Ne.symm hm

theorem forget_cycle (r : Resolvers (σ × List RouteCall)) (c : SplitMode × Finset Cidr) :
    (cycle ctrl.logged r c).forget = cycle ctrl r.forget c := by
  obtain ⟨mode, resolved⟩ := c
  obtain ⟨-, -, -, -, -, h⟩ := applyResolution_logged ctrl mode (r.state mode, r.sys) resolved
  cases mode with
  | «include» =>
    simp only [state] at h
    simp only [forget, cycle, state, h]
  | exclude =>
    simp only [state] at h
    simp only [forget, cycle, state, h]

/-- Writing the calls down changes nothing. -/
theorem forget_cycles (cs : List (SplitMode × Finset Cidr)) (r : Resolvers (σ × List RouteCall)) :
    (cycles ctrl.logged r cs).forget = cycles ctrl r.forget cs := by
  induction cs generalizing r with
  | nil => rfl
  | cons c cs ih =>
    rw [cycles, cycles, List.foldl_cons, List.foldl_cons, ← forget_cycle]
    exact ih _

theorem Tracks.cycles (ctrl : RouteController σ) {r : Resolvers (σ × List RouteCall)} (h : r.Tracks)
    (cs : List (SplitMode × Finset Cidr)) : (cycles ctrl.logged r cs).Tracks := by
  induction cs generalizing r with
  | nil => exact h
  | cons c cs ih => exact ih (h.cycle c)

/-- **Route tracking.** For every controller and every sequence of snapshots, the memory of a
direction is the set of routes its calls have added and not removed. A snapshot whose calls all
succeed makes that set the snapshot, and applying it again makes no call. -/
theorem resolver_tracks (ctrl : RouteController σ) (s : σ) (cs : List (SplitMode × Finset Cidr))
    (mode : SplitMode) (resolved : Finset Cidr) :
    ∃ r r', cycles ctrl.logged { sys := (s, []) } cs = r ∧
      cycle ctrl.logged r (mode, resolved) = r' ∧
      cycles ctrl { sys := s } cs = r.forget ∧
      (∀ c, c ∈ (r.state mode).current ↔ Installed mode r.sys.2 c) ∧
      ∃ calls, r'.sys.2 = r.sys.2 ++ calls ∧
        ((∀ call ∈ calls, call.ok = true) →
          (r'.state mode).current = resolved ∧
          (∀ c, Installed mode r'.sys.2 c ↔ c ∈ resolved) ∧
          cycle ctrl.logged r' (mode, resolved) = r') := by
  have h0 : Tracks ({ sys := (s, []) } : Resolvers (σ × List RouteCall)) := by
    intro m
    cases m <;> rfl
  have htr := h0.cycles ctrl cs
  refine ⟨_, _, rfl, rfl, (forget_cycles cs { sys := (s, []) }).symm, fun c => ?_, ?_⟩
  · rw [htr mode, mem_installed_iff]
  · generalize cycles ctrl.logged { sys := (s, []) } cs = r at *
    obtain ⟨calls, h1, -, -, h4, -⟩ :=
      applyResolution_logged ctrl mode (r.state mode, r.sys) resolved
    refine ⟨calls, by rw [cycle_sys, h1], fun hok => ?_⟩
    have hcur : ((cycle ctrl.logged r (mode, resolved)).state mode).current = resolved := by
      rw [cycle_state, if_pos rfl, h4 hok]
    refine ⟨hcur, fun c => ?_, ?_⟩
    · rw [← mem_installed_iff, ← htr.cycle (mode, resolved) mode, hcur]
    · generalize cycle ctrl.logged r (mode, resolved) = r' at *
      subst hcur
      exact cycle_current ctrl.logged r' mode

/-! ## What every call keeps -/

section

variable {P : σ → Prop} {A N : Cidr → Prop} {mode : SplitMode}

/-- The state keeps `P`, and what is remembered is such that its addition could succeed. -/
def Remembers (P : σ → Prop) (N : Cidr → Prop) (st : ResolverState × σ) : Prop :=
  P st.2 ∧ ∀ c ∈ st.1.current, N c

theorem Remembers.foldl_add {st : ResolverState × σ} {l : List Cidr}
    (hadd : ∀ c s, A c → P s → P (ctrl.call mode .add c s).2 ∧ ((ctrl.call mode .add c s).1.isOk = true → N c))
    (hl : ∀ c ∈ l, A c) (h : Remembers P N st) : Remembers P N (l.foldl (changeOne ctrl mode .add) st) := by
  induction l generalizing st with
  | nil => exact h
  | cons c l ih =>
    refine ih (fun c hc => hl c (List.mem_cons_of_mem _ hc)) ?_
    obtain ⟨hP, hok⟩ := hadd c st.2 (hl c List.mem_cons_self) h.1
    unfold changeOne
    generalize ctrl.call mode .add c st.2 = res at *
    obtain ⟨r, s⟩ := res
    cases r with
    | error e => exact ⟨hP, h.2⟩
    | ok u =>
      refine ⟨hP, fun c' hc' => ?_⟩
      rcases Finset.mem_insert.mp hc' with rfl | hc'
      · exact hok rfl
      · exact h.2 c' hc'

theorem Remembers.foldl_remove {st : ResolverState × σ} {l : List Cidr}
    (hrem : ∀ c s, N c → P s → P (ctrl.call mode .remove c s).2) (hl : ∀ c ∈ l, N c)
    (h : Remembers P N st) : Remembers P N (l.foldl (changeOne ctrl mode .remove) st) := by
  induction l generalizing st with
  | nil => exact h
  | cons c l ih =>
    refine ih (fun c hc => hl c (List.mem_cons_of_mem _ hc)) ?_
    have hP := hrem c st.2 (hl c List.mem_cons_self) h.1
    unfold changeOne
    generalize ctrl.call mode .remove c st.2 = res at *
    obtain ⟨r, s⟩ := res
    cases r with
    | error e => exact ⟨hP, h.2⟩
    | ok u => exact ⟨hP, fun c' hc' => h.2 c' (Finset.mem_of_mem_erase hc')⟩

theorem mem_diff_added {old new : Finset Cidr} {c : Cidr} : c ∈ (diff old new).added ↔ c ∈ new ∧ c ∉ old := by
  simp [diff]

theorem mem_diff_removed {old new : Finset Cidr} {c : Cidr} : c ∈ (diff old new).removed ↔ c ∈ old ∧ c ∉ new := by
  simp [diff]

end

section

variable {P : σ → Prop} {A N : SplitMode → Cidr → Prop}

/-- Both directions remember only what could be added. -/
def Sound (P : σ → Prop) (N : SplitMode → Cidr → Prop) (r : Resolvers σ) : Prop :=
  P r.sys ∧ ∀ m, ∀ c ∈ (r.state m).current, N m c

/-- A cycle of a direction that remembers only what could be added. -/
theorem Sound.cycle_of {Q : σ → Prop} {r : Resolvers σ} {c : SplitMode × Finset Cidr}
    (h : Sound P N r) (happ : Remembers Q (N c.1) (applyResolution ctrl c.1 (r.state c.1, r.sys) c.2)) :
    Sound Q N (cycle ctrl r c) := by
  refine ⟨by rw [cycle_sys]; exact happ.1, fun m => ?_⟩
  rw [cycle_state]
  by_cases hm : m = c.1
  · subst hm
    rw [if_pos rfl]
    exact happ.2
  · rw [if_neg hm]
    exact h.2 m

theorem Sound.cycle {r : Resolvers σ} {c : SplitMode × Finset Cidr}
    (hadd : ∀ m c s, A m c → P s → P (ctrl.call m .add c s).2 ∧ ((ctrl.call m .add c s).1.isOk = true → N m c))
    (hrem : ∀ m c s, N m c → P s → P (ctrl.call m .remove c s).2) (hA : ∀ c' ∈ c.2, A c.1 c') (h : Sound P N r) :
    Sound P N (cycle ctrl r c) := by
  have hst : Remembers P (N c.1) (r.state c.1, r.sys) := ⟨h.1, h.2 c.1⟩
  refine h.cycle_of ((hst.foldl_add (hadd c.1) ?_).foldl_remove (hrem c.1) ?_)
  · exact fun c' hc' => hA c' (mem_diff_added.mp hc').1
  · exact fun c' hc' => h.2 c.1 c' (mem_diff_removed.mp hc').1

/-- **What every call keeps holds after every run**, where a removal keeps it of what could be added: nothing else
is ever removed. -/
theorem Sound.cycles {r : Resolvers σ} {cs : List (SplitMode × Finset Cidr)}
    (hadd : ∀ m c s, A m c → P s → P (ctrl.call m .add c s).2 ∧ ((ctrl.call m .add c s).1.isOk = true → N m c))
    (hrem : ∀ m c s, N m c → P s → P (ctrl.call m .remove c s).2)
    (hA : ∀ m resolved, (m, resolved) ∈ cs → ∀ c ∈ resolved, A m c) (h : Sound P N r) :
    Sound P N (cycles ctrl r cs) := by
  induction cs generalizing r with
  | nil => exact h
  | cons c cs ih =>
    exact ih (fun m resolved hm => hA m resolved (List.mem_cons_of_mem _ hm))
      (h.cycle hadd hrem (hA c.1 c.2 List.mem_cons_self))

/-- **What a call leaves is there after every run** in which a snapshot has its route, if that route is never
remembered. -/
theorem Sound.called {Q : σ → Prop} {m₀ : SplitMode} {c₀ : Cidr} {r : Resolvers σ} {cs : List (SplitMode × Finset Cidr)}
    (hadd : ∀ m c s, P s → P (ctrl.call m .add c s).2 ∧ ((ctrl.call m .add c s).1.isOk = true → N m c))
    (hrem : ∀ m c s, N m c → P s → P (ctrl.call m .remove c s).2)
    (hset : ∀ s, P s → Q (ctrl.call m₀ .add c₀ s).2)
    (hkeep : ∀ m c s, P s → Q s → Q (ctrl.call m .add c s).2)
    (hkeep' : ∀ m c s, N m c → P s → Q s → Q (ctrl.call m .remove c s).2)
    (hnever : ¬ N m₀ c₀) (h : Sound P N r) (hcs : ∃ resolved, (m₀, resolved) ∈ cs ∧ c₀ ∈ resolved) :
    Q (Resolvers.cycles ctrl r cs).sys := by
  obtain ⟨resolved, hmem, hc₀⟩ := hcs
  obtain ⟨before, after, rfl⟩ := List.append_of_mem hmem
  have hadd₁ : ∀ m c s, True → P s →
      P (ctrl.call m .add c s).2 ∧ ((ctrl.call m .add c s).1.isOk = true → N m c) :=
    fun m c s _ hs => hadd m c s hs
  have hadd₂ : ∀ m c s, True → (P s ∧ Q s) → (P (ctrl.call m .add c s).2 ∧ Q (ctrl.call m .add c s).2) ∧
      ((ctrl.call m .add c s).1.isOk = true → N m c) :=
    fun m c s _ hs => ⟨⟨(hadd m c s hs.1).1, hkeep m c s hs.1 hs.2⟩, (hadd m c s hs.1).2⟩
  have hrem₂ : ∀ m c s, N m c → (P s ∧ Q s) → P (ctrl.call m .remove c s).2 ∧ Q (ctrl.call m .remove c s).2 :=
    fun m c s hN hs => ⟨hrem m c s hN hs.1, hkeep' m c s hN hs.1 hs.2⟩
  rw [Resolvers.cycles, List.foldl_append, List.foldl_cons]
  have hbefore : Sound P N (before.foldl (Resolvers.cycle ctrl) r) :=
    h.cycles hadd₁ hrem fun _ _ _ _ _ => trivial
  generalize before.foldl (Resolvers.cycle ctrl) r = r₁ at hbefore
  -- the snapshot that has the route calls for it
  have hcycle : Sound (fun s => P s ∧ Q s) N (Resolvers.cycle ctrl r₁ (m₀, resolved)) := by
    have hadded : c₀ ∈ (diff (r₁.state m₀).current resolved).added :=
      mem_diff_added.mpr ⟨hc₀, fun hc => hnever (hbefore.2 m₀ c₀ hc)⟩
    obtain ⟨l₁, l₂, hl⟩ := List.append_of_mem hadded
    have hst : Remembers P (N m₀) (l₁.foldl (changeOne ctrl m₀ .add) (r₁.state m₀, r₁.sys)) :=
      Remembers.foldl_add (hadd₁ m₀) (fun _ _ => trivial) ⟨hbefore.1, hbefore.2 m₀⟩
    have hone : Remembers (fun s => P s ∧ Q s) (N m₀)
        (changeOne ctrl m₀ .add (l₁.foldl (changeOne ctrl m₀ .add) (r₁.state m₀, r₁.sys)) c₀) := by
      have hkept := Remembers.foldl_add (l := [c₀]) (hadd₁ m₀) (fun _ _ => trivial) hst
      refine ⟨⟨hkept.1, ?_⟩, hkept.2⟩
      rw [changeOne_snd]
      exact hset _ hst.1
    refine hbefore.cycle_of ?_
    simp only [applyResolution, hl, List.foldl_append, List.foldl_cons]
    exact (hone.foldl_add (hadd₂ m₀) fun _ _ => trivial).foldl_remove (hrem₂ m₀)
      fun c' hc' => hbefore.2 m₀ c' (mem_diff_removed.mp hc').1
  exact (hcycle.cycles hadd₂ hrem₂ fun _ _ _ _ _ => trivial).1.2

/-- **A route whose additions all fail** is never remembered, and so never removed. -/
theorem cycles_of_refused {P : σ → Prop} {c₀ : Cidr} (hadd : ∀ mode c s, P s → P (ctrl.call mode .add c s).2)
    (href : ∀ mode s, P s → (ctrl.call mode .add c₀ s).1.isOk = false)
    (hrem : ∀ mode c s, c ≠ c₀ → P s → P (ctrl.call mode .remove c s).2)
    {r : Resolvers σ} (cs : List (SplitMode × Finset Cidr))
    (h : P r.sys ∧ ∀ m, c₀ ∉ (r.state m).current) :
    P (cycles ctrl r cs).sys ∧ ∀ m, c₀ ∉ ((cycles ctrl r cs).state m).current := by
  have hsound : Sound P (fun _ c => c ≠ c₀) r := ⟨h.1, fun m c hc => fun heq => h.2 m (heq ▸ hc)⟩
  have hadd' : ∀ m c s, True → P s →
      P (ctrl.call m .add c s).2 ∧ ((ctrl.call m .add c s).1.isOk = true → c ≠ c₀) := by
    intro m c s _ hs
    refine ⟨hadd m c s hs, ?_⟩
    rintro hok rfl
    rw [href m s hs] at hok
    cases hok
  have hend : Sound P (fun _ c => c ≠ c₀) (cycles ctrl r cs) :=
    hsound.cycles hadd' hrem fun _ _ _ _ _ => trivial
  exact ⟨hend.1, fun m hc => hend.2 m c₀ hc rfl⟩

end

end Resolvers

end Leshiy.Tun
