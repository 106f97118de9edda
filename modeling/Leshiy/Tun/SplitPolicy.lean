import Leshiy.Tun.RoutePlan

/-!
# What a plan does with a packet

The routes of a plan mean what a longest-prefix match over them decides. Here that decision is
compared with the policy the rules express: the base mode, overridden by the longest rule that
covers the destination.

The engine drops the rules that `SplitPlan::effective` finds redundant before it plans. Under an
exclude base nothing changes by that. Under an include base without include rules the excludes
are dropped: their destinations keep the original default route instead of a route through the
original gateway, and leave directly in both cases.
-/

namespace Leshiy.Tun

open Leshiy.Lib Leshiy.Client

/-- Where a packet goes. -/
inductive Decision where
  | tunnel
  | gateway (g : IpAddr)
  /-- No route of the plan covers it. -/
  | originalDefault
  deriving DecidableEq, Repr

/-! ## The routes of a plan -/

structure PlannedRoute where
  dest : Cidr
  decision : Decision
  deriving DecidableEq, Repr

namespace PlannedRoute

def covers (r : PlannedRoute) (ip : IpAddr) : Bool := r.dest.covers ip

def len (r : PlannedRoute) : Nat := r.dest.prefixLen

end PlannedRoute

namespace RoutePlan

def routes (p : RoutePlan) : List PlannedRoute :=
  ⟨p.serverException.dest, .gateway p.serverException.gateway⟩ ::
    (p.viaTun.map (fun c => ⟨c, .tunnel⟩) ++
      p.bypass.map fun b => ⟨b.dest, .gateway b.gateway⟩)

/-- What a longest-prefix match may decide; more than one only where longest routes tie. -/
def decisions (p : RoutePlan) (ip : IpAddr) : List Decision :=
  match longestMatches PlannedRoute.covers PlannedRoute.len p.routes ip with
  | [] => [.originalDefault]
  | r :: rs => (r :: rs).map PlannedRoute.decision

theorem mem_decisions {p : RoutePlan} {ip : IpAddr} {d : Decision} :
    d ∈ p.decisions ip ↔
      (∃ r ∈ longestMatches PlannedRoute.covers PlannedRoute.len p.routes ip, r.decision = d) ∨
        ((∀ r ∈ p.routes, r.covers ip = false) ∧ d = .originalDefault) := by
  unfold decisions
  have hnil : longestMatches PlannedRoute.covers PlannedRoute.len p.routes ip = [] ↔
      ∀ r ∈ p.routes, r.covers ip = false := longestMatches_eq_nil_iff
  cases hm : longestMatches PlannedRoute.covers PlannedRoute.len p.routes ip with
  | nil =>
    have hcov := hnil.mp hm
    simp only [List.mem_singleton, List.not_mem_nil, false_and, exists_false, false_or]
    exact ⟨fun hd => ⟨hcov, hd⟩, fun hd => hd.2⟩
  | cons r rs =>
    have hcov : ¬ ∀ r ∈ p.routes, r.covers ip = false := fun h => by
      rw [hnil.mpr h] at hm
      cases hm
    simp only [hcov, false_and, or_false, List.mem_map]

theorem mem_decisions_congr {p p' : RoutePlan} {ip : IpAddr} {d : Decision}
    (h : ∀ r, r ∈ p.routes ↔ r ∈ p'.routes) : d ∈ p.decisions ip ↔ d ∈ p'.decisions ip := by
  simp only [mem_decisions, mem_longestMatches_congr h, h]

end RoutePlan

/-! ## The policy of the rules -/

structure Rule where
  cidr : Cidr
  dir : SplitMode
  deriving DecidableEq, Repr

namespace Rule

def covers (r : Rule) (ip : IpAddr) : Bool := r.cidr.covers ip

def len (r : Rule) : Nat := r.cidr.prefixLen

end Rule

namespace TunConfig

/-- The rules that count: an exclude needs an original gateway of its family. -/
def countedRules (cfg : TunConfig) (rules : RuleSet × RuleSet) : List Rule :=
  (rules.1.cidrs.map fun c => ⟨Cidr.ofSplit c, .include⟩) ++
    (rules.2.cidrs.map fun c => ⟨Cidr.ofSplit c, .exclude⟩).filter fun r =>
      (RoutePlan.gatewayFor cfg.origGateway cfg.origGateway6 r.cidr.addr).isSome

def longestRules (cfg : TunConfig) (rules : RuleSet × RuleSet) (ip : IpAddr) : List Rule :=
  longestMatches Rule.covers Rule.len (cfg.countedRules rules) ip

/-- What the base mode says of a destination no rule covers. -/
def basePolicy (cfg : TunConfig) : Decision :=
  match cfg.split.baseMode with
  | .exclude => .tunnel
  | .include => .originalDefault

/-- What a rule of this direction says of a destination it covers. -/
def follow (cfg : TunConfig) (dir : SplitMode) (ip : IpAddr) : Decision :=
  match dir with
  | .include => .tunnel
  | .exclude =>
    match RoutePlan.gatewayFor cfg.origGateway cfg.origGateway6 ip with
    | some g => .gateway g
    | none => cfg.basePolicy

/-- The reference policy: the base mode, overridden by the longest rule. -/
def policy (cfg : TunConfig) (rules : RuleSet × RuleSet) (ip : IpAddr) : Decision :=
  match cfg.longestRules rules ip with
  | [] => cfg.basePolicy
  | r :: _ => cfg.follow r.dir ip

/-- The longest rules that cover the destination point in one direction. -/
def Unanimous (cfg : TunConfig) (rules : RuleSet × RuleSet) (ip : IpAddr) : Prop :=
  ∀ r ∈ cfg.longestRules rules ip, ∀ r' ∈ cfg.longestRules rules ip, r.dir = r'.dir

/-- The tunnel carries the family of the destination. -/
def carries (cfg : TunConfig) (ip : IpAddr) : Bool := ip.isIpv4 || cfg.tunAddr6.isSome

/-- All rules, those `effective` would drop included. -/
def allRules (cfg : TunConfig) : RuleSet × RuleSet := (cfg.split.include, cfg.split.exclude)

variable {cfg : TunConfig} {rules : RuleSet × RuleSet} {ip : IpAddr} {p : RoutePlan}

/-- The route a rule becomes. -/
def routeOf (cfg : TunConfig) (r : Rule) : PlannedRoute := ⟨r.cidr, cfg.follow r.dir r.cidr.addr⟩

theorem gatewayFor_congr {gw : IpAddr} {gw6 : Option IpAddr} {a b : IpAddr}
    (h : a.isIpv4 = b.isIpv4) : RoutePlan.gatewayFor gw gw6 a = RoutePlan.gatewayFor gw gw6 b := by
  rw [RoutePlan.gatewayFor, RoutePlan.gatewayFor, h]

/-- A rule says of a destination it covers what it says of its own address. -/
theorem routeOf_decision {r : Rule} (h : r.covers ip = true) :
    (cfg.routeOf r).decision = cfg.follow r.dir ip := by
  have hfam : r.cidr.addr.isIpv4 = ip.isIpv4 := IpAddr.isIpv4_of_covers h
  simp only [routeOf, follow, gatewayFor_congr hfam]

/-- **The routes of a plan** are those of the rules that count, the server's exception and the
override halves. -/
theorem mem_routes (hp : cfg.planFrom rules = .ok p) {r : PlannedRoute} :
    r ∈ p.routes ↔
      r ∈ (cfg.countedRules rules).map cfg.routeOf ++
        (⟨Cidr.host cfg.serverIp, .gateway cfg.origGateway⟩ ::
          (RoutePlan.defaultHalves cfg.split.baseMode cfg.tunAddr6).map fun c => ⟨c, .tunnel⟩) := by
  obtain ⟨-, -, hvia, hexc, hby, -⟩ := RoutePlan.fromSplit_ok hp
  have hbypass : r ∈ p.bypass.map (fun b => (⟨b.dest, .gateway b.gateway⟩ : PlannedRoute)) ↔
      ∃ c ∈ rules.2.cidrs, ∃ g,
        RoutePlan.gatewayFor cfg.origGateway cfg.origGateway6 c.addr = some g ∧
        (⟨Cidr.ofSplit c, .gateway g⟩ : PlannedRoute) = r := by
    simp [hby, Cidr.ofSplit, and_assoc]
  have hexcl : r ∈ ((rules.2.cidrs.map fun c => (⟨Cidr.ofSplit c, .exclude⟩ : Rule)).filter
        fun r => (RoutePlan.gatewayFor cfg.origGateway cfg.origGateway6 r.cidr.addr).isSome).map
        cfg.routeOf ↔
      ∃ c ∈ rules.2.cidrs, ∃ g,
        RoutePlan.gatewayFor cfg.origGateway cfg.origGateway6 c.addr = some g ∧
        (⟨Cidr.ofSplit c, .gateway g⟩ : PlannedRoute) = r := by
    simp only [List.mem_map, List.mem_filter, Option.isSome_iff_exists]
    constructor
    · rintro ⟨-, ⟨⟨c, hc, rfl⟩, g, hg⟩, rfl⟩
      exact ⟨c, hc, g, hg, by simp [routeOf, follow, hg]⟩
    · rintro ⟨c, hc, g, hg, rfl⟩
      have hg' : RoutePlan.gatewayFor cfg.origGateway cfg.origGateway6 (Cidr.ofSplit c).addr =
        some g := hg
      exact ⟨_, ⟨⟨c, hc, rfl⟩, g, hg⟩, by simp [routeOf, follow, hg']⟩
  have hinc : r ∈ (rules.1.cidrs.map fun c => (⟨Cidr.ofSplit c, .include⟩ : Rule)).map
        cfg.routeOf ↔ r ∈ (rules.1.cidrs.map Cidr.ofSplit).map fun c => ⟨c, .tunnel⟩ := by
    simp [routeOf, follow]
  rw [RoutePlan.routes, countedRules, List.map_append, hexc, hvia, List.map_append]
  simp only [List.mem_cons, List.mem_append, hbypass, hexcl, hinc]
  constructor
  · rintro (h | (h | h) | h)
    · exact .inr (.inl h)
    · exact .inr (.inr h)
    · exact .inl (.inl h)
    · exact .inl (.inr h)
  · rintro ((h | h) | h | h)
    · exact .inr (.inl (.inr h))
    · exact .inr (.inr h)
    · exact .inl h
    · exact .inr (.inl (.inl h))

/-- The two halves of a carried family cover every address of it. -/
theorem exists_half_covers {a6 : Option IpAddr} (hc : (ip.isIpv4 || a6.isSome) = true) :
    ∃ c ∈ RoutePlan.defaultHalves .exclude a6, c.covers ip = true := by
  cases ip with
  | v4 b =>
    have hb : b.toNat < 2 ^ 32 := b.isLt
    by_cases h : b.toNat < 2 ^ 31
    · refine ⟨⟨.v4 0, 1⟩, by simp [RoutePlan.defaultHalves], ?_⟩
      simp only [Cidr.covers, IpAddr.covers, IpAddr.isIpv4, IpAddr.width, IpAddr.network]
      simp
      omega
    · refine ⟨⟨.v4 0x80000000, 1⟩, by simp [RoutePlan.defaultHalves], ?_⟩
      simp only [Cidr.covers, IpAddr.covers, IpAddr.isIpv4, IpAddr.width, IpAddr.network]
      simp
      omega
  | v6 b =>
    have h6 : a6.isSome = true := by simpa [IpAddr.isIpv4] using hc
    have hb : b.toNat < 2 ^ 128 := b.isLt
    by_cases h : b.toNat < 2 ^ 127
    · refine ⟨⟨.v6 0, 1⟩, by simp [RoutePlan.defaultHalves, h6], ?_⟩
      simp only [Cidr.covers, IpAddr.covers, IpAddr.isIpv4, IpAddr.width, IpAddr.network]
      simp
      omega
    · refine ⟨⟨.v6 0x80000000000000000000000000000000, 1⟩,
        by simp [RoutePlan.defaultHalves, h6], ?_⟩
      simp only [Cidr.covers, IpAddr.covers, IpAddr.isIpv4, IpAddr.width, IpAddr.network]
      simp
      omega

theorem len_of_mem_defaultHalves {base : SplitMode} {a6 : Option IpAddr} {c : Cidr}
    (h : c ∈ RoutePlan.defaultHalves base a6) : c.prefixLen = 1 := by
  unfold RoutePlan.defaultHalves at h
  split at h
  · split at h
    · simp only [List.mem_append, List.mem_cons, List.not_mem_nil, or_false] at h
      rcases h with (rfl | rfl) | rfl | rfl <;> rfl
    · simp only [List.append_nil, List.mem_cons, List.not_mem_nil, or_false] at h
      rcases h with rfl | rfl <;> rfl
  · cases h

/-- A covering rule decides: the exception and the halves are out of its way. -/
theorem mem_decisions_of_rule (hp : cfg.planFrom rules = .ok p)
    (hlen : ∀ r ∈ cfg.countedRules rules, 2 ≤ r.len) (hs : ip ≠ cfg.serverIp)
    (hr : ∃ r ∈ cfg.countedRules rules, r.covers ip = true) {d : Decision} :
    d ∈ p.decisions ip ↔ ∃ r ∈ cfg.longestRules rules ip, cfg.follow r.dir ip = d := by
  obtain ⟨w, hw, hwc⟩ := hr
  -- only the halves of the other routes can cover the destination, and they are shorter
  have hshort : ∀ r' ∈ (⟨Cidr.host cfg.serverIp, .gateway cfg.origGateway⟩ : PlannedRoute) ::
        (RoutePlan.defaultHalves cfg.split.baseMode cfg.tunAddr6).map (fun c => ⟨c, .tunnel⟩),
      r'.covers ip = true → ∀ r ∈ (cfg.countedRules rules).map cfg.routeOf,
        r.covers ip = true → r'.len < r.len := by
    intro r' hr' hc' r hr _
    obtain ⟨u, hu, rfl⟩ := List.mem_map.mp hr
    have h2 : 2 ≤ (cfg.routeOf u).len := hlen u hu
    rcases List.mem_cons.mp hr' with rfl | hr'
    · exact absurd (Cidr.host_covers_iff.mp hc') hs
    · obtain ⟨c, hc, rfl⟩ := List.mem_map.mp hr'
      have h1 : PlannedRoute.len ⟨c, .tunnel⟩ = 1 := len_of_mem_defaultHalves hc
      omega
  have hsome : ∃ r ∈ (cfg.countedRules rules).map cfg.routeOf, r.covers ip = true :=
    ⟨cfg.routeOf w, List.mem_map_of_mem hw, hwc⟩
  have hlongest : ∀ r, r ∈ longestMatches PlannedRoute.covers PlannedRoute.len p.routes ip ↔
      ∃ u ∈ cfg.longestRules rules ip, cfg.routeOf u = r := by
    intro r
    rw [mem_longestMatches_congr fun r => mem_routes hp, mem_longestMatches_append hshort hsome,
      mem_longestMatches_map]
    rfl
  have hcov : ¬ ∀ r ∈ p.routes, r.covers ip = false := by
    intro h
    have hm := h (cfg.routeOf w)
      ((mem_routes hp).mpr (List.mem_append.mpr (.inl (List.mem_map_of_mem hw))))
    have hw' : (cfg.routeOf w).covers ip = true := hwc
    rw [hw'] at hm
    cases hm
  rw [RoutePlan.mem_decisions]
  simp only [hcov, false_and, or_false, hlongest]
  constructor
  · rintro ⟨r, ⟨u, hu, rfl⟩, rfl⟩
    exact ⟨u, hu, (routeOf_decision (mem_longestMatches.mp hu).2.1).symm⟩
  · rintro ⟨u, hu, rfl⟩
    exact ⟨_, ⟨u, hu, rfl⟩, routeOf_decision (mem_longestMatches.mp hu).2.1⟩

/-- Where no rule covers a destination the base mode decides. -/
theorem mem_decisions_of_no_rule (hp : cfg.planFrom rules = .ok p) (hs : ip ≠ cfg.serverIp)
    (hc : cfg.carries ip = true) (hr : ∀ r ∈ cfg.countedRules rules, r.covers ip = false)
    {d : Decision} : d ∈ p.decisions ip ↔ d = cfg.basePolicy := by
  -- a covering route is one of the halves
  have hhalf : ∀ r ∈ p.routes, r.covers ip = true →
      ∃ c ∈ RoutePlan.defaultHalves cfg.split.baseMode cfg.tunAddr6, r = ⟨c, .tunnel⟩ := by
    intro r hmem hcov
    rcases List.mem_append.mp ((mem_routes hp).mp hmem) with h | h
    · obtain ⟨u, hu, rfl⟩ := List.mem_map.mp h
      have hu' : u.covers ip = true := hcov
      rw [hr u hu] at hu'
      cases hu'
    · rcases List.mem_cons.mp h with rfl | h
      · exact absurd (Cidr.host_covers_iff.mp hcov) hs
      · obtain ⟨c, hc, rfl⟩ := List.mem_map.mp h
        exact ⟨c, hc, rfl⟩
  rw [RoutePlan.mem_decisions]
  cases hb : cfg.split.baseMode with
  | exclude =>
    obtain ⟨c, hmem, hcov⟩ := @exists_half_covers ip cfg.tunAddr6 hc
    rw [hb] at hhalf
    have hroute : (⟨c, .tunnel⟩ : PlannedRoute) ∈ p.routes := by
      refine (mem_routes hp).mpr (List.mem_append.mpr (.inr (List.mem_cons_of_mem _ ?_)))
      rw [hb]
      exact List.mem_map_of_mem hmem
    have hcovers : PlannedRoute.covers ⟨c, .tunnel⟩ ip = true := hcov
    have hbase : cfg.basePolicy = .tunnel := by simp [basePolicy, hb]
    rw [hbase]
    constructor
    · rintro (⟨r, hr', rfl⟩ | ⟨hnone, -⟩)
      · obtain ⟨hm, hcv, -⟩ := mem_longestMatches.mp hr'
        obtain ⟨c', -, rfl⟩ := hhalf r hm hcv
        rfl
      · rw [hnone _ hroute] at hcovers
        cases hcovers
    · rintro rfl
      obtain ⟨r, hr'⟩ : ∃ r, r ∈ longestMatches PlannedRoute.covers PlannedRoute.len p.routes ip :=
        exists_mem_longestMatches hroute hcovers
      obtain ⟨hm, hcv, -⟩ := mem_longestMatches.mp hr'
      obtain ⟨c', -, rfl⟩ := hhalf r hm hcv
      exact .inl ⟨_, hr', rfl⟩
  | «include» =>
    have hbase : cfg.basePolicy = .originalDefault := by simp [basePolicy, hb]
    have hnone : ∀ r ∈ p.routes, r.covers ip = false := by
      intro r hm
      by_contra hcv
      obtain ⟨c', hc', -⟩ := hhalf r hm (by simpa using hcv)
      rw [hb] at hc'
      cases hc'
    rw [hbase]
    constructor
    · rintro (⟨r, hr', -⟩ | ⟨-, hd⟩)
      · obtain ⟨hm, hcv, -⟩ := mem_longestMatches.mp hr'
        rw [hnone r hm] at hcv
        cases hcv
      · exact hd
    · exact fun hd => .inr ⟨hnone, hd⟩

/-- **The routes of a plan decide as the rules they were planned from say.** -/
theorem mem_decisions_iff_policy (hp : cfg.planFrom rules = .ok p)
    (hlen : ∀ r ∈ cfg.countedRules rules, 2 ≤ r.len) (hs : ip ≠ cfg.serverIp)
    (hc : cfg.carries ip = true) (hu : cfg.Unanimous rules ip) {d : Decision} :
    d ∈ p.decisions ip ↔ d = cfg.policy rules ip := by
  by_cases hr : ∃ r ∈ cfg.countedRules rules, r.covers ip = true
  · rw [mem_decisions_of_rule hp hlen hs hr]
    obtain ⟨w, hw, hwc⟩ := hr
    obtain ⟨m, hm⟩ : ∃ m, m ∈ cfg.longestRules rules ip := exists_mem_longestMatches hw hwc
    cases hl : cfg.longestRules rules ip with
    | nil =>
      rw [hl] at hm
      cases hm
    | cons r rs =>
      have hpol : cfg.policy rules ip = cfg.follow r.dir ip := by rw [policy, hl]
      have hhead : r ∈ cfg.longestRules rules ip := by rw [hl]; exact List.mem_cons_self
      rw [hpol]
      constructor
      · rintro ⟨u, hu', rfl⟩
        rw [hu u (hl ▸ hu') r hhead]
      · rintro rfl
        exact ⟨r, List.mem_cons_self, rfl⟩
  · have hnone : ∀ r ∈ cfg.countedRules rules, r.covers ip = false := by
      intro r hmem
      by_contra h
      exact hr ⟨r, hmem, by simpa using h⟩
    have hl : cfg.longestRules rules ip = [] := longestMatches_eq_nil_iff.mpr hnone
    rw [mem_decisions_of_no_rule hp hs hc hnone, policy, hl]

/-! ## The rules that are dropped -/

/-- Include rules alone can only send a packet into the tunnel. -/
theorem policy_of_no_exclude (h : rules.2.cidrs = []) :
    cfg.policy rules ip = cfg.basePolicy ∨ cfg.policy rules ip = .tunnel := by
  unfold policy
  cases hl : cfg.longestRules rules ip with
  | nil => exact .inl rfl
  | cons r rs =>
    have hr : r ∈ cfg.longestRules rules ip := by rw [hl]; exact List.mem_cons_self
    have hmem := (mem_longestMatches.mp hr).1
    simp only [countedRules, h, List.map_nil, List.filter_nil, List.append_nil, List.mem_map] at hmem
    obtain ⟨c, -, rfl⟩ := hmem
    exact .inr rfl

/-- Exclude rules alone never send a packet into the tunnel, unless the base mode does. -/
theorem policy_of_no_include (h : rules.1.cidrs = []) (hb : cfg.split.baseMode = .include) :
    cfg.policy rules ip ≠ .tunnel := by
  have hbase : cfg.basePolicy = .originalDefault := by simp [basePolicy, hb]
  unfold policy
  cases hl : cfg.longestRules rules ip with
  | nil => simp [hbase]
  | cons r rs =>
    have hr : r ∈ cfg.longestRules rules ip := by rw [hl]; exact List.mem_cons_self
    have hmem := (mem_longestMatches.mp hr).1
    simp only [countedRules, h, List.map_nil, List.nil_append, List.mem_filter, List.mem_map] at hmem
    obtain ⟨⟨c, -, rfl⟩, -⟩ := hmem
    simp only [follow]
    split
    · simp
    · simp [hbase]

theorem cidrs_eq_nil_of_isEmpty {r : RuleSet} (h : r.isEmpty = true) : r.cidrs = [] := by
  simp only [RuleSet.isEmpty, Bool.and_eq_true, List.isEmpty_iff] at h
  exact h.1

@[simp] theorem longestRules_empty : cfg.longestRules ({}, {}) ip = [] := by
  simp [longestRules, countedRules, longestMatches]

/-- What the reduction leaves is everything, or nothing that mattered. -/
theorem policy_effective (cfg : TunConfig) (ip : IpAddr) :
    (cfg.policy cfg.split.effective ip = cfg.policy cfg.allRules ip ∧
      ¬ (cfg.split.baseMode = .include ∧ cfg.split.include.isEmpty = true)) ∨
    (cfg.policy cfg.split.effective ip = .originalDefault ∧
      cfg.policy cfg.allRules ip ≠ .tunnel ∧
      cfg.split.baseMode = .include ∧ cfg.split.include.isEmpty = true) := by
  have hempty : cfg.policy ({}, {}) ip = cfg.basePolicy := by simp [policy]
  cases hb : cfg.split.baseMode with
  | exclude =>
    refine .inl ⟨?_, by simp⟩
    by_cases he : cfg.split.exclude.isEmpty = true
    · have hbase : cfg.basePolicy = .tunnel := by simp [basePolicy, hb]
      have hpol : cfg.policy cfg.allRules ip = .tunnel := by
        have hcases : cfg.policy cfg.allRules ip = cfg.basePolicy ∨
            cfg.policy cfg.allRules ip = .tunnel :=
          policy_of_no_exclude (cidrs_eq_nil_of_isEmpty he)
        rcases hcases with h | h
        · rw [h, hbase]
        · exact h
      rw [SplitPlan.effective, hb, if_pos he, hempty, hbase, hpol]
    · rw [SplitPlan.effective, hb, if_neg he]
      rfl
  | «include» =>
    by_cases hi : cfg.split.include.isEmpty = true
    · have hbase : cfg.basePolicy = .originalDefault := by simp [basePolicy, hb]
      refine .inr ⟨?_, policy_of_no_include (cidrs_eq_nil_of_isEmpty hi) hb, rfl, hi⟩
      rw [SplitPlan.effective, hb, if_pos hi, hempty, hbase]
    · refine .inl ⟨?_, by simp [hi]⟩
      rw [SplitPlan.effective, hb, if_neg hi]
      rfl

/-- The reduction drops both directions or neither. -/
theorem effective_cases (p : SplitPlan) :
    p.effective = ({}, {}) ∨ p.effective = (p.include, p.exclude) := by
  unfold SplitPlan.effective
  split <;> split <;> simp

/-- The session's configuration with other rules. -/
def withSplit (cfg : TunConfig) (split : SplitPlan) : TunConfig := { cfg with split }

/-- Plans from the same rules in another order decide alike. -/
theorem mem_decisions_perm {split' : SplitPlan} {rules' : RuleSet × RuleSet} {p' : RoutePlan}
    (hp : cfg.planFrom rules = .ok p) (hp' : (cfg.withSplit split').planFrom rules' = .ok p')
    (hb : split'.baseMode = cfg.split.baseMode) (h1 : rules'.1.Equiv rules.1)
    (h2 : rules'.2.Equiv rules.2) {d : Decision} : d ∈ p'.decisions ip ↔ d ∈ p.decisions ip := by
  refine RoutePlan.mem_decisions_congr fun r => ?_
  rw [mem_routes hp, mem_routes hp']
  have hroute : (cfg.withSplit split').routeOf = cfg.routeOf := by
    funext u
    simp only [routeOf, follow, basePolicy, withSplit, hb]
  have hcount : ∀ u, u ∈ (cfg.withSplit split').countedRules rules' ↔ u ∈ cfg.countedRules rules := by
    intro u
    simp only [countedRules, withSplit, List.mem_append, List.mem_map, List.mem_filter, h1.1, h2.1]
  simp only [List.mem_append, List.mem_map, hroute, hcount]
  simp only [withSplit, hb]

theorem effective_equiv {s s' : SplitPlan} (hb : s'.baseMode = s.baseMode)
    (hi : s'.include.Equiv s.include) (he : s'.exclude.Equiv s.exclude) :
    s'.effective.1.Equiv s.effective.1 ∧ s'.effective.2.Equiv s.effective.2 := by
  unfold SplitPlan.effective
  rw [hb, hi.isEmpty, he.isEmpty]
  split <;> split <;> simp [RuleSet.Equiv, hi.1, hi.2, he.1, he.2]

/-- Planning fails only on a server and a gateway of different families. -/
theorem planFrom_isOk (hfam : cfg.serverIp.isIpv4 = cfg.origGateway.isIpv4) :
    ∃ p, cfg.planFrom rules = .ok p := by
  simp [planFrom, RoutePlan.fromSplit, hfam]

/-- Rules of at least two bits stay so in the merged plan. -/
theorem two_le_len {manual : SplitTunnel} {subs : List (SplitMode × RuleSet)}
    (hman : ∀ c ∈ manual.cidrs, 2 ≤ c.prefixLen)
    (hsubs : ∀ s ∈ subs, ∀ c ∈ s.2.cidrs, 2 ≤ c.prefixLen)
    (dir : SplitMode) {c : SplitCidr}
    (hc : c ∈ ((SplitPlan.ofSubscriptions manual subs).rules dir).cidrs) : 2 ≤ c.prefixLen := by
  rw [SplitPlan.ofSubscriptions, ((SplitPlan.foldl_merge_rules subs _).2 dir).1 c] at hc
  rcases hc with hc | ⟨s, hs, -, hc⟩
  · refine hman c ?_
    unfold SplitPlan.fromManual at hc
    cases hm : manual.mode <;> rw [hm] at hc <;> cases dir <;>
      simp [SplitPlan.rules] at hc <;> exact hc
  · exact hsubs s hs c hc

/-- **Split-tunnel semantics.** Of a destination other than the server, of a carried family and
with unanimous longest rules, the planned routes decide what the policy says. The reduction
changes nothing, except under an include base without include rules: there the session has no
rule routes at all, every destination keeps the original default, and the policy does not send
it into the tunnel either. The order of the subscriptions plays no part. -/
theorem split_decision (cfg : TunConfig) (manual : SplitTunnel)
    (subs : List (SplitMode × RuleSet)) (ip : IpAddr)
    (hsplit : cfg.split = SplitPlan.ofSubscriptions manual subs)
    (hfam : cfg.serverIp.isIpv4 = cfg.origGateway.isIpv4)
    (hman : ∀ c ∈ manual.cidrs, 2 ≤ c.prefixLen)
    (hsubs : ∀ s ∈ subs, ∀ c ∈ s.2.cidrs, 2 ≤ c.prefixLen)
    (hs : ip ≠ cfg.serverIp) (hc : cfg.carries ip = true)
    (hu : cfg.Unanimous cfg.allRules ip) :
    ∃ p q, cfg.plan = .ok p ∧ cfg.planFrom cfg.allRules = .ok q ∧
      (∀ d, d ∈ q.decisions ip ↔ d = cfg.policy cfg.allRules ip) ∧
      (if manual.mode = .include ∧ cfg.split.include.isEmpty = true then
        (∀ d, d ∈ p.decisions ip ↔ d = .originalDefault) ∧ cfg.policy cfg.allRules ip ≠ .tunnel
      else ∀ d, d ∈ p.decisions ip ↔ d = cfg.policy cfg.allRules ip) ∧
      ∀ subs', subs.Perm subs' →
        ∃ p', (cfg.withSplit (SplitPlan.ofSubscriptions manual subs')).plan = .ok p' ∧
          ∀ d, d ∈ p'.decisions ip ↔ d ∈ p.decisions ip := by
  obtain ⟨p, hp⟩ : ∃ p, cfg.plan = .ok p := planFrom_isOk hfam
  obtain ⟨q, hq⟩ : ∃ q, cfg.planFrom cfg.allRules = .ok q := planFrom_isOk hfam
  have hbase : cfg.split.baseMode = manual.mode := by
    rw [hsplit, SplitPlan.ofSubscriptions, (SplitPlan.foldl_merge_rules subs _).1,
      SplitPlan.fromManual_baseMode]
  have hlen : ∀ r ∈ cfg.countedRules cfg.allRules, 2 ≤ r.len := by
    intro r hr
    simp only [countedRules, allRules, List.mem_append, List.mem_map, List.mem_filter, hsplit] at hr
    rcases hr with ⟨c, hc, rfl⟩ | ⟨⟨c, hc, rfl⟩, -⟩
    · exact two_le_len hman hsubs .include hc
    · exact two_le_len hman hsubs .exclude hc
  -- what holds of all rules holds of those the reduction leaves
  have hlen' : ∀ r ∈ cfg.countedRules cfg.split.effective, 2 ≤ r.len := by
    rcases effective_cases cfg.split with h | h
    · simp [h, countedRules]
    · rw [h]
      exact hlen
  have hu' : cfg.Unanimous cfg.split.effective ip := by
    rcases effective_cases cfg.split with h | h
    · simp [h, Unanimous]
    · rw [h]
      exact hu
  have hred : ∀ d, d ∈ p.decisions ip ↔ d = cfg.policy cfg.split.effective ip := fun d =>
    mem_decisions_iff_policy hp hlen' hs hc hu'
  refine ⟨p, q, hp, hq, fun d => mem_decisions_iff_policy hq hlen hs hc hu, ?_, ?_⟩
  · rcases policy_effective cfg ip with ⟨heq, hnot⟩ | ⟨heq, hne, hi, hempty⟩
    · rw [if_neg (by rwa [← hbase])]
      rw [heq] at hred
      exact hred
    · rw [if_pos ⟨hbase ▸ hi, hempty⟩]
      rw [heq] at hred
      exact ⟨hred, hne⟩
  · intro subs' hperm
    obtain ⟨p', hp'⟩ : ∃ p', (cfg.withSplit (SplitPlan.ofSubscriptions manual subs')).plan = .ok p' :=
      planFrom_isOk hfam
    obtain ⟨hb, hrules⟩ := SplitPlan.ofSubscriptions_perm manual hperm.symm
    rw [← hsplit] at hb hrules
    obtain ⟨h1, h2⟩ := effective_equiv hb (hrules .include) (hrules .exclude)
    exact ⟨p', hp', fun d => mem_decisions_perm hp hp' hb h1 h2⟩

/-- An include base with one rule, a subscription that excludes `10.0.0.0/8`. -/
def excludesOnly : TunConfig where
  split := SplitPlan.ofSubscriptions ⟨.include, [], []⟩
    [(.exclude, { cidrs := [⟨.v4 0x0a000000, 8⟩] })]
  serverIp := .v4 0xcb007107
  origGateway := .v4 0xc0a80101
  origGateway6 := none
  tunAddr := .v4 0x0a470002
  tunAddr6 := none

/-- **Reduced and unreduced routes differ under an include base.** `10.1.2.3` keeps the original
default; the policy and the unreduced routes say the original gateway. -/
theorem excludesOnly_keeps_default :
    excludesOnly.Unanimous excludesOnly.allRules (.v4 0x0a010203) ∧
    excludesOnly.carries (.v4 0x0a010203) = true ∧
    ∃ p q, excludesOnly.plan = .ok p ∧ excludesOnly.planFrom excludesOnly.allRules = .ok q ∧
      p.decisions (.v4 0x0a010203) = [.originalDefault] ∧
      q.decisions (.v4 0x0a010203) = [.gateway (.v4 0xc0a80101)] ∧
      excludesOnly.policy excludesOnly.allRules (.v4 0x0a010203) = .gateway (.v4 0xc0a80101) := by
  refine ⟨by unfold Unanimous; decide, by decide, _, _, rfl, rfl, by decide, by decide, by decide⟩

theorem split_decision_excludesOnly :
    ∃ p, excludesOnly.plan = .ok p ∧
      ∀ d, d ∈ p.decisions (.v4 0x0a010203) ↔ d = .originalDefault := by
  obtain ⟨p, q, hp, -, -, hred, -⟩ := split_decision excludesOnly ⟨.include, [], []⟩
    [(.exclude, { cidrs := [⟨.v4 0x0a000000, 8⟩] })] (.v4 0x0a010203) rfl (by decide)
    (by simp) (by simp) (by decide) (by decide) (by unfold Unanimous; decide)
  rw [if_pos (by decide)] at hred
  exact ⟨p, hp, hred.1⟩

end TunConfig

end Leshiy.Tun
