import Leshiy.Tun.Linux
import Leshiy.Tun.SplitPolicy

/-!
# What the Linux backend makes of a plan

`build_route_batch` (`leshiy-tun/src/sys/linux.rs`) turns a plan into lines for `ip -batch`. The override halves
are taken out of the list of routes and become one default in a private table, which two policy rules select; a
line that the kernel refuses is passed over.

The kernel refuses a route for a prefix its table holds, and an IPv4 route whose address has bits below its
prefix. Where the batch starts from the original default routes alone, what the kernel decides afterwards is a
longest-prefix match again: over the routes it took, in their order, each half standing for its whole family.
-/

namespace Leshiy.Tun

open Leshiy.Lib Leshiy.Client

/-! ## The batch, line by line -/

namespace Cidr

/-- The address has bits below the prefix. -/
def hasHostBits (c : Cidr) : Bool :=
  match c.addr with
  | .v4 b => b.toNat % 2 ^ (32 - c.prefixLen) != 0
  | .v6 b => b.toNat % 2 ^ (128 - c.prefixLen) != 0

/-- The kernel takes no IPv4 route with such bits. -/
def refused (c : Cidr) : Bool := c.addr.isIpv4 && c.hasHostBits

end Cidr

def IpCommand.refused : IpCommand → Bool
  | .routeAdd r _ => r.dest.refused
  | _ => false

/-- `ip -force -batch` -/
def forceBatch (k : Kernel) (script : List IpCommand) : Kernel :=
  ipBatch k (script.filter fun cmd => !cmd.refused)

/-- A host whose main table holds the original default routes only. -/
def Kernel.before (originals : Table) : Kernel := ⟨originals, [], [mainRule], [mainRule]⟩

/-- The kernel after the batch of a plan. -/
def RoutePlan.installed (p : RoutePlan) (tunName : String) (carryV6 : Bool) (originals : Table) : Kernel :=
  let batch := buildRouteBatch p tunName carryV6
  forceBatch (forceBatch (.before originals) batch.preclean) batch.install

/-- What a selected route says. -/
def Route.decision (originals : Table) (r : Route) : Decision :=
  if r ∈ originals then .originalDefault
  else
    match r.target with
    | .dev _ => .tunnel
    | .via g => .gateway g

def Kernel.decisions (k : Kernel) (originals : Table) (ip : IpAddr) : List Decision :=
  match k.select ip with
  | [] => [.originalDefault]
  | r :: rs => (r :: rs).map (Route.decision originals)

namespace PlannedRoute

/-- One of the halves that `is_default_override` recognises in `via_tun`. -/
def half (r : PlannedRoute) : Bool := r.decision == .tunnel && r.dest.isDefaultOverride

/-- A half, or a route of some length that the kernel takes. -/
def stands (r : PlannedRoute) : Bool := r.half || (!r.dest.refused && decide (0 < r.len))

/-- The route that the line of the batch asks for. -/
def route (tunName : String) (r : PlannedRoute) : Route :=
  ⟨r.dest, match r.decision with
    | .gateway g => .via g
    | _ => .dev tunName⟩

end PlannedRoute

namespace RoutePlan

/-- The routes of the plan that the batch asks the main table for. -/
def lines (p : RoutePlan) (carryV6 : Bool) : List PlannedRoute :=
  p.routes.filter fun r => !r.half && (r.dest.addr.isIpv4 || carryV6)

/-- A half of this family is among the routes. -/
def overrides (p : RoutePlan) (ipv4 : Bool) : Bool := p.routes.any fun r => r.half && r.dest.addr.isIpv4 == ipv4

/-- A route to a gateway is no half. -/
@[simp] theorem half_gateway {c : Cidr} {g : IpAddr} : PlannedRoute.half ⟨c, .gateway g⟩ = false := rfl

@[simp] theorem half_tunnel {c : Cidr} : PlannedRoute.half ⟨c, .tunnel⟩ = c.isDefaultOverride := rfl

theorem overrides_eq (p : RoutePlan) (ipv4 : Bool) :
    p.overrides ipv4 = p.viaTun.any fun c => c.isDefaultOverride && c.addr.isIpv4 == ipv4 := by
  simp [overrides, routes, List.any_append, List.any_map, Function.comp_def]

theorem lines_eq (p : RoutePlan) (carryV6 : Bool) :
    p.lines carryV6 =
      (if p.serverException.dest.addr.isIpv4 || carryV6 then
        [⟨p.serverException.dest, .gateway p.serverException.gateway⟩] else []) ++
      ((p.viaTun.filter fun c => !c.isDefaultOverride && (c.addr.isIpv4 || carryV6)).map (⟨·, .tunnel⟩) ++
        (p.bypass.filter fun b => b.dest.addr.isIpv4 || carryV6).map fun b => ⟨b.dest, .gateway b.gateway⟩) := by
  rw [lines, routes, List.filter_cons, List.filter_append, List.filter_map, List.filter_map]
  simp only [half_gateway, half_tunnel, Function.comp_def, Bool.not_false, Bool.true_and]
  split <;> rfl

/-- The conditions of the two policies, as the batch writes them. -/
theorem override_conditions (p : RoutePlan) (carryV6 : Bool) :
    (p.viaTun.any fun c => c.isDefaultOverride && c.addr.isIpv4) = p.overrides true ∧
      (p.viaTun.any fun c => c.isDefaultOverride && c.addr.isIpv6 && carryV6) = (p.overrides false && carryV6) := by
  constructor
  · simp [overrides_eq]
  · rw [overrides_eq]
    cases carryV6 <;> simp [IpAddr.isIpv6]

/-- **The batch of a plan**: a line for each of its routes in their order, then the policies. -/
theorem install_eq (p : RoutePlan) (tunName : String) (carryV6 : Bool) :
    (buildRouteBatch p tunName carryV6).install =
      (p.lines carryV6).map (fun r => .routeAdd (r.route tunName) .main) ++
        ((policyLines tunName false (p.overrides true)).2.1 ++
          (policyLines tunName true (p.overrides false && carryV6)).2.1) := by
  obtain ⟨hv4, hv6⟩ := p.override_conditions carryV6
  rw [← hv4, ← hv6, lines_eq, ← List.append_assoc, List.map_append, List.map_append, List.map_map, List.map_map]
  simp only [buildRouteBatch, policyLines, List.append_assoc]
  split <;> rfl

/-- The lines before it and those of the teardown are the policies'. -/
theorem preclean_eq (p : RoutePlan) (tunName : String) (carryV6 : Bool) :
    (buildRouteBatch p tunName carryV6).preclean =
        (policyLines tunName false (p.overrides true)).1 ++
          (policyLines tunName true (p.overrides false && carryV6)).1 ∧
      (buildRouteBatch p tunName carryV6).teardownRules =
        (policyLines tunName false (p.overrides true)).2.2 ++
          (policyLines tunName true (p.overrides false && carryV6)).2.2 := by
  obtain ⟨hv4, hv6⟩ := p.override_conditions carryV6
  rw [← hv4, ← hv6]
  exact ⟨rfl, rfl⟩

end RoutePlan

/-! ## A table that routes are added to -/

theorem IpAddr.width_congr {a b : IpAddr} (h : a.isIpv4 = b.isIpv4) : a.width = b.width := by
  cases a <;> cases b <;> simp [IpAddr.isIpv4, IpAddr.width] at h ⊢

namespace Cidr

variable {c c' : Cidr} {ip : IpAddr}

theorem samePrefix_comm : c.samePrefix c' = c'.samePrefix c := by
  rw [Bool.eq_iff_iff]
  simp only [samePrefix, Bool.and_eq_true, beq_iff_eq]
  constructor
  · rintro ⟨⟨hfam, hlen⟩, hnet⟩
    exact ⟨⟨hfam.symm, hlen.symm⟩, hnet.symm⟩
  · rintro ⟨⟨hfam, hlen⟩, hnet⟩
    exact ⟨⟨hfam.symm, hlen.symm⟩, hnet.symm⟩

/-- What one prefix covers. -/
theorem covers_congr (h : c.samePrefix c' = true) : c.covers ip = c'.covers ip := by
  simp only [samePrefix, Bool.and_eq_true, beq_iff_eq] at h
  obtain ⟨⟨hfam, hlen⟩, hnet⟩ := h
  rw [← hlen] at hnet
  simp only [covers, IpAddr.covers, hfam, ← hlen, hnet, IpAddr.width_congr hfam]

theorem prefixLen_congr (h : c.samePrefix c' = true) : c.prefixLen = c'.prefixLen := by
  simp only [samePrefix, Bool.and_eq_true, beq_iff_eq] at h
  exact h.1.2

/-- Two prefixes of one length that cover an address are the same. -/
theorem samePrefix_of_covers (h : c.covers ip = true) (h' : c'.covers ip = true) (hlen : c.prefixLen = c'.prefixLen) :
    c.samePrefix c' = true := by
  simp only [covers, IpAddr.covers, Bool.and_eq_true, beq_iff_eq] at h h'
  simp only [samePrefix, Bool.and_eq_true, beq_iff_eq]
  rw [← hlen] at h' ⊢
  exact ⟨⟨h.1.1.trans h'.1.1.symm, rfl⟩, h.2.trans h'.2.symm⟩

end Cidr

namespace Table

variable {t : Table} {r : Route} {rs : List Route} {ip : IpAddr}

/-- One route after the other; one that is refused is passed over. -/
def addAll (t : Table) (rs : List Route) : Table := rs.foldl (fun t r => (t.add r).getD t) t

@[simp] theorem addAll_nil : t.addAll [] = t := rfl

theorem addAll_cons : t.addAll (r :: rs) = ((t.add r).getD t).addAll rs := rfl

theorem add_of_new (hlen : r.dest.prefixLen ≤ r.dest.addr.width) (hnew : ∀ r' ∈ t, r'.dest.samePrefix r.dest = false) :
    t.add r = some (t ++ [r]) := by
  unfold add
  rw [if_pos]
  exact ⟨hlen, List.all_eq_true.mpr fun r' hr' => by simp [hnew r' hr']⟩

theorem add_of_present {r' : Route} (hr' : r' ∈ t) (hsame : r'.dest.samePrefix r.dest = true) : t.add r = none := by
  unfold add
  rw [if_neg]
  rintro ⟨-, hall⟩
  simpa [hsame] using List.all_eq_true.mp hall r' hr'

/-- What is added was asked for, and its prefix was not there. -/
theorem mem_addAll (h : r ∈ t.addAll rs) :
    r ∈ t ∨ (r ∈ rs ∧ ∀ r' ∈ t, r'.dest.samePrefix r.dest = false) := by
  induction rs generalizing t with
  | nil => exact .inl h
  | cons r₁ rs ih =>
    rw [addAll_cons] at h
    cases hadd : t.add r₁ with
    | none =>
      rw [hadd] at h
      exact (ih h).imp_right fun ⟨hmem, hnew⟩ => ⟨List.mem_cons_of_mem _ hmem, hnew⟩
    | some t' =>
      obtain ⟨rfl, hnew₁⟩ := mem_of_add hadd
      rw [hadd, Option.getD_some] at h
      rcases ih h with hmem | ⟨hmem, hnew⟩
      · rcases List.mem_append.mp hmem with hmem | hmem
        · exact .inl hmem
        · rw [List.mem_singleton] at hmem
          subst hmem
          exact .inr ⟨List.mem_cons_self, hnew₁⟩
      · exact .inr ⟨List.mem_cons_of_mem _ hmem, fun r' hr' => hnew r' (List.mem_append.mpr (.inl hr'))⟩

/-- The routes of a length that cover an address. -/
def atLen (ip : IpAddr) (n : Nat) (r : Route) : Bool := r.covers ip && r.len == n

theorem atLen_iff {n : Nat} : atLen ip n r = true ↔ r.covers ip = true ∧ r.len = n := by
  simp [atLen]

/-- **The first route for a prefix stays**: of the routes of one length that cover an address, the table takes the
first one, unless it has such a route. -/
theorem filter_addAll {n : Nat} (hlen : ∀ r ∈ rs, r.dest.prefixLen ≤ r.dest.addr.width) :
    (t.addAll rs).filter (atLen ip n) =
      if t.filter (atLen ip n) = [] then (rs.filter (atLen ip n)).take 1 else t.filter (atLen ip n) := by
  induction rs generalizing t with
  | nil =>
    split
    · next h => simpa using h
    · rfl
  | cons r rs ih =>
    have hrs : ∀ r ∈ rs, r.dest.prefixLen ≤ r.dest.addr.width := fun r' hr' => hlen r' (List.mem_cons_of_mem _ hr')
    rw [addAll_cons, ih hrs]
    cases hr : atLen ip n r with
    | false =>
      -- the route is none of them, whether it is added or not
      have hkeep : ((t.add r).getD t).filter (atLen ip n) = t.filter (atLen ip n) := by
        cases hadd : t.add r with
        | none => rfl
        | some t' =>
          rw [(mem_of_add hadd).1]
          simp [hr]
      rw [hkeep, List.filter_cons_of_neg (by simp [hr])]
    | true =>
      obtain ⟨hcov, hn⟩ := atLen_iff.mp hr
      by_cases hempty : t.filter (atLen ip n) = []
      · have hnew : ∀ r' ∈ t, r'.dest.samePrefix r.dest = false := by
          intro r' hr'
          by_contra hsame
          rw [Bool.not_eq_false] at hsame
          have hat : atLen ip n r' = true :=
            atLen_iff.mpr ⟨(Cidr.covers_congr hsame).trans hcov, (Cidr.prefixLen_congr hsame).trans hn⟩
          rw [List.filter_eq_nil_iff] at hempty
          exact hempty r' hr' hat
        rw [add_of_new (hlen r List.mem_cons_self) hnew, Option.getD_some]
        simp [hempty, hr]
      · obtain ⟨r', hr', hat⟩ : ∃ r' ∈ t, atLen ip n r' = true := by
          simpa [List.filter_eq_nil_iff] using hempty
        obtain ⟨hcov', hn'⟩ := atLen_iff.mp hat
        rw [add_of_present hr' (Cidr.samePrefix_of_covers hcov' hcov (hn'.trans hn.symm)), Option.getD_none,
          if_neg hempty, if_neg hempty]

/-- The routes whose prefix the table does not hold. -/
def fresh (t : Table) (rs : List Route) : List Route := rs.filter fun r => t.all fun r' => !r'.dest.samePrefix r.dest

theorem mem_fresh : r ∈ t.fresh rs ↔ r ∈ rs ∧ ∀ r' ∈ t, r'.dest.samePrefix r.dest = false := by
  simp [fresh, List.mem_filter]

/-- **The longest match after the additions** is the first longest of the routes that were not there, over a table
of default routes. -/
theorem longest_addAll {rest : List Route} (hlen : ∀ r ∈ rs, r.dest.prefixLen ≤ r.dest.addr.width)
    (ht : ∀ r ∈ t, r.len = 0) (h : longestMatches Route.covers Route.len (t.fresh rs) ip = r :: rest) :
    longestMatches Route.covers Route.len (t.addAll rs) ip = [r] := by
  have hr : r ∈ longestMatches Route.covers Route.len (t.fresh rs) ip := by rw [h]; exact List.mem_cons_self
  obtain ⟨hfresh, hcov, hmax⟩ := mem_longestMatches.mp hr
  -- a route of the table covers the address with another length
  have hother : ∀ r' ∈ t, atLen ip r.len r' = false := by
    intro r' hr'
    by_contra hat
    obtain ⟨hcov', hn'⟩ := atLen_iff.mp (by simpa using hat)
    have hsame := Cidr.samePrefix_of_covers hcov' hcov hn'
    rw [(mem_fresh.mp hfresh).2 r' hr'] at hsame
    cases hsame
  have htable : t.filter (atLen ip r.len) = [] := by
    rw [List.filter_eq_nil_iff]
    exact fun r' hr' => by simp [hother r' hr']
  have hasked : rs.filter (atLen ip r.len) = r :: rest := by
    rw [← h, longestMatches_eq_filter hfresh hcov rfl hmax, fresh, List.filter_filter]
    refine List.filter_congr fun r' _ => ?_
    cases hat : atLen ip r.len r' with
    | false =>
      have hat' : (r'.covers ip && r'.len == r.len) = false := hat
      rw [hat', Bool.false_and]
    | true =>
      have hat' : (r'.covers ip && r'.len == r.len) = true := hat
      obtain ⟨hcov', hn'⟩ := atLen_iff.mp hat
      rw [hat', Bool.true_and, eq_comm, List.all_eq_true]
      intro r'' hr''
      have hsame := (mem_fresh.mp hfresh).2 r'' hr''
      rw [Bool.not_eq_true']
      by_contra hpresent
      rw [Bool.not_eq_false] at hpresent
      have hback : r''.dest.samePrefix r.dest = true := Cidr.samePrefix_of_covers
        ((Cidr.covers_congr hpresent).trans hcov') hcov ((Cidr.prefixLen_congr hpresent).trans hn')
      rw [hsame] at hback
      cases hback
  have hfilter : (t.addAll rs).filter (atLen ip r.len) = [r] := by
    rw [filter_addAll hlen, if_pos htable, hasked]
    rfl
  have hadded : r ∈ t.addAll rs :=
    List.mem_of_mem_filter (by rw [hfilter]; exact List.mem_singleton_self r : r ∈ (t.addAll rs).filter (atLen ip r.len))
  rw [← hfilter]
  refine longestMatches_eq_filter hadded hcov rfl fun r' hr' hcov' => ?_
  rcases mem_addAll hr' with hr' | ⟨hr', hnew⟩
  · rw [ht r' hr']
    exact Nat.zero_le _
  · exact hmax r' (mem_fresh.mpr ⟨hr', hnew⟩) hcov'

/-- Where none of them covers the address, the routes of before are what is found. -/
theorem longest_addAll_nil (h : longestMatches Route.covers Route.len (t.fresh rs) ip = []) :
    ∀ r ∈ longestMatches Route.covers Route.len (t.addAll rs) ip, r ∈ t := by
  intro r hr
  obtain ⟨hmem, hcov, -⟩ := mem_longestMatches.mp hr
  rcases mem_addAll hmem with hmem | ⟨hmem, hnew⟩
  · exact hmem
  · have hnone : Route.covers r ip = false := longestMatches_eq_nil_iff.mp h r (mem_fresh.mpr ⟨hmem, hnew⟩)
    rw [hnone] at hcov
    cases hcov

end Table

/-! ## The kernel after the batch -/

theorem ipBatch_routeAdd (k : Kernel) (rs : List Route) :
    ipBatch k (rs.map (.routeAdd · .main)) = { k with main := k.main.addAll rs } := by
  induction rs generalizing k with
  | nil => rfl
  | cons r rs ih =>
    rw [List.map_cons, ipBatch_cons, ih]
    rfl

/-- The private table, and the rules of a family. -/
def policyRoutes (tunName : String) (v4 v6 : Bool) : Table :=
  (if v4 then [⟨⟨.v4 0, 0⟩, .dev tunName⟩] else []) ++ if v6 then [⟨⟨.v6 0, 0⟩, .dev tunName⟩] else []

def policyRules (override : Bool) : List IpRule :=
  if override then [suppressRule, tunRule, mainRule] else [mainRule]

theorem ipBatch_policies (tunName : String) (main : Table) (v4 v6 : Bool) :
    ipBatch ⟨main, [], [mainRule], [mainRule]⟩
        ((policyLines tunName false v4).2.1 ++ (policyLines tunName true v6).2.1) =
      ⟨main, policyRoutes tunName v4 v6, policyRules v4, policyRules v6⟩ := by
  cases v4 <;> cases v6 <;> rfl

theorem policyLines_taken (tunName : String) (fam6 override : Bool) :
    (policyLines tunName fam6 override).1.filter (fun cmd => !cmd.refused) = (policyLines tunName fam6 override).1 ∧
      (policyLines tunName fam6 override).2.1.filter (fun cmd => !cmd.refused) =
        (policyLines tunName fam6 override).2.1 := by
  cases fam6 <;> cases override <;> exact ⟨rfl, rfl⟩

namespace RoutePlan

variable {p : RoutePlan} {tunName : String} {carryV6 : Bool} {originals : Table} {ip : IpAddr}

/-- The lines for the main table that the kernel does not refuse for their address. -/
def accepted (p : RoutePlan) (carryV6 : Bool) : List PlannedRoute := (p.lines carryV6).filter fun r => !r.dest.refused

theorem installed_eq (p : RoutePlan) (tunName : String) (carryV6 : Bool) (originals : Table) :
    p.installed tunName carryV6 originals =
      ⟨originals.addAll ((p.accepted carryV6).map (·.route tunName)),
        policyRoutes tunName (p.overrides true) (p.overrides false && carryV6),
        policyRules (p.overrides true), policyRules (p.overrides false && carryV6)⟩ := by
  have hlines : ((p.lines carryV6).map fun r => IpCommand.routeAdd (r.route tunName) .main).filter
      (fun cmd => !cmd.refused) = ((p.accepted carryV6).map (·.route tunName)).map (.routeAdd · .main) := by
    rw [List.filter_map, accepted, List.map_map]
    rfl
  simp only [installed, forceBatch, (preclean_eq p tunName carryV6).1, install_eq, List.filter_append, policyLines_taken, hlines]
  rw [ipBatch_append, ipBatch_append (.before originals), ipBatch_preclean (k := .before originals) rfl rfl,
    ipBatch_preclean (k := .before originals) rfl rfl, ipBatch_routeAdd]
  exact ipBatch_policies _ _ _ _

/-- The accepted routes whose prefix is not that of an original route. -/
def taken (p : RoutePlan) (carryV6 : Bool) (originals : Table) : List PlannedRoute :=
  (p.accepted carryV6).filter fun r => originals.all fun r' => !r'.dest.samePrefix r.dest

/-- Each half as a route for its whole family. -/
def wholeFamilies (p : RoutePlan) : List PlannedRoute :=
  (p.routes.filter PlannedRoute.half).map fun r => ⟨⟨r.dest.addr, 0⟩, .tunnel⟩

/-- What is left of a plan: the halves' families, then the routes that are taken. -/
def left (p : RoutePlan) (carryV6 : Bool) (originals : Table) : List PlannedRoute :=
  p.wholeFamilies ++ p.taken carryV6 originals

/-- What the first longest route says. -/
def firstDecision (rs : List PlannedRoute) (ip : IpAddr) : Decision :=
  match longestMatches PlannedRoute.covers PlannedRoute.len rs ip with
  | [] => .originalDefault
  | r :: _ => r.decision

theorem fresh_accepted : originals.fresh ((p.accepted carryV6).map (·.route tunName)) =
    (p.taken carryV6 originals).map (·.route tunName) := by
  rw [Table.fresh, List.filter_map, taken]
  rfl

theorem longest_map_route (rs : List PlannedRoute) :
    longestMatches Route.covers Route.len (rs.map (·.route tunName)) ip =
      (longestMatches PlannedRoute.covers PlannedRoute.len rs ip).map (·.route tunName) :=
  longestMatches_map

/-- A route over a whole family covers every address of it. -/
theorem covers_zero {a : IpAddr} : Cidr.covers ⟨a, 0⟩ ip = (a.isIpv4 == ip.isIpv4) := by
  cases a with
  | v4 a =>
    cases ip with
    | v4 b =>
      simp only [Cidr.covers, IpAddr.covers, IpAddr.network, Nat.sub_zero]
      rw [Nat.div_eq_of_lt a.isLt, Nat.div_eq_of_lt b.isLt]
      rfl
    | v6 b => simp [Cidr.covers, IpAddr.covers, IpAddr.isIpv4]
  | v6 a =>
    cases ip with
    | v4 b => simp [Cidr.covers, IpAddr.covers, IpAddr.isIpv4]
    | v6 b =>
      simp only [Cidr.covers, IpAddr.covers, IpAddr.network, Nat.sub_zero]
      rw [Nat.div_eq_of_lt a.isLt, Nat.div_eq_of_lt b.isLt]
      rfl

theorem mem_wholeFamilies {r : PlannedRoute} : r ∈ p.wholeFamilies ↔
    ∃ r' ∈ p.routes, r'.half = true ∧ r = ⟨⟨r'.dest.addr, 0⟩, .tunnel⟩ := by
  simp only [wholeFamilies, List.mem_map, List.mem_filter, and_assoc]
  exact exists_congr fun r' => and_congr_right fun _ => and_congr_right fun _ => eq_comm

theorem wholeFamilies_len {r : PlannedRoute} (h : r ∈ p.wholeFamilies) : r.len = 0 ∧ r.decision = .tunnel := by
  obtain ⟨r', -, -, rfl⟩ := mem_wholeFamilies.mp h
  exact ⟨rfl, rfl⟩

/-- They cover an address exactly if its family has a half. -/
theorem overrides_iff : p.overrides ip.isIpv4 = true ↔ ∃ r ∈ p.wholeFamilies, r.covers ip = true := by
  simp only [overrides, List.any_eq_true, Bool.and_eq_true, beq_iff_eq]
  constructor
  · rintro ⟨r, hr, hhalf, hfam⟩
    exact ⟨_, mem_wholeFamilies.mpr ⟨r, hr, hhalf, rfl⟩, covers_zero.trans (by simp [hfam])⟩
  · rintro ⟨_, hr', hcov⟩
    obtain ⟨r, hr, hhalf, rfl⟩ := mem_wholeFamilies.mp hr'
    exact ⟨r, hr, hhalf, by simpa using covers_zero.symm.trans hcov⟩

/-- A route of some length goes before the halves' families. -/
theorem firstDecision_left_of_pos {r : PlannedRoute} {rest : List PlannedRoute}
    (h : longestMatches PlannedRoute.covers PlannedRoute.len (p.taken carryV6 originals) ip = r :: rest)
    (hpos : 0 < r.len) : firstDecision (p.left carryV6 originals) ip = r.decision := by
  have hr : r ∈ longestMatches PlannedRoute.covers PlannedRoute.len (p.taken carryV6 originals) ip := by
    rw [h]
    exact List.mem_cons_self
  obtain ⟨hmem, hcov, hmax⟩ := mem_longestMatches.mp hr
  have hmax' : ∀ r' ∈ p.left carryV6 originals, r'.covers ip = true → r'.len ≤ r.len := by
    intro r' hr' hcov'
    rcases List.mem_append.mp hr' with hr' | hr'
    · rw [(wholeFamilies_len hr').1]
      exact Nat.zero_le _
    · exact hmax r' hr' hcov'
  have hmem' : r ∈ p.left carryV6 originals := List.mem_append.mpr (.inr hmem)
  have hfamilies : p.wholeFamilies.filter (fun r' => r'.covers ip && r'.len == r.len) = [] := by
    rw [List.filter_eq_nil_iff]
    intro r' hr'
    have hne : r'.len ≠ r.len := by
      rw [(wholeFamilies_len hr').1]
      omega
    simp [hne]
  rw [firstDecision, longestMatches_eq_filter hmem' hcov rfl hmax', left, List.filter_append, hfamilies, List.nil_append,
    ← longestMatches_eq_filter hmem hcov rfl hmax, h]

/-- Without one, a half takes its family. -/
theorem firstDecision_left_of_override (hover : p.overrides ip.isIpv4 = true)
    (h : ∀ r ∈ p.taken carryV6 originals, r.covers ip = true → r.len = 0) :
    firstDecision (p.left carryV6 originals) ip = .tunnel := by
  obtain ⟨r, hr, hcov⟩ := overrides_iff.mp hover
  have hzero : ∀ r ∈ p.left carryV6 originals, r.covers ip = true → r.len ≤ 0 := by
    intro r' hr' hcov'
    rcases List.mem_append.mp hr' with hr' | hr'
    · exact (wholeFamilies_len hr').1.le
    · exact (h r' hr' hcov').le
  have hmem : r ∈ p.left carryV6 originals := List.mem_append.mpr (.inl hr)
  have hat : r ∈ p.wholeFamilies.filter (fun r => r.covers ip && r.len == 0) :=
    List.mem_filter.mpr ⟨hr, by simp [hcov, (wholeFamilies_len hr).1]⟩
  rw [firstDecision, longestMatches_eq_filter hmem hcov (wholeFamilies_len hr).1 hzero, left, List.filter_append]
  cases hf : p.wholeFamilies.filter (fun r => r.covers ip && r.len == 0) with
  | nil =>
    rw [hf] at hat
    cases hat
  | cons r' rest =>
    have hr' : r' ∈ p.wholeFamilies := List.mem_of_mem_filter (hf ▸ List.mem_cons_self : r' ∈ p.wholeFamilies.filter _)
    exact (wholeFamilies_len hr').2

/-- Without a half in the family, the routes that are taken decide. -/
theorem firstDecision_left_of_no_override (hover : p.overrides ip.isIpv4 = false) :
    firstDecision (p.left carryV6 originals) ip = firstDecision (p.taken carryV6 originals) ip := by
  have hnone : ∀ r ∈ p.wholeFamilies, PlannedRoute.covers r ip = false := by
    intro r hr
    by_contra hcov
    have htrue := overrides_iff.mpr ⟨r, hr, by simpa using hcov⟩
    rw [hover] at htrue
    cases htrue
  rw [firstDecision, left, longestMatches_append_of_none hnone, firstDecision]

/-! ## What the kernel decides -/

/-- A plan names no original default. -/
theorem decision_of_mem_routes {r : PlannedRoute} (h : r ∈ p.routes) : r.decision ≠ .originalDefault := by
  simp only [routes, List.mem_cons, List.mem_append, List.mem_map] at h
  rcases h with rfl | ⟨c, -, rfl⟩ | ⟨b, -, rfl⟩ <;> simp

theorem mem_taken {r : PlannedRoute} : r ∈ p.taken carryV6 originals ↔
    (r ∈ p.routes ∧ r.half = false ∧ (r.dest.addr.isIpv4 || carryV6) = true ∧ r.dest.refused = false) ∧
      ∀ r' ∈ originals, r'.dest.samePrefix r.dest = false := by
  simp only [taken, accepted, lines, List.mem_filter, List.all_eq_true, Bool.and_eq_true, Bool.not_eq_true']
  constructor
  · rintro ⟨⟨⟨hmem, hhalf, hcarried⟩, hrefused⟩, hnew⟩
    exact ⟨⟨hmem, hhalf, hcarried, hrefused⟩, hnew⟩
  · rintro ⟨⟨hmem, hhalf, hcarried, hrefused⟩, hnew⟩
    exact ⟨⟨⟨hmem, hhalf, hcarried⟩, hrefused⟩, hnew⟩

/-- A route that was taken says what the plan says of it. -/
theorem decision_route {r : PlannedRoute} (h : r ∈ p.taken carryV6 originals) :
    (r.route tunName).decision originals = r.decision := by
  obtain ⟨⟨hmem, -⟩, hnew⟩ := mem_taken.mp h
  have hnot : r.route tunName ∉ originals := by
    intro ho
    have hsame := hnew _ ho
    simp [PlannedRoute.route, Cidr.samePrefix] at hsame
  rw [Route.decision, if_neg hnot]
  cases hd : r.decision with
  | tunnel => simp [PlannedRoute.route, hd]
  | gateway g => simp [PlannedRoute.route, hd]
  | originalDefault => exact absurd hd (decision_of_mem_routes hmem)

theorem mem_decisions_of_select {k : Kernel} {d d' : Decision} (h : ∀ r ∈ k.select ip, r.decision originals = d')
    (hnil : k.select ip = [] → d' = .originalDefault) : d ∈ k.decisions originals ip ↔ d = d' := by
  unfold Kernel.decisions
  cases hs : k.select ip with
  | nil => simp [hnil hs]
  | cons r rs =>
    rw [hs] at h
    simp only [List.mem_map]
    constructor
    · rintro ⟨r', hr', rfl⟩
      exact h r' hr'
    · rintro rfl
      exact ⟨r, List.mem_cons_self, h r List.mem_cons_self⟩

/-- Without the policy, the main table decides. -/
theorem select_of_no_override {k : Kernel} (hrules : (if ip.isIpv4 then k.rules4 else k.rules6) = policyRules false) :
    k.select ip = longestMatches Route.covers Route.len k.main ip := by
  have hmain : k.ruleMatches mainRule ip = longestMatches Route.covers Route.len k.main ip :=
    List.filter_eq_self.mpr fun _ _ => rfl
  rw [Kernel.select, hrules, policyRules, if_neg (by simp), Kernel.selectBy, hmain]
  cases hl : longestMatches Route.covers Route.len k.main ip with
  | nil => rfl
  | cons r rs => rfl

theorem ruleMatches_suppress {k : Kernel} : k.ruleMatches suppressRule ip =
    (longestMatches Route.covers Route.len k.main ip).filter fun r => 0 < r.len := rfl

/-- With it, a longest route of some length does. -/
theorem select_of_pos {k : Kernel} {r : Route} (override : Bool)
    (hrules : (if ip.isIpv4 then k.rules4 else k.rules6) = policyRules override)
    (hlong : longestMatches Route.covers Route.len k.main ip = [r]) (hpos : 0 < r.len) : k.select ip = [r] := by
  cases override with
  | false => rw [select_of_no_override hrules, hlong]
  | true =>
    have hmatches : k.ruleMatches suppressRule ip = [r] := by
      rw [ruleMatches_suppress, hlong]
      simp [hpos]
    rw [Kernel.select, hrules, policyRules, if_pos rfl, Kernel.selectBy, hmatches]

/-- And where there is none, the private table does. -/
theorem select_of_zero {k : Kernel} (hrules : (if ip.isIpv4 then k.rules4 else k.rules6) = policyRules true)
    (hzero : ∀ r ∈ longestMatches Route.covers Route.len k.main ip, r.len = 0)
    (hne : longestMatches Route.covers Route.len k.rtTable ip ≠ []) :
    k.select ip = longestMatches Route.covers Route.len k.rtTable ip := by
  have hnone : k.ruleMatches suppressRule ip = [] := by
    rw [ruleMatches_suppress, List.filter_eq_nil_iff]
    exact fun r hr => by simp [hzero r hr]
  have htun : k.ruleMatches tunRule ip = longestMatches Route.covers Route.len k.rtTable ip :=
    List.filter_eq_self.mpr fun _ _ => rfl
  rw [Kernel.select, hrules, policyRules, if_pos rfl, Kernel.selectBy, hnone, Kernel.selectBy, htun]
  cases hl : longestMatches Route.covers Route.len k.rtTable ip with
  | nil => exact absurd hl hne
  | cons r rs => rfl

/-- The private table leads into the tunnel. -/
theorem policyRoutes_longest {v4 v6 : Bool} (h : (if ip.isIpv4 then v4 else v6) = true) :
    longestMatches Route.covers Route.len (policyRoutes tunName v4 v6) ip ≠ [] ∧
      ∀ r ∈ policyRoutes tunName v4 v6, r.target = .dev tunName := by
  constructor
  · have hexists : ∃ r ∈ policyRoutes tunName v4 v6, r.covers ip = true := by
      cases hfam : ip.isIpv4 with
      | true =>
        have hv4 : v4 = true := by simpa [hfam] using h
        exact ⟨⟨⟨.v4 0, 0⟩, .dev tunName⟩, by simp [policyRoutes, hv4], covers_zero.trans (by rw [hfam]; rfl)⟩
      | false =>
        have hv6 : v6 = true := by simpa [hfam] using h
        exact ⟨⟨⟨.v6 0, 0⟩, .dev tunName⟩, by simp [policyRoutes, hv6], covers_zero.trans (by rw [hfam]; rfl)⟩
    obtain ⟨r, hr, hcov⟩ := hexists
    obtain ⟨r', hr'⟩ : ∃ r', r' ∈ longestMatches Route.covers Route.len (policyRoutes tunName v4 v6) ip :=
      exists_mem_longestMatches hr hcov
    exact List.ne_nil_of_mem hr'
  · intro r hr
    cases v4 <;> cases v6 <;> simp [policyRoutes] at hr
    · rw [hr]
    · rw [hr]
    · rcases hr with rfl | rfl <;> rfl

/-- **What the kernel decides** after the batch is what the first longest of the routes left says. -/
theorem mem_installed_decisions (hlen : ∀ r ∈ p.routes, r.dest.prefixLen ≤ r.dest.addr.width)
    (hzero : ∀ r ∈ originals, r.len = 0) (hdev : ∀ r ∈ originals, r.target ≠ .dev tunName)
    (hcarried : (ip.isIpv4 || carryV6) = true) {d : Decision} :
    d ∈ (p.installed tunName carryV6 originals).decisions originals ip ↔
      d = firstDecision (p.left carryV6 originals) ip := by
  rw [installed_eq]
  generalize hk : (⟨originals.addAll ((p.accepted carryV6).map (·.route tunName)),
    policyRoutes tunName (p.overrides true) (p.overrides false && carryV6),
    policyRules (p.overrides true), policyRules (p.overrides false && carryV6)⟩ : Kernel) = k
  have hmain : k.main = originals.addAll ((p.accepted carryV6).map (·.route tunName)) := by rw [← hk]
  have hrules : (if ip.isIpv4 then k.rules4 else k.rules6) = policyRules (p.overrides ip.isIpv4) := by
    rw [← hk]
    cases hfam : ip.isIpv4 with
    | true => rfl
    | false =>
      have hcarry : carryV6 = true := by simpa [hfam] using hcarried
      simp [hcarry]
  have hlines : ∀ r ∈ (p.accepted carryV6).map (·.route tunName), r.dest.prefixLen ≤ r.dest.addr.width := by
    intro r hr
    obtain ⟨r', hr', rfl⟩ := List.mem_map.mp hr
    exact hlen r' (List.mem_of_mem_filter (List.mem_of_mem_filter hr'))
  -- the tunnel's default decides where the main table has no route of some length
  have htunnel : p.overrides ip.isIpv4 = true →
      (∀ r ∈ longestMatches Route.covers Route.len k.main ip, r.len = 0) →
      (d ∈ k.decisions originals ip ↔ d = .tunnel) := by
    intro hover hshort
    have hprivate : (if ip.isIpv4 then p.overrides true else p.overrides false && carryV6) = true := by
      cases hfam : ip.isIpv4 with
      | true => simpa [hfam] using hover
      | false =>
        have hcarry : carryV6 = true := by simpa [hfam] using hcarried
        simpa [hfam, hcarry] using hover
    obtain ⟨hne, hall⟩ := @policyRoutes_longest tunName ip _ _ hprivate
    have hrt : k.rtTable = policyRoutes tunName (p.overrides true) (p.overrides false && carryV6) := by rw [← hk]
    rw [hover] at hrules
    rw [← hrt] at hne hall
    have hselect := select_of_zero hrules hshort hne
    refine mem_decisions_of_select ?_ fun hnil => absurd (hselect ▸ hnil) hne
    intro r hr
    rw [hselect] at hr
    have hdev' := hall r (mem_longestMatches.mp hr).1
    have hnot : r ∉ originals := fun ho => hdev r ho hdev'
    rw [Route.decision, if_neg hnot, hdev']
  have hlongest : longestMatches Route.covers Route.len (originals.fresh ((p.accepted carryV6).map (·.route tunName))) ip =
      (longestMatches PlannedRoute.covers PlannedRoute.len (p.taken carryV6 originals) ip).map (·.route tunName) := by
    rw [fresh_accepted, longest_map_route]
  cases hl : longestMatches PlannedRoute.covers PlannedRoute.len (p.taken carryV6 originals) ip with
  | cons r rest =>
    have hr : r ∈ longestMatches PlannedRoute.covers PlannedRoute.len (p.taken carryV6 originals) ip := by
      rw [hl]
      exact List.mem_cons_self
    obtain ⟨hmem, hcov, hmax⟩ := mem_longestMatches.mp hr
    rw [hl] at hlongest
    have hone : longestMatches Route.covers Route.len k.main ip = [r.route tunName] := by
      rw [hmain]
      exact Table.longest_addAll hlines hzero hlongest
    by_cases hpos : 0 < r.len
    · rw [firstDecision_left_of_pos hl hpos]
      have hselect := select_of_pos _ hrules hone hpos
      refine mem_decisions_of_select ?_ (by simp [hselect])
      intro r' hr'
      rw [hselect, List.mem_singleton] at hr'
      rw [hr', decision_route hmem]
    · have hr0 : r.len = 0 := by omega
      cases hover : p.overrides ip.isIpv4 with
      | true =>
        rw [firstDecision_left_of_override hover fun r' hr' hcov' => Nat.le_zero.mp (hr0 ▸ hmax r' hr' hcov')]
        refine htunnel hover fun r' hr' => ?_
        rw [hone, List.mem_singleton] at hr'
        rw [hr']
        exact hr0
      | false =>
        rw [firstDecision_left_of_no_override hover, firstDecision, hl]
        rw [hover] at hrules
        have hselect := (select_of_no_override hrules).trans hone
        refine mem_decisions_of_select ?_ (by simp [hselect])
        intro r' hr'
        rw [hselect, List.mem_singleton] at hr'
        rw [hr', decision_route hmem]
  | nil =>
    rw [hl, List.map_nil] at hlongest
    have horiginal : ∀ r ∈ longestMatches Route.covers Route.len k.main ip, r ∈ originals := by
      rw [hmain]
      exact Table.longest_addAll_nil hlongest
    cases hover : p.overrides ip.isIpv4 with
    | true =>
      have hnone : ∀ r ∈ p.taken carryV6 originals, PlannedRoute.covers r ip = false := longestMatches_eq_nil_iff.mp hl
      rw [firstDecision_left_of_override hover fun r hr hcov => by rw [hnone r hr] at hcov; cases hcov]
      exact htunnel hover fun r hr => hzero r (horiginal r hr)
    | false =>
      rw [firstDecision_left_of_no_override hover, firstDecision, hl]
      rw [hover] at hrules
      refine mem_decisions_of_select ?_ fun _ => rfl
      intro r hr
      rw [select_of_no_override hrules] at hr
      rw [Route.decision, if_pos (horiginal r hr)]

/-! ## When that is what the plan says -/

/-- Both halves of a family are routes into the tunnel, or none is. -/
def PairedHalves (p : RoutePlan) : Prop :=
  ∀ c ∈ p.viaTun, c.isDefaultOverride = true →
    ∀ c', c'.isDefaultOverride = true → c'.addr.isIpv4 = c.addr.isIpv4 → c' ∈ p.viaTun

/-- **Where a longest route of the plan stands**, what is left of the plan decides as the plan. -/
theorem left_mem_decisions {r : PlannedRoute} (hzero : ∀ r ∈ originals, r.len = 0)
    (hcarried : (ip.isIpv4 || carryV6) = true)
    (hr : r ∈ longestMatches PlannedRoute.covers PlannedRoute.len p.routes ip) (hstands : r.stands = true) :
    firstDecision (p.left carryV6 originals) ip ∈ p.decisions ip := by
  obtain ⟨hmem, hcov, hmax⟩ := mem_longestMatches.mp hr
  have hlongest : ∀ r' ∈ p.routes, r'.covers ip = true → r'.len = r.len → r'.decision ∈ p.decisions ip := by
    intro r' hmem' hcov' hlen'
    exact mem_decisions.mpr (.inl ⟨r', mem_longestMatches.mpr ⟨hmem', hcov', hlen' ▸ hmax⟩, rfl⟩)
  -- it is taken, or it is a half
  have htaken : r.half = false → r ∈ p.taken carryV6 originals ∧ 0 < r.len := by
    intro hhalf
    obtain ⟨hrefused, hpos⟩ : r.dest.refused = false ∧ 0 < r.len := by
      simpa [PlannedRoute.stands, hhalf] using hstands
    have hfam : r.dest.addr.isIpv4 = ip.isIpv4 := IpAddr.isIpv4_of_covers hcov
    refine ⟨mem_taken.mpr ⟨⟨hmem, hhalf, hfam ▸ hcarried, hrefused⟩, fun r' hr' => ?_⟩, hpos⟩
    by_contra hsame
    have hlen : r'.dest.prefixLen = r.dest.prefixLen := Cidr.prefixLen_congr (by simpa using hsame)
    have h0 : r'.dest.prefixLen = 0 := hzero r' hr'
    have hp : 0 < r.dest.prefixLen := hpos
    omega
  have hhalf1 : r.half = true → r.len = 1 ∧ r.decision = .tunnel ∧ p.overrides ip.isIpv4 = true := by
    intro hhalf
    have hfam : r.dest.addr.isIpv4 = ip.isIpv4 := IpAddr.isIpv4_of_covers hcov
    refine ⟨?_, ?_, List.any_eq_true.mpr ⟨r, hmem, by simp [hhalf, hfam]⟩⟩
    · simp only [PlannedRoute.half, Cidr.isDefaultOverride, Bool.and_eq_true, beq_iff_eq] at hhalf
      exact hhalf.2.1
    · simp only [PlannedRoute.half, Bool.and_eq_true, beq_iff_eq] at hhalf
      exact hhalf.1
  by_cases hpos : ∃ r' ∈ p.taken carryV6 originals, r'.covers ip = true ∧ 0 < r'.len
  · obtain ⟨r₁, hr₁, hcov₁, hpos₁⟩ := hpos
    obtain ⟨r', hr'⟩ : ∃ r', r' ∈ longestMatches PlannedRoute.covers PlannedRoute.len (p.taken carryV6 originals) ip :=
      exists_mem_longestMatches hr₁ hcov₁
    cases hl : longestMatches PlannedRoute.covers PlannedRoute.len (p.taken carryV6 originals) ip with
    | nil =>
      rw [hl] at hr'
      cases hr'
    | cons r₂ rest =>
      obtain ⟨hmem₂, hcov₂, hmax₂⟩ := mem_longestMatches.mp (hl ▸ List.mem_cons_self :
        r₂ ∈ longestMatches PlannedRoute.covers PlannedRoute.len (p.taken carryV6 originals) ip)
      have hroutes := (mem_taken.mp hmem₂).1.1
      have hle := hmax r₂ hroutes hcov₂
      have hge₁ := hmax₂ r₁ hr₁ hcov₁
      have hge : r.len ≤ r₂.len := by
        cases hhalf : r.half with
        | true =>
          rw [(hhalf1 hhalf).1]
          omega
        | false => exact hmax₂ r (htaken hhalf).1 hcov
      rw [firstDecision_left_of_pos hl (by omega)]
      exact hlongest r₂ hroutes hcov₂ (le_antisymm hle hge)
  · have hshort : ∀ r' ∈ p.taken carryV6 originals, r'.covers ip = true → r'.len = 0 := by
      intro r' hr' hcov'
      by_contra hne
      exact hpos ⟨r', hr', hcov', Nat.pos_of_ne_zero hne⟩
    cases hhalf : r.half with
    | true =>
      obtain ⟨-, hdec, hover⟩ := hhalf1 hhalf
      rw [firstDecision_left_of_override hover hshort, ← hdec]
      exact hlongest r hmem hcov rfl
    | false =>
      obtain ⟨hr', hpos'⟩ := htaken hhalf
      exact absurd ⟨r, hr', hcov, hpos'⟩ hpos

/-- Where no route of the plan covers the address and its family has no half, the original default stays. -/
theorem left_mem_decisions_of_uncovered (hnone : ∀ r ∈ p.routes, r.covers ip = false)
    (hover : p.overrides ip.isIpv4 = false) :
    firstDecision (p.left carryV6 originals) ip ∈ p.decisions ip := by
  have hnil : longestMatches PlannedRoute.covers PlannedRoute.len (p.taken carryV6 originals) ip = [] :=
    longestMatches_eq_nil_iff.mpr fun r hr => hnone r (mem_taken.mp hr).1.1
  rw [firstDecision_left_of_no_override hover, firstDecision, hnil]
  exact mem_decisions.mpr (.inr ⟨hnone, rfl⟩)

theorem isDefaultOverride_of_mem_defaultHalves {base : SplitMode} {a6 : Option IpAddr} {c : Cidr}
    (h : c ∈ defaultHalves base a6) : c.isDefaultOverride = true := by
  unfold defaultHalves at h
  cases base with
  | «include» => cases h
  | exclude =>
    cases ha : a6.isSome <;> simp [ha] at h
    · rcases h with rfl | rfl <;> rfl
    · rcases h with rfl | rfl | rfl | rfl <;> rfl

/-- The halves by their values. -/
theorem mem_defaultHalves_of_isDefaultOverride {c : Cidr} {a : IpAddr} (h : c.isDefaultOverride = true) :
    c ∈ defaultHalves .exclude (some a) := by
  obtain ⟨addr, p⟩ := c
  simp only [Cidr.isDefaultOverride, Bool.and_eq_true, beq_iff_eq] at h
  obtain ⟨rfl, hvalue⟩ := h
  cases addr with
  | v4 b =>
    simp only [Bool.or_eq_true, beq_iff_eq] at hvalue
    rcases hvalue with rfl | rfl <;> simp [defaultHalves]
  | v6 b =>
    simp only [Bool.or_eq_true, beq_iff_eq] at hvalue
    rcases hvalue with rfl | rfl <;> simp [defaultHalves]

/-- A family with a half that has both is covered. -/
theorem exists_via_tun_covers (hpaired : p.PairedHalves) (hover : p.overrides ip.isIpv4 = true) :
    ∃ r ∈ p.routes, r.covers ip = true := by
  rw [overrides_eq, List.any_eq_true] at hover
  obtain ⟨c, hc, hhalf⟩ := hover
  rw [Bool.and_eq_true, beq_iff_eq] at hhalf
  obtain ⟨c', hc', hcov⟩ := @TunConfig.exists_half_covers ip (some (.v6 0)) (by simp)
  have hmem : c' ∈ p.viaTun := hpaired c hc hhalf.1 c' (isDefaultOverride_of_mem_defaultHalves hc')
    ((IpAddr.isIpv4_of_covers hcov).trans hhalf.2.symm)
  exact ⟨⟨c', .tunnel⟩, by simp [routes, hmem], hcov⟩

theorem host_not_refused {a : IpAddr} : (Cidr.host a).refused = false := by
  cases a with
  | v4 b => simp [Cidr.refused, Cidr.host, Cidr.hasHostBits, IpAddr.width, Nat.mod_one]
  | v6 b => rfl

/-- **Translation of the routes.** For every plan of parsed rules and every destination of a carried family, the
kernel decides after the batch as a longest-prefix match over the plan does if and only if the first longest of the
routes left does: those it takes, each override half standing for its whole family. A plan keeps all its decisions
when no rule has IPv4 address bits below its prefix or the length zero and no family has one half alone. -/
theorem batch_refines_iff (baseMode : SplitMode) (includes excludes : List SplitCidr)
    (serverIp origGateway : IpAddr) (origGateway6 : Option IpAddr) (tunAddr : IpAddr) (tunAddr6 : Option IpAddr)
    (plan : RoutePlan) (tunName : String) (carryV6 : Bool) (originals : Table)
    (hplan : fromSplit baseMode (includes.map Cidr.ofSplit) (excludes.map Cidr.ofSplit) serverIp origGateway
      origGateway6 tunAddr tunAddr6 = .ok plan)
    (hparsed : ∀ c ∈ includes ++ excludes, c.prefixLen ≤ c.addr.width)
    (hzero : ∀ r ∈ originals, r.len = 0) (hdev : ∀ r ∈ originals, r.target ≠ .dev tunName) :
    (∀ ip : IpAddr, (ip.isIpv4 || carryV6) = true →
      ((∀ d ∈ (plan.installed tunName carryV6 originals).decisions originals ip, d ∈ plan.decisions ip) ↔
        firstDecision (plan.left carryV6 originals) ip ∈ plan.decisions ip)) ∧
    ((∀ c ∈ includes ++ excludes, (Cidr.ofSplit c).refused = false ∧ 0 < c.prefixLen) → plan.PairedHalves →
      ∀ ip : IpAddr, (ip.isIpv4 || carryV6) = true →
        ∀ d ∈ (plan.installed tunName carryV6 originals).decisions originals ip, d ∈ plan.decisions ip) := by
  obtain ⟨-, -, hvia, hexc, hbypass, -⟩ := fromSplit_ok hplan
  -- a route of the plan is the exception, a half or a rule's
  have hroutes : ∀ r ∈ plan.routes, r.dest = Cidr.host serverIp ∨ r.half = true ∨
      ∃ c ∈ includes ++ excludes, r.dest = Cidr.ofSplit c := by
    intro r hr
    simp only [routes, hexc, hvia, hbypass, List.mem_cons, List.mem_append, List.mem_map, List.mem_filterMap] at hr
    rcases hr with rfl | ⟨c, hc | ⟨c', hc', rfl⟩, rfl⟩ | ⟨b, ⟨c, ⟨c', hc', rfl⟩, hg⟩, rfl⟩
    · exact .inl rfl
    · exact .inr (.inl (isDefaultOverride_of_mem_defaultHalves hc))
    · exact .inr (.inr ⟨c', List.mem_append.mpr (.inl hc'), rfl⟩)
    · obtain ⟨g, -, rfl⟩ := Option.map_eq_some_iff.mp hg
      exact .inr (.inr ⟨c', List.mem_append.mpr (.inr hc'), rfl⟩)
  have hlen : ∀ r ∈ plan.routes, r.dest.prefixLen ≤ r.dest.addr.width := by
    intro r hr
    rcases hroutes r hr with h | h | ⟨c, hc, h⟩
    · rw [h]
      exact le_rfl
    · simp only [PlannedRoute.half, Cidr.isDefaultOverride, Bool.and_eq_true, beq_iff_eq] at h
      rw [h.2.1]
      exact r.dest.addr.width_pos
    · rw [h]
      exact hparsed c hc
  have hiff : ∀ ip : IpAddr, (ip.isIpv4 || carryV6) = true →
      ((∀ d ∈ (plan.installed tunName carryV6 originals).decisions originals ip, d ∈ plan.decisions ip) ↔
        firstDecision (plan.left carryV6 originals) ip ∈ plan.decisions ip) := by
    intro ip hcarried
    simp only [mem_installed_decisions hlen hzero hdev hcarried, forall_eq]
  refine ⟨hiff, fun hrules hpaired ip hcarried => (hiff ip hcarried).mpr ?_⟩
  by_cases hcov : ∃ r ∈ plan.routes, PlannedRoute.covers r ip = true
  · obtain ⟨r, hr, hc⟩ := hcov
    obtain ⟨r', hr'⟩ : ∃ r', r' ∈ longestMatches PlannedRoute.covers PlannedRoute.len plan.routes ip :=
      exists_mem_longestMatches hr hc
    refine left_mem_decisions hzero hcarried hr' ?_
    rcases hroutes r' (mem_longestMatches.mp hr').1 with h | h | ⟨c, hc, h⟩
    · have hpos : 0 < r'.len := by
        rw [PlannedRoute.len, h]
        exact serverIp.width_pos
      simp [PlannedRoute.stands, h, host_not_refused, hpos]
    · simp [PlannedRoute.stands, h]
    · have hpos : 0 < r'.len := by
        rw [PlannedRoute.len, h]
        exact (hrules c hc).2
      simp [PlannedRoute.stands, h, (hrules c hc).1, hpos]
  · have hnone : ∀ r ∈ plan.routes, PlannedRoute.covers r ip = false := by
      intro r hr
      by_contra hc
      exact hcov ⟨r, hr, by simpa using hc⟩
    refine left_mem_decisions_of_uncovered hnone ?_
    by_contra hover
    exact hcov (exists_via_tun_covers hpaired (by simpa using hover))

/-- A full tunnel that leaves out `10.0.0.0/8`. -/
theorem batch_refines_exclude :
    ∃ plan, fromSplit .exclude [] [⟨.v4 0x0a000000, 8⟩] (.v4 0xcb007107) (.v4 0xc0a80101) none (.v4 0x0a470002)
        none = .ok plan ∧
      ∀ ip : IpAddr, (ip.isIpv4 || false) = true →
        ∀ d ∈ (plan.installed "leshiy0" false [⟨⟨.v4 0, 0⟩, .via (.v4 0xc0a80101)⟩]).decisions
          [⟨⟨.v4 0, 0⟩, .via (.v4 0xc0a80101)⟩] ip, d ∈ plan.decisions ip := by
  refine ⟨_, rfl, ?_⟩
  refine (batch_refines_iff .exclude [] [⟨.v4 0x0a000000, 8⟩] (.v4 0xcb007107) (.v4 0xc0a80101) none (.v4 0x0a470002)
    none _ "leshiy0" false [⟨⟨.v4 0, 0⟩, .via (.v4 0xc0a80101)⟩] rfl (by decide) (by decide) (by decide)).2
    (by decide) ?_
  intro c hc _ c' hc' hfam
  have hv4 : ∀ c ∈ defaultHalves .exclude none, c.addr.isIpv4 = true := by decide
  have hc₄ : c'.addr.isIpv4 = true := hfam.trans (hv4 c (by simpa using hc))
  have hmem := @mem_defaultHalves_of_isDefaultOverride c' (.v6 0) hc'
  simp only [defaultHalves, Option.isSome_some, if_true, List.mem_append, List.mem_cons, List.not_mem_nil,
    or_false] at hmem
  rcases hmem with (rfl | rfl) | rfl | rfl
  · simp [defaultHalves]
  · simp [defaultHalves]
  · cases hc₄
  · cases hc₄

/-- Under an include base, the rule `0.0.0.0/1` takes `200.0.0.1` into the tunnel, and `10.1.2.3/8` does not take
`10.0.0.1`. -/
theorem lone_half_takes_family :
    (∃ plan, fromSplit .include [⟨.v4 0, 1⟩] [] (.v4 0xcb007107) (.v4 0xc0a80101) none (.v4 0x0a470002) none =
        .ok plan ∧
      (plan.installed "leshiy0" false [⟨⟨.v4 0, 0⟩, .via (.v4 0xc0a80101)⟩]).decisions
        [⟨⟨.v4 0, 0⟩, .via (.v4 0xc0a80101)⟩] (.v4 0xc8000001) = [.tunnel] ∧
      plan.decisions (.v4 0xc8000001) = [.originalDefault]) ∧
    ∃ plan, fromSplit .include [⟨.v4 0x0a010203, 8⟩] [] (.v4 0xcb007107) (.v4 0xc0a80101) none (.v4 0x0a470002)
        none = .ok plan ∧
      (plan.installed "leshiy0" false [⟨⟨.v4 0, 0⟩, .via (.v4 0xc0a80101)⟩]).decisions
        [⟨⟨.v4 0, 0⟩, .via (.v4 0xc0a80101)⟩] (.v4 0x0a000001) = [.originalDefault] ∧
      plan.decisions (.v4 0x0a000001) = [.tunnel] :=
  ⟨⟨_, rfl, by decide, by decide⟩, _, rfl, by decide, by decide⟩

end RoutePlan

end Leshiy.Tun
