import Leshiy.Tun.Resolver

/-!
# The Linux backend

`leshiy-tun/src/sys/linux.rs`, the part that routes packets: the batch a plan becomes, and the
controller through which the resolver changes routes while the session is up. DNS, the IPv6
kill-switch and the teardown guard change no route of a running session.

A kernel table refuses a route whose destination prefix it already holds, and one whose length
the family does not have. Policy rules are tried in the order of their priority; a rule that
suppresses short prefixes hides them from its table.

The exception for the server is the first line of the batch. From then on the main table holds
a route for the server's host prefix that is not the tunnel's, so every later attempt to add
one fails, and what failed is never remembered and never removed.
-/

namespace Leshiy.Tun

open Leshiy.Lib Leshiy.Client

/-! ## Kernel tables -/

inductive Target where
  | via (gateway : IpAddr)
  | dev (name : String)
  deriving DecidableEq, Repr

structure Route where
  dest : Cidr
  target : Target
  deriving DecidableEq, Repr

namespace Route

def covers (r : Route) (ip : IpAddr) : Bool := r.dest.covers ip

def len (r : Route) : Nat := r.dest.prefixLen

end Route

/-- The same destination prefix: bits beyond the length play no part. -/
def Cidr.samePrefix (c c' : Cidr) : Bool :=
  c.addr.isIpv4 == c'.addr.isIpv4 && c.prefixLen == c'.prefixLen &&
    c.addr.network c.prefixLen == c'.addr.network c'.prefixLen

abbrev Table := List Route

namespace Table

def add (t : Table) (r : Route) : Option Table :=
  if r.dest.prefixLen ≤ r.dest.addr.width ∧ t.all (fun r' => !r'.dest.samePrefix r.dest) then
    some (t ++ [r])
  else none

/-- A route is found by its prefix and its target. -/
def delete (t : Table) (r : Route) : Option Table :=
  if t.any (fun r' => r'.dest.samePrefix r.dest && r'.target == r.target) then
    some (t.eraseP fun r' => r'.dest.samePrefix r.dest && r'.target == r.target)
  else none

end Table

/-- The tables the rules name: `main` and the private one, `RT_TABLE`. -/
inductive TableId where
  | main
  | rtTable
  deriving DecidableEq, Repr

structure IpRule where
  priority : Nat
  table : TableId
  suppressPrefixlength : Option Nat
  deriving DecidableEq, Repr

structure Kernel where
  main : Table
  rtTable : Table
  /-- By priority. -/
  rules4 : List IpRule
  rules6 : List IpRule
  deriving DecidableEq, Repr

def RULE_PREF_SUPPRESS : Nat := 32764
def RULE_PREF_TUN : Nat := 32765

/-- The rule for the main table that every system has. -/
def mainRule : IpRule := ⟨32766, .main, none⟩
def suppressRule : IpRule := ⟨RULE_PREF_SUPPRESS, .main, some 0⟩
def tunRule : IpRule := ⟨RULE_PREF_TUN, .rtTable, none⟩

namespace Kernel

def table (k : Kernel) : TableId → Table
  | .main => k.main
  | .rtTable => k.rtTable

/-- What one rule finds: the longest routes, unless the rule suppresses their length. -/
def ruleMatches (k : Kernel) (rule : IpRule) (ip : IpAddr) : List Route :=
  (longestMatches Route.covers Route.len (k.table rule.table) ip).filter fun r =>
    match rule.suppressPrefixlength with
    | some n => n < r.len
    | none => true

/-- The first rule that finds something selects. -/
def selectBy (k : Kernel) (ip : IpAddr) : List IpRule → List Route
  | [] => []
  | rule :: rules =>
    match k.ruleMatches rule ip with
    | [] => k.selectBy ip rules
    | r :: rs => r :: rs

/-- The routes a packet to `ip` may take. -/
def select (k : Kernel) (ip : IpAddr) : List Route :=
  k.selectBy ip (if ip.isIpv4 then k.rules4 else k.rules6)

end Kernel

/-! ## The batch -/

/-- One line for `ip -batch`. -/
inductive IpCommand where
  | routeAdd (route : Route) (table : TableId)
  | ruleAdd (fam6 : Bool) (rule : IpRule)
  | ruleDel (fam6 : Bool) (rule : IpRule)
  deriving DecidableEq, Repr

/-- Put a rule behind those of the same or a smaller priority number. -/
def insertRule (rule : IpRule) : List IpRule → List IpRule
  | [] => [rule]
  | r :: rs => if r.priority ≤ rule.priority then r :: insertRule rule rs else rule :: r :: rs

/-- One line; with `-force` a line that fails is passed over. -/
def Kernel.exec (k : Kernel) : IpCommand → Kernel
  | .routeAdd r .main => { k with main := (k.main.add r).getD k.main }
  | .routeAdd r .rtTable => { k with rtTable := (k.rtTable.add r).getD k.rtTable }
  | .ruleAdd false rule => { k with rules4 := insertRule rule k.rules4 }
  | .ruleAdd true rule => { k with rules6 := insertRule rule k.rules6 }
  | .ruleDel false rule => { k with rules4 := k.rules4.erase rule }
  | .ruleDel true rule => { k with rules6 := k.rules6.erase rule }

def ipBatch (k : Kernel) (script : List IpCommand) : Kernel := script.foldl Kernel.exec k

structure RouteBatch where
  preclean : List IpCommand
  install : List IpCommand
  teardownRules : List IpCommand
  bypass : List Cidr

/-- The lines of `emit_policy` for one family: those before, the installing ones and those of
the teardown. -/
def emitPolicy (tunName : String) (fam6 : Bool) : List IpCommand × List IpCommand × List IpCommand :=
  let dst : Cidr := ⟨if fam6 then .v6 0 else .v4 0, 0⟩
  let dels : List IpCommand := [.ruleDel fam6 suppressRule, .ruleDel fam6 tunRule]
  (dels,
    [.routeAdd ⟨dst, .dev tunName⟩ .rtTable, .ruleAdd fam6 suppressRule, .ruleAdd fam6 tunRule],
    dels)

def buildRouteBatch (plan : RoutePlan) (tunName : String) (carryV6 : Bool) : RouteBatch :=
  let carried (a : IpAddr) : Bool := a.isIpv4 || carryV6
  let exc := plan.serverException
  let excLines : List IpCommand :=
    if carried exc.dest.addr then [.routeAdd ⟨exc.dest, .via exc.gateway⟩ .main] else []
  let excBypass : List Cidr := if carried exc.dest.addr then [exc.dest] else []
  let v4Override := plan.viaTun.any fun c => c.isDefaultOverride && c.addr.isIpv4
  let v6Override := plan.viaTun.any fun c => c.isDefaultOverride && c.addr.isIpv6 && carryV6
  let includes := plan.viaTun.filter fun c => !c.isDefaultOverride && carried c.addr
  let bypass := plan.bypass.filter fun b => carried b.dest.addr
  let none3 : List IpCommand × List IpCommand × List IpCommand := ([], [], [])
  let policy4 := if v4Override then emitPolicy tunName false else none3
  let policy6 := if v6Override then emitPolicy tunName true else none3
  { preclean := policy4.1 ++ policy6.1
    install := excLines ++ includes.map (fun c => .routeAdd ⟨c, .dev tunName⟩ .main) ++
      bypass.map (fun b => .routeAdd ⟨b.dest, .via b.gateway⟩ .main) ++
      policy4.2.1 ++ policy6.2.1
    teardownRules := policy4.2.2 ++ policy6.2.2
    bypass := excBypass ++ bypass.map ServerException.dest }

/-! ## The controller -/

/-- What a session's tasks share: the kernel, and the bypass routes the teardown removes. -/
structure LinuxSys where
  kernel : Kernel
  installedBypass : List Cidr
  /-- How many requests went to the kernel. -/
  requests : Nat
  /-- Every state the kernel has been in since the session is up, the present one first. -/
  history : List Kernel

/-- How a request may fail other than by the kernel's own rules. -/
inductive Fault where
  /-- Nothing was done. -/
  | refused
  /-- It was done, and an error is reported all the same. -/
  | lostReply
  deriving DecidableEq, Repr

structure LinuxController where
  gateway : IpAddr
  gateway6 : Option IpAddr
  tunName : String
  carryV6 : Bool
  /-- Which requests fail, by their number. -/
  fault : Nat → Option Fault

namespace LinuxController

variable (ctrl : LinuxController)

/-- One request for the main table. -/
def request (change : Table → Option Table) (s : LinuxSys) : IoResult × LinuxSys :=
  let failed := { s with requests := s.requests + 1 }
  match ctrl.fault s.requests, change s.kernel.main with
  | some .refused, _ => (.error "request refused", failed)
  | _, none => (.error "rejected by the kernel", failed)
  | f, some main =>
    let kernel := { s.kernel with main }
    let s' := { failed with kernel, history := kernel :: s.history }
    match f with
    | none => (.ok (), s')
    | some _ => (.error "reply lost", s')

def bypassGateway (c : Cidr) : Option IpAddr :=
  if c.addr.isIpv4 then (if ctrl.gateway.isIpv4 then some ctrl.gateway else none)
  else if ctrl.carryV6 then ctrl.gateway6
  else none

/-- The route is recorded before the kernel is asked. -/
def addBypass (c : Cidr) (s : LinuxSys) : IoResult × LinuxSys :=
  match ctrl.bypassGateway c with
  | none => (.ok (), s)
  | some gw =>
    ctrl.request (Table.add · ⟨c, .via gw⟩) { s with installedBypass := s.installedBypass ++ [c] }

def removeBypass (c : Cidr) (s : LinuxSys) : IoResult × LinuxSys :=
  match ctrl.bypassGateway c with
  | none => (.ok (), s)
  | some gw =>
    match ctrl.request (Table.delete · ⟨c, .via gw⟩) s with
    | (.error e, s) => (.error e, s)
    | (.ok _, s) => (.ok (), { s with installedBypass := s.installedBypass.filter (· != c) })

def addViaTun (c : Cidr) (s : LinuxSys) : IoResult × LinuxSys :=
  if c.addr.isIpv6 && !ctrl.carryV6 then (.ok (), s)
  else ctrl.request (Table.add · ⟨c, .dev ctrl.tunName⟩) s

def removeViaTun (c : Cidr) (s : LinuxSys) : IoResult × LinuxSys :=
  if c.addr.isIpv6 && !ctrl.carryV6 then (.ok (), s)
  else ctrl.request (Table.delete · ⟨c, .dev ctrl.tunName⟩) s

def routeController : RouteController LinuxSys where
  addBypass := ctrl.addBypass
  removeBypass := ctrl.removeBypass
  addViaTun := ctrl.addViaTun
  removeViaTun := ctrl.removeViaTun

end LinuxController

/-! ## Starting a session -/

/-- Whether IPv6 is carried: the plan has an address for it and the interface took it. -/
def carryV6 (plan : RoutePlan) (v6Assigned : Bool) : Bool :=
  match plan.tunAddr6 with
  | some (.v6 _) => v6Assigned
  | _ => false

/-- The routes the kernel itself makes for the addresses of the interface. -/
def connectedRoutes (plan : RoutePlan) (tunName : String) (v6Assigned : Bool) : List Route :=
  [⟨⟨plan.tunAddr, 24⟩, .dev tunName⟩] ++
    match plan.tunAddr6 with
    | some (.v6 a) => if v6Assigned then [⟨⟨.v6 a, 64⟩, .dev tunName⟩] else []
    | _ => []

/-- `LinuxOps::start`: the device, then the batch. -/
def LinuxOps.start (k : Kernel) (plan : RoutePlan) (tunName : String) (v6Assigned : Bool)
    (fault : Nat → Option Fault) : Except String (LinuxController × LinuxSys) :=
  if plan.tunAddr.isIpv4 then
    let carry := carryV6 plan v6Assigned
    let up := ipBatch k ((connectedRoutes plan tunName v6Assigned).map (.routeAdd · .main))
    let batch := buildRouteBatch plan tunName carry
    let kernel := ipBatch (ipBatch up batch.preclean) batch.install
    .ok ({ gateway := plan.serverException.gateway
           gateway6 := plan.origGateway6
           tunName
           carryV6 := carry
           fault },
         { kernel, installedBypass := batch.bypass, requests := 0, history := [kernel] })
  else .error "tun_addr must be IPv4"

/-! ## The exception stays -/

section

variable {server : IpAddr} {tunName : String}

theorem samePrefix_host_iff {c : Cidr} : c.samePrefix (Cidr.host server) = true ↔ c = Cidr.host server := by
  constructor
  · intro h
    simp only [Cidr.samePrefix, Cidr.host, Bool.and_eq_true, beq_iff_eq] at h
    obtain ⟨⟨hfam, hlen⟩, hnet⟩ := h
    have hw : c.addr.width = server.width := by
      cases ha : c.addr <;> cases hs : server <;> simp [ha, hs, IpAddr.isIpv4, IpAddr.width] at hfam ⊢
    have hcov : c.addr.covers c.addr.width server = true := by
      simp [IpAddr.covers, hfam, hw, ← hnet, hlen]
    obtain ⟨addr, p⟩ := c
    have haddr : server = addr := IpAddr.covers_width_iff.mp hcov
    subst haddr
    simp only at hlen
    rw [hlen, Cidr.host]
  · rintro rfl
    simp [Cidr.samePrefix]

/-- The table has a route for the server's host prefix, and none of them is the tunnel's. -/
def Table.Exempt (server : IpAddr) (tunName : String) (t : Table) : Prop :=
  (∃ r ∈ t, r.dest = Cidr.host server) ∧
    ∀ r ∈ t, r.dest = Cidr.host server → r.target ≠ .dev tunName

theorem Table.mem_of_add {t t' : Table} {r : Route} (h : t.add r = some t') :
    t' = t ++ [r] ∧ ∀ r' ∈ t, r'.dest.samePrefix r.dest = false := by
  unfold Table.add at h
  split at h
  · rename_i hc
    cases h
    refine ⟨rfl, fun r' hr' => ?_⟩
    simpa using List.all_eq_true.mp hc.2 r' hr'
  · cases h

/-- A table that holds the prefix refuses it. -/
theorem Table.add_eq_none {t : Table} {r : Route} (h : ∃ r' ∈ t, r'.dest = r.dest) :
    t.add r = none := by
  obtain ⟨r', hr', hd⟩ := h
  unfold Table.add
  rw [if_neg]
  rintro ⟨-, hall⟩
  have := List.all_eq_true.mp hall r' hr'
  simp [hd, Cidr.samePrefix] at this

/-- **No addition undoes the exemption**: one for the server is refused. -/
theorem Table.Exempt.add {t t' : Table} {r : Route} (h : t.Exempt server tunName)
    (ha : t.add r = some t') : t'.Exempt server tunName := by
  obtain ⟨rfl, hno⟩ := Table.mem_of_add ha
  obtain ⟨⟨r₀, hr₀, hd₀⟩, hall⟩ := h
  refine ⟨⟨r₀, List.mem_append.mpr (.inl hr₀), hd₀⟩, fun r' hr' hd' => ?_⟩
  rcases List.mem_append.mp hr' with hr' | hr'
  · exact hall r' hr' hd'
  · rw [List.mem_singleton] at hr'
    subst hr'
    have hsame := hno r₀ hr₀
    rw [hd₀, hd'] at hsame
    simp [Cidr.samePrefix] at hsame

/-- Nor does a removal of another prefix. -/
theorem Table.Exempt.delete {t t' : Table} {r : Route} (h : t.Exempt server tunName)
    (hr : r.dest ≠ Cidr.host server) (hd : t.delete r = some t') : t'.Exempt server tunName := by
  unfold Table.delete at hd
  split at hd
  · cases hd
    obtain ⟨⟨r₀, hr₀, hd₀⟩, hall⟩ := h
    refine ⟨⟨r₀, (List.mem_eraseP_of_neg ?_).mpr hr₀, hd₀⟩, fun r' hr' => ?_⟩
    · intro hc
      simp only [Bool.and_eq_true] at hc
      rw [hd₀] at hc
      refine hr (samePrefix_host_iff.mp ?_)
      have hsym := hc.1
      simp only [Cidr.samePrefix, Bool.and_eq_true, beq_iff_eq] at hsym ⊢
      exact ⟨⟨hsym.1.1.symm, hsym.1.2.symm⟩, hsym.2.symm⟩
    · exact hall r' (List.mem_of_mem_eraseP hr')
  · cases hd

/-- The first rule asks the main table and hides at most its default. -/
def LeadsMain (rules : List IpRule) : Prop :=
  ∃ first rest, rules = first :: rest ∧ first.table = .main ∧
    (first.suppressPrefixlength = none ∨ first.suppressPrefixlength = some 0)

/-- The kernel does not send the server's packets into the tunnel. -/
def Kernel.Exempt (server : IpAddr) (tunName : String) (k : Kernel) : Prop :=
  k.main.Exempt server tunName ∧ LeadsMain (if server.isIpv4 then k.rules4 else k.rules6)

/-- **An exempt kernel selects a route for the server, and not the tunnel's.** -/
theorem Kernel.Exempt.select {k : Kernel} (h : k.Exempt server tunName) :
    k.select server ≠ [] ∧ ∀ r ∈ k.select server, r.target ≠ .dev tunName := by
  obtain ⟨⟨⟨r₀, hr₀, hd₀⟩, hall⟩, first, rest, hrules, hmain, hsup⟩ := h
  have hcov₀ : r₀.covers server = true := by
    rw [Route.covers, hd₀]
    exact Cidr.host_covers_iff.mpr rfl
  -- a longest route for the server is one for its host prefix
  have hlongest : ∀ r ∈ longestMatches Route.covers Route.len k.main server,
      r.dest = Cidr.host server ∧ r.len = server.width := by
    intro r hr
    obtain ⟨hmem, hcov, hmax⟩ := mem_longestMatches.mp hr
    have hge : server.width ≤ r.len := by
      have := hmax r₀ hr₀ hcov₀
      rwa [Route.len, hd₀] at this
    have hle : r.len ≤ server.width := IpAddr.le_width_of_covers hcov
    have heq : r.len = server.width := le_antisymm hle hge
    refine ⟨?_, heq⟩
    refine samePrefix_host_iff.mp ?_
    have hfam := IpAddr.isIpv4_of_covers hcov
    simp only [Route.covers, Cidr.covers, IpAddr.covers, Bool.and_eq_true, beq_iff_eq] at hcov
    simp only [Route.len] at heq
    have hnet := hcov.2
    rw [heq] at hnet
    simp [Cidr.samePrefix, Cidr.host, hfam, heq, hnet]
  have hmatches : k.ruleMatches first server =
      longestMatches Route.covers Route.len k.main server := by
    rw [Kernel.ruleMatches, hmain]
    refine List.filter_eq_self.mpr fun r hr => ?_
    have hlen := (hlongest r hr).2
    have hpos := server.width_pos
    rcases hsup with h | h
    · rw [h]
    · rw [h]
      simp
      omega
  obtain ⟨m, hm⟩ : ∃ m, m ∈ longestMatches Route.covers Route.len k.main server :=
    exists_mem_longestMatches hr₀ hcov₀
  have hsel : k.select server = longestMatches Route.covers Route.len k.main server := by
    rw [Kernel.select, hrules, Kernel.selectBy, hmatches]
    cases hl : longestMatches Route.covers Route.len k.main server with
    | nil =>
      rw [hl] at hm
      cases hm
    | cons r rs => rfl
  rw [hsel]
  refine ⟨List.ne_nil_of_mem hm, fun r hr => ?_⟩
  exact hall r (mem_longestMatches.mp hr).1 (hlongest r hr).1

/-! ## The batch installs it -/

theorem Kernel.exec_main (k : Kernel) (cmd : IpCommand) :
    (k.exec cmd).main = k.main ∨ ∃ r, cmd = .routeAdd r .main ∧ k.main.add r = some (k.exec cmd).main := by
  cases cmd with
  | routeAdd r t =>
    cases t with
    | main =>
      cases ha : k.main.add r with
      | none => exact .inl (by simp [Kernel.exec, ha])
      | some t' => exact .inr ⟨r, rfl, by simp [Kernel.exec, ha]⟩
    | rtTable => exact .inl rfl
  | ruleAdd fam6 rule => cases fam6 <;> exact .inl rfl
  | ruleDel fam6 rule => cases fam6 <;> exact .inl rfl

/-- A batch keeps the exemption. -/
theorem ipBatch_exempt {k : Kernel} {script : List IpCommand}
    (h : k.main.Exempt server tunName) : (ipBatch k script).main.Exempt server tunName := by
  induction script generalizing k with
  | nil => exact h
  | cons cmd script ih =>
    refine ih ?_
    rcases k.exec_main cmd with heq | ⟨r, -, ha⟩
    · rwa [heq]
    · exact h.add ha

/-- A batch without routes for the server leaves the ones it finds. -/
theorem ipBatch_no_tun {k : Kernel} {script : List IpCommand}
    (h : ∀ r ∈ k.main, r.dest = Cidr.host server → r.target ≠ .dev tunName)
    (hs : ∀ r, IpCommand.routeAdd r .main ∈ script → r.dest ≠ Cidr.host server) :
    ∀ r ∈ (ipBatch k script).main, r.dest = Cidr.host server → r.target ≠ .dev tunName := by
  induction script generalizing k with
  | nil => exact h
  | cons cmd script ih =>
    refine ih ?_ fun r hr => hs r (List.mem_cons_of_mem _ hr)
    rcases k.exec_main cmd with heq | ⟨r, rfl, ha⟩
    · rwa [heq]
    · intro r' hr' hd'
      rw [(Table.mem_of_add ha).1, List.mem_append, List.mem_singleton] at hr'
      rcases hr' with hr' | rfl
      · exact h r' hr' hd'
      · exact absurd hd' (hs r' List.mem_cons_self)

/-- **The exception's line exempts the server**, whether it is added or was there. -/
theorem exec_exception {k : Kernel} {gw : IpAddr}
    (h : ∀ r ∈ k.main, r.dest = Cidr.host server → r.target ≠ .dev tunName) :
    (k.exec (.routeAdd ⟨Cidr.host server, .via gw⟩ .main)).main.Exempt server tunName := by
  by_cases hp : ∃ r ∈ k.main, r.dest = Cidr.host server
  · have hnone : k.main.add ⟨Cidr.host server, .via gw⟩ = none := Table.add_eq_none hp
    simp only [Kernel.exec, hnone, Option.getD_none]
    exact ⟨hp, h⟩
  · have hadd : k.main.add ⟨Cidr.host server, .via gw⟩ =
        some (k.main ++ [⟨Cidr.host server, .via gw⟩]) := by
      unfold Table.add
      rw [if_pos]
      refine ⟨le_rfl, List.all_eq_true.mpr fun r hr => ?_⟩
      by_contra hc
      exact hp ⟨r, hr, samePrefix_host_iff.mp (by simpa using hc)⟩
    simp only [Kernel.exec, hadd, Option.getD_some]
    refine ⟨⟨⟨Cidr.host server, .via gw⟩, by simp, rfl⟩, fun r hr hd => ?_⟩
    rcases List.mem_append.mp hr with hr | hr
    · exact h r hr hd
    · rw [List.mem_singleton] at hr
      subst hr
      simp

/-- Adding routes does not touch the rules. -/
theorem ipBatch_routes_rules {α : Type} (k : Kernel) (l : List α) (f : α → Route) :
    (ipBatch k (l.map fun a => .routeAdd (f a) .main)).rules4 = k.rules4 ∧
      (ipBatch k (l.map fun a => .routeAdd (f a) .main)).rules6 = k.rules6 := by
  induction l generalizing k with
  | nil => exact ⟨rfl, rfl⟩
  | cons a l ih => exact ih (k.exec (.routeAdd (f a) .main))

theorem ipBatch_cons (k : Kernel) (cmd : IpCommand) (s : List IpCommand) :
    ipBatch k (cmd :: s) = ipBatch (k.exec cmd) s := rfl

theorem ipBatch_append (k : Kernel) (s s' : List IpCommand) :
    ipBatch k (s ++ s') = ipBatch (ipBatch k s) s' := by
  simp [ipBatch]

/-- The rules a session leaves a family with. -/
def SessionRules (rules : List IpRule) : Prop :=
  rules = [mainRule] ∨ rules = [suppressRule, tunRule, mainRule]

theorem SessionRules.leadsMain {rules : List IpRule} (h : SessionRules rules) : LeadsMain rules := by
  rcases h with rfl | rfl
  · exact ⟨mainRule, [], rfl, rfl, .inl rfl⟩
  · exact ⟨suppressRule, _, rfl, rfl, .inr rfl⟩

/-- The lines of one family's policy, if it has one. -/
def policyLines (tunName : String) (fam6 override : Bool) :
    List IpCommand × List IpCommand × List IpCommand :=
  if override then emitPolicy tunName fam6 else ([], [], [])

/-- The deletions before a clean start find nothing. -/
theorem ipBatch_preclean {k : Kernel} (h4 : k.rules4 = [mainRule]) (h6 : k.rules6 = [mainRule])
    (fam6 override : Bool) :
    ipBatch k (policyLines tunName fam6 override).1 = k := by
  obtain ⟨main, rt, r4, r6⟩ := k
  simp only at h4 h6
  subst h4 h6
  cases override <;> cases fam6 <;> rfl

theorem ipBatch_policy (tunName : String) {k : Kernel} (fam6 override : Bool)
    (h : (if fam6 then k.rules6 else k.rules4) = [mainRule]) :
    SessionRules (if fam6 then (ipBatch k (policyLines tunName fam6 override).2.1).rules6
      else (ipBatch k (policyLines tunName fam6 override).2.1).rules4) ∧
    (if fam6 then (ipBatch k (policyLines tunName fam6 override).2.1).rules4 = k.rules4
      else (ipBatch k (policyLines tunName fam6 override).2.1).rules6 = k.rules6) := by
  obtain ⟨main, rt, r4, r6⟩ := k
  cases fam6 with
  | false =>
    simp only [Bool.false_eq_true, if_false] at h
    subst h
    cases override
    · exact ⟨.inl rfl, rfl⟩
    · exact ⟨.inr rfl, rfl⟩
  | true =>
    simp only [if_true] at h
    subst h
    cases override
    · exact ⟨.inl rfl, rfl⟩
    · exact ⟨.inr rfl, rfl⟩

/-- The batch of a plan whose server is carried, in its parts. -/
theorem buildRouteBatch_install (tunName : String) {plan : RoutePlan} {carry : Bool} {gw : IpAddr}
    (hexc : plan.serverException = ⟨Cidr.host server, gw⟩)
    (hcarry : (server.isIpv4 || carry) = true) :
    ∃ (incl : List Cidr) (byp : List ServerException) (v4 v6 : Bool),
      (buildRouteBatch plan tunName carry).preclean =
        (policyLines tunName false v4).1 ++ (policyLines tunName true v6).1 ∧
      (buildRouteBatch plan tunName carry).install =
        (.routeAdd ⟨Cidr.host server, .via gw⟩ .main) ::
          (incl.map (fun c => .routeAdd ⟨c, .dev tunName⟩ .main) ++
            (byp.map (fun b => .routeAdd ⟨b.dest, .via b.gateway⟩ .main) ++
              ((policyLines tunName false v4).2.1 ++ (policyLines tunName true v6).2.1))) := by
  refine ⟨plan.viaTun.filter fun c => !c.isDefaultOverride && (c.addr.isIpv4 || carry),
    plan.bypass.filter fun b => b.dest.addr.isIpv4 || carry,
    plan.viaTun.any fun c => c.isDefaultOverride && c.addr.isIpv4,
    plan.viaTun.any fun c => c.isDefaultOverride && c.addr.isIpv6 && carry, rfl, ?_⟩
  have hc : ((Cidr.host server).addr.isIpv4 || carry) = true := hcarry
  simp only [buildRouteBatch, hexc, hc, if_true, List.append_assoc, List.cons_append,
    List.nil_append, policyLines]

/-- Lines that add routes, then the policies: each family ends with a session's rules. -/
theorem install_rules (tunName : String) {k : Kernel} (h4 : k.rules4 = [mainRule]) (h6 : k.rules6 = [mainRule])
    (v4 v6 : Bool) :
    SessionRules (ipBatch k ((policyLines tunName false v4).2.1 ++
        (policyLines tunName true v6).2.1)).rules4 ∧
      SessionRules (ipBatch k ((policyLines tunName false v4).2.1 ++
        (policyLines tunName true v6).2.1)).rules6 := by
  rw [ipBatch_append]
  obtain ⟨ha, ha'⟩ := ipBatch_policy tunName false v4 h4
  generalize ipBatch k (policyLines tunName false v4).2.1 = k' at *
  obtain ⟨hb, hb'⟩ := ipBatch_policy tunName true v6 (ha'.trans h6)
  exact ⟨hb'.symm ▸ ha, hb⟩

/-- The routes the kernel makes for the interface are no host routes. -/
theorem connectedRoutes_ne_host {plan : RoutePlan} {v6Assigned : Bool} {r : Route}
    (hr : r ∈ connectedRoutes plan tunName v6Assigned) : r.dest ≠ Cidr.host server := by
  have hlen : r.dest.prefixLen = 24 ∨ r.dest.prefixLen = 64 := by
    unfold connectedRoutes at hr
    rcases List.mem_append.mp hr with hr | hr
    · rw [List.mem_singleton] at hr
      exact .inl (by rw [hr])
    · split at hr
      · split at hr
        · rw [List.mem_singleton] at hr
          exact .inr (by rw [hr])
        · cases hr
      · cases hr
  intro hd
  have hw : r.dest.prefixLen = server.width := by rw [hd, Cidr.host]
  cases server <;> simp only [IpAddr.width] at hw <;> omega

/-- **A started session exempts the server.** -/
theorem start_exempt {k : Kernel} {plan : RoutePlan} {gw : IpAddr} {v6Assigned : Bool}
    {fault : Nat → Option Fault} {ctrl : LinuxController} {sys : LinuxSys}
    (hexc : plan.serverException = ⟨Cidr.host server, gw⟩)
    (hcarry : (server.isIpv4 || carryV6 plan v6Assigned) = true)
    (hmain : ∀ r ∈ k.main, r.target ≠ .dev tunName)
    (h4 : k.rules4 = [mainRule]) (h6 : k.rules6 = [mainRule])
    (hstart : LinuxOps.start k plan tunName v6Assigned fault = .ok (ctrl, sys)) :
    sys.kernel.Exempt server tunName ∧ sys.history = [sys.kernel] ∧
      ctrl = ⟨gw, plan.origGateway6, tunName, carryV6 plan v6Assigned, fault⟩ := by
  unfold LinuxOps.start at hstart
  split at hstart
  · cases hstart
    simp only [hexc]
    refine ⟨?_, trivial, trivial⟩
    obtain ⟨incl, byp, v4, v6, hpre, hins⟩ := buildRouteBatch_install tunName hexc hcarry
    have hup : ∀ r ∈ (ipBatch k ((connectedRoutes plan tunName v6Assigned).map
        (.routeAdd · .main))).main, r.dest = Cidr.host server → r.target ≠ .dev tunName := by
      refine ipBatch_no_tun (fun r hr _ => hmain r hr) fun r hr => ?_
      simp only [List.mem_map, IpCommand.routeAdd.injEq, and_true, exists_eq_right] at hr
      exact connectedRoutes_ne_host hr
    obtain ⟨hr4, hr6⟩ := ipBatch_routes_rules k (connectedRoutes plan tunName v6Assigned) id
    simp only [id] at hr4 hr6
    generalize ipBatch k ((connectedRoutes plan tunName v6Assigned).map (.routeAdd · .main)) = up
      at *
    rw [hpre, hins, ipBatch_append, ipBatch_preclean (hr4.trans h4) (hr6.trans h6),
      ipBatch_preclean (hr4.trans h4) (hr6.trans h6), ipBatch_cons]
    refine ⟨ipBatch_exempt (exec_exception hup), ?_⟩
    -- the three kinds of route lines leave the rules; then come the policies
    rw [ipBatch_append, ipBatch_append]
    obtain ⟨i4, i6⟩ := ipBatch_routes_rules
      (up.exec (.routeAdd ⟨Cidr.host server, .via gw⟩ .main)) incl (fun c => ⟨c, .dev tunName⟩)
    generalize ipBatch (up.exec _) (incl.map _) = k₁ at *
    obtain ⟨b4, b6⟩ := ipBatch_routes_rules k₁ byp (fun b => ⟨b.dest, .via b.gateway⟩)
    generalize ipBatch k₁ (byp.map _) = k₂ at *
    obtain ⟨s4, s6⟩ := install_rules tunName
      (b4.trans (i4.trans (hr4.trans h4))) (b6.trans (i6.trans (hr6.trans h6))) v4 v6
    split
    · exact s4.leadsMain
    · exact s6.leadsMain
  · cases hstart

/-! ## Runs of the resolver -/

/-- Every kernel state since the session is up exempts the server. -/
def LinuxSys.Exempt (server : IpAddr) (tunName : String) (s : LinuxSys) : Prop :=
  s.kernel ∈ s.history ∧ ∀ k ∈ s.history, k.Exempt server tunName

theorem LinuxSys.Exempt.kernel {s : LinuxSys} (h : s.Exempt server tunName) :
    s.kernel.Exempt server tunName := h.2 _ h.1

theorem LinuxSys.Exempt.request {ctrl : LinuxController} {s : LinuxSys}
    {change : Table → Option Table} (h : s.Exempt server tunName)
    (hch : ∀ t t', t.Exempt server tunName → change t = some t' → t'.Exempt server tunName) :
    (ctrl.request change s).2.Exempt server tunName := by
  have hkeep : ({ s with requests := s.requests + 1 } : LinuxSys).Exempt server tunName := h
  have hdone : ∀ main, change s.kernel.main = some main →
      ({ s with
          requests := s.requests + 1
          kernel := { s.kernel with main }
          history := { s.kernel with main } :: s.history } : LinuxSys).Exempt server tunName := by
    intro main hm
    have hk : ({ s.kernel with main } : Kernel).Exempt server tunName :=
      ⟨hch _ _ h.kernel.1 hm, h.kernel.2⟩
    refine ⟨List.mem_cons_self, fun k hmem => ?_⟩
    rcases List.mem_cons.mp hmem with rfl | hmem
    · exact hk
    · exact h.2 k hmem
  unfold LinuxController.request
  split
  · exact hkeep
  · exact hkeep
  · rename_i main hm _
    split
    · exact hdone main hm
    · exact hdone main hm

/-- A request the kernel rejects is an error, whatever else happens to it. -/
theorem LinuxController.request_rejected {ctrl : LinuxController} {s : LinuxSys}
    {change : Table → Option Table} (h : change s.kernel.main = none) :
    (ctrl.request change s).1.isOk = false := by
  unfold LinuxController.request
  split
  · rfl
  · rfl
  · rename_i main hm _
    rw [h] at hm
    cases hm

theorem call_add_exempt {ctrl : LinuxController} (mode : SplitMode) (c : Cidr) (s : LinuxSys)
    (h : s.Exempt server tunName) :
    (ctrl.routeController.call mode .add c s).2.Exempt server tunName := by
  cases mode with
  | exclude =>
    simp only [RouteController.call, LinuxController.routeController, LinuxController.addBypass]
    split
    · exact h
    · exact LinuxSys.Exempt.request h fun t t' ht ha => ht.add ha
  | «include» =>
    simp only [RouteController.call, LinuxController.routeController, LinuxController.addViaTun]
    split
    · exact h
    · exact h.request fun t t' ht ha => ht.add ha

theorem call_remove_exempt {ctrl : LinuxController} (mode : SplitMode) (c : Cidr) (s : LinuxSys)
    (hc : c ≠ Cidr.host server) (h : s.Exempt server tunName) :
    (ctrl.routeController.call mode .remove c s).2.Exempt server tunName := by
  cases mode with
  | exclude =>
    simp only [RouteController.call, LinuxController.routeController, LinuxController.removeBypass]
    split
    · exact h
    · rename_i gw _
      have hreq : (ctrl.request (Table.delete · ⟨c, .via gw⟩) s).2.Exempt server tunName :=
        h.request fun t t' ht hd => ht.delete hc hd
      split
      · rename_i heq
        rw [heq] at hreq
        exact hreq
      · rename_i heq
        rw [heq] at hreq
        exact hreq
  | «include» =>
    simp only [RouteController.call, LinuxController.routeController, LinuxController.removeViaTun]
    split
    · exact h
    · exact h.request fun t t' ht hd => ht.delete hc hd

/-- **The server's own host route is refused in both directions.** -/
theorem call_add_server_fails {ctrl : LinuxController} (mode : SplitMode) (s : LinuxSys)
    (hgw : ∃ gw, ctrl.bypassGateway (Cidr.host server) = some gw)
    (hcarry : (server.isIpv4 || ctrl.carryV6) = true) (h : s.Exempt server tunName) :
    (ctrl.routeController.call mode .add (Cidr.host server) s).1.isOk = false := by
  have hpresent : ∀ target, s.kernel.main.add ⟨Cidr.host server, target⟩ = none := fun target =>
    Table.add_eq_none h.kernel.1.1
  cases mode with
  | exclude =>
    obtain ⟨gw, hgw⟩ := hgw
    simp only [RouteController.call, LinuxController.routeController, LinuxController.addBypass, hgw]
    exact LinuxController.request_rejected (hpresent _)
  | «include» =>
    have hcond : ((Cidr.host server).addr.isIpv6 && !ctrl.carryV6) = false := by
      simp only [Cidr.host, IpAddr.isIpv6]
      cases h4 : server.isIpv4 <;> simp_all
    simp only [RouteController.call, LinuxController.routeController, LinuxController.addViaTun,
      hcond, Bool.false_eq_true, if_false]
    exact LinuxController.request_rejected (hpresent _)

/-- **Server exemption.** For every plan, every main table without a route into the tunnel, every
sequence of snapshots and every pattern of failures, the kernel has at each moment of the session
a route for the server's address, and what it selects is never the tunnel. -/
theorem server_never_through_tunnel (baseMode : SplitMode) (includeCidrs excludeCidrs : List Cidr)
    (server gw : IpAddr) (gw6 : Option IpAddr) (tunAddr : IpAddr) (tunAddr6 : Option IpAddr)
    (plan : RoutePlan) (tunName : String) (v6Assigned : Bool) (fault : Nat → Option Fault)
    (k : Kernel) (ctrl : LinuxController) (sys : LinuxSys)
    (hplan : RoutePlan.fromSplit baseMode includeCidrs excludeCidrs server gw gw6 tunAddr tunAddr6 =
      .ok plan)
    (hcarry : (server.isIpv4 || carryV6 plan v6Assigned) = true)
    (hmain : ∀ r ∈ k.main, r.target ≠ .dev tunName)
    (h4 : k.rules4 = [mainRule]) (h6 : k.rules6 = [mainRule])
    (hstart : LinuxOps.start k plan tunName v6Assigned fault = .ok (ctrl, sys))
    (cs : List (SplitMode × Finset Cidr)) :
    ∃ r, Resolvers.cycles ctrl.routeController { sys := sys } cs = r ∧
      r.sys.kernel ∈ r.sys.history ∧
      ∀ k ∈ r.sys.history, k.select server ≠ [] ∧
        ∀ route ∈ k.select server, route.target ≠ .dev tunName := by
  obtain ⟨hfam, -, -, hexc, -, hgw6⟩ := RoutePlan.fromSplit_ok hplan
  obtain ⟨hk, hhist, rfl⟩ := start_exempt hexc hcarry hmain h4 h6 hstart
  have hsys : sys.Exempt server tunName := by
    refine ⟨by rw [hhist]; exact List.mem_singleton_self _, fun k hmem => ?_⟩
    rw [hhist, List.mem_singleton] at hmem
    rwa [hmem]
  -- the server's family has a gateway, so neither direction passes its route over
  have hgate : ∃ g, LinuxController.bypassGateway
      ⟨gw, plan.origGateway6, tunName, carryV6 plan v6Assigned, fault⟩ (Cidr.host server) =
        some g := by
    simp only [LinuxController.bypassGateway, Cidr.host, hgw6, RoutePlan.v6Gateway, IpAddr.isIpv6]
    rw [hfam] at hcarry ⊢
    by_cases hv4 : gw.isIpv4 = true
    · exact ⟨gw, by simp [hv4]⟩
    · have hcarry6 : carryV6 plan v6Assigned = true := by simpa [hv4] using hcarry
      exact ⟨gw, by simp [hv4, hcarry6]⟩
  obtain ⟨hend, -⟩ := Resolvers.cycles_of_refused call_add_exempt
    (fun mode s hs => call_add_server_fails mode s hgate hcarry hs) call_remove_exempt cs
    (r := { sys := sys }) ⟨hsys, fun m => by cases m <;> exact Finset.notMem_empty _⟩
  exact ⟨_, rfl, hend.1, fun k hmem => (hend.2 k hmem).select⟩

/-- The rules name the server in both directions, and so do the domains. -/
theorem server_never_through_tunnel_listed :
    ∃ plan ctrl sys r,
      RoutePlan.fromSplit .exclude [Cidr.host (.v4 0xcb007107)] [Cidr.host (.v4 0xcb007107)]
        (.v4 0xcb007107) (.v4 0xc0a80101) none (.v4 0x0a470002) none = .ok plan ∧
      LinuxOps.start ⟨[⟨⟨.v4 0, 0⟩, .via (.v4 0xc0a80101)⟩], [], [mainRule], [mainRule]⟩ plan
        "leshiy0" false (fun _ => none) = .ok (ctrl, sys) ∧
      Resolvers.cycles ctrl.routeController { sys := sys }
        [(.exclude, {Cidr.host (.v4 0xcb007107)}), (.exclude, ∅),
          (.include, {Cidr.host (.v4 0xcb007107)})] = r ∧
      ∀ k ∈ r.sys.history, k.select (.v4 0xcb007107) ≠ [] ∧
        ∀ route ∈ k.select (.v4 0xcb007107), route.target ≠ .dev "leshiy0" := by
  obtain ⟨r, hr, -, hsel⟩ := server_never_through_tunnel .exclude [Cidr.host (.v4 0xcb007107)]
    [Cidr.host (.v4 0xcb007107)] (.v4 0xcb007107) (.v4 0xc0a80101) none (.v4 0x0a470002) none
    _ "leshiy0" false (fun _ => none)
    ⟨[⟨⟨.v4 0, 0⟩, .via (.v4 0xc0a80101)⟩], [], [mainRule], [mainRule]⟩ _ _ rfl rfl
    (by simp) rfl rfl rfl
    [(.exclude, {Cidr.host (.v4 0xcb007107)}), (.exclude, ∅),
      (.include, {Cidr.host (.v4 0xcb007107)})]
  exact ⟨_, _, _, r, rfl, rfl, hr, hsel⟩

end

end Leshiy.Tun
