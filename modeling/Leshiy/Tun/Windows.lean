import Leshiy.Tun.Linux
import Leshiy.Tun.Resolver

/-!
# The Windows session

`WindowsOps::start` and its controller (`leshiy-tun/src/sys/windows.rs`, `sys/cleanup.rs`): the routes, the policy
`DisableSmartNameResolution` and the binding of IPv6 to the adapter that traffic left by. What belongs to the Wintun
adapter goes with it.

The changes are made one after the other and the guard is built last, so a `start` that fails or is dropped before
leaves what it has changed.
-/

namespace Leshiy.Tun

open Leshiy.Lib Leshiy.Client

/-- `net_route::Route`. -/
structure NetRoute where
  dest : Cidr
  gateway : Option IpAddr
  ifindex : Option Nat
  deriving DecidableEq

/-- A route of the system, which has no second one with the same destination, next hop and interface. -/
structure WinRoute where
  dest : Cidr
  nextHop : Option IpAddr
  ifindex : Nat
  deriving DecidableEq

/-- What a session changes. -/
structure WinHost where
  routes : Finset WinRoute
  /-- `DisableSmartNameResolution` -/
  smartPolicy : Option Nat
  /-- Whether IPv6 is bound to an adapter. -/
  v6Bound : Nat → Bool

/-- What the system knows of its interfaces. -/
structure Windows where
  /-- The Wintun adapter. -/
  adapter : Nat
  /-- The interface of a next hop that is given without one, if the system takes such a route. -/
  pick : IpAddr → Option Nat
  /-- The name that `netsh` lists for an index. -/
  ifaceName : Nat → Option String
  /-- The interface that `netsh` finds by a name. -/
  ifaceNamed : String → Option Nat
  ifaceNamed_name : ∀ i s, ifaceName i = some s → ifaceNamed s = some i
  ifaceNamed_empty : ifaceNamed "" = none

namespace Windows

variable (sys : Windows)

def row (r : NetRoute) : Option WinRoute :=
  (r.ifindex.or (r.gateway.bind sys.pick)).map fun i => ⟨r.dest, r.gateway, i⟩

/-- `Handle::add` -/
def add (r : NetRoute) (t : Finset WinRoute) : Option (Finset WinRoute) :=
  match sys.row r with
  | some k => if k ∈ t then none else some (insert k t)
  | none => none

/-- `Handle::delete` -/
def delete (r : NetRoute) (t : Finset WinRoute) : Option (Finset WinRoute) :=
  match sys.row r with
  | some k => if k ∈ t then some (t.erase k) else none
  | none => none

/-- The route of a `netsh interface ipv4` command, whose syntax is that of IPv4 alone. -/
def netshRoute (dest : Cidr) (iface : String) (gateway : IpAddr) : Option WinRoute :=
  if dest.addr.isIpv4 && gateway.isIpv4 then (sys.ifaceNamed iface).map fun i => ⟨dest, some gateway, i⟩ else none

def netshAddRoute (dest : Cidr) (iface : String) (gateway : IpAddr) (t : Finset WinRoute) : Finset WinRoute :=
  match sys.netshRoute dest iface gateway with
  | some k => insert k t
  | none => t

def netshDeleteRoute (iface : String) (gateway : IpAddr) (t : Finset WinRoute) (dest : Cidr) : Finset WinRoute :=
  match sys.netshRoute dest iface gateway with
  | some k => t.erase k
  | none => t

end Windows

def gatewayRoute (dest : Cidr) (gateway : IpAddr) (ifindex : Option Nat) : NetRoute := ⟨dest, some gateway, ifindex⟩

/-- The words that `reg query` prints. It fails where there is no value. -/
def regQuery (policy : Option Nat) : Option (List String) :=
  policy.map fun n => ["DisableSmartNameResolution", "REG_DWORD", "0x" ++ String.ofList (Nat.toDigits 16 n)]

def readSmartResolutionPolicy (policy : Option Nat) : Option String := (regQuery policy).bind List.getLast?

/-! ## The controller and the guard -/

/-- What a session's tasks share. -/
structure WinSys where
  routes : Finset WinRoute
  installedBypass : List Cidr
  /-- How many requests went to the system. -/
  requests : Nat

structure WindowsController where
  sys : Windows
  tunIdx : Option Nat
  tunAddr : IpAddr
  gateway : IpAddr
  gateway6 : Option IpAddr
  origIdx : Option Nat
  carryV6 : Bool
  /-- Which requests are refused, by their number. -/
  refused : Nat → Bool

namespace WindowsController

variable (ctrl : WindowsController)

def request (change : Finset WinRoute → Option (Finset WinRoute)) (s : WinSys) : IoResult × WinSys :=
  let failed := { s with requests := s.requests + 1 }
  if ctrl.refused s.requests then (.error "request refused", failed)
  else
    match change s.routes with
    | none => (.error "rejected by the system", failed)
    | some routes => (.ok (), { failed with routes })

def viaTunRoute (c : Cidr) : NetRoute :=
  match ctrl.tunIdx with
  | some idx => ⟨c, none, some idx⟩
  | none => ⟨c, some ctrl.tunAddr, none⟩

def bypassGateway (c : Cidr) : Option IpAddr :=
  if c.addr.isIpv4 then (if ctrl.gateway.isIpv4 then some ctrl.gateway else none)
  else if ctrl.carryV6 then ctrl.gateway6
  else none

/-- The route is recorded before the system is asked. -/
def addBypass (c : Cidr) (s : WinSys) : IoResult × WinSys :=
  match ctrl.bypassGateway c with
  | none => (.ok (), s)
  | some gw =>
    ctrl.request (ctrl.sys.add (gatewayRoute c gw ctrl.origIdx))
      { s with installedBypass := s.installedBypass ++ [c] }

def removeBypass (c : Cidr) (s : WinSys) : IoResult × WinSys :=
  match ctrl.bypassGateway c with
  | none => (.ok (), s)
  | some gw =>
    match ctrl.request (ctrl.sys.delete (gatewayRoute c gw ctrl.origIdx)) s with
    | (.error e, s) => (.error e, s)
    | (.ok _, s) => (.ok (), { s with installedBypass := s.installedBypass.filter (· != c) })

def skipsViaTun (c : Cidr) : Bool := c.addr.isIpv6 && (!ctrl.carryV6 || ctrl.tunIdx.isNone)

def addViaTun (c : Cidr) (s : WinSys) : IoResult × WinSys :=
  if ctrl.skipsViaTun c then (.ok (), s) else ctrl.request (ctrl.sys.add (ctrl.viaTunRoute c)) s

def removeViaTun (c : Cidr) (s : WinSys) : IoResult × WinSys :=
  if ctrl.skipsViaTun c then (.ok (), s) else ctrl.request (ctrl.sys.delete (ctrl.viaTunRoute c)) s

def routeController : RouteController WinSys where
  addBypass := ctrl.addBypass
  removeBypass := ctrl.removeBypass
  addViaTun := ctrl.addViaTun
  removeViaTun := ctrl.removeViaTun

/-- One turn of `cleanup::remove_owned`. -/
def removeOwned (s : WinSys) (c : Cidr) : WinSys :=
  match ctrl.removeBypass c s with
  | (.error _, s) => s
  | (.ok _, s) => { s with installedBypass := s.installedBypass.filter (· != c) }

/-- `teardown_bypass`. A session that is dropped meanwhile, or before, has `reached` some of the routes or none. -/
def teardownBypass (reached : Cidr → Bool) (s : WinSys) : WinSys :=
  (s.installedBypass.filter reached).foldl ctrl.removeOwned s

end WindowsController

structure WindowsTeardown where
  origIface : String
  gateway : IpAddr
  v6DisabledIdx : Option Nat
  smartBackup : Option String
  installedBypass : List Cidr

/-- `Drop` of the guard. -/
def WindowsTeardown.drop (g : WindowsTeardown) (sys : Windows) (h : WinHost) : WinHost where
  routes := g.installedBypass.foldl (sys.netshDeleteRoute g.origIface g.gateway) h.routes
  smartPolicy := g.smartBackup.map fun v => if v.toList.getLast? = some '1' then 1 else 0
  v6Bound :=
    match g.v6DisabledIdx with
    | some idx => Function.update h.v6Bound idx true
    | none => h.v6Bound

/-! ## Starting a session -/

/-- How the wait for an addition ends. -/
inductive AddEnd where
  | answered
  | refused
  /-- `start` is dropped while it waits. -/
  | cancelled (added : Bool)
  deriving DecidableEq

/-- Where `start` ends, other than in an addition. -/
inductive WinFault where
  | handle
  | defaultRoute
  | device
  | tunName
  | controller
  deriving DecidableEq

/-- The arguments of `start`, and how its steps end. -/
structure WinStart where
  plan : RoutePlan
  forceDns : Bool
  ipv6Killswitch : Bool
  /-- The interface of the default route, if it could be read. -/
  origIdx : Option Nat
  /-- `device.tun_index()` succeeds. -/
  tunIndexed : Bool
  /-- `netsh interface ipv6 add address` succeeds. -/
  v6Assigned : Bool
  /-- The additions, by their number. -/
  adds : Nat → AddEnd
  /-- The egress adapter's binding can be read. -/
  bindingRead : Bool
  /-- It can be disabled. -/
  unbinds : Bool
  fault : Option WinFault

/-- The table, and how many additions have been waited for. -/
structure Additions where
  routes : Finset WinRoute
  count : Nat

/-- `start` has returned an error or has been dropped, or it has returned a session. -/
inductive WinStarted where
  | failed (h : WinHost)
  | up (h : WinHost) (guard : WindowsTeardown)

namespace WinStart

variable (a : WinStart) (sys : Windows)

def carry : Bool := carryV6 a.plan a.v6Assigned

def origIface : String := (a.origIdx.bind sys.ifaceName).getD ""

def appliesV6off : Bool := a.ipv6Killswitch || (a.plan.tunAddr6.isSome && !a.carry)

def controller (refused : Nat → Bool) : WindowsController where
  sys
  tunIdx := if a.tunIndexed then some sys.adapter else none
  tunAddr := a.plan.tunAddr
  gateway := a.plan.serverException.gateway
  gateway6 := a.plan.origGateway6
  origIdx := a.origIdx
  carryV6 := a.carry
  refused

/-- `handle.add(..).await`: whether the route has been added. -/
def add (r : NetRoute) (s : Additions) : Except (Finset WinRoute) (Bool × Additions) :=
  match a.adds s.count with
  | .cancelled added => .error (if added then (sys.add r s.routes).getD s.routes else s.routes)
  | .refused => .ok (false, { s with count := s.count + 1 })
  | .answered =>
    match sys.add r s.routes with
    | some routes => .ok (true, { routes, count := s.count + 1 })
    | none => .ok (false, { s with count := s.count + 1 })

def exceptionRoute : NetRoute :=
  let exc := a.plan.serverException
  gatewayRoute exc.dest exc.gateway (if exc.dest.addr.isIpv4 then a.origIdx else none)

def addException (s : Additions) : Except (Finset WinRoute) Additions :=
  let exc := a.plan.serverException
  match a.add sys a.exceptionRoute s with
  | .error t => .error t
  | .ok (added, s) =>
    if !added && exc.dest.addr.isIpv4 then
      .ok { s with routes := sys.netshAddRoute exc.dest (a.origIface sys) exc.gateway s.routes }
    else .ok s

def addViaTuns : List Cidr → Additions → Except (Finset WinRoute) Additions
  | [], s => .ok s
  | c :: cs, s =>
    if (a.controller sys fun _ => false).skipsViaTun c then addViaTuns cs s
    else
      match a.add sys ((a.controller sys fun _ => false).viaTunRoute c) s with
      | .error t => .error t
      | .ok (_, s) => addViaTuns cs s

def bypassRoute (b : ServerException) : NetRoute :=
  gatewayRoute b.dest b.gateway (if b.dest.addr.isIpv4 then a.origIdx else none)

/-- A bypass is recorded after the system has answered. -/
def addBypasses : List ServerException → Additions × List Cidr → Except (Finset WinRoute) (Additions × List Cidr)
  | [], s => .ok s
  | b :: bs, s =>
    if b.dest.addr.isIpv6 && !a.carry then addBypasses bs s
    else
      match a.add sys (a.bypassRoute b) s.1 with
      | .error t => .error t
      | .ok (_, s') => addBypasses bs (s', s.2 ++ [b.dest])

/-- All additions of `start`. -/
def addRoutes (t : Finset WinRoute) : Except (Finset WinRoute) (Additions × List Cidr) :=
  (a.addException sys { routes := t, count := 0 }).bind fun s =>
    (a.addViaTuns sys a.plan.viaTun s).bind fun s => a.addBypasses sys a.plan.bypass (s, [])

/-- The policy, with its value before. -/
def setPolicy (h : WinHost) : WinHost × Option String :=
  if a.forceDns then ({ h with smartPolicy := some 1 }, readSmartResolutionPolicy h.smartPolicy) else (h, none)

def v6BindingEnabled (h : WinHost) (idx : Nat) : Option Bool := if a.bindingRead then some (h.v6Bound idx) else none

/-- The binding of IPv6 to the egress adapter, and the adapter if it has been taken away. -/
def unbindV6 (h : WinHost) : WinHost × Option Nat :=
  match a.appliesV6off, a.origIdx with
  | true, some idx =>
    match a.v6BindingEnabled h idx with
    | some true =>
      if a.unbinds then ({ h with v6Bound := Function.update h.v6Bound idx false }, some idx) else (h, none)
    | _ => (h, none)
  | _, _ => (h, none)

/-- The routes, the policy and the binding, and then the guard. -/
def changeSystem (h : WinHost) : WinStarted :=
  match a.addRoutes sys h.routes with
  | .error t => .failed { h with routes := t }
  | .ok (s, installedBypass) =>
    let policy := a.setPolicy { h with routes := s.routes }
    let binding := a.unbindV6 policy.1
    if a.fault = some .controller then .failed binding.1
    else
      .up binding.1 {
        origIface := a.origIface sys
        gateway := a.plan.serverException.gateway
        v6DisabledIdx := binding.2
        smartBackup := policy.2
        installedBypass }

/-- `WindowsOps::start` -/
def start (h : WinHost) : WinStarted :=
  if !a.plan.tunAddr.isIpv4 then .failed h
  else
    match a.fault with
    | some .handle | some .defaultRoute | some .device | some .tunName => .failed h
    | _ => a.changeSystem sys h

end WinStart

/-! ## What the additions leave -/

namespace Windows

variable {sys : Windows}

/-- A table with more routes: those that are asked for. -/
def Gets (sys : Windows) (t : Finset WinRoute) (rs : List NetRoute) (t' : Finset WinRoute) : Prop :=
  ∀ k, k ∈ t' ↔ k ∈ t ∨ ∃ r ∈ rs, sys.row r = some k

theorem Gets.refl (t : Finset WinRoute) : sys.Gets t [] t := by
  intro k
  simp

theorem Gets.append {t t' t'' : Finset WinRoute} {rs rs' : List NetRoute} (h : sys.Gets t rs t')
    (h' : sys.Gets t' rs' t'') : sys.Gets t (rs ++ rs') t'' := by
  intro k
  rw [h' k, h k]
  simp only [List.mem_append, or_and_right, exists_or, or_assoc]

/-- A route that is not taken is there already, or has no interface. -/
theorem gets_add (r : NetRoute) (t : Finset WinRoute) : sys.Gets t [r] ((sys.add r t).getD t) := by
  intro k
  simp only [List.mem_singleton, exists_eq_left]
  unfold add
  cases hrow : sys.row r with
  | none => simp
  | some k' =>
    simp only [Option.some.injEq]
    by_cases hk : k' ∈ t
    · rw [if_pos hk]
      constructor
      · exact .inl
      · rintro (h | rfl)
        · exact h
        · exact hk
    · rw [if_neg hk, Option.getD_some, Finset.mem_insert, or_comm, eq_comm]

/-- The route that the fallback adds is the one that was asked for. -/
theorem row_of_netshRoute {a : WinStart} {dest : Cidr} {gateway : IpAddr} {k : WinRoute}
    (h : sys.netshRoute dest (a.origIface sys) gateway = some k) :
    sys.row (gatewayRoute dest gateway a.origIdx) = some k ∧ dest.addr.isIpv4 = true ∧ gateway.isIpv4 = true := by
  unfold netshRoute at h
  split at h
  · next hv4 =>
    rw [Bool.and_eq_true] at hv4
    refine ⟨?_, hv4⟩
    unfold WinStart.origIface at h
    cases hidx : a.origIdx with
    | none =>
      simp only [hidx, Option.bind_none, Option.getD_none, sys.ifaceNamed_empty, Option.map_none] at h
      cases h
    | some i =>
      cases hname : sys.ifaceName i with
      | none =>
        simp only [hidx, Option.bind_some, hname, Option.getD_none, sys.ifaceNamed_empty, Option.map_none] at h
        cases h
      | some name =>
        simp only [hidx, Option.bind_some, hname, Option.getD_some, sys.ifaceNamed_name i name hname,
          Option.map_some] at h
        rw [← h]
        rfl
  · cases h

end Windows

namespace WinStart

/-- The routes that the system takes while `start` waits for them. -/
def accepted (adds : Nat → AddEnd) : Nat → List NetRoute → List NetRoute
  | _, [] => []
  | n, r :: rs =>
    match adds n with
    | .answered => r :: accepted adds (n + 1) rs
    | .refused => accepted adds (n + 1) rs
    | .cancelled added => if added then [r] else []

def cancelledIn (adds : Nat → AddEnd) : Nat → List NetRoute → Bool
  | _, [] => false
  | n, _ :: rs =>
    match adds n with
    | .cancelled _ => true
    | _ => cancelledIn adds (n + 1) rs

section

variable {adds : Nat → AddEnd}

theorem cancelledIn_append {n : Nat} {rs rs' : List NetRoute} :
    cancelledIn adds n (rs ++ rs') = (cancelledIn adds n rs || cancelledIn adds (n + rs.length) rs') := by
  induction rs generalizing n with
  | nil => simp [cancelledIn]
  | cons r rs ih =>
    have hlen : n + 1 + rs.length = n + (r :: rs).length := by
      rw [List.length_cons]
      omega
    cases hend : adds n with
    | cancelled added => simp [cancelledIn, hend]
    | answered | refused => simp [cancelledIn, hend, ih, hlen]

theorem accepted_append {n : Nat} {rs rs' : List NetRoute} :
    accepted adds n (rs ++ rs') =
      accepted adds n rs ++ if cancelledIn adds n rs then [] else accepted adds (n + rs.length) rs' := by
  induction rs generalizing n with
  | nil => simp [cancelledIn, accepted]
  | cons r rs ih =>
    have hlen : n + 1 + rs.length = n + (r :: rs).length := by
      rw [List.length_cons]
      omega
    cases hend : adds n with
    | cancelled added => simp [cancelledIn, accepted, hend]
    | answered | refused => simp [cancelledIn, accepted, hend, ih, hlen]

end

variable {a : WinStart} {sys : Windows}

/-- One addition: `start` is dropped in it or goes on, with what was taken. -/
theorem add_cases (a : WinStart) (sys : Windows) (r : NetRoute) (s : Additions) :
    (cancelledIn a.adds s.count [r] = true ∧
      ∃ t, a.add sys r s = .error t ∧ sys.Gets s.routes (accepted a.adds s.count [r]) t) ∨
    (cancelledIn a.adds s.count [r] = false ∧
      ∃ added t, a.add sys r s = .ok (added, ⟨t, s.count + 1⟩) ∧
        sys.Gets s.routes (accepted a.adds s.count [r]) t ∧
        (added = true → ∀ k, sys.row r = some k → k ∈ t)) := by
  have hgets := sys.gets_add r s.routes
  unfold add
  simp only [cancelledIn, accepted]
  cases a.adds s.count with
  | cancelled added =>
    refine .inl ⟨rfl, _, rfl, ?_⟩
    cases added with
    | true => simpa using hgets
    | false => simpa using Windows.Gets.refl s.routes
  | refused => exact .inr ⟨rfl, false, s.routes, rfl, Windows.Gets.refl s.routes, by simp⟩
  | answered =>
    refine .inr ⟨rfl, ?_⟩
    cases hadd : sys.add r s.routes with
    | none =>
      rw [hadd] at hgets
      exact ⟨false, s.routes, rfl, hgets, by simp⟩
    | some t =>
      rw [hadd] at hgets
      exact ⟨true, t, rfl, hgets, fun _ k hk => (hgets k).mpr (.inr ⟨r, by simp, hk⟩)⟩

/-- Additions in a row. -/
def addAll (a : WinStart) (sys : Windows) : List NetRoute → Additions → Except (Finset WinRoute) Additions
  | [], s => .ok s
  | r :: rs, s =>
    match a.add sys r s with
    | .error t => .error t
    | .ok (_, s) => addAll a sys rs s

theorem addAll_cases (a : WinStart) (sys : Windows) (rs : List NetRoute) (s : Additions) :
    (cancelledIn a.adds s.count rs = true ∧
      ∃ t, a.addAll sys rs s = .error t ∧ sys.Gets s.routes (accepted a.adds s.count rs) t) ∨
    (cancelledIn a.adds s.count rs = false ∧
      ∃ t, a.addAll sys rs s = .ok ⟨t, s.count + rs.length⟩ ∧ sys.Gets s.routes (accepted a.adds s.count rs) t) := by
  induction rs generalizing s with
  | nil => exact .inr ⟨rfl, s.routes, rfl, Windows.Gets.refl s.routes⟩
  | cons r rs ih =>
    rw [← List.singleton_append, cancelledIn_append, accepted_append, List.singleton_append, List.length_singleton]
    simp only [addAll]
    rcases add_cases a sys r s with ⟨hc, t, hadd, hgets⟩ | ⟨hc, added, t, hadd, hgets, -⟩
    · refine .inl ⟨by rw [hc, Bool.true_or], t, by rw [hadd], ?_⟩
      rw [hc, if_pos rfl, List.append_nil]
      exact hgets
    · rw [hc, Bool.false_or, if_neg Bool.false_ne_true, hadd]
      rcases ih ⟨t, s.count + 1⟩ with ⟨hc', t', hall, hgets'⟩ | ⟨hc', t', hall, hgets'⟩
      · exact .inl ⟨hc', t', hall, hgets.append hgets'⟩
      · refine .inr ⟨hc', t', ?_, hgets.append hgets'⟩
        rw [List.length_cons, Nat.add_comm rs.length, ← Nat.add_assoc]
        exact hall

/-- What `start` asks for. -/
def viaTunRequests (a : WinStart) (sys : Windows) : List NetRoute :=
  (a.plan.viaTun.filter fun c => !(a.controller sys fun _ => false).skipsViaTun c).map
    (a.controller sys fun _ => false).viaTunRoute

def carriedBypass (a : WinStart) : List ServerException :=
  a.plan.bypass.filter fun b => !(b.dest.addr.isIpv6 && !a.carry)

def requests (a : WinStart) (sys : Windows) : List NetRoute :=
  a.exceptionRoute :: (a.viaTunRequests sys ++ a.carriedBypass.map a.bypassRoute)

theorem addViaTuns_eq (s : Additions) :
    a.addViaTuns sys a.plan.viaTun s = a.addAll sys (a.viaTunRequests sys) s := by
  unfold viaTunRequests
  induction a.plan.viaTun generalizing s with
  | nil => rfl
  | cons c cs ih =>
    unfold addViaTuns
    by_cases hskip : (a.controller sys fun _ => false).skipsViaTun c = true
    · rw [if_pos hskip, ih, List.filter_cons_of_neg (by simp [hskip])]
    · rw [if_neg hskip, List.filter_cons_of_pos (by simp [hskip]), List.map_cons, addAll]
      cases a.add sys ((a.controller sys fun _ => false).viaTunRoute c) s with
      | error t => rfl
      | ok res => exact ih res.2

theorem addBypasses_eq (s : Additions × List Cidr) :
    a.addBypasses sys a.plan.bypass s =
      (a.addAll sys (a.carriedBypass.map a.bypassRoute) s.1).map fun s' => (s', s.2 ++ a.carriedBypass.map (·.dest)) := by
  unfold carriedBypass
  induction a.plan.bypass generalizing s with
  | nil => simp [addBypasses, addAll, Except.map]
  | cons b bs ih =>
    unfold addBypasses
    by_cases hskip : (b.dest.addr.isIpv6 && !a.carry) = true
    · rw [if_pos hskip, ih, List.filter_cons_of_neg (by simp [hskip])]
    · rw [if_neg hskip, List.filter_cons_of_pos (by simp [hskip]), List.map_cons]
      simp only [List.map_cons, addAll]
      cases a.add sys (a.bypassRoute b) s.1 with
      | error t => rfl
      | ok res => simp only [ih, List.append_assoc, List.singleton_append]

/-- The exception, with the fallback when the system has not taken it. -/
theorem addException_cases (a : WinStart) (sys : Windows) (t₀ : Finset WinRoute) :
    (cancelledIn a.adds 0 [a.exceptionRoute] = true ∧
      ∃ t, a.addException sys ⟨t₀, 0⟩ = .error t ∧ sys.Gets t₀ (accepted a.adds 0 [a.exceptionRoute]) t) ∨
    (cancelledIn a.adds 0 [a.exceptionRoute] = false ∧
      ∃ t, a.addException sys ⟨t₀, 0⟩ = .ok ⟨t, 1⟩ ∧
        ∀ k, k ∈ t ↔ (k ∈ t₀ ∨ ∃ r ∈ accepted a.adds 0 [a.exceptionRoute], sys.row r = some k) ∨
          sys.netshRoute a.plan.serverException.dest (a.origIface sys) a.plan.serverException.gateway = some k) := by
  unfold addException
  rcases add_cases a sys a.exceptionRoute ⟨t₀, 0⟩ with
    ⟨hc, t, hadd, hgets⟩ | ⟨hc, added, t, hadd, hgets, hin⟩
  · exact .inl ⟨hc, t, by rw [hadd], hgets⟩
  · refine .inr ⟨hc, ?_⟩
    rw [hadd]
    simp only
    by_cases hfall : (!added && a.plan.serverException.dest.addr.isIpv4) = true
    · rw [if_pos hfall]
      refine ⟨_, rfl, fun k => ?_⟩
      unfold Windows.netshAddRoute
      rw [← hgets k]
      cases sys.netshRoute a.plan.serverException.dest (a.origIface sys) a.plan.serverException.gateway with
      | none => simp
      | some k' => simp [or_comm, eq_comm]
    · rw [if_neg hfall]
      refine ⟨t, rfl, fun k => ?_⟩
      rw [← hgets k]
      refine ⟨.inl, ?_⟩
      rintro (hk | hk)
      · exact hk
      · -- the fallback's route has been taken
        obtain ⟨hrow, hv4, -⟩ := Windows.row_of_netshRoute hk
        refine hin ?_ k ?_
        · simpa [hv4] using hfall
        · simpa [exceptionRoute, hv4] using hrow

/-- A route that `start` puts in. -/
def Installs (a : WinStart) (sys : Windows) (k : WinRoute) : Prop :=
  (∃ r ∈ accepted a.adds 0 (a.requests sys), sys.row r = some k) ∨
    (cancelledIn a.adds 0 [a.exceptionRoute] = false ∧
      sys.netshRoute a.plan.serverException.dest (a.origIface sys) a.plan.serverException.gateway = some k)

def cancelled (a : WinStart) (sys : Windows) : Bool := cancelledIn a.adds 0 (a.requests sys)

theorem addAll_append (rs rs' : List NetRoute) (s : Additions) :
    a.addAll sys (rs ++ rs') s = (a.addAll sys rs s).bind (a.addAll sys rs') := by
  induction rs generalizing s with
  | nil => rfl
  | cons r rs ih =>
    simp only [List.cons_append, addAll]
    cases a.add sys r s with
    | error t => rfl
    | ok res => exact ih res.2

/-- The two loops are one row of additions. -/
theorem addLoops_eq (s : Additions) :
    ((a.addViaTuns sys a.plan.viaTun s).bind fun s => a.addBypasses sys a.plan.bypass (s, [])) =
      (a.addAll sys (a.viaTunRequests sys ++ a.carriedBypass.map a.bypassRoute) s).map
        fun s => (s, a.carriedBypass.map (·.dest)) := by
  rw [addViaTuns_eq, addAll_append]
  cases a.addAll sys (a.viaTunRequests sys) s with
  | error t => rfl
  | ok s' => simp only [Except.bind, addBypasses_eq, List.nil_append]

/-- **The additions of `start`**: it is dropped in one of them or comes to their end, with the routes it puts in. -/
theorem addRoutes_cases (a : WinStart) (sys : Windows) (t₀ : Finset WinRoute) :
    (a.cancelled sys = true ∧ ∃ t, a.addRoutes sys t₀ = .error t ∧ ∀ k, k ∈ t ↔ k ∈ t₀ ∨ a.Installs sys k) ∨
    (a.cancelled sys = false ∧
      ∃ s, a.addRoutes sys t₀ = .ok (s, a.carriedBypass.map (·.dest)) ∧ ∀ k, k ∈ s.routes ↔ k ∈ t₀ ∨ a.Installs sys k) := by
  unfold cancelled Installs requests
  rw [← List.singleton_append, cancelledIn_append, accepted_append, List.length_singleton, Nat.zero_add]
  rcases addException_cases a sys t₀ with ⟨hc, t, hexc, hgets⟩ | ⟨hc, t, hexc, hgets⟩
  · rw [hc, addRoutes, hexc]
    exact .inl ⟨rfl, t, rfl, fun k => by simpa using hgets k⟩
  · have hbind : a.addRoutes sys t₀ = (a.addAll sys (a.viaTunRequests sys ++ a.carriedBypass.map a.bypassRoute)
        ⟨t, 1⟩).map fun s => (s, a.carriedBypass.map (·.dest)) := by
      rw [addRoutes, hexc]
      exact addLoops_eq ⟨t, 1⟩
    rw [hc, hbind, Bool.false_or, if_neg Bool.false_ne_true]
    simp only [true_and]
    -- the exception and its fallback first, then the loops
    have hall : ∀ t', sys.Gets t (accepted a.adds 1 (a.viaTunRequests sys ++ a.carriedBypass.map a.bypassRoute)) t' →
        ∀ k, k ∈ t' ↔ k ∈ t₀ ∨ (∃ r ∈ accepted a.adds 0 [a.exceptionRoute] ++
            accepted a.adds 1 (a.viaTunRequests sys ++ a.carriedBypass.map a.bypassRoute), sys.row r = some k) ∨
          sys.netshRoute a.plan.serverException.dest (a.origIface sys) a.plan.serverException.gateway = some k := by
      intro t' h k
      rw [h k, hgets k]
      simp only [List.mem_append, or_and_right, exists_or, or_assoc]
      exact or_congr_right (or_congr_right or_comm)
    rcases addAll_cases a sys (a.viaTunRequests sys ++ a.carriedBypass.map a.bypassRoute) ⟨t, 1⟩ with
      ⟨hc', t', hloops, hgets'⟩ | ⟨hc', t', hloops, hgets'⟩
    · rw [hloops]
      exact .inl ⟨hc', t', rfl, hall t' hgets'⟩
    · rw [hloops]
      exact .inr ⟨hc', _, rfl, hall t' hgets'⟩

/-! ## What the other settings become -/

/-- The egress adapter, if `start` takes IPv6 away from it. -/
def unbound (a : WinStart) (h : WinHost) : Option Nat :=
  if a.appliesV6off && a.bindingRead && a.unbinds then a.origIdx.filter fun i => h.v6Bound i else none

/-- The host after all changes of `start`. -/
def changed (a : WinStart) (h : WinHost) (routes : Finset WinRoute) : WinHost where
  routes
  smartPolicy := if a.forceDns then some 1 else h.smartPolicy
  v6Bound :=
    match a.unbound h with
    | some idx => Function.update h.v6Bound idx false
    | none => h.v6Bound

theorem unbindV6_eq (h : WinHost) :
    a.unbindV6 h =
      ({ h with
          v6Bound :=
            match a.unbound h with
            | some idx => Function.update h.v6Bound idx false
            | none => h.v6Bound },
        a.unbound h) := by
  unfold unbindV6 unbound v6BindingEnabled
  cases a.appliesV6off with
  | false => rfl
  | true =>
    cases a.origIdx with
    | none => simp
    | some idx => cases a.bindingRead <;> cases hb : h.v6Bound idx <;> cases a.unbinds <;>
        simp [hb, Option.filter_some]

/-- `start` has ended before it has changed anything. -/
def BeforeAdapter (a : WinStart) : Prop :=
  a.plan.tunAddr.isIpv4 = false ∨ a.fault = some .handle ∨ a.fault = some .defaultRoute ∨ a.fault = some .device ∨
    a.fault = some .tunName

/-- The guard that `start` returns. -/
def guard (a : WinStart) (sys : Windows) (h : WinHost) : WindowsTeardown where
  origIface := a.origIface sys
  gateway := a.plan.serverException.gateway
  v6DisabledIdx := a.unbound h
  smartBackup := if a.forceDns then readSmartResolutionPolicy h.smartPolicy else none
  installedBypass := a.carriedBypass.map (·.dest)

theorem changeSystem_eq (a : WinStart) (sys : Windows) (h : WinHost) :
    ∃ routes, (∀ k, k ∈ routes ↔ k ∈ h.routes ∨ a.Installs sys k) ∧
      a.changeSystem sys h =
        if a.cancelled sys then .failed { h with routes }
        else if a.fault = some .controller then .failed (a.changed h routes)
        else .up (a.changed h routes) (a.guard sys h) := by
  unfold changeSystem
  rcases addRoutes_cases a sys h.routes with ⟨hc, t, hadd, hmem⟩ | ⟨hc, s, hadd, hmem⟩
  · exact ⟨t, hmem, by rw [hadd, hc, if_pos rfl]⟩
  · refine ⟨s.routes, hmem, ?_⟩
    rw [hadd, hc, if_neg Bool.false_ne_true]
    simp only [unbindV6_eq]
    unfold changed guard setPolicy unbound
    cases a.forceDns <;> rfl

/-- **How `start` ends**, and what it has put in. -/
theorem start_cases (a : WinStart) (sys : Windows) (h : WinHost) :
    (a.BeforeAdapter ∧ a.start sys h = .failed h) ∨
    (¬ a.BeforeAdapter ∧ ∃ routes, (∀ k, k ∈ routes ↔ k ∈ h.routes ∨ a.Installs sys k) ∧
      a.start sys h =
        if a.cancelled sys then .failed { h with routes }
        else if a.fault = some .controller then .failed (a.changed h routes)
        else .up (a.changed h routes) (a.guard sys h)) := by
  have hrest := a.changeSystem_eq sys h
  unfold start
  by_cases hv4 : a.plan.tunAddr.isIpv4 = true
  · rw [if_neg (by simp [hv4])]
    generalize hfault : a.fault = fault at hrest
    cases fault with
    | none => exact .inr ⟨by simp [BeforeAdapter, hv4, hfault], hrest⟩
    | some f =>
      cases f with
      | controller => exact .inr ⟨by simp [BeforeAdapter, hv4, hfault], hrest⟩
      | handle | defaultRoute | device | tunName => exact .inl ⟨by simp [BeforeAdapter, hfault], rfl⟩
  · rw [Bool.not_eq_true] at hv4
    exact .inl ⟨.inl hv4, by rw [hv4]; rfl⟩

end WinStart

end Leshiy.Tun
