import Leshiy.Client.SplitTunnel

/-!
# Route planning

`leshiy-tun/src/route_plan.rs`, and the step of `engine.rs` that builds a session's plan. The
planner makes no system call: it turns the rules into routes, whose meaning is the kernel's
longest-prefix match.
-/

namespace Leshiy.Tun

open Leshiy.Lib Leshiy.Client

structure Cidr where
  addr : IpAddr
  prefixLen : Nat
  deriving DecidableEq, Repr

namespace Cidr

def ofSplit (c : SplitCidr) : Cidr := ⟨c.addr, c.prefixLen⟩

def covers (c : Cidr) (ip : IpAddr) : Bool := c.addr.covers c.prefixLen ip

/-- The whole of one address, `/32` or `/128`. -/
def host (ip : IpAddr) : Cidr := ⟨ip, ip.width⟩

theorem host_covers_iff {ip ip' : IpAddr} : (host ip).covers ip' = true ↔ ip' = ip :=
  IpAddr.covers_width_iff

/-- The derived order: by address, then by prefix length. -/
def key (c : Cidr) : (ℕ ×ₗ ℕ) ×ₗ ℕ := toLex (c.addr.key, c.prefixLen)

theorem key_injective : Function.Injective key := by
  rintro ⟨a, p⟩ ⟨b, q⟩ h
  obtain ⟨h1, h2⟩ := Prod.mk.inj (toLex.injective h)
  exact Cidr.mk.injEq _ _ _ _ ▸ ⟨IpAddr.key_injective h1, h2⟩

instance : LinearOrder Cidr := LinearOrder.lift' key key_injective

/-- The four halves that override a default route without deleting it. -/
def isDefaultOverride (c : Cidr) : Bool :=
  c.prefixLen == 1 &&
    match c.addr with
    | .v4 a => a == 0 || a == 0x80000000
    | .v6 a => a == 0 || a == 0x80000000000000000000000000000000

end Cidr

/-- A route that escapes the tunnel. -/
structure ServerException where
  dest : Cidr
  gateway : IpAddr
  deriving DecidableEq, Repr

structure RoutePlan where
  tunAddr : IpAddr
  tunAddr6 : Option IpAddr
  viaTun : List Cidr
  serverException : ServerException
  bypass : List ServerException
  origGateway6 : Option IpAddr
  deriving DecidableEq, Repr

inductive RoutePlanError where
  | familyMismatch (server gateway : IpAddr)
  deriving DecidableEq, Repr

namespace RoutePlan

/-- The override halves of an exclude base, IPv6 only when the tunnel has an IPv6 address. -/
def defaultHalves (baseMode : SplitMode) (tunAddr6 : Option IpAddr) : List Cidr :=
  match baseMode with
  | .exclude =>
    [⟨.v4 0, 1⟩, ⟨.v4 0x80000000, 1⟩] ++
      if tunAddr6.isSome then
        [⟨.v6 0, 1⟩, ⟨.v6 0x80000000000000000000000000000000, 1⟩]
      else []
  | .include => []

/-- The gateway IPv6 traffic left through before the session. -/
def v6Gateway (origGateway : IpAddr) (origGateway6 : Option IpAddr) : Option IpAddr :=
  if origGateway.isIpv6 then some origGateway else origGateway6

/-- The original gateway of the family of `a`. -/
def gatewayFor (origGateway : IpAddr) (origGateway6 : Option IpAddr) (a : IpAddr) :
    Option IpAddr :=
  if a.isIpv4 then (if origGateway.isIpv4 then some origGateway else none)
  else v6Gateway origGateway origGateway6

def fromSplit (baseMode : SplitMode) (includeCidrs excludeCidrs : List Cidr)
    (serverIp origGateway : IpAddr) (origGateway6 : Option IpAddr) (tunAddr : IpAddr)
    (tunAddr6 : Option IpAddr) : Except RoutePlanError RoutePlan :=
  if serverIp.isIpv4 != origGateway.isIpv4 then
    .error (.familyMismatch serverIp origGateway)
  else
    .ok {
      tunAddr
      tunAddr6
      viaTun := defaultHalves baseMode tunAddr6 ++ includeCidrs
      serverException :=
        { dest := ⟨serverIp, if serverIp.isIpv4 then 32 else 128⟩, gateway := origGateway }
      bypass := excludeCidrs.filterMap fun c =>
        (gatewayFor origGateway origGateway6 c.addr).map fun gateway => ⟨c, gateway⟩
      origGateway6 := v6Gateway origGateway origGateway6 }

/-- One direction only. -/
def withSplit (mode : SplitMode) (staticCidrs : List Cidr) (serverIp origGateway tunAddr : IpAddr)
    (tunAddr6 : Option IpAddr) : Except RoutePlanError RoutePlan :=
  match mode with
  | .exclude => fromSplit mode [] staticCidrs serverIp origGateway none tunAddr tunAddr6
  | .include => fromSplit mode staticCidrs [] serverIp origGateway none tunAddr tunAddr6

def fullTunnel (serverIp origGateway tunAddr : IpAddr) : Except RoutePlanError RoutePlan :=
  withSplit .exclude [] serverIp origGateway tunAddr none

theorem serverHost_eq (serverIp : IpAddr) :
    (⟨serverIp, if serverIp.isIpv4 then 32 else 128⟩ : Cidr) = Cidr.host serverIp := by
  cases serverIp <;> rfl

/-- Everything a successful plan holds. -/
theorem fromSplit_ok {baseMode : SplitMode} {includeCidrs excludeCidrs : List Cidr}
    {serverIp origGateway : IpAddr} {origGateway6 : Option IpAddr} {tunAddr : IpAddr}
    {tunAddr6 : Option IpAddr} {plan : RoutePlan}
    (h : fromSplit baseMode includeCidrs excludeCidrs serverIp origGateway origGateway6 tunAddr
      tunAddr6 = .ok plan) :
    serverIp.isIpv4 = origGateway.isIpv4 ∧
      plan.tunAddr6 = tunAddr6 ∧
      plan.viaTun = defaultHalves baseMode tunAddr6 ++ includeCidrs ∧
      plan.serverException = ⟨Cidr.host serverIp, origGateway⟩ ∧
      (plan.bypass = excludeCidrs.filterMap fun c =>
        (gatewayFor origGateway origGateway6 c.addr).map fun gateway => ⟨c, gateway⟩) ∧
      plan.origGateway6 = v6Gateway origGateway origGateway6 := by
  unfold fromSplit at h
  split at h
  · cases h
  · rename_i hfam
    cases h
    refine ⟨by simpa using hfam, rfl, rfl, ?_, rfl, rfl⟩
    rw [serverHost_eq]

end RoutePlan

/-- The part of `TunConfig` that a session's routes are planned from. -/
structure TunConfig where
  split : SplitPlan
  serverIp : IpAddr
  origGateway : IpAddr
  origGateway6 : Option IpAddr
  tunAddr : IpAddr
  tunAddr6 : Option IpAddr

namespace TunConfig

/-- `TunEngine::run_with_reattach` from given rules. -/
def planFrom (cfg : TunConfig) (rules : RuleSet × RuleSet) : Except RoutePlanError RoutePlan :=
  RoutePlan.fromSplit cfg.split.baseMode (rules.1.cidrs.map Cidr.ofSplit)
    (rules.2.cidrs.map Cidr.ofSplit) cfg.serverIp cfg.origGateway cfg.origGateway6 cfg.tunAddr
    cfg.tunAddr6

/-- The plan of a session, `cfg.split.effective()` first. -/
def plan (cfg : TunConfig) : Except RoutePlanError RoutePlan :=
  cfg.planFrom cfg.split.effective

end TunConfig

end Leshiy.Tun
