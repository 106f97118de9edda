import Leshiy.Provision.Basic
import Leshiy.Reality.Addr

/-!
# Provisioning from a phone

`build_params` of `leshiy-mobile/src/provision.rs`. The CLI joins the host and the port of a new server
with `join_host_port`; the phone writes a colon between them.
-/

namespace Leshiy.Mobile

open Leshiy.Lib Str NetAddr Provision Reality

/-- What the app hands over. -/
structure ProvisionConfig where
  host : Str
  sshPort : UInt16
  sshUser : Str
  sshPassword : Option Str
  sshPrivateKey : Option Str
  sshKeyPassphrase : Option Str
  dest : Str
  listenPort : UInt16
  label : Option Str
  sudoPassword : Option Str
  quicPort : Option UInt16
  imageRef : Option Str
  userLabel : Option Str
  dnsOverride : Option Str
  role : Str
  downstream : Option Str
  connector : Option Str

/-- An error carries the text that was no role. -/
def parseRole (s : Str) : Except Str ProvisionRole :=
  if s = "single".toList then .ok .single
  else if s = "entry".toList then .ok .entry
  else if s = "middle".toList then .ok .middle
  else if s = "exit".toList then .ok .exit
  else .error s

def defaultImageRef : Str := "ghcr.io/bigunmd/leshiy:v1.17.1".toList

/-- A blank reference is none. -/
def resolveImageRef (imageRef : Option Str) : Str :=
  ((imageRef.map trim).filter (· ≠ [])).getD defaultImageRef

def notBlank (s : Str) : Bool := trim s != []

/-- A private key if there is one, else a password. -/
def sshSecret (cfg : ProvisionConfig) : SshSecret :=
  match cfg.sshPrivateKey.filter notBlank with
  | some pem => .privateKey pem (cfg.sshKeyPassphrase.filter (· ≠ []))
  | none => .password (cfg.sshPassword.getD [])

def buildParams (cfg : ProvisionConfig) (now : UInt64) : ProvisionParams :=
  let role := match parseRole (trim cfg.role) with
    | .ok role => role
    | .error _ => .single
  { id := cfg.host ++ '-' :: decimal cfg.sshPort.toNat
    label := cfg.label.getD cfg.host
    target := ⟨cfg.host, cfg.sshPort, cfg.sshUser⟩
    secret := sshSecret cfg
    publicHost := colonPort cfg.host cfg.listenPort
    destSni := cfg.dest
    imageRef := resolveImageRef cfg.imageRef
    container := "leshiy".toList
    quicPort := if role.exposesConnector then cfg.quicPort <|> some cfg.listenPort else cfg.quicPort
    listenPort := cfg.listenPort
    userLabel := (cfg.userLabel.filter notBlank).getD "self".toList
    now
    role
    connector := cfg.connector
    downstream := cfg.downstream
    useSudo := cfg.sudoPassword.isSome
    dnsOverride := cfg.dnsOverride.filter notBlank
    mtproxy := false }

/-- What is asked of a public host: the CLI would have made it, and it is read as what it was made
from. -/
structure AgreesOn (publicHost host : Str) (port : UInt16) : Prop where
  joined : publicHost = joinHostPort host port
  split : splitHostPort publicHost = (host, some (decimal port.toNat))
  ensured : ∀ defaultPort, ensurePort publicHost defaultPort = publicHost

/-- The public host of the CLI. -/
theorem agreesOn_joinHostPort {host : Str} {port : UInt16} (hh : IsHost host) :
    AgreesOn (joinHostPort host port) host port :=
  ⟨rfl, splitHostPort_joinHostPort hh, fun _ => ensurePort_joinHostPort hh⟩

/-- An IPv6 address without brackets is not what the CLI writes. -/
theorem not_agreesOn_colonPort {host : Str} {port : UInt16} (hip : isIpv6 host) :
    ¬ AgreesOn (colonPort host port) host port := by
  intro h
  have hlen := congrArg List.length h.joined
  rw [joinHostPort, if_pos hip] at hlen
  simp only [colonPort, List.length_append, List.length_cons, List.length_nil] at hlen
  omega

/-- **The phone agrees with the CLI** on every host but an IPv6 address. -/
theorem buildParams_agreesOn_iff {cfg : ProvisionConfig} (now : UInt64) (hh : IsHost cfg.host) :
    AgreesOn (buildParams cfg now).publicHost cfg.host cfg.listenPort ↔ ¬ isIpv6 cfg.host := by
  show AgreesOn (colonPort cfg.host cfg.listenPort) cfg.host cfg.listenPort ↔ _
  constructor
  · exact fun h hip => not_agreesOn_colonPort hip h
  · intro hip
    have hjoin : joinHostPort cfg.host cfg.listenPort = colonPort cfg.host cfg.listenPort :=
      if_neg hip
    rw [← hjoin]
    exact agreesOn_joinHostPort hh

/-- What the app sends for a host when nothing else is filled in. -/
def plainConfig (host : Str) : ProvisionConfig where
  host
  sshPort := 22
  sshUser := "root".toList
  sshPassword := some "pw".toList
  sshPrivateKey := none
  sshKeyPassphrase := none
  dest := "example.com:443".toList
  listenPort := 443
  label := none
  sudoPassword := none
  quicPort := none
  imageRef := none
  userLabel := none
  dnsOverride := none
  role := "single".toList
  downstream := none
  connector := none

theorem buildParams_agreesOn_iff_domain :
    AgreesOn (buildParams (plainConfig "vpn.example.com".toList) 0).publicHost
      "vpn.example.com".toList 443 :=
  (buildParams_agreesOn_iff 0 (.domain (List.all_eq_true.mp (by decide)))).mpr (by decide)

/-- `2001:db8::1` on port 443 becomes `2001:db8::1:443`, another address and no port. -/
theorem buildParams_ipv6_not_agreesOn : IsHost "2001:db8::1".toList ∧
    splitHostPort (buildParams (plainConfig "2001:db8::1".toList) 0).publicHost =
      ("2001:db8::1:443".toList, none) ∧
    ¬ AgreesOn (buildParams (plainConfig "2001:db8::1".toList) 0).publicHost
      "2001:db8::1".toList 443 :=
  ⟨.ipv6 (by decide), by decide, not_agreesOn_colonPort (by decide)⟩

end Leshiy.Mobile
