import Leshiy.Provision.RunCmd
import Leshiy.Provision.Upgrade
import Leshiy.Provision.UriFields

/-!
# Provisioning a server

`provision` of `leshiy-provision/src/engine.rs`: a fresh host becomes a server, and a host with a running server
gets another user. Each step is announced before and after it. The announcements are calls like the commands,
to the caller instead of the host.
-/

namespace Leshiy.Provision

open Leshiy.Lib Str

/-! ## The host -/

inductive Step where
  | connect
  | preflight
  | dockerReady
  | firewall
  | detectExisting
  | pullImage
  | runContainer
  | issueUser
  | persist
  deriving DecidableEq, Repr

inductive Status where
  | started
  | done
  | failed
  deriving DecidableEq, Repr

structure ProgressEvent where
  step : Step
  status : Status
  detail : Str
  deriving DecidableEq, Repr

inductive HostCmd where
  | event (e : ProgressEvent)
  /-- The answer's output is the fingerprint of the host's key. -/
  | connect (target : SshTarget) (secret : SshSecret)
  | detectDocker
  | installDocker
  | catPersistedConfig
  | detectUfwActive
  | ufwAllow (listenPort : UInt16) (quicPort : Option UInt16)
  | psNames
  | detectHostDns
  | detectHostIpv6
  | execUserAdd (container extraArgs : Str)
  | docker (c : Cmd)

/-- The containers of a host, the config on their volume (empty if there is none), how many users were added,
and what the caller was told. No command writes the config; a server does that when it is first started. -/
structure Machine where
  docker : Docker
  config : Str
  users : Nat
  events : List ProgressEvent

def parsePsNames (stdout : Str) : List Str := ((lines stdout).map trim).filter fun l => l ≠ []

/-- What a command leaves. A listing that succeeds is right about the container of this name, the config is read
as it is, and a user is added only in a container that runs. -/
def Machine.exec (name : Str) (m : Machine) : HostCmd → Answer → Option Machine
  | .event e, _ => some { m with events := m.events ++ [e] }
  | .docker c, o => (m.docker.exec c o).map fun d => { m with docker := d }
  | .psNames, .ok out =>
    if out.code = 0 ∧ (parsePsNames out.stdout).contains name ≠ m.docker.runs name then none else some m
  | .catPersistedConfig, .ok out => if out.code = 0 ∧ out.stdout ≠ m.config then none else some m
  | .execUserAdd n _, .ok out =>
    if out.code = 0 then if m.docker.runs n then some { m with users := m.users + 1 } else none
    else some m
  | _, _ => some m

/-! ## The steps -/

/-- A failure comes with the step that is current. -/
abbrev Deploy := ExceptT (Step × Error) (Prog HostCmd Answer)

def emit (step : Step) (status : Status) (detail : Str) : Deploy Unit :=
  ExceptT.lift do
    let _ ← Prog.ask (.event ⟨step, status, detail⟩)
    return ()

def during {α : Type} (step : Step) (x : ExceptT Error (Prog HostCmd Answer) α) : Deploy α :=
  ExceptT.mk do
    let r ← x.run
    return r.mapError fun err => (step, err)

/-- `t.run(cmd).await`. -/
def remote (c : HostCmd) : ExceptT Error (Prog HostCmd Answer) CommandOutput := ExceptT.mk (Prog.ask c)

/-- `t.run(cmd).await?.ok()?`. -/
def remoteOk (c : HostCmd) : ExceptT Error (Prog HostCmd Answer) CommandOutput := do
  let out ← remote c
  out.ok

def yes (out : CommandOutput) : Bool := trim out.stdout = "yes".toList

def boolText (b : Bool) : Str := if b then "true".toList else "false".toList

def fmtPorts (listenPort : UInt16) (quicPort : Option UInt16) : Str :=
  match quicPort with
  | some q => decimal listenPort.toNat ++ ("/tcp + ".toList ++ (decimal q.toNat ++ "/udp".toList))
  | none => decimal listenPort.toNat ++ "/tcp".toList

section

variable (p : ProvisionParams)

def connectHost : Deploy Str := do
  emit .connect .started p.target.host
  let out ← during .connect (remote (.connect p.target p.secret))
  emit .connect .done out.stdout
  return out.stdout

def preflight : Deploy Bool := do
  emit .preflight .started []
  let out ← during .preflight (remote .detectDocker)
  emit .preflight .done ("docker=".toList ++ boolText (yes out))
  return yes out

def installDocker (hasDocker : Bool) : Deploy Unit :=
  if hasDocker then return ()
  else do
    let _ ← during .dockerReady (remoteOk .installDocker)
    return ()

/-- The ports that the server will bind: a config on the volume is the source of both. -/
def reconcile (persisted : Str) : UInt16 × Option UInt16 :=
  match parsePersistedPorts persisted with
  | (some listen, quic) => (listen, quic)
  | (none, _) => (p.listenPort, p.quicPort)

def readyDetail (persisted : Str) : Str :=
  let ports := reconcile p persisted
  if (parsePersistedPorts persisted).1.isSome ∧ ports ≠ (p.listenPort, p.quicPort) then
    "ports pinned by the existing server.toml on the leshiy-data volume — publishing ".toList ++
      (fmtPorts ports.1 ports.2 ++ (", not the requested ".toList ++ (fmtPorts p.listenPort p.quicPort ++
        ("; an existing server cannot change ports (`leshiy remote teardown --purge` first to re-init, " ++
          "which regenerates its keys and drops its users)").toList)))
  else []

def dockerReady (hasDocker : Bool) : Deploy (UInt16 × Option UInt16) := do
  emit .dockerReady .started []
  installDocker hasDocker
  -- A config that cannot be read is an empty one.
  let answer ← ExceptT.lift (Prog.ask .catPersistedConfig)
  let persisted := match answer with
    | .ok out => out.stdout
    | .error _ => []
  emit .dockerReady .done (readyDetail p persisted)
  return reconcile p persisted

/-- Best-effort: what goes wrong is told and no failure. -/
def firewallStep (listenPort : UInt16) (quicPort : Option UInt16) : Prog HostCmd Answer Str := do
  let ports := match quicPort with
    | some q => decimal listenPort.toNat ++ ("/tcp, ".toList ++ (decimal q.toNat ++ "/udp".toList))
    | none => decimal listenPort.toNat ++ "/tcp".toList
  match ← Prog.ask .detectUfwActive with
  | .error err => return "firewall check skipped (".toList ++ (err.text ++ ")".toList)
  | .ok out =>
    if trim out.stdout ≠ "active".toList then return "ufw inactive or not installed — left unchanged".toList
    else
      match ← Prog.ask (.ufwAllow listenPort quicPort) with
      | .ok out =>
        if out.code = 0 then return "ufw active — opened ".toList ++ ports
        else
          return "ufw active but opening ".toList ++ (ports ++ (" failed (exit ".toList ++
            ((toString out.code).toList ++ ("): ".toList ++ trim out.stderr))))
      | .error err =>
        return "ufw active but opening ".toList ++ (ports ++ (" failed (".toList ++ (err.text ++ ")".toList)))

def firewall (listenPort : UInt16) (quicPort : Option UInt16) : Deploy Unit := do
  emit .firewall .started []
  let detail ← ExceptT.lift (firewallStep listenPort quicPort)
  emit .firewall .done detail

/-- The exit code of the listing is not looked at. -/
def detectExisting : Deploy Bool := do
  emit .detectExisting .started []
  let out ← during .detectExisting (remote .psNames)
  let running := (parsePsNames out.stdout).contains p.container
  emit .detectExisting .done ("running=".toList ++ boolText running)
  return running

def detectHostDns : Prog HostCmd Answer (Option Str) := do
  match ← Prog.ask .detectHostDns with
  | .error _ => return none
  | .ok out => return if validDnsAddr (trim out.stdout) then some (trim out.stdout) else none

def dnsServers (hostIpv4 overrideDns : Option Str) : List Str :=
  match overrideDns.filter validDnsAddr with
  | some o => [o]
  | none => hostIpv4.toList ++ ["1.1.1.1".toList, "8.8.8.8".toList]

def envsOf (publicHost : Str) (hostHasIpv6 : Bool) (listenPort : UInt16) (quicPort : Option UInt16) :
    List (Str × Str) :=
  let listenHost := if hostHasIpv6 then "[::]".toList else "0.0.0.0".toList
  [("LESHIY_HOST".toList, publicHost), ("LESHIY_DEST".toList, p.destSni),
    ("LESHIY_LISTEN".toList, listenHost ++ ':' :: decimal listenPort.toNat)] ++
  (match quicPort with
    | some q => [("LESHIY_QUIC_LISTEN".toList, listenHost ++ ':' :: decimal q.toNat)]
    | none => []) ++
  (match p.connector with
    | some conn => [("LESHIY_CONNECTOR".toList, conn)]
    | none => []) ++
  if p.mtproxy then [("LESHIY_MTPROXY".toList, "1".toList)] else []

def createContainer (publicHost : Str) (listenPort : UInt16) (quicPort : Option UInt16) : Deploy Unit := do
  emit .pullImage .started p.imageRef
  let _ ← during .pullImage (remoteOk (.docker (.pull p.imageRef)))
  emit .pullImage .done []
  emit .runContainer .started []
  let hostDns ← ExceptT.lift detectHostDns
  let dns := dnsServers hostDns p.dnsOverride
  let ipv6 ← ExceptT.lift (Prog.ask .detectHostIpv6)
  let hostHasIpv6 := match ipv6 with
    | .ok out => yes out
    | .error _ => false
  let plan : Plan :=
    ⟨p.container, p.imageRef, listenPort, quicPort, dns, envsOf p publicHost hostHasIpv6 listenPort quicPort⟩
  during .runContainer (ExceptT.mk ((runContainer p.container plan.run).run.mapCall .docker))
  emit .runContainer .done ("dns=".toList ++ List.intercalate [','] dns)

/-- Pull and run, unless a running container is reused. -/
def haveContainer (running : Bool) (publicHost : Str) (listenPort : UInt16) (quicPort : Option UInt16) :
    Deploy Unit :=
  if running then
    emit .pullImage .done ("reusing existing container — dest/quic/connector changes are NOT re-applied " ++
      "(teardown first to change them)").toList
  else createContainer p publicHost listenPort quicPort

/-- Add a user, and so many times more while the control socket is not up. -/
def tryAdd (container : Str) (more : Nat) : ExceptT Error (Prog HostCmd Answer) Str := do
  let out ← remote (.execUserAdd container [])
  if out.code = 0 then return out.stdout
  else if !isControlSocketUnready out.stderr then throw (.command out.code out.stderr)
  else
    match more with
    | 0 => throw (.command out.code out.stderr)
    | more + 1 => tryAdd container more

def execUserAdd (container : Str) : ExceptT Error (Prog HostCmd Answer) Str :=
  tryAdd container (userAddAttempts - 1)

/-- The first line of what the server has printed. -/
def issuedUri (stdout : Str) : Str := (lines (trim stdout)).head?.getD []

/-- The link that was issued, its short id and its public key. -/
def issueUser : Deploy (Str × Str × Str) := do
  emit .issueUser .started p.userLabel
  let stdout ← during .issueUser (execUserAdd p.container)
  let uri := issuedUri stdout
  let fields ← during .issueUser (liftM (parseUriFields (String.ofList uri)))
  emit .issueUser .done fields.1
  return (uri, fields)

def ProvisionRole.asStr : ProvisionRole → Str
  | .single => "single".toList
  | .exit => "exit".toList
  | .middle => "middle".toList
  | .entry => "entry".toList

/-- An exit or a middle node is of no use without QUIC. -/
def record (hostKeyFp publicHost uri shortId realityPublicB64 : Str) : Except Error ServerRecord :=
  if p.role.exposesConnector ∧ parseQuicFields (String.ofList uri) = none then
    .error (.parse ("node provisioned as ".toList ++ (p.role.asStr ++
      (" but its issued URI has no QUIC endpoint — the connector chain needs QUIC " ++
        "(is the image built with QUIC support?)").toList)))
  else
    .ok
      { id := p.id
        label := p.label
        host := p.target.host
        port := p.target.port
        sshUser := p.target.user
        sshSecret := p.secret
        hostKeyFp
        publicHost
        imageRef := p.imageRef
        container := p.container
        realityPublicB64
        quic := parseQuicFields (String.ofList uri)
        clients := [⟨shortId, p.userLabel, uri⟩]
        createdAt := p.now
        role := p.role.asStr
        connectorUri := if p.role.exposesConnector then some uri else none
        downstream := p.downstream
        useSudo := p.useSudo }

/-- The names that are put into commands; `debug` is how a text is displayed between quotes. -/
def checkNames (debug : Str → Str) : Except (Step × Error) Unit :=
  if !validImageRef p.imageRef then
    .error (.connect, .parse ("invalid image ref: ".toList ++ debug p.imageRef))
  else if !validImageRef p.container then
    .error (.connect, .parse ("invalid container name: ".toList ++ debug p.container))
  else .ok ()

def provisionInner (debug : Str → Str) : Deploy ServerRecord := do
  checkNames p debug
  let hostKeyFp ← connectHost p
  let hasDocker ← preflight
  let (listenPort, quicPort) ← dockerReady p hasDocker
  let publicHost := withPort p.publicHost listenPort
  firewall listenPort quicPort
  let running ← detectExisting p
  haveContainer p running publicHost listenPort quicPort
  let (uri, shortId, realityPublicB64) ← issueUser p
  let rec ← during .persist (liftM (record p hostKeyFp publicHost uri shortId realityPublicB64))
  emit .persist .done rec.id
  return rec

def provision (debug : Str → Str) : Prog HostCmd Answer (Except Error ServerRecord) := do
  match ← (provisionInner p debug).run with
  | .ok rec => return .ok rec
  | .error (current, err) => do
    let _ ← Prog.ask (.event ⟨current, .failed, err.text⟩)
    return .error err

end

end Leshiy.Provision
