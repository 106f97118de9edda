import Leshiy.Provision.Deploy

/-!
# What provisioning does to a host

A server that runs is not touched, one user is added at most, and the caller is told of the steps in their
order.
-/

namespace Leshiy.Provision

open Leshiy.Lib Str

/-! ## What the caller is told -/

abbrev Mark := Step × Status

def Machine.marks (m : Machine) : List Mark := m.events.map fun e => (e.step, e.status)

/-- The steps, by whether a running container is reused. -/
def script (reused : Bool) : List Mark :=
  List.flatten
    [[(.connect, .started), (.connect, .done), (.preflight, .started), (.preflight, .done),
      (.dockerReady, .started), (.dockerReady, .done), (.firewall, .started), (.firewall, .done),
      (.detectExisting, .started), (.detectExisting, .done)],
    if reused then [(.pullImage, .done)]
    else [(.pullImage, .started), (.pullImage, .done), (.runContainer, .started), (.runContainer, .done)],
    [(.issueUser, .started), (.issueUser, .done), (.persist, .done)]]

/-- A part of the script, from its beginning. -/
def Announced (l : List Mark) : Prop := ∃ reused, l <+: script reused

/-- The step is the next one to be told of. -/
def Next (l : List Mark) (step : Step) : Prop := ∃ status, Announced (l ++ [(step, status)])

theorem Next.announced {l : List Mark} {step : Step} (h : Next l step) : Announced l := by
  obtain ⟨status, reused, hpart⟩ := h
  exact ⟨reused, (List.prefix_append _ _).trans hpart⟩

/-! ## Commands that change nothing -/

/-- The answers that the host gives. -/
def Machine.allowed (allow : HostCmd → Answer → Bool) (name : Str) (m : Machine) (c : HostCmd) (o : Answer) :
    Option Machine :=
  if allow c o then m.exec name c o else none

def Machine.told (m : Machine) (e : ProgressEvent) : Machine := { m with events := m.events ++ [e] }

theorem marks_told {m : Machine} {l₀ l : List Mark} {step : Step} {status : Status} {detail : Str}
    (h : m.marks = l₀ ++ l) : (m.told ⟨step, status, detail⟩).marks = l₀ ++ (l ++ [(step, status)]) := by
  rw [Machine.marks, Machine.told, List.map_append, ← List.append_assoc]
  exact congrArg (· ++ [(step, status)]) h

/-- The command leaves the host as it is. -/
def Harmless (name : Str) (c : HostCmd) : Prop :=
  ∀ (m : Machine) (o : Answer) (m' : Machine), m.exec name c o = some m' → m' = m

section

variable {name : Str} {allow : HostCmd → Answer → Bool} {I : Machine → Prop} {m : Machine} {c : HostCmd}

theorem exec_of_allowed {o : Answer} {m' : Machine} (h : m.allowed allow name c o = some m') :
    allow c o ∧ m.exec name c o = some m' := by
  rw [Machine.allowed] at h
  split at h
  next hallow => exact ⟨hallow, h⟩
  next => cases h

theorem harmless_docker {c : Cmd} (h : ∀ d : Docker, d.succeed c = some d) : Harmless name (.docker c) := by
  intro m o m' hexec
  obtain ⟨d, hd, rfl⟩ := Option.map_eq_some_iff.mp hexec
  have hsame : d = m.docker := by
    cases o with
    | error _ => exact (Option.some.inj hd).symm
    | ok out =>
      rw [Docker.exec] at hd
      split at hd
      next =>
        rw [h] at hd
        exact (Option.some.inj hd).symm
      next => exact (Option.some.inj hd).symm
  rw [hsame]

theorem harmless_probe (h : ∀ (m : Machine) (o : Answer), m.exec name c o = some m) : Harmless name c := by
  intro m o m' hexec
  rw [h] at hexec
  exact (Option.some.inj hexec).symm

theorem harmless_psNames : Harmless name .psNames := by
  intro m o m' hexec
  cases o with
  | error _ => exact (Option.some.inj hexec).symm
  | ok out =>
    rw [Machine.exec] at hexec
    split at hexec
    next => cases hexec
    next => exact (Option.some.inj hexec).symm

theorem harmless_catPersistedConfig : Harmless name .catPersistedConfig := by
  intro m o m' hexec
  cases o with
  | error _ => exact (Option.some.inj hexec).symm
  | ok out =>
    rw [Machine.exec] at hexec
    split at hexec
    next => cases hexec
    next => exact (Option.some.inj hexec).symm

theorem ensures_ask {Q : Answer → Machine → Prop} (hharmless : Harmless name c) (hI : I m)
    (hQ : ∀ o, allow c o → m.exec name c o = some m → Q o m) :
    Prog.Ensures (Machine.allowed allow name) I Q (Prog.ask c) m := by
  refine Prog.Ensures.ask fun o m' hexec => ?_
  obtain ⟨hallow, hexec⟩ := exec_of_allowed hexec
  obtain rfl := hharmless m o m' hexec
  exact ⟨hI, hQ o hallow hexec⟩

theorem ensures_remote {Q : Except Error CommandOutput → Machine → Prop} (hharmless : Harmless name c)
    (hI : I m) (hQ : ∀ r, Q r m) : Prog.Ensures (Machine.allowed allow name) I Q (remote c).run m :=
  ensures_ask hharmless hI fun o _ _ => hQ o

theorem ensures_remoteOk {Q : Except Error CommandOutput → Machine → Prop} (hharmless : Harmless name c)
    (hI : I m) (hQ : ∀ r, Q r m) : Prog.Ensures (Machine.allowed allow name) I Q (remoteOk c).run m := by
  unfold remoteOk
  refine Prog.Ensures.bindE (ensures_remote hharmless hI fun r => ?_)
  cases r with
  | error err => exact hQ _
  | ok out => exact Prog.Ensures.liftE (hQ _)

theorem ensures_during {α : Type} {step : Step} {x : ExceptT Error (Prog HostCmd Answer) α}
    {Q : Except (Step × Error) α → Machine → Prop}
    (h : Prog.Ensures (Machine.allowed allow name) I
      (fun r m => Q (r.mapError fun err => (step, err)) m) x.run m) :
    Prog.Ensures (Machine.allowed allow name) I Q (during step x).run m :=
  Prog.Ensures.bind h

theorem ensures_emit {step : Step} {status : Status} {detail : Str}
    {Q : Except (Step × Error) Unit → Machine → Prop} (hI : I (m.told ⟨step, status, detail⟩))
    (hQ : Q (.ok ()) (m.told ⟨step, status, detail⟩)) :
    Prog.Ensures (Machine.allowed allow name) I Q (emit step status detail).run m := by
  refine Prog.Ensures.bind (Prog.Ensures.bind (Prog.Ensures.ask fun o m' hexec => ?_))
  cases (exec_of_allowed hexec).2
  exact ⟨hI, hQ⟩

end

/-! ## Where provisioning stands -/

section

variable (p : ProvisionParams) (allow : HostCmd → Answer → Bool) (m₀ : Machine)

/-- A server runs under the name, and the listing does not fail. -/
def Spares : Prop := m₀.docker.runs p.container ∧ ∀ out, allow .psNames (.ok out) → out.code = 0

/-- The config can be read. -/
def Reads : Prop := ∀ o, allow .catPersistedConfig o → ∃ out, o = .ok out ∧ out.code = 0

/-- The ports are those of the config, or those that are asked for. -/
def Ports (ports : UInt16 × Option UInt16) : Prop :=
  ∃ persisted, ports = reconcile p persisted ∧ (Reads allow → persisted = m₀.config)

/-- So much was told, and nothing was done to the containers. -/
structure Going (l : List Mark) (m : Machine) : Prop where
  marks : m.marks = m₀.marks ++ l
  config : m.config = m₀.config
  docker : m.docker = m₀.docker
  users : m.users = m₀.users

/-- At every call. -/
structure Bounds (m : Machine) : Prop where
  marks : ∃ l, Announced l ∧ (m.marks = m₀.marks ++ l ∨ ∃ step, Next l step ∧
    m.marks = m₀.marks ++ (l ++ [(step, .failed)]))
  spared : Spares p allow m₀ → m.docker = m₀.docker
  users : m.users ≤ m₀.users + 1

/-- Where a step fails. -/
structure Fails (step : Step) (m : Machine) : Prop where
  marks : ∃ l, Next l step ∧ m.marks = m₀.marks ++ l
  spared : Spares p allow m₀ → m.docker = m₀.docker
  users : m.users ≤ m₀.users + 1

/-- The end of a step. -/
def Ends {α : Type} (Q : α → Machine → Prop) (r : Except (Step × Error) α) (m : Machine) : Prop :=
  match r with
  | .ok a => Q a m
  | .error (step, _) => Fails p allow m₀ step m

end

section

variable {p : ProvisionParams} {allow : HostCmd → Answer → Bool} {m₀ m : Machine} {l : List Mark}

theorem Going.bounds (h : Going m₀ l m) (hl : Announced l) : Bounds p allow m₀ m :=
  ⟨⟨l, hl, .inl h.marks⟩, fun _ => h.docker, h.users ▸ Nat.le_succ _⟩

theorem Going.fails {step : Step} (h : Going m₀ l m) (hnext : Next l step) : Fails p allow m₀ step m :=
  ⟨⟨l, hnext, h.marks⟩, fun _ => h.docker, h.users ▸ Nat.le_succ _⟩

theorem Going.told {step : Step} {status : Status} {detail : Str} (h : Going m₀ l m) :
    Going m₀ (l ++ [(step, status)]) (m.told ⟨step, status, detail⟩) :=
  ⟨marks_told h.marks, h.config, h.docker, h.users⟩

/-- A step that is told of, and asks something that changes nothing. -/
theorem ensures_told {α : Type} {step : Step} {status : Status} {detail : Str} {f : Unit → Deploy α}
    {Q : Except (Step × Error) α → Machine → Prop} (h : Going m₀ l m)
    (hl : Announced (l ++ [(step, status)]))
    (hthen : ∀ m', Going m₀ (l ++ [(step, status)]) m' →
      Prog.Ensures (Machine.allowed allow p.container) (Bounds p allow m₀) Q (f ()).run m') :
    Prog.Ensures (Machine.allowed allow p.container) (Bounds p allow m₀) Q
      (emit step status detail >>= f).run m :=
  Prog.Ensures.bindE (ensures_emit (h.told.bounds hl) (hthen _ h.told))

theorem ensures_connectHost (h : Going m₀ [] m) :
    Prog.Ensures (Machine.allowed allow p.container) (Bounds p allow m₀)
      (Ends p allow m₀ fun _ => Going m₀ [(.connect, .started), (.connect, .done)]) (connectHost p).run m := by
  refine ensures_told h ⟨true, _, rfl⟩ fun m hm => ?_
  refine Prog.Ensures.bindE (ensures_during (ensures_remote (harmless_probe fun _ _ => rfl)
    (hm.bounds ⟨true, _, rfl⟩) fun r => ?_))
  cases r with
  | error err => exact hm.fails ⟨.done, true, _, rfl⟩
  | ok out => exact ensures_told hm ⟨true, _, rfl⟩ fun m hm => hm

theorem ensures_tell {step : Step} {status : Status} {detail : Str}
    {Q : Except (Step × Error) Unit → Machine → Prop} (h : Going m₀ l m)
    (hl : Announced (l ++ [(step, status)]))
    (hQ : ∀ m', Going m₀ (l ++ [(step, status)]) m' → Q (.ok ()) m') :
    Prog.Ensures (Machine.allowed allow p.container) (Bounds p allow m₀) Q (emit step status detail).run m :=
  ensures_emit (h.told.bounds hl) (hQ _ h.told)

/-- The marks of a step that is done. -/
def passed (step : Step) : List Mark := [(step, .started), (step, .done)]

/-- The marks of the first steps. -/
def connected : List Mark := passed .connect
def preflighted : List Mark := connected ++ passed .preflight
def readied : List Mark := preflighted ++ passed .dockerReady
def firewalled : List Mark := readied ++ passed .firewall
def detected : List Mark := firewalled ++ passed .detectExisting

/-- The marks of the steps until there is a container. -/
def housed (reused : Bool) : List Mark :=
  detected ++ if reused then [(Step.pullImage, Status.done)] else passed .pullImage ++ passed .runContainer

theorem ensures_preflight (h : Going m₀ connected m) :
    Prog.Ensures (Machine.allowed allow p.container) (Bounds p allow m₀)
      (Ends p allow m₀ fun _ => Going m₀ preflighted) preflight.run m := by
  refine ensures_told h ⟨true, _, rfl⟩ fun m hm => ?_
  refine Prog.Ensures.bindE (ensures_during (ensures_remote (harmless_probe fun _ _ => rfl)
    (hm.bounds ⟨true, _, rfl⟩) fun r => ?_))
  cases r with
  | error err => exact hm.fails ⟨.done, true, _, rfl⟩
  | ok out => exact ensures_told hm ⟨true, _, rfl⟩ fun m hm => hm

theorem ensures_dockerReady (hasDocker : Bool) (h : Going m₀ preflighted m) :
    Prog.Ensures (Machine.allowed allow p.container) (Bounds p allow m₀)
      (Ends p allow m₀ fun ports m => Going m₀ readied m ∧ Ports p allow m₀ ports)
      (dockerReady p hasDocker).run m := by
  refine ensures_told h ⟨true, _, rfl⟩ fun m hm => ?_
  have hthen : Prog.Ensures (Machine.allowed allow p.container) (Bounds p allow m₀)
      (Ends p allow m₀ fun _ m' => Going m₀ (preflighted ++ [(Step.dockerReady, Status.started)]) m')
      (installDocker hasDocker).run m := by
    unfold installDocker
    cases hasDocker with
    | true => exact hm
    | false =>
      refine Prog.Ensures.bindE (ensures_during (ensures_remoteOk
        (harmless_probe fun _ _ => rfl) (hm.bounds ⟨true, _, rfl⟩) fun r => ?_))
      cases r with
      | error err => exact hm.fails ⟨.done, true, _, rfl⟩
      | ok out => exact hm
  refine Prog.Ensures.bindE (hthen.mono fun r m hm => ?_)
  cases r with
  | error err => exact hm
  | ok _ =>
    have hm : Going m₀ (preflighted ++ [(Step.dockerReady, Status.started)]) m := hm
    refine Prog.Ensures.lift (ensures_ask harmless_catPersistedConfig (hm.bounds ⟨true, _, rfl⟩) ?_)
    intro o hallow hexec
    refine ensures_told hm ⟨true, _, rfl⟩ fun m' hm' => ⟨hm', _, rfl, fun hreads => ?_⟩
    obtain ⟨out, rfl, hcode⟩ := hreads o hallow
    rw [Machine.exec] at hexec
    split at hexec
    next => cases hexec
    next hright =>
      rw [← hm.config]
      by_contra hne
      exact hright ⟨hcode, hne⟩

theorem ensures_firewallStep (listenPort : UInt16) (quicPort : Option UInt16) (h : Going m₀ l m)
    (hl : Announced l) :
    Prog.Ensures (Machine.allowed allow p.container) (Bounds p allow m₀) (fun _ => Going m₀ l)
      (firewallStep listenPort quicPort) m := by
  refine Prog.Ensures.bind (ensures_ask (harmless_probe fun _ _ => rfl) (h.bounds hl) ?_)
  intro o _ _
  cases o with
  | error err => exact h
  | ok out =>
    dsimp only
    split
    next => exact h
    next =>
      refine Prog.Ensures.bind (ensures_ask (harmless_probe fun _ _ => rfl) (h.bounds hl) ?_)
      intro o _ _
      cases o with
      | error err => exact h
      | ok out =>
        dsimp only
        split <;> exact h

theorem ensures_firewall (listenPort : UInt16) (quicPort : Option UInt16) (h : Going m₀ readied m) :
    Prog.Ensures (Machine.allowed allow p.container) (Bounds p allow m₀)
      (Ends p allow m₀ fun _ => Going m₀ firewalled) (firewall listenPort quicPort).run m := by
  refine ensures_told h ⟨true, _, rfl⟩ fun m hm => ?_
  refine Prog.Ensures.lift ((ensures_firewallStep listenPort quicPort hm ⟨true, _, rfl⟩).mono ?_)
  intro detail m hm
  exact ensures_tell hm ⟨true, _, rfl⟩ fun m hm => hm

/-- A server that is to be spared is seen. -/
theorem ensures_detectExisting (h : Going m₀ firewalled m) :
    Prog.Ensures (Machine.allowed allow p.container) (Bounds p allow m₀)
      (Ends p allow m₀ fun running m => Going m₀ detected m ∧ (Spares p allow m₀ → running = true))
      (detectExisting p).run m := by
  refine ensures_told h ⟨true, _, rfl⟩ fun m hm => ?_
  refine Prog.Ensures.bindE (ensures_during (ensures_ask harmless_psNames
    (hm.bounds ⟨true, _, rfl⟩) fun o hallow hexec => ?_))
  cases o with
  | error err => exact hm.fails ⟨.done, true, _, rfl⟩
  | ok out =>
    refine ensures_told hm ⟨true, _, rfl⟩ fun m' hm' => ⟨hm', fun ⟨hruns, hps⟩ => ?_⟩
    rw [Machine.exec] at hexec
    split at hexec
    next => cases hexec
    next hright =>
      have hlisted : (parsePsNames out.stdout).contains p.container = m.docker.runs p.container := by
        by_contra hne
        exact hright ⟨hps out hallow, hne⟩
      rw [hlisted, hm.docker]
      exact hruns

/-! ## The container -/

/-- The container that was asked for. -/
def Fresh (p : ProvisionParams) (ports : UInt16 × Option UInt16) (d : Docker) : Prop :=
  ∃ c, d.containers p.container = some c ∧ c.running ∧ c.image = p.imageRef ∧ c.listenPort = ports.1 ∧
    c.quicPort = ports.2

/-- However often it is tried, a container that was created is the one that was asked for. -/
theorem ensures_tryRun_fresh {plan : Plan} (hname : plan.container = p.container)
    (himage : plan.imageRef = p.imageRef) (more : Nat) (d : Docker) :
    Prog.Ensures Docker.exec (fun _ => True)
      (fun r d => r = .ok () → Fresh p (plan.listenPort, plan.quicPort) d)
      (tryRun plan.container plan.run more).run d := by
  unfold tryRun
  have hclear : Prog.Ensures Docker.exec (fun _ => True) (fun _ _ => True)
      (run (.containerRm plan.container)).run d :=
    ensures_run trivial (fun _ _ _ _ => ⟨trivial, trivial⟩) (fun _ _ => trivial) fun _ => trivial
  refine Prog.Ensures.lift (hclear.mono fun _ d _ => ?_)
  refine Prog.Ensures.bindE (ensures_run trivial ?_ ?_ ?_)
  · intro out d' hcode hsucc
    rw [succeed_run rfl hsucc]
    refine ⟨trivial, ?_⟩
    simp only [if_pos hcode]
    refine fun _ => ⟨⟨d.nextId, plan.imageRef, plan.listenPort, plan.quicPort, true, false⟩, ?_, rfl, himage,
      rfl, rfl⟩
    rw [← hname]
    exact Docker.created_self
  · intro out hcode
    simp only [if_neg hcode]
    split
    · exact nofun
    match more with
    | 0 => exact nofun
    | more + 1 => exact ensures_tryRun_fresh hname himage more d
  · exact fun err => nofun

/-- What the steps have come to when there is a container. -/
structure Housed (p : ProvisionParams) (allow : HostCmd → Answer → Bool) (m₀ : Machine)
    (ports : UInt16 × Option UInt16) (l : List Mark) (m : Machine) : Prop where
  marks : m.marks = m₀.marks ++ l
  docker : m.docker = m₀.docker ∨ ¬Spares p allow m₀ ∧ Fresh p ports m.docker
  users : m.users = m₀.users

variable {ports : UInt16 × Option UInt16}

theorem Housed.told {step : Step} {status : Status} {detail : Str} (h : Housed p allow m₀ ports l m) :
    Housed p allow m₀ ports (l ++ [(step, status)]) (m.told ⟨step, status, detail⟩) :=
  ⟨marks_told h.marks, h.docker, h.users⟩

theorem Housed.spared (h : Housed p allow m₀ ports l m) (hs : Spares p allow m₀) : m.docker = m₀.docker :=
  h.docker.resolve_right fun hfresh => hfresh.1 hs

theorem Housed.bounds (h : Housed p allow m₀ ports l m) (hl : Announced l) : Bounds p allow m₀ m :=
  ⟨⟨l, hl, .inl h.marks⟩, h.spared, h.users ▸ Nat.le_succ _⟩

theorem Housed.fails {step : Step} (h : Housed p allow m₀ ports l m) (hnext : Next l step) :
    Fails p allow m₀ step m :=
  ⟨⟨l, hnext, h.marks⟩, h.spared, h.users ▸ Nat.le_succ _⟩

theorem ensures_detectHostDns (h : Going m₀ l m) (hl : Announced l) :
    Prog.Ensures (Machine.allowed allow p.container) (Bounds p allow m₀) (fun _ => Going m₀ l)
      detectHostDns m := by
  refine Prog.Ensures.bind (ensures_ask (harmless_probe fun _ _ => rfl) (h.bounds hl) fun o _ _ => ?_)
  cases o with
  | error err => exact h
  | ok out => exact h

/-- What is done to the containers leaves the rest of the machine as it is. -/
theorem ensures_docker {α : Type} {name : Str} {I : Docker → Prop} {Q : Except Error α → Docker → Prop}
    {x : Remote α} (h : Prog.Ensures Docker.exec I Q x.run m.docker) :
    Prog.Ensures (Machine.allowed allow name)
      (fun m' => (m'.marks = m.marks ∧ m'.users = m.users) ∧ I m'.docker)
      (fun r m' => (m'.marks = m.marks ∧ m'.users = m.users) ∧ Q r m'.docker) (x.run.mapCall .docker) m := by
  refine Prog.Ensures.mapCall Machine.docker (fun m' => m'.marks = m.marks ∧ m'.users = m.users) ?_ h ⟨rfl, rfl⟩
  intro m₁ c o m₂ hrest hexec
  obtain ⟨d, hd, rfl⟩ := Option.map_eq_some_iff.mp (exec_of_allowed hexec).2
  exact ⟨hrest, hd⟩

theorem ensures_runContainer {plan : Plan} (hname : plan.container = p.container)
    (himage : plan.imageRef = p.imageRef) (hports : (plan.listenPort, plan.quicPort) = ports)
    (hspares : ¬Spares p allow m₀) (h : Going m₀ l m) (hl : Announced l) :
    Prog.Ensures (Machine.allowed allow p.container) (Bounds p allow m₀)
      (fun r m' => m'.marks = m₀.marks ++ l ∧ m'.users = m₀.users ∧ (r = .ok () → Fresh p ports m'.docker))
      ((runContainer p.container plan.run).run.mapCall .docker) m := by
  have hloop : Prog.Ensures (Machine.allowed allow p.container)
      (fun m' => (m'.marks = m.marks ∧ m'.users = m.users) ∧ True) _
      ((runContainer plan.container plan.run).run.mapCall .docker) m :=
    ensures_docker (ensures_tryRun_fresh hname himage (runAttempts - 1) m.docker)
  rw [hports, hname] at hloop
  refine (hloop.weaken fun m' hm' => ?_).mono fun r m' hm' => ?_
  · exact ⟨⟨l, hl, .inl (hm'.1.1.trans h.marks)⟩, fun hs => absurd hs hspares,
      (hm'.1.2.trans h.users) ▸ Nat.le_succ _⟩
  · exact ⟨hm'.1.1.trans h.marks, hm'.1.2.trans h.users, hm'.2⟩

theorem ensures_createContainer {publicHost : Str} (hspares : ¬Spares p allow m₀)
    (h : Going m₀ detected m) :
    Prog.Ensures (Machine.allowed allow p.container) (Bounds p allow m₀)
      (Ends p allow m₀ fun _ => Housed p allow m₀ ports (housed false))
      (createContainer p publicHost ports.1 ports.2).run m := by
  refine ensures_told h ⟨false, _, rfl⟩ fun m hm => ?_
  refine Prog.Ensures.bindE (ensures_during (ensures_remoteOk (harmless_docker fun _ => rfl)
    (hm.bounds ⟨false, _, rfl⟩) fun r => ?_))
  cases r with
  | error err => exact hm.fails ⟨.done, false, _, rfl⟩
  | ok out =>
  refine ensures_told hm ⟨false, _, rfl⟩ fun m hm => ensures_told hm ⟨false, _, rfl⟩ fun m hm => ?_
  refine Prog.Ensures.lift ((ensures_detectHostDns hm ⟨false, _, rfl⟩).mono fun hostDns m hm => ?_)
  refine Prog.Ensures.lift (ensures_ask (harmless_probe fun _ _ => rfl) (hm.bounds ⟨false, _, rfl⟩) ?_)
  intro ipv6 _ _
  refine Prog.Ensures.bindE (ensures_during
    ((ensures_runContainer rfl rfl rfl hspares hm ⟨false, _, rfl⟩).mono fun r m' hm' => ?_))
  obtain ⟨hmarks, husers, hfresh⟩ := hm'
  cases r with
  | error err =>
    exact ⟨⟨_, ⟨.done, false, _, rfl⟩, hmarks⟩, fun hs => absurd hs hspares, husers ▸ Nat.le_succ _⟩
  | ok _ =>
    have hhoused : Housed p allow m₀ ports _ m' := ⟨hmarks, .inr ⟨hspares, hfresh rfl⟩, husers⟩
    exact ensures_emit (hhoused.told.bounds ⟨false, _, rfl⟩) hhoused.told

theorem ensures_haveContainer {publicHost : Str} {running : Bool}
    (hrunning : Spares p allow m₀ → running = true) (h : Going m₀ detected m) :
    Prog.Ensures (Machine.allowed allow p.container) (Bounds p allow m₀)
      (Ends p allow m₀ fun _ => Housed p allow m₀ ports (housed running))
      (haveContainer p running publicHost ports.1 ports.2).run m := by
  cases running with
  | true => exact ensures_tell h ⟨true, _, rfl⟩ fun m hm => ⟨hm.marks, .inl hm.docker, hm.users⟩
  | false => exact ensures_createContainer (fun hs => Bool.false_ne_true (hrunning hs)) h

/-! ## The user -/

/-- What the steps have come to when a user was added: the server runs, for it has answered. -/
structure Peopled (p : ProvisionParams) (allow : HostCmd → Answer → Bool) (m₀ : Machine)
    (ports : UInt16 × Option UInt16) (l : List Mark) (m : Machine) : Prop where
  marks : m.marks = m₀.marks ++ l
  docker : m.docker = m₀.docker ∨ ¬Spares p allow m₀ ∧ Fresh p ports m.docker
  runs : m.docker.runs p.container
  users : m.users = m₀.users + 1

theorem Peopled.told {step : Step} {status : Status} {detail : Str} (h : Peopled p allow m₀ ports l m) :
    Peopled p allow m₀ ports (l ++ [(step, status)]) (m.told ⟨step, status, detail⟩) :=
  ⟨marks_told h.marks, h.docker, h.runs, h.users⟩

theorem Peopled.spared (h : Peopled p allow m₀ ports l m) (hs : Spares p allow m₀) : m.docker = m₀.docker :=
  h.docker.resolve_right fun hfresh => hfresh.1 hs

theorem Peopled.bounds (h : Peopled p allow m₀ ports l m) (hl : Announced l) : Bounds p allow m₀ m :=
  ⟨⟨l, hl, .inl h.marks⟩, h.spared, h.users.le⟩

theorem Peopled.fails {step : Step} (h : Peopled p allow m₀ ports l m) (hnext : Next l step) :
    Fails p allow m₀ step m :=
  ⟨⟨l, hnext, h.marks⟩, h.spared, h.users.le⟩

/-- A user is added once at most: it is tried again only where none was added. -/
theorem ensures_tryAdd (hl : Announced l) (more : Nat) {m : Machine} (h : Housed p allow m₀ ports l m) :
    Prog.Ensures (Machine.allowed allow p.container) (Bounds p allow m₀)
      (fun r m => match r with
        | .ok _ => Peopled p allow m₀ ports l m
        | .error _ => Housed p allow m₀ ports l m) (tryAdd p.container more).run m := by
  unfold tryAdd
  refine Prog.Ensures.bindE (Prog.Ensures.ask fun o m' hexec => ?_)
  obtain ⟨-, hexec⟩ := exec_of_allowed hexec
  cases o with
  | error err =>
    cases hexec
    exact ⟨h.bounds hl, h⟩
  | ok out =>
    rw [Machine.exec] at hexec
    split at hexec
    next hcode =>
      split at hexec
      next hruns =>
        cases hexec
        have hpeopled : Peopled p allow m₀ ports l { m with users := m.users + 1 } :=
          ⟨h.marks, h.docker, hruns, congrArg (· + 1) h.users⟩
        refine ⟨hpeopled.bounds hl, ?_⟩
        dsimp only
        rw [if_pos hcode]
        exact hpeopled
      next => cases hexec
    next hcode =>
      cases hexec
      refine ⟨h.bounds hl, ?_⟩
      dsimp only
      rw [if_neg hcode]
      split
      · exact h
      match more with
      | 0 => exact h
      | more + 1 => exact ensures_tryAdd hl more h

/-- The link is the one that is read. -/
def Issued (issued : Str × Str × Str) : Prop := parseUriFields (String.ofList issued.1) = .ok issued.2

def peopled (reused : Bool) : List Mark := housed reused ++ passed .issueUser

theorem announced_housed {reused : Bool} : Announced (housed reused) ∧
    Announced (housed reused ++ [(Step.issueUser, Status.started)]) ∧ Announced (peopled reused) ∧
    Next (housed reused ++ [(Step.issueUser, Status.started)]) .issueUser ∧ Next (peopled reused) .persist := by
  cases reused with
  | true => exact ⟨⟨true, _, rfl⟩, ⟨true, _, rfl⟩, ⟨true, _, rfl⟩, ⟨.done, true, _, rfl⟩,
      ⟨.done, true, _, rfl⟩⟩
  | false => exact ⟨⟨false, _, rfl⟩, ⟨false, _, rfl⟩, ⟨false, _, rfl⟩, ⟨.done, false, _, rfl⟩,
      ⟨.done, false, _, rfl⟩⟩

theorem ensures_issueUser {reused : Bool} (h : Housed p allow m₀ ports (housed reused) m) :
    Prog.Ensures (Machine.allowed allow p.container) (Bounds p allow m₀)
      (Ends p allow m₀ fun issued m => Peopled p allow m₀ ports (peopled reused) m ∧ Issued issued)
      (issueUser p).run m := by
  obtain ⟨-, hstarted, hdone, hnext, -⟩ := @announced_housed reused
  refine Prog.Ensures.bindE (ensures_emit (h.told.bounds hstarted) ?_)
  dsimp only
  refine Prog.Ensures.bindE (ensures_during ((ensures_tryAdd hstarted _ h.told).mono fun r m hm => ?_))
  cases r with
  | error err => exact hm.fails hnext
  | ok stdout =>
    have hm : Peopled p allow m₀ ports (housed reused ++ [(Step.issueUser, Status.started)]) m := hm
    refine Prog.Ensures.bindE (ensures_during (Prog.Ensures.liftE ?_))
    cases hfields : parseUriFields (String.ofList (issuedUri stdout)) with
    | error err => exact hm.fails hnext
    | ok fields =>
      have htold : Peopled p allow m₀ ports (peopled reused) (m.told ⟨.issueUser, .done, fields.1⟩) := by
        have htold : Peopled p allow m₀ ports
            (housed reused ++ [(Step.issueUser, Status.started)] ++ [(Step.issueUser, Status.done)])
            (m.told ⟨.issueUser, .done, fields.1⟩) :=
          hm.told
        rwa [List.append_assoc] at htold
      exact Prog.Ensures.bindE (ensures_emit (htold.bounds hdone) ⟨htold, hfields⟩)

/-! ## The record -/

/-- What the record says is what was issued, and what others connect to can be connected to. -/
structure Recorded (p : ProvisionParams) (rec : ServerRecord) : Prop where
  container : rec.container = p.container
  imageRef : rec.imageRef = p.imageRef
  issued : ∃ shortId uri, parseUriFields (String.ofList uri) = .ok (shortId, rec.realityPublicB64) ∧
    rec.clients = [⟨shortId, p.userLabel, uri⟩] ∧ rec.quic = parseQuicFields (String.ofList uri) ∧
    rec.connectorUri = if p.role.exposesConnector then some uri else none
  connector : p.role.exposesConnector → rec.quic.isSome

theorem recorded_of_record {hostKeyFp publicHost : Str} {issued : Str × Str × Str} {rec : ServerRecord}
    (hissued : Issued issued)
    (h : record p hostKeyFp publicHost issued.1 issued.2.1 issued.2.2 = .ok rec) :
    Recorded p rec ∧ rec.publicHost = publicHost := by
  unfold record at h
  split at h
  next => cases h
  next hquic =>
    cases h
    refine ⟨⟨rfl, rfl, ⟨issued.2.1, issued.1, hissued, rfl, rfl, rfl⟩, fun hexposes => ?_⟩, rfl⟩
    exact Option.isSome_iff_ne_none.mpr fun hnone => hquic ⟨hexposes, hnone⟩

/-- What provisioning has done when it has succeeded. -/
structure Provisioned (p : ProvisionParams) (allow : HostCmd → Answer → Bool) (m₀ : Machine)
    (rec : ServerRecord) (m : Machine) : Prop where
  marks : ∃ reused, m.marks = m₀.marks ++ script reused
  users : m.users = m₀.users + 1
  record : Recorded p rec
  runs : m.docker.runs rec.container
  docker : m.docker = m₀.docker ∨ ∃ c, m.docker.containers rec.container = some c ∧
    c.image = rec.imageRef ∧ portOf rec.publicHost = some c.listenPort ∧
    Ports p allow m₀ (c.listenPort, c.quicPort)

theorem ensures_provisionInner (debug : Str → Str) :
    Prog.Ensures (Machine.allowed allow p.container) (Bounds p allow m₀)
      (Ends p allow m₀ (Provisioned p allow m₀)) (provisionInner p debug).run m₀ := by
  have hstart : Going m₀ [] m₀ := ⟨(List.append_nil _).symm, rfl, rfl, rfl⟩
  refine Prog.Ensures.bindE (Prog.Ensures.liftE ?_)
  have hfails : Fails p allow m₀ .connect m₀ := hstart.fails ⟨.started, true, _, rfl⟩
  cases hnames : checkNames p debug with
  | error err =>
    obtain ⟨step, err⟩ := err
    have hstep : step = .connect := by
      unfold checkNames at hnames
      split at hnames
      next =>
        cases hnames
        rfl
      next =>
        split at hnames <;> cases hnames
        rfl
    exact hstep ▸ hfails
  | ok _ =>
  refine Prog.Ensures.bindE ((ensures_connectHost hstart).mono fun r m hm => ?_)
  cases r with
  | error err => exact hm
  | ok hostKeyFp =>
  refine Prog.Ensures.bindE ((ensures_preflight hm).mono fun r m hm => ?_)
  cases r with
  | error err => exact hm
  | ok hasDocker =>
  refine Prog.Ensures.bindE ((ensures_dockerReady hasDocker hm).mono fun r m hm => ?_)
  cases r with
  | error err => exact hm
  | ok ports =>
  obtain ⟨hm, hports⟩ := hm
  refine Prog.Ensures.bindE ((ensures_firewall ports.1 ports.2 hm).mono fun r m hm => ?_)
  cases r with
  | error err => exact hm
  | ok _ =>
  refine Prog.Ensures.bindE ((ensures_detectExisting hm).mono fun r m hm => ?_)
  cases r with
  | error err => exact hm
  | ok running =>
  obtain ⟨hm, hrunning⟩ := hm
  refine Prog.Ensures.bindE ((ensures_haveContainer hrunning hm).mono fun r m hm => ?_)
  cases r with
  | error err => exact hm
  | ok _ =>
  refine Prog.Ensures.bindE ((ensures_issueUser hm).mono fun r m hm => ?_)
  cases r with
  | error err => exact hm
  | ok issued =>
  obtain ⟨hm, hissued⟩ := hm
  refine Prog.Ensures.bindE (ensures_during (Prog.Ensures.liftE ?_))
  cases hrecord : record p hostKeyFp (withPort p.publicHost ports.1) issued.1 issued.2.1 issued.2.2 with
  | error err => exact hm.fails announced_housed.2.2.2.2
  | ok rec =>
  obtain ⟨hrec, hhost⟩ := recorded_of_record hissued hrecord
  have hscript : peopled running ++ [(Step.persist, Status.done)] = script running := by
    cases running <;> rfl
  have htold : Peopled p allow m₀ ports (script running) (m.told ⟨.persist, .done, rec.id⟩) := by
    rw [← hscript]
    exact hm.told
  refine Prog.Ensures.bindE (ensures_emit (htold.bounds ⟨running, List.prefix_rfl⟩) ?_)
  refine ⟨⟨running, htold.marks⟩, htold.users, hrec, ?_, ?_⟩
  · rw [hrec.container]
    exact htold.runs
  · refine htold.docker.imp_right fun ⟨_, c, hc, _, himage, hlisten, hquic⟩ => ⟨c, ?_, ?_, ?_, ?_⟩
    · rw [hrec.container]
      exact hc
    · rw [hrec.imageRef]
      exact himage
    · rw [hhost, hlisten]
      exact portOf_withPort _ _
    · rw [hlisten, hquic]
      exact hports

/-- What provisioning has done when it has ended. -/
def Concluded (p : ProvisionParams) (allow : HostCmd → Answer → Bool) (m₀ : Machine)
    (r : Except Error ServerRecord) (m : Machine) : Prop :=
  match r with
  | .ok rec => Provisioned p allow m₀ rec m
  | .error _ => ∃ l step, Next l step ∧ m.marks = m₀.marks ++ (l ++ [(step, .failed)])

theorem ensures_provision (debug : Str → Str) :
    Prog.Ensures (Machine.allowed allow p.container) (Bounds p allow m₀) (Concluded p allow m₀)
      (provision p debug) m₀ := by
  refine Prog.Ensures.bind ((ensures_provisionInner debug).mono fun r m hm => ?_)
  cases r with
  | ok rec => exact hm
  | error err =>
    obtain ⟨current, err⟩ := err
    obtain ⟨⟨l, hnext, hmarks⟩, hspared, husers⟩ := hm
    refine Prog.Ensures.bind (Prog.Ensures.ask fun o m' hexec => ?_)
    cases (exec_of_allowed hexec).2
    have htold : (m.told ⟨current, .failed, err.text⟩).marks = m₀.marks ++ (l ++ [(current, .failed)]) :=
      marks_told hmarks
    exact ⟨⟨⟨l, hnext.announced, .inr ⟨current, hnext, htold⟩⟩, hspared, husers⟩, l, current, hnext, htold⟩

end

/-! ## Every run -/

/-- The listing, if it is one, has not failed. -/
def listed : HostCmd → Answer → Bool
  | .psNames, .ok out => out.code = 0
  | _, _ => true

/-- The config, if it is what is asked for, could be read. -/
def readable : HostCmd → Answer → Bool
  | .catPersistedConfig, .ok out => out.code = 0
  | .catPersistedConfig, .error _ => false
  | _, _ => true

section

variable {p : ProvisionParams} {debug : Str → Str} {m last : Machine} {os : List Answer}
  {log : List (HostCmd × Answer × Machine)} {r : Except Error ServerRecord}

theorem reads_readable : Reads readable := by
  intro o hallow
  cases o with
  | error err => cases hallow
  | ok out => exact ⟨out, rfl, of_decide_eq_true hallow⟩

def sampleParams : ProvisionParams where
  id := "srv".toList
  label := "s".toList
  target := ⟨"1.2.3.4".toList, 22, "root".toList⟩
  secret := .none
  publicHost := "1.2.3.4".toList
  destSni := "example.com".toList
  imageRef := "leshiy".toList
  container := "leshiy".toList
  quicPort := none
  listenPort := 443
  userLabel := "me".toList
  now := 0
  role := .single
  connector := none
  downstream := none
  useSudo := false
  dnsOverride := none
  mtproxy := false

def printing (s : String) : Answer := .ok ⟨0, s.toList, []⟩

/-- What a host with a running server answers. -/
def runningAnswers : List Answer :=
  List.replicate 4 (printing "") ++ [printing "yes"] ++ List.replicate 8 (printing "") ++
    [printing "leshiy"] ++ List.replicate 3 (printing "") ++
    [printing "leshiy://k@1.2.3.4:443?sni=example.com&sid=ab"] ++ List.replicate 2 (printing "")

/-- **The caller is told of the steps in their order.** At every point it has been told a part of the script
from its beginning: all of it when a record is returned, and when an error is returned a part, then that the
next step has failed, and nothing else. -/
theorem provision_tells (hrun : (provision p debug).eval (Machine.exec p.container) m os =
      some (log, r, last)) :
    (∀ called ∈ log, ∃ l, Announced l ∧ (called.2.2.marks = m.marks ++ l ∨
      ∃ step, Next l step ∧ called.2.2.marks = m.marks ++ (l ++ [(step, .failed)]))) ∧
    (∀ rec, r = .ok rec → ∃ reused, last.marks = m.marks ++ script reused) ∧
    ∀ err, r = .error err → ∃ l step, Next l step ∧ last.marks = m.marks ++ (l ++ [(step, .failed)]) := by
  have hevery : (provision p debug).eval (Machine.allowed (fun _ _ => true) p.container) m os =
      some (log, r, last) := Prog.eval_restrict hrun fun _ _ => rfl
  obtain ⟨hbounds, hend⟩ := (ensures_provision debug).eval hevery
  refine ⟨fun called hmem => (hbounds called hmem).marks, ?_, ?_⟩
  · rintro rec rfl
    exact hend.marks
  · rintro err rfl
    exact hend

/-- What an empty host answers: a name that is free cannot be cleared. -/
def freshAnswers : List Answer :=
  List.replicate 4 (printing "") ++ [printing "yes"] ++ List.replicate 16 (printing "") ++
    [.ok ⟨1, [], "no such container".toList⟩] ++ List.replicate 3 (printing "") ++
    [printing "leshiy://k@1.2.3.4:443?sni=example.com&sid=ab"] ++ List.replicate 2 (printing "")

theorem provision_tells_fresh :
    let m : Machine := ⟨⟨fun _ => none, 0, fun _ _ h => absurd h.symm (Option.some_ne_none _)⟩, [], 0, []⟩
    ∃ log rec last, (provision sampleParams id).eval (Machine.exec sampleParams.container) m freshAnswers =
        some (log, .ok rec, last) ∧ ∃ reused, last.marks = script reused := by
  intro m
  have hok : ((provision sampleParams id).eval (Machine.exec sampleParams.container) m freshAnswers).any
      (fun r => r.2.1.isOk) = true := by
    decide +kernel
  obtain ⟨⟨log, result, last⟩, heval, hresult⟩ := (Option.any_eq_true _ _).mp hok
  cases result with
  | error e => cases hresult
  | ok rec => exact ⟨log, rec, last, heval, (provision_tells heval).2.1 rec rfl⟩

end

end Leshiy.Provision
