import Leshiy.Lib.BigEndian
import Leshiy.Provision.Docker

/-!
# Upgrading a server

`upgrade` of `leshiy-provision/src/engine.rs`. The old container is renamed and stopped, a new one is
created under its name and probed, and only one that has answered lets the old one be removed. A failure
on the way puts the old container back.
-/

namespace Leshiy.Provision

open Leshiy.Lib Str

def isImageRefChar (c : Char) : Bool := c.isAlphanum || "._-/:@".toList.contains c

def validImageRef (s : Str) : Bool := s != [] && s.all isImageRefChar

/-- `contains`. -/
def contains (needle : Str) : Str → Bool
  | [] => needle.isEmpty
  | c :: s => needle.isPrefixOf (c :: s) || contains needle s

def isControlSocketUnready (stderr : Str) : Bool :=
  contains "control socket".toList stderr || contains "is the server running".toList stderr

def isPortBindRace (stderr : Str) : Bool := contains "address already in use".toList stderr

/-- The `LESHIY_*` entries of a container's environment. -/
def leshiyEnvs (env : List Str) : List (Str × Str) :=
  (env.filter fun e => "LESHIY_".toList.isPrefixOf e).filterMap (splitOnce '=')

/-- Only the explicit answer that there is no such object counts as its removal. -/
def removedOrAbsent (out : CommandOutput) (absent : Str) : Except Error Unit :=
  if out.code ≠ 0 ∧ absent.isPrefixOf (trim out.stderr) then .ok ()
  else out.ok.map fun _ => ()

/-- A probe, and so many more of them while the control socket is not up. -/
def probe (container : Str) (more : Nat) : Remote Unit := do
  let out ← run (.execUserListJson container)
  if out.code = 0 then return ()
  else if !isControlSocketUnready out.stderr then throw (.command out.code out.stderr)
  else
    match more with
    | 0 => throw (.command out.code out.stderr)
    | more + 1 => probe container more

def userAddAttempts : Nat := 15

def runAttempts : Nat := 5

/-- The control socket must answer, not merely a detached process. -/
def waitReady (container : Str) : Remote Unit := probe container (userAddAttempts - 1)

/-- Clear the name, run the container, and so many times more while the port is still being released. -/
def tryRun (container : Str) (cmd : Cmd) (more : Nat) : Remote Unit := do
  -- Best-effort: it may legitimately not exist.
  let _ ← ExceptT.lift (run (.containerRm container)).run
  let out ← run cmd
  if out.code = 0 then return ()
  else if !isPortBindRace out.stderr then throw (.command out.code out.stderr)
  else
    match more with
    | 0 => throw (.command out.code out.stderr)
    | more + 1 => tryRun container cmd more

def runContainer (container : Str) (cmd : Cmd) : Remote Unit :=
  tryRun container cmd (runAttempts - 1)

/-- What is to be put in the place of the old container. -/
structure Plan where
  container : Str
  imageRef : Str
  listenPort : UInt16
  quicPort : Option UInt16
  dns : List Str
  envs : List (Str × Str)

def Plan.run (p : Plan) : Cmd :=
  .run p.container p.imageRef p.listenPort p.quicPort p.dns p.envs

/-- Sixteen digits. -/
def hex16 (n : UInt64) : Str :=
  (beEncode 8 n.toNat).flatMap fun b => [hexDigit (b.toNat / 16), hexDigit (b.toNat % 16)]

def backupName (container : Str) (nonce : UInt64) : Str :=
  container ++ ("-rollback-".toList ++ hex16 nonce)

section

variable (fromJson : Str → Option (List Str)) (rec : ServerRecord) (imageRef : Str)

/-- What is not a list of texts is an empty one. -/
def parseJsonStringList (stdout : Str) : List Str := (fromJson (trim stdout)).getD []

/-- The ports the config on the volume binds, or those of the record. -/
def portsOf (persisted : Str) : Except Error (UInt16 × Option UInt16) :=
  match parsePersistedPorts persisted with
  | (some listen, quic) => .ok (listen, quic)
  | (none, _) =>
    match portOf rec.publicHost with
    | some listen => .ok (listen, rec.quic.bind fun q => portOf q.addr)
    | none =>
      .error (.parse ("cannot read the listen port from public_host `".toList ++
        (rec.publicHost ++ "`".toList)))

/-- All that is asked of the host before the old container is touched. -/
def prepare : Remote Plan :=
  if !validImageRef imageRef then throw (.parse ("invalid image ref: ".toList ++ imageRef))
  else if !validImageRef rec.container then throw (.parse "invalid saved container name".toList)
  else do
    let envOut ← runOk (.inspectEnv rec.container)
    let envs := leshiyEnvs (parseJsonStringList fromJson envOut.stdout)
    if envs = [] then
      throw (.parse ("no upgradable container `".toList ++ (rec.container ++
        "` on this host (inspect returned no LESHIY_* env) — ".toList ++
          "run `leshiy remote provision` to recreate it".toList)))
    else do
      let dnsOut ← runOk (.inspectDns rec.container)
      let dns := parseJsonStringList fromJson dnsOut.stdout
      -- A config that cannot be read is an empty one.
      let persisted ← ExceptT.lift (run .catPersistedConfig).run
      let ports ← portsOf rec (match persisted with
        | .ok out => out.stdout
        | .error _ => [])
      let _ ← runOk (.pull imageRef)
      return ⟨rec.container, imageRef, ports.1, ports.2, dns, envs⟩

/-- The old container under another name. -/
def setAside (backup : Str) : Remote Plan := do
  let p ← prepare fromJson rec imageRef
  let _ ← runOk (.rename rec.container backup)
  return p

end

/-- The new container in the place of the old one. -/
def replacement (p : Plan) (backup : Str) : Remote Unit := do
  let _ ← runOk (.stop backup)
  runContainer p.container p.run
  waitReady p.container

/-- The old container back in its place. -/
def rollback (container backup : Str) : Remote Unit := do
  let out ← run (.containerRm container)
  removedOrAbsent out "Error response from daemon: No such container:".toList
  let _ ← runOk (.rename backup container)
  let _ ← runOk (.start container)
  waitReady container

/-- Why an upgrade failed: before the old container was touched, or behind that, with the old container
put back or not. -/
inductive UpgradeError where
  | refused (error : Error)
  | rolledBack (error : Error)
  | rollbackFailed (error rollback : Error) (backup : Str)

/-- The error that the caller gets. -/
def UpgradeError.toError : UpgradeError → Error
  | refused error | rolledBack error => error
  | rollbackFailed error rollback backup =>
    .parse ("upgrade failed: ".toList ++ (error.text ++ ("; rollback failed: ".toList ++
      (rollback.text ++ ("; retained recovery container may be ".toList ++ backup)))))

/-- The result and the record as it is left. -/
def upgrade (fromJson : Str → Option (List Str)) (rec : ServerRecord) (imageRef : Str)
    (nonce : UInt64) : Prog Cmd Answer (Except UpgradeError Unit × ServerRecord) := do
  let backup := backupName rec.container nonce
  match ← (setAside fromJson rec imageRef backup).run with
  | .error error => return (.error (.refused error), rec)
  | .ok p =>
    match ← (replacement p backup).run with
    | .error error =>
      match ← (rollback rec.container backup).run with
      | .ok () => return (.error (.rolledBack error), rec)
      | .error rollback => return (.error (.rollbackFailed error rollback backup), rec)
    | .ok () =>
      -- The replacement is ready, whether or not the recovery copy can be removed.
      let _ ← (runOk (.containerRm backup)).run
      return (.ok (), { rec with imageRef, publicHost := withPort rec.publicHost p.listenPort })

/-! ## Where the old container is -/

section

variable {i : Nat} {name backup : Str} {d : Docker}

/-- The old container is under its name. -/
def Home (i : Nat) (name : Str) (d : Docker) : Prop := d.idAt name = some i

/-- The old container is under its backup name, and no longer under its own. -/
structure Away (i : Nat) (name backup : Str) (d : Docker) : Prop where
  backup : d.idAt backup = some i
  name : d.idAt name ≠ some i

def Kept (i : Nat) (name backup : Str) (d : Docker) : Prop :=
  Home i name d ∨ d.idAt backup = some i

/-- Another container of this image is under the name, and has answered a probe. -/
def Replaced (i : Nat) (name image : Str) (d : Docker) : Prop :=
  ∃ c, d.containers name = some c ∧ c.id ≠ i ∧ c.image = image ∧ c.answered

/-- What holds all along: the old container is there, or the new one has answered. -/
def Safe (i : Nat) (name backup image : Str) (d : Docker) : Prop :=
  Kept i name backup d ∨ Replaced i name image d

theorem Away.safe {image : Str} (h : Away i name backup d) : Safe i name backup image d :=
  .inl (.inr h.backup)

theorem Home.safe {image : Str} (h : Home i name d) : Safe i name backup image d := .inl (.inl h)

theorem Away.update {n : Str} {f : Container → Container} {hf : ∀ c, (f c).id = c.id}
    (h : Away i name backup d) : Away i name backup (d.update n f hf) := by
  refine ⟨?_, ?_⟩
  · rw [Docker.idAt_update]
    exact h.backup
  · rw [Docker.idAt_update]
    exact h.name

theorem Away.erased (hne : backup ≠ name) (h : Away i name backup d) :
    Away i name backup (d.erased name) := by
  refine ⟨?_, ?_⟩
  · rw [Docker.idAt_erased, if_neg hne]
    exact h.backup
  · rw [Docker.idAt_erased, if_pos rfl]
    exact (Option.some_ne_none i).symm

/-- A new container is not the old one. -/
theorem Away.created {image : Str} {p : UInt16} {q : Option UInt16} (hne : backup ≠ name)
    (h : Away i name backup d) : Away i name backup (d.created name image p q) := by
  refine ⟨?_, ?_⟩
  · rw [Docker.idAt_created, if_neg hne]
    exact h.backup
  · rw [Docker.idAt_created, if_pos rfl]
    intro heq
    have hlt := Docker.idAt_lt h.backup
    rw [← Option.some.inj heq] at hlt
    exact Nat.lt_irrefl _ hlt

theorem Home.renamed (hne : name ≠ backup) (h : Home i name d) :
    Away i name backup (d.renamed name backup) := by
  refine ⟨?_, ?_⟩
  · rw [Docker.idAt_renamed, if_pos rfl]
    exact h
  · rw [Docker.idAt_renamed, if_neg hne, if_pos rfl]
    exact (Option.some_ne_none i).symm

theorem Away.renamed_back (h : Away i name backup d) : Home i name (d.renamed backup name) := by
  unfold Home
  rw [Docker.idAt_renamed, if_pos rfl]
  exact h.backup

end

/-! ## What the parts of an upgrade do -/

section

variable {I : Docker → Prop} {i : Nat} {name backup image : Str} {d : Docker} {p : Plan}

theorem succeed_execUserListJson {d' : Docker} (h : d.succeed (.execUserListJson name) = some d') :
    d.runs name ∧ d' = d.probed name := by
  simp only [Docker.succeed] at h
  split at h
  · next hruns => exact ⟨hruns, (Option.some.inj h).symm⟩
  · cases h

/-- Probes change nothing until one is answered. -/
theorem ensures_probe (hI : I d) (hI' : I (d.probed name)) (more : Nat) :
    Prog.Ensures Docker.exec I (fun r s => match r with
      | .ok _ => d.runs name ∧ s = d.probed name
      | .error _ => s = d) (probe name more).run d := by
  unfold probe
  refine Prog.Ensures.bindE (ensures_run hI ?_ ?_ ?_)
  · intro out d' hcode hsucc
    obtain ⟨hruns, rfl⟩ := succeed_execUserListJson hsucc
    refine ⟨hI', ?_⟩
    simp only [if_pos hcode]
    exact ⟨hruns, rfl⟩
  · intro out hcode
    simp only [if_neg hcode]
    split
    · exact rfl
    match more with
    | 0 => exact rfl
    | more + 1 => exact ensures_probe hI hI' more
  · exact fun err => rfl

/-- A container as it was asked for is under the name, and it is not the old one. -/
def Created (i : Nat) (name : Str) (p : Plan) (d : Docker) : Prop :=
  ∃ c, d.containers name = some c ∧ c.id ≠ i ∧ c.image = p.imageRef ∧
    c.listenPort = p.listenPort ∧ c.running

theorem succeed_run {d' : Docker} (hp : p.container = name) (h : d.succeed p.run = some d') :
    d' = d.created name p.imageRef p.listenPort p.quicPort := by
  simp only [Plan.run, Docker.succeed, hp] at h
  split at h
  · exact (Option.some.inj h).symm
  · cases h

/-- Clearing a name leaves the old container where it is away. -/
theorem ensures_clear (hne : backup ≠ name) (hI : ∀ s, Away i name backup s → I s)
    (h : Away i name backup d) :
    Prog.Ensures Docker.exec I (fun _ s => Away i name backup s) (run (.containerRm name)).run d := by
  refine ensures_run (hI d h) ?_ (fun _ _ => h) (fun _ => h)
  intro out d' hcode hsucc
  cases hsucc
  exact ⟨hI _ (h.erased hne), h.erased hne⟩

/-- The old container stays away, however often the new one is tried. -/
theorem ensures_tryRun (hne : backup ≠ name) (hp : p.container = name)
    (hI : ∀ s, Away i name backup s → I s) (more : Nat) {d : Docker} (h : Away i name backup d) :
    Prog.Ensures Docker.exec I (fun r s => Away i name backup s ∧ (r = .ok () → Created i name p s))
      (tryRun name p.run more).run d := by
  unfold tryRun
  refine Prog.Ensures.lift ((ensures_clear hne hI h).mono fun _ s hs => ?_)
  refine Prog.Ensures.bindE (ensures_run (hI s hs) ?_ ?_ ?_)
  · intro out d' hcode hsucc
    rw [succeed_run hp hsucc]
    have haway : Away i name backup (s.created name p.imageRef p.listenPort p.quicPort) :=
      hs.created hne
    refine ⟨hI _ haway, ?_⟩
    simp only [if_pos hcode]
    have hother : s.nextId ≠ i := Nat.ne_of_gt (Docker.idAt_lt hs.backup)
    exact ⟨haway, fun _ => ⟨_, Docker.created_self, hother, rfl, rfl, rfl⟩⟩
  · intro out hcode
    simp only [if_neg hcode]
    split
    · exact ⟨hs, nofun⟩
    match more with
    | 0 => exact ⟨hs, nofun⟩
    | more + 1 => exact ensures_tryRun hne hp hI more hs
  · exact fun err => ⟨hs, nofun⟩

/-- The new container has answered while the old one is away. -/
def Ready (i : Nat) (name : Str) (p : Plan) (d : Docker) : Prop :=
  ∃ c, d.containers name = some c ∧ c.id ≠ i ∧ c.image = p.imageRef ∧
    c.listenPort = p.listenPort ∧ c.running ∧ c.answered

theorem Created.probed (h : Created i name p d) : Ready i name p (d.probed name) := by
  obtain ⟨c, hc, hid, himage, hport, hruns⟩ := h
  refine ⟨{ c with answered := true }, ?_, hid, himage, hport, hruns, rfl⟩
  show (d.update name _ _).containers name = _
  rw [Docker.update_self, hc, Option.map_some]

theorem ensures_replacement (hne : backup ≠ name) (hp : p.container = name)
    (hI : ∀ s, Away i name backup s → I s) (h : Away i name backup d) :
    Prog.Ensures Docker.exec I (fun r s => Away i name backup s ∧ (r = .ok () → Ready i name p s))
      (replacement p backup).run d := by
  unfold replacement
  refine Prog.Ensures.bindE (ensures_runOk (hI d h) ?_ fun _ => ⟨h, nofun⟩)
  intro out d' hstop
  have haway : Away i name backup d' := by
    simp only [Docker.succeed] at hstop
    split at hstop
    · cases hstop
      exact h.update
    · cases hstop
  refine ⟨hI d' haway, ?_⟩
  unfold runContainer
  rw [hp]
  refine Prog.Ensures.bindE ((ensures_tryRun hne hp hI _ haway).mono fun r s hs => ?_)
  cases r with
  | error err => exact ⟨hs.1, nofun⟩
  | ok _ =>
    refine (ensures_probe (hI s hs.1) (hI _ hs.1.update) _).mono fun r s' hs' => ?_
    cases r with
    | error err =>
      rw [hs']
      exact ⟨hs.1, nofun⟩
    | ok _ =>
      rw [hs'.2]
      exact ⟨hs.1.update, fun _ => (hs.2 rfl).probed⟩

/-- The old container is under its name and runs. -/
def Restored (i : Nat) (name : Str) (d : Docker) : Prop :=
  ∃ c, d.containers name = some c ∧ c.id = i ∧ c.running

theorem Home.started (h : Home i name d) : Restored i name (d.started name) := by
  obtain ⟨c, hc, hid⟩ := Option.map_eq_some_iff.mp h
  refine ⟨{ c with running := true }, ?_, hid, rfl⟩
  show (d.update name _ _).containers name = _
  rw [Docker.update_self, hc, Option.map_some]

theorem Restored.probed (h : Restored i name d) : Restored i name (d.probed name) := by
  obtain ⟨c, hc, hid, hruns⟩ := h
  refine ⟨{ c with answered := true }, ?_, hid, hruns⟩
  show (d.update name _ _).containers name = _
  rw [Docker.update_self, hc, Option.map_some]

theorem Restored.home (h : Restored i name d) : Home i name d := by
  obtain ⟨c, hc, hid, -⟩ := h
  exact Option.map_eq_some_iff.mpr ⟨c, hc, hid⟩

theorem ensures_rollback (hne : backup ≠ name) (hI : ∀ s, Kept i name backup s → I s)
    (h : Away i name backup d) :
    Prog.Ensures Docker.exec I (fun r s => Kept i name backup s ∧ (r = .ok () → Restored i name s))
      (rollback name backup).run d := by
  have hkept : ∀ {s}, Away i name backup s → Kept i name backup s := fun hs => .inr hs.backup
  unfold rollback
  refine Prog.Ensures.bindE ((ensures_clear hne (fun s hs => hI s (hkept hs)) h).mono
    fun r s hs => ?_)
  cases r with
  | error err => exact ⟨hkept hs, nofun⟩
  | ok out =>
    refine Prog.Ensures.bindE (Prog.Ensures.liftE ?_)
    cases removedOrAbsent out "Error response from daemon: No such container:".toList with
    | error err => exact ⟨hkept hs, nofun⟩
    | ok _ =>
      refine Prog.Ensures.bindE (ensures_runOk (hI s (hkept hs)) ?_ fun _ => ⟨hkept hs, nofun⟩)
      intro _ d' hrename
      have hhome : Home i name d' := by
        simp only [Docker.succeed] at hrename
        split at hrename
        · cases hrename
          exact hs.renamed_back
        · cases hrename
      refine ⟨hI d' (.inl hhome), ?_⟩
      refine Prog.Ensures.bindE (ensures_runOk (hI d' (.inl hhome)) ?_ fun _ => ⟨.inl hhome, nofun⟩)
      intro _ d'' hstart
      have hrestored : Restored i name d'' := by
        simp only [Docker.succeed] at hstart
        split at hstart
        · cases hstart
          exact hhome.started
        · cases hstart
      refine ⟨hI d'' (.inl hrestored.home), ?_⟩
      refine (ensures_probe (hI d'' (.inl hrestored.home)) (hI _ (.inl hrestored.probed.home)) _).mono
        fun r s' hs' => ?_
      cases r with
      | error err =>
        rw [hs']
        exact ⟨.inl hrestored.home, nofun⟩
      | ok _ =>
        rw [hs'.2]
        exact ⟨.inl hrestored.probed.home, fun _ => hrestored.probed⟩

section

variable {fromJson : Str → Option (List Str)} {rec rec' : ServerRecord} {imageRef : Str} {nonce : UInt64}

theorem succeed_inspectEnv {n : Str} {d' : Docker} (h : d.succeed (.inspectEnv n) = some d') :
    (d.containers n).isSome ∧ d' = d := by
  simp only [Docker.succeed] at h
  split at h
  · next hsome => exact ⟨hsome, (Option.some.inj h).symm⟩
  · cases h

theorem succeed_inspectDns {n : Str} {d' : Docker} (h : d.succeed (.inspectDns n) = some d') :
    d' = d := by
  simp only [Docker.succeed] at h
  split at h
  · exact (Option.some.inj h).symm
  · cases h

/-- What is asked of the host changes nothing, and there is a container to replace. -/
theorem ensures_prepare (hI : I d) :
    Prog.Ensures Docker.exec I (fun r s => s = d ∧ ∀ p, r = .ok p →
      p.container = rec.container ∧ p.imageRef = imageRef ∧ (d.containers rec.container).isSome)
      (prepare fromJson rec imageRef).run d := by
  unfold prepare
  split
  · exact ⟨rfl, nofun⟩
  split
  · exact ⟨rfl, nofun⟩
  refine Prog.Ensures.bindE (ensures_runOk hI ?_ fun _ => ⟨rfl, nofun⟩)
  intro envOut d' hinspect
  obtain ⟨hsome, hsame⟩ := succeed_inspectEnv hinspect
  rw [hsame]
  refine ⟨hI, ?_⟩
  dsimp only
  split
  · exact ⟨rfl, nofun⟩
  refine Prog.Ensures.bindE (ensures_runOk hI ?_ fun _ => ⟨rfl, nofun⟩)
  intro dnsOut d'' hinspect'
  rw [succeed_inspectDns hinspect']
  refine ⟨hI, ?_⟩
  have hcat : Prog.Ensures Docker.exec I (fun _ s => s = d) (run .catPersistedConfig).run d :=
    ensures_run hI (fun _ _ _ hsucc => ⟨Option.some.inj hsucc ▸ hI, (Option.some.inj hsucc).symm⟩)
      (fun _ _ => rfl) fun _ => rfl
  refine Prog.Ensures.lift (hcat.mono fun persisted s hs => ?_)
  rw [hs]
  refine Prog.Ensures.bindE (Prog.Ensures.liftE ?_)
  cases portsOf rec _ with
  | error err => exact ⟨rfl, nofun⟩
  | ok ports =>
    refine Prog.Ensures.bindE (ensures_runOk hI ?_ fun _ => ⟨rfl, nofun⟩)
    intro _ d₃ hpull
    rw [← Option.some.inj hpull]
    refine ⟨hI, rfl, ?_⟩
    rintro p ⟨⟩
    exact ⟨rfl, rfl, hsome⟩

theorem backupName_ne (container : Str) (nonce : UInt64) : backupName container nonce ≠ container := by
  intro heq
  have hlen := congrArg List.length heq
  unfold backupName at hlen
  rw [List.length_append] at hlen
  have hpos : 0 < ("-rollback-".toList ++ hex16 nonce).length := Nat.lt_of_lt_of_le (by decide)
    (List.length_append ▸ Nat.le_add_right _ _ : "-rollback-".toList.length ≤ _)
  omega

/-- What is left of an upgrade, by how it ended. -/
inductive Ended (i : Nat) (rec : ServerRecord) (imageRef : Str) (d : Docker) :
    Except UpgradeError Unit × ServerRecord → Docker → Prop
  | refused (error : Error) : Ended i rec imageRef d (.error (.refused error), rec) d
  | rolledBack {s : Docker} (error : Error) (h : Restored i rec.container s) :
    Ended i rec imageRef d (.error (.rolledBack error), rec) s
  | rollbackFailed {s : Docker} (error rollback : Error) (backup : Str)
    (h : Kept i rec.container backup s) :
    Ended i rec imageRef d (.error (.rollbackFailed error rollback backup), rec) s
  | upgraded {s : Docker} {c : Container} (hc : s.containers rec.container = some c) (hid : c.id ≠ i)
    (himage : c.image = imageRef) (hruns : c.running) :
    Ended i rec imageRef d
      (.ok (), { rec with imageRef, publicHost := withPort rec.publicHost c.listenPort }) s

theorem ensures_setAside (hne : rec.container ≠ backup) (hI : ∀ s, Home i rec.container s → I s)
    (hI' : ∀ s, Away i rec.container backup s → I s) (h : Home i rec.container d) :
    Prog.Ensures Docker.exec I (fun r s => match r with
      | .ok p => Away i rec.container backup s ∧ p.container = rec.container ∧ p.imageRef = imageRef
      | .error _ => s = d) (setAside fromJson rec imageRef backup).run d := by
  unfold setAside
  refine Prog.Ensures.bindE ((ensures_prepare (hI d h)).mono fun r s hs => ?_)
  obtain ⟨rfl, hplan⟩ := hs
  cases r with
  | error err => exact rfl
  | ok p =>
    obtain ⟨hname, himage, -⟩ := hplan p rfl
    refine Prog.Ensures.bindE (ensures_runOk (hI _ h) ?_ fun _ => rfl)
    intro _ d' hrename
    have haway : Away i rec.container backup d' := by
      simp only [Docker.succeed] at hrename
      split at hrename
      · cases hrename
        exact h.renamed hne
      · cases hrename
    exact ⟨hI' d' haway, haway, hname, himage⟩

theorem Ready.replaced (h : Ready i name p d) : Replaced i name p.imageRef d := by
  obtain ⟨c, hc, hid, himage, -, -, hanswered⟩ := h
  exact ⟨c, hc, hid, himage, hanswered⟩

theorem Ready.erased (hne : name ≠ backup) (h : Ready i name p d) :
    Ready i name p (d.erased backup) := by
  obtain ⟨c, hc, hrest⟩ := h
  exact ⟨c, (Docker.erased_ne hne).trans hc, hrest⟩

theorem ensures_upgrade (hold : Home i rec.container d) :
    Prog.Ensures Docker.exec (Safe i rec.container (backupName rec.container nonce) imageRef)
      (Ended i rec imageRef d) (upgrade fromJson rec imageRef nonce) d := by
  have hne := backupName_ne rec.container nonce
  unfold upgrade
  refine Prog.Ensures.bind ((ensures_setAside hne.symm (fun _ h => h.safe) (fun _ h => h.safe)
    hold).mono fun r s hs => ?_)
  cases r with
  | error err =>
    rw [hs]
    exact .refused err
  | ok p =>
    obtain ⟨haway, hname, himage⟩ := hs
    subst himage
    refine Prog.Ensures.bind ((ensures_replacement hne hname (fun _ h => h.safe) haway).mono
      fun r s hs => ?_)
    obtain ⟨haway, hready⟩ := hs
    cases r with
    | error err =>
      refine Prog.Ensures.bind ((ensures_rollback hne (fun _ h => .inl h) haway).mono
        fun r s hs => ?_)
      cases r with
      | error rollback => exact .rollbackFailed err rollback _ hs.1
      | ok _ => exact .rolledBack err (hs.2 rfl)
    | ok _ =>
      have hready := hready rfl
      have hsafe : ∀ s', Ready i rec.container p s' →
          Safe i rec.container (backupName rec.container nonce) p.imageRef s' :=
        fun _ h => .inr h.replaced
      have hcleanup : Prog.Ensures Docker.exec
          (Safe i rec.container (backupName rec.container nonce) p.imageRef)
          (fun _ s' => Ready i rec.container p s')
          (runOk (.containerRm (backupName rec.container nonce))).run s := by
        refine ensures_runOk (hsafe s hready) ?_ fun _ => hready
        intro _ d' hsucc
        rw [← Option.some.inj hsucc]
        exact ⟨hsafe _ (hready.erased hne.symm), hready.erased hne.symm⟩
      refine Prog.Ensures.bind (hcleanup.mono fun _ s' hs' => ?_)
      obtain ⟨c, hc, hid, himage, hport, hruns, -⟩ := hs'
      show Ended i rec p.imageRef d (.ok (), { rec with
        imageRef := p.imageRef, publicHost := withPort rec.publicHost p.listenPort }) s'
      rw [← hport]
      exact .upgraded hc hid himage hruns

/-- Where there is no container the upgrade is refused. -/
theorem ensures_upgrade_absent (hnone : d.containers rec.container = none) :
    Prog.Ensures Docker.exec (fun _ => True) (fun r _ => ∃ error, r = (.error (.refused error), rec))
      (upgrade fromJson rec imageRef nonce) d := by
  unfold upgrade
  refine Prog.Ensures.bind (p := (setAside fromJson rec imageRef _).run) ?_
  unfold setAside
  refine Prog.Ensures.bindE ((ensures_prepare trivial).mono fun r s hs => ?_)
  cases r with
  | error err => exact ⟨err, rfl⟩
  | ok p =>
    obtain ⟨-, -, hsome⟩ := hs.2 p rfl
    rw [hnone] at hsome
    cases hsome

end

/-- **An upgrade loses no server.** On every run, whatever the commands answer: the old container is
there until one that replaces it has answered; a failure leaves it as it was or, put back, running
under its name, and leaves the record alone; success leaves a record of the container that runs. -/
theorem upgrade_atomic {outs : List Answer} {log : List (Cmd × Answer × Docker)}
    {result : Except UpgradeError Unit} {last : Docker}
    (hrun : (upgrade fromJson rec imageRef nonce).eval Docker.exec d outs =
      some (log, (result, rec'), last)) :
    (∀ old, d.containers rec.container = some old →
      (∀ called ∈ log, Safe old.id rec.container (backupName rec.container nonce) imageRef called.2.2) ∧
      (∀ error, result = .error (.refused error) → last.containers rec.container = some old) ∧
      ∀ error, result = .error (.rolledBack error) → Restored old.id rec.container last) ∧
    (∀ error, result = .error error → rec' = rec) ∧
    (result = .ok () → ∃ c, last.containers rec'.container = some c ∧ c.running ∧
      c.image = rec'.imageRef ∧ portOf rec'.publicHost = some c.listenPort ∧
      rec' = { rec with imageRef, publicHost := withPort rec.publicHost c.listenPort }) := by
  cases hold : d.containers rec.container with
  | none =>
    obtain ⟨-, error, hend⟩ := (ensures_upgrade_absent hold).eval hrun
    cases hend
    exact ⟨nofun, fun _ _ => rfl, nofun⟩
  | some old =>
    have hhome : Home old.id rec.container d := Option.map_eq_some_iff.mpr ⟨old, hold, rfl⟩
    obtain ⟨hsafe, hend⟩ := (ensures_upgrade hhome).eval hrun
    refine ⟨fun old' hold' => ?_, ?_⟩
    · cases hold'
      refine ⟨hsafe, fun error heq => ?_, fun error heq => ?_⟩
      · subst heq
        cases hend
        exact hold
      · subst heq
        cases hend with
        | rolledBack _ h => exact h
    · cases hend with
      | refused | rolledBack | rollbackFailed => exact ⟨fun _ _ => rfl, nofun⟩
      | upgraded hc hid himage hruns =>
        exact ⟨nofun, fun _ => ⟨_, hc, hruns, himage, portOf_withPort _ _, rfl⟩⟩

end

/-- A host with a server under this name. -/
def hostWith (name : Str) (c : Container) (hid : c.id = 0) : Docker where
  containers n := if n = name then some c else none
  nextId := 1
  fresh n c' h := by
    split at h
    · cases h
      rw [hid]
      exact Nat.one_pos
    · cases h

/-- A record with what an upgrade reads of it. -/
def recordOf (container publicHost imageRef : Str) : ServerRecord where
  id := "srv".toList
  label := "srv".toList
  host := "1.2.3.4".toList
  port := 22
  sshUser := "root".toList
  sshSecret := .none
  hostKeyFp := []
  publicHost
  imageRef
  container
  realityPublicB64 := []
  quic := none
  clients := []
  createdAt := 0
  role := "single".toList
  connectorUri := none
  downstream := none
  useSudo := false

def sampleHost : Docker := hostWith "leshiy".toList ⟨0, "old".toList, 443, none, true, false⟩ rfl

def sampleRecord : ServerRecord := recordOf "leshiy".toList "1.2.3.4:443".toList "old".toList

/-- Every command succeeds but the one that clears a name that is free. -/
def sampleAnswers : List Answer :=
  let ok : Answer := .ok ⟨0, "[]".toList, []⟩
  let absent : Answer := .ok ⟨1, [], "no such container".toList⟩
  [ok, ok, ok, ok, ok, ok, absent, ok, ok, ok]

theorem upgrade_atomic_ready :
    let p := upgrade (fun _ => some ["LESHIY_HOST=1.2.3.4:443".toList]) sampleRecord "new".toList 7
    ∃ log rec' last, p.eval Docker.exec sampleHost sampleAnswers = some (log, (.ok (), rec'), last) ∧
      ∃ c, last.containers rec'.container = some c ∧ c.running ∧ c.image = rec'.imageRef ∧
        portOf rec'.publicHost = some c.listenPort := by
  intro p
  have hok : (p.eval Docker.exec sampleHost sampleAnswers).any (fun r => r.2.1.1.isOk) = true := by
    decide +kernel
  obtain ⟨⟨log, ⟨result, rec'⟩, last⟩, heval, hresult⟩ :=
    (Option.any_eq_true _ _).mp hok
  cases result with
  | error e => cases hresult
  | ok _ =>
    obtain ⟨c, hc, hruns, himage, hport, -⟩ := (upgrade_atomic heval).2.2 rfl
    exact ⟨log, rec', last, heval, c, hc, hruns, himage, hport⟩

end Leshiy.Provision
