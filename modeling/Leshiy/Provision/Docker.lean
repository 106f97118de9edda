import Leshiy.Lib.Calls
import Leshiy.Provision.PersistedPorts

/-!
# Containers on a remote host

The commands that `leshiy-provision/src/docker.rs` builds for an upgrade, and what they do to the
containers of the host: a command that fails leaves them as they are, one that succeeds finds what it
needs. Each container has an identity of its own, which a new name does not change.
-/

namespace Leshiy.Provision

open Leshiy.Lib Str

structure CommandOutput where
  code : Int
  stdout : Str
  stderr : Str

/-- A non-zero exit is an error. -/
def CommandOutput.ok (out : CommandOutput) : Except Error CommandOutput :=
  if out.code = 0 then .ok out else .error (.command out.code out.stderr)

/-- What a transport says of a command: that it could not be run, or its output. -/
abbrev Answer := Except Error CommandOutput

inductive Cmd where
  | inspectEnv (container : Str)
  | inspectDns (container : Str)
  | catPersistedConfig
  | pull (imageRef : Str)
  | rename (container name : Str)
  | stop (container : Str)
  | start (container : Str)
  | containerRm (container : Str)
  | run (container imageRef : Str) (listenPort : UInt16) (quicPort : Option UInt16) (dns : List Str)
    (envs : List (Str × Str))
  | execUserListJson (container : Str)

/-- A container, the ports it publishes, and whether it has answered a probe. -/
structure Container where
  id : Nat
  image : Str
  listenPort : UInt16
  quicPort : Option UInt16
  running : Bool
  answered : Bool
  deriving DecidableEq

/-- The containers by name. -/
structure Docker where
  containers : Str → Option Container
  nextId : Nat
  fresh : ∀ n c, containers n = some c → c.id < nextId

namespace Docker

variable (d : Docker)

/-- The container of a name is changed, if there is one. -/
def update (n : Str) (f : Container → Container) (hf : ∀ c, (f c).id = c.id) : Docker where
  containers x := if x = n then (d.containers n).map f else d.containers x
  nextId := d.nextId
  fresh x c h := by
    split at h
    · obtain ⟨c', hc', rfl⟩ := Option.map_eq_some_iff.mp h
      rw [hf]
      exact d.fresh _ _ hc'
    · exact d.fresh _ _ h

def stopped (n : Str) : Docker := d.update n (fun c => { c with running := false }) fun _ => rfl

def started (n : Str) : Docker := d.update n (fun c => { c with running := true }) fun _ => rfl

def probed (n : Str) : Docker := d.update n (fun c => { c with answered := true }) fun _ => rfl

def erased (n : Str) : Docker where
  containers x := if x = n then none else d.containers x
  nextId := d.nextId
  fresh x c h := by
    split at h
    · cases h
    · exact d.fresh _ _ h

def renamed (n name : Str) : Docker where
  containers x := if x = name then d.containers n else if x = n then none else d.containers x
  nextId := d.nextId
  fresh x c h := by
    split at h
    · exact d.fresh _ _ h
    split at h
    · cases h
    · exact d.fresh _ _ h

def created (n image : Str) (listenPort : UInt16) (quicPort : Option UInt16) : Docker where
  containers x :=
    if x = n then some ⟨d.nextId, image, listenPort, quicPort, true, false⟩ else d.containers x
  nextId := d.nextId + 1
  fresh x c h := by
    split at h
    · cases h
      exact Nat.lt_succ_self _
    · exact Nat.lt_succ_of_lt (d.fresh _ _ h)

def runs (n : Str) : Bool := (d.containers n).any Container.running

/-- What a command leaves that has succeeded; `none` where it cannot. -/
def succeed : Cmd → Option Docker
  | .inspectEnv n | .inspectDns n => if (d.containers n).isSome then some d else none
  | .catPersistedConfig | .pull _ => some d
  | .rename n name =>
    if (d.containers n).isSome ∧ (d.containers name).isNone then some (d.renamed n name) else none
  | .stop n => if (d.containers n).isSome then some (d.stopped n) else none
  | .start n => if (d.containers n).isSome then some (d.started n) else none
  | .containerRm n => some (d.erased n)
  | .run n image listenPort quicPort _ _ =>
    if (d.containers n).isNone then some (d.created n image listenPort quicPort) else none
  | .execUserListJson n => if d.runs n then some (d.probed n) else none

/-- A command that fails has no effect. -/
def exec (c : Cmd) : Answer → Option Docker
  | .error _ => some d
  | .ok out => if out.code = 0 then d.succeed c else some d

/-- Which container has a name. -/
def idAt (n : Str) : Option Nat := (d.containers n).map Container.id

variable {d} {n m x image : Str} {p : UInt16} {q : Option UInt16} {f : Container → Container}
  {hf : ∀ c, (f c).id = c.id}

theorem update_self : (d.update n f hf).containers n = (d.containers n).map f := if_pos rfl

theorem erased_ne (h : m ≠ n) : (d.erased n).containers m = d.containers m := if_neg h

theorem created_self : (d.created n image p q).containers n =
    some ⟨d.nextId, image, p, q, true, false⟩ := if_pos rfl

/-- A change to a container leaves it the same one. -/
theorem idAt_update : (d.update n f hf).idAt x = d.idAt x := by
  unfold idAt
  by_cases hx : x = n
  · subst hx
    rw [update_self, Option.map_map]
    exact congrArg (fun g => (d.containers x).map g) (funext hf)
  · exact congrArg (Option.map Container.id) (if_neg hx)

theorem idAt_erased : (d.erased n).idAt x = if x = n then none else d.idAt x := by
  show Option.map _ (if x = n then _ else _) = _
  split <;> rfl

theorem idAt_renamed : (d.renamed n m).idAt x =
    if x = m then d.idAt n else if x = n then none else d.idAt x := by
  show Option.map _ (if x = m then _ else if x = n then _ else _) = _
  split
  · rfl
  split <;> rfl

theorem idAt_created : (d.created n image p q).idAt x =
    if x = n then some d.nextId else d.idAt x := by
  show Option.map _ (if x = n then _ else _) = _
  split <;> rfl

theorem idAt_lt {i : Nat} (h : d.idAt x = some i) : i < d.nextId := by
  obtain ⟨c, hc, rfl⟩ := Option.map_eq_some_iff.mp h
  exact d.fresh x c hc

end Docker

abbrev Remote := ExceptT Error (Prog Cmd Answer)

/-- `t.run(cmd).await`. -/
def run (c : Cmd) : Remote CommandOutput := ExceptT.mk (Prog.ask c)

/-- `t.run(cmd).await?.ok()?`. -/
def runOk (c : Cmd) : Remote CommandOutput := do
  let out ← run c
  out.ok

section

variable {I : Docker → Prop} {d : Docker} {c : Cmd}

/-- A command leaves what it leaves on success, or nothing is changed. -/
theorem ensures_run {Q : Except Error CommandOutput → Docker → Prop} (hI : I d)
    (hsome : ∀ out d', out.code = 0 → d.succeed c = some d' → I d' ∧ Q (.ok out) d')
    (hfail : ∀ out, out.code ≠ 0 → Q (.ok out) d) (herr : ∀ err, Q (.error err) d) :
    Prog.Ensures Docker.exec I Q (run c).run d := by
  refine Prog.Ensures.ask fun o d' hexec => ?_
  match o, hexec with
  | .error err, hexec =>
    cases hexec
    exact ⟨hI, herr err⟩
  | .ok out, hexec =>
    rw [Docker.exec] at hexec
    split at hexec
    · next hcode => exact hsome out d' hcode hexec
    · next hcode =>
      cases hexec
      exact ⟨hI, hfail out hcode⟩

theorem ensures_runOk {Q : Except Error CommandOutput → Docker → Prop} (hI : I d)
    (hok : ∀ out d', d.succeed c = some d' → I d' ∧ Q (.ok out) d') (herr : ∀ err, Q (.error err) d) :
    Prog.Ensures Docker.exec I Q (runOk c).run d := by
  unfold runOk
  refine Prog.Ensures.bindE (ensures_run hI ?_ ?_ ?_)
  · intro out d' hcode hsucc
    refine ⟨(hok out d' hsucc).1, Prog.Ensures.liftE ?_⟩
    rw [CommandOutput.ok, if_pos hcode]
    exact (hok out d' hsucc).2
  · intro out hcode
    refine Prog.Ensures.liftE ?_
    rw [CommandOutput.ok, if_neg hcode]
    exact herr _
  · exact herr

end

end Leshiy.Provision
