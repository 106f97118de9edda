import Leshiy.Lib.Register
import Leshiy.Provision.Seal

/-!
# Saving the vault

`Vault::load`, `load_locked` and `save` of `vault.rs`, over one path in its directory. Any number of
handles are loaded, changed and saved, by any number of threads and processes at once. Every call of the
file system is a step of its own and may fail, a process may end between any two of them, and a power
loss takes back what has not been synced.

What is assumed of the system: a locked file cannot be locked again, a file is replaced in one step by
renaming another one, and a synced file or directory survives a power loss.
-/

namespace Leshiy.Provision

open Leshiy.Lib

/-! ## Names in the directory -/

/-- `file_stem`, of the name of a file. -/
def fileStem (name : Str) : Str :=
  match Str.rsplitOnce '.' name with
  | none | some ([], _) => name
  | some (stem, _) => stem

def withExtension (name ext : Str) : Str := fileStem name ++ '.' :: ext

def tmpName (path : Str) (n : Nat) : Str := withExtension path (Str.decimal n ++ ".tmp".toList)

def lockName (path : Str) : Str := path ++ ".lock".toList

theorem withExtension_ne {name ext : Str} (h : '.' ∈ ext) : withExtension name ext ≠ name := by
  have hlonger : name ++ '.' :: ext ≠ name := fun heq => by
    have hlen := congrArg List.length heq
    simp at hlen
  unfold withExtension fileStem
  split
  · exact hlonger
  · exact hlonger
  · next hsplit =>
    obtain ⟨hname, hnone⟩ := Str.rsplitOnce_eq_some hsplit
    intro heq
    rw [hname, List.append_cancel_left_eq, List.cons.injEq] at heq
    exact hnone (heq.2 ▸ h)

theorem tmpName_ne (path : Str) (n : Nat) : tmpName path n ≠ path :=
  withExtension_ne (List.mem_append_right _ (by decide))

theorem lockName_ne (path : Str) : lockName path ≠ path := fun heq => by
  have hlen := congrArg List.length heq
  simp [lockName] at hlen

theorem tmpName_ne_lockName (path : Str) (n : Nat) : tmpName path n ≠ lockName path := by
  intro heq
  have hlast := congrArg List.getLast? heq
  unfold tmpName withExtension lockName at hlast
  rw [← List.cons_append, ← List.append_assoc, List.getLast?_append_of_ne_nil _ (by decide),
    List.getLast?_append_of_ne_nil _ (by decide)] at hlast
  exact absurd hlast (by decide)

/-! ## Handles and calls -/

/-- `guard` is the call that has the mutex of the snapshot. -/
structure Vault where
  records : List ServerRecord
  snapshot : Option (List UInt8)
  transactionLock : Option Str
  guard : Option Nat

namespace Vault

def new : Vault := ⟨[], none, none, none⟩

/-- `load`, of what is in the file. -/
def load {K : Type} (k : Sealing K) (file : Option (List UInt8)) (passphrase : Str) :
    Except Error Vault :=
  match file with
  | some bytes => (k.open bytes passphrase).map fun records => ⟨records, some bytes, none, none⟩
  | none => .ok new

end Vault

/-- How far a call of `save` is. -/
inductive Phase where
  | sealed (blob : List UInt8) (target : Str)
  | locked (blob : List UInt8)
  | checked (blob : List UInt8)
  | writing (blob : List UInt8) (tmp : Str) (left : List UInt8)
  | synced (blob : List UInt8) (tmp : Str)
  | renamed

structure Save where
  handle : Nat
  phase : Phase

/-- Who holds the lock file: a handle for as long as it lives, or a call for as long as it goes on. -/
inductive Owner where
  | vault (h : Nat)
  | save (t h : Nat)
  deriving DecidableEq

def Owner.handle : Owner → Nat
  | vault h | save _ h => h

/-- `onDisk` is what the path may have after a power loss. -/
structure World where
  files : Str → Option (List UInt8)
  onDisk : List (Option (List UInt8))
  lock : Option Owner
  vaults : Nat → Option Vault
  saves : Nat → Option Save

inductive Action where
  | new (h : Nat)
  /-- `load_locked` takes the lock. -/
  | lock (h : Nat)
  /-- `load`, or what is left of `load_locked` for the handle that has the lock; `io` is an error in
  reading. -/
  | load (h : Nat) (passphrase : Str) (io : Option Str)
  | change (h : Nat) (records : List ServerRecord)
  | save (t h : Nat) (passphrase : Str) (salt : Block SALT_LEN) (nonce : Block NONCE_LEN) (target : Str)
  | acquire (t : Nat) (e : Str)
  | check (t : Nat)
  | create (t n : Nat) (e : Str)
  | write (t n : Nat)
  | sync (t : Nat)
  | rename (t : Nat)
  | syncDir (t : Nat)
  /-- The next call of the file system fails. -/
  | fail (t : Nat) (e : Str)
  /-- The handles go, with their calls and locks: dropped, or at the end of their processes. -/
  | die (dead : Nat → Bool)
  | powerLoss (n : Nat) (junk : Str → Option (List UInt8))

/-- What a step does to the file and what is known of it, and what a call returns. -/
inductive Event where
  | did (op : Register.Op Nat Nat (Option (List UInt8)))
  | returned (t : Nat) (result : Except Error Unit)

def busy (e : Str) : Error :=
  .vault ("vault busy: ".toList ++ (e ++ "; retry after reloading".toList))

def otherPath : Error := .vault "cannot save transaction to a different path".toList

def changed : Error :=
  .vault "vault changed concurrently; remote operations may already have succeeded; reload and reconcile before retrying".toList

namespace World

/-- Before anybody has opened the vault. -/
def init (path : Str) (files : Str → Option (List UInt8)) : World where
  files := files
  onDisk := [files path]
  lock := none
  vaults _ := none
  saves _ := none

variable (s : World) (t h : Nat)

/-- The lock file is there from the first lock on. -/
def createLock (path : Str) : Str → Option (List UInt8) :=
  Function.update s.files (lockName path) (some ((s.files (lockName path)).getD []))

def setVault (v : Option Vault) : World := { s with vaults := Function.update s.vaults h v }

def setSave (x : Option Save) : World := { s with saves := Function.update s.saves t x }

/-- A call returns: the mutex and its lock are released. -/
def finish : World where
  files := s.files
  onDisk := s.onDisk
  lock := if s.lock = some (.save t h) then none else s.lock
  vaults := Function.update s.vaults h ((s.vaults h).map fun v =>
    if v.guard = some t then { v with guard := none } else v)
  saves := Function.update s.saves t none

/-- What is left without the handles that have gone. -/
def without (dead : Nat → Bool) : World where
  files := s.files
  onDisk := s.onDisk
  lock := s.lock.filter fun o => !dead o.handle
  vaults h := if dead h then none else s.vaults h
  saves t := (s.saves t).filter fun x => !dead x.handle

section

variable (path : Str)

/-- A call of `save` takes the lock, unless its handle has it. -/
def acquire (blob : List UInt8) (target e : Str) (v : Vault) : World × List Event :=
  match v.transactionLock with
  | some lockedPath =>
    if lockedPath ≠ target then (s.finish t h, [.returned t (.error otherPath)])
    else (s.setSave t (some ⟨h, .locked blob⟩), [])
  | none =>
    match s.lock with
    | some _ => (s.finish t h, [.returned t (.error (busy e))])
    | none =>
      ({ s.setSave t (some ⟨h, .locked blob⟩) with
        lock := some (.save t h), files := s.createLock path }, [])

/-- The file is compared with the snapshot. -/
def check (blob : List UInt8) (v : Vault) : World × List Event :=
  if s.files path ≠ v.snapshot then
    (s.finish t h, [.did (.refuse t h), .returned t (.error changed)])
  else ((s.setSave t (some ⟨h, .checked blob⟩)).setVault h (some { v with guard := some t }), [])

/-- A new file of a random name. -/
def create (blob : List UInt8) (n : Nat) (e : Str) : World × List Event :=
  let tmp := tmpName path n
  match s.files tmp with
  | some _ => (s.finish t h, [.returned t (.error (.io e))])
  | none =>
    ({ s.setSave t (some ⟨h, .writing blob tmp blob⟩) with
      files := Function.update s.files tmp (some []) }, [])

/-- The new file takes the place of the old one, and the snapshot is what has been written. -/
def rename (blob : List UInt8) (tmp : Str) (content : List UInt8) (v : Vault) : World × List Event :=
  ({ (s.setSave t (some ⟨h, .renamed⟩)).setVault h (some { v with snapshot := some blob }) with
    files := Function.update (Function.update s.files tmp none) path (some content)
    onDisk := s.onDisk ++ [some content] },
    [.did (.set t h (s.files path) (some content))])

end

/-- One step. A call to another path is here as far as its handle holds the lock. -/
def step {K : Type} (k : Sealing K) (path : Str) (s : World) : Action → Option (World × List Event)
  | .new h =>
    match s.vaults h with
    | some _ => none
    | none =>
      if s.lock = some (.vault h) then none
      else some (s.setVault h (some Vault.new), [.did (.see h none)])
  | .lock h =>
    match s.vaults h, s.lock with
    | none, none => some ({ s with lock := some (.vault h), files := s.createLock path }, [])
    | _, _ => none
  | .load h passphrase io =>
    match s.vaults h with
    | some _ => none
    | none =>
      let owned := s.lock = some (.vault h)
      match io, Vault.load k (s.files path) passphrase with
      | none, .ok v =>
        some (s.setVault h (some { v with transactionLock := if owned then some path else none }),
          [.did (.see h (s.files path))])
      | _, _ => some ({ s with lock := if owned then none else s.lock }, [])
  | .change h records =>
    match s.vaults h with
    | some v => some (s.setVault h (some { v with records }), [])
    | none => none
  | .save t h passphrase salt nonce target =>
    match s.saves t, s.vaults h with
    | none, some v =>
      match k.«seal» v.records passphrase salt nonce with
      | .error e => some (s, [.returned t (.error e)])
      | .ok blob =>
        if target = path ∨ v.transactionLock.isSome then
          some (s.setSave t (some ⟨h, .sealed blob target⟩), [])
        else none
    | _, _ => none
  | .acquire t e =>
    match s.saves t with
    | some ⟨h, .sealed blob target⟩ => (s.vaults h).map (s.acquire t h path blob target e)
    | _ => none
  | .check t =>
    match s.saves t with
    | some ⟨h, .locked blob⟩ =>
      match s.vaults h with
      | some v =>
        match v.guard with
        | some _ => none
        | none => some (s.check t h path blob v)
      | none => none
    | _ => none
  | .create t n e =>
    match s.saves t with
    | some ⟨h, .checked blob⟩ => some (s.create t h path blob n e)
    | _ => none
  | .write t n =>
    match s.saves t with
    | some ⟨h, .writing blob tmp left⟩ =>
      match s.files tmp with
      | some done =>
        some ({ s.setSave t (some ⟨h, .writing blob tmp (left.drop n)⟩) with
          files := Function.update s.files tmp (some (done ++ left.take n)) }, [])
      | none => none
    | _ => none
  | .sync t =>
    match s.saves t with
    | some ⟨h, .writing blob tmp []⟩ => some (s.setSave t (some ⟨h, .synced blob tmp⟩), [])
    | _ => none
  | .rename t =>
    match s.saves t with
    | some ⟨h, .synced blob tmp⟩ =>
      match s.files tmp, s.vaults h with
      | some content, some v => some (s.rename t h path blob tmp content v)
      | _, _ => none
    | _ => none
  | .syncDir t =>
    match s.saves t with
    | some ⟨h, .renamed⟩ =>
      some ({ s.finish t h with onDisk := [s.files path] },
        [.did (.confirm t h), .returned t (.ok ())])
    | _ => none
  | .fail t e =>
    match s.saves t with
    | some ⟨h, _⟩ => some (s.finish t h, [.returned t (.error (.io e))])
    | none => none
  | .die dead => some (s.without dead, [])
  | .powerLoss n junk =>
    match s.onDisk[n]? with
    | some content =>
      some ({ s.without fun _ => true with
        files := fun name => if name = path then content else junk name
        onDisk := [content] }, [.did (.lose content)])
    | none => none

end World

end Leshiy.Provision
