import Leshiy.Provision.Vault

/-!
# What a step of the vault does

`World.Stepped` lists the steps. Each keeps `World.Inv`: a call of `save` that has the lock is the only
one that has, and one that is past the check has the mutex of its handle, finds the snapshot in the file
and what it has written in a new file of its own.
-/

namespace Leshiy.Provision

open Leshiy.Lib

/-- The call of `save` that an action is a step of. -/
def Action.save? : Action → Option Nat
  | .acquire t _ | .check t | .create t _ _ | .write t _ | .sync t | .rename t | .syncDir t
  | .fail t _ => some t
  | .new _ | .lock _ | .load _ _ _ | .change _ _ | .save _ _ _ _ _ _ | .die _ | .powerLoss _ _ => none

namespace World

variable {K : Type} {k : Sealing K} {path : Str} {s s' : World} {a : Action} {ev : List Event}
  {t t' h h' : Nat} {x x' : Save} {v v' : Vault}

/-! ## What a step can do -/

/-- The steps, each with what it takes for granted. -/
inductive Stepped (k : Sealing K) (path : Str) (s : World) : Action → World → List Event → Prop
  | new (h : Nat) (hnone : s.vaults h = none) (hlock : s.lock ≠ some (.vault h)) :
    Stepped k path s (.new h) (s.setVault h (some Vault.new)) [.did (.see h none)]
  | lock (h : Nat) (hnone : s.vaults h = none) (hlock : s.lock = none) :
    Stepped k path s (.lock h) { s with lock := some (.vault h), files := s.createLock path } []
  | load (h : Nat) (passphrase : Str) (hnone : s.vaults h = none) {v : Vault}
    (hload : Vault.load k (s.files path) passphrase = .ok v) :
    Stepped k path s (.load h passphrase none)
      (s.setVault h
        (some { v with transactionLock := if s.lock = some (.vault h) then some path else none }))
      [.did (.see h (s.files path))]
  | loadFails (h : Nat) (passphrase : Str) (io : Option Str) (hnone : s.vaults h = none) :
    Stepped k path s (.load h passphrase io)
      { s with lock := if s.lock = some (.vault h) then none else s.lock } []
  | change {h : Nat} {v : Vault} (records : List ServerRecord) (hv : s.vaults h = some v) :
    Stepped k path s (.change h records) (s.setVault h (some { v with records })) []
  | sealFails (t h : Nat) (passphrase : Str) (salt : Block SALT_LEN) (nonce : Block NONCE_LEN)
    (target : Str) (e : Error) :
    Stepped k path s (.save t h passphrase salt nonce target) s [.returned t (.error e)]
  | save {t h : Nat} {passphrase : Str} {salt : Block SALT_LEN} {nonce : Block NONCE_LEN}
    {v : Vault} {blob : List UInt8} (target : Str) (hnone : s.saves t = none)
    (hv : s.vaults h = some v) (hseal : k.«seal» v.records passphrase salt nonce = .ok blob) :
    Stepped k path s (.save t h passphrase salt nonce target)
      (s.setSave t (some ⟨h, .sealed blob target⟩)) []
  | stop {a : Action} {t h : Nat} {phase : Phase} (e : Error) (ht : s.saves t = some ⟨h, phase⟩)
    (ha : a.save? = some t) (hcheck : a ≠ .check t) :
    Stepped k path s a (s.finish t h) [.returned t (.error e)]
  | acquireOwn {t h : Nat} {blob : List UInt8} {target lockedPath : Str} {v : Vault} (e : Str)
    (ht : s.saves t = some ⟨h, .sealed blob target⟩) (hv : s.vaults h = some v)
    (hown : v.transactionLock = some lockedPath) :
    Stepped k path s (.acquire t e) (s.setSave t (some ⟨h, .locked blob⟩)) []
  | acquire {t h : Nat} {blob : List UInt8} {target : Str} {v : Vault} (e : Str)
    (ht : s.saves t = some ⟨h, .sealed blob target⟩) (hv : s.vaults h = some v)
    (hown : v.transactionLock = none) (hlock : s.lock = none) :
    Stepped k path s (.acquire t e)
      { s.setSave t (some ⟨h, .locked blob⟩) with
        lock := some (.save t h), files := s.createLock path } []
  | refuse {t h : Nat} {blob : List UInt8} {v : Vault} (ht : s.saves t = some ⟨h, .locked blob⟩)
    (hv : s.vaults h = some v) (hguard : v.guard = none) (hne : s.files path ≠ v.snapshot) :
    Stepped k path s (.check t) (s.finish t h)
      [.did (.refuse t h), .returned t (.error changed)]
  | check {t h : Nat} {blob : List UInt8} {v : Vault} (ht : s.saves t = some ⟨h, .locked blob⟩)
    (hv : s.vaults h = some v) (hguard : v.guard = none) (heq : s.files path = v.snapshot) :
    Stepped k path s (.check t)
      ((s.setSave t (some ⟨h, .checked blob⟩)).setVault h (some { v with guard := some t })) []
  | create {t h : Nat} {blob : List UInt8} (n : Nat) (e : Str)
    (ht : s.saves t = some ⟨h, .checked blob⟩) (hnone : s.files (tmpName path n) = none) :
    Stepped k path s (.create t n e)
      { s.setSave t (some ⟨h, .writing blob (tmpName path n) blob⟩) with
        files := Function.update s.files (tmpName path n) (some []) } []
  | write {t h : Nat} {blob left done : List UInt8} {tmp : Str} (n : Nat)
    (ht : s.saves t = some ⟨h, .writing blob tmp left⟩) (hdone : s.files tmp = some done) :
    Stepped k path s (.write t n)
      { s.setSave t (some ⟨h, .writing blob tmp (left.drop n)⟩) with
        files := Function.update s.files tmp (some (done ++ left.take n)) } []
  | sync {t h : Nat} {blob : List UInt8} {tmp : Str}
    (ht : s.saves t = some ⟨h, .writing blob tmp []⟩) :
    Stepped k path s (.sync t) (s.setSave t (some ⟨h, .synced blob tmp⟩)) []
  | rename {t h : Nat} {blob content : List UInt8} {tmp : Str} {v : Vault}
    (ht : s.saves t = some ⟨h, .synced blob tmp⟩) (hcontent : s.files tmp = some content)
    (hv : s.vaults h = some v) :
    Stepped k path s (.rename t) (s.rename t h path blob tmp content v).1
      (s.rename t h path blob tmp content v).2
  | syncDir {t h : Nat} (ht : s.saves t = some ⟨h, .renamed⟩) :
    Stepped k path s (.syncDir t) { s.finish t h with onDisk := [s.files path] }
      [.did (.confirm t h), .returned t (.ok ())]
  | die (dead : Nat → Bool) : Stepped k path s (.die dead) (s.without dead) []
  | powerLoss (n : Nat) (junk : Str → Option (List UInt8)) {content : Option (List UInt8)}
    (hn : s.onDisk[n]? = some content) :
    Stepped k path s (.powerLoss n junk)
      { s.without fun _ => true with
        files := fun name => if name = path then content else junk name
        onDisk := [content] } [.did (.lose content)]

theorem stepped (hstep : s.step k path a = some (s', ev)) : Stepped k path s a s' ev := by
  cases a with
  | new h =>
    simp only [step] at hstep
    split at hstep
    · cases hstep
    next hnone =>
    split at hstep
    · cases hstep
    next hlock =>
    cases hstep
    exact .new h hnone hlock
  | lock h =>
    simp only [step] at hstep
    split at hstep
    · next hnone hlock =>
      cases hstep
      exact .lock h hnone hlock
    · cases hstep
  | load h passphrase io =>
    simp only [step] at hstep
    split at hstep
    · cases hstep
    next hnone =>
    split at hstep
    · next hload =>
      cases hstep
      exact .load h passphrase hnone hload
    · cases hstep
      exact .loadFails h passphrase _ hnone
  | change h records =>
    simp only [step] at hstep
    split at hstep
    · next hv =>
      cases hstep
      exact .change records hv
    · cases hstep
  | save t h passphrase salt nonce target =>
    simp only [step] at hstep
    split at hstep
    · next hnone hv =>
      split at hstep
      · next e _ =>
        cases hstep
        exact .sealFails t h passphrase salt nonce target e
      · next hseal =>
        split at hstep
        · cases hstep
          exact .save target hnone hv hseal
        · cases hstep
    · cases hstep
  | acquire t e =>
    simp only [step] at hstep
    split at hstep
    · next ht =>
      obtain ⟨v, hv, hacquire⟩ := Option.map_eq_some_iff.mp hstep
      unfold World.acquire at hacquire
      split at hacquire
      · next hown =>
        split at hacquire
        · cases hacquire
          exact .stop _ ht rfl nofun
        · cases hacquire
          exact .acquireOwn e ht hv hown
      · next hown =>
        split at hacquire
        · cases hacquire
          exact .stop _ ht rfl nofun
        · next hlock =>
          cases hacquire
          exact .acquire e ht hv hown hlock
    · cases hstep
  | check t =>
    simp only [step] at hstep
    split at hstep
    · next ht =>
      split at hstep
      · next hv =>
        split at hstep
        · cases hstep
        next hguard =>
        have hcheck := Option.some.inj hstep
        unfold World.check at hcheck
        split at hcheck
        · next hne =>
          cases hcheck
          exact .refuse ht hv hguard hne
        · next heq =>
          cases hcheck
          exact .check ht hv hguard (not_not.mp heq)
      · cases hstep
    · cases hstep
  | create t n e =>
    simp only [step] at hstep
    split at hstep
    · next ht =>
      have hcreate := Option.some.inj hstep
      unfold World.create at hcreate
      dsimp only at hcreate
      split at hcreate
      · cases hcreate
        exact .stop _ ht rfl nofun
      · next hnone =>
        cases hcreate
        exact .create n e ht hnone
    · cases hstep
  | write t n =>
    simp only [step] at hstep
    split at hstep
    · next ht =>
      split at hstep
      · next hdone =>
        cases hstep
        exact .write n ht hdone
      · cases hstep
    · cases hstep
  | sync t =>
    simp only [step] at hstep
    split at hstep
    · next ht =>
      cases hstep
      exact .sync ht
    · cases hstep
  | rename t =>
    simp only [step] at hstep
    split at hstep
    · next ht =>
      split at hstep
      · next hcontent hv =>
        cases hstep
        exact .rename ht hcontent hv
      · cases hstep
    · cases hstep
  | syncDir t =>
    simp only [step] at hstep
    split at hstep
    · next ht =>
      cases hstep
      exact .syncDir ht
    · cases hstep
  | fail t e =>
    simp only [step] at hstep
    split at hstep
    · next ht =>
      cases hstep
      exact .stop _ ht rfl nofun
    · cases hstep
  | die dead =>
    cases hstep
    exact .die dead
  | powerLoss n junk =>
    simp only [step] at hstep
    split at hstep
    · next hn =>
      cases hstep
      exact .powerLoss n junk hn
    · cases hstep

end World

/-! ## What holds all along -/

namespace Phase

/-- The call has the lock. -/
def Locked : Phase → Prop
  | sealed _ _ => False
  | locked _ | checked _ | writing _ _ _ | synced _ _ | renamed => True

/-- The call has the mutex, and found the snapshot to be what is in the file. -/
def Checked : Phase → Prop
  | sealed _ _ | locked _ => False
  | checked _ | writing _ _ _ | synced _ _ | renamed => True

/-- The blob that the call is to write. -/
def blob? : Phase → Option (List UInt8)
  | sealed blob _ | locked blob | checked blob | writing blob _ _ | synced blob _ => some blob
  | renamed => none

/-- The new file of a call, with what is left to write to it. -/
def file? : Phase → Option (List UInt8 × Str × List UInt8)
  | writing blob tmp left => some (blob, tmp, left)
  | synced blob tmp => some (blob, tmp, [])
  | sealed _ _ | locked _ | checked _ | renamed => none

theorem Checked.locked {p : Phase} (h : p.Checked) : p.Locked := by
  cases p with
  | sealed | locked => cases h
  | checked | writing | synced | renamed => trivial

theorem checked_of_file {p : Phase} {y : List UInt8 × Str × List UInt8} (h : p.file? = some y) :
    p.Checked := by
  cases p with
  | writing | synced => trivial
  | sealed | locked | checked | renamed => cases h

end Phase

/-- Who holds the lock for a call of a handle. -/
def Vault.owner (v : Vault) (t h : Nat) : Owner :=
  match v.transactionLock with
  | some _ => .vault h
  | none => .save t h

namespace World

/-- What a call of `save` relies on, by how far it is. -/
structure Stands (path : Str) (s : World) (t : Nat) (x : Save) : Prop where
  alive : ∃ v, s.vaults x.handle = some v
  lock : x.phase.Locked → ∀ {v}, s.vaults x.handle = some v → s.lock = some (v.owner t x.handle)
  base : x.phase.Checked → ∀ {v}, s.vaults x.handle = some v →
    v.guard = some t ∧ v.snapshot = s.files path
  file : ∀ {blob tmp left}, x.phase.file? = some (blob, tmp, left) →
    tmp ≠ path ∧ tmp ≠ lockName path ∧ ∃ done, s.files tmp = some done ∧ done ++ left = blob

structure Inv (path : Str) (s : World) : Prop where
  saves : ∀ {t x}, s.saves t = some x → s.Stands path t x
  transaction : ∀ {h v p}, s.vaults h = some v → v.transactionLock = some p →
    s.lock = some (.vault h)

/-- Nothing has happened to the handle of a call that matters to the call. -/
def Keeps (x : Save) (s s' : World) : Prop :=
  ∀ v, s.vaults x.handle = some v → ∃ v', s'.vaults x.handle = some v' ∧
    v'.transactionLock = v.transactionLock ∧
    (x.phase.Checked → v'.guard = v.guard ∧ v'.snapshot = v.snapshot)

section

variable {path : Str} {s s' : World} {t t' h h' : Nat} {x x' : Save} {v v' : Vault} {phase : Phase}

theorem Keeps.of_eq (heq : s'.vaults x.handle = s.vaults x.handle) : Keeps x s s' :=
  fun v hv => ⟨v, heq.trans hv, rfl, fun _ => ⟨rfl, rfl⟩⟩

/-- A handle is set to one with the same lock. -/
theorem Keeps.setVault (hv : s.vaults h = some v) (hlock : v'.transactionLock = v.transactionLock)
    (hchecked : x.phase.Checked → x.handle = h → v'.guard = v.guard ∧ v'.snapshot = v.snapshot) :
    Keeps x s (s.setVault h (some v')) := by
  intro w hw
  by_cases heq : x.handle = h
  · rw [heq, hv] at hw
    cases hw
    refine ⟨v', ?_, hlock, fun hx => hchecked hx heq⟩
    rw [heq]
    exact Function.update_self h _ _
  · exact ⟨w, (Function.update_of_ne heq _ _).trans hw, rfl, fun _ => ⟨rfl, rfl⟩⟩

theorem Keeps.finish (hguard : x.phase.Checked → ∀ v, s.vaults x.handle = some v → v.guard ≠ some t) :
    Keeps x s (s.finish t h) := by
  intro v hv
  by_cases heq : x.handle = h
  · have hfinish : (s.finish t h).vaults x.handle =
        some (if v.guard = some t then { v with guard := none } else v) := by
      rw [← heq]
      show Function.update s.vaults x.handle _ x.handle = _
      rw [Function.update_self, hv]
      rfl
    refine ⟨_, hfinish, ?_, fun hx => ?_⟩
    · split
      · rfl
      · rfl
    · rw [if_neg (hguard hx v hv)]
      exact ⟨rfl, rfl⟩
  · exact ⟨v, (Function.update_of_ne heq _ _).trans hv, rfl, fun _ => ⟨rfl, rfl⟩⟩

/-- A call goes on standing where nothing it relies on has changed. -/
theorem Stands.frame (hs : s.Stands path t x) (hkeeps : Keeps x s s')
    (hlock : x.phase.Locked → s'.lock = s.lock)
    (hpath : x.phase.Checked → s'.files path = s.files path)
    (hfile : ∀ {blob tmp left}, x.phase.file? = some (blob, tmp, left) →
      s'.files tmp = s.files tmp) : s'.Stands path t x := by
  obtain ⟨v, hv⟩ := hs.alive
  obtain ⟨v', hv', howner, hbase⟩ := hkeeps v hv
  refine ⟨⟨v', hv'⟩, fun hx w hw => ?_, fun hx w hw => ?_, fun hx => ?_⟩
  · rw [hv'] at hw
    cases hw
    rw [hlock hx, hs.lock hx hv]
    unfold Vault.owner
    rw [howner]
  · rw [hv'] at hw
    cases hw
    rw [(hbase hx).1, (hbase hx).2, hpath hx]
    exact hs.base hx hv
  · rw [hfile hx]
    exact hs.file hx

/-- While another call has checked the file, one stands by its handle and its lock alone. -/
theorem Stands.outside (hs : s.Stands path t x) (hx : ¬ x.phase.Checked) (hkeeps : Keeps x s s')
    (hlock : x.phase.Locked → s'.lock = s.lock) : s'.Stands path t x :=
  hs.frame hkeeps hlock (fun h => absurd h hx) fun h => absurd (Phase.checked_of_file h) hx

/-- **One at a time** is past the check. -/
theorem Inv.checked_unique (hinv : s.Inv path) (ht : s.saves t = some x) (hx : x.phase.Checked)
    (ht' : s.saves t' = some x') (hx' : x'.phase.Checked) : t = t' := by
  have hs := hinv.saves ht
  have hs' := hinv.saves ht'
  obtain ⟨v, hv⟩ := hs.alive
  obtain ⟨v', hv'⟩ := hs'.alive
  have howner := (hs.lock hx.locked hv).symm.trans (hs'.lock hx'.locked hv')
  unfold Vault.owner at howner
  split at howner
  · split at howner
    · have hhandle := Owner.vault.inj (Option.some.inj howner)
      rw [hhandle, hv'] at hv
      cases hv
      exact Option.some.inj ((hs.base hx (hhandle ▸ hv')).1.symm.trans (hs'.base hx' hv').1)
    · cases howner
  · split at howner
    · cases howner
    · exact (Owner.save.inj (Option.some.inj howner)).1

theorem Inv.others (hinv : s.Inv path) (ht : s.saves t = some x) (hx : x.phase.Checked)
    (hne : t' ≠ t) (ht' : s.saves t' = some x') : ¬ x'.phase.Checked :=
  fun hx' => hne (hinv.checked_unique ht' hx' ht hx)

/-- A call that is set, or one of the others. -/
theorem setSave_saves {y : Option Save} (heq : Function.update s.saves t y t' = some x) :
    t' = t ∧ y = some x ∨ t' ≠ t ∧ s.saves t' = some x := by
  by_cases ht : t' = t
  · subst ht
    rw [Function.update_self] at heq
    exact .inl ⟨rfl, heq⟩
  · rw [Function.update_of_ne ht] at heq
    exact .inr ⟨ht, heq⟩

theorem setVault_vaults {y : Option Vault} (heq : Function.update s.vaults h y h' = some v) :
    h' = h ∧ y = some v ∨ h' ≠ h ∧ s.vaults h' = some v := by
  by_cases hh : h' = h
  · subst hh
    rw [Function.update_self] at heq
    exact .inl ⟨rfl, heq⟩
  · rw [Function.update_of_ne hh] at heq
    exact .inr ⟨hh, heq⟩

/-- A call that has the lock holds it for its own handle. -/
theorem Stands.lock_handle (hs : s.Stands path t x) (hx : x.phase.Locked) :
    ∃ o, s.lock = some o ∧ o.handle = x.handle ∧ ∀ {t' h'}, o = .save t' h' → t' = t := by
  obtain ⟨v, hv⟩ := hs.alive
  refine ⟨_, hs.lock hx hv, ?_, fun heq => ?_⟩
  · unfold Vault.owner
    split
    · rfl
    · rfl
  · unfold Vault.owner at heq
    split at heq
    · cases heq
    · cases heq
      rfl

theorem createLock_of_ne {name : Str} (hne : name ≠ lockName path) :
    s.createLock path name = s.files name := Function.update_of_ne hne _ _

theorem inv_init (path : Str) (files : Str → Option (List UInt8)) : (init path files).Inv path :=
  ⟨nofun, nofun⟩

/-- A handle is opened. -/
theorem Inv.opened (hinv : s.Inv path) (hnone : s.vaults h = none)
    (hlock : ∀ {p}, v.transactionLock = some p → s.lock = some (.vault h)) :
    (s.setVault h (some v)).Inv path := by
  refine ⟨fun {t x} ht => ?_, fun {h' v' p} hv' hp => ?_⟩
  · have hs := hinv.saves ht
    have hne : x.handle ≠ h := by
      rintro rfl
      obtain ⟨w, hw⟩ := hs.alive
      rw [hnone] at hw
      cases hw
    exact hs.frame (.of_eq (Function.update_of_ne hne _ _)) (fun _ => rfl) (fun _ => rfl) fun _ => rfl
  · rcases setVault_vaults hv' with ⟨rfl, hv⟩ | ⟨-, hv⟩
    · cases hv
      exact hlock hp
    · exact hinv.transaction hv hp

/-- A lock that nobody has is taken. -/
theorem Inv.free (hinv : s.Inv path) (hfree : s.lock = none) (ht : s.saves t = some x) :
    ¬ x.phase.Locked := by
  intro hx
  obtain ⟨o, ho, -⟩ := (hinv.saves ht).lock_handle hx
  rw [hfree] at ho
  cases ho

theorem Inv.lock (hinv : s.Inv path) (hfree : s.lock = none) :
    ({ s with lock := some (.vault h), files := s.createLock path } : World).Inv path := by
  refine ⟨fun {t x} ht => ?_, fun {h' v' p} hv' hp => ?_⟩
  · have hx := hinv.free hfree ht
    exact (hinv.saves ht).outside (fun hc => hx hc.locked) (.of_eq rfl) fun hl => absurd hl hx
  · have hlock := hinv.transaction hv' hp
    rw [hfree] at hlock
    cases hlock

/-- The lock of a handle that could not be loaded is released. -/
theorem Inv.unlock (hinv : s.Inv path) (hnone : s.vaults h = none) :
    ({ s with lock := if s.lock = some (.vault h) then none else s.lock } : World).Inv path := by
  have hlock {o : Owner} (ho : s.lock = some o) (hne : o.handle ≠ h) :
      (if s.lock = some (.vault h) then none else s.lock) = s.lock := by
    refine if_neg fun heq => hne ?_
    rw [heq] at ho
    cases ho
    rfl
  have hne {h' : Nat} {v : Vault} (hv : s.vaults h' = some v) : h' ≠ h := by
    rintro rfl
    rw [hnone] at hv
    cases hv
  refine ⟨fun {t x} ht => ?_, fun {h' v' p} hv' hp => ?_⟩
  · have hs := hinv.saves ht
    refine hs.frame (.of_eq rfl) (fun hx => ?_) (fun _ => rfl) fun _ => rfl
    obtain ⟨v, hv⟩ := hs.alive
    obtain ⟨o, ho, hhandle, -⟩ := hs.lock_handle hx
    exact hlock ho (hhandle ▸ hne hv)
  · have ho := hinv.transaction hv' hp
    exact (hlock ho (hne hv')).trans ho

theorem Inv.change (hinv : s.Inv path) (hv : s.vaults h = some v) (records : List ServerRecord) :
    (s.setVault h (some { v with records })).Inv path := by
  refine ⟨fun {t x} ht => ?_, fun {h' v' p} hv' hp => ?_⟩
  · exact (hinv.saves ht).frame (.setVault hv rfl fun _ _ => ⟨rfl, rfl⟩) (fun _ => rfl)
      (fun _ => rfl) fun _ => rfl
  · rcases setVault_vaults hv' with ⟨rfl, hw⟩ | ⟨-, hw⟩
    · cases hw
      exact hinv.transaction hv hp
    · exact hinv.transaction hw hp

/-- A call returns. -/
theorem Inv.finish (hinv : s.Inv path) : (s.finish t h).Inv path := by
  refine ⟨fun {t' x} ht' => ?_, fun {h' v' p} hv' hp => ?_⟩
  · rcases setSave_saves ht' with ⟨-, hx⟩ | ⟨hne, ht'⟩
    · cases hx
    have hs := hinv.saves ht'
    refine hs.frame (.finish fun hx v hv hguard => ?_) (fun hx => ?_) (fun _ => rfl) fun _ => rfl
    · exact hne (Option.some.inj ((hs.base hx hv).1.symm.trans hguard))
    · obtain ⟨o, ho, -, hown⟩ := hs.lock_handle hx
      refine if_neg fun heq => hne ?_
      rw [heq] at ho
      exact (hown (Option.some.inj ho).symm).symm
  · have hbefore : ∃ v, s.vaults h' = some v ∧ v.transactionLock = some p := by
      by_cases hh : h' = h
      · subst hh
        obtain ⟨v, hv, heq⟩ := Option.map_eq_some_iff.mp ((Function.update_self h' _ _).symm.trans hv')
        refine ⟨v, hv, ?_⟩
        rw [← heq] at hp
        split at hp
        · exact hp
        · exact hp
      · exact ⟨v', (Function.update_of_ne hh _ _).symm.trans hv', hp⟩
    obtain ⟨v, hv, hp⟩ := hbefore
    have hlock := hinv.transaction hv hp
    show (if s.lock = some (.save t h) then none else s.lock) = some (.vault h')
    rw [hlock]
    exact if_neg nofun

/-- Handles go, and their calls with them. -/
theorem Inv.without (hinv : s.Inv path) (dead : Nat → Bool) : (s.without dead).Inv path := by
  have hlock {o : Owner} (ho : s.lock = some o) (halive : dead o.handle = false) :
      s.lock.filter (fun o => !dead o.handle) = s.lock := by
    rw [ho]
    exact Option.filter_some_pos (by rw [halive]; rfl)
  refine ⟨fun {t x} ht => ?_, fun {h' v' p} hv' hp => ?_⟩
  · obtain ⟨ht, hx⟩ := Option.filter_eq_some_iff.mp ht
    have halive : dead x.handle = false := by simpa using hx
    have hs := hinv.saves ht
    refine hs.frame (.of_eq (if_neg (by rw [halive]; nofun))) (fun hl => ?_) (fun _ => rfl) fun _ => rfl
    obtain ⟨o, ho, hhandle, -⟩ := hs.lock_handle hl
    exact hlock ho (hhandle ▸ halive)
  · obtain ⟨halive, hv⟩ : dead h' = false ∧ s.vaults h' = some v' := by
      have hv' : (if dead h' then none else s.vaults h') = some v' := hv'
      split at hv'
      · cases hv'
      next hd => exact ⟨by simpa using hd, hv'⟩
    have ho := hinv.transaction hv hp
    exact (hlock ho halive).trans ho

theorem Inv.onDisk (hinv : s.Inv path) (d : List (Option (List UInt8))) :
    ({ s with onDisk := d } : World).Inv path :=
  ⟨fun ht => (hinv.saves ht).frame (.of_eq rfl) (fun _ => rfl) (fun _ => rfl) fun _ => rfl,
    hinv.transaction⟩

/-- A call goes on by a step: it is for the step to say that the call stands as it goes on, and that
the others still do. -/
theorem Inv.advance {y : Save} (hinv : s.Inv path)
    (hsaves : s'.saves = Function.update s.saves t (some y)) (hy : s'.Stands path t y)
    (hothers : ∀ {t' x}, t' ≠ t → s.saves t' = some x → s.Stands path t' x → s'.Stands path t' x)
    (htransaction : ∀ {h v p}, s'.vaults h = some v → v.transactionLock = some p →
      s'.lock = some (.vault h)) : s'.Inv path := by
  refine ⟨fun {t' x} ht' => ?_, htransaction⟩
  rw [hsaves] at ht'
  rcases setSave_saves ht' with ⟨rfl, hx⟩ | ⟨hne, ht'⟩
  · cases hx
    exact hy
  · exact hothers hne ht' (hinv.saves ht')

/-- A step that changes nothing but how far the call is. -/
theorem Inv.setSave {y : Save} (hinv : s.Inv path) (hy : (s.setSave t (some y)).Stands path t y) :
    (s.setSave t (some y)).Inv path :=
  hinv.advance rfl hy
    (fun _ _ hs => hs.frame (.of_eq rfl) (fun _ => rfl) (fun _ => rfl) fun _ => rfl) hinv.transaction

variable {blob left done content : List UInt8} {target tmp p : Str}

theorem Inv.save (hinv : s.Inv path) (hv : s.vaults h = some v) :
    (s.setSave t (some ⟨h, .sealed blob target⟩)).Inv path :=
  hinv.setSave ⟨⟨v, hv⟩, nofun, nofun, nofun⟩

theorem Inv.acquireOwn (hinv : s.Inv path) (hv : s.vaults h = some v)
    (hown : v.transactionLock = some p) : (s.setSave t (some ⟨h, .locked blob⟩)).Inv path := by
  refine hinv.setSave ⟨⟨v, hv⟩, fun _ w hw => ?_, nofun, nofun⟩
  obtain rfl : v = w := Option.some.inj (hv.symm.trans hw)
  unfold Vault.owner
  rw [hown]
  exact hinv.transaction hv hown

theorem Inv.acquire (hinv : s.Inv path) (hv : s.vaults h = some v) (hown : v.transactionLock = none)
    (hfree : s.lock = none) :
    ({ s.setSave t (some ⟨h, .locked blob⟩) with
      lock := some (.save t h), files := s.createLock path } : World).Inv path := by
  refine hinv.advance rfl ⟨⟨v, hv⟩, fun _ w hw => ?_, nofun, nofun⟩ (fun _ ht' hs => ?_) fun hw hp => ?_
  · obtain rfl : v = w := Option.some.inj (hv.symm.trans hw)
    unfold Vault.owner
    rw [hown]
  · have hx := hinv.free hfree ht'
    exact hs.outside (fun hc => hx hc.locked) (.of_eq rfl) fun hl => absurd hl hx
  · have hlock := hinv.transaction hw hp
    rw [hfree] at hlock
    cases hlock

/-- The call that finds the snapshot in the file. -/
theorem Inv.check (hinv : s.Inv path) (ht : s.saves t = some ⟨h, .locked blob⟩)
    (hv : s.vaults h = some v) (hguard : v.guard = none) (heq : s.files path = v.snapshot) :
    ((s.setSave t (some ⟨h, .checked blob⟩)).setVault h (some { v with guard := some t })).Inv path := by
  have hself : Function.update s.vaults h (some { v with guard := some t }) h =
      some { v with guard := some t } := Function.update_self h _ _
  have hlock := (hinv.saves ht).lock trivial hv
  refine hinv.advance rfl ⟨⟨_, hself⟩, fun _ w hw => ?_, fun _ w hw => ?_, nofun⟩
    (fun {t' x} _ _ hs => ?_) fun {h' w q} hw hq => ?_
  · obtain rfl : { v with guard := some t } = w := Option.some.inj (hself.symm.trans hw)
    exact hlock
  · obtain rfl : { v with guard := some t } = w := Option.some.inj (hself.symm.trans hw)
    exact ⟨rfl, heq.symm⟩
  · refine hs.frame (.setVault hv rfl fun hx hh => ?_) (fun _ => rfl) (fun _ => rfl) fun _ => rfl
    have hbusy := (hs.base hx (hh ▸ hv)).1
    rw [hguard] at hbusy
    cases hbusy
  · have hw : Function.update s.vaults h (some { v with guard := some t }) h' = some w := hw
    rcases setVault_vaults hw with ⟨rfl, hset⟩ | ⟨-, hother⟩
    · cases hset
      exact hinv.transaction hv hq
    · exact hinv.transaction hother hq

/-- A step of the call that is past the check, which changes a file other than the vault's. -/
theorem Inv.work {phase' : Phase} (hinv : s.Inv path) (ht : s.saves t = some ⟨h, phase⟩)
    (hx : phase.Checked) (hne : tmp ≠ path)
    (hfile : ∀ {blob name left}, phase'.file? = some (blob, name, left) →
      name = tmp ∧ done ++ left = blob) (hlockName : tmp ≠ lockName path) :
    ({ s.setSave t (some ⟨h, phase'⟩) with
      files := Function.update s.files tmp (some done) } : World).Inv path := by
  have hs := hinv.saves ht
  have hpath : Function.update s.files tmp (some done) path = s.files path :=
    Function.update_of_ne (Ne.symm hne) _ _
  refine hinv.advance rfl ⟨hs.alive, fun _ => hs.lock hx.locked, fun _ v hv => ?_, fun hy => ?_⟩
    (fun hne' ht' hs' => ?_) hinv.transaction
  · exact ⟨(hs.base hx hv).1, (hs.base hx hv).2.trans hpath.symm⟩
  · obtain ⟨rfl, hblob⟩ := hfile hy
    exact ⟨hne, hlockName, done, Function.update_self _ _ _, hblob⟩
  · exact hs'.outside (hinv.others ht hx hne' ht') (.of_eq rfl) fun _ => rfl

theorem Inv.create (hinv : s.Inv path) (ht : s.saves t = some ⟨h, .checked blob⟩) (n : Nat) :
    ({ s.setSave t (some ⟨h, .writing blob (tmpName path n) blob⟩) with
      files := Function.update s.files (tmpName path n) (some []) } : World).Inv path :=
  hinv.work ht trivial (tmpName_ne path n)
    (fun h => by
      cases h
      exact ⟨rfl, rfl⟩) (tmpName_ne_lockName path n)

theorem Inv.write (hinv : s.Inv path) (ht : s.saves t = some ⟨h, .writing blob tmp left⟩)
    (hdone : s.files tmp = some done) (n : Nat) :
    ({ s.setSave t (some ⟨h, .writing blob tmp (left.drop n)⟩) with
      files := Function.update s.files tmp (some (done ++ left.take n)) } : World).Inv path := by
  obtain ⟨hne, hlockName, done', hdone', hblob⟩ := (hinv.saves ht).file rfl
  rw [hdone] at hdone'
  cases hdone'
  refine hinv.work ht trivial hne (fun h => ?_) hlockName
  cases h
  exact ⟨rfl, by rw [List.append_assoc, List.take_append_drop, hblob]⟩

theorem Inv.sync (hinv : s.Inv path) (ht : s.saves t = some ⟨h, .writing blob tmp []⟩) :
    (s.setSave t (some ⟨h, .synced blob tmp⟩)).Inv path := by
  have hs := hinv.saves ht
  refine hinv.setSave ⟨hs.alive, fun _ => hs.lock trivial, fun _ => hs.base trivial, fun hy => ?_⟩
  cases hy
  exact hs.file rfl

/-- What is renamed is the blob. -/
theorem Inv.content_eq (hinv : s.Inv path) (ht : s.saves t = some ⟨h, .synced blob tmp⟩)
    (hcontent : s.files tmp = some content) : content = blob := by
  obtain ⟨-, -, done, hdone, hblob⟩ := (hinv.saves ht).file rfl
  rw [hcontent] at hdone
  cases hdone
  rw [← hblob, List.append_nil]

theorem Inv.rename (hinv : s.Inv path) (ht : s.saves t = some ⟨h, .synced blob tmp⟩)
    (hcontent : s.files tmp = some content) (hv : s.vaults h = some v) :
    (s.rename t h path blob tmp content v).1.Inv path := by
  have hs := hinv.saves ht
  have hlock := hs.lock trivial hv
  have hself : Function.update s.vaults h (some { v with snapshot := some blob }) h =
      some { v with snapshot := some blob } := Function.update_self h _ _
  have hpath : Function.update (Function.update s.files tmp none) path (some content) path =
      some blob := by rw [Function.update_self, hinv.content_eq ht hcontent]
  refine hinv.advance rfl ⟨⟨_, hself⟩, fun _ w hw => ?_, fun _ w hw => ?_, nofun⟩
    (fun hne ht' hs' => ?_) fun {h' w q} hw hq => ?_
  · obtain rfl : { v with snapshot := some blob } = w := Option.some.inj (hself.symm.trans hw)
    exact hlock
  · obtain rfl : { v with snapshot := some blob } = w := Option.some.inj (hself.symm.trans hw)
    exact ⟨(hs.base trivial hv).1, hpath.symm⟩
  · have hx := hinv.others ht trivial hne ht'
    exact hs'.outside hx (.setVault hv rfl fun hc => absurd hc hx) fun _ => rfl
  · have hw : Function.update s.vaults h (some { v with snapshot := some blob }) h' = some w := hw
    rcases setVault_vaults hw with ⟨rfl, hset⟩ | ⟨-, hother⟩
    · cases hset
      exact hinv.transaction hv hq
    · exact hinv.transaction hother hq

theorem Inv.powerLoss (d : List (Option (List UInt8))) (files : Str → Option (List UInt8)) :
    ({ s.without fun _ => true with files, onDisk := d } : World).Inv path := by
  refine ⟨fun {t x} ht => ?_, nofun⟩
  obtain ⟨-, hx⟩ := Option.filter_eq_some_iff.mp ht
  cases hx

end

/-- **One step** keeps what holds. -/
theorem Inv.step {K : Type} {k : Sealing K} {path : Str} {s s' : World} {a : Action}
    {ev : List Event} (hinv : s.Inv path) (hstep : Stepped k path s a s' ev) : s'.Inv path := by
  cases hstep with
  | new h hnone hlock => exact hinv.opened hnone nofun
  | lock h hnone hlock => exact hinv.lock hlock
  | load h passphrase hnone hload =>
    refine hinv.opened hnone fun {p} hp => ?_
    by_cases howned : s.lock = some (.vault h)
    · exact howned
    · rw [if_neg howned] at hp
      cases hp
  | loadFails h passphrase io hnone => exact hinv.unlock hnone
  | change records hv => exact hinv.change hv records
  | sealFails => exact hinv
  | save target hnone hv hseal => exact hinv.save hv
  | stop e ht ha hcheck => exact hinv.finish
  | acquireOwn e ht hv hown => exact hinv.acquireOwn hv hown
  | acquire e ht hv hown hlock => exact hinv.acquire hv hown hlock
  | refuse ht hv hguard hne => exact hinv.finish
  | check ht hv hguard heq => exact hinv.check ht hv hguard heq
  | create n e ht hnone => exact hinv.create ht n
  | write n ht hdone => exact hinv.write ht hdone n
  | sync ht => exact hinv.sync ht
  | rename ht hcontent hv => exact hinv.rename ht hcontent hv
  | syncDir ht => exact hinv.finish.onDisk _
  | die dead => exact hinv.without dead
  | powerLoss n junk hn => exact .powerLoss _ _

end World

end Leshiy.Provision
