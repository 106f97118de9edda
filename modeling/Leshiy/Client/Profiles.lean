import Mathlib.Data.List.Nodup
import Leshiy.Lib.Run
import Leshiy.Reality.Uri

/-!
# The saved profiles

`ProfileStore` (`leshiy-client/src/profile.rs`), with the commands of the app that change it
(`apps/gui/src-tauri/src/lib.rs`) and `ProfileManager` (`leshiy-mobile/src/profiles.rs`).

A command of the app changes the store under one lock and saves it under the next one, so that commands
interleave, and a save writes what the others have changed by then. The app may be killed between any two of
these steps. The JSON of a store is a parameter.
-/

namespace Leshiy.Client

open Leshiy.Lib Leshiy.Reality

/-! ## The store -/

structure Profile where
  id : String
  name : String
  uri : String
  createdAt : UInt64
  lastLatencyMs : Option UInt32
  deriving DecidableEq, Repr

/-- The variants of `ClientError` that a store returns. -/
inductive StoreError where
  | invalidUri
  | store
  | io
  deriving DecidableEq, Repr

/-- The id is drawn and the time is that of the import. -/
def Profile.fromUri (id : String) (now : UInt64) (uri name : String) : Except StoreError Profile :=
  match RealityUri.parse uri with
  | .error _ => .error .invalidUri
  | .ok _ => .ok ⟨id, name, uri, now, none⟩

structure ProfileStore where
  profiles : List Profile
  activeId : Option String
  deriving DecidableEq, Repr

namespace ProfileStore

instance : Inhabited ProfileStore := ⟨⟨[], none⟩⟩

def «import» (st : ProfileStore) (id : String) (now : UInt64) (uri name : String) :
    Except StoreError ProfileStore := do
  let profile ← Profile.fromUri id now uri name
  return { st with profiles := st.profiles ++ [profile] }

def active (st : ProfileStore) : Option Profile :=
  st.activeId.bind fun id => st.profiles.find? fun p => p.id = id

def setActive (st : ProfileStore) (id : String) : ProfileStore × Bool :=
  if st.profiles.any fun p => p.id = id then ({ st with activeId := some id }, true) else (st, false)

def rename (st : ProfileStore) (id name : String) : ProfileStore × Bool :=
  match st.profiles.findIdx? fun p => p.id = id with
  | some i => ({ st with profiles := st.profiles.modify i fun p => { p with name := name } }, true)
  | none => (st, false)

def remove (st : ProfileStore) (id : String) : ProfileStore × Bool :=
  let kept := st.profiles.filter fun p => p.id ≠ id
  let removed := kept.length ≠ st.profiles.length
  ({ profiles := kept, activeId := if removed ∧ st.activeId = some id then none else st.activeId }, removed)

/-- `serde_json` on stores. -/
structure Json where
  toVecPretty : ProfileStore → Option (List UInt8)
  fromSlice : List UInt8 → Option ProfileStore

variable (k : Json)

inductive FileRead where
  | bytes (b : List UInt8)
  | notFound
  | failed

def load : FileRead → Except StoreError ProfileStore
  | .bytes b =>
    match k.fromSlice b with
    | some st => .ok st
    | none => .error .store
  | .notFound => .ok default
  | .failed => .error .io

/-- Where `save` fails. -/
inductive SaveFault where
  | createDirAll
  | write
  | rename
  deriving DecidableEq, Repr

/-- The file is replaced by renaming another one, and is what it was until then. -/
def save (st : ProfileStore) (fault : Option SaveFault) (file : Option (List UInt8)) :
    Except StoreError Unit × Option (List UInt8) :=
  if fault = some .createDirAll then (.error .io, file)
  else
    match k.toVecPretty st with
    | none => (.error .store, file)
    | some data => if fault.isSome then (.error .io, file) else (.ok (), some data)

end ProfileStore

/-! ## The commands -/

inductive Command where
  | import (id : String) (now : UInt64) (uri name : String)
  | remove (id : String)
  | rename (id name : String)
  | setActive (id : String)
  deriving DecidableEq, Repr

/-- The change that a command makes. Whether it has found its profile is not looked at. -/
def Command.change (st : ProfileStore) : Command → Except StoreError ProfileStore
  | .import id now uri name => st.import id now uri name
  | .remove id => .ok (st.remove id).1
  | .rename id name => .ok (st.rename id name).1
  | .setActive id => .ok (st.setActive id).1

structure AppState where
  profiles : ProfileStore
  file : Option (List UInt8)
  /-- The commands that have made their change. -/
  saving : List Command
  deriving DecidableEq

inductive AppAct where
  | change (c : Command)
  | save (c : Command) (fault : Option ProfileStore.SaveFault)
  /-- The app is killed and started again; the file may be there and not be readable. -/
  | restart (unreadable : Bool)
  deriving DecidableEq, Repr

/-- What a command returns. -/
abbrev Answer := Command × Except StoreError Unit

/-- `ProfileStore::load(&path).unwrap_or_default()` -/
def loadOrDefault (k : ProfileStore.Json) (file : Option (List UInt8)) (unreadable : Bool) : ProfileStore :=
  match ProfileStore.load k (if unreadable then .failed else (file.map .bytes).getD .notFound) with
  | .ok st => st
  | .error _ => default

namespace AppState

variable (k : ProfileStore.Json) (s : AppState)

def step : AppAct → Option (AppState × List Answer)
  | .change c =>
    match c.change s.profiles with
    | .error err => some (s, [(c, .error err)])
    | .ok st => some ({ s with profiles := st, saving := c :: s.saving }, [])
  | .save c fault =>
    if c ∈ s.saving then
      let (r, file) := s.profiles.save k fault s.file
      some ({ s with file := file, saving := s.saving.erase c }, [(c, r)])
    else none
  | .restart unreadable => some (⟨loadOrDefault k s.file unreadable, s.file, []⟩, [])

inductive Moves : AppAct → AppState → List Answer → Prop
  | refused {c : Command} {err : StoreError} (hchange : c.change s.profiles = .error err) :
      Moves (.change c) s [(c, .error err)]
  | change {c : Command} {st : ProfileStore} (hchange : c.change s.profiles = .ok st) :
      Moves (.change c) { s with profiles := st, saving := c :: s.saving } []
  | saved {c : Command} {data : List UInt8} (hsaving : c ∈ s.saving)
      (hdata : k.toVecPretty s.profiles = some data) :
      Moves (.save c none) { s with file := some data, saving := s.saving.erase c } [(c, .ok ())]
  | unsaved {c : Command} {fault : Option ProfileStore.SaveFault} {err : StoreError}
      (hsaving : c ∈ s.saving) :
      Moves (.save c fault) { s with saving := s.saving.erase c } [(c, .error err)]
  | restart (unreadable : Bool) :
      Moves (.restart unreadable) ⟨loadOrDefault k s.file unreadable, s.file, []⟩ []

variable {k s} {s' : AppState} {a : AppAct} {ev : List Answer}

theorem step_moves (h : s.step k a = some (s', ev)) : s.Moves k a s' ev := by
  cases a with
  | change c =>
    simp only [step] at h
    split at h
    next err hchange =>
      cases h
      exact .refused hchange
    next st hchange =>
      cases h
      exact .change hchange
  | save c fault =>
    simp only [step] at h
    split at h
    next hsaving =>
      unfold ProfileStore.save at h
      split at h
      next =>
        cases h
        exact .unsaved hsaving
      next =>
        split at h
        next =>
          cases h
          exact .unsaved hsaving
        next data hdata =>
          cases fault with
          | none =>
            cases h
            exact .saved hsaving hdata
          | some fault =>
            cases h
            exact .unsaved hsaving
    next => cases h
  | restart unreadable =>
    cases h
    exact .restart unreadable

end AppState

/-! ## What an answered command has done -/

section

variable {k : ProfileStore.Json} {st st' : ProfileStore} {id : String}

theorem import_eq {now : UInt64} {uri name : String} (h : st.import id now uri name = .ok st') :
    (∃ u, RealityUri.parse uri = .ok u) ∧
      st' = { st with profiles := st.profiles ++ [⟨id, name, uri, now, none⟩] } := by
  unfold ProfileStore.import Profile.fromUri at h
  split at h
  next => cases h
  next u hu =>
    cases h
    exact ⟨⟨u, hu⟩, rfl⟩

theorem mem_remove {p : Profile} : p ∈ (st.remove id).1.profiles ↔ p ∈ st.profiles ∧ p.id ≠ id := by
  show p ∈ st.profiles.filter (fun p => p.id ≠ id) ↔ _
  simp

/-- A renamed store has the same profiles up to their names. -/
theorem rename_map {α : Type} (f : Profile → α) (hf : ∀ p name, f { p with name := name } = f p)
    (name : String) : (st.rename id name).1.profiles.map f = st.profiles.map f := by
  unfold ProfileStore.rename
  split
  next i _ =>
    apply List.ext_getElem?
    intro j
    simp only [List.getElem?_map, List.getElem?_modify]
    split
    · cases st.profiles[j]? with
      | none => rfl
      | some p => exact congrArg some (hf p name)
    · cases st.profiles[j]? <;> rfl
  next => rfl

@[simp] theorem setActive_profiles : (st.setActive id).1.profiles = st.profiles := by
  unfold ProfileStore.setActive
  split <;> rfl

variable (k) in
/-- The file holds a store like that. -/
def OnFile (Q : ProfileStore → Prop) (file : Option (List UInt8)) : Prop :=
  ∃ b st, file = some b ∧ k.fromSlice b = some st ∧ Q st

variable {Q : ProfileStore → Prop} {c : Command} {s₀ s : AppState} {log : List (Taken AppState AppAct Answer)}

theorem loadOrDefault_of_onFile {file : Option (List UInt8)} (h : OnFile k Q file) :
    Q (loadOrDefault k file false) := by
  obtain ⟨b, st, rfl, hst, hq⟩ := h
  show Q (match ProfileStore.load k (.bytes b) with | .ok st => st | .error _ => default)
  simp only [ProfileStore.load, hst]
  exact hq

/-- The step is taken after something has happened. -/
def TakenAfter (log : List (Taken AppState AppAct Answer))
    (happened : List (Taken AppState AppAct Answer) → Prop) (a : AppAct) : Prop :=
  ∃ before t after, log = before ++ t :: after ∧ t.act = a ∧ happened before

theorem TakenAfter.mem {happened : List (Taken AppState AppAct Answer) → Prop} {a : AppAct}
    (h : TakenAfter log happened a) : a ∈ log.map Taken.act := by
  obtain ⟨before, t, after, rfl, rfl, -⟩ := h
  exact List.mem_map_of_mem (List.mem_append_right _ List.mem_cons_self)

theorem TakenAfter.snoc {happened : List (Taken AppState AppAct Answer) → Prop} {a : AppAct}
    {t : Taken AppState AppAct Answer} (h : TakenAfter log happened a) :
    TakenAfter (log ++ [t]) happened a := by
  obtain ⟨before, t', after, rfl, ha, hbefore⟩ := h
  exact ⟨before, t', after ++ [t], by simp, ha, hbefore⟩

def changed (c : Command) (log : List (Taken AppState AppAct Answer)) : Prop :=
  .change c ∈ log.map Taken.act

def answered (c : Command) (log : List (Taken AppState AppAct Answer)) : Prop := (c, .ok ()) ∈ shown log

theorem changed_snoc {t : Taken AppState AppAct Answer} :
    changed c (log ++ [t]) ↔ changed c log ∨ .change c = t.act := by
  simp [changed]

theorem answered_snoc {t : Taken AppState AppAct Answer} :
    answered c (log ++ [t]) ↔ answered c log ∨ (c, .ok ()) ∈ t.ev := by
  simp [answered]

/-- **What a command has brought about is there for good once it has answered**, in the store and in the file,
unless a later command undoes it, or the app is started where it cannot read the file. -/
theorem acked_kept (hround : ∀ st b, k.toVecPretty st = some b → k.fromSlice b = some st)
    (h : Exec (AppState.step k) s₀ log s) (hstart : s₀.saving = [])
    (hmakes : ∀ st st', c.change st = .ok st' → Q st')
    (hkeeps : ∀ c', TakenAfter log (changed c) (.change c') →
      ∀ st st', c'.change st = .ok st' → Q st → Q st')
    (hread : TakenAfter log (answered c) (.restart true) → Q default) (hacked : answered c log) :
    Q s.profiles ∧ OnFile k Q s.file := by
  have hall :
      (∀ c', TakenAfter log (changed c) (.change c') → ∀ st st', c'.change st = .ok st' → Q st → Q st') →
      (TakenAfter log (answered c) (.restart true) → Q default) →
      (c ∈ s.saving → Q s.profiles ∧ changed c log) ∧
      (answered c log → Q s.profiles ∧ changed c log ∧ OnFile k Q s.file) := by
    refine h.inv (P := fun log s =>
      (∀ c', TakenAfter log (changed c) (.change c') → ∀ st st', c'.change st = .ok st' → Q st → Q st') →
      (TakenAfter log (answered c) (.restart true) → Q default) →
      (c ∈ s.saving → Q s.profiles ∧ changed c log) ∧
      (answered c log → Q s.profiles ∧ changed c log ∧ OnFile k Q s.file)) ?_ ?_
    · intro _ _
      rw [hstart]
      exact ⟨nofun, nofun⟩
    intro log s a s' ev _ ih hs hkeeps hread
    obtain ⟨hsaving, hacked⟩ := ih (fun c' h => hkeeps c' h.snoc) fun h => hread h.snoc
    have hsame : ∀ {t}, changed c log → changed c (log ++ [t]) := fun h => changed_snoc.mpr (.inl h)
    have hm := AppState.step_moves hs
    rw [answered_snoc]
    cases hm with
    | refused _ =>
      refine ⟨fun hc => ⟨(hsaving hc).1, hsame (hsaving hc).2⟩, fun hc => ?_⟩
      obtain ⟨hq, hchanged, hfile⟩ := hacked (hc.resolve_right (by simp))
      exact ⟨hq, hsame hchanged, hfile⟩
    | @change c' st' hchange =>
      have hafter : changed c log → Q s.profiles → Q st' := fun hchanged hq =>
        hkeeps c' ⟨log, _, [], rfl, rfl, hchanged⟩ _ _ hchange hq
      refine ⟨fun hc => ?_, fun hc => ?_⟩
      · by_cases heq : c = c'
        · subst heq
          exact ⟨hmakes _ _ hchange, changed_snoc.mpr (.inr rfl)⟩
        · have hold := hsaving ((List.mem_cons.mp hc).resolve_left heq)
          exact ⟨hafter hold.2 hold.1, hsame hold.2⟩
      · obtain ⟨hq, hchanged, hfile⟩ := hacked (hc.resolve_right (by simp))
        exact ⟨hafter hchanged hq, hsame hchanged, hfile⟩
    | @saved c' data hc' hdata =>
      refine ⟨fun hc => ⟨(hsaving (List.mem_of_mem_erase hc)).1, hsame (hsaving (List.mem_of_mem_erase hc)).2⟩,
        fun hc => ?_⟩
      have hold : Q s.profiles ∧ changed c log := by
        rcases hc with hc | hc
        · exact ⟨(hacked hc).1, (hacked hc).2.1⟩
        · cases List.mem_singleton.mp hc
          exact hsaving hc'
      exact ⟨hold.1, hsame hold.2, data, s.profiles, rfl, hround _ _ hdata, hold.1⟩
    | unsaved _ =>
      refine ⟨fun hc => ⟨(hsaving (List.mem_of_mem_erase hc)).1, hsame (hsaving (List.mem_of_mem_erase hc)).2⟩,
        fun hc => ?_⟩
      obtain ⟨hq, hchanged, hfile⟩ := hacked (hc.resolve_right (by simp))
      exact ⟨hq, hsame hchanged, hfile⟩
    | restart unreadable =>
      refine ⟨nofun, fun hc => ?_⟩
      have hbefore : answered c log := hc.resolve_right (by simp)
      obtain ⟨hq, hchanged, hfile⟩ := hacked hbefore
      refine ⟨?_, hsame hchanged, hfile⟩
      cases unreadable with
      | false => exact loadOrDefault_of_onFile hfile
      | true => exact hread ⟨log, _, [], rfl, rfl, hbefore⟩
  obtain ⟨hq, -, hfile⟩ := (hall hkeeps hread).2 hacked
  exact ⟨hq, hfile⟩

/-- **Nothing that was answered is lost.** A profile whose import has answered is in the store and in the file
at every later time, unless it is removed after it was added or the app is started where it cannot read the file.
A profile whose removal has answered is in neither, unless its id is drawn again. -/
theorem profiles_durable (hround : ∀ st b, k.toVecPretty st = some b → k.fromSlice b = some st)
    (h : Exec (AppState.step k) s₀ log s) (hstart : s₀.saving = []) :
    (∀ id now uri name, answered (.import id now uri name) log →
      ¬TakenAfter log (changed (.import id now uri name)) (.change (.remove id)) →
      ¬TakenAfter log (answered (.import id now uri name)) (.restart true) →
      (∃ p ∈ s.profiles.profiles, p.id = id ∧ p.uri = uri) ∧
        OnFile k (fun st => ∃ p ∈ st.profiles, p.id = id ∧ p.uri = uri) s.file) ∧
    ∀ id, answered (.remove id) log →
      (∀ now uri name, ¬TakenAfter log (changed (.remove id)) (.change (.import id now uri name))) →
      (∀ p ∈ s.profiles.profiles, p.id ≠ id) ∧ OnFile k (fun st => ∀ p ∈ st.profiles, p.id ≠ id) s.file := by
  constructor
  · intro id now uri name hacked hremove hread
    refine acked_kept (Q := fun st => ∃ p ∈ st.profiles, p.id = id ∧ p.uri = uri) hround h hstart ?_ ?_
      (fun hr => absurd hr hread) hacked
    · intro st st' hchange
      obtain ⟨-, rfl⟩ := import_eq hchange
      exact ⟨_, List.mem_append_right _ (List.mem_singleton_self _), rfl, rfl⟩
    · rintro c' hafter st st' hchange ⟨p, hp, hid, huri⟩
      cases c' with
      | «import» id' now' uri' name' =>
        obtain ⟨-, rfl⟩ := import_eq hchange
        exact ⟨p, List.mem_append_left _ hp, hid, huri⟩
      | remove id' =>
        cases hchange
        refine ⟨p, mem_remove.mpr ⟨hp, fun heq => hremove ?_⟩, hid, huri⟩
        obtain rfl : id' = id := heq.symm.trans hid
        exact hafter
      | rename id' name' =>
        cases hchange
        have hmem : (id, uri) ∈ (st.rename id' name').1.profiles.map fun p => (p.id, p.uri) := by
          rw [rename_map _ fun _ _ => rfl]
          exact List.mem_map.mpr ⟨p, hp, by rw [hid, huri]⟩
        obtain ⟨p', hp', heq⟩ := List.mem_map.mp hmem
        cases heq
        exact ⟨p', hp', rfl, rfl⟩
      | setActive id' =>
        cases hchange
        exact ⟨p, by rwa [setActive_profiles], hid, huri⟩
  · intro id hacked himport
    refine acked_kept (Q := fun st => ∀ p ∈ st.profiles, p.id ≠ id) hround h hstart ?_ ?_ (fun _ => nofun)
      hacked
    · intro st st' hchange p hp
      cases hchange
      exact (mem_remove.mp hp).2
    · intro c' hafter st st' hchange hnone p hp
      cases c' with
      | «import» id' now' uri' name' =>
        obtain ⟨-, rfl⟩ := import_eq hchange
        rcases List.mem_append.mp hp with hp | hp
        · exact hnone p hp
        · rw [List.mem_singleton.mp hp]
          rintro rfl
          exact himport _ _ _ hafter
      | remove id' =>
        cases hchange
        exact hnone p (mem_remove.mp hp).1
      | rename id' name' =>
        cases hchange
        have hmem : p.id ∈ (st.rename id' name').1.profiles.map Profile.id := List.mem_map_of_mem hp
        rw [rename_map _ fun _ _ => rfl] at hmem
        obtain ⟨p', hp', heq⟩ := List.mem_map.mp hmem
        exact heq ▸ hnone p' hp'
      | setActive id' =>
        cases hchange
        exact hnone p (by rwa [setActive_profiles] at hp)

end

/-! ## A first profile -/

def sampleUri : String :=
  RealityUri.format ⟨"vps:443", ⟨Block.fill 32 7, Block.fill 8 1, "site"⟩, none⟩

theorem parse_sampleUri : ∃ u, RealityUri.parse sampleUri = .ok u :=
  ⟨_, RealityUri.parse_format ⟨by decide, by decide, nofun⟩⟩

section

variable (uri : String)

def sampleStore : ProfileStore := ⟨[⟨"4f", "Frankfurt", uri, 1000, none⟩], none⟩

/-- The JSON of this store. -/
def sampleJson : ProfileStore.Json where
  toVecPretty st := if st = sampleStore uri then some [123] else none
  fromSlice b := if b = [123] then some (sampleStore uri) else none

def sampleImport : Command := .import "4f" 1000 uri "Frankfurt"

variable {uri}

theorem sampleJson_round (st : ProfileStore) (b : List UInt8) (h : (sampleJson uri).toVecPretty st = some b) :
    (sampleJson uri).fromSlice b = some st := by
  unfold sampleJson at h ⊢
  dsimp only at h ⊢
  split at h
  next heq =>
    cases h
    rw [if_pos rfl, heq]
  next => cases h

theorem change_sampleImport (hparse : ∃ u, RealityUri.parse uri = .ok u) :
    (sampleImport uri).change default = .ok (sampleStore uri) := by
  obtain ⟨u, hu⟩ := hparse
  show (default : ProfileStore).import "4f" 1000 uri "Frankfurt" = _
  unfold ProfileStore.import Profile.fromUri
  rw [hu]
  rfl

/-- The import is saved, and the app is started again. -/
theorem exec_sampleImport (hparse : ∃ u, RealityUri.parse uri = .ok u) :
    ∃ log, Exec (AppState.step (sampleJson uri)) ⟨default, none, []⟩ log ⟨sampleStore uri, some [123], []⟩ ∧
      log.map Taken.act = [.change (sampleImport uri), .save (sampleImport uri) none, .restart false] ∧
      answered (sampleImport uri) log := by
  have hchange : AppState.step (sampleJson uri) ⟨default, none, []⟩ (.change (sampleImport uri)) =
      some (⟨sampleStore uri, none, [sampleImport uri]⟩, []) := by
    simp only [AppState.step, change_sampleImport hparse]
  have hsave : AppState.step (sampleJson uri) ⟨sampleStore uri, none, [sampleImport uri]⟩
      (.save (sampleImport uri) none) =
      some (⟨sampleStore uri, some [123], []⟩, [(sampleImport uri, .ok ())]) := by
    simp [AppState.step, ProfileStore.save, sampleJson]
  have hrestart : AppState.step (sampleJson uri) ⟨sampleStore uri, some [123], []⟩ (.restart false) =
      some (⟨sampleStore uri, some [123], []⟩, []) := by
    simp [AppState.step, loadOrDefault, ProfileStore.load, sampleJson]
  exact ⟨_, ((Exec.nil.snoc hchange).snoc hsave).snoc hrestart, rfl, by simp [answered, shown]⟩

end

theorem profiles_durable_import : ∃ log, Exec (AppState.step (sampleJson sampleUri)) ⟨default, none, []⟩ log
    ⟨sampleStore sampleUri, some [123], []⟩ ∧
      ∃ p ∈ (sampleStore sampleUri).profiles, p.id = "4f" ∧ p.uri = sampleUri := by
  obtain ⟨log, hrun, hacts, hanswered⟩ := exec_sampleImport parse_sampleUri
  refine ⟨log, hrun, ((profiles_durable sampleJson_round hrun rfl).1 _ _ _ _ hanswered ?_ ?_).1⟩
  · intro h
    have hmem := h.mem
    rw [hacts] at hmem
    simp [sampleImport] at hmem
  · intro h
    have hmem := h.mem
    rw [hacts] at hmem
    simp at hmem

/-! ## What a store looks like -/

section

/-- The ids are those of different profiles, the active one is one of them, and every link is one. -/
structure ProfileStore.Wf (st : ProfileStore) : Prop where
  nodup : (st.profiles.map Profile.id).Nodup
  active : ∀ id, st.activeId = some id → ∃ p ∈ st.profiles, p.id = id
  uris : ∀ p ∈ st.profiles, ∃ u, RealityUri.parse p.uri = .ok u

variable {k : ProfileStore.Json} {st st' : ProfileStore} {s s' : AppState} {a : AppAct} {ev : List Answer}
  {c : Command} {log : List (Taken AppState AppAct Answer)}

theorem wf_default : (default : ProfileStore).Wf := ⟨List.nodup_nil, nofun, nofun⟩

theorem wf_import {id : String} {now : UInt64} {uri name : String} (h : st.Wf)
    (hfresh : id ∉ st.profiles.map Profile.id) (himport : st.import id now uri name = .ok st') : st'.Wf := by
  obtain ⟨huri, rfl⟩ := import_eq himport
  refine ⟨?_, fun id' hid => ?_, fun p hp => ?_⟩
  · rw [List.map_append]
    refine h.nodup.append (List.nodup_singleton _) ?_
    rw [List.map_singleton, List.disjoint_singleton]
    exact hfresh
  · obtain ⟨p, hp, hpid⟩ := h.active id' hid
    exact ⟨p, List.mem_append_left _ hp, hpid⟩
  · rcases List.mem_append.mp hp with hp | hp
    · exact h.uris p hp
    · rw [List.mem_singleton.mp hp]
      exact huri

theorem wf_remove {id : String} (h : st.Wf) : (st.remove id).1.Wf := by
  refine ⟨?_, fun id' hid => ?_, fun p hp => h.uris p (mem_remove.mp hp).1⟩
  · exact h.nodup.sublist (List.filter_sublist.map _)
  · unfold ProfileStore.remove at hid
    dsimp only at hid
    split at hid
    next => cases hid
    next hkept =>
      obtain ⟨p, hp, rfl⟩ := h.active id' hid
      refine ⟨p, mem_remove.mpr ⟨hp, fun heq => hkept ⟨?_, by rw [hid, heq]⟩⟩, rfl⟩
      -- the removed profile is this one, so the list has become shorter
      refine Nat.ne_of_lt (List.length_filter_lt_length_iff_exists.mpr ⟨p, hp, ?_⟩)
      simpa using heq

theorem wf_rename {id name : String} (h : st.Wf) : (st.rename id name).1.Wf := by
  have hids : (st.rename id name).1.profiles.map Profile.id = st.profiles.map Profile.id :=
    rename_map Profile.id (fun _ _ => rfl) name
  have huris : (st.rename id name).1.profiles.map Profile.uri = st.profiles.map Profile.uri :=
    rename_map Profile.uri (fun _ _ => rfl) name
  refine ⟨by rw [hids]; exact h.nodup, fun id' hid => ?_, fun p hp => ?_⟩
  · have hactive : (st.rename id name).1.activeId = st.activeId := by
      unfold ProfileStore.rename
      split <;> rfl
    rw [hactive] at hid
    obtain ⟨p, hp, rfl⟩ := h.active id' hid
    have hmem : p.id ∈ (st.rename id name).1.profiles.map Profile.id := hids ▸ List.mem_map_of_mem hp
    obtain ⟨p', hp', heq⟩ := List.mem_map.mp hmem
    exact ⟨p', hp', heq⟩
  · have hmem : p.uri ∈ st.profiles.map Profile.uri := huris ▸ List.mem_map_of_mem hp
    obtain ⟨p', hp', heq⟩ := List.mem_map.mp hmem
    exact heq ▸ h.uris p' hp'

theorem wf_setActive {id : String} (h : st.Wf) : (st.setActive id).1.Wf := by
  unfold ProfileStore.setActive
  split
  next hany =>
    refine ⟨h.nodup, fun id' hid => ?_, h.uris⟩
    cases hid
    obtain ⟨p, hp, heq⟩ := List.any_eq_true.mp hany
    exact ⟨p, hp, of_decide_eq_true heq⟩
  next => exact h

def AppAct.draws : AppAct → List String
  | .change (.import id _ _ _) => [id]
  | _ => []

/-- The ids that were drawn. -/
def drawn (log : List (Taken AppState AppAct Answer)) : List String := log.flatMap fun t => t.act.draws

@[simp] theorem drawn_snoc {t : Taken AppState AppAct Answer} :
    drawn (log ++ [t]) = drawn log ++ t.act.draws := by
  simp [drawn]

def Drawn (ids : List String) (st : ProfileStore) : Prop :=
  st.Wf ∧ ∀ p ∈ st.profiles, p.id ∈ ids

theorem Drawn.mono {ids ids' : List String} (h : Drawn ids st) (hsub : ∀ id ∈ ids, id ∈ ids') : Drawn ids' st :=
  ⟨h.1, fun p hp => hsub _ (h.2 p hp)⟩

/-- A command keeps the store in order, if the id that it draws is new. -/
theorem drawn_change {ids : List String} (h : Drawn ids st) (hchange : c.change st = .ok st')
    (hfresh : ∀ id now uri name, c = .import id now uri name → id ∉ ids) :
    Drawn (ids ++ (AppAct.change c).draws) st' := by
  cases c with
  | «import» id now uri name =>
    refine ⟨wf_import h.1 (fun hmem => ?_) hchange, fun p hp => ?_⟩
    · obtain ⟨p, hp, rfl⟩ := List.mem_map.mp hmem
      exact hfresh _ _ _ _ rfl (h.2 p hp)
    · obtain ⟨-, rfl⟩ := import_eq hchange
      rcases List.mem_append.mp hp with hp | hp
      · exact List.mem_append_left _ (h.2 p hp)
      · rw [List.mem_singleton.mp hp]
        exact List.mem_append_right _ (List.mem_singleton_self _)
  | remove id =>
    cases hchange
    exact ⟨wf_remove h.1, fun p hp => List.mem_append_left _ (h.2 p (mem_remove.mp hp).1)⟩
  | rename id name =>
    cases hchange
    refine ⟨wf_rename h.1, fun p hp => List.mem_append_left _ ?_⟩
    have hmem : p.id ∈ (st.rename id name).1.profiles.map Profile.id := List.mem_map_of_mem hp
    rw [rename_map _ fun _ _ => rfl] at hmem
    obtain ⟨p', hp', heq⟩ := List.mem_map.mp hmem
    exact heq ▸ h.2 p' hp'
  | setActive id =>
    cases hchange
    exact ⟨wf_setActive h.1, fun p hp => List.mem_append_left _ (h.2 p (by rwa [setActive_profiles] at hp))⟩

variable (k) in
/-- What a start reads, if it can read the file, is a store in order. -/
def Reads (Q : ProfileStore → Prop) (file : Option (List UInt8)) : Prop :=
  ∀ unreadable, Q (loadOrDefault k file unreadable)

theorem reads_saved {Q : ProfileStore → Prop} {data : List UInt8} (hdefault : Q default)
    (hslice : k.fromSlice data = some st) (hq : Q st) : Reads k Q (some data) := by
  intro unreadable
  cases unreadable with
  | true => exact hdefault
  | false => exact loadOrDefault_of_onFile ⟨data, st, rfl, hslice, hq⟩

theorem drawn_run (hround : ∀ st b, k.toVecPretty st = some b → k.fromSlice b = some st)
    (h : Exec (AppState.step k) ⟨default, none, []⟩ log s) :
    (drawn log).Nodup → Drawn (drawn log) s.profiles ∧ Reads k (Drawn (drawn log)) s.file := by
  have hdefault : ∀ ids, Drawn ids default := fun _ => ⟨wf_default, nofun⟩
  refine h.inv (P := fun log s => (drawn log).Nodup →
    Drawn (drawn log) s.profiles ∧ Reads k (Drawn (drawn log)) s.file)
    (fun _ => ⟨hdefault _, fun unreadable => by cases unreadable <;> exact hdefault _⟩) ?_
  intro log s a s' ev _ ih hs hnodup
  rw [drawn_snoc] at hnodup ⊢
  obtain ⟨hmem, hfile⟩ := ih hnodup.of_append_left
  have hmono : ∀ st, Drawn (drawn log) st → Drawn (drawn log ++ a.draws) st := fun st h =>
    h.mono fun id hid => List.mem_append_left _ hid
  have hm := AppState.step_moves hs
  cases hm with
  | refused _ | unsaved _ => exact ⟨hmono _ hmem, fun u => hmono _ (hfile u)⟩
  | @change c st' hchange =>
    refine ⟨drawn_change hmem hchange ?_, fun u => hmono _ (hfile u)⟩
    rintro id now uri name rfl hid
    exact List.disjoint_of_nodup_append hnodup hid (List.mem_singleton_self _)
  | saved _ hdata => exact ⟨hmono _ hmem, reads_saved (hdefault _) (hround _ _ hdata) (hmono _ hmem)⟩
  | restart unreadable => exact ⟨hmono _ (hfile unreadable), fun u => hmono _ (hfile u)⟩

/-- Every save has succeeded, and every start could read the file. -/
def Sound (log : List (Taken AppState AppAct Answer)) : Prop :=
  ∀ t ∈ log, (∀ c fault, t.act = .save c fault → t.ev = [(c, .ok ())]) ∧ t.act ≠ .restart true

theorem reads_run (hround : ∀ st b, k.toVecPretty st = some b → k.fromSlice b = some st)
    (h : Exec (AppState.step k) ⟨default, none, []⟩ log s) :
    Sound log → s.saving = [] → loadOrDefault k s.file false = s.profiles := by
  refine h.inv (P := fun log s => Sound log → s.saving = [] → loadOrDefault k s.file false = s.profiles)
    (fun _ _ => rfl) ?_
  intro log s a s' ev _ ih hs hsound hsaving
  have hbefore : Sound log := fun t ht => hsound t (List.mem_append_left _ ht)
  have hlast := hsound _ (List.mem_append_right _ (List.mem_singleton_self _))
  have hm := AppState.step_moves hs
  cases hm with
  | refused _ => exact ih hbefore hsaving
  | change _ => cases hsaving
  | saved _ hdata =>
    exact loadOrDefault_of_onFile (Q := fun st => st = s.profiles) ⟨_, _, rfl, hround _ _ hdata, rfl⟩
  | unsaved _ => cases hlast.1 _ _ rfl
  | restart unreadable =>
    cases unreadable with
    | false => rfl
    | true => exact absurd rfl hlast.2

/-- **The store is in order**, in memory and in what the next start finds, in every run from the first start on
in which no id is drawn twice: the ids are distinct, the active profile is there, every link is one. And while
no command is under way the next start finds what there is now, if every save has succeeded and every start could
read the file. -/
theorem profiles_wf (hround : ∀ st b, k.toVecPretty st = some b → k.fromSlice b = some st)
    (h : Exec (AppState.step k) ⟨default, none, []⟩ log s) (hdrawn : (drawn log).Nodup) :
    s.profiles.Wf ∧ (∀ unreadable, (loadOrDefault k s.file unreadable).Wf) ∧
      (Sound log → s.saving = [] → loadOrDefault k s.file false = s.profiles) := by
  obtain ⟨hmem, hfile⟩ := drawn_run hround h hdrawn
  exact ⟨hmem.1, fun unreadable => (hfile unreadable).1, reads_run hround h⟩

end

theorem profiles_wf_import : ∃ log, Exec (AppState.step (sampleJson sampleUri)) ⟨default, none, []⟩ log
    ⟨sampleStore sampleUri, some [123], []⟩ ∧ (sampleStore sampleUri).Wf := by
  obtain ⟨log, hrun, hacts, -⟩ := exec_sampleImport parse_sampleUri
  refine ⟨log, hrun, (profiles_wf sampleJson_round hrun ?_).1⟩
  have hdrawn : drawn log = (log.map Taken.act).flatMap AppAct.draws := by
    rw [List.flatMap_map]
    rfl
  rw [hdrawn, hacts]
  exact List.nodup_singleton _

/-! ## The manager of the mobile app -/

inductive BridgeError where
  | badUri
  | noSuchProfile
  | store
  deriving DecidableEq, Repr

structure ProfileManager where
  store : ProfileStore
  file : Option (List UInt8)

namespace ProfileManager

variable (k : ProfileStore.Json)

def new (file : Option (List UInt8)) (unreadable : Bool) : ProfileManager :=
  ⟨loadOrDefault k file unreadable, file⟩

variable (m : ProfileManager) (fault : Option ProfileStore.SaveFault)

/-- The lock is held from the change on. -/
def persist (st : ProfileStore) : Except BridgeError Unit × ProfileManager :=
  let (r, file) := st.save k fault m.file
  (r.mapError fun _ => .store, ⟨st, file⟩)

def add (id : String) (now : UInt64) (uri name : String) : Except BridgeError Unit × ProfileManager :=
  match m.store.import id now uri name with
  | .error _ => (.error .badUri, m)
  | .ok st => m.persist k fault st

def remove (id : String) : Except BridgeError Unit × ProfileManager :=
  m.persist k fault (m.store.remove id).1

def setActive (id : String) : Except BridgeError Unit × ProfileManager :=
  let (st, found) := m.store.setActive id
  if found then m.persist k fault st else (.error .noSuchProfile, m)

/-- The state of an app with no command under way. -/
def app : AppState := ⟨m.store, m.file, []⟩

variable {k} {m} {fault} {c : Command} {st : ProfileStore}

theorem exec_persist (hchange : c.change m.store = .ok st) :
    ∃ log, Exec (AppState.step k) m.app log (m.persist k fault st).2.app := by
  have hfirst : m.app.step k (.change c) = some (⟨st, m.file, [c]⟩, []) := by
    simp only [AppState.step, app, hchange]
  have hthen : AppState.step k ⟨st, m.file, [c]⟩ (.save c fault) =
      some ((m.persist k fault st).2.app, [(c, (st.save k fault m.file).1)]) := by
    simp [AppState.step, persist, app]
  exact ⟨_, (Exec.nil.snoc hfirst).snoc hthen⟩

/-- **The manager's calls are runs of the app's commands**, each to its end before the next one. -/
theorem exec_call (id : String) (now : UInt64) (uri name : String) :
    (∃ log, Exec (AppState.step k) m.app log (m.add k fault id now uri name).2.app) ∧
      (∃ log, Exec (AppState.step k) m.app log (m.remove k fault id).2.app) ∧
      ∃ log, Exec (AppState.step k) m.app log (m.setActive k fault id).2.app := by
  refine ⟨?_, exec_persist (c := .remove id) rfl, ?_⟩
  · unfold add
    split
    next => exact ⟨[], .nil⟩
    next st himport => exact exec_persist (c := .import id now uri name) himport
  · unfold setActive
    dsimp only
    split
    next => exact exec_persist (c := .setActive id) rfl
    next => exact ⟨[], .nil⟩

end ProfileManager

end Leshiy.Client
