import Mathlib.Algebra.Group.Nat.Defs
import Mathlib.Data.List.AList
import Leshiy.Lib.Crypto

/-!
# Users

The in-memory user store of `leshiy-reality/src/user.rs`, as the control plane and the accounting of
usage see it. Every method holds a lock throughout, so each is one function of the store. The buckets
that `def_of` makes for the datapath are left out here.
-/

namespace Leshiy.Reality

open Leshiy.Lib

abbrev ShortId := Block 8

structure User where
  shortId : ShortId
  enabled : Bool
  expiresAt : Option UInt64
  dataCap : Option UInt64
  rateUp : Option UInt32
  rateDown : Option UInt32
  deriving DecidableEq, Repr

/-- A user and the bytes counted for them. -/
structure UserStatus where
  user : User
  usedUp : UInt64
  usedDown : UInt64
  deriving DecidableEq, Repr

/-- The part of an entry that an upsert replaces. -/
structure Def where
  enabled : Bool
  expiresAt : Option UInt64
  dataCap : Option UInt64
  rateUp : Option UInt32
  rateDown : Option UInt32
  deriving DecidableEq, Repr

def defOf (u : User) : Def := ⟨u.enabled, u.expiresAt, u.dataCap, u.rateUp, u.rateDown⟩

structure Entry where
  shortId : ShortId
  defn : Def
  usedUp : UInt64
  usedDown : UInt64
  deriving DecidableEq, Repr

/-- What `snapshot` reports of an entry. -/
def Entry.status (e : Entry) : UserStatus :=
  ⟨⟨e.shortId, e.defn.enabled, e.defn.expiresAt, e.defn.dataCap, e.defn.rateUp, e.defn.rateDown⟩,
    e.usedUp, e.usedDown⟩

/-- The map from short ids to entries. An entry stands under its own id. -/
structure InMemoryUserStore where
  users : AList fun _ : ShortId => Entry
  keyed : ∀ k e, users.lookup k = some e → e.shortId = k

namespace InMemoryUserStore

def find (s : InMemoryUserStore) (id : ShortId) : Option Entry := s.users.lookup id

/-- An entry under its id, in the place of the one that was there. -/
def put (s : InMemoryUserStore) (e : Entry) : InMemoryUserStore where
  users := s.users.insert e.shortId e
  keyed := by
    intro k e' h
    by_cases hk : k = e.shortId
    · subst hk
      rw [AList.lookup_insert] at h
      cases h
      rfl
    · rw [AList.lookup_insert_ne hk] at h
      exact s.keyed k e' h

/-- The entry under an id changed, if there is one. -/
def update (s : InMemoryUserStore) (id : ShortId) (f : Entry → Entry) : InMemoryUserStore :=
  match s.find id with
  | none => s
  | some e => s.put { f e with shortId := e.shortId }

def empty : InMemoryUserStore := ⟨∅, fun _ _ h => nomatch h⟩

/-- A user that is there keeps its usage. -/
def upsert (s : InMemoryUserStore) (user : User) : InMemoryUserStore :=
  match s.find user.shortId with
  | some e => s.put { e with defn := defOf user }
  | none => s.put ⟨user.shortId, defOf user, 0, 0⟩

/-- Whether the user was there, and the store without them. -/
def remove (s : InMemoryUserStore) (id : ShortId) : Bool × InMemoryUserStore :=
  ((s.find id).isSome,
    { users := s.users.erase id
      keyed := by
        intro k e h
        by_cases hk : k = id
        · subst hk
          rw [AList.lookup_erase] at h
          cases h
        · rw [AList.lookup_erase_ne hk] at h
          exact s.keyed k e h })

def setEnabled (s : InMemoryUserStore) (id : ShortId) (on : Bool) : Bool × InMemoryUserStore :=
  ((s.find id).isSome, s.update id fun e => { e with defn := { e.defn with enabled := on } })

def resetUsage (s : InMemoryUserStore) (id : ShortId) : Bool × InMemoryUserStore :=
  ((s.find id).isSome, s.update id fun e => { e with usedUp := 0, usedDown := 0 })

/-- The counters are atomics: they wrap around. -/
def addUsage (s : InMemoryUserStore) (id : ShortId) (up down : UInt64) : InMemoryUserStore :=
  s.update id fun e => { e with usedUp := e.usedUp + up, usedDown := e.usedDown + down }

/-- `ok`: whether an entry still lets its user in. -/
def ok (d : Def) (used now : UInt64) : Bool :=
  d.enabled && d.expiresAt.all (fun exp => now ≤ exp) && d.dataCap.all (fun cap => used < cap)

def saturatingAdd (a b : UInt64) : UInt64 :=
  if a.toNat + b.toNat < 2 ^ 64 then a + b else UInt64.ofNat (2 ^ 64 - 1)

def stillAllowed (s : InMemoryUserStore) (id : ShortId) (now : UInt64) : Bool :=
  match s.find id with
  | none => false
  | some e => ok e.defn (saturatingAdd e.usedUp e.usedDown) now

def snapshot (s : InMemoryUserStore) : List UserStatus := s.users.entries.map fun kv => kv.2.status

/-! ## What is found afterwards -/

section

variable {s : InMemoryUserStore} {k id : ShortId} {e : Entry}

theorem shortId_of_find (h : s.find k = some e) : e.shortId = k := s.keyed k e h

theorem find_put (s : InMemoryUserStore) (e : Entry) (k : ShortId) :
    (s.put e).find k = if k = e.shortId then some e else s.find k := by
  unfold find put
  split
  · next h =>
    subst h
    exact AList.lookup_insert _
  · next h => exact AList.lookup_insert_ne h

theorem find_update (s : InMemoryUserStore) (id : ShortId) (f : Entry → Entry) (k : ShortId) :
    (s.update id f).find k =
      if k = id then (s.find k).map fun e => { f e with shortId := e.shortId } else s.find k := by
  unfold update
  split
  · next h =>
    split
    · next hk => rw [hk, h, Option.map_none]
    · rfl
  · next e h =>
    have hid := shortId_of_find h
    rw [find_put]
    dsimp only
    rw [hid]
    split
    · next hk => rw [hk, h, Option.map_some, hid]
    · rfl

theorem find_upsert (s : InMemoryUserStore) (u : User) (k : ShortId) :
    (s.upsert u).find k =
      if k = u.shortId then
        some ⟨k, defOf u, ((s.find k).map Entry.usedUp).getD 0, ((s.find k).map Entry.usedDown).getD 0⟩
      else s.find k := by
  unfold upsert
  split
  · next e h =>
    have hid := shortId_of_find h
    rw [find_put]
    dsimp only
    rw [hid]
    split
    · next hk =>
      subst hk
      rw [h, Option.map_some, Option.map_some, Option.getD_some, Option.getD_some]
    · rfl
  · next h =>
    rw [find_put]
    split
    · next hk =>
      subst hk
      rw [h]
      rfl
    · rfl

theorem find_remove (s : InMemoryUserStore) (id k : ShortId) :
    (s.remove id).2.find k = if k = id then none else s.find k := by
  unfold find remove
  dsimp only
  split
  · next h =>
    subst h
    exact AList.lookup_erase _ _
  · next h => exact AList.lookup_erase_ne h

theorem find_setEnabled (s : InMemoryUserStore) (id : ShortId) (on : Bool) (k : ShortId) :
    (s.setEnabled id on).2.find k =
      if k = id then (s.find k).map fun e => { e with defn := { e.defn with enabled := on } }
      else s.find k :=
  find_update s id _ k

theorem find_resetUsage (s : InMemoryUserStore) (id k : ShortId) :
    (s.resetUsage id).2.find k =
      if k = id then (s.find k).map fun e => { e with usedUp := 0, usedDown := 0 } else s.find k :=
  find_update s id _ k

theorem find_addUsage (s : InMemoryUserStore) (id : ShortId) (up down : UInt64) (k : ShortId) :
    (s.addUsage id up down).find k =
      if k = id then
        (s.find k).map fun e => { e with usedUp := e.usedUp + up, usedDown := e.usedDown + down }
      else s.find k :=
  find_update s id _ k

/-! ## Snapshots -/

theorem mem_entries : (⟨k, e⟩ : Sigma fun _ : ShortId => Entry) ∈ s.users.entries ↔ s.find k = some e :=
  AList.mem_lookup_iff.symm

/-- A snapshot holds the entries, each once. -/
theorem mem_snapshot {st : UserStatus} : st ∈ s.snapshot ↔ ∃ k e, s.find k = some e ∧ st = e.status := by
  unfold snapshot
  rw [List.mem_map]
  constructor
  · rintro ⟨⟨k, e⟩, hmem, rfl⟩
    exact ⟨k, e, mem_entries.mp hmem, rfl⟩
  · rintro ⟨k, e, h, rfl⟩
    exact ⟨⟨k, e⟩, mem_entries.mpr h, rfl⟩

/-- Looking an id up in a snapshot is looking it up in the store. -/
theorem find?_snapshot (s : InMemoryUserStore) (id : ShortId) :
    s.snapshot.find? (fun st => st.user.shortId = id) = (s.find id).map Entry.status := by
  cases h : s.find id with
  | none =>
    refine List.find?_eq_none.mpr ?_
    intro st hst
    obtain ⟨k, e, hk, rfl⟩ := mem_snapshot.mp hst
    intro hd
    have hst' : e.shortId = id := of_decide_eq_true hd
    rw [← hst', shortId_of_find hk, hk] at h
    cases h
  | some e =>
    have hmem : e.status ∈ s.snapshot := mem_snapshot.mpr ⟨id, e, h, rfl⟩
    have hid : e.status.user.shortId = id := shortId_of_find h
    cases hf : s.snapshot.find? (fun st => st.user.shortId = id) with
    | none => exact absurd (decide_eq_true hid) (List.find?_eq_none.mp hf _ hmem)
    | some st =>
      obtain ⟨k, e', hk, rfl⟩ := mem_snapshot.mp (List.mem_of_find?_eq_some hf)
      have hd := List.find?_some hf
      have hst : e'.shortId = id := of_decide_eq_true hd
      rw [← shortId_of_find hk, hst, h] at hk
      cases hk
      rfl

end

end InMemoryUserStore

end Leshiy.Reality
