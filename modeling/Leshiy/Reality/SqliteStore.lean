import Leshiy.Reality.User

/-!
# The persistent user store

`SqliteUserStore` (`leshiy-reality/src/sqlite_store.rs`): the in-memory store and a table that the
control plane writes through to. Usage is written by the flusher only. The table is what its statements
make of it; integers are signed there, so every field of 64 bits passes through its two's complement.
-/

namespace Leshiy.Reality

open Leshiy.Lib

/-! ## The table -/

structure Row where
  enabled : Int64
  expiresAt : Option Int64
  dataCap : Option Int64
  rateUp : Option Int64
  rateDown : Option Int64
  usedUp : Int64
  usedDown : Int64
  deriving DecidableEq

/-- The table `users`, by its primary key. Nothing keeps other programs from putting keys of another
length there. -/
abbrev Table := AList fun _ : List UInt8 => Row

/-- `as u32` drops the high bits, `as i64` of a `u32` fills them with zeros. -/
def toU32 (v : Int64) : UInt32 := v.toUInt64.toUInt32

def ofU32 (v : UInt32) : Int64 := v.toUInt64.toInt64

def rowToUser (shortId : ShortId) (row : Row) : User where
  shortId := shortId
  enabled := decide (row.enabled ≠ 0)
  expiresAt := row.expiresAt.map Int64.toUInt64
  dataCap := row.dataCap.map Int64.toUInt64
  rateUp := row.rateUp.map toU32
  rateDown := row.rateDown.map toU32

/-- The parameters of `persist_def`, with the usage that goes with them. -/
def rowOf (u : User) (usedUp usedDown : Int64) : Row where
  enabled := if u.enabled then 1 else 0
  expiresAt := u.expiresAt.map UInt64.toInt64
  dataCap := u.dataCap.map UInt64.toInt64
  rateUp := u.rateUp.map ofU32
  rateDown := u.rateDown.map ofU32
  usedUp := usedUp
  usedDown := usedDown

namespace Table

/-- `UPDATE users SET … WHERE short_id=?1`. -/
def updateWhere (db : Table) (id : ShortId) (f : Row → Row) : Table :=
  match db.lookup id.1 with
  | none => db
  | some row => db.insert id.1 (f row)

/-- The insert of `persist_def`: a row that is there keeps its usage. -/
def persistDef (db : Table) (u : User) : Table :=
  match db.lookup u.shortId.1 with
  | none => db.insert u.shortId.1 (rowOf u 0 0)
  | some old => db.insert u.shortId.1 (rowOf u old.usedUp old.usedDown)

/-- `DELETE FROM users WHERE short_id=?1`. -/
def deleteWhere (db : Table) (id : ShortId) : Table := db.erase id.1

def setEnabled (db : Table) (id : ShortId) (on : Bool) : Table :=
  db.updateWhere id fun row => { row with enabled := if on then 1 else 0 }

def setUsage (db : Table) (id : ShortId) (up down : UInt64) : Table :=
  db.updateWhere id fun row => { row with usedUp := up.toInt64, usedDown := down.toInt64 }

def find (db : Table) (id : ShortId) : Option Row := db.lookup id.1

end Table

/-- The statements that the control plane writes through. -/
inductive Stmt where
  | persistDef (user : User)
  | delete (id : ShortId)
  | setEnabled (id : ShortId) (on : Bool)
  | resetUsage (id : ShortId)
  deriving DecidableEq

def Stmt.run (db : Table) : Stmt → Table
  | .persistDef user => db.persistDef user
  | .delete id => db.deleteWhere id
  | .setEnabled id on => db.setEnabled id on
  | .resetUsage id => db.setUsage id 0 0

/-! ## The store -/

structure SqliteUserStore where
  mem : InMemoryUserStore
  db : Table

/-- One row of `open`: a row whose key is no short id is passed over. -/
def loadRow (mem : InMemoryUserStore) (kv : Sigma fun _ : List UInt8 => Row) : InMemoryUserStore :=
  if h : kv.1.length = 8 then
    let shortId : ShortId := ⟨kv.1, h⟩
    (mem.upsert (rowToUser shortId kv.2)).addUsage shortId kv.2.usedUp.toUInt64 kv.2.usedDown.toUInt64
  else mem

/-- The in-memory store that `open` fills from the rows. -/
def load (db : Table) : InMemoryUserStore := db.entries.foldl loadRow .empty

namespace SqliteUserStore

def «open» (db : Table) : SqliteUserStore := ⟨load db, db⟩

def upsert (s : SqliteUserStore) (user : User) : SqliteUserStore :=
  ⟨s.mem.upsert user, Stmt.run s.db (.persistDef user)⟩

/-- The statement of a method that found its user. -/
def through (r : Bool × InMemoryUserStore) (db : Table) (st : Stmt) : Bool × SqliteUserStore :=
  (r.1, ⟨r.2, if r.1 then st.run db else db⟩)

def remove (s : SqliteUserStore) (id : ShortId) : Bool × SqliteUserStore :=
  through (s.mem.remove id) s.db (.delete id)

def setEnabled (s : SqliteUserStore) (id : ShortId) (on : Bool) : Bool × SqliteUserStore :=
  through (s.mem.setEnabled id on) s.db (.setEnabled id on)

def resetUsage (s : SqliteUserStore) (id : ShortId) : Bool × SqliteUserStore :=
  through (s.mem.resetUsage id) s.db (.resetUsage id)

def addUsage (s : SqliteUserStore) (id : ShortId) (up down : UInt64) : SqliteUserStore :=
  ⟨s.mem.addUsage id up down, s.db⟩

/-- The usage of every user of a snapshot, one statement each. -/
def flushNow (s : SqliteUserStore) : SqliteUserStore :=
  ⟨s.mem, s.mem.snapshot.foldl (fun db st => db.setUsage st.user.shortId st.usedUp st.usedDown) s.db⟩

def snapshot (s : SqliteUserStore) : List UserStatus := s.mem.snapshot

/-- A call of the store. -/
inductive Op where
  | upsert (user : User)
  | remove (id : ShortId)
  | setEnabled (id : ShortId) (on : Bool)
  | resetUsage (id : ShortId)
  | addUsage (id : ShortId) (up down : UInt64)
  | flushNow
  deriving DecidableEq

def apply (s : SqliteUserStore) : Op → SqliteUserStore
  | .upsert user => s.upsert user
  | .remove id => (s.remove id).2
  | .setEnabled id on => (s.setEnabled id on).2
  | .resetUsage id => (s.resetUsage id).2
  | .addUsage id up down => s.addUsage id up down
  | .flushNow => s.flushNow

/-- One call after the other. -/
def applyAll (s : SqliteUserStore) (ops : List Op) : SqliteUserStore := ops.foldl apply s

end SqliteUserStore

/-! ## What is found afterwards -/

namespace Table

section

variable {db : Table} {k id : ShortId}

theorem ne_key (h : k ≠ id) : k.1 ≠ id.1 := fun he => h (Subtype.ext he)

theorem find_updateWhere (db : Table) (id : ShortId) (f : Row → Row) (k : ShortId) :
    (db.updateWhere id f).find k = if k = id then (db.find k).map f else db.find k := by
  unfold updateWhere find
  split
  · next h =>
    split
    · next hk => rw [hk, h, Option.map_none]
    · rfl
  · next row h =>
    split
    · next hk => rw [hk, h, AList.lookup_insert, Option.map_some]
    · next hk => exact AList.lookup_insert_ne (ne_key hk)

theorem find_deleteWhere (db : Table) (id k : ShortId) :
    (db.deleteWhere id).find k = if k = id then none else db.find k := by
  unfold deleteWhere find
  split
  · next hk => rw [hk, AList.lookup_erase]
  · next hk => exact AList.lookup_erase_ne (ne_key hk)

theorem find_persistDef (db : Table) (u : User) (k : ShortId) :
    (db.persistDef u).find k =
      if k = u.shortId then
        some (rowOf u (((db.find k).map Row.usedUp).getD 0) (((db.find k).map Row.usedDown).getD 0))
      else db.find k := by
  unfold persistDef find
  split
  · next h =>
    split
    · next hk =>
      rw [hk, h, AList.lookup_insert]
      rfl
    · next hk => exact AList.lookup_insert_ne (ne_key hk)
  · next row h =>
    split
    · next hk =>
      rw [hk, h, AList.lookup_insert]
      rfl
    · next hk => exact AList.lookup_insert_ne (ne_key hk)

end

end Table

/-! ## Rows and entries -/

/-- The definition that a row stands for. -/
def Row.defn (row : Row) : Def :=
  ⟨decide (row.enabled ≠ 0), row.expiresAt.map Int64.toUInt64, row.dataCap.map Int64.toUInt64,
    row.rateUp.map toU32, row.rateDown.map toU32⟩

def Row.entry (k : ShortId) (row : Row) : Entry :=
  ⟨k, row.defn, row.usedUp.toUInt64, row.usedDown.toUInt64⟩

theorem toU32_ofU32 (v : UInt32) : toU32 (ofU32 v) = v := UInt32.toUInt32_toUInt64 v

/-- Every value of every field survives the signed column. -/
theorem defn_rowOf (u : User) (usedUp usedDown : Int64) : (rowOf u usedUp usedDown).defn = defOf u := by
  have h32 : ∀ r : Option UInt32, (r.map ofU32).map toU32 = r := by
    intro r
    cases r with
    | none => rfl
    | some v => exact congrArg some (toU32_ofU32 v)
  have h64 : ∀ r : Option UInt64, (r.map UInt64.toInt64).map Int64.toUInt64 = r := by
    intro r
    cases r with
    | none => rfl
    | some v => rfl
  have hen : decide ((if u.enabled then (1 : Int64) else 0) ≠ 0) = u.enabled := by
    cases u.enabled <;> decide
  simp only [Row.defn, rowOf, defOf, h32, h64]
  exact congrArg (fun b => (⟨b, _, _, _, _⟩ : Def)) hen

theorem loadRow_find_ne {mem : InMemoryUserStore} {kv : Sigma fun _ : List UInt8 => Row} {k : ShortId}
    (h : k.1 ≠ kv.1) : (loadRow mem kv).find k = mem.find k := by
  unfold loadRow
  split
  · next hlen =>
    have hk : k ≠ ⟨kv.1, hlen⟩ := fun he => h (congrArg Subtype.val he)
    dsimp only
    rw [InMemoryUserStore.find_addUsage, if_neg hk, InMemoryUserStore.find_upsert]
    exact if_neg hk
  · rfl

theorem loadRow_find (mem : InMemoryUserStore) (k : ShortId) (row : Row) (h : mem.find k = none) :
    (loadRow mem ⟨k.1, row⟩).find k = some (row.entry k) := by
  unfold loadRow
  rw [dif_pos k.2]
  dsimp only
  have hup : (mem.upsert (rowToUser k row)).find k = some ⟨k, row.defn, 0, 0⟩ := by
    rw [InMemoryUserStore.find_upsert, if_pos (by rfl), h]
    rfl
  rw [InMemoryUserStore.find_addUsage, if_pos rfl, hup, Option.map_some]
  simp [Row.entry]

theorem foldl_loadRow_find_ne {l : List (Sigma fun _ : List UInt8 => Row)} {k : ShortId}
    (h : ∀ kv ∈ l, k.1 ≠ kv.1) (mem : InMemoryUserStore) :
    (l.foldl loadRow mem).find k = mem.find k := by
  induction l generalizing mem with
  | nil => rfl
  | cons kv l ih =>
    rw [List.foldl_cons, ih (fun kv' h' => h kv' (List.mem_cons_of_mem kv h'))]
    exact loadRow_find_ne (h kv List.mem_cons_self)

theorem foldl_loadRow_find {l : List (Sigma fun _ : List UInt8 => Row)} {k : ShortId}
    (hnd : l.NodupKeys) {mem : InMemoryUserStore} (h : mem.find k = none) :
    (l.foldl loadRow mem).find k = (l.dlookup k.1).map (Row.entry k) := by
  induction l generalizing mem with
  | nil => simpa using h
  | cons kv l ih =>
    obtain ⟨hnew, hnd'⟩ := List.nodupKeys_cons.mp hnd
    obtain ⟨key, row⟩ := kv
    rw [List.foldl_cons]
    by_cases hkey : key = k.1
    · subst hkey
      rw [List.dlookup_cons_eq, Option.map_some, foldl_loadRow_find_ne, loadRow_find mem k row h]
      intro kv' hmem he
      exact hnew (List.mem_keys.mpr ⟨kv'.2, by rw [he]; exact hmem⟩)
    · rw [List.dlookup_cons_ne _ _ (Ne.symm hkey)]
      exact ih hnd' ((loadRow_find_ne (Ne.symm hkey)).trans h)

/-- **What a reopened store finds is what the table holds.** -/
theorem find_load (db : Table) (k : ShortId) : (load db).find k = (db.find k).map (Row.entry k) :=
  foldl_loadRow_find db.nodupKeys rfl

/-! ## Memory and table agree -/

/-- What a statement does to the definition under an id. -/
def Stmt.onDef (k : ShortId) (d : Option Def) : Stmt → Option Def
  | .persistDef user => if k = user.shortId then some (defOf user) else d
  | .delete id => if k = id then none else d
  | .setEnabled id on => if k = id then d.map fun d => { d with enabled := on } else d
  | .resetUsage _ => d

namespace Table

def defn (db : Table) (k : ShortId) : Option Def := (db.find k).map Row.defn

theorem defn_updateWhere {db : Table} {id : ShortId} {f : Row → Row} {g : Def → Def}
    (h : ∀ row, (f row).defn = g row.defn) (k : ShortId) :
    (db.updateWhere id f).defn k = if k = id then (db.defn k).map g else db.defn k := by
  unfold defn
  rw [find_updateWhere]
  split
  · rw [Option.map_map, Option.map_map]
    exact congrArg (fun f => Option.map f (db.find k)) (funext h)
  · rfl

theorem defn_setUsage (db : Table) (id : ShortId) (up down : UInt64) (k : ShortId) :
    (db.setUsage id up down).defn k = db.defn k := by
  have h : (db.setUsage id up down).defn k = if k = id then (db.defn k).map (fun d => d) else db.defn k :=
    defn_updateWhere (fun _ => rfl) k
  rwa [Option.map_id', ite_self] at h

theorem defn_run (db : Table) (st : Stmt) (k : ShortId) :
    (st.run db).defn k = st.onDef k (db.defn k) := by
  cases st with
  | persistDef user =>
    show ((db.persistDef user).find k).map Row.defn = if _ then _ else _
    rw [find_persistDef]
    split
    · rw [Option.map_some, defn_rowOf]
    · rfl
  | delete id =>
    show ((db.deleteWhere id).find k).map Row.defn = if _ then _ else _
    rw [find_deleteWhere]
    split <;> rfl
  | setEnabled id on =>
    refine defn_updateWhere (fun row => ?_) k
    have hon : decide ((if on then (1 : Int64) else 0) ≠ 0) = on := by cases on <;> decide
    exact congrArg (fun b => (⟨b, _, _, _, _⟩ : Def)) hon
  | resetUsage id => exact defn_setUsage db id 0 0 k

end Table

namespace InMemoryUserStore

def defn (mem : InMemoryUserStore) (k : ShortId) : Option Def := (mem.find k).map Entry.defn

section

variable (mem : InMemoryUserStore) (id k : ShortId)

theorem defn_upsert (u : User) : (mem.upsert u).defn k = Stmt.onDef k (mem.defn k) (.persistDef u) := by
  show Option.map Entry.defn _ = if _ then _ else _
  rw [find_upsert]
  split <;> rfl

theorem defn_remove : (mem.remove id).2.defn k = Stmt.onDef k (mem.defn k) (.delete id) := by
  show Option.map Entry.defn _ = if _ then _ else _
  rw [find_remove]
  split <;> rfl

theorem defn_setEnabled (on : Bool) :
    (mem.setEnabled id on).2.defn k = Stmt.onDef k (mem.defn k) (.setEnabled id on) := by
  show Option.map Entry.defn _ = if _ then _ else _
  rw [find_setEnabled]
  split
  · unfold defn
    rw [Option.map_map, Option.map_map]
    rfl
  · rfl

theorem defn_resetUsage : (mem.resetUsage id).2.defn k = mem.defn k := by
  unfold defn
  rw [find_resetUsage]
  split
  · rw [Option.map_map]
    rfl
  · rfl

theorem defn_addUsage (up down : UInt64) : (mem.addUsage id up down).defn k = mem.defn k := by
  unfold defn
  rw [find_addUsage]
  split
  · rw [Option.map_map]
    rfl
  · rfl

end

end InMemoryUserStore

namespace SqliteUserStore

section

variable {s : SqliteUserStore} {k : ShortId}

/-- Memory and table hold the same users with the same definitions. -/
def Agrees (s : SqliteUserStore) : Prop := ∀ k, s.db.defn k = s.mem.defn k

theorem agrees_open (db : Table) : (SqliteUserStore.open db).Agrees := by
  intro k
  show _ = ((load db).find k).map Entry.defn
  rw [find_load, Option.map_map]
  rfl

theorem flush_defn (l : List UserStatus) (db : Table) (k : ShortId) :
    Table.defn (l.foldl (fun db st => db.setUsage st.user.shortId st.usedUp st.usedDown) db) k =
      db.defn k := by
  induction l generalizing db with
  | nil => rfl
  | cons st l ih =>
    rw [List.foldl_cons, ih]
    exact Table.defn_setUsage _ _ _ _ _

/-- A method that writes through keeps the agreement if its statement does to the table what the method
does to memory, and nothing if there is no such user. -/
theorem Agrees.through (h : s.Agrees) {r : Bool × InMemoryUserStore} {st : Stmt}
    (hmem : ∀ k, r.2.defn k = st.onDef k (s.mem.defn k))
    (hnone : r.1 = false → ∀ k, st.onDef k (s.mem.defn k) = s.mem.defn k) :
    (SqliteUserStore.through r s.db st).2.Agrees := by
  intro k
  show Table.defn (if r.1 then st.run s.db else s.db) k = r.2.defn k
  rw [hmem]
  by_cases hr : r.1 = true
  · rw [if_pos hr, Table.defn_run, h k]
  · rw [if_neg hr, hnone (Bool.eq_false_iff.mpr hr), h k]

theorem onDef_of_absent {mem : InMemoryUserStore} {id : ShortId} (h : (mem.find id).isSome = false) :
    mem.defn id = none := by
  unfold InMemoryUserStore.defn
  rw [Option.isSome_eq_false_iff, Option.isNone_iff_eq_none] at h
  rw [h, Option.map_none]

theorem Agrees.apply (h : s.Agrees) (op : Op) : (s.apply op).Agrees := by
  cases op with
  | upsert user =>
    intro k
    show (Stmt.run s.db (.persistDef user)).defn k = (s.mem.upsert user).defn k
    rw [Table.defn_run, InMemoryUserStore.defn_upsert, h k]
  | remove id =>
    refine h.through (s.mem.defn_remove id) fun hr k => ?_
    show (if k = id then none else s.mem.defn k) = _
    split
    · next hk => rw [hk, onDef_of_absent hr]
    · rfl
  | setEnabled id on =>
    refine h.through (fun k => s.mem.defn_setEnabled id k on) fun hr k => ?_
    show (if k = id then (s.mem.defn k).map _ else s.mem.defn k) = _
    split
    · next hk => rw [hk, onDef_of_absent hr, Option.map_none]
    · rfl
  | resetUsage id => exact h.through (s.mem.defn_resetUsage id) fun _ _ => rfl
  | addUsage id up down => exact fun k => (h k).trans (s.mem.defn_addUsage id k up down).symm
  | flushNow => exact fun k => (flush_defn _ _ k).trans (h k)

theorem Agrees.applyAll (h : s.Agrees) (ops : List Op) : (s.applyAll ops).Agrees := by
  induction ops generalizing s with
  | nil => exact h
  | cons op ops ih => exact ih (h.apply op)

/-! ## Usage -/

/-- The rows after the statements of a flush that all report the same usage for `k`. -/
theorem flush_find {k : ShortId} {up down : UInt64} {l : List UserStatus}
    (h : ∀ st ∈ l, st.user.shortId = k → st.usedUp = up ∧ st.usedDown = down) (db : Table) :
    Table.find (l.foldl (fun db st => db.setUsage st.user.shortId st.usedUp st.usedDown) db) k =
      if ∃ st ∈ l, st.user.shortId = k then
        (db.find k).map fun row => { row with usedUp := up.toInt64, usedDown := down.toInt64 }
      else db.find k := by
  induction l generalizing db with
  | nil => simp
  | cons st l ih =>
    have ih' := ih (fun st' h' => h st' (List.mem_cons_of_mem st h'))
      (db.setUsage st.user.shortId st.usedUp st.usedDown)
    rw [List.foldl_cons, ih']
    have hset : (db.setUsage st.user.shortId st.usedUp st.usedDown).find k =
        if k = st.user.shortId then
          (db.find k).map fun row => { row with usedUp := st.usedUp.toInt64, usedDown := st.usedDown.toInt64 }
        else db.find k := Table.find_updateWhere _ _ _ _
    rw [hset]
    by_cases hk : st.user.shortId = k
    · obtain ⟨hup, hdown⟩ := h st List.mem_cons_self hk
      have hmem : ∃ st' ∈ st :: l, st'.user.shortId = k := ⟨st, List.mem_cons_self, hk⟩
      rw [if_pos hk.symm, hup, hdown, Option.map_map, if_pos hmem]
      split <;> rfl
    · rw [if_neg (Ne.symm hk)]
      refine if_congr ?_ rfl rfl
      simp [hk]

/-- **After a flush a reopened store finds what memory holds.** -/
theorem Agrees.find_flushNow (h : s.Agrees) (k : ShortId) :
    (load s.flushNow.db).find k = s.mem.find k := by
  rw [find_load]
  have hk := h k
  unfold Table.defn InMemoryUserStore.defn at hk
  cases hm : s.mem.find k with
  | none =>
    rw [hm, Option.map_none, Option.map_eq_none_iff] at hk
    have hfl := flush_defn s.mem.snapshot s.db k
    unfold Table.defn at hfl
    rw [hk, Option.map_none, Option.map_eq_none_iff] at hfl
    show Option.map (Row.entry k) (Table.find (List.foldl _ s.db s.mem.snapshot) k) = none
    rw [hfl, Option.map_none]
  | some e =>
    rw [hm, Option.map_some] at hk
    obtain ⟨row, hrow, hdefn⟩ := Option.map_eq_some_iff.mp hk
    have hid := InMemoryUserStore.shortId_of_find hm
    have hsame : ∀ st ∈ s.mem.snapshot, st.user.shortId = k →
        st.usedUp = e.usedUp ∧ st.usedDown = e.usedDown := by
      intro st hst hstk
      obtain ⟨k', e', hk', rfl⟩ := InMemoryUserStore.mem_snapshot.mp hst
      have hk'' : e'.shortId = k := hstk
      rw [← InMemoryUserStore.shortId_of_find hk', hk'', hm] at hk'
      cases hk'
      exact ⟨rfl, rfl⟩
    have hmem : ∃ st ∈ s.mem.snapshot, st.user.shortId = k :=
      ⟨e.status, InMemoryUserStore.mem_snapshot.mpr ⟨k, e, hm, rfl⟩, hid⟩
    have hfl := flush_find hsame s.db
    rw [if_pos hmem, hrow, Option.map_some] at hfl
    show Option.map (Row.entry k) (Table.find (List.foldl _ s.db s.mem.snapshot) k) = some e
    rw [hfl, Option.map_some]
    refine congrArg some ?_
    show (⟨k, row.defn, e.usedUp, e.usedDown⟩ : Entry) = e
    rw [hdefn, ← hid]

/-- No usage is counted for `k`, in memory or in the table. -/
structure Zero (s : SqliteUserStore) (k : ShortId) : Prop where
  mem : ∀ e, s.mem.find k = some e → e.usedUp = 0 ∧ e.usedDown = 0
  db : ∀ row, s.db.find k = some row → row.usedUp = 0 ∧ row.usedDown = 0

theorem Zero.through (h : s.Zero k) {r : Bool × InMemoryUserStore} {st : Stmt}
    (hmem : ∀ e, r.2.find k = some e → e.usedUp = 0 ∧ e.usedDown = 0)
    (hdb : ∀ row, (st.run s.db).find k = some row → row.usedUp = 0 ∧ row.usedDown = 0) :
    (SqliteUserStore.through r s.db st).2.Zero k := by
  refine ⟨hmem, ?_⟩
  show ∀ row, Table.find (if r.1 then st.run s.db else s.db) k = some row → _
  split
  · exact hdb
  · exact h.db

theorem Zero.apply (h : s.Zero k) {op : Op} (hop : ∀ up down, op ≠ .addUsage k up down) :
    (s.apply op).Zero k := by
  cases op with
  | upsert user =>
    refine ⟨fun e he => ?_, fun row hrow => ?_⟩
    · have he' : (s.mem.upsert user).find k = some e := he
      rw [InMemoryUserStore.find_upsert] at he'
      split at he'
      · cases he'
        cases hm : s.mem.find k with
        | none => exact ⟨rfl, rfl⟩
        | some e' => exact h.mem e' hm
      · exact h.mem e he'
    · have hrow' : (s.db.persistDef user).find k = some row := hrow
      rw [Table.find_persistDef] at hrow'
      split at hrow'
      · cases hrow'
        cases hm : s.db.find k with
        | none => exact ⟨rfl, rfl⟩
        | some row' => exact h.db row' hm
      · exact h.db row hrow'
  | remove id =>
    refine h.through (fun e he => ?_) fun row hrow => ?_
    · rw [InMemoryUserStore.find_remove] at he
      split at he
      · cases he
      · exact h.mem e he
    · have hrow' : (s.db.deleteWhere id).find k = some row := hrow
      rw [Table.find_deleteWhere] at hrow'
      split at hrow'
      · cases hrow'
      · exact h.db row hrow'
  | setEnabled id on =>
    refine h.through (fun e he => ?_) fun row hrow => ?_
    · rw [InMemoryUserStore.find_setEnabled] at he
      split at he
      · obtain ⟨e', he', rfl⟩ := Option.map_eq_some_iff.mp he
        exact h.mem e' he'
      · exact h.mem e he
    · have hrow' : (s.db.setEnabled id on).find k = some row := hrow
      unfold Table.setEnabled at hrow'
      rw [Table.find_updateWhere] at hrow'
      split at hrow'
      · obtain ⟨row', hr', rfl⟩ := Option.map_eq_some_iff.mp hrow'
        exact h.db row' hr'
      · exact h.db row hrow'
  | resetUsage id =>
    refine h.through (fun e he => ?_) fun row hrow => ?_
    · rw [InMemoryUserStore.find_resetUsage] at he
      split at he
      · obtain ⟨e', -, rfl⟩ := Option.map_eq_some_iff.mp he
        exact ⟨rfl, rfl⟩
      · exact h.mem e he
    · have hrow' : (s.db.setUsage id 0 0).find k = some row := hrow
      unfold Table.setUsage at hrow'
      rw [Table.find_updateWhere] at hrow'
      split at hrow'
      · obtain ⟨row', -, rfl⟩ := Option.map_eq_some_iff.mp hrow'
        exact ⟨rfl, rfl⟩
      · exact h.db row hrow'
  | addUsage id up down =>
    have hk : k ≠ id := fun hk => hop up down (by rw [hk])
    refine ⟨fun e he => h.mem e ?_, h.db⟩
    have he' : (s.mem.addUsage id up down).find k = some e := he
    rwa [InMemoryUserStore.find_addUsage, if_neg hk] at he'
  | flushNow =>
    refine ⟨h.mem, fun row hrow => ?_⟩
    have hsame : ∀ st ∈ s.mem.snapshot, st.user.shortId = k → st.usedUp = 0 ∧ st.usedDown = 0 := by
      intro st hst hstk
      obtain ⟨k', e', hk', rfl⟩ := InMemoryUserStore.mem_snapshot.mp hst
      have hk'' : e'.shortId = k := hstk
      rw [← InMemoryUserStore.shortId_of_find hk', hk''] at hk'
      exact h.mem e' hk'
    have hrow' : Table.find (List.foldl _ s.db s.mem.snapshot) k = some row := hrow
    rw [flush_find hsame] at hrow'
    split at hrow'
    · obtain ⟨row', -, rfl⟩ := Option.map_eq_some_iff.mp hrow'
      exact ⟨rfl, rfl⟩
    · exact h.db row hrow'

theorem Zero.applyAll (h : s.Zero k) {ops : List Op}
    (hops : ∀ op ∈ ops, ∀ up down, op ≠ .addUsage k up down) : (s.applyAll ops).Zero k := by
  induction ops generalizing s with
  | nil => exact h
  | cons op ops ih =>
    exact ih (h.apply (hops op List.mem_cons_self)) fun op' h' => hops op' (List.mem_cons_of_mem op h')

/-- Memory has no such user, and then the table has none either. -/
theorem Agrees.zero_of_absent (h : s.Agrees) (hk : s.mem.find k = none) : s.Zero k := by
  have hdb : s.db.find k = none := by
    have := h k
    unfold Table.defn InMemoryUserStore.defn at this
    rwa [hk, Option.map_none, Option.map_eq_none_iff] at this
  refine ⟨fun e he => ?_, fun row hrow => ?_⟩
  · cases hk.symm.trans he
  · cases hdb.symm.trans hrow

/-- A removal and a reset leave no usage behind. -/
theorem Agrees.zero (h : s.Agrees) {op : Op} (hop : op = .resetUsage k ∨ op = .remove k) :
    (s.apply op).Zero k := by
  cases hk : s.mem.find k with
  | none =>
    refine (h.zero_of_absent hk).apply fun up down he => ?_
    rcases hop with rfl | rfl <;> cases he
  | some e =>
    rcases hop with rfl | rfl
    · refine ⟨fun e' he' => ?_, fun row hrow => ?_⟩
      · have hm : (s.mem.resetUsage k).2.find k = some e' := he'
        rw [InMemoryUserStore.find_resetUsage, if_pos rfl] at hm
        obtain ⟨_, -, rfl⟩ := Option.map_eq_some_iff.mp hm
        exact ⟨rfl, rfl⟩
      · have hrow' : Table.find (if (s.mem.find k).isSome then s.db.setUsage k 0 0 else s.db) k =
          some row := hrow
        rw [hk, if_pos (by rfl)] at hrow'
        unfold Table.setUsage at hrow'
        rw [Table.find_updateWhere, if_pos rfl] at hrow'
        obtain ⟨_, -, rfl⟩ := Option.map_eq_some_iff.mp hrow'
        exact ⟨rfl, rfl⟩
    · refine (h.apply (.remove k)).zero_of_absent ?_
      show (s.mem.remove k).2.find k = none
      rw [InMemoryUserStore.find_remove, if_pos rfl]

theorem exists_user_iff (s : SqliteUserStore) (u : User) :
    (∃ st ∈ s.snapshot, st.user = u) ↔ s.mem.defn u.shortId = some (defOf u) := by
  constructor
  · rintro ⟨st, hst, rfl⟩
    obtain ⟨k, e, he, rfl⟩ := InMemoryUserStore.mem_snapshot.mp hst
    show (s.mem.find e.shortId).map Entry.defn = some e.defn
    rw [InMemoryUserStore.shortId_of_find he, he, Option.map_some]
  · intro h
    obtain ⟨e, he, hdefn⟩ := Option.map_eq_some_iff.mp h
    refine ⟨e.status, InMemoryUserStore.mem_snapshot.mpr ⟨_, e, he, rfl⟩, ?_⟩
    unfold Entry.status
    rw [hdefn, InMemoryUserStore.shortId_of_find he]
    rfl

/-- **Reopening gives the store back.** After any calls and a flush, a store that is opened on the same
table has the same users with the same usage. Without the flush it has the same definitions, and counts
nothing for a user whose usage was reset, or who was removed, after the last bytes counted for them. -/
theorem reopen_refines (db : Table) (ops : List Op) :
    let s := (SqliteUserStore.open db).applyAll ops
    (∀ st, st ∈ (SqliteUserStore.open s.flushNow.db).snapshot ↔ st ∈ s.snapshot) ∧
    (∀ u, (∃ st ∈ (SqliteUserStore.open s.db).snapshot, st.user = u) ↔ ∃ st ∈ s.snapshot, st.user = u) ∧
    ∀ k before op after, ops = before ++ op :: after → (op = .resetUsage k ∨ op = .remove k) →
      (∀ op' ∈ after, ∀ up down, op' ≠ .addUsage k up down) →
      ∀ st ∈ (SqliteUserStore.open s.db).snapshot, st.user.shortId = k →
        st.usedUp = 0 ∧ st.usedDown = 0 := by
  intro s
  have ha : s.Agrees := (agrees_open db).applyAll ops
  refine ⟨fun st => ?_, fun u => ?_, ?_⟩
  · show st ∈ (load s.flushNow.db).snapshot ↔ st ∈ s.mem.snapshot
    rw [InMemoryUserStore.mem_snapshot, InMemoryUserStore.mem_snapshot]
    simp only [ha.find_flushNow]
  · have hdb : (SqliteUserStore.open s.db).mem.defn u.shortId = s.mem.defn u.shortId :=
      (agrees_open s.db u.shortId).symm.trans (ha u.shortId)
    exact (exists_user_iff _ u).trans ((iff_of_eq (by rw [hdb])).trans (exists_user_iff _ u).symm)
  · rintro k before op after rfl hop hafter st hst hk
    obtain ⟨k', e, he, rfl⟩ := InMemoryUserStore.mem_snapshot.mp hst
    have hk' : e.shortId = k := hk
    have he' : (load s.db).find k' = some e := he
    rw [← InMemoryUserStore.shortId_of_find he', hk', find_load] at he'
    obtain ⟨row, hrow, rfl⟩ := Option.map_eq_some_iff.mp he'
    have hz : s.Zero k := by
      have hs : s = (((SqliteUserStore.open db).applyAll before).apply op).applyAll after := by
        show List.foldl _ _ (before ++ op :: after) = _
        rw [List.foldl_append]
        rfl
      rw [hs]
      exact (((agrees_open db).applyAll before).zero hop).applyAll hafter
    obtain ⟨hup, hdown⟩ := hz.db row hrow
    show row.usedUp.toUInt64 = 0 ∧ row.usedDown.toUInt64 = 0
    rw [hup, hdown]
    exact ⟨rfl, rfl⟩

end

end SqliteUserStore

end Leshiy.Reality
