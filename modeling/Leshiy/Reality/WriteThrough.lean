import Leshiy.Lib.Run
import Leshiy.Reality.SqliteStore

/-!
# Concurrent calls of the persistent store

A method of `SqliteUserStore` that writes through changes memory under one lock and then runs its
statement under another. Between the two any other call may do either. The statements that are still to
be run stand in the order in which their calls changed memory; which of them gets the lock of the table
next is open.
-/

namespace Leshiy.Reality

open Leshiy.Lib

inductive Call where
  | upsert (user : User)
  | remove (id : ShortId)
  | setEnabled (id : ShortId) (on : Bool)
  | resetUsage (id : ShortId)
  deriving DecidableEq

namespace Call

/-- The first half of a call: memory afterwards, and the statement that is to follow. -/
def memory (mem : InMemoryUserStore) : Call → InMemoryUserStore × Option Stmt
  | .upsert user => (mem.upsert user, some (.persistDef user))
  | .remove id =>
    let r := mem.remove id
    (r.2, if r.1 then some (.delete id) else none)
  | .setEnabled id on =>
    let r := mem.setEnabled id on
    (r.2, if r.1 then some (.setEnabled id on) else none)
  | .resetUsage id =>
    let r := mem.resetUsage id
    (r.2, if r.1 then some (.resetUsage id) else none)

def op : Call → SqliteUserStore.Op
  | .upsert user => .upsert user
  | .remove id => .remove id
  | .setEnabled id on => .setEnabled id on
  | .resetUsage id => .resetUsage id

/-- The two halves, one right after the other, are the method. -/
theorem apply_op (s : SqliteUserStore) (c : Call) :
    s.apply c.op = ⟨(c.memory s.mem).1, ((c.memory s.mem).2.map (Stmt.run s.db)).getD s.db⟩ := by
  have hthrough : ∀ (r : Bool × InMemoryUserStore) (st : Stmt),
      (SqliteUserStore.through r s.db st).2 =
        ⟨r.2, ((if r.1 then some st else none : Option Stmt).map (Stmt.run s.db)).getD s.db⟩ := by
    intro r st
    unfold SqliteUserStore.through
    cases r.1 <;> rfl
  cases c with
  | upsert user => rfl
  | remove id => exact hthrough _ _
  | setEnabled id on => exact hthrough _ _
  | resetUsage id => exact hthrough _ _

end Call

/-- The id whose row a statement may change. -/
def Stmt.id : Stmt → ShortId
  | .persistDef user => user.shortId
  | .delete id | .setEnabled id _ | .resetUsage id => id

theorem Stmt.onDef_of_ne {st : Stmt} {k : ShortId} (h : k ≠ st.id) (d : Option Def) :
    st.onDef k d = d := by
  cases st with
  | persistDef user => exact if_neg h
  | delete id => exact if_neg h
  | setEnabled id on => exact if_neg h
  | resetUsage id => rfl

/-- What the first half of a call does to the definitions, its statement will do to the table. -/
theorem Call.memory_defn (mem : InMemoryUserStore) (c : Call) (k : ShortId) :
    (c.memory mem).1.defn k = (c.memory mem).2.toList.foldl (Stmt.onDef k) (mem.defn k) := by
  have habsent : ∀ {id : ShortId} {r : Bool × InMemoryUserStore} {st : Stmt},
      r.1 = (mem.find id).isSome → st.id = id → (∀ k, r.2.defn k = st.onDef k (mem.defn k)) →
      ((mem.find id).isSome = false → st.onDef id none = none) →
      r.2.defn k = (if r.1 then some st else none : Option Stmt).toList.foldl (Stmt.onDef k)
        (mem.defn k) := by
    intro id r st hr hid hmem hnone
    by_cases hfound : r.1 = true
    · rw [if_pos hfound]
      exact hmem k
    · have hfalse : (mem.find id).isSome = false := hr ▸ Bool.eq_false_iff.mpr hfound
      rw [if_neg hfound, hmem k]
      by_cases hk : k = id
      · subst hk
        rw [SqliteUserStore.onDef_of_absent hfalse]
        exact hnone hfalse
      · exact Stmt.onDef_of_ne (hid.symm ▸ hk) _
  cases c with
  | upsert user => exact mem.defn_upsert k user
  | remove id =>
    refine habsent rfl rfl (mem.defn_remove id) fun _ => ?_
    exact if_pos rfl
  | setEnabled id on =>
    refine habsent rfl rfl (fun k => mem.defn_setEnabled id k on) fun _ => ?_
    exact if_pos rfl
  | resetUsage id => exact habsent rfl rfl (mem.defn_resetUsage id) fun _ => rfl

/-! ## Runs -/

/-- The store, the calls that have not touched memory yet, and the statements to be run. -/
structure WriteThrough where
  mem : InMemoryUserStore
  db : Table
  waiting : List Call
  pending : List Stmt

namespace WriteThrough

inductive Act where
  | issue (c : Call)
  | memory (i : Nat)
  | database (i : Nat)
  deriving DecidableEq

def start (db : Table) : WriteThrough := ⟨load db, db, [], []⟩

def step (s : WriteThrough) : Act → Option (WriteThrough × List Unit)
  | .issue c => some ({ s with waiting := s.waiting ++ [c] }, [])
  | .memory i =>
    (s.waiting[i]?).map fun c =>
      let r := c.memory s.mem
      ({ s with mem := r.1, waiting := s.waiting.eraseIdx i, pending := s.pending ++ r.2.toList }, [])
  | .database i =>
    (s.pending[i]?).map fun st =>
      ({ s with db := st.run s.db, pending := s.pending.eraseIdx i }, [])

/-- A statement is not run before one on the same user whose call changed memory earlier. -/
def InOrder (s : WriteThrough) : Act → Prop
  | .database i =>
    ∀ st ∈ s.pending[i]?, ∀ st' ∈ s.pending.take i, st'.id ≠ st.id
  | _ => True

instance (s : WriteThrough) (a : Act) : Decidable (s.InOrder a) :=
  match a with
  | .issue _ | .memory _ => isTrue trivial
  | .database i => inferInstanceAs (Decidable (∀ st ∈ s.pending[i]?, ∀ st' ∈ s.pending.take i, st'.id ≠ st.id))

/-- The table lags behind memory by the statements that are to be run. -/
def Lags (s : WriteThrough) : Prop :=
  ∀ k, s.pending.foldl (Stmt.onDef k) (s.db.defn k) = s.mem.defn k

theorem foldl_onDef_of_ne {l : List Stmt} {k : ShortId} (h : ∀ st ∈ l, st.id ≠ k) (d : Option Def) :
    l.foldl (Stmt.onDef k) d = d := by
  induction l generalizing d with
  | nil => rfl
  | cons st l ih =>
    rw [List.foldl_cons, Stmt.onDef_of_ne (Ne.symm (h st List.mem_cons_self))]
    exact ih (fun st' h' => h st' (List.mem_cons_of_mem st h')) d

theorem lags_start (db : Table) : (start db).Lags := SqliteUserStore.agrees_open db

theorem Lags.step {s s' : WriteThrough} {a : Act} {ev : List Unit} (h : s.Lags) (hok : s.InOrder a)
    (hs : s.step a = some (s', ev)) : s'.Lags := by
  intro k
  cases a with
  | issue c =>
    cases hs
    exact h k
  | memory i =>
    obtain ⟨c, -, he⟩ := Option.map_eq_some_iff.mp hs
    cases he
    dsimp only
    rw [List.foldl_append, h k]
    exact (c.memory_defn s.mem k).symm
  | database i =>
    obtain ⟨st, hst, he⟩ := Option.map_eq_some_iff.mp hs
    cases he
    have hearlier := hok st hst
    obtain ⟨hi, rfl⟩ := List.getElem?_eq_some_iff.mp hst
    have hsplit : s.pending = s.pending.take i ++ s.pending[i] :: s.pending.drop (i + 1) := by
      rw [List.getElem_cons_drop, List.take_append_drop]
    have hk := h k
    dsimp only
    rw [List.eraseIdx_eq_take_drop_succ, Table.defn_run, List.foldl_append]
    rw [hsplit, List.foldl_append, List.foldl_cons] at hk
    by_cases hid : k = s.pending[i].id
    · -- nothing before it is about this user
      subst hid
      rw [foldl_onDef_of_ne hearlier] at hk ⊢
      exact hk
    · rw [Stmt.onDef_of_ne hid] at hk ⊢
      exact hk

/-- **Without overtaking, the table ends up with what memory holds.** In a run in which the statements on
one user are run in the order in which their calls changed memory, once all calls have returned a store
that is opened on the table has the same users with the same definitions. -/
theorem persisted_of_inOrder {db : Table} {log : List (Taken WriteThrough Act Unit)} {s : WriteThrough}
    (h : Exec step (start db) log s) (hok : Steps InOrder log)
    (hret : s.waiting = [] ∧ s.pending = []) (u : User) :
    (∃ st ∈ (SqliteUserStore.open s.db).snapshot, st.user = u) ↔ ∃ st ∈ s.mem.snapshot, st.user = u := by
  have hlags : s.Lags := by
    refine h.inv (P := fun log s => Steps InOrder log → s.Lags) (fun _ => lags_start db) ?_ hok
    intro log s a s' ev _ ih hs hok
    obtain ⟨hok', ha⟩ := steps_snoc.mp hok
    exact (ih hok').step ha hs
  have hagrees : (⟨s.mem, s.db⟩ : SqliteUserStore).Agrees := by
    intro k
    have hk := hlags k
    rwa [hret.2] at hk
  have hdb : (SqliteUserStore.open s.db).mem.defn u.shortId = s.mem.defn u.shortId :=
    (SqliteUserStore.agrees_open s.db u.shortId).symm.trans (hagrees u.shortId)
  rw [SqliteUserStore.exists_user_iff, hdb]
  exact (SqliteUserStore.exists_user_iff ⟨s.mem, s.db⟩ u).symm

/-- A user without limits. -/
def someUser (enabled : Bool) : User := ⟨Block.fill 8 1, enabled, none, none, none, none⟩

/-- Two calls whose statements are run in their order. -/
theorem persisted_of_two_upserts :
    ∃ log s, Exec step (start ∅) log s ∧ Steps InOrder log ∧ (s.waiting = [] ∧ s.pending = []) ∧
      ((∃ st ∈ (SqliteUserStore.open s.db).snapshot, st.user = someUser false) ↔
        ∃ st ∈ s.mem.snapshot, st.user = someUser false) := by
  obtain ⟨log, s, h, hok, hret⟩ := exec_reaches step (start ∅)
    [.issue (.upsert (someUser true)), .issue (.upsert (someUser false)), .memory 0, .memory 0,
      .database 0, .database 0]
    (fun log s => Steps InOrder log ∧ s.waiting = [] ∧ s.pending = []) (by decide)
  exact ⟨log, s, h, hok, hret, persisted_of_inOrder h hok hret _⟩

/-- Two upserts of one user reach memory in one order and the table in the other: the user is disabled,
and is enabled again after a restart. -/
theorem not_persisted :
    ¬∀ db log s, Exec step (start db) log s → s.waiting = [] ∧ s.pending = [] →
      ∀ u, (∃ st ∈ (SqliteUserStore.open s.db).snapshot, st.user = u) ↔
        ∃ st ∈ s.mem.snapshot, st.user = u := by
  intro hclaim
  obtain ⟨log, s, h, hret, hdb, hmem⟩ := exec_reaches step (start ∅)
    [.issue (.upsert (someUser true)), .issue (.upsert (someUser false)), .memory 0, .memory 0,
      .database 1, .database 0]
    (fun _ s => (s.waiting = [] ∧ s.pending = []) ∧
      (SqliteUserStore.open s.db).snapshot.map UserStatus.user = [someUser true] ∧
      s.mem.snapshot.map UserStatus.user = [someUser false]) (by decide)
  have hin : ∃ st ∈ s.mem.snapshot, st.user = someUser false := by
    rw [← List.mem_map, hmem]
    exact List.mem_singleton.mpr rfl
  have hout := (hclaim ∅ log s h hret (someUser false)).mpr hin
  rw [← List.mem_map, hdb] at hout
  exact absurd (List.mem_singleton.mp hout) (by decide)

end WriteThrough

end Leshiy.Reality
