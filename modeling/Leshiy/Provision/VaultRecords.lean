import Leshiy.Lib.Keyed
import Leshiy.Lib.Run
import Leshiy.Provision.Vault

/-!
# The records of a vault

`index`, `upsert`, `get`, `remove`, `remove_id` and `import_records` of `vault.rs`. Records are kept by their
ids. A label is a name for the user only: it is not unique and may be the id of another record.
-/

namespace Leshiy.Provision

open Leshiy.Lib

structure ImportSummary where
  added : Nat
  replaced : Nat
  deriving DecidableEq

namespace Vault

variable {v : Vault} {r : ServerRecord} {key : Str}

/-! ## The operations -/

/-- Where the record with this id is, or the only one with this label. -/
def index (v : Vault) (key : Str) : Option Nat :=
  match v.records.findIdx? fun r => r.id = key with
  | some i => some i
  | none =>
    match v.records.zipIdx.filter fun p => p.1.label = key with
    | [(_, i)] => some i
    | _ => none

def upsert (v : Vault) (rec : ServerRecord) : Vault :=
  match v.records.findIdx? fun r => r.id = rec.id with
  | some slot => { v with records := v.records.set slot rec }
  | none => { v with records := v.records ++ [rec] }

def get (v : Vault) (idOrLabel : Str) : Option ServerRecord :=
  (v.index idOrLabel).bind fun i => v.records[i]?

def remove (v : Vault) (idOrLabel : Str) : Vault × Bool :=
  match v.index idOrLabel with
  | none => (v, false)
  | some i => ({ v with records := v.records.eraseIdx i }, true)

def removeId (v : Vault) (id : Str) : Vault × Bool :=
  let v' := { v with records := v.records.filter fun r => r.id ≠ id }
  (v', v'.records.length ≠ v.records.length)

/-- One turn of the loop in `import_records`. -/
def importRecord (s : Vault × ImportSummary) (rec : ServerRecord) : Vault × ImportSummary :=
  (s.1.upsert rec,
    if s.1.records.any fun r => r.id = rec.id then { s.2 with replaced := s.2.replaced + 1 }
    else { s.2 with added := s.2.added + 1 })

def importRecords (v : Vault) (recs : List ServerRecord) : Vault × ImportSummary :=
  recs.foldl importRecord (v, ⟨0, 0⟩)

/-! ## Runs -/

inductive Op where
  | upsert (rec : ServerRecord)
  | remove (idOrLabel : Str)
  | removeId (id : Str)
  | importRecords (recs : List ServerRecord)

inductive Reply where
  | removed (any : Bool)
  | imported (summary : ImportSummary)
  deriving DecidableEq

def step (v : Vault) : Op → Option (Vault × List Reply)
  | .upsert rec => some (v.upsert rec, [])
  | .remove key => some ((v.remove key).1, [.removed (v.remove key).2])
  | .removeId id => some ((v.removeId id).1, [.removed (v.removeId id).2])
  | .importRecords recs => some ((v.importRecords recs).1, [.imported (v.importRecords recs).2])

theorem step_importRecords (recs : List ServerRecord) : v.step (.importRecords recs) =
    some ((v.importRecords recs).1, [.imported (v.importRecords recs).2]) := rfl

/-! ## Unique ids -/

def ids (records : List ServerRecord) : Finset Str := Keyed.keys ServerRecord.id records

def UniqueIds (v : Vault) : Prop := Keyed.Unique ServerRecord.id v.records

theorem upsert_eq : v.upsert r = { v with records := Keyed.put ServerRecord.id r v.records } := by
  unfold upsert Keyed.put
  cases v.records.findIdx? fun x => x.id = r.id <;> rfl

theorem importRecords_concat {recs : List ServerRecord} :
    v.importRecords (recs ++ [r]) = importRecord (v.importRecords recs) r := by
  simp [importRecords]

theorem importRecords_fst {recs : List ServerRecord} : (v.importRecords recs).1 =
    { v with records := Keyed.putAll ServerRecord.id recs v.records } := by
  induction recs using List.reverseRecOn with
  | nil => rfl
  | append_singleton recs r ih =>
    rw [importRecords_concat, importRecord, upsert_eq, ih, Keyed.putAll_concat]

theorem UniqueIds.remove (hv : v.UniqueIds) : (v.remove key).1.UniqueIds := by
  unfold Vault.remove
  split
  · exact hv
  · exact Keyed.Unique.sublist hv (List.eraseIdx_sublist _ _)

theorem UniqueIds.removeId (hv : v.UniqueIds) : (v.removeId key).1.UniqueIds :=
  Keyed.Unique.sublist hv List.filter_sublist

theorem UniqueIds.step {v' : Vault} {op : Op} {ev : List Reply} (hv : v.UniqueIds)
    (hstep : v.step op = some (v', ev)) : v'.UniqueIds := by
  cases op with
  | upsert rec =>
    cases hstep
    rw [upsert_eq]
    exact Keyed.Unique.put hv
  | remove key =>
    cases hstep
    exact hv.remove
  | removeId id =>
    cases hstep
    exact hv.removeId
  | importRecords recs =>
    cases hstep
    rw [importRecords_fst]
    exact Keyed.Unique.putAll hv

/-! ## Looking up -/

/-- The position that `index` gives has a record. -/
theorem get_of_index {i : Nat} (h : v.index key = some i) :
    ∃ r, v.records[i]? = some r ∧ v.get key = some r := by
  have hget : v.get key = v.records[i]? := by rw [get, h, Option.bind_some]
  suffices hlt : ∃ r, v.records[i]? = some r by
    obtain ⟨r, hr⟩ := hlt
    exact ⟨r, hr, hget.trans hr⟩
  unfold index at h
  split at h
  · next hfind =>
    cases h
    obtain ⟨hi, -⟩ := List.findIdx?_eq_some_iff_getElem.mp hfind
    exact ⟨_, List.getElem?_eq_getElem hi⟩
  · split at h
    · next r j hlabel =>
      cases h
      have hmem : (r, i) ∈ v.records.zipIdx :=
        List.mem_of_mem_filter (hlabel ▸ List.mem_singleton_self (r, i))
      exact ⟨r, List.mk_mem_zipIdx_iff_getElem?.mp hmem⟩
    · cases h

theorem get_of_id (hv : v.UniqueIds) (hr : r ∈ v.records) : v.get r.id = some r := by
  cases hfind : v.records.findIdx? fun x => x.id = r.id with
  | none => exact absurd (List.findIdx?_eq_none_iff.mp hfind r hr) (by simp)
  | some i =>
    have hindex : v.index r.id = some i := by rw [index, hfind]
    obtain ⟨hi, hid, -⟩ := List.findIdx?_eq_some_iff_getElem.mp hfind
    rw [get, hindex, Option.bind_some, List.getElem?_eq_getElem hi,
      List.inj_on_of_nodup_map hv (List.getElem_mem hi) hr (of_decide_eq_true hid)]

theorem get_of_label (hid : ∀ x ∈ v.records, x.id ≠ key) :
    v.get key = some r ↔ v.records.filter (fun x => x.label = key) = [r] := by
  have hfind : (v.records.findIdx? fun x => x.id = key) = none :=
    List.findIdx?_eq_none_iff.mpr fun x hx => decide_eq_false (hid x hx)
  -- the records with the label, without their positions
  have hfst : (v.records.zipIdx.filter fun p => p.1.label = key).map Prod.fst =
      v.records.filter fun x => x.label = key := by
    conv_rhs => rw [← List.zipIdx_map_fst 0 v.records, List.filter_map]
    rfl
  rw [get, index, ← hfst]
  simp only [hfind]
  split
  · next x i hlabel =>
    have hmem : (x, i) ∈ v.records.zipIdx := List.mem_of_mem_filter (hlabel ▸ List.mem_singleton_self (x, i))
    rw [Option.bind_some, List.mk_mem_zipIdx_iff_getElem?.mp hmem, hlabel]
    simp
  · next hnot =>
    refine iff_of_false (by simp) fun heq => ?_
    obtain ⟨⟨x, i⟩, hlabel, -⟩ := List.map_eq_singleton_iff.mp heq
    exact hnot x i hlabel

/-! ## Removing -/

/-- What is left of the vault without the record `r`. -/
def Without (v : Vault) (r : ServerRecord) (v' : Vault) : Prop :=
  ∃ before after, v.records = before ++ r :: after ∧ v' = { v with records := before ++ after }

theorem remove_spec : match v.get key with
    | none => v.remove key = (v, false)
    | some r => (v.remove key).2 = true ∧ v.Without r (v.remove key).1 := by
  cases hindex : v.index key with
  | none => simp [get, remove, hindex]
  | some i =>
    obtain ⟨r, hr, hget⟩ := get_of_index hindex
    obtain ⟨hi, heq⟩ := List.getElem?_eq_some_iff.mp hr
    rw [hget, remove, hindex]
    refine ⟨rfl, v.records.take i, v.records.drop (i + 1), ?_, ?_⟩
    · rw [← heq, List.getElem_cons_drop, List.take_append_drop]
    · simp only [List.eraseIdx_eq_take_drop_succ]

theorem removeId_spec (hv : v.UniqueIds) : match Keyed.lookup ServerRecord.id key v.records with
    | none => v.removeId key = (v, false)
    | some r => (v.removeId key).2 = true ∧ v.Without r (v.removeId key).1 := by
  cases hlookup : Keyed.lookup ServerRecord.id key v.records with
  | none =>
    have hfilter : v.records.filter (fun r => r.id ≠ key) = v.records :=
      List.filter_eq_self.mpr fun r hr => decide_eq_true (Keyed.lookup_eq_none.mp hlookup r hr)
    rw [removeId, hfilter]
    simp
  | some r =>
    obtain ⟨before, after, hsplit⟩ := List.append_of_mem (Keyed.lookup_mem hlookup)
    obtain rfl := Keyed.lookup_key hlookup
    have hfilter : v.records.filter (fun x => x.id ≠ r.id) = before ++ after := by
      rw [UniqueIds, hsplit] at hv
      rw [hsplit, hv.filter_ne]
    rw [removeId, hfilter]
    exact ⟨by simp [hsplit], before, after, hsplit, rfl⟩

/-! ## Importing -/

/-- What importing records makes of a vault and reports. -/
structure Imported (v : Vault) (recs : List ServerRecord) (v' : Vault) (summary : ImportSummary) : Prop where
  added : summary.added = (ids recs \ ids v.records).card
  total : summary.added + summary.replaced = recs.length
  union : ids v'.records = ids v.records ∪ ids recs
  last : ∀ before (r : ServerRecord) after, recs = before ++ r :: after → (∀ x ∈ after, x.id ≠ r.id) →
    v'.get r.id = some r
  places : v.records.map ServerRecord.id <+: v'.records.map ServerRecord.id
  others : ∀ (i : Nat) (r : ServerRecord), v.records[i]? = some r → (∀ x ∈ recs, x.id ≠ r.id) →
    v'.records[i]? = some r
  frame : v' = { v with records := v'.records }

theorem summary_spec (v : Vault) (recs : List ServerRecord) :
    (v.importRecords recs).2.added = (ids recs \ ids v.records).card ∧
    (v.importRecords recs).2.added + (v.importRecords recs).2.replaced = recs.length := by
  induction recs using List.reverseRecOn with
  | nil => simp [importRecords, ids]
  | append_singleton recs r ih =>
    obtain ⟨hadded, htotal⟩ := ih
    have hany : ((v.importRecords recs).1.records.any fun x => x.id = r.id) =
        decide (r.id ∈ Keyed.keys ServerRecord.id (Keyed.putAll ServerRecord.id recs v.records)) := by
      rw [importRecords_fst, Bool.eq_iff_iff]
      simp [Keyed.mem_keys]
    rw [importRecords_concat, importRecord, hany, ids, ids, Keyed.card_new_concat, List.length_append,
      ← htotal]
    unfold ids at hadded
    simp only [decide_eq_true_eq]
    split
    · exact ⟨hadded, (Nat.add_assoc _ _ 1).symm⟩
    · exact ⟨by rw [hadded], Nat.add_right_comm _ 1 _⟩

theorem importRecords_spec {recs : List ServerRecord} (hv : v.UniqueIds) :
    v.Imported recs (v.importRecords recs).1 (v.importRecords recs).2 := by
  obtain ⟨hadded, htotal⟩ := summary_spec v recs
  have hunique : (v.importRecords recs).1.UniqueIds := hv.step (step_importRecords recs)
  refine ⟨hadded, htotal, ?_, ?_, ?_, ?_, ?_⟩
  · rw [importRecords_fst]
    exact Keyed.keys_putAll
  · rintro before r after rfl hafter
    have hnone : Keyed.lookup ServerRecord.id r.id after.reverse = none :=
      Keyed.lookup_eq_none.mpr fun x hx => hafter x (List.mem_reverse.mp hx)
    have hlast : Keyed.lookup ServerRecord.id r.id (v.importRecords (before ++ r :: after)).1.records =
        some r := by
      rw [importRecords_fst, Keyed.lookup_putAll, List.reverse_append, List.reverse_cons, List.append_assoc]
      unfold Keyed.lookup at hnone ⊢
      rw [List.find?_append, hnone]
      simp
    exact get_of_id hunique (Keyed.lookup_mem hlast)
  · rw [importRecords_fst]
    exact Keyed.map_prefix_putAll
  · intro i r hr hne
    rw [importRecords_fst]
    exact Keyed.getElem?_putAll hr hne
  · rw [importRecords_fst]

/-- **A vault is a map from ids to records.** After every run of the operations ids are unique. A query finds
the record with that id, and without one the only record with that label. `remove` removes the record that
the query finds and `remove_id` the one with that id, and nothing else. `import_records` counts the ids it
adds, and the last record of every id is kept. -/
theorem vault_keyed {log : List (Taken Vault Op Reply)} (hrun : Exec step new log v) :
    v.UniqueIds ∧
    (∀ r ∈ v.records, v.get r.id = some r) ∧
    (∀ key, (∀ r ∈ v.records, r.id ≠ key) →
      ∀ r, v.get key = some r ↔ v.records.filter (fun x => x.label = key) = [r]) ∧
    (∀ key, match v.get key with
      | none => v.remove key = (v, false)
      | some r => (v.remove key).2 = true ∧ v.Without r (v.remove key).1) ∧
    (∀ id, match Keyed.lookup ServerRecord.id id v.records with
      | none => v.removeId id = (v, false)
      | some r => (v.removeId id).2 = true ∧ v.Without r (v.removeId id).1) ∧
    ∀ recs, v.Imported recs (v.importRecords recs).1 (v.importRecords recs).2 := by
  have hnew : new.UniqueIds := List.nodup_nil
  have hv : v.UniqueIds := hrun.state_inv hnew fun _ _ _ _ hv hstep => hv.step hstep
  exact ⟨hv, fun r hr => get_of_id hv hr, fun key hid r => get_of_label hid, fun key => remove_spec,
    fun id => removeId_spec hv, fun recs => importRecords_spec hv⟩

/-- A record of the tests, under this id and label. -/
def sample (id label : String) : ServerRecord where
  id := id.toList
  label := label.toList
  host := "203.0.113.5".toList
  port := 22
  sshUser := "root".toList
  sshSecret := .password "hunter2".toList
  hostKeyFp := "SHA256:abc".toList
  publicHost := "203.0.113.5:443".toList
  imageRef := "ghcr.io/x/leshiy:1.5.0".toList
  container := "leshiy".toList
  realityPublicB64 := "PUBKEY".toList
  quic := none
  clients := [⟨"0102030400000000".toList, "self".toList,
    "leshiy://PUBKEY@203.0.113.5:443?sni=x&sid=0102030400000000".toList⟩]
  createdAt := 1700000000
  role := "single".toList
  connectorUri := none
  downstream := none
  useSudo := false

/-- A record whose label is the id of another one is not found by it, and a label that two records have finds
neither. -/
theorem vault_keyed_label : ∃ log v, Exec step new log v ∧
    shown log = [.imported ⟨2, 1⟩, .removed false] ∧ v.get "srv1".toList = some (sample "srv1" "srv1") := by
  obtain ⟨log, v, hrun, hshown, hmem⟩ := exec_reaches step new
    [.importRecords [sample "other" "srv1", sample "srv1" "my-vps", sample "srv1" "srv1"],
      .upsert (sample "third" "my-vps"), .upsert (sample "fourth" "my-vps"), .remove "my-vps".toList]
    (fun log v => shown log = [.imported ⟨2, 1⟩, .removed false] ∧ sample "srv1" "srv1" ∈ v.records)
    (by decide +kernel)
  obtain ⟨-, hget, -⟩ := vault_keyed hrun
  exact ⟨log, v, hrun, hshown, hget _ hmem⟩

end Vault

end Leshiy.Provision
