import Leshiy.Cli.ServerInit
import Leshiy.Lib.Run

/-!
# What the commands of a server do to files

A command may be stopped between any two calls, and any call may fail. What was there before it is there
afterwards, but for the users that were drawn and a certificate of one's own.
-/

namespace Leshiy.Cli

open Leshiy.Lib Leshiy.Reality Str

/-! ## Changes -/

/-- What may become of a file: it is new, an empty one has become a database, users were drawn, or it is a
certificate. -/
inductive Change (drawn : ShortId → Prop) (cert : Prop) : Option Content → Option Content → Prop
  | same (c : Option Content) : Change drawn cert c c
  | created (c : Content) : Change drawn cert none (some c)
  | database (t : Table) : Change drawn cert (some (.bytes [])) (some (.users t))
  | users {t t' : Table} (h : ∀ k, ¬drawn k → t'.find k = t.find k) :
      Change drawn cert (some (.users t)) (some (.users t'))
  | certificate (h : cert) (c c' : Content) : Change drawn cert (some c) (some c')

section

variable {drawn drawn' : ShortId → Prop} {cert cert' : Prop} {c c' c'' : Option Content}

theorem Change.mono (hdrawn : ∀ k, drawn k → drawn' k) (hcert : cert → cert') (h : Change drawn cert c c') :
    Change drawn' cert' c c' := by
  cases h with
  | same => exact .same _
  | created => exact .created _
  | database => exact .database _
  | users h => exact .users fun k hk => h k fun hd => hk (hdrawn k hd)
  | certificate h => exact .certificate (hcert h) _ _

theorem Change.trans (h : Change drawn cert c c') (h' : Change drawn cert c' c'') :
    Change drawn cert c c'' := by
  cases h with
  | same => exact h'
  | created =>
    cases h' with
    | same | database | users | certificate => exact .created _
  | database =>
    cases h' with
    | same | users => exact .database _
    | certificate hc => exact .certificate hc _ _
  | users h =>
    cases h' with
    | same => exact .users h
    | users h' => exact .users fun k hk => (h' k hk).trans (h k hk)
    | certificate hc => exact .certificate hc _ _
  | certificate hc =>
    cases h' with
    | same | database | users | certificate => exact .certificate hc _ _

/-- A file that is not empty, with a place of its own, keeps its bytes. -/
theorem Change.bytes {b : List UInt8} (hb : b ≠ []) (h : Change drawn False (some (.bytes b)) c) :
    c = some (.bytes b) := by
  cases h with
  | same => rfl
  | database => exact absurd rfl hb
  | certificate h => exact h.elim

theorem Change.database_of {t : Table} (h : Change drawn False (some (.users t)) c) :
    ∃ t', c = some (.users t') ∧ ∀ k, ¬drawn k → t'.find k = t.find k := by
  cases h with
  | same => exact ⟨t, rfl, fun _ _ => rfl⟩
  | users h => exact ⟨_, rfl, h⟩
  | certificate h => exact h.elim

end

/-! ## Calls -/

namespace Host

variable {P : Type} {drawn : ShortId → Prop} {cert : P → Prop} {h h₁ h₂ : Host P}

/-- Nothing else has become of the files. -/
def Within (drawn : ShortId → Prop) (cert : P → Prop) (h h' : Host P) : Prop :=
  ∀ p, Change drawn (cert p) (h.disk p) (h'.disk p)

theorem Within.refl (h : Host P) : h.Within drawn cert h := fun _ => .same _

theorem Within.trans (hw : h.Within drawn cert h₁) (hw' : h₁.Within drawn cert h₂) :
    h.Within drawn cert h₂ := fun p => (hw p).trans (hw' p)

theorem Within.mono {drawn' : ShortId → Prop} {cert' : P → Prop} (hdrawn : ∀ k, drawn k → drawn' k)
    (hcert : ∀ p, cert p → cert' p) (hw : h.Within drawn cert h₁) : h.Within drawn' cert' h₁ :=
  fun p => (hw p).mono hdrawn (hcert p)

variable [DecidableEq P] {place : String → P}

theorem disk_put_self (h : Host P) (p : P) (c : Content) : (h.put p c).disk p = some c :=
  Function.update_self ..

theorem disk_put_of_ne {p q : P} (hq : q ≠ p) (h : Host P) (c : Content) : (h.put p c).disk q = h.disk q :=
  Function.update_of_ne hq ..

theorem within_put {p : P} {c : Content} (hc : Change drawn (cert p) (h.disk p) (some c)) :
    h.Within drawn cert (h.put p c) := by
  intro q
  by_cases hq : q = p
  · subst hq
    rwa [disk_put_self]
  · rw [disk_put_of_ne hq]
    exact .same _

theorem within_new {p : P} {c : Content} (hnew : (h.disk p).isNone) : h.Within drawn cert (h.put p c) := by
  refine within_put ?_
  rw [Option.isNone_iff_eq_none.mp hnew]
  exact .created _

/-- A database that is opened, or users in it that were drawn. -/
theorem within_users {path : String} {t t' : Table} (ht : h.usersAt place path = some t)
    (hfind : ∀ k, ¬drawn k → t'.find k = t.find k) :
    h.Within drawn cert (h.put (place path) (.users t')) := by
  refine within_put ?_
  unfold usersAt at ht
  split at ht
  next hd =>
    rw [hd]
    exact .created _
  next hd =>
    rw [hd]
    exact .database _
  next => cases ht
  next t₀ hd =>
    cases ht
    rw [hd]
    exact .users hfind

theorem within_certificate {p : P} {c : Content} (hp : cert p) : h.Within drawn cert (h.put p c) := by
  refine within_put ?_
  cases h.disk p with
  | none => exact .created _
  | some c₀ => exact .certificate hp _ _

/-- The usage that is written is the one that stands there. -/
def UpToDate (t : Table) (snapshot : List UserStatus) : Prop :=
  ∀ st ∈ snapshot, ∀ row, t.find st.user.shortId = some row →
    row.usedUp = st.usedUp.toInt64 ∧ row.usedDown = st.usedDown.toInt64

theorem find_usage {t : Table} {snapshot : List UserStatus} (hup : UpToDate t snapshot) (k : ShortId) :
    (usage t snapshot).find k = t.find k := by
  unfold usage
  induction snapshot generalizing t with
  | nil => rfl
  | cons st l ih =>
    have hsame : ∀ k, (t.setUsage st.user.shortId st.usedUp st.usedDown).find k = t.find k := by
      intro k
      rw [Table.setUsage, Table.find_updateWhere]
      split
      next hk =>
        cases hrow : t.find k with
        | none => rfl
        | some row =>
          obtain ⟨hu, hd⟩ := hup st List.mem_cons_self row (hk ▸ hrow)
          rw [Option.map_some, ← hu, ← hd]
      next => rfl
    rw [List.foldl_cons, ih, hsame]
    intro st' hst' row hrow
    rw [hsame] at hrow
    exact hup st' (List.mem_cons_of_mem _ hst') row hrow

/-- A call by itself stays within what is allowed. -/
def Allows (place : String → P) (drawn : ShortId → Prop) (cert : P → Prop) (h : Host P) : Call → Prop
  | .upsert _ user => drawn user.shortId
  | .flush path snapshot => ∀ t, h.usersAt place path = some t → UpToDate t snapshot
  | .write path _ => cert (place path)
  | _ => True

omit [DecidableEq P] in
theorem usersAt_of_holdsUsers {path : String} {t : Table} (ht : h.holdsUsers place path t) :
    h.usersAt place path = some t := by
  obtain ⟨t', ht', heq⟩ := (Option.any_eq_true _ _).mp ht
  rw [ht', AList.ext (of_decide_eq_true heq)]

/-- What a call has done when it was answered. -/
inductive Effect (place : String → P) (h : Host P) : Call → Host P → Prop
  | unchanged {c : Call} : Effect place h c h
  | opened {path : String} {t : Table} (ht : h.usersAt place path = some t) :
      Effect place h (.openDb path) (h.put (place path) (.users t))
  | upserted {path : String} {user : User} {t : Table} (ht : h.usersAt place path = some t) :
      Effect place h (.upsert path user) (h.put (place path) (.users (t.persistDef user)))
  | flushed {path : String} {snapshot : List UserStatus} {t : Table} (n : Nat)
      (ht : h.usersAt place path = some t) :
      Effect place h (.flush path snapshot) (h.put (place path) (.users (usage t (snapshot.take n))))
  | written {path : String} {data : List UInt8} (n : Nat) :
      Effect place h (.write path data) (h.put (place path) (.bytes (data.take n)))
  | made {path : String} {data : List UInt8} (n : Nat) (hnew : (h.disk (place path)).isNone) :
      Effect place h (.createNew path data) (h.put (place path) (.bytes (data.take n)))
  | warned {text : String} : Effect place h (.warn text) { h with warnings := h.warnings ++ [text] }

theorem effect_of_after {c : Call} {a : Answer} (ha : h.after place c a = some h₁) : Effect place h c h₁ := by
  unfold after at ha
  split at ha
  next => split at ha <;> cases ha; exact .unchanged
  next => cases ha; exact .unchanged
  next =>
    split at ha <;> cases ha
    exact .opened (usersAt_of_holdsUsers ‹_›)
  next => cases ha; exact .unchanged
  next =>
    obtain ⟨t, ht, rfl⟩ := Option.map_eq_some_iff.mp ha
    exact .opened ht
  next =>
    obtain ⟨t, ht, rfl⟩ := Option.map_eq_some_iff.mp ha
    exact .upserted ht
  next => cases ha; exact .unchanged
  next path snapshot =>
    obtain ⟨t, ht, rfl⟩ := Option.map_eq_some_iff.mp ha
    have heffect := @Effect.flushed _ _ place h path snapshot t snapshot.length ht
    rwa [List.take_length] at heffect
  next =>
    obtain ⟨t, ht, rfl⟩ := Option.map_eq_some_iff.mp ha
    exact .flushed _ ht
  next =>
    split at ha
    next => split at ha <;> cases ha; exact .unchanged
    next => cases ha
  next => cases ha; exact .unchanged
  next path data =>
    cases ha
    have heffect := @Effect.written _ _ place h path data data.length
    rwa [List.take_length] at heffect
  next =>
    split at ha <;> cases ha
    · exact .unchanged
    · exact .written _
  next path data =>
    split at ha <;> cases ha
    have heffect := @Effect.made _ _ place h path data data.length ‹_›
    rwa [List.take_length] at heffect
  next =>
    split at ha
    next => cases ha; exact .unchanged
    next => split at ha <;> cases ha; exact .made _ ‹_›
  next => cases ha; exact .unchanged
  next => cases ha; exact .unchanged
  next => cases ha; exact .unchanged
  next => cases ha; exact .unchanged
  next => cases ha; exact .unchanged
  next => cases ha; exact .unchanged
  next => cases ha; exact .warned
  next => cases ha

/-- **What a call leaves**, whatever the answer is. -/
theorem within_after {c : Call} {a : Answer} (hc : h.Allows place drawn cert c)
    (ha : h.after place c a = some h₁) : h.Within drawn cert h₁ := by
  cases effect_of_after ha with
  | unchanged => exact .refl h
  | opened ht => exact within_users ht fun _ _ => rfl
  | upserted ht =>
    refine within_users ht fun k hk => ?_
    rw [Table.find_persistDef, if_neg]
    rintro rfl
    exact hk hc
  | flushed n ht =>
    refine within_users ht fun k _ => find_usage ?_ k
    exact fun st hst => hc _ ht st (List.mem_of_mem_take hst)
  | written n => exact within_certificate hc
  | made n hnew => exact within_new hnew
  | warned => exact .refl h

/-- Only a warning is a warning. -/
theorem warnings_after {c : Call} {a : Answer} (hc : ∀ text, c ≠ .warn text)
    (ha : h.after place c a = some h₁) : h₁.warnings = h.warnings := by
  cases effect_of_after ha with
  | warned => exact absurd rfl (hc _)
  | _ => rfl

/-- A new file is put beside those that are there. -/
theorem disk_createNew {path : String} {data : List UInt8} {a : Answer} {p : P} {c : Content}
    (hp : h.disk p = some c) (ha : h.after place (.createNew path data) a = some h₁) :
    h₁.disk p = some c := by
  cases effect_of_after ha with
  | unchanged => exact hp
  | made n hnew =>
    rw [disk_put_of_ne, hp]
    rintro rfl
    rw [hp] at hnew
    cases hnew

end Host

/-! ## Commands -/

open Host

section

variable {P : Type} [DecidableEq P] {place : String → P} {I : Host P → Prop} {h h₀ : Host P} {α : Type}

theorem ensures_return {a : α} {Q : Except String α → Host P → Prop} (hQ : Q (.ok a) h) :
    Prog.Ensures (after place) I Q (pure a : Command α).run h := hQ

/-- One call, and what is done with its answer. -/
theorem ensures_ask {c : Call} {f : Answer → Command α} {S : Except String α → Host P → Prop}
    (hnext : ∀ a h', h.after place c a = some h' → I h' ∧ Prog.Ensures (after place) I S (f a).run h') :
    Prog.Ensures (after place) I S (ask c >>= f).run h :=
  Prog.Ensures.lift (Prog.Ensures.ask hnext)

theorem ensures_must {c : Call} {text : String} {Q : Except String Unit → Host P → Prop}
    (hI : ∀ a h', h.after place c a = some h' → I h')
    (hfail : ∀ kept h', h.after place c (.failed kept) = some h' → Q (.error text) h')
    (hok : ∀ a h', h.after place c a = some h' → (∀ kept, a ≠ .failed kept) → Q (.ok ()) h') :
    Prog.Ensures (after place) I Q (must c text).run h := by
  refine ensures_ask fun a h' ha => ⟨hI a h' ha, ?_⟩
  split
  next kept => exact hfail kept h' ha
  next hne => exact hok _ h' ha hne

/-- What was read stands there. -/
theorem ensures_readFile {path text : String} {Q : Except String (List UInt8) → Host P → Prop} (hI : I h)
    (hfail : Q (.error text) h) (hok : ∀ b, h.disk (place path) = some (.bytes b) → Q (.ok b) h) :
    Prog.Ensures (after place) I Q (readFile path text).run h := by
  refine ensures_ask fun a h' ha => ?_
  have hsame : h' = h := by
    cases effect_of_after ha
    rfl
  subst hsame
  refine ⟨hI, ?_⟩
  split
  next b =>
    refine hok b ?_
    simp only [after] at ha
    split at ha
    next b' hb =>
      split at ha
      next heq => rw [hb, heq]
      next => cases ha
    next => cases ha
  next => exact hfail

theorem ensures_writeSecretFile {path : String} {data : List UInt8} {Q : Except String Unit → Host P → Prop}
    (hI : ∀ a h', h.after place (.createNew path data) a = some h' → I h')
    (hfail : ∀ text a h', h.after place (.createNew path data) a = some h' → Q (.error text) h')
    (hok : ∀ a h', h.after place (.createNew path data) a = some h' →
      h'.disk (place path) = some (.bytes data) → Q (.ok ()) h') :
    Prog.Ensures (after place) I Q (writeSecretFile path data).run h := by
  refine ensures_ask fun a h' ha => ⟨hI a h' ha, ?_⟩
  split
  next => exact hfail _ _ h' ha
  next => exact hfail _ _ h' ha
  next hnone hsome =>
    refine hok _ h' ha ?_
    cases a with
    | done =>
      simp only [after] at ha
      split at ha <;> cases ha
      exact disk_put_self ..
    | failed kept =>
      cases kept with
      | none => exact (hnone rfl).elim
      | some n => exact (hsome n rfl).elim
    | bytes | table | addrs => cases ha

theorem ensures_openStore {path text : String} {Q : Except String SqliteUserStore → Host P → Prop}
    (hI : ∀ a h', h.after place (.openDb path) a = some h' → I h')
    (hfail : ∀ a h', h.after place (.openDb path) a = some h' → Q (.error text) h')
    (hok : ∀ t h', h.after place (.openDb path) (.table t) = some h' → Q (.ok (.open t)) h') :
    Prog.Ensures (after place) I Q (openStore path text).run h := by
  refine ensures_ask fun a h' ha => ⟨hI a h' ha, ?_⟩
  split
  next t => exact hok t h' ha
  next => exact hfail _ h' ha

end

/-! ## The first user -/

/-- The usage of the users in memory is the one of their rows. -/
def SameUsage (t : Table) (mem : InMemoryUserStore) : Prop :=
  ∀ k e row, mem.find k = some e → t.find k = some row →
    row.usedUp = e.usedUp.toInt64 ∧ row.usedDown = e.usedDown.toInt64

theorem SameUsage.upToDate {t : Table} {mem : InMemoryUserStore} (h : SameUsage t mem) :
    UpToDate t mem.snapshot := by
  intro st hst row hrow
  obtain ⟨k, e, he, rfl⟩ := InMemoryUserStore.mem_snapshot.mp hst
  obtain rfl := InMemoryUserStore.shortId_of_find he
  exact h _ e row he hrow

theorem sameUsage_upsert (t : Table) (user : User) : SameUsage t ((load t).upsert user) := by
  intro k e row he hrow
  rw [InMemoryUserStore.find_upsert, find_load, hrow] at he
  split at he <;> cases he <;> exact ⟨rfl, rfl⟩

theorem sameUsage_persistDef (t : Table) (user : User) :
    SameUsage (t.persistDef user) ((load t).upsert user) := by
  intro k e row he hrow
  rw [InMemoryUserStore.find_upsert, find_load] at he
  rw [Table.find_persistDef] at hrow
  split at hrow
  next hk =>
    rw [if_pos hk] at he
    cases hrow
    cases he
    cases t.find k <;> exact ⟨rfl, rfl⟩
  next hk =>
    rw [if_neg hk, hrow] at he
    cases he
    exact ⟨rfl, rfl⟩

section

variable {P : Type} [DecidableEq P] {place : String → P} {drawn : ShortId → Prop} {cert : P → Prop}
  {h h₀ h₁ : Host P} {dbPath text : String} {user : User}

theorem usersAt_put {t : Table} : (h.put (place dbPath) (.users t)).usersAt place dbPath = some t := by
  rw [usersAt, disk_put_self]

omit [DecidableEq P] in
theorem usersAt_of_disk {t : Table} (hd : h.disk (place dbPath) = some (.users t)) :
    h.usersAt place dbPath = some t := by
  rw [usersAt, hd]

/-- An opened database is what was there. -/
theorem disk_openDb {t : Table} (ha : h.after place (.openDb dbPath) (.table t) = some h₁) :
    h.usersAt place dbPath = some t ∧ h₁.disk (place dbPath) = some (.users t) ∧ h₁.warnings = h.warnings := by
  simp only [after] at ha
  split at ha <;> cases ha
  exact ⟨usersAt_of_holdsUsers ‹_›, disk_put_self .., rfl⟩

/-- The database with the first user in it; if the user could not be written, with a warning only. -/
def Enrolled (place : String → P) (dbPath : String) (user : User) (h h' : Host P) : Prop :=
  ∃ t₀ t, h.usersAt place dbPath = some t₀ ∧ h'.disk (place dbPath) = some (.users t) ∧
    ((h'.warnings = h.warnings ∧ ∀ k, t.find k = (t₀.persistDef user).find k) ∨
      (h'.warnings = h.warnings ++ [writeThroughFailed] ∧ ∀ k, t.find k = t₀.find k))

/-- The flush writes the usage that stands there. -/
theorem ensures_flush {t : Table} {mem : InMemoryUserStore} (hw : h₀.Within drawn cert h)
    (hd : h.disk (place dbPath) = some (.users t)) (hsame : SameUsage t mem) :
    Prog.Ensures (after place) (fun h' => h₀.Within drawn cert h')
      (fun r h' => h₀.Within drawn cert h' ∧ (r = .ok () → h'.warnings = h.warnings ∧
        ∃ t', h'.disk (place dbPath) = some (.users t') ∧ ∀ k, t'.find k = t.find k))
      (must (.flush dbPath mem.snapshot) text).run h := by
  have hflush : ∀ a h', h.after place (.flush dbPath mem.snapshot) a = some h' → h₀.Within drawn cert h' := by
    refine fun a h' ha => hw.trans (within_after ?_ ha)
    intro t' ht'
    obtain rfl := Option.some.inj ((usersAt_of_disk hd).symm.trans ht')
    exact hsame.upToDate
  refine ensures_must hflush (fun kept h' ha => ⟨hflush _ _ ha, nofun⟩) fun a h' ha hne =>
    ⟨hflush _ _ ha, fun _ => ⟨warnings_after (by simp) ha, ?_⟩⟩
  cases a with
  | done =>
    obtain ⟨t', ht', rfl⟩ := Option.map_eq_some_iff.mp ha
    obtain rfl := Option.some.inj ((usersAt_of_disk hd).symm.trans ht')
    exact ⟨_, disk_put_self .., find_usage hsame.upToDate⟩
  | failed kept => exact absurd rfl (hne kept)
  | bytes | table | addrs => cases ha

theorem ensures_provisionUser (hw : h₀.Within drawn cert h) (hdrawn : drawn user.shortId) :
    Prog.Ensures (after place) (fun h' => h₀.Within drawn cert h')
      (fun r h' => h₀.Within drawn cert h' ∧ (r = .ok () → Enrolled place dbPath user h h'))
      (provisionUser dbPath user).run h := by
  have hopen : ∀ a h', h.after place (.openDb dbPath) a = some h' → h₀.Within drawn cert h' :=
    fun a h' ha => hw.trans (within_after (c := .openDb dbPath) trivial ha)
  refine Prog.Ensures.bindE (ensures_openStore hopen (fun a h' ha => ⟨hopen a h' ha, nofun⟩) ?_)
  intro t h₁ ha
  obtain ⟨ht, hd, hwarn⟩ := disk_openDb ha
  refine Prog.Ensures.bindE (ensures_ask fun a h₂ ha₂ => ?_)
  have hw₂ : h₀.Within drawn cert h₂ :=
    (hopen _ _ ha).trans (within_after (c := .upsert dbPath user) hdrawn ha₂)
  refine ⟨hw₂, ?_⟩
  split
  next kept =>
    -- the row is not written, and there is no row for the flush to update
    have hsame : h₂ = h₁ := by
      cases ha₂
      rfl
    subst hsame
    refine ensures_ask fun a₃ h₃ ha₃ => ?_
    cases a₃ with
    | done =>
      cases ha₃
      refine ⟨hw₂, ensures_return ?_⟩
      dsimp only
      refine (ensures_flush (h := { h₂ with warnings := h₂.warnings ++ [writeThroughFailed] }) hw₂ hd
        (sameUsage_upsert t user)).mono ?_
      rintro r h' ⟨hw', hok⟩
      refine ⟨hw', fun hr => ?_⟩
      obtain ⟨hwarn', t', hd', hfind⟩ := hok hr
      exact ⟨t, t', ht, hd', .inr ⟨by rw [hwarn', ← hwarn], hfind⟩⟩
    | bytes | table | addrs | failed => cases ha₃
  next hne =>
    cases a with
    | done =>
      simp only [after] at ha₂
      obtain ⟨t₂, ht₂, rfl⟩ := Option.map_eq_some_iff.mp ha₂
      obtain rfl := Option.some.inj ((usersAt_of_disk hd).symm.trans ht₂)
      refine ensures_return ?_
      dsimp only
      refine (ensures_flush hw₂ (disk_put_self ..) (sameUsage_persistDef t user)).mono ?_
      rintro r h' ⟨hw', hok⟩
      refine ⟨hw', fun hr => ?_⟩
      obtain ⟨hwarn', t', hd', hfind⟩ := hok hr
      exact ⟨t, t', ht, hd', .inl ⟨hwarn'.trans hwarn, hfind⟩⟩
    | failed kept => exact (hne kept rfl).elim
    | bytes | table | addrs => cases ha₂

end

/-! ## The certificate and the config -/

/-- Where a certificate of one's own is written. -/
def ownCertPath (o : InitOptions) : String := beside o.out "leshiy-quic.crt"

/-- The certificate of the operator, or one of one's own. -/
def certPathOf (o : InitOptions) : String := o.quicCert.getD (ownCertPath o)

/-- A certificate of one's own is asked for. -/
def InitOptions.OwnCert (o : InitOptions) : Prop := o.quicListen.isSome ∧ o.quicCert = none

section

variable {P : Type} [DecidableEq P] {place : String → P} {drawn : ShortId → Prop} {cert : P → Prop}
  {h h₀ h₁ h₂ : Host P} {fmt : Formats} {o : InitOptions} {d : Draw} {domain : String} {crt : P}

/-- Nothing is warned of, and but for one place all files are as they were. -/
def Kept (crt : P) (h h' : Host P) : Prop :=
  h'.warnings = h.warnings ∧ ∀ p c, p ≠ crt → h.disk p = some c → h'.disk p = some c

omit [DecidableEq P] in
theorem Kept.refl (h : Host P) : Kept crt h h := ⟨rfl, fun _ _ _ hp => hp⟩

omit [DecidableEq P] in
theorem Kept.trans (hk : Kept crt h h₁) (hk' : Kept crt h₁ h₂) : Kept crt h h₂ :=
  ⟨hk'.1.trans hk.1, fun p c hp hd => hk'.2 p c hp (hk.2 p c hp hd)⟩

theorem kept_put (hc : Content) : Kept crt h (h.put crt hc) :=
  ⟨rfl, fun _ _ hp hd => (disk_put_of_ne hp h hc).trans hd⟩

theorem kept_createNew {path : String} {data : List UInt8} {a : Answer}
    (ha : h.after place (.createNew path data) a = some h₁) : Kept crt h h₁ :=
  ⟨warnings_after (by simp) ha, fun _ _ _ hp => disk_createNew hp ha⟩

/-- The fingerprint is the one of the first certificate that stands there. -/
def Shows (fmt : Formats) (p : P) (f : Block 32) (h : Host P) : Prop :=
  ∃ b der rest, h.disk p = some (.bytes b) ∧ fmt.pemCerts b = some der :: rest ∧ f = fmt.certSha256 der

/-- What is generated is the PEM form of one certificate. -/
def Draw.Proper (fmt : Formats) (d : Draw) : Prop :=
  ∀ domain c, d.selfSigned domain = some c → fmt.pemCerts c.certPem = [some c.der]

theorem ensures_quicFingerprint (hw : h₀.Within drawn cert h) (hboth : o.quicCert.isSome = o.quicKey.isSome)
    (hcert : o.quicCert = none → cert (place (ownCertPath o))) :
    Prog.Ensures (after place) (fun h' => h₀.Within drawn cert h')
      (fun r h' => h₀.Within drawn cert h' ∧ ∀ f, r = .ok f → Kept (place (ownCertPath o)) h h' ∧
        (d.Proper fmt → Shows fmt (place (certPathOf o)) f h'))
      (quicFingerprint fmt o d domain).run h := by
  unfold quicFingerprint
  split
  next cp _ hcp _ =>
    refine Prog.Ensures.bindE (ensures_readFile hw ⟨hw, nofun⟩ fun b hb => ?_)
    dsimp only
    split
    next => exact ⟨hw, nofun⟩
    next => exact ⟨hw, nofun⟩
    next der rest hpem =>
      refine ensures_return ⟨hw, fun f hf => ?_⟩
      cases hf
      have hpath : certPathOf o = cp := by rw [certPathOf, hcp, Option.getD_some]
      exact ⟨.refl h, fun _ => ⟨b, der, rest, hpath ▸ hb, hpem, rfl⟩⟩
  next hnot =>
    have hnone : o.quicCert = none := by
      cases hc : o.quicCert with
      | none => rfl
      | some cp =>
        cases hk : o.quicKey with
        | none => rw [hc, hk] at hboth; cases hboth
        | some kp => exact (hnot cp kp hc hk).elim
    refine Prog.Ensures.bindE (Prog.Ensures.liftE ?_)
    cases hself : d.selfSigned domain with
    | none => exact ⟨hw, nofun⟩
    | some c =>
      have hwrite : ∀ a h', h.after place (.write (ownCertPath o) c.certPem) a = some h' →
          h₀.Within drawn cert h' := fun a h' ha =>
        hw.trans (within_after (c := .write (ownCertPath o) c.certPem) (hcert hnone) ha)
      refine Prog.Ensures.bindE (ensures_must hwrite (fun kept h' ha => ⟨hwrite _ _ ha, nofun⟩) ?_)
      intro a h₁ ha hne
      have hput : h₁ = h.put (place (ownCertPath o)) (.bytes c.certPem) := by
        cases a with
        | done => cases ha; rfl
        | failed kept => exact absurd rfl (hne kept)
        | bytes | table | addrs => cases ha
      have hkey : ∀ a h', h₁.after place (.createNew (beside o.out "leshiy-quic.key") c.keyPem) a = some h' →
          h₀.Within drawn cert h' := fun a h' ha' =>
        (hwrite _ _ ha).trans
          (within_after (c := .createNew (beside o.out "leshiy-quic.key") c.keyPem) trivial ha')
      refine Prog.Ensures.bindE (ensures_writeSecretFile hkey (fun _ _ h' ha' => ⟨hkey _ _ ha', nofun⟩) ?_)
      intro a' h₂ ha' _
      refine ensures_return ⟨hkey _ _ ha', fun f hf => ?_⟩
      cases hf
      have hkept : Kept (place (ownCertPath o)) h h₂ :=
        Kept.trans (hput ▸ kept_put _) (kept_createNew ha')
      refine ⟨hkept, fun hproper => ?_⟩
      have hpath : certPathOf o = ownCertPath o := by rw [certPathOf, hnone, Option.getD_none]
      have hd : h₁.disk (place (ownCertPath o)) = some (.bytes c.certPem) := by
        rw [hput]
        exact disk_put_self ..
      exact ⟨c.certPem, c.der, [], hpath ▸ disk_createNew hd ha', hproper _ _ hself, rfl⟩

/-- What the link says of QUIC is what the certificate that stands there says. -/
def QuicOf (fmt : Formats) (p : P) (o : InitOptions) (h : Host P) (quic : Option QuicEndpoint) : Prop :=
  match o.quicListen with
  | none => quic = none
  | some ql => ∃ f, quic = some ⟨advertisedQuicAddr o.host ql, o.quicDomain.getD (sniOf o), some f⟩ ∧
      Shows fmt p f h

theorem ensures_quicProvision (hw : h₀.Within drawn cert h) (hcert : o.OwnCert → cert (place (ownCertPath o))) :
    Prog.Ensures (after place) (fun h' => h₀.Within drawn cert h')
      (fun r h' => h₀.Within drawn cert h' ∧ ∀ quic, r = .ok quic → Kept (place (ownCertPath o)) h h' ∧
        (d.Proper fmt → QuicOf fmt (place (certPathOf o)) o h' quic))
      (quicProvision fmt o d (sniOf o)).run h := by
  unfold quicProvision QuicOf
  cases hql : o.quicListen with
  | none =>
    refine ensures_return ⟨hw, fun quic hq => ?_⟩
    cases hq
    exact ⟨.refl h, fun _ => rfl⟩
  | some ql =>
    dsimp only
    split
    next => exact ⟨hw, nofun⟩
    next hboth =>
      have hown : o.quicCert = none → cert (place (ownCertPath o)) :=
        fun hnone => hcert ⟨by rw [hql]; rfl, hnone⟩
      refine Prog.Ensures.bindE ((ensures_quicFingerprint hw (by simpa using hboth) hown).mono ?_)
      rintro (err | f) h' ⟨hw', hok⟩
      · exact ⟨hw', nofun⟩
      · refine ensures_return ⟨hw', fun quic hq => ?_⟩
        cases hq
        obtain ⟨hkept, hshows⟩ := hok f rfl
        exact ⟨hkept, fun hproper => ⟨f, rfl, hshows hproper⟩⟩

end

/-! ## `init` -/

def usersPath (o : InitOptions) : String := beside o.out "leshiy-users.db"

section

variable {P : Type} [DecidableEq P] {place : String → P} {drawn : ShortId → Prop} {cert : P → Prop}
  {h h₀ h₁ h₂ : Host P} {fmt : Formats} {x25519 : KeyAgreement (Block 32) (Block 32) (Block 32)}
  {o : InitOptions} {d : Draw} {crt : P} {user : User} {dbPath : String} {f : Block 32} {p : P}
  {quic : Option QuicEndpoint}

omit [DecidableEq P] in
theorem Enrolled.kept (he : Enrolled place dbPath user h h₁) (hne : place dbPath ≠ crt)
    (hk : Kept crt h₁ h₂) : Enrolled place dbPath user h h₂ := by
  obtain ⟨t₀, t, ht₀, hd, hrow⟩ := he
  exact ⟨t₀, t, ht₀, hk.2 _ _ hne hd, hk.1 ▸ hrow⟩

theorem QuicOf.createNew {path : String} {data : List UInt8} {a : Answer} (hq : QuicOf fmt p o h quic)
    (ha : h.after place (.createNew path data) a = some h₁) : QuicOf fmt p o h₁ quic := by
  unfold QuicOf at hq ⊢
  split at hq
  next => exact hq
  next =>
    obtain ⟨f, hquic, b, der, rest, hd, hpem⟩ := hq
    exact ⟨f, hquic, b, der, rest, disk_createNew hd ha, hpem⟩

/-- What a successful `init` leaves: the config, the first user, and the certificate that its link pins. -/
def Installed (fmt : Formats) (x25519 : KeyAgreement (Block 32) (Block 32) (Block 32)) (place : String → P)
    (o : InitOptions) (d : Draw) (h h' : Host P) (out : InitOutput) : Prop :=
  ∃ quic text, fmt.toToml (serverConfig o d quic) = some text ∧ out.uri = firstUri x25519 o d quic ∧
    h'.disk (place o.out) = some (.bytes text) ∧
    (place (usersPath o) ≠ place (ownCertPath o) →
      Enrolled place (usersPath o) (firstUser d.shortId) h h') ∧
    (d.Proper fmt → QuicOf fmt (place (certPathOf o)) o h' quic)

theorem ensures_init (hw : h₀.Within drawn cert h) (hdrawn : drawn d.shortId)
    (hcert : o.OwnCert → cert (place (ownCertPath o))) :
    Prog.Ensures (after place) (fun h' => h₀.Within drawn cert h')
      (fun r h' => h₀.Within drawn cert h' ∧ ∀ out, r = .ok out → Installed fmt x25519 place o d h h' out)
      (init fmt x25519 o d).run h := by
  refine Prog.Ensures.bindE ((ensures_provisionUser hw hdrawn).mono ?_)
  rintro (err | ⟨⟩) h₁ ⟨hw₁, henrolled⟩
  · exact ⟨hw₁, nofun⟩
  dsimp only
  refine Prog.Ensures.bindE (Prog.Ensures.liftE ?_)
  cases checkConnector o.connector with
  | error err => exact ⟨hw₁, nofun⟩
  | ok _ =>
    dsimp only
    refine Prog.Ensures.bindE ((ensures_quicProvision hw₁ hcert).mono ?_)
    rintro (err | quic) h₂ ⟨hw₂, hquic⟩
    · exact ⟨hw₂, nofun⟩
    obtain ⟨hkept, hshows⟩ := hquic quic rfl
    dsimp only
    refine Prog.Ensures.bindE (Prog.Ensures.liftE ?_)
    cases htoml : fmt.toToml (serverConfig o d quic) with
    | none => exact ⟨hw₂, nofun⟩
    | some text =>
      have hnew : ∀ a h', h₂.after place (.createNew o.out text) a = some h' → h₀.Within drawn cert h' :=
        fun a h' ha => hw₂.trans (within_after (c := .createNew o.out text) trivial ha)
      refine Prog.Ensures.bindE (ensures_writeSecretFile hnew (fun _ _ h' ha => ⟨hnew _ _ ha, nofun⟩) ?_)
      intro a h₃ ha hd
      refine ensures_return ⟨hnew _ _ ha, fun out hout => ?_⟩
      cases hout
      refine ⟨quic, text, htoml, rfl, hd, fun hne => ?_, fun hproper => (hshows hproper).createNew ha⟩
      exact (henrolled rfl).kept hne (hkept.trans (kept_createNew ha))

end

/-! ## `run` -/

section

variable {P : Type} [DecidableEq P] {place : String → P} {drawn : ShortId → Prop} {cert : P → Prop}
  {h h₀ h₁ : Host P} {fmt : Formats} {x25519 : KeyAgreement (Block 32) (Block 32) (Block 32)}
  {cfg : RealityServerConfig} {config : String}

/-- The users that are served are those of the database. -/
def ServesUsers (place : String → P) (cfg : RealityServerConfig) (h : Host P) (users : InMemoryUserStore) :
    Prop :=
  ∀ dbPath, cfg.userDb = some dbPath → ∃ t, h.usersAt place dbPath = some t ∧ users = load t

/-- The endpoint of issued links pins the certificate that stands there. -/
def IssuesQuic (fmt : Formats) (place : String → P) (cfg : RealityServerConfig) (h : Host P)
    (quic : Option QuicEndpoint) : Prop :=
  match cfg.quicListen with
  | none => quic = none
  | some ql => ∃ certPath f, cfg.quicCertPath = some certPath ∧ Shows fmt (place certPath) f h ∧
      quic = some ⟨advertisedQuicAddr cfg.host ql, cfg.quicDomain.getD "cdn.example.com", some f⟩

/-- What `run` starts is what the files say. -/
structure Serves (fmt : Formats) (x25519 : KeyAgreement (Block 32) (Block 32) (Block 32)) (place : String → P)
    (h : Host P) (cfg : RealityServerConfig) (serving : Serving) : Prop where
  auth : ∃ shortIds, cfg.toAuthConfig = .ok (serving.auth, shortIds)
  users : ServesUsers place cfg h serving.users
  serverPublic : serving.issuer.serverPublic = x25519.pub serving.auth.staticSecret
  host : serving.issuer.host = cfg.host
  quic : IssuesQuic fmt place cfg h serving.issuer.quic
  sni : serving.issuer.defaultSni = cfg.serverNames.head?

/-- A database may have been opened, and it may have been warned. -/
def Opened (h h' : Host P) : Prop := ∀ p b, h'.disk p = some (.bytes b) → h.disk p = some (.bytes b)

omit [DecidableEq P] in
theorem Shows.opened {p : P} {f : Block 32} (ho : Opened h h₁) (hs : Shows fmt p f h₁) : Shows fmt p f h := by
  obtain ⟨b, der, rest, hd, hpem⟩ := hs
  exact ⟨b, der, rest, ho p b hd, hpem⟩

theorem opened_put {p : P} {t : Table} : Opened h (h.put p (.users t)) := by
  intro q b hq
  by_cases hp : q = p
  · subst hp
    rw [disk_put_self] at hq
    cases hq
  · rwa [disk_put_of_ne hp] at hq

theorem ensures_openUsers (hw : h₀.Within drawn cert h) (shortIds : List ShortId) :
    Prog.Ensures (after place) (fun h' => h₀.Within drawn cert h')
      (fun r h' => h₀.Within drawn cert h' ∧ ∀ users, r = .ok users →
        Opened h h' ∧ ServesUsers place cfg h users)
      (openUsers cfg shortIds).run h := by
  unfold openUsers ServesUsers
  cases cfg.userDb with
  | none => exact ⟨hw, fun _ _ => ⟨fun _ _ hp => hp, nofun⟩⟩
  | some dbPath =>
    dsimp only
    have hopen : ∀ a h', h.after place (.openDb dbPath) a = some h' → h₀.Within drawn cert h' :=
      fun a h' ha => hw.trans (within_after (c := .openDb dbPath) trivial ha)
    refine Prog.Ensures.bindE (ensures_openStore hopen (fun a h' ha => ⟨hopen a h' ha, nofun⟩) ?_)
    intro t h₁ ha
    refine ensures_return ⟨hopen _ _ ha, fun users hu => ?_⟩
    cases hu
    simp only [after] at ha
    split at ha <;> cases ha
    refine ⟨opened_put, fun db hdb => ?_⟩
    cases hdb
    exact ⟨t, usersAt_of_holdsUsers ‹_›, rfl⟩

theorem ensures_connectAny (hw : h₀.Within drawn cert h) (q : QuicEndpoint) (shortId : ShortId)
    (addrs : List String) : Prog.Ensures (after place) (fun h' => h₀.Within drawn cert h')
      (fun _ h' => h' = h) (connectAny q shortId addrs).run h := by
  induction addrs with
  | nil => rfl
  | cons addr rest ih =>
    refine ensures_ask fun a h' ha => ?_
    have hsame : h' = h := by
      cases effect_of_after ha
      rfl
    rw [hsame]
    refine ⟨hw, ?_⟩
    split
    next => exact ih
    next => exact rfl

theorem ensures_connectExit (hw : h₀.Within drawn cert h) (connector : Option String) :
    Prog.Ensures (after place) (fun h' => h₀.Within drawn cert h') (fun _ h' => h' = h)
      (connectExit connector).run h := by
  unfold connectExit
  split
  next => rfl
  next uri =>
    split
    next => rfl
    next u _ =>
      split
      next => rfl
      next q _ =>
        refine ensures_ask fun a h' ha => ?_
        have hsame : h' = h := by
          cases effect_of_after ha
          rfl
        subst hsame
        refine ⟨hw, ?_⟩
        split
        next => rfl
        next => exact ensures_connectAny hw q _ _
        next => rfl

theorem eq_cons_of_mapM_id {items : List (Option (List UInt8))} {der : List UInt8} {rest : List (List UInt8)}
    (hm : items.mapM id = some (der :: rest)) : ∃ more, items = some der :: more := by
  cases items with
  | nil => cases hm
  | cons item more =>
    rw [List.mapM_cons] at hm
    cases item with
    | none => cases hm
    | some der' =>
      obtain ⟨_, hder, hm⟩ := Option.bind_eq_some_iff.mp hm
      cases hder
      obtain ⟨_, _, heq⟩ := Option.bind_eq_some_iff.mp hm
      cases heq
      exact ⟨more, rfl⟩

theorem ensures_startQuic (hw : h₀.Within drawn cert h) :
    Prog.Ensures (after place) (fun h' => h₀.Within drawn cert h')
      (fun r h' => h₀.Within drawn cert h' ∧ ∀ quic, r = .ok quic →
        IssuesQuic fmt place cfg h (quic.map Prod.fst))
      (startQuic fmt cfg).run h := by
  unfold startQuic IssuesQuic
  cases cfg.quicListen with
  | none =>
    refine ensures_return ⟨hw, fun quic hq => ?_⟩
    cases hq
    rfl
  | some ql =>
    dsimp only
    split
    next => exact ⟨hw, nofun⟩
    split
    next => exact ⟨hw, nofun⟩
    next => exact ⟨hw, nofun⟩
    next certPath keyPath hcertPath _ =>
      refine Prog.Ensures.bindE (ensures_readFile hw ⟨hw, nofun⟩ fun b hb => ?_)
      dsimp only
      refine Prog.Ensures.bindE (Prog.Ensures.liftE ?_)
      cases hcerts : (fmt.pemCerts b).mapM id with
      | none => exact ⟨hw, nofun⟩
      | some certs =>
        dsimp only [orFail]
        refine Prog.Ensures.bindE (ensures_readFile hw ⟨hw, nofun⟩ fun keyPem _ => ?_)
        dsimp only
        split
        next => exact ⟨hw, nofun⟩
        split
        next => exact ⟨hw, nofun⟩
        next der rest =>
          obtain ⟨more, hpem⟩ := eq_cons_of_mapM_id hcerts
          have hissues : ∀ quic, (Except.ok (some ((⟨advertisedQuicAddr cfg.host ql,
              cfg.quicDomain.getD "cdn.example.com", some (fmt.certSha256 der)⟩ : QuicEndpoint),
                der :: rest)) : Except String _) = .ok quic →
              ∃ certPath f, cfg.quicCertPath = some certPath ∧ Shows fmt (place certPath) f h ∧
                quic.map Prod.fst = some ⟨advertisedQuicAddr cfg.host ql,
                  cfg.quicDomain.getD "cdn.example.com", some f⟩ := by
            intro quic hq
            cases hq
            exact ⟨certPath, _, hcertPath, ⟨b, der, more, hb, hpem, rfl⟩, rfl⟩
          split
          next =>
            refine ensures_ask fun a h' ha => ?_
            have hw' : h₀.Within drawn cert h' := hw.trans (within_after (c := .warn _) trivial ha)
            exact ⟨hw', ensures_return ⟨hw', hissues⟩⟩
          next => exact ensures_return ⟨hw, hissues⟩

/-- **What `run` starts** is what stands in the files, and the files are left as they are. -/
theorem ensures_run (hw : h₀.Within drawn cert h) :
    Prog.Ensures (after place) (fun h' => h₀.Within drawn cert h')
      (fun r h' => h₀.Within drawn cert h' ∧ ∀ serving, r = .ok serving → ∃ text cfg,
        h.disk (place config) = some (.bytes text) ∧ fmt.fromToml text = some cfg ∧
          Serves fmt x25519 place h cfg serving)
      (run fmt x25519 config).run h := by
  refine Prog.Ensures.bindE (ensures_readFile hw ⟨hw, nofun⟩ fun text htext => ?_)
  dsimp only
  refine Prog.Ensures.bindE (Prog.Ensures.liftE ?_)
  cases hcfg : fmt.fromToml text with
  | none => exact ⟨hw, nofun⟩
  | some cfg =>
    dsimp only [orFail]
    refine Prog.Ensures.bindE (Prog.Ensures.liftE ?_)
    cases hauth : cfg.toAuthConfig with
    | error err => exact ⟨hw, nofun⟩
    | ok res =>
      obtain ⟨auth, shortIds⟩ := res
      dsimp only
      refine Prog.Ensures.bindE ((ensures_openUsers hw shortIds).mono ?_)
      rintro (err | users) h₁ ⟨hw₁, husers⟩
      · exact ⟨hw₁, nofun⟩
      obtain ⟨hopened, hserves⟩ := husers users rfl
      dsimp only
      refine Prog.Ensures.bindE ((ensures_connectExit hw₁ cfg.connector).mono ?_)
      rintro (err | ⟨⟩) h₂ rfl
      · exact ⟨hw₁, nofun⟩
      dsimp only
      refine Prog.Ensures.bindE ((ensures_startQuic hw₁).mono ?_)
      rintro (err | quic) h₃ ⟨hw₃, hquic⟩
      · exact ⟨hw₃, nofun⟩
      dsimp only
      have hbind : ∀ a h', h₃.after place (.bind cfg.listen) a = some h' → h₀.Within drawn cert h' :=
        fun a h' ha => hw₃.trans (within_after (c := .bind cfg.listen) trivial ha)
      refine Prog.Ensures.bindE (ensures_must hbind (fun _ h' ha => ⟨hbind _ _ ha, nofun⟩) ?_)
      intro a h₄ ha _
      refine ensures_return ⟨hbind _ _ ha, fun serving hs => ?_⟩
      cases hs
      refine ⟨text, cfg, htext, hcfg, ⟨shortIds, hauth⟩, hserves, rfl, rfl, ?_, rfl⟩
      have hissues := hquic quic rfl
      unfold IssuesQuic at hissues ⊢
      split at hissues
      next => exact hissues
      next =>
        obtain ⟨certPath, f, hpath, hshows, heq⟩ := hissues
        exact ⟨certPath, f, hpath, hshows.opened hopened, heq⟩

end

/-! ## Runs of commands -/

/-- A command of an operator or a start of the container, with what is drawn in it. -/
inductive Cmd where
  | init (o : InitOptions) (d : Draw)
  | boot (get : String → Option String) (d : Draw)
  | run (config : String)

namespace Cmd

/-- The short id is drawn for the first user. -/
def Draws (k : ShortId) : Cmd → Prop
  | init _ d | boot _ d => d.shortId = k
  | run _ => False

section

variable {P : Type} (place : String → P)

/-- A certificate of one's own may be written there. -/
def Certifies (p : P) : Cmd → Prop
  | init o _ => o.OwnCert ∧ p = place (ownCertPath o)
  | boot get _ => ∃ c, resolveBootConfig get = .ok c ∧ c.options.OwnCert ∧ p = place (ownCertPath c.options)
  | run _ => False

variable [DecidableEq P] (fmt : Formats) (x25519 : KeyAgreement (Block 32) (Block 32) (Block 32))

/-- So far as the answers go, be it to the end of the command or not. -/
def advance (h : Host P) (os : List Answer) : Cmd → Option (Host P)
  | init o d => (Cli.init fmt x25519 o d).run.advance (after place) h os
  | boot get d => (Cli.boot fmt x25519 get d).run.advance (after place) h os
  | run config => (Cli.run fmt x25519 config).run.advance (after place) h os

def step (h : Host P) (a : Cmd × List Answer) : Option (Host P × List Unit) :=
  (a.1.advance place fmt x25519 h a.2).map (·, [])

end

end Cmd

section

variable {P : Type} [DecidableEq P] {place : String → P} {drawn : ShortId → Prop} {cert : P → Prop}
  {h h₀ h₁ : Host P} {fmt : Formats} {x25519 : KeyAgreement (Block 32) (Block 32) (Block 32)}
  {get : String → Option String} {d : Draw} {log : List (Taken (Host P) (Cmd × List Answer) Unit)}

theorem ensures_boot (hw : h₀.Within drawn cert h) (hdrawn : drawn d.shortId)
    (hcert : ∀ c, resolveBootConfig get = .ok c → c.options.OwnCert → cert (place (ownCertPath c.options))) :
    Prog.Ensures (after place) (fun h' => h₀.Within drawn cert h') (fun _ h' => h₀.Within drawn cert h')
      (boot fmt x25519 get d).run h := by
  refine Prog.Ensures.bindE (Prog.Ensures.liftE ?_)
  cases hc : resolveBootConfig get with
  | error err => exact hw
  | ok c =>
    dsimp only
    refine ensures_ask fun a h₁ ha => ?_
    have hw₁ := hw.trans (within_after (c := .exists c.config) trivial ha)
    refine ⟨hw₁, ?_⟩
    split
    next => exact (ensures_run hw₁).mono fun _ _ hr => hr.1
    next =>
      refine Prog.Ensures.bindE ((ensures_init hw₁ hdrawn (hcert c hc)).mono ?_)
      rintro (err | out) h₂ ⟨hw₂, -⟩
      · exact hw₂
      · exact (ensures_run hw₂).mono fun _ _ hr => hr.1

theorem within_step {a : Cmd × List Answer} {ev : List Unit}
    (hs : Cmd.step place fmt x25519 h a = some (h₁, ev)) :
    h.Within (fun k => a.1.Draws k) (fun p => a.1.Certifies place p) h₁ := by
  obtain ⟨h', hadv, heq⟩ := Option.map_eq_some_iff.mp hs
  cases heq
  obtain ⟨cmd, os⟩ := a
  cases cmd with
  | init o d => exact (ensures_init (.refl h) rfl fun ho => ⟨ho, rfl⟩).advance (.refl h) hadv
  | boot get d =>
    exact (ensures_boot (.refl h) rfl fun c hc ho => ⟨c, hc, ho, rfl⟩).advance (.refl h) hadv
  | run config => exact (ensures_run (.refl h)).advance (.refl h) hadv

/-- What a run of commands may do to files. -/
theorem within_run (hr : Exec (Cmd.step place fmt x25519) h log h₁) :
    h.Within (fun k => ∃ t ∈ log, t.act.1.Draws k) (fun p => ∃ t ∈ log, t.act.1.Certifies place p) h₁ := by
  refine hr.inv (P := fun log h' => h.Within (fun k => ∃ t ∈ log, t.act.1.Draws k)
    (fun p => ∃ t ∈ log, t.act.1.Certifies place p) h') (.refl h) ?_
  intro log h' a h₂ ev _ ih hs
  have hgrow : ∀ {Q : Taken (Host P) (Cmd × List Answer) Unit → Prop}, (∃ t ∈ log, Q t) →
      ∃ t ∈ log ++ [⟨h', a, ev⟩], Q t := fun ⟨t, ht, hq⟩ => ⟨t, List.mem_append_left _ ht, hq⟩
  have hlast : (⟨h', a, ev⟩ : Taken (Host P) (Cmd × List Answer) Unit) ∈ log ++ [⟨h', a, ev⟩] :=
    List.mem_append_right _ (List.mem_singleton_self _)
  exact (ih.mono (fun _ => hgrow) fun _ => hgrow).trans
    ((within_step hs).mono (fun _ hk => ⟨_, hlast, hk⟩) fun _ hp => ⟨_, hlast, hp⟩)

end

end Leshiy.Cli
