import Mathlib.Algebra.Order.BigOperators.Group.List
import Mathlib.Data.Rat.Floor
import Leshiy.Lib.TokenBucket
import Leshiy.Reality.Usage

/-!
# Rate limits

The user store of `leshiy-reality/src/user.rs` with the token buckets that `def_of` makes, and
`ratelimit.rs`. A bucket is shared by its `Arc`; here all buckets stand in one list, and an `Arc` is an
index. A session gets clones of the two that the user's definition holds when it is authorized. The
bucket's `f64`s are rationals, and times are in seconds.
-/

namespace Leshiy.Reality

open Leshiy.Lib

/-- The rate of a bucket, in bytes per second. -/
def bucketRate (rate : Nat) : ℚ := max rate 1

def bucketCapacity (rate : Nat) : ℚ := max (bucketRate rate) (1024 * 1024)

theorem bucketRate_pos (rate : Nat) : 0 < bucketRate rate := lt_max_of_lt_right one_pos

/-- `TokenBucket::new`. -/
def newBucket (rate : Nat) (now : ℚ) : TokenBucket ℚ where
  rate := bucketRate rate
  capacity := bucketCapacity rate
  tokens := min (bucketCapacity rate) (bucketRate rate)
  last := now
  rate_nonneg := (bucketRate_pos rate).le
  tokens_nonneg := le_min ((bucketRate_pos rate).le.trans (le_max_left _ _)) (bucketRate_pos rate).le
  tokens_le := min_le_left _ _

/-- What a relay asks for at once at most: a bucket of any rate has room for it. -/
def MAX_BATCH : Nat := 1024 * 1024

/-- What `consume` needs for some bytes. -/
def bucketNeed (b : TokenBucket ℚ) (n : Nat) : ℚ := min n b.capacity

theorem bucketNeed_nonneg (b : TokenBucket ℚ) (n : Nat) : 0 ≤ bucketNeed b n :=
  le_min (Nat.cast_nonneg n) (b.tokens_nonneg.trans b.tokens_le)

/-- The buckets handed to the datapath. -/
structure UserLimits where
  up : Option Nat
  down : Option Nat
  deriving DecidableEq, Repr

def UserLimits.get (l : UserLimits) (d : Dir) : Option Nat := d.pick l.up l.down

/-- The store, the buckets that each user's definition holds, and all buckets that were made. -/
structure LimitedStore where
  users : InMemoryUserStore
  limits : ShortId → UserLimits
  buckets : List (TokenBucket ℚ)

namespace LimitedStore

/-- A bucket for a rate, if there is one. -/
def alloc (buckets : List (TokenBucket ℚ)) (rate : Option UInt32) (now : ℚ) :
    Option Nat × List (TokenBucket ℚ) :=
  match rate with
  | none => (none, buckets)
  | some r => (some buckets.length, buckets ++ [newBucket r.toNat now])

def upsert (s : LimitedStore) (now : ℚ) (user : User) : LimitedStore :=
  let up := alloc s.buckets user.rateUp now
  let down := alloc up.2 user.rateDown now
  { users := s.users.upsert user
    limits := fun id => if id = user.shortId then ⟨up.1, down.1⟩ else s.limits id
    buckets := down.2 }

/-- Everything but an upsert leaves the buckets. -/
def apply (s : LimitedStore) (now : ℚ) : StoreOp → LimitedStore
  | .upsert user => s.upsert now user
  | op => { s with users := op.apply s.users }

def authorize (s : LimitedStore) (id : ShortId) (now : UInt64) : Option UserLimits :=
  match s.users.find id with
  | none => none
  | some e =>
    if InMemoryUserStore.ok e.defn (InMemoryUserStore.saturatingAdd e.usedUp e.usedDown) now then
      some (s.limits id)
    else none

end LimitedStore

/-- An authorized session with its clones. -/
structure LimitedSession where
  id : ShortId
  limits : UserLimits

structure RateSystem where
  store : LimitedStore
  now : ℚ
  sessions : List LimitedSession

/-- `consume` has returned for some bytes of a session, at a time. -/
inductive RateEvent where
  | granted (id : ShortId) (d : Dir) (time : ℚ) (n : Nat)

/-- Time passes; others change the store; a session is authorized; a relay of a session goes through the
loop of `consume` once. -/
inductive RateAct where
  | tick (d : ℚ)
  | admin (op : StoreOp)
  | authorize (id : ShortId) (now : UInt64)
  | consume (k : Nat) (d : Dir) (n : Nat)

namespace RateSystem

def new (now : ℚ) : RateSystem := ⟨⟨.empty, fun _ => ⟨none, none⟩, []⟩, now, []⟩

def setBucket (s : RateSystem) (b : Nat) (bkt : TokenBucket ℚ) : RateSystem :=
  { s with store := { s.store with buckets := s.store.buckets.set b bkt } }

def step (s : RateSystem) : RateAct → Option (RateSystem × List RateEvent)
  | .tick d => if 0 ≤ d then some ({ s with now := s.now + d }, []) else none
  | .admin op => some ({ s with store := s.store.apply s.now op }, [])
  | .authorize id now =>
    match s.store.authorize id now with
    | some limits => some ({ s with sessions := s.sessions ++ [⟨id, limits⟩] }, [])
    | none => none
  | .consume k d n =>
    match s.sessions[k]? with
    | some sess =>
      if n ≤ MAX_BATCH then
        match sess.limits.get d with
        | none => some (s, [.granted sess.id d s.now n])
        | some b =>
          match s.store.buckets[b]? with
          | some bkt =>
            let r := bkt.attempt s.now (bucketNeed bkt n) (bucketNeed_nonneg bkt n)
            some (s.setBucket b r.1, if r.2 then [.granted sess.id d s.now n] else [])
          | none => none
      else none
    | none => none

end RateSystem

/-- The bytes granted to a user in a direction between two times. -/
def grantedIn (id : ShortId) (d : Dir) (t₁ t₂ : ℚ) (evs : List RateEvent) : ℚ :=
  (evs.map fun
    | .granted id' d' time n => if id' = id ∧ d' = d ∧ t₁ ≤ time ∧ time ≤ t₂ then (n : ℚ) else 0).sum

@[simp] theorem grantedIn_append (id : ShortId) (d : Dir) (t₁ t₂ : ℚ) (evs evs' : List RateEvent) :
    grantedIn id d t₁ t₂ (evs ++ evs') = grantedIn id d t₁ t₂ evs + grantedIn id d t₁ t₂ evs' := by
  simp [grantedIn]

@[simp] theorem grantedIn_nil (id : ShortId) (d : Dir) (t₁ t₂ : ℚ) : grantedIn id d t₁ t₂ [] = 0 := rfl

/-! ## Buckets that are made -/

namespace LimitedStore

/-- A bucket of the rate. -/
def Made (s : LimitedStore) (rate : Nat) (b : Nat) : Prop :=
  ∃ bkt, s.buckets[b]? = some bkt ∧ bkt.rate = bucketRate rate ∧ bkt.capacity = bucketCapacity rate

/-- The buckets that were there stay, behind them stand the new ones, refilled now. -/
structure Grows (bs bs' : List (TokenBucket ℚ)) (now : ℚ) : Prop where
  kept : ∀ (b : Nat) (bkt : TokenBucket ℚ), bs[b]? = some bkt → bs'[b]? = some bkt
  fresh : ∀ (b : Nat) (bkt : TokenBucket ℚ), bs'[b]? = some bkt → bs[b]? = some bkt ∨ bkt.last = now

theorem Grows.trans {bs₁ bs₂ bs₃ : List (TokenBucket ℚ)} {now : ℚ} (h : Grows bs₁ bs₂ now)
    (h' : Grows bs₂ bs₃ now) : Grows bs₁ bs₃ now where
  kept := fun b bkt hb => h'.kept b bkt (h.kept b bkt hb)
  fresh := by
    intro b bkt hb
    rcases h'.fresh b bkt hb with hb | hlast
    · exact h.fresh b bkt hb
    · exact .inr hlast

theorem grows_alloc (bs : List (TokenBucket ℚ)) (rate : Option UInt32) (now : ℚ) :
    Grows bs (alloc bs rate now).2 now := by
  cases rate with
  | none => exact ⟨fun _ _ hb => hb, fun _ _ hb => .inl hb⟩
  | some r =>
    refine ⟨?_, ?_⟩
    · intro b bkt hb
      exact (List.getElem?_append_left (List.getElem?_eq_some_iff.mp hb).1).trans hb
    · intro b bkt hb
      have hb' : (bs ++ [newBucket r.toNat now])[b]? = some bkt := hb
      by_cases hlt : b < bs.length
      · rw [List.getElem?_append_left hlt] at hb'
        exact .inl hb'
      · rw [List.getElem?_append_right (Nat.le_of_not_lt hlt)] at hb'
        cases hk : b - bs.length with
        | zero =>
          rw [hk] at hb'
          cases hb'
          exact .inr rfl
        | succ k => simp [hk] at hb'

/-- The bucket of a rate is one that was made for it. -/
theorem alloc_made (bs : List (TokenBucket ℚ)) (r : UInt32) (now : ℚ) :
    ∃ b, (alloc bs (some r) now).1 = some b ∧ (alloc bs (some r) now).2[b]? = some (newBucket r.toNat now) :=
  ⟨bs.length, rfl, List.getElem?_concat_length⟩

theorem grows_upsert (s : LimitedStore) (now : ℚ) (user : User) :
    Grows s.buckets (s.upsert now user).buckets now :=
  (grows_alloc _ _ _).trans (grows_alloc _ _ _)

/-- An upsert gives its user new buckets. -/
theorem upsert_made (s : LimitedStore) (now : ℚ) (user : User) (d : Dir) {r : UInt32}
    (hrate : d.pick user.rateUp user.rateDown = some r) :
    ∃ b, ((s.upsert now user).limits user.shortId).get d = some b ∧
      (s.upsert now user).buckets[b]? = some (newBucket r.toNat now) := by
  cases d with
  | up =>
    have hup : user.rateUp = some r := hrate
    obtain ⟨b, hb, hbkt⟩ := alloc_made s.buckets r now
    refine ⟨b, ?_, ?_⟩
    · simp only [upsert, if_true, hup]
      exact hb
    · refine (grows_alloc _ user.rateDown now).kept b _ ?_
      rw [hup]
      exact hbkt
  | down =>
    have hdown : user.rateDown = some r := hrate
    obtain ⟨b, hb, hbkt⟩ := alloc_made (alloc s.buckets user.rateUp now).2 r now
    refine ⟨b, ?_, ?_⟩
    · simp only [upsert, if_true, hdown]
      exact hb
    · simp only [upsert, hdown]
      exact hbkt

theorem limits_upsert_ne (s : LimitedStore) (now : ℚ) (user : User) {id : ShortId} (h : id ≠ user.shortId) :
    (s.upsert now user).limits id = s.limits id := if_neg h

/-- What the other operations find was there. -/
theorem isSome_find_apply {s : InMemoryUserStore} {op : StoreOp} {id : ShortId}
    (hop : ∀ user, op = .upsert user → id ≠ user.shortId) (h : ((op.apply s).find id).isSome) :
    (s.find id).isSome := by
  cases op with
  | upsert user =>
    have hne := hop user rfl
    rwa [StoreOp.apply, InMemoryUserStore.find_upsert, if_neg hne] at h
  | remove id' =>
    rw [StoreOp.apply, InMemoryUserStore.find_remove] at h
    by_cases hid : id = id'
    · simp [hid] at h
    · rwa [if_neg hid] at h
  | setEnabled id' on =>
    rw [StoreOp.apply, InMemoryUserStore.find_setEnabled] at h
    by_cases hid : id = id' <;> simpa [hid] using h
  | resetUsage id' =>
    rw [StoreOp.apply, InMemoryUserStore.find_resetUsage] at h
    by_cases hid : id = id' <;> simpa [hid] using h
  | addUsage id' up down =>
    rw [StoreOp.apply, InMemoryUserStore.find_addUsage] at h
    by_cases hid : id = id' <;> simpa [hid] using h

end LimitedStore

namespace RateSystem

/-! ## One bucket for all sessions -/

/-- The sessions of the user have the buckets of the user's definition, the one of the direction has the
rate, and what was granted between two times came from it. -/
structure Shared (id : ShortId) (d : Dir) (rate : Nat) (t₁ t₂ w : ℚ) (s : RateSystem) : Prop where
  entry : (s.store.users.find id).isSome → ((s.store.limits id).get d).isSome
  made : ∀ b, (s.store.limits id).get d = some b → s.store.Made rate b
  shared : ∀ sess ∈ s.sessions, sess.id = id →
    sess.limits = s.store.limits id ∧ ((s.store.limits id).get d).isSome
  refilled : ∀ (b : Nat) (bkt : TokenBucket ℚ), s.store.buckets[b]? = some bkt → bkt.last ≤ s.now
  window : ∀ (b : Nat) (bkt : TokenBucket ℚ), (s.store.limits id).get d = some b →
    s.store.buckets[b]? = some bkt → bkt.Window t₁ t₂ w
  unused : (∀ sess ∈ s.sessions, sess.id ≠ id) → w = 0
  nonneg : 0 ≤ w

/-- The user has no session when they are upserted. -/
def unauthorized (id : ShortId) (s : RateSystem) : RateAct → Bool
  | .admin (.upsert user) => decide (user.shortId ≠ id) || s.sessions.all fun sess => decide (sess.id ≠ id)
  | _ => true

/-- The upserts of the user give the direction the rate. -/
def keepsRate (id : ShortId) (d : Dir) (r : UInt32) : RateAct → Bool
  | .admin (.upsert user) =>
    decide (user.shortId ≠ id) || decide (d.pick user.rateUp user.rateDown = some r)
  | _ => true

variable {id : ShortId} {d : Dir} {r : UInt32} {t₁ t₂ w : ℚ} {s s' : RateSystem} {a : RateAct}
  {ev : List RateEvent}

theorem shared_new (now : ℚ) (rate : Nat) : Shared id d rate t₁ t₂ 0 (new now) where
  entry := by
    intro h
    simp [new, InMemoryUserStore.find, InMemoryUserStore.empty] at h
  made := by
    intro b hb
    cases d <;> cases hb
  shared := nofun
  refilled := by
    intro b bkt hb
    simp [new] at hb
  window := by
    intro b bkt hb
    cases d <;> cases hb
  unused := fun _ => rfl
  nonneg := le_refl 0

/-- An operation that leaves the user's buckets. -/
theorem Shared.grown {rate : Nat} (h : s.Shared id d rate t₁ t₂ w) {store : LimitedStore}
    (hfind : (store.users.find id).isSome → (s.store.users.find id).isSome)
    (hlimits : store.limits id = s.store.limits id)
    (hgrows : LimitedStore.Grows s.store.buckets store.buckets s.now) :
    ({ s with store := store } : RateSystem).Shared id d rate t₁ t₂ w where
  entry := fun hsome => hlimits ▸ h.entry (hfind hsome)
  made := by
    intro b hb
    rw [hlimits] at hb
    obtain ⟨bkt, hbkt, hrate⟩ := h.made b hb
    exact ⟨bkt, hgrows.kept b bkt hbkt, hrate⟩
  shared := fun sess hmem hid => hlimits ▸ h.shared sess hmem hid
  refilled := by
    intro b bkt hb
    rcases hgrows.fresh b bkt hb with hb | hlast
    · exact h.refilled b bkt hb
    · exact hlast.le
  window := by
    intro b bkt hb hbkt
    rw [hlimits] at hb
    obtain ⟨bkt', hbkt', -⟩ := h.made b hb
    cases (hgrows.kept b bkt' hbkt').symm.trans hbkt
    exact h.window b bkt hb hbkt'
  unused := h.unused
  nonneg := h.nonneg

/-- The user is upserted before any session of theirs. -/
theorem Shared.upserted (h : s.Shared id d r.toNat t₁ t₂ w) (ht : t₁ ≤ t₂) {user : User}
    (hid : user.shortId = id) (hrate : d.pick user.rateUp user.rateDown = some r)
    (hnone : ∀ sess ∈ s.sessions, sess.id ≠ id) :
    ({ s with store := s.store.upsert s.now user } : RateSystem).Shared id d r.toNat t₁ t₂ w := by
  subst hid
  obtain ⟨b₀, hb₀, hbkt₀⟩ := s.store.upsert_made s.now user d hrate
  refine ⟨fun _ => ?_, ?_, ?_, ?_, ?_, h.unused, h.nonneg⟩
  · show (((s.store.upsert s.now user).limits user.shortId).get d).isSome
    rw [hb₀]
    rfl
  · intro b hb
    cases hb₀.symm.trans hb
    exact ⟨_, hbkt₀, rfl, rfl⟩
  · intro sess hmem hsess
    exact absurd hsess (hnone sess hmem)
  · intro b bkt hb
    rcases (s.store.grows_upsert s.now user).fresh b bkt hb with hb | hlast
    · exact h.refilled b bkt hb
    · exact hlast.le
  · intro b bkt hb hbkt
    cases hb₀.symm.trans hb
    cases hbkt₀.symm.trans hbkt
    rw [h.unused hnone]
    exact TokenBucket.window_zero _ ht

theorem Shared.admin (h : s.Shared id d r.toNat t₁ t₂ w) (ht : t₁ ≤ t₂) {op : StoreOp}
    (hfirst : s.unauthorized id (.admin op) = true) (hkeeps : keepsRate id d r (.admin op) = true) :
    ({ s with store := s.store.apply s.now op } : RateSystem).Shared id d r.toNat t₁ t₂ w := by
  have hother : ∀ op, (∀ user, op ≠ .upsert user) → s.store.apply s.now op =
      { s.store with users := op.apply s.store.users } := by
    intro op hop
    cases op with
    | upsert user => exact absurd rfl (hop user)
    | _ => rfl
  by_cases hop : ∃ user, op = .upsert user
  · obtain ⟨user, rfl⟩ := hop
    by_cases hid : user.shortId = id
    · simp only [unauthorized, keepsRate, hid, ne_eq, not_true_eq_false, decide_false, Bool.false_or,
        List.all_eq_true, decide_eq_true_eq] at hfirst hkeeps
      exact h.upserted ht hid hkeeps hfirst
    · refine h.grown ?_ (LimitedStore.limits_upsert_ne _ _ _ (Ne.symm hid)) (s.store.grows_upsert s.now user)
      intro hsome
      refine @LimitedStore.isSome_find_apply s.store.users (.upsert user) id ?_ hsome
      intro u hu
      cases hu
      exact Ne.symm hid
  · have hno : ∀ user, op ≠ .upsert user := fun user hu => hop ⟨user, hu⟩
    rw [hother op hno]
    refine h.grown ?_ rfl ⟨fun _ _ hb => hb, fun _ _ hb => .inl hb⟩
    exact LimitedStore.isSome_find_apply fun user hu => absurd hu (hno user)

theorem Shared.authorize {rate : Nat} (h : s.Shared id d rate t₁ t₂ w) {id' : ShortId} {now : UInt64}
    {limits : UserLimits} (hauth : s.store.authorize id' now = some limits) :
    ({ s with sessions := s.sessions ++ [⟨id', limits⟩] } : RateSystem).Shared id d rate t₁ t₂ w := by
  refine ⟨h.entry, h.made, ?_, h.refilled, h.window, ?_, h.nonneg⟩
  · intro sess hmem hid
    rcases List.mem_append.mp hmem with hmem | hmem
    · exact h.shared sess hmem hid
    · rw [List.mem_singleton] at hmem
      subst hmem
      obtain rfl : id' = id := hid
      unfold LimitedStore.authorize at hauth
      split at hauth
      · cases hauth
      · rename_i e hfind
        split at hauth
        · cases hauth
          exact ⟨rfl, h.entry (by rw [hfind]; rfl)⟩
        · cases hauth
  · exact fun hnone => h.unused fun sess hmem => hnone sess (List.mem_append_left _ hmem)

theorem grantedIn_singleton (id' : ShortId) (d' : Dir) (time : ℚ) (n : Nat) :
    grantedIn id d t₁ t₂ [.granted id' d' time n] =
      if id' = id ∧ d' = d ∧ t₁ ≤ time ∧ time ≤ t₂ then (n : ℚ) else 0 := by
  simp [grantedIn]

theorem grantedIn_nonneg (evs : List RateEvent) : 0 ≤ grantedIn id d t₁ t₂ evs := by
  refine List.sum_nonneg ?_
  intro x hx
  obtain ⟨e, -, rfl⟩ := List.mem_map.mp hx
  cases e with
  | granted id' d' time n =>
    dsimp only
    split
    · exact Nat.cast_nonneg n
    · exact le_refl _

/-- A batch fits into a bucket of any rate, so that it needs its size. -/
theorem bucketNeed_eq {rate n : Nat} {bkt : TokenBucket ℚ} (hcap : bkt.capacity = bucketCapacity rate)
    (hn : n ≤ MAX_BATCH) : bucketNeed bkt n = n := by
  have hle : (n : ℚ) ≤ bkt.capacity := by
    calc (n : ℚ) ≤ (MAX_BATCH : ℚ) := Nat.cast_le.mpr hn
      _ = 1024 * 1024 := by norm_num [MAX_BATCH]
      _ ≤ bkt.capacity := hcap ▸ le_max_right _ _
  exact min_eq_left hle

/-- One turn of the loop of `consume` in a bucket: what it grants the user is at most what it takes. -/
theorem granted_le_taken (id : ShortId) (d : Dir) (t₁ t₂ : ℚ) {rate n : Nat} {bkt : TokenBucket ℚ}
    (hcap : bkt.capacity = bucketCapacity rate) (hn : n ≤ MAX_BATCH) (id' : ShortId) (d' : Dir) (now : ℚ) :
    grantedIn id d t₁ t₂
        (if (bkt.attempt now (bucketNeed bkt n) (bucketNeed_nonneg bkt n)).2 then [.granted id' d' now n]
          else []) ≤
      if t₁ ≤ now ∧ now ≤ t₂ then bkt.taken now (bucketNeed bkt n) (bucketNeed_nonneg bkt n) else 0 := by
  have htaken := bkt.taken_nonneg now (bucketNeed_nonneg bkt n)
  by_cases hgrant : (bkt.attempt now (bucketNeed bkt n) (bucketNeed_nonneg bkt n)).2
  · have hneed : bkt.taken now (bucketNeed bkt n) (bucketNeed_nonneg bkt n) = n := by
      rw [TokenBucket.taken, if_pos hgrant, bucketNeed_eq hcap hn]
    rw [if_pos hgrant, grantedIn_singleton, hneed]
    by_cases hin : t₁ ≤ now ∧ now ≤ t₂
    · rw [if_pos hin]
      split
      · exact le_refl _
      · exact Nat.cast_nonneg n
    · rw [if_neg hin, if_neg fun h => hin h.2.2]
  · rw [if_neg hgrant, grantedIn_nil]
    split
    · exact htaken
    · exact le_refl _

theorem getElem?_setBucket {b b' : Nat} {bkt bkt' x : TokenBucket ℚ} (hb : s.store.buckets[b]? = some bkt)
    (hx : (s.setBucket b bkt').store.buckets[b']? = some x) :
    (b' = b ∧ x = bkt') ∨ (b' ≠ b ∧ s.store.buckets[b']? = some x) := by
  have hlt : b < s.store.buckets.length := (List.getElem?_eq_some_iff.mp hb).1
  by_cases hb' : b = b'
  · subst hb'
    have hself : (s.setBucket b bkt').store.buckets[b]? = some bkt' := List.getElem?_set_self hlt
    exact .inl ⟨rfl, Option.some.inj (hx.symm.trans hself)⟩
  · have hother : (s.setBucket b bkt').store.buckets[b']? = s.store.buckets[b']? := List.getElem?_set_ne hb'
    exact .inr ⟨Ne.symm hb', hother ▸ hx⟩

/-- One turn of the loop of `consume` of a session with a bucket. -/
theorem Shared.consumed {rate : Nat} (h : s.Shared id d rate t₁ t₂ w) {sess : LimitedSession} {b n : Nat}
    {d' : Dir} {bkt : TokenBucket ℚ} (hsess : sess ∈ s.sessions) (hn : n ≤ MAX_BATCH)
    (hb : sess.limits.get d' = some b) (hbkt : s.store.buckets[b]? = some bkt) :
    (s.setBucket b (bkt.attempt s.now (bucketNeed bkt n) (bucketNeed_nonneg bkt n)).1).Shared id d rate t₁ t₂
      (w + grantedIn id d t₁ t₂
        (if (bkt.attempt s.now (bucketNeed bkt n) (bucketNeed_nonneg bkt n)).2
          then [.granted sess.id d' s.now n] else [])) := by
  obtain ⟨hrate, hcap, hlast, -⟩ := bkt.attempt_spec s.now (bucketNeed bkt n) (bucketNeed_nonneg bkt n)
  have hgnonneg : 0 ≤ grantedIn id d t₁ t₂
      (if (bkt.attempt s.now (bucketNeed bkt n) (bucketNeed_nonneg bkt n)).2
        then [.granted sess.id d' s.now n] else []) := grantedIn_nonneg _
  -- a session of another user, or the other direction, grants the user nothing here
  have hzero : ¬ (sess.id = id ∧ d' = d) → grantedIn id d t₁ t₂
      (if (bkt.attempt s.now (bucketNeed bkt n) (bucketNeed_nonneg bkt n)).2
        then [.granted sess.id d' s.now n] else []) = 0 := by
    intro hne
    split
    · rw [grantedIn_singleton, if_neg fun hin => hne ⟨hin.1, hin.2.1⟩]
    · exact grantedIn_nil _ _ _ _
  generalize hatt : bkt.attempt s.now (bucketNeed bkt n) (bucketNeed_nonneg bkt n) = att at *
  refine ⟨h.entry, ?_, h.shared, ?_, ?_, ?_, add_nonneg h.nonneg hgnonneg⟩
  · intro b₀ hb₀
    obtain ⟨bkt₀, hbkt₀, hmade⟩ := h.made b₀ hb₀
    by_cases heq : b = b₀
    · subst heq
      cases hbkt.symm.trans hbkt₀
      exact ⟨att.1, List.getElem?_set_self (List.getElem?_eq_some_iff.mp hbkt).1, hrate.trans hmade.1,
        hcap.trans hmade.2⟩
    · exact ⟨bkt₀, (List.getElem?_set_ne heq).trans hbkt₀, hmade⟩
  · intro b₀ x hx
    rcases getElem?_setBucket hbkt hx with ⟨rfl, rfl⟩ | ⟨-, hx⟩
    · exact hlast.le
    · exact h.refilled b₀ x hx
  · intro b₀ x hb₀ hx
    rcases getElem?_setBucket hbkt hx with ⟨rfl, rfl⟩ | ⟨hne, hx⟩
    · have hw := (h.window b₀ bkt hb₀ hbkt).attempt (h.refilled b₀ bkt hbkt) (bucketNeed_nonneg bkt n)
      obtain ⟨bkt₀, hbkt₀, -, hcap₀⟩ := h.made b₀ hb₀
      cases hbkt.symm.trans hbkt₀
      have hle := granted_le_taken id d t₁ t₂ hcap₀ hn sess.id d' s.now
      rw [hatt] at hw hle
      exact hw.mono (add_nonneg h.nonneg hgnonneg) (add_le_add_right hle w)
    · rw [hzero, add_zero]
      · exact h.window b₀ x hb₀ hx
      · rintro ⟨hid, rfl⟩
        rw [(h.shared sess hsess hid).1] at hb
        exact hne (Option.some.inj (hb₀.symm.trans hb))
  · intro hnone
    rw [hzero, add_zero, h.unused hnone]
    exact fun hin => hnone sess hsess hin.1

theorem Shared.step (h : s.Shared id d r.toNat t₁ t₂ w) (ht : t₁ ≤ t₂) (hfirst : s.unauthorized id a = true)
    (hkeeps : keepsRate id d r a = true) (hs : s.step a = some (s', ev)) :
    s'.Shared id d r.toNat t₁ t₂ (w + grantedIn id d t₁ t₂ ev) := by
  cases a with simp only [RateSystem.step] at hs
  | tick dt =>
    split at hs
    · rename_i hdt
      cases hs
      rw [grantedIn_nil, add_zero]
      refine ⟨h.entry, h.made, h.shared, ?_, h.window, h.unused, h.nonneg⟩
      exact fun b bkt hb => (h.refilled b bkt hb).trans (le_add_of_nonneg_right hdt)
    · cases hs
  | admin op =>
    cases hs
    rw [grantedIn_nil, add_zero]
    exact h.admin ht hfirst hkeeps
  | authorize id' now =>
    split at hs
    · rename_i limits hauth
      cases hs
      rw [grantedIn_nil, add_zero]
      exact h.authorize hauth
    · cases hs
  | consume k d' n =>
    split at hs
    · rename_i sess hk
      have hsess := List.mem_of_getElem? hk
      split at hs
      · rename_i hn
        split at hs
        · rename_i hlimit
          cases hs
          have hzero : grantedIn id d t₁ t₂ [.granted sess.id d' s.now n] = 0 := by
            rw [grantedIn_singleton, if_neg]
            rintro ⟨hid, rfl, -⟩
            obtain ⟨hlimits, hsome⟩ := h.shared sess hsess hid
            rw [← hlimits, hlimit] at hsome
            cases hsome
          rw [hzero, add_zero]
          exact h
        · rename_i b hb
          split at hs
          · rename_i bkt hbkt
            cases hs
            exact h.consumed hsess hn hb hbkt
          · cases hs
      · cases hs
    · cases hs

variable {log : List (Taken RateSystem RateAct RateEvent)} {start : ℚ}

theorem shared_run (h : Exec step (new start) log s) (ht : t₁ ≤ t₂)
    (hkeeps : ∀ t ∈ log, keepsRate id d r t.act = true)
    (hfirst : Steps (fun s a => s.unauthorized id a = true) log) :
    s.Shared id d r.toNat t₁ t₂ (grantedIn id d t₁ t₂ (shown log)) := by
  induction h with
  | nil => exact shared_new start r.toNat
  | @snoc log s₁ s₂ a ev hrun hs ih =>
    obtain ⟨hlog, ha⟩ := steps_snoc.mp hfirst
    have h₁ := ih (fun t hmem => hkeeps t (List.mem_append_left _ hmem)) hlog
    rw [shown_snoc, grantedIn_append]
    exact h₁.step ht ha (hkeeps ⟨s₁, a, ev⟩ (by simp)) hs

theorem bucketCapacity_nonneg (rate : Nat) : 0 ≤ bucketCapacity rate :=
  (bucketRate_pos rate).le.trans (le_max_left _ _)

/-- **The rate is the user's**, not a session's, in every run in which the user is not upserted once a
session of theirs was authorized: all sessions hold the same buckets, and what they are granted together in
a window of time is a full bucket and the rate over the window at most. -/
theorem rate_per_user (id : ShortId) (d : Dir) (r : UInt32) (h : Exec step (new start) log s)
    (hkeeps : ∀ t ∈ log, keepsRate id d r t.act = true)
    (hfirst : Steps (fun s a => s.unauthorized id a = true) log) :
    (∀ sess ∈ s.sessions, ∀ sess' ∈ s.sessions, sess.id = id → sess'.id = id → sess.limits = sess'.limits) ∧
    (∀ sess ∈ s.sessions, sess.id = id → ∃ b, sess.limits.get d = some b ∧ s.store.Made r.toNat b) ∧
    ∀ t₁ t₂, t₁ ≤ t₂ → grantedIn id d t₁ t₂ (shown log) ≤
      bucketCapacity r.toNat + bucketRate r.toNat * (t₂ - t₁) := by
  have hsh : s.Shared id d r.toNat 0 0 (grantedIn id d 0 0 (shown log)) :=
    shared_run h (le_refl 0) hkeeps hfirst
  have hbucket : ∀ sess ∈ s.sessions, sess.id = id → ∃ b, sess.limits.get d = some b ∧ s.store.Made r.toNat b := by
    intro sess hmem hid
    obtain ⟨hlimits, hsome⟩ := hsh.shared sess hmem hid
    obtain ⟨b, hb⟩ := Option.isSome_iff_exists.mp hsome
    exact ⟨b, hlimits ▸ hb, hsh.made b hb⟩
  refine ⟨?_, hbucket, ?_⟩
  · intro sess hmem sess' hmem' hid hid'
    rw [(hsh.shared sess hmem hid).1, (hsh.shared sess' hmem' hid').1]
  · intro t₁ t₂ ht
    have hw := shared_run h ht hkeeps hfirst
    by_cases hsess : ∃ sess ∈ s.sessions, sess.id = id
    · obtain ⟨sess, hmem, hid⟩ := hsess
      obtain ⟨hlimits, -⟩ := hw.shared sess hmem hid
      obtain ⟨b, hb, bkt, hbkt, hrate, hcap⟩ := hbucket sess hmem hid
      have hbound := (hw.window b bkt (hlimits ▸ hb) hbkt).bounded
      rwa [hrate, hcap, mul_comm] at hbound
    · have hzero := hw.unused fun sess hmem hid => hsess ⟨sess, hmem, hid⟩
      have hfill := mul_nonneg (bucketRate_pos r.toNat).le (sub_nonneg.mpr ht)
      have hcap := bucketCapacity_nonneg r.toNat
      linarith

/-- A user with 1 MiB per second up. -/
def metered : User := ⟨Block.fill 8 2, true, none, none, some 1048576, none⟩

/-- Two sessions of the user, one bucket: the second waits for the first. -/
theorem rate_per_user_two : ∃ log s, Exec step (new 0) log s ∧
    (s.sessions.map fun sess => sess.limits) = [⟨some 0, none⟩, ⟨some 0, none⟩] ∧
    ∀ t₁ t₂, t₁ ≤ t₂ → grantedIn metered.shortId .up t₁ t₂ (shown log) ≤
      bucketCapacity 1048576 + bucketRate 1048576 * (t₂ - t₁) := by
  obtain ⟨log, s, hrun, hkeeps, hfirst, hsessions⟩ := exec_reaches step (new 0)
    [.admin (.upsert metered), .authorize metered.shortId 0, .authorize metered.shortId 0,
      .consume 0 .up 1048576, .consume 1 .up 1048576, .tick 1, .consume 1 .up 1048576]
    (fun log s => (∀ t ∈ log, keepsRate metered.shortId .up 1048576 t.act = true) ∧
      Steps (fun s a => s.unauthorized metered.shortId a = true) log ∧
      (s.sessions.map fun sess => sess.limits) = [⟨some 0, none⟩, ⟨some 0, none⟩]) (by decide)
  exact ⟨log, s, hrun, hsessions, (rate_per_user _ _ _ hrun hkeeps hfirst).2.2⟩

/-- The user is upserted with the same rate between two authorizations: each session has a full bucket. -/
theorem rate_not_per_user :
    ¬ ∀ id d r start log s, Exec step (new start) log s → (∀ t ∈ log, keepsRate id d r t.act = true) →
      ∀ t₁ t₂, t₁ ≤ t₂ → grantedIn id d t₁ t₂ (shown log) ≤
        bucketCapacity r.toNat + bucketRate r.toNat * (t₂ - t₁) := by
  intro hclaim
  obtain ⟨log, s, hrun, hkeeps, hgranted⟩ := exec_reaches step (new 0)
    [.admin (.upsert metered), .authorize metered.shortId 0, .admin (.upsert metered),
      .authorize metered.shortId 0, .consume 0 .up 1048576, .consume 1 .up 1048576]
    (fun log _ => (∀ t ∈ log, keepsRate metered.shortId .up 1048576 t.act = true) ∧
      grantedIn metered.shortId .up 0 0 (shown log) = 2097152) (by decide +kernel)
  have hle := hclaim _ _ _ _ _ _ hrun hkeeps 0 0 (le_refl 0)
  have hrate : (1048576 : UInt32).toNat = 1048576 := rfl
  rw [hgranted, hrate] at hle
  norm_num [bucketCapacity, bucketRate] at hle

end RateSystem

end Leshiy.Reality
