import Leshiy.Lib.Run

/-!
# Refreshing rule subscriptions

`refresh_subs` of `src-tauri/src/lib.rs`. A refresh copies the whole cache, awaits one fetch after the
other, writes the whole copy back, and then serialises the cache and writes the file, the last two
without holding the lock from one to the other. Any number of refreshes go on at once.

A copy of the cache carries with each entry the number of the fetch that brought it, zero for what was
there before. Nothing in the code sees these numbers; they say which of two entries is the newer one.
-/

namespace Leshiy.Gui

open Leshiy.Lib

/-- What the settings say of a rule list, as far as a refresh reads it. -/
structure Subscription where
  id : String
  enabled : Bool
  deriving DecidableEq

/-- The cache, or a copy of it, with the number of the fetch of each entry. -/
structure Copy (E : Type) where
  entries : String → Option E
  age : String → Nat

namespace Copy

variable {E : Type}

def insert (c : Copy E) (id : String) (e : E) (n : Nat) : Copy E where
  entries x := if x = id then some e else c.entries x
  age x := if x = id then n else c.age x

end Copy

inductive Fetch (E : Type) where
  | entry (e : E)
  | notModified
  | failed

/-- Where a refresh is: the fetches that are left and its copy; behind writing back; with the bytes for
the file. -/
inductive Refresh (E : Type) where
  | fetching (left : List String) (copy : Copy E)
  | stored
  | serialised (bytes : Copy E)

structure App (E : Type) where
  subs : List Subscription
  subCache : Copy E
  file : Option (Copy E)
  refreshes : Nat → Option (Refresh E)
  fetches : Nat

inductive Action (E : Type) where
  | settings (subs : List Subscription)
  /-- The copies are taken; `client` is whether an HTTP client can be built. -/
  | start (t : Nat) (onlyId : Option String) (client : Bool)
  | fetched (t : Nat) (result : Fetch E)
  | store (t : Nat)
  | serialise (t : Nat)
  | write (t : Nat) (ok : Bool)

/-- The enabled subscriptions, or the one that is asked for. -/
def targets (subs : List Subscription) (onlyId : Option String) : List String :=
  ((subs.filter Subscription.enabled).map Subscription.id).filter fun id =>
    onlyId.all fun only => only == id

section

variable {E : Type}

namespace App

def set (s : App E) (t : Nat) (r : Option (Refresh E)) : App E :=
  { s with refreshes := fun x => if x = t then r else s.refreshes x }

/-- What is shown are the fetches that brought an entry. A write that fails may leave less than the
whole. -/
def step (s : App E) : Action E → Option (App E × List (String × E))
  | .settings subs => some ({ s with subs }, [])
  | .start t onlyId client =>
    match s.refreshes t with
    | some _ => none
    | none =>
      if client then some (s.set t (some (.fetching (targets s.subs onlyId) s.subCache)), [])
      else some (s, [])
  | .fetched t result =>
    match s.refreshes t with
    | some (.fetching (id :: left) copy) =>
      match result with
      | .entry e =>
        some ({ s.set t (some (.fetching left (copy.insert id e (s.fetches + 1)))) with
          fetches := s.fetches + 1 }, [(id, e)])
      | .notModified | .failed => some (s.set t (some (.fetching left copy)), [])
    | _ => none
  | .store t =>
    match s.refreshes t with
    | some (.fetching [] copy) => some ({ s.set t (some .stored) with subCache := copy }, [])
    | _ => none
  | .serialise t =>
    match s.refreshes t with
    | some .stored => some (s.set t (some (.serialised s.subCache)), [])
    | _ => none
  | .write t ok =>
    match s.refreshes t with
    | some (.serialised bytes) =>
      some ({ s.set t none with file := if ok then some bytes else none }, [])
    | _ => none

/-- All refreshes have returned. -/
def Returned (s : App E) : Prop := ∀ t, s.refreshes t = none

/-- The app as it starts: the cache as it was read from the file, or an empty one. -/
def init (entries : String → Option E) (read : Bool) : App E where
  subs := []
  subCache := ⟨entries, fun _ => 0⟩
  file := if read then some ⟨entries, fun _ => 0⟩ else none
  refreshes _ := none
  fetches := 0

end App

/-- The entry of the last fetch that brought one. -/
def latest (fetches : List (String × E)) (id : String) : Option E :=
  (fetches.reverse.find? fun f => f.1 == id).map Prod.snd

/-- No entry is replaced by an older one. -/
def Copy.NoneNewer (old new : Copy E) : Prop := ∀ id, old.age id ≤ new.age id

/-- What is asked of a step: writing the copy back replaces no entry of the cache by one of an earlier
fetch, nor does writing the file. -/
def InOrder (s : App E) : Action E → Prop
  | .store t => ∀ copy, s.refreshes t = some (.fetching [] copy) → s.subCache.NoneNewer copy
  | .write t _ => ∀ bytes old, s.refreshes t = some (.serialised bytes) → s.file = some old →
    old.NoneNewer bytes
  | _ => True

/-! ## What a step can do -/

namespace App

variable {s s' : App E} {a : Action E} {ev : List (String × E)} {t x : Nat} {r : Option (Refresh E)}

/-- The steps, each with what it takes for granted. -/
inductive Stepped (s : App E) : Action E → App E → List (String × E) → Prop
  | settings (subs : List Subscription) : Stepped s (.settings subs) { s with subs } []
  | noClient (t : Nat) (onlyId : Option String) : Stepped s (.start t onlyId false) s []
  | start (t : Nat) (onlyId : Option String) (h : s.refreshes t = none) :
    Stepped s (.start t onlyId true)
      (s.set t (some (.fetching (targets s.subs onlyId) s.subCache))) []
  | entry {t : Nat} {id : String} {left : List String} {copy : Copy E} (e : E)
    (h : s.refreshes t = some (.fetching (id :: left) copy)) :
    Stepped s (.fetched t (.entry e))
      { s.set t (some (.fetching left (copy.insert id e (s.fetches + 1)))) with
        fetches := s.fetches + 1 } [(id, e)]
  | noEntry {t : Nat} {id : String} {left : List String} {copy : Copy E} (result : Fetch E)
    (h : s.refreshes t = some (.fetching (id :: left) copy)) :
    Stepped s (.fetched t result) (s.set t (some (.fetching left copy))) []
  | store {t : Nat} {copy : Copy E} (h : s.refreshes t = some (.fetching [] copy)) :
    Stepped s (.store t) { s.set t (some .stored) with subCache := copy } []
  | serialise {t : Nat} (h : s.refreshes t = some .stored) :
    Stepped s (.serialise t) (s.set t (some (.serialised s.subCache))) []
  | write {t : Nat} {bytes : Copy E} (ok : Bool) (h : s.refreshes t = some (.serialised bytes)) :
    Stepped s (.write t ok) { s.set t none with file := if ok then some bytes else none } []

theorem stepped (h : s.step a = some (s', ev)) : Stepped s a s' ev := by
  cases a with
  | settings subs =>
    cases h
    exact .settings subs
  | start t onlyId client =>
    simp only [step] at h
    split at h
    · cases h
    next hnone =>
    cases client with
    | true =>
      cases h
      exact .start t onlyId hnone
    | false =>
      cases h
      exact .noClient t onlyId
  | fetched t result =>
    simp only [step] at h
    split at h
    · next hfetching =>
      cases result with
      | entry e =>
        cases h
        exact .entry e hfetching
      | notModified | failed =>
        cases h
        exact .noEntry _ hfetching
    · cases h
  | store t =>
    simp only [step] at h
    split at h
    · next hfetching =>
      cases h
      exact .store hfetching
    · cases h
  | serialise t =>
    simp only [step] at h
    split at h
    · next hstored =>
      cases h
      exact .serialise hstored
    · cases h
  | write t ok =>
    simp only [step] at h
    split at h
    · next hbytes =>
      cases h
      exact .write ok hbytes
    · cases h

@[simp] theorem set_refreshes_self : (s.set t r).refreshes t = r := if_pos rfl

theorem set_refreshes_ne (h : x ≠ t) : (s.set t r).refreshes x = s.refreshes x := if_neg h

/-- Two refreshes that are not equally far are two. -/
theorem ne_of_refreshes {r' : Option (Refresh E)} (ht : s.refreshes t = r) (hx : s.refreshes x = r')
    (hne : r ≠ r') : t ≠ x := by
  rintro rfl
  exact hne (ht.symm.trans hx)

/-- What a refresh is in after a step that sets one. -/
theorem set_refreshes_eq {r' : Option (Refresh E)} (h : (s.set t r).refreshes x = r') :
    x = t ∧ r = r' ∨ x ≠ t ∧ s.refreshes x = r' := by
  by_cases hx : x = t
  · subst hx
    exact .inl ⟨rfl, set_refreshes_self.symm.trans h⟩
  · exact .inr ⟨hx, (set_refreshes_ne hx).symm.trans h⟩

end App

/-! ## Where entries come from -/

/-- Each entry is of the fetch of its number, or was there before. -/
def Copy.From (entries : String → Option E) (fetches : List (String × E)) (c : Copy E) : Prop :=
  ∀ id, c.age id = 0 ∧ c.entries id = entries id ∨
    ∃ n e, c.age id = n + 1 ∧ fetches[n]? = some (id, e) ∧ c.entries id = some e

section

variable {entries : String → Option E} {fetches more : List (String × E)} {c c' : Copy E}
  {id : String} {e : E}

theorem getElem?_append_some {α : Type} {l l' : List α} {n : Nat} {a : α} (h : l[n]? = some a) :
    (l ++ l')[n]? = some a :=
  (List.getElem?_append_left (List.getElem?_eq_some_iff.mp h).1).trans h

theorem Copy.From.append (h : c.From entries fetches) : c.From entries (fetches ++ more) := by
  intro id
  rcases h id with h | ⟨n, e, hage, hn, he⟩
  · exact .inl h
  · exact .inr ⟨n, e, hage, getElem?_append_some hn, he⟩

theorem Copy.From.insert (h : c.From entries fetches) :
    (c.insert id e (fetches.length + 1)).From entries (fetches ++ [(id, e)]) := by
  intro x
  by_cases hx : x = id
  · subst hx
    exact .inr ⟨fetches.length, e, if_pos rfl, List.getElem?_concat_length, if_pos rfl⟩
  · have hage : (c.insert id e (fetches.length + 1)).age x = c.age x := if_neg hx
    have hentry : (c.insert id e (fetches.length + 1)).entries x = c.entries x := if_neg hx
    rw [hage, hentry]
    exact h.append x

/-- A copy with no number below those of the fetches of an entry has the latest of them. -/
theorem Copy.From.latest (h : c.From entries fetches)
    (hall : ∀ n e, fetches[n]? = some (id, e) → n < c.age id) :
    c.entries id = (latest fetches id <|> entries id) := by
  rcases h id with ⟨hage, he⟩ | ⟨n, e, hage, hn, he⟩
  · have hnone : fetches.reverse.find? (fun f => f.1 == id) = none := by
      refine List.find?_eq_none.mpr fun f hf heq => ?_
      obtain ⟨n, hn⟩ := List.mem_iff_getElem?.mp (List.mem_reverse.mp hf)
      have hlt := hall n f.2 (by rw [hn, ← eq_of_beq heq])
      omega
    unfold Gui.latest
    rw [hnone, he]
    rfl
  · obtain ⟨hlt, hget⟩ := List.getElem?_eq_some_iff.mp hn
    have hsplit : fetches = fetches.take n ++ (id, e) :: fetches.drop (n + 1) := by
      rw [← hget, List.getElem_cons_drop, List.take_append_drop]
    have hlater : (fetches.drop (n + 1)).reverse.find? (fun f => f.1 == id) = none := by
      refine List.find?_eq_none.mpr fun f hf heq => ?_
      obtain ⟨m, hm⟩ := List.mem_iff_getElem?.mp (List.mem_reverse.mp hf)
      rw [List.getElem?_drop] at hm
      have hlt := hall (n + 1 + m) f.2 (by rw [hm, ← eq_of_beq heq])
      omega
    unfold Gui.latest
    rw [hsplit, List.reverse_append, List.reverse_cons, List.append_assoc, List.find?_append, hlater,
      List.singleton_append, List.find?_cons_of_pos (by simp), he]
    rfl

/-- Two copies with the same numbers have the same entries. -/
theorem Copy.From.ext (h : c.From entries fetches) (h' : c'.From entries fetches)
    (hle : c.NoneNewer c') (hle' : c'.NoneNewer c) : c = c' := by
  have hage : c.age = c'.age := funext fun id => Nat.le_antisymm (hle id) (hle' id)
  have hentries : c.entries = c'.entries := by
    funext id
    have heq := congrFun hage id
    rcases h id with ⟨h0, he⟩ | ⟨n, e, hn, hfetch, he⟩ <;>
      rcases h' id with ⟨h0', he'⟩ | ⟨n', e', hn', hfetch', he'⟩
    · rw [he, he']
    · omega
    · omega
    · obtain rfl : n = n' := by omega
      rw [hfetch] at hfetch'
      cases hfetch'
      rw [he, he']
  cases c
  cases c'
  cases hage
  cases hentries
  rfl

end

/-! ## What holds all along -/

abbrev Log (E : Type) := List (Taken (App E) (Action E) (String × E))

/-- The copy that a refresh works on. -/
def Refresh.copy? : Refresh E → Option (Copy E)
  | .fetching _ copy => some copy
  | .stored => none
  | .serialised bytes => some bytes

/-- A copy of one of the refreshes. -/
def App.Held (s : App E) (c : Copy E) : Prop := ∃ t r, s.refreshes t = some r ∧ r.copy? = some c

/-- The copies there are: the cache, the file, and those of the refreshes. -/
def App.Holds (s : App E) (c : Copy E) : Prop := c = s.subCache ∨ s.file = some c ∨ s.Held c

/-- The file is as new as the cache, or some refresh will make it so. -/
def App.Filed (s : App E) : Prop :=
  (∃ f, s.file = some f ∧ s.subCache.NoneNewer f) ∨ (∃ t, s.refreshes t = some .stored) ∨
    ∃ t b, s.refreshes t = some (.serialised b) ∧ s.subCache.NoneNewer b

def Stores (log : Log E) : Prop := ∃ x ∈ log, ∃ t, x.act = .store t

/-- No write of the file has failed. -/
def WritesSucceed (log : Log E) : Prop := ∀ x ∈ log, ∀ t, x.act ≠ .write t false

structure Inv (entries : String → Option E) (log : Log E) (s : App E) : Prop where
  fetches : s.fetches = (shown log).length
  from_ : ∀ {c}, s.Holds c → c.From entries (shown log)
  known : ∀ {n id e}, (shown log)[n]? = some (id, e) → n < s.subCache.age id ∨
    ∃ t left copy, s.refreshes t = some (.fetching left copy) ∧ n < copy.age id
  bytes : ∀ {t b}, s.refreshes t = some (.serialised b) → b.NoneNewer s.subCache
  file : ∀ {f}, s.file = some f → f.NoneNewer s.subCache
  filed : WritesSucceed log → Stores log → s.Filed

section

variable {s s' : App E} {log : Log E} {entries : String → Option E} {a : Action E}
  {ev : List (String × E)} {c c' c'' : Copy E}

theorem Copy.NoneNewer.refl (c : Copy E) : c.NoneNewer c := fun _ => Nat.le_refl _

theorem Copy.NoneNewer.trans (h : c.NoneNewer c') (h' : c'.NoneNewer c'') : c.NoneNewer c'' :=
  fun id => Nat.le_trans (h id) (h' id)

theorem writesSucceed_snoc {x : Taken (App E) (Action E) (String × E)}
    (h : WritesSucceed (log ++ [x])) : WritesSucceed log ∧ ∀ t, x.act ≠ .write t false :=
  ⟨fun y hy => h y (List.mem_append_left _ hy), h x (List.mem_append_right _ List.mem_cons_self)⟩

theorem stores_snoc {x : Taken (App E) (Action E) (String × E)} :
    Stores (log ++ [x]) ↔ Stores log ∨ ∃ t, x.act = .store t := by
  unfold Stores
  constructor
  · rintro ⟨y, hy, t, ht⟩
    rcases List.mem_append.mp hy with hy | hy
    · exact .inl ⟨y, hy, t, ht⟩
    · rw [List.mem_singleton.mp hy] at ht
      exact .inr ⟨t, ht⟩
  · rintro (⟨y, hy, t, ht⟩ | ⟨t, ht⟩)
    · exact ⟨y, List.mem_append_left _ hy, t, ht⟩
    · exact ⟨x, List.mem_append_right _ (List.mem_singleton_self x), t, ht⟩

theorem Copy.From.age_le {fetches : List (String × E)} (h : c.From entries fetches) (id : String) :
    c.age id ≤ fetches.length := by
  rcases h id with ⟨h0, -⟩ | ⟨n, e, hage, hn, -⟩
  · omega
  · have hlt := (List.getElem?_eq_some_iff.mp hn).1
    omega

theorem Copy.NoneNewer.insert {id : String} {e : E} {n : Nat} (hn : ∀ x, c.age x ≤ n) :
    c.NoneNewer (c.insert id e (n + 1)) := by
  intro x
  by_cases hx : x = id
  · have hage : (c.insert id e (n + 1)).age x = n + 1 := if_pos hx
    have hle := hn x
    omega
  · exact Nat.le_of_eq (if_neg hx).symm

theorem App.held_set {t : Nat} {r : Option (Refresh E)} (h : (s.set t r).Held c) :
    r.bind Refresh.copy? = some c ∨ s.Held c := by
  obtain ⟨x, q, hq, hc⟩ := h
  rcases App.set_refreshes_eq hq with ⟨-, rfl⟩ | ⟨-, hx⟩
  · exact .inl hc
  · exact .inr ⟨x, q, hx, hc⟩

/-- A refresh goes on, and nothing happens to the cache and the file. -/
theorem App.holds_set {t : Nat} {r : Option (Refresh E)} (h : (s.set t r).Holds c) :
    r.bind Refresh.copy? = some c ∨ s.Holds c := by
  rcases h with hcache | hfile | hheld
  · exact .inr (.inl hcache)
  · exact .inr (.inr (.inl hfile))
  · exact (App.held_set hheld).imp_right fun hheld => .inr (.inr hheld)

/-- A copy after a step was there before it, or is one with the entry that has been fetched. -/
theorem App.Stepped.holds (h : App.Stepped s a s' ev) (hc : s'.Holds c) :
    s.Holds c ∨ ∃ copy id e, s.Holds copy ∧ ev = [(id, e)] ∧ c = copy.insert id e (s.fetches + 1) := by
  cases h with
  | settings subs => exact .inl hc
  | noClient t onlyId => exact .inl hc
  | start t onlyId hnone =>
    rcases App.holds_set hc with hq | hbefore
    · exact .inl (.inl (Option.some.inj hq).symm)
    · exact .inl hbefore
  | @entry t id left copy e hfetching =>
    have hc : (s.set t (some (.fetching left (copy.insert id e (s.fetches + 1))))).Holds c := hc
    rcases App.holds_set hc with hq | hbefore
    · exact .inr ⟨_, _, e, .inr (.inr ⟨_, _, hfetching, rfl⟩), rfl, (Option.some.inj hq).symm⟩
    · exact .inl hbefore
  | noEntry result hfetching =>
    rcases App.holds_set hc with hq | hbefore
    · exact .inl (.inr (.inr ⟨_, _, hfetching, hq⟩))
    · exact .inl hbefore
  | store hfetching =>
    rcases hc with rfl | hfile | hheld
    · exact .inl (.inr (.inr ⟨_, _, hfetching, rfl⟩))
    · exact .inl (.inr (.inl hfile))
    rcases App.held_set hheld with hq | hheld
    · cases hq
    · exact .inl (.inr (.inr hheld))
  | serialise hstored =>
    rcases App.holds_set hc with hq | hbefore
    · exact .inl (.inl (Option.some.inj hq).symm)
    · exact .inl hbefore
  | write ok hbytes =>
    rcases hc with hcache | hfile | hheld
    · exact .inl (.inl hcache)
    · cases ok with
      | true => exact .inl (.inr (.inr ⟨_, _, hbytes, hfile⟩))
      | false => cases hfile
    rcases App.held_set hheld with hq | hheld
    · cases hq
    · exact .inl (.inr (.inr hheld))

/-- The cache gets no older. -/
theorem Stepped.cache_le (h : App.Stepped s a s' ev) (hok : InOrder s a) :
    s.subCache.NoneNewer s'.subCache := by
  cases h with
  | store hfetching => exact hok _ hfetching
  | settings | noClient | start | entry | noEntry | serialise | write => exact .refl _

/-- A refresh that is fetching goes on with a copy as new, or has written it back. -/
theorem Stepped.fetching_le (h : App.Stepped s a s' ev) (hage : ∀ {c}, s.Holds c → ∀ x, c.age x ≤ s.fetches)
    {t : Nat} {left : List String} {copy : Copy E}
    (hf : s.refreshes t = some (.fetching left copy)) :
    copy.NoneNewer s'.subCache ∨ ∃ left' copy', s'.refreshes t = some (.fetching left' copy') ∧
      copy.NoneNewer copy' := by
  have hother : ∀ {x : Nat} {r : Option (Refresh E)}, t ≠ x →
      (s.set x r).refreshes t = some (.fetching left copy) := fun hne =>
    (App.set_refreshes_ne hne).trans hf
  cases h with
  | settings subs => exact .inr ⟨left, copy, hf, .refl _⟩
  | noClient x onlyId => exact .inr ⟨left, copy, hf, .refl _⟩
  | start x onlyId hnone =>
    exact .inr ⟨left, copy, hother (App.ne_of_refreshes hf hnone nofun), .refl _⟩
  | @entry x id _ _ e hfetching =>
    by_cases hx : t = x
    · subst hx
      rw [hfetching] at hf
      cases hf
      exact .inr ⟨_, _, App.set_refreshes_self,
        .insert (hage (.inr (.inr ⟨_, _, hfetching, rfl⟩)))⟩
    · exact .inr ⟨left, copy, hother hx, .refl _⟩
  | @noEntry x id _ _ result hfetching =>
    by_cases hx : t = x
    · subst hx
      rw [hfetching] at hf
      cases hf
      exact .inr ⟨_, _, App.set_refreshes_self, .refl _⟩
    · exact .inr ⟨left, copy, hother hx, .refl _⟩
  | @store x _ hfetching =>
    by_cases hx : t = x
    · subst hx
      rw [hfetching] at hf
      cases hf
      exact .inl (.refl _)
    · exact .inr ⟨left, copy, hother hx, .refl _⟩
  | @serialise x hstored =>
    exact .inr ⟨left, copy, hother (App.ne_of_refreshes hf hstored nofun), .refl _⟩
  | @write x _ ok hbytes =>
    exact .inr ⟨left, copy, hother (App.ne_of_refreshes hf hbytes nofun), .refl _⟩

/-- The refresh that has fetched an entry has it with the newest number. -/
theorem Stepped.fetched_known (h : App.Stepped s a s' ev) {n m : Nat} {id : String} {e : E}
    (hn : n ≤ s.fetches + m) (hev : ev[m]? = some (id, e)) :
    ∃ t left copy, s'.refreshes t = some (.fetching left copy) ∧ n < copy.age id := by
  cases h with
  | entry e' hfetching =>
    match m, hev with
    | 0, hev =>
      cases hev
      refine ⟨_, _, _, App.set_refreshes_self, ?_⟩
      show n < if id = id then _ else _
      rw [if_pos rfl]
      omega
  | settings | noClient | start | noEntry | store | serialise | write => cases hev

/-- The bytes that a refresh has for the file are of the cache or an older one. -/
theorem Stepped.bytes_le (h : App.Stepped s a s' ev) (hok : InOrder s a)
    (hbytes : ∀ {t b}, s.refreshes t = some (.serialised b) → b.NoneNewer s.subCache)
    {t : Nat} {b : Copy E} (hb : s'.refreshes t = some (.serialised b)) : b.NoneNewer s'.subCache := by
  have hle := Stepped.cache_le h hok
  cases h with
  | settings | noClient => exact hbytes hb
  | start | entry | noEntry | store | write =>
    rcases App.set_refreshes_eq hb with ⟨-, heq⟩ | ⟨-, hb⟩
    · cases heq
    · exact (hbytes hb).trans hle
  | serialise hstored =>
    rcases App.set_refreshes_eq hb with ⟨-, heq⟩ | ⟨-, hb⟩
    · cases heq
      exact .refl _
    · exact hbytes hb

theorem Stepped.file_le (h : App.Stepped s a s' ev) (hok : InOrder s a)
    (hbytes : ∀ {t b}, s.refreshes t = some (.serialised b) → b.NoneNewer s.subCache)
    (hfile : ∀ {f}, s.file = some f → f.NoneNewer s.subCache) {f : Copy E}
    (hf : s'.file = some f) : f.NoneNewer s'.subCache := by
  have hle := Stepped.cache_le h hok
  cases h with
  | settings | noClient | start | entry | noEntry | store | serialise => exact (hfile hf).trans hle
  | write ok hb =>
    cases ok with
    | true =>
      cases hf
      exact hbytes hb
    | false => cases hf

/-- A refresh that is not behind writing back does not matter to the file. -/
theorem App.Filed.set {t : Nat} {r : Option (Refresh E)} (h : s.Filed)
    (ht : s.refreshes t ≠ some .stored ∧ ∀ b, s.refreshes t ≠ some (.serialised b)) :
    (s.set t r).Filed := by
  rcases h with hfile | ⟨x, hx⟩ | ⟨x, b, hx, hb⟩
  · exact .inl hfile
  · have hne : x ≠ t := fun heq => ht.1 (heq ▸ hx)
    exact .inr (.inl ⟨x, (App.set_refreshes_ne hne).trans hx⟩)
  · have hne : x ≠ t := fun heq => ht.2 b (heq ▸ hx)
    exact .inr (.inr ⟨x, b, (App.set_refreshes_ne hne).trans hx, hb⟩)

theorem App.Filed.write {t : Nat} {bytes : Copy E} (h : s.Filed)
    (ht : s.refreshes t = some (.serialised bytes))
    (hok : ∀ old, s.file = some old → old.NoneNewer bytes) :
    ({ s.set t none with file := some bytes } : App E).Filed := by
  rcases h with ⟨f, hf, hle⟩ | ⟨x, hx⟩ | ⟨x, b, hx, hb⟩
  · exact .inl ⟨bytes, rfl, hle.trans (hok f hf)⟩
  · have hne : x ≠ t := App.ne_of_refreshes hx ht nofun
    exact .inr (.inl ⟨x, (App.set_refreshes_ne hne).trans hx⟩)
  · by_cases hxt : x = t
    · subst hxt
      rw [ht] at hx
      cases hx
      exact .inl ⟨bytes, rfl, hb⟩
    · exact .inr (.inr ⟨x, b, (App.set_refreshes_ne hxt).trans hx, hb⟩)

/-- From writing back on the file is as new as the cache, or on the way to it. -/
theorem Stepped.filed (h : App.Stepped s a s' ev) (hok : InOrder s a) (hwrite : ∀ t, a ≠ .write t false)
    (hfiled : s.Filed ∨ ∃ t, a = .store t) : s'.Filed := by
  rcases hfiled with hfiled | ⟨t, rfl⟩
  · cases h with
    | settings | noClient => exact hfiled
    | start t onlyId hnone => exact hfiled.set (by simp [hnone])
    | entry e hfetching => exact hfiled.set (by simp [hfetching])
    | noEntry result hfetching => exact hfiled.set (by simp [hfetching])
    | store hfetching => exact .inr (.inl ⟨_, App.set_refreshes_self⟩)
    | serialise hstored => exact .inr (.inr ⟨_, _, App.set_refreshes_self, .refl _⟩)
    | write ok hbytes =>
      cases ok with
      | true => exact hfiled.write hbytes fun old => hok _ old hbytes
      | false => exact absurd rfl (hwrite _)
  · cases h with
    | store hfetching => exact .inr (.inl ⟨_, App.set_refreshes_self⟩)

theorem Inv.age_le (h : Inv entries log s) (hc : s.Holds c) (x : String) : c.age x ≤ s.fetches := by
  rw [h.fetches]
  exact (h.from_ hc).age_le x

/-- One step keeps it, if it is in order. -/
theorem Inv.step (h : Inv entries log s) (hstep : s.step a = some (s', ev)) (hok : InOrder s a) :
    Inv entries (log ++ [⟨s, a, ev⟩]) s' := by
  have hstepped := App.stepped hstep
  refine ⟨?_, ?_, ?_, ?_, ?_, ?_⟩
  · rw [shown_snoc, List.length_append, ← h.fetches]
    cases hstepped <;> rfl
  · intro c hc
    rw [shown_snoc]
    rcases hstepped.holds hc with hc | ⟨copy, id, e, hcopy, hev, rfl⟩
    · exact (h.from_ hc).append
    · show (copy.insert id e (s.fetches + 1)).From entries (shown log ++ ev)
      rw [hev, h.fetches]
      exact (h.from_ hcopy).insert
  · intro n id e hn
    rw [shown_snoc] at hn
    by_cases hlt : n < (shown log).length
    · rw [List.getElem?_append_left hlt] at hn
      rcases h.known hn with hcache | ⟨t, left, copy, hfetching, hage⟩
      · exact .inl (Nat.lt_of_lt_of_le hcache (Stepped.cache_le hstepped hok id))
      rcases Stepped.fetching_le hstepped h.age_le hfetching with hle | ⟨left', copy', h', hle⟩
      · exact .inl (Nat.lt_of_lt_of_le hage (hle id))
      · exact .inr ⟨t, left', copy', h', Nat.lt_of_lt_of_le hage (hle id)⟩
    · rw [List.getElem?_append_right (Nat.not_lt.mp hlt)] at hn
      exact .inr (Stepped.fetched_known hstepped (by rw [h.fetches]; omega) hn)
  · exact fun hb => Stepped.bytes_le hstepped hok h.bytes hb
  · exact fun hf => Stepped.file_le hstepped hok h.bytes h.file hf
  · intro hwrites hstores
    obtain ⟨hlog, hlast⟩ := writesSucceed_snoc hwrites
    refine Stepped.filed hstepped hok hlast ?_
    rcases stores_snoc.mp hstores with hstores | hstore
    · exact .inl (h.filed hlog hstores)
    · exact .inr hstore

theorem inv_init (entries : String → Option E) (read : Bool) :
    Inv entries [] (App.init entries read) := by
  have hcopy : ∀ {c}, (App.init entries read).Holds c → c = ⟨entries, fun _ => 0⟩ := by
    rintro c (hcache | hfile | ⟨t, r, hr, -⟩)
    · exact hcache
    · cases read with
      | true => exact (Option.some.inj hfile).symm
      | false => cases hfile
    · cases hr
  refine ⟨rfl, fun hc => ?_, fun hn => ?_, fun hb => ?_, fun hf => ?_, fun _ hstores => ?_⟩
  · rw [hcopy hc]
    exact fun id => .inl ⟨rfl, rfl⟩
  · cases hn
  · cases hb
  · rw [hcopy (.inr (.inl hf))]
    exact .refl _
  · obtain ⟨x, hx, -⟩ := hstores
    cases hx

/-- **No update is lost** in a run in which nothing is replaced by an older entry: when all refreshes
have returned, the cache has for each subscription the entry of the last fetch that brought one, and
the file is the cache once a refresh has written its copy back and no write has failed. -/
theorem refresh_loses_nothing {entries : String → Option E} {read : Bool}
    (hrun : Exec App.step (App.init entries read) log s) (hok : Steps InOrder log)
    (hreturned : s.Returned) :
    (∀ id, s.subCache.entries id = (latest (shown log) id <|> entries id)) ∧
      (WritesSucceed log → Stores log → s.file = some s.subCache) := by
  have hinv : Inv entries log s := by
    refine hrun.inv (P := fun log s => Steps InOrder log → Inv entries log s)
      (fun _ => inv_init entries read) ?_ hok
    intro log s a s' ev _ ih hstep hsteps
    obtain ⟨hsteps, hlast⟩ := steps_snoc.mp hsteps
    exact (ih hsteps).step hstep hlast
  refine ⟨fun id => (hinv.from_ (.inl rfl)).latest fun n e hn => ?_, fun hwrites hstores => ?_⟩
  · rcases hinv.known hn with hlt | ⟨t, _, _, ht, -⟩
    · exact hlt
    · rw [hreturned t] at ht
      cases ht
  · rcases hinv.filed hwrites hstores with ⟨f, hf, hle⟩ | ⟨t, ht⟩ | ⟨t, _, ht, -⟩
    · rw [hf, (hinv.from_ (.inr (.inl hf))).ext (hinv.from_ (.inl rfl)) (hinv.file hf) hle]
    · rw [hreturned t] at ht
      cases ht
    · rw [hreturned t] at ht
      cases ht

/-! ## Refreshes that do not overlap -/

/-- A refresh starts when no other is under way. -/
def InTurn (s : App E) : Action E → Prop
  | .start _ _ _ => s.Returned
  | _ => True

structure Turn (s : App E) : Prop where
  one : ∀ {t x r q}, s.refreshes t = some r → s.refreshes x = some q → t = x
  copy : ∀ {t left copy}, s.refreshes t = some (.fetching left copy) → s.subCache.NoneNewer copy
  bytes : ∀ {t b}, s.refreshes t = some (.serialised b) → b = s.subCache

theorem Turn.inOrder (h : Turn s) (hinv : Inv entries log s) (a : Action E) : InOrder s a := by
  cases a with
  | store t => exact fun copy hcopy => h.copy hcopy
  | write t ok =>
    intro bytes old hbytes hold
    rw [h.bytes hbytes]
    exact hinv.file hold
  | settings | start | fetched | serialise => trivial

/-- The one refresh that is under way goes on. -/
theorem Turn.set {t : Nat} {r : Refresh E} {q : Option (Refresh E)} {cache : Copy E} (h : Turn s)
    (hr : s.refreshes t = some r)
    (hcopy : ∀ {left copy}, q = some (.fetching left copy) → cache.NoneNewer copy)
    (hbytes : ∀ {b}, q = some (.serialised b) → b = cache)
    {file : Option (Copy E)} {fetches : Nat} :
    Turn { s.set t q with subCache := cache, file, fetches } := by
  have honly {x : Nat} {p : Refresh E} (hx : (s.set t q).refreshes x = some p) :
      x = t ∧ q = some p := by
    rcases App.set_refreshes_eq hx with hx | ⟨hne, hx⟩
    · exact hx
    · exact absurd (h.one hx hr) hne
  refine ⟨fun hx hy => ?_, fun hx => hcopy (honly hx).2, fun hx => hbytes (honly hx).2⟩
  rw [(honly hx).1, (honly hy).1]

theorem Turn.step (h : Turn s) (hage : ∀ {c}, s.Holds c → ∀ x, c.age x ≤ s.fetches)
    (hstep : App.Stepped s a s' ev) (hturn : InTurn s a) : Turn s' := by
  cases hstep with
  | settings subs => exact ⟨h.one, h.copy, h.bytes⟩
  | noClient t onlyId => exact h
  | start t onlyId hnone =>
    have honly {x : Nat} {p : Refresh E}
        (hx : (s.set t (some (.fetching (targets s.subs onlyId) s.subCache))).refreshes x = some p) :
        x = t ∧ Refresh.fetching (targets s.subs onlyId) s.subCache = p := by
      rcases App.set_refreshes_eq hx with ⟨hx, hp⟩ | ⟨-, hx⟩
      · exact ⟨hx, Option.some.inj hp⟩
      · rw [hturn x] at hx
        cases hx
    refine ⟨fun hx hy => ?_, fun hx => ?_, fun hx => ?_⟩
    · rw [(honly hx).1, (honly hy).1]
    · cases (honly hx).2
      exact .refl _
    · cases (honly hx).2
  | entry e hfetching =>
    refine h.set hfetching (fun hq => ?_) (by nofun)
    cases hq
    exact (h.copy hfetching).trans (.insert (hage (.inr (.inr ⟨_, _, hfetching, rfl⟩))))
  | noEntry result hfetching =>
    refine h.set hfetching (fun hq => ?_) (by nofun)
    cases hq
    exact h.copy hfetching
  | store hfetching => exact h.set hfetching (by nofun) (by nofun)
  | serialise hstored =>
    refine h.set hstored (by nofun) fun hq => ?_
    cases hq
    rfl
  | write ok hbytes => exact h.set hbytes (by nofun) (by nofun)

/-- **Refreshes one after the other** replace no entry by an older one. -/
theorem inOrder_of_inTurn {read : Bool} (hrun : Exec App.step (App.init entries read) log s)
    (hturn : Steps InTurn log) : Steps InOrder log := by
  have hall : Steps InOrder log ∧ Inv entries log s ∧ Turn s := by
    refine hrun.inv (P := fun log s => Steps InTurn log → Steps InOrder log ∧ Inv entries log s ∧ Turn s)
      (fun _ => ⟨steps_nil, inv_init entries read, nofun, nofun, nofun⟩) ?_ hturn
    intro log s a s' ev _ ih hstep hsteps
    obtain ⟨hsteps, hlast⟩ := steps_snoc.mp hsteps
    obtain ⟨horder, hinv, hone⟩ := ih hsteps
    have hok := hone.inOrder hinv a
    exact ⟨steps_snoc.mpr ⟨horder, hok⟩, hinv.step hstep hok,
      hone.step hinv.age_le (App.stepped hstep) hlast⟩
  exact hall.1

end

end

/-- One refresh of one subscription. -/
theorem refresh_loses_nothing_alone : ∃ (log : Log Nat) (s : App Nat),
    Exec App.step (App.init (fun _ => none) false) log s ∧ s.Returned ∧
      s.subCache.entries "a" = some 7 ∧ s.file = some s.subCache := by
  have h0 : Exec (App.step (E := Nat)) (App.init (fun _ => none) false) []
    (App.init (fun _ => none) false) := .nil
  have h1 := h0.snoc (a := .settings [⟨"a", true⟩]) rfl
  have h2 := h1.snoc (a := .start 0 none true) rfl
  have h3 := h2.snoc (a := .fetched 0 (.entry 7)) rfl
  have h4 := h3.snoc (a := .store 0) rfl
  have h5 := h4.snoc (a := .serialise 0) rfl
  have h6 := h5.snoc (a := .write 0 true) rfl
  obtain ⟨log, s, hrun, hreturned, hsteps, hwrites, hstores, hshown⟩ : ∃ (log : Log Nat) (s : App Nat),
      Exec App.step (App.init (fun _ => none) false) log s ∧ s.Returned ∧ Steps InOrder log ∧
        WritesSucceed log ∧ Stores log ∧ shown log = [("a", 7)] := by
    refine ⟨_, _, h6, fun t => ?_, ?_, ?_, stores_snoc.mpr (.inl (stores_snoc.mpr (.inl
      (stores_snoc.mpr (.inr ⟨0, rfl⟩))))), rfl⟩
    · by_cases ht : t = 0
      · exact if_pos ht
      · simp [App.set, App.init, ht]
    · refine steps_snoc.mpr ⟨steps_snoc.mpr ⟨steps_snoc.mpr ⟨steps_snoc.mpr ⟨steps_snoc.mpr
        ⟨steps_snoc.mpr ⟨steps_nil, trivial⟩, trivial⟩, trivial⟩, ?_⟩, trivial⟩, ?_⟩
      · intro copy hcopy
        cases hcopy
        exact fun _ => Nat.zero_le _
      · intro bytes old hbytes hold
        cases hold
    · simp [WritesSucceed]
  have hall := refresh_loses_nothing hrun hsteps hreturned
  have hcache := hall.1 "a"
  rw [hshown] at hcache
  exact ⟨log, s, hrun, hreturned, hcache, hall.2 hwrites hstores⟩

/-- Two refreshes at once, each of one subscription: the second to write its copy back takes the entry
of the first away. -/
theorem refreshes_overwrite : ∃ (log : Log Nat) (s : App Nat),
    Exec App.step (App.init (fun _ => none) false) log s ∧ s.Returned ∧ WritesSucceed log ∧
      latest (shown log) "a" = some 7 ∧ s.subCache.entries "a" = none := by
  have h0 : Exec (App.step (E := Nat)) (App.init (fun _ => none) false) []
    (App.init (fun _ => none) false) := .nil
  have h1 := h0.snoc (a := .settings [⟨"a", true⟩, ⟨"b", true⟩]) rfl
  have h2 := h1.snoc (a := .start 0 (some "a") true) rfl
  have h3 := h2.snoc (a := .start 1 (some "b") true) rfl
  have h4 := h3.snoc (a := .fetched 0 (.entry 7)) rfl
  have h5 := h4.snoc (a := .fetched 1 (.entry 9)) rfl
  have h6 := h5.snoc (a := .store 0) rfl
  have h7 := h6.snoc (a := .store 1) rfl
  have h8 := h7.snoc (a := .serialise 0) rfl
  have h9 := h8.snoc (a := .write 0 true) rfl
  have h10 := h9.snoc (a := .serialise 1) rfl
  have h11 := h10.snoc (a := .write 1 true) rfl
  refine ⟨_, _, h11, fun t => ?_, ?_, rfl, rfl⟩
  · by_cases h0 : t = 0
    · subst h0
      rfl
    by_cases h1 : t = 1
    · subst h1
      rfl
    · simp [App.set, App.init, h0, h1]
  · simp [WritesSucceed]

end Leshiy.Gui
