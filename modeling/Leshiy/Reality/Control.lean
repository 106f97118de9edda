import Mathlib.Data.List.Permutation
import Leshiy.Lib.Run
import Leshiy.Lib.Text
import Leshiy.Reality.User

/-!
# The control plane

`dispatch` of `leshiy-reality/src/control.rs` answers one request on the user store. Requests are
dispatched on a pool of threads: each is a few calls of the store, and the calls of different requests
interleave. Only `Update` makes two calls; it writes back what it has read before.
-/

namespace Leshiy.Reality

open Leshiy.Lib

/-! ## Requests and replies -/

structure QuicEndpoint where
  addr : String
  sni : String
  certSha256 : Option (Block 32)
  deriving DecidableEq

structure UriIssuer where
  serverPublic : Block 32
  host : String
  quic : Option QuicEndpoint
  defaultSni : Option String

def formatRealityUriFull (serverPublic : Block 32) (hostPort sni : String) (shortId : ShortId)
    (quic : Option QuicEndpoint) : String :=
  "leshiy://" ++ base64UrlEncode serverPublic.1 ++ "@" ++ hostPort ++ "?sni=" ++ sni ++ "&sid=" ++
    hexEncode shortId.1 ++
    match quic with
    | none => ""
    | some q =>
      "&quic=" ++ q.addr ++ "&qsni=" ++ q.sni ++
        match q.certSha256 with
        | none => ""
        | some c => "&qcert=" ++ hexEncode c.1

inductive Req where
  | add (shortId sni : Option String) (enabled : Option Bool) (expiresAt dataCap : Option UInt64)
      (rateUp rateDown : Option UInt32)
  | update (shortId : String) (expiresAt dataCap : Option UInt64) (rateUp rateDown : Option UInt32)
  | remove (shortId : String)
  | disable (shortId : String)
  | enable (shortId : String)
  | resetUsage (shortId : String)
  | show (shortId : String)
  | list
  | uri (shortId : String) (sni : Option String)
  deriving DecidableEq

structure UserJson where
  shortId : String
  enabled : Bool
  expiresAt : Option UInt64
  dataCap : Option UInt64
  rateUp : Option UInt32
  rateDown : Option UInt32
  usedUp : UInt64
  usedDown : UInt64
  deriving DecidableEq

structure Resp where
  ok : Bool
  error : Option String
  uri : Option String
  users : Option (List UserJson)
  user : Option UserJson
  deriving DecidableEq

namespace Resp

def okay : Resp := ⟨true, none, none, none, none⟩

def err (m : String) : Resp := ⟨false, some m, none, none, none⟩

end Resp

def toJson (s : UserStatus) : UserJson where
  shortId := hexEncode s.user.shortId.1
  enabled := s.user.enabled
  expiresAt := s.user.expiresAt
  dataCap := s.user.dataCap
  rateUp := s.user.rateUp
  rateDown := s.user.rateDown
  usedUp := s.usedUp
  usedDown := s.usedDown

def hexid (s : String) : Option ShortId :=
  match hexDecode s with
  | none => none
  | some v => if h : v.length = 8 then some ⟨v, h⟩ else none

/-- The requests that are one call with a `bool` for an answer. -/
def gate (store : InMemoryUserStore) (id : Option ShortId)
    (f : ShortId → Bool × InMemoryUserStore) : InMemoryUserStore × Resp :=
  match id with
  | some i =>
    let r := f i
    (r.2, if r.1 then .okay else .err "unknown short_id")
  | none => (store, .err "bad short_id")

section

variable (issuer : UriIssuer)

def issue (sni : Option String) (id : ShortId) : Resp :=
  { Resp.okay with
    uri := some (formatRealityUriFull issuer.serverPublic issuer.host
      ((sni <|> issuer.defaultSni).getD "") id issuer.quic) }

/-- `dispatch`, undisturbed. `fresh` is the id that `rand_short_id` would draw. -/
def dispatch (fresh : ShortId) (store : InMemoryUserStore) : Req → InMemoryUserStore × Resp
  | .add shortId sni enabled expiresAt dataCap rateUp rateDown =>
    match shortId.elim (some fresh) hexid with
    | none => (store, .err "bad short_id")
    | some id =>
      (store.upsert ⟨id, enabled.getD true, expiresAt, dataCap, rateUp, rateDown⟩, issue issuer sni id)
  | .update shortId expiresAt dataCap rateUp rateDown =>
    match hexid shortId with
    | none => (store, .err "bad short_id")
    | some id =>
      match store.snapshot.find? fun u => u.user.shortId = id with
      | none => (store, .err "unknown short_id")
      | some cur =>
        (store.upsert ⟨id, cur.user.enabled, expiresAt, dataCap, rateUp, rateDown⟩, .okay)
  | .remove shortId => gate store (hexid shortId) store.remove
  | .disable shortId => gate store (hexid shortId) (store.setEnabled · false)
  | .enable shortId => gate store (hexid shortId) (store.setEnabled · true)
  | .resetUsage shortId => gate store (hexid shortId) store.resetUsage
  | .show shortId =>
    match hexid shortId with
    | none => (store, .err "bad short_id")
    | some id =>
      match store.snapshot.find? fun u => u.user.shortId = id with
      | none => (store, .err "unknown short_id")
      | some s => (store, { Resp.okay with user := some (toJson s) })
  | .list => (store, { Resp.okay with users := some (store.snapshot.map toJson) })
  | .uri shortId sni =>
    match hexid shortId with
    | none => (store, .err "bad short_id")
    | some id => (store, issue issuer sni id)

end

/-! ## Calls that interleave -/

/-- A request with the id drawn for it, or a count of the datapath. -/
inductive Task where
  | control (req : Req) (fresh : ShortId)
  | usage (id : ShortId) (up down : UInt64)
  deriving DecidableEq

/-- How far a task has come: an `Update` that has read its user holds the user it will write. A count is
not answered. -/
inductive Phase where
  | waiting
  | upserting (user : User)
  | done (reply : Option Resp)
  deriving DecidableEq

section

variable (issuer : UriIssuer)

/-- A task with nothing between its calls. -/
def Task.serve (store : InMemoryUserStore) : Task → InMemoryUserStore × Option Resp
  | .control req fresh =>
    let r := dispatch issuer fresh store req
    (r.1, some r.2)
  | .usage id up down => (store.addUsage id up down, none)

/-- The first call of a task. -/
def Task.firstCall (store : InMemoryUserStore) (t : Task) : InMemoryUserStore × Phase :=
  match t with
  | .control (.update shortId expiresAt dataCap rateUp rateDown) _ =>
    match hexid shortId with
    | none => (store, .done (some (.err "bad short_id")))
    | some id =>
      match store.snapshot.find? fun u => u.user.shortId = id with
      | none => (store, .done (some (.err "unknown short_id")))
      | some cur =>
        (store, .upserting ⟨id, cur.user.enabled, expiresAt, dataCap, rateUp, rateDown⟩)
  | t =>
    let r := t.serve issuer store
    (r.1, .done r.2)

end

/-- The store and the tasks that are being served. -/
structure Plane where
  store : InMemoryUserStore
  jobs : List (Task × Phase)

namespace Plane

inductive Act where
  | first (i : Nat)
  | second (i : Nat)
  deriving DecidableEq

section

variable (issuer : UriIssuer)

def start (store : InMemoryUserStore) (tasks : List Task) : Plane :=
  ⟨store, tasks.map fun t => (t, .waiting)⟩

def step (s : Plane) : Act → Option (Plane × List Unit)
  | .first i =>
    match s.jobs[i]? with
    | some (t, .waiting) =>
      let r := t.firstCall issuer s.store
      some (⟨r.1, s.jobs.set i (t, r.2)⟩, [])
    | _ => none
  | .second i =>
    match s.jobs[i]? with
    | some (t, .upserting user) =>
      some (⟨s.store.upsert user, s.jobs.set i (t, .done (some .okay))⟩, [])
    | _ => none

/-- The same tasks one at a time: which is next, and what it is answered. -/
def serially (tasks : List Task) (store : InMemoryUserStore) (i : Nat) :
    Option (InMemoryUserStore × List (Nat × Option Resp)) :=
  (tasks[i]?).map fun t =>
    let r := t.serve issuer store
    (r.1, [(i, r.2)])

end

/-- The user that an `Update` is about to write is still there, enabled or disabled as it was when the
`Update` read it. -/
def Unraced (s : Plane) : Act → Prop
  | .second i =>
    ∀ t user, s.jobs[i]? = some (t, .upserting user) →
      (s.store.find user.shortId).map (·.defn.enabled) = some user.enabled
  | .first _ => True

section

variable {issuer : UriIssuer} {store store' : InMemoryUserStore} {t : Task}

/-- What an `Update` that has read its user is going to write. -/
def Upserts (t : Task) (user : User) : Prop :=
  ∃ shortId fresh, t = .control (.update shortId user.expiresAt user.dataCap user.rateUp user.rateDown)
    fresh ∧ hexid shortId = some user.shortId

/-- After its first call a task has been served, or is an `Update` that has only looked. -/
theorem firstCall_cases (issuer : UriIssuer) (store : InMemoryUserStore) (t : Task) :
    (∃ reply, t.firstCall issuer store = ((t.serve issuer store).1, .done reply) ∧
      (t.serve issuer store).2 = reply) ∨
    ∃ user, t.firstCall issuer store = (store, .upserting user) ∧ Upserts t user := by
  unfold Task.firstCall
  split
  · next shortId expiresAt dataCap rateUp rateDown fresh =>
    unfold Task.serve dispatch
    dsimp only
    split
    · exact .inl ⟨_, rfl, rfl⟩
    next id hid =>
    split
    · exact .inl ⟨_, rfl, rfl⟩
    next cur hcur =>
    exact .inr ⟨_, rfl, shortId, fresh, rfl, hid⟩
  · exact .inl ⟨_, rfl, rfl⟩

/-- An `Update` whose user is as it was read does what it would do undisturbed. -/
theorem serve_of_upserts {user : User} (h : Upserts t user)
    (hsame : (store.find user.shortId).map (·.defn.enabled) = some user.enabled) :
    t.serve issuer store = (store.upsert user, some .okay) := by
  obtain ⟨shortId, fresh, rfl, hid⟩ := h
  obtain ⟨e, he, hen⟩ := Option.map_eq_some_iff.mp hsame
  have hfind : store.snapshot.find? (fun u => u.user.shortId = user.shortId) = some e.status := by
    rw [InMemoryUserStore.find?_snapshot, he, Option.map_some]
  unfold Task.serve dispatch
  dsimp only
  rw [hid]
  dsimp only
  rw [hfind]
  dsimp only
  have hen' : e.status.user.enabled = user.enabled := hen
  rw [hen']

/-! ## Runs -/

variable {tasks : List Task} {sys sys' : Plane}

/-- A serial run that has served the tasks that are done, in the order in which they were. -/
structure Explains (issuer : UriIssuer) (store₀ : InMemoryUserStore) (tasks : List Task) (sys : Plane)
    (slog : List (Taken InMemoryUserStore Nat (Nat × Option Resp))) : Prop where
  run : Exec (serially issuer tasks) store₀ slog sys.store
  tasks : sys.jobs.map Prod.fst = tasks
  nodup : (slog.map Taken.act).Nodup
  served : ∀ i, i ∈ slog.map Taken.act ↔ ∃ t r, sys.jobs[i]? = some (t, .done r)
  replies : ∀ i r, (i, r) ∈ shown slog → ∃ t, sys.jobs[i]? = some (t, .done r)
  looked : ∀ (i : Nat) (t : Task) (user : User), sys.jobs[i]? = some (t, Phase.upserting user) → Upserts t user

theorem explains_start (store₀ : InMemoryUserStore) (tasks : List Task) :
    Explains issuer store₀ tasks (start store₀ tasks) [] where
  run := .nil
  tasks := by
    show (tasks.map _).map Prod.fst = tasks
    rw [List.map_map]
    exact List.map_id tasks
  nodup := by simp
  served := by
    intro i
    simp [start]
  replies := by simp
  looked := by
    intro i t user h
    simp [start] at h

variable {slog : List (Taken InMemoryUserStore Nat (Nat × Option Resp))} {i : Nat} {p : Phase}

theorem Explains.task_of_job (h : Explains issuer store tasks sys slog)
    (hj : sys.jobs[i]? = some (t, p)) : tasks[i]? = some t := by
  rw [← h.tasks, List.getElem?_map, hj]
  rfl

theorem getElem?_set_job {jobs : List (Task × Phase)} {x : Task × Phase}
    (hj : jobs[i]? = some (t, p)) (j : Nat) :
    (jobs.set i x)[j]? = if j = i then some x else jobs[j]? := by
  obtain ⟨hlt, -⟩ := List.getElem?_eq_some_iff.mp hj
  rw [List.getElem?_set]
  by_cases hij : i = j
  · rw [if_pos hij, if_pos hij.symm, if_pos hlt]
  · rw [if_neg hij, if_neg (Ne.symm hij)]

theorem map_fst_set_job {jobs : List (Task × Phase)} {q : Phase} (hj : jobs[i]? = some (t, p)) :
    (jobs.set i (t, q)).map Prod.fst = jobs.map Prod.fst := by
  apply List.ext_getElem?
  intro j
  rw [List.getElem?_map, List.getElem?_map, getElem?_set_job hj]
  split
  · next hji => rw [hji, hj, Option.map_some, Option.map_some]
  · rfl

/-- A task is served where it stands: the serial run serves it next. -/
theorem Explains.serve {r : Option Resp} (h : Explains issuer store tasks sys slog)
    (hj : sys.jobs[i]? = some (t, p)) (hp : ∀ r, p ≠ .done r)
    (hserve : t.serve issuer sys.store = (store', r)) :
    Explains issuer store tasks ⟨store', sys.jobs.set i (t, .done r)⟩
      (slog ++ [⟨sys.store, i, [(i, r)]⟩]) := by
  have hnew : i ∉ slog.map Taken.act := by
    rw [h.served]
    rintro ⟨t', r', hj'⟩
    rw [hj] at hj'
    cases hj'
    exact hp r' rfl
  refine ⟨?_, ?_, ?_, ?_, ?_, ?_⟩
  · refine h.run.snoc ?_
    unfold serially
    rw [h.task_of_job hj, Option.map_some, hserve]
  · exact (map_fst_set_job hj).trans h.tasks
  · rw [List.map_append, List.nodup_append]
    refine ⟨h.nodup, by simp, ?_⟩
    rintro a ha b hb rfl
    rw [List.map_singleton, List.mem_singleton] at hb
    have hai : a = i := hb
    exact hnew (hai ▸ ha)
  · intro j
    rw [List.map_append, List.mem_append, List.map_singleton, List.mem_singleton, h.served,
      getElem?_set_job hj]
    by_cases hji : j = i
    · rw [if_pos hji]
      exact iff_of_true (.inr hji) ⟨t, r, rfl⟩
    · rw [if_neg hji]
      exact or_iff_left hji
  · intro j r' hmem
    rw [shown_snoc, List.mem_append] at hmem
    rw [getElem?_set_job hj]
    rcases hmem with hmem | hmem
    · obtain ⟨t', hj'⟩ := h.replies j r' hmem
      rw [if_neg]
      · exact ⟨t', hj'⟩
      · rintro rfl
        rw [hj] at hj'
        cases hj'
        exact hp r' rfl
    · obtain ⟨rfl, rfl⟩ := Prod.mk.inj (List.mem_singleton.mp hmem)
      exact ⟨t, if_pos rfl⟩
  · intro j t' user hj'
    rw [getElem?_set_job hj] at hj'
    split at hj'
    · cases hj'
    · exact h.looked j t' user hj'

/-- A task has only looked: the serial run waits for it. -/
theorem Explains.look {user : User} (h : Explains issuer store tasks sys slog)
    (hj : sys.jobs[i]? = some (t, .waiting)) (hup : Upserts t user) :
    Explains issuer store tasks ⟨sys.store, sys.jobs.set i (t, .upserting user)⟩ slog := by
  refine ⟨h.run, (map_fst_set_job hj).trans h.tasks, h.nodup, ?_, ?_, ?_⟩
  · intro j
    rw [h.served, getElem?_set_job hj]
    by_cases hji : j = i
    · subst hji
      rw [if_pos rfl, hj]
      simp
    · rw [if_neg hji]
  · intro j r hmem
    obtain ⟨t', hj'⟩ := h.replies j r hmem
    rw [getElem?_set_job hj, if_neg]
    · exact ⟨t', hj'⟩
    · rintro rfl
      cases hj.symm.trans hj'
  · intro j t' user' hj'
    rw [getElem?_set_job hj] at hj'
    split at hj'
    · cases hj'
      exact hup
    · exact h.looked j t' user' hj'

theorem Explains.step {a : Act} {ev : List Unit} (h : Explains issuer store tasks sys slog)
    (hok : sys.Unraced a) (hs : sys.step issuer a = some (sys', ev)) :
    ∃ slog', Explains issuer store tasks sys' slog' := by
  cases a with
  | first i =>
    unfold Plane.step at hs
    dsimp only at hs
    split at hs
    · next t hj =>
      rcases firstCall_cases issuer sys.store t with ⟨r, hf, hr⟩ | ⟨user, hf, hup⟩
      · rw [hf] at hs
        cases hs
        exact ⟨_, h.serve hj (by simp) (Prod.ext rfl hr)⟩
      · rw [hf] at hs
        cases hs
        exact ⟨slog, h.look hj hup⟩
    · cases hs
  | second i =>
    unfold Plane.step at hs
    dsimp only at hs
    split at hs
    · next t user hj =>
      cases hs
      exact ⟨_, h.serve hj (by simp) (serve_of_upserts (h.looked i t user hj) (hok t user hj))⟩
    · cases hs

/-- **Unraced requests are served as if one at a time.** In a run in which every `Update`, when it comes
to write, finds the user there and enabled or disabled as it read them, the final store and the replies
are those of the same requests in some order, one after the other. -/
theorem serializable_of_unraced {log : List (Taken Plane Act Unit)}
    (h : Exec (step issuer) (start store tasks) log sys) (hok : Steps Unraced log)
    (hdone : ∀ job ∈ sys.jobs, ∃ r, job.2 = .done r) :
    ∃ slog, Exec (serially issuer tasks) store slog sys.store ∧
      (slog.map Taken.act).Perm (List.range tasks.length) ∧
      ∀ i r, (i, r) ∈ shown slog → (sys.jobs[i]?).map Prod.snd = some (.done r) := by
  have hex : ∃ slog, Explains issuer store tasks sys slog := by
    refine h.inv (P := fun log sys => Steps Unraced log → ∃ slog, Explains issuer store tasks sys slog)
      (fun _ => ⟨[], explains_start store tasks⟩) ?_ hok
    intro log sys a sys' ev _ ih hs hok
    obtain ⟨hok', ha⟩ := steps_snoc.mp hok
    obtain ⟨slog, hex⟩ := ih hok'
    exact hex.step ha hs
  obtain ⟨slog, hex⟩ := hex
  refine ⟨slog, hex.run, ?_, ?_⟩
  · refine (List.perm_ext_iff_of_nodup hex.nodup List.nodup_range).mpr ?_
    intro i
    have hlen : sys.jobs.length = tasks.length := by rw [← hex.tasks, List.length_map]
    rw [hex.served, List.mem_range, ← hlen]
    constructor
    · rintro ⟨t, r, hj⟩
      exact (List.getElem?_eq_some_iff.mp hj).1
    · intro hi
      obtain ⟨r, hr⟩ := hdone sys.jobs[i] (List.getElem_mem hi)
      refine ⟨sys.jobs[i].1, r, ?_⟩
      rw [List.getElem?_eq_getElem hi, ← hr]
  · intro i r hmem
    obtain ⟨t, hj⟩ := hex.replies i r hmem
    rw [hj]
    rfl

end

instance (s : Plane) (a : Act) : Decidable (s.Unraced a) :=
  match a with
  | .first _ => isTrue trivial
  | .second i =>
    match h : s.jobs[i]? with
    | some (t, .upserting user) =>
      decidable_of_iff ((s.store.find user.shortId).map (·.defn.enabled) = some user.enabled) (by
        simp [Unraced, h])
    | some (_, .waiting) | some (_, .done _) | none => isTrue (by simp [Unraced, h])

/-- The issuer of the source's tests, and a store with one user. -/
def smallIssuer : UriIssuer := ⟨Block.fill 32 9, "h:443", none, none⟩

def oneUser : InMemoryUserStore := .upsert .empty ⟨Block.fill 8 1, true, none, none, none, none⟩

/-- New limits for that user, and an order to disable them. -/
def updateAndDisable : List Task :=
  [.control (.update "0101010101010101" none (some 1000) none none) (Block.fill 8 0),
    .control (.disable "0101010101010101") (Block.fill 8 0)]

/-- Both requests have been answered. -/
theorem done_of_replies {sys : Plane}
    (hjobs : sys.jobs.map Prod.snd = [.done (some .okay), .done (some .okay)]) :
    ∀ job ∈ sys.jobs, ∃ r, job.2 = .done r := by
  intro job hmem
  have hsnd : job.2 ∈ sys.jobs.map Prod.snd := List.mem_map_of_mem hmem
  rw [hjobs] at hsnd
  exact ⟨some .okay, by simpa using hsnd⟩

/-- The two requests one after the other. -/
theorem serializable_of_update_disable :
    ∃ log sys, Exec (step smallIssuer) (start oneUser updateAndDisable) log sys ∧ Steps Unraced log ∧
      (∀ job ∈ sys.jobs, ∃ r, job.2 = .done r) ∧
      ∃ slog, Exec (serially smallIssuer updateAndDisable) oneUser slog sys.store := by
  obtain ⟨log, sys, h, hok, hjobs⟩ := exec_reaches (step smallIssuer) (start oneUser updateAndDisable)
    [.first 0, .second 0, .first 1]
    (fun log sys => Steps Unraced log ∧
      sys.jobs.map Prod.snd = [.done (some .okay), .done (some .okay)]) (by decide)
  have hdone := done_of_replies hjobs
  obtain ⟨slog, hrun, -⟩ := serializable_of_unraced h hok hdone
  exact ⟨log, sys, h, hok, hdone, slog, hrun⟩

/-- The `Update` has read that the user is enabled, the user is disabled, and the `Update` writes what it
read: the user is enabled, as after neither order of the two. -/
theorem not_serializable :
    ¬∀ issuer store tasks log sys, Exec (step issuer) (start store tasks) log sys →
      (∀ job ∈ sys.jobs, ∃ r, job.2 = .done r) →
      ∃ slog, Exec (serially issuer tasks) store slog sys.store ∧
        (slog.map Taken.act).Perm (List.range tasks.length) ∧
        ∀ i r, (i, r) ∈ shown slog → (sys.jobs[i]?).map Prod.snd = some (.done r) := by
  intro hclaim
  obtain ⟨log, sys, h, hjobs, hstore⟩ := exec_reaches (step smallIssuer)
    (start oneUser updateAndDisable) [.first 0, .first 1, .second 0]
    (fun _ sys => sys.jobs.map Prod.snd = [.done (some .okay), .done (some .okay)] ∧
      sys.store.snapshot.map (·.user.enabled) = [true]) (by decide)
  have hdone := done_of_replies hjobs
  obtain ⟨slog, hrun, hperm, -⟩ := hclaim _ _ _ log sys h hdone
  have horder : slog.map Taken.act = [0, 1] ∨ slog.map Taken.act = [1, 0] := List.perm_pair.mp hperm
  have hfalse : (exec (serially smallIssuer updateAndDisable) oneUser (slog.map Taken.act)).all
      (fun r => r.2.snapshot.map (·.user.enabled) = [false]) = true := by
    rcases horder with hacts | hacts
    · rw [hacts]
      decide
    · rw [hacts]
      decide
  rw [exec_complete hrun] at hfalse
  have hfalse' : sys.store.snapshot.map (·.user.enabled) = [false] := of_decide_eq_true hfalse
  cases hstore.symm.trans hfalse'

end Plane

end Leshiy.Reality
