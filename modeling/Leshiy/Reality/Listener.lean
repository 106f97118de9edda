import Leshiy.Reality.Serve

/-!
# The connections of a listener

`run_reality_server` (`leshiy-reality/src/server.rs`) accepts connections that share one replay guard.
Each has its own clock, read when it was accepted, and asks the guard whenever it gets that far: what
happens between the connections is a run of `Listener.step`.
-/

namespace Leshiy.Reality

open Leshiy.Lib Leshiy.Tls

/-- A connection on its way to the guard: its clock and the payload of its first record. -/
structure Conn where
  now : UInt32
  payload : Bytes
  deriving DecidableEq

structure Listener where
  guard : ReplayGuard
  waiting : List Conn

/-- A connection comes in, or one of those that wait is decided. The user store may say something
else each time. -/
inductive Listener.Act (L : Type) where
  | accept (c : Conn)
  | decide (i : Nat) (authorize : Block 8 → Nat → Option L)

/-- A connection that was decided: what the guard was asked and said, and whether the connection was
taken over. -/
structure Decided where
  conn : Conn
  asked : Option (Key × Bool)
  takenOver : Bool
  deriving DecidableEq

def Verdict.isTakeOver {L : Type} : Verdict L → Bool
  | .takeOver .. => true
  | _ => false

namespace Listener

section

variable {L : Type} (sha256 : HashSuite 32) (aes256Gcm : Aead (Block 32) (Block 12))
  (x25519 : KeyAgreement (Block 32) (Block 32) (Block 32)) (cfg : ServerAuthConfig)

/-- The guard covers the whole window in which a hello is accepted. -/
def start : Listener := ⟨ReplayGuard.new (cfg.maxTimeDiff.saturatingMul 2), []⟩

def step (s : Listener) : Act L → Option (Listener × List Decided)
  | .accept c => some ({ s with waiting := s.waiting ++ [c] }, [])
  | .decide i authorize =>
    match s.waiting[i]? with
    | none => none
    | some c =>
      let d := decideFirst sha256 aes256Gcm x25519 cfg authorize s.guard c.payload c.now
      some (⟨d.guard, s.waiting.eraseIdx i⟩, [⟨c, d.asked, d.verdict.isTakeOver⟩])

end

/-! ## One decision -/

section

variable {L : Type} {sha256 : HashSuite 32} {aes256Gcm : Aead (Block 32) (Block 12)}
  {x25519 : KeyAgreement (Block 32) (Block 32) (Block 32)} {cfg : ServerAuthConfig}

/-- What the guard is asked it is asked at the connection's clock. -/
theorem decideFirst_guard (authorize : Block 8 → Nat → Option L) (guard : ReplayGuard)
    (payload : Bytes) (nowSecs : UInt32) :
    let d := decideFirst sha256 aes256Gcm x25519 cfg authorize guard payload nowSecs
    (d.asked = none ∧ d.guard = guard) ∨
      ∃ key, d.asked = some (key, (guard.checkAndRecord key nowSecs.toNat).1) ∧
        d.guard = (guard.checkAndRecord key nowSecs.toNat).2 := by
  intro d
  show (d.asked = none ∧ d.guard = guard) ∨ _
  unfold d decideFirst
  split
  · exact .inl ⟨rfl, rfl⟩
  split
  · split
    · exact .inl ⟨rfl, rfl⟩
    split
    · exact .inl ⟨rfl, rfl⟩
    · next key _ => exact .inr ⟨key, rfl, rfl⟩
  · split
    · exact .inl ⟨rfl, rfl⟩
    · next key _ => exact .inr ⟨key, rfl, rfl⟩

/-- The guard is asked about every hello that is accepted. -/
theorem replayKey_of_authed {payload : Bytes} {nowSecs clientTime : UInt32} {shortId : Block 8}
    {authKey : Block 32} (h : classifyFull sha256 aes256Gcm x25519 payload cfg nowSecs =
      .authed shortId clientTime authKey) :
    ∃ fields key, extractClientHelloFields payload = .ok fields ∧
      replayKey fields.random.1 fields.sessionId = some key := by
  obtain ⟨fields, _, _, ha, -⟩ := classifyFull_eq_authed_iff.mp h
  exact ⟨fields, _, ha.parsed, dif_pos ⟨fields.random.2, ha.sessionId⟩⟩

/-- **Only a hello that is accepted and new is taken over.** -/
theorem of_isTakeOver {authorize : Block 8 → Nat → Option L} {guard : ReplayGuard}
    {payload : Bytes} {nowSecs : UInt32}
    (h : (decideFirst sha256 aes256Gcm x25519 cfg authorize guard payload nowSecs).verdict.isTakeOver =
      true) :
    ∃ fields key shortId clientTime authKey, extractClientHelloFields payload = .ok fields ∧
      replayKey fields.random.1 fields.sessionId = some key ∧
      classifyFull sha256 aes256Gcm x25519 payload cfg nowSecs =
        .authed shortId clientTime authKey ∧
      (decideFirst sha256 aes256Gcm x25519 cfg authorize guard payload nowSecs).asked =
        some (key, false) := by
  unfold decideFirst at h ⊢
  split at h
  · cases h
  next fields hparse =>
  split at h
  · split at h
    · cases h
    split at h
    · cases h
    dsimp only at h
    split at h
    · cases h
    · cases h
  next shortId clientTime authKey hclass =>
  obtain ⟨fields', key, hparse', hkey⟩ := replayKey_of_authed hclass
  cases hparse.symm.trans hparse'
  rw [hkey] at h
  dsimp only at h
  split at h
  · cases h
  next hnew =>
  refine ⟨fields, key, shortId, clientTime, authKey, hparse', hkey, hclass, ?_⟩
  rw [hkey]
  show some (key, (guard.checkAndRecord key nowSecs.toNat).1) = some (key, false)
  rw [Bool.eq_false_iff.mpr hnew]

/-- The same hello carries the same time, whenever it is accepted. -/
theorem clientTime_unique {payload : Bytes} {now now' t t' : UInt32} {shortId shortId' : Block 8}
    {authKey authKey' : Block 32}
    (h : classifyFull sha256 aes256Gcm x25519 payload cfg now = .authed shortId t authKey)
    (h' : classifyFull sha256 aes256Gcm x25519 payload cfg now' = .authed shortId' t' authKey') :
    t = t' := by
  obtain ⟨fields, clientPub, pt, ha, -, rfl, -⟩ := classifyFull_eq_authed_iff.mp h
  obtain ⟨fields', clientPub', pt', ha', -, rfl, -⟩ := classifyFull_eq_authed_iff.mp h'
  cases ha.parsed.symm.trans ha'.parsed
  cases ha.keyShare.symm.trans ha'.keyShare
  obtain ⟨pre, n, post, hch, hpre, hdec⟩ := ha.opens
  obtain ⟨pre', n', post', hch', hpre', hdec'⟩ := ha'.opens
  have haad := aadFromClientHello_of_extract ha.parsed hch hpre
  rw [aadFromClientHello_of_extract ha.parsed hch' hpre', ha.sessionId] at haad
  rw [haad] at hdec'
  cases Subtype.ext (Option.some.inj (hdec.symm.trans hdec'))
  rfl

/-- **Two clocks at which one hello is accepted** are no further apart than the guard remembers. -/
theorem clocks_close {payload : Bytes} {now now' t t' : UInt32} {shortId shortId' : Block 8}
    {authKey authKey' : Block 32}
    (h : classifyFull sha256 aes256Gcm x25519 payload cfg now = .authed shortId t authKey)
    (h' : classifyFull sha256 aes256Gcm x25519 payload cfg now' = .authed shortId' t' authKey') :
    now'.toNat ≤ now.toNat + 2 * cfg.maxTimeDiff.asSecs := by
  have ht := clientTime_unique h h'
  obtain ⟨_, _, _, ha, -, rfl, -⟩ := classifyFull_eq_authed_iff.mp h
  obtain ⟨_, _, _, ha', -, rfl, -⟩ := classifyFull_eq_authed_iff.mp h'
  have h1 := ha.inTime
  have h2 := ha'.inTime
  rw [← ht] at h2
  unfold absDiff at h1 h2
  omega

/-! ## Runs -/

/-- The keys that were new to the guard when it was asked. -/
def recorded (evs : List Decided) : Finset Key :=
  (evs.filterMap fun e => match e.asked with
    | some (key, false) => some key
    | _ => none).toFinset

/-- How far the clock of one connection may be behind that of another that asked the guard first. -/
def slack (cfg : ServerAuthConfig) : Nat :=
  (cfg.maxTimeDiff.saturatingMul 2).asSecs - 2 * cfg.maxTimeDiff.asSecs

/-- The guard is asked in the order of the clocks, up to the slack. -/
def InClockOrder (cfg : ServerAuthConfig) (evs : List Decided) : Prop :=
  evs.Pairwise fun e e' => e.asked.isSome → e'.asked.isSome →
    e.conn.now.toNat ≤ e'.conn.now.toNat + slack cfg

/-- What the guard remembers of the connections that were new to it: the entry of such a connection
is there, with only keys behind it that were recorded since, as long as no clock went past it and
fewer keys were recorded than there is room for. -/
structure Remembers (g : ReplayGuard) (evs : List Decided) : Prop where
  wf : ReplayGuard.WF g.order g.present
  entry : ∀ before e after key, evs = before ++ e :: after → e.asked = some (key, false) →
    (∀ e' ∈ after, e'.asked.isSome → e'.conn.now.toNat ≤ e.conn.now.toNat + g.ttlSecs) →
    (recorded after).card < g.maxEntries →
    ∃ pre post, g.order = pre ++ (key, e.conn.now.toNat) :: post ∧
      ∀ k ∈ post.map Prod.fst, k ∈ recorded after

variable {g : ReplayGuard} {evs : List Decided} {e : Decided} {key : Key} {b : Bool}

theorem recorded_append (evs evs' : List Decided) :
    recorded (evs ++ evs') = recorded evs ∪ recorded evs' := by
  unfold recorded
  rw [List.filterMap_append, List.toFinset_append]

theorem recorded_new (h : e.asked = some (key, false)) : recorded [e] = {key} := by
  simp [recorded, h]

/-- A connection that does not ask the guard changes nothing. -/
theorem Remembers.snoc_none (h : Remembers g evs) (he : e.asked = none) :
    Remembers g (evs ++ [e]) := by
  refine ⟨h.wf, ?_⟩
  intro before e₁ after key hsplit hnew hclock hcard
  obtain ⟨-, rfl, -⟩ | ⟨after, rfl, hevs⟩ := snoc_eq_append_cons hsplit
  · rw [he] at hnew
    cases hnew
  · have hsame : recorded (after ++ [e]) = recorded after := by
      have hnil : recorded [e] = ∅ := by simp [recorded, he]
      rw [recorded_append, hnil, Finset.union_empty]
    rw [hsame] at hcard ⊢
    exact h.entry before e₁ after key hevs hnew
      (fun e' he' => hclock e' (List.mem_append_left _ he')) hcard

/-- **What the guard remembers after it was asked once more.** -/
theorem Remembers.snoc_some (h : Remembers g evs)
    (he : e.asked = some (key, (g.checkAndRecord key e.conn.now.toNat).1)) :
    Remembers (g.checkAndRecord key e.conn.now.toNat).2 (evs ++ [e]) := by
  refine ⟨ReplayGuard.checkAndRecord_wf h.wf, ?_⟩
  intro before e₁ after key₁ hsplit hnew hclock hcard
  rw [ReplayGuard.checkAndRecord_ttlSecs] at hclock
  rw [ReplayGuard.checkAndRecord_maxEntries] at hcard
  obtain ⟨rfl, rfl, -⟩ | ⟨after, rfl, hevs⟩ := snoc_eq_append_cons hsplit
  · -- The new entry itself stands at the end.
    rw [he] at hnew
    simp only [Option.some.injEq, Prod.mk.injEq] at hnew
    obtain ⟨rfl, hnew⟩ := hnew
    obtain ⟨pre, horder⟩ := ReplayGuard.checkAndRecord_new hnew
    exact ⟨pre, [], horder, by simp⟩
  · have hle : (recorded after).card ≤ (recorded (after ++ [e])).card := by
      rw [recorded_append]
      exact Finset.card_le_card Finset.subset_union_left
    obtain ⟨pre, post, horder, hpost⟩ := h.entry before e₁ after key₁ hevs hnew
      (fun e' he' => hclock e' (List.mem_append_left _ he')) (by omega)
    have hnow : e.conn.now.toNat ≤ e₁.conn.now.toNat + g.ttlSecs :=
      hclock e (by simp) (by simp [he])
    have hsub : ∀ k ∈ recorded after, k ∈ recorded (after ++ [e]) := by
      intro k hk
      rw [recorded_append]
      exact Finset.mem_union_left _ hk
    obtain ⟨-, pre', horder'⟩ | ⟨hnew', hfresh, hkept⟩ :=
      ReplayGuard.checkAndRecord_keeps key h.wf horder hnow
    · exact ⟨pre', post, horder', fun k hk => hsub k (hpost k hk)⟩
    · have hkey : key ∈ recorded (after ++ [e]) := by
        rw [recorded_append, recorded_new (he.trans (by rw [hnew']))]
        simp
      -- The keys behind the entry and the new one were all recorded since, and are different.
      have hroom : post.length + 1 < g.maxEntries := by
        have hnodup : (key :: post.map Prod.fst).Nodup := by
          refine List.nodup_cons.mpr ⟨hfresh, ?_⟩
          have hall := h.wf.nodup
          rw [horder, List.map_append, List.map_cons] at hall
          exact (List.nodup_cons.mp (List.nodup_append.mp hall).2.1).2
        have hsubset : (key :: post.map Prod.fst).toFinset ⊆ recorded (after ++ [e]) := by
          intro k hk
          rw [List.mem_toFinset, List.mem_cons] at hk
          obtain rfl | hk := hk
          · exact hkey
          · exact hsub k (hpost k hk)
        have hcard' := Finset.card_le_card hsubset
        rw [List.toFinset_card_of_nodup hnodup, List.length_cons, List.length_map] at hcard'
        omega
      obtain ⟨pre', horder'⟩ := hkept hroom
      refine ⟨pre', _, horder', ?_⟩
      intro k hk
      rw [List.map_append, List.mem_append] at hk
      obtain hk | hk := hk
      · exact hsub k (hpost k hk)
      · rw [List.map_singleton, List.mem_singleton] at hk
        subst hk
        exact hkey

/-- A connection that was taken over carried a hello that was accepted and new. -/
def Took (sha256 : HashSuite 32) (aes256Gcm : Aead (Block 32) (Block 12))
    (x25519 : KeyAgreement (Block 32) (Block 32) (Block 32)) (cfg : ServerAuthConfig) (e : Decided) :
    Prop :=
  ∃ fields key shortId clientTime authKey, extractClientHelloFields e.conn.payload = .ok fields ∧
    replayKey fields.random.1 fields.sessionId = some key ∧
    classifyFull sha256 aes256Gcm x25519 e.conn.payload cfg e.conn.now =
      .authed shortId clientTime authKey ∧
    e.asked = some (key, false)

/-- Between two takeovers of one hello the guard recorded as many keys as it has room for. -/
def Once (maxEntries : Nat) (evs : List Decided) : Prop :=
  ∀ before e mid e' after, evs = before ++ e :: (mid ++ e' :: after) →
    e.takenOver = true → e'.takenOver = true → e.conn.payload = e'.conn.payload →
    maxEntries ≤ (recorded mid).card

/-- The entry of a hello that was taken over is found when the hello comes again. -/
theorem Remembers.again (hmem : Remembers g evs) (httl : g.ttlSecs =
      (cfg.maxTimeDiff.saturatingMul 2).asSecs) {before mid : List Decided} {e' : Decided}
    (hevs : evs = before ++ e :: mid) (horder : InClockOrder cfg (evs ++ [e']))
    (htook : Took sha256 aes256Gcm x25519 cfg e) (htook' : Took sha256 aes256Gcm x25519 cfg e')
    (hsame : e.conn.payload = e'.conn.payload)
    (hasked : ∀ key b, e'.asked = some (key, b) → b = (g.checkAndRecord key e'.conn.now.toNat).1) :
    g.maxEntries ≤ (recorded mid).card := by
  obtain ⟨fields, key, _, _, _, hparse, hkey, hclass, hnew⟩ := htook
  obtain ⟨fields', key', _, _, _, hparse', hkey', hclass', hnew'⟩ := htook'
  rw [← hsame] at hparse' hclass'
  cases hparse.symm.trans hparse'
  cases hkey.symm.trans hkey'
  have hclose := clocks_close hclass hclass'
  have hcover := cfg.maxTimeDiff.le_asSecs_saturatingMul 2
  have hlt : ∀ n : UInt32, n.toNat < 2 ^ 32 := fun n => n.toNat_lt
  by_contra hcard
  obtain ⟨pre, post, hentry, -⟩ := hmem.entry before e mid key hevs hnew (by
    intro e'' he'' hsome
    have hle : e''.conn.now.toNat ≤ e'.conn.now.toNat + slack cfg := by
      have hpair := (List.pairwise_append.mp horder).2.2
      exact hpair e'' (by rw [hevs]; simp [he'']) e' (by simp) hsome (by simp [hnew'])
    have := hlt e''.conn.now
    unfold slack at hle
    omega) (by omega)
  have hfound := ReplayGuard.checkAndRecord_of_live e'.conn.now.toNat hmem.wf hentry (by
    have := hlt e'.conn.now
    omega)
  rw [← hasked key false hnew'] at hfound
  cases hfound

/-- What holds of every run whose connections ask the guard in clock order. -/
structure Protected (sha256 : HashSuite 32) (aes256Gcm : Aead (Block 32) (Block 12))
    (x25519 : KeyAgreement (Block 32) (Block 32) (Block 32)) (cfg : ServerAuthConfig)
    (g : ReplayGuard) (evs : List Decided) : Prop where
  ttl : g.ttlSecs = (cfg.maxTimeDiff.saturatingMul 2).asSecs
  room : g.maxEntries = 100000
  memory : Remembers g evs
  took : ∀ e ∈ evs, e.takenOver = true → Took sha256 aes256Gcm x25519 cfg e
  once : InClockOrder cfg evs → Once 100000 evs

theorem Once.snoc {maxEntries : Nat} (h : Once maxEntries evs)
    (hnew : ∀ before e₁ mid, evs = before ++ e₁ :: mid → e₁.takenOver = true → e.takenOver = true →
      e₁.conn.payload = e.conn.payload → maxEntries ≤ (recorded mid).card) :
    Once maxEntries (evs ++ [e]) := by
  intro before e₁ mid e' after hsplit htook htook' hsame
  have hsplit' : evs ++ [e] = (before ++ e₁ :: mid) ++ e' :: after := by
    rw [hsplit]
    simp
  obtain ⟨-, rfl, hevs⟩ | ⟨after, rfl, hevs⟩ := snoc_eq_append_cons hsplit'
  · exact hnew before e₁ mid hevs htook htook' hsame
  · refine h before e₁ mid e' after ?_ htook htook' hsame
    rw [hevs]
    simp

/-- One more decision keeps the protection. -/
theorem Protected.snoc {g' : ReplayGuard} (h : Protected sha256 aes256Gcm x25519 cfg g evs)
    (hguard : (e.asked = none ∧ g' = g) ∨
      ∃ key, e.asked = some (key, (g.checkAndRecord key e.conn.now.toNat).1) ∧
        g' = (g.checkAndRecord key e.conn.now.toNat).2)
    (htook : e.takenOver = true → Took sha256 aes256Gcm x25519 cfg e) :
    Protected sha256 aes256Gcm x25519 cfg g' (evs ++ [e]) := by
  have hall : ∀ e' ∈ evs ++ [e], e'.takenOver = true → Took sha256 aes256Gcm x25519 cfg e' := by
    intro e' he' htaken
    obtain he' | he' := List.mem_append.mp he'
    · exact h.took e' he' htaken
    · cases List.mem_singleton.mp he'
      exact htook htaken
  have hasked : ∀ key b, e.asked = some (key, b) →
      b = (g.checkAndRecord key e.conn.now.toNat).1 := by
    intro key b hb
    obtain ⟨hnone, -⟩ | ⟨key', hsome, -⟩ := hguard
    · rw [hnone] at hb
      cases hb
    · rw [hsome] at hb
      cases hb
      rfl
  have honce : InClockOrder cfg (evs ++ [e]) → Once 100000 (evs ++ [e]) := by
    intro horder
    refine (h.once (List.pairwise_append.mp horder).1).snoc ?_
    intro before e₁ mid hevs htaken htaken' hsame
    have hle := h.memory.again h.ttl hevs horder (h.took e₁ (by rw [hevs]; simp) htaken)
      (htook htaken') hsame hasked
    rwa [h.room] at hle
  obtain ⟨hnone, rfl⟩ | ⟨key, hsome, rfl⟩ := hguard
  · exact ⟨h.ttl, h.room, h.memory.snoc_none hnone, hall, honce⟩
  · refine ⟨?_, ?_, h.memory.snoc_some hsome, hall, honce⟩
    · rw [ReplayGuard.checkAndRecord_ttlSecs, h.ttl]
    · rw [ReplayGuard.checkAndRecord_maxEntries, h.room]

/-- **Every run keeps the protection.** -/
theorem Protected.run {s : Listener} {log : List (Taken Listener (Act L) Decided)}
    (hrun : Exec (step sha256 aes256Gcm x25519 cfg) (start cfg) log s) :
    Protected sha256 aes256Gcm x25519 cfg s.guard (shown log) := by
  refine hrun.inv (P := fun log s => Protected sha256 aes256Gcm x25519 cfg s.guard (shown log)) ?_ ?_
  · refine ⟨rfl, rfl, ⟨ReplayGuard.wf_nil, ?_⟩, by simp, fun _ => ?_⟩
    · intro before e after key hsplit
      simp at hsplit
    · intro before e mid e' after hsplit
      simp at hsplit
  · intro log s a s' ev _ h hs
    rw [shown_snoc]
    cases a with
    | accept c =>
      cases hs
      rw [List.append_nil]
      exact h
    | decide i authorize =>
      simp only [step] at hs
      split at hs
      · cases hs
      next c hc =>
      cases hs
      exact h.snoc (decideFirst_guard authorize s.guard c.payload c.now) of_isTakeOver

/--
**No hello is taken over twice** in a run in which the connections ask the guard in the order of
their clocks, unless the guard recorded as many keys in between as it has room for.
-/
theorem takenOver_once {s : Listener} {log : List (Taken Listener (Act L) Decided)}
    (hrun : Exec (step sha256 aes256Gcm x25519 cfg) (start cfg) log s)
    (horder : InClockOrder cfg (shown log)) : Once 100000 (shown log) :=
  (Protected.run hrun).once horder

end

/-! ## Runs over the smallest primitives -/

section

/-- A hello of the smallest primitives, accepted from two minutes before its time to two minutes
after it. -/
theorem exists_hello (random : Block 32) (t : UInt32) : ∃ ch key shortId authKey fields,
    extractClientHelloFields ch = .ok fields ∧
    replayKey fields.random.1 fields.sessionId = some key ∧ key.1.take 32 = random.1 ∧
    ∀ now, absDiff now t ≤ 120 →
      classifyFull (HashSuite.start 32) (Aead.tagged (Block 12) 32 16) (KeyAgreement.xor 32) ch
        smallConfig now = .authed shortId t authKey := by
  let cfg : ClientAuthConfig := ⟨Block.fill 32 5, Block.fill 8 1, "example.org"⟩
  let draw : ClientDraw Bytes := ⟨Block.fill 32 3, [7], random, Block.fill 32 4⟩
  have hsni : (utf8Bytes cfg.sni).length ≤ 255 := by
    show (utf8Bytes "example.org").length ≤ 255
    decide
  obtain ⟨sid, -, hseal, -⟩ := buildAuthedClientHello_eq (HashSuite.start 32) (KeyAgreement.xor 32)
    (Kem.start 1184 1088 32) Aead.tagged_correct .yandex cfg t draw
  have hparse := extract_sent (HashSuite.start 32) (KeyAgreement.xor 32) (Kem.start 1184 1088 32)
    draw (.inl rfl) hsni sid
  refine ⟨_, _, cfg.shortId, serverAuthKey (HashSuite.start 32) (KeyAgreement.xor 32) smallConfig
    ((KeyAgreement.xor 32).pub draw.ephem) draw.chRandom, _, hparse, dif_pos ⟨random.2, sid.2⟩, List.take_left' random.2, ?_⟩
  intro now hnow
  exact classifyFull_sent KeyAgreement.xor_commutes Aead.tagged_correct hseal (.inl rfl) hsni rfl
    (by decide) hnow

/-- A step of the listener over the smallest primitives. -/
def smallStep : Listener → Act Unit → Option (Listener × List Decided) :=
  step (HashSuite.start 32) (Aead.tagged (Block 12) 32 16) (KeyAgreement.xor 32) smallConfig

/-- An accepted hello is decided by what the guard says. -/
theorem smallStep_decide {s : Listener} {i : Nat} {c : Conn} (hc : s.waiting[i]? = some c)
    {fields : ClientHelloFields} {key : Key} {shortId : Block 8} {t : UInt32} {authKey : Block 32}
    (hparse : extractClientHelloFields c.payload = .ok fields)
    (hkey : replayKey fields.random.1 fields.sessionId = some key)
    (hclass : classifyFull (HashSuite.start 32) (Aead.tagged (Block 12) 32 16) (KeyAgreement.xor 32)
      c.payload smallConfig c.now = .authed shortId t authKey) {n : Nat} (hn : c.now.toNat = n)
    {b : Bool} {g : ReplayGuard} (hguard : s.guard.checkAndRecord key n = (b, g)) :
    smallStep s (.decide i fun _ _ => some ()) =
      some (⟨g, s.waiting.eraseIdx i⟩, [⟨c, some (key, b), !b⟩]) := by
  simp only [smallStep, step, hc, decideFirst, hparse, hclass, hkey, hn, hguard]
  cases b with
  | false => rfl
  | true => rfl

/-- The guard with the given entries, of which it has at most two here. -/
def smallGuard (order : List (Key × Nat)) : ReplayGuard :=
  ⟨240, 100000, order, (order.map Prod.fst).toFinset⟩

theorem start_smallConfig : start smallConfig = ⟨smallGuard [], []⟩ := rfl

theorem smallGuard_nil (k : Key) (n : Nat) :
    (smallGuard []).checkAndRecord k n = (false, smallGuard [(k, n)]) := by
  simp [smallGuard, ReplayGuard.checkAndRecord, ReplayGuard.evict, ReplayGuard.makeRoom]

theorem smallStep_accept (s : Listener) (c : Conn) :
    smallStep s (.accept c) = some (⟨s.guard, s.waiting ++ [c]⟩, []) := rfl

/-- Two connections with one hello ask in the order of their clocks: the second is a replay. -/
theorem takenOver_once_of_replay : ∃ log s, Exec smallStep (start smallConfig) log s ∧
    InClockOrder smallConfig (shown log) ∧ (shown log).map Decided.takenOver = [true, false] ∧
    Once 100000 (shown log) := by
  obtain ⟨ch, key, shortId, authKey, fields, hparse, hkey, -, hclass⟩ :=
    exists_hello (Block.fill 32 2) 1000
  have hreplay : (smallGuard [(key, 880)]).checkAndRecord key 1120 =
      (true, smallGuard [(key, 880)]) := by
    simp [smallGuard, ReplayGuard.checkAndRecord, ReplayGuard.evict]
  have h1 : smallStep ⟨smallGuard [], [⟨880, ch⟩, ⟨1120, ch⟩]⟩ (.decide 0 fun _ _ => some ()) =
      some (⟨smallGuard [(key, 880)], [⟨1120, ch⟩]⟩, [⟨⟨880, ch⟩, some (key, false), true⟩]) :=
    smallStep_decide (c := ⟨880, ch⟩) (b := false) rfl hparse hkey (hclass 880 (by decide)) rfl
      (smallGuard_nil key 880)
  have h2 : smallStep ⟨smallGuard [(key, 880)], [⟨1120, ch⟩]⟩ (.decide 0 fun _ _ => some ()) =
      some (⟨smallGuard [(key, 880)], []⟩, [⟨⟨1120, ch⟩, some (key, true), false⟩]) :=
    smallStep_decide (c := ⟨1120, ch⟩) (b := true) rfl hparse hkey (hclass 1120 (by decide)) rfl
      hreplay
  have hrun : Exec smallStep ⟨smallGuard [], []⟩ _ _ :=
    (((Exec.nil.snoc (smallStep_accept _ ⟨880, ch⟩)).snoc (smallStep_accept _ ⟨1120, ch⟩)).snoc
      h1).snoc h2
  have horder : InClockOrder smallConfig
      [⟨⟨880, ch⟩, some (key, false), true⟩, ⟨⟨1120, ch⟩, some (key, true), false⟩] := by
    refine List.pairwise_pair.mpr fun _ _ => ?_
    show (880 : UInt32).toNat ≤ (1120 : UInt32).toNat + _
    exact Nat.le_add_right_of_le (by decide)
  rw [← start_smallConfig] at hrun
  exact ⟨_, _, hrun, horder, rfl, takenOver_once hrun horder⟩

/--
The first hello is recorded at 880. At 1121 another connection asks, and the entry is expired by
its clock; then a connection asks that was accepted with the first hello at 1120, within the window
of that hello, and it is taken over again.
-/
theorem takenOver_twice : ∃ log s, Exec smallStep (start smallConfig) log s ∧
    (shown log).map (fun e => (e.conn.now, e.takenOver)) = [(880, true), (1121, true), (1120, true)] ∧
    ¬ Once 100000 (shown log) := by
  obtain ⟨ch, key, shortId, authKey, fields, hparse, hkey, hrandom, hclass⟩ :=
    exists_hello (Block.fill 32 2) 1000
  obtain ⟨ch', key', shortId', authKey', fields', hparse', hkey', hrandom', hclass'⟩ :=
    exists_hello (Block.fill 32 6) 1121
  have hne : key ≠ key' := by
    rintro rfl
    exact absurd (hrandom.symm.trans hrandom') (by decide)
  have hexpire : (smallGuard [(key, 880)]).checkAndRecord key' 1121 =
      (false, smallGuard [(key', 1121)]) := by
    simp [smallGuard, ReplayGuard.checkAndRecord, ReplayGuard.evict, ReplayGuard.makeRoom]
  have hagain : (smallGuard [(key', 1121)]).checkAndRecord key 1120 =
      (false, smallGuard [(key', 1121), (key, 1120)]) := by
    simp [smallGuard, ReplayGuard.checkAndRecord, ReplayGuard.evict, ReplayGuard.makeRoom, hne,
      Finset.pair_comm]
  have h1 : smallStep ⟨smallGuard [], [⟨880, ch⟩, ⟨1120, ch⟩, ⟨1121, ch'⟩]⟩
        (.decide 0 fun _ _ => some ()) =
      some (⟨smallGuard [(key, 880)], [⟨1120, ch⟩, ⟨1121, ch'⟩]⟩,
        [⟨⟨880, ch⟩, some (key, false), true⟩]) :=
    smallStep_decide (c := ⟨880, ch⟩) (b := false) rfl hparse hkey (hclass 880 (by decide)) rfl
      (smallGuard_nil key 880)
  have h2 : smallStep ⟨smallGuard [(key, 880)], [⟨1120, ch⟩, ⟨1121, ch'⟩]⟩
        (.decide 1 fun _ _ => some ()) =
      some (⟨smallGuard [(key', 1121)], [⟨1120, ch⟩]⟩,
        [⟨⟨1121, ch'⟩, some (key', false), true⟩]) :=
    smallStep_decide (c := ⟨1121, ch'⟩) (b := false) rfl hparse' hkey' (hclass' 1121 (by decide)) rfl
      hexpire
  have h3 : smallStep ⟨smallGuard [(key', 1121)], [⟨1120, ch⟩]⟩ (.decide 0 fun _ _ => some ()) =
      some (⟨smallGuard [(key', 1121), (key, 1120)], []⟩,
        [⟨⟨1120, ch⟩, some (key, false), true⟩]) :=
    smallStep_decide (c := ⟨1120, ch⟩) (b := false) rfl hparse hkey (hclass 1120 (by decide)) rfl
      hagain
  have hrun : Exec smallStep ⟨smallGuard [], []⟩ _ _ :=
    (((((Exec.nil.snoc (smallStep_accept _ ⟨880, ch⟩)).snoc (smallStep_accept _ ⟨1120, ch⟩)).snoc
      (smallStep_accept _ ⟨1121, ch'⟩)).snoc h1).snoc h2).snoc h3
  rw [← start_smallConfig] at hrun
  refine ⟨_, _, hrun, rfl, ?_⟩
  intro honce
  have hle := honce [] ⟨⟨880, ch⟩, some (key, false), true⟩
    [⟨⟨1121, ch'⟩, some (key', false), true⟩] ⟨⟨1120, ch⟩, some (key, false), true⟩ [] rfl rfl rfl rfl
  have hcard : recorded [⟨⟨1121, ch'⟩, some (key', false), true⟩] = {key'} := recorded_new rfl
  rw [hcard, Finset.card_singleton] at hle
  omega

end

end Listener

end Leshiy.Reality
