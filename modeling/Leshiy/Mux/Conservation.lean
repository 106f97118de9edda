import Leshiy.Mux.Credit

/-!
# Credit conservation in a session

`Sys.credit s p id` adds up the credit of stream `id` in the direction from `p` to its peer, over
all the places it can be in. No step of a session increases it, so it never exceeds
`INIT_WINDOW` and no receiver ever buffers more than that. While the stream is live at both
sides it only changes when a `send` that has already paid is dropped.
-/

namespace Leshiy.Mux

open Leshiy.Lib

/-! ## What one endpoint holds for an id -/

namespace Endpoint

variable {e e' : Endpoint} {a : Act} {ev : List Event} {id : UInt32} {h : Nat} {st : Stream}

/-- The stream of an id. -/
def stream? (e : Endpoint) (id : UInt32) : Option Stream := e.objs.find? fun st => st.id == id

theorem stream?_eq_none_iff : e.stream? id = none ↔ id ∉ e.ids := by
  simp [stream?, ids]

theorem stream?_of_getElem? (hnd : e.ids.Nodup) (hst : e.objs[h]? = some st) :
    e.stream? st.id = some st := by
  cases hs : e.stream? st.id with
  | none => exact absurd (mem_ids_of_getElem? hst) (stream?_eq_none_iff.mp hs)
  | some st₁ =>
    obtain ⟨h₁, hst₁⟩ := List.getElem?_of_mem (List.mem_of_find?_eq_some hs)
    have hid : st₁.id = st.id := by simpa using List.find?_some hs
    cases eq_of_id_eq hnd hst₁ hst hid
    exact hst₁.symm.trans hst

theorem getElem?_of_stream? (hs : e.stream? id = some st) :
    st.id = id ∧ ∃ h : Nat, e.objs[h]? = some st :=
  ⟨by simpa using List.find?_some hs, List.getElem?_of_mem (List.mem_of_find?_eq_some hs)⟩

/-- The sender's share. A stream that does not exist yet will start with a full window. -/
def sendSide (e : Endpoint) (id : UInt32) : Nat := (e.stream? id).elim INIT_WINDOW Stream.credit

/-- The receiver's share. -/
def recvSide (e : Endpoint) (id : UInt32) : Nat := (e.stream? id).elim 0 Stream.uncredited

theorem dataBytes_of_mayQueue {f : Frame} (hf : e.mayQueue f) (hid : id ∉ e.ids) :
    dataBytes id f = 0 := by
  rw [dataBytes, if_neg]
  rintro ⟨rfl, hb⟩
  refine hid (hf.2 ?_)
  rcases hb with hb | hb <;> exact Frame.onStream_of_type hb (by simp)

theorem creditBytes_of_mayQueue {f : Frame} (hf : e.mayQueue f) (hid : id ∉ e.ids) :
    creditBytes id f = 0 := by
  rw [creditBytes, if_neg]
  rintro ⟨rfl, hb⟩
  exact hid (hf.2 (Frame.onStream_of_type hb (by simp)))

section

variable (he : Effect e a e' ev) (hwf : e.Wf)
include he hwf

/-- Nothing is queued for a stream that the endpoint does not have. -/
theorem Effect.queued_none (hid : id ∉ e.ids) :
    dataIn id (queuedFrames ev) = 0 ∧ creditIn id (queuedFrames ev) = 0 := by
  rcases he.ids hwf with ⟨-, -, hmay, -⟩ | ⟨target, -, -, -, hq, -⟩ | ⟨f, -, -, hq, -⟩
  · constructor
    · refine List.sum_eq_zero fun n hn => ?_
      obtain ⟨f, hf, rfl⟩ := List.mem_map.mp hn
      exact dataBytes_of_mayQueue (hmay f hf) hid
    · refine List.sum_eq_zero fun n hn => ?_
      obtain ⟨f, hf, rfl⟩ := List.mem_map.mp hn
      exact creditBytes_of_mayQueue (hmay f hf) hid
  · simp [hq]
  · simp [hq]

omit hwf in
/-- A stream that appears has its full window and owes nothing. -/
theorem Effect.sides_none (hfc : e.flowcontrolOn = true) (hid : id ∉ e.ids) :
    e'.sendSide id = INIT_WINDOW ∧ e'.recvSide id = 0 := by
  cases hs : e'.stream? id with
  | none => simp [sendSide, recvSide, hs]
  | some st' =>
    obtain ⟨rfl, h, hst'⟩ := getElem?_of_stream? hs
    rcases he.origin hst' with ⟨st, hst, hc⟩ | ⟨-, id, target, kind, owner, -, rfl⟩
    · exact absurd (hc.evolves.id ▸ mem_ids_of_getElem? hst) hid
    · rw [sendSide, recvSide, hs]
      simp [newStream, hfc, Stream.credit, Stream.permits, Stream.inHand, Stream.uncredited]

variable (hnd : e.ids.Nodup) (hnd' : e'.ids.Nodup) (hfc : e.flowcontrolOn = true)
include hnd hnd' hfc

/-- A stream and what it becomes, under its id. -/
theorem Effect.stream?_some (hst : e.stream? id = some st) :
    ∃ (h : Nat) (st' : Stream), e.objs[h]? = some st ∧ st.id = id ∧ e'.stream? id = some st' ∧
      e.SendBalance a ev h st st' ∧ RecvBalance e e' ev h st st' := by
  obtain ⟨rfl, h, hst⟩ := getElem?_of_stream? hst
  obtain ⟨st', hst', hev⟩ := he.evolves hst
  refine ⟨h, st', hst, rfl, ?_, he.sendBalance hwf hnd hfc hst hst',
    he.recvBalance hwf hnd hfc hst hst'⟩
  rw [← hev.id]
  exact stream?_of_getElem? hnd' hst'

theorem Effect.sendSide_le (id : UInt32) :
    e'.sendSide id + dataIn id (queuedFrames ev) ≤ e.sendSide id + creditIn id (readFrames ev) := by
  cases hs : e.stream? id with
  | none =>
    have hid := stream?_eq_none_iff.mp hs
    rw [(he.queued_none hwf hid).1, (he.sides_none hfc hid).1, sendSide, hs]
    exact Nat.le_add_right _ _
  | some st =>
    obtain ⟨h, st', hst, rfl, hs', ⟨lost, heq, -⟩, -⟩ := he.stream?_some hwf hnd hnd' hfc hs
    simp only [sendSide, hs, hs', Option.elim_some]
    omega

theorem Effect.recvSide_le (id : UInt32) :
    e'.recvSide id + creditIn id (queuedFrames ev) ≤ e.recvSide id + dataIn id (readFrames ev) := by
  cases hs : e.stream? id with
  | none =>
    have hid := stream?_eq_none_iff.mp hs
    rw [(he.queued_none hwf hid).2, (he.sides_none hfc hid).2]
    exact Nat.zero_le _
  | some st =>
    obtain ⟨h, st', hst, rfl, hs', -, ⟨lost, heq, -⟩⟩ := he.stream?_some hwf hnd hnd' hfc hs
    simp only [recvSide, hs, hs', Option.elim_some]
    omega

end

end Endpoint

/-! ## The sum over the session -/

namespace Sys

variable {s s' : Sys} {cap : Nat} {p : Role} {a : Act} {ev : List Event} {id : UInt32}

/-- The credit of a stream in the direction from `p` to its peer. -/
def credit (s : Sys) (p : Role) (id : UInt32) : Nat :=
  (s.ep p).sendSide id + dataIn id (s.flight p) + (s.ep p.peer).recvSide id +
    creditIn id (s.flight p.peer)

/-- What the results of this module need to know about a state. -/
def Ready (s : Sys) : Prop :=
  ∀ p, (s.ep p).Wf ∧ s.Ids p ∧ (s.ep p).flowcontrolOn = true

theorem ready_connect {hello : Role → Hello} {s₀ : Sys} (h0 : connect hello = .ok s₀)
    (hfc : (s₀.ep .client).flowcontrolOn = true) : s₀.Ready := by
  refine fun p => ⟨wf_connect h0 p, ids_connect h0 p, ?_⟩
  cases p with
  | client => exact hfc
  | server => rw [← hfc, ← connect_flowcontrolOn h0 .client]; rfl

theorem Ready.move (hr : s.Ready) (hm : s.Move p a s' ev) : s'.Ready := by
  intro q
  obtain ⟨hp, hq⟩ := (hr p).2.1.move hm (hr p.peer).2.1 (hr p).1
  rcases Role.eq_or_eq_peer p q with rfl | rfl
  · exact ⟨hm.effect.wf (hr q).1, hp, hm.effect.flowcontrolOn.trans (hr q).2.2⟩
  · rw [hm.other]
    exact ⟨(hr p.peer).1, hq, (hr p.peer).2.2⟩

theorem Move.dataIn_out (hm : s.Move p a s' ev) (id : UInt32) :
    dataIn id (s'.flight p) ≤ dataIn id (s.flight p) + dataIn id (queuedFrames ev) := by
  rcases hm.out with hout | ⟨-, -, rest, hrest⟩
  · rw [hout, dataIn_append]
  · rw [← hrest, dataIn_append]
    omega

theorem Move.creditIn_out (hm : s.Move p a s' ev) (id : UInt32) :
    creditIn id (s'.flight p) ≤ creditIn id (s.flight p) + creditIn id (queuedFrames ev) := by
  rcases hm.out with hout | ⟨-, -, rest, hrest⟩
  · rw [hout, creditIn_append]
  · rw [← hrest, creditIn_append]
    omega

/-- **No step creates credit.** -/
theorem Ready.credit_le (hr : s.Ready) (hm : s.Move p a s' ev) (q : Role) :
    s'.credit q id ≤ s.credit q id := by
  have hr' := hr.move hm
  obtain ⟨hwf, hids, hfc⟩ := hr p
  have hin := hm.inn
  rcases Role.eq_or_eq_peer p q with rfl | rfl
  · have hle := hm.effect.sendSide_le hwf hids.nodup (hr' q).2.1.nodup hfc id
    have hout := hm.dataIn_out id
    simp only [credit, hm.other, hin, creditIn_append]
    omega
  · have hle := hm.effect.recvSide_le hwf hids.nodup (hr' p).2.1.nodup hfc id
    have hout := hm.creditIn_out id
    simp only [credit, Role.peer_peer, hm.other, hin, dataIn_append]
    omega

theorem credit_connect {hello : Role → Hello} {s₀ : Sys} (h0 : connect hello = .ok s₀) (p : Role) :
    s₀.credit p id = INIT_WINDOW := by
  have hep : ∀ q, (s₀.ep q).stream? id = none ∧ s₀.flight q = [] := by
    intro q
    obtain ⟨hw, n, -, he⟩ := connect_ok h0 q
    simp [flight, hw, he, Endpoint.start, Endpoint.stream?, Endpoint.outbox]
  simp [credit, hep, Endpoint.sendSide, Endpoint.recvSide]

theorem credit_le_of_run {hello : Role → Hello} {s₀ : Sys}
    {log : List (Taken Sys (Role × Act) (Role × Event))} (h0 : connect hello = .ok s₀)
    (hfc : (s₀.ep .client).flowcontrolOn = true) (hrun : Exec (Sys.step cap) s₀ log s) :
    s.Ready ∧ ∀ p id, s.credit p id ≤ INIT_WINDOW := by
  refine run_inv (P := fun _ s => s.Ready ∧ ∀ p id, s.credit p id ≤ INIT_WINDOW) ?_ ?_ hrun
  · exact ⟨ready_connect h0 hfc, fun p id => (credit_connect h0 p).le⟩
  · rintro _ s p a s' ev - ⟨hr, hle⟩ hm
    exact ⟨hr.move hm, fun q id => (hr.credit_le hm q).trans (hle q id)⟩

/-! ## Live streams -/

/-- Both sides write, and no side has dropped the stream or lost its sink. -/
def Live (s : Sys) (id : UInt32) : Prop :=
  ∀ p, (s.ep p).cmdOpen = true ∧ ∀ h st, (s.ep p).objs[h]? = some st → st.id = id →
    st.owner ≠ .dropped ∧ (s.ep p).sinkAlive h = true

/-- A stream that is live was live before. -/
theorem Live.of_move (hr : s.Ready) (hm : s.Move p a s' ev) (hl : s'.Live id) : s.Live id := by
  intro q
  rcases Role.eq_or_eq_peer p q with rfl | rfl
  · obtain ⟨hc, hobjs⟩ := hl q
    refine ⟨hm.effect.cmdOpen_mono hc, fun h st hst hid => ?_⟩
    obtain ⟨st', hst', hev⟩ := hm.effect.evolves hst
    obtain ⟨ho, hs⟩ := hobjs h st' hst' (hev.id.trans hid)
    refine ⟨fun hd => ho (hm.effect.owner_dropped (hr q).1 hst hst' hd), ?_⟩
    exact hm.effect.sinkAlive_mono (List.getElem?_eq_some_iff.mp hst).1 hs
  · have h := hl p.peer
    rw [hm.other] at h
    exact h

/-- A live stream that both sides have is in the map. -/
theorem Live.lookup (hr : s.Ready) (hl : s.Live id) {h : Nat} {st : Stream}
    (hst : (s.ep p).objs[h]? = some st) (hid : st.id = id) (hpeer : id ∈ (s.ep p.peer).ids) :
    (s.ep p).streams.lookup id = some h := by
  obtain ⟨hc, hobjs⟩ := hl p
  obtain ⟨hwf, hids, -⟩ := hr p
  rcases Endpoint.sinkAlive_iff.mp (hobjs h st hst hid).2 with ⟨id', hlook⟩ | ⟨id', target, hq⟩
  · obtain ⟨st₁, hst₁, hid₁⟩ := hwf.map hlook
    cases hst.symm.trans hst₁
    rw [← hid, hid₁]
    exact hlook
  · -- Its `Open` is still queued, so the peer cannot have the stream.
    obtain ⟨st₁, hst₁, hid₁, -⟩ := hwf.queue hq
    cases hst.symm.trans hst₁
    have hout : openFrame id' target ∈ s.flight p := by
      refine List.mem_append_right _ ?_
      have hmem : openFrame id' target ∈ (s.ep p).cmdQ.map Command.frame :=
        List.mem_map.mpr ⟨_, hq, rfl⟩
      cases hw : (s.ep p).writer <;> simp_all [Endpoint.outbox, Endpoint.cmdOpen]
    have hopen := (hids.opening _ (mem_openIds hout (by simp))).2.2
    rw [streamId_openFrame, ← hid₁, hid] at hopen
    exact absurd hpeer hopen

/-- A frame about a stream, read by a side, is about a stream that both sides have. -/
theorem Ready.read_known (hr : s.Ready) (hm : s.Move p a s' ev) {f : Frame}
    (hf : f ∈ readFrames ev) (hon : f.onStream = true) :
    f.streamId ∈ (s.ep p).ids ∧ f.streamId ∈ (s.ep p.peer).ids := by
  have hin := hm.inn
  rcases hm.effect.reads with ⟨g, -, hread, -, hidle⟩ | ⟨-, hread⟩
  · rw [hread, List.mem_singleton] at hf
    subst hf
    rw [hread, List.singleton_append] at hin
    have hq := (hr p.peer).2.1
    refine ⟨?_, hq.known f (by rw [hin]; exact List.mem_cons_self) hon⟩
    have h := hq.introduced (by simp [Endpoint.readerRunning, hidle]) [] f _ hin hon
    simpa using h
  · rw [hread] at hf
    cases hf

section

variable (hr : s.Ready) (hm : s.Move p a s' ev)
include hr hm

/-- Nothing is read about a stream that the reader does not have. -/
theorem Ready.read_none (hid : id ∉ (s.ep p).ids) :
    dataIn id (readFrames ev) = 0 ∧ creditIn id (readFrames ev) = 0 := by
  have hno : ∀ f ∈ readFrames ev, f.onStream = true → f.streamId ≠ id :=
    fun f hf hon heq => hid (heq ▸ (hr.read_known hm hf hon).1)
  constructor
  · refine List.sum_eq_zero fun n hn => ?_
    obtain ⟨f, hf, rfl⟩ := List.mem_map.mp hn
    rw [dataBytes, if_neg]
    rintro ⟨heq, hb⟩
    refine hno f hf ?_ heq
    rcases hb with hb | hb <;> exact Frame.onStream_of_type hb (by simp)
  · refine List.sum_eq_zero fun n hn => ?_
    obtain ⟨f, hf, rfl⟩ := List.mem_map.mp hn
    rw [creditBytes, if_neg]
    rintro ⟨heq, hb⟩
    exact hno f hf (Frame.onStream_of_type hb (by simp)) heq

variable (hl : s'.Live id)
include hl

/-- No frame of a live stream is read while the map does not hold it, before or after. -/
theorem Live.not_readsUnregistered {h : Nat} {st : Stream} (hst : (s.ep p).objs[h]? = some st)
    (hid : st.id = id) :
    ¬ (s.ep p).readsUnregistered ev h id ∧ ¬ (s'.ep p).readsUnregistered ev h id := by
  have hr' := hr.move hm
  have hl₀ := hl.of_move hr hm
  obtain ⟨st', hst', hev⟩ := hm.effect.evolves hst
  constructor
  · rintro ⟨f, hf, hon, rfl, hne⟩
    exact hne (hl₀.lookup hr hst hid (hr.read_known hm hf hon).2)
  · rintro ⟨f, hf, hon, rfl, hne⟩
    have hpeer := (hr.read_known hm hf hon).2
    rw [← hm.other] at hpeer
    exact hne (hl.lookup hr' hst' (hev.id.trans hid) hpeer)

theorem Ready.sendSide_eq :
    (s'.ep p).sendSide id + dataIn id (queuedFrames ev) + (s.ep p).forfeited a id =
      (s.ep p).sendSide id + creditIn id (readFrames ev) := by
  obtain ⟨hwf, hids, hfc⟩ := hr p
  cases hs : (s.ep p).stream? id with
  | none =>
    have hid := Endpoint.stream?_eq_none_iff.mp hs
    have hforf : (s.ep p).forfeited a id = 0 := by
      unfold Endpoint.forfeited
      split
      · split
        · next st hst =>
          rw [if_neg]
          rintro rfl
          exact hid (Endpoint.mem_ids_of_getElem? hst)
        · rfl
      · rfl
    rw [(hm.effect.queued_none hwf hid).1, (hm.effect.sides_none hfc hid).1,
      (hr.read_none hm hid).2, hforf, Endpoint.sendSide, hs]
    rfl
  | some st =>
    obtain ⟨h, st', hst, hid, hs', ⟨lost, heq, hlost⟩, -⟩ :=
      hm.effect.stream?_some hwf hids.nodup ((hr.move hm) p).2.1.nodup hfc hs
    simp only [Endpoint.sendSide, hs, hs', Option.elim_some]
    rw [hid] at heq hlost
    rcases hlost with rfl | hc | hun
    · exact heq
    · rw [(hl.of_move hr hm p).1] at hc
      cases hc
    · exact absurd hun (hl.not_readsUnregistered hr hm hst hid).1

theorem Ready.recvSide_eq (hle : (s.ep p).recvSide id ≤ INIT_WINDOW) :
    (s'.ep p).recvSide id + creditIn id (queuedFrames ev) =
      (s.ep p).recvSide id + dataIn id (readFrames ev) := by
  obtain ⟨hwf, hids, hfc⟩ := hr p
  cases hs : (s.ep p).stream? id with
  | none =>
    have hid := Endpoint.stream?_eq_none_iff.mp hs
    rw [(hm.effect.queued_none hwf hid).2, (hm.effect.sides_none hfc hid).2,
      (hr.read_none hm hid).1, Endpoint.recvSide, hs]
    rfl
  | some st =>
    obtain ⟨h, st', hst, hid, hs', -, lost, heq, hlost⟩ :=
      hm.effect.stream?_some hwf hids.nodup ((hr.move hm) p).2.1.nodup hfc hs
    simp only [Endpoint.recvSide, hs, hs', Option.elim_some] at hle ⊢
    rw [hid] at heq hlost
    rcases hlost with rfl | hc | hun | hun | hmax
    · exact heq
    · rw [(hl.of_move hr hm p).1] at hc
      cases hc
    · exact absurd hun (hl.not_readsUnregistered hr hm hst hid).1
    · exact absurd hun (hl.not_readsUnregistered hr hm hst hid).2
    · exact absurd hle (Nat.not_le.mpr hmax)

end

/-- The credit of stream `id` that side `p` forfeits by a step. -/
def forfeited (s : Sys) (act : Role × Act) (p : Role) (id : UInt32) : Nat :=
  if act.1 = p then (s.ep p).forfeited act.2 id else 0

/-- **Conservation across a step.** While a stream is live, its credit changes only by what a
dropped call forfeits. -/
theorem Ready.credit_eq (hr : s.Ready) (hle : ∀ p, s.credit p id ≤ INIT_WINDOW)
    (hm : s.Move p a s' ev) (hl : s'.Live id) (q : Role) :
    s'.credit q id + s.forfeited (p, a) q id = s.credit q id := by
  have hin := hm.inn
  have hout : s'.flight p = s.flight p ++ queuedFrames ev := by
    rcases hm.out with hout | ⟨rfl, -, -⟩
    · exact hout
    · have hc := (hl p).1
      rw [hm.effect.cmdOpen_writerExit] at hc
      cases hc
  rcases Role.eq_or_eq_peer p q with rfl | rfl
  · have hsend := hr.sendSide_eq hm hl
    simp only [credit, forfeited, if_true, hm.other, hin, hout, creditIn_append, dataIn_append]
    omega
  · have hbound := hle p.peer
    simp only [credit, Role.peer_peer] at hbound
    have hrecv := hr.recvSide_eq hm hl (by omega)
    simp only [credit, forfeited, Role.ne_peer, if_false, Role.peer_peer, hm.other, hin, hout,
      creditIn_append, dataIn_append]
    omega

/-- The credit of stream `id` that side `p` has forfeited in a run. -/
def totalForfeited (log : List (Taken Sys (Role × Act) (Role × Event))) (p : Role) (id : UInt32) :
    Nat := (log.map fun t => t.pre.forfeited t.act p id).sum

@[simp] theorem totalForfeited_snoc (log : List (Taken Sys (Role × Act) (Role × Event)))
    (t : Taken Sys (Role × Act) (Role × Event)) (p : Role) (id : UInt32) :
    totalForfeited (log ++ [t]) p id = totalForfeited log p id + t.pre.forfeited t.act p id := by
  simp [totalForfeited]

/-- **Conservation over a run.** -/
theorem credit_of_run {hello : Role → Hello} {s₀ : Sys}
    {log : List (Taken Sys (Role × Act) (Role × Event))} (h0 : connect hello = .ok s₀)
    (hfc : (s₀.ep .client).flowcontrolOn = true) (hrun : Exec (Sys.step cap) s₀ log s)
    (hl : s.Live id) (p : Role) :
    s.credit p id + totalForfeited log p id = INIT_WINDOW := by
  have hinv : (s.Ready ∧ ∀ p id, s.credit p id ≤ INIT_WINDOW) ∧
      (s.Live id → ∀ p, s.credit p id + totalForfeited log p id = INIT_WINDOW) := by
    refine run_inv (P := fun log s => (s.Ready ∧ ∀ p id, s.credit p id ≤ INIT_WINDOW) ∧
      (s.Live id → ∀ p, s.credit p id + totalForfeited log p id = INIT_WINDOW)) ?_ ?_ hrun
    · exact ⟨⟨ready_connect h0 hfc, fun p id => (credit_connect h0 p).le⟩,
        fun _ p => credit_connect h0 p⟩
    · rintro log s p a s' ev - ⟨⟨hr, hle⟩, heq⟩ hm
      refine ⟨⟨hr.move hm, fun q id => (hr.credit_le hm q).trans (hle q id)⟩, fun hl q => ?_⟩
      have hstep := hr.credit_eq (fun p => hle p id) hm hl q
      have hbefore := heq (hl.of_move hr hm) q
      rw [totalForfeited_snoc]
      simp only
      omega
  exact hinv.2 hl p

/-! ## The sum, place by place -/

/-- Bytes of a stream in the data channel, and consumed without credit given back. -/
def received (s : Sys) (p : Role) (id : UInt32) : Nat :=
  ((s.ep p).stream? id).elim 0 fun st => (st.rx.map List.length).sum + st.consumed

/-- The credit of a stream that `p` sends on, over the places it can be in: the window, calls
that have paid, the command queue and the writer, the transport, the peer's data channel and
its consumed bytes, and updates on their way back. -/
def creditSum (s : Sys) (p : Role) (st : Stream) : Nat :=
  st.permits + st.inHand + dataIn st.id (s.ep p).outbox + dataIn st.id (s.wire p) +
    s.received p.peer st.id + creditIn st.id (s.ep p.peer).outbox + creditIn st.id (s.wire p.peer)

theorem Ready.credit_eq_creditSum (hr : s.Ready) (hl : s.Live id) {st : Stream}
    (hst : (s.ep p).stream? id = some st) : s.credit p id = s.creditSum p st := by
  have hrecv : (s.ep p.peer).recvSide id = s.received p.peer id := by
    cases hs : (s.ep p.peer).stream? id with
    | none => simp [Endpoint.recvSide, received, hs]
    | some r =>
      obtain ⟨hid, h, hr'⟩ := Endpoint.getElem?_of_stream? hs
      have ho := ((hl p.peer).2 h r hr' hid).1
      simp [Endpoint.recvSide, received, hs, Stream.uncredited,
        (hr p.peer).1.buffered r (List.mem_of_getElem? hr') ho]
  have hid := (Endpoint.getElem?_of_stream? hst).1
  simp only [credit, creditSum, hid, Endpoint.sendSide, hst, Option.elim_some, Stream.credit, hrecv,
    flight, dataIn_append, creditIn_append]
  omega

/-- The receiver never holds more than a window. -/
theorem buffered_le_of_credit (hr : s.Ready) (hle : ∀ p id, s.credit p id ≤ INIT_WINDOW)
    {r : Stream} (hst : r ∈ (s.ep p).objs) : r.buffered + r.consumed ≤ INIT_WINDOW := by
  obtain ⟨h, hst⟩ := List.getElem?_of_mem hst
  have hs := Endpoint.stream?_of_getElem? (hr p).2.1.nodup hst
  have hbound := hle p.peer r.id
  simp only [credit, Role.peer_peer, Endpoint.recvSide, hs, Option.elim_some,
    Stream.uncredited] at hbound
  omega

/-- A step that queues a `WindowUpdate` in `recv` queues all that was consumed. -/
theorem credit_not_cut (hr : s.Ready) (hle : ∀ p id, s.credit p id ≤ INIT_WINDOW) {h : Nat}
    {e' : Endpoint} {f : Frame} (hs : (s.ep p).step (.recvReturn h) = some (e', ev))
    (hf : .queued f ∈ ev) :
    ∃ r, (s.ep p).objs[h]? = some r ∧ f = windowUpdateFrame r.id (UInt32.ofNat r.consumed) ∧
      (UInt32.ofNat r.consumed).toNat = r.consumed ∧
      windowUpdateCredit f.payload = some r.consumed := by
  cases Endpoint.step_effect hs with
  | returned | returnedClosed => simp at hf
  | @credited _ r _ f' hst _ _ _ _ _ hf' =>
    simp only [List.mem_cons, Event.queued.injEq, reduceCtorEq, List.not_mem_nil, or_false] at hf
    subst hf hf'
    have hbound := buffered_le_of_credit hr hle (List.mem_of_getElem? hst)
    have hmin : min r.consumed (2 ^ 32 - 1) = r.consumed := by
      simp only [INIT_WINDOW] at hbound
      omega
    have hcast := toNat_regrant r.consumed
    rw [hmin] at hcast ⊢
    refine ⟨r, hst, rfl, hcast, ?_⟩
    rw [windowUpdateCredit_frame, hcast]
    simp only [MAX_CREDIT, INIT_WINDOW] at hbound ⊢
    rw [Nat.min_eq_left (by omega)]

/-- The stream has nothing under way: no call has paid, no frame is in flight, and the peer has
returned everything it received. -/
def Drained (s : Sys) (p : Role) (st : Stream) : Prop :=
  (∀ c ∈ st.sends, c.charged = false) ∧ dataIn st.id (s.flight p) = 0 ∧
    creditIn st.id (s.flight p.peer) = 0 ∧
    ∀ r, (s.ep p.peer).stream? st.id = some r → r.rx = [] ∧ r.pending = none

/-- A drained stream has room for a full frame, since less than the threshold is uncredited. -/
theorem Drained.permits_le (hr : s.Ready) (hl : s.Live id) {st : Stream}
    (hst : (s.ep p).stream? id = some st) (hsum : s.creditSum p st = INIT_WINDOW)
    (hd : s.Drained p st) : MAX_FRAME_PAYLOAD ≤ st.permits := by
  obtain ⟨hcalls, hdata, hcredit, hpeer⟩ := hd
  have hhand : st.inHand = 0 := by
    refine List.sum_eq_zero fun n hn => ?_
    obtain ⟨c, hc, rfl⟩ := List.mem_map.mp hn
    simp [SendCall.held, hcalls c hc]
  have hrecv : s.received p.peer st.id < WINDOW_THRESHOLD := by
    cases hs : (s.ep p.peer).stream? st.id with
    | none => simp [received, hs, WINDOW_THRESHOLD, INIT_WINDOW]
    | some r =>
      obtain ⟨hrx, hpend⟩ := hpeer r hs
      obtain ⟨hid, h, hr'⟩ := Endpoint.getElem?_of_stream? hs
      have ho := ((hl p.peer).2 h r hr' (hid.trans (Endpoint.getElem?_of_stream? hst).1)).1
      have hlt := (hr p.peer).1.settled r (List.mem_of_getElem? hr') ho hpend
      simpa [received, hs, hrx] using hlt
  simp only [flight, dataIn_append, creditIn_append] at hdata hcredit
  simp only [creditSum, hhand] at hsum
  simp only [WINDOW_THRESHOLD, INIT_WINDOW, MAX_FRAME_PAYLOAD, HEADER_LEN] at *
  omega

/-- No `send` future is dropped. -/
def noSendDrop (_ : Sys) (act : Role × Act) : Prop :=
  match act.2 with
  | .sendDrop _ _ => False
  | _ => True

instance (s : Sys) (act : Role × Act) : Decidable (noSendDrop s act) := by
  unfold noSendDrop
  split <;> infer_instance

theorem totalForfeited_eq_zero {log : List (Taken Sys (Role × Act) (Role × Event))}
    (h : Steps noSendDrop log) : totalForfeited log p id = 0 := by
  refine List.sum_eq_zero fun n hn => ?_
  obtain ⟨t, ht, rfl⟩ := List.mem_map.mp hn
  have hno := h t ht
  simp only [forfeited]
  split
  · unfold Endpoint.forfeited
    split
    · next h k heq => simp [noSendDrop, heq] at hno
    · rfl
  · rfl

/-- A waiting call whose chunk fits goes on. -/
theorem not_blockedOnCredit {e : Endpoint} {h k : Nat} {st : Stream} (hst : e.objs[h]? = some st)
    (hfit : ∀ c ∈ st.sends, c.chunk.length ≤ st.permits) : ¬ e.blockedOnCredit h k := by
  rintro ⟨st₁, c, hh, hc, hch, hblock⟩
  cases hst.symm.trans (Endpoint.held_eq_some hh).1
  have hle := hfit c (List.mem_of_getElem? hc)
  simp only [Endpoint.step, Endpoint.sendAcquire, hh, hc, hch, Bool.false_eq_true,
    if_false] at hblock
  cases hw : st.sendWindow with
  | none => simp [hw] at hblock
  | some sem =>
    simp only [Stream.permits, hw, Option.elim_some] at hle
    cases hcl : sem.closed <;> simp [hw, hcl, hle] at hblock

/-- **Credit conservation.** In every state of a session with flow control in which no `send`
was dropped, the credit of a live stream adds up to `INIT_WINDOW` in each direction. No receiver
buffers more than that, no `WindowUpdate` carries less than was consumed, and a stream with
nothing under way has room for a full frame, so none of its calls waits. -/
theorem credit_conserved {hello : Role → Hello} {s₀ : Sys}
    {log : List (Taken Sys (Role × Act) (Role × Event))} (h0 : connect hello = .ok s₀)
    (hfc : (s₀.ep .client).flowcontrolOn = true) (hrun : Exec (Sys.step cap) s₀ log s)
    (hno : Steps noSendDrop log) (hl : s.Live id) {st : Stream}
    (hst : (s.ep p).stream? id = some st) :
    s.creditSum p st = INIT_WINDOW ∧
    (∀ q, ∀ r ∈ (s.ep q).objs, r.buffered ≤ INIT_WINDOW) ∧
    (∀ q h e' ev f, (s.ep q).step (.recvReturn h) = some (e', ev) → .queued f ∈ ev →
      ∃ r, (s.ep q).objs[h]? = some r ∧ f = windowUpdateFrame r.id (UInt32.ofNat r.consumed) ∧
        (UInt32.ofNat r.consumed).toNat = r.consumed ∧
        windowUpdateCredit f.payload = some r.consumed) ∧
    (s.Drained p st → MAX_FRAME_PAYLOAD ≤ st.permits ∧
      ∀ h k, (s.ep p).objs[h]? = some st → ¬ (s.ep p).blockedOnCredit h k) := by
  obtain ⟨hr, hle⟩ := credit_le_of_run h0 hfc hrun
  have hsum : s.creditSum p st = INIT_WINDOW := by
    have h := credit_of_run h0 hfc hrun hl p
    rwa [totalForfeited_eq_zero hno, Nat.add_zero, hr.credit_eq_creditSum hl hst] at h
  refine ⟨hsum, fun q r hmem => ?_, fun q h e' ev f hs hf => credit_not_cut hr hle hs hf,
    fun hd => ?_⟩
  · exact (Nat.le_add_right _ _).trans (buffered_le_of_credit hr hle hmem)
  · have hroom := hd.permits_le hr hl hst hsum
    refine ⟨hroom, fun h k hobj => not_blockedOnCredit hobj fun c hc => ?_⟩
    exact ((hr p).1.chunk st (List.mem_of_getElem? hobj) c hc).trans hroom

instance (e : Endpoint) (id : UInt32) : Decidable (∀ h st, e.objs[h]? = some st → st.id = id →
    st.owner ≠ .dropped ∧ e.sinkAlive h = true) :=
  decidable_of_iff (∀ x ∈ e.objs.zipIdx, x.1.id = id → x.1.owner ≠ .dropped ∧
      e.sinkAlive x.2 = true) (by simp [List.mem_zipIdx_iff_getElem?]; exact forall_comm)

instance (s : Sys) (id : UInt32) : Decidable (s.Live id) :=
  inferInstanceAs (Decidable (∀ _ : Role, _ ∧ _))

/-- The client sends five bytes in two calls; the server has taken the first three. -/
def twoSends : List (Role × Act) :=
  [(.client, .open .tcp "a:1"), (.client, .writerTake), (.client, .writerWrote),
    (.server, .readerTake (openFrame 1 "a:1")), (.server, .readerDeliver), (.server, .accept),
    (.client, .sendCall 0 [1, 2, 3]), (.client, .sendAcquire 0 0), (.client, .sendQueue 0 0),
    (.client, .sendCall 0 [4, 5]), (.client, .sendAcquire 0 0), (.client, .sendQueue 0 0),
    (.client, .writerTake), (.client, .writerWrote),
    (.server, .readerTake (dataFrame .tcp 1 [1, 2, 3])), (.server, .recvPop 0)]

theorem credit_conserved_two_sends : ∃ s₀ log s st, connect offers = .ok s₀ ∧
    (s₀.ep .client).flowcontrolOn = true ∧ Exec (Sys.step 1) s₀ log s ∧ Steps noSendDrop log ∧
    s.Live 1 ∧ (s.ep .client).stream? 1 = some st ∧ st.permits + 5 = INIT_WINDOW ∧
    s.creditSum .client st = INIT_WINDOW := by
  obtain ⟨s₀, log, s, h0, hrun, hfc, hno, hl, hany⟩ :=
    connect_reaches offers 1 twoSends
      (fun s₀ log s => (s₀.ep .client).flowcontrolOn = true ∧ Steps noSendDrop log ∧ s.Live 1 ∧
        ((s.ep .client).stream? 1).any (fun st => st.permits + 5 = INIT_WINDOW) = true)
      (by decide +kernel)
  obtain ⟨st, hst, hp⟩ := (Option.any_eq_true _ _).mp hany
  exact ⟨s₀, log, s, st, h0, hfc, hrun, hno, hl, hst, of_decide_eq_true hp,
    (credit_conserved h0 hfc hrun hno hl hst).1⟩

/-! ## Dropped calls -/

/-- The step drops no call of `p` on stream `id` that has paid for a chunk and not queued it. -/
def dropsUnpaid (p : Role) (id : UInt32) (s : Sys) (act : Role × Act) : Prop :=
  match act with
  | (q, .sendDrop h k) => q = p → ∀ st ∈ (s.ep p).objs[h]?, st.id = id →
    ∀ c ∈ st.sends[k]?, c.charged = true → c.chunk = []
  | _ => True

theorem held_eq_zero_iff {c : SendCall} : c.held = 0 ↔ (c.charged = true → c.chunk = []) := by
  cases hch : c.charged <;> simp [SendCall.held, hch]

theorem forfeited_eq_zero_iff {act : Role × Act} :
    s.forfeited act p id = 0 ↔ dropsUnpaid p id s act := by
  obtain ⟨q, a⟩ := act
  cases a with
  | sendDrop h k =>
    simp only [forfeited, dropsUnpaid, Endpoint.forfeited]
    by_cases hq : q = p
    · subst hq
      cases hst : (s.ep q).objs[h]? with
      | none => simp
      | some st =>
        by_cases hid : st.id = id
        · cases hc : st.sends[k]? with
          | none => simp [hid, hc]
          | some c => simp [hid, hc, held_eq_zero_iff]
        · simp [hid]
    · simp [hq]
  | _ => simp [forfeited, dropsUnpaid, Endpoint.forfeited]

/-- **Dropped `send` calls, exactly.** The credit of a live stream adds up to `INIT_WINDOW` after
a run if and only if no call was dropped between paying for a chunk and queueing it. -/
theorem credit_restored_iff {hello : Role → Hello} {s₀ : Sys}
    {log : List (Taken Sys (Role × Act) (Role × Event))} (h0 : connect hello = .ok s₀)
    (hfc : (s₀.ep .client).flowcontrolOn = true) (hrun : Exec (Sys.step cap) s₀ log s)
    (hl : s.Live id) {st : Stream} (hst : (s.ep p).stream? id = some st) :
    s.creditSum p st = INIT_WINDOW ↔ Steps (dropsUnpaid p id) log := by
  obtain ⟨hr, -⟩ := credit_le_of_run h0 hfc hrun
  have hsum := credit_of_run h0 hfc hrun hl p
  rw [hr.credit_eq_creditSum hl hst] at hsum
  have hzero : totalForfeited log p id = 0 ↔ Steps (dropsUnpaid p id) log := by
    rw [totalForfeited, List.sum_eq_zero_iff_forall_eq_nat]
    simp only [List.mem_map, forall_exists_index, and_imp, forall_apply_eq_imp_iff₂,
      forfeited_eq_zero_iff]
    rfl
  rw [← hzero]
  omega

instance (p : Role) (id : UInt32) (s : Sys) (act : Role × Act) :
    Decidable (dropsUnpaid p id s act) := by
  unfold dropsUnpaid
  split <;> infer_instance

/-- The client drops a call that has not paid yet, then sends another byte. -/
def patientSender : List (Role × Act) :=
  [(.client, .open .tcp "a:1"), (.client, .sendCall 0 [1, 2]), (.client, .sendDrop 0 0),
    (.client, .sendCall 0 [3]), (.client, .sendAcquire 0 0), (.client, .sendQueue 0 0)]

theorem credit_restored_patient_sender : ∃ s₀ log s st, connect offers = .ok s₀ ∧
    (s₀.ep .client).flowcontrolOn = true ∧ Exec (Sys.step 1) s₀ log s ∧ s.Live 1 ∧
    (s.ep .client).stream? 1 = some st ∧ Steps (dropsUnpaid .client 1) log ∧
    s.creditSum .client st = INIT_WINDOW := by
  obtain ⟨s₀, log, s, h0, hrun, hfc, hl, hsteps, hsome⟩ :=
    connect_reaches offers 1 patientSender
      (fun s₀ log s => (s₀.ep .client).flowcontrolOn = true ∧ s.Live 1 ∧
        Steps (dropsUnpaid .client 1) log ∧ ((s.ep .client).stream? 1).isSome = true)
      (by decide +kernel)
  obtain ⟨st, hst⟩ := Option.isSome_iff_exists.mp hsome
  exact ⟨s₀, log, s, st, h0, hfc, hrun, hl, hst, hsteps,
    (credit_restored_iff h0 hfc hrun hl hst).mpr hsteps⟩

/-- The client's command queue is full when it drops a call that has paid for its byte. -/
def starvingSender : List (Role × Act) :=
  List.replicate 256 (.client, .open .tcp "a:1") ++
    [(.client, .sendCall 0 [7]), (.client, .sendAcquire 0 0), (.client, .sendDrop 0 0)]

/-- The byte is gone from the window and from everywhere else. -/
theorem dropped_send_loses_credit :
    ¬ ∀ (hello : Role → Hello) (cap : Nat) (s₀ s : Sys)
      (log : List (Taken Sys (Role × Act) (Role × Event))) (p : Role) (id : UInt32) (st : Stream),
      connect hello = .ok s₀ → (s₀.ep .client).flowcontrolOn = true →
      Exec (Sys.step cap) s₀ log s → s.Live id → (s.ep p).stream? id = some st →
      s.creditSum p st = INIT_WINDOW := by
  intro hall
  obtain ⟨s₀, log, s, h0, hrun, hfc, hl, hfull, hany⟩ :=
    connect_reaches offers 1 starvingSender
      (fun s₀ _ s => (s₀.ep .client).flowcontrolOn = true ∧ s.Live 1 ∧
        (s.ep .client).cmdRoom = false ∧
        ((s.ep .client).stream? 1).any (fun st => s.creditSum .client st ≠ INIT_WINDOW) = true)
      (by decide +kernel)
  obtain ⟨st, hst, hne⟩ := (Option.any_eq_true _ _).mp hany
  exact of_decide_eq_true hne (hall offers 1 s₀ s log .client 1 st h0 hfc hrun hl hst)

end Sys

end Leshiy.Mux
