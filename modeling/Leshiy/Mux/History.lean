import Leshiy.Mux.Ids

/-!
# What was sent and what was received

The history of a session is its log. Read off one side's events, it gives the frames that side
queued and read, the payloads its application passed to `send` and the chunks `recv` returned.

Delivery is three facts about these lists, one for each place a byte passes: the receiving
endpoint hands out what it read (`Received`), the link delivers what was queued in order
(`fifo`), and the sending endpoint queues what it was given (`Sending`).
-/

namespace Leshiy.Mux

open Leshiy.Lib

/-! ## Histories -/

/-- What one side showed in a run. -/
def eventsOf (p : Role) (log : List (Taken Sys (Role × Act) (Role × Event))) : List Event :=
  (shown log).filterMap fun x => if x.1 = p then some x.2 else none

@[simp] theorem eventsOf_nil (p : Role) : eventsOf p [] = [] := rfl

theorem eventsOf_same {p : Role} {log : List (Taken Sys (Role × Act) (Role × Event))} {s : Sys}
    {a : Act} {ev : List Event} :
    eventsOf p (log ++ [⟨s, (p, a), ev.map fun x => (p, x)⟩]) = eventsOf p log ++ ev := by
  rw [eventsOf, shown_snoc, List.filterMap_append, List.filterMap_map]
  simp [eventsOf]

theorem eventsOf_other {p q : Role} (hne : q ≠ p)
    {log : List (Taken Sys (Role × Act) (Role × Event))} {s : Sys} {a : Act} {ev : List Event} :
    eventsOf p (log ++ [⟨s, (q, a), ev.map fun x => (q, x)⟩]) = eventsOf p log := by
  rw [eventsOf, shown_snoc, List.filterMap_append, List.filterMap_map]
  simp [eventsOf, hne]

@[simp] theorem queuedFrames_append (l m : List Event) :
    queuedFrames (l ++ m) = queuedFrames l ++ queuedFrames m := by
  simp [queuedFrames]

@[simp] theorem readFrames_append (l m : List Event) :
    readFrames (l ++ m) = readFrames l ++ readFrames m := by
  simp [readFrames]

/-- The payloads passed to `send` on a stream, in the order of the calls. -/
def sent (h : Nat) (ev : List Event) : List Bytes :=
  ev.filterMap fun
    | .sendCalled h' data => if h' = h then some data else none
    | _ => none

/-- The chunks `recv` returned on a stream, in order. -/
def returned (h : Nat) (ev : List Event) : List Bytes :=
  ev.filterMap fun
    | .recvOk h' chunk => if h' = h then some chunk else none
    | _ => none

/-- The payloads that frames carry for a stream, in order. -/
def dataOf (id : UInt32) (fs : List Frame) : List Bytes :=
  fs.filterMap fun f => if f.isData && f.streamId == id then some f.payload else none

@[simp] theorem sent_append (h : Nat) (l m : List Event) :
    sent h (l ++ m) = sent h l ++ sent h m := by
  simp [sent]

@[simp] theorem returned_append (h : Nat) (l m : List Event) :
    returned h (l ++ m) = returned h l ++ returned h m := by
  simp [returned]

section

variable {id : UInt32} {fs gs : List Frame}

@[simp] theorem dataOf_nil : dataOf id [] = [] := rfl

@[simp] theorem dataOf_append : dataOf id (fs ++ gs) = dataOf id fs ++ dataOf id gs := by
  simp [dataOf]

theorem dataOf_eq_nil (h : ∀ f ∈ fs, f.isData = true → f.streamId ≠ id) : dataOf id fs = [] := by
  simpa [dataOf] using h

theorem dataOf_singleton {f : Frame} (hd : f.isData = true) (hid : f.streamId = id) :
    dataOf id [f] = [f.payload] := by
  simp [dataOf, hd, hid]

theorem Frame.onStream_of_isData {f : Frame} (h : f.isData = true) : f.onStream = true := by
  simp only [Frame.isData, Bool.or_eq_true, beq_iff_eq] at h
  rcases h with h | h <;> exact Frame.onStream_of_type h (by simp)

theorem Frame.onStream_of_closes {f : Frame} (h : f.closes = true) : f.onStream = true := by
  simp only [Frame.closes, beq_iff_eq] at h
  exact Frame.onStream_of_type h (by simp)

end

/-! ## The link -/

namespace Sys

variable {s s' s₀ : Sys} {cap : Nat} {log : List (Taken Sys (Role × Act) (Role × Event))}

/-- **The link is FIFO**: what a side has read and what is still in flight to it is what the
other side queued, unless its writer has gone. -/
theorem fifo {hello : Role → Hello} (h0 : connect hello = .ok s₀)
    (hrun : Exec (Sys.step cap) s₀ log s) (p : Role) :
    readFrames (eventsOf p.peer log) ++ s.flight p <+: queuedFrames (eventsOf p log) := by
  -- Nothing is lost while the writer runs, and only then can something be queued.
  suffices h : readFrames (eventsOf p.peer log) ++ s.flight p <+: queuedFrames (eventsOf p log) ∧
      ((s.ep p).cmdOpen = true →
        readFrames (eventsOf p.peer log) ++ s.flight p = queuedFrames (eventsOf p log)) from h.1
  refine run_inv (P := fun log s => readFrames (eventsOf p.peer log) ++ s.flight p <+:
    queuedFrames (eventsOf p log) ∧ ((s.ep p).cmdOpen = true →
      readFrames (eventsOf p.peer log) ++ s.flight p = queuedFrames (eventsOf p log))) ?_ ?_ hrun
  · obtain ⟨hw, n, -, he⟩ := connect_ok h0 p
    simp [flight, hw, he, Endpoint.start, Endpoint.outbox, readFrames, queuedFrames]
  · rintro log s q a s' ev - ⟨ih, iheq⟩ hm
    rcases Role.eq_or_eq_peer p q with rfl | rfl
    · rw [eventsOf_same, eventsOf_other (Role.ne_peer q), queuedFrames_append]
      rcases hm.out with hout | ⟨rfl, rfl, hout⟩
      · rw [hout, ← List.append_assoc]
        by_cases hq : queuedFrames ev = []
        · rw [hq, List.append_nil, List.append_nil]
          exact ⟨ih, fun hc => iheq (hm.effect.cmdOpen_mono hc)⟩
        · obtain ⟨f, hf⟩ := List.exists_mem_of_ne_nil _ hq
          rw [iheq (hm.effect.cmdOpen_of_queued hf)]
          exact ⟨List.prefix_rfl, fun _ => rfl⟩
      · refine ⟨?_, fun hc => ?_⟩
        · rw [show queuedFrames [] = [] from rfl, List.append_nil]
          exact ((List.prefix_append_right_inj _).mpr hout).trans ih
        · rw [hm.effect.cmdOpen_writerExit] at hc
          cases hc
    · have hinn := hm.inn
      have hother := hm.other
      rw [Role.peer_peer] at hinn hother
      rw [eventsOf_same, eventsOf_other (Role.peer_ne p), readFrames_append, List.append_assoc,
        ← hinn, hother]
      exact ⟨ih, iheq⟩

end Sys

/-! ## The receiving endpoint -/

/-- What a stream has read off its data channel or holds in it, and `recv` has not returned. -/
def Stream.backlog (st : Stream) : List Bytes := st.pending.toList ++ st.rx

namespace Endpoint

variable {e e' : Endpoint} {a : Act} {ev : List Event} {h : Nat} {st st' : Stream}

/-- What a step does to a stream's backlog. -/
def BacklogStep (e e' : Endpoint) (ev : List Event) (h : Nat) (st st' : Stream) : Prop :=
  (returned h ev ++ st'.backlog = st.backlog ∧
    ∀ f ∈ readFrames ev, f.isData = true → e'.streams.lookup f.streamId ≠ some h) ∨
  (st'.owner = .dropped ∧ returned h ev = [] ∧ st'.backlog = []) ∨
  (∃ f, readFrames ev = [f] ∧ f.isData = true ∧ e.streams.lookup f.streamId = some h ∧
    st.owner ≠ .dropped ∧ returned h ev = [] ∧ st'.backlog = st.backlog ++ [f.payload])

theorem BacklogStep.of_eq (hret : returned h ev = []) (hread : readFrames ev = [])
    (hb : st'.backlog = st.backlog) : BacklogStep e e' ev h st st' :=
  Or.inl ⟨by rw [hret, hb, List.nil_append], by simp [hread]⟩

theorem backlog_closeWindow_if {p : Prop} [Decidable p] (st : Stream) :
    (if p then st.closeWindow else st).backlog = st.backlog := by
  split <;> rfl

/-- **The backlog of a stream across a step**: `recv` takes from its front, the reader adds at
its end, and it goes with the stream. -/
theorem Effect.backlog (he : Effect e a e' ev) (hst : e.objs[h]? = some st)
    (hst' : e'.objs[h]? = some st') : BacklogStep e e' ev h st st' := by
  have hlt := (List.getElem?_eq_some_iff.mp hst).1
  have hkeep : ∀ {h₀ : Nat} {f : Stream → Stream}, (e.objs.modify h₀ f)[h]? = some st' →
      (∀ st : Stream, (f st).backlog = st.backlog) → st'.backlog = st.backlog := by
    intro h₀ f hst' hf
    rcases modify_cases hst hst' with ⟨-, rfl⟩ | ⟨-, rfl⟩
    · exact hf st
    · rfl
  cases he with
  | opened =>
    rw [List.getElem?_append_left hlt, hst] at hst'
    cases hst'
    exact .of_eq rfl rfl rfl
  | accepted | sendStarted | charged | windowClosed | queueClosed | sentLast | sentMore
  | sendDropped | drainedOpen => exact .of_eq rfl rfl (hkeep hst' fun _ => rfl)
  | muxDropped =>
    cases mapIdx_cases hst hst'
    split
    · exact Or.inr (Or.inl ⟨rfl, rfl, rfl⟩)
    · exact .of_eq rfl rfl rfl
  | streamDropped | deliveryFailed | readerLeftDelivering =>
    rcases modify_cases hst hst' with ⟨-, rfl⟩ | ⟨-, rfl⟩
    · exact Or.inr (Or.inl ⟨rfl, rfl, rfl⟩)
    · exact .of_eq rfl rfl rfl
  | writerClosed | readerClosed | watchdogFired =>
    cases mapIdx_cases hst hst'
    exact .of_eq rfl rfl (backlog_closeWindow_if st)
  | tookClose =>
    simp only [removeStream_objs] at hst'
    cases mapIdx_cases hst hst'
    exact .of_eq rfl rfl (backlog_closeWindow_if st)
  | @popped h₀ st₀ chunk rx hst₀ ho hp hrx =>
    refine .of_eq rfl rfl ?_
    rcases modify_cases hst hst' with ⟨rfl, rfl⟩ | ⟨-, rfl⟩
    · cases hst.symm.trans hst₀
      simp [Stream.backlog, hp, hrx]
    · rfl
  | @returned h₀ st₀ chunk hst₀ ho hp | @returnedClosed h₀ st₀ chunk hst₀ ho hp
  | @credited h₀ st₀ chunk _ hst₀ ho hp =>
    refine Or.inl ⟨?_, by simp [readFrames]⟩
    rcases modify_cases hst hst' with ⟨rfl, rfl⟩ | ⟨hne, rfl⟩
    · cases hst.symm.trans hst₀
      simp [Mux.returned, Stream.backlog, hp]
    · simp [Mux.returned, hne]
  | readClose _ hb =>
    simp only [removeStream_objs] at hst'
    cases mapIdx_cases hst hst'
    refine Or.inl ⟨backlog_closeWindow_if st, ?_⟩
    simp [readFrames, Frame.isData, hb, FrameType.toU8_inj]
  | @readReset f h₀ st₀ cause _ hb hl =>
    simp only [removeStream_objs] at hst'
    cases mapIdx_cases hst hst'
    refine Or.inl ⟨backlog_closeWindow_if st, ?_⟩
    simp [readFrames]
  | readPing _ hb | readOpenCap _ hb =>
    cases hst.symm.trans hst'
    refine Or.inl ⟨rfl, ?_⟩
    simp [readFrames, Frame.isData, hb, FrameType.toU8_inj]
  | readOpen _ hb =>
    rw [List.getElem?_append_left hlt, hst] at hst'
    cases hst'
    refine Or.inl ⟨rfl, ?_⟩
    simp [readFrames, Frame.isData, hb, FrameType.toU8_inj]
  | readCritical _ _ hb =>
    cases hst.symm.trans hst'
    refine Or.inl ⟨rfl, ?_⟩
    simp [readFrames, Frame.isData, hb .data, hb .datagram]
  | readCredit _ hb =>
    refine Or.inl ⟨hkeep hst' fun _ => rfl, ?_⟩
    simp [readFrames, Frame.isData, hb, FrameType.toU8_inj]
  | @readIgnored f _ _ _ _ hdata =>
    cases hst.symm.trans hst'
    refine Or.inl ⟨rfl, ?_⟩
    intro g hg hd hl
    cases List.mem_singleton.mp hg
    simp only [Frame.isData, Bool.or_eq_true, beq_iff_eq] at hd
    rcases hdata hd with hnone | ⟨h₀, hl₀, hnone⟩
    · rw [hnone] at hl
      cases hl
    · cases hl.symm.trans hl₀
      rw [hst] at hnone
      cases hnone
  | @readPushed f h₀ st₀ _ hb hl hst₀ hnone =>
    rcases modify_cases hst hst' with ⟨rfl, rfl⟩ | ⟨hne, rfl⟩
    · cases hst.symm.trans hst₀
      refine Or.inr (Or.inr ⟨f, rfl, by simpa [Frame.isData] using hb, hl, ?_, rfl,
        by simp [Stream.backlog]⟩)
      exact fun hd => Stream.refuses_ne_none.mpr (Or.inr (Or.inl hd)) hnone
    · refine Or.inl ⟨rfl, ?_⟩
      intro g hg _ hl'
      cases List.mem_singleton.mp hg
      exact hne (Option.some.inj (hl.symm.trans hl'))
  | _ =>
    cases hst.symm.trans hst'
    exact .of_eq rfl rfl rfl

theorem Effect.mem_ids_mono (he : Effect e a e' ev) {id : UInt32} (hid : id ∈ e.ids) :
    id ∈ e'.ids := by
  obtain ⟨st, hst, rfl⟩ := List.mem_map.mp hid
  obtain ⟨h, hst⟩ := List.getElem?_of_mem hst
  obtain ⟨st', hst', hev⟩ := he.evolves hst
  rw [← hev.id]
  exact mem_ids_of_getElem? hst'

/-- A stream that a step creates has an id of its own. -/
theorem Effect.new_id (he : Effect e a e' ev) (hnd : e'.ids.Nodup)
    (hst' : e'.objs[e.objs.length]? = some st') : st'.id ∉ e.ids := by
  intro hid
  obtain ⟨st, hst, hid⟩ := List.mem_map.mp hid
  obtain ⟨h, hst⟩ := List.getElem?_of_mem hst
  obtain ⟨st₁, hst₁, hev⟩ := he.evolves hst
  have heq := eq_of_id_eq hnd hst₁ hst' (hev.id.trans hid)
  have hlt := (List.getElem?_eq_some_iff.mp hst).1
  omega

theorem Effect.returned_none (he : Effect e a e' ev) (hnone : e.objs[h]? = none) :
    Mux.returned h ev = [] := by
  cases he with
  | @returned h₀ _ _ hst | @returnedClosed h₀ _ _ hst | @credited h₀ _ _ _ hst =>
    have hne : h₀ ≠ h := by
      rintro rfl
      rw [hnone] at hst
      cases hst
    simp [Mux.returned, hne]
  | _ => rfl

/-- What an endpoint's streams hold and have handed out, against the frames it has read. -/
structure Received (e : Endpoint) (evs : List Event) : Prop where
  /-- A frame about a stream is read after the stream is registered. -/
  known : ∀ f ∈ readFrames evs, f.onStream = true → f.streamId ∈ e.ids ∧
    (e.cmdOpen = true → ∀ target h, .open f.streamId target h ∉ e.cmdQ)
  fresh : ∀ h, e.objs[h]? = none → Mux.returned h evs = []
  within : ∀ h st, e.objs[h]? = some st →
    Mux.returned h evs ++ st.backlog <+: dataOf st.id (readFrames evs)
  /-- A stream in use that is in the map has everything. -/
  whole : ∀ h st, e.objs[h]? = some st → e.streams.lookup st.id = some h → st.owner ≠ .dropped →
    Mux.returned h evs ++ st.backlog = dataOf st.id (readFrames evs)

theorem received_start (negotiated : Negotiated) (role : Role) :
    (start negotiated role).Received [] where
  known := by simp [readFrames]
  fresh := by simp [Mux.returned]
  within := by simp [start]
  whole := by simp [start]

section

variable {evs : List Event} (hr : e.Received evs)
  (hknown : ∀ f ∈ readFrames ev, f.onStream = true → f.streamId ∈ e.ids ∧
    (e.cmdOpen = true → ∀ target h, .open f.streamId target h ∉ e.cmdQ))
include hr hknown

/-- Nothing was read for an id that no stream of the endpoint has. -/
theorem Received.unread {id : UInt32} (hid : id ∉ e.ids) :
    dataOf id (readFrames (evs ++ ev)) = [] := by
  refine dataOf_eq_nil fun f hf hd hfid => hid ?_
  rw [readFrames_append, List.mem_append] at hf
  rcases hf with hf | hf
  · exact hfid ▸ (hr.known f hf (Frame.onStream_of_isData hd)).1
  · exact hfid ▸ (hknown f hf (Frame.onStream_of_isData hd)).1

/-- Nor for a stream whose `Open` is still queued. -/
theorem Received.unread_queued {id : UInt32} {target : String} (hc : e.cmdOpen = true)
    (hq : .open id target h ∈ e.cmdQ) : dataOf id (readFrames (evs ++ ev)) = [] := by
  refine dataOf_eq_nil fun f hf hd hfid => ?_
  subst hfid
  rw [readFrames_append, List.mem_append] at hf
  rcases hf with hf | hf
  · exact (hr.known f hf (Frame.onStream_of_isData hd)).2 hc target h hq
  · exact (hknown f hf (Frame.onStream_of_isData hd)).2 hc target h hq

variable (he : Effect e a e' ev)
include he

theorem Effect.received_known (hnd : e'.ids.Nodup) : ∀ f ∈ readFrames (evs ++ ev),
    f.onStream = true → f.streamId ∈ e'.ids ∧
      (e'.cmdOpen = true → ∀ target h, .open f.streamId target h ∉ e'.cmdQ) := by
  intro f hf hon
  have hold : f.streamId ∈ e.ids ∧
      (e.cmdOpen = true → ∀ target h, .open f.streamId target h ∉ e.cmdQ) := by
    rw [readFrames_append, List.mem_append] at hf
    rcases hf with hf | hf
    · exact hr.known f hf hon
    · exact hknown f hf hon
  refine ⟨he.mem_ids_mono hold.1, fun hc target h hq => ?_⟩
  rcases he.mem_cmdQ hq with hq | ⟨rfl, st, hst, hid, -⟩
  · exact hold.2 (he.cmdOpen_mono hc) target h hq
  · exact he.new_id hnd hst (hid ▸ hold.1)

omit hknown in
/-- **What a stream of the endpoint has after a step**, if it had it before. -/
theorem Effect.received_old (hwf : e.Wf) (hst : e.objs[h]? = some st) (hst' : e'.objs[h]? = some st') :
    Mux.returned h (evs ++ ev) ++ st'.backlog <+: dataOf st.id (readFrames (evs ++ ev)) ∧
    (e.streams.lookup st.id = some h → e'.streams.lookup st.id = some h →
      st'.owner ≠ .dropped → Mux.returned h (evs ++ ev) ++ st'.backlog =
        dataOf st.id (readFrames (evs ++ ev))) := by
  have hmore : dataOf st.id (readFrames evs) <+: dataOf st.id (readFrames (evs ++ ev)) := by
    rw [readFrames_append, dataOf_append]
    exact List.prefix_append _ _
  have hold := hr.within h st hst
  rw [returned_append, List.append_assoc]
  rcases he.backlog hst hst' with ⟨hb, hno⟩ | ⟨ho, hret, hb⟩ | ⟨f, hread, hd, hl, ho, hret, hb⟩
  · rw [hb]
    refine ⟨hold.trans hmore, fun hl hl' ho' => ?_⟩
    have ho : st.owner ≠ .dropped := fun hd => ho' (he.owner_dropped hwf hst hst' hd)
    have hnone : dataOf st.id (readFrames ev) = [] :=
      dataOf_eq_nil fun f hf hd hid => hno f hf hd (hid ▸ hl')
    rw [hr.whole h st hst hl ho, readFrames_append, dataOf_append, hnone, List.append_nil]
  · rw [hret, hb, List.append_nil, List.append_nil]
    exact ⟨(List.prefix_append _ _).trans (hold.trans hmore), fun _ _ ho' => absurd ho ho'⟩
  · -- The reader pushed a message into a stream of the map.
    obtain ⟨st₀, hst₀, hid⟩ := hwf.map hl
    cases hst.symm.trans hst₀
    have heq : Mux.returned h evs ++ (Mux.returned h ev ++ st'.backlog) =
        dataOf st.id (readFrames (evs ++ ev)) := by
      rw [hret, hb, List.nil_append, ← List.append_assoc, hr.whole h st hst (hid ▸ hl) ho,
        readFrames_append, dataOf_append, hread, dataOf_singleton hd hid.symm]
    exact ⟨heq ▸ List.prefix_rfl, fun _ _ _ => heq⟩

/-- **An endpoint hands out what it has read.** -/
theorem Effect.received (hwf : e.Wf) (hnd : e'.ids.Nodup) : e'.Received (evs ++ ev) where
  known := he.received_known hr hknown hnd
  fresh := by
    intro h hnone
    have hnone₀ : e.objs[h]? = none := by
      cases hst : e.objs[h]? with
      | none => rfl
      | some st =>
        obtain ⟨st', hst', -⟩ := he.evolves hst
        rw [hnone] at hst'
        cases hst'
    rw [returned_append, hr.fresh h hnone₀, he.returned_none hnone₀, List.append_nil]
  within := by
    intro h st' hst'
    rcases he.origin hst' with ⟨st, hst, hc⟩ | ⟨rfl, id, target, kind, owner, -, rfl⟩
    · rw [hc.evolves.id]
      exact (he.received_old hr hwf hst hst').1
    · have hnone : e.objs[e.objs.length]? = none := List.getElem?_eq_none le_rfl
      rw [returned_append, hr.fresh _ hnone, he.returned_none hnone]
      exact List.nil_prefix
  whole := by
    intro h st' hst' hl' ho'
    rcases he.origin hst' with ⟨st, hst, hc⟩ | ⟨rfl, id, target, kind, owner, -, rfl⟩
    · obtain ⟨hwithin, hwhole⟩ := he.received_old hr hwf hst hst'
      rw [hc.evolves.id] at hl' ⊢
      rcases he.lookup hl' with hl | ⟨target, hq, hcmd⟩ | ⟨rfl, -⟩
      · exact hwhole hl hl' ho'
      · rw [hr.unread_queued hknown hcmd hq] at hwithin ⊢
        exact List.prefix_nil.mp hwithin
      · exact absurd (List.getElem?_eq_some_iff.mp hst).1 (lt_irrefl _)
    · have hnone : e.objs[e.objs.length]? = none := List.getElem?_eq_none le_rfl
      rw [returned_append, hr.fresh _ hnone, he.returned_none hnone,
        hr.unread hknown (he.new_id hnd hst')]
      rfl

end

end Endpoint

end Leshiy.Mux
