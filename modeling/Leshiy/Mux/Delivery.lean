import Leshiy.Mux.Sending

/-!
# Delivery

What `recv` returns on a stream is what the peer passed to `send` on the stream of the same id,
in order and up to where the reader got; a datagram comes out whole. Until the peer's `Close` is
read nothing of it is missing, so a receiver that sees the end of a stream has seen all of it.

Two things a caller can do take this away, and one the session can: overlapping `send` calls on
one stream, dropping a call before it returns, and the teardown of the receiving session.
-/

namespace Leshiy.Mux

open Leshiy.Lib

/-- The frame ends the stream. -/
def closesStream (id : UInt32) (f : Frame) : Bool := f.closes && f.streamId == id

theorem closesStream_iff {id : UInt32} {f : Frame} :
    closesStream id f = true ↔ f.closes = true ∧ f.streamId = id := by
  simp [closesStream]

/-- The steps that take a sink away from its stream for the session's sake. -/
def Act.tearsDown : Act → Bool
  | .writerExit | .writerDrain | .writerCloseAll | .readerCloseAll | .watchdogFire => true
  | _ => false

/-! ## Who closes a stream -/

namespace Endpoint

variable {e e' : Endpoint} {a : Act} {ev : List Event} {h : Nat} {st st' : Stream}

theorem mem_outbox {c : Command} (hc : e.cmdOpen = true) (hmem : c ∈ e.cmdQ) :
    c.frame ∈ e.outbox := by
  have hframe := List.mem_map_of_mem (f := Command.frame) hmem
  cases hw : e.writer with
  | idle =>
    rw [outbox, hw]
    exact hframe
  | writing f =>
    rw [outbox, hw]
    exact List.mem_cons_of_mem _ hframe
  | _ => simp [cmdOpen, hw] at hc

/-- A `Close` is queued by `close` on the stream, or is a reply of the reader. -/
theorem Effect.closes_queued (he : Effect e a e' ev) (hnd : e.ids.Nodup)
    (hst : e.objs[h]? = some st) {f : Frame} (hf : f ∈ queuedFrames ev)
    (hc : closesStream st.id f = true) : .closed h ∈ ev ∨ e.reader = .replying f := by
  obtain ⟨hc, hid⟩ := closesStream_iff.mp hc
  have hty : ∀ {ty : FrameType} {p : Prop}, baseType f.ftype = ty.toU8 → ty ≠ .close → p := by
    intro ty p hb hne
    simp only [Frame.closes, hb, beq_iff_eq, FrameType.toU8_inj] at hc
    exact absurd hc hne
  cases he with
  | @closeQueued h₀ st₀ hst₀ =>
    cases List.mem_singleton.mp hf
    have heq : h₀ = h := eq_of_id_eq hnd hst₀ hst hid
    exact Or.inl (by simp [heq])
  | replied hr =>
    cases List.mem_singleton.mp hf
    exact Or.inr hr
  | opened =>
    cases List.mem_singleton.mp hf
    exact hty (baseType_toU8 .open) (by decide)
  | @sentLast _ _ st₀ | @sentMore _ _ st₀ =>
    cases List.mem_singleton.mp hf
    cases hk : st₀.kind with
    | tcp => exact hty (by rw [hk]; exact baseType_toU8 .data) (by decide)
    | udp | icmp =>
      exact hty (by rw [hk]; exact baseType_toU8 .datagram) (by decide)
  | credited _ _ _ _ _ _ hwu =>
    cases List.mem_singleton.mp hf
    subst hwu
    exact hty (baseType_toU8 .windowUpdate) (by decide)
  | pinged =>
    cases List.mem_singleton.mp hf
    exact hty (baseType_toU8 .ping) (by decide)
  | _ => cases hf

/-- The reader replies with a `Close` for a stream it has reset. -/
theorem Effect.closes_reply (he : Effect e a e' ev) (hwf : e.Wf) (hnd : e.ids.Nodup)
    (hst : e.objs[h]? = some st) {f : Frame} (hr : e'.reader = .replying f)
    (hc : closesStream st.id f = true) :
    e.reader = .replying f ∨ ∃ cause, .reset h cause ∈ ev := by
  obtain ⟨hc, hid⟩ := closesStream_iff.mp hc
  cases he with
  | readPing =>
    cases hr
    simp [Frame.closes, pongFrame, FrameType.toU8_inj] at hc
  | @readReset g h₀ st₀ cause _ _ hl =>
    cases hr
    obtain ⟨st₁, hst₁, hid₁⟩ := hwf.map hl
    have heq : h₀ = h := eq_of_id_eq hnd hst₁ hst (hid₁.trans hid)
    exact Or.inr ⟨cause, by simp [heq]⟩
  | readOpenCap | readOpen | readCritical | replyLost | replied | deliveryFailed | delivered
  | readerLeft | readerLeftDelivering | readerClosed | readerPublished => simp at hr
  | _ => exact Or.inl (by simpa using hr)

/-- Frames about a stream are queued for streams the endpoint has. -/
theorem Effect.queued_known (he : Effect e a e' ev) (hwf : e.Wf) :
    ∀ f ∈ queuedFrames ev, f.onStream = true → f.streamId ∈ e.ids := by
  intro f hf hon
  rcases he.ids hwf with ⟨-, -, hmay, -⟩ | ⟨target, -, -, -, hopen, -⟩ | ⟨g, -, -, hnone, -⟩
  · exact (hmay f hf).2 hon
  · rw [hopen, List.mem_singleton] at hf
    rw [hf, onStream_openFrame] at hon
    cases hon
  · rw [hnone] at hf
    cases hf

theorem Effect.reply_known (he : Effect e a e' ev) (hwf : e.Wf) {f : Frame}
    (hr : e'.reader = .replying f) (hon : f.onStream = true) : f.streamId ∈ e.ids := by
  have hold : e.reader = .replying f → f.streamId ∈ e.ids := by
    intro hr
    rcases hwf.reply hr with rfl | ⟨st, hst, rfl⟩
    · rw [onStream_pongFrame] at hon
      cases hon
    · exact mem_ids hst
  cases he with
  | readPing =>
    cases hr
    rw [onStream_pongFrame] at hon
    cases hon
  | readReset _ _ hl =>
    cases hr
    obtain ⟨st, hst, hid⟩ := hwf.map hl
    exact hid ▸ mem_ids_of_getElem? hst
  | readOpenCap | readOpen | readCritical | replyLost | replied | deliveryFailed | delivered
  | readerLeft | readerLeftDelivering | readerClosed | readerPublished => simp at hr
  | _ => exact hold (by simpa using hr)

end Endpoint

namespace Sys

variable {s s' s₀ : Sys} {cap : Nat} {log : List (Taken Sys (Role × Act) (Role × Event))}
  {hello : Role → Hello}

/-- Frames read and queued are about streams of the endpoint. -/
structure Tracked (log : List (Taken Sys (Role × Act) (Role × Event))) (s : Sys) (p : Role) :
    Prop where
  wf : (s.ep p).Wf
  ids : s.Ids p
  received : (s.ep p).Received (eventsOf p log)
  queued : ∀ f ∈ queuedFrames (eventsOf p log), f.onStream = true → f.streamId ∈ (s.ep p).ids

/-- A frame is read after its stream is known, and not before its `Open` has left. -/
theorem Ids.read_known {p : Role} {a : Act} {ev : List Event} (hp : s.Ids p)
    (hq : s.Ids p.peer) (hm : s.Move p a s' ev) :
    ∀ f ∈ readFrames ev, f.onStream = true → f.streamId ∈ (s.ep p).ids ∧
      ((s.ep p).cmdOpen = true → ∀ target h, .open f.streamId target h ∉ (s.ep p).cmdQ) := by
  intro f hf hon
  rcases hm.effect.reads with ⟨g, -, hread, -, hidle⟩ | ⟨-, hread⟩
  · rw [hread, List.mem_singleton] at hf
    subst hf
    have hinn := hm.inn
    rw [hread] at hinn
    have hflight : f ∈ s.flight p.peer := by simp [hinn]
    have hrunning : (s.ep p).readerRunning = true := by simp [Endpoint.readerRunning, hidle]
    constructor
    · have hin := hq.introduced (by rwa [Role.peer_peer]) [] f _ hinn hon
      rw [Role.peer_peer] at hin
      exact hin.resolve_right (by simp)
    · intro hc target h hcmd
      have hmem : openFrame f.streamId target ∈ s.flight p :=
        List.mem_append_right _ (Endpoint.mem_outbox hc hcmd)
      have hopening := hp.opening _ (mem_openIds hmem (opens_openFrame _ _))
      exact hopening.2.2 (hq.known f hflight hon)
  · rw [hread] at hf
    cases hf

theorem tracked_connect (h0 : connect hello = .ok s₀) (p : Role) : Tracked [] s₀ p where
  wf := wf_connect h0 p
  ids := ids_connect h0 p
  received := by
    obtain ⟨-, n, -, he⟩ := connect_ok h0 p
    rw [he]
    exact Endpoint.received_start n p
  queued := by simp [queuedFrames]

theorem Tracked.move {p q : Role} {a : Act} {ev : List Event} (ht : ∀ p, Tracked log s p)
    (hm : s.Move q a s' ev) : Tracked (log ++ [⟨s, (q, a), ev.map fun x => (q, x)⟩]) s' p := by
  obtain ⟨hq, hpeer⟩ := (ht q).ids.move hm (ht q.peer).ids (ht q).wf
  rcases Role.eq_or_eq_peer q p with rfl | rfl
  · refine ⟨hm.effect.wf (ht p).wf, hq, ?_, ?_⟩
    · rw [eventsOf_same]
      exact hm.effect.received (ht p).received ((ht p).ids.read_known (ht p.peer).ids hm)
        (ht p).wf hq.nodup
    · rw [eventsOf_same, queuedFrames_append]
      intro f hf hon
      rcases List.mem_append.mp hf with hf | hf
      · exact hm.effect.mem_ids_mono ((ht p).queued f hf hon)
      · exact hm.effect.mem_ids_mono (hm.effect.queued_known (ht p).wf f hf hon)
  · constructor
    · rw [hm.other]
      exact (ht _).wf
    · exact hpeer
    · rw [eventsOf_other (Role.ne_peer q), hm.other]
      exact (ht _).received
    · rw [eventsOf_other (Role.ne_peer q), hm.other]
      exact (ht _).queued

theorem tracked_of_run (h0 : connect hello = .ok s₀) (hrun : Exec (Sys.step cap) s₀ log s)
    (p : Role) : Tracked log s p := by
  refine run_inv (P := fun log s => ∀ p, Tracked log s p) (tracked_connect h0) ?_ hrun p
  intro log s q a s' ev _ ht hm p
  exact Tracked.move ht hm

/-- **A side that neither closes nor resets a stream** queues no `Close` for it. -/
theorem no_close_of_run (h0 : connect hello = .ok s₀) (hrun : Exec (Sys.step cap) s₀ log s)
    {p : Role} {h : Nat} {st : Stream} (hst : (s.ep p).objs[h]? = some st)
    (hclosed : .closed h ∉ eventsOf p log) (hreset : ∀ cause, .reset h cause ∉ eventsOf p log) :
    (∀ f ∈ queuedFrames (eventsOf p log), closesStream st.id f = false) ∧
      ∀ f, (s.ep p).reader = .replying f → closesStream st.id f = false := by
  refine run_inv (P := fun log s => .closed h ∉ eventsOf p log →
    (∀ cause, .reset h cause ∉ eventsOf p log) → ∀ st, (s.ep p).objs[h]? = some st →
    (∀ f ∈ queuedFrames (eventsOf p log), closesStream st.id f = false) ∧
      ∀ f, (s.ep p).reader = .replying f → closesStream st.id f = false) ?_ ?_ hrun hclosed
        hreset st hst
  · intro _ _ st hst
    obtain ⟨-, n, -, he⟩ := connect_ok h0 p
    rw [he] at hst
    cases hst
  · intro log s q a s' ev hrun ih hm hclosed hreset st' hst'
    rcases Role.eq_or_eq_peer q p with rfl | rfl
    · have ht := tracked_of_run h0 hrun p
      have ht' := (Tracked.move (p := p) (tracked_of_run h0 hrun) hm).ids
      rw [eventsOf_same] at hclosed hreset ⊢
      simp only [List.mem_append, not_or] at hclosed hreset
      rw [queuedFrames_append]
      rcases hm.effect.origin hst' with ⟨st, hst, hc⟩ | ⟨rfl, hnew⟩
      · obtain ⟨hq, hr⟩ := ih hclosed.1 (fun cause => (hreset cause).1) st hst
        rw [hc.evolves.id]
        constructor
        · intro f hf
          by_contra hcl
          rw [Bool.not_eq_false] at hcl
          rcases List.mem_append.mp hf with hf | hf
          · rw [hq f hf] at hcl
            cases hcl
          · rcases hm.effect.closes_queued ht.ids.nodup hst hf hcl with hev | hrep
            · exact hclosed.2 hev
            · rw [hr f hrep] at hcl
              cases hcl
        · intro f hrep'
          by_contra hcl
          rw [Bool.not_eq_false] at hcl
          rcases hm.effect.closes_reply ht.wf ht.ids.nodup hst hrep' hcl with hrep | ⟨cause, hev⟩
          · rw [hr f hrep] at hcl
            cases hcl
          · exact (hreset cause).2 hev
      · -- The stream is new: no frame was about it.
        have hid := hm.effect.new_id ht'.nodup hst'
        have hno : ∀ f : Frame, (f.onStream = true → f.streamId ∈ (s.ep p).ids) →
            closesStream st'.id f = false := by
          intro f hf
          by_contra hcl
          rw [Bool.not_eq_false, closesStream_iff] at hcl
          exact hid (hcl.2 ▸ hf (Frame.onStream_of_closes hcl.1))
        refine ⟨fun f hf => hno f fun hon => ?_, fun f hr => hno f ?_⟩
        · rcases List.mem_append.mp hf with hf | hf
          · exact ht.queued f hf hon
          · exact hm.effect.queued_known ht.wf f hf hon
        · exact hm.effect.reply_known ht.wf hr
    · have hother := hm.other
      rw [eventsOf_other (Role.ne_peer q)] at hclosed hreset ⊢
      rw [hother] at hst' ⊢
      exact ih hclosed hreset st' hst'

end Sys

/-! ## Up to the `Close` -/

/-- The frames before the one that ends the stream. -/
def untilClose (id : UInt32) (fs : List Frame) : List Frame :=
  fs.takeWhile fun f => !closesStream id f

section

variable {id : UInt32} {fs gs : List Frame}

theorem untilClose_append_of_none (h : ∀ f ∈ fs, closesStream id f = false) :
    untilClose id (fs ++ gs) = fs ++ untilClose id gs :=
  List.takeWhile_append_of_pos fun f hf => by simp [h f hf]

theorem untilClose_of_none (h : ∀ f ∈ fs, closesStream id f = false) : untilClose id fs = fs := by
  rw [untilClose, List.takeWhile_eq_self_iff]
  intro f hf
  simp [h f hf]

theorem untilClose_append_of_mem {f : Frame} (hf : f ∈ fs) (hc : closesStream id f = true) :
    untilClose id (fs ++ gs) = untilClose id fs := by
  induction fs with
  | nil => cases hf
  | cons g fs ih =>
    rw [untilClose, untilClose, List.cons_append, List.takeWhile_cons, List.takeWhile_cons]
    split
    · next hg =>
      rcases List.mem_cons.mp hf with rfl | hf
      · rw [hc] at hg
        cases hg
      · exact congrArg (g :: ·) (ih hf)
    · rfl

end

namespace Endpoint

variable {e e' : Endpoint} {a : Act} {ev evs : List Event} {h : Nat} {st st' : Stream}

/-- **How a stream loses its sink** while the session is up: its own `Close`, a reset, or the
peer's `Close`. -/
theorem Effect.sinkAlive_kept (he : Effect e a e' ev) (hwf : e.Wf) (hnd : e.ids.Nodup)
    (hnd' : e'.ids.Nodup) (hst : e.objs[h]? = some st) (halive : e.sinkAlive h = true)
    (htear : a.tearsDown = false) :
    e'.sinkAlive h = true ∨ (∃ f, .write f ∈ e.cmdQ ∧ closesStream st.id f = true) ∨
      (∃ cause, .reset h cause ∈ ev) ∨ ∃ f ∈ readFrames ev, closesStream st.id f = true := by
  have hclose : ∀ {f : Frame}, baseType f.ftype = FrameType.close.toU8 → f.streamId = st.id →
      closesStream st.id f = true := by
    intro f hb hid
    simp [closesStream, Frame.closes, hb, hid]
  have hnew : ∀ st', e'.objs[e.objs.length]? = some st' → st'.id ∉ e.ids :=
    fun st' hst' => he.new_id hnd' hst'
  have hin := mem_ids_of_getElem? hst
  rw [sinkAlive_iff] at halive ⊢
  rcases halive with ⟨id, hl⟩ | ⟨id, target, hq⟩
  · -- The sink is in the map.
    obtain ⟨st₀, hst₀, rfl⟩ := hwf.map hl
    cases hst.symm.trans hst₀
    cases he with
    | @tookOpen id' target' h' q hw hcmd =>
      refine Or.inl (Or.inl ⟨st.id, ?_⟩)
      rw [lookup_insert_eq]
      split
      · next hid =>
        obtain ⟨st₁, hst₁, hid₁, -⟩ := hwf.queue (hcmd ▸ List.mem_cons_self)
        rw [eq_of_id_eq hnd hst hst₁ (hid.trans hid₁.symm)]
      · exact hl
    | @readOpen f kind target =>
      refine Or.inl (Or.inl ⟨st.id, ?_⟩)
      rw [lookup_insert_eq, if_neg]
      · exact hl
      · intro hid
        exact hnew _ List.getElem?_concat_length (hid ▸ hin)
    | @tookClose f q hw hcmd hb =>
      by_cases hid : f.streamId = st.id
      · exact Or.inr (Or.inl ⟨f, hcmd ▸ List.mem_cons_self, hclose hb hid⟩)
      · refine Or.inl (Or.inl ⟨st.id, ?_⟩)
        rw [removeStream_streams, lookup_erase_eq, if_neg (Ne.symm hid)]
        exact hl
    | @readReset f h' st' cause _ hb hl' =>
      by_cases hid : f.streamId = st.id
      · rw [hid] at hl'
        cases hl.symm.trans hl'
        exact Or.inr (Or.inr (Or.inl ⟨cause, by simp⟩))
      · refine Or.inl (Or.inl ⟨st.id, ?_⟩)
        rw [removeStream_streams, lookup_erase_eq, if_neg (Ne.symm hid)]
        exact hl
    | @readClose f _ hb =>
      by_cases hid : f.streamId = st.id
      · exact Or.inr (Or.inr (Or.inr ⟨f, List.mem_singleton.mpr rfl, hclose hb hid⟩))
      · refine Or.inl (Or.inl ⟨st.id, ?_⟩)
        rw [removeStream_streams, lookup_erase_eq, if_neg (Ne.symm hid)]
        exact hl
    | writerClosed | readerClosed | watchdogFired => cases htear
    | _ => exact Or.inl (Or.inl ⟨st.id, hl⟩)
  · -- The sink is in the queued `Open`.
    cases he with
    | @tookOpen id' target' h' q hw hcmd =>
      rw [hcmd] at hq
      rcases List.mem_cons.mp hq with heq | hq
      · cases heq
        exact Or.inl (Or.inl ⟨id, AList.lookup_insert _⟩)
      · exact Or.inl (Or.inr ⟨id, target, hq⟩)
    | tookClose _ hcmd | tookWrite _ hcmd =>
      rw [hcmd] at hq
      rcases List.mem_cons.mp hq with heq | hq
      · cases heq
      · exact Or.inl (Or.inr ⟨id, target, hq⟩)
    | drainedOpen | drainedWrite => cases htear
    | opened | sentLast | sentMore | credited | closeQueued | pinged | replied =>
      exact Or.inl (Or.inr ⟨id, target, List.mem_append_left _ hq⟩)
    | _ => exact Or.inl (Or.inr ⟨id, target, by simpa using hq⟩)

/-- A frame with data ends no stream. -/
theorem closesStream_of_isData {id : UInt32} {f : Frame} (hd : f.isData = true) :
    closesStream id f = false := by
  simp only [Frame.isData, Bool.or_eq_true, beq_iff_eq] at hd
  rcases hd with hb | hb <;> simp [closesStream, Frame.closes, hb, FrameType.toU8_inj]

theorem Effect.evolves_to (he : Effect e a e' ev) (hst : e.objs[h]? = some st)
    (hst' : e'.objs[h]? = some st') : st.Evolves st' := by
  obtain ⟨st₁, hst₁, hev⟩ := he.evolves hst
  cases hst'.symm.trans hst₁
  exact hev

/-- A `Close` takes its stream out of the map. -/
theorem Effect.not_lookup_of_close (he : Effect e a e' ev) {f : Frame} (hf : f ∈ readFrames ev)
    (hc : f.closes = true) : e'.streams.lookup f.streamId ≠ some h := by
  have hb : baseType f.ftype = FrameType.close.toU8 := by simpa [Frame.closes] using hc
  have hne : ∀ {ty : FrameType}, baseType f.ftype = ty.toU8 → ty = .close := by
    intro ty h
    exact FrameType.toU8_inj.mp (h.symm.trans hb)
  cases he with
  | readClose =>
    cases List.mem_singleton.mp hf
    rw [removeStream_streams, lookup_erase_eq, if_pos rfl]
    exact Option.some_ne_none h ∘ Eq.symm
  | readPing _ hb' | readOpenCap _ hb' | readOpen _ hb' | readCredit _ hb' =>
    cases List.mem_singleton.mp hf
    cases hne hb'
  | readReset _ hb' | readPushed _ hb' =>
    cases List.mem_singleton.mp hf
    rcases hb' with hb' | hb' <;> cases hne hb'
  | readIgnored _ _ _ hclose =>
    cases List.mem_singleton.mp hf
    exact absurd hb hclose
  | readCritical _ _ hb' =>
    cases List.mem_singleton.mp hf
    exact absurd hb (hb' .close (by decide) (by decide))
  | _ => cases hf

/-- A stream that has everything its peer queued before the `Close`. -/
structure Served (e : Endpoint) (evs : List Event) (h : Nat) (st : Stream) : Prop where
  running : e.cmdOpen = true
  alive : (∀ f ∈ readFrames evs, closesStream st.id f = false) → e.sinkAlive h = true
  gone : ∀ f ∈ readFrames evs, closesStream st.id f = true → e.streams.lookup st.id ≠ some h
  all : st.owner ≠ .dropped →
    Mux.returned h evs ++ st.backlog = dataOf st.id (untilClose st.id (readFrames evs))

/-- Data that was read for a stream finds its sink in the map, if there is one: its `Open` has
left the queue. -/
theorem Received.lookup_of_data (hr : e.Received evs) (hwf : e.Wf) (hc : e.cmdOpen = true)
    (hst : e.objs[h]? = some st) (halive : e.sinkAlive h = true) {g : Frame}
    (hg : g ∈ readFrames evs) (hd : g.isData = true) (hid : g.streamId = st.id) :
    e.streams.lookup st.id = some h := by
  rcases sinkAlive_iff.mp halive with ⟨id, hl⟩ | ⟨id, target, hq⟩
  · obtain ⟨st₀, hst₀, rfl⟩ := hwf.map hl
    cases hst.symm.trans hst₀
    exact hl
  · obtain ⟨st₀, hst₀, rfl, -⟩ := hwf.queue hq
    cases hst.symm.trans hst₀
    exact absurd (hid ▸ hq) ((hr.known g hg (Frame.onStream_of_isData hd)).2 hc target h)

theorem Effect.cmdOpen_kept (he : Effect e a e' ev) (hc : e.cmdOpen = true)
    (htear : a.tearsDown = false) : e'.cmdOpen = true := by
  cases he with
  | writerLeft | drainedOpen | drainedWrite | writerClosed => cases htear
  | writerPublished hw => simp [cmdOpen, hw] at hc
  | wrote | tookOpen | tookClose | tookWrite => rfl
  | readClose | readReset => simpa [cmdOpen] using hc
  | _ => exact hc

section

variable (he : Effect e a e' ev) (hr : e.Received evs) (hwf : e.Wf) (hnd : e.ids.Nodup)
  (hr' : e'.Received (evs ++ ev)) (hwf' : e'.Wf) (hnd' : e'.ids.Nodup)
  (hst : e.objs[h]? = some st) (hst' : e'.objs[h]? = some st') (hs : e.Served evs h st)
  (htear : a.tearsDown = false) (hclose : ∀ f, .write f ∈ e.cmdQ → closesStream st.id f = false)
  (hreset : ∀ cause, .reset h cause ∉ ev)
include he hwf hnd hnd' hst hs htear hclose hreset

theorem Effect.served_alive (hno : ∀ f ∈ readFrames (evs ++ ev), closesStream st.id f = false) :
    e'.sinkAlive h = true := by
  rw [readFrames_append] at hno
  have halive := hs.alive fun f hf => hno f (List.mem_append_left _ hf)
  rcases he.sinkAlive_kept hwf hnd hnd' hst halive htear with h | ⟨f, hf, hc⟩ | ⟨cause, hev⟩ |
    ⟨f, hf, hc⟩
  · exact h
  · rw [hclose f hf] at hc
    cases hc
  · exact absurd hev (hreset cause)
  · rw [hno f (List.mem_append_right _ hf)] at hc
    cases hc

include hr' hwf' hst'

/-- Data read for a stream with a live sink is pushed. -/
theorem Effect.served_all (ho' : st'.owner ≠ .dropped) :
    Mux.returned h (evs ++ ev) ++ st'.backlog =
      dataOf st.id (untilClose st.id (readFrames (evs ++ ev))) := by
  have ho : st.owner ≠ .dropped := fun hd => ho' (he.owner_dropped hwf hst hst' hd)
  have hall := hs.all ho
  rw [returned_append, List.append_assoc, readFrames_append]
  by_cases hc : ∃ f ∈ readFrames evs, closesStream st.id f = true
  · -- The stream has ended: nothing is pushed any more.
    obtain ⟨f, hf, hc⟩ := hc
    rw [untilClose_append_of_mem hf hc]
    rcases he.backlog hst hst' with ⟨hb, -⟩ | ⟨hd, -⟩ | ⟨g, -, -, hl, -⟩
    · rw [hb, hall]
    · exact absurd hd ho'
    · obtain ⟨st₀, hst₀, hid⟩ := hwf.map hl
      cases hst.symm.trans hst₀
      exact absurd (hid ▸ hl) (hs.gone f hf hc)
  · have hno : ∀ f ∈ readFrames evs, closesStream st.id f = false := by
      intro f hf
      by_contra hcl
      exact hc ⟨f, hf, by simpa using hcl⟩
    rw [untilClose_append_of_none hno, dataOf_append]
    rw [untilClose_of_none hno] at hall
    rcases he.backlog hst hst' with ⟨hb, hlost⟩ | ⟨hd, -⟩ | ⟨g, hread, hd, hl, -, hret, hb⟩
    · rw [hb, hall]
      have hnone : dataOf st.id (untilClose st.id (readFrames ev)) = [] := by
        refine dataOf_eq_nil fun g hg hd hid => ?_
        have hmem : g ∈ readFrames ev := (List.takeWhile_prefix _).subset hg
        have hsame : ∀ f ∈ readFrames ev, f = g := by
          rcases he.reads with ⟨f, -, hread, -⟩ | ⟨-, hread⟩
          · simp_all
          · simp [hread] at hmem
        have halive := he.served_alive hwf hnd hnd' hst hs htear hclose hreset (by
          intro f hf
          rw [readFrames_append, List.mem_append] at hf
          rcases hf with hf | hf
          · exact hno f hf
          · rw [hsame f hf]
            exact closesStream_of_isData hd)
        have hid' : st'.id = st.id := (he.evolves_to hst hst').id
        have hl := hr'.lookup_of_data hwf' (he.cmdOpen_kept hs.running htear) hst' halive
          (by rw [readFrames_append]; exact List.mem_append_right _ hmem) hd (hid.trans hid'.symm)
        exact hlost g hmem hd (hid.trans hid'.symm ▸ hl)
      rw [hnone, List.append_nil]
    · exact absurd hd ho'
    · obtain ⟨st₀, hst₀, hid⟩ := hwf.map hl
      cases hst.symm.trans hst₀
      have hnc : ∀ f ∈ [g], closesStream st.id f = false := by
        intro f hf
        cases List.mem_singleton.mp hf
        exact closesStream_of_isData hd
      rw [hret, hb, hread, List.nil_append, ← List.append_assoc, hall, untilClose_of_none hnc,
        dataOf_singleton hd hid.symm]

include hr

/-- **A stream keeps what its peer queued before the `Close`**, step by step. -/
theorem Effect.served : e'.Served (evs ++ ev) h st' := by
  have hid : st'.id = st.id := (he.evolves_to hst hst').id
  refine ⟨he.cmdOpen_kept hs.running htear, ?_, ?_, ?_⟩
  · rw [hid]
    exact he.served_alive hwf hnd hnd' hst hs htear hclose hreset
  · rw [hid]
    intro f hf hc hl'
    obtain ⟨hcl, hfid⟩ := closesStream_iff.mp hc
    have hlt := (List.getElem?_eq_some_iff.mp hst).1
    rw [readFrames_append, List.mem_append] at hf
    rcases hf with hf | hf
    · rcases he.lookup hl' with hl | ⟨target, hq, hcmd⟩ | ⟨rfl, -⟩
      · exact hs.gone f hf hc hl
      · exact (hr.known f hf (Frame.onStream_of_closes hcl)).2 hcmd target h (hfid ▸ hq)
      · exact lt_irrefl _ hlt
    · exact he.not_lookup_of_close hf hcl (hfid ▸ hl')
  · rw [hid]
    exact he.served_all hwf hnd hr' hwf' hnd' hst hst' hs htear hclose hreset

end

/-- A new stream has everything: no frame was about it. -/
theorem Effect.served_new (he : Effect e a e' ev) (hr : e.Received evs)
    (hknown : ∀ f ∈ readFrames ev, f.onStream = true → f.streamId ∈ e.ids ∧
      (e.cmdOpen = true → ∀ target h, .open f.streamId target h ∉ e.cmdQ))
    (hnd' : e'.ids.Nodup) (hc' : e'.cmdOpen = true) (hst' : e'.objs[e.objs.length]? = some st')
    (hb : st'.backlog = []) : e'.Served (evs ++ ev) e.objs.length st' := by
  have hlt' := (List.getElem?_eq_some_iff.mp hst').1
  have hnone : e.objs[e.objs.length]? = none := List.getElem?_eq_none le_rfl
  have hno : ∀ f ∈ readFrames (evs ++ ev), f.onStream = true → f.streamId ≠ st'.id := by
    intro f hf hon hid
    rw [readFrames_append, List.mem_append] at hf
    refine he.new_id hnd' hst' (hid ▸ ?_)
    rcases hf with hf | hf
    · exact (hr.known f hf hon).1
    · exact (hknown f hf hon).1
  refine ⟨hc', fun _ => he.sinkAlive_new le_rfl hlt', ?_, ?_⟩
  · intro f hf hcl
    obtain ⟨hcl, hid⟩ := closesStream_iff.mp hcl
    exact absurd hid (hno f hf (Frame.onStream_of_closes hcl))
  · intro _
    rw [returned_append, hr.fresh _ hnone, he.returned_none hnone, hb]
    refine (dataOf_eq_nil fun f hf hd => ?_).symm
    exact hno f ((List.takeWhile_prefix _).subset hf) (Frame.onStream_of_isData hd)

end Endpoint

namespace Sys

variable {s s' s₀ : Sys} {cap : Nat} {log : List (Taken Sys (Role × Act) (Role × Event))}
  {hello : Role → Hello}

/-- The session of `q` is not torn down in this step. -/
def staysUp (q : Role) (_ : Sys) (x : Role × Act) : Prop := x.1 = q → x.2.tearsDown = false

instance (q : Role) (s : Sys) (x : Role × Act) : Decidable (staysUp q s x) :=
  inferInstanceAs (Decidable (x.1 = q → x.2.tearsDown = false))

/-- The writer has no `Close` to take for a stream that its side neither closed nor reset. -/
theorem no_close_in_queue (h0 : connect hello = .ok s₀) (hrun : Exec (Sys.step cap) s₀ log s)
    {q : Role} {h : Nat} {st : Stream} (hst : (s.ep q).objs[h]? = some st)
    (hc : (s.ep q).cmdOpen = true) (hclosed : .closed h ∉ eventsOf q log)
    (hreset : ∀ cause, .reset h cause ∉ eventsOf q log) :
    ∀ f, .write f ∈ (s.ep q).cmdQ → closesStream st.id f = false := by
  intro f hf
  have hmem : f ∈ s.flight q := List.mem_append_right _ (Endpoint.mem_outbox hc hf)
  exact (no_close_of_run h0 hrun hst hclosed hreset).1 f
    ((fifo h0 hrun q).subset (List.mem_append_right _ hmem))

/-- **A receiver whose session is up and who neither closed nor reset a stream** has everything
that was read for it before the peer's `Close`. -/
theorem served_of_run (h0 : connect hello = .ok s₀) (hrun : Exec (Sys.step cap) s₀ log s)
    {q : Role} {h : Nat} {st : Stream} (hst : (s.ep q).objs[h]? = some st)
    (hup : Steps (staysUp q) log) (hclosed : .closed h ∉ eventsOf q log)
    (hreset : ∀ cause, .reset h cause ∉ eventsOf q log) :
    (s.ep q).Served (eventsOf q log) h st := by
  suffices hs : (s.ep q).cmdOpen = true ∧ (.closed h ∉ eventsOf q log →
      (∀ cause, .reset h cause ∉ eventsOf q log) → ∀ st, (s.ep q).objs[h]? = some st →
      (s.ep q).Served (eventsOf q log) h st) from hs.2 hclosed hreset st hst
  refine run_inv (P := fun log s => Steps (staysUp q) log → (s.ep q).cmdOpen = true ∧
    (.closed h ∉ eventsOf q log → (∀ cause, .reset h cause ∉ eventsOf q log) →
      ∀ st, (s.ep q).objs[h]? = some st → (s.ep q).Served (eventsOf q log) h st)) ?_ ?_ hrun hup
  · intro _
    obtain ⟨-, n, -, he⟩ := connect_ok h0 q
    rw [he]
    exact ⟨rfl, fun _ _ st hst => by cases hst⟩
  · intro log s p a s' ev hrun ih hm hup
    obtain ⟨hup, hok⟩ := steps_snoc.mp hup
    obtain ⟨hc, ih⟩ := ih hup
    rcases Role.eq_or_eq_peer p q with rfl | rfl
    · have ht := tracked_of_run h0 hrun
      have ht' := Tracked.move (p := q) ht hm
      have hc' := hm.effect.cmdOpen_kept hc (hok rfl)
      have hr' := ht'.received
      refine ⟨hc', ?_⟩
      rw [eventsOf_same] at hr' ⊢
      simp only [List.mem_append, not_or]
      rintro ⟨hclosed, -⟩ hreset st' hst'
      rcases hm.effect.origin hst' with ⟨st, hst, -⟩ | ⟨rfl, id, target, kind, owner, -, rfl⟩
      · have hs := ih hclosed (fun cause => (hreset cause).1) st hst
        exact hm.effect.served (ht q).received (ht q).wf (ht q).ids.nodup hr' ht'.wf
          ht'.ids.nodup hst hst' hs (hok rfl)
          (no_close_in_queue h0 hrun hst hc hclosed fun cause => (hreset cause).1)
          fun cause => (hreset cause).2
      · exact hm.effect.served_new (ht q).received ((ht q).ids.read_known (ht q.peer).ids hm)
          ht'.ids.nodup hc' hst' rfl
    · rw [eventsOf_other (Role.ne_peer p), hm.other]
      exact ⟨hc, ih⟩

/-- Side `p` makes the calls of `send` on its stream `h` one after another. -/
def orderly (p : Role) (h : Nat) (s : Sys) (x : Role × Act) : Prop :=
  x.1 = p → (s.ep p).orderly h x.2

instance (p : Role) (h : Nat) (s : Sys) (x : Role × Act) : Decidable (orderly p h s x) :=
  inferInstanceAs (Decidable (x.1 = p → (s.ep p).orderly h x.2))

/-- **The sending side over a run.** -/
theorem sent_of_run (h0 : connect hello = .ok s₀) (hrun : Exec (Sys.step cap) s₀ log s)
    {p : Role} {h : Nat} {st : Stream} (hst : (s.ep p).objs[h]? = some st) :
    Endpoint.Sourced (eventsOf p log) h st ∧
      (Steps (orderly p h) log → (s.ep p).Sending (eventsOf p log) h st) := by
  suffices hs : ((s.ep p).objs[h]? = none →
      sent h (eventsOf p log) = [] ∧ unsent h (eventsOf p log) = []) ∧
      ∀ st, (s.ep p).objs[h]? = some st → Endpoint.Sourced (eventsOf p log) h st ∧
        (Steps (orderly p h) log → (s.ep p).Sending (eventsOf p log) h st) from hs.2 st hst
  refine run_inv (P := fun log s => ((s.ep p).objs[h]? = none →
    sent h (eventsOf p log) = [] ∧ unsent h (eventsOf p log) = []) ∧
    ∀ st, (s.ep p).objs[h]? = some st → Endpoint.Sourced (eventsOf p log) h st ∧
      (Steps (orderly p h) log → (s.ep p).Sending (eventsOf p log) h st)) ?_ ?_ hrun
  · obtain ⟨-, n, -, he⟩ := connect_ok h0 p
    refine ⟨fun _ => ⟨rfl, rfl⟩, fun st hst => ?_⟩
    rw [he] at hst
    cases hst
  · rintro log s q a s' ev hrun ⟨hnew, ih⟩ hm
    rcases Role.eq_or_eq_peer q p with rfl | rfl
    · have ht := tracked_of_run h0 hrun p
      have ht' := Tracked.move (p := p) (tracked_of_run h0 hrun) hm
      have hfresh : (s.ep p).objs[h]? = none →
          sent h (eventsOf p log ++ ev) = [] ∧ unsent h (eventsOf p log ++ ev) = [] := by
        intro hnone
        obtain ⟨hs, hu⟩ := hnew hnone
        obtain ⟨hs', hu'⟩ := hm.effect.sent_none hnone
        simp [hs, hu, hs', hu']
      rw [eventsOf_same]
      refine ⟨fun hnone' => hfresh ?_, fun st' hst' => ?_⟩
      · cases hst : (s.ep p).objs[h]? with
        | none => rfl
        | some st =>
          obtain ⟨st', hst', -⟩ := hm.effect.evolves hst
          rw [hnone'] at hst'
          cases hst'
      · rcases hm.effect.origin hst' with ⟨st, hst, -⟩ | ⟨rfl, id, target, kind, owner, -, rfl⟩
        · obtain ⟨hsrc, hsend⟩ := ih st hst
          refine ⟨hm.effect.sourced ht.wf ht.ids.nodup hst hst' hsrc, fun hord => ?_⟩
          obtain ⟨hord, hok⟩ := steps_snoc.mp hord
          exact hm.effect.sending ht.wf ht.ids.nodup hst hst' hsrc.single (hsend hord) (hok rfl)
        · -- The stream is new: no frame was queued for it.
          obtain ⟨hs, hu⟩ := hfresh (List.getElem?_eq_none le_rfl)
          have hid := hm.effect.new_id ht'.ids.nodup hst'
          have hnone : dataOf id (queuedFrames (eventsOf p log ++ ev)) = [] := by
            refine dataOf_eq_nil fun f hf hd hfid => hid (hfid ▸ ?_)
            rw [queuedFrames_append, List.mem_append] at hf
            have hon := Frame.onStream_of_isData hd
            rcases hf with hf | hf
            · exact ht.queued f hf hon
            · exact hm.effect.queued_known ht.wf f hf hon
          have hstart : ∀ e : Endpoint, Endpoint.Sourced (eventsOf p log ++ ev) _ _ ∧
              e.Sending (eventsOf p log ++ ev) (s.ep p).objs.length
                (newStream id target kind (s.ep p).flowcontrolOn owner) :=
            fun _ => Endpoint.sourced_new rfl hnone hs hu
          exact ⟨(hstart (s'.ep p)).1, fun _ => (hstart (s'.ep p)).2⟩
    · rw [eventsOf_other (Role.ne_peer q), hm.other]
      refine ⟨hnew, fun st hst => ?_⟩
      obtain ⟨hsrc, hsend⟩ := ih st hst
      exact ⟨hsrc, fun hord => hsend (steps_snoc.mp hord).1⟩

/-! ## Delivery -/

theorem eventsOf_append (p : Role) (l m : List (Taken Sys (Role × Act) (Role × Event))) :
    eventsOf p (l ++ m) = eventsOf p l ++ eventsOf p m := by
  simp [eventsOf, shown]

theorem dataOf_isPrefix {id : UInt32} {fs gs : List Frame} (h : fs <+: gs) :
    dataOf id fs <+: dataOf id gs := by
  obtain ⟨r, rfl⟩ := h
  rw [dataOf_append]
  exact List.prefix_append _ _

section

variable (h0 : connect hello = .ok s₀) (hrun : Exec (Sys.step cap) s₀ log s) {q : Role} {h' : Nat}
  {st' : Stream} (hst' : (s.ep q).objs[h']? = some st')
include h0 hrun

theorem reads_isPrefix_queued (q : Role) :
    readFrames (eventsOf q log) <+: queuedFrames (eventsOf q.peer log) := by
  have hfifo := fifo h0 hrun q.peer
  rw [Role.peer_peer] at hfifo
  exact (List.prefix_append _ _).trans hfifo

include hst'

/-- What `recv` returned was queued for the stream at the other side. -/
theorem returned_isPrefix_queued : returned h' (eventsOf q log) <+:
    dataOf st'.id (queuedFrames (eventsOf q.peer log)) := by
  have hwithin := (tracked_of_run h0 hrun q).received.within h' st' hst'
  exact (List.prefix_append _ _).trans
    (hwithin.trans (dataOf_isPrefix (reads_isPrefix_queued h0 hrun q)))

/-- Nothing is returned on a stream that the other side does not have. -/
theorem peer_of_returned (hne : returned h' (eventsOf q log) ≠ []) :
    ∃ st ∈ (s.ep q.peer).objs, st.id = st'.id := by
  have hid : st'.id ∈ (s.ep q.peer).ids := by
    by_contra hno
    have hnil : dataOf st'.id (queuedFrames (eventsOf q.peer log)) = [] :=
      dataOf_eq_nil fun f hf hd hid =>
        hno (hid ▸ (tracked_of_run h0 hrun q.peer).queued f hf (Frame.onStream_of_isData hd))
    have hpre := returned_isPrefix_queued h0 hrun hst'
    rw [hnil] at hpre
    exact hne (List.prefix_nil.mp hpre)
  obtain ⟨st, hst, hid⟩ := List.mem_map.mp hid
  exact ⟨st, hst, hid⟩

variable {h : Nat} {st : Stream} (hst : (s.ep q.peer).objs[h]? = some st) (hid : st.id = st'.id)
include hst hid

theorem returned_from_sent :
    ∀ x ∈ returned h' (eventsOf q log), ∃ y ∈ sent h (eventsOf q.peer log), x <:+: y := by
  intro x hx
  have hmem := (returned_isPrefix_queued h0 hrun hst').subset hx
  rw [← hid] at hmem
  exact (sent_of_run h0 hrun hst).1.frames x hmem

variable {β : Type} {kind : StreamKind} (v : View kind β) (hk : st.kind = kind)
include hk

/-- Nothing is made up or doubled. -/
theorem returned_subperm_sent : (v.of (returned h' (eventsOf q log))).Subperm
    (v.of (sent h (eventsOf q.peer log))) := by
  have hpre := v.of_isPrefix (returned_isPrefix_queued h0 hrun hst')
  have htotal := (sent_of_run h0 hrun hst).1.total β kind v hk
  rw [hid] at htotal
  exact (hpre.sublist.trans (List.sublist_append_left _ _)).subperm.trans htotal.subperm

/-- Calls that follow one another are received in their order. -/
theorem returned_isPrefix_sent (hord : Steps (orderly q.peer h) log) :
    v.of (returned h' (eventsOf q log)) <+: v.of (sent h (eventsOf q.peer log)) := by
  have hpre := v.of_isPrefix (returned_isPrefix_queued h0 hrun hst')
  rw [← hid] at hpre
  rcases ((sent_of_run h0 hrun hst).2 hord).flow β kind v hk with heq | ⟨-, -, hsent⟩
  · exact hpre.trans (heq ▸ List.prefix_append _ _)
  · exact hpre.trans hsent

end

/-- What side `p` has sent on a stream and not ended: no call of `send` is in progress, none
has failed, and the stream was neither closed nor reset. -/
structure SentBy (log : List (Taken Sys (Role × Act) (Role × Event))) (s : Sys) (p : Role)
    (h : Nat) : Prop where
  idle : ∃ st, (s.ep p).objs[h]? = some st ∧ st.sends = []
  whole : unsent h (eventsOf p log) = []
  notClosed : .closed h ∉ eventsOf p log
  notReset : ∀ cause, .reset h cause ∉ eventsOf p log

/-- Side `q` has neither closed nor reset its stream, and its session is not torn down. -/
structure Listening (log : List (Taken Sys (Role × Act) (Role × Event))) (q : Role) (h : Nat) :
    Prop where
  up : Steps (staysUp q) log
  notClosed : .closed h ∉ eventsOf q log
  notReset : ∀ cause, .reset h cause ∉ eventsOf q log

/-- A stream keeps its id and kind. -/
theorem stream_kept (hrun : Exec (Sys.step cap) s₀ log s) {p : Role} {h : Nat} {st₀ : Stream}
    (hst₀ : (s₀.ep p).objs[h]? = some st₀) : ∃ st, (s.ep p).objs[h]? = some st ∧
      st.id = st₀.id ∧ st.kind = st₀.kind := by
  refine run_inv (P := fun _ s => ∃ st, (s.ep p).objs[h]? = some st ∧
    st.id = st₀.id ∧ st.kind = st₀.kind) ⟨st₀, hst₀, rfl, rfl⟩ ?_ hrun
  rintro log s q a s' ev - ⟨st, hst, hid, hk⟩ hm
  rcases Role.eq_or_eq_peer q p with rfl | rfl
  · obtain ⟨st', hst', hev⟩ := hm.effect.evolves hst
    exact ⟨st', hst', hev.id.trans hid, hev.kind.trans hk⟩
  · rw [hm.other]
    exact ⟨st, hst, hid, hk⟩

/-- A `recv` that reports the end has nothing left, and no sink feeds the stream. -/
theorem recvClosed_enabled {q : Role} {h' : Nat} {st' : Stream}
    (hst' : (s.ep q).objs[h']? = some st')
    (hend : (s.step cap (q, .recvClosed h')).isSome = true) :
    st'.owner ≠ .dropped ∧ st'.backlog = [] ∧ (s.ep q).sinkAlive h' = false := by
  obtain ⟨⟨s', ev⟩, hs⟩ := Option.isSome_iff_exists.mp hend
  obtain ⟨ev₀, rfl, hm⟩ := step_move hs
  have heff := hm.effect
  generalize s'.ep q = e' at heff
  cases heff with
  | recvClosed hst ho hp hrx halive =>
    cases hst'.symm.trans hst
    exact ⟨by simp [ho], by simp [Stream.backlog, hp, hrx], halive⟩

section

variable {log₁ log₂ : List (Taken Sys (Role × Act) (Role × Event))} {s₁ : Sys}
  (h0 : connect hello = .ok s₀) (hrun₁ : Exec (Sys.step cap) s₀ log₁ s₁)
  (hrun₂ : Exec (Sys.step cap) s₁ log₂ s) {q : Role} {h h' : Nat} {st st' : Stream}
  (hst' : (s.ep q).objs[h']? = some st') (hst : (s.ep q.peer).objs[h]? = some st)
  (hid : st.id = st'.id) (hsent : SentBy log₁ s₁ q.peer h)
  (hlisten : Listening (log₁ ++ log₂) q h')
  (hend : (s.step cap (q, .recvClosed h')).isSome = true)
include h0 hrun₁ hrun₂ hst' hst hid hsent hlisten hend

/-- **At the end of the stream nothing is missing**: what was queued before the sender ended it
has been returned. -/
theorem queued_isPrefix_returned : dataOf st.id (queuedFrames (eventsOf q.peer log₁)) <+:
    returned h' (eventsOf q (log₁ ++ log₂)) := by
  have hrun := Exec.trans hrun₁ hrun₂
  obtain ⟨howner, hbacklog, hdead⟩ := recvClosed_enabled hst' hend
  have hserved := served_of_run h0 hrun hst' hlisten.up hlisten.notClosed hlisten.notReset
  -- The receiver saw the end, so it has read a `Close`.
  obtain ⟨f, hf, hclose⟩ : ∃ f ∈ readFrames (eventsOf q (log₁ ++ log₂)),
      closesStream st'.id f = true := by
    by_contra hno
    have halive := hserved.alive fun f hf => by
      by_contra hc
      exact hno ⟨f, hf, by simpa using hc⟩
    rw [hdead] at halive
    cases halive
  -- The sender has not queued one in `log₁`, so all of its frames from there were read before.
  obtain ⟨st₁, hst₁, -⟩ := hsent.idle
  obtain ⟨st₂, hst₂, hid₂, -⟩ := stream_kept hrun₂ hst₁
  cases hst.symm.trans hst₂
  have hnone := (no_close_of_run h0 hrun₁ hst₁ hsent.notClosed hsent.notReset).1
  rw [← hid₂, hid] at hnone
  have hreads := reads_isPrefix_queued h0 hrun q
  rw [eventsOf_append q.peer, queuedFrames_append] at hreads
  have hall : queuedFrames (eventsOf q.peer log₁) <+:
      readFrames (eventsOf q (log₁ ++ log₂)) := by
    rcases List.prefix_or_prefix_of_prefix (List.prefix_append _ _) hreads with hle | hle
    · exact hle
    · rw [hnone f (hle.subset hf)] at hclose
      cases hclose
  obtain ⟨rest, hrest⟩ := hall
  have hret := hserved.all howner
  rw [hbacklog, List.append_nil, ← hrest, untilClose_append_of_none hnone, dataOf_append] at hret
  rw [hret, hid]
  exact List.prefix_append _ _

variable {β : Type} {kind : StreamKind} (v : View kind β) (hk : st.kind = kind)
include hk

theorem sent_subperm_returned : (v.of (sent h (eventsOf q.peer log₁))).Subperm
    (v.of (returned h' (eventsOf q (log₁ ++ log₂)))) := by
  have hret := queued_isPrefix_returned h0 hrun₁ hrun₂ hst' hst hid hsent hlisten hend
  obtain ⟨st₁, hst₁, hidle⟩ := hsent.idle
  obtain ⟨st₂, hst₂, hid₂, hk₂⟩ := stream_kept hrun₂ hst₁
  cases hst.symm.trans hst₂
  have htotal := (sent_of_run h0 hrun₁ hst₁).1.total β kind v (hk₂.symm.trans hk)
  rw [hidle, hsent.whole, List.map_nil, v.of_nil, List.append_nil, List.append_nil, ← hid₂]
    at htotal
  exact htotal.symm.subperm.trans (v.of_isPrefix hret).sublist.subperm

theorem sent_isPrefix_returned (hord : Steps (orderly q.peer h) log₁) :
    v.of (sent h (eventsOf q.peer log₁)) <+:
      v.of (returned h' (eventsOf q (log₁ ++ log₂))) := by
  have hret := queued_isPrefix_returned h0 hrun₁ hrun₂ hst' hst hid hsent hlisten hend
  obtain ⟨st₁, hst₁, hidle⟩ := hsent.idle
  obtain ⟨st₂, hst₂, hid₂, hk₂⟩ := stream_kept hrun₂ hst₁
  cases hst.symm.trans hst₂
  rcases ((sent_of_run h0 hrun₁ hst₁).2 hord).flow β kind v (hk₂.symm.trans hk) with
    heq | ⟨-, hun, -⟩
  · rw [hidle, List.map_nil, v.of_nil, List.append_nil, ← hid₂] at heq
    rw [← heq]
    exact v.of_isPrefix hret
  · exact absurd hsent.whole hun

end

/-- **Stream delivery.** In every run of two endpoints, `recv` returns on a stream what the peer
passed to `send` on its stream of the same id: nothing from elsewhere, nothing twice, bytes on
every stream and whole messages where the sender's kind is not TCP. If the sender's calls follow
one another, the order is theirs. Once `recv` reports the end of a stream that its own side has
kept open, everything sent before the peer ended it has been returned. -/
theorem delivery (h0 : connect hello = .ok s₀) (hrun : Exec (Sys.step cap) s₀ log s) {q : Role}
    {h' : Nat} {st' : Stream} (hst' : (s.ep q).objs[h']? = some st') :
    (returned h' (eventsOf q log) ≠ [] →
      ∃ st ∈ (s.ep q.peer).objs, st.id = st'.id) ∧
    ∀ (h : Nat) (st : Stream), (s.ep q.peer).objs[h]? = some st → st.id = st'.id →
      ((∀ x ∈ returned h' (eventsOf q log), ∃ y ∈ sent h (eventsOf q.peer log), x <:+: y) ∧
        (returned h' (eventsOf q log)).flatten.Subperm (sent h (eventsOf q.peer log)).flatten ∧
        (st.kind ≠ .tcp →
          (returned h' (eventsOf q log)).Subperm (sent h (eventsOf q.peer log)))) ∧
      (Steps (orderly q.peer h) log →
        (returned h' (eventsOf q log)).flatten <+: (sent h (eventsOf q.peer log)).flatten ∧
        (st.kind ≠ .tcp → returned h' (eventsOf q log) <+: sent h (eventsOf q.peer log))) ∧
      ∀ log₁ log₂ s₁, log = log₁ ++ log₂ → Exec (Sys.step cap) s₀ log₁ s₁ →
        Exec (Sys.step cap) s₁ log₂ s → SentBy log₁ s₁ q.peer h → Listening log q h' →
        (s.step cap (q, .recvClosed h')).isSome = true →
        ((sent h (eventsOf q.peer log₁)).flatten.Subperm (returned h' (eventsOf q log)).flatten ∧
          (st.kind ≠ .tcp →
            (sent h (eventsOf q.peer log₁)).Subperm (returned h' (eventsOf q log)))) ∧
        (Steps (orderly q.peer h) log₁ →
          (sent h (eventsOf q.peer log₁)).flatten <+: (returned h' (eventsOf q log)).flatten ∧
          (st.kind ≠ .tcp →
            sent h (eventsOf q.peer log₁) <+: returned h' (eventsOf q log))) := by
  refine ⟨peer_of_returned h0 hrun hst', fun h st hst hid => ⟨⟨?_, ?_, ?_⟩, ?_, ?_⟩⟩
  · exact returned_from_sent h0 hrun hst' hst hid
  · exact returned_subperm_sent h0 hrun hst' hst hid (.bytes st.kind) rfl
  · exact fun hk => returned_subperm_sent h0 hrun hst' hst hid (.messages hk) rfl
  · intro hord
    exact ⟨returned_isPrefix_sent h0 hrun hst' hst hid (.bytes st.kind) rfl hord,
      fun hk => returned_isPrefix_sent h0 hrun hst' hst hid (.messages hk) rfl hord⟩
  · rintro log₁ log₂ s₁ rfl hrun₁ hrun₂ hsent hlisten hend
    refine ⟨⟨?_, fun hk => ?_⟩, fun hord => ⟨?_, fun hk => ?_⟩⟩
    · exact sent_subperm_returned h0 hrun₁ hrun₂ hst' hst hid hsent hlisten hend (.bytes _) rfl
    · exact sent_subperm_returned h0 hrun₁ hrun₂ hst' hst hid hsent hlisten hend (.messages hk) rfl
    · exact sent_isPrefix_returned h0 hrun₁ hrun₂ hst' hst hid hsent hlisten hend (.bytes _) rfl
        hord
    · exact sent_isPrefix_returned h0 hrun₁ hrun₂ hst' hst hid hsent hlisten hend (.messages hk)
        rfl hord

/-- The client opens a stream and makes the given calls. -/
def clientCalls (calls : List Act) : List (Role × Act) :=
  (Act.open .tcp "a" :: calls).map (Role.client, ·)

/-- The client writes the `Open` and then the given frames; the server takes them and does the
rest. -/
def serverGets (frames : List Frame) (rest : List Act) : List (Role × Act) :=
  ((openFrame 1 "a" :: frames).flatMap fun _ =>
      [(Role.client, Act.writerTake), (Role.client, Act.writerWrote)]) ++
    (Act.readerTake (openFrame 1 "a") :: Act.readerDeliver :: Act.accept ::
      (frames.map Act.readerTake ++ rest)).map (Role.server, ·)

/-- Send a byte in one call. -/
def sendByte (x : UInt8) : List Act := [.sendCall 0 [x], .sendAcquire 0 0, .sendQueue 0 0]

def byteOn1 (x : UInt8) : Frame := dataFrame .tcp 1 [x]

/-- A run in two parts whose logs and states have the given property. -/
theorem reaches_in_two (acts₁ acts₂ : List (Role × Act))
    (P : List (Taken Sys (Role × Act) (Role × Event)) → Sys →
      List (Taken Sys (Role × Act) (Role × Event)) → Sys → Prop)
    [∀ log₁ s₁ log₂ s, Decidable (P log₁ s₁ log₂ s)]
    (h : (connect offers).toOption.any (fun s₀ => (exec (Sys.step 8) s₀ acts₁).any fun r =>
      decide ((exec (Sys.step 8) r.2 acts₂).any (fun r' => decide (P r.1 r.2 r'.1 r'.2)) =
        true)) = true) :
    ∃ s₀ log₁ s₁ log₂ s, connect offers = .ok s₀ ∧ Exec (Sys.step 8) s₀ log₁ s₁ ∧
      Exec (Sys.step 8) s₁ log₂ s ∧ P log₁ s₁ log₂ s := by
  obtain ⟨s₀, log₁, s₁, h0, hrun₁, hrest⟩ := connect_reaches offers 8 acts₁
    (fun _ log₁ s₁ => (exec (Sys.step 8) s₁ acts₂).any
      (fun r => decide (P log₁ s₁ r.1 r.2)) = true) h
  obtain ⟨log₂, s, hrun₂, hp⟩ := exec_reaches (Sys.step 8) s₁ acts₂ (P log₁ s₁) hrest
  exact ⟨s₀, log₁, s₁, log₂, s, h0, hrun₁, hrun₂, hp⟩

/-- The two ends of a stream. -/
def Linked (s : Sys) (q : Role) (h' h : Nat) : Prop :=
  ∃ st ∈ (s.ep q.peer).objs[h]?, ∃ st' ∈ (s.ep q).objs[h']?, st.id = st'.id

instance (s : Sys) (q : Role) (h' h : Nat) : Decidable (Linked s q h' h) :=
  inferInstanceAs (Decidable (∃ st ∈ (s.ep q.peer).objs[h]?, ∃ st' ∈ (s.ep q).objs[h']?,
    st.id = st'.id))

/-- The client sends two bytes in two calls and closes; the server reads to the end. -/
theorem delivery_two_bytes : ∃ s₀ log₁ s₁ log₂ s, connect offers = .ok s₀ ∧
    Exec (Sys.step 8) s₀ log₁ s₁ ∧ Exec (Sys.step 8) s₁ log₂ s ∧
    SentBy log₁ s₁ .client 0 ∧ Listening (log₁ ++ log₂) .server 0 ∧
    (s.step 8 (.server, .recvClosed 0)).isSome = true ∧
    Steps (orderly .client 0) (log₁ ++ log₂) ∧
    (sent 0 (eventsOf .client log₁)).flatten = [7, 9] ∧
    (returned 0 (eventsOf .server (log₁ ++ log₂))).flatten <+:
      (sent 0 (eventsOf .client (log₁ ++ log₂))).flatten ∧
    (sent 0 (eventsOf .client log₁)).flatten <+:
      (returned 0 (eventsOf .server (log₁ ++ log₂))).flatten := by
  obtain ⟨s₀, log₁, s₁, log₂, s, h0, hrun₁, hrun₂, hidle, hev₁, hev, hup, hlinked, hend, hord⟩ :=
    reaches_in_two (clientCalls (sendByte 7 ++ sendByte 9))
      ((.client, .close 0) :: serverGets [byteOn1 7, byteOn1 9, closeFrame 1]
        [.recvPop 0, .recvReturn 0, .recvPop 0, .recvReturn 0])
      (fun log₁ s₁ log₂ s => (∃ st ∈ (s₁.ep .client).objs[0]?, st.sends = []) ∧
        eventsOf .client log₁ = [.queued (openFrame 1 "a"), .opened 0, .sendCalled 0 [7],
          .queued (byteOn1 7), .sendOk 0, .sendCalled 0 [9], .queued (byteOn1 9), .sendOk 0] ∧
        eventsOf .server (log₁ ++ log₂) = [.read (openFrame 1 "a"), .opened 0,
          .read (byteOn1 7), .read (byteOn1 9), .read (closeFrame 1), .recvOk 0 [7],
          .recvOk 0 [9]] ∧
        Steps (staysUp .server) (log₁ ++ log₂) ∧ Linked s .server 0 0 ∧
        (s.step 8 (.server, .recvClosed 0)).isSome = true ∧
        Steps (orderly .client 0) (log₁ ++ log₂))
      (by decide +kernel)
  obtain ⟨st, hst, st', hst', hid⟩ := hlinked
  have hsent : SentBy log₁ s₁ .client 0 := by
    refine ⟨hidle, ?_, ?_, ?_⟩ <;> rw [hev₁]
    · rfl
    all_goals simp
  have hlisten : Listening (log₁ ++ log₂) .server 0 := by
    refine ⟨hup, ?_, ?_⟩ <;> rw [hev] <;> simp
  obtain ⟨-, hd⟩ := delivery h0 (Exec.trans hrun₁ hrun₂) hst'
  obtain ⟨-, horder, hall⟩ := hd 0 st hst hid
  have hall := (hall log₁ log₂ s₁ rfl hrun₁ hrun₂ hsent hlisten hend).2
    fun t ht => hord t (List.mem_append_left _ ht)
  exact ⟨s₀, log₁, s₁, log₂, s, h0, hrun₁, hrun₂, hsent, hlisten, hend, hord,
    by rw [hev₁]; rfl, (horder hord).1, hall.1⟩

/-- Neither side has reset a stream. -/
def noReset (log : List (Taken Sys (Role × Act) (Role × Event))) : Prop :=
  ∀ x ∈ shown log, match x.2 with
    | .reset _ _ => False
    | _ => True

instance (log : List (Taken Sys (Role × Act) (Role × Event))) : Decidable (noReset log) := by
  refine @List.decidableBAll _ _ (fun x => ?_) _
  split <;> infer_instance

/-- Each condition is needed. Two calls of `send` that overlap, and a call after one that was
dropped, are not received in the order of the calls. And a receiver that has read the `Open` of
a stream may see its end, after its reader has left, with the byte still on the way. -/
theorem delivery_out_of_order_or_cut_short :
    (∃ s₀ log s, connect offers = .ok s₀ ∧ Exec (Sys.step 8) s₀ log s ∧ Linked s .server 0 0 ∧
      noReset log ∧ Steps (fun _ x => x.1 = .client → Endpoint.dropsNone 0 x.2) log ∧
      ¬ (returned 0 (eventsOf .server log)).flatten <+:
        (sent 0 (eventsOf .client log)).flatten) ∧
    (∃ s₀ log s, connect offers = .ok s₀ ∧ Exec (Sys.step 8) s₀ log s ∧ Linked s .server 0 0 ∧
      noReset log ∧ Steps (fun s x => x.1 = .client → (s.ep .client).inTurn 0 x.2) log ∧
      ¬ (returned 0 (eventsOf .server log)).flatten <+:
        (sent 0 (eventsOf .client log)).flatten) ∧
    ∃ s₀ log₁ s₁ log₂ s, connect offers = .ok s₀ ∧ Exec (Sys.step 8) s₀ log₁ s₁ ∧
      Exec (Sys.step 8) s₁ log₂ s ∧ Linked s .server 0 0 ∧ noReset (log₁ ++ log₂) ∧
      Steps (orderly .client 0) (log₁ ++ log₂) ∧ SentBy log₁ s₁ .client 0 ∧
      .closed 0 ∈ eventsOf .client (log₁ ++ log₂) ∧
      .closed 0 ∉ eventsOf .server (log₁ ++ log₂) ∧
      (s.step 8 (.server, .recvClosed 0)).isSome = true ∧
      ¬ (sent 0 (eventsOf .client log₁)).flatten <+:
        (returned 0 (eventsOf .server (log₁ ++ log₂))).flatten := by
  refine ⟨?_, ?_, ?_⟩
  · exact connect_reaches offers 8
      (clientCalls [.sendCall 0 [7], .sendCall 0 [9], .sendAcquire 0 0, .sendAcquire 0 1,
        .sendQueue 0 1, .sendQueue 0 0] ++ serverGets [byteOn1 9] [.recvPop 0, .recvReturn 0])
      (fun _ log s => Linked s .server 0 0 ∧ noReset log ∧
        Steps (fun _ x => x.1 = .client → Endpoint.dropsNone 0 x.2) log ∧
        ¬ (returned 0 (eventsOf .server log)).flatten <+:
          (sent 0 (eventsOf .client log)).flatten)
      (by decide +kernel)
  · exact connect_reaches offers 8
      (clientCalls ([.sendCall 0 [7], .sendDrop 0 0] ++ sendByte 9) ++
        serverGets [byteOn1 9] [.recvPop 0, .recvReturn 0])
      (fun _ log s => Linked s .server 0 0 ∧ noReset log ∧
        Steps (fun s x => x.1 = .client → (s.ep .client).inTurn 0 x.2) log ∧
        ¬ (returned 0 (eventsOf .server log)).flatten <+:
          (sent 0 (eventsOf .client log)).flatten)
      (by decide +kernel)
  · obtain ⟨s₀, log₁, s₁, log₂, s, h0, hrun₁, hrun₂, hidle, hev₁, hrest⟩ :=
      reaches_in_two (clientCalls (sendByte 7))
        ((.client, .close 0) :: serverGets [] [.readerExit, .readerCloseAll])
        (fun log₁ s₁ log₂ s => (∃ st ∈ (s₁.ep .client).objs[0]?, st.sends = []) ∧
          eventsOf .client log₁ = [.queued (openFrame 1 "a"), .opened 0, .sendCalled 0 [7],
            .queued (byteOn1 7), .sendOk 0] ∧
          Linked s .server 0 0 ∧ noReset (log₁ ++ log₂) ∧
          Steps (orderly .client 0) (log₁ ++ log₂) ∧
          .closed 0 ∈ eventsOf .client (log₁ ++ log₂) ∧
          .closed 0 ∉ eventsOf .server (log₁ ++ log₂) ∧
          (s.step 8 (.server, .recvClosed 0)).isSome = true ∧
          ¬ (sent 0 (eventsOf .client log₁)).flatten <+:
            (returned 0 (eventsOf .server (log₁ ++ log₂))).flatten)
        (by decide +kernel)
    obtain ⟨hlinked, hreset, hord, hclosed, hopen, hend, hcut⟩ := hrest
    have hsent : SentBy log₁ s₁ .client 0 := by
      refine ⟨hidle, ?_, ?_, ?_⟩ <;> rw [hev₁]
      · rfl
      all_goals simp
    exact ⟨s₀, log₁, s₁, log₂, s, h0, hrun₁, hrun₂, hlinked, hreset, hord, hsent, hclosed, hopen,
      hend, hcut⟩

end Sys

end Leshiy.Mux
