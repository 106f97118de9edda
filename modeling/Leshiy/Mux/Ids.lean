import Leshiy.Mux.Pair

/-!
# Stream ids

Each side numbers the streams it opens with its own parity, the peer learns an id from the
`Open` frame, and the link between them is FIFO. So at every moment of a session an id names at
most one stream at each side, an `Open` in flight is new to its reader, and a frame about a
stream is never read before the `Open` of that stream. The reader's map is indexed by ids the
peer chose; these facts are what makes that sound between two unmodified endpoints.
-/

namespace Leshiy

/-- An `Open` frame. -/
def Frame.opens (f : Frame) : Bool := baseType f.ftype == FrameType.open.toU8

/-- A `Close` frame. -/
def Frame.closes (f : Frame) : Bool := baseType f.ftype == FrameType.close.toU8

/-- A `Data` or `Datagram` frame. -/
def Frame.isData (f : Frame) : Bool :=
  baseType f.ftype == FrameType.data.toU8 || baseType f.ftype == FrameType.datagram.toU8

/-- A frame about an open stream. -/
def Frame.onStream (f : Frame) : Bool :=
  [FrameType.data, .datagram, .close, .windowUpdate].any fun ty => baseType f.ftype == ty.toU8

namespace Mux

open Leshiy.Lib

/-! ## The frames the mux builds -/

@[simp] theorem opens_openFrame (id : UInt32) (target : String) :
    (openFrame id target).opens = true := by
  simp [Frame.opens, openFrame]

@[simp] theorem streamId_openFrame (id : UInt32) (target : String) :
    (openFrame id target).streamId = id := rfl

@[simp] theorem onStream_openFrame (id : UInt32) (target : String) :
    (openFrame id target).onStream = false := by
  simp [Frame.onStream, openFrame]
  decide

@[simp] theorem opens_dataFrame (kind : StreamKind) (id : UInt32) (payload : Bytes) :
    (dataFrame kind id payload).opens = false := by
  cases kind <;> simp [Frame.opens, dataFrame] <;> decide

@[simp] theorem streamId_dataFrame (kind : StreamKind) (id : UInt32) (payload : Bytes) :
    (dataFrame kind id payload).streamId = id := by
  cases kind <;> rfl

@[simp] theorem payload_dataFrame (kind : StreamKind) (id : UInt32) (payload : Bytes) :
    (dataFrame kind id payload).payload = payload := by
  cases kind <;> rfl

@[simp] theorem opens_closeFrame (id : UInt32) : (closeFrame id).opens = false := by
  simp [Frame.opens, closeFrame]
  decide

@[simp] theorem streamId_closeFrame (id : UInt32) : (closeFrame id).streamId = id := rfl

@[simp] theorem opens_windowUpdateFrame (id credit : UInt32) :
    (windowUpdateFrame id credit).opens = false := by
  simp [Frame.opens, windowUpdateFrame]
  decide

@[simp] theorem streamId_windowUpdateFrame (id credit : UInt32) :
    (windowUpdateFrame id credit).streamId = id := rfl

@[simp] theorem opens_pingFrame : pingFrame.opens = false := by decide

@[simp] theorem onStream_pingFrame : pingFrame.onStream = false := by decide

@[simp] theorem opens_pongFrame : pongFrame.opens = false := by decide

@[simp] theorem onStream_pongFrame : pongFrame.onStream = false := by decide

theorem Frame.onStream_of_type {f : Frame} {ty : FrameType} (hb : baseType f.ftype = ty.toU8)
    (hty : ty ∈ [FrameType.data, .datagram, .close, .windowUpdate]) : f.onStream = true :=
  List.any_eq_true.mpr ⟨ty, hty, beq_iff_eq.mpr hb⟩

/-- The ids of the `Open` frames of a list, in order. -/
def openIds (fs : List Frame) : List UInt32 := (fs.filter Frame.opens).map Frame.streamId

@[simp] theorem openIds_nil : openIds [] = [] := rfl

@[simp] theorem openIds_append (fs gs : List Frame) :
    openIds (fs ++ gs) = openIds fs ++ openIds gs := by
  simp [openIds]

theorem openIds_eq_nil {fs : List Frame} (h : ∀ f ∈ fs, f.opens = false) : openIds fs = [] := by
  simpa [openIds] using h

theorem mem_openIds {fs : List Frame} {f : Frame} (hf : f ∈ fs) (ho : f.opens = true) :
    f.streamId ∈ openIds fs :=
  List.mem_map.mpr ⟨f, List.mem_filter.mpr ⟨hf, ho⟩, rfl⟩

/-- Where an element of a concatenation lies. -/
theorem append_eq_append_cons {α : Type} {l m pre post : List α} {x : α}
    (h : l ++ m = pre ++ x :: post) :
    (∃ mid, l = pre ++ x :: mid) ∨ ∃ mid, pre = l ++ mid ∧ m = mid ++ x :: post := by
  rcases List.append_eq_append_iff.mp h with ⟨mid, hpre, hm⟩ | ⟨mid, hl, hm⟩
  · exact Or.inr ⟨mid, hpre, hm⟩
  · cases mid with
    | nil => exact Or.inr ⟨[], by simpa using hl.symm, by simpa using hm.symm⟩
    | cons y mid =>
      cases hm
      exact Or.inl ⟨mid, hl⟩

/-! ## Ids at one endpoint -/

namespace Endpoint

variable {e e' : Endpoint} {a : Act} {ev : List Event}

def ids (e : Endpoint) : List UInt32 := e.objs.map Stream.id

/-- The reader task is in its loop. -/
def readerRunning (e : Endpoint) : Bool :=
  match e.reader with
  | .idle | .replying _ | .delivering _ => true
  | _ => false

theorem mem_ids {st : Stream} (hst : st ∈ e.objs) : st.id ∈ e.ids := List.mem_map_of_mem hst

theorem mem_ids_of_getElem? {h : Nat} {st : Stream} (hst : e.objs[h]? = some st) :
    st.id ∈ e.ids := mem_ids (List.mem_of_getElem? hst)

/-- An id names one stream. -/
theorem eq_of_id_eq (hnd : e.ids.Nodup) {h h' : Nat} {st st' : Stream} (hst : e.objs[h]? = some st)
    (hst' : e.objs[h']? = some st') (hid : st.id = st'.id) : h = h' := by
  have h1 : e.ids[h]? = some st.id := by simp [ids, hst]
  have h2 : e.ids[h']? = some st.id := by simp [ids, hst', hid]
  obtain ⟨hlt, h1⟩ := List.getElem?_eq_some_iff.mp h1
  obtain ⟨hlt', h2⟩ := List.getElem?_eq_some_iff.mp h2
  exact (List.Nodup.getElem_inj_iff hnd).mp (h1.trans h2.symm)

theorem Effect.ids_eq (he : Effect e a e' ev) (hlen : e'.objs.length = e.objs.length) :
    e'.ids = e.ids := by
  apply List.ext_getElem?
  intro h
  simp only [Endpoint.ids, List.getElem?_map]
  cases hst : e.objs[h]? with
  | none =>
    have hnone : e'.objs[h]? = none := by
      rw [List.getElem?_eq_none_iff] at hst ⊢
      omega
    rw [hnone]
  | some st =>
    obtain ⟨st', hst', hev⟩ := he.evolves hst
    simp [hst', hev.id]

theorem Effect.cmdOpen_mono (he : Effect e a e' ev) (h : e'.cmdOpen = true) :
    e.cmdOpen = true := by
  cases he with
  | tookOpen hw | tookClose hw | tookWrite hw | wrote hw => simp [cmdOpen, hw]
  | writerLeft | writerClosed | writerPublished => simp [cmdOpen] at h
  | drainedOpen hw | drainedWrite hw => simp [cmdOpen, hw] at h
  | _ => simpa [cmdOpen] using h

theorem Effect.cmdOpen_writerExit (he : Effect e .writerExit e' ev) : e'.cmdOpen = false := by
  cases he
  rfl

theorem Effect.readerRunning_mono (he : Effect e a e' ev) (h : e'.readerRunning = true) :
    e.readerRunning = true := by
  cases he with
  | readPing hr | readOpen hr | readReset hr | readPushed hr | readCredit hr | readClose hr
  | readIgnored hr | replyLost hr | replied hr | delivered hr => simp [readerRunning, hr]
  | readOpenCap | readCritical | deliveryFailed | readerLeft | readerLeftDelivering
  | readerClosed | readerPublished => simp [readerRunning] at h
  | _ => simpa [readerRunning] using h

/-- Only a running writer takes commands. -/
theorem Effect.cmdOpen_of_queued (he : Effect e a e' ev) {f : Frame} (hf : f ∈ queuedFrames ev) :
    e.cmdOpen = true := by
  cases he with
  | opened _ _ _ ho | sentLast _ _ _ _ ho | sentMore _ _ _ _ ho | credited _ _ _ _ ho
  | closeQueued _ _ ho | pinged _ ho | replied _ ho => exact ho
  | _ => simp [queuedFrames] at hf

/-- What a side may queue besides an `Open`: frames about its own streams, pings and pongs. -/
def mayQueue (e : Endpoint) (f : Frame) : Prop :=
  f.opens = false ∧ (f.onStream = true → f.streamId ∈ e.ids)

theorem Effect.mayQueue (he : Effect e a e' ev) (hwf : e.Wf)
    (ha : ∀ kind target, a ≠ .open kind target) : ∀ f ∈ queuedFrames ev, e.mayQueue f := by
  cases he with
  | opened => exact absurd rfl (ha _ _)
  | sentLast hst | sentMore hst =>
    simpa [queuedFrames, Endpoint.mayQueue] using fun _ => mem_ids_of_getElem? hst
  | credited hst _ _ _ _ _ hf =>
    subst hf
    simpa [queuedFrames, Endpoint.mayQueue] using fun _ => mem_ids_of_getElem? hst
  | closeQueued hst =>
    simpa [queuedFrames, Endpoint.mayQueue] using fun _ => mem_ids_of_getElem? hst
  | pinged => simp [queuedFrames, Endpoint.mayQueue]
  | replied hr =>
    rcases hwf.reply hr with rfl | ⟨st, hst, rfl⟩
    · simp [queuedFrames, Endpoint.mayQueue]
    · simpa [queuedFrames, Endpoint.mayQueue] using fun _ => mem_ids hst
  | _ => simp [queuedFrames]

/-- **What a step does to a side's ids**: nothing, a local open, or an `Open` of the peer. An
`Open` that is read and creates no stream ends the reader. -/
theorem Effect.ids (he : Effect e a e' ev) (hwf : e.Wf) :
    (e'.ids = e.ids ∧
      (e'.nextId = e.nextId ∨ (e'.nextId = e.nextId + 2 ∧ e.nextId.toNat + 2 < 2 ^ 32)) ∧
      (∀ f ∈ queuedFrames ev, e.mayQueue f) ∧
      ∀ f ∈ readFrames ev, f.opens = true → e'.readerRunning = false) ∨
    (∃ target, e'.ids = e.ids ++ [e.nextId] ∧ e'.nextId = e.nextId + 2 ∧
      e.nextId.toNat + 2 < 2 ^ 32 ∧ queuedFrames ev = [openFrame e.nextId target] ∧
      readFrames ev = []) ∨
    (∃ f, f.opens = true ∧ readFrames ev = [f] ∧ queuedFrames ev = [] ∧
      e'.ids = e.ids ++ [f.streamId] ∧ e'.nextId = e.nextId) := by
  have hids := he.ids_eq
  have hmay := he.mayQueue hwf
  -- A frame of another type is no `Open`.
  have hother : ∀ {f : Frame} {ty : FrameType} {p : Prop}, baseType f.ftype = ty.toU8 →
      ty ≠ .open → f.opens = true → p := by
    intro f ty p hb hty ho
    simp only [Frame.opens, beq_iff_eq, hb, FrameType.toU8_inj] at ho
    exact absurd ho hty
  cases he with
  | opened _ _ hlt =>
    exact Or.inr (Or.inl ⟨_, by simp [Endpoint.ids, newStream], rfl, hlt, rfl, rfl⟩)
  | readOpen _ hb =>
    exact Or.inr (Or.inr ⟨_, by simp [Frame.opens, hb], rfl, rfl,
      by simp [Endpoint.ids, newStream], rfl⟩)
  | openClosed _ hlt | openDropped hlt =>
    exact Or.inl ⟨rfl, Or.inr ⟨rfl, hlt⟩, by simp [queuedFrames], by simp [readFrames]⟩
  | openRefused => exact Or.inl ⟨rfl, Or.inl rfl, by simp [queuedFrames], by simp [readFrames]⟩
  | readOpenCap => exact Or.inl ⟨rfl, Or.inl rfl, by simp [queuedFrames], fun _ _ _ => rfl⟩
  | readCritical => exact Or.inl ⟨rfl, Or.inl rfl, by simp [queuedFrames], fun _ _ _ => rfl⟩
  | readIgnored _ _ hb =>
    refine Or.inl ⟨rfl, Or.inl rfl, by simp [queuedFrames], ?_⟩
    simpa [readFrames, Frame.opens] using fun h => absurd h hb
  | readReset _ hb | readPushed _ hb =>
    refine Or.inl ⟨hids (by simp), Or.inl (by simp), by simp [queuedFrames], ?_⟩
    rcases hb with hb | hb <;> simpa [readFrames] using hother hb (by decide)
  | readPing _ hb | readCredit _ hb | readClose _ hb =>
    refine Or.inl ⟨hids (by simp), Or.inl (by simp), by simp [queuedFrames], ?_⟩
    simpa [readFrames] using hother hb (by decide)
  | _ => exact Or.inl ⟨hids (by simp), Or.inl (by simp), hmay (by simp), by simp [readFrames]⟩

end Endpoint

/-! ## Ids across the session -/

namespace Role

/-- The parity of the ids a side gives to the streams it opens. -/
def owns (p : Role) (id : UInt32) : Prop := id.toNat % 2 = if p = .client then 1 else 0

theorem owns_peer {p : Role} {id : UInt32} : p.peer.owns id ↔ ¬ p.owns id := by
  cases p <;> simp [owns, peer]

end Role

namespace Sys

/-- What holds of the ids of side `p` and of what it has in flight. -/
structure Ids (s : Sys) (p : Role) : Prop where
  next : p.owns (s.ep p).nextId
  nodup : (s.ep p).ids.Nodup
  /-- Ids of its own parity were given out before. -/
  own_lt : ∀ id ∈ (s.ep p).ids, p.owns id → id.toNat < (s.ep p).nextId.toNat
  /-- Ids of the other parity name streams the peer opened. -/
  peer_has : ∀ id ∈ (s.ep p).ids, ¬ p.owns id → id ∈ (s.ep p.peer).ids
  nodup_open : (openIds (s.flight p)).Nodup
  /-- An `Open` in flight is about a stream of this side that the peer does not have yet. -/
  opening : ∀ id ∈ openIds (s.flight p), p.owns id ∧ id ∈ (s.ep p).ids ∧ id ∉ (s.ep p.peer).ids
  /-- Frames in flight are about streams of this side. -/
  known : ∀ f ∈ s.flight p, f.onStream = true → f.streamId ∈ (s.ep p).ids
  /-- As long as the peer reads, it learns an id before it reads a frame about it. -/
  introduced : (s.ep p.peer).readerRunning = true → ∀ pre f post,
    s.flight p = pre ++ f :: post → f.onStream = true →
      f.streamId ∈ (s.ep p.peer).ids ∨ f.streamId ∈ openIds pre
  /-- As long as this side writes and the peer reads, no id is lost. -/
  reaches : (s.ep p).cmdOpen = true → (s.ep p.peer).readerRunning = true →
    ∀ id ∈ (s.ep p).ids, p.owns id → id ∈ (s.ep p.peer).ids ∨ id ∈ openIds (s.flight p)

variable {s s' : Sys} {cap : Nat} {p : Role} {a : Act} {ev : List Event}

theorem ids_connect {hello : Role → Hello} {s₀ : Sys} (h0 : connect hello = .ok s₀) (p : Role) :
    s₀.Ids p := by
  have hep : ∀ q, (s₀.ep q).ids = [] ∧ s₀.flight q = [] := by
    intro q
    obtain ⟨hw, n, -, he⟩ := connect_ok h0 q
    simp [flight, hw, he, Endpoint.start, Endpoint.ids, Endpoint.outbox]
  obtain ⟨-, n, -, he⟩ := connect_ok h0 p
  have hnext : p.owns (s₀.ep p).nextId := by
    rw [he]
    cases p <;> simp [Endpoint.start, Role.owns]
  constructor
  case next => exact hnext
  all_goals simp [hep]

theorem owns_nextId_add_two {id : UInt32} (h : id.toNat + 2 < 2 ^ 32) :
    (id + 2).toNat = id.toNat + 2 ∧ (p.owns (id + 2) ↔ p.owns id) := by
  have htoNat : (id + 2).toNat = id.toNat + 2 := by
    rw [UInt32.toNat_add]
    exact Nat.mod_eq_of_lt h
  refine ⟨htoNat, ?_⟩
  simp only [Role.owns, htoNat]
  omega

section

variable (hm : s.Move p a s' ev) (hp : s.Ids p) (hq : s.Ids p.peer)
include hm hp

/-- A side that neither opens nor learns a stream: its flight grows by frames about its own
streams, or is cut. -/
theorem Ids.move_same (hids : (s'.ep p).ids = (s.ep p).ids)
    (hnext : (s'.ep p).nextId = (s.ep p).nextId ∨
      ((s'.ep p).nextId = (s.ep p).nextId + 2 ∧ (s.ep p).nextId.toNat + 2 < 2 ^ 32))
    (hmay : ∀ f ∈ queuedFrames ev, (s.ep p).mayQueue f) : s'.Ids p := by
  have hopen : openIds (s'.flight p) <+: openIds (s.flight p) := by
    rcases hm.out with hout | ⟨-, -, hout⟩
    · have hsame : openIds (s'.flight p) = openIds (s.flight p) := by
        rw [hout, openIds_append, openIds_eq_nil fun f hf => (hmay f hf).1, List.append_nil]
      exact hsame ▸ List.prefix_rfl
    · obtain ⟨rest, hrest⟩ := hout
      rw [← hrest, openIds_append]
      exact List.prefix_append _ _
  have hle : (s.ep p).nextId.toNat ≤ (s'.ep p).nextId.toNat ∧
      (p.owns (s'.ep p).nextId ↔ p.owns (s.ep p).nextId) := by
    rcases hnext with hnext | ⟨hnext, hlt⟩
    · rw [hnext]
      exact ⟨le_rfl, Iff.rfl⟩
    · obtain ⟨htoNat, howns⟩ := owns_nextId_add_two (p := p) hlt
      rw [hnext, htoNat]
      exact ⟨Nat.le_add_right _ _, howns⟩
  constructor
  case next => exact hle.2.mpr hp.next
  case nodup => rw [hids]; exact hp.nodup
  case own_lt =>
    rw [hids]
    exact fun id hid ho => (hp.own_lt id hid ho).trans_le hle.1
  case peer_has => rw [hids, hm.other]; exact hp.peer_has
  case nodup_open => exact hp.nodup_open.sublist hopen.sublist
  case opening =>
    rw [hids, hm.other]
    exact fun id hid => hp.opening id (hopen.subset hid)
  case known =>
    rw [hids]
    intro f hf hon
    rcases hm.out with hout | ⟨-, -, hout⟩
    · rw [hout, List.mem_append] at hf
      rcases hf with hf | hf
      · exact hp.known f hf hon
      · exact (hmay f hf).2 hon
    · exact hp.known f (hout.subset hf) hon
  case introduced =>
    rw [hm.other]
    intro hr pre f post hsplit hon
    rcases hm.out with hout | ⟨-, -, rest, hrest⟩
    · rw [hout] at hsplit
      rcases append_eq_append_cons hsplit with ⟨mid, hfl⟩ | ⟨mid, rfl, hqueued⟩
      · exact hp.introduced hr pre f mid hfl hon
      · -- The frame is one that this step queued.
        have hf : f ∈ queuedFrames ev := by simp [hqueued]
        have hin := (hmay f hf).2 hon
        by_cases ho : p.owns f.streamId
        · refine (hp.reaches (hm.effect.cmdOpen_of_queued hf) hr _ hin ho).imp id fun h => ?_
          rw [openIds_append]
          exact List.mem_append_left _ h
        · exact Or.inl (hp.peer_has _ hin ho)
    · refine hp.introduced hr pre f (post ++ rest) ?_ hon
      rw [← hrest, hsplit, List.append_assoc, List.cons_append]
  case reaches =>
    rw [hids, hm.other]
    intro hc hr id hid ho
    have hc' := hm.effect.cmdOpen_mono hc
    rcases hm.out with hout | ⟨rfl, -, -⟩
    · rw [hout, openIds_append, openIds_eq_nil fun f hf => (hmay f hf).1, List.append_nil]
      exact hp.reaches hc' hr id hid ho
    · rw [hm.effect.cmdOpen_writerExit] at hc
      cases hc

include hq

omit hp in
/-- The peer of such a side: its flight loses what was read, which was no `Open` unless the
reader has ended. -/
theorem Ids.move_same_peer (hids : (s'.ep p).ids = (s.ep p).ids)
    (hread : ∀ f ∈ readFrames ev, f.opens = true → (s'.ep p).readerRunning = false) :
    s'.Ids p.peer := by
  have hin := hm.inn
  have hopen : ∀ id ∈ openIds (s'.flight p.peer), id ∈ openIds (s.flight p.peer) := by
    intro id hid
    rw [hin, openIds_append]
    exact List.mem_append_right _ hid
  have hnone : (s'.ep p).readerRunning = true → openIds (readFrames ev) = [] := by
    intro hr
    refine openIds_eq_nil fun f hf => ?_
    by_contra ho
    rw [hread f hf (by simpa using ho)] at hr
    cases hr
  constructor
  case nodup_open =>
    have hnd := hq.nodup_open
    rw [hin, openIds_append, List.nodup_append] at hnd
    exact hnd.2.1
  all_goals simp only [Role.peer_peer, hm.other, hids]
  case next => exact hq.next
  case nodup => exact hq.nodup
  case own_lt => exact hq.own_lt
  case peer_has => simpa using hq.peer_has
  case opening => exact fun id hid => by simpa using hq.opening id (hopen id hid)
  case known =>
    intro f hf
    exact hq.known f (by rw [hin]; exact List.mem_append_right _ hf)
  case introduced =>
    intro hr pre f post hsplit hon
    have hrun := hm.effect.readerRunning_mono hr
    have h := hq.introduced (by simpa using hrun) (readFrames ev ++ pre) f post
      (by rw [hin, hsplit, List.append_assoc]) hon
    simpa [hnone hr] using h
  case reaches =>
    intro hc hr id hid ho
    have hrun := hm.effect.readerRunning_mono hr
    have h := hq.reaches hc (by simpa using hrun) id hid ho
    rw [hin, openIds_append, hnone hr] at h
    simpa using h

/-- A local open: the new id is fresh at both sides and in flight. -/
theorem Ids.move_open {target : String} (hids : (s'.ep p).ids = (s.ep p).ids ++ [(s.ep p).nextId])
    (hnext : (s'.ep p).nextId = (s.ep p).nextId + 2) (hlt : (s.ep p).nextId.toNat + 2 < 2 ^ 32)
    (hqueued : queuedFrames ev = [openFrame (s.ep p).nextId target]) (hread : readFrames ev = []) :
    s'.Ids p ∧ s'.Ids p.peer := by
  set id₀ := (s.ep p).nextId with hid₀
  have hfresh : id₀ ∉ (s.ep p).ids := fun h => absurd (hp.own_lt _ h hp.next) (lt_irrefl _)
  have hfresh' : id₀ ∉ (s.ep p.peer).ids := by
    intro h
    have := hq.peer_has _ h (by rw [Role.owns_peer, not_not]; exact hp.next)
    rw [Role.peer_peer] at this
    exact hfresh this
  have hout : s'.flight p = s.flight p ++ [openFrame id₀ target] := by
    rcases hm.out with hout | ⟨-, rfl, -⟩
    · rw [hout, hqueued]
    · simp [queuedFrames] at hqueued
  have hopen : openIds (s'.flight p) = openIds (s.flight p) ++ [id₀] := by
    rw [hout, openIds_append]
    simp [openIds]
  have hin : s'.flight p.peer = s.flight p.peer := by
    have := hm.inn
    rw [hread, List.nil_append] at this
    exact this.symm
  obtain ⟨htoNat, howns⟩ := owns_nextId_add_two (p := p) hlt
  constructor
  · constructor
    case next => rw [hnext, howns]; exact hp.next
    case nodup =>
      rw [hids, List.nodup_append]
      refine ⟨hp.nodup, List.nodup_singleton _, fun i hi j hj => ?_⟩
      rw [List.mem_singleton] at hj
      rintro rfl
      exact hfresh (hj ▸ hi)
    case own_lt =>
      rw [hids, hnext, htoNat]
      intro id hid ho
      rw [List.mem_append, List.mem_singleton] at hid
      rcases hid with hid | rfl
      · have := hp.own_lt id hid ho
        rw [← hid₀] at this
        omega
      · omega
    case peer_has =>
      rw [hids, hm.other]
      intro id hid ho
      rw [List.mem_append, List.mem_singleton] at hid
      rcases hid with hid | rfl
      · exact hp.peer_has id hid ho
      · exact absurd hp.next ho
    case nodup_open =>
      rw [hopen, List.nodup_append]
      refine ⟨hp.nodup_open, List.nodup_singleton _, fun i hi j hj => ?_⟩
      rw [List.mem_singleton] at hj
      rintro rfl
      exact hfresh (hj ▸ (hp.opening i hi).2.1)
    case opening =>
      rw [hopen, hids, hm.other]
      intro id hid
      rw [List.mem_append, List.mem_singleton] at hid
      rcases hid with hid | rfl
      · obtain ⟨ho, h1, h2⟩ := hp.opening id hid
        exact ⟨ho, List.mem_append_left _ h1, h2⟩
      · exact ⟨hp.next, List.mem_append_right _ (List.mem_singleton.mpr rfl), hfresh'⟩
    case known =>
      rw [hout, hids]
      intro f hf hon
      rw [List.mem_append, List.mem_singleton] at hf
      rcases hf with hf | rfl
      · exact List.mem_append_left _ (hp.known f hf hon)
      · simp at hon
    case introduced =>
      rw [hm.other, hout]
      intro hr pre f post hsplit hon
      rcases append_eq_append_cons hsplit with ⟨mid, hfl⟩ | ⟨mid, rfl, hnew⟩
      · exact hp.introduced hr pre f mid hfl hon
      · have hf : f ∈ [openFrame id₀ target] := by simp [hnew]
        rw [List.mem_singleton] at hf
        subst hf
        simp at hon
    case reaches =>
      rw [hids, hm.other, hopen]
      intro hc hr id hid ho
      rw [List.mem_append, List.mem_singleton] at hid
      rcases hid with hid | rfl
      · refine (hp.reaches (hm.effect.cmdOpen_mono hc) hr id hid ho).imp (fun h => h) fun h => ?_
        exact List.mem_append_left _ h
      · exact Or.inr (List.mem_append_right _ (List.mem_singleton.mpr rfl))
  · constructor <;> simp only [Role.peer_peer, hm.other, hids, hin]
    case next => exact hq.next
    case nodup => exact hq.nodup
    case own_lt => exact hq.own_lt
    case peer_has =>
      intro id hid ho
      have := hq.peer_has id hid ho
      rw [Role.peer_peer] at this
      exact List.mem_append_left _ this
    case nodup_open => exact hq.nodup_open
    case opening =>
      intro id hid
      obtain ⟨ho, h1, h2⟩ := hq.opening id hid
      rw [Role.peer_peer] at h2
      refine ⟨ho, h1, fun h => ?_⟩
      rw [List.mem_append, List.mem_singleton] at h
      rcases h with h | rfl
      · exact h2 h
      · exact Role.owns_peer.mp ho hp.next
    case known => exact hq.known
    case introduced =>
      intro hr pre f post hsplit hon
      have hrun := hm.effect.readerRunning_mono hr
      have h := hq.introduced (by simpa using hrun) pre f post hsplit hon
      rw [Role.peer_peer] at h
      exact h.imp (List.mem_append_left _) (fun h => h)
    case reaches =>
      intro hc hr id hid ho
      have hrun := hm.effect.readerRunning_mono hr
      have h := hq.reaches hc (by simpa using hrun) id hid ho
      rw [Role.peer_peer] at h
      exact h.imp (List.mem_append_left _) (fun h => h)

/-- An `Open` of the peer: its id leaves the flight and becomes known. -/
theorem Ids.move_learn {f : Frame} (hf : f.opens = true) (hread : readFrames ev = [f])
    (hqueued : queuedFrames ev = []) (hids : (s'.ep p).ids = (s.ep p).ids ++ [f.streamId])
    (hnext : (s'.ep p).nextId = (s.ep p).nextId) : s'.Ids p ∧ s'.Ids p.peer := by
  have hin := hm.inn
  rw [hread] at hin
  have hopen : openIds (s.flight p.peer) = f.streamId :: openIds (s'.flight p.peer) := by
    rw [hin, openIds_append]
    simp [openIds, hf]
  obtain ⟨ho₀, hhas₀, hnew₀⟩ := hq.opening f.streamId (by rw [hopen]; exact List.mem_cons_self)
  rw [Role.peer_peer] at hnew₀
  have hnot₀ : ¬ p.owns f.streamId := Role.owns_peer.mp ho₀
  have hout : s'.flight p = s.flight p := by
    rcases hm.out with hout | ⟨-, rfl, -⟩
    · rw [hout, hqueued, List.append_nil]
    · simp [readFrames] at hread
  have hnd := hq.nodup_open
  rw [hopen, List.nodup_cons] at hnd
  constructor
  · constructor <;> simp only [hids, hm.other, hout, hnext]
    case next => exact hp.next
    case nodup =>
      rw [List.nodup_append]
      refine ⟨hp.nodup, List.nodup_singleton _, fun i hi j hj => ?_⟩
      rw [List.mem_singleton] at hj
      rintro rfl
      exact hnew₀ (hj ▸ hi)
    case own_lt =>
      intro id hid ho
      rw [List.mem_append, List.mem_singleton] at hid
      rcases hid with hid | rfl
      · exact hp.own_lt id hid ho
      · exact absurd ho hnot₀
    case peer_has =>
      intro id hid ho
      rw [List.mem_append, List.mem_singleton] at hid
      rcases hid with hid | rfl
      · exact hp.peer_has id hid ho
      · exact hhas₀
    case nodup_open => exact hp.nodup_open
    case opening =>
      intro id hid
      obtain ⟨ho, h1, h2⟩ := hp.opening id hid
      exact ⟨ho, List.mem_append_left _ h1, h2⟩
    case known => exact fun g hg hon => List.mem_append_left _ (hp.known g hg hon)
    case introduced => exact hp.introduced
    case reaches =>
      intro hc hr id hid ho
      rw [List.mem_append, List.mem_singleton] at hid
      rcases hid with hid | rfl
      · exact hp.reaches (hm.effect.cmdOpen_mono hc) hr id hid ho
      · exact absurd ho hnot₀
  · constructor
    case nodup_open => exact hnd.2
    all_goals simp only [Role.peer_peer, hm.other, hids]
    case next => exact hq.next
    case nodup => exact hq.nodup
    case own_lt => exact hq.own_lt
    case peer_has =>
      intro id hid ho
      have := hq.peer_has id hid ho
      rw [Role.peer_peer] at this
      exact List.mem_append_left _ this
    case opening =>
      intro id hid
      obtain ⟨ho, h1, h2⟩ := hq.opening id (by rw [hopen]; exact List.mem_cons_of_mem _ hid)
      rw [Role.peer_peer] at h2
      refine ⟨ho, h1, fun h => ?_⟩
      rw [List.mem_append, List.mem_singleton] at h
      rcases h with h | rfl
      · exact h2 h
      · exact hnd.1 hid
    case known =>
      intro g hg
      exact hq.known g (by rw [hin]; exact List.mem_append_right _ hg)
    case introduced =>
      intro hr pre g post hsplit hon
      have hrun := hm.effect.readerRunning_mono hr
      have h := hq.introduced (by simpa using hrun) (f :: pre) g post
        (by rw [hin, hsplit]; rfl) hon
      rw [Role.peer_peer] at h
      simp only [openIds, List.filter_cons_of_pos hf, List.map_cons, List.mem_cons] at h
      rw [List.mem_append, List.mem_singleton]
      tauto
    case reaches =>
      intro hc hr id hid ho
      have hrun := hm.effect.readerRunning_mono hr
      have h := hq.reaches hc (by simpa using hrun) id hid ho
      rw [Role.peer_peer, hopen, List.mem_cons] at h
      rw [List.mem_append, List.mem_singleton]
      tauto

theorem Ids.move (hwf : (s.ep p).Wf) : s'.Ids p ∧ s'.Ids p.peer := by
  rcases hm.effect.ids hwf with ⟨hids, hnext, hmay, hread⟩ |
    ⟨target, hids, hnext, hlt, hqueued, hread⟩ | ⟨f, hf, hread, hqueued, hids, hnext⟩
  · exact ⟨hp.move_same hm hids hnext hmay, hq.move_same_peer hm hids hread⟩
  · exact hp.move_open hm hq hids hnext hlt hqueued hread
  · exact hp.move_learn hm hq hf hread hqueued hids hnext

end

/-- **Ids in every session.** -/
theorem ids_of_run {hello : Role → Hello} {s₀ : Sys}
    {log : List (Taken Sys (Role × Act) (Role × Event))} (h0 : connect hello = .ok s₀)
    (hrun : Exec (Sys.step cap) s₀ log s) : ∀ p, (s.ep p).Wf ∧ s.Ids p := by
  refine run_inv (P := fun _ s => ∀ p, (s.ep p).Wf ∧ s.Ids p) (fun p => ?_) ?_ hrun
  · exact ⟨wf_connect h0 p, ids_connect h0 p⟩
  · intro _ s p a s' ev _ hinv hm q
    obtain ⟨hp, hq⟩ := (hinv p).2.move hm (hinv p.peer).2 (hinv p).1
    rcases Role.eq_or_eq_peer p q with rfl | rfl
    · exact ⟨hm.effect.wf (hinv q).1, hp⟩
    · rw [hm.other]
      exact ⟨(hinv p.peer).1, hq⟩

end Sys

end Mux

end Leshiy
