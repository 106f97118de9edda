import Leshiy.Mux.Ids

/-!
# Progress of a session

The reader queues its replies (the `Pong` of a `Ping`, the `Close` of a reset) in the command
queue that every sender fills. A side whose queue is full, whose writer waits on a full
transport and whose reader has such a reply to queue does not move before its peer reads; when
both sides are in that state the session is deadlocked. `jams` is the step that completes it.
-/

namespace Leshiy.Mux

open Leshiy.Lib

namespace Endpoint

/-- Both tasks are in their loops and the application can still accept streams. -/
def running (e : Endpoint) : Prop :=
  e.cmdOpen = true ∧ e.readerRunning = true ∧ e.muxAlive = true

/-- Handling the frame makes the reader queue a reply. -/
def needsReply (e : Endpoint) (f : Frame) : Prop :=
  baseType f.ftype = FrameType.ping.toU8 ∨
  ((baseType f.ftype = FrameType.data.toU8 ∨ baseType f.ftype = FrameType.datagram.toU8) ∧
    ∃ h ∈ e.streams.lookup f.streamId, ∃ st ∈ e.objs[h]?, st.refuses f.payload.length ≠ none)

/-- The next frame on the transport needs a reply. -/
def nextNeedsReply (e : Endpoint) (inn : List Frame) : Prop := ∃ f ∈ inn.head?, e.needsReply f

/-- The reader has a reply to queue, or gets one with the next frame. -/
def awaitsSlot (e : Endpoint) (inn : List Frame) : Prop :=
  match e.reader with
  | .replying _ => True
  | .idle => e.nextNeedsReply inn
  | _ => False

/-- The reader waits for room in the command queue. -/
def replyBlocked (e : Endpoint) : Prop := (∃ f, e.reader = .replying f) ∧ e.cmdRoom = false

/-- The command queue has one free slot. -/
def lastSlot (e : Endpoint) : Prop := e.cmdQ.length + 1 = CMD_CHANNEL

/-- The step leaves the command queue full and the reader with a reply to queue: it takes the
last slot, or it hands the reader a frame that needs a reply. -/
def fills (e : Endpoint) (inn : List Frame) : Act → Prop
  | .open kind _ => e.lastSlot ∧ e.openError kind = none ∧ e.awaitsSlot inn
  | .sendQueue _ _ | .close _ | .ping => e.lastSlot ∧ e.awaitsSlot inn
  | .recvReturn h =>
    e.lastSlot ∧ (∃ st ∈ e.objs[h]?, WINDOW_THRESHOLD ≤ st.consumed) ∧ e.awaitsSlot inn
  | .readerReply => e.lastSlot ∧ e.nextNeedsReply inn
  | .readerDeliver => e.cmdRoom = false ∧ e.nextNeedsReply inn
  -- A frame for a stream that is dropped under it is answered with `Close`.
  | .dropStream h =>
    e.cmdRoom = false ∧ e.reader = .idle ∧ (e.modify h Stream.drop).nextNeedsReply inn
  | _ => False

end Endpoint

namespace Sys

/-- The writer holds a frame and the transport takes no more. -/
def writerBlocked (cap : Nat) (s : Sys) (p : Role) : Prop :=
  (∃ f, (s.ep p).writer = .writing f) ∧ cap ≤ (s.wire p).length

/-- Side `p` does not move before its peer reads. -/
def jammed (cap : Nat) (s : Sys) (p : Role) : Prop :=
  s.writerBlocked cap p ∧ (s.ep p).cmdRoom = false ∧ (s.ep p).awaitsSlot (s.wire p.peer)

def canWrite (cap : Nat) (s : Sys) (p : Role) : Prop :=
  (s.step cap (p, .writerTake)).isSome ∨ (s.step cap (p, .writerWrote)).isSome

/-- The reader is done with the frame it took: at once, by its next step, or when the
application has accepted a stream. -/
def canFinish (cap : Nat) (s : Sys) (p : Role) : Prop :=
  match (s.ep p).reader with
  | .replying _ => (s.step cap (p, .readerReply)).isSome
  | .delivering _ =>
    (s.step cap (p, .readerDeliver)).isSome ∨ (s.step cap (p, .accept)).isSome
  | _ => True

def canRead (cap : Nat) (s : Sys) (p : Role) : Prop :=
  match (s.ep p).reader with
  | .idle => ∃ f s' ev, s.step cap (p, .readerTake f) = some (s', ev) ∧ s'.canFinish cap p
  | .replying _ | .delivering _ => s.canFinish cap p
  | _ => False

/-- A session whose tasks all run and that has a frame under way has a writer or a reader that
can go on; in particular it is not the case that both readers wait for their own writer and
both writers for the other reader. -/
def progress (cap : Nat) (s : Sys) : Prop :=
  (∀ p, (s.ep p).running) →
    ((∃ p, s.flight p ≠ []) → ∃ p, s.canWrite cap p ∨ s.canRead cap p) ∧
    ¬ ∀ p, (s.ep p).replyBlocked ∧ s.writerBlocked cap p

/-- The step completes a deadlock: the peer is jammed, the own writer waits on a full transport,
and the step fills the command queue with a reply outstanding. -/
def jams (cap : Nat) (s : Sys) (act : Role × Act) : Prop :=
  (∀ p, (s.ep p).running) ∧ s.jammed cap act.1.peer ∧ s.writerBlocked cap act.1 ∧
    (s.ep act.1).fills (s.wire act.1.peer) act.2

end Sys

namespace Endpoint

variable {e e' : Endpoint} {a : Act} {ev : List Event} {inn : List Frame}

theorem cmdRoom_eq_false : e.cmdRoom = false ↔ CMD_CHANNEL ≤ e.cmdQ.length := by
  simp [cmdRoom]

/-! ## What the reader does with a frame -/

theorem readerTake_isSome {f : Frame} (hr : e.reader = .idle) :
    e.step (.readerTake f) = some ((e.onFrame f).1, .read f :: (e.onFrame f).2) := by
  simp [step, readerTake, hr]

/-- The reader owes a reply after exactly the frames that need one. -/
theorem Effect.replying_iff {f : Frame} (he : Effect e (.readerTake f) e' ev) :
    (∃ g, e'.reader = .replying g) ↔ e.needsReply f := by
  have hty : ∀ {ty : FrameType} (ty' : FrameType), baseType f.ftype = ty.toU8 → ty ≠ ty' →
      baseType f.ftype ≠ ty'.toU8 := by
    intro ty ty' hb hne hb'
    rw [hb, FrameType.toU8_inj] at hb'
    exact hne hb'
  cases he with
  | readPing _ hb => simp [needsReply, hb]
  | readReset _ hb hl hst hc => simp [needsReply, hb, hl, hst, hc]
  | readIgnored hr hp _ _ hd =>
    simp only [hr, reduceCtorEq, exists_false, needsReply, hp, false_or, false_iff, not_and]
    rintro hb ⟨h, hl, st, hst, -⟩
    rw [Option.mem_def] at hl hst
    rcases hd hb with hnone | ⟨h', hl', hnone⟩
    · rw [hnone] at hl
      cases hl
    · cases hl.symm.trans hl'
      rw [hnone] at hst
      cases hst
  | readOpenCap _ hb | readOpen _ hb =>
    simp [needsReply, hty .ping hb (by decide), hty .data hb (by decide),
      hty .datagram hb (by decide)]
  | readCredit hr hb | readClose hr hb =>
    simp [needsReply, hr, hty .ping hb (by decide), hty .data hb (by decide),
      hty .datagram hb (by decide)]
  | readPushed hr hb hl hst hnone =>
    have hp : baseType f.ftype ≠ FrameType.ping.toU8 := by
      rcases hb with hb | hb <;> exact hty .ping hb (by decide)
    simp [needsReply, hr, hp, hl, hst, hnone]
  | readCritical _ _ hno =>
    simp [needsReply, hno .ping (by decide) (by decide), hno .data (by decide) (by decide),
      hno .datagram (by decide) (by decide)]

/-- Reading a frame leaves the command queue and the writer as they are. -/
theorem Effect.read_frame {f : Frame} (he : Effect e (.readerTake f) e' ev) :
    e'.cmdQ = e.cmdQ ∧ e'.writer = e.writer ∧ e'.muxAlive = e.muxAlive := by
  cases he <;> simp

end Endpoint

/-! ## Sides that cannot go on -/

namespace Sys

variable {s s' : Sys} {cap : Nat} {p : Role} {a : Act}

theorem step_local (hr : ∀ f, a ≠ .readerTake f) (hw : a ≠ .writerWrote) :
    s.step cap (p, a) = ((s.ep p).step a).map (s.put p s.wire) := by
  cases a with
  | readerTake f => exact absurd rfl (hr f)
  | writerWrote => exact absurd rfl hw
  | _ => rfl

/-- A reader that took a frame is done with it unless its reply finds no room. -/
theorem canFinish_iff (hc : (s.ep p).cmdOpen = true) (hm : (s.ep p).muxAlive = true) :
    s.canFinish cap p ↔ ¬ (s.ep p).replyBlocked := by
  unfold canFinish Endpoint.replyBlocked
  split
  · next f hr =>
    rw [step_local (by simp) (by simp), Option.isSome_map]
    simp only [Endpoint.step, Endpoint.readerReply, hr, hc]
    cases (s.ep p).cmdRoom <;> simp
  · next h hr =>
    rw [step_local (by simp) (by simp), step_local (by simp) (by simp), Option.isSome_map,
      Option.isSome_map]
    simp only [Endpoint.step, Endpoint.readerDeliver, hr, hm, Endpoint.accept]
    -- A full channel of accepted streams is not empty, so the application can take one.
    cases hi : (s.ep p).incoming with
    | nil => simp [INC_CHANNEL]
    | cons h' rest => simp
  · next h1 h2 =>
    simp only [true_iff, not_and, Bool.not_eq_false]
    rintro ⟨f, hf⟩
    exact absurd hf (h1 f)

theorem canWrite_iff (hc : (s.ep p).cmdOpen = true) :
    s.canWrite cap p ↔
      ¬ ((s.ep p).writer = .idle ∧ (s.ep p).cmdQ = []) ∧ ¬ s.writerBlocked cap p := by
  unfold canWrite writerBlocked
  rw [step_local (by simp) (by simp), Option.isSome_map]
  simp only [step, Endpoint.step, Endpoint.writerTake, Endpoint.writerWrote]
  cases hw : (s.ep p).writer with
  | idle =>
    cases hq : (s.ep p).cmdQ with
    | nil => simp
    | cons c q =>
      cases c with
      | «open» id target h => simp
      | write f => by_cases hb : baseType f.ftype = FrameType.close.toU8 <;> simp [hb]
  | writing f => by_cases hlt : (s.wire p).length < cap <;> simp [hlt, not_le.mpr, not_lt.mp]
  | _ => simp [Endpoint.cmdOpen, hw] at hc

/-- A reader can go on unless there is nothing to read or a reply finds no room. -/
theorem canRead_iff (hrun : (s.ep p).running) :
    s.canRead cap p ↔
      ¬ ((s.ep p).reader = .idle ∧ s.wire p.peer = []) ∧
      ¬ ((s.ep p).cmdRoom = false ∧ (s.ep p).awaitsSlot (s.wire p.peer)) := by
  obtain ⟨hc, hr, hm⟩ := hrun
  unfold canRead Endpoint.awaitsSlot
  cases hrd : (s.ep p).reader with
  | idle =>
    cases hwire : s.wire p.peer with
    | nil => simp [step, hwire]
    | cons f rest =>
      have htake := Endpoint.readerTake_isSome hrd (f := f)
      have heff := Endpoint.step_effect htake
      obtain ⟨hq, hw, hma⟩ := heff.read_frame
      have hfin : ∀ s' : Sys, s'.ep p = ((s.ep p).onFrame f).1 →
          (s'.canFinish cap p ↔ ¬ ((s.ep p).cmdRoom = false ∧ (s.ep p).needsReply f)) := by
        intro s' hep
        rw [canFinish_iff (by rw [hep, Endpoint.cmdOpen, hw]; exact hc) (by rw [hep, hma, hm]),
          Endpoint.replyBlocked, hep, heff.replying_iff, Endpoint.cmdRoom, hq, Endpoint.cmdRoom,
          and_comm]
      simp only [reduceCtorEq, and_false, not_false_eq_true, true_and, Endpoint.nextNeedsReply,
        List.head?_cons, Option.mem_def, Option.some.injEq, exists_eq_left']
      constructor
      · rintro ⟨g, s', ev, hs, hf⟩
        simp only [step, hwire] at hs
        split at hs
        · next hg =>
          subst hg
          rw [htake] at hs
          cases hs
          exact (hfin _ (Function.update_self ..)).mp hf
        · cases hs
      · intro hno
        have hs : s.step cap (p, .readerTake f) = some (s.put p (Function.update s.wire p.peer rest)
            (((s.ep p).onFrame f).1, .read f :: ((s.ep p).onFrame f).2)) := by
          simp [step, hwire, htake]
        exact ⟨f, _, _, hs, (hfin _ (Function.update_self ..)).mpr hno⟩
  | replying f =>
    simp [canFinish_iff hc hm, Endpoint.replyBlocked, hrd]
  | delivering h =>
    simp [canFinish_iff hc hm, Endpoint.replyBlocked, hrd]
  | _ => simp [Endpoint.readerRunning, hrd] at hr

/-- **A running session stops exactly when both sides are jammed.** -/
theorem progress_iff (hcap : 0 < cap) (hrun : ∀ p, (s.ep p).running) :
    s.progress cap ↔ ¬ ∀ p, s.jammed cap p := by
  constructor
  · intro hp hj
    have hbusy : ∃ p, s.flight p ≠ [] := by
      refine ⟨.client, ?_⟩
      obtain ⟨⟨-, hlen⟩, -⟩ := hj .client
      have hne : s.wire .client ≠ [] := List.ne_nil_of_length_pos (by omega)
      simp [flight, hne]
    obtain ⟨p, hgo⟩ := (hp hrun).1 hbusy
    obtain ⟨hw, hfull, haw⟩ := hj p
    rcases hgo with hgo | hgo
    · exact ((canWrite_iff (hrun p).1).mp hgo).2 hw
    · exact ((canRead_iff (hrun p)).mp hgo).2 ⟨hfull, haw⟩
  · intro hj _
    refine ⟨?_, fun hb => hj fun p => ?_⟩
    · rintro ⟨p, hflight⟩
      by_contra hno
      simp only [not_exists, not_or] at hno
      -- A frame on the transport of a side jams its peer.
      have hside : ∀ p, s.wire p ≠ [] → s.jammed cap p.peer ∧ s.wire p.peer ≠ [] := by
        intro p hne
        obtain ⟨hw, hr⟩ := hno p.peer
        rw [canWrite_iff (hrun p.peer).1, not_and_not_right] at hw
        rw [canRead_iff (hrun p.peer), Role.peer_peer, not_and_not_right] at hr
        obtain ⟨hfull, haw⟩ := hr fun h => hne h.2
        have hblocked := hw fun h => by
          rw [Endpoint.cmdRoom_eq_false, h.2] at hfull
          exact absurd hfull (by decide)
        refine ⟨⟨hblocked, hfull, by rwa [Role.peer_peer]⟩, ?_⟩
        obtain ⟨-, hlen⟩ := hblocked
        exact List.ne_nil_of_length_pos (by omega)
      have hne : s.wire p ≠ [] := by
        intro hnil
        have hw := (hno p).1
        rw [canWrite_iff (hrun p).1, not_and_not_right] at hw
        have hblocked := hw fun h => hflight (by simp [flight, hnil, Endpoint.outbox, h.1, h.2])
        obtain ⟨-, hlen⟩ := hblocked
        rw [hnil] at hlen
        exact absurd hcap (Nat.not_lt.mpr hlen)
      obtain ⟨hpeer, hne'⟩ := hside p hne
      obtain ⟨hp, -⟩ := hside p.peer hne'
      rw [Role.peer_peer] at hp
      refine hj fun q => ?_
      rcases Role.eq_or_eq_peer p q with rfl | rfl
      · exact hp
      · exact hpeer
    · obtain ⟨⟨⟨f, hf⟩, hfull⟩, hw⟩ := hb p
      exact ⟨hw, hfull, by simp [Endpoint.awaitsSlot, hf]⟩

/-! ## Bounds of the channels -/

/-- No channel holds more than its capacity. -/
def Bounded (cap : Nat) (s : Sys) : Prop :=
  ∀ p, (s.ep p).cmdQ.length ≤ CMD_CHANNEL ∧ (s.wire p).length ≤ cap

end Sys

namespace Endpoint

variable {e e' : Endpoint} {a : Act} {ev : List Event} {inn : List Frame}

theorem Effect.cmdQ_le (he : Effect e a e' ev) (hle : e.cmdQ.length ≤ CMD_CHANNEL) :
    e'.cmdQ.length ≤ CMD_CHANNEL := by
  have hroom : ∀ {c : Command}, e.cmdRoom = true → (e.cmdQ ++ [c]).length ≤ CMD_CHANNEL := by
    intro c hr
    simp only [cmdRoom, decide_eq_true_eq] at hr
    rw [List.length_append, List.length_singleton]
    omega
  cases he with
  | opened _ _ _ _ hr | sentLast _ _ _ _ _ hr | sentMore _ _ _ _ _ hr | credited _ _ _ _ _ hr
  | closeQueued _ _ _ hr | pinged _ _ hr | replied _ _ hr => exact hroom hr
  | tookOpen _ hq | tookWrite _ hq | drainedOpen _ hq | drainedWrite _ hq | tookClose _ hq =>
    rw [hq, List.length_cons] at hle
    exact Nat.le_of_succ_le hle
  | _ => simpa using hle

end Endpoint

namespace Sys

variable {s s' : Sys} {cap : Nat} {p : Role} {a : Act} {ev : List (Role × Event)}

/-- What a step does to the two transports. -/
theorem step_wire (h : s.step cap (p, a) = some (s', ev)) :
    ((∀ f, a ≠ .readerTake f) ∧ a ≠ .writerWrote ∧ s'.wire = s.wire) ∨
    (∃ f, a = .readerTake f ∧ s.wire p.peer = f :: s'.wire p.peer ∧ s'.wire p = s.wire p) ∨
    (a = .writerWrote ∧ (s.wire p).length < cap ∧ ∃ f, s'.wire p = s.wire p ++ [f] ∧
      s'.wire p.peer = s.wire p.peer) := by
  have hput : ∀ {wire}, ((s.ep p).step a).map (s.put p wire) = some (s', ev) →
      s'.wire = wire := by
    intro wire h
    obtain ⟨r, -, hr⟩ := Option.map_eq_some_iff.mp h
    cases hr
    rfl
  unfold step at h
  split at h
  · next q f heq =>
    cases heq
    split at h
    · next g rest hwire =>
      split at h
      · next hg =>
        subst hg
        have hw := hput h
        exact Or.inr (Or.inl ⟨g, rfl, by simp [hw, hwire], by simp [hw]⟩)
      · cases h
    · cases h
  · next q heq =>
    cases heq
    split at h
    · next f hf =>
      split at h
      · next hlt =>
        have hw := hput h
        exact Or.inr (Or.inr ⟨rfl, hlt, f, by simp [hw], by simp [hw]⟩)
      · cases h
    · cases h
  · next q b hr hw heq =>
    cases heq
    exact Or.inl ⟨hr, hw, hput h⟩

theorem bounded_connect {hello : Role → Hello} {s₀ : Sys} (h0 : connect hello = .ok s₀) :
    s₀.Bounded cap := by
  intro p
  obtain ⟨hw, n, -, he⟩ := connect_ok h0 p
  simp [hw, he, Endpoint.start]

theorem Bounded.step (hb : s.Bounded cap) (h : s.step cap (p, a) = some (s', ev)) :
    s'.Bounded cap := by
  obtain ⟨ev₀, -, hm⟩ := step_move h
  intro q
  constructor
  · rcases Role.eq_or_eq_peer p q with rfl | rfl
    · exact hm.effect.cmdQ_le (hb q).1
    · rw [hm.other]
      exact (hb _).1
  · rcases step_wire h with ⟨-, -, hw⟩ | ⟨f, -, hread, hkept⟩ | ⟨-, hlt, f, hout, hkept⟩
    · rw [hw]
      exact (hb q).2
    · rcases Role.eq_or_eq_peer p q with rfl | rfl
      · rw [hkept]
        exact (hb q).2
      · have hle := (hb p.peer).2
        rw [hread, List.length_cons] at hle
        omega
    · rcases Role.eq_or_eq_peer p q with rfl | rfl
      · rw [hout, List.length_append, List.length_singleton]
        omega
      · rw [hkept]
        exact (hb _).2

end Sys

/-! ## What jams a side -/

/-- A stream in use that holds less refuses less. -/
theorem Stream.refuses_of_le {st st' : Stream} {n : Nat} (h : st'.refuses n ≠ none)
    (ho : st'.owner = .dropped → st.owner = .dropped) (hb : st'.buffered ≤ st.buffered)
    (hrx : st'.rx.length ≤ st.rx.length) : st.refuses n ≠ none := by
  rw [refuses_ne_none] at h ⊢
  rcases h with h | h | h
  · exact Or.inl (by omega)
  · exact Or.inr (Or.inl (ho h))
  · exact Or.inr (Or.inr (by omega))

namespace Endpoint

variable {e e' : Endpoint} {a : Act} {ev : List Event} {inn : List Frame}

/-- Only reading and dropping a stream can make it refuse a message it would have taken. -/
theorem Effect.refuses_mono (he : Effect e a e' ev) (hrun : e'.running)
    (hr : ∀ f, a ≠ .readerTake f) (hd : ∀ h, a ≠ .dropStream h) {h n : Nat} {st st' : Stream}
    (hst : e.objs[h]? = some st) (hst' : e'.objs[h]? = some st')
    (href : st'.refuses n ≠ none) : st.refuses n ≠ none := by
  obtain ⟨hc, hrr, hma⟩ := hrun
  have hlt := (List.getElem?_eq_some_iff.mp hst).1
  cases he with
  | muxDropped => cases hma
  | streamDropped => exact absurd rfl (hd _)
  | readPing | readIgnored | readOpenCap | readOpen | readReset | readPushed | readCredit
  | readClose | readCritical => exact absurd rfl (hr _)
  | deliveryFailed | readerLeftDelivering | readerClosed => cases hrr
  | writerClosed => cases hc
  | drainedOpen hw => simp [cmdOpen, hw] at hc
  | opened =>
    rw [List.getElem?_append_left hlt, hst] at hst'
    cases hst'
    exact href
  | tookClose =>
    simp only [removeStream_objs, List.getElem?_mapIdx, hst, Option.map_some,
      Option.some.injEq] at hst'
    subst hst'
    split at href <;> exact href
  | watchdogFired =>
    simp only [closeAllStreams_objs, List.getElem?_mapIdx, hst, Option.map_some,
      Option.some.injEq] at hst'
    subst hst'
    split at href <;> exact href
  | accepted =>
    simp only [modify_objs, List.getElem?_modify, hst] at hst'
    split at hst'
    · cases hst'
      exact Stream.refuses_of_le href (fun h => by cases h) le_rfl le_rfl
    · cases hst'
      exact href
  | @popped h' st₀ chunk rx hst₀ _ _ hrx =>
    simp only [modify_objs, List.getElem?_modify, hst] at hst'
    split at hst'
    · next hh =>
      subst hh
      cases hst.symm.trans hst₀
      cases hst'
      exact Stream.refuses_of_le href (fun h => h) (Nat.sub_le ..) (by simp [hrx])
    · cases hst'
      exact href
  | sendStarted | charged | windowClosed | queueClosed | sentLast | sentMore | sendDropped
  | returned | returnedClosed | credited =>
    simp only [setSend_objs, endSend_objs, enqueue_objs, modify_objs, List.getElem?_modify,
      hst] at hst'
    split at hst'
    all_goals
      cases hst'
      exact href
  | _ =>
    cases hst.symm.trans hst'
    exact href

theorem Effect.needsReply_mono (he : Effect e a e' ev) (hwf : e.Wf) (hrun : e'.running)
    (hr : ∀ f, a ≠ .readerTake f) (hd : ∀ h, a ≠ .dropStream h) (hw : a ≠ .writerTake)
    {f : Frame} (hf : e'.needsReply f) : e.needsReply f := by
  rcases hf with hp | ⟨hb, h, hl, st', hst', href⟩
  · exact Or.inl hp
  · rw [Option.mem_def] at hl hst'
    have hl₀ : e.streams.lookup f.streamId = some h := by
      cases he with
      | tookOpen | tookClose | tookWrite => exact absurd rfl hw
      | readPing | readIgnored | readOpenCap | readOpen | readReset | readPushed | readCredit
      | readClose | readCritical => exact absurd rfl (hr _)
      | writerClosed | readerClosed | watchdogFired => simp at hl
      | _ => exact hl
    obtain ⟨st, hst, -⟩ := hwf.map hl₀
    exact Or.inr ⟨hb, h, hl₀, st, hst, he.refuses_mono hrun hr hd hst hst' href⟩

/-- A frame that needs a reply still needs it after a step that queues a frame. -/
theorem Effect.needsReply_queued (he : Effect e a e' ev) (hq : queuedFrames ev ≠ []) {f : Frame}
    (hf : e.needsReply f) : e'.needsReply f := by
  rcases hf with hp | ⟨hb, h, hl, st, hst, href⟩
  · exact Or.inl hp
  · rw [Option.mem_def] at hl hst
    refine Or.inr ⟨hb, h, ?_⟩
    have hlt := (List.getElem?_eq_some_iff.mp hst).1
    cases he with
    | opened => exact ⟨hl, st, by simp [List.getElem?_append_left hlt, hst], href⟩
    | @sentLast h' | @sentMore h' | @credited h' =>
      refine ⟨hl, ?_⟩
      simp only [setSend_objs, endSend_objs, enqueue_objs, modify_objs, List.getElem?_modify, hst]
      refine ⟨_, rfl, ?_⟩
      split <;> exact href
    | closeQueued | pinged | replied => exact ⟨hl, st, hst, href⟩
    | _ => simp [queuedFrames] at hq

theorem nextNeedsReply_imp (hn : e.nextNeedsReply inn)
    (h : ∀ f, e.needsReply f → e'.needsReply f) : e'.nextNeedsReply inn := by
  obtain ⟨f, hf, hneed⟩ := hn
  exact ⟨f, hf, h f hneed⟩

theorem awaitsSlot_imp (ha : e.awaitsSlot inn) (hr : e'.reader = e.reader)
    (h : ∀ f, e.needsReply f → e'.needsReply f) : e'.awaitsSlot inn := by
  unfold awaitsSlot at ha ⊢
  rw [hr]
  cases hrd : e.reader with
  | replying f => trivial
  | idle =>
    rw [hrd] at ha
    exact nextNeedsReply_imp ha h
  | _ => simp [hrd] at ha

/-- A side that waits for a slot after a step did so before, or the step put it there. -/
theorem Effect.fills (he : Effect e a e' ev) (hwf : e.Wf) (hrun : e.running) (hrun' : e'.running)
    (hr : ∀ f, a ≠ .readerTake f) (hw : a ≠ .writerTake) (hfull : e'.cmdRoom = false)
    (haw : e'.awaitsSlot inn) : (e.cmdRoom = false ∧ e.awaitsSlot inn) ∨ e.fills inn a := by
  have hneed : (∀ h, a ≠ .dropStream h) → ∀ f, e'.needsReply f → e.needsReply f := fun hd f =>
    he.needsReply_mono hwf hrun' hr hd hw
  have hlast : ∀ {c : Command}, e.cmdRoom = true → e'.cmdQ = e.cmdQ ++ [c] → e.lastSlot := by
    intro c hroom hq
    rw [cmdRoom_eq_false, hq, List.length_append, List.length_singleton] at hfull
    simp only [cmdRoom, decide_eq_true_eq] at hroom
    simp only [lastSlot]
    omega
  have hsame : e'.cmdQ = e.cmdQ → e.cmdRoom = false := by
    intro hq
    rw [cmdRoom, ← hq]
    exact hfull
  cases he with
  | opened _ herr _ _ hroom =>
    exact Or.inr ⟨hlast hroom rfl, herr, awaitsSlot_imp haw rfl (hneed (by simp))⟩
  | sentLast _ _ _ _ _ hroom | sentMore _ _ _ _ _ hroom | closeQueued _ _ _ hroom
  | pinged _ _ hroom =>
    exact Or.inr ⟨hlast hroom rfl, awaitsSlot_imp haw rfl (hneed (by simp))⟩
  | credited hst _ _ hle _ hroom =>
    exact Or.inr ⟨hlast hroom rfl, ⟨_, hst, hle⟩, awaitsSlot_imp haw rfl (hneed (by simp))⟩
  | replied _ _ hroom =>
    exact Or.inr ⟨hlast hroom rfl, nextNeedsReply_imp haw (hneed (by simp))⟩
  | delivered => exact Or.inr ⟨hsame rfl, nextNeedsReply_imp haw (hneed (by simp))⟩
  | streamDropped =>
    cases hrd : e.reader with
    | replying f => exact Or.inl ⟨hsame rfl, by simp [awaitsSlot, hrd]⟩
    | idle =>
      simp only [awaitsSlot, modify_reader, hrd] at haw
      exact Or.inr ⟨hsame rfl, hrd, haw⟩
    | _ => simp [awaitsSlot, hrd] at haw
  | replyLost _ hc =>
    rw [hrun.1] at hc
    cases hc
  | readPing | readIgnored | readOpenCap | readOpen | readReset | readPushed | readCredit
  | readClose | readCritical => exact absurd rfl (hr _)
  | tookOpen | tookClose | tookWrite => exact absurd rfl hw
  | drainedOpen hd | drainedWrite hd => simp [running, cmdOpen, hd] at hrun
  | deliveryFailed | readerLeft | readerLeftDelivering | readerClosed | readerPublished =>
    simp [awaitsSlot] at haw
  | _ => exact Or.inl ⟨hsame rfl, awaitsSlot_imp haw rfl (hneed (by simp))⟩

/-- A step that fills the queue with a reply outstanding leaves the side waiting for a slot. -/
theorem Effect.awaits_of_fills (he : Effect e a e' ev) (hrun : e.running) (hf : e.fills inn a) :
    e'.running ∧ e'.writer = e.writer ∧ e'.cmdRoom = false ∧ e'.awaitsSlot inn := by
  have hneed : queuedFrames ev ≠ [] → ∀ f, e.needsReply f → e'.needsReply f := fun hq f =>
    he.needsReply_queued hq
  have hfull : ∀ {c : Command}, e.lastSlot → e'.cmdQ = e.cmdQ ++ [c] → e'.cmdRoom = false := by
    intro c hlast hq
    rw [cmdRoom_eq_false, hq, List.length_append, List.length_singleton]
    exact hlast.ge
  obtain ⟨hc, hr, hm⟩ := hrun
  cases he with
  | opened =>
    obtain ⟨hlast, -, haw⟩ := hf
    exact ⟨⟨hc, hr, hm⟩, rfl, hfull hlast rfl,
      awaitsSlot_imp haw rfl (hneed (by simp [queuedFrames]))⟩
  | sentLast | sentMore | closeQueued | pinged =>
    obtain ⟨hlast, haw⟩ := hf
    exact ⟨⟨hc, hr, hm⟩, rfl, hfull hlast rfl,
      awaitsSlot_imp haw rfl (hneed (by simp [queuedFrames]))⟩
  | credited =>
    obtain ⟨hlast, -, haw⟩ := hf
    exact ⟨⟨hc, hr, hm⟩, rfl, hfull hlast rfl,
      awaitsSlot_imp haw rfl (hneed (by simp [queuedFrames]))⟩
  | replied =>
    obtain ⟨hlast, haw⟩ := hf
    exact ⟨⟨hc, rfl, hm⟩, rfl, hfull hlast rfl,
      nextNeedsReply_imp haw (hneed (by simp [queuedFrames]))⟩
  | delivered => exact ⟨⟨hc, rfl, hm⟩, rfl, hf.1, hf.2⟩
  | streamDropped =>
    obtain ⟨hroom, hidle, hnext⟩ := hf
    refine ⟨⟨hc, hr, hm⟩, rfl, hroom, ?_⟩
    simp only [awaitsSlot, modify_reader, hidle]
    exact hnext
  | openRefused herr =>
    obtain ⟨-, hnone, -⟩ := hf
    rw [herr] at hnone
    cases hnone
  | returned hst _ _ hlt =>
    obtain ⟨-, ⟨st, hst', hle⟩, -⟩ := hf
    cases hst.symm.trans hst'
    exact absurd hlt (Nat.not_lt.mpr hle)
  | openClosed hc' | queueClosed _ _ _ _ hc' | returnedClosed _ _ _ _ hc' | closeFailed hc'
  | replyLost _ hc' =>
    rw [hc] at hc'
    cases hc'
  | deliveryFailed _ hm' =>
    rw [hm] at hm'
    cases hm'
  | _ => exact hf.elim

end Endpoint

namespace Endpoint

variable {e e' : Endpoint} {a : Act} {ev : List Event}

theorem Effect.muxAlive_mono (he : Effect e a e' ev) (hm : e'.muxAlive = true) :
    e.muxAlive = true := by
  cases he with
  | muxDropped => cases hm
  | _ => simpa using hm

/-- A writer that takes a command leaves a free slot. -/
theorem Effect.writerTake_room (he : Effect e .writerTake e' ev)
    (hle : e.cmdQ.length ≤ CMD_CHANNEL) : e'.cmdRoom = true := by
  cases he with
  | tookOpen _ hq | tookClose _ hq | tookWrite _ hq =>
    rw [hq, List.length_cons] at hle
    simp only [cmdRoom, decide_eq_true_eq]
    exact hle

theorem Effect.writer_idle (he : Effect e .writerWrote e' ev) : e'.writer = .idle := by
  cases he
  rfl

/-- A running writer changes its state only by taking a command or writing a frame. -/
theorem Effect.writer_eq (he : Effect e a e' ev) (hw : a ≠ .writerWrote) (ht : a ≠ .writerTake)
    (hc : e'.cmdOpen = true) : e'.writer = e.writer := by
  cases he with
  | tookOpen | tookClose | tookWrite => exact absurd rfl ht
  | wrote => exact absurd rfl hw
  | writerLeft | writerClosed | writerPublished => cases hc
  | _ => simp

end Endpoint

/-! ## Runs without deadlock -/

namespace Sys

variable {s s' : Sys} {cap : Nat} {p : Role} {a : Act} {ev : List (Role × Event)}
  {log : List (Taken Sys (Role × Act) (Role × Event))}

/-- Both sides are jammed and all tasks run. -/
def deadlocked (cap : Nat) (s : Sys) : Prop := ∀ p, (s.ep p).running ∧ s.jammed cap p

theorem progress_iff_not_deadlocked (hcap : 0 < cap) : s.progress cap ↔ ¬ s.deadlocked cap := by
  by_cases hrun : ∀ p, (s.ep p).running
  · rw [progress_iff hcap hrun, deadlocked]
    exact not_congr ⟨fun h p => ⟨hrun p, h p⟩, fun h p => (h p).2⟩
  · exact iff_of_true (fun h => absurd h hrun) fun h => hrun fun p => (h p).1

/-- Nothing the other side did can be undone by the step: a jammed peer was jammed before. -/
theorem jammed_peer (hwire : s'.wire = s.wire) (hep : s'.ep p.peer = s.ep p.peer) :
    s'.jammed cap p.peer ↔ s.jammed cap p.peer := by
  simp only [jammed, writerBlocked, hwire, hep]

/-- A step that leads into a deadlock completes it, or was taken in one. -/
theorem jams_of_deadlocked (hwf : (s.ep p).Wf) (hb : s.Bounded cap)
    (h : s.step cap (p, a) = some (s', ev)) (hd : s'.deadlocked cap) :
    s.deadlocked cap ∨ s.jams cap (p, a) := by
  obtain ⟨ev₀, -, hm⟩ := step_move h
  obtain ⟨hrun', ⟨⟨f, hf⟩, hlen⟩, hfull, haw⟩ := hd p
  obtain ⟨hrunq', hpeer⟩ := hd p.peer
  rcases step_wire h with ⟨hr, hw, hwire⟩ | ⟨g, rfl, hread, -⟩ | ⟨rfl, -⟩
  · have hrun : ∀ q, (s.ep q).running := by
      intro q
      rcases Role.eq_or_eq_peer p q with rfl | rfl
      · refine ⟨hm.effect.cmdOpen_mono hrun'.1, hm.effect.readerRunning_mono hrun'.2.1, ?_⟩
        exact hm.effect.muxAlive_mono hrun'.2.2
      · rwa [← hm.other]
    -- The writer took no command: it would have left a free slot.
    have htake : a ≠ .writerTake := by
      rintro rfl
      have hlt := hm.effect.writerTake_room (hb p).1
      rw [hfull] at hlt
      cases hlt
    have hwriter := hm.effect.writer_eq hw htake hrun'.1
    rw [jammed_peer hwire hm.other] at hpeer
    have hblocked : s.writerBlocked cap p := ⟨⟨f, by rw [← hwriter, hf]⟩, by rwa [← hwire]⟩
    rw [hwire] at haw
    rcases hm.effect.fills hwf (hrun p) hrun' hr htake hfull haw with ⟨hfull, haw⟩ | hfills
    · refine Or.inl fun q => ⟨hrun q, ?_⟩
      rcases Role.eq_or_eq_peer p q with rfl | rfl
      · exact ⟨hblocked, hfull, haw⟩
      · exact hpeer
    · exact Or.inr ⟨hrun, hpeer, hblocked, hfills⟩
  · -- Reading leaves room on the peer's transport.
    obtain ⟨⟨-, hlenq⟩, -⟩ := hpeer
    have hle := (hb p.peer).2
    rw [hread, List.length_cons] at hle
    omega
  · have hidle := hm.effect.writer_idle
    rw [hf] at hidle
    cases hidle

theorem deadlocked_of_jams (h : s.step cap (p, a) = some (s', ev)) (hj : s.jams cap (p, a)) :
    s'.deadlocked cap := by
  obtain ⟨ev₀, -, hm⟩ := step_move h
  obtain ⟨hrun, hpeer, ⟨⟨f, hf⟩, hlen⟩, hfills⟩ := hj
  have hwire : s'.wire = s.wire := by
    rcases step_wire h with ⟨-, -, hwire⟩ | ⟨g, rfl, -⟩ | ⟨rfl, -⟩
    · exact hwire
    · exact hfills.elim
    · exact hfills.elim
  obtain ⟨hrun', hwriter, hfull, haw⟩ := hm.effect.awaits_of_fills (hrun p) hfills
  intro q
  rcases Role.eq_or_eq_peer p q with rfl | rfl
  · exact ⟨hrun', ⟨⟨f, by rw [hwriter, hf]⟩, by rwa [hwire]⟩, hfull, by rwa [hwire]⟩
  · exact ⟨by rw [hm.other]; exact hrun _, (jammed_peer hwire hm.other).mpr hpeer⟩

/-- **Progress over whole runs.** In every state of a run some task can go on exactly when no
step of the run completes a deadlock. -/
theorem progress_iff_no_jam {hello : Role → Hello} {s₀ : Sys} (h0 : connect hello = .ok s₀)
    (hcap : 0 < cap) (hrun : Exec (Sys.step cap) s₀ log s) :
    ((∀ t ∈ log, t.pre.progress cap) ∧ s.progress cap) ↔
      Steps (fun s act => ¬ s.jams cap act) log := by
  -- The run's bounds and well-formedness go along with the equivalence.
  suffices h : ((∀ t ∈ log, t.pre.progress cap) ∧ s.progress cap ↔
      Steps (fun s act => ¬ s.jams cap act) log) ∧ s.Bounded cap ∧ ∀ p, (s.ep p).Wf from h.1
  refine hrun.inv (P := fun log s => ((∀ t ∈ log, t.pre.progress cap) ∧ s.progress cap ↔
    Steps (fun s act => ¬ s.jams cap act) log) ∧ s.Bounded cap ∧ ∀ p, (s.ep p).Wf) ?_ ?_
  · refine ⟨iff_of_true ⟨by simp, ?_⟩ steps_nil, bounded_connect h0, wf_connect h0⟩
    rw [progress_iff_not_deadlocked hcap]
    intro hd
    obtain ⟨-, ⟨-, hlen⟩, -⟩ := hd .client
    rw [(connect_ok h0 .client).1] at hlen
    exact absurd hcap (Nat.not_lt.mpr hlen)
  · rintro log s ⟨p, a⟩ s' ev - ⟨hiff, hb, hwf⟩ hs
    obtain ⟨ev₀, -, hm⟩ := step_move hs
    refine ⟨?_, hb.step hs, fun q => ?_⟩
    · rw [steps_snoc, ← hiff]
      simp only [List.mem_append, List.mem_singleton, or_imp, forall_and, forall_eq]
      refine and_congr_right fun hp => ?_
      rw [progress_iff_not_deadlocked hcap, not_iff_not]
      refine ⟨fun hd => ?_, deadlocked_of_jams hs⟩
      exact (jams_of_deadlocked (hwf p) hb hs hd).resolve_left
        ((progress_iff_not_deadlocked hcap).mp hp.2)
    · rcases Role.eq_or_eq_peer p q with rfl | rfl
      · exact hm.effect.wf (hwf q)
      · rw [hm.other]
        exact hwf _

/-- The client's `Ping` is answered; the queues never fill. -/
def answeredPing : List (Role × Act) :=
  [(.client, .ping), (.client, .writerTake), (.client, .writerWrote),
    (.server, .readerTake pingFrame), (.server, .readerReply), (.server, .writerTake)]

theorem progress_answered_ping : ∃ s₀ log s, connect offers = .ok s₀ ∧ 0 < 1 ∧
    Exec (Sys.step 1) s₀ log s ∧ s.flight .server = [pongFrame] ∧
    Steps (fun s act => ¬ s.jams 1 act) log ∧
    (∀ t ∈ log, t.pre.progress 1) ∧ s.progress 1 := by
  obtain ⟨s₀, log, s, h0, hrun, hflight, hroom⟩ :=
    connect_reaches offers 1 answeredPing
      (fun _ log s => s.flight .server = [pongFrame] ∧
        Steps (fun s _ => ∀ p, (s.ep p).cmdRoom = true) log)
      (by decide +kernel)
  have hno : Steps (fun s act => ¬ s.jams 1 act) log := by
    intro t ht hj
    obtain ⟨-, ⟨-, hfull, -⟩, -⟩ := hj
    rw [hroom t ht] at hfull
    cases hfull
  obtain ⟨hlog, hs⟩ := (progress_iff_no_jam h0 Nat.one_pos hrun).mpr hno
  exact ⟨s₀, log, s, h0, Nat.one_pos, hrun, hflight, hno, hlog, hs⟩

/-- Both sides have a `Ping` on a transport of one frame and fill their command queues with
opens; each reader takes the `Ping` while another open already waits for the next slot. -/
def saturated : List (Role × Act) :=
  let each (acts : List Act) : List (Role × Act) :=
    acts.map (Role.client, ·) ++ acts.map (Role.server, ·)
  each [.ping, .writerTake, .writerWrote] ++
    each ([.open .tcp "a:1", .writerTake] ++ List.replicate 256 (.open .tcp "a:1")) ++
    each [.readerTake pingFrame] ++
    each [.writerWrote, .writerTake, .open .tcp "a:1"]

/-- Two unmodified endpoints with keepalive and flow control deadlock: both readers wait for
their full command queue and both writers for the full transport. -/
theorem saturated_sides_deadlock :
    ¬ ∀ (cap : Nat) (hello : Role → Hello) (s₀ s : Sys)
        (log : List (Taken Sys (Role × Act) (Role × Event))),
      0 < cap → connect hello = .ok s₀ →
      (∀ p, (s₀.ep p).keepaliveOn = true ∧ (s₀.ep p).flowcontrolOn = true) →
      Exec (Sys.step cap) s₀ log s → s.progress cap := by
  intro hall
  obtain ⟨s₀, log, s, h0, hrun, hon, hend⟩ :=
    connect_reaches offers 1 saturated
      (fun s₀ _ s => (∀ p, (s₀.ep p).keepaliveOn = true ∧ (s₀.ep p).flowcontrolOn = true) ∧
        ∀ p, (s.ep p).muxAlive = true ∧ (s.ep p).reader = .replying pongFrame ∧
          (s.ep p).writer = .writing (openFrame (if p = .client then 3 else 4) "a:1") ∧
          (s.ep p).cmdRoom = false ∧ 1 ≤ (s.wire p).length)
      (by decide +kernel)
  have hstop := (hall 1 offers s₀ s log Nat.one_pos h0 hon hrun fun p => ?_).2
  · refine hstop fun p => ?_
    obtain ⟨-, hr, hw, hfull, hlen⟩ := hend p
    exact ⟨⟨⟨_, hr⟩, hfull⟩, ⟨_, hw⟩, hlen⟩
  · obtain ⟨hm, hr, hw, -⟩ := hend p
    exact ⟨by simp [Endpoint.cmdOpen, hw], by simp [Endpoint.readerRunning, hr], hm⟩

end Sys

end Leshiy.Mux
