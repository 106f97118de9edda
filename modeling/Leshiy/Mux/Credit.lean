import Mathlib.Algebra.BigOperators.Group.List.Basic
import Leshiy.Mux.Ids

/-!
# Flow-control credit

A stream's credit in one direction is in one of six places: permits in the sender's window,
bytes a `send` has paid for and not queued yet, data frames in flight, the receiver's data
channel, bytes consumed and not credited yet, and `WindowUpdate` frames in flight.

`sendSide` and `recvSide` are what the two endpoints hold of it. One step moves credit between
the places and creates none; credit is lost only where `Effect.sendSide` and `Effect.recvSide`
say so.
-/

namespace Leshiy.Mux

open Leshiy.Lib

/-! ## Credit in a stream and in frames -/

/-- The bytes a call has paid for and not queued yet. -/
def SendCall.held (c : SendCall) : Nat := if c.charged then c.chunk.length else 0

namespace Stream

def permits (st : Stream) : Nat := st.sendWindow.elim 0 Semaphore.permits

def inHand (st : Stream) : Nat := (st.sends.map SendCall.held).sum

/-- Credit the sender has. -/
def credit (st : Stream) : Nat := st.permits + st.inHand

/-- Credit the receiver has not given back. -/
def uncredited (st : Stream) : Nat := st.buffered + st.consumed

end Stream

/-- The payload bytes a frame carries for a stream. -/
def dataBytes (id : UInt32) (f : Frame) : Nat :=
  if f.streamId = id ∧ (baseType f.ftype = FrameType.data.toU8 ∨
      baseType f.ftype = FrameType.datagram.toU8) then f.payload.length
  else 0

/-- The credit a frame carries for a stream. -/
def creditBytes (id : UInt32) (f : Frame) : Nat :=
  if f.streamId = id ∧ baseType f.ftype = FrameType.windowUpdate.toU8 then
    (windowUpdateCredit f.payload).getD 0
  else 0

def dataIn (id : UInt32) (fs : List Frame) : Nat := (fs.map (dataBytes id)).sum

def creditIn (id : UInt32) (fs : List Frame) : Nat := (fs.map (creditBytes id)).sum

section

variable (id : UInt32)

@[simp] theorem dataIn_nil : dataIn id [] = 0 := rfl

@[simp] theorem dataIn_cons (f : Frame) (fs : List Frame) :
    dataIn id (f :: fs) = dataBytes id f + dataIn id fs := by
  simp [dataIn]

@[simp] theorem dataIn_append (fs gs : List Frame) :
    dataIn id (fs ++ gs) = dataIn id fs + dataIn id gs := by
  simp [dataIn]

@[simp] theorem creditIn_nil : creditIn id [] = 0 := rfl

@[simp] theorem creditIn_cons (f : Frame) (fs : List Frame) :
    creditIn id (f :: fs) = creditBytes id f + creditIn id fs := by
  simp [creditIn]

@[simp] theorem creditIn_append (fs gs : List Frame) :
    creditIn id (fs ++ gs) = creditIn id fs + creditIn id gs := by
  simp [creditIn]

@[simp] theorem dataBytes_dataFrame (kind : StreamKind) (id' : UInt32) (payload : Bytes) :
    dataBytes id (dataFrame kind id' payload) = if id' = id then payload.length else 0 := by
  cases kind <;> simp [dataBytes, dataFrame]

theorem dataBytes_eq_zero {id : UInt32} {f : Frame} {ty : FrameType}
    (hb : baseType f.ftype = ty.toU8) (h1 : ty ≠ .data) (h2 : ty ≠ .datagram) :
    dataBytes id f = 0 := by
  simp [dataBytes, hb, FrameType.toU8_inj, h1, h2]

theorem creditBytes_eq_zero {id : UInt32} {f : Frame} {ty : FrameType}
    (hb : baseType f.ftype = ty.toU8) (h : ty ≠ .windowUpdate) : creditBytes id f = 0 := by
  simp [creditBytes, hb, FrameType.toU8_inj, h]

@[simp] theorem creditBytes_dataFrame (kind : StreamKind) (id' : UInt32) (payload : Bytes) :
    creditBytes id (dataFrame kind id' payload) = 0 := by
  cases kind with
  | tcp => exact creditBytes_eq_zero (baseType_toU8 .data) (by decide)
  | udp | icmp => exact creditBytes_eq_zero (baseType_toU8 .datagram) (by decide)

@[simp] theorem dataBytes_openFrame (id' : UInt32) (target : String) :
    dataBytes id (openFrame id' target) = 0 :=
  dataBytes_eq_zero (baseType_toU8 .open) (by decide) (by decide)

@[simp] theorem creditBytes_openFrame (id' : UInt32) (target : String) :
    creditBytes id (openFrame id' target) = 0 :=
  creditBytes_eq_zero (baseType_toU8 .open) (by decide)

@[simp] theorem dataBytes_closeFrame (id' : UInt32) : dataBytes id (closeFrame id') = 0 :=
  dataBytes_eq_zero (baseType_toU8 .close) (by decide) (by decide)

@[simp] theorem creditBytes_closeFrame (id' : UInt32) : creditBytes id (closeFrame id') = 0 :=
  creditBytes_eq_zero (baseType_toU8 .close) (by decide)

@[simp] theorem dataBytes_pingFrame : dataBytes id pingFrame = 0 :=
  dataBytes_eq_zero (baseType_toU8 .ping) (by decide) (by decide)

@[simp] theorem creditBytes_pingFrame : creditBytes id pingFrame = 0 :=
  creditBytes_eq_zero (baseType_toU8 .ping) (by decide)

@[simp] theorem dataBytes_pongFrame : dataBytes id pongFrame = 0 :=
  dataBytes_eq_zero (baseType_toU8 .pong) (by decide) (by decide)

@[simp] theorem creditBytes_pongFrame : creditBytes id pongFrame = 0 :=
  creditBytes_eq_zero (baseType_toU8 .pong) (by decide)

@[simp] theorem dataBytes_windowUpdateFrame (id' credit : UInt32) :
    dataBytes id (windowUpdateFrame id' credit) = 0 :=
  dataBytes_eq_zero (baseType_toU8 .windowUpdate) (by decide) (by decide)

@[simp] theorem windowUpdateCredit_frame (id' credit : UInt32) :
    windowUpdateCredit (windowUpdateFrame id' credit).payload =
      some (min credit.toNat MAX_CREDIT) := by
  have htake : (beEncode 4 credit.toNat).take 4 = beEncode 4 credit.toNat :=
    List.take_of_length_le (by simp)
  simp [windowUpdateCredit, windowUpdateFrame, htake, u32FromBeBytes_beEncode]

/-- The cast in `recv` cuts nothing off. -/
theorem toNat_regrant (n : Nat) :
    (UInt32.ofNat (min n (2 ^ 32 - 1))).toNat = min n (2 ^ 32 - 1) :=
  UInt32.toNat_ofNat_of_lt' (by simp only [UInt32.size]; omega)

@[simp] theorem creditBytes_windowUpdateFrame (id' credit : UInt32) :
    creditBytes id (windowUpdateFrame id' credit) =
      if id' = id then min credit.toNat MAX_CREDIT else 0 := by
  simp only [creditBytes, windowUpdateCredit_frame, streamId_windowUpdateFrame]
  simp [windowUpdateFrame]

end

/-! ## Sums over the calls of a stream -/

theorem sum_map_set {α : Type} {g : α → Nat} {l : List α} {k : Nat} {c : α} (c' : α)
    (hc : l[k]? = some c) : ((l.set k c').map g).sum + g c = (l.map g).sum + g c' := by
  induction l generalizing k with
  | nil => cases hc
  | cons x xs ih =>
    cases k with
    | zero =>
      cases hc
      simp only [List.set_cons_zero, List.map_cons, List.sum_cons]
      omega
    | succ k =>
      have := ih (k := k) hc
      simp only [List.set_cons_succ, List.map_cons, List.sum_cons]
      omega

theorem sum_map_eraseIdx {α : Type} {g : α → Nat} {l : List α} {k : Nat} {c : α}
    (hc : l[k]? = some c) : ((l.eraseIdx k).map g).sum + g c = (l.map g).sum := by
  induction l generalizing k with
  | nil => cases hc
  | cons x xs ih =>
    cases k with
    | zero =>
      cases hc
      simp only [List.eraseIdx_cons_zero, List.map_cons, List.sum_cons]
      omega
    | succ k =>
      have := ih (k := k) hc
      simp only [List.eraseIdx_cons_succ, List.map_cons, List.sum_cons]
      omega

/-! ## Credit and the operations on a stream -/

namespace Stream

variable {st : Stream} {k : Nat} {c : SendCall}

@[simp] theorem credit_closeWindow (st : Stream) : st.closeWindow.credit = st.credit := by
  cases hw : st.sendWindow <;> simp [closeWindow, credit, permits, inHand, hw]

@[simp] theorem credit_drop (st : Stream) : st.drop.credit = st.credit := rfl

theorem credit_closeWindow_if {p : Prop} [Decidable p] (st : Stream) :
    (if p then st.closeWindow else st).credit = st.credit := by
  split <;> simp

theorem credit_startSend (hch : c.charged = false) :
    ({ st with sends := st.sends ++ [c] } : Stream).credit = st.credit := by
  simp [credit, inHand, permits, SendCall.held, hch]

theorem credit_setSend (c' : SendCall) (hc : st.sends[k]? = some c) :
    ({ st with sends := st.sends.set k c' } : Stream).credit + c.held = st.credit + c'.held := by
  have hsum := sum_map_set (g := SendCall.held) c' hc
  simp only [credit, inHand, permits]
  omega

theorem credit_endSend (hc : st.sends[k]? = some c) :
    ({ st with sends := st.sends.eraseIdx k } : Stream).credit + c.held = st.credit := by
  have hsum := sum_map_eraseIdx (g := SendCall.held) hc
  simp only [credit, inHand, permits]
  omega

/-- `acquire_credit` moves permits into the caller's hand. -/
theorem credit_charge (hw : st.sendWindow.isSome = true) (hc : st.sends[k]? = some c)
    (hch : c.charged = false) (hle : ∀ sem ∈ st.sendWindow, c.chunk.length ≤ sem.permits) :
    ({ st with
        sends := st.sends.set k { c with charged := true }
        sendWindow := st.sendWindow.map fun sem =>
          { sem with permits := sem.permits - c.chunk.length } } : Stream).credit = st.credit := by
  obtain ⟨sem, hsem⟩ := Option.isSome_iff_exists.mp hw
  have hle := hle sem hsem
  have hsum := sum_map_set (g := SendCall.held) { c with charged := true } hc
  simp only [SendCall.held, hch, Bool.false_eq_true, if_false, if_true, Nat.add_zero] at hsum
  simp only [credit, inHand, permits, hsem, Option.map_some, Option.elim_some]
  omega

theorem credit_addPermits (hw : st.sendWindow.isSome = true) (n : Nat) :
    (st.addPermits n).credit = st.credit + n := by
  obtain ⟨sem, hsem⟩ := Option.isSome_iff_exists.mp hw
  simp only [addPermits, credit, inHand, permits, hsem, Option.map_some, Option.elim_some]
  omega

end Stream

/-! ## One stream across one step -/

namespace Endpoint

variable {e e' : Endpoint} {a : Act} {ev : List Event} {h : Nat} {st st' : Stream}

/-- The credit of stream `id` that goes with a dropped `send` call. -/
def forfeited (e : Endpoint) (a : Act) (id : UInt32) : Nat :=
  match a with
  | .sendDrop h k =>
    match e.objs[h]? with
    | some st => if st.id = id then st.sends[k]?.elim 0 SendCall.held else 0
    | none => 0
  | _ => 0

/-- The step reads a frame about the stream while the map does not hold it. -/
def readsUnregistered (e : Endpoint) (ev : List Event) (h : Nat) (id : UInt32) : Prop :=
  ∃ f ∈ readFrames ev, f.onStream = true ∧ f.streamId = id ∧ e.streams.lookup id ≠ some h

/-- Credit before and after a step. What is missing was forfeited by a dropped call, or the
writer is gone, or the stream has left the map. -/
def SendBalance (e : Endpoint) (a : Act) (ev : List Event) (h : Nat) (st st' : Stream) : Prop :=
  ∃ lost, st'.credit + dataIn st.id (queuedFrames ev) + lost =
      st.credit + creditIn st.id (readFrames ev) ∧
    (lost = e.forfeited a st.id ∨ e.cmdOpen = false ∨ e.readsUnregistered ev h st.id)

theorem SendBalance.of_eq (hf : e.forfeited a st.id = 0)
    (heq : st'.credit + dataIn st.id (queuedFrames ev) =
      st.credit + creditIn st.id (readFrames ev)) : e.SendBalance a ev h st st' :=
  ⟨0, heq, Or.inl hf.symm⟩

theorem credit_modify {h₀ : Nat} {f : Stream → Stream} (hst : e.objs[h]? = some st)
    (hst' : (e.objs.modify h₀ f)[h]? = some st') (hf : ∀ st : Stream, (f st).credit = st.credit) :
    st'.credit = st.credit := by
  rcases modify_cases hst hst' with ⟨-, rfl⟩ | ⟨-, rfl⟩
  · exact hf st
  · rfl

theorem credit_mapIdx {F : Nat → Stream → Stream} (hst : e.objs[h]? = some st)
    (hst' : (e.objs.mapIdx F)[h]? = some st')
    (hF : ∀ (h : Nat) (st : Stream), (F h st).credit = st.credit) : st'.credit = st.credit := by
  rw [List.getElem?_mapIdx, hst] at hst'
  cases hst'
  exact hF h st

/-- **The sender's credit across a step**: what it queues is paid for, what it reads is added. -/
theorem Effect.sendBalance (he : Effect e a e' ev) (hwf : e.Wf) (hnd : e.ids.Nodup)
    (hfc : e.flowcontrolOn = true) (hst : e.objs[h]? = some st) (hst' : e'.objs[h]? = some st') :
    e.SendBalance a ev h st st' := by
  have hlt := (List.getElem?_eq_some_iff.mp hst).1
  -- Another stream's frames are not about this one.
  have hother : ∀ {h₀ st₀}, e.objs[h₀]? = some st₀ → h₀ ≠ h → st₀.id ≠ st.id :=
    fun hst₀ hne hid => hne (eq_of_id_eq hnd hst₀ hst hid)
  have hwindow : ∀ {h₀ : Nat} {st₀ : Stream}, e.objs[h₀]? = some st₀ →
      st₀.sendWindow.isSome = true :=
    fun hst₀ => (hwf.window _ (List.mem_of_getElem? hst₀)).trans hfc
  cases he with
  | openRefused | openClosed | openDropped | sendEmpty | sendTooLarge | recvClosed | closeFailed
  | tookOpen | tookWrite | wrote | writerLeft | drainedWrite | writerPublished | replyLost
  | delivered | readerLeft | readerPublished | watchdogPublished | watchdogLeft =>
    cases hst.symm.trans hst'
    exact .of_eq rfl rfl
  | closeQueued | pinged =>
    cases hst.symm.trans hst'
    exact .of_eq rfl (by simp [queuedFrames, readFrames])
  | replied hr =>
    cases hst.symm.trans hst'
    refine .of_eq rfl ?_
    rcases hwf.reply hr with rfl | ⟨st₀, -, rfl⟩ <;> simp [queuedFrames, readFrames]
  | opened =>
    rw [List.getElem?_append_left hlt, hst] at hst'
    cases hst'
    exact .of_eq rfl (by simp [queuedFrames, readFrames])
  | readOpen _ hb =>
    rw [List.getElem?_append_left hlt, hst] at hst'
    cases hst'
    exact .of_eq rfl
      (by simp [queuedFrames, readFrames, creditBytes_eq_zero hb])
  | accepted | popped | returned | returnedClosed =>
    have hc := credit_modify hst hst' (fun _ => rfl)
    exact .of_eq rfl (by simp [queuedFrames, readFrames, hc])
  | credited _ _ _ _ _ _ hf =>
    subst hf
    have hc := credit_modify hst hst' (fun _ => rfl)
    exact .of_eq rfl (by simp [queuedFrames, readFrames, hc])
  | sendStarted _ _ hch =>
    have hc := credit_modify hst hst' (fun st => Stream.credit_startSend hch)
    exact .of_eq rfl (by simp [queuedFrames, readFrames, hc])
  | streamDropped | deliveryFailed | readerLeftDelivering =>
    have hc := credit_modify hst hst' Stream.credit_drop
    exact .of_eq rfl (by simp [queuedFrames, readFrames, hc])
  | drainedOpen =>
    have hc := credit_modify hst hst' Stream.credit_closeWindow
    exact .of_eq rfl (by simp [queuedFrames, readFrames, hc])
  | readPushed _ hb =>
    have hc := credit_modify hst hst' (fun _ => rfl)
    refine .of_eq rfl ?_
    rcases hb with hb | hb <;>
      simp [queuedFrames, readFrames, hc, creditBytes_eq_zero hb]
  | muxDropped =>
    have hc := credit_mapIdx hst hst' (fun h st => by split <;> simp)
    exact .of_eq rfl (by simp [queuedFrames, readFrames, hc])
  | writerClosed | readerClosed | watchdogFired =>
    have hc := credit_mapIdx hst hst' (fun h st => Stream.credit_closeWindow_if st)
    exact .of_eq rfl (by simp [queuedFrames, readFrames, hc])
  | tookClose =>
    simp only [removeStream_objs] at hst'
    have hc := credit_mapIdx hst hst' (fun h st => Stream.credit_closeWindow_if st)
    exact .of_eq rfl (by simp [queuedFrames, readFrames, hc])
  | readReset _ hb =>
    simp only [removeStream_objs] at hst'
    have hc := credit_mapIdx hst hst' (fun h st => Stream.credit_closeWindow_if st)
    refine .of_eq rfl ?_
    rcases hb with hb | hb <;>
      simp [queuedFrames, readFrames, hc, creditBytes_eq_zero hb]
  | readClose _ hb =>
    simp only [removeStream_objs] at hst'
    have hc := credit_mapIdx hst hst' (fun h st => Stream.credit_closeWindow_if st)
    exact .of_eq rfl
      (by simp [queuedFrames, readFrames, hc, creditBytes_eq_zero hb])
  | readPing _ hb | readOpenCap _ hb =>
    cases hst.symm.trans hst'
    exact .of_eq rfl (by simp [queuedFrames, readFrames, creditBytes_eq_zero hb])
  | readCritical _ _ hb =>
    cases hst.symm.trans hst'
    exact .of_eq rfl
      (by simp [queuedFrames, readFrames, creditBytes, hb .windowUpdate])
  | @charged h₀ k st₀ c hst₀ ho hc hch hroom =>
    refine .of_eq rfl ?_
    rcases modify_cases hst hst' with ⟨rfl, rfl⟩ | ⟨hne, rfl⟩
    · cases hst.symm.trans hst₀
      have hcr := Stream.credit_charge (hwindow hst) hc hch fun sem hsem => (hroom sem hsem).2
      simp [queuedFrames, readFrames, hcr]
    · rfl
  | @windowClosed h₀ k st₀ c _ hst₀ ho hc hch =>
    refine .of_eq rfl ?_
    rcases modify_cases hst hst' with ⟨rfl, rfl⟩ | ⟨hne, rfl⟩
    · cases hst.symm.trans hst₀
      have hcr := Stream.credit_endSend hc
      simp only [SendCall.held, hch, Bool.false_eq_true, if_false, Nat.add_zero] at hcr
      simp [queuedFrames, readFrames, hcr]
    · rfl
  | @queueClosed h₀ k st₀ c hst₀ ho hc hch hco =>
    rcases modify_cases hst hst' with ⟨rfl, rfl⟩ | ⟨hne, rfl⟩
    · cases hst.symm.trans hst₀
      exact ⟨c.held, by simp [queuedFrames, readFrames, Stream.credit_endSend hc],
        Or.inr (Or.inl hco)⟩
    · exact .of_eq rfl rfl
  | @sentLast h₀ k st₀ c hst₀ ho hc hch =>
    refine .of_eq rfl ?_
    rcases modify_cases hst hst' with ⟨rfl, rfl⟩ | ⟨hne, rfl⟩
    · cases hst.symm.trans hst₀
      have hcr := Stream.credit_endSend hc
      simp only [SendCall.held, hch, if_true] at hcr
      simp [queuedFrames, readFrames, hcr]
    · simp [queuedFrames, readFrames, hother hst₀ hne]
  | @sentMore h₀ k st₀ c hst₀ ho hc hch =>
    refine .of_eq rfl ?_
    rcases modify_cases hst hst' with ⟨rfl, rfl⟩ | ⟨hne, rfl⟩
    · cases hst.symm.trans hst₀
      have hcr := Stream.credit_setSend (nextChunk c.rest) hc
      simp only [SendCall.held, hch, if_true, nextChunk, Bool.false_eq_true, if_false,
        Nat.add_zero] at hcr
      simp [queuedFrames, readFrames, nextChunk, hcr]
    · simp [queuedFrames, readFrames, hother hst₀ hne]
  | @sendDropped h₀ k st₀ c hst₀ ho hc =>
    rcases modify_cases hst hst' with ⟨rfl, rfl⟩ | ⟨hne, rfl⟩
    · cases hst.symm.trans hst₀
      exact ⟨c.held, by simp [queuedFrames, readFrames, Stream.credit_endSend hc],
        Or.inl (by simp [forfeited, hst, hc])⟩
    · exact .of_eq (by simp [forfeited, hst₀, hother hst₀ hne]) rfl
  | @readCredit f h₀ credit _ hb hcr hl =>
    obtain ⟨st₀, hst₀, hid⟩ := hwf.map hl
    refine .of_eq rfl ?_
    rcases modify_cases hst hst' with ⟨rfl, rfl⟩ | ⟨hne, rfl⟩
    · cases hst.symm.trans hst₀
      simp [queuedFrames, readFrames, creditBytes, hb, hcr, hid,
        Stream.credit_addPermits (hwindow hst)]
    · have hne' : f.streamId ≠ st'.id := hid ▸ hother hst₀ hne
      simp [queuedFrames, readFrames, creditBytes, hne']
  | @readIgnored f _ _ _ _ _ hwu =>
    cases hst.symm.trans hst'
    by_cases hf : f.streamId = st.id ∧ baseType f.ftype = FrameType.windowUpdate.toU8
    · rcases hwu hf.2 with hnone | hnone
      · exact .of_eq rfl (by simp [queuedFrames, readFrames, creditBytes, hnone])
      · rw [hf.1] at hnone
        exact ⟨creditBytes st.id f, by simp [queuedFrames, readFrames],
          Or.inr (Or.inr ⟨f, by simp [readFrames], Frame.onStream_of_type hf.2 (by simp), hf.1,
            by simp [hnone]⟩)⟩
    · exact .of_eq rfl (by simp [queuedFrames, readFrames, creditBytes, hf])

/-- What the receiver owes before and after a step. What is missing went with a writer that is
gone, or the stream was not in the map before or after the step, or the clamp cut it. -/
def RecvBalance (e e' : Endpoint) (ev : List Event) (h : Nat) (st st' : Stream) : Prop :=
  ∃ lost, st'.uncredited + creditIn st.id (queuedFrames ev) + lost =
      st.uncredited + dataIn st.id (readFrames ev) ∧
    (lost = 0 ∨ e.cmdOpen = false ∨ e.readsUnregistered ev h st.id ∨
      e'.readsUnregistered ev h st.id ∨ MAX_CREDIT < st.uncredited)

theorem RecvBalance.of_eq (heq : st'.uncredited + creditIn st.id (queuedFrames ev) =
      st.uncredited + dataIn st.id (readFrames ev)) : RecvBalance e e' ev h st st' :=
  ⟨0, heq, Or.inl rfl⟩

theorem uncredited_modify {h₀ : Nat} {f : Stream → Stream} (hst : e.objs[h]? = some st)
    (hst' : (e.objs.modify h₀ f)[h]? = some st')
    (hf : ∀ st : Stream, (f st).uncredited = st.uncredited) : st'.uncredited = st.uncredited := by
  rcases modify_cases hst hst' with ⟨-, rfl⟩ | ⟨-, rfl⟩
  · exact hf st
  · rfl

theorem uncredited_mapIdx {F : Nat → Stream → Stream} (hst : e.objs[h]? = some st)
    (hst' : (e.objs.mapIdx F)[h]? = some st')
    (hF : ∀ (h : Nat) (st : Stream), (F h st).uncredited = st.uncredited) :
    st'.uncredited = st.uncredited := by
  rw [List.getElem?_mapIdx, hst] at hst'
  cases hst'
  exact hF h st

theorem uncredited_closeWindow_if {p : Prop} [Decidable p] (st : Stream) :
    (if p then st.closeWindow else st).uncredited = st.uncredited := by
  split <;> rfl

/-- **What the receiver owes across a step**: data it reads is added, credit it queues is
subtracted. -/
theorem Effect.recvBalance (he : Effect e a e' ev) (hwf : e.Wf) (hnd : e.ids.Nodup)
    (hfc : e.flowcontrolOn = true) (hst : e.objs[h]? = some st) (hst' : e'.objs[h]? = some st') :
    RecvBalance e e' ev h st st' := by
  have hlt := (List.getElem?_eq_some_iff.mp hst).1
  have hother : ∀ {h₀ st₀}, e.objs[h₀]? = some st₀ → h₀ ≠ h → st₀.id ≠ st.id :=
    fun hst₀ hne hid => hne (eq_of_id_eq hnd hst₀ hst hid)
  have hwindow : st.sendWindow.isSome = true :=
    (hwf.window _ (List.mem_of_getElem? hst)).trans hfc
  cases he with
  | openRefused | openClosed | openDropped | sendEmpty | sendTooLarge | recvClosed | closeFailed
  | tookOpen | tookWrite | wrote | writerLeft | drainedWrite | writerPublished | replyLost
  | delivered | readerLeft | readerPublished | watchdogPublished | watchdogLeft =>
    cases hst.symm.trans hst'
    exact .of_eq rfl
  | closeQueued | pinged =>
    cases hst.symm.trans hst'
    exact .of_eq (by simp [queuedFrames, readFrames])
  | replied hr =>
    cases hst.symm.trans hst'
    refine .of_eq ?_
    rcases hwf.reply hr with rfl | ⟨st₀, -, rfl⟩ <;> simp [queuedFrames, readFrames]
  | opened =>
    rw [List.getElem?_append_left hlt, hst] at hst'
    cases hst'
    exact .of_eq (by simp [queuedFrames, readFrames])
  | readOpen _ hb =>
    rw [List.getElem?_append_left hlt, hst] at hst'
    cases hst'
    exact .of_eq (by simp [queuedFrames, readFrames, dataBytes_eq_zero hb])
  | accepted | returned | sendStarted | charged | windowClosed | queueClosed | sendDropped
  | streamDropped | deliveryFailed | readerLeftDelivering | drainedOpen =>
    have hc := uncredited_modify hst hst' (fun _ => rfl)
    exact .of_eq (by simp [queuedFrames, readFrames, hc])
  | sentLast | sentMore =>
    have hc := uncredited_modify hst hst' (fun _ => rfl)
    exact .of_eq (by simp [queuedFrames, readFrames, hc])
  | readCredit _ hb =>
    have hc := uncredited_modify hst hst' (fun _ => rfl)
    exact .of_eq (by simp [queuedFrames, readFrames, hc, dataBytes_eq_zero hb])
  | muxDropped =>
    have hc := uncredited_mapIdx hst hst' (fun h st => by split <;> rfl)
    exact .of_eq (by simp [queuedFrames, readFrames, hc])
  | writerClosed | readerClosed | watchdogFired =>
    have hc := uncredited_mapIdx hst hst' (fun h st => uncredited_closeWindow_if st)
    exact .of_eq (by simp [queuedFrames, readFrames, hc])
  | tookClose =>
    simp only [removeStream_objs] at hst'
    have hc := uncredited_mapIdx hst hst' (fun h st => uncredited_closeWindow_if st)
    exact .of_eq (by simp [queuedFrames, readFrames, hc])
  | readClose _ hb =>
    simp only [removeStream_objs] at hst'
    have hc := uncredited_mapIdx hst hst' (fun h st => uncredited_closeWindow_if st)
    exact .of_eq (by simp [queuedFrames, readFrames, hc, dataBytes_eq_zero hb])
  | readPing _ hb | readOpenCap _ hb =>
    cases hst.symm.trans hst'
    exact .of_eq (by simp [queuedFrames, readFrames, dataBytes_eq_zero hb])
  | readCritical _ _ hb =>
    cases hst.symm.trans hst'
    exact .of_eq (by simp [queuedFrames, readFrames, dataBytes, hb .data, hb .datagram])
  | @popped h₀ st₀ chunk rx hst₀ ho _ hrx =>
    refine .of_eq ?_
    rcases modify_cases hst hst' with ⟨rfl, rfl⟩ | ⟨hne, rfl⟩
    · cases hst.symm.trans hst₀
      have hb := hwf.buffered st (List.mem_of_getElem? hst) (by simp [ho])
      rw [hrx, List.map_cons, List.sum_cons] at hb
      simp only [Stream.uncredited, hwindow, if_true, queuedFrames, readFrames,
        List.filterMap_nil, creditIn_nil, dataIn_nil]
      omega
    · rfl
  | @returnedClosed h₀ st₀ chunk hst₀ ho _ _ hco =>
    rcases modify_cases hst hst' with ⟨rfl, rfl⟩ | ⟨hne, rfl⟩
    · exact ⟨st.consumed, by simp [Stream.uncredited, queuedFrames, readFrames],
        Or.inr (Or.inl hco)⟩
    · exact .of_eq rfl
  | @credited h₀ st₀ chunk f hst₀ ho _ hle hco _ hf =>
    subst hf
    rcases modify_cases hst hst' with ⟨rfl, rfl⟩ | ⟨hne, rfl⟩
    · cases hst.symm.trans hst₀
      refine ⟨st.consumed - MAX_CREDIT, ?_, ?_⟩
      · simp only [queuedFrames, readFrames, List.filterMap_cons, List.filterMap_nil, creditIn_cons,
          creditIn_nil, dataIn_nil, creditBytes_windowUpdateFrame, if_true, toNat_regrant,
          Stream.uncredited]
        simp only [MAX_CREDIT, INIT_WINDOW]
        omega
      · simp only [Stream.uncredited]
        omega
    · exact .of_eq (by simp [queuedFrames, readFrames, hother hst₀ hne])
  | @readPushed f h₀ st₀ _ hb hl hst₀ =>
    obtain ⟨st₁, hst₁, hid⟩ := hwf.map hl
    cases hst₀.symm.trans hst₁
    refine .of_eq ?_
    rcases modify_cases hst hst' with ⟨rfl, rfl⟩ | ⟨hne, rfl⟩
    · cases hst.symm.trans hst₀
      simp only [Stream.uncredited, queuedFrames, readFrames, dataBytes, hid, hb, true_and,
        if_true, List.filterMap_cons, List.filterMap_nil, creditIn_nil, dataIn_nil, dataIn_cons]
      omega
    · have hne' : f.streamId ≠ st'.id := hid ▸ hother hst₀ hne
      simp [queuedFrames, readFrames, dataBytes, hne']
  | @readReset f h₀ st₀ _ _ hb hl hst₀ =>
    obtain ⟨st₁, hst₁, hid⟩ := hwf.map hl
    cases hst₀.symm.trans hst₁
    simp only [removeStream_objs] at hst'
    have hc := uncredited_mapIdx hst hst' (fun h st => uncredited_closeWindow_if st)
    by_cases hf : f.streamId = st.id
    · have hon : f.onStream = true := by
        rcases hb with hb | hb <;> exact Frame.onStream_of_type hb (by simp)
      exact ⟨dataBytes st.id f, by simp [queuedFrames, readFrames, hc],
        Or.inr (Or.inr (Or.inr (Or.inl ⟨f, by simp [readFrames], hon, hf, by simp [hf]⟩)))⟩
    · exact .of_eq (by simp [queuedFrames, readFrames, hc, dataBytes, hf])
  | @readIgnored f _ _ _ _ hdata =>
    cases hst.symm.trans hst'
    by_cases hf : f.streamId = st.id ∧ (baseType f.ftype = FrameType.data.toU8 ∨
        baseType f.ftype = FrameType.datagram.toU8)
    · have hon : f.onStream = true := by
        rcases hf.2 with hb | hb <;> exact Frame.onStream_of_type hb (by simp)
      refine ⟨dataBytes st.id f, by simp [queuedFrames, readFrames],
        Or.inr (Or.inr (Or.inl ⟨f, by simp [readFrames], hon, hf.1, ?_⟩))⟩
      rw [hf.1] at hdata
      rcases hdata hf.2 with hnone | ⟨h₀, hl, hnone⟩
      · simp [hnone]
      · rw [hl]
        rintro ⟨rfl⟩
        rw [hst] at hnone
        cases hnone
    · exact .of_eq (by simp [queuedFrames, readFrames, dataBytes, hf])

end Endpoint

end Leshiy.Mux
