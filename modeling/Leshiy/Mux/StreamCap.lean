import Mathlib.Data.List.Perm.Subperm
import Leshiy.Mux.Ids

/-!
# The cap on peer-initiated streams

The reader aborts the session when an `Open` arrives while its stream map holds
`MAX_CONCURRENT_PEER_STREAMS` entries. What the map will hold at that moment is decided by the
order of `Open` and `Close` frames on a FIFO link: `afterRead` replays it. A client that never
has that many streams without a `Close` keeps the server below the cap, as long as the server
opens no streams of its own, which the map counts as well.
-/

namespace Leshiy.Mux

open Leshiy.Lib

/-- The ids of the streams that are open once the frames are read, from those open before. -/
def afterRead (open_ : List UInt32) : List Frame → List UInt32
  | [] => open_
  | f :: fs =>
    if f.opens then afterRead (f.streamId :: open_) fs
    else if f.closes then afterRead (open_.erase f.streamId) fs
    else afterRead open_ fs

/-- Every `Open` among the frames is read below the cap. -/
def belowCap (open_ : List UInt32) : List Frame → Prop
  | [] => True
  | f :: fs =>
    if f.opens then
      open_.length < MAX_CONCURRENT_PEER_STREAMS ∧ belowCap (f.streamId :: open_) fs
    else if f.closes then belowCap (open_.erase f.streamId) fs
    else belowCap open_ fs

variable {l m : List UInt32} {fs gs : List Frame}

theorem afterRead_append : afterRead l (fs ++ gs) = afterRead (afterRead l fs) gs := by
  induction fs generalizing l with
  | nil => rfl
  | cons f fs ih =>
    rw [List.cons_append, afterRead, afterRead]
    split_ifs <;> rw [ih]

theorem belowCap_append :
    belowCap l (fs ++ gs) ↔ belowCap l fs ∧ belowCap (afterRead l fs) gs := by
  induction fs generalizing l with
  | nil => simp [belowCap, afterRead]
  | cons f fs ih =>
    rw [List.cons_append, belowCap, belowCap, afterRead]
    split_ifs <;> simp [ih, and_assoc]

/-- Fewer open streams before, fewer after. -/
theorem afterRead_subperm (h : l.Subperm m) : (afterRead l fs).Subperm (afterRead m fs) := by
  induction fs generalizing l m with
  | nil => exact h
  | cons f fs ih =>
    rw [afterRead, afterRead]
    split_ifs
    · exact ih ((List.subperm_cons _).mpr h)
    · exact ih (h.erase _)
    · exact ih h

theorem belowCap_subperm (h : l.Subperm m) (hm : belowCap m fs) : belowCap l fs := by
  induction fs generalizing l m with
  | nil => trivial
  | cons f fs ih =>
    rw [belowCap] at hm ⊢
    split_ifs at hm ⊢
    · exact ⟨h.length_le.trans_lt hm.1, ih ((List.subperm_cons _).mpr h) hm.2⟩
    · exact ih (h.erase _) hm
    · exact ih h hm

theorem belowCap_of_opens (h : ∀ f ∈ fs, f.opens = false) : belowCap l fs := by
  induction fs generalizing l with
  | nil => trivial
  | cons f fs ih =>
    have hf := h f List.mem_cons_self
    rw [belowCap, if_neg (by simp [hf])]
    split_ifs
    all_goals exact ih fun g hg => h g (List.mem_cons_of_mem _ hg)

/-- Without an `Open` no stream is added. -/
theorem afterRead_subperm_self (h : ∀ f ∈ fs, f.opens = false) : (afterRead l fs).Subperm l := by
  induction fs generalizing l with
  | nil => exact List.Subperm.refl _
  | cons f fs ih =>
    have hrest : ∀ g ∈ fs, g.opens = false := fun g hg => h g (List.mem_cons_of_mem _ hg)
    have hf := h f List.mem_cons_self
    rw [afterRead, if_neg (by simp [hf])]
    split_ifs
    · exact (ih hrest).trans List.erase_sublist.subperm
    · exact ih hrest

/-! ## One endpoint -/

namespace Endpoint

variable {e e' : Endpoint} {a : Act} {ev : List Event}

/-- The map after a frame holds no more than the frame leaves open. -/
theorem Effect.keys_read {f : Frame} (he : Effect e (.readerTake f) e' ev) :
    e'.streams.keys.Subperm (afterRead e.streams.keys [f]) := by
  have hkeep : ∀ {ty : FrameType}, baseType f.ftype = ty.toU8 → ty ≠ .open → ty ≠ .close →
      afterRead e.streams.keys [f] = e.streams.keys := by
    intro ty hb hopen hclose
    have h1 : f.opens = false := by
      simpa [Frame.opens, hb, FrameType.toU8_inj] using hopen
    have h2 : f.closes = false := by
      simpa [Frame.closes, hb, FrameType.toU8_inj] using hclose
    simp [afterRead, h1, h2]
  have hfull : e.streams.keys.Subperm (afterRead e.streams.keys [f]) ∨ f.closes = true := by
    by_cases hc : f.closes = true
    · exact Or.inr hc
    · by_cases ho : f.opens = true
      · exact Or.inl (by simpa [afterRead, ho] using List.Subperm.cons_self)
      · exact Or.inl (by simpa [afterRead, ho, hc] using List.Subperm.refl _)
  cases he with
  | readOpen _ hb =>
    have ho : f.opens = true := by simp [Frame.opens, hb]
    rw [afterRead, if_pos ho, afterRead, AList.keys_insert]
    exact (List.subperm_cons _).mpr List.erase_sublist.subperm
  | readClose _ hb =>
    have hc : f.closes = true := by simp [Frame.closes, hb]
    have ho : f.opens = false := by
      simp only [Frame.opens, hb, beq_eq_false_iff_ne, ne_eq, FrameType.toU8_inj]
      decide
    rw [removeStream_streams, AList.keys_erase]
    simpa [afterRead, ho, hc] using List.Subperm.refl _
  | readReset _ hb =>
    rw [removeStream_streams, AList.keys_erase]
    rcases hb with hb | hb <;> rw [hkeep hb (by decide) (by decide)]
    all_goals exact List.erase_sublist.subperm
  | readPushed _ hb =>
    rcases hb with hb | hb <;> rw [hkeep hb (by decide) (by decide)]
    all_goals exact List.Subperm.refl _
  | readPing _ hb => rw [hkeep hb (by decide) (by decide)]
  | readCredit _ hb =>
    rw [hkeep hb (by decide) (by decide)]
    exact List.Subperm.refl _
  | readIgnored _ _ _ hb =>
    refine hfull.resolve_right fun hc => hb ?_
    simpa [Frame.closes] using hc
  | readOpenCap _ hb =>
    refine hfull.resolve_right fun hc => ?_
    simp only [Frame.closes, hb, beq_iff_eq, FrameType.toU8_inj] at hc
    cases hc
  | readCritical _ _ hno =>
    refine hfull.resolve_right fun hc => hno .close (by decide) (by decide) ?_
    simpa [Frame.closes] using hc

/-- A step that reads nothing registers only the endpoint's own queued opens. -/
theorem Effect.keys_local (he : Effect e a e' ev) (hr : ∀ f, a ≠ .readerTake f)
    (hq : ∀ id target h, .open id target h ∉ e.cmdQ) :
    e'.streams.keys.Subperm e.streams.keys := by
  cases he with
  | readPing | readIgnored | readOpenCap | readOpen | readReset | readPushed | readCredit
  | readClose | readCritical => exact absurd rfl (hr _)
  | tookOpen _ hcmd =>
    rw [hcmd] at hq
    exact absurd List.mem_cons_self (hq _ _ _)
  | tookClose =>
    rw [removeStream_streams, AList.keys_erase]
    exact List.erase_sublist.subperm
  | writerClosed | readerClosed | watchdogFired =>
    rw [closeAllStreams_streams, AList.keys_empty]
    exact List.nil_subperm
  | _ => exact List.Subperm.refl _

theorem Effect.cmdQ_read {f : Frame} (he : Effect e (.readerTake f) e' ev) :
    e'.cmdQ = e.cmdQ := by
  cases he <;> simp

/-- The abort: an `Open` is read while the map is full. -/
theorem Effect.capAbort (he : Effect e a e' ev) (h : .capAbort ∈ ev) :
    ∃ f, readFrames ev = [f] ∧ f.opens = true ∧
      MAX_CONCURRENT_PEER_STREAMS ≤ e.streams.entries.length := by
  cases he with
  | @readOpenCap f _ hb hcap => exact ⟨f, rfl, by simp [Frame.opens, hb], hcap⟩
  | _ => simp at h

end Endpoint

/-! ## The session -/

namespace Sys

/-- Every stream in the server's map was opened by the client. -/
def countsPeerOnly (s : Sys) : Prop := ∀ id ∈ (s.ep .server).streams.keys, Role.client.owns id

/-- What keeps the server below its cap. `unclosed` are the ids of the streams the client has
opened and not closed. -/
structure Capped (s : Sys) (unclosed : List UInt32) : Prop where
  peerOnly : s.countsPeerOnly
  noOpen : ∀ id target h, .open id target h ∉ (s.ep .server).cmdQ
  below : belowCap (s.ep .server).streams.keys (s.flight .client)
  /-- While the client can still open streams. -/
  bound : (s.ep .client).cmdOpen = true →
    (afterRead (s.ep .server).streams.keys (s.flight .client)).Subperm unclosed

variable {s s' : Sys} {a : Act} {ev : List Event} {unclosed : List UInt32}

theorem capped_connect {hello : Role → Hello} {s₀ : Sys} (h0 : connect hello = .ok s₀) :
    s₀.Capped [] := by
  obtain ⟨hw, n, -, hc⟩ := connect_ok h0 .client
  obtain ⟨-, m, -, hs⟩ := connect_ok h0 .server
  have hkeys : (s₀.ep .server).streams.keys = [] := by
    rw [hs]
    rfl
  have hflight : s₀.flight .client = [] := by
    rw [flight, hw, hc]
    rfl
  constructor
  · rw [countsPeerOnly, hkeys]
    simp
  · rw [hs]
    simp [Endpoint.start]
  · rw [hkeys, hflight]
    trivial
  · rw [hkeys, hflight]
    exact fun _ => List.Subperm.refl _

/-- More streams may count as unclosed. -/
theorem Capped.mono {unclosed' : List UInt32} (hc : s.Capped unclosed)
    (hle : (s.ep .client).cmdOpen = true → unclosed.Subperm unclosed') : s.Capped unclosed' where
  peerOnly := hc.peerOnly
  noOpen := hc.noOpen
  below := hc.below
  bound := fun ho => (hc.bound ho).trans (hle ho)

/-- **A step of the client** changes what is unclosed as it changes what the server will see;
an `Open` is queued only below the cap. -/
theorem Capped.client (hc : s.Capped unclosed) (hm : s.Move .client a s' ev)
    (hopen : belowCap unclosed (queuedFrames ev)) :
    s'.Capped (afterRead unclosed (queuedFrames ev)) := by
  have hserver : s'.ep .server = s.ep .server := hm.other
  have hq : queuedFrames ev ≠ [] → (s.ep .client).cmdOpen = true := by
    intro hne
    obtain ⟨f, hf⟩ := List.exists_mem_of_ne_nil _ hne
    exact hm.effect.cmdOpen_of_queued hf
  constructor
  · rw [countsPeerOnly, hserver]
    exact hc.peerOnly
  · rw [hserver]
    exact hc.noOpen
  · rw [hserver]
    rcases hm.out with hout | ⟨-, -, rest, hrest⟩
    · rw [hout, belowCap_append]
      refine ⟨hc.below, ?_⟩
      by_cases hne : queuedFrames ev = []
      · rw [hne]
        trivial
      · exact belowCap_subperm (hc.bound (hq hne)) hopen
    · have hbelow := hc.below
      rw [← hrest, belowCap_append] at hbelow
      exact hbelow.1
  · intro ho
    rw [hserver]
    rcases hm.out with hout | ⟨rfl, -, -⟩
    · rw [hout, afterRead_append]
      exact afterRead_subperm (hc.bound (hm.effect.cmdOpen_mono ho))
    · rw [hm.effect.cmdOpen_writerExit] at ho
      cases ho

/-- **A step of the server** that opens no stream keeps it below the cap. -/
theorem Capped.server (hc : s.Capped unclosed) (hids : s.Ids .client)
    (hm : s.Move .server a s' ev) (ha : ∀ kind target, a ≠ .open kind target) :
    s'.Capped unclosed ∧ .capAbort ∉ ev := by
  have hclient : s'.ep .client = s.ep .client := hm.other
  have hinn : s.flight .client = readFrames ev ++ s'.flight .client := hm.inn
  have hbelow := hc.below
  rw [hinn, belowCap_append] at hbelow
  -- What the server registers is among what it has read.
  have hkeys : (s'.ep .server).streams.keys.Subperm
      (afterRead (s.ep .server).streams.keys (readFrames ev)) := by
    rcases hm.effect.reads with ⟨f, rfl, hread, -, -⟩ | ⟨hr, hread⟩
    · rw [hread]
      exact hm.effect.keys_read
    · rw [hread]
      exact hm.effect.keys_local hr hc.noOpen
  refine ⟨⟨?_, ?_, ?_, ?_⟩, ?_⟩
  · intro id hid
    have hmem := hkeys.subset hid
    rcases hm.effect.reads with ⟨f, rfl, hread, -, -⟩ | ⟨-, hread⟩
    · rw [hread, afterRead] at hmem
      split_ifs at hmem with ho hcl
      · rcases List.mem_cons.mp hmem with rfl | hmem
        · have hin : f ∈ s.flight .client := by simp [hinn, hread]
          exact (hids.opening _ (mem_openIds hin ho)).1
        · exact hc.peerOnly id hmem
      · exact hc.peerOnly id (List.mem_of_mem_erase hmem)
      · exact hc.peerOnly id hmem
    · rw [hread] at hmem
      exact hc.peerOnly id hmem
  · intro id target h hq
    rcases hm.effect.mem_cmdQ hq with hq | ⟨rfl, st, hst, -⟩
    · exact hc.noOpen id target h hq
    · -- Only a local open queues an `Open`.
      rcases hm.effect.created with hlen | ⟨kind, tgt, rfl, -⟩ | ⟨f, -, -, rfl, -⟩
      · have hlt := (List.getElem?_eq_some_iff.mp hst).1
        omega
      · exact ha _ _ rfl
      · exact hc.noOpen id target _ (hm.effect.cmdQ_read ▸ hq)
  · exact belowCap_subperm hkeys hbelow.2
  · rw [hclient]
    intro ho
    have hbound := hc.bound ho
    rw [hinn, afterRead_append] at hbound
    exact (afterRead_subperm hkeys).trans hbound
  · intro habort
    obtain ⟨f, hread, hopens, hfull⟩ := hm.effect.capAbort habort
    have hlt := hbelow.1
    rw [hread, belowCap, if_pos hopens] at hlt
    rw [AList.keys, List.keys, List.length_map] at hlt
    omega

end Sys

end Leshiy.Mux
