import Leshiy.Mux.Pair
import Leshiy.Mux.Credit

/-!
# The permits of a send window

The reader refills a send window with `Semaphore::add_permits`, which panics when the semaphore would
then hold more than `usize::MAX >> 3` permits. The clamp bounds one `WindowUpdate`, not their sum: the
permits of a window are its initial size, what the peer has granted and less what local sends have taken.
-/

namespace Leshiy.Mux

open Leshiy.Lib

/-- `usize::MAX >> 3`, where a `usize` has `w` bits. -/
def MAX_PERMITS (w : Nat) : Nat := (2 ^ w - 1) >>> 3

namespace Endpoint

variable {e e' : Endpoint} {a : Act} {ev : List Event} {h : Nat} {st st' : Stream}

/-- What a step adds to the send window of stream `h`. -/
def grant (e : Endpoint) (h : Nat) : Act → Nat
  | .readerTake f =>
    if baseType f.ftype = FrameType.windowUpdate.toU8 ∧ e.streams.lookup f.streamId = some h ∧
        (e.objs[h]?.any fun st => st.sendWindow.isSome) = true then
      (windowUpdateCredit f.payload).getD 0
    else 0
  | _ => 0

/-- What a step takes from it: the chunk of a call that gets its credit. -/
def charge (e : Endpoint) (h : Nat) : Act → Nat
  | .sendAcquire h' k =>
    if h' = h then
      match e.objs[h]? with
      | some st =>
        if (st.sendWindow.any fun sem => !sem.closed) = true then
          st.sends[k]?.elim 0 fun c => c.chunk.length
        else 0
      | none => 0
    else 0
  | _ => 0

/-- The step ends in the panic of `add_permits`. -/
def Panics (max : Nat) (e : Endpoint) (a : Act) : Prop :=
  ∃ (h : Nat) (st : Stream), e.objs[h]? = some st ∧ 0 < e.grant h a ∧ max < st.permits + e.grant h a

/-! ## One step -/

theorem permits_modify {h₀ : Nat} {f : Stream → Stream} (hst : e.objs[h]? = some st)
    (hst' : (e.objs.modify h₀ f)[h]? = some st') (hf : ∀ st : Stream, (f st).permits = st.permits) :
    st'.permits = st.permits := by
  rcases modify_cases hst hst' with ⟨-, rfl⟩ | ⟨-, rfl⟩
  · exact hf st
  · rfl

theorem permits_closeWindow (st : Stream) : st.closeWindow.permits = st.permits := by
  unfold Stream.closeWindow Stream.permits
  cases st.sendWindow <;> rfl

theorem permits_closeWindow_if {p : Prop} [Decidable p] :
    (if p then st.closeWindow else st).permits = st.permits := by
  split
  · exact permits_closeWindow st
  · rfl

theorem permits_mapIdx {F : Nat → Stream → Stream} (hst : e.objs[h]? = some st)
    (hst' : (e.objs.mapIdx F)[h]? = some st')
    (hF : ∀ (h : Nat) (st : Stream), (F h st).permits = st.permits) : st'.permits = st.permits := by
  rw [mapIdx_cases hst hst']
  exact hF h st

theorem grant_of_type {f : Frame} {ty : FrameType} (hb : baseType f.ftype = ty.toU8)
    (hty : ty ≠ .windowUpdate) : e.grant h (.readerTake f) = 0 := by
  refine if_neg ?_
  rintro ⟨hw, -⟩
  rw [hb, FrameType.toU8_inj] at hw
  exact hty hw

/-- **The permits of a window across a step.** -/
theorem Effect.permits (he : Effect e a e' ev) (hst : e.objs[h]? = some st)
    (hst' : e'.objs[h]? = some st') : st'.permits + e.charge h a = st.permits + e.grant h a := by
  have hlt := (List.getElem?_eq_some_iff.mp hst).1
  cases he with
  | openRefused | openClosed | openDropped | sendEmpty | sendTooLarge | recvClosed | closeFailed
  | tookOpen | tookWrite | wrote | writerLeft | drainedWrite | writerPublished | replyLost
  | delivered | readerLeft | readerPublished | watchdogPublished | watchdogLeft | closeQueued | pinged
  | replied =>
    cases hst.symm.trans hst'
    rfl
  | opened =>
    rw [List.getElem?_append_left hlt, hst] at hst'
    cases hst'
    rfl
  | accepted | popped | returned | returnedClosed | credited | sendStarted | streamDropped
  | deliveryFailed | readerLeftDelivering | queueClosed | sentLast | sentMore | sendDropped =>
    exact permits_modify hst hst' fun _ => rfl
  | drainedOpen => exact permits_modify hst hst' permits_closeWindow
  | muxDropped => exact permits_mapIdx hst hst' fun h st => by split <;> rfl
  | writerClosed | readerClosed | watchdogFired =>
    exact permits_mapIdx hst hst' fun _ _ => permits_closeWindow_if
  | tookClose =>
    simp only [removeStream_objs] at hst'
    exact permits_mapIdx hst hst' fun _ _ => permits_closeWindow_if
  | readPing _ hb | readOpenCap _ hb =>
    cases hst.symm.trans hst'
    rw [grant_of_type hb (by decide)]
    rfl
  | readOpen _ hb =>
    rw [List.getElem?_append_left hlt, hst] at hst'
    cases hst'
    rw [grant_of_type hb (by decide)]
    rfl
  | readClose _ hb =>
    simp only [removeStream_objs] at hst'
    rw [grant_of_type hb (by decide)]
    exact permits_mapIdx hst hst' fun _ _ => permits_closeWindow_if
  | readReset _ hb =>
    simp only [removeStream_objs] at hst'
    rw [show e.grant h (.readerTake _) = 0 by
      rcases hb with hb | hb <;> exact grant_of_type hb (by decide)]
    exact permits_mapIdx hst hst' fun _ _ => permits_closeWindow_if
  | readPushed _ hb =>
    rw [show e.grant h (.readerTake _) = 0 by
      rcases hb with hb | hb <;> exact grant_of_type hb (by decide)]
    exact permits_modify hst hst' fun _ => rfl
  | readCritical _ _ hb =>
    cases hst.symm.trans hst'
    simp [grant, charge, hb .windowUpdate]
  | @readIgnored f _ _ _ _ _ hwu =>
    cases hst.symm.trans hst'
    have hnone : e.grant h (.readerTake f) = 0 := by
      simp only [grant]
      split_ifs with hw
      · rcases hwu hw.1 with hcr | hl
        · rw [hcr]
          rfl
        · rw [hl] at hw
          cases hw.2.1
      · rfl
    rw [hnone]
    rfl
  | @charged h₀ k st₀ c hst₀ ho hc hch hroom =>
    rcases modify_cases hst hst' with ⟨rfl, rfl⟩ | ⟨hne, rfl⟩
    · cases hst.symm.trans hst₀
      cases hw : st.sendWindow with
      | none => simp [Stream.permits, charge, grant, hst, hw]
      | some sem =>
        obtain ⟨hopen, hle⟩ := hroom sem hw
        simp only [Stream.permits, charge, grant, hst, hw, hc, hopen, if_true, Option.map_some,
          Option.elim_some, Option.any_some, Bool.not_false]
        omega
    · simp [charge, grant, hne]
  | @windowClosed h₀ k st₀ c sem hst₀ ho hc hch hsem hclosed =>
    have hpermits := permits_modify hst hst' fun _ => rfl
    rw [hpermits]
    by_cases hh : h₀ = h
    · subst hh
      cases hst.symm.trans hst₀
      simp [charge, grant, hst, hsem, hclosed]
    · simp [charge, grant, hh]
  | @readCredit f h₀ credit _ hb hcr hl =>
    rcases modify_cases hst hst' with ⟨rfl, rfl⟩ | ⟨hne, rfl⟩
    · cases hw : st.sendWindow with
      | none => simp [Stream.permits, Stream.addPermits, charge, grant, hst, hw]
      | some sem => simp [Stream.permits, Stream.addPermits, charge, grant, hst, hw, hb, hl, hcr]
    · simp [charge, grant, hl, hne]

/-- A stream that is not there yet is granted nothing and charged nothing. -/
theorem unknown_step (hwf : e.Wf) (hnone : e.objs[h]? = none) : e.grant h a = 0 ∧ e.charge h a = 0 := by
  constructor
  · cases a with
    | readerTake f =>
      refine if_neg ?_
      rintro ⟨-, hl, -⟩
      obtain ⟨st, hst, -⟩ := hwf.map hl
      rw [hnone] at hst
      cases hst
    | _ => rfl
  · cases a with
    | sendAcquire h' k =>
      show (if h' = h then _ else 0) = 0
      rw [hnone]
      exact ite_self _
    | _ => rfl

theorem Effect.permits_new (he : Effect e a e' ev) (hnone : e.objs[h]? = none)
    (hst' : e'.objs[h]? = some st') : st'.permits = if e.flowcontrolOn then INIT_WINDOW else 0 := by
  have hnew : ∀ {id : UInt32} {target : String} {kind : StreamKind} {owner : Owner},
      (e.objs ++ [newStream id target kind e.flowcontrolOn owner])[h]? = some st' →
      st'.permits = if e.flowcontrolOn then INIT_WINDOW else 0 := by
    intro id target kind owner hget
    rw [List.getElem?_append_right (List.getElem?_eq_none_iff.mp hnone)] at hget
    obtain rfl := List.mem_singleton.mp (List.mem_of_getElem? hget)
    unfold Stream.permits newStream
    cases e.flowcontrolOn <;> rfl
  rcases he.created with hlen | ⟨_, _, -, -, -, -, -, -, hobjs⟩ | ⟨_, _, _, -, -, -, hobjs⟩
  · rw [List.getElem?_eq_none (hlen ▸ List.getElem?_eq_none_iff.mp hnone)] at hst'
    cases hst'
  · exact hnew (hobjs ▸ hst')
  · exact hnew (hobjs ▸ hst')

/-! ## Every run -/

/-- What a stream was granted in a run. -/
def granted (h : Nat) (log : List (Taken Endpoint Act Event)) : Nat :=
  (log.map fun t => t.pre.grant h t.act).sum

/-- What its local sends have taken. -/
def charged (h : Nat) (log : List (Taken Endpoint Act Event)) : Nat :=
  (log.map fun t => t.pre.charge h t.act).sum

variable {negotiated : Negotiated} {role : Role} {log : List (Taken Endpoint Act Event)}

theorem wf_run (hrun : Exec step (start negotiated role) log e) : e.Wf :=
  hrun.state_inv (wf_start negotiated role) fun _ _ _ _ hwf hs => (step_effect hs).wf hwf

theorem flowcontrolOn_run (hrun : Exec step (start negotiated role) log e) :
    e.flowcontrolOn = (start negotiated role).flowcontrolOn :=
  hrun.state_inv (P := fun e => e.flowcontrolOn = (start negotiated role).flowcontrolOn) rfl
    fun _ _ _ _ hfc hs => (step_effect hs).flowcontrolOn.trans hfc

theorem unknown_run (hrun : Exec step (start negotiated role) log e) (hnone : e.objs[h]? = none) :
    granted h log = 0 ∧ charged h log = 0 := by
  induction hrun with
  | nil => exact ⟨rfl, rfl⟩
  | @snoc log e₁ e₂ a ev hrun hs ih =>
    have hnone₁ : e₁.objs[h]? = none := by
      cases hst : e₁.objs[h]? with
      | none => rfl
      | some st =>
        obtain ⟨st', hst', -⟩ := (step_effect hs).change hst
        rw [hnone] at hst'
        cases hst'
    obtain ⟨hg, hc⟩ := ih hnone₁
    obtain ⟨hg', hc'⟩ := unknown_step (a := a) (wf_run hrun) hnone₁
    simp only [granted, charged, List.map_append, List.sum_append, List.map_singleton, List.sum_singleton] at hg hc ⊢
    omega

/-- **The permits of a window** are its initial size and what was granted, less what was charged. -/
theorem permits_run (hrun : Exec step (start negotiated role) log e)
    (hfc : (start negotiated role).flowcontrolOn = true) (hst : e.objs[h]? = some st) :
    st.permits + charged h log = INIT_WINDOW + granted h log := by
  induction hrun generalizing st with
  | nil => simp [start] at hst
  | @snoc log e₁ e₂ a ev hrun hs ih =>
    have hgranted : granted h (log ++ [⟨e₁, a, ev⟩]) = granted h log + e₁.grant h a := by simp [granted]
    have hcharged : charged h (log ++ [⟨e₁, a, ev⟩]) = charged h log + e₁.charge h a := by simp [charged]
    cases hst₁ : e₁.objs[h]? with
    | none =>
      obtain ⟨hg, hc⟩ := unknown_run hrun hst₁
      obtain ⟨hg', hc'⟩ := unknown_step (a := a) (wf_run hrun) hst₁
      have hnew := (step_effect hs).permits_new hst₁ hst
      rw [flowcontrolOn_run hrun, hfc, if_pos rfl] at hnew
      omega
    | some st₁ =>
      have hstep := (step_effect hs).permits hst₁ hst
      have hold := ih hst₁
      omega

/-- Who is granted something has a window. -/
theorem exists_of_grant (hpos : 0 < e.grant h a) :
    ∃ st, e.objs[h]? = some st ∧ st.sendWindow.isSome = true := by
  cases a with
  | readerTake f =>
    simp only [grant] at hpos
    split_ifs at hpos with hw
    · exact (Option.any_eq_true _ _).mp hw.2.2
    · omega
  | _ => cases hpos

theorem panics_iff {max : Nat} (hrun : Exec step (start negotiated role) log e) :
    e.Panics max a ↔ ∃ h, 0 < e.grant h a ∧
      max + charged h log < INIT_WINDOW + granted h log + e.grant h a := by
  have hpermits : ∀ {h : Nat} {st : Stream}, e.objs[h]? = some st → 0 < e.grant h a →
      st.permits + charged h log = INIT_WINDOW + granted h log := by
    intro h st hst hpos
    obtain ⟨st₁, hst₁, hw⟩ := exists_of_grant hpos
    refine permits_run hrun ?_ hst
    rw [← flowcontrolOn_run hrun, ← (wf_run hrun).window st₁ (List.mem_of_getElem? hst₁)]
    exact hw
  constructor
  · rintro ⟨h, st, hst, hpos, hlt⟩
    have heq := hpermits hst hpos
    exact ⟨h, hpos, by omega⟩
  · rintro ⟨h, hpos, hlt⟩
    obtain ⟨st, hst, -⟩ := exists_of_grant hpos
    have heq := hpermits hst hpos
    exact ⟨h, st, hst, hpos, by omega⟩

theorem init_window_le {w : Nat} (hw : w = 32 ∨ w = 64) : INIT_WINDOW ≤ MAX_PERMITS w := by
  rcases hw with rfl | rfl <;> decide

theorem permits_le_run {max : Nat} (hmax : INIT_WINDOW ≤ max)
    (hrun : Exec step (start negotiated role) log e) (hfree : ∀ t ∈ log, ¬ t.pre.Panics max t.act) :
    ∀ st ∈ e.objs, st.permits ≤ max := by
  induction hrun with
  | nil => simp [start]
  | @snoc log e₁ e₂ a ev hrun hs ih =>
    intro st hst
    obtain ⟨h, hst⟩ := List.mem_iff_getElem?.mp hst
    cases hst₁ : e₁.objs[h]? with
    | none =>
      rw [(step_effect hs).permits_new hst₁ hst]
      split
      · exact hmax
      · exact Nat.zero_le _
    | some st₁ =>
      have hstep := (step_effect hs).permits hst₁ hst
      have hold := ih (fun t ht => hfree t (List.mem_append_left _ ht)) st₁ (List.mem_of_getElem? hst₁)
      by_cases hpos : 0 < e₁.grant h a
      · by_contra hlt
        refine hfree ⟨e₁, a, ev⟩ (by simp) ⟨h, st₁, hst₁, hpos, ?_⟩
        show max < st₁.permits + e₁.grant h a
        omega
      · omega

/-- **The permits of a send window** over every run against any peer: the reader does not panic exactly as
long as each `WindowUpdate` that it takes, with all that the stream was granted before, is within the
maximum and what the local sends have taken. Without a panic no window is ever above the maximum. -/
theorem no_panic_iff {w : Nat} (hw : w = 32 ∨ w = 64) (hrun : Exec step (start negotiated role) log e) :
    ((∀ t ∈ log, ¬ t.pre.Panics (MAX_PERMITS w) t.act) ↔
      ∀ before t after h, log = before ++ t :: after → 0 < t.pre.grant h t.act →
        INIT_WINDOW + granted h before + t.pre.grant h t.act ≤ MAX_PERMITS w + charged h before) ∧
    ((∀ t ∈ log, ¬ t.pre.Panics (MAX_PERMITS w) t.act) → ∀ st ∈ e.objs, st.permits ≤ MAX_PERMITS w) := by
  refine ⟨⟨?_, ?_⟩, permits_le_run (init_window_le hw) hrun⟩
  · rintro hfree before t after h rfl hpos
    by_contra hlt
    refine hfree t (by simp) ((panics_iff hrun.split.1).mpr ⟨h, hpos, ?_⟩)
    omega
  · intro hle t ht hpanics
    obtain ⟨before, after, rfl⟩ := List.append_of_mem ht
    obtain ⟨h, hpos, hlt⟩ := (panics_iff hrun.split.1).mp hpanics
    have hbound := hle before t after h rfl hpos
    omega

/-- The clamp bounds what one frame grants. -/
theorem grant_le : e.grant h a ≤ MAX_CREDIT := by
  cases a with
  | readerTake f =>
    simp only [grant]
    split_ifs
    · unfold windowUpdateCredit
      split_ifs
      · exact Nat.min_le_right _ _
      · exact Nat.zero_le _
    · exact Nat.zero_le _
  | _ => exact Nat.zero_le _

theorem granted_le (h : Nat) (log : List (Taken Endpoint Act Event)) :
    granted h log ≤ log.length * MAX_CREDIT := by
  induction log with
  | nil => exact Nat.zero_le _
  | cons t log ih =>
    have hle := grant_le (e := t.pre) (h := h) (a := t.act)
    simp only [granted, List.map_cons, List.sum_cons, List.length_cons, Nat.succ_mul] at ih ⊢
    omega

/-! ## A peer that only grants -/

/-- A client that was granted `n` full windows on its stream. -/
def grantedClient (n : Nat) : Endpoint :=
  { Sys.offered .client with
    objs := [{ newStream 1 "a:1" .tcp true .caller with
      sendWindow := some ⟨INIT_WINDOW + n * MAX_CREDIT, false⟩ }]
    streams := AList.insert 1 0 ∅
    nextId := 3
    writer := .writing (openFrame 1 "a:1") }

def fullGrant : Frame := windowUpdateFrame 1 (UInt32.ofNat MAX_CREDIT)

theorem windowUpdateCredit_fullGrant : windowUpdateCredit fullGrant.payload = some MAX_CREDIT :=
  (windowUpdateCredit_frame 1 _).trans rfl

theorem grantedClient_read (n : Nat) :
    (grantedClient n).step (.readerTake fullGrant) = some (grantedClient (n + 1), [.read fullGrant]) := by
  have hb : baseType fullGrant.ftype = FrameType.windowUpdate.toU8 := baseType_toU8 .windowUpdate
  have hty : ∀ ty : FrameType, ty ≠ .windowUpdate → FrameType.windowUpdate.toU8 ≠ ty.toU8 := by
    intro ty hne
    rw [ne_eq, FrameType.toU8_inj]
    exact Ne.symm hne
  have hl : (grantedClient n).streams.lookup fullGrant.streamId = some 0 := rfl
  have hmodify : (grantedClient n).modify 0 (fun st => st.addPermits MAX_CREDIT) = grantedClient (n + 1) := by
    have hsucc : INIT_WINDOW + n * MAX_CREDIT + MAX_CREDIT = INIT_WINDOW + (n + 1) * MAX_CREDIT := by
      rw [Nat.succ_mul, Nat.add_assoc]
    simp only [grantedClient, Endpoint.modify, List.modify_zero_cons, Stream.addPermits, Option.map_some, hsucc]
  simp only [step, readerTake, show (grantedClient n).reader = .idle from rfl, if_true, onFrame, hb,
    hty .ping (by decide), hty .pong (by decide), hty .open (by decide), hty .data (by decide),
    hty .datagram (by decide), or_self, if_false, onWindowUpdate, windowUpdateCredit_fullGrant, hl, hmodify]

/-- The client opens a stream, and its writer registers it. -/
theorem opened_reached : ∃ log, Exec step (Sys.offered .client) log (grantedClient 0) ∧ log.length = 2 := by
  let opening : Endpoint := { Sys.offered .client with
    nextId := 3
    objs := [newStream 1 "a:1" .tcp true .caller]
    cmdQ := [.open 1 "a:1" 0] }
  have hopen : (Sys.offered .client).step (.open .tcp "a:1") =
      some (opening, [.queued (openFrame 1 "a:1"), .opened 0]) := rfl
  have htake : opening.step .writerTake = some (grantedClient 0, []) := rfl
  exact ⟨_, (Exec.nil.snoc hopen).snoc htake, rfl⟩

theorem granted_reached (n : Nat) : Reaches step (Sys.offered .client) (grantedClient n) := by
  induction n with
  | zero =>
    obtain ⟨log, hrun, -⟩ := opened_reached
    exact ⟨log, hrun⟩
  | succ n ih => exact ih.snoc (grantedClient_read n)

/-- One full grant is within the maximum. -/
theorem no_panic_iff_granted : ∃ log e, Exec step (Sys.offered .client) log e ∧ e = grantedClient 1 ∧
    ∀ st ∈ e.objs, st.permits ≤ MAX_PERMITS 64 := by
  obtain ⟨log, hrun, hlen⟩ := opened_reached
  have hrun₁ := hrun.snoc (grantedClient_read 0)
  have hiff := no_panic_iff (.inr rfl) hrun₁
  refine ⟨_, _, hrun₁, rfl, hiff.2 (hiff.1.mpr fun before t after h hlog _ => ?_)⟩
  have hshort : before.length + after.length + 1 = 3 := by
    have hlength := congrArg List.length hlog
    simp only [List.length_append, List.length_cons, List.length_nil, hlen] at hlength
    omega
  have hgranted := granted_le h before
  have hgrant := grant_le (e := t.pre) (h := h) (a := t.act)
  have hmax : INIT_WINDOW + 3 * MAX_CREDIT ≤ MAX_PERMITS 64 := by decide
  have hbefore : before.length * MAX_CREDIT ≤ 2 * MAX_CREDIT := Nat.mul_le_mul_right _ (by omega)
  omega

theorem grantedClient_permits (n : Nat) :
    ∃ st ∈ (grantedClient n).objs, st.permits = INIT_WINDOW + n * MAX_CREDIT := by
  have hwindow : ∃ st ∈ (grantedClient n).objs,
      st.sendWindow = some ⟨INIT_WINDOW + n * MAX_CREDIT, false⟩ := ⟨_, List.mem_cons_self, rfl⟩
  obtain ⟨st, hst, hsend⟩ := hwindow
  refine ⟨st, hst, ?_⟩
  unfold Stream.permits
  rw [hsend, Option.elim_some]

theorem permits_exceed {w : Nat} (n : Nat) (hn : MAX_PERMITS w < INIT_WINDOW + n * MAX_CREDIT) :
    ¬ ∀ negotiated role log (e : Endpoint), Exec step (start negotiated role) log e →
      ∀ st ∈ e.objs, st.permits ≤ MAX_PERMITS w := by
  intro hclaim
  obtain ⟨log, hrun⟩ := granted_reached n
  obtain ⟨st, hst, hpermits⟩ := grantedClient_permits n
  have hle := hclaim _ _ log (grantedClient n) hrun st hst
  omega

/-- On 32 bits it takes a peer 2047 frames. -/
theorem permits_not_bounded :
    (¬ ∀ negotiated role log (e : Endpoint), Exec step (start negotiated role) log e →
      ∀ st ∈ e.objs, st.permits ≤ MAX_PERMITS 32) ∧
    ¬ ∀ negotiated role log (e : Endpoint), Exec step (start negotiated role) log e →
      ∀ st ∈ e.objs, st.permits ≤ MAX_PERMITS 64 :=
  ⟨permits_exceed 2047 (by decide), permits_exceed (2 ^ 43 - 1) (by decide)⟩

end Endpoint

end Leshiy.Mux
