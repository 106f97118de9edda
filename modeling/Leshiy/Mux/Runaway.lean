import Leshiy.Mux.Conservation

/-!
# The runaway guard

The reader resets a stream whose peer ignores its window: more than `MAX_BUFFERED` bytes, or a
full data channel. Between two unmodified endpoints with flow control the byte bound is never
reached, since a window is far below it. The channel is bounded in messages, which the window
does not count, so a slow consumer and enough small messages do fill it: `channelRoom` is what
keeps a compliant peer from being reset.
-/

namespace Leshiy.Mux

open Leshiy.Lib

namespace Sys

variable {s s' : Sys} {cap : Nat} {p : Role} {a : Act} {ev : List Event}

/-- The step reads no message into a full data channel of a stream in use. -/
def channelRoom (s : Sys) (act : Role × Act) : Prop :=
  match act with
  | (p, .readerTake f) =>
    baseType f.ftype = FrameType.data.toU8 ∨ baseType f.ftype = FrameType.datagram.toU8 →
      ∀ h ∈ (s.ep p).streams.lookup f.streamId, ∀ st ∈ (s.ep p).objs[h]?,
        st.owner ≠ .dropped → st.rx.length < DATA_CHANNEL
  | _ => True

/-- No step of the run takes the reset path, except for a stream that was dropped. -/
def resetFree (log : List (Taken Sys (Role × Act) (Role × Event))) : Prop :=
  ∀ t ∈ log, ∀ p h cause, (p, .reset h cause) ∈ t.ev → cause = .dropped

/-- The data a side reads fits the window of the stream. -/
theorem Ready.read_fits (hr : s.Ready) (hle : ∀ p id, s.credit p id ≤ INIT_WINDOW)
    (hm : s.Move p a s' ev) {f : Frame} (hf : f ∈ readFrames ev)
    (hb : baseType f.ftype = FrameType.data.toU8 ∨ baseType f.ftype = FrameType.datagram.toU8)
    {h : Nat} {st : Stream} (hst : (s.ep p).objs[h]? = some st) (hid : st.id = f.streamId) :
    st.buffered + f.payload.length ≤ INIT_WINDOW := by
  have hs := Endpoint.stream?_of_getElem? (hr p).2.1.nodup hst
  have hdata : f.payload.length ≤ dataIn st.id (s.flight p.peer) := by
    rw [hm.inn, dataIn_append]
    rcases hm.effect.reads with ⟨g, -, hread, -, -⟩ | ⟨-, hread⟩
    · rw [hread, List.mem_singleton] at hf
      subst hf
      simp [hread, dataBytes, hid, hb]
    · rw [hread] at hf
      cases hf
  have hbound := hle p.peer st.id
  simp only [credit, Role.peer_peer, Endpoint.recvSide, hs, Option.elim_some,
    Stream.uncredited] at hbound
  omega

/-- One step: it resets a stream in use exactly when it finds that stream's channel full. -/
theorem Ready.reset_iff (hr : s.Ready) (hle : ∀ p id, s.credit p id ≤ INIT_WINDOW)
    (hm : s.Move p a s' ev) :
    (∀ h cause, .reset h cause ∈ ev → cause = .dropped) ↔ s.channelRoom (p, a) := by
  have hwf := (hr p).1
  constructor
  · intro hfree
    cases a with
    | readerTake f =>
      intro hb h hl st hst ho
      by_contra hfull
      rw [Option.mem_def] at hl hst
      have hrefuse : ∃ cause, st.refuses f.payload.length = some cause ∧ cause ≠ .dropped := by
        simp only [Stream.refuses]
        split
        · exact ⟨_, rfl, by decide⟩
        · rw [if_pos (Nat.not_lt.mp hfull)]
          exact ⟨_, rfl, by decide⟩
      obtain ⟨cause, hcause, hne⟩ := hrefuse
      have hev : .reset h cause ∈ ev := by
        have heff := hm.effect
        generalize s'.ep p = e' at heff
        have hty : ∀ ty : FrameType, ty ≠ .data → ty ≠ .datagram → baseType f.ftype ≠ ty.toU8 := by
          intro ty h1 h2
          rcases hb with hb | hb <;> rw [hb, ne_eq, FrameType.toU8_inj]
          · exact Ne.symm h1
          · exact Ne.symm h2
        cases heff with
        | readReset _ _ hl' hst' hcause' =>
          cases hl.symm.trans hl'
          cases hst.symm.trans hst'
          cases hcause.symm.trans hcause'
          simp
        | readPushed _ _ hl' hst' hnone =>
          cases hl.symm.trans hl'
          cases hst.symm.trans hst'
          rw [hcause] at hnone
          cases hnone
        | readIgnored _ _ _ _ hd =>
          rcases hd hb with hnone | ⟨h', hl', hnone⟩
          · rw [hl] at hnone
            cases hnone
          · cases hl.symm.trans hl'
            rw [hst] at hnone
            cases hnone
        | readPing _ h | readOpenCap _ h | readOpen _ h | readCredit _ h | readClose _ h =>
          exact absurd h (hty _ (by decide) (by decide))
        | readCritical _ _ h =>
          rcases hb with hb | hb
          · exact absurd hb (h .data (by decide) (by decide))
          · exact absurd hb (h .datagram (by decide) (by decide))
      exact hne (hfree h cause hev)
    | _ => trivial
  · intro hroom h cause hev
    have heff := hm.effect
    generalize he' : s'.ep p = e' at heff
    cases heff with
    | @readReset f h' st cause' hi hb hl hst hcause =>
      simp only [List.mem_cons, reduceCtorEq, Event.reset.injEq, List.not_mem_nil, or_false,
        false_or] at hev
      obtain ⟨rfl, rfl⟩ := hev
      obtain ⟨st₁, hst₁, hid⟩ := hwf.map hl
      cases hst.symm.trans hst₁
      have hfits := hr.read_fits hle hm (f := f) (by simp [readFrames]) hb hst hid
      simp only [Stream.refuses] at hcause
      split at hcause
      · simp only [INIT_WINDOW] at hfits
        simp only [MAX_BUFFERED] at *
        omega
      · split at hcause
        · cases hcause
          rfl
        · next ho =>
          split at hcause
          · next hfull => exact absurd (hroom hb _ hl _ hst ho) (Nat.not_lt.mpr hfull)
          · cases hcause
    | _ => simp at hev

/-- **The runaway guard and compliant peers, exactly.** In every session with flow control, no
stream in use is reset if and only if no `Data` or `Datagram` frame is read for a stream whose
data channel already holds `DATA_CHANNEL` messages. The byte bound never fires. -/
theorem reset_free_iff {hello : Role → Hello} {s₀ : Sys}
    {log : List (Taken Sys (Role × Act) (Role × Event))} (h0 : connect hello = .ok s₀)
    (hfc : (s₀.ep .client).flowcontrolOn = true) (hrun : Exec (Sys.step cap) s₀ log s) :
    resetFree log ↔ Steps channelRoom log := by
  have hstep : ∀ t ∈ log, (∀ p h cause, (p, .reset h cause) ∈ t.ev → cause = .dropped) ↔
      channelRoom t.pre t.act := by
    intro t ht
    obtain ⟨log', s', hrun', -, hs⟩ := hrun.pre_reached t ht
    obtain ⟨hr, hle⟩ := credit_le_of_run h0 hfc hrun'
    obtain ⟨ev₀, hev, hm⟩ := step_move (p := t.act.1) (a := t.act.2) hs
    refine Iff.trans ?_ (hr.reset_iff hle hm)
    rw [hev]
    constructor
    · exact fun h k cause hk => h t.act.1 k cause (List.mem_map.mpr ⟨_, hk, rfl⟩)
    · intro h p k cause hk
      obtain ⟨ev, hev, heq⟩ := List.mem_map.mp hk
      cases heq
      exact h k cause hev
  exact forall₂_congr hstep

instance (s : Sys) (act : Role × Act) : Decidable (s.channelRoom act) :=
  match act with
  | (p, .readerTake f) => inferInstanceAs (Decidable
      (baseType f.ftype = FrameType.data.toU8 ∨ baseType f.ftype = FrameType.datagram.toU8 →
        ∀ h ∈ (s.ep p).streams.lookup f.streamId, ∀ st ∈ (s.ep p).objs[h]?,
          st.owner ≠ .dropped → st.rx.length < DATA_CHANNEL))
  | (_, .open ..) | (_, .openDropped _) | (_, .accept) | (_, .dropMux) | (_, .sendCall ..)
  | (_, .sendAcquire ..) | (_, .sendQueue ..) | (_, .sendDrop ..) | (_, .recvPop _) | (_, .recvReturn _)
  | (_, .recvClosed _) | (_, .close _) | (_, .dropStream _) | (_, .ping) | (_, .writerTake)
  | (_, .writerWrote) | (_, .writerExit) | (_, .writerDrain) | (_, .writerCloseAll) | (_, .writerPublish)
  | (_, .readerReply) | (_, .readerDeliver) | (_, .readerExit) | (_, .readerCloseAll)
  | (_, .readerPublish) | (_, .watchdogFire) | (_, .watchdogPublish) | (_, .watchdogExit) => isTrue trivial

theorem reset_free_two_sends : ∃ s₀ log s, connect offers = .ok s₀ ∧
    (s₀.ep .client).flowcontrolOn = true ∧ Exec (Sys.step 1) s₀ log s ∧ log.length = 16 ∧
    Steps channelRoom log ∧ resetFree log := by
  obtain ⟨s₀, log, s, h0, hrun, hfc, hlen, hroom⟩ :=
    connect_reaches offers 1 twoSends
      (fun s₀ log _ => (s₀.ep .client).flowcontrolOn = true ∧ log.length = 16 ∧
        Steps channelRoom log) (by decide +kernel)
  exact ⟨s₀, log, s, h0, hfc, hrun, hlen, hroom, (reset_free_iff h0 hfc hrun).mpr hroom⟩

/-! ## A slow consumer and small messages -/

/-- A client that has sent `n` single bytes on its stream. -/
def chattyClient (n : Nat) : Endpoint :=
  { offered .client with
    objs := [{ newStream 1 "a:1" .tcp true .caller with
      sendWindow := some ⟨INIT_WINDOW - n, false⟩ }]
    streams := AList.insert 1 0 ∅
    nextId := 3 }

/-- A stream that has received `n` single bytes and was not read from. -/
def backlogged (n : Nat) : Stream :=
  { newStream 1 "a:1" .tcp true .caller with
    rx := List.replicate n [0]
    buffered := n }

/-- The server that has accepted it. -/
def slowServer (n : Nat) : Endpoint :=
  { offered .server with
    objs := [backlogged n]
    streams := AList.insert 1 0 ∅ }

def byteFrame : Frame := dataFrame .tcp 1 [0]

theorem refuses_backlogged {n : Nat} (hn : n ≤ DATA_CHANNEL) :
    (backlogged n).refuses byteFrame.payload.length =
      if n < DATA_CHANNEL then none else some .full := by
  have hbuf : ¬ MAX_BUFFERED < (backlogged n).buffered + byteFrame.payload.length := by
    simp only [DATA_CHANNEL] at hn
    simp only [MAX_BUFFERED, backlogged, byteFrame, payload_dataFrame, List.length_singleton]
    omega
  have ho : (backlogged n).owner ≠ .dropped := by simp [backlogged, newStream]
  have hlen : (backlogged n).rx.length = n := by simp [backlogged]
  simp only [Stream.refuses, hbuf, ho, if_false, hlen]
  by_cases h : n < DATA_CHANNEL
  · simp [h, Nat.not_le.mpr h]
  · simp [h, Nat.not_lt.mp h]

theorem slowServer_lookup (n : Nat) :
    (slowServer n).streams.lookup byteFrame.streamId = some 0 := rfl

theorem slowServer_objs (n : Nat) : (slowServer n).objs[0]? = some (backlogged n) := rfl

theorem slowServer_read {n : Nat} (hn : n < DATA_CHANNEL) :
    (slowServer n).step (.readerTake byteFrame) = some (slowServer (n + 1), [.read byteFrame]) := by
  rw [readerTake_data rfl rfl (slowServer_lookup n) (slowServer_objs n), refuses_backlogged hn.le,
    if_pos hn]
  have hrx : List.replicate n ([0] : Bytes) ++ [[0]] = List.replicate (n + 1) [0] :=
    List.replicate_succ'.symm
  have hstream : ({ backlogged n with
      buffered := (backlogged n).buffered + byteFrame.payload.length
      rx := (backlogged n).rx ++ [byteFrame.payload] } : Stream) = backlogged (n + 1) := by
    simp only [backlogged, byteFrame, payload_dataFrame, hrx, List.length_singleton]
  have hobjs : (slowServer n).objs = [backlogged n] := rfl
  have hmodify : (slowServer n).modify 0 (fun st => { st with
      buffered := st.buffered + byteFrame.payload.length
      rx := st.rx ++ [byteFrame.payload] }) =
      { slowServer n with objs := [backlogged (n + 1)] } := by
    simp only [Endpoint.modify, hobjs, List.modify_zero_cons, hstream]
  rw [hmodify]
  rfl

theorem slowServer_reset :
    ∃ e', (slowServer DATA_CHANNEL).step (.readerTake byteFrame) =
      some (e', [.read byteFrame, .reset 0 .full]) := by
  rw [readerTake_data rfl rfl (slowServer_lookup _) (slowServer_objs _),
    refuses_backlogged le_rfl, if_neg (lt_irrefl _)]
  exact ⟨_, rfl⟩

/-- The client sends one byte; the transport carries it. -/
theorem send_byte {n : Nat} (e : Endpoint) (hn : n < INIT_WINDOW) :
    Reaches (Sys.step 1) (link (chattyClient n) e [])
      (link (chattyClient (n + 1)) e [byteFrame]) := by
  let calling (n : Nat) (charged : Bool) : Endpoint :=
    (chattyClient n).modify 0 fun st => { st with sends := [⟨[0], [], charged⟩] }
  have hcall : (chattyClient n).step (.sendCall 0 [0]) =
      some (calling n false, [.sendCalled 0 [0]]) := rfl
  have hacquire : (calling n false).step (.sendAcquire 0 0) = some (calling (n + 1) true, []) := by
    have hif : (calling n false).step (.sendAcquire 0 0) =
        if 1 ≤ INIT_WINDOW - n then some (calling (n + 1) true, []) else none := rfl
    rw [hif, if_pos (by omega)]
  have hqueue : (calling (n + 1) true).step (.sendQueue 0 0) =
      some ((chattyClient (n + 1)).enqueue (.write byteFrame), [.queued byteFrame, .sendOk 0]) :=
    rfl
  have htake : ((chattyClient (n + 1)).enqueue (.write byteFrame)).step .writerTake =
      some ({ chattyClient (n + 1) with writer := .writing byteFrame }, []) := rfl
  have h0 : Reaches (Sys.step 1) (link (chattyClient n) e []) _ := .refl
  have h1 := h0.snoc (link_client hcall (by simp) (by simp))
  have h2 := h1.snoc (link_client hacquire (by simp) (by simp))
  have h3 := h2.snoc (link_client hqueue (by simp) (by simp))
  have h4 := h3.snoc (link_client htake (by simp) (by simp))
  exact h4.snoc (link_write rfl (by decide))

/-- After `n` such bytes the server's channel holds `n` messages. -/
theorem backlog_reached {n : Nat} (hn : n ≤ DATA_CHANNEL) :
    Reaches (Sys.step 1) (link (chattyClient 0) (slowServer 0) [])
      (link (chattyClient n) (slowServer n) []) := by
  induction n with
  | zero => exact .refl
  | succ n ih =>
    have hwindow : n < INIT_WINDOW := by
      simp only [DATA_CHANNEL] at hn
      simp only [INIT_WINDOW]
      omega
    have hsent := (ih (Nat.le_of_succ_le hn)).trans (send_byte (slowServer n) hwindow)
    exact hsent.snoc (link_read (slowServer_read hn))

/-- The client opens a stream and the server accepts it. -/
theorem accepted_reached :
    Reaches (Sys.step 1) (link (offered .client) (offered .server) [])
      (link (chattyClient 0) (slowServer 0) []) := by
  let f := openFrame 1 "a:1"
  let opening : Endpoint :=
    { offered .client with
      nextId := 3
      objs := [newStream 1 "a:1" .tcp true .caller]
      cmdQ := [.open 1 "a:1" 0] }
  let opened : Endpoint := { chattyClient 0 with writer := .writing f }
  let delivering : Endpoint :=
    { slowServer 0 with
      objs := [newStream 1 "a:1" .tcp true .inTransit]
      reader := .delivering 0 }
  let waiting : Endpoint :=
    { slowServer 0 with
      objs := [newStream 1 "a:1" .tcp true .inTransit]
      incoming := [0] }
  have hopen : (offered .client).step (.open .tcp "a:1") =
      some (opening, [.queued f, .opened 0]) := rfl
  have htake : opening.step .writerTake = some (opened, []) := rfl
  have hread : (offered .server).step (.readerTake f) = some (delivering, [.read f]) :=
    readerTake_open rfl (by decide) (by decide)
  have hdeliver : delivering.step .readerDeliver = some (waiting, []) := rfl
  have haccept : waiting.step .accept = some (slowServer 0, [.opened 0]) := rfl
  have h0 : Reaches (Sys.step 1) (link (offered .client) (offered .server) []) _ := .refl
  have h1 := h0.snoc (link_client hopen (by simp) (by simp))
  have h2 := h1.snoc (link_client htake (by simp) (by simp))
  have h3 := h2.snoc (link_write (f := f) rfl (by decide))
  have h4 := h3.snoc (link_read hread)
  have h5 := h4.snoc (link_server hdeliver (by simp) (by simp))
  exact h5.snoc (link_server haccept (by simp) (by simp))

/-- A client that never exceeds its window is reset: it sends 1025 single bytes while the
server's application is not reading. -/
theorem compliant_peer_reset :
    ¬ ∀ (hello : Role → Hello) (cap : Nat) (s₀ s : Sys)
      (log : List (Taken Sys (Role × Act) (Role × Event))), connect hello = .ok s₀ →
      (s₀.ep .client).flowcontrolOn = true → Exec (Sys.step cap) s₀ log s → resetFree log := by
  intro hall
  have hfilled := accepted_reached.trans (backlog_reached le_rfl)
  obtain ⟨log, hrun⟩ := hfilled.trans (send_byte (slowServer DATA_CHANNEL) (by decide))
  obtain ⟨e', hreset⟩ := slowServer_reset
  have hfree := hall offers 1 _ _ _ connect_offers (by decide) (hrun.snoc (link_read hreset))
  have hcause := hfree _ (List.mem_append_right _ (List.mem_singleton.mpr rfl)) .server 0 .full
    (by simp)
  cases hcause

end Sys

end Leshiy.Mux
