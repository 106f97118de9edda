import Leshiy.Lib.Run
import Leshiy.Mux.Invariant

/-!
# Session teardown

Once the closed flag is published and the tasks have finished, no `send` may wait for credit.
Every window is closed by whoever holds the stream's sink: `close_all_streams` for the map, the
writer's drain for a queued open, the `Close` paths for one stream.

A sink leaves the map in one more way: `map.insert` under an id that the map already holds
displaces it, and its window is closed by nobody. The teardown is complete for every run that
never does that, whatever else the peer sends.
-/

namespace Leshiy.Mux

open Leshiy.Lib

namespace Endpoint

variable {e e' : Endpoint} {a : Act} {ev : List Event}

/-- Published, and every task past its cleanup. -/
def tornDown (e : Endpoint) : Prop :=
  e.closed = true ∧ e.writer = .done ∧ e.reader = .done ∧ e.watchdog = .done

instance (e : Endpoint) : Decidable e.tornDown :=
  inferInstanceAs (Decidable (_ ∧ _ ∧ _ ∧ _))

/-- The step registers no stream under an id that the map holds. -/
def noReuse (e : Endpoint) : Act → Prop
  | .readerTake f =>
    baseType f.ftype = FrameType.open.toU8 → e.streams.lookup f.streamId = none
  | .writerTake =>
    match e.cmdQ with
    | .open id _ _ :: _ => e.streams.lookup id = none
    | _ => True
  | _ => True

instance (e : Endpoint) (a : Act) : Decidable (e.noReuse a) := by
  unfold noReuse
  split
  · infer_instance
  · split <;> infer_instance
  · infer_instance

/-! ## Where sinks are -/

/-- After a step that reuses no id, a sink is still held or its window was closed. -/
theorem Effect.sinkAlive_or_released (he : Effect e a e' ev) (hn : e.noReuse a) {h : Nat}
    {st : Stream} (hst : e.objs[h]? = some st) (hs : e.sinkAlive h = true) :
    e'.sinkAlive h = true ∨ ∃ st', e'.objs[h]? = some st' ∧ st'.released := by
  rw [sinkAlive_iff] at hs
  -- Removing the sink of one id closes the window of the handle it held, and no other.
  have hremove : ∀ id, (∃ id', (e.streams.erase id).lookup id' = some h) ∨
      (∃ id target, .open id target h ∈ e.cmdQ) ∨
      ∃ st', (e.objs.mapIdx fun h st => if e.streams.lookup id = some h then st.closeWindow
        else st)[h]? = some st' ∧ st'.released := by
    intro id
    rcases hs with ⟨id', hl⟩ | hq
    · by_cases hid : id' = id
      · subst hid
        exact Or.inr (Or.inr ⟨st.closeWindow, by simp [hst, hl], by simp⟩)
      · exact Or.inl ⟨id', by rw [lookup_erase_eq, if_neg hid, hl]⟩
    · exact Or.inr (Or.inl hq)
  -- Draining the map closes every window it held.
  have hdrain : (∃ id target, .open id target h ∈ e.cmdQ) ∨
      ∃ st', e.closeAllStreams.objs[h]? = some st' ∧ st'.released := by
    rcases hs with hl | hq
    · exact Or.inr ⟨st.closeWindow, by simp [hst, mem_sinks.mpr hl], by simp⟩
    · exact Or.inl hq
  cases he with
  | tookOpen hw hq =>
    refine Or.inl (sinkAlive_iff.mpr ?_)
    simp only [noReuse, hq] at hn
    simp only [lookup_insert_eq]
    rcases hs with ⟨id', hl⟩ | ⟨id', t, hm⟩
    · refine Or.inl ⟨id', ?_⟩
      rw [if_neg, hl]
      rintro rfl
      rw [hn] at hl
      cases hl
    · rw [hq] at hm
      rcases List.mem_cons.mp hm with hm | hm
      · cases hm
        exact Or.inl ⟨_, if_pos rfl⟩
      · exact Or.inr ⟨id', t, hm⟩
  | readOpen hr hb =>
    refine Or.inl (sinkAlive_iff.mpr ?_)
    have hfree := hn hb
    simp only [lookup_insert_eq]
    rcases hs with ⟨id', hl⟩ | hq
    · refine Or.inl ⟨id', ?_⟩
      rw [if_neg, hl]
      rintro rfl
      rw [hfree] at hl
      cases hl
    · exact Or.inr hq
  | @tookClose f q hw hq =>
    rw [sinkAlive_iff]
    rcases hremove f.streamId with hl | ⟨id, t, hm⟩ | hrel
    · exact Or.inl (Or.inl (by simpa using hl))
    · rw [hq] at hm
      exact Or.inl (Or.inr ⟨id, t, by simpa using hm⟩)
    · exact Or.inr (by simpa using hrel)
  | @readReset f | @readClose f =>
    rw [sinkAlive_iff]
    rcases hremove f.streamId with hl | hm | hrel
    · exact Or.inl (Or.inl (by simpa using hl))
    · exact Or.inl (Or.inr (by simpa using hm))
    · exact Or.inr (by simpa using hrel)
  | writerClosed | readerClosed | watchdogFired =>
    rw [sinkAlive_iff]
    rcases hdrain with hm | hrel
    · exact Or.inl (Or.inr (by simpa using hm))
    · exact Or.inr (by simpa using hrel)
  | drainedOpen hw hq =>
    rw [sinkAlive_iff]
    rcases hs with hl | ⟨id, t, hm⟩
    · exact Or.inl (Or.inl (by simpa using hl))
    · rw [hq] at hm
      rcases List.mem_cons.mp hm with hm | hm
      · cases hm
        exact Or.inr ⟨st.closeWindow, by simp [hst], by simp⟩
      · exact Or.inl (Or.inr ⟨id, t, hm⟩)
  | tookWrite hw hq | drainedWrite hw hq =>
    rw [sinkAlive_iff]
    rw [hq] at hs
    exact Or.inl (by simpa using hs)
  | opened =>
    rw [sinkAlive_iff]
    refine Or.inl (hs.imp (fun h => h) ?_)
    rintro ⟨id, t, hm⟩
    exact ⟨id, t, List.mem_append_left _ hm⟩
  | _ =>
    rw [sinkAlive_iff]
    exact Or.inl (by simpa using hs)

/-! ## The invariant -/

/-- The writer has drained its queue and closed the streams of the map. -/
def writerPast (e : Endpoint) : Prop := e.writer = .publishing ∨ e.writer = .done

def readerPast (e : Endpoint) : Prop := e.reader = .publishing ∨ e.reader = .done

structure Covered (e : Endpoint) : Prop where
  /-- An open window is held by a sink that some cleanup will reach. -/
  sink : ∀ h st, e.objs[h]? = some st → st.released ∨ e.sinkAlive h = true
  queue : e.writerPast → e.cmdQ = []
  map : e.writerPast → e.readerPast → e.streams = ∅

theorem covered_start (negotiated : Negotiated) (role : Role) :
    (start negotiated role).Covered where
  sink := by simp [start]
  queue := fun _ => rfl
  map := fun _ _ => rfl

theorem Effect.queue_past (he : Effect e a e' ev) (hc : e.Covered) (hw : e'.writerPast) :
    e'.cmdQ = [] := by
  have hclosed : ∀ {p : Prop}, e.writerPast → e.cmdOpen = true → p := by
    rintro p (h | h) ho <;> simp [cmdOpen, h] at ho
  cases he with
  | opened _ _ _ ho | sentLast _ _ _ _ ho | sentMore _ _ _ _ ho | credited _ _ _ _ ho
  | closeQueued _ _ ho | pinged _ ho | replied _ ho => exact hclosed hw ho
  | tookOpen | tookClose | tookWrite | wrote | writerLeft => simp [writerPast] at hw
  | drainedOpen hd | drainedWrite hd => simp [writerPast, hd] at hw
  | writerClosed hd hq => simpa using hq
  | writerPublished hd => exact hc.queue (Or.inl hd)
  | _ => simpa using hc.queue (by simpa [writerPast] using hw)

theorem Effect.map_past (he : Effect e a e' ev) (hc : e.Covered) (hw : e'.writerPast)
    (hr : e'.readerPast) : e'.streams = ∅ := by
  cases he with
  | tookOpen | tookClose | tookWrite | wrote | writerLeft => simp [writerPast] at hw
  | drainedOpen hd | drainedWrite hd => simp [writerPast, hd] at hw
  | readPing | readOpenCap | readOpen | readReset | readCritical | replyLost | replied
  | deliveryFailed | delivered | readerLeft | readerLeftDelivering => simp [readerPast] at hr
  | readClose hi => simp [readerPast, hi] at hr
  | writerClosed | readerClosed | watchdogFired => rfl
  | writerPublished hd => exact hc.map (Or.inl hd) hr
  | readerPublished hd => exact hc.map hw (Or.inl hd)
  | _ => exact hc.map (by simpa [writerPast] using hw) (by simpa [readerPast] using hr)

theorem Effect.covered (he : Effect e a e' ev) (hn : e.noReuse a) (hc : e.Covered) :
    e'.Covered where
  sink := by
    intro h st' hst'
    cases hst : e.objs[h]? with
    | none =>
      have hlt := (List.getElem?_eq_some_iff.mp hst').1
      exact Or.inr (he.sinkAlive_new (List.getElem?_eq_none_iff.mp hst) hlt)
    | some st =>
      obtain ⟨st₁, hst₁, hev⟩ := he.evolves hst
      cases hst'.symm.trans hst₁
      rcases hc.sink h st hst with hrel | hs
      · exact Or.inl (hev.released hrel)
      · rcases he.sinkAlive_or_released hn hst hs with hs | ⟨st₂, hst₂, hrel⟩
        · exact Or.inr hs
        · cases hst'.symm.trans hst₂
          exact Or.inl hrel
  queue := he.queue_past hc
  map := he.map_past hc

/-- A finished teardown leaves no sink. -/
theorem Covered.released (hc : e.Covered) (hd : e.tornDown) {h : Nat} {st : Stream}
    (hst : e.objs[h]? = some st) : st.released := by
  obtain ⟨-, hw, hr, -⟩ := hd
  rcases hc.sink h st hst with hrel | hs
  · exact hrel
  · rw [sinkAlive_iff, hc.queue (Or.inr hw), hc.map (Or.inr hw) (Or.inr hr)] at hs
    simp at hs

/-- A call on a released stream goes on: with an error, or because there is no window. -/
theorem sendAcquire_of_released {h k : Nat} {st : Stream} {c : SendCall}
    (hh : e.held h = some st) (hc : st.sends[k]? = some c) (hch : c.charged = false)
    (hrel : st.released) : e.step (.sendAcquire h k) ≠ none := by
  simp only [step, sendAcquire, hh, hc, hch, Bool.false_eq_true, if_false]
  cases hw : st.sendWindow with
  | none => simp
  | some sem =>
    have hcl : sem.closed = true := hrel sem hw
    simp [hcl]

/-- **Teardown releases every sender.** In every run of one endpoint, whatever frames the peer
sends and however the tasks interleave: if no step registers a stream under an id that the map
still holds, a finished teardown has closed every send window and blocks no `send`. -/
theorem teardown_releases {negotiated : Negotiated} {role : Role}
    {log : List (Taken Endpoint Act Event)} (hrun : Exec Endpoint.step (start negotiated role) log e)
    (hn : Steps noReuse log) (hd : e.tornDown) :
    (∀ st ∈ e.objs, st.released) ∧ ∀ h k, ¬ e.blockedOnCredit h k := by
  have hcov : e.Covered :=
    hrun.inv (P := fun log e => Steps noReuse log → e.Covered)
      (fun _ => covered_start negotiated role)
      (fun log s a s' ev _ ih hs hok => by
        rw [steps_snoc] at hok
        exact (step_effect hs).covered hok.2 (ih hok.1)) hn
  refine ⟨fun st hst => ?_, fun h k hb => ?_⟩
  · obtain ⟨h, hst⟩ := List.getElem?_of_mem hst
    exact hcov.released hd hst
  · obtain ⟨st, c, hh, hc, hch, hblock⟩ := hb
    exact sendAcquire_of_released hh hc hch (hcov.released hd (held_eq_some hh).1) hblock

/-- Keepalive and flow control, as two unmodified endpoints agree on them. -/
def agreed : Negotiated := ⟨1, CAP_KEEPALIVE ||| CAP_FLOWCONTROL, 0, 0⟩

/-- The peer opens stream 1, closes it and opens it again; then the session ends. -/
def reopening : List Act :=
  [.readerTake (openFrame 1 "a:1"), .readerDeliver, .accept, .sendCall 0 [1],
    .readerTake (closeFrame 1), .readerTake (openFrame 1 "a:2"), .readerDeliver, .accept,
    .readerExit, .readerCloseAll, .readerPublish, .writerExit, .writerCloseAll, .writerPublish,
    .watchdogExit]

theorem teardown_releases_reopened : ∃ log e,
    Exec Endpoint.step (start agreed .server) log e ∧ Steps noReuse log ∧ e.tornDown ∧
      e.objs.length = 2 ∧ (∀ st ∈ e.objs, st.released) ∧ ∀ h k, ¬ e.blockedOnCredit h k := by
  obtain ⟨log, e, hrun, hn, hd, hlen⟩ :=
    exec_reaches Endpoint.step (start agreed .server) reopening
      (fun log e => Steps noReuse log ∧ e.tornDown ∧ e.objs.length = 2) (by decide +kernel)
  exact ⟨log, e, hrun, hn, hd, hlen, teardown_releases hrun hn hd⟩

/-- The peer opens stream 1 twice without closing it; then the session ends. -/
def displacing : List Act :=
  [.readerTake (openFrame 1 "a:1"), .readerDeliver, .accept, .readerTake (openFrame 1 "a:2"),
    .readerDeliver, .accept, .readerExit, .readerCloseAll, .readerPublish, .writerExit,
    .writerCloseAll, .writerPublish, .watchdogExit]

/-- The stream accepted first keeps an open window after the teardown. -/
theorem displaced_stream_not_released :
    ¬ ∀ (negotiated : Negotiated) (role : Role) (log : List (Taken Endpoint Act Event))
      (e : Endpoint), Exec Endpoint.step (start negotiated role) log e → e.tornDown →
        ∀ st ∈ e.objs, st.owner ≠ .inTransit → st.released := by
  intro hall
  obtain ⟨log, e, hrun, hd, st, hst, ho, hrel⟩ :=
    exec_reaches Endpoint.step (start agreed .server) displacing
      (fun _ e => e.tornDown ∧ ∃ st ∈ e.objs, st.owner ≠ .inTransit ∧ ¬ st.released)
      (by decide +kernel)
  exact hrel (hall _ _ log e hrun hd st hst ho)

end Endpoint

end Leshiy.Mux
