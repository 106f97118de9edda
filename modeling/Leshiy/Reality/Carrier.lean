import Leshiy.Mux.Teardown
import Leshiy.Reality.Framing

/-!
# The mux over the encrypted transport

The writer task of the mux (`leshiy-core/src/mux.rs`) hands its frames to `write_frame` of the
REALITY transport, which refuses a frame that does not fit one record. The task takes every error
of `write_frame` for the end of the transport: it leaves its loop and closes all streams.

Data is cut to the limit and a datagram over it is refused to its sender, so neither can bring that
about. The `Open` frame carries the target as the caller gave it, and nothing bounds its length.
-/

namespace Leshiy.Reality

open Leshiy.Lib Leshiy.Tls Leshiy.Mux

/-- A mux endpoint and the writer its frames go to. -/
structure Carrier where
  ep : Endpoint
  writer : TlsFrameWriter

namespace Carrier

inductive Act where
  /-- A step of the endpoint that does not depend on the transport. -/
  | mux (a : Mux.Act)
  /-- `write_frame` returns `Ok`. -/
  | wrote
  /-- `write_frame` returns an error of its own, before anything is on the socket. -/
  | refused
  /-- The socket fails, the closed flag is set or all senders are gone. -/
  | lost
  deriving DecidableEq, Repr

inductive Event where
  | mux (ev : Mux.Event)
  | refused (f : Frame) (err : Error)
  | lost
  deriving DecidableEq, Repr

variable (prims : SuitePrimitives)

def step (s : Carrier) : Act → Option (Carrier × List Event)
  | .mux a =>
    if a = .writerWrote ∨ a = .writerExit then none
    else (s.ep.step a).map fun (ep, ev) => ({ s with ep }, ev.map .mux)
  | .wrote =>
    match s.ep.writer with
    | .writing f =>
      match s.writer.send prims f with
      | .ok (_, writer) => (s.ep.step .writerWrote).map fun (ep, ev) => (⟨ep, writer⟩, ev.map .mux)
      | .error _ => none
    | _ => none
  | .refused =>
    match s.ep.writer with
    | .writing f =>
      match s.writer.send prims f with
      | .ok _ => none
      | .error err => (s.ep.step .writerExit).map fun (ep, _) => ({ s with ep }, [.refused f err])
    | _ => none
  | .lost => (s.ep.step .writerExit).map fun (ep, _) => ({ s with ep }, [.lost])

variable {prims}

/-- An open whose frame fits one record. -/
def Act.fits : Act → Prop
  | .mux (.open kind target) => (utf8Bytes (openPayload kind target)).length ≤ MAX_FRAME_PAYLOAD
  | _ => True

/-- **What a step of the endpoint queues fits a record**, if the open it may be does. -/
theorem queued_fits {e e' : Endpoint} {a : Mux.Act} {ev : List Mux.Event}
    (he : Endpoint.Effect e a e' ev) (hwf : e.Wf) (hfit : Act.fits (.mux a)) :
    ∀ f ∈ queuedFrames ev, f.payload.length ≤ MAX_FRAME_PAYLOAD := by
  intro f hf
  cases he with
  | opened =>
    cases List.mem_singleton.mp hf
    exact hfit
  | sentLast hst _ hk | sentMore hst _ hk =>
    cases List.mem_singleton.mp hf
    rw [dataFrame_payload]
    exact hwf.chunk _ (List.mem_of_getElem? hst) _ (List.mem_of_getElem? hk)
  | credited _ _ _ _ _ _ hfr =>
    cases List.mem_singleton.mp hf
    rw [hfr]
    simp [windowUpdateFrame, MAX_FRAME_PAYLOAD, HEADER_LEN]
  | closeQueued | pinged =>
    cases List.mem_singleton.mp hf
    exact Nat.zero_le _
  | replied hr =>
    cases List.mem_singleton.mp hf
    rcases hwf.reply hr with rfl | ⟨st, -, rfl⟩ <;> exact Nat.zero_le _
  | _ => cases hf

/-- Everything the endpoint is going to write fits a record. -/
structure Fitting (s : Carrier) : Prop where
  wf : s.ep.Wf
  outbox : ∀ f ∈ s.ep.outbox, f.payload.length ≤ MAX_FRAME_PAYLOAD

/-- A step of the carrier is a step of its endpoint; if it refuses a frame, that frame was being written
and `write_frame` failed. -/
theorem step_cases {s s' : Carrier} {a : Act} {ev : List Event} (h : s.step prims a = some (s', ev)) :
    (∃ a' ev', s.ep.step a' = some (s'.ep, ev') ∧ (a.fits → Act.fits (.mux a'))) ∧
      ∀ f err, .refused f err ∈ ev →
        s.ep.writer = .writing f ∧ s.writer.send prims f = .error err := by
  cases a with
  | mux a =>
    simp only [step] at h
    split at h
    · cases h
    · obtain ⟨⟨ep, ev'⟩, hs, heq⟩ := Option.map_eq_some_iff.mp h
      cases heq
      exact ⟨⟨a, ev', hs, id⟩, by simp⟩
  | wrote =>
    simp only [step] at h
    split at h
    · split at h
      · obtain ⟨⟨ep, ev'⟩, hs, heq⟩ := Option.map_eq_some_iff.mp h
        cases heq
        exact ⟨⟨_, ev', hs, fun _ => trivial⟩, by simp⟩
      · cases h
    · cases h
  | refused =>
    simp only [step] at h
    split at h
    · rename_i g hw
      split at h
      · cases h
      · rename_i err' hsend
        obtain ⟨⟨ep, ev'⟩, hs, heq⟩ := Option.map_eq_some_iff.mp h
        cases heq
        refine ⟨⟨_, ev', hs, fun _ => trivial⟩, fun f err hmem => ?_⟩
        cases List.mem_singleton.mp hmem
        exact ⟨hw, hsend⟩
    · cases h
  | lost =>
    simp only [step] at h
    obtain ⟨⟨ep, ev'⟩, hs, heq⟩ := Option.map_eq_some_iff.mp h
    cases heq
    exact ⟨⟨_, ev', hs, fun _ => trivial⟩, by simp⟩

/-- One step keeps it. -/
theorem Fitting.step {s s' : Carrier} {a : Act} {ev : List Event} (h : s.Fitting) (hfit : a.fits)
    (hs : s.step prims a = some (s', ev)) : s'.Fitting := by
  obtain ⟨⟨a', ev', hstep, hfit'⟩, -⟩ := step_cases hs
  have he := Endpoint.step_effect hstep
  refine ⟨he.wf h.wf, fun f hf => ?_⟩
  rcases he.outbox with ⟨-, -, hout⟩ | ⟨-, -, g, -, hout⟩ | ⟨-, -, hout⟩
  · rw [hout, List.mem_append] at hf
    rcases hf with hf | hf
    · exact h.outbox f hf
    · exact queued_fits he h.wf (hfit' hfit) f hf
  · exact h.outbox f (by rw [hout]; exact List.mem_cons_of_mem _ hf)
  · rw [hout] at hf
    cases hf

theorem fitting_start (negotiated : Negotiated) (role : Role) (writer : TlsFrameWriter) :
    Fitting ⟨Endpoint.start negotiated role, writer⟩ where
  wf := Endpoint.wf_start negotiated role
  outbox := by simp [Endpoint.outbox, Endpoint.start]

theorem Fitting.exec {s₀ s : Carrier} {log : List (Taken Carrier Act Event)} (h : s₀.Fitting)
    (hrun : Exec (Carrier.step prims) s₀ log s) (hfit : Steps (fun _ a => a.fits) log) :
    s.Fitting := by
  induction hrun with
  | nil => exact h
  | snoc _ hs ih =>
    rw [steps_snoc] at hfit
    exact (ih hfit.1).step hfit.2 hs

theorem step_wrote {s : Carrier} {f : Frame} {record : Bytes} {w' : TlsFrameWriter}
    (hw : s.ep.writer = .writing f) (hsend : s.writer.send prims f = .ok (record, w')) :
    s.step prims .wrote = some (⟨{ s.ep with writer := .idle }, w'⟩, []) := by
  simp [step, hw, hsend, Endpoint.step, Endpoint.writerWrote]

/-- A refusal makes the writer leave its loop. -/
theorem step_refused {s : Carrier} {f : Frame} {err : Error} (hw : s.ep.writer = .writing f)
    (hsend : s.writer.send prims f = .error err) :
    s.step prims .refused = some (⟨{ s.ep with writer := .draining }, s.writer⟩, [.refused f err]) := by
  simp [step, hw, hsend, Endpoint.step, Endpoint.writerExit, Endpoint.cmdOpen]

/-- **The frame of an open is accepted exactly if its payload fits.** -/
theorem wrote_open_iff (hcorrect : prims.Correct) {s : Carrier} {id : UInt32} {target : String}
    (hw : s.ep.writer = .writing (openFrame id target)) (hseq : s.writer.seq.toNat + 1 < 2 ^ 64) :
    (∃ s' ev, s.step prims .wrote = some (s', ev)) ↔
      (utf8Bytes target).length ≤ MAX_FRAME_PAYLOAD := by
  have hiff : (∃ record w', s.writer.send prims (openFrame id target) = .ok (record, w')) ↔
      (utf8Bytes target).length ≤ MAX_FRAME_PAYLOAD ∧ s.writer.seq.toNat + 1 < 2 ^ 64 := by
    rw [send_isOk_iff hcorrect, length_encode_le]
    rfl
  constructor
  · rintro ⟨s', ev, h⟩
    simp only [step, hw] at h
    split at h
    · rename_i record w' hsend
      exact (hiff.mp ⟨record, w', hsend⟩).1
    · cases h
  · intro hfit
    obtain ⟨record, w', hsend⟩ := hiff.mpr ⟨hfit, hseq⟩
    exact ⟨_, _, step_wrote hw hsend⟩

/-- **Opens that fit never end the session.** In a run whose opens all fit and in which the record
counter lasts, `write_frame` refuses no frame; and where the frame of an open is being written, it
is accepted exactly if its payload fits. -/
theorem session_survives_opens (prims : SuitePrimitives) (hcorrect : prims.Correct)
    (negotiated : Negotiated) (role : Role) (writer : TlsFrameWriter)
    (log : List (Taken Carrier Act Event)) (s : Carrier)
    (hrun : Exec (Carrier.step prims) ⟨Endpoint.start negotiated role, writer⟩ log s)
    (hfit : Steps (fun s a => a.fits ∧ s.writer.seq.toNat + 1 < 2 ^ 64) log) :
    (∀ f err, .refused f err ∉ shown log) ∧
      ∀ id target, s.ep.writer = .writing (openFrame id target) →
        s.writer.seq.toNat + 1 < 2 ^ 64 →
        ((∃ s' ev, s.step prims .wrote = some (s', ev)) ↔
          (utf8Bytes target).length ≤ MAX_FRAME_PAYLOAD) := by
  refine ⟨?_, fun id target hw hseq => wrote_open_iff hcorrect hw hseq⟩
  induction hrun with
  | nil => simp
  | @snoc log s s' a ev hrun hs ih =>
    rw [steps_snoc] at hfit
    intro f err hmem
    rw [shown_snoc, List.mem_append] at hmem
    rcases hmem with hmem | hmem
    · exact ih hfit.1 f err hmem
    · have hfitting : s.Fitting :=
        (fitting_start negotiated role writer).exec hrun fun t ht => (hfit.1 t ht).1
      obtain ⟨hw, hsend⟩ := (step_cases hs).2 f err hmem
      -- the frame being written fits, so the writer accepts it
      have hf : f.payload.length ≤ MAX_FRAME_PAYLOAD :=
        hfitting.outbox f (by rw [Endpoint.outbox, hw]; exact List.mem_cons_self)
      obtain ⟨record, w', hok⟩ := (send_isOk_iff hcorrect).mpr ⟨length_encode_le.mpr hf, hfit.2.2⟩
      rw [hsend] at hok
      cases hok

/-- One byte more than fits. -/
def longTarget : String := String.ofList (List.replicate 16379 'a')

/-- A stream is open; then another caller opens the long target. -/
def longOpen (target : String) : List Act :=
  [.mux (.open .tcp "a:1"), .mux .writerTake, .wrote, .mux (.open .tcp target), .mux .writerTake,
    .refused, .mux .writerCloseAll, .mux .writerPublish]

/-- What becomes of the session when the target is one byte too long. -/
theorem exec_longOpen {target : String} (hlen : (utf8Bytes target).length = 16379) :
    ∃ log s, Exec (Carrier.step Primitives.start.toSuitePrimitives)
        ⟨Endpoint.start Endpoint.agreed .client, (intoTransport plainSession .client).2⟩ log s ∧
      log.map Taken.act = longOpen target ∧
      shown log = [.mux (.queued (openFrame 1 "a:1")), .mux (.opened 0),
        .mux (.queued (openFrame 3 target)), .mux (.opened 1),
        .refused (openFrame 3 target) (.frameTooLarge 16384)] ∧
      s.ep.streams.entries = [] ∧ s.ep.closed = true ∧
      s.ep.objs.map (fun st => st.sendWindow.map Semaphore.closed) = [some true, some true] := by
  obtain ⟨record, w', hsend⟩ : ∃ record w', (intoTransport plainSession .client).2.send
      Primitives.start.toSuitePrimitives (openFrame 1 "a:1") = .ok (record, w') :=
    (send_isOk_iff Primitives.start_correct.suites).mpr ⟨by decide, by decide⟩
  have hencode : (openFrame 3 target).encode.length = 16384 := by
    rw [Frame.length_encode]
    show HEADER_LEN + (utf8Bytes target).length = 16384
    rw [hlen]
    rfl
  have hrefuse : w'.send Primitives.start.toSuitePrimitives (openFrame 3 target) =
      .error (.frameTooLarge 16384) := by
    rw [send_too_large (by rw [hencode]; decide), hencode]
  have h₀ : Exec (Carrier.step Primitives.start.toSuitePrimitives)
      ⟨Endpoint.start Endpoint.agreed .client, (intoTransport plainSession .client).2⟩ [] _ := .nil
  have h₁ := (h₀.snoc (a := .mux (.open .tcp "a:1")) rfl).snoc (a := .mux .writerTake) rfl
  have h₂ := (h₁.snoc (step_wrote rfl hsend)).snoc (a := .mux (.open .tcp target)) rfl
  have h₃ := (h₂.snoc (a := .mux .writerTake) rfl).snoc (step_refused rfl hrefuse)
  refine ⟨_, _, (h₃.snoc (a := .mux .writerCloseAll) rfl).snoc (a := .mux .writerPublish) rfl, rfl,
    rfl, rfl, rfl, ?_⟩
  with_unfolding_all rfl

/-- **A long target ends the session**: the open itself succeeds, the writer's frame is refused, and
the stream opened before loses its sink and its window. -/
theorem long_target_ends_session :
    ∃ log s, Exec (Carrier.step Primitives.start.toSuitePrimitives)
        ⟨Endpoint.start Endpoint.agreed .client, (intoTransport plainSession .client).2⟩ log s ∧
      log.map Taken.act = longOpen longTarget ∧
      shown log = [.mux (.queued (openFrame 1 "a:1")), .mux (.opened 0),
        .mux (.queued (openFrame 3 longTarget)), .mux (.opened 1),
        .refused (openFrame 3 longTarget) (.frameTooLarge 16384)] ∧
      s.ep.streams.entries = [] ∧ s.ep.closed = true ∧
      s.ep.objs.map (fun st => st.sendWindow.map Semaphore.closed) = [some true, some true] :=
  exec_longOpen ((length_utf8Bytes_replicate 'a' 16379).trans (by decide))

/-- Two short opens in a row. -/
theorem session_survives_short_opens :
    ∃ log s, Exec (Carrier.step Primitives.start.toSuitePrimitives)
        ⟨Endpoint.start Endpoint.agreed .client, (intoTransport plainSession .client).2⟩ log s ∧
      log.map Taken.act = [.mux (.open .tcp "a:1"), .mux (.open .tcp "b:2"), .mux .writerTake] ∧
      ∀ f err, .refused f err ∉ shown log := by
  have h₀ : Exec (Carrier.step Primitives.start.toSuitePrimitives)
      ⟨Endpoint.start Endpoint.agreed .client, (intoTransport plainSession .client).2⟩ [] _ := .nil
  have hrun := ((h₀.snoc (a := .mux (.open .tcp "a:1")) rfl).snoc
    (a := .mux (.open .tcp "b:2")) rfl).snoc (a := .mux .writerTake) rfl
  refine ⟨_, _, hrun, rfl, (session_survives_opens _ Primitives.start_correct.suites _ _ _ _ _ hrun
    ?_).1⟩
  simp only [steps_snoc, steps_nil, true_and, Act.fits]
  decide

end Carrier

end Leshiy.Reality
