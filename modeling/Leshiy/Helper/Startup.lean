import Leshiy.Helper.Runner

/-!
# What a failed start leaves

A worker that fails tells its caller first. Its last two steps, the publication and the end of its task,
come behind that, and the caller does not wait for them.
-/

namespace Leshiy.Helper

open Leshiy.Lib Leshiy.Client

namespace EngineRunner

variable {r r' : EngineRunner} {a : Act} {ev : List Event} {w : Nat} {e : HelperError}

/-! ## Only the last worker is at work -/

def Latest (r : EngineRunner) : Prop := ∀ w, r.Alive w → w + 1 = r.workers.length

theorem Latest.step (h : r.Latest) (hinv : r.Inv) (hs : r.step a = some (r', ev)) : r'.Latest := by
  cases step_effect hs with
  | spawned hlock hfree =>
    have hnone : ∀ w, ¬ r.Alive w := hinv.none_alive fun w hw => by
      rw [current, hlock] at hw
      exact hfree w hw
    rintro w ⟨wk, hw, hphase⟩
    rcases getElem?_spawn.mp hw with hw | ⟨rfl, -⟩
    · exact absurd ⟨wk, hw, hphase⟩ (hnone w)
    · simp
  | @found i v =>
    intro w hw
    have hlen : (r.notifyOne v).workers.length = r.workers.length := by simp [notifyOne]
    exact (h w (alive_notifyOne.mp hw)).trans hlen.symm
  | @worked _ v wk wk' _ _ hv hmoves =>
    intro w hw
    have hlen : (r.setWorker v wk').workers.length = r.workers.length := by simp [setWorker]
    exact (h w (alive_of_worked hv hmoves hw)).trans hlen.symm
  | _ => exact h

theorem latest_run {log : List (Taken EngineRunner Act Event)} (h : Exec step new log r) : r.Latest := by
  induction h with
  | nil =>
    rintro w ⟨wk, hw, -⟩
    simp [new] at hw
  | snoc hrun hs ih => exact ih.step (inv_run hrun) hs

/-! ## The last step of a worker -/

theorem Moves.finished_iff {wk wk' : Worker} {st st' : State} (h : Moves wk st wk' st') :
    wk'.phase = .finished ↔ wk.phase = .published := by
  cases h <;> simp

/-- What a worker that has published its end still does. -/
theorem finish_iff_published {wk : Worker} (hw : r.workers[w]? = some wk) (hact : a.worker = some w)
    (hs : r.step a = some (r', ev)) : a = .finish w ↔ wk.phase = .published := by
  obtain ⟨phase, permit⟩ := wk
  constructor
  · rintro rfl
    simp only [step, hw] at hs
    split at hs
    · rename_i heq
      cases heq
      rfl
    · cases hs
  · rintro rfl
    cases a with
    | finish v =>
      cases hact
      rfl
    | pollCancel v | engineCancel v | engineExit v | publish v =>
      cases hact
      simp [step, hw] at hs
    | pollPrepare v p =>
      cases hact
      cases p <;> simp [step, hw] at hs
    | _ => cases hact

/-- Only its own last step ends a worker. -/
theorem alive_step_iff (hlt : w < r.workers.length) (hs : r.step a = some (r', ev)) :
    r'.Alive w ↔ r.Alive w ∧ a ≠ .finish w := by
  by_cases hact : a.worker = some w
  · cases step_effect hs with
    | @worked _ v wk wk' st _ hw hmoves _ hact' =>
      cases hact.symm.trans hact'
      have halive : r.Alive w := ⟨wk, hw, by cases hmoves <;> simp⟩
      have hw' : ({ r.setWorker w wk' with state := st } : EngineRunner).workers[w]? = some wk' := by
        show (r.setWorker w wk').workers[w]? = _
        rw [getElem?_setWorker hw, if_pos rfl]
      rw [and_iff_right halive, Ne, finish_iff_published hw hact hs, ← hmoves.finished_iff, Alive, hw']
      simp
    | _ => cases hact
  · have hne : a ≠ .finish w := fun heq => hact (heq ▸ rfl)
    rw [and_iff_left hne]
    cases step_effect hs with
    | spawned =>
      show (∃ wk, (r.workers ++ [_])[w]? = some wk ∧ _) ↔ _
      rw [List.getElem?_append_left hlt]
      exact Iff.rfl
    | @found i v => exact alive_notifyOne (w := v)
    | @worked _ v wk wk' _ _ hw _ _ hact' =>
      have hwv : w ≠ v := fun heq => hact (heq ▸ hact')
      show (∃ wk₁, (r.setWorker v wk').workers[w]? = some wk₁ ∧ _) ↔ _
      rw [getElem?_setWorker hw, if_neg hwv]
      exact Iff.rfl
    | _ => exact Iff.rfl

theorem length_step (hs : r.step a = some (r', ev)) :
    r'.workers.length = r.workers.length ∨
      (r'.workers.length = r.workers.length + 1 ∧ r'.Alive r.workers.length) := by
  cases step_effect hs with
  | spawned =>
    refine .inr ⟨by simp, ?_⟩
    exact ⟨_, getElem?_spawn.mpr (.inr ⟨rfl, rfl⟩), by simp⟩
  | found | worked => exact .inl (by simp [setStop, notifyOne, setWorker])
  | _ => exact .inl rfl

theorem length_run {log : List (Taken EngineRunner Act Event)} (h : Exec step r log r') :
    r.workers.length ≤ r'.workers.length := by
  induction h with
  | nil => exact Nat.le_refl _
  | snoc _ hs ih => rcases length_step hs with hlen | ⟨hlen, -⟩ <;> omega

/-- Who was at work, or was not there yet, has ended within a part of the run if its last step is there. -/
theorem finish_mem_iff {log : List (Taken EngineRunner Act Event)} (h : Exec step r log r')
    (hw : r.Alive w ∨ r.workers.length ≤ w) :
    (∃ t ∈ log, t.act = .finish w) ↔ w < r'.workers.length ∧ ¬ r'.Alive w := by
  induction h with
  | nil =>
    simp only [List.not_mem_nil, false_and, exists_false, false_iff, not_and, not_not]
    intro hlt
    rcases hw with hw | hw
    · exact hw
    · omega
  | @snoc log r₁ r₂ a ev hrun hs ih =>
    have hsnoc : (∃ t ∈ log ++ [⟨r₁, a, ev⟩], t.act = .finish w) ↔
        (∃ t ∈ log, t.act = .finish w) ∨ a = .finish w := by
      simp [or_and_right, exists_or]
    rw [hsnoc, ih]
    by_cases hlt : w < r₁.workers.length
    · have hlt' : w < r₂.workers.length := by
        rcases length_step hs with hlen | ⟨hlen, -⟩ <;> omega
      rw [alive_step_iff hlt hs]
      simp only [hlt, hlt', true_and, not_and, ne_eq, not_not]
      tauto
    · -- it is not there yet, or has just been spawned
      have hne : a ≠ .finish w := by
        rintro rfl
        have hnone : r₁.workers[w]? = none := List.getElem?_eq_none_iff.mpr (Nat.le_of_not_lt hlt)
        simp [step, hnone] at hs
      simp only [hlt, false_and, hne, or_false, false_iff, not_and, not_not]
      intro hlt'
      rcases length_step hs with hlen | ⟨hlen, halive⟩
      · omega
      · obtain rfl : w = r₁.workers.length := by omega
        exact halive

/-! ## The failed start -/

theorem worker_of_ready {res : Except HelperError Unit} (hs : r.step a = some (r', ev)) (h : .ready w res ∈ ev) :
    ∃ v, a.worker = some v := by
  cases step_effect hs with
  | refused | idle | joined => simp at h
  | worked _ _ _ hact => exact ⟨_, hact⟩
  | _ => cases h

/-- The step that fails a start leaves its worker at work. -/
theorem alive_of_failed (hs : r.step a = some (r', ev)) (hfailed : .ready w (.error e) ∈ ev) : r'.Alive w := by
  have hsend : ∀ (v : Nat) (wk : Worker) (b : Bool) (err : HelperError), r.workers[v]? = some wk →
      .ready w (.error e) ∈ [Event.ready v (.error err)] → (r.setWorker v ⟨.exiting, b⟩).Alive w := by
    intro v wk b err hv hmem
    obtain ⟨rfl, -⟩ : w = v ∧ _ := by simpa using hmem
    exact ⟨_, (getElem?_setWorker hv _ w).trans (if_pos rfl), by simp⟩
  cases a with
  | pollCancel v =>
    simp only [step] at hs
    split at hs
    · rename_i hv
      cases hs
      exact hsend v _ _ _ hv hfailed
    · cases hs
      cases hfailed
    · cases hs
  | pollPrepare v p =>
    simp only [step] at hs
    split at hs
    · cases hs
      cases hfailed
    · cases hs
      simp at hfailed
    · rename_i hv
      cases hs
      exact hsend v _ _ _ hv hfailed
    · cases hs
  | engineCancel v | publish v | finish v =>
    simp only [step] at hs
    split at hs
    · cases hs
      cases hfailed
    · cases hs
  | engineExit v =>
    simp only [step] at hs
    split at hs
    · cases hs
      cases hfailed
    · cases hs
      cases hfailed
    · cases hs
  | _ =>
    obtain ⟨v, hv⟩ := worker_of_ready hs hfailed
    cases hv

/-- Idle to a caller: the state says so, and a start is not refused. -/
def Idle (r : EngineRunner) : Prop :=
  r.state = .disconnected ∧ r.step .start ≠ some (r, [.refused .alreadyRunning])

/-- The mutex is free and nobody is at work. -/
theorem idle_iff (h : r.Inv) : r.Idle ↔ r.lock = none ∧ ∀ w, ¬ r.Alive w := by
  constructor
  · rintro ⟨-, hstart⟩
    refine ⟨?_, fun w hw => hstart (refused_of_alive h hw)⟩
    cases hlock : r.lock with
    | none => rfl
    | some holder => exact absurd (by simp [step, hlock]) hstart
  · rintro ⟨hlock, hnone⟩
    refine ⟨(h.quiet hnone).2, ?_⟩
    have hfree : (r.session.any fun w => !r.isFinished w) = false := by
      cases r.session with
      | none => rfl
      | some w => simp [isFinished_iff.mpr (hnone w)]
    simp [step, hlock, hfree]

variable {before after : List (Taken EngineRunner Act Event)} {t : Taken EngineRunner Act Event}

/-- A start has failed with step `t`, so that its caller has the error at any time behind it: the runner is
idle then if the worker has taken its last step, whoever was started since has taken his, and no stop
holds the mutex. -/
theorem failed_start_idle_iff (h : Exec step new (before ++ t :: after) r)
    (hfailed : .ready w (.error e) ∈ t.ev) :
    r.Idle ↔ r.lock = none ∧
      ∀ v, w ≤ v → v < r.workers.length → ∃ t' ∈ after, t'.act = .finish v := by
  obtain ⟨hbefore, r₁, hs, hafter⟩ := h.split
  have halive : r₁.Alive w := alive_of_failed hs hfailed
  have hlast : w + 1 = r₁.workers.length := latest_run (hbefore.snoc hs) w halive
  have hended : ∀ v, w ≤ v →
      ((∃ t' ∈ after, t'.act = .finish v) ↔ v < r.workers.length ∧ ¬ r.Alive v) := by
    intro v hv
    refine finish_mem_iff hafter ?_
    obtain rfl | hlt := Nat.eq_or_lt_of_le hv
    · exact .inl halive
    · exact .inr (by omega)
  rw [idle_iff (inv_run h)]
  refine and_congr_right fun _ => ?_
  constructor
  · intro hnone v hv hlt
    exact (hended v hv).mpr ⟨hlt, hnone v⟩
  · intro hall v hv
    -- who is at work is the last one, so it is `w` or came behind it
    have hlt : v + 1 = r.workers.length := latest_run h v hv
    have hlen := length_run hafter
    exact ((hended v (by omega)).mp (hall v (by omega) (by omega))).2 hv

/-- A worker fails and comes to its end before its caller looks. -/
theorem failed_start_idle_iff_ended : ∃ before t after r, Exec step new (before ++ t :: after) r ∧
    .ready 0 (.error (.engine "dial timed out")) ∈ t.ev ∧ r.Idle := by
  obtain ⟨log, r, hrun, hlt, hsent, ⟨t', ht', hact⟩, hlock, hlen⟩ := exec_reaches step new
    [.start, .store, .pollCancel 0, .pollPrepare 0 (.ready (.error (.engine "dial timed out"))), .publish 0,
      .finish 0]
    (fun log r => 3 < log.length ∧
      (∀ t ∈ log[3]?, .ready 0 (.error (.engine "dial timed out")) ∈ t.ev) ∧
      (∃ t ∈ log.drop 4, t.act = .finish 0) ∧ r.lock = none ∧ r.workers.length = 1) (by decide)
  have hsplit : log = log.take 3 ++ log[3] :: log.drop 4 := by
    rw [← List.drop_eq_getElem_cons hlt, List.take_append_drop]
  rw [hsplit] at hrun
  have hready := hsent log[3] (List.getElem?_eq_getElem hlt)
  refine ⟨_, _, _, r, hrun, hready, (failed_start_idle_iff hrun hready).mpr ⟨hlock, ?_⟩⟩
  intro v _ hv
  obtain rfl : v = 0 := by omega
  exact ⟨t', ht', hact⟩

/-- One caller and its worker: the error is out, and the worker has two steps left. -/
theorem failed_start_not_idle :
    ¬ ∀ log (r : EngineRunner), Exec step new log r → r.stops = [] → r.workers.length = 1 →
      ∀ e, .ready 0 (.error e) ∈ shown log → r.lock ≠ some (.start 0) → r.Idle := by
  intro hclaim
  obtain ⟨log, r, hrun, hstops, hlen, hshown, hlock, hstate⟩ := exec_reaches step new
    [.start, .store, .pollCancel 0, .pollPrepare 0 (.ready (.error (.engine "dial timed out")))]
    (fun log r => r.stops = [] ∧ r.workers.length = 1 ∧
      shown log = [.ready 0 (.error (.engine "dial timed out"))] ∧ r.lock ≠ some (.start 0) ∧
      r.state = .connecting) (by decide)
  have hidle := hclaim log r hrun hstops hlen (.engine "dial timed out") (by simp [hshown]) hlock
  rw [Idle, hstate] at hidle
  cases hidle.1

end EngineRunner

end Leshiy.Helper
