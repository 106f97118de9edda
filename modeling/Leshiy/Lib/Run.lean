import Mathlib.Data.List.Induction

/-!
# Runs of a transition function

A system is a state type `S`, an action type `A` and a partial function
`step : S → A → Option (S × List E)`. `none` means that the action is not enabled in that
state; the list holds what the step lets an observer see.

`Exec step s₀ log s` says that a run from `s₀` ends in `s`, where `log` lists the steps taken,
oldest first, each with the state it was taken in. Conditions on a run ("every step meets …")
and history (what was sent, what was returned) are both read off that list, so the state
itself carries no ghost fields.
-/

namespace Leshiy.Lib

/-- One step of a run: the state before it, the action and what it showed. -/
structure Taken (S A E : Type) where
  pre : S
  act : A
  ev : List E

section

variable {S A E : Type} {step : S → A → Option (S × List E)} {s₀ s s' : S}

/-- A run from `s₀` to the second index. The list grows at its end. -/
inductive Exec (step : S → A → Option (S × List E)) (s₀ : S) :
    List (Taken S A E) → S → Prop
  | nil : Exec step s₀ [] s₀
  | snoc {log : List (Taken S A E)} {s s' : S} {a : A} {ev : List E} :
      Exec step s₀ log s → step s a = some (s', ev) →
      Exec step s₀ (log ++ [⟨s, a, ev⟩]) s'

/-- Where an element of a list that has grown stands: at its new end or before it. -/
theorem snoc_eq_append_cons {α : Type} {l before after : List α} {x y : α}
    (h : l ++ [x] = before ++ y :: after) :
    (after = [] ∧ x = y ∧ l = before) ∨ ∃ after', after = after' ++ [x] ∧ l = before ++ y :: after' := by
  obtain rfl | ⟨after', z, rfl⟩ := List.eq_nil_or_concat after
  · obtain ⟨rfl, hxy⟩ := List.append_inj' h rfl
    cases hxy
    exact .inl ⟨rfl, rfl, rfl⟩
  · have h' : l ++ [x] = (before ++ y :: after') ++ [z] := by
      rw [h]
      simp
    obtain ⟨rfl, hxz⟩ := List.append_inj' h' rfl
    cases hxz
    exact .inr ⟨after', by simp, rfl⟩

/-- What holds of every element that comes after others of which it holds. -/
theorem forall_mem_of_prefix {α : Type} {P : α → Prop} {l : List α}
    (h : ∀ before x, before ++ [x] <+: l → (∀ y ∈ before, P y) → P x) : ∀ x ∈ l, P x := by
  have hall : ∀ before, before <+: l → ∀ x ∈ before, P x := by
    intro before
    induction before using List.reverseRecOn with
    | nil => exact fun _ => nofun
    | append_singleton before x ih =>
      intro hpre y hy
      have hbefore := ih ((List.prefix_append before [x]).trans hpre)
      rcases List.mem_append.mp hy with hy | hy
      · exact hbefore y hy
      · exact List.mem_singleton.mp hy ▸ h before x hpre hbefore
  exact hall l List.prefix_rfl

/-- Everything a run showed, in order. -/
def shown (log : List (Taken S A E)) : List E := log.flatMap Taken.ev

@[simp] theorem shown_nil : shown ([] : List (Taken S A E)) = [] := rfl

@[simp] theorem shown_snoc (log : List (Taken S A E)) (t : Taken S A E) :
    shown (log ++ [t]) = shown log ++ t.ev := by
  simp [shown]

/-- Every step of the run meets `ok`, a condition on the state before it and the action. -/
def Steps (ok : S → A → Prop) (log : List (Taken S A E)) : Prop :=
  ∀ t ∈ log, ok t.pre t.act

@[simp] theorem steps_nil {ok : S → A → Prop} : Steps ok ([] : List (Taken S A E)) := by
  simp [Steps]

@[simp] theorem steps_snoc {ok : S → A → Prop} {log : List (Taken S A E)} {t : Taken S A E} :
    Steps ok (log ++ [t]) ↔ Steps ok log ∧ ok t.pre t.act := by
  simp [Steps, or_imp, forall_and]

/-- **Invariant rule.** What holds at the start and is kept by every step holds after every
run. The step case may use that the state was reached. -/
theorem Exec.inv {P : List (Taken S A E) → S → Prop} (h0 : P [] s₀)
    (hstep : ∀ log s a s' ev, Exec step s₀ log s → P log s → step s a = some (s', ev) →
      P (log ++ [⟨s, a, ev⟩]) s')
    {log : List (Taken S A E)} (h : Exec step s₀ log s) : P log s := by
  induction h with
  | nil => exact h0
  | snoc hr hs ih => exact hstep _ _ _ _ _ hr ih hs

/-- The invariant rule for a property of the state alone. -/
theorem Exec.state_inv {P : S → Prop} (h0 : P s₀)
    (hstep : ∀ s a s' ev, P s → step s a = some (s', ev) → P s')
    {log : List (Taken S A E)} (h : Exec step s₀ log s) : P s :=
  h.inv (P := fun _ s => P s) h0 fun _ s a s' ev _ hp hs => hstep s a s' ev hp hs

/-- **Rule for systems that stop.** Suppose that nothing happens in a stopped state, that a step which does
not stop meets `ok` and gives no reason to stop, and that a step which stops meets `ok` exactly if it gives
one. Then a run stops without a reason exactly if some step of it does not meet `ok`. -/
theorem Exec.stops_iff (stopped : S → Prop) (reason : A → Prop) (ok : S → A → Prop) (h0 : ¬stopped s₀)
    (hstep : ∀ s a s' ev, step s a = some (s', ev) → ¬stopped s ∧
      (¬stopped s' → ¬reason a ∧ ok s a) ∧ (stopped s' → (reason a ↔ ok s a)))
    {log : List (Taken S A E)} (h : Exec step s₀ log s) :
    (stopped s → ∃ t ∈ log, reason t.act) ↔ Steps ok log := by
  have hall : (¬stopped s → (∀ t ∈ log, ¬reason t.act) ∧ Steps ok log) ∧
      (stopped s → ((∃ t ∈ log, reason t.act) ↔ Steps ok log)) := by
    refine h.inv (P := fun log s => (¬stopped s → (∀ t ∈ log, ¬reason t.act) ∧ Steps ok log) ∧
      (stopped s → ((∃ t ∈ log, reason t.act) ↔ Steps ok log)))
      ⟨fun _ => ⟨nofun, steps_nil⟩, fun hs => absurd hs h0⟩ ?_
    intro log s a s' ev _ ih hs
    obtain ⟨hgoing, hgoes, hstops⟩ := hstep s a s' ev hs
    obtain ⟨hnone, hok⟩ := ih.1 hgoing
    constructor
    · intro hs'
      refine ⟨fun t ht => ?_, steps_snoc.mpr ⟨hok, (hgoes hs').2⟩⟩
      rcases List.mem_append.mp ht with ht | ht
      · exact hnone t ht
      · rw [List.mem_singleton] at ht
        exact ht ▸ (hgoes hs').1
    · intro hs'
      rw [steps_snoc, ← hstops hs']
      constructor
      · rintro ⟨t, ht, hreason⟩
        rcases List.mem_append.mp ht with ht | ht
        · exact absurd hreason (hnone t ht)
        · rw [List.mem_singleton] at ht
          exact ⟨hok, by rwa [ht] at hreason⟩
      · rintro ⟨-, hreason⟩
        exact ⟨_, List.mem_append_right _ (List.mem_singleton_self _), hreason⟩
  by_cases hs : stopped s
  · rw [← hall.2 hs]
    exact ⟨fun h => h hs, fun h _ => h⟩
  · exact iff_of_true (fun h => absurd h hs) (hall.1 hs).2

/-- Every step of a run was taken in a state that an initial part of the run reaches. -/
theorem Exec.pre_reached {log : List (Taken S A E)} (h : Exec step s₀ log s) :
    ∀ t ∈ log, ∃ log' s', Exec step s₀ log' t.pre ∧ log' <+: log ∧
      step t.pre t.act = some (s', t.ev) := by
  induction h with
  | nil => simp
  | @snoc log s s' a ev hr hs ih =>
    intro t ht
    rcases List.mem_append.mp ht with ht | ht
    · obtain ⟨log', s'', h1, h2, h3⟩ := ih t ht
      exact ⟨log', s'', h1, h2.trans (List.prefix_append _ _), h3⟩
    · rw [List.mem_singleton] at ht
      subst ht
      exact ⟨log, s', hr, List.prefix_append _ _, hs⟩

/-- A run around one of its steps. -/
theorem Exec.split {before after : List (Taken S A E)} {t : Taken S A E}
    (h : Exec step s₀ (before ++ t :: after) s) :
    Exec step s₀ before t.pre ∧ ∃ s₁, step t.pre t.act = some (s₁, t.ev) ∧ Exec step s₁ after s := by
  generalize hlog : before ++ t :: after = log at h
  induction h generalizing after with
  | nil => simp at hlog
  | snoc hr hs ih =>
    rcases snoc_eq_append_cons hlog.symm with ⟨rfl, rfl, rfl⟩ | ⟨after', rfl, hlog'⟩
    · exact ⟨hr, _, hs, .nil⟩
    · obtain ⟨hbefore, s₁, hs₁, hafter⟩ := ih hlog'.symm
      exact ⟨hbefore, s₁, hs₁, hafter.snoc hs⟩

/-- Runs compose. -/
theorem Exec.trans {log log' : List (Taken S A E)} (h : Exec step s₀ log s)
    (h' : Exec step s log' s') : Exec step s₀ (log ++ log') s' := by
  induction h' with
  | nil => simpa using h
  | snoc _ hs ih =>
    rw [← List.append_assoc]
    exact ih.snoc hs

/-- Some run leads from one state to the other. -/
def Reaches (step : S → A → Option (S × List E)) (s s' : S) : Prop := ∃ log, Exec step s log s'

theorem Reaches.refl : Reaches step s s := ⟨[], .nil⟩

theorem Reaches.snoc {a : A} {ev : List E} {s'' : S} (h : Reaches step s s')
    (hs : step s' a = some (s'', ev)) : Reaches step s s'' := by
  obtain ⟨log, hrun⟩ := h
  exact ⟨_, hrun.snoc hs⟩

theorem Reaches.trans {s'' : S} (h : Reaches step s s') (h' : Reaches step s' s'') :
    Reaches step s s'' := by
  obtain ⟨log, hrun⟩ := h
  obtain ⟨log', hrun'⟩ := h'
  exact ⟨_, Exec.trans hrun hrun'⟩

/-! ## Executing a list of actions -/

/-- The run that takes the given actions one after the other, if all are enabled. -/
def exec (step : S → A → Option (S × List E)) (s : S) : List A → Option (List (Taken S A E) × S)
  | [] => some ([], s)
  | a :: as =>
    match step s a with
    | none => none
    | some (s', ev) =>
      match exec step s' as with
      | none => none
      | some (log, s'') => some (⟨s, a, ev⟩ :: log, s'')

/-- What `exec` computes is a run. -/
theorem exec_sound : ∀ {as : List A} {s s' : S} {log : List (Taken S A E)},
    exec step s as = some (log, s') → Exec step s log s'
  | [], s, s', log, h => by
    simp only [exec, Option.some.injEq, Prod.mk.injEq] at h
    obtain ⟨rfl, rfl⟩ := h
    exact .nil
  | a :: as, s, s', log, h => by
    simp only [exec] at h
    split at h
    · cases h
    · next s₁ ev hs =>
      split at h
      · cases h
      · next log₁ s₂ hr =>
        simp only [Option.some.injEq, Prod.mk.injEq] at h
        obtain ⟨rfl, rfl⟩ := h
        exact Exec.trans (Exec.nil.snoc hs) (exec_sound hr)

/-- A run is what its actions make of the state it started in. -/
theorem exec_complete {log : List (Taken S A E)} (h : Exec step s₀ log s) :
    exec step s₀ (log.map Taken.act) = some (log, s) := by
  have happend : ∀ {as bs : List A} {s s' : S} {log : List (Taken S A E)},
      exec step s as = some (log, s') →
      exec step s (as ++ bs) = (exec step s' bs).map fun r => (log ++ r.1, r.2) := by
    intro as
    induction as with
    | nil =>
      intro bs s s' log h
      simp only [exec, Option.some.injEq, Prod.mk.injEq] at h
      obtain ⟨rfl, rfl⟩ := h
      simp
    | cons a as ih =>
      intro bs s s' log h
      simp only [exec] at h
      rw [List.cons_append]
      simp only [exec]
      split at h
      · cases h
      next s₁ ev hs =>
      split at h
      · cases h
      next log₁ s₂ hr =>
      simp only [Option.some.injEq, Prod.mk.injEq] at h
      obtain ⟨rfl, rfl⟩ := h
      rw [ih hr]
      cases exec step s₂ bs with
      | none => rfl
      | some r => rfl
  induction h with
  | nil => rfl
  | snoc _ hs ih =>
    rw [List.map_append, happend ih]
    simp [exec, hs]

/-- What holds of the run that `exec` computes holds of some run. -/
theorem exec_reaches (step : S → A → Option (S × List E)) (s : S) (as : List A)
    (P : List (Taken S A E) → S → Prop) [∀ log s, Decidable (P log s)]
    (h : (exec step s as).any (fun r => decide (P r.1 r.2)) = true) :
    ∃ log s', Exec step s log s' ∧ P log s' := by
  obtain ⟨⟨log, s'⟩, hr, hc⟩ := (Option.any_eq_true _ _).mp h
  exact ⟨log, s', exec_sound hr, of_decide_eq_true hc⟩

instance {ok : S → A → Prop} [∀ s a, Decidable (ok s a)] (log : List (Taken S A E)) :
    Decidable (Steps ok log) :=
  inferInstanceAs (Decidable (∀ t ∈ log, ok t.pre t.act))

end

end Leshiy.Lib
