import Leshiy.Lib.Run
import Mathlib.Data.List.Induction
import Mathlib.Logic.Function.Basic

/-!
# A register set only by who has seen its value

Calls of several writers set a register. A call of a writer that has last seen another value than the
register's is refused. Until a call confirms what it has set, it may be lost again.

`ValidFrom r ops` says that each operation was enabled when it came. In such a history a confirmed value
is still there, or the first to replace it is a writer that has seen it.
-/

namespace Leshiy.Lib

/-- The value, what each writer has last seen of it, what a loss may leave, and whose value it is. -/
structure Register (T W C : Type) where
  value : C
  seen : W → Option C
  kept : List C
  setBy : Option (T × W)

namespace Register

inductive Op (T W C : Type) where
  | see (w : W) (c : C)
  | set (t : T) (w : W) (old new : C)
  | refuse (t : T) (w : W)
  | confirm (t : T) (w : W)
  | lose (c : C)

variable {T W C : Type}

/-- A register that nobody has seen. -/
def init (c : C) : Register T W C := ⟨c, fun _ => none, [c], none⟩

def Enabled (r : Register T W C) : Op T W C → Prop
  | .see _ _ => True
  | .set _ w old _ => r.value = old ∧ r.seen w = some old
  | .refuse _ w => r.seen w ≠ some r.value
  | .confirm t w => r.setBy = some (t, w)
  | .lose c => c ∈ r.kept

section

variable [DecidableEq W]

def apply (r : Register T W C) : Op T W C → Register T W C
  | .see w c => { r with seen := Function.update r.seen w (some c) }
  | .set t w _ new => ⟨new, Function.update r.seen w (some new), r.kept ++ [new], some (t, w)⟩
  | .refuse _ _ => r
  | .confirm _ _ => { r with kept := [r.value] }
  | .lose c => ⟨c, r.seen, [c], none⟩

/-- The register after a history. -/
def after (r : Register T W C) (ops : List (Op T W C)) : Register T W C := ops.foldl apply r

def ValidFrom (r : Register T W C) (ops : List (Op T W C)) : Prop :=
  ∀ before op rest, ops = before ++ op :: rest → (r.after before).Enabled op

variable {r : Register T W C} {ops before rest : List (Op T W C)} {op : Op T W C} {t : T} {w : W}

@[simp] theorem after_nil : r.after ([] : List (Op T W C)) = r := rfl

@[simp] theorem after_snoc : r.after (ops ++ [op]) = (r.after ops).apply op := by
  simp [after]

theorem validFrom_nil : r.ValidFrom ([] : List (Op T W C)) := by
  intro before op rest h
  simp at h

theorem validFrom_snoc : r.ValidFrom (ops ++ [op]) ↔ r.ValidFrom ops ∧ (r.after ops).Enabled op := by
  constructor
  · intro h
    refine ⟨fun before x rest heq => h before x (rest ++ [op]) ?_, h ops op [] rfl⟩
    rw [heq, List.append_assoc, List.cons_append]
  · rintro ⟨hops, hop⟩ before x rest heq
    rcases snoc_eq_append_cons heq with ⟨-, rfl, rfl⟩ | ⟨rest', -, rfl⟩
    · exact hop
    · exact hops before x rest' rfl

theorem ValidFrom.left (h : r.ValidFrom (before ++ rest)) : r.ValidFrom before := by
  intro xs x ys heq
  exact h xs x (ys ++ rest) (by rw [heq, List.append_assoc, List.cons_append])

/-! ## Where the value comes from -/

/-- What is there now, or may be there after a loss, was there at first or has been set. -/
theorem ValidFrom.value_from {c : C} (h : (init c : Register T W C).ValidFrom ops) :
    ∀ x, x = ((init c).after ops).value ∨ x ∈ ((init c).after ops).kept →
      x = c ∨ ∃ t w old, Op.set t w old x ∈ ops := by
  induction ops using List.reverseRecOn with
  | nil =>
    rintro x (rfl | hx)
    · exact .inl rfl
    · exact .inl (List.mem_singleton.mp hx)
  | append_singleton ops op ih =>
    obtain ⟨hops, hop⟩ := validFrom_snoc.mp h
    have hbefore : ∀ x, x = ((init c).after ops).value ∨ x ∈ ((init c).after ops).kept →
        x = c ∨ ∃ t w old, Op.set t w old x ∈ ops ++ [op] := by
      intro x hx
      rcases ih hops x hx with hc | ⟨t, w, old, hmem⟩
      · exact .inl hc
      · exact .inr ⟨t, w, old, List.mem_append_left _ hmem⟩
    intro x hx
    rw [after_snoc] at hx
    cases op with
    | see w' c' => exact hbefore x hx
    | refuse t' w' => exact hbefore x hx
    | set t' w' old new =>
      have hnew : Op.set t' w' old new ∈ ops ++ [.set t' w' old new] :=
        List.mem_append_right _ List.mem_cons_self
      rcases hx with rfl | hx
      · exact .inr ⟨t', w', old, hnew⟩
      rcases List.mem_append.mp hx with hx | hx
      · exact hbefore x (.inr hx)
      · obtain rfl : x = new := List.mem_singleton.mp hx
        exact .inr ⟨t', w', old, hnew⟩
    | confirm t' w' =>
      rcases hx with hx | hx
      · exact hbefore x (.inl hx)
      · exact hbefore x (.inl (List.mem_singleton.mp hx))
    | lose c' =>
      obtain rfl : x = c' := hx.elim id fun hx => List.mem_singleton.mp hx
      exact hbefore x (.inr hop)

/-- Whose the value is has set it. -/
theorem set_of_setBy {c : C} (h : ((init c).after ops).setBy = some (t, w)) :
    ∃ earlier old later, ops = earlier ++ .set t w old ((init c).after ops).value :: later := by
  induction ops using List.reverseRecOn with
  | nil => cases h
  | append_singleton ops op ih =>
    have hbefore (hby : ((init c).after ops).setBy = some (t, w)) :
        ∃ earlier old later, ops ++ [op] = earlier ++ .set t w old ((init c).after ops).value :: later := by
      obtain ⟨earlier, old, later, heq⟩ := ih hby
      refine ⟨earlier, old, later ++ [op], ?_⟩
      rw [← List.cons_append, ← List.append_assoc, ← heq]
    rw [after_snoc] at h ⊢
    cases op with
    | see w' c' => exact hbefore h
    | refuse t' w' => exact hbefore h
    | confirm t' w' => exact hbefore h
    | lose c' => cases h
    | set t' w' old new =>
      cases h
      exact ⟨ops, old, [], rfl⟩

/-- **What is confirmed is not lost**: it is the value ever after, up to where a writer that has seen it
sets another. -/
theorem ValidFrom.confirmed (h : r.ValidFrom (before ++ .confirm t w :: rest)) :
    (r.after (before ++ .confirm t w :: rest)).value = (r.after before).value ∨
      ∃ mid t' w' new tail, rest = mid ++ .set t' w' (r.after before).value new :: tail ∧
        (r.after (before ++ .confirm t w :: mid)).seen w' = some (r.after before).value := by
  have hall : ((r.after (before ++ .confirm t w :: rest)).value = (r.after before).value ∧
      (r.after (before ++ .confirm t w :: rest)).kept = [(r.after before).value]) ∨
      ∃ mid t' w' new tail, rest = mid ++ .set t' w' (r.after before).value new :: tail ∧
        (r.after (before ++ .confirm t w :: mid)).seen w' = some (r.after before).value := by
    induction rest using List.reverseRecOn with
    | nil =>
      rw [after_snoc]
      exact .inl ⟨rfl, rfl⟩
    | append_singleton rest op ih =>
      rw [← List.cons_append, ← List.append_assoc] at h ⊢
      obtain ⟨hrest, hop⟩ := validFrom_snoc.mp h
      rcases ih hrest with ⟨hvalue, hkept⟩ | ⟨mid, t', w', new, tail, rfl, hseen⟩
      · rw [after_snoc]
        cases op with
        | see w' c' => exact .inl ⟨hvalue, hkept⟩
        | refuse t' w' => exact .inl ⟨hvalue, hkept⟩
        | set t' w' old new =>
          obtain ⟨hold, hseen⟩ := hop
          obtain rfl : (r.after before).value = old := hvalue.symm.trans hold
          exact .inr ⟨rest, t', w', new, [], rfl, hseen⟩
        | confirm t' w' =>
          refine .inl ⟨hvalue, ?_⟩
          rw [← hvalue]
          rfl
        | lose c' =>
          have hc : c' ∈ (r.after (before ++ .confirm t w :: rest)).kept := hop
          rw [hkept, List.mem_singleton] at hc
          rw [hc]
          exact .inl ⟨rfl, rfl⟩
      · refine .inr ⟨mid, t', w', new, tail ++ [op], ?_, hseen⟩
        rw [List.append_assoc, List.cons_append]
  exact hall.imp_left And.left

end

end Register

end Leshiy.Lib
