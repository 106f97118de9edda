import Mathlib.Data.List.Basic
import Mathlib.Data.List.Perm.Basic

/-!
# An unreliable channel with an inbox

Messages travel, may be lost and may overtake each other. The receiving end takes one after the other off the
way and puts it into an inbox of bounded size, from which the receiver is handed them, or gives it up. What is
left of the inbox when the receiver goes is given up as well.

`Carried cap fifo sent handed gone c` says that the channel may have come to `c` while these messages were put
on the way, handed over and given up, each list in order. With `fifo` no message overtakes another.
-/

namespace Leshiy.Lib

structure Lossy (α : Type) where
  transit : List α
  /-- Taken off the way and not yet offered to the inbox. -/
  held : Option α
  inbox : List α

namespace Lossy

variable {α : Type}

def empty : Lossy α := ⟨[], none, []⟩

/-- What has been neither handed over nor given up, in the order in which it would be handed over. -/
def pending (c : Lossy α) : List α := c.inbox ++ c.held.toList ++ c.transit

/-- One step, with what it puts on the way, hands over and gives up. -/
inductive Step (cap : Nat) (fifo : Prop) : Lossy α → List α → List α → List α → Lossy α → Prop
  | idle {c : Lossy α} : Step cap fifo c [] [] [] c
  | put {t i : List α} {h : Option α} (x : α) : Step cap fifo ⟨t, h, i⟩ [x] [] [] ⟨t ++ [x], h, i⟩
  | lose {before after i : List α} {h : Option α} {x : α} :
      Step cap fifo ⟨before ++ x :: after, h, i⟩ [] [] [x] ⟨before ++ after, h, i⟩
  | take {before after i : List α} {x : α} (hfirst : fifo → before = []) :
      Step cap fifo ⟨before ++ x :: after, none, i⟩ [] [] [] ⟨before ++ after, some x, i⟩
  | accept {t i : List α} {x : α} (hroom : i.length < cap) :
      Step cap fifo ⟨t, some x, i⟩ [] [] [] ⟨t, none, i ++ [x]⟩
  | refuse {t i : List α} {x : α} : Step cap fifo ⟨t, some x, i⟩ [] [] [x] ⟨t, none, i⟩
  | hand {t i : List α} {h : Option α} {x : α} : Step cap fifo ⟨t, h, x :: i⟩ [] [x] [] ⟨t, h, i⟩
  | abandon {t i : List α} {h : Option α} : Step cap fifo ⟨t, h, i⟩ [] [] i ⟨t, h, []⟩

/-- A history of the channel. -/
inductive Carried (cap : Nat) (fifo : Prop) : List α → List α → List α → Lossy α → Prop
  | start : Carried cap fifo [] [] [] empty
  | step {s h g p h' g' : List α} {c c' : Lossy α} :
      Carried cap fifo s h g c → Step cap fifo c p h' g' c' →
      Carried cap fifo (s ++ p) (h ++ h') (g ++ g') c'

variable {cap : Nat} {fifo : Prop} {p h g sent handed gone : List α} {c c' : Lossy α}

/-! ## One step -/

/-- A step only moves messages. -/
theorem Step.perm (hs : Step cap fifo c p h g c') : (c.pending ++ p).Perm (h ++ g ++ c'.pending) := by
  cases hs with
  | idle => simp
  | put => simp [pending]
  | @lose before after i h x =>
    simp only [pending, List.append_nil, List.nil_append, ← List.append_assoc, List.singleton_append]
    exact List.perm_middle
  | @take before after i x =>
    simp only [pending, Option.toList_none, Option.toList_some, List.append_nil, List.nil_append,
      List.append_assoc, List.singleton_append]
    exact List.Perm.append_left i List.perm_middle
  | accept => simp [pending]
  | @refuse t i x =>
    simp only [pending, Option.toList_none, Option.toList_some, List.append_nil, List.nil_append,
      List.append_assoc, List.singleton_append]
    exact List.perm_middle
  | hand => simp [pending]
  | abandon => simp [pending]

/-- Without overtaking, what a step leaves is still in order behind what it hands over. -/
theorem Step.sublist (hs : Step cap fifo c p h g c') (hfifo : fifo) :
    (h ++ c'.pending).Sublist (c.pending ++ p) := by
  cases hs with
  | idle => simp
  | put => simp [pending]
  | @lose before after i h x =>
    simp only [pending, List.append_nil, List.nil_append, List.append_assoc]
    exact ((((List.Sublist.refl after).cons x).append_left before).append_left h.toList).append_left i
  | take hfirst => simp [pending, hfirst hfifo]
  | accept => simp [pending]
  | @refuse t i x =>
    simp only [pending, Option.toList_none, Option.toList_some, List.append_nil, List.nil_append,
      List.append_assoc, List.singleton_append]
    exact ((List.Sublist.refl t).cons x).append_left i
  | hand => simp [pending]
  | abandon =>
    simp only [pending, List.append_nil, List.nil_append, List.append_assoc]
    exact List.sublist_append_right _ _

theorem Step.length_inbox_le (hs : Step cap fifo c p h g c') (hc : c.inbox.length ≤ cap) :
    c'.inbox.length ≤ cap := by
  cases hs with
  | idle => exact hc
  | put => exact hc
  | lose => exact hc
  | take => exact hc
  | accept hroom =>
    rw [List.length_append, List.length_singleton]
    exact hroom
  | refuse => exact hc
  | hand => exact Nat.le_of_succ_le hc
  | abandon => exact Nat.zero_le cap

/-! ## Histories -/

/-- **Nothing is invented, doubled or forgotten.** What was sent is what was handed over, what was given up
and what is still under way. -/
theorem Carried.perm (hc : Carried cap fifo sent handed gone c) :
    sent.Perm (handed ++ gone ++ c.pending) := by
  induction hc with
  | start => exact List.Perm.refl _
  | @step s h g p h' g' c c' _ hs ih =>
    calc (s ++ p).Perm (h ++ g ++ c.pending ++ p) := ih.append_right p
      _ = h ++ g ++ (c.pending ++ p) := List.append_assoc _ _ _
      List.Perm _ (h ++ g ++ (h' ++ g' ++ c'.pending)) := hs.perm.append_left _
      _ = h ++ (g ++ h') ++ (g' ++ c'.pending) := by simp only [List.append_assoc]
      List.Perm _ (h ++ (h' ++ g) ++ (g' ++ c'.pending)) :=
        (List.perm_append_comm.append_left h).append_right _
      _ = h ++ h' ++ (g ++ g') ++ c'.pending := by simp only [List.append_assoc]

/-- Without overtaking, messages are handed over in the order in which they were sent, and those that follow
come after them. -/
theorem Carried.sublist (hc : Carried cap fifo sent handed gone c) (hfifo : fifo) :
    (handed ++ c.pending).Sublist sent := by
  induction hc with
  | start => exact List.Sublist.refl _
  | @step s h g p h' g' c c' _ hs ih =>
    have hstep : (h ++ (h' ++ c'.pending)).Sublist (h ++ (c.pending ++ p)) :=
      (hs.sublist hfifo).append_left h
    rw [List.append_assoc]
    refine hstep.trans ?_
    rw [← List.append_assoc]
    exact ih.append_right p

/-- If nothing was given up either, what was handed over and what follows is what was sent. -/
theorem Carried.eq_of_gone_nil (hc : Carried cap fifo sent handed [] c) (hfifo : fifo) :
    handed ++ c.pending = sent := by
  refine (hc.sublist hfifo).eq_of_length ?_
  have hlen := hc.perm.length_eq
  rw [List.append_nil] at hlen
  exact hlen.symm

theorem Carried.length_inbox_le (hc : Carried cap fifo sent handed gone c) : c.inbox.length ≤ cap := by
  induction hc with
  | start => exact Nat.zero_le cap
  | step _ hs ih => exact hs.length_inbox_le ih

end Lossy

end Leshiy.Lib
