/-!
# Programs that call out

A program ends with a value, or asks something of its surroundings and goes on from the answer. The
surroundings are a function `step`: from a state, a call and the answer given to it, the state that the
call leaves. `none` means that the answer cannot be given in that state.

What a program ensures is a condition on every state that a call leaves and one on how it ends, whatever
the answers are.
-/

namespace Leshiy.Lib

inductive Prog (C O α : Type) where
  | done (a : α)
  | call (c : C) (k : O → Prog C O α)

namespace Prog

variable {C O E α β : Type}

def bind : Prog C O α → (α → Prog C O β) → Prog C O β
  | done a, f => f a
  | call c k, f => call c fun o => (k o).bind f

instance : Monad (Prog C O) where
  pure := done
  bind := bind

def ask (c : C) : Prog C O O := call c done

/-- The run on a list of answers: the calls with their answers and the states they leave, the value and
the state at the end. -/
def eval (step : E → C → O → Option E) :
    Prog C O α → E → List O → Option (List (C × O × E) × α × E)
  | done a, e, [] => some ([], a, e)
  | done _, _, _ :: _ => none
  | call _ _, _, [] => none
  | call c k, e, o :: os => do
    let e' ← step e c o
    let (log, a, last) ← eval step (k o) e' os
    return ((c, o, e') :: log, a, last)

/-- How far the answers lead, be it to the end or not. -/
def advance (step : E → C → O → Option E) : Prog C O α → E → List O → Option E
  | _, e, [] => some e
  | done _, _, _ :: _ => none
  | call c k, e, o :: os => do
    let e' ← step e c o
    advance step (k o) e' os

/-- Whatever the answers are, each call leaves a state with `I` and the end is one with `Q`. -/
def Ensures (step : E → C → O → Option E) (I : E → Prop) (Q : α → E → Prop) :
    Prog C O α → E → Prop
  | done a, e => Q a e
  | call c k, e => ∀ o e', step e c o = some e' → I e' ∧ Ensures step I Q (k o) e'

variable {step : E → C → O → Option E} {I : E → Prop} {Q Q' : α → E → Prop} {R : β → E → Prop}

theorem Ensures.mono (hQ : ∀ a e, Q a e → Q' a e) : ∀ {p : Prog C O α} {e : E},
    Ensures step I Q p e → Ensures step I Q' p e
  | done _, _, h => hQ _ _ h
  | call _ _, _, h => fun o e' hstep => ⟨(h o e' hstep).1, (h o e' hstep).2.mono hQ⟩

theorem Ensures.weaken {I' : E → Prop} (hI : ∀ e, I e → I' e) : ∀ {p : Prog C O α} {e : E},
    Ensures step I Q p e → Ensures step I' Q p e
  | done _, _, h => h
  | call _ _, _, h => fun o e' hstep => ⟨hI _ (h o e' hstep).1, (h o e' hstep).2.weaken hI⟩

/-- One program after the other. -/
theorem Ensures.bind {f : α → Prog C O β} : ∀ {p : Prog C O α} {e : E},
    Ensures step I (fun a e => Ensures step I R (f a) e) p e → Ensures step I R (p >>= f) e
  | done _, _, h => h
  | call _ _, _, h => fun o e' hstep => ⟨(h o e' hstep).1, (h o e' hstep).2.bind⟩

theorem Ensures.ask {P : O → E → Prop} {c : C} {e : E}
    (h : ∀ o e', step e c o = some e' → I e' ∧ P o e') : Ensures step I P (Prog.ask c) e := h

/-! ## Programs that can fail -/

section

variable {ε : Type} {S : Except ε β → E → Prop}

/-- After a failure nothing more is done. -/
theorem Ensures.bindE {x : ExceptT ε (Prog C O) α} {f : α → ExceptT ε (Prog C O) β} {e : E}
    (h : Ensures step I (fun r e => match r with
      | .ok a => Ensures step I S (f a).run e
      | .error err => S (.error err) e) x.run e) :
    Ensures step I S (x >>= f).run e := by
  refine Ensures.bind (h.mono fun r e hr => ?_)
  cases r with
  | ok a => exact hr
  | error err => exact hr

/-- A program whose failure is a value. -/
theorem Ensures.lift {x : Prog C O α} {f : α → ExceptT ε (Prog C O) β} {e : E}
    (h : Ensures step I (fun a e => Ensures step I S (f a).run e) x e) :
    Ensures step I S (ExceptT.lift x >>= f).run e :=
  Ensures.bindE (Ensures.bind h)

theorem Ensures.liftE {c : Except ε β} {e : E} (h : S c e) :
    Ensures step I S (liftM c : ExceptT ε (Prog C O) β).run e := h

end

/-- **What a program ensures holds of every run.** -/
theorem Ensures.eval : ∀ {p : Prog C O α} {e last : E} {os : List O} {log : List (C × O × E)} {a : α},
    Ensures step I Q p e → p.eval step e os = some (log, a, last) →
    (∀ called ∈ log, I called.2.2) ∧ Q a last
  | done a, e, last, [], log, b, h, heval => by
    cases heval
    exact ⟨fun _ hmem => absurd hmem List.not_mem_nil, h⟩
  | call c k, e, last, o :: os, log, b, h, heval => by
    rw [Prog.eval] at heval
    obtain ⟨e', hstep, heval⟩ := Option.bind_eq_some_iff.mp heval
    obtain ⟨⟨log', b', last'⟩, hrest, heval⟩ := Option.bind_eq_some_iff.mp heval
    cases heval
    obtain ⟨hI, hk⟩ := h o e' hstep
    obtain ⟨hlog, hQ⟩ := hk.eval hrest
    refine ⟨fun called hmem => ?_, hQ⟩
    rcases List.mem_cons.mp hmem with rfl | hmem
    · exact hI
    · exact hlog called hmem

/-- What each call leaves holds wherever the program is stopped. -/
theorem Ensures.advance : ∀ {p : Prog C O α} {e last : E} {os : List O},
    Ensures step I Q p e → I e → p.advance step e os = some last → I last
  | done _, e, last, [], _, he, h => by
    cases h
    exact he
  | call _ _, e, last, [], _, he, h => by
    cases h
    exact he
  | done _, _, _, _ :: _, _, _, h => nomatch h
  | call c k, e, last, o :: os, hp, he, h => by
    obtain ⟨e', hstep, h⟩ := Option.bind_eq_some_iff.mp h
    obtain ⟨he', hk⟩ := hp o e' hstep
    exact hk.advance he' h

/-! ## Programs within programs -/

/-- The same program, on calls of another kind. -/
def mapCall {C' : Type} (f : C → C') : Prog C O α → Prog C' O α
  | done a => done a
  | call c k => call (f c) fun o => mapCall f (k o)

/-- What a program ensures of a part of the surroundings it ensures where it runs on that part, and `J` is
what its calls keep of the rest. -/
theorem Ensures.mapCall {C' E' : Type} {f : C → C'} {step' : E' → C' → O → Option E'} (part : E' → E)
    (J : E' → Prop)
    (hstep : ∀ e' c o e'', J e' → step' e' (f c) o = some e'' →
      J e'' ∧ step (part e') c o = some (part e'')) :
    ∀ {p : Prog C O α} {e' : E'}, Ensures step I Q p (part e') → J e' →
      Ensures step' (fun e' => J e' ∧ I (part e')) (fun a e' => J e' ∧ Q a (part e')) (p.mapCall f) e'
  | done _, _, h, hJ => ⟨hJ, h⟩
  | call _ _, _, h, hJ => fun o e'' he => by
    obtain ⟨hJ', hpart⟩ := hstep _ _ o e'' hJ he
    obtain ⟨hI, hk⟩ := h o _ hpart
    exact ⟨⟨hJ', hI⟩, Ensures.mapCall part J hstep hk hJ'⟩

/-- A run in which only some answers are given is one in surroundings that give no others. -/
theorem eval_restrict {ok : C → O → Bool} : ∀ {p : Prog C O α} {e last : E} {os : List O}
    {log : List (C × O × E)} {a : α}, p.eval step e os = some (log, a, last) →
    (∀ called ∈ log, ok called.1 called.2.1) →
    p.eval (fun e c o => if ok c o then step e c o else none) e os = some (log, a, last)
  | done a, e, last, [], log, b, heval, _ => heval
  | call c k, e, last, o :: os, log, b, heval, hok => by
    rw [Prog.eval] at heval ⊢
    obtain ⟨e', hstep, heval⟩ := Option.bind_eq_some_iff.mp heval
    obtain ⟨⟨log', b', last'⟩, hrest, heval⟩ := Option.bind_eq_some_iff.mp heval
    cases heval
    have hhead : ok c o := hok _ List.mem_cons_self
    have htail := eval_restrict hrest fun called hmem => hok called (List.mem_cons_of_mem _ hmem)
    simp only [hhead, if_true, hstep, Option.bind_eq_bind, Option.bind_some, htail]
    rfl

end Prog

end Leshiy.Lib
