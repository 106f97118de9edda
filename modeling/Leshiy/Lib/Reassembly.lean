import Mathlib.Data.List.Basic

/-!
# Messages out of a stream that arrives in pieces

A framing takes a message off the front of a stream if a whole one is there, and what comes later does
not change it. So the messages of a stream can be taken as its pieces arrive, with what is left over put
in front of the next piece: `split_append`.
-/

namespace Leshiy.Lib

structure Framing (α β : Type) where
  /-- A message and what is behind it. -/
  take : List α → Option (β × List α)
  shorter : ∀ {s m r}, take s = some (m, r) → r.length < s.length
  extend : ∀ {s m r} (t), take s = some (m, r) → take (s ++ t) = some (m, r ++ t)

namespace Framing

variable {α β : Type} (F : Framing α β)

def splitLoop : Nat → List α → List β × List α
  | 0, s => ([], s)
  | fuel + 1, s =>
    match F.take s with
    | none => ([], s)
    | some (m, r) => (m :: (splitLoop fuel r).1, (splitLoop fuel r).2)

/-- All messages, and what is left over. -/
def split (s : List α) : List β × List α := F.splitLoop s.length s

variable {F} {s r t : List α} {m : β}

theorem take_nil : F.take [] = none := by
  cases h : F.take [] with
  | none => rfl
  | some mr => exact absurd (F.shorter (m := mr.1) (r := mr.2) h) (Nat.not_lt_zero _)

theorem splitLoop_nil : ∀ fuel : Nat, F.splitLoop fuel [] = ([], [])
  | 0 => rfl
  | fuel + 1 => by rw [splitLoop, take_nil]

/-- More fuel changes nothing. -/
theorem splitLoop_congr {n m : Nat} (hn : s.length ≤ n) (hm : s.length ≤ m) :
    F.splitLoop n s = F.splitLoop m s := by
  induction n generalizing m s with
  | zero =>
    rw [List.length_eq_zero_iff.mp (Nat.le_zero.mp hn), splitLoop_nil, splitLoop_nil]
  | succ n ih =>
    cases m with
    | zero => rw [List.length_eq_zero_iff.mp (Nat.le_zero.mp hm), splitLoop_nil, splitLoop_nil]
    | succ m =>
      rw [splitLoop, splitLoop]
      cases htake : F.take s with
      | none => rfl
      | some mr =>
        have hlt := F.shorter htake
        dsimp only
        rw [ih (show mr.2.length ≤ n by omega) (show mr.2.length ≤ m by omega)]

theorem splitLoop_eq {fuel : Nat} (h : s.length ≤ fuel) : F.splitLoop fuel s = F.split s :=
  splitLoop_congr h (Nat.le_refl _)

theorem split_of_none (h : F.take s = none) : F.split s = ([], s) := by
  rw [split]
  cases hlen : s.length with
  | zero => rfl
  | succ n => rw [splitLoop, h]

theorem split_of_some (h : F.take s = some (m, r)) :
    F.split s = (m :: (F.split r).1, (F.split r).2) := by
  have hlt := F.shorter h
  obtain ⟨n, hn⟩ : ∃ n, s.length = n + 1 := ⟨s.length - 1, by omega⟩
  rw [split, hn, splitLoop, h]
  dsimp only
  rw [splitLoop_eq (show r.length ≤ n by omega)]

/-- **The messages of a stream are those of a part of it and those of what is left over and the
rest.** -/
theorem split_append (s t : List α) : F.split (s ++ t) =
    ((F.split s).1 ++ (F.split ((F.split s).2 ++ t)).1, (F.split ((F.split s).2 ++ t)).2) := by
  cases h : F.take s with
  | none =>
    rw [split_of_none h]
    rfl
  | some mr =>
    obtain ⟨m, r⟩ := mr
    have hlt := F.shorter h
    rw [split_of_some h, split_of_some (F.extend t h), split_append r t]
    rfl
termination_by s.length

/-- What is left over has no whole message in front. -/
theorem take_split (s : List α) : F.take (F.split s).2 = none := by
  cases h : F.take s with
  | none => rwa [split_of_none h]
  | some mr =>
    obtain ⟨m, r⟩ := mr
    have hlt := F.shorter h
    rw [split_of_some h]
    exact take_split r
termination_by s.length

end Framing

end Leshiy.Lib
