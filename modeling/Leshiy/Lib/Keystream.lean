import Mathlib.Data.List.Basic

/-!
# Stream ciphers

A stream cipher in counter mode is its keystream: a byte for each position. Encrypting and decrypting are
the same exclusive or, and a text may be processed in any parts as long as the position goes on.
-/

namespace Leshiy.Lib

/-- Text under a keystream, from a position on. -/
def xorAt (ks : Nat → UInt8) : Nat → List UInt8 → List UInt8
  | _, [] => []
  | pos, b :: bs => (b ^^^ ks pos) :: xorAt ks (pos + 1) bs

section

variable {ks : Nat → UInt8}

@[simp] theorem length_xorAt : ∀ (pos : Nat) (bs : List UInt8), (xorAt ks pos bs).length = bs.length
  | _, [] => rfl
  | pos, _ :: bs => by rw [xorAt, List.length_cons, List.length_cons, length_xorAt (pos + 1) bs]

/-- **A text may be processed in parts.** -/
theorem xorAt_append : ∀ (pos : Nat) (xs ys : List UInt8),
    xorAt ks pos (xs ++ ys) = xorAt ks pos xs ++ xorAt ks (pos + xs.length) ys
  | _, [], _ => rfl
  | pos, x :: xs, ys => by
    rw [List.cons_append, xorAt, xorAt, xorAt_append (pos + 1) xs ys, List.length_cons,
      Nat.add_right_comm, Nat.add_assoc, List.cons_append]

/-- **The same keystream takes itself away.** -/
@[simp] theorem xorAt_xorAt : ∀ (pos : Nat) (bs : List UInt8), xorAt ks pos (xorAt ks pos bs) = bs
  | _, [] => rfl
  | pos, b :: bs => by
    rw [xorAt, xorAt, xorAt_xorAt (pos + 1) bs, UInt8.xor_assoc, UInt8.xor_self, UInt8.xor_zero]

theorem xorAt_prefix (ks : Nat → UInt8) {xs ys : List UInt8} (h : xs <+: ys) (pos : Nat) :
    xorAt ks pos xs <+: xorAt ks pos ys := by
  obtain ⟨zs, rfl⟩ := h
  rw [xorAt_append]
  exact List.prefix_append _ _

end

/-- A cipher at work: its keystream and how much of it is used up. -/
structure Ctr where
  ks : Nat → UInt8
  pos : Nat

namespace Ctr

def new (ks : Nat → UInt8) : Ctr := ⟨ks, 0⟩

/-- `apply_keystream`: the text, and the cipher behind it. -/
def apply (c : Ctr) (bs : List UInt8) : List UInt8 × Ctr :=
  (xorAt c.ks c.pos bs, { c with pos := c.pos + bs.length })

end Ctr

end Leshiy.Lib
