import Leshiy.Lib.BigEndian

/-!
# Scanning a buffer

A scanner reads a buffer at positions that it computes. It gives up where it reads behind the end. A
position that no machine word holds and a loop that goes on for ever are faults: `Ensures` says that
there is none, and what is known of the result.
-/

namespace Leshiy.Lib

/-- The widths of a machine word. -/
inductive Width where
  | w32
  | w64
  deriving DecidableEq, Repr

/-- How many values a word has. -/
def Width.usize : Width → Nat
  | .w32 => 4294967296
  | .w64 => 18446744073709551616

/-- The bytes of a slice, which fill at most half of the address space. -/
structure Slice (w : Width) where
  bytes : List UInt8
  fits : 2 * bytes.length ≤ w.usize

inductive Stop where
  | malformed
  | overflow
  | endless
  deriving DecidableEq, Repr

abbrev Scan (α : Type) := Except Stop α

namespace Scan

/-- `usize` addition. -/
def add (w : Width) (i k : Nat) : Scan Nat := if i + k < w.usize then .ok (i + k) else .error .overflow

/-- What is there, or a malformed buffer. -/
def orMalformed {α : Type} : Option α → Scan α
  | some a => .ok a
  | none => .error .malformed

/-- `buf.get(i)`. -/
def get (buf : List UInt8) (i : Nat) : Scan UInt8 := orMalformed buf[i]?

/-- `buf.get(i..j)`. -/
def getRange (buf : List UInt8) (i j : Nat) : Scan (List UInt8) :=
  if i ≤ j ∧ j ≤ buf.length then .ok ((buf.drop i).take (j - i)) else .error .malformed

/-- Two bytes as a number, the high one first. -/
def u16 (w : Width) (buf : List UInt8) (i : Nat) : Scan Nat := do
  let hi ← get buf i
  let i' ← add w i 1
  let lo ← get buf i'
  return beDecode [hi, lo]

/-! ## Scans without a fault -/

variable {α β : Type} {w : Width} {buf rest : List UInt8} {i k : Nat}

/-- No fault, and what is found meets the condition. -/
def Ensures (x : Scan α) (P : α → Prop) : Prop :=
  match x with
  | .ok a => P a
  | .error e => e = .malformed

theorem Ensures.bind {x : Scan α} {f : α → Scan β} {P : α → Prop} {Q : β → Prop} (hx : Ensures x P)
    (hf : ∀ a, P a → Ensures (f a) Q) : Ensures (x >>= f) Q := by
  cases x with
  | error e => exact hx
  | ok a => exact hf a hx

theorem Ensures.mono {x : Scan α} {P Q : α → Prop} (hx : Ensures x P) (h : ∀ a, P a → Q a) :
    Ensures x Q := by
  cases x with
  | error e => exact hx
  | ok a => exact h a hx

theorem ensures_orMalformed {o : Option α} {P : α → Prop} (h : ∀ a, o = some a → P a) :
    Ensures (orMalformed o) P := by
  cases o with
  | none => rfl
  | some a => exact h a rfl

theorem ensures_add {P : Nat → Prop} (hfits : i + k < w.usize) (h : P (i + k)) :
    Ensures (add w i k) P := by
  rw [add, if_pos hfits]
  exact h

/-- What can be read is in the buffer. -/
theorem ensures_get : Ensures (get buf i) fun _ => i < buf.length :=
  ensures_orMalformed fun _ h => (List.getElem?_eq_some_iff.mp h).1

theorem ensures_getRange {j : Nat} :
    Ensures (getRange buf i j) fun b => b.length = j - i ∧ j ≤ buf.length := by
  unfold getRange
  split
  · next h =>
    refine ⟨?_, h.2⟩
    rw [List.length_take, List.length_drop]
    omega
  · rfl

theorem ensures_u16 (s : Slice w) : Ensures (u16 w s.bytes i) fun n => n < 65536 ∧ i < s.bytes.length := by
  have hfits := s.fits
  refine ensures_get.bind fun hi hlt => ?_
  refine (ensures_add (P := fun _ => True) (by omega) trivial).bind fun _ _ => ?_
  refine ensures_get.bind fun lo _ => ?_
  have hval : beDecode [hi, lo] < 65536 := (beDecode_lt [hi, lo]).trans_eq (by norm_num)
  exact And.intro hval hlt

/-! ## What stands at a position -/

theorem drop_add {x : List UInt8} (h : buf.drop i = x ++ rest) : buf.drop (i + x.length) = rest := by
  rw [← List.drop_drop, h, List.drop_left]

theorem lt_length_of_drop {b : UInt8} (h : buf.drop i = b :: rest) : i < buf.length := by
  by_contra hle
  rw [List.drop_eq_nil_of_le (Nat.le_of_not_lt hle)] at h
  cases h

theorem add_eq_ok (h : i + k < w.usize) : add w i k = .ok (i + k) := if_pos h

theorem get_eq_ok {b : UInt8} (h : buf.drop i = b :: rest) : get buf i = .ok b := by
  have hget : (buf.drop i)[0]? = buf[i + 0]? := List.getElem?_drop
  rw [h, Nat.add_zero] at hget
  rw [get, ← hget]
  rfl

theorem getRange_eq_ok {x : List UInt8} (h : buf.drop i = x ++ rest) (hi : i ≤ buf.length) :
    getRange buf i (i + x.length) = .ok x := by
  have hlen : (buf.drop i).length = x.length + rest.length := by rw [h, List.length_append]
  rw [List.length_drop] at hlen
  rw [getRange, if_pos ⟨Nat.le_add_right _ _, by omega⟩, h, Nat.add_sub_cancel_left, List.take_left]

theorem u16_eq_ok {s : Slice w} {n : Nat} (h : s.bytes.drop i = beEncode 2 n ++ rest)
    (hn : n < 65536) : u16 w s.bytes i = .ok n := by
  have hfits := s.fits
  have hdec : beDecode (beEncode 2 n) = n := beDecode_beEncode (hn.trans_eq (by norm_num))
  obtain ⟨hi, lo, hb⟩ : ∃ hi lo, beEncode 2 n = [hi, lo] := ⟨_, _, rfl⟩
  rw [hb] at h hdec
  have hhi : s.bytes.drop i = hi :: (lo :: rest) := h
  have hlo : s.bytes.drop (i + 1) = lo :: rest := drop_add (x := [hi]) h
  have hlt := lt_length_of_drop hhi
  rw [u16, get_eq_ok hhi]
  show (add w i 1 >>= fun i' => get s.bytes i' >>= fun lo => pure (beDecode [hi, lo])) = _
  rw [add_eq_ok (by omega)]
  show (get s.bytes (i + 1) >>= fun lo => pure (beDecode [hi, lo])) = _
  rw [get_eq_ok hlo]
  exact congrArg Except.ok hdec

end Scan

end Leshiy.Lib
