import Mathlib.Data.List.Basic

/-!
# Streams that arrive in chunks

A stream is a list of chunks; how it was cut is up to the network. `readExact n` collects `n`
elements over as many chunks as it takes and leaves what is left of the last one in front. What
it returns depends on the concatenation alone.
-/

namespace Leshiy.Lib

variable {α : Type}

/-- `n` elements off the front of a stream; `none` if it ends before. -/
def readExact (n : Nat) : List (List α) → Option (List α × List (List α))
  | [] => if n = 0 then some ([], []) else none
  | c :: cs =>
    if c.length < n then (readExact (n - c.length) cs).map fun (b, cs') => (c ++ b, cs')
    else some (c.take n, c.drop n :: cs)

/-- **A stream that is long enough gives its first elements**, however it was cut. -/
theorem readExact_eq_some {n : Nat} {cs : List (List α)} (h : n ≤ cs.flatten.length) :
    ∃ cs', readExact n cs = some (cs.flatten.take n, cs') ∧ cs'.flatten = cs.flatten.drop n := by
  induction cs generalizing n with
  | nil =>
    have hn : n = 0 := by simpa using h
    exact ⟨[], by simp [readExact, hn], by simp⟩
  | cons c cs ih =>
    rw [List.flatten_cons, List.length_append] at h
    by_cases hc : c.length < n
    · obtain ⟨cs', hread, hrest⟩ := ih (show n - c.length ≤ cs.flatten.length by omega)
      refine ⟨cs', ?_, ?_⟩
      · rw [readExact, if_pos hc, hread, Option.map_some, List.flatten_cons, List.take_append,
          List.take_of_length_le (Nat.le_of_lt hc)]
      · rw [hrest, List.flatten_cons, List.drop_append, List.drop_eq_nil_of_le (Nat.le_of_lt hc),
          List.nil_append]
    · refine ⟨c.drop n :: cs, ?_, ?_⟩
      · rw [readExact, if_neg hc, List.flatten_cons, List.take_append_of_le_length (by omega)]
      · rw [List.flatten_cons, List.flatten_cons, List.drop_append_of_le_length (by omega)]

theorem readExact_eq_none {n : Nat} {cs : List (List α)} (h : cs.flatten.length < n) :
    readExact n cs = none := by
  induction cs generalizing n with
  | nil =>
    have hn : n ≠ 0 := by
      rintro rfl
      simp at h
    simp [readExact, hn]
  | cons c cs ih =>
    rw [List.flatten_cons, List.length_append] at h
    have hc : c.length < n := by omega
    rw [readExact, if_pos hc, ih (show cs.flatten.length < n - c.length by omega), Option.map_none]

end Leshiy.Lib
