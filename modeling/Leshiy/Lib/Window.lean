import Mathlib.Data.List.Basic

/-!
# Where a pattern stands

`windows(n).position(|w| w == pat)` of a slice and `find(pat)` of a string: the first place where the list
goes on with the pattern.
-/

namespace Leshiy.Lib

variable {α : Type} [DecidableEq α]

/-- The first place of the pattern, which is not empty. -/
def windowPosition (pat : List α) : List α → Option Nat
  | [] => none
  | a :: s => if pat.isPrefixOf (a :: s) then some 0 else (windowPosition pat s).map (· + 1)

section

variable {x : α} {pat l s : List α} {i : Nat}

theorem windowPosition_prefix (s : List α) : windowPosition (x :: pat) (x :: pat ++ s) = some 0 := by
  have hpre : (x :: pat).isPrefixOf (x :: (pat ++ s)) := List.isPrefixOf_iff_prefix.mpr ⟨s, rfl⟩
  rw [List.cons_append, windowPosition, if_pos hpre]

theorem windowPosition_cons_of_ne {y : α} (h : y ≠ x) :
    windowPosition (x :: pat) (y :: s) = (windowPosition (x :: pat) s).map (· + 1) := by
  have hpre : ¬(x :: pat).isPrefixOf (y :: s) := fun hpre =>
    h (List.cons_prefix_cons.mp (List.isPrefixOf_iff_prefix.mp hpre)).1.symm
  rw [windowPosition, if_neg hpre]

/-- The pattern does not begin where its first element does not stand. -/
theorem windowPosition_append : ∀ {l : List α}, x ∉ l →
    windowPosition (x :: pat) (l ++ s) = (windowPosition (x :: pat) s).map (· + l.length)
  | [], _ => by simp
  | y :: l, h => by
    have hy : y ≠ x := fun hyx => h (hyx ▸ List.mem_cons_self)
    have htail : windowPosition (x :: pat) (l ++ s) = (windowPosition (x :: pat) s).map (· + l.length) :=
      windowPosition_append fun hx => h (List.mem_cons_of_mem y hx)
    rw [List.cons_append, windowPosition_cons_of_ne hy, htail, Option.map_map]
    rfl

/-- A place is inside the list, and the pattern too. -/
theorem windowPosition_le : ∀ {s : List α} {i : Nat}, windowPosition pat s = some i → i + pat.length ≤ s.length
  | [], _, h => by cases h
  | a :: s, i, h => by
    rw [windowPosition] at h
    split at h
    · next hpre =>
      cases h
      have hlen := (List.isPrefixOf_iff_prefix.mp hpre).length_le
      omega
    · obtain ⟨j, hj, rfl⟩ := Option.map_eq_some_iff.mp h
      have hlen := windowPosition_le hj
      rw [List.length_cons]
      omega

/-! ## Patterns that end in a mark

Where the mark stands nowhere else in the pattern, a text is looked through from mark to mark. -/

omit [DecidableEq α] in
theorem eq_of_append_cons : ∀ {key l t r : List α}, x ∉ key → x ∉ l → key ++ x :: t = l ++ x :: r →
    key = l ∧ t = r
  | [], [], _, _, _, _, h => ⟨rfl, (List.cons.inj h).2⟩
  | [], y :: l, _, _, _, hl, h => absurd ((List.cons.inj h).1 ▸ List.mem_cons_self) hl
  | k :: key, [], _, _, hkey, _, h => absurd ((List.cons.inj h).1 ▸ List.mem_cons_self) hkey
  | k :: key, y :: l, _, _, hkey, hl, h => by
    obtain ⟨rfl, htail⟩ := List.cons.inj h
    obtain ⟨rfl, rfl⟩ := eq_of_append_cons (fun hx => hkey (List.mem_cons_of_mem k hx))
      (fun hx => hl (List.mem_cons_of_mem k hx)) htail
    exact ⟨rfl, rfl⟩

/-- The pattern stands in front of the first mark or behind it. -/
theorem windowPosition_mark {key rest : List α} (hkey : x ∉ key) : ∀ {l : List α}, x ∉ l →
    windowPosition (key ++ [x]) (l ++ x :: rest) =
      if key <:+ l then some (l.length - key.length)
      else (windowPosition (key ++ [x]) rest).map (· + (l.length + 1))
  | [], _ => by
    have hpre : (key ++ [x]).isPrefixOf (x :: rest) ↔ key <:+ [] := by
      rw [List.isPrefixOf_iff_prefix, List.suffix_nil]
      constructor
      · rintro ⟨t, ht⟩
        rw [List.append_assoc] at ht
        exact (eq_of_append_cons (l := []) hkey List.not_mem_nil ht).1
      · rintro rfl
        exact ⟨rest, rfl⟩
    rw [List.nil_append, windowPosition]
    by_cases hsuf : key <:+ []
    · rw [if_pos (hpre.mpr hsuf), if_pos hsuf, List.length_nil, Nat.zero_sub]
    · rw [if_neg (mt hpre.mp hsuf), if_neg hsuf, List.length_nil]
  | y :: l, hl => by
    have htail : windowPosition (key ++ [x]) (l ++ x :: rest) =
        if key <:+ l then some (l.length - key.length)
        else (windowPosition (key ++ [x]) rest).map (· + (l.length + 1)) :=
      windowPosition_mark hkey fun hx => hl (List.mem_cons_of_mem y hx)
    have hpre : (key ++ [x]).isPrefixOf (y :: (l ++ x :: rest)) ↔ key = y :: l := by
      rw [List.isPrefixOf_iff_prefix]
      constructor
      · rintro ⟨t, ht⟩
        rw [List.append_assoc] at ht
        exact (eq_of_append_cons (l := y :: l) hkey hl ht).1
      · rintro rfl
        exact ⟨rest, by simp⟩
    rw [List.cons_append, windowPosition, htail]
    by_cases heq : key = y :: l
    · rw [if_pos (hpre.mpr heq), if_pos (heq ▸ List.suffix_refl _), heq, Nat.sub_self]
    · rw [if_neg (mt hpre.mp heq)]
      by_cases hsuf : key <:+ l
      · have hlen := hsuf.length_le
        rw [if_pos hsuf, if_pos (hsuf.trans (List.suffix_cons y l)), Option.map_some, List.length_cons]
        congr 1
        omega
      · have hsuf' : ¬key <:+ y :: l := fun h => (List.suffix_cons_iff.mp h).elim heq hsuf
        rw [if_neg hsuf, if_neg hsuf', Option.map_map, List.length_cons]
        rfl

theorem windowPosition_no_mark {key : List α} : ∀ {s : List α}, x ∉ s → windowPosition (key ++ [x]) s = none
  | [], _ => rfl
  | y :: s, h => by
    have htail : windowPosition (key ++ [x]) s = none :=
      windowPosition_no_mark fun hx => h (List.mem_cons_of_mem y hx)
    have hpre : ¬(key ++ [x]).isPrefixOf (y :: s) := fun hpre =>
      h ((List.isPrefixOf_iff_prefix.mp hpre).subset (List.mem_append_right key List.mem_cons_self))
    rw [windowPosition, if_neg hpre, htail, Option.map_none]

end

/-- `split(pat).nth(1)`: what stands between the first place of the pattern and the next one behind it. -/
def secondPiece (pat s : List α) : Option (List α) :=
  match windowPosition pat s with
  | none => none
  | some i =>
    let rest := s.drop (i + pat.length)
    match windowPosition pat rest with
    | none => some rest
    | some j => some (rest.take j)

section

variable {x y : α} {key l v rest tail : List α}

theorem secondPiece_no_mark {s : List α} (h : x ∉ s) : secondPiece (key ++ [x]) s = none := by
  rw [secondPiece, windowPosition_no_mark h]

/-- A part without the pattern is passed over. -/
theorem secondPiece_skip (hkey : x ∉ key) (hl : x ∉ l) (hsuf : ¬key <:+ l) :
    secondPiece (key ++ [x]) (l ++ x :: rest) = secondPiece (key ++ [x]) rest := by
  rw [secondPiece, secondPiece, windowPosition_mark hkey hl, if_neg hsuf]
  cases windowPosition (key ++ [x]) rest with
  | none => rfl
  | some i =>
    have hdrop : (l ++ x :: rest).drop (i + (l.length + 1) + (key ++ [x]).length) =
        rest.drop (i + (key ++ [x]).length) := by
      rw [show i + (l.length + 1) + (key ++ [x]).length = l.length + (1 + (i + (key ++ [x]).length)) by omega,
        ← List.drop_drop, List.drop_left, ← List.drop_drop]
      rfl
    simp only [Option.map_some, hdrop]

/-- The pattern does not begin in what has no mark and goes on with something that is not in the pattern. -/
theorem le_windowPosition (hy : y ∉ key ++ [x]) (htail : tail = [] ∨ tail.head? = some y) :
    ∀ {v : List α} {j : Nat}, x ∉ v → windowPosition (key ++ [x]) (v ++ tail) = some j → v.length ≤ j
  | [], _, _, _ => Nat.zero_le _
  | a :: v, j, hv, h => by
    have hpre : ¬(key ++ [x]).isPrefixOf (a :: (v ++ tail)) := by
      intro hpre
      obtain ⟨t, ht⟩ := List.isPrefixOf_iff_prefix.mp hpre
      rw [List.append_assoc, ← List.cons_append] at ht
      have hmark : ∀ {z : α} {c : List α}, tail = z :: c → z = y := by
        rintro z c rfl
        exact Option.some.inj (htail.resolve_left nofun)
      obtain ⟨c, hcut, hc⟩ | ⟨c, hcut, hc⟩ := List.append_eq_append_iff.mp ht
      · cases c with
        | nil => exact hy (hmark hc.symm ▸ List.mem_append_right key List.mem_cons_self)
        | cons b c =>
          obtain ⟨rfl, -⟩ := List.cons.inj hc
          exact hv (hcut ▸ List.mem_append_right key List.mem_cons_self)
      · cases c with
        | nil => exact hy (hmark hc ▸ List.mem_append_right key List.mem_cons_self)
        | cons b c =>
          rw [hcut, hmark hc] at hy
          exact hy (List.mem_append_left [x] (List.mem_append_right (a :: v) List.mem_cons_self))
    rw [List.cons_append, windowPosition, if_neg hpre] at h
    obtain ⟨i, hi, rfl⟩ := Option.map_eq_some_iff.mp h
    have hle := le_windowPosition hy htail (fun hx => hv (List.mem_cons_of_mem a hx)) hi
    rw [List.length_cons]
    omega

/-- **The piece behind the pattern** starts with all that has no mark up to something that is not in the
pattern. -/
theorem secondPiece_mark (hkey : x ∉ key) (hl : x ∉ l) (hsuf : key <:+ l) (hv : x ∉ v)
    (hy : y ∉ key ++ [x]) (htail : tail = [] ∨ tail.head? = some y) :
    ∃ n, secondPiece (key ++ [x]) (l ++ x :: (v ++ tail)) = some (v ++ tail.take n) := by
  have hlen := hsuf.length_le
  have hdrop : (l ++ x :: (v ++ tail)).drop (l.length - key.length + (key ++ [x]).length) = v ++ tail := by
    rw [List.length_append, List.length_singleton,
      show l.length - key.length + (key.length + 1) = l.length + 1 by omega, ← List.drop_drop, List.drop_left]
    rfl
  rw [secondPiece, windowPosition_mark hkey hl, if_pos hsuf]
  simp only [hdrop]
  cases hnext : windowPosition (key ++ [x]) (v ++ tail) with
  | none => exact ⟨tail.length, by rw [List.take_length]⟩
  | some j =>
    have hle := le_windowPosition hy htail hv hnext
    refine ⟨j - v.length, congrArg some ?_⟩
    rw [List.take_append, List.take_of_length_le hle]

end

end Leshiy.Lib
