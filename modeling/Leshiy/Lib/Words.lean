import Leshiy.Lib.Str

/-!
# Words between whitespace

`split_whitespace`: the words of a text are what its whitespace leaves between itself.
-/

namespace Leshiy.Lib.Str

/-- `split_whitespace`. -/
def splitWhitespace (s : Str) : List Str := (s.splitOnP isWhite).filter fun w => !w.isEmpty

section

variable {s t w ws : Str} {c : Char}

theorem splitWhitespace_white (hc : isWhite c) : splitWhitespace (c :: s) = splitWhitespace s := by
  rw [splitWhitespace, List.splitOnP_cons_eq_if_modifyHead, if_pos hc]
  rfl

theorem splitWhitespace_append_white (hws : ∀ c ∈ ws, isWhite c) :
    splitWhitespace (ws ++ s) = splitWhitespace s := by
  induction ws with
  | nil => rfl
  | cons c ws ih =>
    obtain ⟨hc, hws⟩ := List.forall_mem_cons.mp hws
    rw [List.cons_append, splitWhitespace_white hc, ih hws]

theorem splitWhitespace_all_white (hws : ∀ c ∈ ws, isWhite c) : splitWhitespace ws = [] := by
  rw [← List.append_nil ws, splitWhitespace_append_white hws]
  rfl

/-- A word ends where whitespace does not go on with it. -/
theorem splitWhitespace_word (hne : w ≠ []) (hw : ∀ c ∈ w, ¬isWhite c) (hc : isWhite c) :
    splitWhitespace (w ++ c :: s) = w :: splitWhitespace s := by
  have hfalse : ∀ c ∈ w, isWhite c = false := fun c hc => Bool.eq_false_iff.mpr (hw c hc)
  rw [splitWhitespace, List.splitOnP_append_cons_of_forall_mem hfalse c hc,
    List.filter_cons_of_pos (by simpa using hne)]
  rfl

theorem splitWhitespace_singleton (hne : w ≠ []) (hw : ∀ c ∈ w, ¬isWhite c) : splitWhitespace w = [w] := by
  have hfalse : ∀ c ∈ w, isWhite c = false := fun c hc => Bool.eq_false_iff.mpr (hw c hc)
  rw [splitWhitespace, List.splitOnP_eq_singleton hfalse, List.filter_cons_of_pos (by simpa using hne)]
  rfl

/-- Whitespace at the end makes no word. -/
theorem splitWhitespace_append_right (hws : ∀ c ∈ ws, isWhite c) :
    splitWhitespace (s ++ ws) = splitWhitespace s := by
  match ws with
  | [] => rw [List.append_nil]
  | c :: ws =>
    obtain ⟨hc, hws⟩ := List.forall_mem_cons.mp hws
    have hrest := splitWhitespace_all_white hws
    rw [splitWhitespace] at hrest
    rw [splitWhitespace, List.splitOnP_append_cons _ _ hc, List.filter_append, hrest, List.append_nil]
    rfl

theorem of_mem_splitOnP : ∀ {s w : Str}, w ∈ s.splitOnP isWhite → ∀ c ∈ w, ¬isWhite c ∧ c ∈ s
  | [], _, h => by
    rw [List.splitOnP_nil, List.mem_singleton] at h
    rw [h]
    exact nofun
  | c :: s, w, h => by
    have hpieces : ∀ p ∈ s.splitOnP isWhite, ∀ x ∈ p, ¬isWhite x ∧ x ∈ c :: s := fun p hp x hx =>
      (of_mem_splitOnP hp x hx).imp_right (List.mem_cons_of_mem c)
    rw [List.splitOnP_cons_eq_if_modifyHead] at h
    split at h
    · rcases List.mem_cons.mp h with rfl | h
      · exact nofun
      · exact hpieces w h
    · next hc =>
      match hsplit : s.splitOnP isWhite with
      | [] => exact absurd hsplit (List.splitOnP_ne_nil _ _)
      | p :: ps =>
        rw [hsplit] at h hpieces
        obtain ⟨hp, hps⟩ := List.forall_mem_cons.mp hpieces
        rcases List.mem_cons.mp h with rfl | h
        · exact List.forall_mem_cons.mpr ⟨⟨hc, List.mem_cons_self⟩, hp⟩
        · exact hps w h

/-- A word is not empty, and it is made of what the text has and is not whitespace. -/
theorem mem_splitWhitespace (h : w ∈ splitWhitespace s) : w ≠ [] ∧ ∀ c ∈ w, ¬isWhite c ∧ c ∈ s := by
  obtain ⟨hmem, hne⟩ := List.mem_filter.mp h
  exact ⟨by simpa using hne, of_mem_splitOnP hmem⟩

theorem trim_of_not_white (h : ∀ c ∈ s, ¬isWhite c) : trim s = s := by
  have hends : trimMatches isWhite ([] ++ (s ++ [])) = s := trimMatches_append nofun nofun
    (fun c hc => h c (List.mem_of_mem_head? hc)) (fun c hc => h c (List.mem_of_getLast? hc))
  rwa [List.append_nil, List.nil_append] at hends

/-- What `trim` takes off is whitespace, and what it leaves does not start with any. -/
theorem exists_trim (s : Str) : ∃ xs ys, (∀ c ∈ xs, isWhite c) ∧ (∀ c ∈ ys, isWhite c) ∧
    s = xs ++ (trim s ++ ys) ∧ ∀ c ∈ (trim s).head?, ¬isWhite c := by
  have hright : trim s ++ (s.dropWhile isWhite).rtakeWhile isWhite = s.dropWhile isWhite :=
    List.rdropWhile_append_rtakeWhile ..
  refine ⟨s.takeWhile isWhite, (s.dropWhile isWhite).rtakeWhile isWhite,
    fun c hc => List.mem_takeWhile_imp hc, fun c hc => List.mem_rtakeWhile_imp hc, ?_, fun c hc hwhite => ?_⟩
  · rw [hright, List.takeWhile_append_dropWhile]
  · have hhead : (s.dropWhile isWhite).head? = some c := by
      rw [← hright, List.head?_append, Option.mem_def.mp hc]
      rfl
    have hnot := List.head?_dropWhile_not isWhite s
    rw [hhead] at hnot
    exact absurd hwhite (Bool.eq_false_iff.mp hnot)

theorem mem_trim_of_mem (hc : c ∈ s) : isWhite c ∨ c ∈ trim s := by
  obtain ⟨xs, ys, hxs, hys, hs, -⟩ := exists_trim s
  rw [hs, List.mem_append, List.mem_append] at hc
  rcases hc with hc | hc | hc
  · exact .inl (hxs c hc)
  · exact .inr hc
  · exact .inl (hys c hc)

@[simp] theorem splitWhitespace_trim (s : Str) : splitWhitespace (trim s) = splitWhitespace s := by
  obtain ⟨xs, ys, hxs, hys, hs, -⟩ := exists_trim s
  conv_rhs => rw [hs, splitWhitespace_append_white hxs, splitWhitespace_append_right hys]

/-- A text has words unless it is blank. -/
theorem splitWhitespace_eq_nil : splitWhitespace s = [] ↔ trim s = [] := by
  rw [← splitWhitespace_trim]
  obtain ⟨-, -, -, -, -, hhead⟩ := exists_trim s
  refine ⟨fun hnil => ?_, fun hnil => by rw [hnil]; rfl⟩
  by_contra hne
  -- the first word
  have hw : (trim s).takeWhile (fun c => !isWhite c) ≠ [] := by
    match htrim : trim s with
    | [] => exact absurd htrim hne
    | c :: t => simp [hhead c (by rw [htrim]; rfl)]
  have hword : ∀ c ∈ (trim s).takeWhile (fun c => !isWhite c), ¬isWhite c := fun c hc => by
    simpa using List.mem_takeWhile_imp hc
  rw [← List.takeWhile_append_dropWhile (p := fun c => !isWhite c) (l := trim s)] at hnil
  match hrest : (trim s).dropWhile fun c => !isWhite c with
  | [] =>
    rw [hrest, List.append_nil, splitWhitespace_singleton hw hword] at hnil
    cases hnil
  | c :: t =>
    have hc := List.head?_dropWhile_not (fun c => !isWhite c) (trim s)
    rw [hrest] at hc hnil
    rw [splitWhitespace_word hw hword (by simpa using hc)] at hnil
    cases hnil

end

end Leshiy.Lib.Str
