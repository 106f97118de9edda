import Mathlib.Algebra.Order.Field.Basic
import Mathlib.Tactic.Linarith

/-!
# Token buckets

A bucket fills at a constant rate up to its capacity. An attempt to take some tokens at a time first
refills the bucket and then takes them if they are there. `Window` bounds what attempts in a window of
time can take together.
-/

namespace Leshiy.Lib

structure TokenBucket (K : Type) [Field K] [LinearOrder K] [IsStrictOrderedRing K] where
  rate : K
  capacity : K
  tokens : K
  /-- When the bucket was refilled last. -/
  last : K
  rate_nonneg : 0 ≤ rate
  tokens_nonneg : 0 ≤ tokens
  tokens_le : tokens ≤ capacity

namespace TokenBucket

variable {K : Type} [Field K] [LinearOrder K] [IsStrictOrderedRing K] {b : TokenBucket K}
  {now need t₁ t₂ w : K}

/-- A clock that stands before the last refill counts as no time. -/
def refill (b : TokenBucket K) (now : K) : TokenBucket K :=
  { b with
    tokens := min (b.tokens + max (now - b.last) 0 * b.rate) b.capacity
    last := now
    tokens_nonneg := by
      have hfill := mul_nonneg (le_max_right (now - b.last) 0) b.rate_nonneg
      exact le_min (add_nonneg b.tokens_nonneg hfill) (b.tokens_nonneg.trans b.tokens_le)
    tokens_le := min_le_right _ _ }

/-- Some tokens less. -/
def spend (b : TokenBucket K) (need : K) (hneed : 0 ≤ need) (h : need ≤ b.tokens) : TokenBucket K :=
  { b with
    tokens := b.tokens - need
    tokens_nonneg := sub_nonneg.mpr h
    tokens_le := (sub_le_self _ hneed).trans b.tokens_le }

/-- Take the tokens at a time, if they are there. -/
def attempt (b : TokenBucket K) (now need : K) (hneed : 0 ≤ need) : TokenBucket K × Bool :=
  let b' := b.refill now
  if h : need ≤ b'.tokens then (b'.spend need hneed h, true) else (b', false)

/-- What an attempt takes. -/
def taken (b : TokenBucket K) (now need : K) (hneed : 0 ≤ need) : K :=
  if (b.attempt now need hneed).2 then need else 0

/-- Everything an attempt does: time has passed, and what is taken and what is left is what was there after
the refill. -/
theorem attempt_spec (b : TokenBucket K) (now need : K) (hneed : 0 ≤ need) :
    (b.attempt now need hneed).1.rate = b.rate ∧ (b.attempt now need hneed).1.capacity = b.capacity ∧
      (b.attempt now need hneed).1.last = now ∧
      b.taken now need hneed + (b.attempt now need hneed).1.tokens = (b.refill now).tokens := by
  unfold taken attempt
  dsimp only
  by_cases h : need ≤ (b.refill now).tokens
  · rw [dif_pos h]
    exact ⟨rfl, rfl, rfl, add_sub_cancel _ _⟩
  · rw [dif_neg h]
    exact ⟨rfl, rfl, rfl, zero_add _⟩

theorem tokens_refill_le (hnow : b.last ≤ now) :
    (b.refill now).tokens ≤ b.tokens + (now - b.last) * b.rate := by
  have hmax : max (now - b.last) 0 = now - b.last := max_eq_left (sub_nonneg.mpr hnow)
  calc (b.refill now).tokens ≤ b.tokens + max (now - b.last) 0 * b.rate := min_le_left _ _
    _ = b.tokens + (now - b.last) * b.rate := by rw [hmax]

/-- `w` tokens have been taken between two times: none before the window begins; within it, what was taken
and what is left came from a full bucket and the time since; and never more than a full bucket and the
whole window. -/
structure Window (b : TokenBucket K) (t₁ t₂ w : K) : Prop where
  before : b.last < t₁ → w = 0
  within : t₁ ≤ b.last → b.last ≤ t₂ → w + b.tokens ≤ b.capacity + (b.last - t₁) * b.rate
  bounded : w ≤ b.capacity + (t₂ - t₁) * b.rate

/-- Nothing has been taken. -/
theorem window_zero (b : TokenBucket K) (ht : t₁ ≤ t₂) : b.Window t₁ t₂ 0 where
  before := fun _ => rfl
  within := by
    intro h₁ _
    have hfill := mul_nonneg (sub_nonneg.mpr h₁) b.rate_nonneg
    have hle := b.tokens_le
    linarith
  bounded := by
    have hfill := mul_nonneg (sub_nonneg.mpr ht) b.rate_nonneg
    have hcap := b.tokens_nonneg.trans b.tokens_le
    linarith

/-- Some of what was taken. -/
theorem Window.mono {w' : K} (h : b.Window t₁ t₂ w) (h0 : 0 ≤ w') (hle : w' ≤ w) : b.Window t₁ t₂ w' where
  before := fun hbefore => le_antisymm (hle.trans_eq (h.before hbefore)) h0
  within := fun h₁ h₂ => (add_le_add_left hle b.tokens).trans (h.within h₁ h₂)
  bounded := hle.trans h.bounded

theorem taken_nonneg (b : TokenBucket K) (now : K) (hneed : 0 ≤ need) : 0 ≤ b.taken now need hneed := by
  unfold taken
  split
  · exact hneed
  · exact le_refl _

/-- An attempt counts if its time is in the window. -/
theorem Window.attempt (h : b.Window t₁ t₂ w) (hnow : b.last ≤ now) (hneed : 0 ≤ need) :
    (b.attempt now need hneed).1.Window t₁ t₂
      (w + if t₁ ≤ now ∧ now ≤ t₂ then b.taken now need hneed else 0) := by
  obtain ⟨hrate, hcap, hlast, htaken⟩ := b.attempt_spec now need hneed
  by_cases hin : t₁ ≤ now ∧ now ≤ t₂
  · have hleft := (b.attempt now need hneed).1.tokens_nonneg
    have hwithin : w + (b.refill now).tokens ≤ b.capacity + (now - t₁) * b.rate := by
      by_cases hold : b.last < t₁
      · -- nothing was taken yet, and the refill fills the bucket at most
        have hfull : (b.refill now).tokens ≤ b.capacity := (b.refill now).tokens_le
        have hfill := mul_nonneg (sub_nonneg.mpr hin.1) b.rate_nonneg
        rw [h.before hold]
        linarith
      · have hw := h.within (not_lt.mp hold) (hnow.trans hin.2)
        have hrefill := tokens_refill_le hnow
        linarith
    have hwindow : (now - t₁) * b.rate ≤ (t₂ - t₁) * b.rate :=
      mul_le_mul_of_nonneg_right (sub_le_sub_right hin.2 t₁) b.rate_nonneg
    rw [if_pos hin]
    refine ⟨?_, ?_, ?_⟩
    · intro hbefore
      rw [hlast] at hbefore
      exact absurd hin.1 (not_le.mpr hbefore)
    · intro _ _
      rw [hrate, hcap, hlast]
      linarith
    · rw [hrate, hcap]
      linarith
  · rw [if_neg hin, add_zero]
    refine ⟨?_, ?_, ?_⟩
    · intro hbefore
      rw [hlast] at hbefore
      exact h.before (hnow.trans_lt hbefore)
    · intro h₁ h₂
      rw [hlast] at h₁ h₂
      exact absurd ⟨h₁, h₂⟩ hin
    · rw [hrate, hcap]
      exact h.bounded

/-! ## Since a moment -/

/-- `w` tokens have been taken from a moment on, when the bucket had a level, until another one. -/
structure Since (b : TokenBucket K) (t₀ t₂ level w : K) : Prop where
  within : b.last ≤ t₂ → w + b.tokens ≤ level + (b.last - t₀) * b.rate
  bounded : w ≤ level + (t₂ - t₀) * b.rate

theorem since_zero (b : TokenBucket K) (ht : b.last ≤ t₂) : b.Since b.last t₂ b.tokens 0 where
  within := fun _ => by rw [sub_self, zero_mul, zero_add, add_zero]
  bounded := add_nonneg b.tokens_nonneg (mul_nonneg (sub_nonneg.mpr ht) b.rate_nonneg)

theorem Since.attempt {t₀ level : K} (h : b.Since t₀ t₂ level w) (hnow : b.last ≤ now) (hneed : 0 ≤ need) :
    (b.attempt now need hneed).1.Since t₀ t₂ level (w + if now ≤ t₂ then b.taken now need hneed else 0) := by
  obtain ⟨hrate, -, hlast, htaken⟩ := b.attempt_spec now need hneed
  by_cases hin : now ≤ t₂
  · have hw := h.within (hnow.trans hin)
    have hrefill := tokens_refill_le hnow
    have hleft := (b.attempt now need hneed).1.tokens_nonneg
    have hwindow : (now - t₀) * b.rate ≤ (t₂ - t₀) * b.rate :=
      mul_le_mul_of_nonneg_right (sub_le_sub_right hin t₀) b.rate_nonneg
    rw [if_pos hin]
    refine ⟨fun _ => ?_, ?_⟩
    · rw [hrate, hlast]
      linarith
    · rw [hrate]
      linarith
  · rw [if_neg hin, add_zero]
    refine ⟨fun h₂ => ?_, ?_⟩
    · rw [hlast] at h₂
      exact absurd h₂ hin
    · rw [hrate]
      exact h.bounded

/-- From a level at some moment the bucket has filled for all the time since. -/
def Filled (b : TokenBucket K) (t₀ level : K) : Prop :=
  min b.capacity (level + (b.last - t₀) * b.rate) ≤ b.tokens

theorem filled_self (b : TokenBucket K) : b.Filled b.last b.tokens := by
  rw [Filled, sub_self, zero_mul, add_zero]
  exact min_le_right _ _

theorem Filled.refill {t₀ level : K} (h : b.Filled t₀ level) (hnow : b.last ≤ now) :
    (b.refill now).Filled t₀ level := by
  have hmax : max (now - b.last) 0 = now - b.last := max_eq_left (sub_nonneg.mpr hnow)
  have hfill := mul_nonneg (sub_nonneg.mpr hnow) b.rate_nonneg
  show min b.capacity (level + (now - t₀) * b.rate) ≤
    min (b.tokens + max (now - b.last) 0 * b.rate) b.capacity
  rw [hmax]
  refine le_min ?_ (min_le_left _ _)
  rcases min_le_iff.mp h with hfull | hlevel
  · exact (min_le_left _ _).trans (hfull.trans (le_add_of_nonneg_right hfill))
  · refine (min_le_right _ _).trans ?_
    linarith

/-- A failed attempt, or one that needs nothing, leaves the bucket refilled. -/
theorem Filled.attempt {t₀ level : K} (h : b.Filled t₀ level) (hnow : b.last ≤ now) (hneed : 0 ≤ need)
    (hnone : b.taken now need hneed = 0) : (b.attempt now need hneed).1.Filled t₀ level := by
  obtain ⟨hrate, hcap, hlast, htaken⟩ := b.attempt_spec now need hneed
  have hrefill := h.refill hnow
  rw [hnone, zero_add] at htaken
  unfold Filled
  rw [hrate, hcap, hlast, htaken]
  exact hrefill

/-- **Who waits long enough gets what they need.** -/
theorem Filled.granted {t₀ level : K} (h : b.Filled t₀ level) (hnow : b.last ≤ now) (hneed : 0 ≤ need)
    (hcap : need ≤ b.capacity) (hlong : need ≤ level + (now - t₀) * b.rate) :
    (b.attempt now need hneed).2 = true := by
  have hthere : need ≤ (b.refill now).tokens := (le_min hcap hlong).trans (h.refill hnow)
  unfold TokenBucket.attempt
  dsimp only
  rw [dif_pos hthere]

end TokenBucket

end Leshiy.Lib
