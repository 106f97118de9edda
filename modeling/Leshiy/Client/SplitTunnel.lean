import Leshiy.Lib.Prefix

/-!
# Split-tunnel rules

`leshiy-client/src/split_tunnel.rs`. The manual ruleset has one direction; subscriptions have
one each. At connect time they are merged into a plan with a base policy, rules into the tunnel
and rules out of it.
-/

namespace Leshiy.Client

open Leshiy.Lib

/-- Which direction a ruleset applies. -/
inductive SplitMode where
  /-- Tunnel everything except what is listed. -/
  | exclude
  /-- The default stays direct; only what is listed is tunnelled. -/
  | «include»
  deriving DecidableEq, Repr

structure SplitCidr where
  addr : IpAddr
  prefixLen : Nat
  deriving DecidableEq, Repr

/-- The manual rules. -/
structure SplitTunnel where
  mode : SplitMode
  cidrs : List SplitCidr
  domains : List String

/-- One direction's rules. -/
structure RuleSet where
  cidrs : List SplitCidr := []
  domains : List String := []
  deriving DecidableEq, Repr

/-- Append what is not there yet. -/
def pushNew {α : Type} [DecidableEq α] (xs : List α) : List α → List α
  | [] => xs
  | y :: ys => pushNew (if y ∈ xs then xs else xs ++ [y]) ys

@[simp] theorem mem_pushNew {α : Type} [DecidableEq α] {a : α} {xs ys : List α} :
    a ∈ pushNew xs ys ↔ a ∈ xs ∨ a ∈ ys := by
  induction ys generalizing xs with
  | nil => simp [pushNew]
  | cons y ys ih =>
    rw [pushNew, ih]
    by_cases hy : y ∈ xs
    · rw [if_pos hy, List.mem_cons]
      constructor
      · rintro (h | h)
        · exact .inl h
        · exact .inr (.inr h)
      · rintro (h | rfl | h)
        · exact .inl h
        · exact .inl hy
        · exact .inr h
    · simp [if_neg hy, or_assoc]

namespace RuleSet

def isEmpty (r : RuleSet) : Bool := r.cidrs.isEmpty && r.domains.isEmpty

def extend (r other : RuleSet) : RuleSet where
  cidrs := pushNew r.cidrs other.cidrs
  domains := pushNew r.domains other.domains

/-- Same rules, whatever their order. -/
def Equiv (r r' : RuleSet) : Prop :=
  (∀ c, c ∈ r.cidrs ↔ c ∈ r'.cidrs) ∧ ∀ d, d ∈ r.domains ↔ d ∈ r'.domains

theorem Equiv.isEmpty {r r' : RuleSet} (h : r.Equiv r') : r.isEmpty = r'.isEmpty := by
  have hnil : ∀ {α : Type} {l l' : List α}, (∀ a, a ∈ l ↔ a ∈ l') → l.isEmpty = l'.isEmpty := by
    intro α l l' hl
    rw [Bool.eq_iff_iff, List.isEmpty_iff, List.isEmpty_iff, List.eq_nil_iff_forall_not_mem,
      List.eq_nil_iff_forall_not_mem]
    exact forall_congr' fun a => not_congr (hl a)
  rw [RuleSet.isEmpty, RuleSet.isEmpty, hnil h.1, hnil h.2]

end RuleSet

/-- The plan the engine applies. -/
structure SplitPlan where
  baseMode : SplitMode
  «include» : RuleSet
  exclude : RuleSet

namespace SplitPlan

def fromManual (manual : SplitTunnel) : SplitPlan :=
  let set : RuleSet := ⟨manual.cidrs, manual.domains⟩
  match manual.mode with
  | .exclude => { baseMode := .exclude, exclude := set, «include» := {} }
  | .include => { baseMode := .include, «include» := set, exclude := {} }

def merge (p : SplitPlan) (mode : SplitMode) (rules : RuleSet) : SplitPlan :=
  match mode with
  | .include => { p with «include» := p.include.extend rules }
  | .exclude => { p with exclude := p.exclude.extend rules }

/-- The rules left after the ones that cannot matter are dropped. -/
def effective (p : SplitPlan) : RuleSet × RuleSet :=
  match p.baseMode with
  | .exclude => if p.exclude.isEmpty then ({}, {}) else (p.include, p.exclude)
  | .include => if p.include.isEmpty then ({}, {}) else (p.include, p.exclude)

/-- The plan of a session: the manual rules, then one subscription after the other. -/
def ofSubscriptions (manual : SplitTunnel) (subs : List (SplitMode × RuleSet)) : SplitPlan :=
  subs.foldl (fun p s => p.merge s.1 s.2) (fromManual manual)

/-- The rules of one direction. -/
def rules (p : SplitPlan) : SplitMode → RuleSet
  | .include => p.include
  | .exclude => p.exclude

@[simp] theorem merge_baseMode (p : SplitPlan) (mode : SplitMode) (r : RuleSet) :
    (p.merge mode r).baseMode = p.baseMode := by
  cases mode <;> rfl

theorem merge_rules (p : SplitPlan) (mode dir : SplitMode) (r : RuleSet) :
    (p.merge mode r).rules dir = if dir = mode then (p.rules dir).extend r else p.rules dir := by
  cases mode <;> cases dir <;> rfl

theorem fromManual_baseMode (manual : SplitTunnel) :
    (fromManual manual).baseMode = manual.mode := by
  unfold fromManual
  cases manual.mode <;> rfl

/-- Merging adds to a direction the rules of the subscriptions of that direction. -/
theorem foldl_merge_rules (subs : List (SplitMode × RuleSet)) (p : SplitPlan) :
    (subs.foldl (fun p s => p.merge s.1 s.2) p).baseMode = p.baseMode ∧
    ∀ dir,
      (∀ c, c ∈ ((subs.foldl (fun p s => p.merge s.1 s.2) p).rules dir).cidrs ↔
        c ∈ (p.rules dir).cidrs ∨ ∃ s ∈ subs, s.1 = dir ∧ c ∈ s.2.cidrs) ∧
      ∀ d, d ∈ ((subs.foldl (fun p s => p.merge s.1 s.2) p).rules dir).domains ↔
        d ∈ (p.rules dir).domains ∨ ∃ s ∈ subs, s.1 = dir ∧ d ∈ s.2.domains := by
  induction subs generalizing p with
  | nil => simp
  | cons s subs ih =>
    obtain ⟨hb, hr⟩ := ih (p.merge s.1 s.2)
    refine ⟨by rw [List.foldl_cons, hb, merge_baseMode], fun dir => ?_⟩
    obtain ⟨hc, hd⟩ := hr dir
    rw [merge_rules] at hc hd
    by_cases hdir : dir = s.1
    · rw [if_pos hdir] at hc hd
      refine ⟨fun c => ?_, fun d => ?_⟩
      · rw [List.foldl_cons, hc c]
        simp [RuleSet.extend, hdir, or_assoc]
      · rw [List.foldl_cons, hd d]
        simp [RuleSet.extend, hdir, or_assoc]
    · have hdir' : s.1 ≠ dir := Ne.symm hdir
      rw [if_neg hdir] at hc hd
      refine ⟨fun c => ?_, fun d => ?_⟩
      · rw [List.foldl_cons, hc c]
        simp [hdir']
      · rw [List.foldl_cons, hd d]
        simp [hdir']

/-- **The order of the subscriptions leaves the same rules.** -/
theorem ofSubscriptions_perm (manual : SplitTunnel) {subs subs' : List (SplitMode × RuleSet)}
    (h : subs.Perm subs') :
    (ofSubscriptions manual subs).baseMode = (ofSubscriptions manual subs').baseMode ∧
      ∀ dir, ((ofSubscriptions manual subs).rules dir).Equiv
        ((ofSubscriptions manual subs').rules dir) := by
  obtain ⟨hb, hr⟩ := foldl_merge_rules subs (fromManual manual)
  obtain ⟨hb', hr'⟩ := foldl_merge_rules subs' (fromManual manual)
  refine ⟨hb.trans hb'.symm, fun dir => ⟨fun c => ?_, fun d => ?_⟩⟩
  · rw [ofSubscriptions, ofSubscriptions, (hr dir).1 c, (hr' dir).1 c]
    simp [h.mem_iff]
  · rw [ofSubscriptions, ofSubscriptions, (hr dir).2 d, (hr' dir).2 d]
    simp [h.mem_iff]

end SplitPlan

end Leshiy.Client
