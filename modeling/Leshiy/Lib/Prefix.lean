import Mathlib.Data.Prod.Lex
import Mathlib.Data.Finset.Sort

/-!
# Addresses, prefixes and longest match

An address has 32 or 128 bits. A prefix of length `p` covers the addresses that share its
first `p` bits; what an address has beyond these bits plays no part.

A table is a list of entries, each covering some keys and having a length. A lookup selects an
entry that covers the key and that no covering entry is longer than. Entries of equal length
may tie, so `longestMatches` lists all that may be selected.
-/

namespace Leshiy.Lib

/-! ## Addresses -/

/-- `std::net::IpAddr`. -/
inductive IpAddr where
  | v4 (bits : BitVec 32)
  | v6 (bits : BitVec 128)
  deriving DecidableEq, Repr

namespace IpAddr

def isIpv4 : IpAddr → Bool
  | .v4 _ => true
  | .v6 _ => false

def isIpv6 (a : IpAddr) : Bool := !a.isIpv4

/-- The number of bits of an address of this family. -/
def width : IpAddr → Nat
  | .v4 _ => 32
  | .v6 _ => 128

theorem width_pos (a : IpAddr) : 0 < a.width := by
  cases a <;> simp [width]

/-- The first `p` bits, as a number. -/
def network (a : IpAddr) (p : Nat) : Nat :=
  match a with
  | .v4 b => b.toNat / 2 ^ (32 - p)
  | .v6 b => b.toNat / 2 ^ (128 - p)

/-- The order the standard library derives: IPv4 before IPv6, then by value. -/
def key : IpAddr → ℕ ×ₗ ℕ
  | .v4 b => toLex (0, b.toNat)
  | .v6 b => toLex (1, b.toNat)

theorem key_injective : Function.Injective key := by
  intro a b h
  cases a <;> cases b <;> simp [key, BitVec.toNat_inj] at h ⊢ <;> exact h

/-- `p` bits of `a` cover `b`. A length that the family does not have covers nothing. -/
def covers (a : IpAddr) (p : Nat) (b : IpAddr) : Bool :=
  a.isIpv4 == b.isIpv4 && decide (p ≤ a.width) && a.network p == b.network p

theorem covers_self {a : IpAddr} {p : Nat} (h : p ≤ a.width) : a.covers p a = true := by
  simp [covers, h]

theorem isIpv4_of_covers {a b : IpAddr} {p : Nat} (h : a.covers p b = true) :
    a.isIpv4 = b.isIpv4 := by
  simp only [covers, Bool.and_eq_true, beq_iff_eq] at h
  exact h.1.1

theorem le_width_of_covers {a b : IpAddr} {p : Nat} (h : a.covers p b = true) : p ≤ b.width := by
  have hf := isIpv4_of_covers h
  simp only [covers, Bool.and_eq_true, decide_eq_true_eq] at h
  cases a <;> cases b <;> simp [isIpv4, width] at hf h ⊢ <;> exact h.1

/-- **A prefix of full length covers one address.** -/
theorem covers_width_iff {a b : IpAddr} : a.covers a.width b = true ↔ b = a := by
  constructor
  · intro h
    cases a <;> cases b <;>
      simp [covers, isIpv4, width, network, BitVec.toNat_inj] at h ⊢ <;> exact h.symm
  · rintro rfl
    exact covers_self le_rfl

end IpAddr

/-! ## Longest match -/

section

variable {ρ κ : Type} (covers : ρ → κ → Bool) (len : ρ → Nat)

/-- The entries that cover the key and that no covering entry is longer than. -/
def longestMatches (table : List ρ) (k : κ) : List ρ :=
  (table.filter (covers · k)).filter fun r => table.all fun r' => !covers r' k || len r' ≤ len r

variable {covers len} {table : List ρ} {k : κ} {r : ρ}

theorem mem_longestMatches :
    r ∈ longestMatches covers len table k ↔
      r ∈ table ∧ covers r k = true ∧ ∀ r' ∈ table, covers r' k = true → len r' ≤ len r := by
  simp only [longestMatches, List.mem_filter, List.all_eq_true, Bool.or_eq_true,
    Bool.not_eq_true', decide_eq_true_eq, and_assoc, and_congr_right_iff]
  intro _ _
  refine forall₂_congr fun r' _ => ?_
  cases covers r' k <;> simp

/-- **Some covering entry is longest.** -/
theorem exists_mem_longestMatches (hr : r ∈ table) (hc : covers r k = true) :
    ∃ r', r' ∈ longestMatches covers len table k := by
  classical
  have hmem : r ∈ table.filter (covers · k) := List.mem_filter.mpr ⟨hr, hc⟩
  obtain ⟨m, hm, hmax⟩ :=
    (table.filter (covers · k)).toFinset.exists_max_image len ⟨r, by simpa using hmem⟩
  rw [List.mem_toFinset, List.mem_filter] at hm
  refine ⟨m, mem_longestMatches.mpr ⟨hm.1, hm.2, fun r' hr' hc' => ?_⟩⟩
  exact hmax r' (by simp [hr', hc'])

theorem longestMatches_eq_nil_iff :
    longestMatches covers len table k = [] ↔ ∀ r ∈ table, covers r k = false := by
  constructor
  · intro h r hr
    by_contra hc
    obtain ⟨r', hr'⟩ : ∃ r', r' ∈ longestMatches covers len table k :=
      exists_mem_longestMatches hr (by simpa using hc)
    rw [h] at hr'
    simp at hr'
  · intro h
    rw [List.eq_nil_iff_forall_not_mem]
    intro r hr
    obtain ⟨hmem, hc, -⟩ := mem_longestMatches.mp hr
    rw [h r hmem] at hc
    cases hc

/-- The longest entries are the covering ones of the greatest length, in the table's order. -/
theorem longestMatches_eq_filter {n : Nat} (hr : r ∈ table) (hc : covers r k = true) (hn : len r = n)
    (hmax : ∀ r ∈ table, covers r k = true → len r ≤ n) :
    longestMatches covers len table k = table.filter fun r => covers r k && len r == n := by
  unfold longestMatches
  rw [List.filter_filter]
  refine List.filter_congr fun r' hr' => ?_
  cases hc' : covers r' k with
  | false => simp
  | true =>
    simp only [Bool.and_true, Bool.true_and]
    rw [Bool.eq_iff_iff, List.all_eq_true, beq_iff_eq]
    constructor
    · intro hall
      have hle : len r ≤ len r' := by simpa [hc] using hall r hr
      have hge := hmax r' hr' hc'
      omega
    · rintro hlen r'' hr''
      cases hc'' : covers r'' k with
      | false => simp
      | true => simpa [hlen] using hmax r'' hr'' hc''

/-- Only which entries a table has matters, not their order or number. -/
theorem mem_longestMatches_congr {table' : List ρ} (h : ∀ r, r ∈ table ↔ r ∈ table') :
    r ∈ longestMatches covers len table k ↔ r ∈ longestMatches covers len table' k := by
  simp only [mem_longestMatches, h]

/-- Renaming the entries renames the longest ones. -/
theorem longestMatches_map {σ : Type} {f : ρ → σ} {covers : σ → κ → Bool} {len : σ → Nat} :
    longestMatches covers len (table.map f) k =
      (longestMatches (fun r => covers (f r)) (fun r => len (f r)) table k).map f := by
  simp only [longestMatches, List.filter_map, List.all_map, Function.comp_def]

theorem mem_longestMatches_map {σ : Type} {f : ρ → σ} {covers : σ → κ → Bool} {len : σ → Nat}
    {t : σ} :
    t ∈ longestMatches covers len (table.map f) k ↔
      ∃ r ∈ longestMatches (fun r => covers (f r)) (fun r => len (f r)) table k, f r = t := by
  rw [longestMatches_map, List.mem_map]

/-- Entries that do not cover the key play no part. -/
theorem longestMatches_append_of_none {table' : List ρ} (h : ∀ r ∈ table, covers r k = false) :
    longestMatches covers len (table ++ table') k = longestMatches covers len table' k := by
  have hfilter : table.filter (covers · k) = [] := by
    rw [List.filter_eq_nil_iff]
    exact fun r hr => by simp [h r hr]
  unfold longestMatches
  rw [List.filter_append, hfilter, List.nil_append]
  refine List.filter_congr fun r _ => ?_
  have hall : (table.all fun r' => !covers r' k || len r' ≤ len r) = true :=
    List.all_eq_true.mpr fun r' hr' => by simp [h r' hr']
  rw [List.all_append, hall, Bool.true_and]

/-- A longest entry of a part is longest in the whole when the rest has only shorter ones. -/
theorem mem_longestMatches_append {table' : List ρ}
    (hlt : ∀ r' ∈ table', covers r' k = true → ∀ r ∈ table, covers r k = true → len r' < len r)
    (hne : ∃ r ∈ table, covers r k = true) :
    r ∈ longestMatches covers len (table ++ table') k ↔
      r ∈ longestMatches covers len table k := by
  simp only [mem_longestMatches, List.mem_append]
  obtain ⟨w, hw, hwc⟩ := hne
  constructor
  · rintro ⟨hr | hr, hc, hmax⟩
    · exact ⟨hr, hc, fun r' hr' => hmax r' (.inl hr')⟩
    · -- an entry of the rest would be shorter than the witness
      have h1 := hlt r hr hc w hw hwc
      have h2 := hmax w (.inl hw) hwc
      omega
  · rintro ⟨hr, hc, hmax⟩
    refine ⟨.inl hr, hc, fun r' hr' hc' => ?_⟩
    rcases hr' with hr' | hr'
    · exact hmax r' hr' hc'
    · exact (hlt r' hr' hc' r hr hc).le

end

end Leshiy.Lib
