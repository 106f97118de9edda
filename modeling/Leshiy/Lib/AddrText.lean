import Leshiy.Lib.IpAddr
import Leshiy.Lib.NetAddr

/-!
# Internet addresses are read as they are shown

`Display` of Rust's `std::net`: octets in decimal, groups in hexadecimal with the first of the longest runs of
zeros left out, and the octets of an address that is mapped from IPv4.
-/

namespace Leshiy.Lib.NetAddr

open Str

/-! ## Showing -/

def octets (b : BitVec 32) : List Nat := [octet b 0, octet b 1, octet b 2, octet b 3]

def segments (b : BitVec 128) : List Nat :=
  [segment b 0, segment b 1, segment b 2, segment b 3, segment b 4, segment b 5, segment b 6, segment b 7]

def showIpv4 (b : BitVec 32) : Str :=
  decimal (octet b 0) ++ '.' :: (decimal (octet b 1) ++ '.' :: (decimal (octet b 2) ++ '.' ::
    decimal (octet b 3)))

/-- `{:x}`. -/
def hexText (g : Nat) : Str := Nat.toDigits 16 g

/-- `fmt_subslice`. -/
def joinGroups : List Nat → Str
  | [] => []
  | first :: tail => hexText first ++ tail.flatMap fun g => ':' :: hexText g

structure Span where
  start : Nat
  len : Nat
  deriving DecidableEq

/-- One segment, at the index `i`: the longest run so far and the one that the segment may go on. -/
def zeroSpan (runs : Span × Span) (segment : Nat × Nat) : Span × Span :=
  let (longest, current) := runs
  let (g, i) := segment
  if g = 0 then
    let current : Span := ⟨if current.len = 0 then i else current.start, current.len + 1⟩
    (if longest.len < current.len then current else longest, current)
  else (longest, ⟨0, 0⟩)

def longestZeros (groups : List Nat) : Span := (groups.zipIdx.foldl zeroSpan (⟨0, 0⟩, ⟨0, 0⟩)).1

def showGroups (groups : List Nat) : Str :=
  let zeroes := longestZeros groups
  if 1 < zeroes.len then
    joinGroups (groups.take zeroes.start) ++ "::".toList ++ joinGroups (groups.drop (zeroes.start + zeroes.len))
  else joinGroups groups

def showIpv6 (b : BitVec 128) : Str :=
  match toIpv4Mapped b with
  | some ipv4 => "::ffff:".toList ++ showIpv4 ipv4
  | none => showGroups (segments b)

def showIpAddr : IpAddr → Str
  | .v4 b => showIpv4 b
  | .v6 b => showIpv6 b

example : showIpAddr (.v6 0x20010db8000000010000000000000001#128) = "2001:db8:0:1::1".toList ∧
    showIpAddr (.v6 0xffff01020304#128) = "::ffff:1.2.3.4".toList ∧
    showIpAddr (.v6 0#128) = "::".toList := by decide +kernel

/-! ## Numbers -/

theorem digitOf_digitChar {radix d : Nat} (hradix : radix ≤ 16) (hd : d < radix) :
    digitOf radix d.digitChar = some d := by
  have hall : ∀ d < 16, hexVal d.digitChar = some d := by decide
  rw [digitOf, hall d (by omega), Option.filter_some, if_pos (decide_eq_true hd)]

theorem digitChar_ne_zero {d : Nat} (hpos : 0 < d) (hd : d < 16) : d.digitChar ≠ '0' := by
  have hall : ∀ d < 16, 0 < d → d.digitChar ≠ '0' := by decide
  exact hall d hd hpos

/-- What stands behind a number does not go on with it. -/
def Stops (radix : Nat) (rest : Str) : Prop := ∀ c ∈ rest.head?, digitOf radix c = none

section

variable {radix n bound max : Nat} {allow : Bool} {rest : Str}

/-- The digits of a number: what they are, what they make, and that a longer number starts with no zero. -/
theorem toDigits_spec (hradix : 1 < radix) (hle : radix ≤ 16) (n : Nat) :
    (∀ c ∈ Nat.toDigits radix n, (digitOf radix c).isSome) ∧
    (Nat.toDigits radix n).foldl (fun n c => n * radix + (digitOf radix c).getD 0) 0 = n ∧
    (0 < n → (Nat.toDigits radix n).head? ≠ some '0') := by
  induction n using Nat.strongRecOn with
  | ind n ih =>
    by_cases hn : n < radix
    · rw [Nat.toDigits_of_lt_base hn]
      refine ⟨fun c hc => ?_, ?_, fun hpos => ?_⟩
      · rw [List.mem_singleton.mp hc, digitOf_digitChar hle hn]
        rfl
      · simp [digitOf_digitChar hle hn]
      · simpa using digitChar_ne_zero hpos (by omega)
    · have hbase : radix ≤ n := Nat.le_of_not_lt hn
      have hlast : n % radix < radix := Nat.mod_lt _ (by omega)
      obtain ⟨hdigits, hvalue, hhead⟩ := ih (n / radix) (Nat.div_lt_self (by omega) hradix)
      rw [Nat.toDigits_of_base_le hradix hbase]
      refine ⟨fun c hc => ?_, ?_, fun _ => ?_⟩
      · rcases List.mem_append.mp hc with hc | hc
        · exact hdigits c hc
        · rw [List.mem_singleton.mp hc, digitOf_digitChar hle hlast]
          rfl
      · rw [List.foldl_append, hvalue]
        simp only [List.foldl_cons, List.foldl_nil, digitOf_digitChar hle hlast, Option.getD_some]
        exact Nat.div_add_mod' n radix
      · rw [List.head?_append_of_ne_nil _ Nat.toDigits_ne_nil]
        exact hhead (Nat.div_pos hbase (by omega))

/-- **A number is read** from its digits and what does not go on with them. -/
theorem readNumber_toDigits (hradix : 1 < radix) (hle : radix ≤ 16) (hn : n < bound)
    (hlen : (Nat.toDigits radix n).length ≤ max) (hrest : Stops radix rest) :
    readNumber radix (some max) allow bound (Nat.toDigits radix n ++ rest) = some (n, rest) := by
  obtain ⟨hdigits, hvalue, hhead⟩ := toDigits_spec hradix hle n
  have hstop : rest.takeWhile (fun c => (digitOf radix c).isSome) = [] ∧
      rest.dropWhile (fun c => (digitOf radix c).isSome) = rest := by
    match rest with
    | [] => exact ⟨rfl, rfl⟩
    | c :: rest =>
      have hc := hrest c rfl
      simp [hc]
  have htake : (Nat.toDigits radix n ++ rest).takeWhile (fun c => (digitOf radix c).isSome) =
      Nat.toDigits radix n := by
    rw [List.takeWhile_append_of_pos hdigits, hstop.1, List.append_nil]
  have hdrop : (Nat.toDigits radix n ++ rest).dropWhile (fun c => (digitOf radix c).isSome) = rest := by
    rw [List.dropWhile_append_of_pos hdigits, hstop.2]
  have hzero : ¬((Nat.toDigits radix n).head? = some '0' ∧ 1 < (Nat.toDigits radix n).length) := by
    rintro ⟨hhead0, hlong⟩
    by_cases hpos : 0 < n
    · exact hhead hpos hhead0
    · rw [Nat.eq_zero_of_not_pos hpos, Nat.toDigits_zero] at hlong
      exact absurd hlong (by decide)
  unfold readNumber
  simp only [htake, hdrop, hvalue]
  rw [if_neg (by simpa using hlen), if_neg Nat.toDigits_ne_nil,
    if_neg (by simpa using fun _ hhead0 => Nat.le_of_not_lt fun hlong => hzero ⟨hhead0, hlong⟩), if_pos hn]

/-! ## IPv4 -/

theorem octet_lt (b : BitVec 32) (i : Nat) : octet b i < 256 := Nat.mod_lt _ (by decide)

theorem stops_nil : Stops radix [] := fun c hc => absurd hc (Option.not_mem_none c)

theorem stops_dot : Stops 10 ('.' :: rest) := fun c hc => by
  cases hc
  decide

theorem readNumber_octet (hn : n < 256) (hrest : Stops 10 rest) :
    readNumber 10 (some 3) false 256 (decimal n ++ rest) = some (n, rest) :=
  readNumber_toDigits (by decide) (by decide) hn
    ((Nat.length_toDigits_le_iff (by decide) (by decide)).mpr (by omega)) hrest

theorem readOctet_zero (hn : n < 256) (hrest : Stops 10 rest) :
    readOctet 0 (decimal n ++ rest) = some (n, rest) :=
  readNumber_octet hn hrest

theorem readOctet_succ {index : Nat} (hn : n < 256) (hrest : Stops 10 rest) :
    readOctet (index + 1) ('.' :: (decimal n ++ rest)) = some (n, rest) :=
  readNumber_octet hn hrest

theorem readIpv4Addr_show (b : BitVec 32) (hrest : Stops 10 rest) :
    readIpv4Addr (showIpv4 b ++ rest) = some (octets b, rest) := by
  unfold showIpv4 readIpv4Addr
  simp only [List.append_assoc, List.cons_append]
  rw [readOctet_zero (octet_lt b 0) stops_dot]
  simp only [Option.bind_eq_bind, Option.bind_some]
  rw [readOctet_succ (octet_lt b 1) stops_dot]
  simp only [Option.bind_some]
  rw [readOctet_succ (octet_lt b 2) stops_dot]
  simp only [Option.bind_some]
  rw [readOctet_succ (octet_lt b 3) hrest]
  rfl

theorem octets_foldl (b : BitVec 32) : (octets b).foldl (fun n o => 256 * n + o) 0 = b.toNat := by
  have hb := b.isLt
  have hlast : octet b 3 = b.toNat % 256 := rfl
  simp only [octets, List.foldl_cons, List.foldl_nil, octet_zero, octet_one, octet_two, hlast]
  omega

/-! ## IPv6 -/

theorem segment_lt (b : BitVec 128) (i : Nat) : segment b i < 65536 := Nat.mod_lt _ (by decide)

theorem segments_foldl (b : BitVec 128) :
    (segments b).foldl (fun n g => 65536 * n + g) 0 = b.toNat := by
  have hb : b.toNat < 65536 * 65536 ^ 7 := b.isLt
  have hseg : ∀ {i k}, i + k = 7 → segment b i = b.toNat / 65536 ^ k % 65536 := fun {i k} hk => by
    obtain rfl : k = 7 - i := by omega
    rw [segment, BitVec.toNat_ushiftRight, Nat.shiftRight_eq_div_pow, Nat.pow_mul]
  -- one more segment behind those that are already there
  have hstep : ∀ {i k n}, i + k = 7 → n = b.toNat / 65536 ^ (k + 1) →
      65536 * n + segment b i = b.toNat / 65536 ^ k := fun hk hn => by
    rw [hseg hk, hn, Nat.pow_succ, ← Nat.div_div_eq_div_mul, Nat.div_add_mod]
  have htop : 65536 * 0 + segment b 0 = b.toNat / 65536 ^ 7 := by
    rw [hseg (Nat.zero_add 7), Nat.mul_zero, Nat.zero_add]
    exact Nat.mod_eq_of_lt ((Nat.div_lt_iff_lt_mul (by decide)).mpr hb)
  have hall := hstep rfl (hstep rfl (hstep rfl (hstep rfl (hstep rfl (hstep rfl (hstep rfl htop))))))
  rw [Nat.pow_zero, Nat.div_one] at hall
  exact hall

/-- Without a dot there is no IPv4 address. -/
theorem readIpv4Addr_of_no_dot {s : Str} (hs : '.' ∉ s) : readIpv4Addr s = none := by
  unfold readIpv4Addr
  match hr : readOctet 0 s with
  | none => rfl
  | some (a, t) =>
    obtain ⟨used, rfl, -, -⟩ := readOctet_eq_some hr
    have hdot : readOctet 1 t = none := by
      unfold readOctet readSeparator readGivenChar
      match t with
      | [] => rfl
      | c :: t =>
        have hc : c ≠ '.' := fun heq => hs (by simp [heq])
        simp [hc]
    simp only [Option.bind_eq_bind, Option.bind_some, hdot, Option.bind_none]

/-- Groups behind another one, each with its colon. -/
def moreGroups (groups : List Nat) : Str := groups.flatMap fun g => ':' :: hexText g

/-- Where groups end: at the end of the text, or where `::` stands for groups left out. -/
def EndsGroups (rest : Str) : Prop := rest = [] ∨ ∃ t, rest = ':' :: ':' :: t

theorem stops_colon {t : Str} : Stops 16 (':' :: t) := fun c hc => by
  cases hc
  decide

theorem EndsGroups.stops (h : EndsGroups rest) (groups : List Nat) : Stops 16 (moreGroups groups ++ rest) := by
  match groups with
  | [] =>
    rcases h with rfl | ⟨t, rfl⟩
    · exact stops_nil
    · exact stops_colon
  | g :: groups => exact stops_colon

theorem not_mem_moreGroups {groups : List Nat} (h : '.' ∉ rest) : '.' ∉ moreGroups groups ++ rest := by
  intro hmem
  rcases List.mem_append.mp hmem with hmem | hmem
  · obtain ⟨g, -, hg⟩ := List.mem_flatMap.mp hmem
    rcases List.mem_cons.mp hg with hcolon | hhex
    · exact absurd hcolon (by decide)
    · exact absurd ((toDigits_spec (by decide) (by decide) g).1 '.' hhex) (by decide)
  · exact h hmem

theorem readNumber_hexText {g : Nat} (hg : g < 65536) (hrest : Stops 16 rest) :
    readNumber 16 (some 4) true 65536 (hexText g ++ rest) = some (g, rest) :=
  readNumber_toDigits (by decide) (by decide) hg
    ((Nat.length_toDigits_le_iff (by decide) (by decide)).mpr hg) hrest

/-- A number needs a digit. -/
theorem readNumber_of_stops (hrest : Stops radix rest) {maxDigits : Option Nat} :
    readNumber radix maxDigits allow bound rest = none := by
  have hnone : rest.takeWhile (fun c => (digitOf radix c).isSome) = [] := by
    match rest with
    | [] => rfl
    | c :: rest =>
      have hc := hrest c rfl
      simp [hc]
  unfold readNumber
  simp only [hnone]
  split
  · rfl
  · rfl

theorem readSeparator_ipv4_of_no_dot {index : Nat} {s : Str} (hs : '.' ∉ s) :
    readSeparator ':' index readIpv4Addr s = none := by
  match hr : readSeparator ':' index readIpv4Addr s with
  | none => rfl
  | some (ip, t) =>
    obtain ⟨u, hu, hip⟩ := readSeparator_eq_some hr
    have hnone : readIpv4Addr u = none := by
      refine readIpv4Addr_of_no_dot fun hmem => hs ?_
      rcases hu with ⟨-, rfl⟩ | ⟨-, rfl⟩
      · exact hmem
      · exact List.mem_cons_of_mem _ hmem
    rw [hnone] at hip
    cases hip

theorem EndsGroups.no_group (h : EndsGroups rest) (index : Nat) :
    readSeparator ':' index (readNumber 16 (some 4) true 65536) rest = none := by
  unfold readSeparator
  rcases h with rfl | ⟨t, rfl⟩
  · split <;> rfl
  · split
    · simp only [readGivenChar, if_true, Option.bind_eq_bind, Option.bind_some]
      exact readNumber_of_stops stops_colon
    · exact readNumber_of_stops stops_colon

theorem no_dot_group {g : Nat} (h : '.' ∉ rest) : '.' ∉ hexText g ++ rest := fun hmem => by
  rcases List.mem_append.mp hmem with hmem | hmem
  · exact absurd ((toDigits_spec (by decide) (by decide) g).1 '.' hmem) (by decide)
  · exact h hmem

theorem readGroups_first {left g : Nat} (hg : g < 65536) (hrest : Stops 16 rest) (hdot : '.' ∉ rest) :
    readGroups (left + 1) [] (hexText g ++ rest) = readGroups left [g] rest := by
  have hread : readSeparator ':' 0 (readNumber 16 (some 4) true 65536) (hexText g ++ rest) =
      some (g, rest) :=
    readNumber_hexText hg hrest
  rw [readGroups, readSeparator_ipv4_of_no_dot (no_dot_group hdot), ite_self]
  simp only [List.length_nil, hread, List.nil_append]

/-- A group that is not the first stands behind a colon. -/
theorem readGroups_next {acc : List Nat} {left g : Nat} (hacc : acc ≠ []) (hg : g < 65536)
    (hrest : Stops 16 rest) (hdot : '.' ∉ rest) :
    readGroups (left + 1) acc (':' :: (hexText g ++ rest)) = readGroups left (acc ++ [g]) rest := by
  have hread : readSeparator ':' acc.length (readNumber 16 (some 4) true 65536)
      (':' :: (hexText g ++ rest)) = some (g, rest) := by
    rw [readSeparator, if_pos (List.length_pos_iff.mpr hacc)]
    exact readNumber_hexText hg hrest
  have hcolon : '.' ∉ ':' :: (hexText g ++ rest) :=
    List.not_mem_cons_of_ne_of_not_mem (by decide) (no_dot_group hdot)
  rw [readGroups, readSeparator_ipv4_of_no_dot hcolon, ite_self]
  simp only [hread]

/-- Groups are read to where they end. -/
theorem readGroups_more : ∀ {groups acc : List Nat} {left : Nat}, (∀ g ∈ groups, g < 65536) →
    groups.length ≤ left → acc ≠ [] → '.' ∉ rest → EndsGroups rest →
    readGroups left acc (moreGroups groups ++ rest) = (acc ++ groups, false, rest)
  | [], acc, 0, _, _, _, _, _ => by rw [readGroups, List.append_nil]; rfl
  | [], acc, left + 1, _, _, _, hdot, hend => by
    have hnone := hend.no_group acc.length
    simp only [moreGroups, List.flatMap_nil, List.nil_append, List.append_nil]
    rw [readGroups, readSeparator_ipv4_of_no_dot hdot, ite_self]
    simp only [hnone]
  | g :: groups, acc, left + 1, hlt, hlen, hacc, hdot, hend => by
    obtain ⟨hg, hgroups⟩ := List.forall_mem_cons.mp hlt
    have htext : moreGroups (g :: groups) ++ rest = ':' :: (hexText g ++ (moreGroups groups ++ rest)) := by
      simp [moreGroups]
    rw [htext, readGroups_next hacc hg (hend.stops groups) (not_mem_moreGroups hdot),
      readGroups_more hgroups (Nat.le_of_succ_le_succ hlen) (by simp) hdot hend, List.append_assoc]
    rfl

theorem readGroups_join {groups : List Nat} {left : Nat} (hlt : ∀ g ∈ groups, g < 65536)
    (hlen : groups.length ≤ left) (hdot : '.' ∉ rest) (hend : EndsGroups rest) :
    readGroups left [] (joinGroups groups ++ rest) = (groups, false, rest) := by
  match groups, left with
  | [], 0 => rfl
  | [], left + 1 =>
    have hnone := hend.no_group 0
    rw [joinGroups, List.nil_append, readGroups, readSeparator_ipv4_of_no_dot hdot, ite_self]
    simp only [List.length_nil, hnone]
  | g :: groups, left + 1 =>
    obtain ⟨hg, hgroups⟩ := List.forall_mem_cons.mp hlt
    have htext : joinGroups (g :: groups) ++ rest = hexText g ++ (moreGroups groups ++ rest) :=
      List.append_assoc _ _ _
    rw [htext, readGroups_first hg (hend.stops groups) (not_mem_moreGroups hdot),
      readGroups_more hgroups (Nat.le_of_succ_le_succ hlen) (List.cons_ne_nil _ _) hdot hend]
    rfl

theorem readGroups_all {groups : List Nat} {left : Nat} (hlt : ∀ g ∈ groups, g < 65536)
    (hlen : groups.length ≤ left) : readGroups left [] (joinGroups groups) = (groups, false, []) := by
  rw [← List.append_nil (joinGroups groups)]
  exact readGroups_join hlt hlen List.not_mem_nil (.inl rfl)

/-- A run of zeros. -/
structure Span.Zeros (s : Span) (groups : List Nat) : Prop where
  within : s.start + s.len ≤ groups.length
  zeros : ∀ i, s.start ≤ i → i < s.start + s.len → groups[i]? = some 0

theorem Span.Zeros.snoc {s : Span} {groups : List Nat} {g : Nat} (h : s.Zeros groups) :
    s.Zeros (groups ++ [g]) := by
  refine ⟨?_, fun i hi hlt => ?_⟩
  · have := h.within
    rw [List.length_append]
    omega
  · have := h.within
    rw [List.getElem?_append_left (by omega)]
    exact h.zeros i hi hlt

theorem Span.Zeros.grow {s : Span} {groups : List Nat} (h : s.Zeros groups)
    (hends : 0 < s.len → s.start + s.len = groups.length) :
    Span.Zeros ⟨if s.len = 0 then groups.length else s.start, s.len + 1⟩ (groups ++ [0]) := by
  refine ⟨?_, fun i hi hlt => ?_⟩
  · rw [List.length_append, List.length_singleton]
    dsimp only
    split <;> omega
  · dsimp only at hi hlt
    rcases Nat.lt_or_ge i groups.length with hold | hnew
    · rw [List.getElem?_append_left hold]
      split at hi
      · omega
      · exact h.zeros i hi (by omega)
    · obtain rfl : i = groups.length := by
        split at hlt <;> omega
      exact List.getElem?_concat_length

/-- What is kept while the segments are gone through: both runs are zeros, and the current one ends here. -/
theorem zeroSpan_foldl (groups : List Nat) : ∃ longest current,
    groups.zipIdx.foldl zeroSpan (⟨0, 0⟩, ⟨0, 0⟩) = (longest, current) ∧ longest.Zeros groups ∧
      current.Zeros groups ∧ (0 < current.len → current.start + current.len = groups.length) := by
  induction groups using List.reverseRecOn with
  | nil =>
    have hempty : Span.Zeros ⟨0, 0⟩ [] := ⟨Nat.le_refl 0, fun i _ hi => absurd hi (Nat.not_lt_zero i)⟩
    exact ⟨_, _, rfl, hempty, hempty, fun h => absurd h (Nat.lt_irrefl 0)⟩
  | append_singleton groups g ih =>
    obtain ⟨longest, current, hfold, hlongest, hcurrent, hends⟩ := ih
    have hstep : (groups ++ [g]).zipIdx.foldl zeroSpan (⟨0, 0⟩, ⟨0, 0⟩) =
        zeroSpan (longest, current) (g, groups.length) := by
      rw [List.zipIdx_append, List.foldl_append, hfold]
      simp
    rw [hstep, zeroSpan]
    split
    · next hg =>
      obtain rfl : g = 0 := hg
      have hcurrent' : Span.Zeros ⟨if current.len = 0 then groups.length else current.start, current.len + 1⟩
          (groups ++ [0]) := hcurrent.grow hends
      have hlonger : ∀ next : Span, next.Zeros (groups ++ [0]) →
          (if longest.len < next.len then next else longest).Zeros (groups ++ [0]) := fun next hnext => by
        split
        · exact hnext
        · exact hlongest.snoc
      refine ⟨_, _, rfl, hlonger _ hcurrent', hcurrent', fun _ => ?_⟩
      rw [List.length_append, List.length_singleton]
      dsimp only
      split <;> omega
    · exact ⟨_, _, rfl, hlongest.snoc, ⟨Nat.zero_le _, fun i _ hi => absurd hi (Nat.not_lt_zero i)⟩,
        fun h => absurd h (Nat.lt_irrefl 0)⟩

theorem longestZeros_zeros (groups : List Nat) : (longestZeros groups).Zeros groups := by
  obtain ⟨longest, current, hfold, hlongest, -⟩ := zeroSpan_foldl groups
  rw [longestZeros, hfold]
  exact hlongest

/-- The segments around a run of zeros, and the run. -/
theorem Span.Zeros.eq_append {s : Span} {groups : List Nat} (h : s.Zeros groups) :
    groups = groups.take s.start ++ (List.replicate s.len 0 ++ groups.drop (s.start + s.len)) := by
  obtain ⟨hwithin, hzeros⟩ := h
  have hrun : (groups.drop s.start).take s.len = List.replicate s.len 0 := by
    refine List.ext_getElem? fun i => ?_
    rw [List.getElem?_take, List.getElem?_drop, List.getElem?_replicate]
    split
    · exact hzeros _ (by omega) (by omega)
    · rfl
  rw [← hrun, ← List.drop_drop, List.take_append_drop, List.take_append_drop]

theorem no_dot_joinGroups (groups : List Nat) : '.' ∉ joinGroups groups := by
  match groups with
  | [] => exact List.not_mem_nil
  | g :: groups =>
    have hmore : '.' ∉ moreGroups groups ++ [] := not_mem_moreGroups List.not_mem_nil
    rw [List.append_nil] at hmore
    exact no_dot_group hmore

/-- Groups with `::` for a run of zeros: what stands before it is read first, then what stands behind. -/
theorem readIpv6Addr_compressed {head tail : List Nat} {len : Nat} (hhead : ∀ g ∈ head, g < 65536)
    (htail : ∀ g ∈ tail, g < 65536) (hlen : head.length + (len + tail.length) = 8) (hpos : 0 < len) :
    readIpv6Addr (joinGroups head ++ ':' :: ':' :: joinGroups tail) =
      some (head ++ (List.replicate len 0 ++ tail), []) := by
  have hdot : '.' ∉ ':' :: ':' :: joinGroups tail :=
    List.not_mem_cons_of_ne_of_not_mem (by decide)
      (List.not_mem_cons_of_ne_of_not_mem (by decide) (no_dot_joinGroups tail))
  have hfront : readGroups 8 [] (joinGroups head ++ ':' :: ':' :: joinGroups tail) =
      (head, false, ':' :: ':' :: joinGroups tail) :=
    readGroups_join hhead (by omega) hdot (.inr ⟨_, rfl⟩)
  have hback : readGroups (8 - (head.length + 1)) [] (joinGroups tail) = (tail, false, []) :=
    readGroups_all htail (by omega)
  have hrun : 8 - head.length - tail.length = len := by omega
  unfold readIpv6Addr
  simp only [hfront, if_neg (show ¬head.length = 8 by omega), readGivenChar, if_true, Option.bind_eq_bind,
    Option.bind_some, hback, hrun]
  rfl

theorem readIpv6Addr_groups {groups : List Nat} (hlen : groups.length = 8) (hlt : ∀ g ∈ groups, g < 65536) :
    readIpv6Addr (showGroups groups) = some (groups, []) := by
  have hzeros := longestZeros_zeros groups
  unfold showGroups
  simp only
  split
  · next hrun =>
    have hwithin := hzeros.within
    have hhead : ∀ g ∈ groups.take (longestZeros groups).start, g < 65536 :=
      fun g hg => hlt g (List.mem_of_mem_take hg)
    have htail : ∀ g ∈ groups.drop ((longestZeros groups).start + (longestZeros groups).len), g < 65536 :=
      fun g hg => hlt g (List.mem_of_mem_drop hg)
    have hread := readIpv6Addr_compressed hhead htail
      (by rw [List.length_take, List.length_drop]; omega) (Nat.lt_trans Nat.one_pos hrun)
    rw [← hzeros.eq_append] at hread
    rw [← hread, List.append_assoc]
    rfl
  · have hread : readGroups 8 [] (joinGroups groups) = (groups, false, []) :=
      readGroups_all hlt (Nat.le_of_eq hlen)
    unfold readIpv6Addr
    simp only [hread, hlen, if_true]

/-! ## Addresses of either family -/

/-- An IPv4 address starts with a digit. -/
theorem readIpv4Addr_of_stops {s : Str} (hs : Stops 10 s) : readIpv4Addr s = none := by
  have hnone : readOctet 0 s = none := readNumber_of_stops hs
  unfold readIpv4Addr
  rw [hnone]
  rfl

theorem stops_ten_colon {t : Str} : Stops 10 (':' :: t) := fun c hc => by
  cases hc
  decide

/-- An address mapped from IPv4 is read up to its octets, which fill the last two groups. -/
theorem readIpv6Addr_mapped (b : BitVec 32) : readIpv6Addr ("::ffff:".toList ++ showIpv4 b) =
    some ([0, 0, 0, 0, 0, 65535] ++ ipv4Groups (octets b), []) := by
  have hfront : ∀ t, readGroups 8 [] (':' :: ':' :: t) = ([], false, ':' :: ':' :: t) := fun t => by
    have hv4 : readSeparator ':' 0 readIpv4Addr (':' :: ':' :: t) = none :=
      readIpv4Addr_of_stops stops_ten_colon
    have hnone := EndsGroups.no_group (.inr ⟨t, rfl⟩) 0
    rw [readGroups]
    simp only [List.length_nil, hv4, ite_self, hnone]
  have hocts : readGroups 6 [65535] (':' :: showIpv4 b) = ([65535] ++ ipv4Groups (octets b), true, []) := by
    have hv4 : readSeparator ':' 1 readIpv4Addr (':' :: (showIpv4 b ++ [])) = some (octets b, []) :=
      readIpv4Addr_show b stops_nil
    rw [List.append_nil] at hv4
    rw [readGroups]
    simp only [List.length_singleton, hv4]
    rfl
  have hback : readGroups 7 [] ("ffff".toList ++ ':' :: showIpv4 b) =
      ([65535] ++ ipv4Groups (octets b), true, []) := by
    have hv4 : readSeparator ':' 0 readIpv4Addr ("ffff".toList ++ ':' :: showIpv4 b) = none :=
      readIpv4Addr_of_stops fun c hc => by
        cases hc
        decide
    have hgroup : readSeparator ':' 0 (readNumber 16 (some 4) true 65536)
        ("ffff".toList ++ ':' :: showIpv4 b) = some (65535, ':' :: showIpv4 b) :=
      readNumber_hexText (g := 65535) (by decide) stops_colon
    rw [readGroups]
    simp only [List.length_nil, hv4, ite_self, hgroup]
    exact hocts
  have htext : "::ffff:".toList ++ showIpv4 b = ':' :: ':' :: ("ffff".toList ++ ':' :: showIpv4 b) := rfl
  rw [htext]
  unfold readIpv6Addr
  simp only [hfront, List.length_nil, readGivenChar, if_true, Option.bind_eq_bind, Option.bind_some, hback]
  rfl

theorem toIpv4Mapped_eq_some {b : BitVec 128} {v4 : BitVec 32} (h : toIpv4Mapped b = some v4) :
    ([0, 0, 0, 0, 0, 65535] ++ ipv4Groups (octets v4)).foldl (fun n g => 65536 * n + g) 0 = b.toNat := by
  unfold toIpv4Mapped at h
  split at h
  · next hhigh =>
    have hv4 := octets_foldl v4
    have hdiv : b.toNat / 2 ^ 32 = 65535 := by
      rw [← Nat.shiftRight_eq_div_pow, ← BitVec.toNat_ushiftRight, hhigh]
      rfl
    have hlow : v4.toNat = b.toNat % 2 ^ 32 := by
      rw [← Option.some.inj h, BitVec.toNat_setWidth]
    simp only [octets, List.foldl_cons, List.foldl_nil] at hv4
    simp only [octets, ipv4Groups, List.cons_append, List.nil_append, List.foldl_cons, List.foldl_nil]
    omega
  · cases h

theorem no_dot_showGroups (groups : List Nat) : '.' ∉ showGroups groups := by
  unfold showGroups
  simp only
  split
  · rw [List.append_assoc, List.mem_append, not_or]
    exact ⟨no_dot_joinGroups _, List.not_mem_cons_of_ne_of_not_mem (by decide)
      (List.not_mem_cons_of_ne_of_not_mem (by decide) (no_dot_joinGroups _))⟩
  · exact no_dot_joinGroups groups

theorem parseIpAddr_v6 {b : BitVec 128} {s : Str} {groups : List Nat} (hv4 : readIpv4Addr s = none)
    (hv6 : readIpv6Addr s = some (groups, []))
    (hvalue : groups.foldl (fun n g => 65536 * n + g) 0 = b.toNat) : parseIpAddr s = some (.v6 b) := by
  rw [parseIpAddr, readIpAddr, hv4, hv6]
  simp only [hvalue, BitVec.ofNat_toNat, BitVec.setWidth_eq]

/-- **An address is read as it is shown.** -/
theorem parseIpAddr_showIpAddr (a : IpAddr) : parseIpAddr (showIpAddr a) = some a := by
  cases a with
  | v4 b =>
    have hread : readIpv4Addr (showIpv4 b ++ []) = some (octets b, []) := readIpv4Addr_show b stops_nil
    rw [List.append_nil] at hread
    rw [parseIpAddr, readIpAddr, showIpAddr, hread]
    simp only [octets_foldl, BitVec.ofNat_toNat, BitVec.setWidth_eq]
  | v6 b =>
    rw [showIpAddr, showIpv6]
    cases hmapped : toIpv4Mapped b with
    | some v4 =>
      exact parseIpAddr_v6 (readIpv4Addr_of_stops stops_ten_colon) (readIpv6Addr_mapped v4)
        (toIpv4Mapped_eq_some hmapped)
    | none =>
      have hlt : ∀ g ∈ segments b, g < 65536 := by
        simp [segments, segment_lt]
      exact parseIpAddr_v6 (readIpv4Addr_of_no_dot (no_dot_showGroups _)) (readIpv6Addr_groups rfl hlt)
        (segments_foldl b)

/-- What an address is written with, of either family. -/
theorem parseIpAddr_chars {a : IpAddr} {s : Str} (h : parseIpAddr s = some a) : ∀ c ∈ s, Ipv6Char c := by
  unfold parseIpAddr readIpAddr at h
  split at h
  · next a' hread =>
    split at hread
    · next ip t hv4 =>
      cases hread
      exact ((readIpv4Addr_eq_some hv4).1.mono (fun c hc => hc.imp_right .inl) (Nat.le_refl 0)).whole.1
    · split at hread
      · next groups t hv6 =>
        cases hread
        exact (readIpv6Addr_eq_some hv6).whole.1
      · cases hread
  · cases h

end

end Leshiy.Lib.NetAddr
