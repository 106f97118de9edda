import Leshiy.Lib.Prefix
import Leshiy.Lib.Str
import Leshiy.Lib.Text

/-!
# Internet addresses as text

The parser of Rust's `std::net`. A reader takes something off the front and leaves the rest, or takes
nothing.
-/

namespace Leshiy.Lib.NetAddr

open Str

abbrev Reader (α : Type) := Str → Option (α × Str)

def readGivenChar (target : Char) : Reader Unit
  | [] => none
  | c :: rest => if c = target then some ((), rest) else none

/-- A separator stands before every item but the first. -/
def readSeparator {α : Type} (sep : Char) (index : Nat) (inner : Reader α) : Reader α := fun s =>
  if 0 < index then do
    let (_, s) ← readGivenChar sep s
    inner s
  else inner s

def digitOf (radix : Nat) (c : Char) : Option Nat := (hexVal c).filter (· < radix)

/-- The number that the digits at the front make, of a type with `bound` values. -/
def readNumber (radix : Nat) (maxDigits : Option Nat) (allowZeroPrefix : Bool) (bound : Nat) :
    Reader Nat := fun s =>
  let isDigit := fun c => (digitOf radix c).isSome
  let digits := s.takeWhile isDigit
  let value := digits.foldl (fun n c => n * radix + (digitOf radix c).getD 0) 0
  if maxDigits.any (· < digits.length) then none
  else if digits = [] then none
  else if !allowZeroPrefix && digits.head? == some '0' && decide (1 < digits.length) then none
  else if value < bound then some (value, s.dropWhile isDigit)
  else none

def readOctet (index : Nat) : Reader Nat := readSeparator '.' index (readNumber 10 (some 3) false 256)

def readIpv4Addr : Reader (List Nat) := fun s => do
  let (a, s) ← readOctet 0 s
  let (b, s) ← readOctet 1 s
  let (c, s) ← readOctet 2 s
  let (d, s) ← readOctet 3 s
  return ([a, b, c, d], s)

/-- The two groups that an IPv4 address fills. -/
def ipv4Groups : List Nat → List Nat
  | [a, b, c, d] => [256 * a + b, 256 * c + d]
  | _ => []

/-- Groups with `left` of them still to fill, and whether an IPv4 address came last. One is tried for
where two groups are left. -/
def readGroups : (left : Nat) → List Nat → Str → List Nat × Bool × Str
  | 0, groups, s => (groups, false, s)
  | left + 1, groups, s =>
    match if 0 < left then readSeparator ':' groups.length readIpv4Addr s else none with
    | some (v4, s) => (groups ++ ipv4Groups v4, true, s)
    | none =>
      match readSeparator ':' groups.length (readNumber 16 (some 4) true 65536) s with
      | some (g, s) => readGroups left (groups ++ [g]) s
      | none => (groups, false, s)

/-- Eight groups, or fewer around `::`, which stands for one group of zeros or more. -/
def readIpv6Addr : Reader (List Nat) := fun s =>
  let (head, headIpv4, s) := readGroups 8 [] s
  if head.length = 8 then some (head, s)
  else if headIpv4 then none
  else do
    let (_, s) ← readGivenChar ':' s
    let (_, s) ← readGivenChar ':' s
    let (tail, _, s) := readGroups (8 - (head.length + 1)) [] s
    return (head ++ (List.replicate (8 - head.length - tail.length) 0 ++ tail), s)

def readPort : Reader Nat := fun s => do
  let (_, s) ← readGivenChar ':' s
  readNumber 10 none true 65536 s

def readScopeId : Reader Nat := fun s => do
  let (_, s) ← readGivenChar '%' s
  readNumber 10 none true (UInt32.size) s

def readSocketAddrV4 : Reader (List Nat × Nat) := fun s => do
  let (ip, s) ← readIpv4Addr s
  let (port, s) ← readPort s
  return ((ip, port), s)

def readSocketAddrV6 : Reader (List Nat × Nat) := fun s => do
  let (_, s) ← readGivenChar '[' s
  let (ip, s) ← readIpv6Addr s
  let s := ((readScopeId s).map Prod.snd).getD s
  let (_, s) ← readGivenChar ']' s
  let (port, s) ← readPort s
  return ((ip, port), s)

def readSocketAddr : Reader (List Nat × Nat) := fun s => readSocketAddrV4 s <|> readSocketAddrV6 s

def readIpAddr : Reader IpAddr := fun s =>
  match readIpv4Addr s with
  | some (octets, s) =>
    some (.v4 (BitVec.ofNat 32 (octets.foldl (fun n o => 256 * n + o) 0)), s)
  | none =>
    match readIpv6Addr s with
    | some (groups, s) =>
      some (.v6 (BitVec.ofNat 128 (groups.foldl (fun n g => 65536 * n + g) 0)), s)
    | none => none

/-- `str::parse::<IpAddr>()`. -/
def parseIpAddr (s : Str) : Option IpAddr :=
  match readIpAddr s with
  | some (a, []) => some a
  | _ => none

/-- Whether a reader takes the whole text. -/
def accepts {α : Type} (r : Reader α) (s : Str) : Bool := (r s).any fun out => out.2 == []

/-- No longer than the longest address. -/
def isIpv4 (s : Str) : Bool := decide (s.length ≤ 15) && accepts readIpv4Addr s

def isIpv6 : Str → Bool := accepts readIpv6Addr

def isSocketAddr : Str → Bool := accepts readSocketAddr

example : isIpv6 "2001:db8::1".toList ∧ isIpv6 "::ffff:1.2.3.4".toList ∧ ¬ isIpv6 "1:2".toList ∧
    isSocketAddr "[::1]:443".toList ∧ ¬ isIpv4 "1.2.03.4".toList := by decide

example : parseIpAddr "::ffff:1.2.3.4".toList = some (.v6 0xffff01020304#128) ∧
    parseIpAddr "1.2.3.4".toList = some (.v4 0x01020304#32) ∧
    parseIpAddr "1.2.3.4:80".toList = none := by decide

/-! ## What a reader takes -/

/-- From `s` to `rest` only such characters are taken, with so many colons among them. -/
def Took (p : Char → Prop) (colons : Nat) (s rest : Str) : Prop :=
  ∃ used, s = used ++ rest ∧ (∀ c ∈ used, p c) ∧ colons ≤ used.count ':'

section

variable {p q : Char → Prop} {m n : Nat} {s t u rest : Str} {c : Char}

theorem Took.refl : Took p 0 s s := ⟨[], rfl, fun _ h => absurd h List.not_mem_nil, Nat.zero_le _⟩

theorem Took.trans (h : Took p m s t) (h' : Took p n t u) : Took p (m + n) s u := by
  obtain ⟨used, rfl, hp, hm⟩ := h
  obtain ⟨used', rfl, hp', hn⟩ := h'
  refine ⟨used ++ used', (List.append_assoc _ _ _).symm, fun c hc => ?_, ?_⟩
  · rcases List.mem_append.mp hc with hc | hc
    · exact hp c hc
    · exact hp' c hc
  · rw [List.count_append]
    omega

theorem Took.mono (h : Took p m s t) (hpq : ∀ c, p c → q c) (hle : n ≤ m) : Took q n s t := by
  obtain ⟨used, hs, hp, hm⟩ := h
  exact ⟨used, hs, fun c hc => hpq c (hp c hc), Nat.le_trans hle hm⟩

theorem readGivenChar_eq_some {out : Unit} (h : readGivenChar c s = some (out, rest)) :
    s = c :: rest := by
  match s, h with
  | x :: xs, h =>
    rw [readGivenChar] at h
    split at h
    · next heq =>
      rw [← (Prod.mk.inj (Option.some.inj h)).2, heq]
    · cases h

theorem readSeparator_eq_some {α : Type} {sep : Char} {index : Nat} {inner : Reader α} {a : α}
    (h : readSeparator sep index inner s = some (a, rest)) :
    ∃ t, (index = 0 ∧ t = s ∨ 0 < index ∧ s = sep :: t) ∧ inner t = some (a, rest) := by
  unfold readSeparator at h
  split at h
  · next hpos =>
    obtain ⟨⟨_, t⟩, hsep, hinner⟩ := Option.bind_eq_some_iff.mp h
    exact ⟨t, .inr ⟨hpos, readGivenChar_eq_some hsep⟩, hinner⟩
  · next hpos => exact ⟨s, .inl ⟨by omega, rfl⟩, h⟩

theorem readNumber_eq_some {radix bound value : Nat} {maxDigits : Option Nat} {allow : Bool}
    (h : readNumber radix maxDigits allow bound s = some (value, rest)) :
    Took (fun c => (digitOf radix c).isSome) 0 s rest := by
  unfold readNumber at h
  simp only at h
  split at h
  · cases h
  split at h
  · cases h
  split at h
  · cases h
  split at h
  · rw [Option.some.injEq, Prod.mk.injEq] at h
    refine ⟨s.takeWhile fun c => (digitOf radix c).isSome, ?_, ?_, Nat.zero_le _⟩
    · rw [← h.2, List.takeWhile_append_dropWhile]
    · intro c hc
      exact List.mem_takeWhile_imp (p := fun c => (digitOf radix c).isSome) hc
  · cases h

theorem isSome_hexVal_of_digitOf {radix : Nat} (h : (digitOf radix c).isSome) :
    (hexVal c).isSome := by
  unfold digitOf at h
  cases hval : hexVal c with
  | none =>
    rw [hval] at h
    cases h
  | some v => rfl

/-- What an IPv4 address is made of. -/
def Ipv4Char (c : Char) : Prop := (hexVal c).isSome ∨ c = '.'

/-- What an IPv6 address is made of. -/
def Ipv6Char (c : Char) : Prop := (hexVal c).isSome ∨ c = '.' ∨ c = ':'

theorem readOctet_eq_some {index value : Nat} (h : readOctet index s = some (value, rest)) :
    Took Ipv4Char 0 s rest := by
  obtain ⟨t, hsep, hnum⟩ := readSeparator_eq_some h
  have hdigits : Took Ipv4Char 0 t rest :=
    (readNumber_eq_some hnum).mono (fun c hc => .inl (isSome_hexVal_of_digitOf hc)) (Nat.le_refl 0)
  rcases hsep with ⟨-, rfl⟩ | ⟨-, rfl⟩
  · exact hdigits
  · have hdot : Took Ipv4Char 0 ('.' :: t) t :=
      ⟨['.'], rfl, fun c hc => .inr (List.mem_singleton.mp hc), Nat.zero_le _⟩
    exact hdot.trans hdigits

theorem readIpv4Addr_eq_some {ip : List Nat} (h : readIpv4Addr s = some (ip, rest)) :
    Took Ipv4Char 0 s rest ∧ (ipv4Groups ip).length = 2 := by
  unfold readIpv4Addr at h
  obtain ⟨⟨a, sa⟩, ha, h⟩ := Option.bind_eq_some_iff.mp h
  obtain ⟨⟨b, sb⟩, hb, h⟩ := Option.bind_eq_some_iff.mp h
  obtain ⟨⟨c, sc⟩, hc, h⟩ := Option.bind_eq_some_iff.mp h
  obtain ⟨⟨d, sd⟩, hd, h⟩ := Option.bind_eq_some_iff.mp h
  obtain ⟨rfl, rfl⟩ := Prod.mk.inj (Option.some.inj h)
  exact ⟨(readOctet_eq_some ha).trans ((readOctet_eq_some hb).trans ((readOctet_eq_some hc).trans
    (readOctet_eq_some hd))), rfl⟩

/-- An item of an IPv6 address, behind a colon if it is not the first. -/
theorem took_item {α : Type} {index : Nat} {inner : Reader α} {a : α}
    (hinner : ∀ {t}, inner t = some (a, rest) → Took Ipv6Char 0 t rest)
    (h : readSeparator ':' index inner s = some (a, rest)) :
    Took Ipv6Char (if index = 0 then 0 else 1) s rest := by
  obtain ⟨t, hsep, hitem⟩ := readSeparator_eq_some h
  rcases hsep with ⟨rfl, rfl⟩ | ⟨hpos, rfl⟩
  · exact hinner hitem
  · have hcolon : Took Ipv6Char 1 (':' :: t) t :=
      ⟨[':'], rfl, fun c hc => .inr (.inr (List.mem_singleton.mp hc)), by decide⟩
    rw [if_neg (Nat.pos_iff_ne_zero.mp hpos)]
    exact hcolon.trans (hinner hitem)

/-- Every group but the first has its colon, and an IPv4 address saves one. -/
theorem readGroups_eq : ∀ {left : Nat} {groups : List Nat} {s : Str} {out : List Nat} {v4 : Bool}
    {rest : Str}, readGroups left groups s = (out, v4, rest) → ∃ n, Took Ipv6Char n s rest ∧
      (groups ≠ [] → out.length ≤ groups.length + n + 1) ∧ out.length ≤ groups.length + n + 2
  | 0, groups, s, out, v4, rest, h => by
    rw [readGroups, Prod.mk.injEq, Prod.mk.injEq] at h
    obtain ⟨rfl, -, rfl⟩ := h
    exact ⟨0, .refl, fun _ => by omega, by omega⟩
  | left + 1, groups, s, out, v4, rest, h => by
    rw [readGroups] at h
    split at h
    · next ip t hip =>
      rw [Prod.mk.injEq, Prod.mk.injEq] at h
      obtain ⟨rfl, -, rfl⟩ := h
      have hread : readSeparator ':' groups.length readIpv4Addr s = some (ip, t) := by
        split at hip
        · exact hip
        · cases hip
      obtain ⟨_, -, hv4⟩ := readSeparator_eq_some hread
      have htwo := (readIpv4Addr_eq_some hv4).2
      have htook := took_item (fun h => (readIpv4Addr_eq_some h).1.mono
        (fun c hc => hc.imp_right .inl) (Nat.le_refl 0)) hread
      refine ⟨_, htook, fun hne => ?_, ?_⟩
      · rw [List.length_append, htwo, if_neg (List.length_eq_zero_iff.not.mpr hne)]
      · rw [List.length_append, htwo]
        omega
    · split at h
      · next g t hg =>
        have htook := took_item (fun h => (readNumber_eq_some h).mono
          (fun c hc => .inl (isSome_hexVal_of_digitOf hc)) (Nat.le_refl 0)) hg
        obtain ⟨n, hrest, hlen, -⟩ := readGroups_eq h
        have hle := hlen (by simp)
        rw [List.length_append, List.length_singleton] at hle
        refine ⟨_, htook.trans hrest, fun hne => ?_, ?_⟩
        · rw [if_neg (List.length_eq_zero_iff.not.mpr hne)]
          omega
        · omega
      · rw [Prod.mk.injEq, Prod.mk.injEq] at h
        obtain ⟨rfl, -, rfl⟩ := h
        exact ⟨0, .refl, fun _ => by omega, by omega⟩

/-- **An IPv6 address** has two colons or more, and nothing in it that brackets an address. -/
theorem readIpv6Addr_eq_some {ip : List Nat} (h : readIpv6Addr s = some (ip, rest)) :
    Took Ipv6Char 2 s rest := by
  unfold readIpv6Addr at h
  obtain ⟨head, v4, t, hhead⟩ : ∃ head v4 t, readGroups 8 [] s = (head, v4, t) := ⟨_, _, _, rfl⟩
  obtain ⟨n, htook, -, hlen⟩ := readGroups_eq hhead
  simp only [hhead] at h
  split at h
  · next height =>
    obtain ⟨-, rfl⟩ := Prod.mk.inj (Option.some.inj h)
    rw [height, List.length_nil] at hlen
    exact htook.mono (fun _ => id) (by omega)
  split at h
  · cases h
  obtain ⟨⟨_, t'⟩, hcolon, h⟩ := Option.bind_eq_some_iff.mp h
  obtain ⟨⟨_, u⟩, hcolon', h⟩ := Option.bind_eq_some_iff.mp h
  have hsecond : t' = ':' :: u := readGivenChar_eq_some hcolon'
  obtain ⟨tail, v4', r, htail⟩ : ∃ tail v4' r, readGroups (8 - (head.length + 1)) [] u =
    (tail, v4', r) := ⟨_, _, _, rfl⟩
  simp only [htail] at h
  obtain ⟨-, rfl⟩ := Prod.mk.inj (Option.some.inj h)
  obtain ⟨m, htook', -⟩ := readGroups_eq htail
  have htwo : Took Ipv6Char 2 t u := by
    rw [readGivenChar_eq_some hcolon, hsecond]
    refine ⟨[':', ':'], rfl, fun c hc => ?_, by decide⟩
    rcases List.mem_pair.mp hc with rfl | rfl <;> exact .inr (.inr rfl)
  exact (htook.trans (htwo.trans htook')).mono (fun _ => id) (by omega)

end

theorem accepts_iff {α : Type} {r : Reader α} {s : Str} :
    accepts r s = true ↔ ∃ a, r s = some (a, []) := by
  unfold accepts
  match hr : r s with
  | none => simp
  | some (a, rest) => simp

/-- What is taken to the end is the whole. -/
theorem Took.whole {p : Char → Prop} {n : Nat} {s : Str} (h : Took p n s []) :
    (∀ c ∈ s, p c) ∧ n ≤ s.count ':' := by
  obtain ⟨used, rfl, hp, hn⟩ := h
  rw [List.append_nil]
  exact ⟨hp, hn⟩

theorem isIpv6_eq_true {s : Str} (h : isIpv6 s = true) :
    (∀ c ∈ s, Ipv6Char c) ∧ 2 ≤ s.count ':' := by
  obtain ⟨a, hr⟩ := accepts_iff.mp h
  exact (readIpv6Addr_eq_some hr).whole

theorem isIpv4_eq_true {s : Str} (h : isIpv4 s = true) : ∀ c ∈ s, Ipv4Char c := by
  obtain ⟨-, hacc⟩ := Bool.and_eq_true_iff.mp h
  obtain ⟨a, hr⟩ := accepts_iff.mp hacc
  exact (readIpv4Addr_eq_some hr).1.whole.1

end Leshiy.Lib.NetAddr
