import Leshiy.Core.Frame
import Leshiy.Lib.Checksum
import Leshiy.Lib.Crypto
import Leshiy.Lib.Splice

/-!
# ICMP echo messages

`leshiy-core/src/icmp.rs`: the echo header, its identifier, and the two checksums. An ICMPv4 checksum is over
the message alone, an ICMPv6 one also over a pseudo-header with both addresses.

`none` is a panic: an accumulator of 32 bits that overflows, or a range outside the message.
-/

namespace Leshiy.Icmp

open Leshiy.Lib

def V4_ECHO_REQUEST : UInt8 := 8
def V4_ECHO_REPLY : UInt8 := 0
def V6_ECHO_REQUEST : UInt8 := 128
def V6_ECHO_REPLY : UInt8 := 129

def IPPROTO_ICMPV4 : UInt8 := 1
def IPPROTO_ICMPV6 : UInt8 := 58

def HEADER_LEN : Nat := 8

def OFF_TYPE : Nat := 0
def OFF_CODE : Nat := 1
def OFF_CHECKSUM : Nat := 2
def OFF_ID : Nat := 4
def OFF_SEQ : Nat := 6

structure Echo where
  id : UInt16
  seq : UInt16
  deriving DecidableEq, Repr

/-- `u16::from_be_bytes` of the bytes at `i`. -/
def u16At (i : Nat) (msg : Bytes) : UInt16 :=
  UInt16.ofNat (beDecode (slice i 2 msg))

def parseEchoRequest (msg : Bytes) (v6 : Bool) : Option Echo :=
  let want := if v6 then V6_ECHO_REQUEST else V4_ECHO_REQUEST
  if msg.length < HEADER_LEN ∨ msg[OFF_TYPE]? ≠ some want ∨ msg[OFF_CODE]? ≠ some 0 then none
  else some ⟨u16At OFF_ID msg, u16At OFF_SEQ msg⟩

def isEchoReply (msg : Bytes) (v6 : Bool) : Bool :=
  let want := if v6 then V6_ECHO_REPLY else V4_ECHO_REPLY
  decide (HEADER_LEN ≤ msg.length) && msg[OFF_TYPE]? == some want

/-- Whether the message was long enough, and the message after the call. -/
def setId (msg : Bytes) (id : UInt16) : Option (Bool × Bytes) :=
  if msg.length < HEADER_LEN then some (false, msg)
  else do
    let msg ← copyFromSlice OFF_ID (OFF_ID + 2) (beEncode 2 id.toNat) msg
    let msg ← copyFromSlice OFF_CHECKSUM (OFF_CHECKSUM + 2) [0, 0] msg
    return (true, msg)

/-! ## Checksums -/

/-- `sum += n`. -/
def add32 (sum n : UInt32) : Option UInt32 :=
  if sum.toNat + n.toNat < 2 ^ 32 then some (sum + n) else none

/-- `as_chunks::<2>`: the pairs, and a last odd byte. -/
def asChunks : Bytes → List (UInt8 × UInt8) × Option UInt8
  | hi :: lo :: rest => ((hi, lo) :: (asChunks rest).1, (asChunks rest).2)
  | [last] => ([], some last)
  | [] => ([], none)

/-- `u32::from(u16::from_be_bytes(c))`. -/
def word (c : UInt8 × UInt8) : UInt32 :=
  UInt32.ofNat (beDecode [c.1, c.2])

def addPairs (sum : UInt32) (pairs : List (UInt8 × UInt8)) : Option UInt32 :=
  pairs.foldlM (fun sum c => add32 sum (word c)) sum

def addRest (sum : UInt32) : Option UInt8 → Option UInt32
  | some last => add32 sum (last.toUInt32 <<< 8)
  | none => some sum

theorem toNat_add32 {sum n s : UInt32} (h : add32 sum n = some s) : s.toNat = sum.toNat + n.toNat := by
  unfold add32 at h
  split at h
  · next hlt =>
    cases h
    rw [UInt32.toNat_add, Nat.mod_eq_of_lt hlt]
  · cases h

theorem add32_eq_some {sum n : UInt32} (h : sum.toNat + n.toNat < 2 ^ 32) :
    ∃ s, add32 sum n = some s ∧ s.toNat = sum.toNat + n.toNat :=
  ⟨sum + n, if_pos h, toNat_add32 (if_pos h)⟩

theorem toNat_low (sum : UInt32) : (sum &&& 0xffff).toNat = sum.toNat % 65536 := by
  rw [UInt32.toNat_and]
  exact Nat.and_two_pow_sub_one_eq_mod sum.toNat 16

theorem toNat_high (sum : UInt32) : (sum >>> 16).toNat = sum.toNat / 65536 := by
  rw [UInt32.toNat_shiftRight]
  exact Nat.shiftRight_eq_div_pow sum.toNat 16

theorem high_ne_zero_iff (sum : UInt32) : sum >>> 16 ≠ 0 ↔ 65536 ≤ sum.toNat := by
  rw [ne_eq, ← UInt32.toNat_inj, toNat_high]
  show ¬sum.toNat / 65536 = 0 ↔ _
  omega

/-- The loop of `fold`. Each round makes the sum smaller, so the sum itself is fuel enough. -/
def foldLoop : Nat → UInt32 → Option UInt16
  | 0, _ => none
  | fuel + 1, sum =>
    if sum >>> 16 ≠ 0 then (add32 (sum &&& 0xffff) (sum >>> 16)).bind (foldLoop fuel)
    else some (~~~sum.toUInt16)

def fold (sum : UInt32) : Option UInt16 :=
  foldLoop (sum.toNat + 1) sum

/-- **The fold ends, without an overflow, in the complement of the folded sum.** -/
theorem foldLoop_eq {fuel : Nat} {sum : UInt32} (hfuel : sum.toNat < fuel) :
    ∃ c, foldLoop fuel sum = some c ∧ c.toNat = 65535 - onesFold sum.toNat := by
  induction fuel generalizing sum with
  | zero => exact absurd hfuel (Nat.not_lt_zero _)
  | succ fuel ih =>
    rw [foldLoop]
    by_cases hcarry : sum >>> 16 ≠ 0
    · have hlarge := (high_ne_zero_iff sum).mp hcarry
      have hlt := sum.toNat_lt
      have hroom : (sum &&& 0xffff).toNat + (sum >>> 16).toNat < 2 ^ 32 := by
        rw [toNat_low, toNat_high]
        omega
      obtain ⟨s, hadd, hs⟩ := add32_eq_some hroom
      rw [toNat_low, toNat_high] at hs
      obtain ⟨c, hfold, hc⟩ := ih (show s.toNat < fuel by omega)
      exact ⟨c, by rw [if_pos hcarry, hadd, Option.bind_some, hfold], by rw [hc, hs, onesFold_carry hlarge]⟩
    · have hsmall : sum.toNat < 65536 := Nat.lt_of_not_le fun h => hcarry ((high_ne_zero_iff sum).mpr h)
      refine ⟨_, if_neg hcarry, ?_⟩
      rw [onesFold_of_lt hsmall, UInt16.toNat_not, UInt32.toNat_toUInt16, Nat.mod_eq_of_lt hsmall]
      rfl

theorem fold_eq (sum : UInt32) :
    ∃ c, fold sum = some c ∧ c.toNat = 65535 - onesFold sum.toNat :=
  foldLoop_eq (Nat.lt_succ_self _)

/-- The internet checksum. -/
def checksum (data : Bytes) : Option UInt16 := do
  let (pairs, rest) := asChunks data
  let sum ← addPairs 0 pairs
  let sum ← addRest sum rest
  fold sum

def setV4Checksum (msg : Bytes) : Option (Bool × Bytes) :=
  if msg.length < HEADER_LEN then some (false, msg)
  else do
    let msg ← copyFromSlice OFF_CHECKSUM (OFF_CHECKSUM + 2) [0, 0] msg
    let ck ← checksum msg
    let msg ← copyFromSlice OFF_CHECKSUM (OFF_CHECKSUM + 2) (beEncode 2 ck.toNat) msg
    return (true, msg)

/-- The pairs but the one at the checksum, which counts as zero. -/
def skipChecksum (pairs : List (UInt8 × UInt8)) : List (UInt8 × UInt8) :=
  (pairs.zipIdx.filter fun c => c.2 * 2 != OFF_CHECKSUM).map Prod.fst

def v6Checksum (msg : Bytes) (src dst : Block 16) : Option UInt16 := do
  let sum ← addPairs 0 (asChunks src.1).1
  let sum ← addPairs sum (asChunks dst.1).1
  let len := UInt32.ofNat msg.length
  let sum ← add32 sum (len >>> 16)
  let sum ← add32 sum (len &&& 0xffff)
  let sum ← add32 sum IPPROTO_ICMPV6.toUInt32
  let (pairs, rest) := asChunks msg
  let sum ← addPairs sum (skipChecksum pairs)
  let sum ← addRest sum rest
  fold sum

def setV6Checksum (msg : Bytes) (src dst : Block 16) : Option (Bool × Bytes) :=
  if msg.length < HEADER_LEN then some (false, msg)
  else do
    let msg ← copyFromSlice OFF_CHECKSUM (OFF_CHECKSUM + 2) [0, 0] msg
    let ck ← v6Checksum msg src dst
    let msg ← copyFromSlice OFF_CHECKSUM (OFF_CHECKSUM + 2) (beEncode 2 ck.toNat) msg
    return (true, msg)

/-! ## What the accumulators hold -/

def pairSum (pairs : List (UInt8 × UInt8)) : Nat :=
  (pairs.map fun c => c.1.toNat * 256 + c.2.toNat).sum

def restSum : Option UInt8 → Nat
  | some last => last.toNat * 256
  | none => 0

theorem wordSum_eq_chunks : ∀ l : Bytes, wordSum l = pairSum (asChunks l).1 + restSum (asChunks l).2
  | hi :: lo :: rest => by
    have hrest := wordSum_eq_chunks rest
    simp only [wordSum, asChunks, pairSum, List.map_cons, List.sum_cons] at *
    omega
  | [last] => (Nat.zero_add _).symm
  | [] => rfl

theorem toNat_word (c : UInt8 × UInt8) : (word c).toNat = c.1.toNat * 256 + c.2.toNat := by
  have hhi := c.1.toNat_lt
  have hlo := c.2.toNat_lt
  have hdecode : beDecode [c.1, c.2] = c.1.toNat * 256 + c.2.toNat := by
    simp [beDecode]
  rw [word, UInt32.toNat_ofNat_of_lt', hdecode]
  rw [hdecode, UInt32.size]
  omega

theorem addPairs_eq {pairs : List (UInt8 × UInt8)} {sum : UInt32}
    (h : sum.toNat + pairSum pairs < 2 ^ 32) :
    ∃ s, addPairs sum pairs = some s ∧ s.toNat = sum.toNat + pairSum pairs := by
  induction pairs generalizing sum with
  | nil => exact ⟨sum, rfl, rfl⟩
  | cons c pairs ih =>
    have hcons : pairSum (c :: pairs) = (word c).toNat + pairSum pairs := by
      rw [toNat_word]
      exact List.sum_cons
    rw [hcons] at h ⊢
    obtain ⟨s₁, hadd, hs₁⟩ := add32_eq_some (show sum.toNat + (word c).toNat < 2 ^ 32 by omega)
    obtain ⟨s, hrest, hs⟩ := ih (show s₁.toNat + pairSum pairs < 2 ^ 32 by omega)
    refine ⟨s, ?_, by omega⟩
    rw [addPairs, List.foldlM_cons, hadd]
    exact hrest

theorem addRest_eq {rest : Option UInt8} {sum : UInt32} (h : sum.toNat + restSum rest < 2 ^ 32) :
    ∃ s, addRest sum rest = some s ∧ s.toNat = sum.toNat + restSum rest := by
  cases rest with
  | none => exact ⟨sum, rfl, rfl⟩
  | some last =>
    have hlast : (last.toUInt32 <<< 8).toNat = restSum (some last) := by
      have hlt := last.toNat_lt
      rw [UInt32.toNat_shiftLeft, UInt8.toNat_toUInt32, restSum]
      show last.toNat <<< 8 % 2 ^ 32 = _
      rw [Nat.shiftLeft_eq]
      omega
    rw [← hlast] at h ⊢
    exact add32_eq_some h

/-- **The checksum is the complement of the folded sum**, and no accumulator overflows. -/
theorem checksum_eq {data : Bytes} (h : wordSum data < 2 ^ 32) :
    ∃ c, checksum data = some c ∧ c.toNat = 65535 - onesFold (wordSum data) := by
  rw [wordSum_eq_chunks] at h ⊢
  obtain ⟨s₁, hpairs, hs₁⟩ := addPairs_eq (show (0 : UInt32).toNat + pairSum (asChunks data).1 < 2 ^ 32 by
    rw [UInt32.toNat_zero]
    omega)
  rw [UInt32.toNat_zero, Nat.zero_add] at hs₁
  obtain ⟨s, hrest, hs⟩ := addRest_eq (show s₁.toNat + restSum (asChunks data).2 < 2 ^ 32 by omega)
  obtain ⟨c, hfold, hc⟩ := fold_eq s
  refine ⟨c, ?_, by rw [hc, hs, hs₁]⟩
  show (addPairs 0 (asChunks data).1).bind (fun sum => (addRest sum (asChunks data).2).bind fold) = some c
  rw [hpairs, Option.bind_some, hrest, Option.bind_some, hfold]

theorem checksum_eq_zero_iff {data : Bytes} (h : wordSum data < 2 ^ 32) :
    checksum data = some 0 ↔ Verifies data := by
  obtain ⟨c, hck, hc⟩ := checksum_eq h
  have hle : onesFold (wordSum data) ≤ 65535 := onesFold_le
  rw [hck, Option.some.injEq, ← UInt16.toNat_inj, hc, Verifies]
  show 65535 - onesFold (wordSum data) = 0 ↔ _
  omega

/-! ## The pseudo-header of ICMPv6 -/

/-- What an ICMPv6 checksum is over besides the message. -/
def pseudoHeader (src dst : Block 16) (len : Nat) : Bytes :=
  src.1 ++ (dst.1 ++ (beEncode 4 len ++ [0, 0, 0, IPPROTO_ICMPV6]))

theorem wordSum_beEncode {len : Nat} (h : len < 2 ^ 32) :
    wordSum (beEncode 4 len) = len / 65536 + len % 65536 := by
  simp only [beEncode, List.nil_append, List.cons_append, wordSum, UInt8.toNat_ofNat']
  omega

theorem wordSum_pseudoHeader (src dst : Block 16) {len : Nat} (h : len < 2 ^ 32) (msg : Bytes) :
    wordSum (pseudoHeader src dst len ++ msg) =
      wordSum src.1 + wordSum dst.1 + len / 65536 + len % 65536 + 58 + wordSum msg := by
  have hsrc : src.1.length % 2 = 0 := by rw [src.2]
  have hdst : dst.1.length % 2 = 0 := by rw [dst.2]
  have hlen : (beEncode 4 len).length % 2 = 0 := by rw [length_beEncode]
  have hnext : wordSum [0, 0, 0, IPPROTO_ICMPV6] = 58 := rfl
  rw [pseudoHeader, List.append_assoc, List.append_assoc, List.append_assoc, wordSum_append _ hsrc,
    wordSum_append _ hdst, wordSum_append _ hlen, wordSum_append _ rfl, wordSum_beEncode h, hnext]
  omega

theorem asChunks_of_even : ∀ {l : Bytes}, l.length % 2 = 0 → (asChunks l).2 = none
  | hi :: lo :: rest, h => by
    refine asChunks_of_even (l := rest) ?_
    rw [List.length_cons, List.length_cons] at h
    omega
  | [_], h => by cases h
  | [], _ => rfl

theorem pairSum_block (addr : Block 16) : pairSum (asChunks addr.1).1 = wordSum addr.1 := by
  have heven : addr.1.length % 2 = 0 := by rw [addr.2]
  rw [wordSum_eq_chunks, asChunks_of_even heven]
  rfl

theorem skipChecksum_cons (c x : UInt8 × UInt8) (pairs : List (UInt8 × UInt8)) :
    skipChecksum (c :: x :: pairs) = c :: pairs := by
  have hrest : (pairs.zipIdx 2).filter (fun c => c.2 * 2 != OFF_CHECKSUM) = pairs.zipIdx 2 := by
    refine List.filter_eq_self.mpr fun p hp => ?_
    have hle : 2 ≤ p.2 := (List.mem_zipIdx hp).1
    show (p.2 * 2 != 2) = true
    rw [bne_iff_ne]
    omega
  unfold skipChecksum
  rw [List.zipIdx_cons, List.zipIdx_cons, List.filter_cons_of_pos rfl,
    List.filter_cons_of_neg (by simp [OFF_CHECKSUM]), hrest, List.map_cons, List.zipIdx_map_fst]

/-- A message with its checksum zeroed. -/
def zeroChecksum (msg : Bytes) : Bytes :=
  splice OFF_CHECKSUM [0, 0] msg

/-- The checksum is the second pair of a message. -/
theorem wordSum_zeroChecksum (a b x y : UInt8) (rest : Bytes) :
    wordSum (zeroChecksum (a :: b :: x :: y :: rest)) =
      pairSum (skipChecksum (asChunks (a :: b :: x :: y :: rest)).1) + restSum (asChunks rest).2 := by
  have hcons : pairSum ((a, b) :: (asChunks rest).1) = a.toNat * 256 + b.toNat + pairSum (asChunks rest).1 :=
    List.sum_cons
  show a.toNat * 256 + b.toNat + (0 * 256 + 0 + wordSum rest) = _
  rw [asChunks, asChunks, skipChecksum_cons, hcons, wordSum_eq_chunks rest]
  omega

theorem wordSum_zeroChecksum_le {msg : Bytes} (hshort : 4 ≤ msg.length) (hlong : msg.length ≤ 65535) :
    wordSum (zeroChecksum msg) ≤ 65535 * 32768 := by
  have hroom : OFF_CHECKSUM + [(0 : UInt8), 0].length ≤ msg.length := hshort
  refine (wordSum_le _).trans (Nat.mul_le_mul_left _ ?_)
  rw [zeroChecksum, length_splice hroom]
  omega

theorem pairSum_block_le (addr : Block 16) : pairSum (asChunks addr.1).1 ≤ 65535 * 8 := by
  have h := wordSum_le addr.1
  rwa [addr.2, ← pairSum_block] at h

/-- The length and the protocol, added to a sum that is not near its end. -/
theorem add_length_eq {s : UInt32} {len : Nat} (hlen : len ≤ 65535) (hs : s.toNat ≤ 2 ^ 31) :
    ∃ s₁ s₂ s₃, add32 s (UInt32.ofNat len >>> 16) = some s₁ ∧ add32 s₁ (UInt32.ofNat len &&& 0xffff) = some s₂ ∧
      add32 s₂ IPPROTO_ICMPV6.toUInt32 = some s₃ ∧ s₃.toNat = s.toNat + len / 65536 + len % 65536 + 58 := by
  have hlen32 : (UInt32.ofNat len).toNat = len := UInt32.toNat_ofNat_of_lt' (by rw [UInt32.size]; omega)
  have hnext : IPPROTO_ICMPV6.toUInt32.toNat = 58 := rfl
  obtain ⟨s₁, h₁, e₁⟩ := add32_eq_some (show s.toNat + (UInt32.ofNat len >>> 16).toNat < 2 ^ 32 by
    rw [toNat_high, hlen32]
    omega)
  rw [toNat_high, hlen32] at e₁
  obtain ⟨s₂, h₂, e₂⟩ := add32_eq_some (show s₁.toNat + (UInt32.ofNat len &&& 0xffff).toNat < 2 ^ 32 by
    rw [toNat_low, hlen32]
    omega)
  rw [toNat_low, hlen32] at e₂
  obtain ⟨s₃, h₃, e₃⟩ := add32_eq_some (show s₂.toNat + IPPROTO_ICMPV6.toUInt32.toNat < 2 ^ 32 by
    rw [hnext]
    omega)
  rw [hnext] at e₃
  exact ⟨s₁, s₂, s₃, h₁, h₂, h₃, by omega⟩

theorem v6Checksum_eq {msg : Bytes} (hshort : 4 ≤ msg.length) (hlong : msg.length ≤ 65535)
    (src dst : Block 16) :
    ∃ c, v6Checksum msg src dst = some c ∧
      c.toNat = 65535 - onesFold (wordSum (pseudoHeader src dst msg.length ++ zeroChecksum msg)) := by
  obtain ⟨a, b, x, y, rest, rfl⟩ : ∃ a b x y rest, msg = a :: b :: x :: y :: rest := by
    match msg, hshort with
    | a :: b :: x :: y :: rest, _ => exact ⟨a, b, x, y, rest, rfl⟩
  have hbound := wordSum_zeroChecksum_le hshort hlong
  generalize hlen : (a :: b :: x :: y :: rest).length = len at *
  rw [wordSum_zeroChecksum] at hbound
  have hsrc := pairSum_block_le src
  have hdst := pairSum_block_le dst
  -- the accumulator, from one addition to the next
  obtain ⟨s₁, h₁, e₁⟩ := addPairs_eq (show (0 : UInt32).toNat + pairSum (asChunks src.1).1 < 2 ^ 32 by
    rw [UInt32.toNat_zero]
    omega)
  rw [UInt32.toNat_zero] at e₁
  obtain ⟨s₂, h₂, e₂⟩ := addPairs_eq (show s₁.toNat + pairSum (asChunks dst.1).1 < 2 ^ 32 by omega)
  obtain ⟨s₃, s₄, s₅, h₃, h₄, h₅, e₅⟩ := add_length_eq hlong (show s₂.toNat ≤ 2 ^ 31 by omega)
  obtain ⟨s₆, h₆, e₆⟩ := addPairs_eq
    (show s₅.toNat + pairSum (skipChecksum (asChunks (a :: b :: x :: y :: rest)).1) < 2 ^ 32 by omega)
  obtain ⟨s₇, h₇, e₇⟩ := addRest_eq (show s₆.toNat + restSum (asChunks rest).2 < 2 ^ 32 by omega)
  obtain ⟨c, hfold, hc⟩ := fold_eq s₇
  refine ⟨c, ?_, ?_⟩
  · unfold v6Checksum
    rw [hlen]
    simp only [h₁, h₂, h₃, h₄, h₅, h₆, Option.bind_eq_bind, Option.bind_some]
    show (addRest s₆ (asChunks rest).2).bind fold = some c
    rw [h₇, Option.bind_some, hfold]
  · rw [hc, wordSum_pseudoHeader src dst (by omega), wordSum_zeroChecksum, ← pairSum_block, ← pairSum_block]
    congr 2
    omega

/-! ## Messages with another identifier and checksum -/

section

variable {msg : Bytes} {id ck : UInt16}

/-- The message with another identifier and checksum. -/
def rewritten (msg : Bytes) (id ck : UInt16) : Bytes :=
  splice OFF_CHECKSUM (beEncode 2 ck.toNat) (splice OFF_ID (beEncode 2 id.toNat) msg)

/-- A message that differs from another only in identifier and checksum. -/
structure SameEcho (msg out : Bytes) : Prop where
  length : out.length = msg.length
  head : out.take OFF_CHECKSUM = msg.take OFF_CHECKSUM
  tail : out.drop OFF_SEQ = msg.drop OFF_SEQ

theorem SameEcho.trans {m₁ m₂ m₃ : Bytes} (h : SameEcho m₁ m₂) (h' : SameEcho m₂ m₃) : SameEcho m₁ m₃ :=
  ⟨h'.length.trans h.length, h'.head.trans h.head, h'.tail.trans h.tail⟩

theorem field_in {i : Nat} {n : UInt16} (hi : i ≤ 6) (hshort : HEADER_LEN ≤ msg.length) :
    i + (beEncode 2 n.toNat).length ≤ msg.length := by
  rw [length_beEncode]
  rw [HEADER_LEN] at hshort
  omega

theorem length_spliceField {i : Nat} {n : UInt16} (hi : i ≤ 6) (hshort : HEADER_LEN ≤ msg.length) :
    (splice i (beEncode 2 n.toNat) msg).length = msg.length :=
  length_splice (field_in hi hshort)

theorem sameEcho_rewritten (hshort : HEADER_LEN ≤ msg.length) : SameEcho msg (rewritten msg id ck) := by
  have hid : OFF_ID + (beEncode 2 id.toNat).length ≤ msg.length := field_in (by decide) hshort
  have hlen := length_spliceField (n := id) (i := OFF_ID) (by decide) hshort
  have hck : OFF_CHECKSUM + (beEncode 2 ck.toNat).length ≤ (splice OFF_ID (beEncode 2 id.toNat) msg).length :=
    field_in (by decide) (hlen ▸ hshort)
  constructor
  · rw [rewritten, length_splice hck, hlen]
  · rw [rewritten, take_splice hck (Nat.le_refl _), take_splice hid (by decide)]
  · rw [rewritten, drop_splice hck (by rw [length_beEncode]; decide),
      drop_splice hid (by rw [length_beEncode]; decide)]

theorem u16At_beEncode {i : Nat} (h : slice i 2 msg = beEncode 2 id.toNat) : u16At i msg = id := by
  have hlt : id.toNat < 256 ^ 2 := id.toNat_lt.trans_eq (by norm_num)
  rw [u16At, h, beDecode_beEncode hlt, UInt16.ofNat_toNat]

theorem id_rewritten (hshort : HEADER_LEN ≤ msg.length) : u16At OFF_ID (rewritten msg id ck) = id := by
  have hid : OFF_ID + (beEncode 2 id.toNat).length ≤ msg.length := field_in (by decide) hshort
  have hlen := length_spliceField (n := id) (i := OFF_ID) (by decide) hshort
  have hck : OFF_CHECKSUM + (beEncode 2 ck.toNat).length ≤ (splice OFF_ID (beEncode 2 id.toNat) msg).length :=
    field_in (by decide) (hlen ▸ hshort)
  refine u16At_beEncode ?_
  rw [rewritten, slice_splice_of_ge hck (by rw [length_beEncode]; decide)]
  have hsame := slice_splice hid
  rwa [length_beEncode] at hsame

theorem setId_eq (hshort : HEADER_LEN ≤ msg.length) :
    setId msg id = some (true, rewritten msg id 0) := by
  have hlen := length_spliceField (n := id) (i := OFF_ID) (by decide) hshort
  have hid : copyFromSlice OFF_ID (OFF_ID + 2) (beEncode 2 id.toNat) msg =
      some (splice OFF_ID (beEncode 2 id.toNat) msg) :=
    copyFromSlice_eq_some (le_trans (by decide) hshort) (by rw [length_beEncode])
  have hck : copyFromSlice OFF_CHECKSUM (OFF_CHECKSUM + 2) [0, 0] (splice OFF_ID (beEncode 2 id.toNat) msg) =
      some (rewritten msg id 0) :=
    copyFromSlice_eq_some (by rw [hlen]; exact le_trans (by decide) hshort) rfl
  rw [setId, if_neg (Nat.not_lt.mpr hshort), hid]
  show (copyFromSlice ..).bind _ = _
  rw [hck]
  rfl

/-- The checksum of a rewritten message, written over. -/
theorem splice_rewritten {ck' : UInt16} (hshort : HEADER_LEN ≤ msg.length) :
    splice OFF_CHECKSUM (beEncode 2 ck'.toNat) (rewritten msg id ck) = rewritten msg id ck' := by
  have hlen := length_spliceField (n := id) (i := OFF_ID) (by decide) hshort
  exact splice_splice (field_in (by decide) (hlen ▸ hshort)) (by rw [length_beEncode, length_beEncode])

theorem wordSum_checksum (hshort : HEADER_LEN ≤ msg.length) :
    wordSum (splice OFF_CHECKSUM (beEncode 2 ck.toNat) msg) = wordSum (zeroChecksum msg) + ck.toNat := by
  obtain ⟨a, b, x, y, rest, rfl⟩ : ∃ a b x y rest, msg = a :: b :: x :: y :: rest := by
    match msg, hshort with
    | a :: b :: x :: y :: rest, _ => exact ⟨a, b, x, y, rest, rfl⟩
  have hck : wordSum (beEncode 2 ck.toNat ++ rest) = ck.toNat + wordSum rest := by
    have hlt := ck.toNat_lt
    rw [wordSum_append _ (by rw [length_beEncode])]
    simp only [beEncode, List.nil_append, List.cons_append, wordSum, UInt8.toNat_ofNat']
    omega
  show a.toNat * 256 + b.toNat + wordSum (beEncode 2 ck.toNat ++ rest) =
    a.toNat * 256 + b.toNat + (0 * 256 + 0 + wordSum rest) + ck.toNat
  rw [hck]
  omega

/-- The complement of the sum over the rest, put in the place of the checksum, makes the whole verify. -/
theorem verifies_checksum {header : Bytes} (hheader : header.length % 2 = 0)
    (hshort : HEADER_LEN ≤ msg.length)
    (hck : ck.toNat = 65535 - onesFold (wordSum (header ++ zeroChecksum msg))) :
    Verifies (header ++ splice OFF_CHECKSUM (beEncode 2 ck.toNat) msg) := by
  rw [Verifies, wordSum_append _ hheader, wordSum_checksum hshort, ← Nat.add_assoc,
    ← wordSum_append _ hheader, hck]
  exact onesFold_add_complement _

theorem zeroed_field (hshort : HEADER_LEN ≤ msg.length) :
    copyFromSlice OFF_CHECKSUM (OFF_CHECKSUM + 2) [0, 0] msg = some (zeroChecksum msg) ∧
      ∀ ck : UInt16, copyFromSlice OFF_CHECKSUM (OFF_CHECKSUM + 2) (beEncode 2 ck.toNat) (zeroChecksum msg) =
        some (splice OFF_CHECKSUM (beEncode 2 ck.toNat) msg) := by
  have hin : OFF_CHECKSUM + ([0, 0] : Bytes).length ≤ msg.length := le_trans (by decide) hshort
  refine ⟨copyFromSlice_eq_some hin rfl, fun ck => ?_⟩
  rw [copyFromSlice_eq_some (by rw [zeroChecksum, length_splice hin]; exact hin) (by rw [length_beEncode]),
    zeroChecksum, splice_splice hin (by rw [length_beEncode]; rfl)]

/-- **The message that `set_v4_checksum` leaves verifies.** -/
theorem setV4Checksum_eq (hshort : HEADER_LEN ≤ msg.length) (hlong : msg.length ≤ 65535) :
    ∃ ck : UInt16, setV4Checksum msg = some (true, splice OFF_CHECKSUM (beEncode 2 ck.toNat) msg) ∧
      Verifies (splice OFF_CHECKSUM (beEncode 2 ck.toNat) msg) := by
  obtain ⟨hzero, hwrite⟩ := zeroed_field hshort
  have hlen : (zeroChecksum msg).length = msg.length := length_splice (le_trans (by decide) hshort)
  have hsum := wordSum_le (zeroChecksum msg)
  obtain ⟨ck, hck, hval⟩ := checksum_eq (show wordSum (zeroChecksum msg) < 2 ^ 32 by omega)
  have hverifies : Verifies ([] ++ splice OFF_CHECKSUM (beEncode 2 ck.toNat) msg) :=
    verifies_checksum rfl hshort hval
  refine ⟨ck, ?_, hverifies⟩
  rw [setV4Checksum, if_neg (Nat.not_lt.mpr hshort), hzero]
  show (checksum (zeroChecksum msg)).bind _ = _
  rw [hck]
  show (copyFromSlice ..).bind _ = _
  rw [hwrite ck]
  rfl

/-- **The message that `set_v6_checksum` leaves verifies** behind its pseudo-header. -/
theorem setV6Checksum_eq (hshort : HEADER_LEN ≤ msg.length) (hlong : msg.length ≤ 65535)
    (src dst : Block 16) :
    ∃ ck : UInt16, setV6Checksum msg src dst = some (true, splice OFF_CHECKSUM (beEncode 2 ck.toNat) msg) ∧
      Verifies (pseudoHeader src dst msg.length ++ splice OFF_CHECKSUM (beEncode 2 ck.toNat) msg) := by
  obtain ⟨hzero, hwrite⟩ := zeroed_field hshort
  have hin : OFF_CHECKSUM + ([0, 0] : Bytes).length ≤ msg.length := le_trans (by decide) hshort
  have hlen : (zeroChecksum msg).length = msg.length := length_splice hin
  have hshort' : 4 ≤ (zeroChecksum msg).length := hlen.symm ▸ le_trans (by decide) hshort
  obtain ⟨ck, hck, hval⟩ := v6Checksum_eq hshort' (hlen.symm ▸ hlong) src dst
  have hzero' : zeroChecksum (zeroChecksum msg) = zeroChecksum msg := splice_splice hin rfl
  rw [hlen, hzero'] at hval
  have heven : (pseudoHeader src dst msg.length).length % 2 = 0 := by
    simp [pseudoHeader, src.2, dst.2]
  refine ⟨ck, ?_, verifies_checksum heven hshort hval⟩
  rw [setV6Checksum, if_neg (Nat.not_lt.mpr hshort), hzero]
  show (v6Checksum (zeroChecksum msg) src dst).bind _ = _
  rw [hck]
  show (copyFromSlice ..).bind _ = _
  rw [hwrite ck]
  rfl

end

end Leshiy.Icmp
