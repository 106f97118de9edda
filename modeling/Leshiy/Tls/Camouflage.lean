import Mathlib.Data.List.Perm.Basic
import Leshiy.Core.Frame
import Leshiy.Lib.Crypto
import Leshiy.Lib.Utf8

/-!
# Camouflage of a ClientHello

`leshiy-tls/src/camouflage.rs`: the GREASE values, the extension order and the opaque bytes that
change from connection to connection, all drawn from entropy that is not on the wire.
-/

namespace Leshiy.Tls

open Leshiy.Lib

/-! ## GREASE values -/

/-- The GREASE values: 0x?A?A with both bytes equal. -/
def isGrease (v : UInt16) : Bool := v &&& 0x0f0f = 0x0a0a && v >>> 8 = v &&& 0xff

/-- The GREASE values of one hello. `group` is used in `supported_groups` and in `key_share`. -/
structure Grease where
  cipher : UInt16
  group : UInt16
  ext1 : UInt16
  ext2 : UInt16
  version : UInt16
  deriving DecidableEq, Repr

/-- The high nibble of a seed byte, the low nibble `A`, in both bytes. -/
def greaseFromByte (b : UInt8) : UInt16 :=
  let byte := (b &&& 0xf0) ||| 0x0a
  (byte.toUInt16 <<< 8) ||| byte.toUInt16

def deriveGrease (entropy : Block 32) : Grease :=
  let ext1 := greaseFromByte (entropy.get 2)
  let ext2 := greaseFromByte (entropy.get 3)
  { cipher := greaseFromByte (entropy.get 0)
    group := greaseFromByte (entropy.get 1)
    ext1 := ext1
    ext2 := if ext2 = ext1 then ext2 ^^^ 0x1010 else ext2
    version := greaseFromByte (entropy.get 4) }

/-- A seed byte gives a GREASE value, and so does its forced change, which is another one. -/
theorem isGrease_greaseFromByte (b : UInt8) : isGrease (greaseFromByte b) = true ∧
    isGrease (greaseFromByte b ^^^ 0x1010) = true ∧
    greaseFromByte b ^^^ 0x1010 ≠ greaseFromByte b := by
  have hall : ∀ n ∈ List.range 256, isGrease (greaseFromByte (UInt8.ofNat n)) = true ∧
      isGrease (greaseFromByte (UInt8.ofNat n) ^^^ 0x1010) = true ∧
      greaseFromByte (UInt8.ofNat n) ^^^ 0x1010 ≠ greaseFromByte (UInt8.ofNat n) := by
    decide +kernel
  have h := hall b.toNat (List.mem_range.mpr b.toNat_lt)
  rwa [UInt8.ofNat_toNat] at h

/-- **The two fake extensions are GREASE and differ.** -/
theorem deriveGrease_ext (entropy : Block 32) : isGrease (deriveGrease entropy).ext1 = true ∧
    isGrease (deriveGrease entropy).ext2 = true ∧
    (deriveGrease entropy).ext1 ≠ (deriveGrease entropy).ext2 := by
  have h1 := isGrease_greaseFromByte (entropy.get 2)
  have h2 := isGrease_greaseFromByte (entropy.get 3)
  simp only [deriveGrease]
  split
  · next heq =>
    exact ⟨h1.1, h2.2.1, fun h => h2.2.2 (heq.trans h).symm⟩
  · next hne => exact ⟨h1.1, h2.1, fun h => hne h.symm⟩

/-! ## The entropy stream -/

/-- The counter stream of `expand`, a digest a round. Each round makes it longer, so `n` rounds
are enough. -/
def expandLoop (sha256 : HashSuite 32) (entropy : Block 32) (domain : Bytes) (n : Nat) :
    Nat → UInt8 → Bytes → Bytes
  | 0, _, out => out
  | fuel + 1, counter, out =>
    if out.length < n then
      expandLoop sha256 entropy domain n fuel (counter + 1)
        (out ++ (sha256.digest (entropy.1 ++ domain ++ [counter])).1)
    else out

def expand (sha256 : HashSuite 32) (entropy : Block 32) (domain : Bytes) (n : Nat) : Bytes :=
  (expandLoop sha256 entropy domain n n 0 []).take n

variable {sha256 : HashSuite 32} {entropy : Block 32}

theorem le_length_expandLoop {domain : Bytes} {n : Nat} : ∀ (fuel : Nat) (counter : UInt8)
    (out : Bytes), n ≤ out.length + fuel →
    n ≤ (expandLoop sha256 entropy domain n fuel counter out).length
  | 0, _, out, h => h
  | fuel + 1, counter, out, h => by
    rw [expandLoop]
    split
    · apply le_length_expandLoop fuel
      rw [List.length_append, (sha256.digest _).2]
      omega
    · next hlt => omega

/-- The stream has the length asked for. -/
theorem length_expand (domain : Bytes) (n : Nat) :
    (expand sha256 entropy domain n).length = n := by
  have hle : n ≤ (expandLoop sha256 entropy domain n n 0 []).length :=
    le_length_expandLoop n 0 [] (by simp)
  rw [expand, List.length_take]
  omega

/-! ## The extension order -/

/-- The Fisher–Yates steps from index `i` down to 1, a little-endian `u32` of the stream each. -/
def shuffle : Nat → Bytes → Array Nat → Array Nat
  | 0, _, perm => perm
  | i + 1, stream, perm =>
    let r := beDecode (stream.take 4).reverse
    let j := r % (i + 2)
    shuffle i (stream.drop 4) (perm.swapIfInBounds (i + 1) j)

def chromeExtPermutation (sha256 : HashSuite 32) (entropy : Block 32) (n : Nat) : List Nat :=
  if n ≤ 1 then List.range n
  else
    let stream := expand sha256 entropy (utf8Bytes "leshiy-ext-shuffle") ((n - 1) * 4)
    (shuffle (n - 1) stream (Array.range n)).toList

theorem shuffle_perm : ∀ (i : Nat) (stream : Bytes) (perm : Array Nat),
    (shuffle i stream perm).toList.Perm perm.toList
  | 0, _, perm => List.Perm.refl _
  | i + 1, stream, perm => by
    have hswap : (perm.swapIfInBounds (i + 1)
        (beDecode (stream.take 4).reverse % (i + 2))).toList.Perm perm.toList := by
      unfold Array.swapIfInBounds
      split
      · split
        · exact Array.perm_iff_toList_perm.mp (Array.swap_perm _ _)
        · exact List.Perm.refl _
      · exact List.Perm.refl _
    exact (shuffle_perm i _ _).trans hswap

/-- **The order is a permutation** of the positions. -/
theorem chromeExtPermutation_perm (n : Nat) :
    (chromeExtPermutation sha256 entropy n).Perm (List.range n) := by
  unfold chromeExtPermutation
  split
  · exact List.Perm.refl _
  · have h := shuffle_perm (n - 1)
      (expand sha256 entropy (utf8Bytes "leshiy-ext-shuffle") ((n - 1) * 4)) (Array.range n)
    rwa [Array.toList_range] at h

/-! ## The fake encrypted hello -/

/-- The body of `encrypted_client_hello` in its outer form: type, suite, config id, a key and a
payload of 144 to 208 bytes. -/
def greaseEchOuter (sha256 : HashSuite 32) (entropy : Block 32) : Bytes :=
  let stream := expand sha256 entropy (utf8Bytes "leshiy-ech") (1 + 32 + 1 + 208)
  let configId := stream.getD 0 0
  let enc := (stream.take 33).drop 1
  let payloadLen := 144 + (stream.getD 33 0).toNat % 65
  let payload := (stream.take (34 + payloadLen)).drop 34
  [0x00] ++ beEncode 2 0x0001 ++ beEncode 2 0x0001 ++ [configId] ++ beEncode 2 enc.length ++ enc ++
    beEncode 2 payloadLen ++ payload

theorem length_greaseEchOuter_le : (greaseEchOuter sha256 entropy).length ≤ 250 := by
  simp only [greaseEchOuter, List.length_append, length_beEncode, List.length_drop,
    List.length_take, length_expand, List.length_cons, List.length_nil]
  omega

end Leshiy.Tls
