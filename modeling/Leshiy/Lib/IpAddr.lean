import Leshiy.Lib.Prefix

/-!
# Octets and segments of an address

What `std::net` tells of an address it reads off octets and segments, and what a prefix covers can be
told from them as well.
-/

namespace Leshiy.Lib

/-- `octets()[i]` of an IPv4 address. -/
def octet (b : BitVec 32) (i : Nat) : Nat := (b >>> (8 * (3 - i))).toNat % 256

/-- `segments()[i]` of an IPv6 address. -/
def segment (b : BitVec 128) (i : Nat) : Nat := (b >>> (16 * (7 - i))).toNat % 65536

/-- `Ipv6Addr::to_ipv4_mapped`. -/
def toIpv4Mapped (b : BitVec 128) : Option (BitVec 32) :=
  if b >>> 32 = 0xffff#128 then some (b.setWidth 32) else none

/-- `Ipv4Addr::to_ipv6_mapped`. -/
def toIpv6Mapped (b : BitVec 32) : BitVec 128 := BitVec.ofNat 128 (0xffff00000000 + b.toNat)

namespace Ipv4

def isUnspecified (b : BitVec 32) : Bool := b == 0#32

def isMulticast (b : BitVec 32) : Bool := decide (224 ≤ octet b 0) && decide (octet b 0 ≤ 239)

def isLinkLocal (b : BitVec 32) : Bool := octet b 0 == 169 && octet b 1 == 254

def isBroadcast (b : BitVec 32) : Bool := b == 0xffffffff#32

def isLoopback (b : BitVec 32) : Bool := octet b 0 == 127

def isPrivate (b : BitVec 32) : Bool :=
  octet b 0 == 10 || (octet b 0 == 172 && decide (16 ≤ octet b 1) && decide (octet b 1 ≤ 31)) ||
    (octet b 0 == 192 && octet b 1 == 168)

end Ipv4

namespace Ipv6

def isUnspecified (b : BitVec 128) : Bool := b == 0#128

def isMulticast (b : BitVec 128) : Bool := segment b 0 / 256 == 0xff

def isUnicastLinkLocal (b : BitVec 128) : Bool := segment b 0 &&& 0xffc0 == 0xfe80

def isLoopback (b : BitVec 128) : Bool := b == 1#128

end Ipv6

/-! ## Octets, segments and prefixes -/

/-- What a mask of high bits leaves. -/
theorem and_highMask (x m k : Nat) :
    x &&& (2 ^ k - 1) * 2 ^ m = x / 2 ^ m % 2 ^ k * 2 ^ m := by
  have hdiv : (x &&& (2 ^ k - 1) * 2 ^ m) / 2 ^ m = x / 2 ^ m % 2 ^ k := by
    rw [Nat.and_div_two_pow, Nat.mul_div_cancel _ (Nat.two_pow_pos m), Nat.and_two_pow_sub_one_eq_mod]
  have hmod : (x &&& (2 ^ k - 1) * 2 ^ m) % 2 ^ m = 0 := by
    rw [Nat.and_mod_two_pow, Nat.mul_mod_left, Nat.and_zero]
  rw [← Nat.div_add_mod (x &&& (2 ^ k - 1) * 2 ^ m) (2 ^ m), hdiv, hmod, Nat.add_zero, Nat.mul_comm]

section

variable {b : BitVec 32}

theorem octet_zero : octet b 0 = b.toNat / 16777216 := by
  have hb := b.isLt
  rw [octet, BitVec.toNat_ushiftRight, Nat.shiftRight_eq_div_pow]
  show b.toNat / 16777216 % 256 = _
  omega

theorem octet_one : octet b 1 = b.toNat / 65536 % 256 := by
  rw [octet, BitVec.toNat_ushiftRight, Nat.shiftRight_eq_div_pow]

theorem octet_two : octet b 2 = b.toNat / 256 % 256 := by
  rw [octet, BitVec.toNat_ushiftRight, Nat.shiftRight_eq_div_pow]

theorem segment_zero {b : BitVec 128} : segment b 0 = b.toNat / 2 ^ 112 := by
  have hb := b.isLt
  rw [segment, BitVec.toNat_ushiftRight, Nat.shiftRight_eq_div_pow]
  show b.toNat / 2 ^ 112 % 65536 = _
  omega

theorem covers_v4 {net : BitVec 32} {p : Nat} (hp : p ≤ 32) :
    (IpAddr.v4 net).covers p (.v4 b) = true ↔ net.toNat / 2 ^ (32 - p) = b.toNat / 2 ^ (32 - p) := by
  simp [IpAddr.covers, IpAddr.isIpv4, IpAddr.width, IpAddr.network, hp]

theorem covers_v6 {net b : BitVec 128} {p : Nat} (hp : p ≤ 128) :
    (IpAddr.v6 net).covers p (.v6 b) = true ↔
      net.toNat / 2 ^ (128 - p) = b.toNat / 2 ^ (128 - p) := by
  simp [IpAddr.covers, IpAddr.isIpv4, IpAddr.width, IpAddr.network, hp]

theorem not_covers_v4_v6 {net : BitVec 32} {b : BitVec 128} {p : Nat} :
    (IpAddr.v4 net).covers p (.v6 b) = false := rfl

theorem not_covers_v6_v4 {net : BitVec 128} {b : BitVec 32} {p : Nat} :
    (IpAddr.v6 net).covers p (.v4 b) = false := rfl

theorem toIpv4Mapped_toIpv6Mapped (b : BitVec 32) : toIpv4Mapped (toIpv6Mapped b) = some b := by
  have hb := b.isLt
  have hval : (toIpv6Mapped b).toNat = 0xffff00000000 + b.toNat := by
    rw [toIpv6Mapped, BitVec.toNat_ofNat]
    omega
  have hhigh : toIpv6Mapped b >>> 32 = 0xffff#128 := by
    apply BitVec.eq_of_toNat_eq
    rw [BitVec.toNat_ushiftRight, hval, Nat.shiftRight_eq_div_pow]
    show _ = 65535
    omega
  have hlow : (toIpv6Mapped b).setWidth 32 = b := by
    apply BitVec.eq_of_toNat_eq
    rw [BitVec.toNat_setWidth, hval]
    omega
  rw [toIpv4Mapped, if_pos hhigh, hlow]

end

end Leshiy.Lib
