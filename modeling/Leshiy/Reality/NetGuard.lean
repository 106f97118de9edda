import Leshiy.Lib.IpAddr

/-!
# The egress policy

`leshiy-reality/src/netguard.rs`. The code tests octets and segments one by one; what it refuses is a
list of prefixes. An IPv4-mapped IPv6 address is taken for the IPv4 address in it.
-/

namespace Leshiy.Reality

open Leshiy.Lib

structure SocketAddr where
  ip : IpAddr
  port : UInt16
  deriving DecidableEq, Repr

inductive IoError where
  | os (err : String)
  /-- The text is "connect to {addr} timed out". -/
  | timedOut (addr : SocketAddr)
  | addrNotAvailable (msg : String)
  | unsupported (msg : String)
  deriving DecidableEq, Repr

inductive EgressError where
  | io (err : IoError)
  | malformed (detail : String)
  deriving DecidableEq, Repr

/-! ## The policy -/

def canonicalIp : IpAddr → IpAddr
  | .v6 v6 =>
    match toIpv4Mapped v6 with
    | some v4 => .v4 v4
    | none => .v6 v6
  | .v4 v4 => .v4 v4

def forbidden (allowPrivate : Bool) : IpAddr → Bool
  | .v4 v4 =>
    let o := octet v4
    let isCgnat := o 0 == 100 && o 1 &&& 0xc0 == 64
    let isSpecial := (o 0 == 192 && o 1 == 0 && o 2 == 0) ||
      (o 0 == 198 && (o 1 == 18 || o 1 == 19)) || decide (240 ≤ o 0)
    Ipv4.isUnspecified v4 || Ipv4.isMulticast v4 || Ipv4.isLinkLocal v4 || Ipv4.isBroadcast v4 ||
      isSpecial || (!allowPrivate && (Ipv4.isLoopback v4 || Ipv4.isPrivate v4 || isCgnat))
  | .v6 v6 =>
    let isUniqueLocal := segment v6 0 &&& 0xfe00 == 0xfc00
    Ipv6.isUnspecified v6 || Ipv6.isMulticast v6 || Ipv6.isUnicastLinkLocal v6 ||
      (!allowPrivate && (Ipv6.isLoopback v6 || isUniqueLocal))

def checkIp (addr : IpAddr) (allowPrivate : Bool) : Except EgressError Unit :=
  if forbidden allowPrivate (canonicalIp addr) then .error (.malformed "forbidden target address")
  else .ok ()

def checkIpAllowed (addr : IpAddr) (allowPrivate : Bool) : Except EgressError Unit :=
  checkIp addr allowPrivate

/-- What `lookup_host` answered, filtered. -/
def resolveAllChecked (target : String) (answer : Except IoError (List SocketAddr))
    (allowPrivate : Bool) : Except EgressError (List SocketAddr) :=
  match answer with
  | .error e => .error (.io e)
  | .ok resolved =>
    let addrs := resolved.filter fun a => (checkIp a.ip allowPrivate).isOk
    if addrs = [] then .error (.malformed s!"no allowed address resolved for {target}") else .ok addrs

/-! ## The refused prefixes -/

/-- The IPv4 address of four octets. -/
def ipv4 (a b c d : Nat) : IpAddr := .v4 (BitVec.ofNat 32 (((a * 256 + b) * 256 + c) * 256 + d))

/-- The IPv6 address that starts with a segment and ends with another. -/
def ipv6 (first last : Nat) : IpAddr := .v6 (BitVec.ofNat 128 first <<< 112 ||| BitVec.ofNat 128 last)

/-- Refused under either policy. -/
def alwaysRefused : List (IpAddr × Nat) :=
  [(ipv4 0 0 0 0, 32), (ipv4 169 254 0 0, 16), (ipv4 192 0 0 0, 24), (ipv4 198 18 0 0, 15),
    (ipv4 224 0 0 0, 4), (ipv4 240 0 0 0, 4), (ipv6 0 0, 128), (ipv6 0xfe80 0, 10), (ipv6 0xff00 0, 8)]

/-- Refused unless private targets are allowed. -/
def privateRefused : List (IpAddr × Nat) :=
  [(ipv4 10 0 0 0, 8), (ipv4 100 64 0 0, 10), (ipv4 127 0 0 0, 8), (ipv4 172 16 0 0, 12),
    (ipv4 192 168 0 0, 16), (ipv6 0 1, 128), (ipv6 0xfc00 0, 7)]

/-- The address is in one of the prefixes. -/
def InPrefixes (prefixes : List (IpAddr × Nat)) (a : IpAddr) : Prop :=
  ∃ r ∈ prefixes, r.1.covers r.2 a = true

/-! ## The prefixes of a list

Each is given as what the address begins with. -/

section

variable {b : BitVec 32}

theorem inPrefixes_cons {r : IpAddr × Nat} {rs : List (IpAddr × Nat)} {a : IpAddr} :
    InPrefixes (r :: rs) a ↔ r.1.covers r.2 a = true ∨ InPrefixes rs a := by
  simp only [InPrefixes, List.mem_cons, exists_eq_or_imp]

theorem not_inPrefixes_nil {a : IpAddr} : ¬ InPrefixes [] a := by
  rintro ⟨r, hr, -⟩
  exact List.not_mem_nil hr

theorem alwaysRefused_v4 : InPrefixes alwaysRefused (.v4 b) ↔
    0 = b.toNat ∨ 43518 = b.toNat / 65536 ∨ 12582912 = b.toNat / 256 ∨ 25353 = b.toNat / 131072 ∨
      14 = b.toNat / 268435456 ∨ 15 = b.toNat / 268435456 := by
  simp only [alwaysRefused, inPrefixes_cons, not_inPrefixes_nil, ipv4, ipv6, not_covers_v6_v4,
    Bool.false_eq_true, or_false]
  rw [covers_v4 (by omega), covers_v4 (by omega), covers_v4 (by omega), covers_v4 (by omega),
    covers_v4 (by omega), covers_v4 (by omega)]
  simp

theorem privateRefused_v4 : InPrefixes privateRefused (.v4 b) ↔
    10 = b.toNat / 16777216 ∨ 401 = b.toNat / 4194304 ∨ 127 = b.toNat / 16777216 ∨
      2753 = b.toNat / 1048576 ∨ 49320 = b.toNat / 65536 := by
  simp only [privateRefused, inPrefixes_cons, not_inPrefixes_nil, ipv4, ipv6, not_covers_v6_v4,
    Bool.false_eq_true, or_false]
  rw [covers_v4 (by omega), covers_v4 (by omega), covers_v4 (by omega), covers_v4 (by omega),
    covers_v4 (by omega)]
  simp

theorem alwaysRefused_v6 {b : BitVec 128} : InPrefixes alwaysRefused (.v6 b) ↔
    0 = b.toNat ∨ 1018 = b.toNat / 2 ^ 118 ∨ 255 = b.toNat / 2 ^ 120 := by
  simp only [alwaysRefused, inPrefixes_cons, not_inPrefixes_nil, ipv4, ipv6, not_covers_v4_v6,
    Bool.false_eq_true, or_false, false_or]
  rw [covers_v6 (by omega), covers_v6 (by omega), covers_v6 (by omega)]
  simp

theorem privateRefused_v6 {b : BitVec 128} : InPrefixes privateRefused (.v6 b) ↔
    1 = b.toNat ∨ 126 = b.toNat / 2 ^ 121 := by
  simp only [privateRefused, inPrefixes_cons, not_inPrefixes_nil, ipv4, ipv6, not_covers_v4_v6,
    Bool.false_eq_true, or_false, false_or]
  rw [covers_v6 (by omega), covers_v6 (by omega)]
  simp

theorem always_v4 : forbidden true (.v4 b) = true ↔ InPrefixes alwaysRefused (.v4 b) := by
  have hb := b.isLt
  have hzero : b = 0#32 ↔ b.toNat = 0 := BitVec.toNat_inj.symm
  have hones : b = 0xffffffff#32 ↔ b.toNat = 4294967295 := BitVec.toNat_inj.symm
  rw [alwaysRefused_v4]
  simp only [forbidden, Ipv4.isUnspecified, Ipv4.isMulticast, Ipv4.isLinkLocal, Ipv4.isBroadcast,
    Bool.or_eq_true, Bool.and_eq_true, beq_iff_eq, decide_eq_true_eq, hzero, hones, octet_zero,
    octet_one, octet_two, Bool.not_true, Bool.false_and, Bool.false_eq_true, or_false]
  omega

theorem private_v4 :
    (Ipv4.isLoopback b || Ipv4.isPrivate b || (octet b 0 == 100 && octet b 1 &&& 0xc0 == 64)) = true ↔
      InPrefixes privateRefused (.v4 b) := by
  have hb := b.isLt
  have hmask : b.toNat / 65536 % 256 &&& 0xc0 = b.toNat / 65536 % 256 / 64 % 4 * 64 :=
    and_highMask _ 6 2
  rw [privateRefused_v4]
  simp only [Ipv4.isLoopback, Ipv4.isPrivate, Bool.or_eq_true, Bool.and_eq_true, beq_iff_eq,
    decide_eq_true_eq, octet_zero, octet_one, hmask]
  omega

/-- **What the tests of octets refuse is what lies in the prefixes.** -/
theorem forbidden_v4 {allowPrivate : Bool} : forbidden allowPrivate (.v4 b) = true ↔
    InPrefixes alwaysRefused (.v4 b) ∨ allowPrivate = false ∧ InPrefixes privateRefused (.v4 b) := by
  have hsplit : forbidden allowPrivate (.v4 b) = (forbidden true (.v4 b) || (!allowPrivate &&
      (Ipv4.isLoopback b || Ipv4.isPrivate b ||
        (octet b 0 == 100 && octet b 1 &&& 0xc0 == 64)))) := by
    simp only [forbidden, Bool.not_true, Bool.false_and, Bool.or_false]
  rw [hsplit, Bool.or_eq_true, Bool.and_eq_true, always_v4, private_v4, Bool.not_eq_true']

theorem forbidden_v6 {b : BitVec 128} {allowPrivate : Bool} :
    forbidden allowPrivate (.v6 b) = true ↔
      InPrefixes alwaysRefused (.v6 b) ∨ allowPrivate = false ∧ InPrefixes privateRefused (.v6 b) := by
  have hb := b.isLt
  have hlocal : b.toNat / 2 ^ 112 &&& 0xffc0 = b.toNat / 2 ^ 112 / 64 % 1024 * 64 :=
    and_highMask _ 6 10
  have hunique : b.toNat / 2 ^ 112 &&& 0xfe00 = b.toNat / 2 ^ 112 / 512 % 128 * 512 :=
    and_highMask _ 9 7
  have hzero : b = 0#128 ↔ b.toNat = 0 := BitVec.toNat_inj.symm
  have hone : b = 1#128 ↔ b.toNat = 1 := BitVec.toNat_inj.symm
  rw [alwaysRefused_v6, privateRefused_v6]
  simp only [forbidden, Ipv6.isUnspecified, Ipv6.isMulticast, Ipv6.isUnicastLinkLocal, Ipv6.isLoopback,
    Bool.or_eq_true, Bool.and_eq_true, beq_iff_eq, Bool.not_eq_true', hzero, hone, hlocal, hunique,
    segment_zero]
  cases allowPrivate with
  | true =>
    simp only [Bool.true_eq_false, false_and, or_false]
    omega
  | false =>
    simp only [true_and]
    omega

end

/-! ## The verdict -/

section

variable {a : IpAddr} {allowPrivate : Bool}

theorem forbidden_iff : forbidden allowPrivate a = true ↔
    InPrefixes alwaysRefused a ∨ allowPrivate = false ∧ InPrefixes privateRefused a := by
  cases a with
  | v4 b => exact forbidden_v4
  | v6 b => exact forbidden_v6

/-- **The policy as prefixes**, for an address that is canonical. -/
theorem isOk_checkIp : (checkIp a allowPrivate).isOk = false ↔
    InPrefixes alwaysRefused (canonicalIp a) ∨
      allowPrivate = false ∧ InPrefixes privateRefused (canonicalIp a) := by
  rw [← forbidden_iff, checkIp]
  cases forbidden allowPrivate (canonicalIp a) with
  | true => exact ⟨fun _ => rfl, fun _ => rfl⟩
  | false => exact ⟨nofun, nofun⟩

theorem canonicalIp_of_not_mapped {b : BitVec 128} (h : toIpv4Mapped b = none) :
    canonicalIp (.v6 b) = .v6 b := by
  rw [canonicalIp, h]

theorem canonicalIp_toIpv6Mapped (b : BitVec 32) :
    canonicalIp (.v6 (toIpv6Mapped b)) = canonicalIp (.v4 b) := by
  rw [canonicalIp, toIpv4Mapped_toIpv6Mapped]
  rfl

/-- Private targets are allowed in addition to all others. -/
theorem isOk_checkIp_of_strict (h : (checkIp a false).isOk) : (checkIp a true).isOk := by
  by_contra hne
  have hrefused := isOk_checkIp.mp (Bool.eq_false_iff.mpr hne)
  rcases hrefused with halways | ⟨hfalse, -⟩
  · rw [isOk_checkIp.mpr (.inl halways)] at h
    cases h
  · cases hfalse

/-- **Only checked addresses are handed on.** -/
theorem isOk_of_resolveAllChecked {target : String} {answer : Except IoError (List SocketAddr)}
    {addrs : List SocketAddr} (h : resolveAllChecked target answer allowPrivate = .ok addrs) :
    ∀ addr ∈ addrs, (checkIp addr.ip allowPrivate).isOk := by
  intro addr hmem
  unfold resolveAllChecked at h
  split at h
  · cases h
  · dsimp only at h
    split at h
    · cases h
    · cases h
      exact (List.mem_filter.mp hmem).2

end

end Leshiy.Reality
