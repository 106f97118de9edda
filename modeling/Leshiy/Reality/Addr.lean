import Leshiy.Lib.NetAddr

/-!
# Hosts and ports

`leshiy-reality/src/addr.rs`. An IPv6 address is bracketed before a port is put behind it, so what was
joined is split again at the right colon.
-/

namespace Leshiy.Reality

open Leshiy.Lib Str NetAddr

/-- `format!("{host}:{port}")`. -/
def colonPort (host : Str) (port : UInt16) : Str := host ++ ':' :: decimal port.toNat

def joinHostPort (host : Str) (port : UInt16) : Str :=
  if isIpv6 host then colonPort ('[' :: (host ++ [']'])) port else colonPort host port

/-- What stands in the brackets at the front and what stands behind them. -/
def bracketed : Str → Option (Str × Str)
  | '[' :: rest => splitOnce ']' rest
  | _ => none

/-- What stands behind a colon, if anything does. -/
def afterColon : Str → Option Str
  | ':' :: p => if p = [] then none else some p
  | _ => none

def splitHostPort (s : Str) : Str × Option Str :=
  match bracketed s with
  | some (host, behind) => (host, afterColon behind)
  | none =>
    -- The colons of a bare IPv6 literal aren't a port separator.
    if isIpv6 s then (s, none)
    else
      match rsplitOnce ':' s with
      | some (h, p) => if p ≠ [] ∧ p.all Char.isDigit then (h, some p) else (s, none)
      | none => (s, none)

def ensurePort (hostport : Str) (defaultPort : UInt16) : Str :=
  if isSocketAddr hostport then hostport
  else if isIpv6 hostport then colonPort ('[' :: (hostport ++ [']'])) defaultPort
  else if hostport.head? = some '[' ∧ hostport.getLast? = some ']' then colonPort hostport defaultPort
  else
    match rsplitOnce ':' hostport with
    | some (_, p) =>
      if (parseUnsigned (UInt16.size) p).isSome then hostport else colonPort hostport defaultPort
    | none => colonPort hostport defaultPort

/-! ## The hosts of an operator -/

def isDomainChar (c : Char) : Bool := c.isAlphanum || c == '.' || c == '-'

/-- What a server is named by: an address of either family or a domain. -/
inductive IsHost (h : Str) : Prop
  | ipv4 (hip : isIpv4 h)
  | ipv6 (hip : isIpv6 h)
  | domain (hdomain : ∀ c ∈ h, isDomainChar c)

section

variable {h : Str} {port defaultPort : UInt16}

/-- A host that is no IPv6 address has no colon and no bracket. -/
theorem IsHost.plain (hh : IsHost h) (hip : ¬ isIpv6 h) : ':' ∉ h ∧ '[' ∉ h := by
  cases hh with
  | ipv4 hip =>
    have hchars := isIpv4_eq_true hip
    refine ⟨fun hmem => ?_, fun hmem => ?_⟩
    · exact absurd (hchars _ hmem) (by unfold Ipv4Char; decide)
    · exact absurd (hchars _ hmem) (by unfold Ipv4Char; decide)
  | ipv6 hip' => exact absurd hip' hip
  | domain hdomain =>
    refine ⟨fun hmem => ?_, fun hmem => ?_⟩
    · exact absurd (hdomain _ hmem) (by decide)
    · exact absurd (hdomain _ hmem) (by decide)

theorem colon_not_mem_decimal (n : Nat) : ':' ∉ decimal n := fun hmem =>
  absurd (isDigit_of_mem_decimal hmem) (by decide)

/-- A host and a port have one colon between them. -/
theorem not_isIpv6_colonPort (hplain : ':' ∉ h) : ¬ isIpv6 (colonPort h port) := by
  intro hip
  have htwo := (isIpv6_eq_true hip).2
  rw [colonPort, List.count_append, List.count_cons_self, List.count_eq_zero_of_not_mem hplain,
    List.count_eq_zero_of_not_mem (colon_not_mem_decimal _)] at htwo
  omega

theorem not_isIpv6_bracket {s : Str} : ¬ isIpv6 ('[' :: s) := by
  intro hip
  exact absurd ((isIpv6_eq_true hip).1 '[' List.mem_cons_self) (by unfold Ipv6Char; decide)

theorem rsplitOnce_colonPort (s : Str) (port : UInt16) :
    rsplitOnce ':' (colonPort s port) = some (s, decimal port.toNat) :=
  rsplitOnce_append (colon_not_mem_decimal _) s

theorem bracketed_eq_none {s : Str} (hs : '[' ∉ s) : bracketed s = none := by
  unfold bracketed
  split
  · exact absurd List.mem_cons_self hs
  · rfl

theorem splitHostPort_colonPort (hcolon : ':' ∉ h) (hbracket : '[' ∉ h) :
    splitHostPort (colonPort h port) = (h, some (decimal port.toNat)) := by
  have hnone : bracketed (colonPort h port) = none := by
    refine bracketed_eq_none fun hmem => ?_
    rcases List.mem_append.mp hmem with hmem | hmem
    · exact hbracket hmem
    rcases List.mem_cons.mp hmem with heq | hmem
    · exact absurd heq (by decide)
    · exact absurd (isDigit_of_mem_decimal hmem) (by decide)
  have hdigits : decimal port.toNat ≠ [] ∧ (decimal port.toNat).all Char.isDigit :=
    ⟨decimal_ne_nil _, List.all_eq_true.mpr fun _ => isDigit_of_mem_decimal⟩
  unfold splitHostPort
  simp only [hnone, if_neg (not_isIpv6_colonPort hcolon), rsplitOnce_colonPort, if_pos hdigits]

/-- **What was joined is split again.** -/
theorem splitHostPort_joinHostPort (hh : IsHost h) :
    splitHostPort (joinHostPort h port) = (h, some (decimal port.toNat)) := by
  unfold joinHostPort
  split
  · next hip =>
    have hclose : ']' ∉ h := fun hmem =>
      absurd ((isIpv6_eq_true hip).1 _ hmem) (by unfold Ipv6Char; decide)
    have hbracketed : bracketed (colonPort ('[' :: (h ++ [']'])) port) =
        some (h, ':' :: decimal port.toNat) := by
      have hrest : bracketed (colonPort ('[' :: (h ++ [']'])) port) =
          splitOnce ']' (h ++ ']' :: ':' :: decimal port.toNat) := by
        rw [colonPort, List.cons_append, List.append_assoc]
        rfl
      rw [hrest, splitOnce_append hclose]
    unfold splitHostPort
    simp only [hbracketed, afterColon, if_neg (decimal_ne_nil _)]
  · next hip =>
    obtain ⟨hcolon, hbracket⟩ := hh.plain hip
    exact splitHostPort_colonPort hcolon hbracket

/-- A port at the end is kept, whether or not the whole is a socket address. -/
theorem ensurePort_colonPort (hip : ¬ isIpv6 (colonPort h port)) :
    ensurePort (colonPort h port) defaultPort = colonPort h port := by
  have hlast : ¬ ((colonPort h port).head? = some '[' ∧ (colonPort h port).getLast? = some ']') := by
    rintro ⟨-, hlast⟩
    rw [colonPort, List.getLast?_append_of_ne_nil _ (List.cons_ne_nil _ _),
      List.getLast?_cons_of_ne_nil (decimal_ne_nil _)] at hlast
    exact absurd (isDigit_of_mem_decimal (List.mem_of_getLast? hlast)) (by decide)
  have hport : (parseUnsigned (UInt16.size) (decimal port.toNat)).isSome := by
    rw [parseUnsigned_decimal port.toNat_lt]
    rfl
  unfold ensurePort
  rw [if_neg hip, if_neg hlast]
  simp only [rsplitOnce_colonPort, if_pos hport, ite_self]

/-- **What was joined has its port.** -/
theorem ensurePort_joinHostPort (hh : IsHost h) :
    ensurePort (joinHostPort h port) defaultPort = joinHostPort h port := by
  unfold joinHostPort
  split
  · exact ensurePort_colonPort not_isIpv6_bracket
  · next hip => exact ensurePort_colonPort (not_isIpv6_colonPort (hh.plain hip).1)

end

end Leshiy.Reality
