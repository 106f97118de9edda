import Leshiy.Lib.Run
import Leshiy.Lib.Tally
import Leshiy.Reality.NetGuard

/-!
# Admission of connections

`leshiy-reality/src/connlimit.rs`. Each call locks the table for as long as it takes, so a run is a
sequence of calls of `try_acquire` and of guards that are dropped. A guard is dropped once.
-/

namespace Leshiy.Reality

open Leshiy.Lib

/-! ## Buckets -/

/-- An IPv4 address stands for itself, an IPv6 address for its /64. -/
def bucket : IpAddr → IpAddr
  | .v4 v4 => .v4 v4
  | .v6 v6 => .v6 (v6 >>> 64 <<< 64)

theorem bucket_v4_eq_iff {a b : BitVec 32} : bucket (.v4 a) = bucket (.v4 b) ↔ a = b := by
  simp only [bucket, IpAddr.v4.injEq]

theorem bucket_v4_ne_v6 (a : BitVec 32) (b : BitVec 128) : bucket (.v4 a) ≠ bucket (.v6 b) := nofun

theorem toNat_interface_zeroed (b : BitVec 128) :
    (b >>> 64 <<< 64).toNat = b.toNat / 2 ^ 64 * 2 ^ 64 := by
  have hb := b.isLt
  rw [BitVec.toNat_shiftLeft, BitVec.toNat_ushiftRight, Nat.shiftRight_eq_div_pow,
    Nat.shiftLeft_eq]
  omega

/-- **A bucket is a /64.** -/
theorem bucket_v6_eq_iff {a b : BitVec 128} :
    bucket (.v6 a) = bucket (.v6 b) ↔ (IpAddr.v6 a).covers 64 (.v6 b) = true := by
  rw [covers_v6 (by omega), bucket, bucket, IpAddr.v6.injEq, ← BitVec.toNat_inj,
    toNat_interface_zeroed, toNat_interface_zeroed]
  show _ ↔ a.toNat / 2 ^ 64 = b.toNat / 2 ^ 64
  omega

/-! ## The limiter -/

/-- What stands behind the lock. -/
structure Inner where
  total : Nat
  perIp : Tally IpAddr

structure ConnLimiter where
  maxTotal : Nat
  maxPerIp : Nat

/-- The key of the slot that it holds. -/
structure ConnGuard where
  ip : IpAddr
  deriving DecidableEq, Repr

def Inner.new : Inner := ⟨0, ∅⟩

/-- `none` stands for a panic: a count of zero cannot be counted down. -/
def ConnGuard.drop (guard : ConnGuard) (g : Inner) : Option Inner :=
  let total := g.total - 1
  match g.perIp.lookup guard.ip with
  | none => some ⟨total, g.perIp⟩
  | some 0 => none
  | some (c + 1) =>
    if c = 0 then some ⟨total, g.perIp.erase guard.ip⟩
    else some ⟨total, g.perIp.insert guard.ip c⟩

def ConnLimiter.tryAcquire (l : ConnLimiter) (ip : IpAddr) (g : Inner) : Option ConnGuard × Inner :=
  let key := bucket ip
  if l.maxTotal ≤ g.total then (none, g)
  else
    let cur := (g.perIp.lookup key).getD 0
    if l.maxPerIp ≤ cur then (none, g)
    else (some ⟨key⟩, ⟨g.total + 1, g.perIp.insert key (cur + 1)⟩)

/-- What the accept loops do with a peer. -/
def ConnLimiter.acquirePeer (l : ConnLimiter) (peer : IpAddr) (g : Inner) : Option ConnGuard × Inner :=
  l.tryAcquire (canonicalIp peer) g

/-! ## Runs -/

/-- The table and the guards that are alive. -/
structure Admission where
  inner : Inner
  live : List ConnGuard

inductive Admission.Act where
  | tryAcquire (ip : IpAddr)
  | accept (peer : IpAddr)
  | drop (guard : ConnGuard)

inductive Admission.Ev where
  | admitted (guard : ConnGuard)
  | refused
  | panicked
  deriving DecidableEq

namespace Admission

def new : Admission := ⟨Inner.new, []⟩

/-- The guard that came of a call, if one did. -/
def acquired (s : Admission) : Option ConnGuard × Inner → Admission × List Ev
  | (some guard, g) => (⟨g, guard :: s.live⟩, [.admitted guard])
  | (none, g) => (⟨g, s.live⟩, [.refused])

def step (l : ConnLimiter) (s : Admission) : Act → Option (Admission × List Ev)
  | .tryAcquire ip => some (s.acquired (l.tryAcquire ip s.inner))
  | .accept peer => some (s.acquired (l.acquirePeer peer s.inner))
  | .drop guard =>
    if guard ∈ s.live then
      match guard.drop s.inner with
      | some g => some (⟨g, s.live.erase guard⟩, [])
      | none => some (s, [.panicked])
    else none

/-- The keys of the live guards. -/
def keys (s : Admission) : List IpAddr := s.live.map ConnGuard.ip

/-- **The books are right**: the table counts the live guards, and no bound is passed. -/
structure Accounted (l : ConnLimiter) (s : Admission) : Prop where
  total : s.inner.total = s.live.length
  counts : s.inner.perIp.Counts s.keys
  total_le : s.live.length ≤ l.maxTotal
  perIp_le : ∀ k, s.keys.count k ≤ l.maxPerIp

variable {l : ConnLimiter} {s s' : Admission} {g : Inner}

/-- What a call does: it refuses and changes nothing, or it counts one more in the bucket. -/
theorem tryAcquire_cases (l : ConnLimiter) (ip : IpAddr) (g : Inner) :
    l.tryAcquire ip g = (none, g) ∨
      (l.tryAcquire ip g = (some ⟨bucket ip⟩,
          ⟨g.total + 1, g.perIp.insert (bucket ip) (g.perIp.count (bucket ip) + 1)⟩) ∧
        g.total < l.maxTotal ∧ g.perIp.count (bucket ip) < l.maxPerIp) := by
  unfold ConnLimiter.tryAcquire
  dsimp only
  split
  · exact .inl rfl
  · split
    · exact .inl rfl
    · next htotal hper => exact .inr ⟨rfl, Nat.lt_of_not_le htotal, Nat.lt_of_not_le hper⟩

/-- A guard that is alive is counted, so it can be counted down. -/
theorem drop_spec {guard : ConnGuard} {keys : List IpAddr} (h : g.perIp.Counts keys)
    (hmem : guard.ip ∈ keys) :
    ∃ g', guard.drop g = some g' ∧ g'.total = g.total - 1 ∧ g'.perIp.Counts (keys.erase guard.ip) := by
  have hlookup : g.perIp.lookup guard.ip = some (keys.count guard.ip) := by rw [h, if_pos hmem]
  obtain ⟨c, hc⟩ : ∃ c, keys.count guard.ip = c + 1 :=
    Nat.exists_eq_succ_of_ne_zero (List.count_pos_iff.mpr hmem).ne'
  rw [hc] at hlookup
  unfold ConnGuard.drop
  rw [hlookup]
  dsimp only
  split
  · next hzero =>
    refine ⟨_, rfl, rfl, h.erase ?_⟩
    rw [hc, hzero]
  · next hzero =>
    refine ⟨_, rfl, rfl, ?_⟩
    have hpred := h.pred (k := guard.ip) (by omega)
    rwa [hc, Nat.add_sub_cancel] at hpred

theorem Accounted.acquired (h : Accounted l s) (ip : IpAddr) :
    Accounted l (s.acquired (l.tryAcquire ip s.inner)).1 := by
  rcases tryAcquire_cases l ip s.inner with heq | ⟨heq, htotal, hper⟩
  · rw [heq]
    exact h
  · rw [heq]
    rw [h.total] at htotal
    rw [h.counts.count_eq] at hper
    refine ⟨?_, h.counts.insert _, htotal, fun k => ?_⟩
    · show s.inner.total + 1 = (s.live.length + 1)
      rw [h.total]
    · show (bucket ip :: s.keys).count k ≤ l.maxPerIp
      by_cases hk : k = bucket ip
      · rw [hk, List.count_cons_self]
        exact hper
      · rw [List.count_cons_of_ne (Ne.symm hk)]
        exact h.perIp_le k

theorem keys_erase (guard : ConnGuard) :
    (s.live.erase guard).map ConnGuard.ip = s.keys.erase guard.ip := by
  refine List.map_erase (fun a b hab => ?_) _
  cases a
  cases b
  exact congrArg ConnGuard.mk hab

/-- **The books stay right**, and nothing panics. -/
theorem accounted_step {a : Act} {ev : List Ev} (h : Accounted l s)
    (hs : step l s a = some (s', ev)) : Accounted l s' ∧ Ev.panicked ∉ ev := by
  have hcall : ∀ ip, s.acquired (l.tryAcquire ip s.inner) = (s', ev) →
      Accounted l s' ∧ Ev.panicked ∉ ev := by
    intro ip heq
    have hbooks := h.acquired ip
    rw [heq] at hbooks
    refine ⟨hbooks, ?_⟩
    rcases tryAcquire_cases l ip s.inner with hcase | ⟨hcase, -, -⟩
    · rw [hcase] at heq
      cases heq
      nofun
    · rw [hcase] at heq
      cases heq
      nofun
  cases a with
  | tryAcquire ip => exact hcall ip (Option.some.inj hs)
  | accept peer => exact hcall (canonicalIp peer) (Option.some.inj hs)
  | drop guard =>
    rw [step] at hs
    split at hs
    · next hmem =>
      obtain ⟨g', hdrop, htotal, hcounts⟩ := drop_spec h.counts (List.mem_map_of_mem hmem)
      rw [hdrop] at hs
      cases hs
      have hlen := List.length_erase_of_mem hmem
      refine ⟨⟨?_, ?_, ?_, fun k => ?_⟩, nofun⟩
      · show g'.total = (s.live.erase guard).length
        rw [htotal, h.total, hlen]
      · show g'.perIp.Counts ((s.live.erase guard).map ConnGuard.ip)
        rw [keys_erase]
        exact hcounts
      · show (s.live.erase guard).length ≤ l.maxTotal
        rw [hlen]
        exact (Nat.sub_le _ _).trans h.total_le
      · show ((s.live.erase guard).map ConnGuard.ip).count k ≤ l.maxPerIp
        rw [keys_erase]
        exact ((List.erase_sublist).count_le k).trans (h.perIp_le k)
    · cases hs

theorem accounted_new (l : ConnLimiter) : Accounted l new :=
  ⟨rfl, Tally.counts_empty, Nat.zero_le _, fun _ => Nat.zero_le _⟩

theorem accounted_run {log : List (Taken Admission Act Ev)} (h : Exec (step l) new log s) :
    Accounted l s ∧ Ev.panicked ∉ shown log := by
  refine h.inv (P := fun log s => Accounted l s ∧ Ev.panicked ∉ shown log)
    ⟨accounted_new l, List.not_mem_nil⟩ ?_
  rintro log s a s' ev - ⟨hbooks, hlog⟩ hs
  obtain ⟨hbooks', hev⟩ := accounted_step hbooks hs
  refine ⟨hbooks', ?_⟩
  rw [shown_snoc, List.mem_append]
  exact not_or.mpr ⟨hlog, hev⟩

/-- **The accounts of a limiter over any run.** -/
theorem limiter_accounts (l : ConnLimiter) (log : List (Taken Admission Act Ev)) (s : Admission)
    (h : Exec (step l) new log s) :
    (s.inner.total = s.live.length ∧ s.inner.total = s.inner.perIp.sum ∧
      s.inner.total ≤ l.maxTotal ∧
      (∀ k, s.inner.perIp.count k = s.keys.count k ∧ s.inner.perIp.count k ≤ l.maxPerIp ∧
        s.inner.perIp.lookup k ≠ some 0) ∧
      Ev.panicked ∉ shown log) ∧
    (∀ ip, (l.tryAcquire ip s.inner).1 = none → (l.tryAcquire ip s.inner).2 = s.inner) ∧
    (∀ a b : BitVec 128,
      bucket (.v6 a) = bucket (.v6 b) ↔ (IpAddr.v6 a).covers 64 (.v6 b) = true) ∧
    (∀ a b : BitVec 32, bucket (.v4 a) = bucket (.v4 b) ↔ a = b) ∧
    (∀ (a : BitVec 32) (b : BitVec 128), bucket (.v4 a) ≠ bucket (.v6 b)) ∧
    ∀ b : BitVec 32, bucket (canonicalIp (.v6 (toIpv6Mapped b))) = bucket (.v4 b) ∧
      l.acquirePeer (.v6 (toIpv6Mapped b)) s.inner = l.tryAcquire (.v4 b) s.inner := by
  obtain ⟨hbooks, hpanic⟩ := accounted_run h
  refine ⟨⟨hbooks.total, ?_, ?_, fun k => ⟨hbooks.counts.count_eq k, ?_, ?_⟩, hpanic⟩, fun ip hnone => ?_,
    fun _ _ => bucket_v6_eq_iff, fun _ _ => bucket_v4_eq_iff, bucket_v4_ne_v6, fun b => ⟨?_, ?_⟩⟩
  · rw [hbooks.counts.sum_eq, hbooks.total, keys, List.length_map]
  · rw [hbooks.total]
    exact hbooks.total_le
  · rw [hbooks.counts.count_eq]
    exact hbooks.perIp_le k
  · exact hbooks.counts.lookup_ne_zero k
  · rcases tryAcquire_cases l ip s.inner with heq | ⟨heq, -, -⟩
    · rw [heq]
    · rw [heq] at hnone
      cases hnone
  · rw [canonicalIp_toIpv6Mapped]
    rfl
  · rw [ConnLimiter.acquirePeer, canonicalIp_toIpv6Mapped]
    rfl

/-- Of three peers at a limiter for one connection of each address the second is refused, and the
first goes again. -/
theorem limiter_accounts_small :
    ∃ log s, Exec (step ⟨2, 1⟩) new log s ∧ Ev.refused ∈ shown log ∧ s.live.length = 1 ∧
      s.inner.total = 1 ∧ s.inner.perIp.sum = 1 := by
  obtain ⟨log, s, h, hrefused, hlive⟩ := exec_reaches (step ⟨2, 1⟩) new
    [.accept (ipv4 1 2 3 4), .accept (.v6 (toIpv6Mapped 0x01020304#32)), .accept (ipv6 0x2001 1),
      .drop ⟨ipv4 1 2 3 4⟩]
    (fun log s => Ev.refused ∈ shown log ∧ s.live.length = 1) (by decide +kernel)
  obtain ⟨⟨htotal, hsum, -⟩, -⟩ := limiter_accounts ⟨2, 1⟩ log s h
  exact ⟨log, s, h, hrefused, hlive, htotal.trans hlive, hsum.symm.trans (htotal.trans hlive)⟩

end Admission

end Leshiy.Reality
