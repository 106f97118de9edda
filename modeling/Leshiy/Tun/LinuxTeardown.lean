import Leshiy.Core.Frame
import Leshiy.Tun.LinuxPolicy

/-!
# The Linux session's guard

`LinuxOps::start` and the `Drop` of `LinuxTeardown` (`leshiy-tun/src/sys/linux.rs`), all of what they change on
the host: the main table, the policy rules, `resolv.conf` and the two IPv6 settings. From the guard on each step of
`start` can fail, and what is done then is undone by the guard.

The guard records a bypass route before it is installed and deletes it by its destination. The session's own
additions fail where the host has a route for the prefix, so what the deletion finds there is the host's.
-/

namespace Leshiy.Tun

open Leshiy.Lib Leshiy.Client

/-- What a session changes. -/
structure Host where
  kernel : Kernel
  /-- `/etc/resolv.conf` -/
  resolv : Bytes
  /-- `conf/all/disable_ipv6` -/
  ipv6All : Nat
  /-- `conf/default/disable_ipv6` -/
  ipv6Default : Nat
  deriving DecidableEq

structure LinuxTeardown where
  resolvBackup : Option Bytes
  ipv6AllBackup : Option Nat
  ipv6DefaultBackup : Option Nat
  installedBypass : List Cidr
  policyRulesTeardown : List IpCommand
  deriving DecidableEq

/-- `ip route del`: the first route for the destination, whatever its target. -/
def Table.routeDel (t : Table) (c : Cidr) : Table := t.eraseP fun r => r.dest.samePrefix c

/-- `Drop` of the guard. -/
def LinuxTeardown.drop (g : LinuxTeardown) (h : Host) : Host where
  kernel := ipBatch { h.kernel with main := g.installedBypass.foldl Table.routeDel h.kernel.main } g.policyRulesTeardown
  resolv := g.resolvBackup.getD h.resolv
  ipv6All := g.ipv6AllBackup.getD h.ipv6All
  ipv6Default := g.ipv6DefaultBackup.getD h.ipv6Default

/-- The step at which `start` fails, with what it leaves behind: how many lines of the batch have run, or what is in
the file. -/
inductive StartFault where
  | device
  | ifindex
  | handle
  | batch (done : Nat)
  | readResolv
  | writeResolv (content : Bytes)
  | readAll
  | readDefault
  | writeAll (value : Nat)
  | writeDefault (value : Nat)
  deriving DecidableEq

/-- The arguments of `start`, and how its steps end. -/
structure StartArgs where
  plan : RoutePlan
  tunName : String
  dns : List IpAddr
  forceDns : Bool
  ipv6Killswitch : Bool
  /-- `ip -6 addr add` succeeds. -/
  v6Assigned : Bool
  fault : Option StartFault

/-- `start` has returned before its guard, with its guard, or with a session. -/
inductive Started where
  | refused (h : Host)
  | failed (h : Host) (guard : LinuxTeardown)
  | up (h : Host) (guard : LinuxTeardown)

/-- What is written to `resolv.conf`, with the text of an address. -/
def resolvBody (text : IpAddr → String) (dns : List IpAddr) : Bytes :=
  dns.flatMap fun ip => ("nameserver " ++ text ip ++ "\n").toUTF8.toList

namespace StartArgs

def carry (a : StartArgs) : Bool := carryV6 a.plan a.v6Assigned

def writesDns (a : StartArgs) : Bool := a.forceDns && !a.dns.isEmpty

def appliesKillswitch (a : StartArgs) : Bool := a.ipv6Killswitch || (a.plan.tunAddr6.isSome && !a.carry)

def batch (a : StartArgs) : RouteBatch := buildRouteBatch a.plan a.tunName a.carry

/-- The two runs of `ip -batch`. -/
def installRoutes (a : StartArgs) (s : Host × LinuxTeardown) : Except (Host × LinuxTeardown) (Host × LinuxTeardown) :=
  let cleaned := ipBatch s.1.kernel a.batch.preclean
  match a.fault with
  | some (.batch n) => .error ({ s.1 with kernel := ipBatch cleaned (a.batch.install.take n) }, s.2)
  | _ => .ok ({ s.1 with kernel := ipBatch cleaned a.batch.install }, s.2)

def overwriteDns (a : StartArgs) (text : IpAddr → String) (s : Host × LinuxTeardown) :
    Except (Host × LinuxTeardown) (Host × LinuxTeardown) :=
  if a.writesDns then
    let guard := { s.2 with resolvBackup := some s.1.resolv }
    match a.fault with
    | some .readResolv => .error s
    | some (.writeResolv content) => .error ({ s.1 with resolv := content }, guard)
    | _ => .ok ({ s.1 with resolv := resolvBody text a.dns }, guard)
  else .ok s

def disableIpv6 (a : StartArgs) (s : Host × LinuxTeardown) : Except (Host × LinuxTeardown) (Host × LinuxTeardown) :=
  if a.appliesKillswitch then
    let all := { s.2 with ipv6AllBackup := some s.1.ipv6All }
    let both := { all with ipv6DefaultBackup := some s.1.ipv6Default }
    match a.fault with
    | some .readAll => .error s
    | some .readDefault => .error (s.1, all)
    | some (.writeAll value) => .error ({ s.1 with ipv6All := value }, both)
    | some (.writeDefault value) => .error ({ s.1 with ipv6All := 1, ipv6Default := value }, both)
    | _ => .ok ({ s.1 with ipv6All := 1, ipv6Default := 1 }, both)
  else .ok s

/-- The host with the device and what the kernel makes of its addresses, and the guard that comes to own it. -/
def guarded (a : StartArgs) (h : Host) : Host × LinuxTeardown :=
  ({ h with kernel := ipBatch h.kernel ((connectedRoutes a.plan a.tunName a.v6Assigned).map (.routeAdd · .main)) },
    ⟨none, none, none, a.batch.bypass, a.batch.teardownRules⟩)

/-- `LinuxOps::start`. A device that is dropped takes its routes with it. -/
def start (a : StartArgs) (text : IpAddr → String) (h : Host) : Started :=
  if !a.plan.tunAddr.isIpv4 then .refused h
  else
    match a.fault with
    | some .device | some .ifindex | some .handle => .refused h
    | _ =>
      match (a.installRoutes (a.guarded h)).bind fun s => (a.overwriteDns text s).bind a.disableIpv6 with
      | .error s => .failed s.1 s.2
      | .ok s => .up s.1 s.2

def controller (a : StartArgs) (faults : Nat → Option Fault) : LinuxController :=
  ⟨a.plan.serverException.gateway, a.plan.origGateway6, a.tunName, a.carry, faults⟩

/-- The session's resolver, from a host that `start` leaves. -/
def resolve (a : StartArgs) (faults : Nat → Option Fault) (kernel : Kernel) (bypass : List Cidr)
    (cs : List (SplitMode × Finset Cidr)) : Resolvers LinuxSys :=
  Resolvers.cycles (a.controller faults).routeController { sys := ⟨kernel, bypass, 0, [kernel]⟩ } cs

/-- The host after the guard has been dropped: when `start` has failed, or after the session and its resolver. A
resolver that is stopped in the middle of a snapshot has made the calls of a smaller one. -/
def after (a : StartArgs) (text : IpAddr → String) (faults : Nat → Option Fault) (cs : List (SplitMode × Finset Cidr))
    (h : Host) : Host :=
  match a.start text h with
  | .refused h => h
  | .failed h g => g.drop h
  | .up h g =>
    let r := a.resolve faults h.kernel g.installedBypass cs
    { g with installedBypass := r.sys.installedBypass }.drop { h with kernel := r.sys.kernel }

end StartArgs

/-! ## Routes of the session and of the host -/

theorem Cidr.samePrefix_trans {a b c : Cidr} (h : a.samePrefix b = true) (h' : b.samePrefix c = true) :
    a.samePrefix c = true := by
  simp only [Cidr.samePrefix, Bool.and_eq_true, beq_iff_eq] at h h' ⊢
  obtain ⟨⟨hfam, hlen⟩, hnet⟩ := h
  obtain ⟨⟨hfam', hlen'⟩, hnet'⟩ := h'
  exact ⟨⟨hfam.trans hfam', hlen.trans hlen'⟩, hnet.trans hnet'⟩

@[simp] theorem Cidr.samePrefix_refl {c : Cidr} : c.samePrefix c = true := by
  simp [Cidr.samePrefix]

namespace Table

variable {own t t' : Table} {tunName : String} {rec rec' : List Cidr} {c : Cidr} {r : Route}

/-- The table is the host's own with routes of the session behind it: one for a prefix at most, none for a prefix of
the host, and each the device's or recorded. -/
def Owned (own : Table) (tunName : String) (rec : List Cidr) (t : Table) : Prop :=
  ∃ added : Table, t = own ++ added ∧
    added.Pairwise (fun x y => x.dest.samePrefix y.dest = false) ∧
    (∀ x ∈ added, ∀ r ∈ own, r.dest.samePrefix x.dest = false) ∧
    ∀ x ∈ added, x.target = .dev tunName ∨ ∃ c ∈ rec, c.samePrefix x.dest = true

theorem Owned.refl : Owned own tunName rec own := ⟨[], by simp, .nil, by simp, by simp⟩

theorem Owned.mono (h : Owned own tunName rec t) (hsub : ∀ c ∈ rec, c ∈ rec') : Owned own tunName rec' t := by
  obtain ⟨added, rfl, hpair, hnew, hrec⟩ := h
  exact ⟨added, rfl, hpair, hnew, fun x hx => (hrec x hx).imp_right fun ⟨c, hc, hs⟩ => ⟨c, hsub c hc, hs⟩⟩

/-- What is added is new, so the table stays the host's and the session's. -/
theorem Owned.add (h : Owned own tunName rec t) (hr : r.target = .dev tunName ∨ r.dest ∈ rec)
    (hadd : t.add r = some t') : Owned own tunName rec t' := by
  obtain ⟨added, rfl, hpair, hnew, hrec⟩ := h
  obtain ⟨rfl, hfresh⟩ := mem_of_add hadd
  refine ⟨added ++ [r], by simp, ?_, ?_, ?_⟩
  · rw [List.pairwise_append]
    refine ⟨hpair, List.pairwise_singleton _ _, fun x hx y hy => ?_⟩
    rw [List.mem_singleton] at hy
    rw [hy]
    exact hfresh x (List.mem_append.mpr (.inr hx))
  · intro x hx r' hr'
    rcases List.mem_append.mp hx with hx | hx
    · exact hnew x hx r' hr'
    · rw [List.mem_singleton] at hx
      rw [hx]
      exact hfresh r' (List.mem_append.mpr (.inl hr'))
  · intro x hx
    rcases List.mem_append.mp hx with hx | hx
    · exact hrec x hx
    · rw [List.mem_singleton] at hx
      rw [hx]
      exact hr.imp_right fun hmem => ⟨r.dest, hmem, Cidr.samePrefix_refl⟩

/-- The addition of a route of the host's prefix fails. -/
theorem Owned.not_own_of_add (h : Owned own tunName rec t) (hadd : t.add r = some t') :
    ∀ r' ∈ own, r'.dest.samePrefix r.dest = false := by
  obtain ⟨added, rfl, -⟩ := h
  exact fun r' hr' => (mem_of_add hadd).2 r' (List.mem_append.mpr (.inl hr'))

/-- Where a table has one route for a prefix at most, none is left when one is deleted. -/
theorem not_same_of_mem_eraseP {p : Route → Bool} (hpair : t.Pairwise fun x y => x.dest.samePrefix y.dest = false)
    (hp : ∀ x ∈ t, p x = true → x.dest.samePrefix c = true) (hany : ∃ x ∈ t, p x = true) :
    ∀ x ∈ t.eraseP p, x.dest.samePrefix c = false := by
  -- two routes of the prefix contradict the hypothesis
  have hclash : ∀ {x y : Route}, x.dest.samePrefix c = true → y.dest.samePrefix c = true →
      x.dest.samePrefix y.dest = false → False := by
    intro x y hx hy hxy
    rw [Cidr.samePrefix_comm] at hy
    rw [Cidr.samePrefix_trans hx hy] at hxy
    cases hxy
  induction t with
  | nil => simp
  | cons a t ih =>
    rw [List.pairwise_cons] at hpair
    intro x hx
    by_contra hsame
    rw [Bool.not_eq_false] at hsame
    cases ha : p a with
    | true =>
      rw [List.eraseP_cons_of_pos ha] at hx
      exact hclash (hp a List.mem_cons_self ha) hsame (hpair.1 x hx)
    | false =>
      rw [List.eraseP_cons_of_neg (by simp [ha])] at hx
      obtain ⟨d, hd, hpd⟩ := hany
      have hdt : d ∈ t := by
        rcases List.mem_cons.mp hd with rfl | hd
        · rw [ha] at hpd
          cases hpd
        · exact hd
      rcases List.mem_cons.mp hx with rfl | hx
      · exact hclash hsame (hp d hd hpd) (hpair.1 d hdt)
      · have hx' := ih hpair.2 (fun y hy => hp y (List.mem_cons_of_mem _ hy)) ⟨d, hdt, hpd⟩ x hx
        rw [hsame] at hx'
        cases hx'

/-- The deletion of a route that is not of the host's prefixes takes one of the session's. -/
theorem Owned.delete (h : Owned own tunName rec t) (hown : ∀ r' ∈ own, r'.dest.samePrefix r.dest = false)
    (hdel : t.delete r = some t') : Owned own tunName (rec.filter (· != r.dest)) t' := by
  obtain ⟨added, rfl, hpair, hnew, hrec⟩ := h
  unfold Table.delete at hdel
  split at hdel
  · next hany =>
    cases hdel
    have hskip : ∀ r' ∈ own, ¬ (r'.dest.samePrefix r.dest && r'.target == r.target) = true := by
      intro r' hr'
      simp [hown r' hr']
    refine ⟨added.eraseP fun r' => r'.dest.samePrefix r.dest && r'.target == r.target,
      List.eraseP_append_right _ hskip, hpair.sublist List.eraseP_sublist,
      fun x hx => hnew x (List.mem_of_mem_eraseP hx), fun x hx => ?_⟩
    refine (hrec x (List.mem_of_mem_eraseP hx)).imp_right fun ⟨c, hc, hs⟩ => ⟨c, ?_, hs⟩
    -- the route that went was the only one for its prefix
    have hfound : ∃ y ∈ added, (y.dest.samePrefix r.dest && y.target == r.target) = true := by
      obtain ⟨y, hy, hpy⟩ := List.any_eq_true.mp hany
      rcases List.mem_append.mp hy with hy | hy
      · exact absurd hpy (hskip y hy)
      · exact ⟨y, hy, hpy⟩
    have hgone := not_same_of_mem_eraseP hpair (fun y _ hpy => (Bool.and_eq_true _ _ ▸ hpy).1) hfound x hx
    rw [List.mem_filter]
    refine ⟨hc, ?_⟩
    rw [bne_iff_ne]
    rintro rfl
    rw [Cidr.samePrefix_comm, hs] at hgone
    cases hgone
  · cases hdel

/-! The deletions of the guard. -/

theorem mem_of_mem_routeDels (h : r ∈ rec.foldl routeDel t) : r ∈ t := by
  induction rec generalizing t with
  | nil => exact h
  | cons c rec ih => exact List.mem_of_mem_eraseP (ih h)

theorem routeDels_append (h : ∀ c ∈ rec, ∀ r ∈ own, r.dest.samePrefix c = false) :
    rec.foldl routeDel (own ++ t) = own ++ rec.foldl routeDel t := by
  induction rec generalizing t with
  | nil => rfl
  | cons c rec ih =>
    have hskip : ∀ r ∈ own, ¬ r.dest.samePrefix c = true := fun r hr => by simp [h c List.mem_cons_self r hr]
    rw [List.foldl_cons, List.foldl_cons, routeDel, List.eraseP_append_right _ hskip,
      ih fun c hc => h c (List.mem_cons_of_mem _ hc)]
    rfl

/-- A table with one route for a prefix at most has none left for those deleted. -/
theorem not_same_of_mem_routeDels (hpair : t.Pairwise fun x y => x.dest.samePrefix y.dest = false)
    (hr : r ∈ rec.foldl routeDel t) : ∀ c ∈ rec, r.dest.samePrefix c = false := by
  induction rec generalizing t with
  | nil => simp
  | cons c rec ih =>
    rw [List.foldl_cons] at hr
    intro c' hc'
    rcases List.mem_cons.mp hc' with rfl | hc'
    · have hmem := mem_of_mem_routeDels hr
      by_cases hany : ∃ x ∈ t, x.dest.samePrefix c' = true
      · exact not_same_of_mem_eraseP hpair (fun x _ hx => hx) hany r hmem
      · by_contra hsame
        exact hany ⟨r, List.mem_of_mem_eraseP hmem, by simpa using hsame⟩
    · exact ih (hpair.sublist List.eraseP_sublist) hr c' hc'

/-- **What the guard leaves** of a table where no recorded prefix is the host's: the host's routes, and device
routes. -/
theorem Owned.routeDels (h : Owned own tunName rec t) (hdev : ∀ r ∈ own, r.target ≠ .dev tunName)
    (hrec : ∀ c ∈ rec, ∀ r ∈ own, r.dest.samePrefix c = false) :
    (rec.foldl routeDel t).filter (fun r => r.target ≠ .dev tunName) = own := by
  obtain ⟨added, rfl, hpair, hnew, hadded⟩ := h
  rw [routeDels_append hrec, List.filter_append]
  have hkeep : own.filter (fun r => r.target ≠ .dev tunName) = own :=
    List.filter_eq_self.mpr fun r hr => by simpa using hdev r hr
  have hgone : (rec.foldl routeDel added).filter (fun r => r.target ≠ .dev tunName) = [] := by
    rw [List.filter_eq_nil_iff]
    intro x hx htarget
    rcases hadded x (mem_of_mem_routeDels hx) with hd | ⟨c, hc, hs⟩
    · simp [hd] at htarget
    · have hnot := not_same_of_mem_routeDels hpair hx c hc
      rw [Cidr.samePrefix_comm, hs] at hnot
      cases hnot
  rw [hkeep, hgone, List.append_nil]

/-- The routes for a prefix. -/
def count (t : Table) (c : Cidr) : Nat := t.countP fun r => r.dest.samePrefix c

theorem count_routeDels_le {c' : Cidr} : count (rec.foldl routeDel t) c' ≤ count t c' := by
  induction rec generalizing t with
  | nil => exact le_rfl
  | cons c rec ih => exact ih.trans (List.eraseP_sublist.countP_le)

/-- A recorded prefix loses a route. -/
theorem count_routeDels_lt (hc : c ∈ rec) (hpos : 0 < count t c) : count (rec.foldl routeDel t) c < count t c := by
  induction rec generalizing t with
  | nil => cases hc
  | cons c' rec ih =>
    rw [List.foldl_cons]
    rcases List.mem_cons.mp hc with rfl | hc
    · obtain ⟨r, hr, hs⟩ := List.countP_pos_iff.mp hpos
      obtain ⟨a, l₁, l₂, -, ha, hsplit, herase⟩ :=
        List.exists_of_eraseP (p := fun r : Route => r.dest.samePrefix c) hr hs
      have hone : count (t.routeDel c) c < count t c := by
        rw [routeDel, herase, hsplit]
        simp [count, List.countP_append, ha]
      exact count_routeDels_le.trans_lt hone
    · by_cases hleft : 0 < count (t.routeDel c') c
      · exact (ih hc hleft).trans_le List.eraseP_sublist.countP_le
      · have hle : count (rec.foldl routeDel (t.routeDel c')) c ≤ count (t.routeDel c') c := count_routeDels_le
        omega

/-- **And where one is the host's**, a route of the host is gone. -/
theorem Owned.routeDels_ne (h : Owned own tunName rec t) (hc : c ∈ rec) (hr : r ∈ own) (hsame : r.dest.samePrefix c = true) :
    (rec.foldl routeDel t).filter (fun r => r.target ≠ .dev tunName) ≠ own := by
  obtain ⟨added, rfl, hpair, hnew, hadded⟩ := h
  intro heq
  have hnone : count added c = 0 := by
    rw [count, List.countP_eq_zero]
    intro x hx hs
    have hno := hnew x hx r hr
    rw [Cidr.samePrefix_comm] at hs
    rw [Cidr.samePrefix_trans hsame hs] at hno
    cases hno
  have htotal : count (own ++ added) c = count own c := by
    rw [count, List.countP_append]
    exact congrArg (count own c + ·) hnone
  have hpos : 0 < count own c := List.countP_pos_iff.mpr ⟨r, hr, hsame⟩
  have hlt := count_routeDels_lt hc (htotal ▸ hpos)
  have hle : count own c ≤ count (rec.foldl routeDel (own ++ added)) c := by
    calc count own c
        = count ((rec.foldl routeDel (own ++ added)).filter fun r => r.target ≠ .dev tunName) c := by rw [heq]
      _ ≤ count (rec.foldl routeDel (own ++ added)) c := List.filter_sublist.countP_le
  omega

end Table

/-! ## The rules -/

/-- The rules of a family. -/
def Kernel.rules (k : Kernel) (fam6 : Bool) : List IpRule := if fam6 then k.rules6 else k.rules4

/-- What the lines of a script do to the rules of a family. -/
def IpCommand.onRules (fam6 : Bool) (rules : List IpRule) : IpCommand → List IpRule
  | .ruleAdd f rule => if f = fam6 then insertRule rule rules else rules
  | .ruleDel f rule => if f = fam6 then rules.erase rule else rules
  | .routeAdd _ _ => rules

theorem rules_ipBatch (k : Kernel) (script : List IpCommand) (fam6 : Bool) :
    (ipBatch k script).rules fam6 = script.foldl (IpCommand.onRules fam6) (k.rules fam6) := by
  induction script generalizing k with
  | nil => rfl
  | cons cmd script ih =>
    rw [ipBatch_cons, ih, List.foldl_cons]
    congr 1
    cases cmd with
    | routeAdd r t => cases t <;> rfl
    | ruleAdd f rule => cases f <;> cases fam6 <;> rfl
    | ruleDel f rule => cases f <;> cases fam6 <;> rfl

/-- Neither policy rule is among the rules. -/
def NoPolicy (rules : List IpRule) : Prop := suppressRule ∉ rules ∧ tunRule ∉ rules

theorem mem_insertRule {rule r : IpRule} {rules : List IpRule} : r ∈ insertRule rule rules ↔ r = rule ∨ r ∈ rules := by
  induction rules with
  | nil => simp [insertRule]
  | cons a rules ih =>
    unfold insertRule
    split
    · rw [List.mem_cons, ih, List.mem_cons]
      tauto
    · rw [List.mem_cons]

theorem erase_insertRule {rule : IpRule} {rules : List IpRule} (h : rule ∉ rules) :
    (insertRule rule rules).erase rule = rules := by
  induction rules with
  | nil => simp [insertRule]
  | cons a rules ih =>
    rw [List.mem_cons, not_or] at h
    unfold insertRule
    split
    · rw [List.erase_cons_tail (by simpa using Ne.symm h.1), ih h.2]
    · rw [List.erase_cons_head]

theorem count_insertRule {rule : IpRule} {rules : List IpRule} (r : IpRule) :
    (insertRule rule rules).count r = rules.count r + if r = rule then 1 else 0 := by
  induction rules with
  | nil =>
    by_cases h : r = rule
    · simp [insertRule, h]
    · simp [insertRule, h, Ne.symm h]
  | cons a rules ih =>
    unfold insertRule
    split
    · rw [List.count_cons, ih, List.count_cons]
      omega
    · by_cases h : r = rule
      · simp [h]
      · simp [h, List.count_cons, Ne.symm h]

/-- The rules a script adds to a family. -/
def addedRules (fam6 : Bool) (script : List IpCommand) : List IpRule :=
  script.filterMap fun
    | .ruleAdd f rule => if f = fam6 then some rule else none
    | _ => none

theorem foldl_onRules_adds {script : List IpCommand} {fam6 : Bool} {rules : List IpRule}
    (h : ∀ f rule, .ruleDel f rule ∉ script) :
    script.foldl (IpCommand.onRules fam6) rules =
      (addedRules fam6 script).foldl (fun rules rule => insertRule rule rules) rules := by
  induction script generalizing rules with
  | nil => rfl
  | cons cmd script ih =>
    have htail : ∀ f rule, .ruleDel f rule ∉ script := fun f rule hmem => h f rule (List.mem_cons_of_mem _ hmem)
    rw [List.foldl_cons, ih htail]
    cases cmd with
    | routeAdd r t => rfl
    | ruleDel f rule => exact absurd List.mem_cons_self (h f rule)
    | ruleAdd f rule =>
      unfold IpCommand.onRules addedRules
      by_cases hf : f = fam6 <;> simp [hf]

/-- What is deleted before a session, and after it. -/
def withoutPolicy (override : Bool) (rules : List IpRule) : List IpRule :=
  if override then (rules.erase suppressRule).erase tunRule else rules

theorem foldl_onRules_policyLines (tunName : String) (f fam6 override : Bool) (rules : List IpRule) :
    (policyLines tunName f override).1.foldl (IpCommand.onRules fam6) rules =
        withoutPolicy (override && f == fam6) rules ∧
      (policyLines tunName f override).2.2.foldl (IpCommand.onRules fam6) rules =
        withoutPolicy (override && f == fam6) rules := by
  cases f <;> cases fam6 <;> cases override <;> exact ⟨rfl, rfl⟩

/-- The rules of a family are back, whatever part of the policy was installed, if and only if none of the policy's was
there. -/
theorem rules_restored_iff {rules added : List IpRule} {override : Bool}
    (hadded : added <+: if override then [suppressRule, tunRule] else []) :
    withoutPolicy override (added.foldl (fun rules rule => insertRule rule rules) (withoutPolicy override rules)) =
        rules ↔ (override = true → NoPolicy rules) := by
  cases override with
  | false =>
    have hnil : added = [] := List.prefix_nil.mp hadded
    simp [hnil, withoutPolicy]
  | true =>
    simp only [withoutPolicy, if_true, forall_const] at hadded ⊢
    have hcases : added = [] ∨ added = [suppressRule] ∨ added = [suppressRule, tunRule] := by
      rcases List.prefix_cons_iff.mp hadded with h | ⟨added', rfl, h⟩
      · exact .inl h
      · rcases List.prefix_cons_iff.mp h with rfl | ⟨added'', rfl, hnil⟩
        · exact .inr (.inl rfl)
        · rw [List.prefix_nil.mp hnil]
          exact .inr (.inr rfl)
    have hne : suppressRule ≠ tunRule := by decide
    constructor
    · intro heq
      -- a policy rule that was there is deleted twice and added once at most
      have hcount : ∀ x, x = suppressRule ∨ x = tunRule → x ∉ rules := by
        intro x hx hmem
        have hpos : 0 < rules.count x := List.count_pos_iff.mpr hmem
        have hlost := congrArg (List.count x) heq
        rcases hx with rfl | rfl <;> rcases hcases with rfl | rfl | rfl <;>
          simp [count_insertRule, hne, Ne.symm hne] at hlost <;> omega
      exact ⟨hcount _ (.inl rfl), hcount _ (.inr rfl)⟩
    · rintro ⟨hs, ht⟩
      rw [List.erase_of_not_mem hs, List.erase_of_not_mem ht]
      rcases hcases with rfl | rfl | rfl
      · rw [List.foldl_nil, List.erase_of_not_mem hs, List.erase_of_not_mem ht]
      · rw [List.foldl_cons, List.foldl_nil, erase_insertRule hs, List.erase_of_not_mem ht]
      · have ht' : tunRule ∉ insertRule suppressRule rules := by
          rw [mem_insertRule, not_or]
          exact ⟨by decide, ht⟩
        rw [List.foldl_cons, List.foldl_cons, List.foldl_nil, List.erase_comm, erase_insertRule ht', erase_insertRule hs]

/-! ## What `start` leaves to its guard -/

theorem Table.Owned.ipBatch {own : Table} {tunName : String} {rec : List Cidr} {k : Kernel} {script : List IpCommand}
    (h : Table.Owned own tunName rec k.main)
    (hs : ∀ r, IpCommand.routeAdd r .main ∈ script → r.target = .dev tunName ∨ r.dest ∈ rec) :
    Table.Owned own tunName rec (ipBatch k script).main := by
  induction script generalizing k with
  | nil => exact h
  | cons cmd script ih =>
    refine ih ?_ fun r hr => hs r (List.mem_cons_of_mem _ hr)
    rcases k.exec_main cmd with heq | ⟨r, rfl, hadd⟩
    · rwa [heq]
    · exact h.add (hs r List.mem_cons_self) hadd

theorem mem_bypass {p : RoutePlan} {tunName : String} {carry : Bool} {c : Cidr} :
    c ∈ (buildRouteBatch p tunName carry).bypass ↔
      ∃ e, (e = p.serverException ∨ e ∈ p.bypass) ∧ (e.dest.addr.isIpv4 || carry) = true ∧ e.dest = c := by
  simp only [buildRouteBatch, List.mem_append, List.mem_map, List.mem_filter]
  constructor
  · rintro (hc | ⟨e, ⟨he, hcarried⟩, rfl⟩)
    · split at hc
      · next hcarried =>
        rw [List.mem_singleton] at hc
        exact ⟨p.serverException, .inl rfl, hcarried, hc.symm⟩
      · cases hc
    · exact ⟨e, .inr he, hcarried, rfl⟩
  · rintro ⟨e, rfl | he, hcarried, rfl⟩
    · rw [if_pos hcarried]
      exact .inl List.mem_cons_self
    · exact .inr ⟨e, ⟨he, hcarried⟩, rfl⟩

/-- A line for the main table is the device's, or its prefix is recorded. -/
theorem install_recorded {p : RoutePlan} {tunName : String} {carry : Bool} {r : Route}
    (h : .routeAdd r .main ∈ (buildRouteBatch p tunName carry).install) :
    r.target = .dev tunName ∨ r.dest ∈ (buildRouteBatch p tunName carry).bypass := by
  have hpolicy : ∀ f o, IpCommand.routeAdd r .main ∉ (policyLines tunName f o).2.1 := by
    intro f o
    cases f <;> cases o <;> simp [policyLines, emitPolicy]
  rw [RoutePlan.install_eq, List.mem_append, List.mem_append, List.mem_map] at h
  rcases h with ⟨r', hr', heq⟩ | h | h
  · cases heq
    simp only [RoutePlan.lines, RoutePlan.routes, List.mem_filter, List.mem_cons, List.mem_append, List.mem_map,
      Bool.and_eq_true] at hr'
    obtain ⟨rfl | ⟨c, -, rfl⟩ | ⟨e, he, rfl⟩, -, hcarried⟩ := hr'
    · exact .inr (mem_bypass.mpr ⟨p.serverException, .inl rfl, hcarried, rfl⟩)
    · exact .inl rfl
    · exact .inr (mem_bypass.mpr ⟨e, .inr he, hcarried, rfl⟩)
  · exact absurd h (hpolicy _ _)
  · exact absurd h (hpolicy _ _)

namespace StartArgs

variable {a : StartArgs} {h : Host} {n : Nat}

/-- The policy of a family is installed. -/
def override (a : StartArgs) (fam6 : Bool) : Bool :=
  if fam6 then a.plan.overrides false && a.carry else a.plan.overrides true

/-- The kernel after so many lines of the batch. -/
def ran (a : StartArgs) (h : Host) (n : Nat) : Kernel :=
  ipBatch (ipBatch (a.guarded h).1.kernel a.batch.preclean) (a.batch.install.take n)

theorem batch_policy (a : StartArgs) :
    a.batch.preclean = (policyLines a.tunName false (a.override false)).1 ++ (policyLines a.tunName true (a.override true)).1 ∧
      a.batch.teardownRules =
        (policyLines a.tunName false (a.override false)).2.2 ++ (policyLines a.tunName true (a.override true)).2.2 :=
  a.plan.preclean_eq a.tunName a.carry

theorem ran_owned (a : StartArgs) (h : Host) (n : Nat) :
    Table.Owned h.kernel.main a.tunName a.batch.bypass (a.ran h n).main := by
  have hdevice : Table.Owned h.kernel.main a.tunName a.batch.bypass (a.guarded h).1.kernel.main := by
    refine Table.Owned.refl.ipBatch fun r hr => .inl ?_
    obtain ⟨r', hr', heq⟩ := List.mem_map.mp hr
    cases heq
    unfold connectedRoutes at hr'
    rcases List.mem_append.mp hr' with hr' | hr'
    · rw [List.mem_singleton] at hr'
      rw [hr']
    · split at hr'
      · split at hr'
        · rw [List.mem_singleton] at hr'
          rw [hr']
        · cases hr'
      · cases hr'
  have hpreclean : ∀ f o r, IpCommand.routeAdd r .main ∉ (policyLines a.tunName f o).1 := by
    intro f o r
    cases f <;> cases o <;> simp [policyLines, emitPolicy]
  refine (hdevice.ipBatch fun r hr => ?_).ipBatch fun r hr => install_recorded (List.mem_of_mem_take hr)
  rw [a.batch_policy.1, List.mem_append] at hr
  exact absurd hr (not_or.mpr ⟨hpreclean _ _ r, hpreclean _ _ r⟩)

/-- Before the policy is installed it is deleted; then some of it, in its order, is there. -/
theorem ran_rules (a : StartArgs) (h : Host) (n : Nat) (fam6 : Bool) :
    ∃ added, added <+: (if a.override fam6 then [suppressRule, tunRule] else []) ∧
      (a.ran h n).rules fam6 =
        added.foldl (fun rules rule => insertRule rule rules) (withoutPolicy (a.override fam6) (h.kernel.rules fam6)) := by
  have hroutes : ∀ (l : List Route) (rules : List IpRule),
      (l.map (.routeAdd · .main)).foldl (IpCommand.onRules fam6) rules = rules := by
    intro l rules
    induction l with
    | nil => rfl
    | cons r l ih => exact ih
  have hadds : ∀ f rule, .ruleDel f rule ∉ a.batch.install.take n := by
    intro f rule hmem
    have hpolicy : ∀ f' o, IpCommand.ruleDel f rule ∉ (policyLines a.tunName f' o).2.1 := by
      intro f' o
      cases f' <;> cases o <;> simp [policyLines, emitPolicy]
    have hinstall := List.mem_of_mem_take hmem
    rw [batch, RoutePlan.install_eq, List.mem_append, List.mem_append] at hinstall
    rcases hinstall with hm | hm | hm
    · simp at hm
    · exact hpolicy _ _ hm
    · exact hpolicy _ _ hm
  have hrules : addedRules fam6 a.batch.install = if a.override fam6 then [suppressRule, tunRule] else [] := by
    have hlines : addedRules fam6 ((a.plan.lines a.carry).map fun r => .routeAdd (r.route a.tunName) .main) = [] := by
      simp [addedRules]
    have hfam : ∀ f o, addedRules fam6 (policyLines a.tunName f o).2.1 =
        if o && f == fam6 then [suppressRule, tunRule] else [] := by
      intro f o
      cases f <;> cases o <;> cases fam6 <;> rfl
    rw [batch, RoutePlan.install_eq]
    unfold addedRules at hlines hfam ⊢
    rw [List.filterMap_append, List.filterMap_append, hlines, hfam, hfam, List.nil_append]
    cases fam6 <;> simp [override]
  refine ⟨addedRules fam6 (a.batch.install.take n), ?_, ?_⟩
  · rw [← hrules]
    exact (List.take_prefix n _).filterMap _
  · rw [ran, rules_ipBatch, foldl_onRules_adds hadds, rules_ipBatch, guarded, rules_ipBatch, hroutes, a.batch_policy.1,
      List.foldl_append, (foldl_onRules_policyLines _ _ _ _ _).1, (foldl_onRules_policyLines _ _ _ _ _).1]
    cases fam6 <;> simp [withoutPolicy]

/-- `start` returns before it makes its guard. -/
def BeforeGuard (a : StartArgs) : Prop :=
  a.plan.tunAddr.isIpv4 = false ∨ a.fault = some .device ∨ a.fault = some .ifindex ∨ a.fault = some .handle

def atBatch (a : StartArgs) : Bool :=
  match a.fault with
  | some (.batch _) => true
  | _ => false

def atDns (a : StartArgs) : Bool :=
  match a.fault with
  | some .readResolv | some (.writeResolv _) => true
  | _ => false

def atIpv6 (a : StartArgs) : Bool :=
  match a.fault with
  | some .readAll | some .readDefault | some (.writeAll _) | some (.writeDefault _) => true
  | _ => false

/-- A step that this start takes behind its guard fails. -/
def fails (a : StartArgs) : Bool := a.atBatch || (a.writesDns && a.atDns) || (a.appliesKillswitch && a.atIpv6)

/-- What the guard would make of the files. -/
def saved (s : Host × LinuxTeardown) : Bytes × Nat × Nat :=
  (s.2.resolvBackup.getD s.1.resolv, s.2.ipv6AllBackup.getD s.1.ipv6All, s.2.ipv6DefaultBackup.getD s.1.ipv6Default)

/-- The routes and what the guard would make of the files are as they were. -/
structure Keeps (s s' : Host × LinuxTeardown) : Prop where
  kernel : s'.1.kernel = s.1.kernel
  bypass : s'.2.installedBypass = s.2.installedBypass
  rules : s'.2.policyRulesTeardown = s.2.policyRulesTeardown
  files : saved s' = saved s

theorem Keeps.refl {s : Host × LinuxTeardown} : Keeps s s := ⟨rfl, rfl, rfl, rfl⟩

theorem Keeps.trans {s s' s'' : Host × LinuxTeardown} (h : Keeps s s') (h' : Keeps s' s'') : Keeps s s'' :=
  ⟨h'.kernel.trans h.kernel, h'.bypass.trans h.bypass, h'.rules.trans h.rules, h'.files.trans h.files⟩

/-- The state a step ends in, whether it fails or not. -/
def ending : Except (Host × LinuxTeardown) (Host × LinuxTeardown) → Host × LinuxTeardown
  | .error s => s
  | .ok s => s

/-- `resolv.conf` is saved before it is written. -/
theorem overwriteDns_keeps (text : IpAddr → String) {s : Host × LinuxTeardown} (hs : s.2.resolvBackup = none) :
    Keeps s (ending (a.overwriteDns text s)) ∧
      (ending (a.overwriteDns text s)).2.ipv6AllBackup = s.2.ipv6AllBackup ∧
      (ending (a.overwriteDns text s)).2.ipv6DefaultBackup = s.2.ipv6DefaultBackup := by
  unfold overwriteDns
  by_cases hdns : a.writesDns = true
  · rw [if_pos hdns]
    split
    · exact ⟨.refl, rfl, rfl⟩
    · exact ⟨⟨rfl, rfl, rfl, by simp [saved, ending, hs]⟩, rfl, rfl⟩
    · exact ⟨⟨rfl, rfl, rfl, by simp [saved, ending, hs]⟩, rfl, rfl⟩
  · rw [if_neg hdns]
    exact ⟨.refl, rfl, rfl⟩

/-- And so are both settings. -/
theorem disableIpv6_keeps {s : Host × LinuxTeardown} (hall : s.2.ipv6AllBackup = none)
    (hdefault : s.2.ipv6DefaultBackup = none) : Keeps s (ending (a.disableIpv6 s)) := by
  unfold disableIpv6
  by_cases hkill : a.appliesKillswitch = true
  · rw [if_pos hkill]
    split
    · exact .refl
    all_goals exact ⟨rfl, rfl, rfl, by simp [saved, ending, hall, hdefault]⟩
  · rw [if_neg hkill]
    exact .refl

/-- What `start` hands to its guard: part of the batch has run, and the files can be restored. -/
structure Guards (a : StartArgs) (h h' : Host) (g : LinuxTeardown) : Prop where
  kernel : ∃ n, h'.kernel = a.ran h n
  bypass : g.installedBypass = a.batch.bypass
  rules : g.policyRulesTeardown = a.batch.teardownRules
  files : saved (h', g) = (h.resolv, h.ipv6All, h.ipv6Default)

theorem Keeps.guards {s : Host × LinuxTeardown}
    (hk : Keeps ({ (a.guarded h).1 with kernel := a.ran h n }, (a.guarded h).2) s) : Guards a h s.1 s.2 :=
  ⟨⟨n, hk.kernel⟩, hk.bypass, hk.rules, hk.files⟩

theorem installRoutes_eq (a : StartArgs) (h : Host) : ∃ n, a.installRoutes (a.guarded h) =
    if a.atBatch then .error ({ (a.guarded h).1 with kernel := a.ran h n }, (a.guarded h).2)
    else .ok ({ (a.guarded h).1 with kernel := a.ran h n }, (a.guarded h).2) := by
  unfold installRoutes atBatch
  split
  · next n _ => exact ⟨n, rfl⟩
  · refine ⟨a.batch.install.length, ?_⟩
    rw [ran, List.take_length]
    rfl

theorem overwriteDns_eq (a : StartArgs) (text : IpAddr → String) (s : Host × LinuxTeardown) :
    a.overwriteDns text s = if a.writesDns && a.atDns then .error (ending (a.overwriteDns text s))
      else .ok (ending (a.overwriteDns text s)) := by
  unfold overwriteDns atDns
  by_cases hdns : a.writesDns = true
  · simp only [hdns, if_true, Bool.true_and]
    split <;> rfl
  · simp [hdns, ending]

theorem disableIpv6_eq (a : StartArgs) (s : Host × LinuxTeardown) :
    a.disableIpv6 s = if a.appliesKillswitch && a.atIpv6 then .error (ending (a.disableIpv6 s))
      else .ok (ending (a.disableIpv6 s)) := by
  unfold disableIpv6 atIpv6
  by_cases hkill : a.appliesKillswitch = true
  · simp only [hkill, if_true, Bool.true_and]
    split <;> rfl
  · simp [hkill, ending]

/-- **Every way `start` can end**: before its guard with the host as it was, or with what its guard can undo. -/
theorem start_cases (a : StartArgs) (text : IpAddr → String) (h : Host) :
    (a.BeforeGuard ∧ a.start text h = .refused h) ∨
      (¬ a.BeforeGuard ∧ ∃ h' g, Guards a h h' g ∧
        a.start text h = if a.fails then .failed h' g else .up h' g) := by
  by_cases hbefore : a.BeforeGuard
  · refine .inl ⟨hbefore, ?_⟩
    unfold start
    rcases hbefore with h4 | hf | hf | hf
    · rw [h4]
      rfl
    all_goals
      rw [hf]
      exact ite_self _
  · refine .inr ⟨hbefore, ?_⟩
    simp only [BeforeGuard, not_or, Bool.not_eq_false] at hbefore
    obtain ⟨h4, hdevice, hindex, hhandle⟩ := hbefore
    have hstart : a.start text h =
        match (a.installRoutes (a.guarded h)).bind fun s => (a.overwriteDns text s).bind a.disableIpv6 with
        | .error s => .failed s.1 s.2
        | .ok s => .up s.1 s.2 := by
      unfold start
      rw [h4, if_neg (by simp)]
      split
      · exact absurd ‹_› hdevice
      · exact absurd ‹_› hindex
      · exact absurd ‹_› hhandle
      · rfl
    obtain ⟨n, hinstall⟩ := installRoutes_eq a h
    rw [hstart, hinstall]
    generalize hs₁ : (({ (a.guarded h).1 with kernel := a.ran h n }, (a.guarded h).2) : Host × LinuxTeardown) = s₁
    obtain ⟨hk₂, hall, hdefault⟩ := @overwriteDns_keeps a text s₁ (by rw [← hs₁]; rfl)
    cases hbatch : a.atBatch with
    | true =>
      refine ⟨s₁.1, s₁.2, ?_, ?_⟩
      · rw [← hs₁]
        exact Keeps.guards .refl
      · simp [fails, hbatch, Except.bind]
    | false =>
      have hdns := overwriteDns_eq a text s₁
      generalize ending (a.overwriteDns text s₁) = s₂ at *
      have hk₃ : Keeps s₂ (ending (a.disableIpv6 s₂)) :=
        disableIpv6_keeps (hall.trans (by rw [← hs₁]; rfl)) (hdefault.trans (by rw [← hs₁]; rfl))
      have hipv6 := disableIpv6_eq a s₂
      generalize ending (a.disableIpv6 s₂) = s₃ at *
      simp only [Bool.false_eq_true, if_false, Except.bind, hdns]
      cases hfail₂ : a.writesDns && a.atDns with
      | true =>
        refine ⟨s₂.1, s₂.2, (hs₁ ▸ hk₂).guards, ?_⟩
        simp [fails, hfail₂]
      | false =>
        refine ⟨s₃.1, s₃.2, (hs₁ ▸ hk₂.trans hk₃).guards, ?_⟩
        simp only [Bool.false_eq_true, if_false, hipv6, fails, hbatch, hfail₂, Bool.false_or]
        cases a.appliesKillswitch && a.atIpv6 <;> rfl

end StartArgs

/-! ## What the resolver leaves to it -/

namespace LinuxController

variable {ctrl : LinuxController} {s : LinuxSys} {change : Table → Option Table}

/-- A request changes the main table as asked, or nothing, and succeeds in the first case only. -/
theorem request_cases (ctrl : LinuxController) (change : Table → Option Table) (s : LinuxSys) :
    (ctrl.request change s).2.installedBypass = s.installedBypass ∧
      (((ctrl.request change s).1.isOk = false ∧ (ctrl.request change s).2.kernel = s.kernel) ∨
        ∃ main, change s.kernel.main = some main ∧ (ctrl.request change s).2.kernel = { s.kernel with main }) := by
  unfold request
  split
  · exact ⟨rfl, .inl ⟨rfl, rfl⟩⟩
  · exact ⟨rfl, .inl ⟨rfl, rfl⟩⟩
  · next main hm _ =>
    split
    · exact ⟨rfl, .inr ⟨main, hm, rfl⟩⟩
    · exact ⟨rfl, .inr ⟨main, hm, rfl⟩⟩

/-- The prefix is not one of the host's, or the controller passes it over. -/
def Free (ctrl : LinuxController) (own : Table) : SplitMode → Cidr → Prop
  | .exclude, c => ctrl.bypassGateway c = none ∨ ∀ r ∈ own, r.dest.samePrefix c = false
  | .include, c => (c.addr.isIpv6 && !ctrl.carryV6) = true ∨ ∀ r ∈ own, r.dest.samePrefix c = false

/-- The host's routes are there, the session's are recorded, and `named` are the recorded prefixes. -/
structure Holds (own : Table) (tunName : String) (k : Kernel) (named : Cidr → Prop) (s : LinuxSys) : Prop where
  owned : Table.Owned own tunName s.installedBypass s.kernel.main
  rules4 : s.kernel.rules4 = k.rules4
  rules6 : s.kernel.rules6 = k.rules6
  named : ∀ c ∈ s.installedBypass, named c

variable {own : Table} {k : Kernel} {named : Cidr → Prop}

/-- A request that changes the table as the invariant allows. -/
theorem Holds.request (h : Holds own ctrl.tunName k named s)
    (hch : ∀ main, change s.kernel.main = some main → Table.Owned own ctrl.tunName s.installedBypass main) :
    Holds own ctrl.tunName k named (ctrl.request change s).2 ∧
      ((ctrl.request change s).1.isOk = true →
        ∃ main, change s.kernel.main = some main ∧ (ctrl.request change s).2.kernel = { s.kernel with main }) := by
  obtain ⟨hby, ⟨herr, hk⟩ | ⟨main, hm, hk⟩⟩ := ctrl.request_cases change s
  · refine ⟨⟨?_, ?_, ?_, ?_⟩, fun hok => ?_⟩
    · rw [hby, hk]
      exact h.owned
    · rw [hk]
      exact h.rules4
    · rw [hk]
      exact h.rules6
    · rw [hby]
      exact h.named
    · rw [herr] at hok
      cases hok
  · refine ⟨⟨?_, ?_, ?_, ?_⟩, fun _ => ⟨main, hm, hk⟩⟩
    · rw [hby, hk]
      exact hch main hm
    · rw [hk]
      exact h.rules4
    · rw [hk]
      exact h.rules6
    · rw [hby]
      exact h.named

theorem Holds.call_add {mode : SplitMode} {c : Cidr} (h : Holds own ctrl.tunName k named s)
    (hc : mode = .exclude → (ctrl.bypassGateway c).isSome = true → named c) :
    Holds own ctrl.tunName k named (ctrl.routeController.call mode .add c s).2 ∧
      ((ctrl.routeController.call mode .add c s).1.isOk = true → ctrl.Free own mode c) := by
  cases mode with
  | exclude =>
    simp only [RouteController.call, routeController, addBypass]
    cases hgw : ctrl.bypassGateway c with
    | none => exact ⟨h, fun _ => .inl hgw⟩
    | some gw =>
      have hrec : Holds own ctrl.tunName k named { s with installedBypass := s.installedBypass ++ [c] } := by
        refine ⟨h.owned.mono fun c' hc' => List.mem_append.mpr (.inl hc'), h.rules4, h.rules6, fun c' hc' => ?_⟩
        rcases List.mem_append.mp hc' with hc' | hc'
        · exact h.named c' hc'
        · rw [List.mem_singleton] at hc'
          rw [hc']
          exact hc rfl (by simp [hgw])
      obtain ⟨hholds, hok⟩ := @Holds.request ctrl _ (Table.add · ⟨c, .via gw⟩) own k named hrec
        fun main hm => hrec.owned.add (.inr (by simp)) hm
      refine ⟨hholds, fun hs => .inr ?_⟩
      obtain ⟨main, hm, -⟩ := hok hs
      exact h.owned.not_own_of_add hm
  | «include» =>
    simp only [RouteController.call, routeController, addViaTun]
    by_cases hskip : (c.addr.isIpv6 && !ctrl.carryV6) = true
    · rw [if_pos hskip]
      exact ⟨h, fun _ => .inl hskip⟩
    · rw [if_neg hskip]
      obtain ⟨hholds, hok⟩ := @Holds.request ctrl _ (Table.add · ⟨c, .dev ctrl.tunName⟩) own k named h
        fun main hm => h.owned.add (.inl rfl) hm
      refine ⟨hholds, fun hs => .inr ?_⟩
      obtain ⟨main, hm, -⟩ := hok hs
      exact h.owned.not_own_of_add hm

theorem Holds.call_remove {mode : SplitMode} {c : Cidr} (hfree : ctrl.Free own mode c)
    (h : Holds own ctrl.tunName k named s) :
    Holds own ctrl.tunName k named (ctrl.routeController.call mode .remove c s).2 := by
  have hsub : ∀ c' ∈ s.installedBypass.filter (· != c), c' ∈ s.installedBypass := fun c' hc' => List.mem_of_mem_filter hc'
  cases mode with
  | exclude =>
    simp only [RouteController.call, routeController, removeBypass]
    cases hgw : ctrl.bypassGateway c with
    | none => exact h
    | some gw =>
      have hown : ∀ r ∈ own, r.dest.samePrefix c = false := by
        rcases hfree with hnone | hown
        · rw [hgw] at hnone
          cases hnone
        · exact hown
      obtain ⟨hholds, hok⟩ := @Holds.request ctrl _ (Table.delete · ⟨c, .via gw⟩) own k named h
        fun main hm => (h.owned.delete hown hm).mono hsub
      simp only
      generalize hreq : ctrl.request (Table.delete · ⟨c, .via gw⟩) s = res at hholds hok ⊢
      obtain ⟨r, s'⟩ := res
      cases r with
      | error e => exact hholds
      | ok u =>
        obtain ⟨main, hm, hk⟩ := hok rfl
        have hby : s'.installedBypass = s.installedBypass := by
          have hby := (ctrl.request_cases (Table.delete · ⟨c, .via gw⟩) s).1
          rwa [hreq] at hby
        simp only at hk
        refine ⟨?_, hholds.rules4, hholds.rules6, fun c' hc' => hholds.named c' (List.mem_of_mem_filter hc')⟩
        simp only [hk, hby]
        exact h.owned.delete hown hm
  | «include» =>
    simp only [RouteController.call, routeController, removeViaTun]
    by_cases hskip : (c.addr.isIpv6 && !ctrl.carryV6) = true
    · rw [if_pos hskip]
      exact h
    · rw [if_neg hskip]
      have hown : ∀ r ∈ own, r.dest.samePrefix c = false := hfree.resolve_left hskip
      exact (@Holds.request ctrl _ (Table.delete · ⟨c, .dev ctrl.tunName⟩) own k named h
        fun main hm => (h.owned.delete hown hm).mono hsub).1

/-- What the guard's list holds after a call. -/
theorem installedBypass_call_add {mode : SplitMode} {c c₀ : Cidr} (h : c₀ ∈ s.installedBypass) :
    c₀ ∈ (ctrl.routeController.call mode .add c s).2.installedBypass := by
  cases mode with
  | exclude =>
    simp only [RouteController.call, routeController, addBypass]
    cases ctrl.bypassGateway c with
    | none => exact h
    | some gw =>
      simp only
      rw [(ctrl.request_cases _ _).1]
      exact List.mem_append.mpr (.inl h)
  | «include» =>
    simp only [RouteController.call, routeController, addViaTun]
    split
    · exact h
    · rw [(ctrl.request_cases _ _).1]
      exact h

theorem installedBypass_addBypass {c : Cidr} (hgw : (ctrl.bypassGateway c).isSome = true) (s : LinuxSys) :
    c ∈ (ctrl.routeController.call .exclude .add c s).2.installedBypass := by
  obtain ⟨gw, hgw⟩ := Option.isSome_iff_exists.mp hgw
  simp only [RouteController.call, routeController, addBypass, hgw]
  rw [(ctrl.request_cases _ _).1]
  exact List.mem_append.mpr (.inr (List.mem_singleton_self c))

theorem installedBypass_call_remove {mode : SplitMode} {c c₀ : Cidr}
    (hne : mode = .exclude → (ctrl.bypassGateway c).isSome = true → c ≠ c₀) (h : c₀ ∈ s.installedBypass) : c₀ ∈ (ctrl.routeController.call mode .remove c s).2.installedBypass := by
  cases mode with
  | exclude =>
    simp only [RouteController.call, routeController, removeBypass]
    cases hgw : ctrl.bypassGateway c with
    | none => exact h
    | some gw =>
      simp only
      have hby := (ctrl.request_cases (Table.delete · ⟨c, .via gw⟩) s).1
      generalize ctrl.request (Table.delete · ⟨c, .via gw⟩) s = res at hby
      obtain ⟨r, s'⟩ := res
      cases r with
      | error e => exact hby ▸ h
      | ok u =>
        refine List.mem_filter.mpr ⟨hby ▸ h, ?_⟩
        rw [bne_iff_ne]
        exact Ne.symm (hne rfl (by simp [hgw]))
  | «include» =>
    simp only [RouteController.call, routeController, removeViaTun]
    split
    · exact h
    · rw [(ctrl.request_cases _ _).1]
      exact h

end LinuxController

namespace StartArgs

variable {a : StartArgs} {faults : Nat → Option Fault} {cs : List (SplitMode × Finset Cidr)} {own : Table} {k : Kernel}
  {rec : List Cidr}

/-- A prefix that the resolver asks a bypass for. -/
def Resolved (a : StartArgs) (faults : Nat → Option Fault) (cs : List (SplitMode × Finset Cidr)) (c : Cidr) : Prop :=
  ∃ resolved, (.exclude, resolved) ∈ cs ∧ c ∈ resolved ∧ ((a.controller faults).bypassGateway c).isSome = true

theorem sound_init {named : Cidr → Prop} (faults : Nat → Option Fault) (h : Table.Owned own a.tunName rec k.main)
    (hnamed : ∀ c ∈ rec, named c) :
    Resolvers.Sound (LinuxController.Holds own a.tunName k named) ((a.controller faults).Free own)
      ({ sys := ⟨k, rec, 0, [k]⟩ } : Resolvers LinuxSys) := by
  refine ⟨⟨h, rfl, rfl, hnamed⟩, fun m c hc => ?_⟩
  cases m <;> exact absurd hc (Finset.notMem_empty c)

/-- **What the resolver leaves**: the host's routes with recorded ones of the session. -/
theorem resolve_holds (h : Table.Owned own a.tunName rec k.main) :
    LinuxController.Holds own a.tunName k (fun c => c ∈ rec ∨ a.Resolved faults cs c) (a.resolve faults k rec cs).sys := by
  have hstart := sound_init faults h fun c hc => (.inl hc : c ∈ rec ∨ a.Resolved faults cs c)
  have hcalls : ∀ m c s, (∃ resolved, (m, resolved) ∈ cs ∧ c ∈ resolved) →
      LinuxController.Holds own a.tunName k (fun c => c ∈ rec ∨ a.Resolved faults cs c) s →
      LinuxController.Holds own a.tunName k (fun c => c ∈ rec ∨ a.Resolved faults cs c)
        ((a.controller faults).routeController.call m .add c s).2 ∧
      (((a.controller faults).routeController.call m .add c s).1.isOk = true → (a.controller faults).Free own m c) := by
    rintro m c s ⟨resolved, hmem, hc⟩ hs
    refine @LinuxController.Holds.call_add (a.controller faults) s own k _ m c hs fun hm hgw => .inr ?_
    subst hm
    exact ⟨resolved, hmem, hc, hgw⟩
  exact (hstart.cycles hcalls (fun m c s hfree hs => LinuxController.Holds.call_remove hfree hs)
    fun m resolved hmem c hc => ⟨resolved, hmem, hc⟩).1

/-- A recorded prefix of the host stays recorded. -/
theorem resolve_records {c : Cidr} {r : Route} (h : Table.Owned own a.tunName rec k.main) (hr : r ∈ own)
    (hsame : r.dest.samePrefix c = true) (hc : c ∈ rec ∨ a.Resolved faults cs c) :
    c ∈ (a.resolve faults k rec cs).sys.installedBypass := by
  let P : LinuxSys → Prop := LinuxController.Holds own a.tunName k fun _ => True
  have hfree : ∀ c', (a.controller faults).Free own .exclude c' → ((a.controller faults).bypassGateway c').isSome = true →
      c' ≠ c := by
    rintro c' hfree hgw rfl
    rcases hfree with hnone | hown
    · rw [hnone] at hgw
      cases hgw
    · rw [hown r hr] at hsame
      cases hsame
  have hstart : Resolvers.Sound P ((a.controller faults).Free own) ({ sys := ⟨k, rec, 0, [k]⟩ } : Resolvers LinuxSys) :=
    sound_init faults h fun _ _ => trivial
  have hadd : ∀ m c' s, P s → P ((a.controller faults).routeController.call m .add c' s).2 ∧
      (((a.controller faults).routeController.call m .add c' s).1.isOk = true → (a.controller faults).Free own m c') :=
    fun m c' s hs => @LinuxController.Holds.call_add (a.controller faults) s own k _ m c' hs fun _ _ => trivial
  have hrem : ∀ m c' s, (a.controller faults).Free own m c' → P s →
      P ((a.controller faults).routeController.call m .remove c' s).2 :=
    fun m c' s hf hs => LinuxController.Holds.call_remove hf hs
  have hkeep : ∀ m c' s, (a.controller faults).Free own m c' → c ∈ s.installedBypass →
      c ∈ ((a.controller faults).routeController.call m .remove c' s).2.installedBypass := by
    intro m c' s hf hs
    refine LinuxController.installedBypass_call_remove (fun hm hgw => ?_) hs
    subst hm
    exact hfree c' hf hgw
  rcases hc with hc | ⟨resolved, hmem, hc, hgw⟩
  · have hboth : Resolvers.Sound (fun s => P s ∧ c ∈ s.installedBypass) ((a.controller faults).Free own)
        ({ sys := ⟨k, rec, 0, [k]⟩ } : Resolvers LinuxSys) := ⟨⟨hstart.1, hc⟩, hstart.2⟩
    have hcalls : ∀ m c' s, True → (P s ∧ c ∈ s.installedBypass) →
        (P ((a.controller faults).routeController.call m .add c' s).2 ∧
          c ∈ ((a.controller faults).routeController.call m .add c' s).2.installedBypass) ∧
        (((a.controller faults).routeController.call m .add c' s).1.isOk = true →
          (a.controller faults).Free own m c') :=
      fun m c' s _ hs =>
        ⟨⟨(hadd m c' s hs.1).1, LinuxController.installedBypass_call_add hs.2⟩, (hadd m c' s hs.1).2⟩
    exact (hboth.cycles hcalls (fun m c' s hf hs => ⟨hrem m c' s hf hs.1, hkeep m c' s hf hs.2⟩)
      fun _ _ _ _ _ => trivial).1.2
  · refine hstart.called (Q := fun s => c ∈ s.installedBypass) hadd hrem
      (fun s _ => LinuxController.installedBypass_addBypass hgw s)
      (fun m c' s _ hs => LinuxController.installedBypass_call_add hs)
      (fun m c' s hf _ hs => hkeep m c' s hf hs) ?_ ⟨resolved, hmem, hc⟩
    exact fun hf => hfree c hf hgw rfl

/-! ## What is restored -/

/-- A prefix that the guard comes to own: of the server's exception or a bypass of a carried family, or one that the
resolver asks a bypass for in a session that has started. -/
def Named (a : StartArgs) (faults : Nat → Option Fault) (cs : List (SplitMode × Finset Cidr)) (c : Cidr) : Prop :=
  (∃ e, (e = a.plan.serverException ∨ e ∈ a.plan.bypass) ∧ (e.dest.addr.isIpv4 || a.carry) = true ∧ e.dest = c) ∨
    (a.fails = false ∧ a.Resolved faults cs c)

end StartArgs

/-- The main table without device routes, the rules, `resolv.conf` and the IPv6 settings are as they were. -/
structure Host.Restored (tunName : String) (h h' : Host) : Prop where
  main : h'.kernel.main.filter (fun r => r.target ≠ .dev tunName) = h.kernel.main
  rules4 : h'.kernel.rules4 = h.kernel.rules4
  rules6 : h'.kernel.rules6 = h.kernel.rules6
  resolv : h'.resolv = h.resolv
  ipv6All : h'.ipv6All = h.ipv6All
  ipv6Default : h'.ipv6Default = h.ipv6Default

namespace StartArgs

variable {a : StartArgs} {h h' : Host} {g : LinuxTeardown} {n : Nat}

theorem main_ipBatch_policyLines (k : Kernel) (tunName : String) (f o : Bool) :
    (ipBatch k (policyLines tunName f o).2.2).main = k.main := by
  cases f <;> cases o <;> rfl

/-- **The guard restores the host** if and only if no route of the host has a recorded prefix and none of its rules is
one of an installed policy. -/
theorem drop_restored_iff (hdev : ∀ r ∈ h.kernel.main, r.target ≠ .dev a.tunName)
    (howned : Table.Owned h.kernel.main a.tunName g.installedBypass h'.kernel.main)
    (hr4 : h'.kernel.rules4 = (a.ran h n).rules4) (hr6 : h'.kernel.rules6 = (a.ran h n).rules6)
    (hpolicy : g.policyRulesTeardown = a.batch.teardownRules)
    (hfiles : saved (h', g) = (h.resolv, h.ipv6All, h.ipv6Default)) :
    Host.Restored a.tunName h (g.drop h') ↔
      (∀ c ∈ g.installedBypass, ∀ r ∈ h.kernel.main, r.dest.samePrefix c = false) ∧
        ∀ fam6, a.override fam6 = true → NoPolicy (h.kernel.rules fam6) := by
  have hmain : (g.drop h').kernel.main = g.installedBypass.foldl Table.routeDel h'.kernel.main := by
    rw [LinuxTeardown.drop, hpolicy, a.batch_policy.2, ipBatch_append, main_ipBatch_policyLines,
      main_ipBatch_policyLines]
  have hrules : ∀ fam6, (g.drop h').kernel.rules fam6 = h.kernel.rules fam6 ↔
      (a.override fam6 = true → NoPolicy (h.kernel.rules fam6)) := by
    intro fam6
    obtain ⟨added, hadded, hran⟩ := ran_rules a h n fam6
    have hbefore : ({ h'.kernel with main := g.installedBypass.foldl Table.routeDel h'.kernel.main } : Kernel).rules fam6 =
        (a.ran h n).rules fam6 := by
      cases fam6
      · exact hr4
      · exact hr6
    have hdrop : (g.drop h').kernel.rules fam6 = withoutPolicy (a.override fam6) ((a.ran h n).rules fam6) := by
      rw [LinuxTeardown.drop, rules_ipBatch, hbefore, hpolicy, a.batch_policy.2, List.foldl_append,
        (foldl_onRules_policyLines _ _ _ _ _).2, (foldl_onRules_policyLines _ _ _ _ _).2]
      cases fam6 <;> simp [withoutPolicy]
    rw [hdrop, hran, rules_restored_iff hadded]
  have hroutes : (g.drop h').kernel.main.filter (fun r => r.target ≠ .dev a.tunName) = h.kernel.main ↔
      ∀ c ∈ g.installedBypass, ∀ r ∈ h.kernel.main, r.dest.samePrefix c = false := by
    rw [hmain]
    constructor
    · intro heq c hc r hr
      by_contra hsame
      exact howned.routeDels_ne hc hr (by simpa using hsame) heq
    · exact howned.routeDels hdev
  simp only [saved, Prod.mk.injEq] at hfiles
  constructor
  · rintro ⟨hm, h4, h6, -, -, -⟩
    refine ⟨hroutes.mp hm, fun fam6 => (hrules fam6).mp ?_⟩
    cases fam6
    · exact h4
    · exact h6
  · rintro ⟨hm, hr⟩
    exact ⟨hroutes.mpr hm, (hrules false).mpr (hr false), (hrules true).mpr (hr true), hfiles.1, hfiles.2.1, hfiles.2.2⟩

/-- A full tunnel that leaves `10.0.0.0/8` out, on a host with one default route. -/
def leaveOut : StartArgs where
  plan :=
    { tunAddr := .v4 0x0a470002
      tunAddr6 := none
      viaTun := [⟨.v4 0, 1⟩, ⟨.v4 0x80000000, 1⟩]
      serverException := ⟨Cidr.host (.v4 0xcb007107), .v4 0xc0a80101⟩
      bypass := [⟨⟨.v4 0x0a000000, 8⟩, .v4 0xc0a80101⟩]
      origGateway6 := none }
  tunName := "leshiy0"
  dns := [.v4 0x01010101]
  forceDns := true
  ipv6Killswitch := true
  v6Assigned := false
  fault := none

def homeHost (routes : Table) : Host :=
  ⟨⟨⟨⟨.v4 0, 0⟩, .via (.v4 0xc0a80101)⟩ :: routes, [], [mainRule], [mainRule]⟩, [], 0, 0⟩

end StartArgs

end Leshiy.Tun
