import Leshiy.Lib.NetAddr
import Leshiy.Lib.Run
import Leshiy.Reality.NetGuard

/-!
# Direct egress

`DirectEgress` (`leshiy-reality/src/egress.rs`) opens connections and associations to targets that a
client has named. How a name is resolved and how each attempt ends is up to the network. A run lists
every address that something is sent to.
-/

namespace Leshiy.Reality

open Leshiy.Lib NetAddr

inductive Proto where
  | tcp
  | udp
  | icmp
  deriving DecidableEq, Repr

structure DirectEgress where
  allowPrivate : Bool

def DirectEgress.new : DirectEgress := ⟨false⟩

def DirectEgress.allowingPrivate : DirectEgress := ⟨true⟩

/-- The peer of a connected socket. -/
structure Assoc where
  proto : Proto
  peer : SocketAddr
  deriving DecidableEq, Repr

/-- How the attempt to dial an address ends. A datagram socket may not even be bound. -/
inductive Attempt where
  | connected
  | refused (err : IoError)
  | timedOut
  | unbound (err : IoError)

/-- Something that goes out: a connection attempt, or bytes on a socket. -/
structure Contact where
  proto : Proto
  addr : SocketAddr
  sent : Option (List UInt8)
  deriving DecidableEq, Repr

/-! ## Opening -/

/-- The addresses one after the other until one is connected. What the attempts come to is given by
their number. -/
def tryEach (proto : Proto) (attempts : Nat → Attempt) :
    Nat → Option IoError → List SocketAddr → Except EgressError Assoc × List Contact
  | _, lastErr, [] =>
    (.error (.io (lastErr.getD (.addrNotAvailable "no reachable address"))), [])
  | i, _, addr :: rest =>
    match attempts i with
    | .connected => (.ok ⟨proto, addr⟩, [⟨proto, addr, none⟩])
    | .refused e =>
      let (out, contacts) := tryEach proto attempts (i + 1) (some e) rest
      (out, ⟨proto, addr, none⟩ :: contacts)
    | .timedOut =>
      let (out, contacts) := tryEach proto attempts (i + 1) (some (.timedOut addr)) rest
      (out, ⟨proto, addr, none⟩ :: contacts)
    | .unbound e => tryEach proto attempts (i + 1) (some e) rest

def openChecked (e : DirectEgress) (proto : Proto) (target : String)
    (answer : Except IoError (List SocketAddr)) (attempts : Nat → Attempt) :
    Except EgressError Assoc × List Contact :=
  match resolveAllChecked target answer e.allowPrivate with
  | .error err => (.error err, [])
  | .ok addrs => tryEach proto attempts 0 none addrs

namespace DirectEgress

/-- `open`. A stream socket is not bound first. -/
def openTcp (e : DirectEgress) (target : String) (answer : Except IoError (List SocketAddr))
    (attempts : Nat → Attempt) : Except EgressError Assoc × List Contact :=
  openChecked e .tcp target answer attempts

def openUdp (e : DirectEgress) (target : String) (answer : Except IoError (List SocketAddr))
    (attempts : Nat → Attempt) : Except EgressError Assoc × List Contact :=
  openChecked e .udp target answer attempts

end DirectEgress

/-- `icmp_socket`: the port counts for nothing. The only way out on macOS is an error. -/
def icmpSocket (macos : Bool) (ip : IpAddr) (result : Except IoError Unit) :
    Except EgressError Assoc × List Contact :=
  if macos then
    (.error (.io (.unsupported "ICMP egress is Linux-only (macOS ICMP sockets are not per-flow)")), [])
  else
    match result with
    | .error e => (.error (.io e), [⟨.icmp, ⟨ip, 0⟩, none⟩])
    | .ok () => (.ok ⟨.icmp, ⟨ip, 0⟩⟩, [⟨.icmp, ⟨ip, 0⟩, none⟩])

def DirectEgress.openIcmp (e : DirectEgress) (macos : Bool) (target : String)
    (result : Except IoError Unit) : Except EgressError Assoc × List Contact :=
  match parseIpAddr target.toList with
  | none => (.error (.malformed s!"icmp target must be a bare IP, got {target}"), [])
  | some ip =>
    match checkIpAllowed ip e.allowPrivate with
    | .error err => (.error err, [])
    | .ok () => icmpSocket macos ip result

/-! ## Runs -/

inductive EgressAct where
  | openTcp (target : String) (answer : Except IoError (List SocketAddr)) (attempts : Nat → Attempt)
  | openUdp (target : String) (answer : Except IoError (List SocketAddr)) (attempts : Nat → Attempt)
  | openIcmp (macos : Bool) (target : String) (result : Except IoError Unit)
  | send (assoc : Assoc) (buf : List UInt8)

namespace DirectEgress

/-- The sockets that are open, with one more if it could be opened. -/
def opened (socks : List Assoc) : Except EgressError Assoc × List Contact → List Assoc × List Contact
  | (.ok assoc, contacts) => (assoc :: socks, contacts)
  | (.error _, contacts) => (socks, contacts)

def step (e : DirectEgress) (socks : List Assoc) : EgressAct → Option (List Assoc × List Contact)
  | .openTcp target answer attempts => some (opened socks (e.openTcp target answer attempts))
  | .openUdp target answer attempts => some (opened socks (e.openUdp target answer attempts))
  | .openIcmp macos target result => some (opened socks (e.openIcmp macos target result))
  | .send assoc buf =>
    if assoc ∈ socks then some (socks, [⟨assoc.proto, assoc.peer, some buf⟩]) else none

/-! ## Only checked addresses are contacted -/

variable {e : DirectEgress} {socks socks' : List Assoc}

/-- The policy lets something be sent to the address. -/
def Allows (e : DirectEgress) (addr : SocketAddr) : Prop := (checkIp addr.ip e.allowPrivate).isOk

/-- What an attempt to open something contacts and what it gives is allowed. -/
structure Guarded (e : DirectEgress) (r : Except EgressError Assoc × List Contact) : Prop where
  contacts : ∀ c ∈ r.2, e.Allows c.addr
  peer : ∀ assoc, r.1 = .ok assoc → e.Allows assoc.peer

theorem Guarded.cons {r : Except EgressError Assoc × List Contact} {c : Contact} (h : Guarded e r)
    (hc : e.Allows c.addr) : Guarded e (r.1, c :: r.2) := by
  refine ⟨fun c' hmem => ?_, h.peer⟩
  rcases List.mem_cons.mp hmem with rfl | hmem
  · exact hc
  · exact h.contacts c' hmem

theorem guarded_error (err : EgressError) : Guarded e (.error err, []) := ⟨nofun, nofun⟩

theorem guarded_tryEach {proto : Proto} {attempts : Nat → Attempt} : ∀ {addrs : List SocketAddr}
    {i : Nat} {lastErr : Option IoError}, (∀ addr ∈ addrs, e.Allows addr) →
    Guarded e (tryEach proto attempts i lastErr addrs)
  | [], _, _, _ => guarded_error _
  | addr :: rest, i, lastErr, h => by
    have haddr : e.Allows addr := h addr List.mem_cons_self
    have hrest : ∀ addr' ∈ rest, e.Allows addr' := fun addr' hmem => h addr' (List.mem_cons_of_mem _ hmem)
    rw [tryEach]
    split
    · refine ⟨?_, ?_⟩
      · intro c hmem
        rw [List.mem_singleton] at hmem
        rw [hmem]
        exact haddr
      · rintro assoc ⟨⟩
        exact haddr
    · exact (guarded_tryEach hrest).cons haddr
    · exact (guarded_tryEach hrest).cons haddr
    · exact guarded_tryEach hrest

theorem guarded_openChecked (proto : Proto) (target : String)
    (answer : Except IoError (List SocketAddr)) (attempts : Nat → Attempt) :
    Guarded e (openChecked e proto target answer attempts) := by
  unfold openChecked
  split
  · exact guarded_error _
  · next addrs hresolve => exact guarded_tryEach (isOk_of_resolveAllChecked hresolve)

theorem guarded_openIcmp (macos : Bool) (target : String) (result : Except IoError Unit) :
    Guarded e (e.openIcmp macos target result) := by
  unfold openIcmp
  split
  · exact guarded_error _
  next ip _ =>
  split
  · exact guarded_error _
  next hcheck =>
  have hip : e.Allows ⟨ip, 0⟩ := by
    show (checkIpAllowed ip e.allowPrivate).isOk = true
    rw [hcheck]
    rfl
  have hcontact : ∀ c ∈ [(⟨.icmp, ⟨ip, 0⟩, none⟩ : Contact)], e.Allows c.addr := by
    intro c hmem
    rw [List.mem_singleton] at hmem
    rw [hmem]
    exact hip
  unfold icmpSocket
  split
  · exact guarded_error _
  split
  · exact ⟨hcontact, nofun⟩
  · refine ⟨hcontact, ?_⟩
    rintro assoc ⟨⟩
    exact hip

theorem Guarded.opened {r : Except EgressError Assoc × List Contact} (h : Guarded e r)
    (hs : ∀ assoc ∈ socks, e.Allows assoc.peer) :
    (∀ assoc ∈ (opened socks r).1, e.Allows assoc.peer) ∧
      ∀ c ∈ (opened socks r).2, e.Allows c.addr := by
  obtain ⟨out, contacts⟩ := r
  cases out with
  | error err => exact ⟨hs, h.contacts⟩
  | ok assoc =>
    refine ⟨fun assoc' hmem => ?_, h.contacts⟩
    rcases List.mem_cons.mp hmem with rfl | hmem
    · exact h.peer _ rfl
    · exact hs assoc' hmem

/-- One step contacts allowed addresses only, if the sockets that are open have such peers. -/
theorem allows_step {a : EgressAct} {ev : List Contact} (hs : ∀ assoc ∈ socks, e.Allows assoc.peer)
    (h : e.step socks a = some (socks', ev)) :
    (∀ assoc ∈ socks', e.Allows assoc.peer) ∧ ∀ c ∈ ev, e.Allows c.addr := by
  cases a with
  | openTcp target answer attempts =>
    have hopened := (guarded_openChecked .tcp target answer attempts).opened hs
    have heq := Option.some.inj h
    rw [openTcp] at heq
    rwa [heq] at hopened
  | openUdp target answer attempts =>
    have hopened := (guarded_openChecked .udp target answer attempts).opened hs
    have heq := Option.some.inj h
    rw [openUdp] at heq
    rwa [heq] at hopened
  | openIcmp macos target result =>
    have hopened := (guarded_openIcmp macos target result).opened hs
    rwa [Option.some.inj h] at hopened
  | send assoc buf =>
    rw [step] at h
    split at h
    · next hmem =>
      cases h
      refine ⟨hs, fun c hc => ?_⟩
      rw [List.mem_singleton] at hc
      rw [hc]
      exact hs assoc hmem
    · cases h

theorem allows_run {log : List (Taken (List Assoc) EgressAct Contact)}
    (h : Exec e.step [] log socks) :
    (∀ assoc ∈ socks, e.Allows assoc.peer) ∧ ∀ c ∈ shown log, e.Allows c.addr := by
  refine h.inv (P := fun log socks => (∀ assoc ∈ socks, e.Allows assoc.peer) ∧
    ∀ c ∈ shown log, e.Allows c.addr) ⟨nofun, nofun⟩ ?_
  rintro log socks a socks' ev - ⟨hsocks, hlog⟩ hs
  obtain ⟨hsocks', hev⟩ := allows_step hsocks hs
  refine ⟨hsocks', fun c hmem => ?_⟩
  rw [shown_snoc, List.mem_append] at hmem
  exact hmem.elim (hlog c) (hev c)

/-- **The guard against forged targets**: no address is contacted that the policy refuses, and what it
refuses is a list of prefixes. -/
theorem egress_guarded :
    (∀ (e : DirectEgress) (log : List (Taken (List Assoc) EgressAct Contact)) (socks : List Assoc),
      Exec e.step [] log socks →
      ∀ c ∈ shown log, (checkIp c.addr.ip e.allowPrivate).isOk = true) ∧
    (∀ (b : BitVec 32) (allowPrivate : Bool), (checkIp (.v4 b) allowPrivate).isOk = false ↔
      InPrefixes alwaysRefused (.v4 b) ∨
        allowPrivate = false ∧ InPrefixes privateRefused (.v4 b)) ∧
    (∀ (b : BitVec 128) (allowPrivate : Bool), toIpv4Mapped b = none →
      ((checkIp (.v6 b) allowPrivate).isOk = false ↔
        InPrefixes alwaysRefused (.v6 b) ∨
          allowPrivate = false ∧ InPrefixes privateRefused (.v6 b))) ∧
    (∀ (b : BitVec 32) (allowPrivate : Bool),
      checkIp (.v6 (toIpv6Mapped b)) allowPrivate = checkIp (.v4 b) allowPrivate) ∧
    ∀ a : IpAddr, (checkIp a false).isOk = true → (checkIp a true).isOk = true := by
  refine ⟨fun e log socks h => (allows_run h).2, fun b allowPrivate => isOk_checkIp,
    fun b allowPrivate hmapped => ?_, fun b allowPrivate => ?_, fun a => isOk_checkIp_of_strict⟩
  · rw [isOk_checkIp, canonicalIp_of_not_mapped hmapped]
  · rw [checkIp, checkIp, canonicalIp_toIpv6Mapped]

/-- A name that stands for a public and a private address: only the public one is dialled, and the
metadata address is refused even to an exit for private targets. -/
theorem egress_guarded_small :
    (∃ log socks, Exec DirectEgress.new.step [] log socks ∧ shown log ≠ [] ∧
      ∀ c ∈ shown log, (checkIp c.addr.ip false).isOk = true) ∧
    (checkIp (.v6 (toIpv6Mapped 0xa9fea9fe#32)) true).isOk = false ∧
    ((checkIp (ipv6 0xfc00 1) false).isOk = false ↔ InPrefixes alwaysRefused (ipv6 0xfc00 1) ∨
      false = false ∧ InPrefixes privateRefused (ipv6 0xfc00 1)) ∧
    (checkIp (ipv4 1 1 1 1) true).isOk = true := by
  obtain ⟨hrun, -, hv6, hmapped, hmono⟩ := egress_guarded
  refine ⟨?_, ?_, hv6 _ false (by decide), hmono _ (by decide)⟩
  · obtain ⟨log, socks, h, hne⟩ := exec_reaches DirectEgress.new.step []
      [.openTcp "a.example:443" (.ok [⟨ipv4 1 1 1 1, 443⟩, ⟨ipv4 10 0 0 1, 443⟩]) fun _ => .timedOut]
      (fun log _ => shown log ≠ []) (by decide +kernel)
    exact ⟨log, socks, h, hne, hrun DirectEgress.new log socks h⟩
  · rw [hmapped]
    decide

end DirectEgress

end Leshiy.Reality
