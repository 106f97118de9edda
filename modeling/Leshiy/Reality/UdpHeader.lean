import Leshiy.Lib.AddrText
import Leshiy.Reality.Addr
import Leshiy.Reality.UdpAssociate

/-!
# The header of a SOCKS UDP datagram

`parse_udp_datagram` (`leshiy-reality/src/client.rs`) and the header that `udp_assoc_flow` puts before a
reply: the address as the request had it. A client parses a reply as the loop parses a request.
-/

namespace Leshiy.Reality

open Leshiy.Lib Str NetAddr

/-- `Ipv4Addr::from` and `Ipv6Addr::from`. -/
def bitsOf (w : Nat) (octets : List UInt8) : BitVec w :=
  BitVec.ofNat w (octets.foldl (fun n o => 256 * n + o.toNat) 0)

/-- The text of the host of a request. -/
def Host.text : Host → Str
  | .v4 octets => showIpv4 (bitsOf 32 octets)
  | .v6 octets => showIpv6 (bitsOf 128 octets)
  | .domain name => name.toList

/-- The target of a request. -/
def targetText (host : Host) (port : Nat) : String :=
  String.ofList (joinHostPort host.text (UInt16.ofNat port))

example : targetText (.v6 [0x20, 1, 0x0d, 0xb8, 0, 0, 0, 0, 0, 0, 0, 0, 0, 0, 0, 1]) 443 =
    "[2001:db8::1]:443" := by
  decide +kernel

/-! ## No byte beyond the datagram -/

/-- `&pkt[a..b]`; `none` where it panics. -/
def indexRange (pkt : Bytes) (a b : Nat) : Option Bytes :=
  if a ≤ b ∧ b ≤ pkt.length then some ((pkt.take b).drop a) else none

/-- `parse_udp_datagram` with its indices and its slice, where `none` is a panic. What it reads with `get` is
in `udpHost`. -/
def parseUdpDatagramChecked (text : Host → Nat → String) (pkt : Bytes) :
    Option (Option (String × Nat × Bytes)) :=
  if pkt.length < 4 then some none
  else
    match pkt[2]? with
    | none => none
    | some frag =>
      if frag ≠ 0 then some none
      else
        match pkt[3]? with
        | none => none
        | some _ =>
          match udpHost pkt with
          | none => some none
          | some (host, addrEnd) =>
            match pkt[addrEnd]?, pkt[addrEnd + 1]? with
            | some hi, some lo =>
              if pkt.length < addrEnd + 2 then some none
              else
                match indexRange pkt 3 (addrEnd + 2) with
                | none => none
                | some header =>
                  some (some (text host (hi.toNat * 256 + lo.toNat), addrEnd + 2, header))
            | _, _ => some none

section

variable {text : Host → Nat → String} {pkt header : Bytes} {host : Host} {addrEnd off : Nat} {target : String}

/-- What is taken off the front of a datagram is in it. -/
theorem udpHost_within (h : udpHost pkt = some (host, addrEnd)) : 5 ≤ addrEnd ∧ addrEnd ≤ pkt.length := by
  unfold udpHost at h
  split at h
  · split at h
    · cases h
      exact ⟨by decide, ‹_›⟩
    · cases h
  · split at h
    · cases h
      exact ⟨by decide, ‹_›⟩
    · cases h
  · split at h
    · split at h
      · cases h
        exact ⟨Nat.le_add_right _ _, ‹_›⟩
      · cases h
    · cases h
  · cases h

/-- **No index is out of range.** -/
theorem parseUdpDatagramChecked_eq : parseUdpDatagramChecked text pkt = some (parseUdpDatagram text pkt) := by
  unfold parseUdpDatagramChecked parseUdpDatagram
  by_cases hshort : pkt.length < 4
  · simp [hshort]
  · obtain ⟨frag, hfrag⟩ : ∃ frag, pkt[2]? = some frag := ⟨_, List.getElem?_eq_getElem (by omega)⟩
    obtain ⟨atyp, hatyp⟩ : ∃ atyp, pkt[3]? = some atyp := ⟨_, List.getElem?_eq_getElem (by omega)⟩
    by_cases hwhole : frag = 0
    · subst hwhole
      simp only [hshort, hfrag, hatyp, if_false, ne_eq, not_true_eq_false, bne_self_eq_false, decide_false,
        Bool.or_false, Bool.false_eq_true]
      cases hhost : udpHost pkt with
      | none => rfl
      | some found =>
        obtain ⟨host, addrEnd⟩ := found
        have hfive := (udpHost_within hhost).1
        dsimp only
        cases pkt[addrEnd]? with
        | none => rfl
        | some hi =>
          cases pkt[addrEnd + 1]? with
          | none => rfl
          | some lo =>
            dsimp only
            split
            · rfl
            · rw [indexRange, if_pos (by omega)]
    · simp [hshort, hfrag, hwhole]

/-! ## A reply is parsed as the request was -/

/-- The address of a datagram is in the bytes from the fourth to its end, and nothing else matters. -/
theorem udpHost_echo {front front' body back : Bytes} (back' : Bytes) (hfront : front.length = 3)
    (hfront' : front'.length = 3) (h : udpHost (front ++ (body ++ back)) = some (host, addrEnd))
    (hbody : addrEnd ≤ 3 + body.length) :
    udpHost (front' ++ (body ++ back')) = some (host, addrEnd) := by
  match front, hfront, front', hfront', body with
  | [x, y, z], _, [x', y', z'], _, [] =>
    have hfive := (udpHost_within h).1
    rw [List.length_nil] at hbody
    omega
  | [x, y, z], _, [x', y', z'], _, atyp :: body =>
    have hfive := (udpHost_within h).1
    rw [List.length_cons] at hbody
    have htake : ∀ k, k ≤ body.length → (body ++ back).take k = (body ++ back').take k := fun k hk => by
      rw [List.take_append_of_le_length hk, List.take_append_of_le_length hk]
    unfold udpHost at h ⊢
    simp only [List.cons_append, List.nil_append, List.getElem?_cons_succ, List.getElem?_cons_zero,
      List.drop_succ_cons, List.drop_zero, List.length_cons, List.length_append] at h ⊢
    split at h
    · split at h
      · cases h
        rw [if_pos (by omega), htake 4 (by omega)]
      · cases h
    · split at h
      · cases h
        rw [if_pos (by omega), htake 16 (by omega)]
      · cases h
    · match body with
      | [] =>
        rw [List.length_nil] at hbody
        omega
      | len :: body =>
        rw [List.length_cons] at hbody
        simp only [List.cons_append, List.getElem?_cons_zero, List.drop_succ_cons, List.drop_zero,
          List.length_cons] at h ⊢
        split at h
        · cases h
          rw [if_pos (by omega), List.take_append_of_le_length (by omega),
            List.take_append_of_le_length (by omega)]
        · cases h
    · cases h

/-- What an accepted datagram is made of. -/
theorem parseUdpDatagram_eq_some (h : parseUdpDatagram text pkt = some (target, off, header)) :
    ∃ front host addrEnd hi lo payload, front.length = 3 ∧ pkt = front ++ (header ++ payload) ∧
      off = 3 + header.length ∧ front[2]? = some 0 ∧ udpHost pkt = some (host, addrEnd) ∧ off = addrEnd + 2 ∧
      pkt[addrEnd]? = some hi ∧ pkt[addrEnd + 1]? = some lo ∧
      target = text host (hi.toNat * 256 + lo.toNat) := by
  unfold parseUdpDatagram at h
  split at h
  · cases h
  next hwhole =>
  split at h
  · next host addrEnd hhost =>
    split at h
    · next hi lo hhi hlo =>
      split at h
      · cases h
      · next hlong =>
        cases h
        have hfive := (udpHost_within hhost).1
        simp only [Bool.or_eq_true, decide_eq_true_eq, not_or, bne_iff_ne, ne_eq, Decidable.not_not] at hwhole
        have hheader : pkt.take 3 ++ (pkt.take (addrEnd + 2)).drop 3 = pkt.take (addrEnd + 2) := by
          have hfront : (pkt.take (addrEnd + 2)).take 3 = pkt.take 3 := by
            rw [List.take_take, Nat.min_eq_left (by omega)]
          rw [← hfront, List.take_append_drop]
        refine ⟨pkt.take 3, host, addrEnd, hi, lo, pkt.drop (addrEnd + 2), ?_, ?_, ?_, ?_, hhost, rfl, hhi,
          hlo, rfl⟩
        · rw [List.length_take]
          omega
        · rw [← List.append_assoc, hheader, List.take_append_drop]
        · rw [List.length_drop, List.length_take]
          omega
        · rw [List.getElem?_take]
          exact hwhole.2
    · cases h
  · cases h

/-- The bytes after the front are where they were. -/
theorem getElem?_echo {front front' body back : Bytes} (back' : Bytes) {i : Nat} (hfront : front.length = 3)
    (hfront' : front'.length = 3) (hi : 3 ≤ i) (hlt : i < 3 + body.length) :
    (front ++ (body ++ back))[i]? = (front' ++ (body ++ back'))[i]? := by
  have hbody : ∀ {front back : Bytes}, front.length = 3 → (front ++ (body ++ back))[i]? = body[i - 3]? :=
    fun hlen => by
      rw [List.getElem?_append_right (hlen ▸ hi), hlen, List.getElem?_append_left (by omega)]
  rw [hbody hfront, hbody hfront']

/-- **A reply is parsed to the target of its request**, with what it carries at the offset that is returned. -/
theorem parseUdpDatagram_echo (h : parseUdpDatagram text pkt = some (target, off, header)) (payload : Bytes) :
    parseUdpDatagram text ([0, 0, 0] ++ (header ++ payload)) = some (target, off, header) ∧
      ([0, 0, 0] ++ (header ++ payload)).drop off = payload ∧
      off + payload.length = ([0, 0, 0] ++ (header ++ payload)).length := by
  obtain ⟨front, host, addrEnd, hi, lo, payload', hfront, hpkt, hlen, hwhole, hhost, hoff, hhi, hlo, htarget⟩ :=
    parseUdpDatagram_eq_some h
  rw [hpkt] at hhost hhi hlo
  have hfive := (udpHost_within hhost).1
  have hzeros : ([0, 0, 0] : Bytes).length = 3 := rfl
  have hhost' := udpHost_echo payload hfront hzeros hhost (by omega)
  rw [getElem?_echo payload hfront hzeros (by omega) (by omega)] at hhi hlo
  have hsplit : [0, 0, 0] ++ (header ++ payload) = ([0, 0, 0] ++ header) ++ payload := rfl
  have hheader : ([0, 0, 0] ++ header : Bytes).length = off := by
    rw [List.length_append, hzeros, hlen]
  refine ⟨?_, ?_, ?_⟩
  · have hlong : ¬([0, 0, 0] ++ (header ++ payload) : Bytes).length < addrEnd + 2 := by
      rw [hsplit, List.length_append, hheader]
      omega
    have htake : (([0, 0, 0] ++ (header ++ payload) : Bytes).take (addrEnd + 2)).drop 3 = header := by
      rw [hsplit, ← hoff, ← hheader, List.take_left]
      rfl
    have hpos : 1 ≤ header.length + payload.length := by omega
    unfold parseUdpDatagram
    rw [if_neg (by simpa using hpos), hhost']
    dsimp only
    rw [hhi, hlo]
    dsimp only
    rw [if_neg hlong, htake, ← htarget, ← hoff]
  · rw [hsplit, ← hheader, List.drop_left]
  · rw [hsplit, List.length_append, hheader]

/-! ## The header of a flow -/

namespace Association

variable {Addr : Type} [DecidableEq Addr] {s s' : Association Addr} {a : AssocAct Addr}
  {ev : List (AssocEvent Addr)}

/-- A header that some request to the target had. -/
def HeaderOf (text : Host → Nat → String) (target : String) (header : Bytes) : Prop :=
  ∃ pkt off, parseUdpDatagram text pkt = some (target, off, header)

/-- Every flow has a header of its target, and so has the request that the loop opens one for. -/
structure Echoes (text : Host → Nat → String) (s : Association Addr) : Prop where
  flows : ∀ (f : Nat) (fl : AssocFlow Addr), s.flows[f]? = some fl →
    ∃ header, fl.reply = [0, 0, 0] ++ header ∧ HeaderOf text fl.target header
  opening : ∀ target source header data, s.phase = .opening target source header data →
    HeaderOf text target header

theorem headerOf_accepts {source : Addr} {data : Bytes}
    (h : s.accepts text source pkt = some (target, header, data)) : HeaderOf text target header := by
  unfold accepts at h
  split at h
  · obtain ⟨⟨target', off, header'⟩, hparse, heq⟩ := Option.map_eq_some_iff.mp h
    cases heq
    exact ⟨pkt, off, hparse⟩
  · cases h

omit [DecidableEq Addr] in
/-- A step leaves what the flows that there are echo. -/
theorem Echoes.of_flows (h : s.Echoes text) (hphase : ∀ target source header data,
      s'.phase = .opening target source header data → HeaderOf text target header)
    (hflows : ∀ (f : Nat) (fl' : AssocFlow Addr), s'.flows[f]? = some fl' →
      ∃ fl, s.flows[f]? = some fl ∧ fl'.reply = fl.reply ∧ fl'.target = fl.target) : s'.Echoes text where
  flows f fl' hf := by
    obtain ⟨fl, hfl, hreply, htarget⟩ := hflows f fl' hf
    rw [hreply, htarget]
    exact h.flows f fl hfl
  opening := hphase

omit [DecidableEq Addr] in
theorem setFlow_echo {f g : Nat} {fl fl'' : AssocFlow Addr} (fl' : AssocFlow Addr) (hf : s.flows[f]? = some fl)
    (hreply : fl'.reply = fl.reply) (htarget : fl'.target = fl.target)
    (hg : (s.setFlow f fl').flows[g]? = some fl'') :
    ∃ fl, s.flows[g]? = some fl ∧ fl''.reply = fl.reply ∧ fl''.target = fl.target := by
  rw [getElem?_setFlow hf] at hg
  split at hg
  · next hfg =>
    cases hg
    exact ⟨fl, hfg ▸ hf, hreply, htarget⟩
  · exact ⟨fl'', hg, rfl, rfl⟩

theorem Echoes.step (h : s.Echoes text) (hs : s.step text a = some (s', ev)) : s'.Echoes text := by
  have hsame : ∀ (f : Nat) (fl : AssocFlow Addr), s.flows[f]? = some fl →
      ∃ fl₀, s.flows[f]? = some fl₀ ∧ fl.reply = fl₀.reply ∧ fl.target = fl₀.target :=
    fun f fl hf => ⟨fl, hf, rfl, rfl⟩
  cases step_effect hs with
  | stopped | refused | lost => exact h.of_flows nofun hsame
  | ignored | down => exact h
  | dropped => exact h.of_flows h.opening hsame
  | found => exact h.of_flows nofun hsame
  | wanted _ haccept =>
    refine h.of_flows (fun target source header data hphase => ?_) hsame
    cases hphase
    exact headerOf_accepts haccept
  | @opened target source header data hphase =>
    refine ⟨fun f fl hf => ?_, nofun⟩
    by_cases hlt : f < s.flows.length
    · rw [List.getElem?_append_left hlt] at hf
      exact h.flows f fl hf
    · have hfl : fl = ⟨target, source, [0, 0, 0] ++ header, [], true⟩ :=
        List.mem_singleton.mp (List.mem_of_getElem?
          ((List.getElem?_append_right (Nat.le_of_not_lt hlt)).symm.trans hf))
      exact ⟨header, by rw [hfl], hfl ▸ h.opening _ _ _ _ hphase⟩
  | @handed _ _ data fl _ hf =>
    refine h.of_flows nofun fun g fl' hg => ?_
    exact setFlow_echo ({ fl with queue := fl.queue ++ [data] }) hf rfl rfl hg
  | @up _ _ fl _ queue hf =>
    refine h.of_flows h.opening fun g fl' hg => ?_
    exact setFlow_echo ({ fl with queue := queue }) hf rfl rfl hg
  | closed =>
    refine h.of_flows h.opening fun g fl' hg => ?_
    rw [getElem?_endFlow] at hg
    obtain ⟨fl, hfl, rfl⟩ := Option.map_eq_some_iff.mp hg
    refine ⟨fl, hfl, ?_⟩
    split <;> exact ⟨rfl, rfl⟩

/-- What goes back to the client is the reply header of a flow, and data behind it. -/
theorem toClient_step {dest : Addr} (hs : s.step text a = some (s', ev)) (hev : .toClient dest pkt ∈ ev) :
    ∃ f fl payload, a = .flowDown f payload true ∧ s.flows[f]? = some fl ∧ dest = fl.clientAddr ∧
      pkt = fl.reply ++ payload := by
  cases step_effect hs with
  | @down f dest' reply payload =>
    rw [Association.step] at hs
    split at hs
    · next target clientAddr reply' queue hf =>
      rw [if_pos rfl] at hs
      rw [← (Prod.mk.inj (Option.some.inj hs)).2] at hev
      cases List.mem_singleton.mp hev
      exact ⟨f, _, payload, rfl, hf, rfl, rfl⟩
    · cases hs
  | refused | handed | lost | up => cases List.mem_singleton.mp hev
  | _ => cases hev

end Association

/-- **Headers of SOCKS datagrams.** No byte string makes the parser read beyond it, and a fragment is refused.
A reply starts with the header of its request, so it is parsed to the same target whatever it carries; this
holds of every flow of every run, and of everything that goes back to the client. -/
theorem udp_header {Addr : Type} [DecidableEq Addr] :
    (∀ pkt, parseUdpDatagramChecked targetText pkt = some (parseUdpDatagram targetText pkt)) ∧
    (∀ pkt : Bytes, pkt[2]? ≠ some 0 → parseUdpDatagram targetText pkt = none) ∧
    (∀ pkt target off header payload, parseUdpDatagram targetText pkt = some (target, off, header) →
      off ≤ pkt.length ∧
      parseUdpDatagram targetText ([0, 0, 0] ++ (header ++ payload)) = some (target, off, header) ∧
      ([0, 0, 0] ++ (header ++ payload)).drop off = payload ∧
      off + payload.length = ([0, 0, 0] ++ (header ++ payload)).length) ∧
    ∀ log (s : Association Addr), Exec (Association.step targetText) Association.new log s →
      (∀ (f : Nat) (fl : AssocFlow Addr), s.flows[f]? = some fl → ∀ payload, ∃ off header,
        parseUdpDatagram targetText (fl.reply ++ payload) = some (fl.target, off, header) ∧
        (fl.reply ++ payload).drop off = payload ∧ off + payload.length = (fl.reply ++ payload).length) ∧
      ∀ t ∈ log, ∀ dest pkt, .toClient dest pkt ∈ t.ev → ∃ f fl payload, t.act = .flowDown f payload true ∧
        t.pre.flows[f]? = some fl ∧ dest = fl.clientAddr ∧ pkt = fl.reply ++ payload := by
  refine ⟨fun pkt => parseUdpDatagramChecked_eq, fun pkt hfrag => ?_, fun pkt target off header payload h => ?_,
    fun log s hrun => ⟨fun f fl hf payload => ?_, fun t ht dest pkt hev => ?_⟩⟩
  · unfold parseUdpDatagram
    rw [if_pos (by simp [hfrag])]
  · obtain ⟨front, host, addrEnd, hi, lo, payload', hfront, hpkt, hlen, -⟩ := parseUdpDatagram_eq_some h
    refine ⟨?_, parseUdpDatagram_echo h payload⟩
    rw [hpkt, List.length_append, List.length_append]
    omega
  · have hnew : (Association.new : Association Addr).Echoes targetText :=
      ⟨fun f fl hf => by simp [Association.new] at hf, nofun⟩
    have hechoes := hrun.state_inv hnew fun _ _ _ _ h hs => h.step hs
    obtain ⟨header, hreply, pkt, off, hparse⟩ := hechoes.flows f fl hf
    rw [hreply, List.append_assoc]
    exact ⟨off, header, parseUdpDatagram_echo hparse payload⟩
  · obtain ⟨-, s', -, -, hs⟩ := hrun.pre_reached t ht
    exact Association.toClient_step hs hev

end

end Leshiy.Reality
