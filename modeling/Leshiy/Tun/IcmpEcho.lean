import Leshiy.Reality.MessageRelay

/-!
# One ping through the tunnel

`relay_icmp_echo` (`leshiy-tun/src/engine.rs`) carries one echo request of the netstack to an association of
its own and writes the reply back. The identifier of the request is lost on the way, to the socket of the
server, and restored by the server; the checksum of an ICMPv4 reply is the server's, and that of an ICMPv6 reply
the client's, which alone knows both addresses.
-/

namespace Leshiy.Tun

open Leshiy.Lib Leshiy.Reality Leshiy.Icmp

def isIpv6 : IpAddr → Bool
  | .v6 _ => true
  | .v4 _ => false

/-- `Ipv6Addr::octets`. -/
def octets (b : BitVec 128) : Block 16 :=
  ⟨beEncode 16 b.toNat, length_beEncode 16 b.toNat⟩

/-- What the tunnel makes of the association: the results of opening it, of `send`, and of `recv` if that
returns in time. -/
structure EchoFlow where
  opened : Except String Unit
  sent : Except String Unit
  reply : Option (Except String Bytes)

/-- `relay_icmp_echo`: the message that is written to the device. `none` is a panic. -/
def relayIcmpEcho (flow : EchoFlow) (src dst : IpAddr) (ipProtocol : UInt8) (req : Bytes) :
    Option (Except String Bytes) :=
  let v6 := isIpv6 dst
  let want := if v6 then IPPROTO_ICMPV6 else IPPROTO_ICMPV4
  if ipProtocol ≠ want then some (.error "not ICMP")
  else if parseEchoRequest req v6 = none then some (.error "not an echo request")
  else
    match flow.opened, flow.sent, flow.reply with
    | .error e, _, _ => some (.error ("open: " ++ e))
    | .ok (), .error e, _ => some (.error ("send: " ++ e))
    | .ok (), .ok (), none => some (.error "echo reply timed out")
    | .ok (), .ok (), some (.error e) => some (.error ("recv: " ++ e))
    | .ok (), .ok (), some (.ok reply) =>
      if !isEchoReply reply v6 then some (.error "peer returned a non-echo-reply")
      else
        match dst, src with
        | .v6 s, .v6 d => do
          let (long, reply) ← setV6Checksum reply (octets s) (octets d)
          if !long then return .error "reply too short to checksum"
          return .ok reply
        | _, _ => some (.ok reply)

/-- A message that verifies as one from `src` to `dst`. -/
def VerifiesFor (src dst : IpAddr) (msg : Bytes) : Prop :=
  match src, dst with
  | .v6 s, .v6 d => Verifies (pseudoHeader (octets s) (octets d) msg.length ++ msg)
  | _, _ => Verifies msg

/-- What a target answers to a request: type and code of a reply, and the request's sequence number and data. Of
identifier and checksum nothing is said. -/
structure Answers (v6 : Bool) (req reply : Bytes) : Prop where
  head : reply.take OFF_CHECKSUM = [if v6 then V6_ECHO_REPLY else V4_ECHO_REPLY, 0]
  tail : reply.drop OFF_SEQ = req.drop OFF_SEQ

/-- An answer that the application takes for the one to its request: it also carries its identifier, and
verifies. -/
structure ValidReply (src dst : IpAddr) (req out : Bytes) : Prop extends Answers (isIpv6 dst) req out where
  reply : isEchoReply out (isIpv6 dst) = true
  id : u16At OFF_ID out = u16At OFF_ID req
  verifies : VerifiesFor dst src out

variable {src dst : IpAddr} {req reply : Bytes} {echo : Echo} {v6 : Bool}

theorem of_parseEchoRequest (h : parseEchoRequest req v6 = some echo) :
    Icmp.HEADER_LEN ≤ req.length ∧ echo.id = u16At OFF_ID req := by
  unfold parseEchoRequest at h
  dsimp only at h
  generalize (if v6 = true then V6_ECHO_REQUEST else V4_ECHO_REQUEST) = want at h
  split at h
  · cases h
  · next hreq =>
    cases h
    exact ⟨Nat.le_of_not_lt fun hlt => hreq (Or.inl hlt), rfl⟩

theorem Answers.length (h : Answers v6 req reply) (hshort : Icmp.HEADER_LEN ≤ req.length) :
    reply.length = req.length := by
  have hdrop := congrArg List.length h.tail
  rw [List.length_drop, List.length_drop] at hdrop
  rw [Icmp.HEADER_LEN] at hshort
  rw [OFF_SEQ] at hdrop
  omega

/-- An answer stays one if its identifier and checksum change. -/
theorem Answers.same {out : Bytes} (h : Answers v6 req reply) (hsame : SameEcho reply out) :
    Answers v6 req out :=
  ⟨hsame.head.trans h.head, hsame.tail.trans h.tail⟩

theorem Answers.isEchoReply (h : Answers v6 req reply) (hshort : Icmp.HEADER_LEN ≤ reply.length) :
    isEchoReply reply v6 = true := by
  have htype : reply[0]? = some (if v6 then V6_ECHO_REPLY else V4_ECHO_REPLY) := by
    have hget : (reply.take OFF_CHECKSUM)[0]? = reply[0]? := List.getElem?_take_of_lt (by decide)
    rw [← hget, h.head]
    rfl
  rw [Icmp.isEchoReply, decide_eq_true hshort]
  simpa [OFF_TYPE] using htype

/-! ## There and back -/

/-- What the client makes of an answer whose identifier the server has restored. -/
theorem relayIcmpEcho_eq {id ck : UInt16} (hfamily : isIpv6 src = isIpv6 dst)
    (hreq : parseEchoRequest req (isIpv6 dst) = some echo) (hlong : req.length ≤ 65535)
    (hanswers : Answers (isIpv6 dst) req reply) (hid : id = echo.id)
    (hverifies : isIpv6 dst = false → Verifies (rewritten reply id ck)) :
    ∃ out, relayIcmpEcho ⟨.ok (), .ok (), some (.ok (rewritten reply id ck))⟩ src dst
        (if isIpv6 dst then IPPROTO_ICMPV6 else IPPROTO_ICMPV4) req = some (.ok out) ∧
      ValidReply src dst req out := by
  obtain ⟨hshort, hecho⟩ := of_parseEchoRequest hreq
  have hlen := hanswers.length hshort
  have hshort' : Icmp.HEADER_LEN ≤ reply.length := hlen.symm ▸ hshort
  have hsame : ∀ ck, SameEcho reply (rewritten reply id ck) := fun ck => sameEcho_rewritten hshort'
  have hreply : ∀ ck, isEchoReply (rewritten reply id ck) (isIpv6 dst) = true := fun ck =>
    (hanswers.same (hsame ck)).isEchoReply ((hsame ck).length.symm ▸ hshort')
  have hvalid : ∀ ck, VerifiesFor dst src (rewritten reply id ck) →
      ValidReply src dst req (rewritten reply id ck) := fun ck hok =>
    ⟨hanswers.same (hsame ck), hreply ck, by rw [id_rewritten hshort', hid, hecho], hok⟩
  have hsome : parseEchoRequest req (isIpv6 dst) ≠ none := by
    rw [hreq]
    nofun
  unfold relayIcmpEcho
  dsimp only
  rw [if_neg (fun h => h rfl), if_neg hsome, hreply ck]
  cases dst with
  | v4 d => exact ⟨_, rfl, hvalid ck (hverifies rfl)⟩
  | v6 d =>
    cases src with
    | v4 s => cases hfamily
    | v6 s =>
      obtain ⟨ck', hset, hok⟩ := setV6Checksum_eq ((hsame ck).length.symm ▸ hshort')
        ((hsame ck).length.symm ▸ hlen.symm ▸ hlong) (octets d) (octets s)
      rw [splice_rewritten hshort'] at hset hok
      refine ⟨rewritten reply id ck', ?_, hvalid ck' ?_⟩
      · show (setV6Checksum _ _ _).bind _ = _
        rw [hset]
        rfl
      · show Verifies (pseudoHeader (octets d) (octets s) _ ++ _)
        rwa [(hsame ck').length, ← (hsame ck).length]

/-- An association that carries one request. The target has got it before it answers, and sends nothing but
answers to it. -/
structure OnePing (v6 : Bool) (req : Bytes)
    (log : List (Taken (MessageRelay (Option UInt16)) RelayAct RelayEvent)) : Prop where
  sent : ∀ t ∈ log, ∀ b, t.act = .streamRecv b → b = req
  answered : ∀ before t after b, log = before ++ t :: after → t.act = .socketRecv b →
    RelayEvent.toTarget req ∈ shown before ∧ Answers v6 req b

/-- What the server delivers of such an association. -/
theorem delivered_ping {log : List (Taken (MessageRelay (Option UInt16)) RelayAct RelayEvent)}
    {r : MessageRelay (Option UInt16)}
    (hrun : Exec (MessageRelay.step (relayIcmp v6)) (MessageRelay.start (relayIcmp v6)) log r)
    (hreq : parseEchoRequest req v6 = some echo) (hlong : req.length ≤ 65535) (hping : OnePing v6 req log) :
    ∀ m ∈ MessageRelay.delivered log, ∃ b ck, Answers v6 req b ∧ m = rewritten b echo.id ck ∧
      (v6 = false → Verifies m) := by
  intro m hm
  have hm : m ∈ MessageRelay.taken (relayIcmp v6) log := by
    have hall := List.mem_append_left (r.downloading.toList.filter MessageRelay.fits) hm
    rw [MessageRelay.delivered_run hrun] at hall
    exact (List.mem_filter.mp hall).1
  obtain ⟨t, ht, htaken⟩ := List.mem_filterMap.mp hm
  split at htaken
  · next b hact =>
    cases htaken
    obtain ⟨before, after, rfl⟩ := List.append_of_mem ht
    obtain ⟨hsent, hanswers⟩ := hping.answered before t after b rfl hact
    have hmemory : t.pre.memory = some echo.id := by
      rcases MessageRelay.memory_run hrun.split.1 with ⟨-, hnone⟩ | ⟨b', ⟨t', ht', hact'⟩, hthrough⟩
      · exact absurd hsent (hnone req)
      · rw [hping.sent t' (List.mem_append_left _ ht') b' hact'] at hthrough
        have hthrough' : (parseEchoRequest req v6).map (fun echo => some echo.id) = some t.pre.memory := hthrough
        rw [hreq] at hthrough'
        exact (Option.some.inj hthrough').symm
    have hshort := (of_parseEchoRequest hreq).1
    have hlen := hanswers.length hshort
    obtain ⟨ck, hck, hverifies⟩ := restoreId_eq v6 echo.id (hlen.symm ▸ hshort)
      (show b.length ≤ RECV_BUF from hlen.symm ▸ hlong)
    have hm : (relayIcmp v6).rewrite t.pre.memory b = rewritten b echo.id ck := by
      show (restoreId v6 t.pre.memory b).getD b = _
      rw [hmemory, hck]
      rfl
    exact ⟨b, ck, hanswers, hm, fun h => hm ▸ hverifies h⟩
  · cases htaken

theorem OnePing.snoc {log : List (Taken (MessageRelay (Option UInt16)) RelayAct RelayEvent)}
    {r : MessageRelay (Option UInt16)} {a : RelayAct} {ev : List RelayEvent} (h : OnePing v6 req log)
    (hsent : ∀ b, a = .streamRecv b → b = req)
    (hanswered : ∀ b, a = .socketRecv b → RelayEvent.toTarget req ∈ shown log ∧ Answers v6 req b) :
    OnePing v6 req (log ++ [⟨r, a, ev⟩]) := by
  refine ⟨fun t ht b hact => ?_, fun before t after b hlog hact => ?_⟩
  · rcases List.mem_append.mp ht with hmem | hlast
    · exact h.sent t hmem b hact
    · rw [List.mem_singleton.mp hlast] at hact
      exact hsent b hact
  · rcases after.eq_nil_or_concat with rfl | ⟨after, last, rfl⟩
    · obtain ⟨rfl, hlast⟩ := List.append_inj' hlog rfl
      cases hlast
      exact hanswered b hact
    · have hlog' : log ++ [⟨r, a, ev⟩] = (before ++ t :: after) ++ [last] := by
        rw [hlog, List.append_assoc, List.cons_append, List.concat_eq_append]
      exact h.answered before t after b (List.append_inj' hlog' rfl).1 hact

/-- Every answer to a request that fits is delivered. -/
theorem exec_ping (hreq : parseEchoRequest req v6 = some echo) (hfits : req.length ≤ MAX_FRAME_PAYLOAD)
    (hanswers : Answers v6 req reply) :
    ∃ log r m, Exec (MessageRelay.step (relayIcmp v6)) (MessageRelay.start (relayIcmp v6)) log r ∧
      OnePing v6 req log ∧ MessageRelay.delivered log = [m] := by
  have hshort := (of_parseEchoRequest hreq).1
  have hlen := hanswers.length hshort
  have hbuf : reply.length ≤ RECV_BUF := hlen ▸ hfits.trans (by decide)
  obtain ⟨ck, hck, -⟩ := restoreId_eq v6 echo.id (hlen.symm ▸ hshort) hbuf
  have hm : (relayIcmp v6).rewrite (some echo.id) reply = rewritten reply echo.id ck := by
    show (restoreId v6 (some echo.id) reply).getD reply = _
    rw [hck]
    rfl
  have hmlen : (rewritten reply echo.id ck).length ≤ MAX_FRAME_PAYLOAD := by
    rw [(sameEcho_rewritten (hlen.symm ▸ hshort)).length, hlen]
    exact hfits
  have hthrough : (relayIcmp v6).letThrough req = some (some echo.id) := by
    show (parseEchoRequest req v6).map _ = _
    rw [hreq]
    rfl
  have h₁ : MessageRelay.step (relayIcmp v6) (MessageRelay.start (relayIcmp v6)) (.streamRecv req) =
      some (⟨some echo.id, some req, none, none⟩, []) := by
    simp [MessageRelay.step, MessageRelay.wait, MessageRelay.start, hthrough]
  have h₂ : MessageRelay.step (relayIcmp v6) ⟨some echo.id, some req, none, none⟩ (.socketSent (some 0)) =
      some (⟨some echo.id, none, none, none⟩, [.toTarget req, .usage 0 0]) := rfl
  have h₃ : MessageRelay.step (relayIcmp v6) ⟨some echo.id, none, none, none⟩ (.socketRecv reply) =
      some (⟨some echo.id, none, some (rewritten reply echo.id ck), none⟩, []) := by
    simp [MessageRelay.step, MessageRelay.wait, hbuf, hm]
  have h₄ : MessageRelay.step (relayIcmp v6) ⟨some echo.id, none, some (rewritten reply echo.id ck), none⟩
      (.streamSent true) = some (⟨some echo.id, none, none, none⟩,
        [.toClient (rewritten reply echo.id ck), .usage 0 (rewritten reply echo.id ck).length]) := by
    simp [MessageRelay.step, MessageRelay.wait, Mux.sendDatagram_eq_ok.mpr ⟨hmlen, rfl⟩]
  have hnil : OnePing v6 req [] :=
    ⟨fun _ ht => absurd ht List.not_mem_nil, fun _ _ _ _ hlog =>
      absurd hlog.symm (List.append_ne_nil_of_right_ne_nil _ (List.cons_ne_nil _ _))⟩
  refine ⟨_, _, rewritten reply echo.id ck, (((Exec.nil.snoc h₁).snoc h₂).snoc h₃).snoc h₄, ?_, rfl⟩
  refine (((hnil.snoc ?_ ?_).snoc ?_ ?_).snoc ?_ ?_).snoc ?_ ?_
  all_goals intro b hact
  all_goals cases hact
  · rfl
  · exact ⟨by simp [shown], hanswers⟩

/-- **Echo messages are rewritten in both directions without a trace**: the setters change identifier and
checksum only and leave a message that verifies, with no overflow and no panic; and every reply of the target
that fits is delivered, up to the one in hand, and what the client writes to the device for it is a reply to
the request, with its identifier, sequence number and data. -/
theorem icmp_rewriting :
    (∀ (msg : Bytes) (id : UInt16), Icmp.HEADER_LEN ≤ msg.length → msg.length ≤ 65535 →
      ∃ m, setId msg id = some (true, m) ∧
        (∃ out, setV4Checksum m = some (true, out) ∧ SameEcho msg out ∧ u16At OFF_ID out = id ∧
          Verifies out) ∧
        ∀ src dst, ∃ out, setV6Checksum m src dst = some (true, out) ∧ SameEcho msg out ∧
          u16At OFF_ID out = id ∧ Verifies (pseudoHeader src dst out.length ++ out)) ∧
    ∀ (target : Str) (src dst : IpAddr) (req : Bytes) (echo : Echo),
      NetAddr.parseIpAddr target = some dst → isIpv6 src = isIpv6 dst →
      parseEchoRequest req (isIpv6 dst) = some echo → req.length ≤ 65535 →
      ∀ log r, Exec (MessageRelay.step (relayIcmp (targetIsIpv6 target)))
          (MessageRelay.start (relayIcmp (targetIsIpv6 target))) log r →
        OnePing (isIpv6 dst) req log →
        MessageRelay.delivered log ++ r.downloading.toList.filter MessageRelay.fits =
            (MessageRelay.taken (relayIcmp (targetIsIpv6 target)) log).filter MessageRelay.fits ∧
          ∀ reply ∈ MessageRelay.delivered log, ∃ out,
            relayIcmpEcho ⟨.ok (), .ok (), some (.ok reply)⟩ src dst
              (if isIpv6 dst then IPPROTO_ICMPV6 else IPPROTO_ICMPV4) req = some (.ok out) ∧
            ValidReply src dst req out := by
  constructor
  · intro msg id hshort hlong
    have hsame : ∀ ck, SameEcho msg (rewritten msg id ck) := fun ck => sameEcho_rewritten hshort
    have hshort' : Icmp.HEADER_LEN ≤ (rewritten msg id 0).length := (hsame 0).length.symm ▸ hshort
    have hlong' : (rewritten msg id 0).length ≤ 65535 := (hsame 0).length.symm ▸ hlong
    refine ⟨_, setId_eq hshort, ?_, fun src dst => ?_⟩
    · obtain ⟨ck, hset, hverifies⟩ := setV4Checksum_eq hshort' hlong'
      rw [splice_rewritten hshort] at hset hverifies
      exact ⟨_, hset, hsame ck, id_rewritten hshort, hverifies⟩
    · obtain ⟨ck, hset, hverifies⟩ := setV6Checksum_eq hshort' hlong' src dst
      rw [splice_rewritten hshort] at hset hverifies
      refine ⟨_, hset, hsame ck, id_rewritten hshort, ?_⟩
      rwa [(hsame ck).length, ← (hsame 0).length]
  · intro target src dst req echo hparse hfamily hreq hlong log r hrun hping
    refine ⟨MessageRelay.delivered_run hrun, fun reply hreply => ?_⟩
    have hv6 : targetIsIpv6 target = isIpv6 dst := by
      rw [targetIsIpv6, hparse]
      cases dst <;> rfl
    rw [hv6] at hrun
    obtain ⟨b, ck, hanswers, rfl, hverifies⟩ := delivered_ping hrun hreq hlong hping reply hreply
    exact relayIcmpEcho_eq hfamily hreq hlong hanswers rfl hverifies

/-- A ping to `1.2.3.4`, with the socket's identifier in what comes back; and the same request under another
identifier. -/
theorem icmp_rewriting_ping :
    (∃ log r reply out,
      Exec (MessageRelay.step (relayIcmp false)) (MessageRelay.start (relayIcmp false)) log r ∧
      MessageRelay.delivered log = [reply] ∧
      relayIcmpEcho ⟨.ok (), .ok (), some (.ok reply)⟩ (.v4 0x0a000002#32) (.v4 0x01020304#32)
        IPPROTO_ICMPV4 [8, 0, 0x7d, 0xca, 0x12, 0x34, 0, 1, 0x68] = some (.ok out) ∧
      ValidReply (.v4 0x0a000002#32) (.v4 0x01020304#32)
        [8, 0, 0x7d, 0xca, 0x12, 0x34, 0, 1, 0x68] out) ∧
    ∃ m out, setId [8, 0, 0x7d, 0xca, 0x12, 0x34, 0, 1, 0x68] 7 = some (true, m) ∧
      setV4Checksum m = some (true, out) ∧ u16At OFF_ID out = 7 ∧ Verifies out := by
  have hv6 : targetIsIpv6 "1.2.3.4".toList = false := by decide
  have hreq : parseEchoRequest [8, 0, 0x7d, 0xca, 0x12, 0x34, 0, 1, 0x68] false = some ⟨0x1234, 1⟩ := by decide
  have hanswers : Answers false [8, 0, 0x7d, 0xca, 0x12, 0x34, 0, 1, 0x68]
      [0, 0, 0, 0, 0xbe, 0xef, 0, 1, 0x68] := ⟨rfl, rfl⟩
  obtain ⟨log, r, reply, hrun, hping, hdelivered⟩ := exec_ping hreq (by decide) hanswers
  obtain ⟨hsetters, hpings⟩ := icmp_rewriting
  obtain ⟨-, hall⟩ := hpings "1.2.3.4".toList (.v4 0x0a000002#32) (.v4 0x01020304#32) _ ⟨0x1234, 1⟩
    (by decide) rfl hreq (by decide) log r (hv6.symm ▸ hrun) hping
  obtain ⟨out, hout, hvalid⟩ := hall reply (hdelivered ▸ List.mem_singleton_self _)
  obtain ⟨m, hset, ⟨out', hset', -, hid, hverifies⟩, -⟩ :=
    hsetters [8, 0, 0x7d, 0xca, 0x12, 0x34, 0, 1, 0x68] 7 (by decide) (by decide)
  exact ⟨⟨log, r, reply, out, hrun, hdelivered, hout, hvalid⟩, m, out', hset, hset', hid, hverifies⟩

end Leshiy.Tun
