import Leshiy.Lib.BigEndian
import Leshiy.Lib.Chunks
import Leshiy.Reality.UdpHeader

/-!
# Accepting a SOCKS5 request

`socks5_accept_ext`, `read_socks_addr` and `socks5_accept` (`leshiy-reality/src/client.rs`). The bytes of the
client arrive in chunks, however the network cuts them. The version byte of the request and the reserved byte
are read and not looked at; neither are the methods that the greeting offers.
-/

namespace Leshiy.Reality.Socks

open Leshiy.Lib Str

/-- Both ends of the client's connection. -/
structure Io where
  /-- What is still to be read, as it arrives. -/
  input : List Bytes
  output : Bytes
  /-- How many bytes more the client takes. -/
  room : Nat

inductive RealityError where
  | io
  | malformed (what : String)
  deriving DecidableEq, Repr

/-- What is written stays written when a later step fails. -/
abbrev Conv := ExceptT RealityError (StateM Io)

/-- `AsyncReadExt::read_exact`. -/
def readExact (n : Nat) : Conv Bytes := fun io =>
  match Lib.readExact n io.input with
  | some (bytes, input) => (.ok bytes, { io with input })
  | none => (.error .io, { io with input := [] })

/-- `AsyncWriteExt::write_all`. -/
def writeAll (bytes : Bytes) : Conv Unit := fun io =>
  let io' := { io with output := io.output ++ bytes.take io.room, room := io.room - bytes.length }
  if bytes.length ≤ io.room then (.ok (), io') else (.error .io, io')

inductive Socks5Cmd where
  | connect (target : String)
  | udpAssociate
  deriving DecidableEq, Repr

/-- The address and its text. -/
def readSocksAddr (atyp : UInt8) : Conv Host :=
  match atyp with
  | 0x01 => do
    let a ← readExact 4
    return .v4 a
  | 0x03 => do
    let l ← readExact 1
    let d ← readExact (beDecode l)
    return .domain (fromUtf8Lossy d)
  | 0x04 => do
    let a ← readExact 16
    return .v6 a
  | _ => throw (.malformed "bad atyp")

def noAuth : Bytes := [0x05, 0x00]

def unsupported : Bytes := [0x05, 0x07, 0x00, 0x01, 0, 0, 0, 0, 0, 0]

def success : Bytes := [0x05, 0x00, 0x00, 0x01, 0, 0, 0, 0, 0, 0]

def socks5AcceptExt : Conv Socks5Cmd := do
  let head ← readExact 2
  if head[0]? ≠ some 0x05 then throw (.malformed "not socks5")
  else
    let _methods ← readExact (beDecode (head.drop 1))
    writeAll noAuth
    let req ← readExact 4
    let cmd := req.getD 1 0
    if cmd ≠ 0x01 ∧ cmd ≠ 0x03 then
      writeAll unsupported
      throw (.malformed "unsupported SOCKS command")
    else
      let host ← readSocksAddr (req.getD 3 0)
      let p ← readExact 2
      if cmd = 0x01 then
        writeAll success
        return .connect (targetText host (beDecode p))
      else return .udpAssociate

/-- What callers use that cannot carry UDP. -/
def socks5Accept : Conv String := do
  match ← socks5AcceptExt with
  | .connect target => return target
  | .udpAssociate => throw (.malformed "only CONNECT supported")

/-! ## What one call does -/

/-- Between the two states these bytes were read and those were written. -/
structure Did (io io' : Io) (read wrote : Bytes) : Prop where
  input : io.input.flatten = read ++ io'.input.flatten
  output : io'.output = io.output ++ wrote
  room : io'.room + wrote.length = io.room

section

variable {α β : Type} {io io' io'' : Io} {b b' w w' rest : Bytes} {n : Nat}

theorem Did.trans (h : Did io io' b w) (h' : Did io' io'' b' w') : Did io io'' (b ++ b') (w ++ w') where
  input := by rw [h.input, h'.input, List.append_assoc]
  output := by rw [h'.output, h.output, List.append_assoc]
  room := by
    have := h.room
    have := h'.room
    rw [List.length_append]
    omega

theorem bind_eq_ok {x : Conv α} {f : α → Conv β} {y : β} :
    (x >>= f) io = (.ok y, io'') ↔ ∃ a io', x io = (.ok a, io') ∧ f a io' = (.ok y, io'') := by
  have hbind : (x >>= f) io = ExceptT.bindCont f (x io).1 (x io).2 := rfl
  rw [hbind]
  rcases x io with ⟨e | a, io'⟩
  · constructor
    · intro h
      cases h
    · rintro ⟨a, io', h, -⟩
      cases h
  · constructor
    · exact fun h => ⟨a, io', rfl, h⟩
    · rintro ⟨a, io', h, h'⟩
      cases h
      exact h'

theorem pure_eq_ok {a b : α} : (pure a : Conv α) io = (.ok b, io') ↔ b = a ∧ io' = io := by
  show ((.ok a, io) : Except RealityError α × Io) = _ ↔ _
  simp [eq_comm]

theorem throw_ne_ok {e : RealityError} {a : α} : (throw e : Conv α) io ≠ (.ok a, io') := by
  intro h
  cases h

theorem readExact_eq_ok (h : readExact n io = (.ok b, io')) : b.length = n ∧ Did io io' b [] := by
  unfold readExact at h
  by_cases hlen : n ≤ io.input.flatten.length
  · obtain ⟨input, hread, hrest⟩ := Lib.readExact_eq_some hlen
    rw [hread] at h
    cases h
    refine ⟨List.length_take_of_le hlen, ?_, (List.append_nil _).symm, rfl⟩
    rw [hrest, List.take_append_drop]
  · rw [Lib.readExact_eq_none (Nat.lt_of_not_le hlen)] at h
    cases h

theorem readExact_ok (hin : io.input.flatten = b ++ rest) :
    ∃ io', readExact b.length io = (.ok b, io') ∧ Did io io' b [] := by
  have hlen : b.length ≤ io.input.flatten.length := by
    rw [hin, List.length_append]
    exact Nat.le_add_right _ _
  obtain ⟨input, hread, hrest⟩ := Lib.readExact_eq_some hlen
  rw [hin, List.take_left] at hread
  rw [hin, List.drop_left] at hrest
  refine ⟨{ io with input }, ?_, ?_, (List.append_nil _).symm, rfl⟩
  · rw [readExact, hread]
  · rw [hin, hrest]

theorem writeAll_eq_ok {u : Unit} (h : writeAll w io = (.ok u, io')) : Did io io' [] w := by
  unfold writeAll at h
  dsimp only at h
  split at h
  · next hroom =>
    cases h
    refine ⟨rfl, ?_, Nat.sub_add_cancel hroom⟩
    rw [List.take_of_length_le hroom]
  · cases h

theorem writeAll_ok (hroom : w.length ≤ io.room) :
    ∃ io', writeAll w io = (.ok (), io') ∧ Did io io' [] w := by
  refine ⟨⟨io.input, io.output ++ w, io.room - w.length⟩, ?_, rfl, rfl, Nat.sub_add_cancel hroom⟩
  rw [writeAll, if_pos hroom, List.take_of_length_le hroom]

end

/-! ## What a client asks for -/

/-- A destination as SOCKS writes it. -/
inductive Dst where
  | v4 (octets : Bytes) (hlen : octets.length = 4)
  | domain (name : Bytes) (hlen : name.length < 256)
  | v6 (octets : Bytes) (hlen : octets.length = 16)

def Dst.atyp : Dst → UInt8
  | .v4 .. => 0x01
  | .domain .. => 0x03
  | .v6 .. => 0x04

def Dst.addr : Dst → Bytes
  | .v4 octets _ | .v6 octets _ => octets
  | .domain name _ => beEncode 1 name.length ++ name

/-- The destination as the server takes it. -/
def Dst.host : Dst → Host
  | .v4 octets _ => .v4 octets
  | .domain name _ => .domain (fromUtf8Lossy name)
  | .v6 octets _ => .v6 octets

/-- All that the client sends. The bytes that the server does not look at may be any. -/
structure Request where
  methods : Bytes
  methods_lt : methods.length < 256
  ver : UInt8
  udp : Bool
  rsv : UInt8
  dst : Dst
  port : UInt16

namespace Request

def cmd (r : Request) : UInt8 := if r.udp then 0x03 else 0x01

def greeting (r : Request) : Bytes := 0x05 :: (beEncode 1 r.methods.length ++ r.methods)

def bytes (r : Request) : Bytes :=
  r.greeting ++ ([r.ver, r.cmd, r.rsv, r.dst.atyp] ++ (r.dst.addr ++ beEncode 2 r.port.toNat))

/-- What the server answers before it hands the connection over. -/
def replies (r : Request) : Bytes := noAuth ++ if r.udp then [] else success

def result (r : Request) : Socks5Cmd :=
  if r.udp then .udpAssociate else .connect (targetText r.dst.host r.port.toNat)

end Request

section

variable {io io' : Io} {atyp : UInt8} {host : Host} {rest : Bytes}

theorem readSocksAddr_eq_ok (h : readSocksAddr atyp io = (.ok host, io')) :
    ∃ dst : Dst, dst.atyp = atyp ∧ dst.host = host ∧ Did io io' dst.addr [] := by
  unfold readSocksAddr at h
  split at h
  · obtain ⟨a, io₁, hread, h⟩ := bind_eq_ok.mp h
    obtain ⟨rfl, rfl⟩ := pure_eq_ok.mp h
    obtain ⟨hlen, hdid⟩ := readExact_eq_ok hread
    exact ⟨.v4 a hlen, rfl, rfl, hdid⟩
  · obtain ⟨l, io₁, hl, h⟩ := bind_eq_ok.mp h
    obtain ⟨d, io₂, hd, h⟩ := bind_eq_ok.mp h
    obtain ⟨rfl, rfl⟩ := pure_eq_ok.mp h
    obtain ⟨hllen, hldid⟩ := readExact_eq_ok hl
    obtain ⟨hdlen, hddid⟩ := readExact_eq_ok hd
    have hlt : d.length < 256 := by
      have := beDecode_lt l
      rwa [hllen, pow_one, ← hdlen] at this
    have hl' : beEncode 1 d.length = l := by rw [hdlen, ← hllen, beEncode_beDecode]
    refine ⟨.domain d hlt, rfl, rfl, ?_⟩
    rw [Dst.addr, hl']
    exact hldid.trans hddid
  · obtain ⟨a, io₁, hread, h⟩ := bind_eq_ok.mp h
    obtain ⟨rfl, rfl⟩ := pure_eq_ok.mp h
    obtain ⟨hlen, hdid⟩ := readExact_eq_ok hread
    exact ⟨.v6 a hlen, rfl, rfl, hdid⟩
  · exact absurd h throw_ne_ok

theorem readSocksAddr_ok (dst : Dst) (hin : io.input.flatten = dst.addr ++ rest) :
    ∃ io', readSocksAddr dst.atyp io = (.ok dst.host, io') ∧ Did io io' dst.addr [] := by
  cases dst with
  | v4 octets hlen =>
    obtain ⟨io', hread, hdid⟩ := readExact_ok hin
    rw [Dst.addr, hlen] at hread
    exact ⟨io', bind_eq_ok.mpr ⟨_, _, hread, rfl⟩, hdid⟩
  | domain name hlen =>
    rw [Dst.addr, List.append_assoc] at hin
    obtain ⟨io₁, hl, hldid⟩ := readExact_ok hin
    rw [hldid.input] at hin
    obtain ⟨io₂, hd, hddid⟩ := readExact_ok (List.append_cancel_left hin)
    rw [length_beEncode] at hl
    have hdec : beDecode (beEncode 1 name.length) = name.length := beDecode_beEncode (by simpa using hlen)
    rw [← hdec] at hd
    exact ⟨io₂, bind_eq_ok.mpr ⟨_, _, hl, bind_eq_ok.mpr ⟨_, _, hd, rfl⟩⟩, hldid.trans hddid⟩
  | v6 octets hlen =>
    obtain ⟨io', hread, hdid⟩ := readExact_ok hin
    rw [Dst.addr, hlen] at hread
    exact ⟨io', bind_eq_ok.mpr ⟨_, _, hread, rfl⟩, hdid⟩

/-- The two bytes of a port are its bytes. -/
theorem port_of_bytes {p : Bytes} (hlen : p.length = 2) :
    ∃ port : UInt16, beDecode p = port.toNat ∧ beEncode 2 port.toNat = p := by
  have hlt : beDecode p < 2 ^ 16 := by
    have := beDecode_lt p
    rwa [hlen] at this
  have hport : (UInt16.ofNat (beDecode p)).toNat = beDecode p := UInt16.toNat_ofNat_of_lt hlt
  refine ⟨UInt16.ofNat (beDecode p), hport.symm, ?_⟩
  rw [hport, ← hlen, beEncode_beDecode]

/-- What is accepted is a request, and no byte after it is taken. -/
theorem socks5AcceptExt_eq_ok {cmd : Socks5Cmd} (h : socks5AcceptExt io = (.ok cmd, io')) :
    ∃ r : Request, r.result = cmd ∧ Did io io' r.bytes r.replies := by
  unfold socks5AcceptExt at h
  obtain ⟨head, io₁, hhead, h⟩ := bind_eq_ok.mp h
  obtain ⟨hlen, hdid⟩ := readExact_eq_ok hhead
  obtain ⟨v, l, rfl⟩ := List.length_eq_two.mp hlen
  split at h
  · exact absurd h throw_ne_ok
  next hv =>
  simp only [List.getElem?_cons_zero, Option.some.injEq, ne_eq, not_not] at hv
  subst hv
  obtain ⟨methods, io₂, hmethods, h⟩ := bind_eq_ok.mp h
  obtain ⟨hmlen, hmdid⟩ := readExact_eq_ok hmethods
  obtain ⟨_, io₃, hnoAuth, h⟩ := bind_eq_ok.mp h
  have hwdid := writeAll_eq_ok hnoAuth
  obtain ⟨req, io₄, hreq, h⟩ := bind_eq_ok.mp h
  obtain ⟨hrlen, hrdid⟩ := readExact_eq_ok hreq
  obtain ⟨ver, c, rsv, atyp, rfl⟩ : ∃ a b c d, req = [a, b, c, d] := by
    match req, hrlen with
    | [a, b, c, d], _ => exact ⟨a, b, c, d, rfl⟩
  split at h
  · obtain ⟨_, _, _, h⟩ := bind_eq_ok.mp h
    exact absurd h throw_ne_ok
  next hc =>
  obtain ⟨host, io₅, hhost, h⟩ := bind_eq_ok.mp h
  obtain ⟨dst, rfl, rfl, hddid⟩ := readSocksAddr_eq_ok hhost
  obtain ⟨p, io₆, hp, h⟩ := bind_eq_ok.mp h
  obtain ⟨hplen, hpdid⟩ := readExact_eq_ok hp
  obtain ⟨port, hport, hpbytes⟩ := port_of_bytes hplen
  have hmlt : methods.length < 256 := by
    have := beDecode_lt [l]
    rwa [← show methods.length = beDecode [l] from hmlen] at this
  have hl : beEncode 1 methods.length = [l] := by
    rw [hmlen]
    exact beEncode_beDecode [l]
  have hall := ((hdid.trans hmdid).trans hwdid).trans ((hrdid.trans hddid).trans hpdid)
  split at h
  · next heq =>
    have hc1 : c = 0x01 := heq
    obtain ⟨_, io₇, hsuccess, h⟩ := bind_eq_ok.mp h
    obtain ⟨rfl, rfl⟩ := pure_eq_ok.mp h
    refine ⟨⟨methods, hmlt, ver, false, rsv, dst, port⟩, ?_, ?_⟩
    · simp [Request.result, hport]
    · have := hall.trans (writeAll_eq_ok hsuccess)
      simpa [Request.bytes, Request.greeting, Request.cmd, Request.replies, hl, hpbytes, hc1] using this
  · next hne =>
    obtain ⟨rfl, rfl⟩ := pure_eq_ok.mp h
    have hc3 : c = 0x03 := by
      by_contra hne3
      exact hc ⟨hne, hne3⟩
    refine ⟨⟨methods, hmlt, ver, true, rsv, dst, port⟩, rfl, ?_⟩
    simpa [Request.bytes, Request.greeting, Request.cmd, Request.replies, hl, hpbytes, hc3] using hall

/-- Where reading has come to. -/
theorem Did.left {read wrote tail : Bytes} (h : Did io io' read wrote)
    (hin : io.input.flatten = read ++ tail) : io'.input.flatten = tail := by
  rw [h.input] at hin
  exact List.append_cancel_left hin

/-- A request is accepted, however it arrives. -/
theorem socks5AcceptExt_ok (r : Request) (hin : io.input.flatten = r.bytes ++ rest)
    (hroom : r.replies.length ≤ io.room) :
    ∃ io', socks5AcceptExt io = (.ok r.result, io') ∧ Did io io' r.bytes r.replies := by
  obtain ⟨methods, hmlt, ver, udp, rsv, dst, port⟩ := r
  obtain ⟨l, hl⟩ : ∃ l, beEncode 1 methods.length = [l] := ⟨_, rfl⟩
  have hdecl : beDecode [l] = methods.length := by
    rw [← hl]
    exact beDecode_beEncode (by simpa using hmlt)
  have hdecp : beDecode (beEncode 2 port.toNat) = port.toNat := beDecode_beEncode port.toNat_lt
  obtain ⟨c, hc⟩ : ∃ c : UInt8, c = if udp then 0x03 else 0x01 := ⟨_, rfl⟩
  have hbytes : io.input.flatten =
      [0x05, l] ++ (methods ++ ([ver, c, rsv, dst.atyp] ++ (dst.addr ++ (beEncode 2 port.toNat ++ rest)))) := by
    rw [hin, hc]
    simp [Request.bytes, Request.greeting, Request.cmd, hl]
  obtain ⟨io₁, hhead, hdid⟩ := readExact_ok hbytes
  obtain ⟨io₂, hmethods, hmdid⟩ := readExact_ok (hdid.left hbytes)
  rw [← hdecl] at hmethods
  have hroom₂ : noAuth.length ≤ io₂.room ∧ (udp = false → noAuth.length + success.length ≤ io₂.room) := by
    have h₁ := hdid.room
    have h₂ := hmdid.room
    simp only [Request.replies, List.length_append, List.length_nil, Nat.add_zero] at hroom h₁ h₂
    rw [← h₁, ← h₂] at hroom
    refine ⟨(Nat.le_add_right _ _).trans hroom, ?_⟩
    rintro rfl
    exact hroom
  obtain ⟨io₃, hnoAuth, hwdid⟩ := writeAll_ok hroom₂.1
  have hin₃ : io₃.input.flatten =
      [ver, c, rsv, dst.atyp] ++ (dst.addr ++ (beEncode 2 port.toNat ++ rest)) :=
    hwdid.left (hmdid.left (hdid.left hbytes))
  obtain ⟨io₄, hreq, hrdid⟩ := readExact_ok hin₃
  obtain ⟨io₅, hhost, hddid⟩ := readSocksAddr_ok dst (hrdid.left hin₃)
  obtain ⟨io₆, hp, hpdid⟩ := readExact_ok (hddid.left (hrdid.left hin₃))
  have hall := ((hdid.trans hmdid).trans hwdid).trans ((hrdid.trans hddid).trans hpdid)
  cases udp with
  | true =>
    have hc3 : c = 0x03 := hc
    refine ⟨io₆, ?_, ?_⟩
    · refine bind_eq_ok.mpr ⟨_, _, hhead, bind_eq_ok.mpr ⟨_, _, hmethods, bind_eq_ok.mpr ⟨_, _, hnoAuth,
        bind_eq_ok.mpr ⟨_, _, hreq, ?_⟩⟩⟩⟩
      rw [if_neg (by simp [hc3])]
      refine bind_eq_ok.mpr ⟨_, _, hhost, bind_eq_ok.mpr ⟨_, _, hp, ?_⟩⟩
      rw [if_neg (by simp [hc3])]
      rfl
    · simpa [Request.bytes, Request.greeting, Request.cmd, Request.replies, hl, hc3] using hall
  | false =>
    have hc1 : c = 0x01 := hc
    have hroom₆ : success.length ≤ io₆.room := by
      have h₃ := hwdid.room
      have h₄ := ((hrdid.trans hddid).trans hpdid).room
      have := hroom₂.2 rfl
      simp only [List.append_nil, List.length_nil] at h₄
      omega
    obtain ⟨io₇, hsuccess, hsdid⟩ := writeAll_ok hroom₆
    refine ⟨io₇, ?_, ?_⟩
    · refine bind_eq_ok.mpr ⟨_, _, hhead, bind_eq_ok.mpr ⟨_, _, hmethods, bind_eq_ok.mpr ⟨_, _, hnoAuth,
        bind_eq_ok.mpr ⟨_, _, hreq, ?_⟩⟩⟩⟩
      rw [if_neg (by simp [hc1])]
      refine bind_eq_ok.mpr ⟨_, _, hhost, bind_eq_ok.mpr ⟨_, _, hp, ?_⟩⟩
      rw [if_pos (by simp [hc1])]
      refine bind_eq_ok.mpr ⟨_, _, hsuccess, ?_⟩
      rw [hdecp]
      rfl
    · simpa [Request.bytes, Request.greeting, Request.cmd, Request.replies, hl, hc1] using hall.trans hsdid

/-- The callers without UDP accept what asks for a CONNECT. -/
theorem socks5Accept_eq_ok {target : String} :
    socks5Accept io = (.ok target, io') ↔ socks5AcceptExt io = (.ok (.connect target), io') := by
  unfold socks5Accept
  constructor
  · intro h
    obtain ⟨cmd, io₁, hext, h⟩ := bind_eq_ok.mp h
    cases cmd with
    | connect target' =>
      obtain ⟨rfl, rfl⟩ := pure_eq_ok.mp h
      exact hext
    | udpAssociate => exact absurd h throw_ne_ok
  · exact fun hext => bind_eq_ok.mpr ⟨_, _, hext, rfl⟩

/-- **What is accepted are requests**, and no byte after one is taken. The client is answered with no byte
more than its request calls for. -/
theorem accepted_iff {cmd : Socks5Cmd} {out : Bytes} :
    (∃ io', socks5AcceptExt io = (.ok cmd, io') ∧ io'.input.flatten = rest ∧ io'.output = io.output ++ out) ↔
      ∃ r : Request, io.input.flatten = r.bytes ++ rest ∧ r.result = cmd ∧ r.replies = out ∧
        r.replies.length ≤ io.room := by
  constructor
  · rintro ⟨io', h, hrest, hout⟩
    obtain ⟨r, hresult, hdid⟩ := socks5AcceptExt_eq_ok h
    refine ⟨r, hrest ▸ hdid.input, hresult, ?_, ?_⟩
    · rw [hdid.output] at hout
      exact List.append_cancel_left hout
    · rw [← hdid.room]
      exact Nat.le_add_left _ _
  · rintro ⟨r, hin, rfl, rfl, hroom⟩
    obtain ⟨io', h, hdid⟩ := socks5AcceptExt_ok r hin hroom
    exact ⟨io', h, hdid.left hin, hdid.output⟩

end

/-! ## What a refused client is told -/

section

variable {α β : Type} {io io' io'' : Io} {e : RealityError}

theorem bind_eq_error {x : Conv α} {f : α → Conv β} (h : (x >>= f) io = (.error e, io'')) :
    x io = (.error e, io'') ∨ ∃ a io', x io = (.ok a, io') ∧ f a io' = (.error e, io'') := by
  have hbind : (x >>= f) io = ExceptT.bindCont f (x io).1 (x io).2 := rfl
  rw [hbind] at h
  rcases hx : x io with ⟨e' | a, io'⟩
  · rw [hx] at h
    cases h
    exact .inl rfl
  · rw [hx] at h
    exact .inr ⟨a, io', rfl, h⟩

theorem readExact_error {n : Nat} (h : readExact n io = (.error e, io')) : io'.output = io.output := by
  unfold readExact at h
  split at h
  · cases h
  · cases h
    rfl

theorem readSocksAddr_error {atyp : UInt8} (h : readSocksAddr atyp io = (.error e, io')) :
    io'.output = io.output := by
  unfold readSocksAddr at h
  split at h
  · rcases bind_eq_error h with h | ⟨a, io₁, -, h⟩
    · exact readExact_error h
    · cases h
  · rcases bind_eq_error h with h | ⟨l, io₁, hl, h⟩
    · exact readExact_error h
    rcases bind_eq_error h with h | ⟨d, io₂, -, h⟩
    · rw [readExact_error h, (readExact_eq_ok hl).2.output, List.append_nil]
    · cases h
  · rcases bind_eq_error h with h | ⟨a, io₁, -, h⟩
    · exact readExact_error h
    · cases h
  · cases h
    rfl

/-- A write that fails has written less than it was to write. -/
theorem writeAll_error {w : Bytes} (h : writeAll w io = (.error e, io')) :
    ∃ k < w.length, io'.output = io.output ++ w.take k := by
  unfold writeAll at h
  dsimp only at h
  split at h
  · cases h
  · next hroom =>
    cases h
    exact ⟨io.room, Nat.lt_of_not_le hroom, rfl⟩

/-- What a client sees that is not accepted: part of the greeting, then that its command is not supported, or
part of the reply for success. -/
inductive Refusal : Bytes → Prop
  | offered {k : Nat} : Refusal (noAuth.take k)
  | notSupported {k : Nat} : Refusal (noAuth ++ unsupported.take k)
  | cutShort {k : Nat} (hk : k < success.length) : Refusal (noAuth ++ success.take k)

theorem Refusal.ne_success {out : Bytes} (h : Refusal out) : out ≠ noAuth ++ success := by
  intro heq
  have hlen := congrArg List.length heq
  cases h with
  | @offered k =>
    rw [List.length_take] at hlen
    simp [noAuth, success] at hlen
    omega
  | @notSupported k =>
    -- the second byte of the reply tells them apart
    have htake := List.append_cancel_left heq
    have hbyte : (unsupported.take k)[1]? = some 0x00 := by rw [htake]; rfl
    rw [List.getElem?_take] at hbyte
    split at hbyte
    · cases hbyte
    · cases hbyte
  | @cutShort k hk =>
    rw [List.length_append, List.length_append, List.length_take] at hlen
    omega

theorem refused (h : socks5AcceptExt io = (.error e, io')) :
    ∃ out, io'.output = io.output ++ out ∧ Refusal out := by
  unfold socks5AcceptExt at h
  rcases bind_eq_error h with h | ⟨head, io₁, hhead, h⟩
  · exact ⟨[], by rw [readExact_error h, List.append_nil], .offered (k := 0)⟩
  have hdid := (readExact_eq_ok hhead).2
  split at h
  · cases h
    exact ⟨[], hdid.output, .offered (k := 0)⟩
  rcases bind_eq_error h with h | ⟨methods, io₂, hmethods, h⟩
  · exact ⟨[], by rw [readExact_error h, hdid.output], .offered (k := 0)⟩
  have hmdid := hdid.trans (readExact_eq_ok hmethods).2
  rcases bind_eq_error h with h | ⟨_, io₃, hnoAuth, h⟩
  · obtain ⟨k, -, hout⟩ := writeAll_error h
    refine ⟨noAuth.take k, ?_, .offered⟩
    rw [hout, hmdid.output, List.append_assoc]
    rfl
  have hwdid := hmdid.trans (writeAll_eq_ok hnoAuth)
  rcases bind_eq_error h with h | ⟨req, io₄, hreq, h⟩
  · exact ⟨noAuth, by rw [readExact_error h, hwdid.output]; rfl, .offered (k := 2)⟩
  have hrdid := hwdid.trans (readExact_eq_ok hreq).2
  dsimp only at h
  split at h
  · rcases bind_eq_error h with h | ⟨_, io₅, hunsupported, h⟩
    · obtain ⟨k, -, hout⟩ := writeAll_error h
      refine ⟨noAuth ++ unsupported.take k, ?_, .notSupported⟩
      rw [hout, hrdid.output, List.append_assoc]
      rfl
    · cases h
      exact ⟨noAuth ++ unsupported, (hrdid.trans (writeAll_eq_ok hunsupported)).output,
        .notSupported (k := 10)⟩
  rcases bind_eq_error h with h | ⟨host, io₅, hhost, h⟩
  · exact ⟨noAuth, by rw [readSocksAddr_error h, hrdid.output]; rfl, .offered (k := 2)⟩
  obtain ⟨dst, -, -, haddr⟩ := readSocksAddr_eq_ok hhost
  have haddr := hrdid.trans haddr
  rcases bind_eq_error h with h | ⟨p, io₆, hp, h⟩
  · exact ⟨noAuth, by rw [readExact_error h, haddr.output]; rfl, .offered (k := 2)⟩
  have hpdid := haddr.trans (readExact_eq_ok hp).2
  split at h
  · rcases bind_eq_error h with h | ⟨_, _, _, h⟩
    · obtain ⟨k, hk, hout⟩ := writeAll_error h
      refine ⟨noAuth ++ success.take k, ?_, .cutShort hk⟩
      rw [hout, hpdid.output, List.append_assoc]
      rfl
    · cases h
  · cases h

/-- **A client is told of success exactly if its CONNECT is accepted.** -/
theorem told_iff (io : Io) :
    (socks5AcceptExt io).2.output = io.output ++ (noAuth ++ success) ↔
      ∃ target, (socks5AcceptExt io).1 = .ok (.connect target) := by
  rcases h : socks5AcceptExt io with ⟨e | cmd, io'⟩
  · obtain ⟨out, hout, hrefusal⟩ := refused h
    constructor
    · intro heq
      rw [hout] at heq
      exact absurd (List.append_cancel_left heq) hrefusal.ne_success
    · rintro ⟨target, h⟩
      cases h
  · obtain ⟨r, rfl, hdid⟩ := socks5AcceptExt_eq_ok h
    dsimp only
    rw [hdid.output]
    constructor
    · intro heq
      have hreplies := List.append_cancel_left (List.append_cancel_left heq)
      cases hudp : r.udp with
      | true => simp [hudp, success] at hreplies
      | false => exact ⟨targetText r.dst.host r.port.toNat, by simp [Request.result, hudp]⟩
    · rintro ⟨target, htarget⟩
      cases hudp : r.udp with
      | true => simp [Request.result, hudp] at htarget
      | false => simp [Request.replies, hudp]

end

end Leshiy.Reality.Socks
