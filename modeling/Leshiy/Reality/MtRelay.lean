import Leshiy.Lib.Run
import Leshiy.Reality.FakeTls
import Leshiy.Reality.Obfs2

/-!
# One session of the MTProxy relay

`serve` of `leshiy-reality/src/mtproxy/relay.rs`, from where it has answered the fake-TLS handshake. It
reads the client's obfuscated2 header, opens the data centre with a handshake of its own, and then passes
bytes both ways, each from one keystream to the other. The two directions run concurrently, each with one
write at a time, and the session is over as soon as one of them is.
-/

namespace Leshiy.Reality.MtProxy

open Leshiy.Lib Leshiy.Tls

/-- Why a session is over: the handshake came to nothing, the client's stream has ended, the data centre's
has, or a read or write has failed. -/
inductive End where
  | refused
  | clientEnded
  | dcEnded
  | failed
  deriving DecidableEq, Repr

/-- Where a session is: it collects the header, opens the data centre (with what came after the header),
writes its hello and these bytes, or relays. -/
inductive Phase where
  | header (buf : Bytes)
  | opening (session : ClientSession) (early : Bytes)
  | greeting (cli tg : Ciphers)
  | relaying (cli tg : Ciphers)
  | finished (why : End)

def Phase.ended : Phase → Option End
  | .finished why => some why
  | _ => none

/-- A session: what the client and the data centre are still going to send, what each has got, and what a
write in progress has still to deliver. -/
structure Session where
  phase : Phase
  incoming : List Bytes
  fromDc : Bytes
  toDc : Bytes
  upPending : Bytes
  toClient : Bytes
  downPending : Bytes

namespace Session

/-- What can happen next: a record for the header; the header takes too long; the data centre is opened,
with the blocks that the generator gives, or cannot be; the hello is out; a record is taken up; some bytes
come down; a write makes progress; the data centre ends its stream; a read or write fails. -/
inductive Act where
  | header
  | expires
  | opens (draws : List (Block 64))
  | unreachable
  | greeted
  | up
  | down (n : Nat)
  | sentUp (k : Nat)
  | sentDown (k : Nat)
  | dcEnds
  | fails

def start (incoming : List Bytes) : Session := ⟨.header [], incoming, [], [], [], [], []⟩

/-- `read_obfs2_header` has got another piece. -/
def collect (sha256 : HashSuite 32) (aes : AesCtr) (secret : Block 16) (buf : Bytes) : Phase :=
  if buf.length < HANDSHAKE_LEN then .header buf
  else
    match acceptClient sha256 aes (Block.ofList 64 buf) secret with
    | none => .finished .refused
    | some session =>
      match dcAddr session.dc with
      | none => .finished .refused
      | some _ => .opening session (buf.drop HANDSHAKE_LEN)

section

variable (sha256 : HashSuite 32) (aes : AesCtr) (secret : Block 16) (dcText : Bytes)

def step (s : Session) : Act → Option (Session × List Empty)
  | .header =>
    match s.phase with
    | .header buf =>
      match readAppData s.incoming with
      | none => some ({ s with phase := .finished .refused }, [])
      | some (b, rest) =>
        some ({ s with phase := collect sha256 aes secret (buf ++ b), incoming := rest }, [])
    | _ => none
  | .expires =>
    match s.phase with
    | .header _ => some ({ s with phase := .finished .refused }, [])
    | _ => none
  | .opens draws =>
    match s.phase, upstream aes draws with
    | .opening session early, some u =>
      let dec := session.ciphers.dec.apply early
      let enc := u.ciphers.enc.apply dec.1
      some ({ s with
        phase := .greeting ⟨dec.2, session.ciphers.enc⟩ ⟨u.ciphers.dec, enc.2⟩
        fromDc := dcEncrypts aes u.hello dcText
        upPending := u.hello.1 ++ enc.1 }, [])
    | _, _ => none
  | .unreachable =>
    match s.phase with
    | .opening .. => some ({ s with phase := .finished .failed }, [])
    | _ => none
  | .greeted =>
    match s.phase with
    | .greeting cli tg => if s.upPending = [] then some ({ s with phase := .relaying cli tg }, []) else none
    | _ => none
  | .up =>
    match s.phase with
    | .relaying cli tg =>
      if s.upPending = [] then
        match readAppData s.incoming with
        | none => some ({ s with phase := .finished .clientEnded }, [])
        | some (b, rest) =>
          let dec := cli.dec.apply b
          let enc := tg.enc.apply dec.1
          some ({ s with
            phase := .relaying { cli with dec := dec.2 } { tg with enc := enc.2 }
            incoming := rest
            upPending := enc.1 }, [])
      else none
    | _ => none
  | .down n =>
    match s.phase with
    | .relaying cli tg =>
      if s.downPending = [] ∧ 0 < n ∧ n ≤ MAX_RECORD_PAYLOAD ∧ n ≤ s.fromDc.length then
        let dec := tg.dec.apply (s.fromDc.take n)
        let enc := cli.enc.apply dec.1
        some ({ s with
          phase := .relaying { cli with enc := enc.2 } { tg with dec := dec.2 }
          fromDc := s.fromDc.drop n
          downPending := writeAppData enc.1 }, [])
      else none
    | _ => none
  | .sentUp k =>
    match s.phase with
    | .greeting .. | .relaying .. =>
      some ({ s with toDc := s.toDc ++ s.upPending.take k, upPending := s.upPending.drop k }, [])
    | _ => none
  | .sentDown k =>
    match s.phase with
    | .relaying .. =>
      some ({ s with
        toClient := s.toClient ++ s.downPending.take k, downPending := s.downPending.drop k }, [])
    | _ => none
  | .dcEnds =>
    match s.phase with
    | .relaying .. =>
      if s.downPending = [] ∧ s.fromDc = [] then some ({ s with phase := .finished .dcEnded }, []) else none
    | _ => none
  | .fails =>
    match s.phase with
    | .greeting .. | .relaying .. => some ({ s with phase := .finished .failed }, [])
    | _ => none

end

/-! ## What the peers make of it -/

section

variable {sha256 : HashSuite 32} {aes : AesCtr}

theorem ofList_append (b : Block 64) (rest : Bytes) : Block.ofList 64 (b.1 ++ rest) = b := by
  apply Subtype.ext
  show ((b.1 ++ rest) ++ List.replicate 64 0).take 64 = b.1
  rw [List.append_assoc, List.take_left' b.2]

theorem dcDecrypts_append (hello : Block 64) (bs : Bytes) :
    dcDecrypts aes (hello.1 ++ bs) = xorAt (dcKs aes hello).1 64 bs := by
  rw [dcDecrypts, ofList_append, List.drop_left' hello.2]

/-- A data centre that has got a part of what was written for it has a part of the text. -/
theorem dcDecrypts_start {hello : Block 64} {wire p : Bytes}
    (h : wire <+: hello.1 ++ xorAt (dcKs aes hello).1 64 p) : dcDecrypts aes wire <+: p := by
  by_cases hlen : wire.length < 64
  · rw [dcDecrypts, List.drop_eq_nil_of_le (Nat.le_of_lt hlen)]
    exact List.nil_prefix
  · have hhello : hello.1 <+: wire :=
      List.prefix_of_prefix_length_le (List.prefix_append _ _) h (by rw [hello.2]; omega)
    obtain ⟨bs, rfl⟩ := hhello
    have hbs := xorAt_prefix (dcKs aes hello).1 ((List.prefix_append_right_inj _).mp h) 64
    rw [xorAt_xorAt] at hbs
    rw [dcDecrypts_append]
    exact hbs

end

section

variable (sha256 : HashSuite 32) (aes : AesCtr) (c : Client) (text dcText : Bytes)

/-- What has been read of the client's stream, and that the rest of it is still to come. -/
def Unread (s : Session) (got : Bytes) : Prop :=
  ∃ data, Carries [] s.incoming.flatten data ∧ got ++ data = c.stream sha256 aes text

/-- Nothing has been written. -/
structure Silent (s : Session) : Prop where
  toDc : s.toDc = []
  toClient : s.toClient = []
  downPending : s.downPending = []

/-- From the client to the data centre: `got` is what has been read behind the header. -/
structure UpInv (s : Session) (hello : Block 64) (dec enc : Ctr) (got : Bytes) : Prop where
  unread : Unread sha256 aes c text s ((c.header sha256 aes).1 ++ got)
  decAt : dec = ⟨(clientKs sha256 aes c.secret c.plain).1, 64 + got.length⟩
  encAt : enc = ⟨(dcKs aes hello).1, 64 + got.length⟩
  sent : s.toDc ++ s.upPending = hello.1 ++
    xorAt (dcKs aes hello).1 64 (xorAt (clientKs sha256 aes c.secret c.plain).1 64 got)

/-- From the data centre to the client: `said` is the part of its text that has been read. -/
structure DownInv (s : Session) (hello : Block 64) (dec enc : Ctr) (said rest : Bytes) : Prop where
  split : dcText = said ++ rest
  left : s.fromDc = xorAt (dcKs aes hello).2 said.length rest
  decAt : dec = ⟨(dcKs aes hello).2, said.length⟩
  encAt : enc = ⟨(clientKs sha256 aes c.secret c.plain).2, said.length⟩
  sent : Carries [] (s.toClient ++ s.downPending)
    (xorAt (clientKs sha256 aes c.secret c.plain).2 0 said)

/-- Both directions of a session that relays. -/
def Flows (s : Session) (cli tg : Ciphers) : Prop :=
  ∃ hello got said rest, UpInv sha256 aes c text s hello cli.dec tg.enc got ∧
    DownInv sha256 aes c dcText s hello tg.dec cli.enc said rest

/-- Each peer has a part of the other's text, and all of it if that is why the session is over. -/
structure Delivered (s : Session) (why : End) : Prop where
  up : dcDecrypts aes s.toDc <+: text
  down : ∀ chunks, chunks.flatten = s.toClient → c.decrypts sha256 aes (readAll chunks) <+: dcText
  allUp : why = .clientEnded → dcDecrypts aes s.toDc = text
  allDown : why = .dcEnded → ∀ chunks, chunks.flatten = s.toClient →
    c.decrypts sha256 aes (readAll chunks) = dcText

def Inv (s : Session) : Prop :=
  match s.phase with
  | .header buf => buf.length < 64 ∧ Unread sha256 aes c text s buf ∧ Silent s
  | .opening session early =>
    session.ciphers = ⟨⟨(clientKs sha256 aes c.secret c.plain).1, 64⟩,
        ⟨(clientKs sha256 aes c.secret c.plain).2, 0⟩⟩ ∧
      Unread sha256 aes c text s ((c.header sha256 aes).1 ++ early) ∧ Silent s
  | .greeting cli tg => Flows sha256 aes c text dcText s cli tg
  | .relaying cli tg => Flows sha256 aes c text dcText s cli tg
  | .finished why => Delivered sha256 aes c text dcText s why

end

section

variable {sha256 : HashSuite 32} {aes : AesCtr} {c : Client} {text dcText : Bytes} {s s' : Session}
  {hello : Block 64} {dec enc : Ctr} {got said rest : Bytes} {why : End} {ev : List Empty}

/-! ## What is delivered -/

theorem UpInv.got_append (h : UpInv sha256 aes c text s hello dec enc got) :
    ∃ data, Carries [] s.incoming.flatten data ∧
      got ++ data = xorAt (clientKs sha256 aes c.secret c.plain).1 64 text := by
  obtain ⟨data, hcarries, hall⟩ := h.unread
  rw [Client.stream, List.append_assoc, List.append_cancel_left_eq] at hall
  exact ⟨data, hcarries, hall⟩

theorem UpInv.delivered (h : UpInv sha256 aes c text s hello dec enc got) :
    dcDecrypts aes s.toDc <+: text := by
  obtain ⟨data, -, hall⟩ := h.got_append
  have hgot : xorAt (clientKs sha256 aes c.secret c.plain).1 64 got <+: text := by
    have hpre := xorAt_prefix (clientKs sha256 aes c.secret c.plain).1 ⟨data, hall⟩ 64
    rwa [xorAt_xorAt] at hpre
  have hwire : s.toDc <+: hello.1 ++ xorAt (dcKs aes hello).1 64
      (xorAt (clientKs sha256 aes c.secret c.plain).1 64 got) := ⟨s.upPending, h.sent⟩
  exact (dcDecrypts_start hwire).trans hgot

/-- The client's stream has been read to its end and written out. -/
theorem UpInv.delivered_all (h : UpInv sha256 aes c text s hello dec enc got)
    (hread : readAppData s.incoming = none) (hpending : s.upPending = []) :
    dcDecrypts aes s.toDc = text := by
  obtain ⟨data, hcarries, hall⟩ := h.got_append
  rcases readAppData_of_carries hcarries rfl with ⟨-, rfl⟩ | ⟨b, chunks', data', hsome, -⟩
  · have hsent := h.sent
    rw [List.append_nil] at hall
    rw [hpending, List.append_nil, hall, xorAt_xorAt] at hsent
    rw [hsent, dcDecrypts_append, xorAt_xorAt]
  · rw [hread] at hsome
    cases hsome

theorem DownInv.delivered (h : DownInv sha256 aes c dcText s hello dec enc said rest) :
    ∀ chunks, chunks.flatten = s.toClient → c.decrypts sha256 aes (readAll chunks) <+: dcText := by
  intro chunks hchunks
  obtain ⟨cut, data, hcarries, hcut, hdata⟩ := h.sent.of_prefix s.toClient (List.prefix_append _ _)
  rw [← hchunks] at hcarries
  rw [readAll_of_carries hcarries hcut]
  have hsaid : said <+: dcText := ⟨rest, h.split.symm⟩
  have hpre := xorAt_prefix (clientKs sha256 aes c.secret c.plain).2 hdata 0
  rw [xorAt_xorAt] at hpre
  exact hpre.trans hsaid

/-- The data centre's stream has been read to its end and written out. -/
theorem DownInv.delivered_all (h : DownInv sha256 aes c dcText s hello dec enc said rest)
    (hleft : s.fromDc = []) (hpending : s.downPending = []) :
    ∀ chunks, chunks.flatten = s.toClient → c.decrypts sha256 aes (readAll chunks) = dcText := by
  intro chunks hchunks
  have hrest : rest = [] := by
    have hlen := congrArg List.length (h.left.symm.trans hleft)
    rw [length_xorAt] at hlen
    exact List.length_eq_zero_iff.mp hlen
  have hcarries := h.sent
  rw [hpending, List.append_nil, ← hchunks] at hcarries
  rw [readAll_of_carries hcarries rfl, Client.decrypts, xorAt_xorAt, h.split, hrest, List.append_nil]

theorem Flows.delivered {cli tg : Ciphers} (h : Flows sha256 aes c text dcText s cli tg) :
    Delivered sha256 aes c text dcText s .failed := by
  obtain ⟨hello, got, said, rest, hu, hd⟩ := h
  exact ⟨hu.delivered, hd.delivered, (fun hw => nomatch hw), (fun hw => nomatch hw)⟩

theorem Flows.delivered_clientEnded {cli tg : Ciphers} (h : Flows sha256 aes c text dcText s cli tg)
    (hread : readAppData s.incoming = none) (hpending : s.upPending = []) :
    Delivered sha256 aes c text dcText s .clientEnded := by
  obtain ⟨hello, got, said, rest, hu, hd⟩ := h
  exact ⟨hu.delivered, hd.delivered, fun _ => hu.delivered_all hread hpending, (fun hw => nomatch hw)⟩

theorem Flows.delivered_dcEnded {cli tg : Ciphers} (h : Flows sha256 aes c text dcText s cli tg)
    (hleft : s.fromDc = []) (hpending : s.downPending = []) :
    Delivered sha256 aes c text dcText s .dcEnded := by
  obtain ⟨hello, got, said, rest, hu, hd⟩ := h
  exact ⟨hu.delivered, hd.delivered, (fun hw => nomatch hw), fun _ => hd.delivered_all hleft hpending⟩

/-- Before anything was written, nothing is delivered. -/
theorem Silent.delivered (h : Silent s) (why : End) (hup : why ≠ .clientEnded)
    (hdown : why ≠ .dcEnded) : Delivered sha256 aes c text dcText s why where
  up := by
    rw [h.toDc]
    exact List.nil_prefix
  down := by
    intro chunks hchunks
    rw [h.toClient] at hchunks
    have hnone : Carries [] chunks.flatten [] := by
      rw [hchunks]
      exact .done
    rw [readAll_of_carries hnone rfl]
    exact List.nil_prefix
  allUp := fun hw => absurd hw hup
  allDown := fun hw => absurd hw hdown

/-- A session that is over delivers nothing more. -/
theorem Delivered.finished (h : Delivered sha256 aes c text dcText s why) :
    Inv sha256 aes c text dcText { s with phase := .finished why } :=
  ⟨h.up, h.down, h.allUp, h.allDown⟩

/-! ## One step -/

theorem Unread.read {b : Bytes} {chunks : List Bytes} (h : Unread sha256 aes c text s got)
    (hread : readAppData s.incoming = some (b, chunks)) (s' : Session) (hs : s'.incoming = chunks) :
    Unread sha256 aes c text s' (got ++ b) := by
  obtain ⟨data, hcarries, hall⟩ := h
  rcases readAppData_of_carries hcarries rfl with ⟨hnone, -⟩ | ⟨b', chunks', data', hsome, rfl, hrest, -⟩
  · cases hnone.symm.trans hread
  · cases hsome.symm.trans hread
    refine ⟨data', ?_, ?_⟩
    · rw [hs]
      exact hrest
    · rw [List.append_assoc]
      exact hall

/-- What is collected is a part of the header, or the client's header and what came after it. -/
theorem collect_of_unread {buf : Bytes} (h : Unread sha256 aes c text s buf) :
    (buf.length < 64 ∧ collect sha256 aes c.secret buf = .header buf) ∨
      ∃ early, buf = (c.header sha256 aes).1 ++ early ∧
        collect sha256 aes c.secret buf = if (dcAddr (i16FromLeBytes c.dcLo c.dcHi)).isSome then
          .opening ⟨⟨⟨(clientKs sha256 aes c.secret c.plain).1, 64⟩,
            ⟨(clientKs sha256 aes c.secret c.plain).2, 0⟩⟩, i16FromLeBytes c.dcLo c.dcHi⟩ early
        else .finished .refused := by
  by_cases hlen : buf.length < HANDSHAKE_LEN
  · exact .inl ⟨hlen, if_pos hlen⟩
  · obtain ⟨data, -, hall⟩ := h
    have hheader : (c.header sha256 aes).1 <+: buf := by
      have hle : (c.header sha256 aes).1.length ≤ buf.length := by
        rw [(c.header sha256 aes).2]
        exact Nat.le_of_not_lt hlen
      refine List.prefix_of_prefix_length_le ?_ (List.prefix_append buf data) hle
      rw [hall]
      exact List.prefix_append _ _
    obtain ⟨early, rfl⟩ := hheader
    have hdrop : ((c.header sha256 aes).1 ++ early).drop HANDSHAKE_LEN = early :=
      List.drop_left' (c.header sha256 aes).2
    refine .inr ⟨early, rfl, ?_⟩
    rw [collect, if_neg hlen, ofList_append, acceptClient_header, hdrop]
    cases haddr : dcAddr (i16FromLeBytes c.dcLo c.dcHi) with
    | none => simp [haddr]
    | some addr => simp [haddr]

theorem inv_collect {buf : Bytes} (h : Unread sha256 aes c text s buf) (hsilent : Silent s) :
    Inv sha256 aes c text dcText { s with phase := collect sha256 aes c.secret buf } := by
  rcases collect_of_unread h with ⟨hlen, hphase⟩ | ⟨early, rfl, hphase⟩
  · rw [hphase]
    exact ⟨hlen, h, hsilent.1, hsilent.2, hsilent.3⟩
  · rw [hphase]
    by_cases hdc : (dcAddr (i16FromLeBytes c.dcLo c.dcHi)).isSome
    · rw [if_pos hdc]
      exact ⟨rfl, h, hsilent.1, hsilent.2, hsilent.3⟩
    · rw [if_neg hdc]
      exact (hsilent.delivered .refused (by decide) (by decide)).finished

/-- A piece of the client's stream goes from the one keystream to the other. -/
theorem UpInv.relay {b : Bytes} {chunks : List Bytes} {p : Phase}
    (h : UpInv sha256 aes c text s hello dec enc got) (hpending : s.upPending = [])
    (hread : readAppData s.incoming = some (b, chunks)) :
    UpInv sha256 aes c text
      { s with phase := p, incoming := chunks, upPending := (enc.apply (dec.apply b).1).1 }
      hello (dec.apply b).2 (enc.apply (dec.apply b).1).2 (got ++ b) where
  unread := by
    rw [← List.append_assoc]
    exact h.unread.read hread _ rfl
  decAt := by
    rw [h.decAt, List.length_append, ← Nat.add_assoc]
    rfl
  encAt := by
    rw [h.decAt, h.encAt]
    simp only [Ctr.apply, length_xorAt, List.length_append, Nat.add_assoc]
  sent := by
    have hsent := h.sent
    rw [hpending, List.append_nil] at hsent
    show s.toDc ++ (enc.apply (dec.apply b).1).1 = _
    rw [hsent, h.decAt, h.encAt, xorAt_append, xorAt_append, length_xorAt]
    simp only [Ctr.apply, List.append_assoc]

/-- A piece of the data centre's stream goes from the one keystream to the other, as a record. -/
theorem DownInv.relay {n : Nat} {p : Phase}
    (h : DownInv sha256 aes c dcText s hello dec enc said rest) (hpending : s.downPending = [])
    (hpos : 0 < n) (hmax : n ≤ MAX_RECORD_PAYLOAD) (hn : n ≤ s.fromDc.length) :
    DownInv sha256 aes c dcText
      { s with
        phase := p
        fromDc := s.fromDc.drop n
        downPending := writeAppData (enc.apply (dec.apply (s.fromDc.take n)).1).1 }
      hello (dec.apply (s.fromDc.take n)).2 (enc.apply (dec.apply (s.fromDc.take n)).1).2
      (said ++ rest.take n) (rest.drop n) := by
  have hlenRest : s.fromDc.length = rest.length := by rw [h.left, length_xorAt]
  have htake : (rest.take n).length = n := by
    rw [List.length_take]
    omega
  have hsplit : s.fromDc = xorAt (dcKs aes hello).2 said.length (rest.take n) ++
      xorAt (dcKs aes hello).2 (said.length + n) (rest.drop n) := by
    rw [h.left]
    conv_lhs => rw [← List.take_append_drop n rest, xorAt_append, htake]
  have hlen : (xorAt (dcKs aes hello).2 said.length (rest.take n)).length = n := by
    rw [length_xorAt, htake]
  have hfront : s.fromDc.take n = xorAt (dcKs aes hello).2 said.length (rest.take n) := by
    rw [hsplit, List.take_left' hlen]
  have hplain : (dec.apply (s.fromDc.take n)).1 = rest.take n := by
    rw [h.decAt, hfront]
    exact xorAt_xorAt _ _
  have hcipher : (enc.apply (dec.apply (s.fromDc.take n)).1).1 =
      xorAt (clientKs sha256 aes c.secret c.plain).2 said.length (rest.take n) := by
    rw [hplain, h.encAt]
    rfl
  refine ⟨?_, ?_, ?_, ?_, ?_⟩
  · rw [List.append_assoc, List.take_append_drop]
    exact h.split
  · show s.fromDc.drop n = _
    rw [hsplit, List.drop_left' hlen, List.length_append, htake]
  · rw [h.decAt, List.length_append, htake]
    simp only [Ctr.apply, hfront, length_xorAt, htake]
  · rw [hplain, h.encAt, List.length_append, htake]
    simp only [Ctr.apply, htake]
  · have hsent := h.sent
    rw [hpending, List.append_nil] at hsent
    have hlen' : (xorAt (clientKs sha256 aes c.secret c.plain).2 said.length (rest.take n)).length = n := by
      rw [length_xorAt, htake]
    have hone := writeAppData_one
      (show xorAt (clientKs sha256 aes c.secret c.plain).2 said.length (rest.take n) ≠ [] from
        List.length_pos_iff.mp (by rw [hlen']; exact hpos)) (by rw [hlen']; exact hmax)
    rw [hcipher, hone, xorAt_append, Nat.zero_add]
    refine hsent.snoc ?_ 0x03 0x03
    show List.length _ ≤ _
    rw [hlen']
    exact Nat.le_trans hmax (by decide)

/-- The data centre is opened: its hello and what came after the client's header are to be written. -/
theorem flows_opens {draws : List (Block 64)} {u : Upstream} {session : ClientSession} {early : Bytes}
    {p : Phase} (hu : upstream aes draws = some u)
    (hsession : session.ciphers = ⟨⟨(clientKs sha256 aes c.secret c.plain).1, 64⟩,
      ⟨(clientKs sha256 aes c.secret c.plain).2, 0⟩⟩)
    (hunread : Unread sha256 aes c text s ((c.header sha256 aes).1 ++ early)) (hsilent : Silent s) :
    Flows sha256 aes c text dcText
      { s with
        phase := p
        fromDc := dcEncrypts aes u.hello dcText
        upPending := u.hello.1 ++ (u.ciphers.enc.apply (session.ciphers.dec.apply early).1).1 }
      ⟨(session.ciphers.dec.apply early).2, session.ciphers.enc⟩
      ⟨u.ciphers.dec, (u.ciphers.enc.apply (session.ciphers.dec.apply early).1).2⟩ := by
  rw [hsession, upstream_ciphers hu]
  refine ⟨u.hello, early, [], dcText, ⟨hunread, rfl, ?_, ?_⟩, ⟨rfl, rfl, rfl, rfl, ?_⟩⟩
  · simp only [Ctr.apply, length_xorAt]
  · show s.toDc ++ _ = _
    rw [hsilent.toDc]
    rfl
  · show Carries [] (s.toClient ++ s.downPending) []
    rw [hsilent.toClient, hsilent.downPending]
    exact .done

/-- The direction to the data centre does not see what the other one does. -/
theorem UpInv.frame (h : UpInv sha256 aes c text s hello dec enc got)
    (hincoming : s'.incoming = s.incoming) (hto : s'.toDc = s.toDc)
    (hpending : s'.upPending = s.upPending) : UpInv sha256 aes c text s' hello dec enc got where
  unread := by
    obtain ⟨data, hcarries, hall⟩ := h.unread
    refine ⟨data, ?_, hall⟩
    rw [hincoming]
    exact hcarries
  decAt := h.decAt
  encAt := h.encAt
  sent := by
    rw [hto, hpending]
    exact h.sent

/-- The direction to the client does not see what the other one does. -/
theorem DownInv.frame (h : DownInv sha256 aes c dcText s hello dec enc said rest)
    (hfrom : s'.fromDc = s.fromDc) (hto : s'.toClient = s.toClient)
    (hpending : s'.downPending = s.downPending) :
    DownInv sha256 aes c dcText s' hello dec enc said rest where
  split := h.split
  left := by
    rw [hfrom]
    exact h.left
  decAt := h.decAt
  encAt := h.encAt
  sent := by
    rw [hto, hpending]
    exact h.sent

section

variable {cli tg : Ciphers}

theorem Flows.withPhase (h : Flows sha256 aes c text dcText s cli tg) (p : Phase) :
    Flows sha256 aes c text dcText { s with phase := p } cli tg := by
  obtain ⟨hello, got, said, rest, hu, hd⟩ := h
  exact ⟨hello, got, said, rest, hu.frame rfl rfl rfl, hd.frame rfl rfl rfl⟩

theorem Flows.sentUp (h : Flows sha256 aes c text dcText s cli tg) (k : Nat) :
    Flows sha256 aes c text dcText
      { s with toDc := s.toDc ++ s.upPending.take k, upPending := s.upPending.drop k } cli tg := by
  obtain ⟨hello, got, said, rest, hu, hd⟩ := h
  refine ⟨hello, got, said, rest, ⟨hu.unread, hu.decAt, hu.encAt, ?_⟩, hd.frame rfl rfl rfl⟩
  show s.toDc ++ s.upPending.take k ++ s.upPending.drop k = _
  rw [List.append_assoc, List.take_append_drop]
  exact hu.sent

theorem Flows.sentDown (h : Flows sha256 aes c text dcText s cli tg) (k : Nat) :
    Flows sha256 aes c text dcText
      { s with toClient := s.toClient ++ s.downPending.take k, downPending := s.downPending.drop k }
      cli tg := by
  obtain ⟨hello, got, said, rest, hu, hd⟩ := h
  refine ⟨hello, got, said, rest, hu.frame rfl rfl rfl, ⟨hd.split, hd.left, hd.decAt, hd.encAt, ?_⟩⟩
  show Carries [] (s.toClient ++ s.downPending.take k ++ s.downPending.drop k) _
  rw [List.append_assoc, List.take_append_drop]
  exact hd.sent

theorem Flows.up {b : Bytes} {chunks : List Bytes} (h : Flows sha256 aes c text dcText s cli tg)
    (hpending : s.upPending = []) (hread : readAppData s.incoming = some (b, chunks)) (p : Phase) :
    Flows sha256 aes c text dcText
      { s with
        phase := p
        incoming := chunks
        upPending := (tg.enc.apply (cli.dec.apply b).1).1 }
      { cli with dec := (cli.dec.apply b).2 } { tg with enc := (tg.enc.apply (cli.dec.apply b).1).2 } := by
  obtain ⟨hello, got, said, rest, hu, hd⟩ := h
  exact ⟨hello, got ++ b, said, rest, hu.relay hpending hread, hd.frame rfl rfl rfl⟩

theorem Flows.down {n : Nat} (h : Flows sha256 aes c text dcText s cli tg) (hpending : s.downPending = [])
    (hpos : 0 < n) (hmax : n ≤ MAX_RECORD_PAYLOAD) (hn : n ≤ s.fromDc.length) (p : Phase) :
    Flows sha256 aes c text dcText
      { s with
        phase := p
        fromDc := s.fromDc.drop n
        downPending := writeAppData (cli.enc.apply (tg.dec.apply (s.fromDc.take n)).1).1 }
      { cli with enc := (cli.enc.apply (tg.dec.apply (s.fromDc.take n)).1).2 }
      { tg with dec := (tg.dec.apply (s.fromDc.take n)).2 } := by
  obtain ⟨hello, got, said, rest, hu, hd⟩ := h
  exact ⟨hello, got, said ++ rest.take n, rest.drop n, hu.frame rfl rfl rfl,
    hd.relay hpending hpos hmax hn⟩

end

theorem Inv.step {a : Act} (h : Inv sha256 aes c text dcText s)
    (hs : s.step sha256 aes c.secret dcText a = some (s', ev)) : Inv sha256 aes c text dcText s' := by
  obtain ⟨phase, incoming, fromDc, toDc, upPending, toClient, downPending⟩ := s
  cases a with simp only [Session.step] at hs
  | header =>
    cases phase with simp only [reduceCtorEq] at hs
    | header buf =>
      obtain ⟨-, hunread, hsilent⟩ := h
      cases hread : readAppData incoming with
      | none =>
        rw [hread] at hs
        cases hs
        exact (hsilent.delivered .refused (by decide) (by decide)).finished
      | some r =>
        obtain ⟨b, chunks⟩ := r
        rw [hread] at hs
        cases hs
        have hnext := hunread.read hread ⟨.header buf, chunks, fromDc, toDc, upPending, toClient,
          downPending⟩ rfl
        exact inv_collect hnext ⟨hsilent.1, hsilent.2, hsilent.3⟩
  | expires =>
    cases phase with simp only [reduceCtorEq] at hs
    | header buf =>
      cases hs
      exact (h.2.2.delivered .refused (by decide) (by decide)).finished
  | opens draws =>
    split at hs
    · next session early u hphase hu =>
      cases hphase
      cases hs
      exact flows_opens hu h.1 h.2.1 h.2.2
    · cases hs
  | unreachable =>
    cases phase with simp only [reduceCtorEq] at hs
    | opening session early =>
      cases hs
      exact (h.2.2.delivered .failed (by decide) (by decide)).finished
  | greeted =>
    cases phase with simp only [reduceCtorEq] at hs
    | greeting cli tg =>
      split at hs
      · cases hs
        exact Flows.withPhase h _
      · cases hs
  | up =>
    cases phase with simp only [reduceCtorEq] at hs
    | relaying cli tg =>
      split at hs
      · next hpending =>
        cases hread : readAppData incoming with
        | none =>
          rw [hread] at hs
          cases hs
          exact (Flows.delivered_clientEnded h hread hpending).finished
        | some r =>
          obtain ⟨b, chunks⟩ := r
          rw [hread] at hs
          cases hs
          exact Flows.up h hpending hread _
      · cases hs
  | down n =>
    cases phase with simp only [reduceCtorEq] at hs
    | relaying cli tg =>
      split at hs
      · next hn =>
        cases hs
        exact Flows.down h hn.1 hn.2.1 hn.2.2.1 hn.2.2.2 _
      · cases hs
  | sentUp k =>
    cases phase with simp only [reduceCtorEq] at hs
    | greeting cli tg =>
      cases hs
      exact Flows.sentUp h k
    | relaying cli tg =>
      cases hs
      exact Flows.sentUp h k
  | sentDown k =>
    cases phase with simp only [reduceCtorEq] at hs
    | relaying cli tg =>
      cases hs
      exact Flows.sentDown h k
  | dcEnds =>
    cases phase with simp only [reduceCtorEq] at hs
    | relaying cli tg =>
      split at hs
      · next hend =>
        cases hs
        exact (Flows.delivered_dcEnded h hend.2 hend.1).finished
      · cases hs
  | fails =>
    cases phase with simp only [reduceCtorEq] at hs
    | greeting cli tg =>
      cases hs
      exact (Flows.delivered h).finished
    | relaying cli tg =>
      cases hs
      exact (Flows.delivered h).finished

/-! ## Runs -/

theorem inv_start {incoming : List Bytes}
    (hcarries : Carries [] incoming.flatten (c.stream sha256 aes text)) :
    Inv sha256 aes c text dcText (start incoming) :=
  ⟨by decide, ⟨_, hcarries, rfl⟩, rfl, rfl, rfl⟩

theorem inv_run {incoming : List Bytes} {log : List (Taken Session Act Empty)}
    (hcarries : Carries [] incoming.flatten (c.stream sha256 aes text))
    (h : Exec (step sha256 aes c.secret dcText) (start incoming) log s) :
    Inv sha256 aes c text dcText s :=
  h.state_inv (inv_start hcarries) fun _ _ _ _ hi hs => hi.step hs

theorem Inv.reached (h : Inv sha256 aes c text dcText s)
    (hr : Reaches (Session.step sha256 aes c.secret dcText) s s') : Inv sha256 aes c text dcText s' := by
  obtain ⟨log, hrun⟩ := hr
  exact hrun.state_inv h fun _ _ _ _ hi hs => hi.step hs

theorem Inv.delivered (h : Inv sha256 aes c text dcText s) : dcDecrypts aes s.toDc <+: text ∧
    ∀ chunks, chunks.flatten = s.toClient → c.decrypts sha256 aes (readAll chunks) <+: dcText := by
  obtain ⟨phase, incoming, fromDc, toDc, upPending, toClient, downPending⟩ := s
  cases phase with
  | header buf =>
    have hd : Delivered sha256 aes c text dcText _ .refused := h.2.2.delivered _ (by decide) (by decide)
    exact ⟨hd.up, hd.down⟩
  | opening session early =>
    have hd : Delivered sha256 aes c text dcText _ .refused := h.2.2.delivered _ (by decide) (by decide)
    exact ⟨hd.up, hd.down⟩
  | greeting cli tg =>
    have hflows : Flows sha256 aes c text dcText _ cli tg := h
    exact ⟨hflows.delivered.up, hflows.delivered.down⟩
  | relaying cli tg =>
    have hflows : Flows sha256 aes c text dcText _ cli tg := h
    exact ⟨hflows.delivered.up, hflows.delivered.down⟩
  | finished why => exact ⟨Delivered.up h, Delivered.down h⟩

/-! ## A session can go on to its end -/

/-- What is pending for the data centre is written. -/
theorem reaches_sentUp {cli tg : Ciphers} (hphase : s.phase = .greeting cli tg ∨ s.phase = .relaying cli tg) :
    Reaches (step sha256 aes c.secret dcText) s
      { s with toDc := s.toDc ++ s.upPending, upPending := [] } := by
  have hsent : s.step sha256 aes c.secret dcText (.sentUp s.upPending.length) =
      some ({ s with toDc := s.toDc ++ s.upPending, upPending := [] }, []) := by
    rcases hphase with hphase | hphase
    · simp [step, hphase]
    · simp [step, hphase]
  exact Reaches.refl.snoc hsent

/-- What is pending for the client is written. -/
theorem reaches_sentDown {cli tg : Ciphers} (hphase : s.phase = .relaying cli tg) :
    Reaches (step sha256 aes c.secret dcText) s
      { s with toClient := s.toClient ++ s.downPending, downPending := [] } := by
  have hsent : s.step sha256 aes c.secret dcText (.sentDown s.downPending.length) =
      some ({ s with toClient := s.toClient ++ s.downPending, downPending := [] }, []) := by
    simp [step, hphase]
  exact Reaches.refl.snoc hsent

theorem reaches_relaying_of_greeting {cli tg : Ciphers} (hphase : s.phase = .greeting cli tg) :
    ∃ s' cli tg, Reaches (step sha256 aes c.secret dcText) s s' ∧ s'.phase = .relaying cli tg := by
  have hgreeted : { s with toDc := s.toDc ++ s.upPending, upPending := [] }.step sha256 aes c.secret
      dcText .greeted = some ({ s with
        phase := .relaying cli tg, toDc := s.toDc ++ s.upPending, upPending := [] }, []) := by
    simp [step, hphase]
  exact ⟨_, cli, tg, (reaches_sentUp (.inl hphase)).snoc hgreeted, rfl⟩

theorem reaches_relaying_of_opening {session : ClientSession} {early : Bytes}
    (hphase : s.phase = .opening session early) :
    ∃ s' cli tg, Reaches (step sha256 aes c.secret dcText) s s' ∧ s'.phase = .relaying cli tg := by
  have hdraw : (upstream aes [Block.fill 64 1]).isSome := by
    rw [upstream, Option.isSome_map]
    decide
  obtain ⟨u, hu⟩ := Option.isSome_iff_exists.mp hdraw
  have hopens : ∃ s₁ cli tg, s.step sha256 aes c.secret dcText (.opens [Block.fill 64 1]) =
      some (s₁, []) ∧ s₁.phase = .greeting cli tg := by
    simp [step, hphase, hu]
  obtain ⟨s₁, cli, tg, hs₁, hphase₁⟩ := hopens
  obtain ⟨s', cli', tg', hreach, hphase'⟩ := reaches_relaying_of_greeting hphase₁
  exact ⟨s', cli', tg', (Reaches.refl.snoc hs₁).trans hreach, hphase'⟩

/-- Records are collected until the header is there. -/
theorem reaches_relaying_of_header (hdc : (dcAddr (i16FromLeBytes c.dcLo c.dcHi)).isSome) :
    ∀ (n : Nat) (s : Session) (buf : Bytes), s.phase = .header buf →
      s.incoming.flatten.length = n → buf.length < 64 → Unread sha256 aes c text s buf →
      ∃ s' cli tg, Reaches (step sha256 aes c.secret dcText) s s' ∧ s'.phase = .relaying cli tg := by
  intro n
  induction n using Nat.strong_induction_on with
  | _ n ih =>
    intro s buf hphase hn hlen hunread
    obtain ⟨data, hcarries, hall⟩ := hunread
    rcases readAppData_of_carries hcarries rfl with ⟨-, rfl⟩ | ⟨b, chunks, data', hsome, -, -, hlt⟩
    · -- the stream has a whole header
      have hlenAll := congrArg List.length hall
      rw [Client.stream, List.length_append, List.length_append, (c.header sha256 aes).2] at hlenAll
      simp only [List.length_nil] at hlenAll
      omega
    · have hstep : s.step sha256 aes c.secret dcText .header =
          some ({ s with phase := collect sha256 aes c.secret (buf ++ b), incoming := chunks }, []) := by
        simp [step, hphase, hsome]
      have hnext : Unread sha256 aes c text
          { s with phase := collect sha256 aes c.secret (buf ++ b), incoming := chunks } (buf ++ b) :=
        Unread.read ⟨data, hcarries, hall⟩ hsome _ rfl
      rcases collect_of_unread hnext with ⟨hlen', hphase'⟩ | ⟨early, -, hphase'⟩
      · obtain ⟨s', cli, tg, hreach, hrelaying⟩ :=
          ih chunks.flatten.length (hn ▸ hlt) _ _ hphase' rfl hlen' hnext
        exact ⟨s', cli, tg, (Reaches.refl.snoc hstep).trans hreach, hrelaying⟩
      · rw [if_pos hdc] at hphase'
        obtain ⟨s', cli, tg, hreach, hrelaying⟩ := reaches_relaying_of_opening (s := { s with
          phase := collect sha256 aes c.secret (buf ++ b), incoming := chunks }) hphase'
        exact ⟨s', cli, tg, (Reaches.refl.snoc hstep).trans hreach, hrelaying⟩

theorem reaches_relaying (hdc : (dcAddr (i16FromLeBytes c.dcLo c.dcHi)).isSome)
    (h : Inv sha256 aes c text dcText s) (hover : ∀ why, s.phase ≠ .finished why) :
    ∃ s' cli tg, Reaches (step sha256 aes c.secret dcText) s s' ∧ s'.phase = .relaying cli tg := by
  cases hphase : s.phase with
  | header buf =>
    simp only [Inv, hphase] at h
    exact reaches_relaying_of_header hdc _ s buf hphase rfl h.1 h.2.1
  | opening session early => exact reaches_relaying_of_opening hphase
  | greeting cli tg => exact reaches_relaying_of_greeting hphase
  | relaying cli tg => exact ⟨s, cli, tg, .refl, hphase⟩
  | finished why => exact absurd hphase (hover why)

/-- Whatever has been read of the client's stream, the rest of it can be relayed. -/
theorem reaches_clientEnded : ∀ (n : Nat) (s : Session) (cli tg : Ciphers), s.phase = .relaying cli tg →
    s.incoming.flatten.length = n → Inv sha256 aes c text dcText s →
    ∃ s', Reaches (step sha256 aes c.secret dcText) s s' ∧ s'.phase = .finished .clientEnded := by
  intro n
  induction n using Nat.strong_induction_on with
  | _ n ih =>
    intro s cli tg hphase hn hi
    have hsent : Reaches (step sha256 aes c.secret dcText) s _ := reaches_sentUp (.inr hphase)
    have hflows := hi
    simp only [Inv, hphase] at hflows
    obtain ⟨hello, got, said, rest, hu, -⟩ := hflows
    obtain ⟨data, hcarries, -⟩ := hu.unread
    rcases readAppData_of_carries hcarries rfl with ⟨hnone, -⟩ | ⟨b, chunks, data', hsome, -, -, hlt⟩
    · have hup : { s with toDc := s.toDc ++ s.upPending, upPending := [] }.step sha256 aes c.secret
          dcText .up = some ({ s with
            phase := .finished .clientEnded, toDc := s.toDc ++ s.upPending, upPending := [] }, []) := by
        simp [step, hphase, hnone]
      exact ⟨_, hsent.snoc hup, rfl⟩
    · have hup : ∃ s₂ cli' tg', { s with toDc := s.toDc ++ s.upPending, upPending := [] }.step sha256 aes
          c.secret dcText .up = some (s₂, []) ∧ s₂.phase = .relaying cli' tg' ∧ s₂.incoming = chunks := by
        simp [step, hphase, hsome]
      obtain ⟨s₂, cli', tg', hs₂, hphase₂, hincoming⟩ := hup
      have hreach₂ := hsent.snoc hs₂
      obtain ⟨s', hreach, hend⟩ := ih s₂.incoming.flatten.length (by rw [hincoming, ← hn]; exact hlt) s₂
        cli' tg' hphase₂ rfl (hi.reached hreach₂)
      exact ⟨s', hreach₂.trans hreach, hend⟩

/-- Whatever has been read of the data centre's stream, the rest of it can be relayed. -/
theorem reaches_dcEnded : ∀ (n : Nat) (s : Session) (cli tg : Ciphers), s.phase = .relaying cli tg →
    s.fromDc.length = n →
    ∃ s', Reaches (step sha256 aes c.secret dcText) s s' ∧ s'.phase = .finished .dcEnded := by
  intro n
  induction n using Nat.strong_induction_on with
  | _ n ih =>
    intro s cli tg hphase hn
    have hsent : Reaches (step sha256 aes c.secret dcText) s _ := reaches_sentDown hphase
    by_cases hnil : s.fromDc = []
    · have hends : { s with toClient := s.toClient ++ s.downPending, downPending := [] }.step sha256 aes
          c.secret dcText .dcEnds = some ({ s with
            phase := .finished .dcEnded, toClient := s.toClient ++ s.downPending, downPending := [] }, []) := by
        simp [step, hphase, hnil]
      exact ⟨_, hsent.snoc hends, rfl⟩
    · have hpos : 0 < s.fromDc.length := List.length_pos_iff.mpr hnil
      -- the relay reads as much as fits its buffer
      have hmin : 0 < min MAX_RECORD_PAYLOAD s.fromDc.length :=
        Nat.lt_min.mpr ⟨by decide, hpos⟩
      have hdown : ∃ s₂ cli' tg', { s with toClient := s.toClient ++ s.downPending, downPending := [] }.step
          sha256 aes c.secret dcText (.down (min MAX_RECORD_PAYLOAD s.fromDc.length)) = some (s₂, []) ∧
          s₂.phase = .relaying cli' tg' ∧
          s₂.fromDc = s.fromDc.drop (min MAX_RECORD_PAYLOAD s.fromDc.length) := by
        simp [step, hphase, hmin]
      obtain ⟨s₂, cli', tg', hs₂, hphase₂, hfrom⟩ := hdown
      have hlt : s₂.fromDc.length < n := by
        rw [hfrom, List.length_drop]
        omega
      obtain ⟨s', hreach, hend⟩ := ih s₂.fromDc.length hlt s₂ cli' tg' hphase₂ rfl
      exact ⟨s', (hsent.snoc hs₂).trans hreach, hend⟩

/-- A session that is over relays nothing more. -/
theorem step_finished (hphase : s.phase = .finished why) (a : Act) :
    s.step sha256 aes c.secret dcText a = none := by
  cases a with
  | header | expires | opens | unreachable | greeted | up | down | sentUp | sentDown | dcEnds | fails =>
    simp only [step, hphase]

/-- **The relay is transparent.** However the client's stream is cut into records, and whenever one looks,
each peer decrypts the start of what the other has sent, in order; it is all of it if the session is over
because that stream has ended. A session that is over relays nothing more, and one that is not can get to
either end. -/
theorem relay_transparent {incoming : List Bytes} {log : List (Taken Session Act Empty)}
    (hcarries : Carries [] incoming.flatten (c.stream sha256 aes text))
    (h : Exec (step sha256 aes c.secret dcText) (start incoming) log s) :
    dcDecrypts aes s.toDc <+: text ∧
      (∀ chunks, chunks.flatten = s.toClient → c.decrypts sha256 aes (readAll chunks) <+: dcText) ∧
      (s.phase = .finished .clientEnded → dcDecrypts aes s.toDc = text) ∧
      (s.phase = .finished .dcEnded → ∀ chunks, chunks.flatten = s.toClient →
        c.decrypts sha256 aes (readAll chunks) = dcText) ∧
      (∀ why, s.phase = .finished why → ∀ a, s.step sha256 aes c.secret dcText a = none) ∧
      ((dcAddr (i16FromLeBytes c.dcLo c.dcHi)).isSome → s.phase.ended = none →
        (∃ s', Reaches (step sha256 aes c.secret dcText) s s' ∧ s'.phase = .finished .clientEnded) ∧
          ∃ s', Reaches (step sha256 aes c.secret dcText) s s' ∧ s'.phase = .finished .dcEnded) := by
  have hi := inv_run hcarries h
  obtain ⟨hup, hdown⟩ := hi.delivered
  refine ⟨hup, hdown, ?_, ?_, fun _ hphase => step_finished hphase, ?_⟩
  · intro hphase
    simp only [Inv, hphase] at hi
    exact hi.allUp rfl
  · intro hphase
    simp only [Inv, hphase] at hi
    exact hi.allDown rfl
  · intro hdc hphase
    have hover : ∀ why, s.phase ≠ .finished why := by
      intro why hwhy
      rw [hwhy] at hphase
      cases hphase
    obtain ⟨s₁, cli, tg, hreach, hrelaying⟩ := reaches_relaying hdc hi hover
    obtain ⟨s₂, hreach₂, hend₂⟩ := reaches_clientEnded _ s₁ cli tg hrelaying rfl (hi.reached hreach)
    obtain ⟨s₃, hreach₃, hend₃⟩ : ∃ s', Reaches (step sha256 aes c.secret dcText) s₁ s' ∧
        s'.phase = .finished .dcEnded := reaches_dcEnded _ s₁ cli tg hrelaying rfl
    exact ⟨⟨s₂, hreach.trans hreach₂, hend₂⟩, ⟨s₃, hreach.trans hreach₃, hend₃⟩⟩

end

/-! ## A session at work -/

/-- A keystream that depends on the key, the nonce and the position. -/
def mixed : AesCtr := fun key iv pos =>
  key.1.getD (pos % 32) 0 ^^^ iv.1.getD (pos % 16) 0 ^^^ UInt8.ofNat (3 * pos + 1)

/-- A client of data centre 2. -/
def someClient : Client := ⟨Block.fill 16 0x42, Block.fill 56 0x5a, 2, 0, Block.fill 2 0⟩

/-- Its stream for a text, in records: a ChangeCipherSpec, ten bytes, an empty record, another
ChangeCipherSpec, then the rest of the header with a byte of the text, then the rest. -/
def someRecords (text : Bytes) : List Record :=
  let stream := someClient.stream (.start 32) mixed text
  [⟨CHANGE_CIPHER_SPEC, [1]⟩, ⟨APPLICATION_DATA, stream.take 10⟩, ⟨APPLICATION_DATA, []⟩,
    ⟨CHANGE_CIPHER_SPEC, [1]⟩, ⟨APPLICATION_DATA, (stream.drop 10).take 55⟩,
    ⟨APPLICATION_DATA, stream.drop 65⟩]

def someWire (text : Bytes) : Bytes := (someRecords text).flatMap fun r => r.withVersion 0x03 0x03

theorem carries_someWire :
    Carries [] (someWire [1, 2, 3]) (someClient.stream (.start 32) mixed [1, 2, 3]) :=
  .changeCipherSpec 0x03 0x03 (show [1].length ≤ _ by decide)
    (.appData 0x03 0x03
      (show ((someClient.stream (.start 32) mixed [1, 2, 3]).take 10).length ≤ _ by decide)
    (.appData 0x03 0x03 (show [].length ≤ _ by decide)
    (.changeCipherSpec 0x03 0x03 (show [1].length ≤ _ by decide)
    (.appData 0x03 0x03
      (show (((someClient.stream (.start 32) mixed [1, 2, 3]).drop 10).take 55).length ≤ _ by decide)
    (.appData 0x03 0x03
      (show ((someClient.stream (.start 32) mixed [1, 2, 3]).drop 65).length ≤ _ by decide)
      .done)))))

theorem finished_of_ended {p : Phase} {why : End} (h : p.ended = some why) : p = .finished why := by
  cases p with
  | finished why' => rw [Option.some.inj h]
  | header | opening | greeting | relaying => cases h

/-- The stream is cut once more on its way, the first nonce is reserved, and writes go out in parts; the
data centre reads all of the text, and the client what was sent until then. -/
theorem relay_transparent_cut : ∃ log s,
    Exec (step (.start 32) mixed someClient.secret [9, 8, 7])
      (start [(someWire [1, 2, 3]).take 7, (someWire [1, 2, 3]).drop 7]) log s ∧
    s.phase = .finished .clientEnded ∧ dcDecrypts mixed s.toDc = [1, 2, 3] ∧
    someClient.decrypts (.start 32) mixed (readAll [s.toClient]) = [9, 8] ∧
    someClient.decrypts (.start 32) mixed (readAll [s.toClient]) <+: [9, 8, 7] := by
  obtain ⟨log, s, h, hended, hgot⟩ := exec_reaches (step (.start 32) mixed someClient.secret [9, 8, 7])
    (start [(someWire [1, 2, 3]).take 7, (someWire [1, 2, 3]).drop 7])
    [.header, .header, .header, .opens [Block.fill 64 0xef, Block.fill 64 1], .sentUp 30, .sentUp 40,
      .greeted, .down 2, .up, .sentDown 3, .sentUp 9, .sentDown 9, .up]
    (fun _ s => s.phase.ended = some .clientEnded ∧
      someClient.decrypts (.start 32) mixed (readAll [s.toClient]) = [9, 8]) (by decide +kernel)
  have hflat : [(someWire [1, 2, 3]).take 7, (someWire [1, 2, 3]).drop 7].flatten = someWire [1, 2, 3] := by
    rw [List.flatten_cons, List.flatten_cons, List.flatten_nil, List.append_nil, List.take_append_drop]
  have hcarries := carries_someWire
  rw [← hflat] at hcarries
  have hall := relay_transparent hcarries h
  have hphase := finished_of_ended hended
  exact ⟨log, s, h, hphase, hall.2.2.1 hphase, hgot, hall.2.1 [s.toClient] (List.append_nil _)⟩

/-- The client ends its stream while the answer is on its way: the session is over, and the client does
not get it. -/
theorem answer_cut_off : ¬ ∀ (sha256 : HashSuite 32) (aes : AesCtr) (c : Client) (text dcText : Bytes)
    (incoming : List Bytes) (log : List (Taken Session Act Empty)) (s : Session),
    Carries [] incoming.flatten (c.stream sha256 aes text) →
    Exec (step sha256 aes c.secret dcText) (start incoming) log s →
    s.phase = .finished .clientEnded ∨ s.phase = .finished .dcEnded →
    dcDecrypts aes s.toDc = text ∧ ∀ chunks, chunks.flatten = s.toClient →
      c.decrypts sha256 aes (readAll chunks) = dcText := by
  intro hclaim
  obtain ⟨log, s, h, hended, hgot⟩ := exec_reaches (step (.start 32) mixed someClient.secret [9, 8, 7])
    (start [someWire [1, 2, 3]])
    [.header, .header, .header, .opens [Block.fill 64 1], .sentUp 65, .greeted, .up, .sentUp 2, .up]
    (fun _ s => s.phase.ended = some .clientEnded ∧ s.toClient = []) (by decide +kernel)
  have hcarries : Carries [] [someWire [1, 2, 3]].flatten
      (someClient.stream (.start 32) mixed [1, 2, 3]) := by
    rw [List.flatten_cons, List.flatten_nil, List.append_nil]
    exact carries_someWire
  have hall := hclaim _ _ _ _ _ _ log s hcarries h (.inl (finished_of_ended hended))
  have hnone := hall.2 [] (by rw [hgot]; rfl)
  exact absurd hnone (by decide)

end Session

end Leshiy.Reality.MtProxy
