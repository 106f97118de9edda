import Leshiy.Lib.Run
import Leshiy.Reality.Classify
import Leshiy.Reality.Replay
import Leshiy.Tls.Record

/-!
# One connection

`serve_connection` (`leshiy-reality/src/server.rs`) up to the point where it takes a connection over:
read the first record, dial the borrowed site, write the record there again, and decide whether to
relay everything else or to take over. The MAC check of MTProxy clients is
`leshiy-reality/src/mtproxy/faketls.rs`.
-/

namespace Leshiy.Reality

open Leshiy.Lib Leshiy.Tls

/-! ## MTProxy hellos -/

/-- `faketls::authenticate`: the random is the MAC of the record with the random zeroed, its last
four bytes exclusive or the client's time. -/
def authenticate (sha256 : HashSuite 32) (chPayload : Bytes) (secret : Block 16) (nowSecs : UInt32)
    (maxSkew : Duration) : Option (Block 32) :=
  if 2 ^ 16 ≤ chPayload.length then none
  else
    let msg := [HANDSHAKE, 0x03, 0x01] ++ (beEncode 2 chPayload.length ++ chPayload)
    if msg.length < 43 then none
    else
      let digest := Block.ofList 32 ((msg.take 43).drop 11)
      let mac := sha256.hmac secret.1 (msg.take 11 ++ (List.replicate 32 0 ++ msg.drop 43))
      let macOk := mac.1.take 28 = digest.1.take 28
      let ts := List.zipWith (· ^^^ ·) (digest.1.drop 28) (mac.1.drop 28)
      -- The time is little-endian.
      let skewOk := absDiff nowSecs (u32FromBeBytes ts.reverse) ≤ maxSkew.asSecs
      if macOk ∧ skewOk then some digest else none

/-! ## The decision -/

/-- What becomes of a connection whose first record was forwarded. `L` is what the user store says
about a user it lets in. -/
inductive Verdict (L : Type) where
  | relay
  | mtproxy (digest : Block 32)
  | takeOver (shortId : Block 8) (authKey : Block 32) (limits : L)

/-- A verdict, the guard behind it and what the guard was asked and said, if it was. -/
structure Decision (L : Type) where
  verdict : Verdict L
  guard : ReplayGuard
  asked : Option (Key × Bool)

section

variable {L : Type} (sha256 : HashSuite 32) (aes256Gcm : Aead (Block 32) (Block 12))
  (x25519 : KeyAgreement (Block 32) (Block 32) (Block 32)) (cfg : ServerAuthConfig)

/-- The check of the user store, behind the guard. -/
def admitUser (authorize : Block 8 → Nat → Option L) (shortId : Block 8) (authKey : Block 32)
    (nowSecs : UInt32) : Verdict L :=
  match authorize shortId nowSecs.toNat with
  | none => .relay
  | some limits => .takeOver shortId authKey limits

/-- Step 3 of `serve_connection`, for the payload of the first record. -/
def decideFirst (authorize : Block 8 → Nat → Option L) (guard : ReplayGuard) (payload : Bytes)
    (nowSecs : UInt32) : Decision L :=
  match extractClientHelloFields payload with
  | .error _ => ⟨.relay, guard, none⟩
  | .ok fields =>
    match classifyFull sha256 aes256Gcm x25519 payload cfg nowSecs with
    | .unauthed =>
      match cfg.mtproxy.bind fun secret =>
        authenticate sha256 payload secret nowSecs cfg.maxTimeDiff with
      | none => ⟨.relay, guard, none⟩
      | some digest =>
        match replayKey digest.1 fields.sessionId with
        | none => ⟨.relay, guard, none⟩
        | some key =>
          let (replay, guard) := guard.checkAndRecord key nowSecs.toNat
          ⟨if replay then .relay else .mtproxy digest, guard, some (key, replay)⟩
    | .authed shortId _ authKey =>
      match replayKey fields.random.1 fields.sessionId with
      | none => ⟨admitUser authorize shortId authKey nowSecs, guard, none⟩
      | some key =>
        let (replay, guard) := guard.checkAndRecord key nowSecs.toNat
        ⟨if replay then .relay else admitUser authorize shortId authKey nowSecs, guard,
          some (key, replay)⟩

/-! ## The connection -/

/-- A relayed connection: what has not been read from each side yet, and what has been written to
each side. -/
structure Relay where
  fromClient : Bytes
  fromDest : Bytes
  toDest : Bytes
  toClient : Bytes
  deriving DecidableEq, Repr

/-- What becomes of a connection. -/
inductive Served (L : Type) where
  /-- No first record: the connection is dropped. -/
  | dropped
  /-- The site cannot be dialled: the client is kept waiting and then dropped. -/
  | stalled
  /-- Everything is copied in both directions from here on. -/
  | relayed (start : Relay)
  /-- The connection is answered by this server. -/
  | taken (verdict : Verdict L)

/-- `serve_connection` for a client that sends `stream`. `dial` is what the network makes of a dial:
the bytes the site sends, if it can be reached. -/
def serveConnection (authorize : Block 8 → Nat → Option L) (guard : ReplayGuard)
    (dial : String → Option Bytes) (nowSecs : UInt32) (stream : Bytes) :
    Option (Served L × ReplayGuard) := do
  match readRecord stream with
  | none => return (.dropped, guard)
  | some (first, rest) =>
    let firstBytes ← first.encode
    let peekSni := (extractClientHelloFields first.payload).toOption.bind ClientHelloFields.sni
    match dial (cfg.destFor peekSni) with
    | none => return (.stalled, guard)
    | some fromDest =>
      let d := decideFirst sha256 aes256Gcm x25519 cfg authorize guard first.payload nowSecs
      match d.verdict with
      | .relay => return (.relayed ⟨rest, fromDest, firstBytes, []⟩, d.guard)
      | verdict => return (.taken verdict, d.guard)

end

/-! ## Relaying -/

/-- What `copy_bidirectional` does next: the next bytes go from one side to the other. -/
inductive Copy where
  | up (n : Nat)
  | down (n : Nat)
  deriving DecidableEq, Repr

/-- Chunks of any size, in any interleaving of the two directions. -/
def Relay.step (s : Relay) : Copy → Option (Relay × List Unit)
  | .up n =>
    if n ≤ s.fromClient.length then
      some ({ s with
        fromClient := s.fromClient.drop n
        toDest := s.toDest ++ s.fromClient.take n }, [])
    else none
  | .down n =>
    if n ≤ s.fromDest.length then
      some ({ s with
        fromDest := s.fromDest.drop n
        toClient := s.toClient ++ s.fromDest.take n }, [])
    else none

/-- Both sides see what the other side sent, from the first byte on. -/
structure Relay.Transparent (stream fromDest : Bytes) (s : Relay) : Prop where
  up : s.toDest ++ s.fromClient = stream
  down : s.toClient ++ s.fromDest = fromDest

section

variable {L : Type} {sha256 : HashSuite 32} {aes256Gcm : Aead (Block 32) (Block 12)}
  {x25519 : KeyAgreement (Block 32) (Block 32) (Block 32)} {cfg : ServerAuthConfig}
  {stream fromDest rest : Bytes} {s s' : Relay} {first : Record}

/-- Copying keeps what each side has seen and has still to see. -/
theorem Relay.Transparent.step {a : Copy} {ev : List Unit} (h : s.Transparent stream fromDest)
    (hs : s.step a = some (s', ev)) : s'.Transparent stream fromDest := by
  cases a with
  | up n =>
    simp only [Relay.step] at hs
    split at hs
    · cases hs
      refine ⟨?_, h.down⟩
      show s.toDest ++ s.fromClient.take n ++ s.fromClient.drop n = stream
      rw [List.append_assoc, List.take_append_drop, h.up]
    · cases hs
  | down n =>
    simp only [Relay.step] at hs
    split at hs
    · cases hs
      refine ⟨h.up, ?_⟩
      show s.toClient ++ s.fromDest.take n ++ s.fromDest.drop n = fromDest
      rw [List.append_assoc, List.take_append_drop, h.down]
    · cases hs

theorem Relay.Transparent.reaches (h : s.Transparent stream fromDest)
    (hrun : Reaches Relay.step s s') : s'.Transparent stream fromDest := by
  obtain ⟨log, hrun⟩ := hrun
  exact hrun.state_inv h fun _ _ _ _ hp hs => hp.step hs

/-- A connection that is not taken over is relayed behind its first record, written again. -/
theorem serveConnection_relay {authorize : Block 8 → Nat → Option L} {guard : ReplayGuard}
    {dial : String → Option Bytes} {nowSecs : UInt32} (hread : readRecord stream = some (first, rest))
    (hdial : dial (cfg.destFor ((extractClientHelloFields first.payload).toOption.bind
      ClientHelloFields.sni)) = some fromDest)
    (hrelay : (decideFirst sha256 aes256Gcm x25519 cfg authorize guard first.payload nowSecs).verdict =
      .relay) :
    ∃ guard', serveConnection sha256 aes256Gcm x25519 cfg authorize guard dial nowSecs stream =
      some (.relayed ⟨rest, fromDest, first.withVersion 0x03 0x03, []⟩, guard') := by
  refine ⟨(decideFirst sha256 aes256Gcm x25519 cfg authorize guard first.payload nowSecs).guard, ?_⟩
  unfold serveConnection
  rw [hread]
  simp only [encode_of_readRecord hread, Option.bind_eq_bind, Option.bind_some, hdial, hrelay]
  rfl

/-- **A relayed connection is transparent exactly if the client's first record has the version
that is written.** The two version bytes are not kept, and 0x0303 is written in their place. -/
theorem relayed_transparent_iff {authorize : Block 8 → Nat → Option L} {guard : ReplayGuard}
    {dial : String → Option Bytes} {nowSecs : UInt32} (hread : readRecord stream = some (first, rest))
    (hdial : dial (cfg.destFor ((extractClientHelloFields first.payload).toOption.bind
      ClientHelloFields.sni)) = some fromDest)
    (hrelay : (decideFirst sha256 aes256Gcm x25519 cfg authorize guard first.payload nowSecs).verdict =
      .relay) :
    ∃ start guard', serveConnection sha256 aes256Gcm x25519 cfg authorize guard dial nowSecs stream =
        some (.relayed start, guard') ∧
      ((∀ s, Reaches Relay.step start s → s.Transparent stream fromDest) ↔
        (stream.drop 1).take 2 = [0x03, 0x03]) := by
  obtain ⟨guard', hserved⟩ := serveConnection_relay hread hdial hrelay
  obtain ⟨v₁, v₂, hstream, -⟩ := of_readRecord hread
  have hversion : (stream.drop 1).take 2 = [v₁, v₂] := by
    rw [hstream]
    rfl
  refine ⟨_, guard', hserved, ?_, ?_⟩
  · intro h
    have hstart := (h _ Reaches.refl).up
    rw [hstream] at hstart
    obtain ⟨rfl, rfl⟩ := withVersion_inj hstart
    exact hversion
  · intro h s hrun
    rw [hversion] at h
    cases h
    exact Relay.Transparent.reaches ⟨hstream.symm, rfl⟩ hrun

end

section

def smallConfig : ServerAuthConfig :=
  ⟨Block.fill 32 5, {"example.org"}, ⟨120, 0⟩, "example.org:443", fun _ => none, none⟩

/-- A server over the smallest primitives. -/
def smallServer (stream : Bytes) : Option (Served Unit × ReplayGuard) :=
  serveConnection (HashSuite.start 32) (Aead.tagged (Block 12) 32 16) (KeyAgreement.xor 32)
    smallConfig (fun _ _ => none) (ReplayGuard.new ⟨240, 0⟩) (fun _ => some [0x15]) 1000 stream

/-- A record that is no hello, in the version that is written. -/
theorem relayed_transparent_iff_of_garbage : ∃ start guard',
    smallServer [0x16, 0x03, 0x03, 0x00, 0x01, 0xff, 0x2a] = some (.relayed start, guard') ∧
      ((∀ s, Reaches Relay.step start s →
          s.Transparent [0x16, 0x03, 0x03, 0x00, 0x01, 0xff, 0x2a] [0x15]) ↔
        (([0x16, 0x03, 0x03, 0x00, 0x01, 0xff, 0x2a] : Bytes).drop 1).take 2 = [0x03, 0x03]) :=
  relayed_transparent_iff
    (show readRecord _ = some (⟨0x16, [0xff]⟩, [0x2a]) by decide) rfl rfl

/-- The version 0x0301 that clients put on a first record does not arrive at the site. -/
theorem relayed_version_lost : ∃ start guard',
    smallServer [0x16, 0x03, 0x01, 0x00, 0x01, 0xff] = some (.relayed start, guard') ∧
      ¬ start.Transparent [0x16, 0x03, 0x01, 0x00, 0x01, 0xff] [0x15] := by
  have hserved : ∃ guard', smallServer [0x16, 0x03, 0x01, 0x00, 0x01, 0xff] =
      some (.relayed ⟨[], [0x15], [0x16, 0x03, 0x03, 0x00, 0x01, 0xff], []⟩, guard') :=
    serveConnection_relay (show readRecord _ = some (⟨0x16, [0xff]⟩, []) by decide) rfl rfl
  obtain ⟨guard', hserved⟩ := hserved
  refine ⟨_, guard', hserved, ?_⟩
  rintro ⟨hup, -⟩
  exact absurd hup (by decide)

end

end Leshiy.Reality
