import Leshiy.Lib.Splice
import Leshiy.Reality.FakeTls
import Leshiy.Reality.Serve

/-!
# The fake-TLS handshake of MTProxy

`authenticate`, `read_dest_flight` and `server_response` of `leshiy-reality/src/mtproxy/faketls.rs`. Both ends
prove that they know the secret by the random of a hello: it is the MAC of a record in which the random itself
is zeroed. The server does not make up its answer: it takes the ServerHello of the borrowed site, and one
record of random bytes as long as what the site sent after it.

A range that does not fit its buffer is a panic, and so is a record too long for its length field; `none` stands
for both.
-/

namespace Leshiy.Reality.MtProxy

open Leshiy.Lib Leshiy.Tls

/-- Where the random of a hello starts in its record: 5 bytes of record header, 4 of handshake header, 2 of
version. -/
def RANDOM_START : Nat := 11

def RANDOM_END : Nat := 43

/-- `HRR_RANDOM`: a ServerHello with this random is a HelloRetryRequest. -/
def HRR_RANDOM : Bytes :=
  [0xcf, 0x21, 0xad, 0x74, 0xe5, 0x9a, 0x61, 0x11, 0xbe, 0x1d, 0x8c, 0x02, 0x1e, 0x65, 0xb8, 0x91,
    0xc2, 0xa2, 0x11, 0x16, 0x7a, 0xbb, 0x8c, 0x5e, 0x07, 0x9e, 0x09, 0xe2, 0xc8, 0xa8, 0x33, 0x9c]

/-- In milliseconds. -/
def FLIGHT_GAP : Nat := 25

def FLIGHT_MAX_RECORDS : Nat := 8

/-- `get(i..j)`. -/
def getRange (i j : Nat) (b : Bytes) : Option Bytes :=
  if i ≤ j ∧ j ≤ b.length then some (slice i (j - i) b) else none

/-! ## The client's hello -/

section

variable (sha256 : HashSuite 32)

/-- `authenticate` with the range that it writes to. -/
def authenticateIndexed (chPayload : Bytes) (secret : Block 16) (nowSecs : UInt32) (maxSkew : Duration) :
    Option (Option (Block 32)) :=
  if 2 ^ 16 ≤ chPayload.length then some none
  else
    let msg := [HANDSHAKE, 0x03, 0x01] ++ (beEncode 2 chPayload.length ++ chPayload)
    match (getRange RANDOM_START RANDOM_END msg).bind (Block.tryFrom 32) with
    | none => some none
    | some digest => do
      let msg ← fillRange RANDOM_START RANDOM_END 0 msg
      let mac := sha256.hmac secret.1 msg
      let macOk := mac.1.take 28 = digest.1.take 28
      let ts := List.zipWith (· ^^^ ·) (digest.1.drop 28) (mac.1.drop 28)
      let skewOk := absDiff nowSecs (u32FromBeBytes ts.reverse) ≤ maxSkew.asSecs
      return if macOk ∧ skewOk then some digest else none

/-- A record of hello bytes, with the header that Telegram clients send. -/
def helloRecord (payload : Bytes) : Bytes :=
  Record.withVersion ⟨HANDSHAKE, payload⟩ 0x03 0x01

/-- The record with the random zeroed. -/
def zeroed (msg : Bytes) : Bytes :=
  splice RANDOM_START (List.replicate 32 0) msg

/-- The random with which a client signs at the time `ts`. -/
def clientRandom (secret : Block 16) (payload : Bytes) (ts : UInt32) : Bytes :=
  let mac := (sha256.hmac secret.1 (zeroed (helloRecord payload))).1
  mac.take 28 ++ List.zipWith (· ^^^ ·) (mac.drop 28) (beEncode 4 ts.toNat).reverse

variable {sha256} {chPayload : Bytes} {secret : Block 16} {nowSecs : UInt32} {maxSkew : Duration}

theorem ofList_slice {msg : Bytes} (h : 43 ≤ msg.length) :
    (Block.ofList 32 ((msg.take 43).drop 11)).1 = slice 11 32 msg := by
  have hlen : ((msg.take 43).drop 11).length = 32 := by
    rw [List.length_drop, List.length_take]
    omega
  have hval := congrArg Subtype.val (Block.ofList_val ⟨_, hlen⟩)
  rw [hval, slice, List.take_drop]

/-- **No byte string is indexed out of range.** -/
theorem authenticateIndexed_eq : authenticateIndexed sha256 chPayload secret nowSecs maxSkew =
    some (authenticate sha256 chPayload secret nowSecs maxSkew) := by
  unfold authenticateIndexed authenticate
  by_cases hlong : 2 ^ 16 ≤ chPayload.length
  · rw [if_pos hlong, if_pos hlong]
  rw [if_neg hlong, if_neg hlong]
  generalize [HANDSHAKE, 0x03, 0x01] ++ (beEncode 2 chPayload.length ++ chPayload) = msg
  dsimp only
  by_cases hshort : msg.length < 43
  · have hnone : getRange RANDOM_START RANDOM_END msg = none :=
      if_neg fun h => absurd h.2 (Nat.not_le.mpr hshort)
    rw [if_pos hshort, hnone]
    rfl
  · have hlen : 43 ≤ msg.length := Nat.not_lt.mp hshort
    have hget : getRange RANDOM_START RANDOM_END msg = some (slice 11 32 msg) := if_pos ⟨by decide, hlen⟩
    have hfill : fillRange RANDOM_START RANDOM_END 0 msg =
        some (msg.take 11 ++ (List.replicate 32 0 ++ msg.drop 43)) := fillRange_eq_some (by decide) hlen
    rw [if_neg hshort, hget, Option.bind_some, ← ofList_slice hlen, Block.tryFrom_val, hfill]
    rfl

theorem zipWith_xor_cancel {xs ys : List UInt8} (h : xs.length = ys.length) :
    List.zipWith (· ^^^ ·) xs (List.zipWith (· ^^^ ·) xs ys) = ys := by
  induction xs generalizing ys with
  | nil => exact (List.length_eq_zero_iff.mp h.symm).symm
  | cons x xs ih =>
    cases ys with
    | nil => cases h
    | cons y ys =>
      rw [List.zipWith_cons_cons, List.zipWith_cons_cons, ih (Nat.succ.inj h), ← UInt8.xor_assoc,
        UInt8.xor_self, UInt8.zero_xor]

theorem zipWith_xor_comm (xs ys : List UInt8) :
    List.zipWith (· ^^^ ·) xs ys = List.zipWith (· ^^^ ·) ys xs :=
  List.zipWith_comm_of_comm UInt8.xor_comm

theorem beEncode_u32FromBeBytes {b : Bytes} (h : b.length = 4) :
    beEncode 4 (u32FromBeBytes b).toNat = b := by
  have hlt : beDecode b < UInt32.size := (beDecode_lt b).trans_eq (by rw [h]; rfl)
  rw [u32FromBeBytes, UInt32.toNat_ofNat_of_lt' hlt, ← h]
  exact beEncode_beDecode b

/-- The time that a random hides, and the random that hides it. -/
theorem hides_iff {d m : Bytes} (hd : d.length = 32) (hm : m.length = 32) (ts : UInt32) :
    d = m.take 28 ++ List.zipWith (· ^^^ ·) (m.drop 28) (beEncode 4 ts.toNat).reverse ↔
      m.take 28 = d.take 28 ∧
        u32FromBeBytes (List.zipWith (· ^^^ ·) (d.drop 28) (m.drop 28)).reverse = ts := by
  have hd28 : (d.drop 28).length = 4 := by
    rw [List.length_drop, hd]
  have hm28 : (m.drop 28).length = 4 := by
    rw [List.length_drop, hm]
  have htake : (m.take 28).length = 28 := by
    rw [List.length_take, hm]
    rfl
  have hts : (beEncode 4 ts.toNat).reverse.length = 4 := by
    rw [List.length_reverse, length_beEncode]
  constructor
  · intro h
    have hhead : d.take 28 = m.take 28 := by
      rw [h, List.take_left' htake]
    have htail : d.drop 28 = List.zipWith (· ^^^ ·) (m.drop 28) (beEncode 4 ts.toNat).reverse := by
      rw [h, List.drop_left' htake]
    rw [htail, zipWith_xor_comm, zipWith_xor_cancel (hm28.trans hts.symm), List.reverse_reverse,
      u32FromBeBytes_beEncode]
    exact ⟨hhead.symm, rfl⟩
  · rintro ⟨hhead, rfl⟩
    have hlen : (List.zipWith (· ^^^ ·) (d.drop 28) (m.drop 28)).reverse.length = 4 := by
      rw [List.length_reverse, List.length_zipWith, hd28, hm28]
      rfl
    rw [beEncode_u32FromBeBytes hlen, List.reverse_reverse, zipWith_xor_comm (d.drop 28),
      zipWith_xor_cancel (hm28.trans hd28.symm), hhead, List.take_append_drop]

theorem length_helloRecord (payload : Bytes) : (helloRecord payload).length = 5 + payload.length :=
  length_withVersion

theorem slice_helloRecord (payload : Bytes) : slice 11 32 (helloRecord payload) = slice 6 32 payload :=
  rfl

/-- What is checked of a hello that is long enough. -/
theorem authenticate_eq {d : Block 32} (hlong : chPayload.length < 65536) (hshort : 38 ≤ chPayload.length)
    (hd : d.1 = slice 6 32 chPayload) :
    authenticate sha256 chPayload secret nowSecs maxSkew =
      if (sha256.hmac secret.1 (zeroed (helloRecord chPayload))).1.take 28 = d.1.take 28 ∧
          absDiff nowSecs (u32FromBeBytes (List.zipWith (· ^^^ ·) (d.1.drop 28)
            ((sha256.hmac secret.1 (zeroed (helloRecord chPayload))).1.drop 28)).reverse) ≤ maxSkew.asSecs then
        some d
      else none := by
  have hlen : 43 ≤ (helloRecord chPayload).length := by
    rw [length_helloRecord]
    omega
  have hrandom : Block.ofList 32 (((helloRecord chPayload).take 43).drop 11) = d := by
    apply Subtype.ext
    rw [ofList_slice hlen, slice_helloRecord, hd]
  have hfits : ¬2 ^ 16 ≤ chPayload.length := by omega
  unfold authenticate
  rw [if_neg hfits]
  change (if (helloRecord chPayload).length < 43 then none else _) = _
  rw [if_neg (Nat.not_lt.mpr hlen), ← hrandom]
  rfl

/-- **A hello is accepted exactly if its random signs it**, at a time that is not too far from now. -/
theorem authenticate_eq_some_iff {digest : Block 32} :
    authenticate sha256 chPayload secret nowSecs maxSkew = some digest ↔
      chPayload.length < 65536 ∧ 38 ≤ chPayload.length ∧ digest.1 = slice 6 32 chPayload ∧
        ∃ ts, digest.1 = clientRandom sha256 secret chPayload ts ∧
          absDiff nowSecs ts ≤ maxSkew.asSecs := by
  by_cases hlong : chPayload.length < 65536
  · by_cases hshort : 38 ≤ chPayload.length
    · obtain ⟨d, hd⟩ : ∃ d : Block 32, d.1 = slice 6 32 chPayload :=
        ⟨⟨_, length_slice (by omega)⟩, rfl⟩
      rw [authenticate_eq hlong hshort hd]
      have hmac := (sha256.hmac secret.1 (zeroed (helloRecord chPayload))).2
      constructor
      · intro h
        split at h
        · next hok =>
          cases h
          exact ⟨hlong, hshort, hd, _, (hides_iff digest.2 hmac _).mpr ⟨hok.1, rfl⟩, hok.2⟩
        · cases h
      · rintro ⟨-, -, hdigest, ts, hrandom, hskew⟩
        have hsame : d = digest := Subtype.ext (hd.trans hdigest.symm)
        subst hsame
        obtain ⟨hhead, rfl⟩ := (hides_iff d.2 hmac ts).mp hrandom
        exact if_pos ⟨hhead, hskew⟩
    · refine iff_of_false ?_ fun h => hshort h.2.1
      unfold authenticate
      change (if _ then none else if (helloRecord chPayload).length < 43 then none else _) ≠ _
      rw [if_pos (show (helloRecord chPayload).length < 43 by rw [length_helloRecord]; omega), ite_self]
      nofun
  · have hover : 2 ^ 16 ≤ chPayload.length := by omega
    refine iff_of_false ?_ fun h => hlong h.1
    unfold authenticate
    rw [if_pos hover]
    nofun

end

/-! ## What the site answers -/

structure DestFlight where
  serverHello : Record
  appLen : Nat
  deriving DecidableEq, Repr

/-- The records after the ServerHello, in at most `rounds` rounds. `gap i` is the time that the `i`-th of them
takes to arrive. -/
def flightLoop (gap : Nat → Nat) : (rounds i appLen : Nat) → List Bytes → Option Nat
  | 0, _, appLen, _ => some appLen
  | rounds + 1, i, appLen, chunks =>
    -- Only what follows application data is waited for no longer than `FLIGHT_GAP`.
    if appLen ≠ 0 ∧ FLIGHT_GAP < gap i then some appLen
    else
      match readRecordFrom chunks with
      | none => if appLen = 0 then none else some appLen
      | some (next, chunks) =>
        if next.contentType = CHANGE_CIPHER_SPEC then flightLoop gap rounds (i + 1) appLen chunks
        else if next.contentType = APPLICATION_DATA then
          flightLoop gap rounds (i + 1) (appLen + next.payload.length) chunks
        else none

def readDestFlight (gap : Nat → Nat) (chunks : List Bytes) : Option DestFlight :=
  match readRecordFrom chunks with
  | none => none
  | some (serverHello, chunks) =>
    let p := serverHello.payload
    let isSh := serverHello.contentType == HANDSHAKE && p[0]? == some 0x02 &&
      (getRange 6 38 p).any (· != HRR_RANDOM)
    if !isSh then none
    else
      match flightLoop gap FLIGHT_MAX_RECORDS 0 0 chunks with
      | none => none
      | some appLen => if 0 < appLen then some ⟨serverHello, min appLen MAX_RECORD_PAYLOAD⟩ else none

/-- A record as it stands in a stream. -/
structure SentRecord where
  record : Record
  v₁ : UInt8
  v₂ : UInt8

def SentRecord.bytes (r : SentRecord) : Bytes :=
  r.record.withVersion r.v₁ r.v₂

/-- The bytes of application data in some records. -/
def appData (records : List SentRecord) : Nat :=
  ((records.filter fun r => r.record.contentType == APPLICATION_DATA).map fun r =>
    r.record.payload.length).sum

/-- Records of an encrypted flight, a ChangeCipherSpec among them or not. -/
def IsFlight (records : List SentRecord) : Prop :=
  ∀ r ∈ records, r.record.contentType = CHANGE_CIPHER_SPEC ∨ r.record.contentType = APPLICATION_DATA

theorem appData_cons (r : SentRecord) (records : List SentRecord) :
    appData (r :: records) = appData [r] + appData records := by
  unfold appData
  by_cases h : r.record.contentType = APPLICATION_DATA <;> simp [h]

theorem appData_changeCipherSpec {r : SentRecord} (h : r.record.contentType = CHANGE_CIPHER_SPEC) :
    appData [r] = 0 := by
  simp [appData, h, CHANGE_CIPHER_SPEC, APPLICATION_DATA]

theorem appData_applicationData {r : SentRecord} (h : r.record.contentType = APPLICATION_DATA) :
    appData [r] = r.record.payload.length := by
  simp [appData, h]

theorem of_readRecordFrom {chunks chunks' : List Bytes} {r : Record}
    (h : readRecordFrom chunks = some (r, chunks')) :
    ∃ v₁ v₂, chunks.flatten = r.withVersion v₁ v₂ ++ chunks'.flatten ∧
      r.payload.length ≤ MAX_RECORD_ON_WIRE := by
  cases hread : readRecord chunks.flatten with
  | none =>
    rw [(readRecordFrom_eq chunks).1 hread] at h
    cases h
  | some p =>
    obtain ⟨r', rest⟩ := p
    obtain ⟨chunks₁, heq, hrest⟩ := (readRecordFrom_eq chunks).2 r' rest hread
    rw [heq] at h
    cases h
    rw [hrest]
    exact of_readRecord hread

theorem of_flightLoop (gap : Nat → Nat) {rounds i appLen total : Nat} {chunks : List Bytes}
    (h : flightLoop gap rounds i appLen chunks = some total) :
    ∃ records rest, chunks.flatten = records.flatMap SentRecord.bytes ++ rest ∧
      records.length ≤ rounds ∧ IsFlight records ∧ total = appLen + appData records := by
  induction rounds generalizing i appLen chunks with
  | zero =>
    cases h
    exact ⟨[], chunks.flatten, rfl, Nat.le_refl 0, nofun, rfl⟩
  | succ rounds ih =>
    unfold flightLoop at h
    split at h
    · cases h
      exact ⟨[], chunks.flatten, rfl, Nat.zero_le _, nofun, rfl⟩
    split at h
    · split at h
      · cases h
      · cases h
        exact ⟨[], chunks.flatten, rfl, Nat.zero_le _, nofun, rfl⟩
    next next chunks' hread =>
    obtain ⟨v₁, v₂, hflat, -⟩ := of_readRecordFrom hread
    have hcons : ∀ {appLen'}, flightLoop gap rounds (i + 1) appLen' chunks' = some total →
        next.contentType = CHANGE_CIPHER_SPEC ∨ next.contentType = APPLICATION_DATA →
        appLen' = appLen + appData [⟨next, v₁, v₂⟩] → ∃ records rest,
          chunks.flatten = records.flatMap SentRecord.bytes ++ rest ∧ records.length ≤ rounds + 1 ∧
            IsFlight records ∧ total = appLen + appData records := by
      intro appLen' hloop htype happ
      obtain ⟨records, rest, hrecords, hrounds, hflight, htotal⟩ := ih hloop
      refine ⟨⟨next, v₁, v₂⟩ :: records, rest, ?_, Nat.succ_le_succ hrounds,
        List.forall_mem_cons.mpr ⟨htype, hflight⟩, ?_⟩
      · rw [hflat, hrecords, List.flatMap_cons, List.append_assoc]
        rfl
      · rw [htotal, happ, Nat.add_assoc, ← appData_cons]
    split at h
    · next hccs => exact hcons h (.inl hccs) (by rw [appData_changeCipherSpec hccs]; rfl)
    · split at h
      · next happ => exact hcons h (.inr happ) (by rw [appData_applicationData happ])
      · cases h

/-- What a flight was read from. -/
theorem of_readDestFlight {gap : Nat → Nat} {chunks : List Bytes} {flight : DestFlight}
    (h : readDestFlight gap chunks = some flight) :
    flight.serverHello.contentType = HANDSHAKE ∧ flight.serverHello.payload[0]? = some 0x02 ∧
      38 ≤ flight.serverHello.payload.length ∧
      flight.serverHello.payload.length ≤ MAX_RECORD_ON_WIRE ∧ 0 < flight.appLen ∧
      ∃ v₁ v₂ records rest, chunks.flatten =
          flight.serverHello.withVersion v₁ v₂ ++ (records.flatMap SentRecord.bytes ++ rest) ∧
        records.length ≤ FLIGHT_MAX_RECORDS ∧ IsFlight records ∧
        flight.appLen = min (appData records) MAX_RECORD_PAYLOAD := by
  unfold readDestFlight at h
  split at h
  · cases h
  next serverHello chunks' hread =>
  obtain ⟨v₁, v₂, hflat, hlen⟩ := of_readRecordFrom hread
  dsimp only at h
  split at h
  · cases h
  next hsh =>
  simp only [Bool.not_eq_true', Bool.and_eq_true, beq_iff_eq, Bool.not_eq_false] at hsh
  obtain ⟨⟨htype, hfirst⟩, hrandom⟩ := hsh
  have hshort : 38 ≤ serverHello.payload.length := by
    by_contra hlt
    rw [getRange, if_neg fun h => hlt h.2] at hrandom
    cases hrandom
  split at h
  · cases h
  next total hloop =>
  split at h
  · next hpos =>
    cases h
    obtain ⟨records, rest, hrecords, hrounds, hflight, htotal⟩ := of_flightLoop gap hloop
    rw [Nat.zero_add] at htotal
    refine ⟨htype, hfirst, hshort, hlen, lt_min hpos (by decide), v₁, v₂, records, rest, ?_, hrounds, hflight,
      by rw [htotal]⟩
    rw [hflat, hrecords]
  · cases h

/-! ## The answer to the client -/

section

variable (sha256 : HashSuite 32)

/-- `server_response`. What `rng` draws is a function of the length. -/
def serverResponse (client : Block 32) (flight : DestFlight) (secret : Block 16)
    (rng : (n : Nat) → Block n) : Option (Option Bytes) := do
  let out ← flight.serverHello.encode
  let out ← fillRange RANDOM_START RANDOM_END 0 out
  let out := out ++ [CHANGE_CIPHER_SPEC, 0x03, 0x03, 0x00, 0x01, 0x01]
  let out := out ++ [APPLICATION_DATA, 0x03, 0x03]
  if 2 ^ 16 ≤ flight.appLen then return none
  let out := out ++ beEncode 2 flight.appLen
  let out := out ++ (rng flight.appLen).1
  let mac := sha256.hmac secret.1 (client.1 ++ out)
  let out ← copyFromSlice RANDOM_START RANDOM_END mac.1 out
  return some out

/-- The check of a client, as tdlib makes it: the fixed parts of the three records, their lengths, and the MAC
of its own random and the response with a zeroed random. -/
def clientAccepts (client : Block 32) (secret : Block 16) (resp : Bytes) : Bool :=
  let shLen := beDecode (slice 3 2 resp)
  let tail := resp.drop (5 + shLen)
  resp.take 3 == [0x16, 0x03, 0x03] &&
    tail.take 9 == [0x14, 0x03, 0x03, 0x00, 0x01, 0x01, 0x17, 0x03, 0x03] &&
    tail.length == 11 + beDecode (slice 9 2 tail) &&
    slice 11 32 resp == (sha256.hmac secret.1 (client.1 ++ zeroed resp)).1

/-- The ServerHello record with another random, a ChangeCipherSpec and one record of application data. -/
def answer (serverHello : Record) (random noise : Bytes) : Bytes :=
  splice RANDOM_START random (serverHello.withVersion 0x03 0x03) ++
    (Record.withVersion ⟨CHANGE_CIPHER_SPEC, [1]⟩ 0x03 0x03 ++
      Record.withVersion ⟨APPLICATION_DATA, noise⟩ 0x03 0x03)

/-- The MAC that the server puts in the place of the random. -/
def serverRandom (client : Block 32) (secret : Block 16) (serverHello : Record) (noise : Bytes) : Block 32 :=
  sha256.hmac secret.1 (client.1 ++ answer serverHello (List.replicate 32 0) noise)

variable {sha256} {client : Block 32} {secret : Block 16} {serverHello : Record} {random noise : Bytes}

theorem random_in_hello (hshort : 38 ≤ serverHello.payload.length) (hrandom : random.length = 32) :
    RANDOM_START + random.length ≤ (serverHello.withVersion 0x03 0x03).length := by
  rw [length_withVersion, hrandom, RANDOM_START, RECORD_HEADER_LEN]
  omega

/-- A random written over the one of an answer. -/
theorem splice_answer {random' : Bytes} (hshort : 38 ≤ serverHello.payload.length)
    (hrandom : random.length = 32) (hrandom' : random'.length = 32) :
    splice RANDOM_START random' (answer serverHello random noise) = answer serverHello random' noise := by
  have hin := random_in_hello hshort hrandom
  have hlen := length_splice hin
  rw [answer, splice_append (by rw [hlen]; exact random_in_hello hshort hrandom'),
    splice_splice hin (hrandom'.trans hrandom.symm)]
  rfl

theorem serverResponse_eq {flight : DestFlight} {rng : (n : Nat) → Block n}
    (hshort : 38 ≤ flight.serverHello.payload.length)
    (hlong : flight.serverHello.payload.length ≤ MAX_RECORD_ON_WIRE)
    (happ : flight.appLen ≤ MAX_RECORD_PAYLOAD) :
    serverResponse sha256 client flight secret rng =
      some (some (answer flight.serverHello
        (serverRandom sha256 client secret flight.serverHello (rng flight.appLen).1).1
        (rng flight.appLen).1)) := by
  have hmax : MAX_RECORD_ON_WIRE < 2 ^ 16 := by decide
  have hmaxApp : MAX_RECORD_PAYLOAD < 2 ^ 16 := by decide
  have hzero : (List.replicate 32 (0 : UInt8)).length = 32 := List.length_replicate
  have hencode : flight.serverHello.encode = some (flight.serverHello.withVersion 0x03 0x03) :=
    if_pos (Nat.lt_of_le_of_lt hlong hmax)
  have hfill : fillRange RANDOM_START RANDOM_END 0 (flight.serverHello.withVersion 0x03 0x03) =
      some (splice RANDOM_START (List.replicate 32 0) (flight.serverHello.withVersion 0x03 0x03)) :=
    fillRange_eq_some (by decide) (random_in_hello hshort hzero)
  have happ : ¬2 ^ 16 ≤ flight.appLen := Nat.not_le.mpr (Nat.lt_of_le_of_lt happ hmaxApp)
  -- what the MAC is over is the answer with a zeroed random
  have hout : splice RANDOM_START (List.replicate 32 0) (flight.serverHello.withVersion 0x03 0x03) ++
      [CHANGE_CIPHER_SPEC, 0x03, 0x03, 0x00, 0x01, 0x01] ++ [APPLICATION_DATA, 0x03, 0x03] ++
      beEncode 2 flight.appLen ++ (rng flight.appLen).1 =
      answer flight.serverHello (List.replicate 32 0) (rng flight.appLen).1 := by
    have hccs : Record.withVersion ⟨CHANGE_CIPHER_SPEC, [1]⟩ 0x03 0x03 =
        [CHANGE_CIPHER_SPEC, 0x03, 0x03, 0x00, 0x01, 0x01] := by decide
    have hdata : Record.withVersion ⟨APPLICATION_DATA, (rng flight.appLen).1⟩ 0x03 0x03 =
        [APPLICATION_DATA, 0x03, 0x03] ++ (beEncode 2 flight.appLen ++ (rng flight.appLen).1) := by
      rw [Record.withVersion, (rng flight.appLen).2]
    rw [answer, hccs, hdata]
    simp only [List.append_assoc]
  have hroom : RANDOM_END ≤ (answer flight.serverHello (List.replicate 32 0) (rng flight.appLen).1).length := by
    rw [answer, List.length_append, length_splice (random_in_hello hshort hzero)]
    exact (random_in_hello hshort hzero).trans (Nat.le_add_right _ _)
  have hcopy : copyFromSlice RANDOM_START RANDOM_END
      (serverRandom sha256 client secret flight.serverHello (rng flight.appLen).1).1
      (answer flight.serverHello (List.replicate 32 0) (rng flight.appLen).1) =
      some (answer flight.serverHello
        (serverRandom sha256 client secret flight.serverHello (rng flight.appLen).1).1
        (rng flight.appLen).1) := by
    rw [copyFromSlice_eq_some hroom (by rw [(serverRandom ..).2]; rfl),
      splice_answer hshort hzero (serverRandom ..).2]
  unfold serverResponse
  rw [hencode, Option.bind_eq_bind, Option.bind_some, hfill, Option.bind_some]
  dsimp only
  rw [if_neg happ, hout]
  change (copyFromSlice RANDOM_START RANDOM_END
    (serverRandom sha256 client secret flight.serverHello (rng flight.appLen).1).1 _).bind _ = _
  rw [hcopy]
  rfl

/-- **What the server answers passes the check of the client.** -/
theorem clientAccepts_answer (htype : serverHello.contentType = HANDSHAKE)
    (hshort : 38 ≤ serverHello.payload.length) (hlong : serverHello.payload.length ≤ MAX_RECORD_ON_WIRE)
    (hnoise : noise.length ≤ MAX_RECORD_PAYLOAD) :
    clientAccepts sha256 client secret
      (answer serverHello (serverRandom sha256 client secret serverHello noise).1 noise) = true := by
  obtain ⟨mac, hmac⟩ : ∃ mac, serverRandom sha256 client secret serverHello noise = mac := ⟨_, rfl⟩
  have hin := random_in_hello hshort mac.2
  have hlen : (splice RANDOM_START mac.1 (serverHello.withVersion 0x03 0x03)).length =
      5 + serverHello.payload.length := by
    rw [length_splice hin, length_withVersion]
    rfl
  have hfits : serverHello.payload.length < 256 ^ 2 := Nat.lt_of_le_of_lt hlong (by decide)
  have hfitsNoise : noise.length < 256 ^ 2 := Nat.lt_of_le_of_lt hnoise (by decide)
  have hstart : (answer serverHello mac.1 noise).take 3 = [0x16, 0x03, 0x03] := by
    rw [answer, List.take_append_of_le_length (by rw [hlen]; omega), take_splice hin (by decide),
      Record.withVersion, htype]
    rfl
  have hsh : beDecode (slice 3 2 (answer serverHello mac.1 noise)) = serverHello.payload.length := by
    rw [answer, slice_append_left (by rw [hlen]; omega), slice_splice_of_le hin (by decide)]
    exact beDecode_beEncode hfits
  have htail : (answer serverHello mac.1 noise).drop (5 + serverHello.payload.length) =
      [0x14, 0x03, 0x03, 0x00, 0x01, 0x01, 0x17, 0x03, 0x03] ++ (beEncode 2 noise.length ++ noise) :=
    List.drop_left' hlen
  have hrandom : slice 11 32 (answer serverHello mac.1 noise) = mac.1 := by
    have hsame := slice_splice hin
    rw [mac.2] at hsame
    rw [answer, slice_append_left (by rw [hlen]; omega)]
    exact hsame
  have hzeroed : zeroed (answer serverHello mac.1 noise) = answer serverHello (List.replicate 32 0) noise :=
    splice_answer hshort mac.2 List.length_replicate
  have hslice : slice 9 2 ([0x14, 0x03, 0x03, 0x00, 0x01, 0x01, 0x17, 0x03, 0x03] ++
      (beEncode 2 noise.length ++ noise)) = beEncode 2 noise.length :=
    (slice_append_right (l := [0x14, 0x03, 0x03, 0x00, 0x01, 0x01, 0x17, 0x03, 0x03]) rfl).trans
      (List.take_left' (length_beEncode 2 noise.length))
  have hsame : sha256.hmac secret.1 (client.1 ++ answer serverHello (List.replicate 32 0) noise) = mac := hmac
  rw [hmac]
  unfold clientAccepts
  dsimp only
  rw [hstart, hsh, htail, hslice, hrandom, hzeroed, hsame, beDecode_beEncode hfitsNoise]
  simp [length_beEncode]
  omega

end

/-- **The handshake**: a hello is accepted exactly if its random is the MAC of its record, with a time near
enough hidden in it; and whatever flight was read from the site, however its stream was cut and timed, is
answered by the site's ServerHello with the version 0x0303 and the server's random, a ChangeCipherSpec and
one record of application data as long as the flight, up to one record. The client accepts that answer. -/
theorem faketls_handshake (sha256 : HashSuite 32) (secret : Block 16) :
    (∀ (chPayload : Bytes) (nowSecs : UInt32) (maxSkew : Duration),
      authenticateIndexed sha256 chPayload secret nowSecs maxSkew =
          some (authenticate sha256 chPayload secret nowSecs maxSkew) ∧
        ∀ digest, authenticate sha256 chPayload secret nowSecs maxSkew = some digest ↔
          chPayload.length < 65536 ∧ 38 ≤ chPayload.length ∧ digest.1 = slice 6 32 chPayload ∧
            ∃ ts, digest.1 = clientRandom sha256 secret chPayload ts ∧
              absDiff nowSecs ts ≤ maxSkew.asSecs) ∧
      ∀ (gap : Nat → Nat) (chunks : List Bytes) (flight : DestFlight),
        readDestFlight gap chunks = some flight →
          (∃ v₁ v₂ records rest, chunks.flatten =
              flight.serverHello.withVersion v₁ v₂ ++ (records.flatMap SentRecord.bytes ++ rest) ∧
            records.length ≤ FLIGHT_MAX_RECORDS ∧ IsFlight records ∧
            flight.appLen = min (appData records) MAX_RECORD_PAYLOAD) ∧
          ∀ (client : Block 32) (rng : (n : Nat) → Block n), ∃ out,
            serverResponse sha256 client flight secret rng = some (some out) ∧
              out = splice 11 (sha256.hmac secret.1 (client.1 ++ zeroed out)).1
                  (flight.serverHello.withVersion 0x03 0x03) ++
                ([0x14, 0x03, 0x03, 0x00, 0x01, 0x01] ++
                  Record.withVersion ⟨APPLICATION_DATA, (rng flight.appLen).1⟩ 0x03 0x03) ∧
              readRecord (Record.withVersion ⟨APPLICATION_DATA, (rng flight.appLen).1⟩ 0x03 0x03) =
                some (⟨APPLICATION_DATA, (rng flight.appLen).1⟩, []) ∧
              clientAccepts sha256 client secret out = true := by
  refine ⟨fun chPayload nowSecs maxSkew => ⟨authenticateIndexed_eq, fun digest => authenticate_eq_some_iff⟩,
    fun gap chunks flight hflight => ?_⟩
  obtain ⟨htype, -, hshort, hlong, -, hstream⟩ := of_readDestFlight hflight
  have happ : flight.appLen ≤ MAX_RECORD_PAYLOAD := by
    obtain ⟨v₁, v₂, records, rest, -, -, -, happ⟩ := hstream
    rw [happ]
    exact Nat.min_le_right _ _
  refine ⟨hstream, fun client rng => ?_⟩
  have hnoise : (rng flight.appLen).1.length ≤ MAX_RECORD_PAYLOAD := by rwa [(rng flight.appLen).2]
  refine ⟨_, serverResponse_eq hshort hlong happ, ?_, ?_, clientAccepts_answer htype hshort hlong hnoise⟩
  · rw [zeroed, splice_answer hshort (serverRandom ..).2 List.length_replicate]
    rfl
  · have hread : readRecord (Record.withVersion ⟨APPLICATION_DATA, (rng flight.appLen).1⟩ 0x03 0x03 ++ []) =
        some (⟨APPLICATION_DATA, (rng flight.appLen).1⟩, []) :=
      readRecord_withVersion (hnoise.trans (by decide))
    rwa [List.append_nil] at hread

/-- A ServerHello of a site that writes the version 0x0301 on its first record. -/
def oldHello : Bytes :=
  [0x16, 0x03, 0x01, 0x00, 38, 0x02] ++ List.replicate 37 0

def oldSite : List Bytes :=
  [oldHello ++ [0x17, 0x03, 0x03, 0x00, 0x01, 0x07]]

theorem faketls_handshake_oldSite :
    ∃ flight out, readDestFlight (fun _ => 0) oldSite = some flight ∧
      serverResponse (HashSuite.start 32) (Block.fill 32 1) flight (Block.fill 16 2) (fun n => Block.fill n 3) =
        some (some out) ∧
      clientAccepts (HashSuite.start 32) (Block.fill 32 1) (Block.fill 16 2) out = true := by
  have hflight : readDestFlight (fun _ => 0) oldSite =
      some ⟨⟨HANDSHAKE, 0x02 :: List.replicate 37 0⟩, 1⟩ := by decide +kernel
  obtain ⟨-, hanswer⟩ := (faketls_handshake (HashSuite.start 32) (Block.fill 16 2)).2 _ _ _ hflight
  obtain ⟨out, hout, -, -, haccepts⟩ := hanswer (Block.fill 32 1) fun n => Block.fill n 3
  exact ⟨_, out, hflight, hout, haccepts⟩

/-- The version of its record does not come back. -/
theorem response_changes_version :
    ∃ flight out, readDestFlight (fun _ => 0) oldSite = some flight ∧
      serverResponse (HashSuite.start 32) (Block.fill 32 1) flight (Block.fill 16 2) (fun n => Block.fill n 3) =
        some (some out) ∧
      zeroed (out.take oldHello.length) ≠ zeroed oldHello := by
  refine ⟨⟨⟨HANDSHAKE, 0x02 :: List.replicate 37 0⟩, 1⟩, _, by decide +kernel, rfl, by decide +kernel⟩

end Leshiy.Reality.MtProxy
