import Leshiy.Lib.Chunks
import Leshiy.Tls.Ja

/-!
# TLS records

`leshiy-tls/src/record.rs`: a content type, two version bytes, a length and a payload. The reader
passes over the version bytes and the writer always writes 0x0303.
-/

namespace Leshiy.Tls

open Leshiy.Lib

def HANDSHAKE : UInt8 := 0x16

def ALERT : UInt8 := 0x15

def APPLICATION_DATA : UInt8 := 0x17

def RECORD_HEADER_LEN : Nat := 5

def MAX_RECORD_PAYLOAD : Nat := 16384

def MAX_RECORD_SLACK : Nat := 256

/-- The largest length accepted on the wire. -/
def MAX_RECORD_ON_WIRE : Nat := MAX_RECORD_PAYLOAD + MAX_RECORD_SLACK

structure Record where
  contentType : UInt8
  payload : Bytes
  deriving DecidableEq, Repr

namespace Record

/-- A record with the given version bytes. -/
def withVersion (r : Record) (v₁ v₂ : UInt8) : Bytes :=
  [r.contentType, v₁, v₂] ++ (beEncode 2 r.payload.length ++ r.payload)

/-- `none` stands for the panic on a payload that does not fit its length field. -/
def encode (r : Record) : Option Bytes :=
  if r.payload.length < 2 ^ 16 then some (r.withVersion 0x03 0x03) else none

/-- The record at the front, and how many bytes it takes. -/
def decode (buf : Bytes) : Except TlsError (Record × Nat) :=
  match buf with
  | contentType :: _ :: _ :: hi :: lo :: rest =>
    let len := beDecode [hi, lo]
    if MAX_RECORD_ON_WIRE < len then
      .error (.malformed "record" s!"payload {len} exceeds max {MAX_RECORD_ON_WIRE}")
    else if rest.length < len then .error (.truncated (RECORD_HEADER_LEN + len) buf.length)
    else .ok (⟨contentType, rest.take len⟩, RECORD_HEADER_LEN + len)
  | _ => .error (.truncated RECORD_HEADER_LEN buf.length)

end Record

/-- `read_record`: one record off the front of a stream, and what follows it. It fails if the stream
ends before the record does, or if the record is longer than any that is accepted. -/
def readRecord : Bytes → Option (Record × Bytes)
  | contentType :: _ :: _ :: hi :: lo :: rest =>
    let len := beDecode [hi, lo]
    if MAX_RECORD_ON_WIRE < len then none
    else if rest.length < len then none
    else some (⟨contentType, rest.take len⟩, rest.drop len)
  | _ => none

/-- `read_record` on a stream that arrives in chunks: the header, then the payload. -/
def readRecordFrom (chunks : List Bytes) : Option (Record × List Bytes) :=
  match readExact RECORD_HEADER_LEN chunks with
  | some ([contentType, _, _, hi, lo], chunks) =>
    let len := beDecode [hi, lo]
    if MAX_RECORD_ON_WIRE < len then none
    else
      match readExact len chunks with
      | some (payload, chunks) => some (⟨contentType, payload⟩, chunks)
      | none => none
  | _ => none

/-- **How a stream is cut does not matter to the reader.** -/
theorem readRecordFrom_eq (chunks : List Bytes) :
    (readRecord chunks.flatten = none → readRecordFrom chunks = none) ∧
      ∀ r rest, readRecord chunks.flatten = some (r, rest) →
        ∃ chunks', readRecordFrom chunks = some (r, chunks') ∧ chunks'.flatten = rest := by
  by_cases hlen : chunks.flatten.length < RECORD_HEADER_LEN
  · have hnone : readRecordFrom chunks = none := by
      rw [readRecordFrom, readExact_eq_none hlen]
    have hshort : readRecord chunks.flatten = none := by
      unfold readRecord
      split
      · next heq =>
        rw [heq, RECORD_HEADER_LEN] at hlen
        simp only [List.length_cons] at hlen
        omega
      · rfl
    rw [hshort]
    exact ⟨fun _ => hnone, fun r rest h => by cases h⟩
  · obtain ⟨chunks₁, hhead, hrest⟩ := readExact_eq_some (Nat.le_of_not_lt hlen)
    generalize hs : chunks.flatten = stream at *
    match stream with
    | [] | [_] | [_, _] | [_, _, _] | [_, _, _, _] => simp [RECORD_HEADER_LEN] at hlen
    | contentType :: v₁ :: v₂ :: hi :: lo :: body =>
      have hbody : chunks₁.flatten = body := hrest
      have hhead' : readExact RECORD_HEADER_LEN chunks =
          some ([contentType, v₁, v₂, hi, lo], chunks₁) := hhead
      simp only [readRecordFrom, hhead', readRecord]
      by_cases hmax : MAX_RECORD_ON_WIRE < beDecode [hi, lo]
      · simp [hmax]
      · by_cases hroom : body.length < beDecode [hi, lo]
        · rw [readExact_eq_none (by rwa [hbody])]
          simp [hmax, hroom]
        · obtain ⟨chunks₂, hpay, hrest₂⟩ :=
            readExact_eq_some (show beDecode [hi, lo] ≤ chunks₁.flatten.length by rw [hbody]; omega)
          rw [hbody] at hpay hrest₂
          rw [hpay]
          simp only [hmax, hroom, if_false]
          refine ⟨fun h => (by cases h), fun r rest h => ?_⟩
          cases h
          exact ⟨chunks₂, rfl, hrest₂⟩

section

variable {r : Record} {rest stream : Bytes} {v₁ v₂ : UInt8}

/-- Two bytes and the number they stand for. -/
theorem beEncode_two (n : Nat) : ∃ hi lo, beEncode 2 n = [hi, lo] :=
  ⟨_, _, rfl⟩

theorem length_withVersion : (r.withVersion v₁ v₂).length = RECORD_HEADER_LEN + r.payload.length := by
  simp only [Record.withVersion, List.length_append, length_beEncode, List.length_cons,
    List.length_nil, RECORD_HEADER_LEN]
  omega

/-- The parts of a record that is short enough, as a reader finds them. -/
theorem withVersion_append (h : r.payload.length ≤ MAX_RECORD_ON_WIRE) : ∃ hi lo,
    r.withVersion v₁ v₂ ++ rest = r.contentType :: v₁ :: v₂ :: hi :: lo :: (r.payload ++ rest) ∧
      beDecode [hi, lo] = r.payload.length ∧
      ¬ (r.payload ++ rest).length < r.payload.length := by
  obtain ⟨hi, lo, hlen⟩ := beEncode_two r.payload.length
  refine ⟨hi, lo, ?_, ?_, ?_⟩
  · rw [Record.withVersion, hlen]
    simp
  · have hlt : r.payload.length < 256 ^ 2 := Nat.lt_of_le_of_lt h (by decide)
    rw [← hlen, beDecode_beEncode hlt]
  · rw [List.length_append]
    omega

theorem decode_withVersion (h : r.payload.length ≤ MAX_RECORD_ON_WIRE) :
    Record.decode (r.withVersion v₁ v₂ ++ rest) = .ok (r, (r.withVersion v₁ v₂).length) := by
  obtain ⟨hi, lo, hstream, hdec, hroom⟩ := withVersion_append h
  rw [hstream, Record.decode, length_withVersion]
  simp only [hdec, if_neg (Nat.not_lt.mpr h), if_neg hroom, List.take_left]

/-- A record is read whatever its version bytes are. -/
theorem readRecord_withVersion (h : r.payload.length ≤ MAX_RECORD_ON_WIRE) :
    readRecord (r.withVersion v₁ v₂ ++ rest) = some (r, rest) := by
  obtain ⟨hi, lo, hstream, hdec, hroom⟩ := withVersion_append h
  rw [hstream, readRecord]
  simp only [hdec, if_neg (Nat.not_lt.mpr h), if_neg hroom, List.take_left, List.drop_left]

/-- **What a record was read from**: the record with some version bytes. -/
theorem of_readRecord (h : readRecord stream = some (r, rest)) : ∃ v₁ v₂,
    stream = r.withVersion v₁ v₂ ++ rest ∧ r.payload.length ≤ MAX_RECORD_ON_WIRE := by
  unfold readRecord at h
  split at h
  · next contentType v₁ v₂ hi lo body =>
    dsimp only at h
    split at h
    · cases h
    split at h
    · cases h
    next hmax hroom =>
    cases h
    have hlen : (body.take (beDecode [hi, lo])).length = beDecode [hi, lo] := by
      rw [List.length_take]
      omega
    refine ⟨v₁, v₂, ?_, ?_⟩
    · have hback : beEncode 2 (beDecode [hi, lo]) = [hi, lo] := beEncode_beDecode [hi, lo]
      simp only [Record.withVersion, hlen, hback]
      simp
    · rw [hlen]
      exact Nat.le_of_not_lt hmax
  · cases h

/-- A record that was read is written again, with the version 0x0303. -/
theorem encode_of_readRecord (h : readRecord stream = some (r, rest)) :
    r.encode = some (r.withVersion 0x03 0x03) := by
  obtain ⟨-, -, -, hlen⟩ := of_readRecord h
  exact if_pos (Nat.lt_of_le_of_lt hlen (by decide))

theorem withVersion_inj {w₁ w₂ : UInt8} {rest' : Bytes}
    (h : r.withVersion v₁ v₂ ++ rest = r.withVersion w₁ w₂ ++ rest') : v₁ = w₁ ∧ v₂ = w₂ := by
  simp only [Record.withVersion, List.cons_append, List.nil_append, List.cons.injEq] at h
  exact ⟨h.2.1, h.2.2.1⟩

end

end Leshiy.Tls
