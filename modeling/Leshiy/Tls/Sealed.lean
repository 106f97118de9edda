import Leshiy.Tls.Record
import Leshiy.Tls.Suite

/-!
# Sealed records

`leshiy-tls/src/tls13/record.rs`: a plaintext with its content type behind it, encrypted under the
record's header and a nonce made from the sequence number.
-/

namespace Leshiy.Tls

open Leshiy.Lib

/-- The sequence number over the end of the iv. -/
def nonce (iv : Block 12) (seq : UInt64) : Block 12 :=
  ⟨iv.1.take 4 ++ List.zipWith (· ^^^ ·) (iv.1.drop 4) (beEncode 8 seq.toNat), by simp [iv.2]⟩

/-- The header of a record of application data. -/
def sealedHeader (len : Nat) : Bytes := [APPLICATION_DATA, 0x03, 0x03] ++ beEncode 2 len

section

variable (prims : SuitePrimitives) (suite : CipherSuite) (key : Block suite.keyLen)
  (iv : Block 12) (seq : UInt64)

def sealRecord (innerType : UInt8) (plaintext : Bytes) : Except TlsError Bytes :=
  let inner := plaintext ++ [innerType]
  let ctLen := inner.length + suite.tagLen
  if 2 ^ 16 ≤ ctLen then .error (.malformed "record" "too large")
  else
    let header := sealedHeader ctLen
    match (suite.aead prims).encrypt key (nonce iv seq) header inner with
    | none => .error (.malformed "record" "seal")
    | some ct => .ok (header ++ ct)

/-- Content type and plaintext of what was decrypted: zeros at the end are padding. -/
def innerPlaintext (inner : Bytes) : Except TlsError (UInt8 × Bytes) :=
  match inner.reverse.dropWhile (· == 0) with
  | [] => .error (.malformed "record" "empty inner")
  | innerType :: rest => .ok (innerType, rest.reverse)

def openRecordParts (header body : Bytes) : Except TlsError (UInt8 × Bytes) :=
  match (suite.aead prims).decrypt key (nonce iv seq) header body with
  | none => .error (.malformed "record" "open/tag")
  | some inner => innerPlaintext inner

def openRecord (record : Bytes) : Except TlsError (UInt8 × Bytes) :=
  if record.length < 5 then .error (.truncated 5 record.length)
  else openRecordParts prims suite key iv seq (record.take 5) (record.drop 5)

end

section

variable {prims : SuitePrimitives} {suite : CipherSuite} {key : Block suite.keyLen}
  {iv : Block 12} {seq : UInt64} {innerType : UInt8} {plaintext : Bytes}

theorem innerPlaintext_snoc (htype : innerType ≠ 0) :
    innerPlaintext (plaintext ++ [innerType]) = .ok (innerType, plaintext) := by
  have hkeep : ¬ (innerType == 0) = true := by simpa using htype
  rw [innerPlaintext, List.reverse_append, List.reverse_singleton, List.singleton_append,
    List.dropWhile_cons, if_neg hkeep]
  simp

/-- **A short plaintext is sealed into one record, and the record opens to it.** -/
theorem openRecordParts_sealRecord (hcorrect : prims.Correct)
    (hlen : plaintext.length + 17 < 2 ^ 16) (htype : innerType ≠ 0) :
    ∃ ct, sealRecord prims suite key iv seq innerType plaintext =
        .ok ((Record.mk APPLICATION_DATA ct).withVersion 0x03 0x03) ∧
      ct.length = plaintext.length + 17 ∧
      openRecordParts prims suite key iv seq (sealedHeader ct.length) ct =
        .ok (innerType, plaintext) := by
  have hinner : (plaintext ++ [innerType]).length = plaintext.length + 1 := by simp
  have htag : (plaintext ++ [innerType]).length + suite.tagLen = plaintext.length + 17 := by
    rw [hinner, CipherSuite.tagLen]
  obtain ⟨ct, henc, hct, hdec⟩ := suite.aead_correct hcorrect key (nonce iv seq)
    (sealedHeader (plaintext.length + 17)) (plaintext ++ [innerType]) (by omega)
  have hctlen : ct.length = plaintext.length + 17 := by omega
  refine ⟨ct, ?_, hctlen, ?_⟩
  · unfold sealRecord
    simp only [htag, if_neg (Nat.not_le.mpr hlen), henc]
    rw [Record.withVersion, hctlen, sealedHeader, List.append_assoc]
  · rw [openRecordParts, hctlen, hdec]
    exact innerPlaintext_snoc htype

theorem openRecord_sealRecord (hcorrect : prims.Correct) (hlen : plaintext.length + 17 < 2 ^ 16)
    (htype : innerType ≠ 0) : ∃ record,
      sealRecord prims suite key iv seq innerType plaintext = .ok record ∧
      openRecord prims suite key iv seq record = .ok (innerType, plaintext) := by
  obtain ⟨ct, hseal, -, hopen⟩ := openRecordParts_sealRecord hcorrect hlen htype
  refine ⟨_, hseal, ?_⟩
  have hsplit : (Record.mk APPLICATION_DATA ct).withVersion 0x03 0x03 =
      sealedHeader ct.length ++ ct := by
    rw [Record.withVersion, sealedHeader, List.append_assoc]
  have hheader : (sealedHeader ct.length).length = 5 := by simp [sealedHeader]
  have hlong : ¬ (sealedHeader ct.length ++ ct).length < 5 := by
    rw [List.length_append, hheader]
    omega
  rw [hsplit, openRecord, if_neg hlong, List.take_left' hheader, List.drop_left' hheader]
  exact hopen

end

end Leshiy.Tls
