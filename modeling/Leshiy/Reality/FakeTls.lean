import Leshiy.Tls.Record

/-!
# The fake-TLS envelope of MTProxy

`read_app_data` and `write_app_data` of `leshiy-reality/src/mtproxy/faketls.rs`: after the handshake the
stream is carried in application-data records, with ChangeCipherSpec records anywhere in between. A
stream of records *carries* some data, and the reader finds that data however the stream was cut on its
way.
-/

namespace Leshiy.Reality.MtProxy

open Leshiy.Lib Leshiy.Tls

def CHANGE_CIPHER_SPEC : UInt8 := 0x14

/-- The loop of `read_app_data`. Each round takes a record, so the bytes that are there are fuel
enough. -/
def readAppDataLoop : Nat → List Bytes → Option (Bytes × List Bytes)
  | 0, _ => none
  | fuel + 1, chunks =>
    match readRecordFrom chunks with
    | none => none
    | some (record, chunks) =>
      if record.contentType = CHANGE_CIPHER_SPEC then readAppDataLoop fuel chunks
      else if record.contentType = APPLICATION_DATA then some (record.payload, chunks)
      else none

def readAppData (chunks : List Bytes) : Option (Bytes × List Bytes) :=
  readAppDataLoop (chunks.flatten.length + 1) chunks

/-- The loop of `write_app_data` over parts of at most one record each, which always fit their length
field. -/
def writeAppDataLoop : Nat → Bytes → Bytes
  | 0, _ => []
  | fuel + 1, data =>
    if data = [] then []
    else
      Record.withVersion ⟨APPLICATION_DATA, data.take MAX_RECORD_PAYLOAD⟩ 0x03 0x03 ++
        writeAppDataLoop fuel (data.drop MAX_RECORD_PAYLOAD)

def writeAppData (data : Bytes) : Bytes := writeAppDataLoop data.length data

/-- All the data that a reader finds. -/
def readAllLoop : Nat → List Bytes → Bytes
  | 0, _ => []
  | fuel + 1, chunks =>
    match readAppData chunks with
    | none => []
    | some (b, chunks) => b ++ readAllLoop fuel chunks

def readAll (chunks : List Bytes) : Bytes := readAllLoop (chunks.flatten.length + 1) chunks

/-- A stream of records, with any version bytes, that carries the data and ends with `tail`. -/
inductive Carries (tail : Bytes) : Bytes → Bytes → Prop
  | done : Carries tail tail []
  | changeCipherSpec {payload stream data : Bytes} (v₁ v₂ : UInt8)
      (hlen : payload.length ≤ MAX_RECORD_ON_WIRE) (hrest : Carries tail stream data) :
      Carries tail (Record.withVersion ⟨CHANGE_CIPHER_SPEC, payload⟩ v₁ v₂ ++ stream) data
  | appData {payload stream data : Bytes} (v₁ v₂ : UInt8)
      (hlen : payload.length ≤ MAX_RECORD_ON_WIRE) (hrest : Carries tail stream data) :
      Carries tail (Record.withVersion ⟨APPLICATION_DATA, payload⟩ v₁ v₂ ++ stream) (payload ++ data)

section

variable {tail stream stream' data data' : Bytes}

theorem Carries.append (h : Carries stream' stream data) (h' : Carries tail stream' data') :
    Carries tail stream (data ++ data') := by
  induction h with
  | done => exact h'
  | changeCipherSpec v₁ v₂ hlen _ ih => exact .changeCipherSpec v₁ v₂ hlen ih
  | appData v₁ v₂ hlen _ ih =>
    rw [List.append_assoc]
    exact .appData v₁ v₂ hlen ih

theorem Carries.extend (h : Carries [] stream data) : Carries tail (stream ++ tail) data := by
  induction h with
  | done => exact .done
  | changeCipherSpec v₁ v₂ hlen _ ih =>
    rw [List.append_assoc]
    exact .changeCipherSpec v₁ v₂ hlen ih
  | appData v₁ v₂ hlen _ ih =>
    rw [List.append_assoc]
    exact .appData v₁ v₂ hlen ih

/-- A record that is written after the others. -/
theorem Carries.snoc {payload : Bytes} (h : Carries [] stream data)
    (hlen : payload.length ≤ MAX_RECORD_ON_WIRE) (v₁ v₂ : UInt8) :
    Carries [] (stream ++ Record.withVersion ⟨APPLICATION_DATA, payload⟩ v₁ v₂) (data ++ payload) := by
  have hone : Carries [] (Record.withVersion ⟨APPLICATION_DATA, payload⟩ v₁ v₂ ++ []) (payload ++ []) :=
    .appData v₁ v₂ hlen .done
  rw [List.append_nil, List.append_nil] at hone
  exact h.extend.append hone

/-- What is left of a stream when the reader has taken a record off its front. -/
theorem readRecordFrom_withVersion {r : Record} {v₁ v₂ : UInt8} {chunks : List Bytes}
    (hlen : r.payload.length ≤ MAX_RECORD_ON_WIRE)
    (hchunks : chunks.flatten = r.withVersion v₁ v₂ ++ stream) :
    ∃ chunks', readRecordFrom chunks = some (r, chunks') ∧ chunks'.flatten = stream := by
  refine (readRecordFrom_eq chunks).2 r stream ?_
  rw [hchunks]
  exact readRecord_withVersion hlen

theorem readAppDataLoop_of_carries (h : Carries tail stream data) (htail : readRecord tail = none) :
    ∀ (fuel : Nat) (chunks : List Bytes), chunks.flatten = stream → stream.length < fuel →
      (readAppDataLoop fuel chunks = none ∧ data = []) ∨
        ∃ payload chunks' data', readAppDataLoop fuel chunks = some (payload, chunks') ∧
          data = payload ++ data' ∧ Carries tail chunks'.flatten data' ∧
          chunks'.flatten.length < stream.length := by
  induction h with
  | done =>
    intro fuel chunks hchunks hfuel
    obtain ⟨fuel, rfl⟩ : ∃ k, fuel = k + 1 := ⟨fuel - 1, by omega⟩
    have hnone : readRecordFrom chunks = none := by
      apply (readRecordFrom_eq chunks).1
      rw [hchunks]
      exact htail
    refine .inl ⟨?_, rfl⟩
    rw [readAppDataLoop, hnone]
  | @changeCipherSpec payload stream data v₁ v₂ hlen hrest ih =>
    intro fuel chunks hchunks hfuel
    obtain ⟨fuel, rfl⟩ : ∃ k, fuel = k + 1 := ⟨fuel - 1, by omega⟩
    obtain ⟨chunks₁, hread, hflat⟩ := readRecordFrom_withVersion hlen hchunks
    have hloop : readAppDataLoop (fuel + 1) chunks = readAppDataLoop fuel chunks₁ := by
      rw [readAppDataLoop, hread]
      exact if_pos rfl
    rw [List.length_append, length_withVersion, RECORD_HEADER_LEN] at hfuel
    rw [hloop, List.length_append]
    rcases ih fuel chunks₁ hflat (by omega) with hend | ⟨p, chunks₂, d, hsome, hd, hc, hlt⟩
    · exact .inl hend
    · exact .inr ⟨p, chunks₂, d, hsome, hd, hc, by omega⟩
  | @appData payload stream data v₁ v₂ hlen hrest ih =>
    intro fuel chunks hchunks hfuel
    obtain ⟨fuel, rfl⟩ : ∃ k, fuel = k + 1 := ⟨fuel - 1, by omega⟩
    obtain ⟨chunks₁, hread, hflat⟩ := readRecordFrom_withVersion hlen hchunks
    refine .inr ⟨payload, chunks₁, data, ?_, rfl, ?_, ?_⟩
    · rw [readAppDataLoop, hread]
      rfl
    · rw [hflat]
      exact hrest
    · rw [hflat, List.length_append, length_withVersion, RECORD_HEADER_LEN]
      omega

/-- **The reader finds the next piece of the data**, or the data is at its end. -/
theorem readAppData_of_carries {chunks : List Bytes} (h : Carries tail chunks.flatten data)
    (htail : readRecord tail = none) :
    (readAppData chunks = none ∧ data = []) ∨
      ∃ payload chunks' data', readAppData chunks = some (payload, chunks') ∧
        data = payload ++ data' ∧ Carries tail chunks'.flatten data' ∧
        chunks'.flatten.length < chunks.flatten.length :=
  readAppDataLoop_of_carries h htail _ chunks rfl (Nat.lt_succ_self _)

theorem readAllLoop_of_carries (htail : readRecord tail = none) : ∀ (fuel : Nat) (chunks : List Bytes)
    (data : Bytes), Carries tail chunks.flatten data → chunks.flatten.length < fuel →
    readAllLoop fuel chunks = data
  | 0, _, _, _, hfuel => by omega
  | fuel + 1, chunks, data, h, hfuel => by
    rcases readAppData_of_carries h htail with ⟨hnone, rfl⟩ | ⟨b, chunks', data', hsome, rfl, hrest, hlt⟩
    · rw [readAllLoop, hnone]
    · rw [readAllLoop, hsome]
      exact congrArg (b ++ ·) (readAllLoop_of_carries htail fuel chunks' data' hrest (by omega))

/-- **All the data is found.** -/
theorem readAll_of_carries {chunks : List Bytes} (h : Carries tail chunks.flatten data)
    (htail : readRecord tail = none) : readAll chunks = data :=
  readAllLoop_of_carries htail _ chunks data h (Nat.lt_succ_self _)

/-- A record that is cut short is not read. -/
theorem readRecord_of_cut {r : Record} {v₁ v₂ : UInt8} {pre rest : Bytes}
    (hlen : r.payload.length ≤ MAX_RECORD_ON_WIRE) (hcut : pre ++ rest = r.withVersion v₁ v₂)
    (hrest : rest ≠ []) : readRecord pre = none := by
  by_contra hne
  obtain ⟨⟨r', left⟩, hread⟩ := Option.ne_none_iff_exists'.mp hne
  obtain ⟨w₁, w₂, rfl, hlen'⟩ := of_readRecord hread
  have hwhole : readRecord (r.withVersion v₁ v₂ ++ []) = some (r, []) := readRecord_withVersion hlen
  rw [List.append_nil, ← hcut, List.append_assoc, readRecord_withVersion hlen'] at hwhole
  have hnil : left ++ rest = [] := congrArg Prod.snd (Option.some.inj hwhole)
  exact hrest (List.append_eq_nil_iff.mp hnil).2

/-- The start of a stream carries the start of the data, and what is cut is not read. -/
theorem Carries.of_prefix (h : Carries [] stream data) : ∀ pre, pre <+: stream →
    ∃ cut data', Carries cut pre data' ∧ readRecord cut = none ∧ data' <+: data := by
  have hcut : ∀ {r : Record} {v₁ v₂ : UInt8} {stream pre : Bytes},
      r.payload.length ≤ MAX_RECORD_ON_WIRE → pre <+: r.withVersion v₁ v₂ ++ stream →
      readRecord pre = none ∨ ∃ pre', pre = r.withVersion v₁ v₂ ++ pre' ∧ pre' <+: stream := by
    intro r v₁ v₂ stream pre hlen hpre
    rcases List.prefix_or_prefix_of_prefix hpre (List.prefix_append _ _) with
      ⟨rest, hrest⟩ | ⟨pre', rfl⟩
    · by_cases hnil : rest = []
      · subst hnil
        rw [List.append_nil] at hrest
        exact .inr ⟨[], by rw [List.append_nil, hrest], List.nil_prefix⟩
      · exact .inl (readRecord_of_cut hlen hrest hnil)
    · exact .inr ⟨pre', rfl, (List.prefix_append_right_inj _).mp hpre⟩
  induction h with
  | done =>
    intro pre hpre
    rw [List.prefix_nil.mp hpre]
    exact ⟨[], [], .done, rfl, List.nil_prefix⟩
  | @changeCipherSpec payload stream data v₁ v₂ hlen _ ih =>
    intro pre hpre
    rcases hcut hlen hpre with hnone | ⟨pre', rfl, hpre'⟩
    · exact ⟨pre, [], .done, hnone, List.nil_prefix⟩
    · obtain ⟨cut, data', hc, hnone, hd⟩ := ih pre' hpre'
      exact ⟨cut, data', .changeCipherSpec v₁ v₂ hlen hc, hnone, hd⟩
  | @appData payload stream data v₁ v₂ hlen _ ih =>
    intro pre hpre
    rcases hcut hlen hpre with hnone | ⟨pre', rfl, hpre'⟩
    · exact ⟨pre, [], .done, hnone, List.nil_prefix⟩
    · obtain ⟨cut, data', hc, hnone, hd⟩ := ih pre' hpre'
      exact ⟨cut, payload ++ data', .appData v₁ v₂ hlen hc, hnone,
        (List.prefix_append_right_inj _).mpr hd⟩

/-- Data of at most one record is written as one. -/
theorem writeAppData_one (hne : data ≠ []) (hlen : data.length ≤ MAX_RECORD_PAYLOAD) :
    writeAppData data = Record.withVersion ⟨APPLICATION_DATA, data⟩ 0x03 0x03 := by
  have hpos : 0 < data.length := List.length_pos_iff.mpr hne
  obtain ⟨n, hn⟩ : ∃ n, data.length = n + 1 := ⟨data.length - 1, by omega⟩
  have hend : ∀ fuel, writeAppDataLoop fuel [] = [] := by
    intro fuel
    cases fuel with
    | zero => rfl
    | succ fuel => exact if_pos rfl
  rw [writeAppData, hn, writeAppDataLoop, if_neg hne, List.take_of_length_le hlen,
    List.drop_eq_nil_of_le hlen, hend, List.append_nil]

end

end Leshiy.Reality.MtProxy
