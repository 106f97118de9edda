import Mathlib.Data.List.Basic

/-!
# The download half of an egress over HTTP/3

`H3EgressRead` (`leshiy-quic/src/connector.rs`) reads the DATA of a request stream into the buffers of its
caller and keeps between two calls what did not fit. `recv_data` hands over a `Buf`, whose bytes may lie in
several segments. The reader copies what `chunk` shows of it, which is the first segment.
-/

namespace Leshiy.Quic

/-- A `Buf`: bytes in segments, none of them empty. -/
structure Buf where
  segments : List (List UInt8)
  segments_ne : [] ∉ segments

/-- The bytes of all segments. -/
def Buf.bytes (b : Buf) : List UInt8 :=
  b.segments.flatten

def Buf.chunk (b : Buf) : List UInt8 :=
  b.segments.head?.getD []

theorem Buf.chunk_eq_bytes_iff (b : Buf) : b.chunk = b.bytes ↔ b.segments.length ≤ 1 := by
  unfold Buf.chunk Buf.bytes
  rcases hseg : b.segments with _ | ⟨s, _ | ⟨t, ts⟩⟩
  · simp
  · simp
  · -- the second segment has a byte that the first does not show
    have ht : t ≠ [] := by
      rintro rfl
      exact b.segments_ne (by simp [hseg])
    simp [ht]

theorem Buf.chunk_sublist (b : Buf) : b.chunk.Sublist b.bytes := by
  unfold Buf.chunk Buf.bytes
  cases b.segments with
  | nil => exact List.Sublist.refl _
  | cons s ts => exact List.sublist_append_left s ts.flatten

theorem Buf.chunk_eq_nil_iff (b : Buf) : b.chunk = [] ↔ b.segments = [] := by
  unfold Buf.chunk
  rcases hseg : b.segments with _ | ⟨s, ts⟩
  · simp
  · have hs : s ≠ [] := by
      rintro rfl
      exact b.segments_ne (by simp [hseg])
    simp [hs]

/-- How a request stream ends. -/
inductive StreamEnd where
  | eof
  | reset (msg : String)
  deriving DecidableEq, Repr

/-- What is still to come on a request stream. -/
structure RecvStream where
  bufs : List Buf
  ending : StreamEnd

def RecvStream.recvData (s : RecvStream) : Except String (Option Buf) × RecvStream :=
  match s.bufs, s.ending with
  | chunk :: bufs, _ => (.ok (some chunk), { s with bufs })
  | [], .eof => (.ok none, s)
  | [], .reset msg => (.error msg, s)

structure H3EgressRead where
  recv : RecvStream
  /-- Bytes of the last DATA frame that no call has taken yet. -/
  buf : List UInt8

/-- The reader that `wrap_halves` makes. -/
def wrapHalves (recv : RecvStream) : H3EgressRead :=
  ⟨recv, []⟩

namespace H3EgressRead

/-- The bytes of the leftover that fit into `len`. -/
def drain (r : H3EgressRead) (len : Nat) : Except String (List UInt8) × H3EgressRead :=
  let n := min len r.buf.length
  (.ok (r.buf.take n), { r with buf := r.buf.drop n })

/-- A call with an output buffer of `len` bytes: the bytes it has put there. -/
def read (r : H3EgressRead) (len : Nat) : Except String (List UInt8) × H3EgressRead :=
  if r.buf.isEmpty then
    match r.recv.recvData with
    | (.error msg, recv) => (.error msg, { r with recv })
    | (.ok (some chunk), recv) => drain ⟨recv, chunk.chunk⟩ len
    | (.ok none, recv) => (.ok [], { r with recv })
  else r.drain len

theorem drain_eq (r : H3EgressRead) (len : Nat) :
    r.drain len = (.ok (r.buf.take len), { r with buf := r.buf.drop len }) := by
  unfold drain
  rcases Nat.le_total len r.buf.length with h | h
  · simp [Nat.min_eq_left h]
  · simp [Nat.min_eq_right h, List.take_of_length_le h, List.drop_eq_nil_of_le h]

theorem read_leftover {r : H3EgressRead} (hbuf : r.buf ≠ []) (len : Nat) :
    r.read len = (.ok (r.buf.take len), { r with buf := r.buf.drop len }) := by
  rw [read, if_neg (by simpa using hbuf), drain_eq]

theorem read_refill (b : Buf) (bs : List Buf) (ending : StreamEnd) (len : Nat) :
    read ⟨⟨b :: bs, ending⟩, []⟩ len =
      (.ok (b.chunk.take len), ⟨⟨bs, ending⟩, b.chunk.drop len⟩) := by
  exact drain_eq ⟨⟨bs, ending⟩, b.chunk⟩ len

theorem read_end (ending : StreamEnd) (len : Nat) :
    read ⟨⟨[], ending⟩, []⟩ len =
      (match ending with
        | .eof => .ok []
        | .reset msg => .error msg, ⟨⟨[], ending⟩, []⟩) := by
  cases ending <;> rfl

/-- No byte is left and none will come. -/
def AtEnd (r : H3EgressRead) : Prop :=
  r.buf = [] ∧ r.recv.bufs = [] ∧ r.recv.ending = .eof

/-- What is left of the last buffer, and all that is still to come. -/
def pending (r : H3EgressRead) : List UInt8 :=
  r.buf ++ r.recv.bufs.flatMap Buf.bytes

/-- The buffer that this call takes, if it takes one, is shown whole by `chunk`, and is not empty unless
the output is. -/
def Whole (r : H3EgressRead) (len : Nat) : Prop :=
  r.buf = [] → ∀ b ∈ r.recv.bufs.head?, b.segments.length = 1 ∨ (len = 0 ∧ b.segments = [])

/-! ## One call -/

/-- The bytes that a call returns; a failed one returns none. -/
def bytesOf (res : Except String (List UInt8)) : List UInt8 :=
  res.toOption.getD []

theorem read_pending_sublist (r : H3EgressRead) (len : Nat) :
    (bytesOf (r.read len).1 ++ (r.read len).2.pending).Sublist r.pending := by
  obtain ⟨⟨bufs, ending⟩, buf⟩ := r
  by_cases hbuf : buf = []
  · subst hbuf
    cases bufs with
    | nil => cases ending <;> simp [read_end, bytesOf, pending, Except.toOption]
    | cons b bs =>
      simp only [read_refill, bytesOf, pending, Except.toOption, Option.getD_some, ← List.append_assoc,
        List.take_append_drop, List.nil_append, List.flatMap_cons]
      exact b.chunk_sublist.append_right _
  · rw [read_leftover hbuf]
    simp only [bytesOf, pending, Except.toOption, Option.getD_some, ← List.append_assoc,
      List.take_append_drop, List.Sublist.refl]

theorem read_pending_eq_iff (r : H3EgressRead) (len : Nat) :
    bytesOf (r.read len).1 ++ (r.read len).2.pending = r.pending ↔
      (r.buf = [] → ∀ b ∈ r.recv.bufs.head?, b.segments.length ≤ 1) := by
  obtain ⟨⟨bufs, ending⟩, buf⟩ := r
  by_cases hbuf : buf = []
  · subst hbuf
    cases bufs with
    | nil => cases ending <;> simp [read_end, bytesOf, pending, Except.toOption]
    | cons b bs =>
      simp only [read_refill, bytesOf, pending, Except.toOption, Option.getD_some, ← List.append_assoc,
        List.take_append_drop, List.nil_append, List.flatMap_cons, List.append_left_inj, true_implies,
        List.head?_cons, Option.mem_some_iff, forall_eq']
      exact b.chunk_eq_bytes_iff
  · rw [read_leftover hbuf]
    simp only [bytesOf, pending, Except.toOption, Option.getD_some, ← List.append_assoc,
      List.take_append_drop, hbuf, false_implies]

/-- A call into a non-empty output that returns nothing is at the end, or has taken an empty buffer. -/
theorem read_nil_iff (r : H3EgressRead) {len : Nat} (hlen : 0 < len) :
    (r.read len).1 = .ok [] ↔
      r.AtEnd ∨ (r.buf = [] ∧ ∃ b ∈ r.recv.bufs.head?, b.segments = []) := by
  have hlen' : len ≠ 0 := Nat.ne_of_gt hlen
  obtain ⟨⟨bufs, ending⟩, buf⟩ := r
  by_cases hbuf : buf = []
  · subst hbuf
    cases bufs with
    | nil => cases ending <;> simp [read_end, AtEnd]
    | cons b bs => simp [read_refill, AtEnd, hlen', b.chunk_eq_nil_iff]
  · rw [read_leftover hbuf]
    simp [AtEnd, hbuf, hlen']

theorem read_bufs_suffix (r : H3EgressRead) (len : Nat) :
    (r.read len).2.recv.bufs <:+ r.recv.bufs := by
  obtain ⟨⟨bufs, ending⟩, buf⟩ := r
  by_cases hbuf : buf = []
  · subst hbuf
    cases bufs with
    | nil => cases ending <;> simp [read_end]
    | cons b bs => simpa only [read_refill] using List.suffix_cons b bs
  · have hkept : (read ⟨⟨bufs, ending⟩, buf⟩ len).2.recv.bufs = bufs := by rw [read_leftover hbuf]
    exact ⟨[], hkept⟩

/-! ## Calls one after the other -/

/-- The reader after calls with outputs of these sizes. -/
def after (r : H3EgressRead) : List Nat → H3EgressRead
  | [] => r
  | len :: sizes => (r.read len).2.after sizes

/-- What these calls returned, one after the other. -/
def returned (r : H3EgressRead) : List Nat → List UInt8
  | [] => []
  | len :: sizes => bytesOf (r.read len).1 ++ (r.read len).2.returned sizes

theorem after_bufs_suffix (r : H3EgressRead) (sizes : List Nat) :
    (r.after sizes).recv.bufs <:+ r.recv.bufs := by
  induction sizes generalizing r with
  | nil => exact List.suffix_rfl
  | cons len sizes ih => exact (ih _).trans (r.read_bufs_suffix len)

theorem returned_pending_sublist (r : H3EgressRead) (sizes : List Nat) :
    (r.returned sizes ++ (r.after sizes).pending).Sublist r.pending := by
  induction sizes generalizing r with
  | nil => exact List.Sublist.refl _
  | cons len sizes ih =>
    rw [returned, after, List.append_assoc]
    exact ((ih (r.read len).2).append_left _).trans (r.read_pending_sublist len)

/-- What these calls returned and what is left over are the buffers received meanwhile, and a call returned
nothing into a non-empty output only at the end of the stream. -/
structure Faithful (r : H3EgressRead) (sizes : List Nat) : Prop where
  bytes : ∃ received, r.recv.bufs = received ++ (r.after sizes).recv.bufs ∧
    r.returned sizes ++ (r.after sizes).buf = r.buf ++ received.flatMap Buf.bytes
  eof : ∀ done len rest, sizes = done ++ len :: rest → 0 < len →
    ((r.after done).read len).1 = .ok [] → (r.after done).AtEnd

/-- The same by what is still pending, which needs no mention of what was received. -/
theorem faithful_iff_pending (r : H3EgressRead) (sizes : List Nat) :
    r.Faithful sizes ↔
      r.returned sizes ++ (r.after sizes).pending = r.pending ∧
        ∀ done len rest, sizes = done ++ len :: rest → 0 < len →
          ((r.after done).read len).1 = .ok [] → (r.after done).AtEnd := by
  obtain ⟨received, hreceived⟩ := r.after_bufs_suffix sizes
  have hbytes : r.returned sizes ++ (r.after sizes).pending = r.pending ↔
      r.returned sizes ++ (r.after sizes).buf = r.buf ++ received.flatMap Buf.bytes := by
    rw [pending, pending, ← hreceived, List.flatMap_append, ← List.append_assoc, ← List.append_assoc,
      List.append_left_inj]
  refine ⟨fun ⟨⟨taken, htaken, heq⟩, heof⟩ => ⟨?_, heof⟩, fun ⟨heq, heof⟩ =>
    ⟨⟨received, hreceived.symm, hbytes.mp heq⟩, heof⟩⟩
  have hsame : taken = received :=
    List.append_cancel_right (htaken.symm.trans hreceived.symm)
  exact hbytes.mpr (hsame ▸ heq)

/-- One more call in front. -/
theorem faithful_cons_iff (r : H3EgressRead) (len : Nat) (sizes : List Nat) :
    r.Faithful (len :: sizes) ↔ r.Whole len ∧ (r.read len).2.Faithful sizes := by
  rw [faithful_iff_pending, faithful_iff_pending]
  constructor
  · rintro ⟨hall, heof⟩
    rw [returned, after, List.append_assoc] at hall
    -- the later calls do not make up for a byte that this one has lost
    have hstep : bytesOf (r.read len).1 ++ (r.read len).2.pending = r.pending := by
      refine (r.read_pending_sublist len).antisymm ?_
      rw [← hall]
      exact ((r.read len).2.returned_pending_sublist sizes).append_left _
    refine ⟨?_, List.append_cancel_left (hall.trans hstep.symm), ?_⟩
    · intro hbuf b hb
      have hle := (r.read_pending_eq_iff len).mp hstep hbuf b hb
      rcases Nat.eq_zero_or_pos b.segments.length with hnone | hsome
      · have hnil : b.segments = [] := List.length_eq_zero_iff.mp hnone
        refine Or.inr ⟨?_, hnil⟩
        by_contra hlen
        have hpos := Nat.pos_of_ne_zero hlen
        have hend : r.AtEnd :=
          heof [] len sizes rfl hpos ((r.read_nil_iff hpos).mpr (Or.inr ⟨hbuf, b, hb, hnil⟩))
        rw [hend.2.1] at hb
        cases hb
      · exact Or.inl (by omega)
    · intro done n rest hsizes
      exact heof (len :: done) n rest (by rw [hsizes, List.cons_append])
  · rintro ⟨hwhole, hall, heof⟩
    have hstep : bytesOf (r.read len).1 ++ (r.read len).2.pending = r.pending := by
      refine (r.read_pending_eq_iff len).mpr fun hbuf b hb => ?_
      rcases hwhole hbuf b hb with hone | ⟨-, hnil⟩
      · exact Nat.le_of_eq hone
      · simp [hnil]
    refine ⟨?_, ?_⟩
    · rw [returned, after, List.append_assoc, hall, hstep]
    · intro done n rest hsizes hpos hnil
      cases done with
      | nil =>
        rw [List.nil_append, List.cons.injEq] at hsizes
        obtain ⟨rfl, rfl⟩ := hsizes
        rcases (r.read_nil_iff hpos).mp hnil with hend | ⟨hbuf, b, hb, hempty⟩
        · exact hend
        · rcases hwhole hbuf b hb with hone | ⟨hzero, -⟩
          · simp [hempty] at hone
          · exact absurd hzero (Nat.ne_of_gt hpos)
      | cons m done =>
        rw [List.cons_append, List.cons.injEq] at hsizes
        obtain ⟨rfl, hsizes⟩ := hsizes
        exact heof done n rest hsizes hpos hnil

theorem faithful_iff_whole (r : H3EgressRead) (sizes : List Nat) :
    r.Faithful sizes ↔
      ∀ done len rest, sizes = done ++ len :: rest → (r.after done).Whole len := by
  induction sizes generalizing r with
  | nil =>
    refine iff_of_true ((faithful_iff_pending r []).mpr ⟨rfl, ?_⟩) ?_
    · intro done len rest hsizes
      simp at hsizes
    · intro done len rest hsizes
      simp at hsizes
  | cons n sizes ih =>
    rw [faithful_cons_iff, ih]
    constructor
    · rintro ⟨hwhole, hrest⟩ done len rest hsizes
      cases done with
      | nil =>
        rw [List.nil_append, List.cons.injEq] at hsizes
        exact hsizes.1 ▸ hwhole
      | cons m done =>
        rw [List.cons_append, List.cons.injEq] at hsizes
        obtain ⟨rfl, hsizes⟩ := hsizes
        exact hrest done len rest hsizes
    · intro hall
      refine ⟨hall [] n sizes rfl, ?_⟩
      intro done len rest hsizes
      exact hall (n :: done) len rest (by rw [hsizes, List.cons_append])

/-- Some call takes each buffer, and finds nothing left over. -/
theorem exists_after_head (ending : StreamEnd) (bufs : List Buf) {b : Buf} (hb : b ∈ bufs) :
    ∃ sizes, ((wrapHalves ⟨bufs, ending⟩).after sizes).buf = [] ∧
      ((wrapHalves ⟨bufs, ending⟩).after sizes).recv.bufs.head? = some b := by
  induction bufs with
  | nil => cases hb
  | cons c bs ih =>
    rcases List.mem_cons.mp hb with rfl | hb
    · exact ⟨[], rfl, rfl⟩
    · -- a call as long as the first buffer shows takes it away
      obtain ⟨sizes, hbuf, hhead⟩ := ih hb
      have hnext : (read (wrapHalves ⟨c :: bs, ending⟩) c.chunk.length).2 = wrapHalves ⟨bs, ending⟩ := by
        rw [wrapHalves, read_refill, List.drop_length]
        rfl
      refine ⟨c.chunk.length :: sizes, ?_, ?_⟩
      · rw [after, hnext]
        exact hbuf
      · rw [after, hnext]
        exact hhead

/-- **The reader is faithful where it meets buffers of one segment only**: on a stream, whatever the calls,
exactly if each of its buffers is one segment; in a run of calls, exactly if each of them that takes a buffer
takes one that `chunk` shows whole, and not an empty one for a non-empty output. -/
theorem read_faithful_iff (recv : RecvStream) :
    ((∀ sizes, (wrapHalves recv).Faithful sizes) ↔ ∀ b ∈ recv.bufs, b.segments.length = 1) ∧
    ∀ sizes, (wrapHalves recv).Faithful sizes ↔
      ∀ done len rest, sizes = done ++ len :: rest → ((wrapHalves recv).after done).Whole len := by
  refine ⟨⟨?_, ?_⟩, faithful_iff_whole _⟩
  · intro hall b hb
    obtain ⟨sizes, hbuf, hhead⟩ := exists_after_head recv.ending recv.bufs hb
    rcases (faithful_iff_whole _ _).mp (hall (sizes ++ [1])) sizes 1 [] rfl hbuf b hhead with hone | ⟨h, -⟩
    · exact hone
    · cases h
  · intro hone sizes
    refine (faithful_iff_whole _ _).mpr fun done len rest _ _ b hb => Or.inl (hone b ?_)
    exact ((wrapHalves recv).after_bufs_suffix done).subset (List.mem_of_mem_head? hb)

def single : Buf :=
  ⟨[[3]], by decide⟩

def twoSegments : Buf :=
  ⟨[[1], [2]], by decide⟩

def noSegment : Buf :=
  ⟨[], by decide⟩

/-- The second segment is lost, and a read before the end says that it is the end. -/
theorem read_not_faithful :
    ¬(wrapHalves ⟨[twoSegments, single], .eof⟩).Faithful [4, 4, 4] ∧
      ¬(wrapHalves ⟨[noSegment, single], .eof⟩).Faithful [4, 4, 4] := by
  constructor
  · rintro ⟨⟨received, hreceived, hbytes⟩, -⟩
    have hall : [twoSegments, single] = received :=
      hreceived.trans (List.append_nil received)
    have hlost : ([1, 3] : List UInt8) = [1, 2, 3] := by
      rw [← hall] at hbytes
      exact hbytes
    exact absurd hlost (by decide)
  · rintro ⟨-, heof⟩
    have hend := heof [] 4 [4, 4] rfl (by decide) rfl
    exact absurd hend.2.1 (List.cons_ne_nil _ _)

end H3EgressRead

end Leshiy.Quic
