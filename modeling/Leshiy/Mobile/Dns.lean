import Leshiy.Lib.IpAddr
import Leshiy.Lib.Scan
import Leshiy.Lib.Str

/-!
# DNS messages

`build_query`, `parse_answers` and `skip_name` of `leshiy-mobile/src/dns.rs`. The parser walks a message
at positions that it computes from lengths in the message. A message is written down as the names,
questions and records that it consists of.
-/

namespace Leshiy.Mobile.Dns

open Leshiy.Lib Scan

def TYPE_A : UInt16 := 1

def TYPE_AAAA : UInt16 := 28

def CLASS_IN : UInt16 := 1

/-! ## Queries -/

/-- An ASCII letter or digit, a hyphen or an underscore. -/
def isLabelByte (b : UInt8) : Bool :=
  (decide (0x30 ≤ b) && decide (b ≤ 0x39)) || (decide (0x41 ≤ b) && decide (b ≤ 0x5a)) ||
    (decide (0x61 ≤ b) && decide (b ≤ 0x7a)) || b == 0x2d || b == 0x5f

def validLabel (label : List UInt8) : Bool :=
  decide (1 ≤ label.length) && decide (label.length ≤ 63) && label.all isLabelByte

/-- The labels, each behind its length, if all are valid. -/
def pushLabels : List (List UInt8) → Option (List UInt8)
  | [] => some []
  | label :: rest =>
    if validLabel label then
      (pushLabels rest).map fun q => UInt8.ofNat label.length :: (label ++ q)
    else none

/-- `host.strip_suffix('.').unwrap_or(host)`. -/
def stripDot (host : List UInt8) : List UInt8 :=
  if host.getLast? = some 0x2e then host.dropLast else host

/-- The host is given as the bytes of its text. -/
def buildQuery (id : UInt16) (host : List UInt8) (qtype : UInt16) : Option (List UInt8) :=
  let host := stripDot host
  if host = [] ∨ 253 < host.length then none
  else
    (pushLabels (Str.split 0x2e host)).map fun labels =>
      beEncode 2 id.toNat ++ ([0x01, 0x00] ++ ([0, 1, 0, 0, 0, 0, 0, 0] ++ (labels ++
        ([0] ++ (beEncode 2 qtype.toNat ++ beEncode 2 CLASS_IN.toNat)))))

/-! ## Answers -/

section

variable (w : Width) (msg : List UInt8)

/-- The loop of `skip_name`. Each round but the last passes a label. -/
def skipNameLoop : Nat → Nat → Scan Nat
  | 0, _ => .error .endless
  | fuel + 1, i => do
    let b ← get msg i
    let len := b.toNat
    if len &&& 0xc0 = 0xc0 then do
      let j ← add w i 2
      if j ≤ msg.length then .ok j else .error .malformed
    else if len &&& 0xc0 = 0x00 then
      if len = 0 then add w i 1
      else do
        let j ← add w i (1 + len)
        skipNameLoop fuel j
    else .error .malformed

def skipName (i : Nat) : Scan Nat := skipNameLoop w msg (msg.length + 1) i

def skipQuestions : Nat → Nat → Scan Nat
  | 0, i => .ok i
  | n + 1, i => do
    let i ← skipName w msg i
    let i ← add w i 4
    skipQuestions n i

/-- The address in the data of a record, if it is of such a type. -/
def rdataAddress (rclass rtype : Nat) (rdata : List UInt8) : Scan (Option IpAddr) :=
  if rclass = CLASS_IN.toNat ∧ rtype = TYPE_A.toNat then
    if rdata.length = 4 then .ok (some (.v4 (BitVec.ofNat 32 (beDecode rdata))))
    else .error .malformed
  else if rclass = CLASS_IN.toNat ∧ rtype = TYPE_AAAA.toNat then
    if rdata.length = 16 then .ok (some (.v6 (BitVec.ofNat 128 (beDecode rdata))))
    else .error .malformed
  else .ok none

/-- Neither unspecified nor loopback. -/
def usable : IpAddr → Bool
  | .v4 b => !Ipv4.isUnspecified b && !Ipv4.isLoopback b
  | .v6 b => !Ipv6.isUnspecified b && !Ipv6.isLoopback b

def readAnswers : Nat → Nat → Scan (List IpAddr)
  | 0, _ => .ok []
  | n + 1, i => do
    let i ← skipName w msg i
    let rtype ← u16 w msg i
    let i₂ ← add w i 2
    let rclass ← u16 w msg i₂
    let i₈ ← add w i 8
    let len ← u16 w msg i₈
    let i₁₀ ← add w i 10
    let j ← add w i₁₀ len
    let rdata ← getRange msg i₁₀ j
    let ip ← rdataAddress rclass rtype rdata
    let out ← readAnswers n j
    return ip.toList.filter usable ++ out

/-- `malformed` stands for `None`. -/
def parseAnswers (id : UInt16) : Scan (List IpAddr) := do
  let flags ← u16 w msg 2
  let msgId ← u16 w msg 0
  if msgId ≠ id.toNat ∨ flags &&& 0x8000 = 0 ∨ flags &&& 0x000f ≠ 0 then .error .malformed
  else do
    let questions ← u16 w msg 4
    let answers ← u16 w msg 6
    let i ← skipQuestions w msg questions 12
    readAnswers w msg answers i

end

/-! ## Messages without a fault -/

section

variable {w : Width}

/-- A position in a slice leaves room for what is added to it. -/
theorem room (s : Slice w) : s.bytes.length + 1000000 < w.usize := by
  have hfits := s.fits
  cases w with
  | w32 =>
    rw [Width.usize] at *
    omega
  | w64 =>
    rw [Width.usize] at *
    omega

theorem ensures_skipNameLoop (s : Slice w) : ∀ fuel i, s.bytes.length - i < fuel →
    Ensures (skipNameLoop w s.bytes fuel i) fun j => j ≤ s.bytes.length
  | fuel + 1, i, hfuel => by
    have hroom := room s
    refine ensures_get.bind fun b hi => ?_
    have hb : b.toNat < 256 := b.toNat_lt
    dsimp only
    split
    · refine (ensures_add (P := fun _ => True) (by omega) trivial).bind fun j _ => ?_
      split
      · next hj => exact hj
      · rfl
    split
    · split
      · exact ensures_add (by omega) (by omega)
      · next hne =>
        refine (ensures_add (P := fun j => j = i + (1 + b.toNat)) (by omega) rfl).bind ?_
        rintro j rfl
        exact ensures_skipNameLoop s fuel _ (by omega)
    · rfl

/-- **A name is passed**, whatever the bytes are, and the position is in the message again. -/
theorem ensures_skipName (s : Slice w) (i : Nat) :
    Ensures (skipName w s.bytes i) fun j => j ≤ s.bytes.length :=
  ensures_skipNameLoop s _ i (by omega)

theorem ensures_skipQuestions (s : Slice w) : ∀ n i,
    Ensures (skipQuestions w s.bytes n i) fun _ => True
  | 0, _ => trivial
  | n + 1, i => by
    have hroom := room s
    refine (ensures_skipName s i).bind fun j hj => ?_
    refine (ensures_add (P := fun _ => True) (by omega) trivial).bind fun k _ => ?_
    exact ensures_skipQuestions s n k

theorem ensures_rdataAddress (rclass rtype : Nat) (rdata : List UInt8) :
    Ensures (rdataAddress rclass rtype rdata) fun _ => True := by
  unfold rdataAddress
  split
  · split
    · trivial
    · rfl
  split
  · split
    · trivial
    · rfl
  · trivial

theorem ensures_readAnswers (s : Slice w) : ∀ n i, Ensures (readAnswers w s.bytes n i) fun _ => True
  | 0, _ => trivial
  | n + 1, i => by
    have hroom := room s
    refine (ensures_skipName s i).bind fun i hi => ?_
    refine (ensures_u16 s).bind fun rtype _ => ?_
    refine (ensures_add (P := fun _ => True) (by omega) trivial).bind fun i₂ _ => ?_
    refine (ensures_u16 s).bind fun rclass _ => ?_
    refine (ensures_add (P := fun _ => True) (by omega) trivial).bind fun i₈ _ => ?_
    refine (ensures_u16 s).bind fun len hlen => ?_
    refine (ensures_add (P := fun k => k = i + 10) (by omega) rfl).bind ?_
    rintro _ rfl
    refine (ensures_add (P := fun _ => True) (by omega) trivial).bind fun j _ => ?_
    refine ensures_getRange.bind fun rdata _ => ?_
    refine (ensures_rdataAddress rclass rtype rdata).bind fun ip _ => ?_
    exact (ensures_readAnswers s n j).bind fun out _ => trivial

/-- **No bytes make the parser fault.** -/
theorem ensures_parseAnswers (s : Slice w) (id : UInt16) :
    Ensures (parseAnswers w s.bytes id) fun _ => True := by
  refine (ensures_u16 s).bind fun flags _ => ?_
  refine (ensures_u16 s).bind fun msgId _ => ?_
  split
  · rfl
  refine (ensures_u16 s).bind fun questions _ => ?_
  refine (ensures_u16 s).bind fun answers _ => ?_
  refine (ensures_skipQuestions s questions 12).bind fun i _ => ?_
  exact ensures_readAnswers s answers i

end

/-! ## What messages are made of -/

abbrev Label := { l : List UInt8 // 0 < l.length ∧ l.length < 64 }

/-- Labels, and a pointer to the rest of the name if it was compressed. -/
structure Name where
  labels : List Label
  pointer : Option (Fin 16384)

structure Question where
  name : Name
  qtype : UInt16
  qclass : UInt16

structure Record where
  name : Name
  rtype : UInt16
  rclass : UInt16
  ttl : UInt32
  rdata : List UInt8
  rdata_lt : rdata.length < 65536

/-- `rest` is what follows the answers. -/
structure Response where
  flags : UInt16
  questions : List Question
  answers : List Record
  questions_lt : questions.length < 65536
  answers_lt : answers.length < 65536
  nscount : UInt16
  arcount : UInt16
  rest : List UInt8

def encodeLabels (labels : List Label) : List UInt8 :=
  labels.flatMap fun l => UInt8.ofNat l.1.length :: l.1

def encodePointer : Option (Fin 16384) → List UInt8
  | none => [0]
  | some p => beEncode 2 (0xc000 + p.1)

def Name.encode (n : Name) : List UInt8 := encodeLabels n.labels ++ encodePointer n.pointer

def Question.encode (q : Question) : List UInt8 :=
  q.name.encode ++ (beEncode 2 q.qtype.toNat ++ beEncode 2 q.qclass.toNat)

def Record.encode (r : Record) : List UInt8 :=
  r.name.encode ++ (beEncode 2 r.rtype.toNat ++ (beEncode 2 r.rclass.toNat ++
    (beEncode 4 r.ttl.toNat ++ (beEncode 2 r.rdata.length ++ r.rdata))))

def Response.encode (r : Response) (id : UInt16) : List UInt8 :=
  beEncode 2 id.toNat ++ (beEncode 2 r.flags.toNat ++ (beEncode 2 r.questions.length ++
    (beEncode 2 r.answers.length ++ (beEncode 2 r.nscount.toNat ++ (beEncode 2 r.arcount.toNat ++
      (r.questions.flatMap Question.encode ++ (r.answers.flatMap Record.encode ++ r.rest)))))))

/-- A response, with no error code. -/
def Response.Answered (r : Response) : Prop :=
  r.flags.toNat &&& 0x8000 ≠ 0 ∧ r.flags.toNat &&& 0x000f = 0

/-- An address record carries as many bytes as its address has. -/
def Record.WellFormed (r : Record) : Prop :=
  r.rclass.toNat = CLASS_IN.toNat →
    (r.rtype.toNat = TYPE_A.toNat → r.rdata.length = 4) ∧ (r.rtype.toNat = TYPE_AAAA.toNat → r.rdata.length = 16)

/-- The address of an address record of class IN, if it carries one. -/
def Record.address (r : Record) : Option IpAddr :=
  if r.rclass.toNat = CLASS_IN.toNat ∧ r.rtype.toNat = TYPE_A.toNat ∧ r.rdata.length = 4 then
    some (.v4 (BitVec.ofNat 32 (beDecode r.rdata)))
  else if r.rclass.toNat = CLASS_IN.toNat ∧ r.rtype.toNat = TYPE_AAAA.toNat ∧ r.rdata.length = 16 then
    some (.v6 (BitVec.ofNat 128 (beDecode r.rdata)))
  else none

/-- The addresses in the records, in their order, without those that are unspecified or loopback. -/
def Response.addresses (r : Response) : List IpAddr :=
  (r.answers.filterMap Record.address).filter usable

/-! ## What was written is walked -/

section

variable {w : Width} {s : Slice w} {i : Nat} {rest : List UInt8}

theorem label_bits : ∀ n < 64, n &&& 0xc0 = 0x00 := by decide

theorem pointer_bits : ∀ n < 256, 192 ≤ n → n &&& 0xc0 = 0xc0 := by decide +kernel

/-- The two bytes of a pointer. -/
theorem encodePointer_some (p : Fin 16384) : ∃ hi lo : UInt8,
    encodePointer (some p) = [hi, lo] ∧ hi.toNat &&& 0xc0 = 0xc0 := by
  refine ⟨_, _, rfl, pointer_bits _ (UInt8.toNat_lt _) ?_⟩
  have hp := p.2
  rw [UInt8.toNat_ofNat']
  omega

theorem skipNameLoop_encode : ∀ (labels : List Label) (pointer : Option (Fin 16384)) (fuel i : Nat),
    s.bytes.drop i = encodeLabels labels ++ (encodePointer pointer ++ rest) → labels.length < fuel →
    skipNameLoop w s.bytes fuel i =
      .ok (i + (encodeLabels labels ++ encodePointer pointer).length)
  | [], none, fuel + 1, i, h, _ => by
    have hroom := room s
    have hi := lt_length_of_drop h
    rw [skipNameLoop, get_eq_ok h]
    exact add_eq_ok (by omega)
  | [], some p, fuel + 1, i, h, _ => by
    have hroom := room s
    obtain ⟨hi, lo, hp, hbits⟩ := encodePointer_some p
    rw [hp] at h
    have hlt := lt_length_of_drop (drop_add (x := [hi]) h)
    have hend : i + 2 ≤ s.bytes.length := by
      rw [List.length_singleton] at hlt
      omega
    rw [skipNameLoop, get_eq_ok h, hp]
    show (if hi.toNat &&& 0xc0 = 0xc0 then _ else _) = _
    rw [if_pos hbits, add_eq_ok (by omega)]
    exact if_pos hend
  | label :: labels, pointer, fuel + 1, i, h, hfuel => by
    have hroom := room s
    have hlen : (UInt8.ofNat label.1.length).toNat = label.1.length := by
      have hlt := label.2.2
      rw [UInt8.toNat_ofNat']
      omega
    have hcons : encodeLabels (label :: labels) =
        (UInt8.ofNat label.1.length :: label.1) ++ encodeLabels labels := rfl
    rw [hcons, List.append_assoc] at h
    have hi := lt_length_of_drop h
    have hzero : label.1.length &&& 0xc0 ≠ 0xc0 := by
      rw [label_bits _ label.2.2]
      decide
    have hpos : label.1.length ≠ 0 := label.2.1.ne'
    have hfits : i + (1 + label.1.length) < w.usize := by
      have hlt := label.2.2
      omega
    have hnext : s.bytes.drop (i + (1 + label.1.length)) =
        encodeLabels labels ++ (encodePointer pointer ++ rest) := by
      have hdrop := drop_add h
      rwa [List.length_cons, Nat.add_comm label.1.length 1] at hdrop
    have hloop := skipNameLoop_encode labels pointer fuel _ hnext (by
      rw [List.length_cons] at hfuel
      omega)
    rw [skipNameLoop, get_eq_ok h]
    show (if (UInt8.ofNat label.1.length).toNat &&& 0xc0 = 0xc0 then _ else _) = _
    rw [hlen, if_neg hzero, if_pos (label_bits _ label.2.2), if_neg hpos, add_eq_ok hfits]
    refine hloop.trans ?_
    have hsum : ((UInt8.ofNat label.1.length :: label.1) ++ (encodeLabels labels ++ encodePointer pointer)).length =
        1 + label.1.length + (encodeLabels labels ++ encodePointer pointer).length := by
      rw [List.length_append, List.length_cons, Nat.add_comm label.1.length 1]
    rw [hcons, List.append_assoc, hsum]
    congr 1
    omega

theorem length_le_encodeLabels : ∀ labels : List Label, labels.length ≤ (encodeLabels labels).length
  | [] => Nat.le_refl 0
  | label :: labels => by
    have ih := length_le_encodeLabels labels
    have hcons : encodeLabels (label :: labels) =
        (UInt8.ofNat label.1.length :: label.1) ++ encodeLabels labels := rfl
    rw [hcons, List.length_append, List.length_cons, List.length_cons]
    omega

/-- **A name that was written is walked to its end.** -/
theorem skipName_encode {n : Name} (h : s.bytes.drop i = n.encode ++ rest) :
    skipName w s.bytes i = .ok (i + n.encode.length) := by
  have hlen : n.labels.length ≤ s.bytes.length := by
    have hdrop : (s.bytes.drop i).length ≤ s.bytes.length := by
      rw [List.length_drop]
      exact Nat.sub_le _ _
    have hlabels := length_le_encodeLabels n.labels
    rw [h, Name.encode, List.length_append, List.length_append] at hdrop
    omega
  rw [Name.encode, List.append_assoc] at h
  exact skipNameLoop_encode n.labels n.pointer _ i h (Nat.lt_succ_of_le hlen)

theorem skipQuestions_encode : ∀ (qs : List Question) (i : Nat),
    s.bytes.drop i = qs.flatMap Question.encode ++ rest →
    skipQuestions w s.bytes qs.length i = .ok (i + (qs.flatMap Question.encode).length)
  | [], _, _ => rfl
  | q :: qs, i, h => by
    rw [List.flatMap_cons, List.append_assoc] at h
    have hname : s.bytes.drop i = q.name.encode ++ ((beEncode 2 q.qtype.toNat ++
        beEncode 2 q.qclass.toNat) ++ (qs.flatMap Question.encode ++ rest)) := by
      rw [h, Question.encode, List.append_assoc]
    have hskip := skipName_encode hname
    have hnext : s.bytes.drop (i + q.name.encode.length + 4) = qs.flatMap Question.encode ++ rest := by
      have hdrop := drop_add (drop_add hname)
      rwa [List.length_append, length_beEncode, length_beEncode] at hdrop
    have hj : i + q.name.encode.length ≤ s.bytes.length := by
      have hensures := ensures_skipName s i
      rwa [hskip] at hensures
    have hroom := room s
    have hloop := skipQuestions_encode qs _ hnext
    rw [List.length_cons, skipQuestions, hskip]
    show (add w (i + q.name.encode.length) 4 >>= fun i => skipQuestions w s.bytes qs.length i) = _
    rw [add_eq_ok (by omega)]
    refine hloop.trans ?_
    rw [List.flatMap_cons, List.length_append, Question.encode, List.length_append, List.length_append,
      length_beEncode, length_beEncode]
    congr 1
    omega

/-- What the records come to. -/
def answersOf : List Record → Scan (List IpAddr)
  | [] => .ok []
  | r :: rs => do
    let ip ← rdataAddress r.rclass.toNat r.rtype.toNat r.rdata
    let out ← answersOf rs
    return ip.toList.filter usable ++ out

/-- **Records that were written are found where they stand**, of whatever type they are. -/
theorem readAnswers_encode : ∀ (rs : List Record) (i : Nat),
    s.bytes.drop i = rs.flatMap Record.encode ++ rest →
    readAnswers w s.bytes rs.length i = answersOf rs
  | [], _, _ => rfl
  | r :: rs, i, h => by
    have hroom := room s
    have hlt := r.rdata_lt
    rw [List.flatMap_cons, List.append_assoc] at h
    have hname : s.bytes.drop i = r.name.encode ++ (beEncode 2 r.rtype.toNat ++
        (beEncode 2 r.rclass.toNat ++ (beEncode 4 r.ttl.toNat ++ (beEncode 2 r.rdata.length ++
          (r.rdata ++ (rs.flatMap Record.encode ++ rest)))))) := by
      rw [h, Record.encode]
      simp only [List.append_assoc]
    have hskip := skipName_encode hname
    have hrtype := drop_add hname
    generalize hk : i + r.name.encode.length = k at hskip hrtype
    have hrclass : s.bytes.drop (k + 2) = _ := drop_add hrtype
    have httl : s.bytes.drop (k + 2 + 2) = _ := drop_add hrclass
    have hrdlen : s.bytes.drop (k + 8) = _ := drop_add httl
    have hrdata : s.bytes.drop (k + 10) = _ := drop_add hrdlen
    have hnext : s.bytes.drop (k + 10 + r.rdata.length) = _ := drop_add hrdata
    have hten : k + 10 ≤ s.bytes.length := by
      obtain ⟨hi, lo, hb⟩ : ∃ hi lo, beEncode 2 r.rdata.length = [hi, lo] := ⟨_, _, rfl⟩
      rw [hb] at hrdlen
      have hlo := lt_length_of_drop (drop_add (x := [hi]) hrdlen)
      rw [List.length_singleton] at hlo
      omega
    have hloop := readAnswers_encode rs _ hnext
    rw [List.length_cons, readAnswers, answersOf, hskip]
    show (u16 w s.bytes k >>= fun rtype => _) = _
    rw [u16_eq_ok hrtype r.rtype.toNat_lt]
    show (add w k 2 >>= fun i₂ => _) = _
    rw [add_eq_ok (by omega)]
    show (u16 w s.bytes (k + 2) >>= fun rclass => _) = _
    rw [u16_eq_ok hrclass r.rclass.toNat_lt]
    show (add w k 8 >>= fun i₈ => _) = _
    rw [add_eq_ok (by omega)]
    show (u16 w s.bytes (k + 8) >>= fun len => _) = _
    rw [u16_eq_ok hrdlen hlt]
    show (add w k 10 >>= fun i₁₀ => _) = _
    rw [add_eq_ok (by omega)]
    show (add w (k + 10) r.rdata.length >>= fun j => _) = _
    rw [add_eq_ok (by omega)]
    show (getRange s.bytes (k + 10) (k + 10 + r.rdata.length) >>= fun rdata => _) = _
    rw [getRange_eq_ok hrdata hten]
    show (rdataAddress r.rclass.toNat r.rtype.toNat r.rdata >>= fun ip =>
      readAnswers w s.bytes rs.length (k + 10 + r.rdata.length) >>= fun out => _) = _
    rw [hloop]

/-- **A response is read as the records that were put into it.** -/
theorem parseAnswers_encode {r : Response} {id : UInt16} (h : s.bytes = r.encode id)
    (hr : r.Answered) : parseAnswers w s.bytes id = answersOf r.answers := by
  have hid : s.bytes.drop 0 = _ := h
  have hflags : s.bytes.drop 2 = _ := drop_add hid
  have hquestions : s.bytes.drop 4 = _ := drop_add hflags
  have hanswers : s.bytes.drop 6 = _ := drop_add hquestions
  have hns : s.bytes.drop 8 = _ := drop_add hanswers
  have har : s.bytes.drop 10 = _ := drop_add hns
  have hbody : s.bytes.drop 12 = _ := drop_add har
  have hrecords := drop_add hbody
  have hok : ¬ (id.toNat ≠ id.toNat ∨ r.flags.toNat &&& 0x8000 = 0 ∨ r.flags.toNat &&& 0x000f ≠ 0) := by
    rintro (hne | hquery | hcode)
    · exact hne rfl
    · exact hr.1 hquery
    · exact hcode hr.2
  rw [parseAnswers, u16_eq_ok hflags r.flags.toNat_lt]
  show (u16 w s.bytes 0 >>= fun msgId => _) = _
  rw [u16_eq_ok hid id.toNat_lt]
  show (if id.toNat ≠ id.toNat ∨ r.flags.toNat &&& 0x8000 = 0 ∨ r.flags.toNat &&& 0x000f ≠ 0 then _
    else _) = _
  rw [if_neg hok, u16_eq_ok hquestions r.questions_lt]
  show (u16 w s.bytes 6 >>= fun answers => _) = _
  rw [u16_eq_ok hanswers r.answers_lt]
  show (skipQuestions w s.bytes r.questions.length 12 >>= fun i => _) = _
  rw [skipQuestions_encode r.questions 12 hbody]
  exact readAnswers_encode r.answers _ hrecords

end

/-! ## What the records come to -/

theorem rdataAddress_of_wellFormed {r : Record} (h : r.WellFormed) :
    rdataAddress r.rclass.toNat r.rtype.toNat r.rdata = .ok r.address := by
  unfold rdataAddress Record.address
  by_cases ha : r.rclass.toNat = CLASS_IN.toNat ∧ r.rtype.toNat = TYPE_A.toNat
  · have hlen := (h ha.1).1 ha.2
    rw [if_pos ha, if_pos hlen, if_pos ⟨ha.1, ha.2, hlen⟩]
  have hnota : ¬ (r.rclass.toNat = CLASS_IN.toNat ∧ r.rtype.toNat = TYPE_A.toNat ∧ r.rdata.length = 4) :=
    fun hall => ha ⟨hall.1, hall.2.1⟩
  by_cases haaaa : r.rclass.toNat = CLASS_IN.toNat ∧ r.rtype.toNat = TYPE_AAAA.toNat
  · have hlen := (h haaaa.1).2 haaaa.2
    rw [if_neg ha, if_neg hnota, if_pos haaaa, if_pos hlen, if_pos ⟨haaaa.1, haaaa.2, hlen⟩]
  · have hnotaaaa : ¬ (r.rclass.toNat = CLASS_IN.toNat ∧ r.rtype.toNat = TYPE_AAAA.toNat ∧ r.rdata.length = 16) :=
      fun hall => haaaa ⟨hall.1, hall.2.1⟩
    rw [if_neg ha, if_neg hnota, if_neg haaaa, if_neg hnotaaaa]

theorem rdataAddress_of_not_wellFormed {r : Record} (h : ¬ r.WellFormed) :
    rdataAddress r.rclass.toNat r.rtype.toNat r.rdata = .error .malformed := by
  unfold rdataAddress
  split
  · next ha =>
    refine if_neg fun hlen => h fun hclass => ⟨fun _ => hlen, fun haaaa => ?_⟩
    exact absurd (ha.2.symm.trans haaaa) (by decide)
  split
  · next hnota haaaa =>
    exact if_neg fun hlen => h fun hclass => ⟨fun ha => absurd ⟨hclass, ha⟩ hnota, fun _ => hlen⟩
  · next hnota hnotaaaa =>
    refine absurd (fun hclass => ⟨fun ha => absurd ⟨hclass, ha⟩ hnota, fun haaaa => ?_⟩) h
    exact absurd ⟨hclass, haaaa⟩ hnotaaaa

theorem answersOf_of_wellFormed : ∀ {rs : List Record}, (∀ r ∈ rs, r.WellFormed) →
    answersOf rs = .ok ((rs.filterMap Record.address).filter usable)
  | [], _ => rfl
  | r :: rs, h => by
    rw [answersOf, rdataAddress_of_wellFormed (h r List.mem_cons_self),
      answersOf_of_wellFormed fun r' hmem => h r' (List.mem_cons_of_mem _ hmem)]
    show Except.ok _ = _
    congr 1
    cases haddr : r.address with
    | none => rw [List.filterMap_cons_none haddr]; rfl
    | some a => rw [List.filterMap_cons_some haddr, ← List.filter_append]; rfl

theorem answersOf_of_not_wellFormed : ∀ {rs : List Record}, (∃ r ∈ rs, ¬ r.WellFormed) →
    answersOf rs = .error .malformed
  | [], h => absurd h.choose_spec.1 List.not_mem_nil
  | r :: rs, h => by
    rw [answersOf]
    by_cases hr : r.WellFormed
    · have hrest : ∃ r' ∈ rs, ¬ r'.WellFormed := by
        obtain ⟨r', hmem, hbad⟩ := h
        rcases List.mem_cons.mp hmem with rfl | hmem
        · exact absurd hr hbad
        · exact ⟨r', hmem, hbad⟩
      rw [rdataAddress_of_wellFormed hr, answersOf_of_not_wellFormed hrest]
      rfl
    · rw [rdataAddress_of_not_wellFormed hr]
      rfl

/-! ## Queries are walked as well -/

theorem pushLabels_eq_some : ∀ {labels : List (List UInt8)} {q : List UInt8},
    pushLabels labels = some q → ∃ ls : List Label, q = encodeLabels ls
  | [], q, h => ⟨[], (Option.some.inj h).symm⟩
  | label :: labels, q, h => by
    rw [pushLabels] at h
    split at h
    · next hvalid =>
      obtain ⟨q', hq', rfl⟩ := Option.map_eq_some_iff.mp h
      obtain ⟨ls, rfl⟩ := pushLabels_eq_some hq'
      simp only [validLabel, Bool.and_eq_true, decide_eq_true_eq] at hvalid
      exact ⟨⟨label, by omega, by omega⟩ :: ls, rfl⟩
    · cases h

/-- **The question of a query is walked to its type and its class.** -/
theorem skipName_buildQuery {w : Width} {s : Slice w} {id : UInt16} {host : List UInt8}
    {qtype : UInt16} (h : buildQuery id host qtype = some s.bytes) : ∃ i,
    skipName w s.bytes 12 = .ok i ∧ i + 4 = s.bytes.length ∧
      s.bytes.drop i = beEncode 2 qtype.toNat ++ beEncode 2 CLASS_IN.toNat := by
  unfold buildQuery at h
  dsimp only at h
  split at h
  · cases h
  obtain ⟨labels, hlabels, hq⟩ := Option.map_eq_some_iff.mp h
  obtain ⟨ls, rfl⟩ := pushLabels_eq_some hlabels
  have hid : s.bytes.drop 0 = _ := hq.symm
  have hflags : s.bytes.drop 2 = _ := drop_add hid
  have hcounts : s.bytes.drop 4 = _ := drop_add hflags
  have hname : s.bytes.drop 12 = (⟨ls, none⟩ : Name).encode ++
      (beEncode 2 qtype.toNat ++ beEncode 2 CLASS_IN.toNat) := by
    have hdrop : s.bytes.drop 12 = _ := drop_add hcounts
    rw [hdrop, Name.encode, List.append_assoc]
    rfl
  have htail := drop_add hname
  refine ⟨_, skipName_encode hname, ?_, htail⟩
  have hlen : (s.bytes.drop (12 + (⟨ls, none⟩ : Name).encode.length)).length = 4 := by
    rw [htail]
    rfl
  rw [List.length_drop] at hlen
  omega

/-! ## The parser as a whole -/

/-- **Answers are taken out of every response**, unless one of its address records has no address. -/
theorem parse_answers_spec :
    (∀ (w : Width) (s : Slice w) (id : UInt16), parseAnswers w s.bytes id ≠ .error .overflow ∧
      parseAnswers w s.bytes id ≠ .error .endless) ∧
    (∀ (w : Width) (s : Slice w) (id : UInt16) (r : Response), s.bytes = r.encode id → r.Answered →
      ((∀ a ∈ r.answers, a.WellFormed) → parseAnswers w s.bytes id = .ok r.addresses) ∧
        ((∃ a ∈ r.answers, ¬ a.WellFormed) → parseAnswers w s.bytes id = .error .malformed)) ∧
    ∀ (w : Width) (s : Slice w) (id : UInt16) (host : List UInt8) (qtype : UInt16),
      buildQuery id host qtype = some s.bytes → ∃ i, skipName w s.bytes 12 = .ok i ∧
        i + 4 = s.bytes.length ∧ s.bytes.drop i = beEncode 2 qtype.toNat ++ beEncode 2 CLASS_IN.toNat := by
  refine ⟨fun w s id => ?_, fun w s id r h hr => ?_, fun w s id host qtype => skipName_buildQuery⟩
  · have hensures := ensures_parseAnswers s id
    refine ⟨fun heq => ?_, fun heq => ?_⟩
    · rw [heq] at hensures
      cases hensures
    · rw [heq] at hensures
      cases hensures
  · rw [parseAnswers_encode h hr]
    exact ⟨answersOf_of_wellFormed, answersOf_of_not_wellFormed⟩

/-- An address, and an address record that has none. -/
def shortRecord : Response where
  flags := 0x8180
  questions := []
  answers := [⟨⟨[], none⟩, 1, 1, 60, [1, 2, 3, 4], by decide⟩, ⟨⟨[], none⟩, 1, 1, 60, [1, 2, 3], by decide⟩]
  questions_lt := by decide
  answers_lt := by decide
  nscount := 0
  arcount := 0
  rest := []

/-- One record of the wrong length and the address of the other is not returned. -/
theorem parseAnswers_shortRecord :
    ∃ s : Slice .w64, s.bytes = shortRecord.encode 7 ∧ shortRecord.Answered ∧
      shortRecord.addresses = [.v4 0x01020304#32] ∧ parseAnswers .w64 s.bytes 7 = .error .malformed := by
  refine ⟨⟨shortRecord.encode 7, by decide⟩, rfl, ⟨by decide, by decide⟩, by decide, by decide⟩

/-- The address behind an alias is found, and the loopback address is not. -/
def aliased : Response where
  flags := 0x8180
  questions := [⟨⟨[⟨[0x61], by decide⟩], none⟩, 1, 1⟩]
  answers := [⟨⟨[], some 12⟩, 5, 1, 60, [1, 0x78, 0xc0, 0x0c], by decide⟩,
    ⟨⟨[⟨[0x78], by decide⟩], some 12⟩, 1, 1, 60, [127, 0, 0, 1], by decide⟩,
    ⟨⟨[⟨[0x78], by decide⟩], some 12⟩, 1, 1, 60, [93, 184, 216, 34], by decide⟩]
  questions_lt := by decide
  answers_lt := by decide
  nscount := 0
  arcount := 0
  rest := []

theorem parse_answers_spec_aliased :
    (∃ s : Slice .w64, s.bytes = aliased.encode 7 ∧
      parseAnswers .w64 s.bytes 7 = .ok [.v4 0x5db8d822#32]) ∧
    ∃ s : Slice .w32, ∃ i, buildQuery 7 [0x61, 0x2e, 0x62] 28 = some s.bytes ∧
      skipName .w32 s.bytes 12 = .ok i ∧ i + 4 = s.bytes.length := by
  obtain ⟨-, hparse, hquery⟩ := parse_answers_spec
  refine ⟨⟨⟨aliased.encode 7, by decide⟩, rfl, ?_⟩, ?_⟩
  · have hwell : ∀ a ∈ aliased.answers, a.WellFormed := by
      unfold Record.WellFormed
      decide
    have hspec := hparse .w64 ⟨aliased.encode 7, by decide⟩ 7 aliased rfl ⟨by decide, by decide⟩
    exact (hspec.1 hwell).trans (by decide)
  · have hbuilt : buildQuery 7 [0x61, 0x2e, 0x62] 28 =
        some [0, 7, 1, 0, 0, 1, 0, 0, 0, 0, 0, 0, 1, 0x61, 1, 0x62, 0, 0, 28, 0, 1] := by decide
    obtain ⟨i, hskip, hend, -⟩ := hquery .w32 ⟨_, by decide⟩ 7 [0x61, 0x2e, 0x62] 28 hbuilt
    exact ⟨⟨_, _⟩, i, hbuilt, hskip, hend⟩

end Leshiy.Mobile.Dns
