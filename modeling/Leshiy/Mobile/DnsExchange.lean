import Mathlib.Data.List.Perm.Basic
import Leshiy.Lib.Reassembly
import Leshiy.Mobile.Dns

/-!
# DNS over a stream

`resolve_host` and `exchange` of `leshiy-mobile/src/dns.rs`. Both queries of a host are sent on one
stream, and the responses come in either order, each behind its length, cut up in any way and with other
messages in between. A stream ends with an empty chunk or with an error; `recv` of `ProxyStream` says
that callers treat both as its end.
-/

namespace Leshiy.Mobile.Dns

open Leshiy.Lib Scan

/-- Two responses with their lengths. -/
def MAX_BUFFERED : Nat := 2 * (2 + 65535)

inductive Ending where
  | closed
  | failed
  deriving DecidableEq

/-- What comes of the tunnel: whether the stream opens and takes the queries, the chunks that are received
on it and how it ends. -/
structure Net where
  opens : Bool
  sends : List UInt8 → Bool
  chunks : List (List UInt8)
  ending : Ending

/-! ## The exchange -/

/-- The message at the front, if all of it is there. -/
def takeMessage : List UInt8 → Option (List UInt8 × List UInt8)
  | hi :: lo :: rest =>
    let len := beDecode [hi, lo]
    if rest.length < len then none else some (rest.take len, rest.drop len)
  | _ => none

/-- The id in front of a message. -/
def messageId : List UInt8 → Option UInt16
  | hi :: lo :: _ => some (UInt16.ofNat (beDecode [hi, lo]))
  | _ => none

/-- `parse_answers(..).unwrap_or_default()`. -/
def addressesOf (w : Width) (msg : List UInt8) (id : UInt16) : List IpAddr :=
  match parseAnswers w msg id with
  | .ok addrs => addrs
  | .error _ => []

/-- The last element takes the place of the one that is removed. -/
def swapRemove {α : Type} (l : List α) (i : Nat) : List α :=
  match l.getLast? with
  | none => []
  | some last => (l.set i last).dropLast

/-- The variables of the loop. -/
structure Reading where
  pending : List UInt16
  buf : List UInt8
  out : List IpAddr

section

variable (w : Width)

def Reading.accept (r : Reading) (msg : List UInt8) : Reading :=
  match messageId msg with
  | none => r
  | some id =>
    match r.pending.findIdx? (· == id) with
    | none => r
    | some pos =>
      { r with pending := swapRemove r.pending pos, out := r.out ++ addressesOf w msg id }

/-- The inner loop. -/
def drainLoop : Nat → Reading → Reading
  | 0, r => r
  | fuel + 1, r =>
    match takeMessage r.buf with
    | none => r
    | some (msg, rest) => drainLoop fuel (Reading.accept w { r with buf := rest } msg)

def drain (r : Reading) : Reading := drainLoop w r.buf.length r

/-- The outer loop. `none` is the error of `recv`. -/
def readLoop (ending : Ending) : List (List UInt8) → Reading → Option (List IpAddr)
  | [], r =>
    if r.pending = [] then some r.out
    else
      match ending with
      | .closed => some r.out
      | .failed => none
  | chunk :: chunks, r =>
    if r.pending = [] then some r.out
    else if chunk = [] ∨ MAX_BUFFERED < r.buf.length + chunk.length then some r.out
    else readLoop ending chunks (drain w { r with buf := r.buf ++ chunk })

/-- The queries, each behind its length. -/
def wireOf (queries : List (List UInt8)) : List UInt8 :=
  queries.flatMap fun q => beEncode 2 q.length ++ q

def exchange (net : Net) (queries : List (List UInt8)) (ids : List UInt16) : Option (List IpAddr) :=
  if net.opens then
    if net.sends (wireOf queries) then readLoop w net.ending net.chunks ⟨ids, [], []⟩ else none
  else none

def resolveHost (net : Net) (host : List UInt8) (id : UInt16) : List IpAddr :=
  match buildQuery id host TYPE_A, buildQuery (id + 1) host TYPE_AAAA with
  | some a, some aaaa => (exchange w net [a, aaaa] [id, id + 1]).getD []
  | _, _ => []

end

/-! ## What was received -/

/-- A message behind its length. -/
def prefixed (msg : List UInt8) : List UInt8 := beEncode 2 msg.length ++ msg

/-- The addresses of the messages that answer one of the pending ids, and the ids that stay pending. The
first message with an id answers it. -/
def answers (w : Width) : List UInt16 → List (List UInt8) → List IpAddr × List UInt16
  | pending, [] => ([], pending)
  | pending, msg :: msgs =>
    match messageId msg with
    | none => answers w pending msgs
    | some id =>
      if id ∈ pending then
        let (addrs, left) := answers w (pending.erase id) msgs
        (addressesOf w msg id ++ addrs, left)
      else answers w pending msgs

/-- Messages behind their lengths. -/
def lengthPrefixed : Framing UInt8 (List UInt8) where
  take := takeMessage
  shorter := by
    intro s m r h
    match s, h with
    | hi :: lo :: rest, h =>
      rw [takeMessage] at h
      split at h
      · cases h
      · cases h
        rw [List.length_drop, List.length_cons, List.length_cons]
        omega
  extend := by
    intro s m r t h
    match s, h with
    | hi :: lo :: rest, h =>
      rw [takeMessage] at h
      split at h
      · cases h
      · next hlen =>
        cases h
        have hle : beDecode [hi, lo] ≤ rest.length := Nat.le_of_not_lt hlen
        rw [List.cons_append, List.cons_append, takeMessage,
          if_neg (by rw [List.length_append]; omega), List.take_append_of_le_length hle,
          List.drop_append_of_le_length hle]

theorem lengthPrefixed_take : lengthPrefixed.take = takeMessage := rfl

/-- Each chunk finds room in the buffer beside the message that is not complete yet. -/
def InBounds (chunks : List (List UInt8)) : Prop :=
  ∀ before chunk after, chunks = before ++ chunk :: after →
    (lengthPrefixed.split before.flatten).2.length + chunk.length ≤ MAX_BUFFERED

section

variable {w : Width} {pending pending' : List UInt16} {msgs msgs' : List (List UInt8)} {r : Reading}

/-! ## Removing an id -/

theorem set_eraseIdx_perm {α : Type} {xs : List α} {y : α} {i : Nat} (h : i < (xs ++ [y]).length) :
    (swapRemove (xs ++ [y]) i).Perm ((xs ++ [y]).eraseIdx i) := by
  have hlast : (xs ++ [y]).getLast? = some y := List.getLast?_concat
  rw [swapRemove, hlast]
  dsimp only
  by_cases hi : i < xs.length
  · rw [List.set_append_left _ _ hi, List.dropLast_concat, List.eraseIdx_append_of_lt_length hi]
    exact (List.set_perm_cons_eraseIdx hi y).trans (List.perm_append_singleton y _).symm
  · have heq : i = xs.length := by
      rw [List.length_append, List.length_singleton] at h
      omega
    rw [heq, List.set_append_right _ _ (Nat.le_refl _), Nat.sub_self,
      List.eraseIdx_append_of_length_le (Nat.le_refl _), Nat.sub_self]
    simp

/-- **`swap_remove` takes out the id that was found**, and changes only the order of the others. -/
theorem swapRemove_perm {id : UInt16} {pos : Nat} (h : pending.findIdx? (· == id) = some pos) :
    (swapRemove pending pos).Perm (pending.erase id) := by
  obtain ⟨hlt, -⟩ := List.findIdx?_eq_some_iff_getElem.mp h
  have herase : pending.erase id = pending.eraseIdx pos := by
    rw [List.erase_eq_eraseIdx]
    show (match pending.findIdx? (· == id) with | none => pending | some i => pending.eraseIdx i) = _
    rw [h]
  rw [herase]
  obtain rfl | ⟨xs, y, rfl⟩ := List.eq_nil_or_concat pending
  · exact absurd hlt (Nat.not_lt_zero _)
  · rw [List.concat_eq_append] at hlt ⊢
    exact set_eraseIdx_perm hlt

/-! ## Answers -/

theorem answers_append : ∀ (msgs msgs' : List (List UInt8)) (pending : List UInt16),
    answers w pending (msgs ++ msgs') =
      ((answers w pending msgs).1 ++ (answers w (answers w pending msgs).2 msgs').1,
        (answers w (answers w pending msgs).2 msgs').2)
  | [], _, _ => rfl
  | msg :: msgs, msgs', pending => by
    rw [List.cons_append, answers, answers]
    split
    · exact answers_append msgs msgs' pending
    · split
      · rw [answers_append msgs msgs']
        dsimp only
        rw [List.append_assoc]
      · exact answers_append msgs msgs' pending

/-- Nothing answers when nothing is pending. -/
theorem answers_nil : ∀ msgs : List (List UInt8), answers w [] msgs = ([], [])
  | [] => rfl
  | msg :: msgs => by
    rw [answers]
    split
    · exact answers_nil msgs
    · rw [if_neg List.not_mem_nil]
      exact answers_nil msgs

/-- The order of the pending ids does not matter. -/
theorem answers_perm : ∀ (msgs : List (List UInt8)) {pending pending' : List UInt16},
    pending.Perm pending' → (answers w pending msgs).1 = (answers w pending' msgs).1 ∧
      (answers w pending msgs).2.Perm (answers w pending' msgs).2
  | [], _, _, h => ⟨rfl, h⟩
  | msg :: msgs, pending, pending', h => by
    rw [answers, answers]
    split
    · exact answers_perm msgs h
    · next id _ =>
      by_cases hmem : id ∈ pending
      · obtain ⟨haddrs, hleft⟩ := answers_perm msgs (h.erase id)
        rw [if_pos hmem, if_pos (h.mem_iff.mp hmem)]
        exact ⟨congrArg (addressesOf w msg id ++ ·) haddrs, hleft⟩
      · rw [if_neg hmem, if_neg fun hmem' => hmem (h.mem_iff.mpr hmem')]
        exact answers_perm msgs h

/-! ## One chunk -/

/-- What the loop has made of some messages. -/
structure Made (w : Width) (ids : List UInt16) (msgs : List (List UInt8)) (r : Reading) : Prop where
  out : r.out = (answers w ids msgs).1
  pending : r.pending.Perm (answers w ids msgs).2

theorem Made.accept {ids : List UInt16} (h : Made w ids msgs r) (msg : List UInt8) :
    Made w ids (msgs ++ [msg]) (r.accept w msg) ∧ (r.accept w msg).buf = r.buf := by
  have happend := answers_append (w := w) msgs [msg] ids
  have hperm := answers_perm (w := w) [msg] h.pending
  rw [Reading.accept]
  cases hid : messageId msg with
  | none =>
    have hsame : answers w (answers w ids msgs).2 [msg] = ([], (answers w ids msgs).2) := by
      rw [answers, hid]
      rfl
    rw [hsame, List.append_nil] at happend
    exact ⟨⟨by rw [happend]; exact h.out, by rw [happend]; exact h.pending⟩, rfl⟩
  | some id =>
    dsimp only
    cases hpos : r.pending.findIdx? (· == id) with
    | none =>
      have hmem : id ∉ (answers w ids msgs).2 := by
        rw [List.findIdx?_eq_none_iff] at hpos
        intro hmem
        exact absurd (hpos id (h.pending.mem_iff.mpr hmem)) (by simp)
      have hsame : answers w (answers w ids msgs).2 [msg] = ([], (answers w ids msgs).2) := by
        rw [answers, hid]
        exact if_neg hmem
      rw [hsame, List.append_nil] at happend
      exact ⟨⟨by rw [happend]; exact h.out, by rw [happend]; exact h.pending⟩, rfl⟩
    | some pos =>
      obtain ⟨hlt, hfound, -⟩ := List.findIdx?_eq_some_iff_getElem.mp hpos
      have hmem : id ∈ (answers w ids msgs).2 := by
        have hget : r.pending[pos] = id := by simpa using hfound
        exact h.pending.mem_iff.mp (hget ▸ List.getElem_mem hlt)
      have hstep : answers w (answers w ids msgs).2 [msg] =
          (addressesOf w msg id, (answers w ids msgs).2.erase id) := by
        rw [answers, hid]
        dsimp only
        rw [if_pos hmem]
        exact congrArg (·, _) (List.append_nil _)
      rw [hstep] at happend
      refine ⟨⟨?_, ?_⟩, rfl⟩
      · rw [happend, ← h.out]
      · rw [happend]
        exact (swapRemove_perm hpos).trans (h.pending.erase id)

theorem Made.drainLoop {ids : List UInt16} : ∀ (fuel : Nat) {msgs : List (List UInt8)} {r : Reading},
    Made w ids msgs r →
    Made w ids (msgs ++ (lengthPrefixed.splitLoop fuel r.buf).1) (drainLoop w fuel r) ∧
      (drainLoop w fuel r).buf = (lengthPrefixed.splitLoop fuel r.buf).2
  | 0, msgs, r, h => by
    rw [Framing.splitLoop, List.append_nil]
    exact ⟨h, rfl⟩
  | fuel + 1, msgs, r, h => by
    rw [Dns.drainLoop, Framing.splitLoop, lengthPrefixed_take]
    cases htake : takeMessage r.buf with
    | none =>
      rw [List.append_nil]
      exact ⟨h, rfl⟩
    | some mr =>
      obtain ⟨msg, rest⟩ := mr
      have hrest : Made w ids msgs { r with buf := rest } := ⟨h.out, h.pending⟩
      obtain ⟨hmade, hbuf⟩ := hrest.accept msg
      have hloop := Made.drainLoop fuel hmade
      rw [hbuf] at hloop
      rw [← List.append_cons] at hloop
      exact hloop

/-! ## All chunks -/

/-- **What the loop returns depends on the stream alone**, not on how it was cut. -/
theorem readLoop_eq (ids : List UInt16) (ending : Ending) : ∀ (chunks before : List (List UInt8))
    (r : Reading), Made w ids (lengthPrefixed.split before.flatten).1 r →
    r.buf = (lengthPrefixed.split before.flatten).2 → InBounds (before ++ chunks) →
    (∀ c ∈ chunks, c ≠ []) →
    readLoop w ending chunks r =
      if (answers w ids (lengthPrefixed.split (before ++ chunks).flatten).1).2 = [] ∨
          ending = .closed then
        some (answers w ids (lengthPrefixed.split (before ++ chunks).flatten).1).1
      else none
  | [], before, r, hmade, _, _, _ => by
    have hpending : r.pending = [] ↔ (answers w ids (lengthPrefixed.split before.flatten).1).2 = [] := by
      rw [← List.perm_nil, ← List.perm_nil]
      exact ⟨hmade.pending.symm.trans, hmade.pending.trans⟩
    unfold readLoop
    rw [List.append_nil, hmade.out]
    by_cases hnil : r.pending = []
    · rw [if_pos hnil, if_pos (.inl (hpending.mp hnil))]
    · rw [if_neg hnil]
      have hleft : (answers w ids (lengthPrefixed.split before.flatten).1).2 ≠ [] :=
        fun h => hnil (hpending.mpr h)
      cases ending with
      | closed => exact (if_pos (.inr rfl)).symm
      | failed =>
        refine (if_neg ?_).symm
        rintro (h | h)
        · exact hleft h
        · cases h
  | chunk :: chunks, before, r, hmade, hbuf, hbounds, hne => by
    have hsplit : ∀ t : List (List UInt8), lengthPrefixed.split (before ++ t).flatten =
        ((lengthPrefixed.split before.flatten).1 ++ (lengthPrefixed.split (r.buf ++ t.flatten)).1,
          (lengthPrefixed.split (r.buf ++ t.flatten)).2) := by
      intro t
      rw [List.flatten_append, Framing.split_append, hbuf]
    rw [readLoop]
    by_cases hnil : r.pending = []
    · -- all is answered, and what comes later answers nothing
      have hleft : (answers w ids (lengthPrefixed.split before.flatten).1).2 = [] := by
        rw [← List.perm_nil]
        exact hmade.pending.symm.trans (List.perm_nil.mpr hnil)
      have hall := answers_append (w := w) (lengthPrefixed.split before.flatten).1
        (lengthPrefixed.split (r.buf ++ (chunk :: chunks).flatten)).1 ids
      rw [hleft, answers_nil, List.append_nil] at hall
      rw [if_pos hnil, hsplit, hall, if_pos (.inl rfl), hmade.out]
    · have hroom : ¬ (chunk = [] ∨ MAX_BUFFERED < r.buf.length + chunk.length) := by
        rintro (hempty | hover)
        · exact hne chunk List.mem_cons_self hempty
        · rw [hbuf] at hover
          exact absurd (hbounds before chunk chunks rfl) (Nat.not_le_of_lt hover)
      have hstart : Made w ids (lengthPrefixed.split before.flatten).1
          { r with buf := r.buf ++ chunk } := ⟨hmade.out, hmade.pending⟩
      obtain ⟨hmade', hbuf'⟩ := hstart.drainLoop (r.buf ++ chunk).length
      have hone := hsplit [chunk]
      rw [List.flatten_singleton] at hone
      have hassoc : before ++ chunk :: chunks = (before ++ [chunk]) ++ chunks := List.append_cons ..
      rw [if_neg hnil, if_neg hroom, hassoc]
      refine readLoop_eq ids ending chunks (before ++ [chunk]) _ ?_ ?_ (hassoc ▸ hbounds)
        fun c hmem => hne c (List.mem_cons_of_mem _ hmem)
      · rw [hone]
        exact hmade'
      · rw [hone]
        exact hbuf'

/-- A stream of whole messages and the beginning of another. -/
theorem split_prefixed {tail : List UInt8} (htail : takeMessage tail = none) :
    ∀ {msgs : List (List UInt8)}, (∀ m ∈ msgs, m.length < 65536) →
    lengthPrefixed.split (msgs.flatMap prefixed ++ tail) = (msgs, tail)
  | [], _ => Framing.split_of_none htail
  | msg :: msgs, h => by
    obtain ⟨hi, lo, hb⟩ : ∃ hi lo, beEncode 2 msg.length = [hi, lo] := ⟨_, _, rfl⟩
    have hlen : beDecode [hi, lo] = msg.length := by
      rw [← hb]
      exact beDecode_beEncode ((h msg List.mem_cons_self).trans_eq (by norm_num))
    have htake : lengthPrefixed.take ((msg :: msgs).flatMap prefixed ++ tail) =
        some (msg, msgs.flatMap prefixed ++ tail) := by
      have hcons : [hi, lo] ++ (msg ++ (msgs.flatMap prefixed ++ tail)) =
          hi :: lo :: (msg ++ (msgs.flatMap prefixed ++ tail)) := rfl
      rw [lengthPrefixed_take, List.flatMap_cons, prefixed, hb, List.append_assoc, List.append_assoc,
        hcons, takeMessage, hlen, if_neg (by rw [List.length_append]; omega), List.take_left,
        List.drop_left]
    rw [Framing.split_of_some htake,
      split_prefixed htail fun m hmem => h m (List.mem_cons_of_mem _ hmem)]

/-! ## The bound of the buffer -/

/-- A message that is not complete is shorter than the longest with its length. -/
theorem length_of_takeMessage : ∀ {buf : List UInt8}, takeMessage buf = none → buf.length ≤ 65536
  | [], _ => Nat.zero_le _
  | [_], _ => by
    rw [List.length_singleton]
    omega
  | hi :: lo :: rest, h => by
    have hlen : beDecode [hi, lo] < 65536 := (beDecode_lt [hi, lo]).trans_eq (by norm_num)
    rw [takeMessage] at h
    split at h
    · next hlt =>
      rw [List.length_cons, List.length_cons]
      omega
    · cases h

theorem inBounds_of_small {chunks : List (List UInt8)} (h : ∀ c ∈ chunks, c.length ≤ 65538) :
    InBounds chunks := by
  intro before chunk after heq
  have hchunk := h chunk (heq ▸ List.mem_append_right _ List.mem_cons_self)
  have hleft := length_of_takeMessage (Framing.take_split (F := lengthPrefixed) before.flatten)
  rw [MAX_BUFFERED]
  omega

theorem length_split_le (s : List UInt8) : (lengthPrefixed.split s).2.length ≤ s.length := by
  cases h : lengthPrefixed.take s with
  | none => rw [Framing.split_of_none h]
  | some mr =>
    obtain ⟨m, r⟩ := mr
    have hlt := lengthPrefixed.shorter h
    rw [Framing.split_of_some h]
    exact (length_split_le r).trans hlt.le
termination_by s.length

/-- **Two responses always find room**, however they are cut. -/
theorem inBounds_of_two {chunks : List (List UInt8)} (h : chunks.flatten.length ≤ 2 * (2 + 65535)) :
    InBounds chunks := by
  intro before chunk after heq
  have hleft := length_split_le before.flatten
  rw [heq, List.flatten_append, List.flatten_cons, List.length_append, List.length_append] at h
  rw [MAX_BUFFERED]
  omega

/-! ## The exchange as a whole -/

theorem exchange_eq {net : Net} {queries : List (List UInt8)} {ids : List UInt16}
    {tail : List UInt8} (hopens : net.opens = true) (hsends : net.sends (wireOf queries) = true)
    (hmsgs : ∀ m ∈ msgs, m.length < 65536) (htail : takeMessage tail = none)
    (hstream : net.chunks.flatten = msgs.flatMap prefixed ++ tail) (hne : ∀ c ∈ net.chunks, c ≠ [])
    (hbounds : InBounds net.chunks) :
    exchange w net queries ids =
      if (answers w ids msgs).2 = [] ∨ net.ending = .closed then some (answers w ids msgs).1
      else none := by
  have hsplit : lengthPrefixed.split ([] ++ net.chunks).flatten = (msgs, tail) := by
    rw [List.nil_append, hstream, split_prefixed htail hmsgs]
  have hloop := readLoop_eq (w := w) ids net.ending net.chunks []
    ⟨ids, [], []⟩ ⟨rfl, List.Perm.refl _⟩ rfl hbounds hne
  rw [hsplit] at hloop
  rw [exchange, if_pos hopens, if_pos hsends]
  exact hloop

end

/-- **What an exchange returns** is what was received, for every cut into chunks that the buffer takes,
unless the stream fails while a response is missing and another one has come. -/
theorem exchange_answers_iff (w : Width) (net : Net) (queries : List (List UInt8)) (ids : List UInt16)
    (msgs : List (List UInt8)) (tail : List UInt8)
    (hopens : net.opens = true) (hsends : net.sends (wireOf queries) = true)
    (hmsgs : ∀ m ∈ msgs, m.length < 65536) (htail : takeMessage tail = none)
    (hstream : net.chunks.flatten = msgs.flatMap prefixed ++ tail) (hne : ∀ c ∈ net.chunks, c ≠ []) :
    ((∀ c ∈ net.chunks, c.length ≤ 65538) → InBounds net.chunks) ∧
    (net.chunks.flatten.length ≤ 2 * (2 + 65535) → InBounds net.chunks) ∧
    (InBounds net.chunks →
      (((exchange w net queries ids).getD []).Perm (answers w ids msgs).1 ↔
        ¬ (net.ending = .failed ∧ (answers w ids msgs).2 ≠ [] ∧ (answers w ids msgs).1 ≠ []))) := by
  refine ⟨inBounds_of_small, inBounds_of_two, fun hbounds => ?_⟩
  rw [exchange_eq hopens hsends hmsgs htail hstream hne hbounds]
  by_cases hend : (answers w ids msgs).2 = [] ∨ net.ending = .closed
  · rw [if_pos hend, Option.getD_some]
    refine ⟨fun _ => ?_, fun _ => List.Perm.refl _⟩
    rintro ⟨hfailed, hleft, -⟩
    rcases hend with hnil | hclosed
    · exact hleft hnil
    · rw [hclosed] at hfailed
      cases hfailed
  · rw [if_neg hend, Option.getD_none, List.nil_perm]
    have hleft : (answers w ids msgs).2 ≠ [] := fun h => hend (.inl h)
    have hfailed : net.ending = .failed := by
      cases hending : net.ending with
      | closed => exact absurd (.inr hending) hend
      | failed => rfl
    refine ⟨fun hnil hall => hall.2.2 hnil, fun hall => ?_⟩
    by_contra hsome
    exact hall ⟨hfailed, hleft, hsome⟩

/-- The answer to the first query. -/
def firstAnswer : List UInt8 :=
  [0, 7, 0x81, 0x80, 0, 0, 0, 1, 0, 0, 0, 0, 0xc0, 0x0c, 0, 1, 0, 1, 0, 0, 0, 60, 0, 4, 1, 2, 3, 4]

/-- The first answer in two chunks, and then the end. -/
def halfAnswered (ending : Ending) : Net :=
  ⟨true, fun _ => true, [(prefixed firstAnswer).take 5, (prefixed firstAnswer).drop 5], ending⟩

/-- A stream that fails takes back what it has delivered. -/
theorem exchange_failed :
    (exchange .w64 (halfAnswered .failed) [] [7, 8]).getD [] = [] ∧
      (answers .w64 [7, 8] [firstAnswer]).1 = [.v4 0x01020304#32] ∧
      (halfAnswered .failed).chunks.flatten = prefixed firstAnswer := by
  decide

theorem exchange_answers_iff_closed :
    ((exchange .w64 (halfAnswered .closed) [] [7, 8]).getD []).Perm
      (answers .w64 [7, 8] [firstAnswer]).1 := by
  obtain ⟨hsmall, -, hiff⟩ := exchange_answers_iff .w64 (halfAnswered .closed) [] [7, 8] [firstAnswer] []
    rfl rfl (by decide) rfl (by decide) (by decide)
  refine (hiff (hsmall (by decide))).mpr ?_
  rintro ⟨hfailed, -, -⟩
  cases hfailed

end Leshiy.Mobile.Dns
