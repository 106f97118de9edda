import Mathlib.Logic.Function.Basic
import Leshiy.Core.Frame
import Leshiy.Lib.Run
import Leshiy.Reality.Usage

/-!
# The two ends of a tunnelled TCP exchange

On the client a stream is relayed by `pipe` (`leshiy-reality/src/client.rs`), `pump`
(`leshiy-client/src/pump.rs`) or `relay_tcp` (`leshiy-tun/src/engine.rs`), on the server by `relay_stream`
(`leshiy-reality/src/server.rs`). All four race the same two loops: one reads the socket and sends on the
stream, the other receives from the stream and writes to the socket; when one of them ends, the relay drops
the other, closes the stream and lets the socket go. The socket is the application's or the target's.

The mux is here a queue of frames in each direction and what has come to an end's stream. A `Close` ends
both directions of it.
-/

namespace Leshiy.Client

open Leshiy.Lib

inductive Side where
  | client
  | server
  deriving DecidableEq, Repr

def Side.other : Side → Side
  | .client => .server
  | .server => .client

/-- What a relay reads at once, and whether an empty chunk from the stream ends it. -/
structure RelayKind where
  chunk : Nat
  stopsAtEmpty : Bool
  deriving DecidableEq, Repr

def pipe : RelayKind := ⟨MAX_FRAME_PAYLOAD, false⟩
def pump : RelayKind := ⟨16384, true⟩
def relayTcp : RelayKind := ⟨16384, true⟩
def relayStream : RelayKind := ⟨MAX_FRAME_PAYLOAD, false⟩

/-- The frames of a stream. -/
inductive Piece where
  | data (b : Bytes)
  | close
  deriving DecidableEq, Repr

structure RelayEnd where
  /-- Written to the socket by the other side of it, and not read by the relay. -/
  inbox : Bytes
  /-- That side has shut its write side down. -/
  shut : Bool
  /-- Written to the socket by the relay. -/
  got : Bytes
  /-- The chunk that is being sent. -/
  sending : Option Bytes
  /-- The chunk that is being written. -/
  writing : Option Bytes
  /-- The chunks that have come on the stream. -/
  buf : List Bytes
  /-- `Close` has come. -/
  closed : Bool
  ended : Bool
  deriving DecidableEq, Repr

/-- The socket's other side writes, or shuts down; the relay reads, finds the end of file, has sent, receives,
has written, finds the stream closed, or fails: an error of the socket or of the stream, or a revocation. -/
inductive EndAct where
  | write (b : Bytes)
  | shutdown
  | read (n : Nat)
  | eof
  | sent
  | recv
  | written
  | recvClosed
  | fail
  deriving DecidableEq, Repr

namespace RelayEnd

def start : RelayEnd := ⟨[], false, [], none, none, [], false, false⟩

/-- The relay returns: it drops what it has in hand and closes the stream. -/
def finish (e : RelayEnd) : RelayEnd × List Piece :=
  ({ e with sending := none, writing := none, buf := [], ended := true }, [.close])

def step (kind : RelayKind) (e : RelayEnd) : EndAct → Option (RelayEnd × List Piece)
  | .write b => if e.shut then none else some ({ e with inbox := e.inbox ++ b }, [])
  | .shutdown => some ({ e with shut := true }, [])
  | .read n =>
    match e.sending with
    | none =>
      if !e.ended && 0 < n && n ≤ kind.chunk && n ≤ e.inbox.length then
        some ({ e with inbox := e.inbox.drop n, sending := some (e.inbox.take n) }, [])
      else none
    | some _ => none
  | .eof =>
    match e.sending, e.inbox with
    | none, [] => if !e.ended && e.shut then some e.finish else none
    | _, _ => none
  | .sent =>
    match e.sending with
    | some b => if e.ended then none else some ({ e with sending := none }, [.data b])
    | none => none
  | .recv =>
    match e.writing, e.buf with
    | none, b :: rest =>
      if e.ended then none
      else if kind.stopsAtEmpty && b.isEmpty then some e.finish
      else some ({ e with writing := some b, buf := rest }, [])
    | _, _ => none
  | .written =>
    match e.writing with
    | some b => if e.ended then none else some ({ e with got := e.got ++ b, writing := none }, [])
    | none => none
  | .recvClosed =>
    match e.writing, e.buf with
    | none, [] => if !e.ended && e.closed then some e.finish else none
    | _, _ => none
  | .fail => if e.ended then none else some e.finish

/-- A frame comes to the end. A stream that is closed here is not in the map any more. -/
def deliver (e : RelayEnd) : Piece → RelayEnd
  | .data b => if e.ended then e else { e with buf := e.buf ++ [b] }
  | .close => if e.ended then e else { e with closed := true }

/-- What makes a relay return. -/
inductive Why (kind : RelayKind) (e : RelayEnd) : EndAct → Prop
  | eof (hsending : e.sending = none) (hinbox : e.inbox = []) (hshut : e.shut = true) : Why kind e .eof
  | closed (hwriting : e.writing = none) (hbuf : e.buf = []) (hclosed : e.closed = true) :
      Why kind e .recvClosed
  | empty {rest : List Bytes} (hstop : kind.stopsAtEmpty = true) (hbuf : e.buf = [] :: rest) : Why kind e .recv
  | fail : Why kind e .fail

/-- Everything a step of an end can do. -/
inductive Effect (kind : RelayKind) (e : RelayEnd) : EndAct → RelayEnd → List Piece → Prop
  | write {b : Bytes} (hshut : e.shut = false) :
      Effect kind e (.write b) { e with inbox := e.inbox ++ b } []
  | shutdown : Effect kind e .shutdown { e with shut := true } []
  | read {n : Nat} (hsending : e.sending = none) (hne : e.inbox.take n ≠ []) :
      Effect kind e (.read n) { e with inbox := e.inbox.drop n, sending := some (e.inbox.take n) } []
  | sent {b : Bytes} (hsending : e.sending = some b) (hrun : e.ended = false) :
      Effect kind e .sent { e with sending := none } [.data b]
  | recv {b : Bytes} {rest : List Bytes} (hwriting : e.writing = none) (hbuf : e.buf = b :: rest) :
      Effect kind e .recv { e with writing := some b, buf := rest } []
  | written {b : Bytes} (hwriting : e.writing = some b) (hrun : e.ended = false) :
      Effect kind e .written { e with got := e.got ++ b, writing := none } []
  | finish {a : EndAct} (hrun : e.ended = false) (hwhy : Why kind e a) :
      Effect kind e a e.finish.1 e.finish.2

theorem step_effect {kind : RelayKind} {e e' : RelayEnd} {a : EndAct} {ps : List Piece}
    (h : e.step kind a = some (e', ps)) : Effect kind e a e' ps := by
  cases a with simp only [step] at h
  | write b =>
    split at h
    · cases h
    · rename_i hshut
      cases h
      exact .write (by simpa using hshut)
  | shutdown =>
    cases h
    exact .shutdown
  | read n =>
    split at h
    · rename_i hsending
      split at h
      · rename_i hcond
        simp only [Bool.and_eq_true, decide_eq_true_eq] at hcond
        obtain ⟨⟨⟨-, hpos⟩, -⟩, hle⟩ := hcond
        cases h
        refine .read hsending ?_
        intro hnil
        have hlen := congrArg List.length hnil
        rw [List.length_take, List.length_nil] at hlen
        omega
      · cases h
    · cases h
  | eof =>
    split at h
    · rename_i hsending hinbox
      split at h
      · rename_i hcond
        simp only [Bool.and_eq_true, Bool.not_eq_true'] at hcond
        cases h
        exact .finish hcond.1 (.eof hsending hinbox hcond.2)
      · cases h
    · cases h
  | sent =>
    split at h
    · rename_i b hsending
      split at h
      · cases h
      · rename_i hrun
        cases h
        exact .sent hsending (by simpa using hrun)
    · cases h
  | recv =>
    split at h
    · rename_i b rest hwriting hbuf
      split at h
      · cases h
      · rename_i hrun
        split at h
        · rename_i hstop
          simp only [Bool.and_eq_true, List.isEmpty_iff] at hstop
          obtain ⟨hkind, rfl⟩ := hstop
          cases h
          exact .finish (by simpa using hrun) (.empty hkind hbuf)
        · cases h
          exact .recv hwriting hbuf
    · cases h
  | written =>
    split at h
    · rename_i b hwriting
      split at h
      · cases h
      · rename_i hrun
        cases h
        exact .written hwriting (by simpa using hrun)
    · cases h
  | recvClosed =>
    split at h
    · rename_i hwriting hbuf
      split at h
      · rename_i hcond
        simp only [Bool.and_eq_true, Bool.not_eq_true'] at hcond
        cases h
        exact .finish hcond.1 (.closed hwriting hbuf hcond.2)
      · cases h
    · cases h
  | fail =>
    split at h
    · cases h
    · rename_i hrun
      cases h
      exact .finish (by simpa using hrun) .fail

end RelayEnd

/-! ## One direction -/

/-- The bytes of the frames on a wire. -/
def onWire (w : List Piece) : Bytes :=
  w.flatMap fun
    | .data b => b
    | .close => []

@[simp] theorem onWire_append (w w' : List Piece) : onWire (w ++ w') = onWire w ++ onWire w' :=
  List.flatMap_append

/-- What has come over the wire to an end, or is on it. -/
def RelayEnd.coming (y : RelayEnd) (w : List Piece) : Bytes :=
  y.got ++ y.writing.getD [] ++ y.buf.flatten ++ onWire w

/-- What an action writes to its socket. -/
def EndAct.bytes : EndAct → Bytes
  | .write b => b
  | _ => []

/-- From the socket of one end, where `sent` was written, to the socket of the other. As long as the
writer's relay runs, or when it has ended at its end of file only (`C`), everything is somewhere between
the two. -/
structure Direction (C : Prop) (sent : Bytes) (x y : RelayEnd) (w : List Piece) : Prop where
  whole : x.ended = false ∨ C → y.ended = false → y.coming w ++ x.sending.getD [] ++ x.inbox = sent
  cut : y.ended = false → y.coming w <+: sent
  kept : y.got <+: sent
  drained : C → x.ended = true → x.shut = true ∧ x.inbox = [] ∧ x.sending = none
  done : C → y.ended = true → y.got = sent ∧ x.ended = true
  first : x.ended = false → .close ∉ w ∧ y.closed = false
  last : x.ended = true → y.ended = false → y.closed = false → ∃ w', w = w' ++ [.close] ∧ .close ∉ w'
  empty : x.ended = true → y.closed = true → w = []
  filled : (∀ b ∈ y.buf, b ≠ []) ∧ (∀ b, .data b ∈ w → b ≠ []) ∧ ∀ b, x.sending = some b → b ≠ []

theorem direction_start (C : Prop) : Direction C [] .start .start [] where
  whole := fun _ _ => rfl
  cut := fun _ => List.nil_prefix
  kept := List.nil_prefix
  drained := fun _ h => nomatch h
  done := fun _ h => nomatch h
  first := fun _ => ⟨List.not_mem_nil, rfl⟩
  last := fun h => nomatch h
  empty := fun h => nomatch h
  filled := ⟨nofun, nofun, nofun⟩

section

variable {C C' : Prop} {kind : RelayKind} {sent : Bytes} {x x' y y' : RelayEnd} {w ps : List Piece} {a : EndAct}

theorem Direction.weaken (h : Direction C sent x y w) (hC : C' → C) : Direction C' sent x y w :=
  ⟨fun hx hy => h.whole (hx.imp_right hC) hy, h.cut, h.kept, fun hc => h.drained (hC hc), fun hc => h.done (hC hc),
    h.first, h.last, h.empty, h.filled⟩

/-! What the writer's end does. -/

theorem Direction.write {b : Bytes} (h : Direction C sent x y w) (hshut : x.shut = false) (hC : C' → C) :
    Direction C' (sent ++ b) { x with inbox := x.inbox ++ b } y w := by
  have hopen : C → x.ended = true → False := by
    intro hc hend
    rw [(h.drained hc hend).1] at hshut
    cases hshut
  have hrun : x.ended = false ∨ C' → x.ended = false := by
    rintro (hrun | hc)
    · exact hrun
    · cases hend : x.ended with
      | false => rfl
      | true => exact (hopen (hC hc) hend).elim
  have hpre : sent <+: sent ++ b := List.prefix_append _ _
  refine ⟨?_, fun hy => (h.cut hy).trans hpre, h.kept.trans hpre, fun hc hend => (hopen (hC hc) hend).elim, ?_,
    h.first, h.last, h.empty, h.filled⟩
  · intro hx hy
    rw [← h.whole (.inl (hrun hx)) hy]
    simp only [List.append_assoc]
  · intro hc hy
    exact (hopen (hC hc) (h.done (hC hc) hy).2).elim

theorem Direction.shutdown (h : Direction C sent x y w) (hC : C' → C) :
    Direction C' sent { x with shut := true } y w := by
  refine ⟨fun hx hy => h.whole (hx.imp_right hC) hy, h.cut, h.kept, ?_, fun hc => h.done (hC hc), h.first,
    h.last, h.empty, h.filled⟩
  intro hc hend
  exact ⟨rfl, (h.drained (hC hc) hend).2⟩

theorem Direction.read {n : Nat} (h : Direction C sent x y w) (hsending : x.sending = none)
    (hne : x.inbox.take n ≠ []) (hC : C' → C) :
    Direction C' sent { x with inbox := x.inbox.drop n, sending := some (x.inbox.take n) } y w := by
  refine ⟨?_, h.cut, h.kept, ?_, fun hc => h.done (hC hc), h.first, h.last, h.empty,
    h.filled.1, h.filled.2.1, ?_⟩
  · intro hx hy
    have hwhole := h.whole (hx.imp_right hC) hy
    rw [hsending] at hwhole
    simpa using hwhole
  · intro hc hend
    rw [(h.drained (hC hc) hend).2.1] at hne
    simp at hne
  · intro b hb
    cases hb
    exact hne

theorem Direction.queue {b : Bytes} (h : Direction C sent x y w) (hsending : x.sending = some b)
    (hrun : x.ended = false) (hC : C' → C) :
    Direction C' sent { x with sending := none } y (w ++ [.data b]) := by
  have hcoming : y.coming (w ++ [.data b]) = y.coming w ++ b := by
    simp [RelayEnd.coming, onWire]
  have hwhole : y.ended = false → y.coming w ++ b ++ x.inbox = sent := by
    intro hy
    have hw := h.whole (.inl hrun) hy
    rwa [hsending] at hw
  have hgoes : ({ x with sending := none } : RelayEnd).ended = true → False := by
    intro hend
    rw [show x.ended = true from hend] at hrun
    cases hrun
  refine ⟨?_, ?_, h.kept, fun _ hend => (hgoes hend).elim, ?_, ?_, fun hend => (hgoes hend).elim,
    fun hend => (hgoes hend).elim, h.filled.1, ?_, nofun⟩
  · intro _ hy
    rw [hcoming, Option.getD_none, List.append_nil]
    exact hwhole hy
  · intro hy
    rw [hcoming]
    exact ⟨_, hwhole hy⟩
  · exact fun hc hy => (hgoes (h.done (hC hc) hy).2).elim
  · intro _
    refine ⟨?_, (h.first hrun).2⟩
    simpa using (h.first hrun).1
  · intro b' hb'
    rcases List.mem_append.mp hb' with hb' | hb'
    · exact h.filled.2.1 b' hb'
    · rw [List.mem_singleton] at hb'
      cases hb'
      exact h.filled.2.2 b hsending

/-- What was not sent yet is dropped, unless there is nothing. -/
theorem Direction.finish (h : Direction C sent x y w) (hrun : x.ended = false) (hC : C' → C)
    (hempty : C' → x.sending = none ∧ x.inbox = [] ∧ x.shut = true) :
    Direction C' sent x.finish.1 y (w ++ [.close]) := by
  have hcoming : y.coming (w ++ [.close]) = y.coming w := by
    simp [RelayEnd.coming, onWire]
  refine ⟨?_, ?_, h.kept, ?_, ?_, nofun, ?_, ?_, h.filled.1, ?_, nofun⟩
  · rintro (hx | hc) hy
    · cases hx
    · obtain ⟨hsending, hinbox, -⟩ := hempty hc
      have hwhole := h.whole (.inl hrun) hy
      rw [hsending, hinbox] at hwhole
      rw [hcoming]
      show y.coming w ++ (none : Option Bytes).getD [] ++ x.inbox = sent
      rw [hinbox]
      exact hwhole
  · intro hy
    rw [hcoming]
    exact h.cut hy
  · intro hc _
    obtain ⟨-, hinbox, hshut⟩ := hempty hc
    exact ⟨hshut, hinbox, rfl⟩
  · intro hc hy
    have hend := (h.done (hC hc) hy).2
    rw [hrun] at hend
    cases hend
  · intro _ _ _
    exact ⟨w, rfl, (h.first hrun).1⟩
  · intro _ hclosed
    rw [(h.first hrun).2] at hclosed
    cases hclosed
  · intro b hb
    refine h.filled.2.1 b ?_
    simpa using hb

/-- A step of the writer's end. -/
theorem Direction.ofSource (h : Direction C sent x y w) (he : x.Effect kind a x' ps) (hC : C' → C)
    (heof : C' → x.Why kind a → a = .eof) : Direction C' (sent ++ a.bytes) x' y (w ++ ps) := by
  cases he with
  | write hshut =>
    rw [List.append_nil]
    exact h.write hshut hC
  | shutdown =>
    simp only [EndAct.bytes, List.append_nil]
    exact h.shutdown hC
  | read hsending hne =>
    simp only [EndAct.bytes, List.append_nil]
    exact h.read hsending hne hC
  | sent hsending hrun =>
    simp only [EndAct.bytes, List.append_nil]
    exact h.queue hsending hrun hC
  | recv | written =>
    simp only [EndAct.bytes, List.append_nil]
    exact ⟨fun hx hy => h.whole (hx.imp_right hC) hy, h.cut, h.kept, fun hc => h.drained (hC hc),
      fun hc => h.done (hC hc), h.first, h.last, h.empty, h.filled⟩
  | finish hrun hwhy =>
    have hbytes : a.bytes = [] := by cases hwhy <;> rfl
    rw [hbytes, List.append_nil]
    refine h.finish hrun hC fun hc => ?_
    obtain rfl := heof hc hwhy
    cases hwhy with
    | eof hsending hinbox hshut => exact ⟨hsending, hinbox, hshut⟩

/-- A step of the reader's end. -/
theorem Direction.ofSink (h : Direction C sent x y w) (he : y.Effect kind a y' ps) (hC : C' → C)
    (hclosed : C' → y.Why kind a → a ≠ .eof ∧ a ≠ .fail) : Direction C' sent x y' w := by
  cases he with
  | write | shutdown | read | sent =>
    exact ⟨fun hx hy => h.whole (hx.imp_right hC) hy, h.cut, h.kept, fun hc => h.drained (hC hc),
      fun hc => h.done (hC hc), h.first, h.last, h.empty, h.filled⟩
  | @recv b rest hwriting hbuf =>
    have hcoming : RelayEnd.coming { y with writing := some b, buf := rest } w = y.coming w := by
      simp [RelayEnd.coming, hwriting, hbuf]
    refine ⟨?_, ?_, h.kept, fun hc => h.drained (hC hc), fun hc => h.done (hC hc), h.first, h.last, h.empty, ?_,
      h.filled.2⟩
    · intro hx hy
      rw [hcoming]
      exact h.whole (hx.imp_right hC) hy
    · intro hy
      rw [hcoming]
      exact h.cut hy
    · intro b' hb'
      refine h.filled.1 b' ?_
      rw [hbuf]
      exact List.mem_cons_of_mem _ hb'
  | @written b hwriting hrun =>
    have hcoming : RelayEnd.coming { y with got := y.got ++ b, writing := none } w = y.coming w := by
      simp [RelayEnd.coming, hwriting]
    refine ⟨?_, ?_, ?_, fun hc => h.drained (hC hc), ?_, h.first, h.last, h.empty, h.filled⟩
    · intro hx hy
      rw [hcoming]
      exact h.whole (hx.imp_right hC) hy
    · intro hy
      rw [hcoming]
      exact h.cut hy
    · refine List.IsPrefix.trans ?_ (h.cut hrun)
      refine ⟨y.buf.flatten ++ onWire w, ?_⟩
      simp [RelayEnd.coming, hwriting]
    · intro _ hy
      rw [show y.ended = true from hy] at hrun
      cases hrun
  | finish hrun hwhy =>
    refine ⟨nofun, nofun, h.kept, fun hc => h.drained (hC hc), ?_, h.first, (fun _ hy => nomatch hy), h.empty, nofun,
      h.filled.2⟩
    intro hc _
    cases hwhy with
    | eof => exact absurd rfl (hclosed hc (.eof ‹_› ‹_› ‹_›)).1
    | fail => exact absurd rfl (hclosed hc .fail).2
    | empty _ hbuf => exact absurd rfl (h.filled.1 [] (by rw [hbuf]; exact List.mem_cons_self))
    | closed hwriting hbuf hcl =>
      -- `Close` came behind everything else
      have hend : x.ended = true := by
        by_contra hne
        rw [(h.first (by simpa using hne)).2] at hcl
        cases hcl
      obtain ⟨-, hinbox, hsending⟩ := h.drained (hC hc) hend
      have hwhole := h.whole (.inr (hC hc)) hrun
      rw [h.empty hend hcl, hsending, hinbox] at hwhole
      refine ⟨?_, hend⟩
      show y.got = sent
      simpa [RelayEnd.coming, hwriting, hbuf, onWire] using hwhole

/-! A frame comes to the reader's end. -/

theorem Direction.deliver_ended {p : Piece} (h : Direction C sent x y (p :: w)) (hend : y.ended = true) :
    Direction C sent x y w := by
  have hwire : ∀ q, q ∈ w → q ∈ p :: w := fun q => List.mem_cons_of_mem p
  have hgone : y.ended = false → False := by
    intro hy
    rw [hend] at hy
    cases hy
  refine ⟨fun _ hy => (hgone hy).elim, fun hy => (hgone hy).elim, h.kept, h.drained, h.done, ?_,
    fun _ hy => (hgone hy).elim, ?_, h.filled.1, fun b hb => h.filled.2.1 b (hwire _ hb), h.filled.2.2⟩
  · exact fun hx => ⟨fun hmem => (h.first hx).1 (hwire _ hmem), (h.first hx).2⟩
  · intro hx hclosed
    cases h.empty hx hclosed

theorem Direction.deliver_data {b : Bytes} (h : Direction C sent x y (.data b :: w)) (hrun : y.ended = false) :
    Direction C sent x { y with buf := y.buf ++ [b] } w := by
  have hwire : ∀ q, q ∈ w → q ∈ Piece.data b :: w := fun q => List.mem_cons_of_mem (Piece.data b)
  have hcoming : RelayEnd.coming { y with buf := y.buf ++ [b] } w = y.coming (.data b :: w) := by
    simp [RelayEnd.coming, onWire]
  refine ⟨?_, ?_, h.kept, h.drained, ?_, ?_, ?_, ?_, ?_, fun b' hb' => h.filled.2.1 b' (hwire _ hb'),
    h.filled.2.2⟩
  · intro hx hy
    rw [hcoming]
    exact h.whole hx hy
  · intro hy
    rw [hcoming]
    exact h.cut hy
  · intro _ hy
    rw [show y.ended = true from hy] at hrun
    cases hrun
  · exact fun hx => ⟨fun hmem => (h.first hx).1 (hwire _ hmem), (h.first hx).2⟩
  · intro hx hy hcl
    obtain ⟨w', heq, hnot⟩ := h.last hx hy hcl
    cases w' with
    | nil => cases heq
    | cons q w'' =>
      cases heq
      exact ⟨w'', rfl, fun hmem => hnot (List.mem_cons_of_mem _ hmem)⟩
  · intro hx hclosed
    cases h.empty hx hclosed
  · intro b' hb'
    rcases List.mem_append.mp hb' with hb' | hb'
    · exact h.filled.1 b' hb'
    · rw [List.mem_singleton] at hb'
      subst hb'
      exact h.filled.2.1 b' List.mem_cons_self

theorem Direction.deliver_close (h : Direction C sent x y (.close :: w)) (hrun : y.ended = false) :
    Direction C sent x { y with closed := true } w := by
  have hwire : ∀ q, q ∈ w → q ∈ Piece.close :: w := fun q => List.mem_cons_of_mem Piece.close
  have hcoming : RelayEnd.coming { y with closed := true } w = y.coming (.close :: w) := by
    simp [RelayEnd.coming, onWire]
  have hend : x.ended = true := by
    by_contra hne
    exact (h.first (by simpa using hne)).1 List.mem_cons_self
  -- it is the last frame
  have hnil : w = [] := by
    cases hcl : y.closed with
    | true => cases h.empty hend hcl
    | false =>
      obtain ⟨w', heq, hnot⟩ := h.last hend hrun hcl
      cases w' with
      | nil => exact (List.cons.inj heq).2
      | cons q w'' =>
        cases heq
        exact absurd List.mem_cons_self hnot
  refine ⟨?_, ?_, h.kept, h.drained, ?_, ?_, (fun _ _ hcl => nomatch hcl), fun _ _ => hnil, h.filled.1,
    fun b' hb' => h.filled.2.1 b' (hwire _ hb'), h.filled.2.2⟩
  · intro hx hy
    rw [hcoming]
    exact h.whole hx hy
  · intro hy
    rw [hcoming]
    exact h.cut hy
  · intro _ hy
    rw [show y.ended = true from hy] at hrun
    cases hrun
  · intro hx
    rw [hend] at hx
    cases hx

theorem Direction.deliver {p : Piece} (h : Direction C sent x y (p :: w)) : Direction C sent x (y.deliver p) w := by
  by_cases hend : y.ended = true
  · have hsame : y.deliver p = y := by
      cases p <;> exact if_pos hend
    rw [hsame]
    exact h.deliver_ended hend
  · have hrun : y.ended = false := by simpa using hend
    cases p with
    | data b =>
      rw [RelayEnd.deliver, if_neg hend]
      exact h.deliver_data hrun
    | close =>
      rw [RelayEnd.deliver, if_neg hend]
      exact h.deliver_close hrun

/-- A frame comes to the writer's end. -/
theorem Direction.deliver_source (h : Direction C sent x y w) (p : Piece) : Direction C sent (x.deliver p) y w := by
  have hsame : (x.deliver p).ended = x.ended ∧ (x.deliver p).shut = x.shut ∧
      (x.deliver p).inbox = x.inbox ∧ (x.deliver p).sending = x.sending := by
    unfold RelayEnd.deliver
    cases p <;> dsimp only <;> split <;> exact ⟨rfl, rfl, rfl, rfl⟩
  obtain ⟨hended, hshut, hinbox, hsending⟩ := hsame
  refine ⟨?_, h.cut, h.kept, ?_, ?_, ?_, ?_, ?_, ?_⟩
  · rw [hended, hinbox, hsending]
    exact h.whole
  · rw [hended, hshut, hinbox, hsending]
    exact h.drained
  · rw [hended]
    exact h.done
  · rw [hended]
    exact h.first
  · rw [hended]
    exact h.last
  · rw [hended]
    exact h.empty
  · rw [hsending]
    exact h.filled

end

/-- Both ends of a stream, and the frames on their way to each. -/
structure Exchange where
  ends : Side → RelayEnd
  wire : Side → List Piece

inductive ExchangeAct where
  | on (side : Side) (a : EndAct)
  | deliver (side : Side)
  deriving DecidableEq, Repr

namespace Exchange

def start : Exchange := ⟨fun _ => .start, fun _ => []⟩

/-- The relay of each end. -/
def kinds (client : RelayKind) : Side → RelayKind
  | .client => client
  | .server => relayStream

def step (client : RelayKind) (s : Exchange) : ExchangeAct → Option (Exchange × List Unit)
  | .on side a =>
    match (s.ends side).step (kinds client side) a with
    | some (e, pieces) =>
      some ({ ends := Function.update s.ends side e
              wire := Function.update s.wire side.other (s.wire side.other ++ pieces) }, [])
    | none => none
  | .deliver side =>
    match s.wire side with
    | p :: rest =>
      some ({ ends := Function.update s.ends side ((s.ends side).deliver p)
              wire := Function.update s.wire side rest }, [])
    | [] => none

/-! ## Both directions -/

/-- What the socket of an end was given. -/
def written (side : Side) (log : List (Taken Exchange ExchangeAct Unit)) : Bytes :=
  log.flatMap fun t =>
    match t.act with
    | .on side' a => if side' = side then a.bytes else []
    | .deliver _ => []

/-- Nothing ends the way from the target to the application but the target's own end of file: the client's
relay does not find the application's end of file and does not fail, nor does the server's relay fail or
find its stream closed. -/
def keepsDown : ExchangeAct → Bool
  | .on .client .eof | .on .client .fail | .on .server .recvClosed | .on .server .fail => false
  | _ => true

/-- The two directions of the exchange; the second is not asked to be whole. -/
structure Both (C : Prop) (fromTarget fromApp : Bytes) (s : Exchange) : Prop where
  down : Direction C fromTarget (s.ends .server) (s.ends .client) (s.wire .client)
  up : Direction False fromApp (s.ends .client) (s.ends .server) (s.wire .server)

variable {client : RelayKind} {C C' : Prop} {fromTarget fromApp : Bytes} {s s' : Exchange} {a : ExchangeAct}
  {ev : List Unit} {log : List (Taken Exchange ExchangeAct Unit)}

theorem Both.step (h : s.Both C fromTarget fromApp) (hs : s.step client a = some (s', ev)) (hC : C' → C)
    (hkeeps : C' → keepsDown a = true) :
    s'.Both C' (fromTarget ++ written .server [⟨s, a, ev⟩]) (fromApp ++ written .client [⟨s, a, ev⟩]) := by
  cases a with simp only [Exchange.step] at hs
  | on side a =>
    split at hs
    · rename_i e ps hstep
      cases hs
      have he := RelayEnd.step_effect hstep
      cases side with
      | client =>
        have hserver : written .server [⟨s, .on .client a, []⟩] = [] := rfl
        have hclient : written .client [⟨s, .on .client a, []⟩] = a.bytes := by simp [written]
        rw [hserver, hclient, List.append_nil]
        refine ⟨?_, ?_⟩
        · refine h.down.ofSink he hC ?_
          intro hc _
          have hk := hkeeps hc
          refine ⟨?_, ?_⟩
          · rintro rfl
            cases hk
          · rintro rfl
            cases hk
        · exact h.up.ofSource he False.elim False.elim
      | server =>
        have hserver : written .server [⟨s, .on .server a, []⟩] = a.bytes := by simp [written]
        have hclient : written .client [⟨s, .on .server a, []⟩] = [] := rfl
        rw [hserver, hclient, List.append_nil]
        refine ⟨?_, ?_⟩
        · refine h.down.ofSource he hC ?_
          intro hc hwhy
          have hk := hkeeps hc
          cases hwhy with
          | eof => rfl
          | closed | fail => cases hk
          | empty hstop => cases hstop
        · exact h.up.ofSink he False.elim False.elim
    · cases hs
  | deliver side =>
    split at hs
    · rename_i p rest hwire
      cases hs
      have hnone : ∀ sd, written sd [⟨s, .deliver side, []⟩] = [] := fun _ => rfl
      rw [hnone, hnone, List.append_nil, List.append_nil]
      have hdown : Direction C' fromTarget (s.ends .server) (s.ends .client) (s.wire .client) :=
        h.down.weaken hC
      cases side with
      | client => exact ⟨(hwire ▸ hdown).deliver, h.up.deliver_source p⟩
      | server => exact ⟨hdown.deliver_source p, (hwire ▸ h.up).deliver⟩
    · cases hs

theorem both_run (h : Exec (step client) start log s) :
    s.Both (Steps (fun _ a => keepsDown a = true) log) (written .server log) (written .client log) := by
  induction h with
  | nil => exact ⟨direction_start _, direction_start _⟩
  | @snoc log s₁ s₂ a ev hrun hs ih =>
    have hsplit : ∀ side, written side (log ++ [⟨s₁, a, ev⟩]) =
        written side log ++ written side [⟨s₁, a, ev⟩] := fun side => List.flatMap_append
    rw [hsplit, hsplit]
    refine ih.step hs ?_ ?_
    · exact fun hsteps => (steps_snoc.mp hsteps).1
    · exact fun hsteps => (steps_snoc.mp hsteps).2

/-- The relay of an end that has returned writes nothing more. -/
theorem got_step {side : Side} (hend : (s.ends side).ended = true) (hs : s.step client a = some (s', ev)) :
    (s'.ends side).ended = true ∧ (s'.ends side).got = (s.ends side).got := by
  cases a with simp only [Exchange.step] at hs
  | on sd a =>
    split at hs
    · rename_i e ps hstep
      cases hs
      by_cases hsd : side = sd
      · subst hsd
        simp only [Function.update_self]
        cases RelayEnd.step_effect hstep with
        | written _ hrun | finish hrun =>
          rw [hend] at hrun
          cases hrun
        | _ => exact ⟨hend, rfl⟩
      · simp [Function.update_of_ne hsd, hend]
    · cases hs
  | deliver sd =>
    split at hs
    · rename_i p rest hwire
      cases hs
      by_cases hsd : side = sd
      · subst hsd
        simp only [Function.update_self]
        cases p <;> simp [RelayEnd.deliver, hend]
      · simp [Function.update_of_ne hsd, hend]
    · cases hs

theorem got_run {side : Side} (hend : (s.ends side).ended = true) (h : Exec (step client) s log s') :
    (s'.ends side).got = (s.ends side).got := by
  have hboth : (s'.ends side).ended = true ∧ (s'.ends side).got = (s.ends side).got := by
    refine h.state_inv (P := fun s' => (s'.ends side).ended = true ∧ (s'.ends side).got = (s.ends side).got)
      ⟨hend, rfl⟩ ?_
    rintro s₁ a s₂ ev ⟨hend₁, hgot⟩ hs
    obtain ⟨hend₂, hgot₂⟩ := got_step hend₁ hs
    exact ⟨hend₂, hgot₂.trans hgot⟩
  exact hboth.2

/-! ## The server's loop for HTTP/3 -/

open Reality in
/-- `tunnel` goes on when one direction has come to its end of file: the other is as it was, and the loop is
over when both have been shut down. -/
theorem tunnel_step {job : Reality.Job} {r r' : StreamRelay} {evs : List UsageEvent} {d : Dir}
    (hmode : job.mode = .tunnel) {w : Wake} (hw : w = .ended d ∨ w = .closed d)
    (hs : r.step job (.wakes w) = some (r', evs)) :
    (r'.result = none ∧ ∀ d', d' ≠ d → r'.flow d' = r.flow d') ∨
      (r'.up.phase = .returned ∧ r'.down.phase = .returned) := by
  have hrun := (StreamRelay.step_wakes hs).1
  have hother : ∀ p d', d' ≠ d → (r.enter d p).flow d' = r.flow d' := by
    intro p d' hne
    rw [StreamRelay.enter, StreamRelay.flow_put, if_neg hne]
  have hsome : r.result.isSome = false := by rw [hrun]; rfl
  simp only [StreamRelay.step, hsome, Bool.false_eq_true, if_false] at hs
  rcases hw with rfl | rfl
  · simp only [StreamRelay.wake, hmode] at hs
    split at hs
    · rename_i hcontra
      cases hcontra
    · cases hs
      exact .inl ⟨(StreamRelay.result_put _ _ _).trans hrun, hother _⟩
    · cases hs
  · simp only [StreamRelay.wake] at hs
    split at hs
    · split at hs
      · rename_i hboth
        cases hs
        exact .inr hboth
      · cases hs
        exact .inl ⟨(StreamRelay.result_put _ _ _).trans hrun, hother _⟩
    · cases hs

/-- When both relays have ended without a failure, and the target has been shut down, the application has its answer. -/
def Answers (client : RelayKind) : Prop :=
  ∀ log s, Exec (step client) start log s → (∀ t ∈ log, ∀ side, t.act ≠ .on side .fail) →
    (s.ends .client).ended = true → (s.ends .server).ended = true → (s.ends .server).shut = true →
    (s.ends .client).got = written .server log

/-- The application sends a request and shuts its write side down. -/
theorem answer_lost {client : RelayKind} (hclient : client ∈ [pipe, pump, relayTcp]) :
    ∃ log s, Exec (step client) start log s ∧
      (∀ t ∈ log, t.act ≠ .on .client .fail ∧ t.act ≠ .on .server .fail) ∧ (s.ends .client).ended = true ∧
      (s.ends .server).ended = true ∧ (s.ends .server).shut = true ∧ (s.ends .client).got = [] ∧
      written .server log = [7, 8] := by
  refine exec_reaches (step client) start
    [.on .client (.write [1]), .on .client .shutdown, .on .client (.read 1), .on .client .sent,
      .deliver .server, .on .server .recv, .on .server .written, .on .client .eof,
      .on .server (.write [7, 8]), .on .server .shutdown, .on .server (.read 2), .on .server .sent,
      .on .server .eof, .deliver .client, .deliver .client] _ ?_
  revert client
  decide

theorem not_answers {client : RelayKind} (hclient : client ∈ [pipe, pump, relayTcp]) : ¬ Answers client := by
  intro hclaim
  obtain ⟨log, s, hexec, hfail, hend, hend', hshut, hgot, hsent⟩ := answer_lost hclient
  have heq := hclaim log s hexec ?_ hend hend' hshut
  · rw [hgot, hsent] at heq
    cases heq
  · intro t ht side
    cases side with
    | client => exact (hfail t ht).1
    | server => exact (hfail t ht).2

end Exchange

end Leshiy.Client
