import Mathlib.Algebra.Order.Group.Multiset
import Mathlib.Tactic.Abel
import Leshiy.Mux.History

/-!
# The sending side

`send` cuts a TCP payload into chunks and queues each as a frame; a datagram is one frame. The
frames queued for a stream carry what was passed to `send` on it and nothing else, in some
order (`Sourced`). If the calls follow one another the order is that of the calls (`Sending`):
a call that fails leaves a stream on which nothing more can be queued, so what was queued stays
an initial part.

Both readings of "what was passed", bytes for TCP and whole messages for datagrams, are a
`View`; the argument is made once for all of them.
-/

namespace Leshiy.Mux

open Leshiy.Lib

/-- A reading of a list of payloads that does not see how a TCP payload is cut. -/
structure View (kind : StreamKind) (β : Type) where
  of : List Bytes → List β
  append : ∀ l m, of (l ++ m) = of l ++ of m
  cut : kind = .tcp → ∀ x y, of [x ++ y] = of [x] ++ of [y]

namespace View

variable {kind : StreamKind} {β : Type}

/-- The bytes, one payload after the other. -/
def bytes (kind : StreamKind) : View kind UInt8 where
  of := List.flatten
  append := by simp
  cut := by simp

/-- The messages themselves. -/
def messages (hk : kind ≠ .tcp) : View kind Bytes where
  of l := l
  append _ _ := rfl
  cut hk' := absurd hk' hk

variable (v : View kind β)

@[simp] theorem of_nil : v.of [] = [] := by
  have h := congrArg List.length (v.append [] [])
  rw [List.append_nil, List.length_append] at h
  exact List.length_eq_zero_iff.mp (by omega)

theorem of_empty (hk : kind = .tcp) : v.of [[]] = [] := by
  have h := congrArg List.length (v.cut hk [] [])
  rw [List.append_nil, List.length_append] at h
  exact List.length_eq_zero_iff.mp (by omega)

theorem of_cons (x : Bytes) (l : List Bytes) : v.of (x :: l) = v.of [x] ++ v.of l :=
  v.append [x] l

/-- Empty TCP payloads do not show. -/
theorem of_empties {l : List Bytes} (h : ∀ x ∈ l, x = [] ∧ kind = .tcp) : v.of l = [] := by
  induction l with
  | nil => exact v.of_nil
  | cons x l ih =>
    obtain ⟨rfl, hk⟩ := h x List.mem_cons_self
    rw [v.of_cons, v.of_empty hk, ih fun y hy => h y (List.mem_cons_of_mem _ hy)]
    rfl

theorem of_isPrefix {l m : List Bytes} (h : l <+: m) : v.of l <+: v.of m := by
  obtain ⟨r, rfl⟩ := h
  rw [v.append]
  exact List.prefix_append _ _

/-- Payloads in another order are read in another order. -/
theorem of_perm {l m : List Bytes} (h : l.Perm m) : (v.of l).Perm (v.of m) := by
  induction h with
  | nil => exact .rfl
  | @cons x l m _ ih =>
    rw [v.of_cons x l, v.of_cons x m]
    exact ih.append_left _
  | swap x y l =>
    rw [v.of_cons y (x :: l), v.of_cons x l, v.of_cons x (y :: l), v.of_cons y l,
      ← List.append_assoc, ← List.append_assoc]
    exact List.perm_append_comm.append_right _
  | trans _ _ ih₁ ih₂ => exact ih₁.trans ih₂

end View

/-- What calls of `send` on a stream had not queued when they failed or were dropped. -/
def unsent (h : Nat) (ev : List Event) : List Bytes :=
  ev.filterMap fun
    | .sendStopped h' rest => if h' = h then some rest else none
    | _ => none

@[simp] theorem unsent_append (h : Nat) (l m : List Event) :
    unsent h (l ++ m) = unsent h l ++ unsent h m := by
  simp [unsent]

/-- What a call has still to queue. -/
def SendCall.whole (c : SendCall) : Bytes := c.chunk ++ c.rest

namespace Endpoint

variable {e e' : Endpoint} {a : Act} {ev evs : List Event} {h : Nat} {st st' : Stream}

/-- A call of `send` on the stream starts only when none is in progress. -/
def inTurn (e : Endpoint) (h : Nat) : Act → Prop
  | .sendCall h' _ => h' = h → ∀ st ∈ e.objs[h]?, st.sends = []
  | _ => True

instance (e : Endpoint) (h : Nat) (a : Act) : Decidable (e.inTurn h a) := by
  unfold inTurn
  split <;> infer_instance

/-- No call of `send` on the stream is dropped before it returns. -/
def dropsNone (h : Nat) : Act → Prop
  | .sendDrop h' _ => h' ≠ h
  | _ => True

instance (h : Nat) (a : Act) : Decidable (dropsNone h a) := by
  unfold dropsNone
  split <;> infer_instance

/-- The calls of `send` on a stream follow one another, and each runs to its end. -/
def orderly (e : Endpoint) (h : Nat) (a : Act) : Prop := e.inTurn h a ∧ dropsNone h a

instance (e : Endpoint) (h : Nat) (a : Act) : Decidable (e.orderly h a) :=
  inferInstanceAs (Decidable (e.inTurn h a ∧ dropsNone h a))

/-- What a step does to the calls of `send` on a stream. -/
inductive Sends (e : Endpoint) (a : Act) (ev : List Event) (h : Nat) (st st' : Stream) : Prop
  | kept : st'.sends = st.sends → dataOf st.id (queuedFrames ev) = [] →
      (∀ x ∈ sent h ev, x = [] ∧ st.kind = .tcp) → unsent h ev = [] → Sends e a ev h st st'
  | started {data : Bytes} {c : SendCall} : a = .sendCall h data →
      st'.sends = st.sends ++ [c] → c.charged = false → (st.kind ≠ .tcp → c.rest = []) →
      dataOf st.id (queuedFrames ev) = [] → sent h ev = [c.whole] → unsent h ev = [] →
      Sends e a ev h st st'
  | charged {k : Nat} {c : SendCall} : st.sends[k]? = some c →
      st'.sends = st.sends.set k { c with charged := true } →
      (∀ sem ∈ st.sendWindow, sem.closed = false) → dataOf st.id (queuedFrames ev) = [] →
      sent h ev = [] → unsent h ev = [] → Sends e a ev h st st'
  | last {k : Nat} {c : SendCall} : st.sends[k]? = some c → st'.sends = st.sends.eraseIdx k →
      c.charged = true → c.rest = [] → e.cmdOpen = true →
      dataOf st.id (queuedFrames ev) = [c.chunk] → sent h ev = [] → unsent h ev = [] →
      Sends e a ev h st st'
  | more {k : Nat} {c : SendCall} : st.sends[k]? = some c →
      st'.sends = st.sends.set k (nextChunk c.rest) → c.charged = true → c.rest ≠ [] →
      e.cmdOpen = true → dataOf st.id (queuedFrames ev) = [c.chunk] → sent h ev = [] →
      unsent h ev = [] → Sends e a ev h st st'
  | stopped {k : Nat} {c : SendCall} : st.sends[k]? = some c →
      st'.sends = st.sends.eraseIdx k →
      (a = .sendDrop h k ∨ e.cmdOpen = false ∨
        (st'.sendWindow.isSome = true ∧ st'.released)) →
      dataOf st.id (queuedFrames ev) = [] → sent h ev = [] → unsent h ev = [c.whole] →
      Sends e a ev h st st'

theorem dataOf_of_types {id : UInt32} {fs : List Frame}
    (h : ∀ f ∈ fs, f.isData = false) : dataOf id fs = [] :=
  dataOf_eq_nil fun f hf hd => absurd hd (by simp [h f hf])

@[simp] theorem isData_openFrame (id : UInt32) (target : String) :
    (openFrame id target).isData = false := by
  simp [Frame.isData, openFrame, FrameType.toU8_inj]

@[simp] theorem isData_closeFrame (id : UInt32) : (closeFrame id).isData = false := by
  simp [Frame.isData, closeFrame, FrameType.toU8_inj]

@[simp] theorem isData_windowUpdateFrame (id credit : UInt32) :
    (windowUpdateFrame id credit).isData = false := by
  simp [Frame.isData, windowUpdateFrame, FrameType.toU8_inj]

@[simp] theorem isData_pingFrame : pingFrame.isData = false := by decide

@[simp] theorem isData_pongFrame : pongFrame.isData = false := by decide

@[simp] theorem isData_dataFrame (kind : StreamKind) (id : UInt32) (payload : Bytes) :
    (dataFrame kind id payload).isData = true := by
  cases kind <;> simp [Frame.isData, dataFrame]

/-- **The calls of `send` on a stream across a step.** -/
theorem Effect.sends (he : Effect e a e' ev) (hwf : e.Wf) (hnd : e.ids.Nodup)
    (hst : e.objs[h]? = some st) (hst' : e'.objs[h]? = some st') : Sends e a ev h st st' := by
  have hkeep : ∀ {h₀ : Nat} {f : Stream → Stream}, (e.objs.modify h₀ f)[h]? = some st' →
      (∀ st : Stream, (f st).sends = st.sends) → st'.sends = st.sends := by
    intro h₀ f hst' hf
    rcases modify_cases hst hst' with ⟨-, rfl⟩ | ⟨-, rfl⟩
    · exact hf st
    · rfl
  have hwindow : ∀ {p : Prop} [Decidable p],
      (if p then st.closeWindow else st).sends = st.sends := by
    intro p _
    split <;> rfl
  -- A frame that another stream queues is not for this one.
  have hother : ∀ {h₀ : Nat} {st₀ : Stream} {x : Bytes} {ev' : List Event},
      e.objs[h₀]? = some st₀ → h₀ ≠ h →
      dataOf st.id (queuedFrames (.queued (dataFrame st₀.kind st₀.id x) :: ev')) =
        dataOf st.id (queuedFrames ev') := by
    intro h₀ st₀ x ev' hst₀ hne
    have hid : st₀.id ≠ st.id := fun hid => hne (eq_of_id_eq hnd hst₀ hst hid)
    simp [queuedFrames, dataOf, hid]
  cases he with
  | @sendEmpty h₀ st₀ hst₀ _ hk =>
    cases hst.symm.trans hst'
    refine .kept rfl rfl ?_ rfl
    by_cases hh : h₀ = h
    · subst hh
      cases hst.symm.trans hst₀
      simp [sent, hk]
    · simp [sent, hh]
  | @sendStarted h₀ data st₀ c hst₀ _ hch hdata _ hrest =>
    rcases modify_cases hst hst' with ⟨rfl, rfl⟩ | ⟨hne, rfl⟩
    · cases hst.symm.trans hst₀
      exact .started rfl rfl hch hrest rfl (by simp [sent, SendCall.whole, hdata]) rfl
    · exact .kept rfl rfl (by simp [sent, hne]) rfl
  | @charged h₀ k st₀ c hst₀ _ hk hch hsem =>
    rcases modify_cases hst hst' with ⟨rfl, rfl⟩ | ⟨hne, rfl⟩
    · cases hst.symm.trans hst₀
      exact .charged hk rfl (fun sem hm => (hsem sem hm).1) rfl rfl rfl
    · exact .kept rfl rfl (by simp [sent]) rfl
  | @windowClosed h₀ k st₀ c sem hst₀ _ hk hch hw hcl =>
    rcases modify_cases hst hst' with ⟨rfl, rfl⟩ | ⟨hne, rfl⟩
    · cases hst.symm.trans hst₀
      refine .stopped hk rfl (Or.inr (Or.inr ⟨by simp [hw], ?_⟩)) rfl rfl
        (by simp [unsent, SendCall.whole])
      simp [Stream.released, hw, hcl]
    · exact .kept rfl rfl (by simp [sent]) (by simp [unsent, hne])
  | @queueClosed h₀ k st₀ c hst₀ _ hk hch hc =>
    rcases modify_cases hst hst' with ⟨rfl, rfl⟩ | ⟨hne, rfl⟩
    · cases hst.symm.trans hst₀
      exact .stopped hk rfl (Or.inr (Or.inl hc)) rfl rfl (by simp [unsent, SendCall.whole])
    · exact .kept rfl rfl (by simp [sent]) (by simp [unsent, hne])
  | @sendDropped h₀ k st₀ c hst₀ _ hk =>
    rcases modify_cases hst hst' with ⟨rfl, rfl⟩ | ⟨hne, rfl⟩
    · cases hst.symm.trans hst₀
      exact .stopped hk rfl (Or.inl rfl) rfl rfl (by simp [unsent, SendCall.whole])
    · exact .kept rfl rfl (by simp [sent]) (by simp [unsent, hne])
  | @sentLast h₀ k st₀ c hst₀ _ hk hch hc _ hrest =>
    rcases modify_cases hst hst' with ⟨rfl, rfl⟩ | ⟨hne, rfl⟩
    · cases hst.symm.trans hst₀
      exact .last hk rfl hch hrest hc (by simp [queuedFrames, dataOf]) rfl rfl
    · exact .kept rfl (hother hst₀ hne) (by simp [sent]) rfl
  | @sentMore h₀ k st₀ c hst₀ _ hk hch hc _ hrest =>
    rcases modify_cases hst hst' with ⟨rfl, rfl⟩ | ⟨hne, rfl⟩
    · cases hst.symm.trans hst₀
      exact .more hk rfl hch hrest hc (by simp [queuedFrames, dataOf]) rfl rfl
    · exact .kept rfl (hother hst₀ hne) (by simp [sent]) rfl
  | opened =>
    have hlt := (List.getElem?_eq_some_iff.mp hst).1
    rw [List.getElem?_append_left hlt, hst] at hst'
    cases hst'
    exact .kept rfl (dataOf_of_types (by simp [queuedFrames])) (by simp [sent]) rfl
  | readOpen =>
    have hlt := (List.getElem?_eq_some_iff.mp hst).1
    rw [List.getElem?_append_left hlt, hst] at hst'
    cases hst'
    exact .kept rfl rfl (by simp [sent]) rfl
  | muxDropped =>
    cases mapIdx_cases hst hst'
    refine .kept ?_ rfl (by simp [sent]) rfl
    split <;> rfl
  | writerClosed | readerClosed | watchdogFired =>
    cases mapIdx_cases hst hst'
    exact .kept hwindow rfl (by simp [sent]) rfl
  | tookClose | readClose | readReset =>
    simp only [removeStream_objs] at hst'
    cases mapIdx_cases hst hst'
    exact .kept hwindow rfl (by simp [sent]) rfl
  | credited _ _ _ _ _ _ hf =>
    subst hf
    exact .kept (hkeep hst' fun _ => rfl) (dataOf_of_types (by simp [queuedFrames]))
      (by simp [sent]) rfl
  | closeQueued | pinged =>
    cases hst.symm.trans hst'
    exact .kept rfl (dataOf_of_types (by simp [queuedFrames])) (by simp [sent]) rfl
  | replied hr =>
    cases hst.symm.trans hst'
    refine .kept rfl (dataOf_of_types ?_) (by simp [sent]) rfl
    rcases hwf.reply hr with rfl | ⟨st₀, -, rfl⟩ <;> simp [queuedFrames]
  | accepted | streamDropped | popped | returned | returnedClosed | drainedOpen | readPushed
  | readCredit | deliveryFailed | readerLeftDelivering =>
    exact .kept (hkeep hst' fun _ => rfl) rfl (by simp [sent]) rfl
  | _ =>
    cases hst.symm.trans hst'
    exact .kept rfl rfl (by simp [sent]) rfl

/-! ## Whatever the order of the calls -/

/-- What was queued for a stream was passed to `send` on it, and nothing is lost on the way. -/
structure Sourced (evs : List Event) (h : Nat) (st : Stream) : Prop where
  single : ∀ c ∈ st.sends, st.kind ≠ .tcp → c.rest = []
  calls : ∀ c ∈ st.sends, ∃ y ∈ sent h evs, c.whole <:+ y
  frames : ∀ x ∈ dataOf st.id (queuedFrames evs), ∃ y ∈ sent h evs, x <:+: y
  /-- Queued, still to be queued and given up: together what was passed to `send`. -/
  total : ∀ (β : Type) (kind : StreamKind) (v : View kind β), st.kind = kind →
    (v.of (dataOf st.id (queuedFrames evs)) ++
      (v.of (st.sends.map SendCall.whole) ++ v.of (unsent h evs))).Perm (v.of (sent h evs))

theorem whole_suffix (c : SendCall) : c.rest <:+ c.whole := List.suffix_append _ _

theorem chunk_infix (c : SendCall) : c.chunk <:+: c.whole := (List.prefix_append _ _).isInfix

theorem Sends.single (hs : Sends e a ev h st st') (hk : st.kind ≠ .tcp)
    (hold : ∀ c ∈ st.sends, c.rest = []) : ∀ c ∈ st'.sends, c.rest = [] := by
  cases hs with
  | kept heq => rwa [heq]
  | started _ heq _ hrest =>
    rw [heq]
    intro c hc
    rcases List.mem_append.mp hc with hc | hc
    · exact hold c hc
    · cases List.mem_singleton.mp hc
      exact hrest hk
  | @charged k c hk heq =>
    rw [heq]
    intro c' hc'
    rcases List.mem_or_eq_of_mem_set hc' with hc' | rfl
    · exact hold c' hc'
    · exact hold c (List.mem_of_getElem? hk)
  | @more k c hk _ _ hrest => exact absurd (hold c (List.mem_of_getElem? hk)) hrest
  | last _ heq | stopped _ heq =>
    rw [heq]
    exact fun c hc => hold c (List.mem_of_mem_eraseIdx hc)

/-- A call after a step is one from before, cut down, or was made in the step. -/
theorem Sends.calls (hs : Sends e a ev h st st') : ∀ c' ∈ st'.sends,
    (∃ c ∈ st.sends, c'.whole <:+ c.whole) ∨ c'.whole ∈ sent h ev := by
  cases hs with
  | kept heq =>
    rw [heq]
    exact fun c' hc' => Or.inl ⟨c', hc', List.suffix_rfl⟩
  | started _ heq _ _ _ hsent =>
    rw [heq, hsent]
    intro c' hc'
    rcases List.mem_append.mp hc' with hc' | hc'
    · exact Or.inl ⟨c', hc', List.suffix_rfl⟩
    · cases List.mem_singleton.mp hc'
      exact Or.inr List.mem_cons_self
  | @charged k c hk heq | @more k c hk heq =>
    rw [heq]
    intro c' hc'
    refine Or.inl ?_
    rcases List.mem_or_eq_of_mem_set hc' with hc' | rfl
    · exact ⟨c', hc', List.suffix_rfl⟩
    · refine ⟨c, List.mem_of_getElem? hk, ?_⟩
      first
        | exact List.suffix_rfl
        | rw [SendCall.whole, nextChunk_append]
          exact whole_suffix c
  | last _ heq | stopped _ heq =>
    rw [heq]
    exact fun c' hc' => Or.inl ⟨c', List.mem_of_mem_eraseIdx hc', List.suffix_rfl⟩

theorem Sends.frames (hs : Sends e a ev h st st') : ∀ x ∈ dataOf st.id (queuedFrames ev),
    ∃ c ∈ st.sends, x <:+: c.whole := by
  cases hs with
  | kept _ hd | started _ _ _ _ hd | charged _ _ _ hd | stopped _ _ _ hd => simp [hd]
  | @last k c hk _ _ _ _ hd | @more k c hk _ _ _ _ hd =>
    rw [hd]
    intro x hx
    cases List.mem_singleton.mp hx
    exact ⟨c, List.mem_of_getElem? hk, chunk_infix c⟩

/-- The calls on a stream, with one of them taken out or replaced. -/
theorem perm_of_getElem? {l : List SendCall} {k : Nat} {c : SendCall} (hk : l[k]? = some c) :
    l.Perm (c :: l.eraseIdx k) ∧ ∀ c', (l.set k c').Perm (c' :: l.eraseIdx k) := by
  obtain ⟨hlt, rfl⟩ := List.getElem?_eq_some_iff.mp hk
  refine ⟨(List.getElem_cons_eraseIdx_perm hlt).symm, fun c' => ?_⟩
  have hperm := List.getElem_cons_eraseIdx_perm (l := l.set k c') (by simpa using hlt)
  rw [List.getElem_set_self, List.eraseIdx_set_eq] at hperm
  exact hperm.symm

section

variable {β : Type} {kind : StreamKind} (v : View kind β)

/-- What a step queues and gives up is what it takes from the calls. -/
theorem Sends.total (hs : Sends e a ev h st st') (hk : st.kind = kind)
    (hsingle : ∀ c ∈ st.sends, st.kind ≠ .tcp → c.rest = []) :
    (v.of (dataOf st.id (queuedFrames ev)) ++
      (v.of (st'.sends.map SendCall.whole) ++ v.of (unsent h ev))).Perm
      (v.of (st.sends.map SendCall.whole) ++ v.of (sent h ev)) := by
  have hout : ∀ {k : Nat} {c : SendCall}, st.sends[k]? = some c →
      (v.of (st.sends.map SendCall.whole)).Perm
        (v.of [c.whole] ++ v.of ((st.sends.eraseIdx k).map SendCall.whole)) ∧
      ∀ c', (v.of ((st.sends.set k c').map SendCall.whole)).Perm
        (v.of [c'.whole] ++ v.of ((st.sends.eraseIdx k).map SendCall.whole)) := by
    intro k c hk
    obtain ⟨hperm, hset⟩ := perm_of_getElem? hk
    rw [← v.append]
    refine ⟨v.of_perm (hperm.map _), fun c' => ?_⟩
    rw [← v.append]
    exact v.of_perm ((hset c').map _)
  cases hs with
  | kept heq hd hempty hun =>
    rw [heq, hd, hun, v.of_empties fun x hx => hk ▸ hempty x hx, v.of_nil]
    exact .rfl
  | started _ heq _ _ hd hsent hun =>
    rw [heq, hd, hun, hsent, List.map_append, v.append, v.of_nil, List.append_nil]
    exact .rfl
  | charged hc heq _ hd hsent hun =>
    rw [heq, hd, hun, hsent, v.of_nil, List.append_nil, List.append_nil, List.nil_append]
    exact ((hout hc).2 _).trans (hout hc).1.symm
  | @last k c hc heq _ hrest _ hd hsent hun =>
    have hwhole : c.whole = c.chunk := by rw [SendCall.whole, hrest, List.append_nil]
    rw [heq, hd, hun, hsent, v.of_nil, List.append_nil, List.append_nil, ← hwhole]
    exact (hout hc).1.symm
  | @more k c hc heq _ hrest _ hd hsent hun =>
    have htcp : kind = .tcp := by
      by_contra hne
      exact hrest (hsingle c (List.mem_of_getElem? hc) (hk ▸ hne))
    have hwhole : (nextChunk c.rest).whole = c.rest := nextChunk_append _
    rw [heq, hd, hun, hsent, v.of_nil, List.append_nil, List.append_nil]
    refine (((hout hc).2 _).append_left _).trans ?_
    rw [hwhole, ← List.append_assoc, ← v.cut htcp]
    exact (hout hc).1.symm
  | stopped hc heq _ hd hsent hun =>
    rw [heq, hd, hun, hsent, v.of_nil, List.append_nil, List.nil_append]
    exact List.perm_append_comm.trans (hout hc).1.symm

end

/-- **One step of the sending side**, whatever the order of the calls. -/
theorem Effect.sourced (he : Effect e a e' ev) (hwf : e.Wf) (hnd : e.ids.Nodup)
    (hst : e.objs[h]? = some st) (hst' : e'.objs[h]? = some st') (hs : Sourced evs h st) :
    Sourced (evs ++ ev) h st' := by
  have hstep := he.sends hwf hnd hst hst'
  obtain ⟨st₁, hst₁, hev⟩ := he.evolves hst
  cases hst'.symm.trans hst₁
  have hcalls : ∀ c ∈ st.sends, ∃ y ∈ sent h (evs ++ ev), c.whole <:+ y := by
    intro c hc
    obtain ⟨y, hy, hsuf⟩ := hs.calls c hc
    exact ⟨y, by simp [hy], hsuf⟩
  constructor
  · intro c hc hk
    rw [hev.kind] at hk
    exact hstep.single hk (fun c hc => hs.single c hc hk) c hc
  · intro c' hc'
    rcases hstep.calls c' hc' with ⟨c, hc, hsuf⟩ | hnew
    · obtain ⟨y, hy, hsuf'⟩ := hcalls c hc
      exact ⟨y, hy, hsuf.trans hsuf'⟩
    · exact ⟨c'.whole, by simp [hnew], List.suffix_rfl⟩
  · rw [hev.id, queuedFrames_append, dataOf_append]
    intro x hx
    rcases List.mem_append.mp hx with hx | hx
    · obtain ⟨y, hy, hinf⟩ := hs.frames x hx
      exact ⟨y, by simp [hy], hinf⟩
    · obtain ⟨c, hc, hinf⟩ := hstep.frames x hx
      obtain ⟨y, hy, hsuf⟩ := hcalls c hc
      exact ⟨y, hy, hinf.trans hsuf.isInfix⟩
  · intro β kind v hk
    rw [hev.kind] at hk
    have hold := Multiset.coe_eq_coe.mpr (hs.total β kind v hk)
    have hnew := Multiset.coe_eq_coe.mpr (hstep.total v hk hs.single)
    rw [hev.id, queuedFrames_append, dataOf_append, sent_append, unsent_append, v.append, v.append,
      v.append]
    rw [← Multiset.coe_eq_coe]
    simp only [← Multiset.coe_add] at hold hnew ⊢
    calc _ = (v.of (dataOf st.id (queuedFrames evs)) : Multiset β) + v.of (unsent h evs) +
          (v.of (dataOf st.id (queuedFrames ev)) +
            (v.of (st'.sends.map SendCall.whole) + v.of (unsent h ev))) := by abel
      _ = (v.of (dataOf st.id (queuedFrames evs)) : Multiset β) + v.of (unsent h evs) +
          (v.of (st.sends.map SendCall.whole) + v.of (sent h ev)) := by rw [hnew]
      _ = _ := by
        rw [← hold]
        abel

/-! ## Calls that follow one another -/

/-- Nothing can be queued for the stream any more. -/
def muted (e : Endpoint) (st : Stream) : Prop :=
  e.cmdOpen = false ∨
    (st.sendWindow.isSome = true ∧ st.released ∧ ∀ c ∈ st.sends, c.charged = false)

theorem muted_mono (hm : e.muted st) (hc : e'.cmdOpen = true → e.cmdOpen = true) :
    e'.muted st := by
  rcases hm with h | h
  · refine Or.inl ?_
    by_contra hne
    rw [hc (by simpa using hne)] at h
    cases h
  · exact Or.inr h

/-- A muted stream stays muted and queues nothing. -/
theorem Sends.muted (hs : Sends e a ev h st st') (hev : st.Evolves st')
    (hc : e'.cmdOpen = true → e.cmdOpen = true) (hm : e.muted st) :
    e'.muted st' ∧ dataOf st.id (queuedFrames ev) = [] := by
  refine ⟨muted_mono ?_ hc, ?_⟩
  · rcases hm with hcl | ⟨hw, hrel, hun⟩
    · exact Or.inl hcl
    · refine Or.inr ⟨hev.window.trans hw, hev.released hrel, ?_⟩
      cases hs with
      | kept heq => rwa [heq]
      | started _ heq hch =>
        rw [heq]
        intro c' hc'
        rcases List.mem_append.mp hc' with hc' | hc'
        · exact hun c' hc'
        · cases List.mem_singleton.mp hc'
          exact hch
      | charged _ _ hsem =>
        -- No credit comes from a closed window.
        obtain ⟨sem, hsem'⟩ := Option.isSome_iff_exists.mp hw
        have hopen := hsem sem hsem'
        rw [hrel sem hsem'] at hopen
        cases hopen
      | last hk _ hch | more hk _ hch =>
        rw [hun _ (List.mem_of_getElem? hk)] at hch
        cases hch
      | stopped _ heq =>
        rw [heq]
        exact fun c hc => hun c (List.mem_of_mem_eraseIdx hc)
  · cases hs with
    | kept _ hd | started _ _ _ _ hd | charged _ _ _ hd | stopped _ _ _ hd => exact hd
    | last hk _ hch _ ho | more hk _ hch _ ho =>
      rcases hm with hcl | ⟨-, -, hun⟩
      · rw [ho] at hcl
        cases hcl
      · rw [hun _ (List.mem_of_getElem? hk)] at hch
        cases hch

theorem eq_singleton_of_getElem? {l : List SendCall} {k : Nat} {c : SendCall}
    (hone : l.length ≤ 1) (hk : l[k]? = some c) : l = [c] ∧ k = 0 := by
  match l, k with
  | [], k => simp at hk
  | [c₀], 0 => simpa using hk
  | [c₀], k + 1 => simp at hk
  | _ :: _ :: _, k => simp at hone

/-- What was queued for a stream, in order, against what was passed to `send`. -/
structure Sending (e : Endpoint) (evs : List Event) (h : Nat) (st : Stream) : Prop where
  one : st.sends.length ≤ 1
  /-- With the call in progress it is everything, or a call has failed. -/
  flow : ∀ (β : Type) (kind : StreamKind) (v : View kind β), st.kind = kind →
    v.of (dataOf st.id (queuedFrames evs)) ++ v.of (st.sends.map SendCall.whole) =
      v.of (sent h evs) ∨
    (e.muted st ∧ unsent h evs ≠ [] ∧
      v.of (dataOf st.id (queuedFrames evs)) <+: v.of (sent h evs))

theorem Sends.one (hs : Sends e a ev h st st') (hst : e.objs[h]? = some st)
    (hone : st.sends.length ≤ 1) (hord : e.orderly h a) : st'.sends.length ≤ 1 := by
  cases hs with
  | kept heq => rwa [heq]
  | started ha heq =>
    subst ha
    have hnil : st.sends = [] := hord.1 rfl st hst
    simp [heq, hnil]
  | charged _ heq | more _ heq => rwa [heq, List.length_set]
  | last _ heq | stopped _ heq =>
    rw [heq]
    exact (List.eraseIdx_sublist _ _).length_le.trans hone

/-- **One step of the sending side** that is orderly for the stream. -/
theorem Effect.sending (he : Effect e a e' ev) (hwf : e.Wf) (hnd : e.ids.Nodup)
    (hst : e.objs[h]? = some st) (hst' : e'.objs[h]? = some st')
    (hsingle : ∀ c ∈ st.sends, st.kind ≠ .tcp → c.rest = []) (hs : e.Sending evs h st)
    (hord : e.orderly h a) : e'.Sending (evs ++ ev) h st' := by
  have hstep := he.sends hwf hnd hst hst'
  obtain ⟨st₁, hst₁, hev⟩ := he.evolves hst
  cases hst'.symm.trans hst₁
  refine ⟨hstep.one hst hs.one hord, ?_⟩
  intro β kind v hk
  rw [hev.kind] at hk
  rw [hev.id, queuedFrames_append, dataOf_append, sent_append, unsent_append, v.append, v.append]
  rcases hs.flow β kind v hk with heq | ⟨hm, hun, hpre⟩
  · cases hstep with
    | kept hsame hd hempty =>
      left
      rw [hsame, hd, v.of_nil, v.of_empties fun x hx => hk ▸ hempty x hx, List.append_nil,
        List.append_nil, heq]
    | started ha hone _ _ hd hsent =>
      left
      subst ha
      have hnil : st.sends = [] := hord.1 rfl st hst
      rw [hnil, List.map_nil, v.of_nil, List.append_nil] at heq
      rw [hone, hnil, hd, v.of_nil, List.append_nil, heq, hsent]
      rfl
    | charged hc hset _ hd hsent =>
      left
      obtain ⟨hone, rfl⟩ := eq_singleton_of_getElem? hs.one hc
      rw [hone, List.set_cons_zero] at hset
      rw [hset, hd, hsent, v.of_nil, List.append_nil, List.append_nil, ← heq, hone]
      rfl
    | @last k c hc herase _ hrest _ hd hsent =>
      left
      obtain ⟨hone, rfl⟩ := eq_singleton_of_getElem? hs.one hc
      rw [hone, List.eraseIdx_cons_zero] at herase
      rw [hone, List.map_singleton, SendCall.whole, hrest, List.append_nil] at heq
      rw [herase, hd, hsent, List.map_nil, v.of_nil, List.append_nil, List.append_nil, heq]
    | @more k c hc hset _ hrest _ hd hsent =>
      left
      obtain ⟨hone, rfl⟩ := eq_singleton_of_getElem? hs.one hc
      have htcp : kind = .tcp := by
        by_contra hne
        exact hrest (hsingle c (List.mem_of_getElem? hc) (hk ▸ hne))
      rw [hone, List.set_cons_zero] at hset
      rw [hone, List.map_singleton, SendCall.whole, v.cut htcp] at heq
      rw [hset, hd, hsent, List.map_singleton, SendCall.whole, nextChunk_append, v.of_nil,
        List.append_nil, List.append_assoc, heq]
    | @stopped k c hc herase hwhy hd hsent hun =>
      right
      obtain ⟨hone, rfl⟩ := eq_singleton_of_getElem? hs.one hc
      rw [hone, List.eraseIdx_cons_zero] at herase
      rw [hd, hsent, hun, v.of_nil, List.append_nil, List.append_nil]
      refine ⟨?_, by simp, heq ▸ List.prefix_append _ _⟩
      rcases hwhy with rfl | hcl | ⟨hw, hrel⟩
      · exact absurd rfl hord.2
      · exact muted_mono (Or.inl hcl) he.cmdOpen_mono
      · exact Or.inr ⟨hw, hrel, by simp [herase]⟩
  · right
    obtain ⟨hm', hd⟩ := hstep.muted hev he.cmdOpen_mono hm
    rw [hd, v.of_nil, List.append_nil]
    refine ⟨hm', ?_, hpre.trans (List.prefix_append _ _)⟩
    exact fun hnil => hun (List.append_eq_nil_iff.mp hnil).1

/-- A stream starts with nothing sent. -/
theorem sourced_new (hs : st.sends = []) (hd : dataOf st.id (queuedFrames evs) = [])
    (hsent : sent h evs = []) (hun : unsent h evs = []) :
    Sourced evs h st ∧ e.Sending evs h st := by
  refine ⟨⟨by simp [hs], by simp [hs], by simp [hd], ?_⟩, by simp [hs], ?_⟩
  · intro β kind v _
    simp [hd, hs, hsent, hun]
  · intro β kind v _
    simp [hd, hs, hsent]

/-- Only the calls on a stream of the endpoint show in its history. -/
theorem Effect.sent_none (he : Effect e a e' ev) (hnone : e.objs[h]? = none) :
    sent h ev = [] ∧ unsent h ev = [] := by
  have hne : ∀ {h₀ : Nat} {st₀ : Stream}, e.objs[h₀]? = some st₀ → h₀ ≠ h := by
    rintro h₀ st₀ hst₀ rfl
    rw [hnone] at hst₀
    cases hst₀
  cases he with
  | sendEmpty hst | sendStarted hst => exact ⟨by simp [sent, hne hst], rfl⟩
  | windowClosed hst | queueClosed hst | sendDropped hst => exact ⟨rfl, by simp [unsent, hne hst]⟩
  | _ => exact ⟨rfl, rfl⟩

end Endpoint

end Leshiy.Mux
