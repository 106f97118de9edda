import Leshiy.Mux.Effect

/-!
# What every step of an endpoint keeps

First the streams: a step may append one stream (`Effect.created`) and makes one of the changes
`Stream.Change` to each of the others, never to their id, kind or target (`Effect.evolves`).
Then the two places that hold sinks, the map and the command queue. From these follows the
well-formedness `Endpoint.Wf` of every state an endpoint reaches, whatever the peer sends.
-/

namespace Leshiy.Mux

open Leshiy.Lib

/-- The send window is closed (or there is none): no `send` waits for credit. -/
def Stream.released (st : Stream) : Prop := ∀ sem ∈ st.sendWindow, sem.closed = true

instance (st : Stream) : Decidable st.released :=
  inferInstanceAs (Decidable (∀ sem ∈ st.sendWindow, sem.closed = true))

@[simp] theorem Stream.released_closeWindow (st : Stream) : st.closeWindow.released := by
  simp [released, closeWindow]

namespace Endpoint

variable {e e' : Endpoint} {a : Act} {ev : List Event}

/-! ## Fields of the map operations -/

section

variable (e) (id : UInt32)

theorem removeStream_eq : e.removeStream id =
    { e with
      streams := e.streams.erase id
      objs := e.objs.mapIdx fun h st => if e.streams.lookup id = some h then st.closeWindow else st
      } := by
  simp only [removeStream]
  split
  · next hl =>
    have herase : e.streams.erase id = e.streams :=
      AList.ext (List.kerase_of_notMem_keys (AList.lookup_eq_none.mp hl))
    have hobjs : (e.objs.mapIdx fun _ st => st) = e.objs := by
      apply List.ext_getElem?
      simp
    simp [hl, herase, hobjs]
  · next h hl =>
    have hobjs : e.objs.modify h Stream.closeWindow =
        e.objs.mapIdx fun h' st => if e.streams.lookup id = some h' then st.closeWindow else st := by
      apply List.ext_getElem?
      intro i
      simp only [List.getElem?_modify, List.getElem?_mapIdx, hl, Option.some.injEq]
      split <;> simp
    simp [modify, hobjs]

@[simp] theorem removeStream_negotiated : (e.removeStream id).negotiated = e.negotiated := by
  rw [removeStream_eq]

@[simp] theorem removeStream_cmdQ : (e.removeStream id).cmdQ = e.cmdQ := by rw [removeStream_eq]

@[simp] theorem removeStream_incoming : (e.removeStream id).incoming = e.incoming := by
  rw [removeStream_eq]

@[simp] theorem removeStream_nextId : (e.removeStream id).nextId = e.nextId := by
  rw [removeStream_eq]

@[simp] theorem removeStream_muxAlive : (e.removeStream id).muxAlive = e.muxAlive := by
  rw [removeStream_eq]

@[simp] theorem removeStream_writer : (e.removeStream id).writer = e.writer := by
  rw [removeStream_eq]

@[simp] theorem removeStream_reader : (e.removeStream id).reader = e.reader := by
  rw [removeStream_eq]

@[simp] theorem removeStream_streams : (e.removeStream id).streams = e.streams.erase id := by
  rw [removeStream_eq]

@[simp] theorem removeStream_objs : (e.removeStream id).objs =
    e.objs.mapIdx fun h st => if e.streams.lookup id = some h then st.closeWindow else st := by
  rw [removeStream_eq]

end

theorem mem_sinks {h : Nat} : h ∈ e.sinks ↔ ∃ id, e.streams.lookup id = some h := by
  simp only [sinks, List.mem_map, Sigma.exists, exists_eq_right]
  exact exists_congr fun id => AList.mem_lookup_iff.symm

theorem lookup_erase_eq {s : Streams} {id id' : UInt32} :
    (s.erase id).lookup id' = if id' = id then none else s.lookup id' := by
  split
  · next h =>
    subst h
    exact AList.lookup_erase _ _
  · next h => exact AList.lookup_erase_ne h

theorem lookup_insert_eq {s : Streams} {id id' : UInt32} {h : Nat} :
    (s.insert id h).lookup id' = if id' = id then some h else s.lookup id' := by
  split
  · next hid =>
    subst hid
    exact AList.lookup_insert _
  · next hid => exact AList.lookup_insert_ne hid

/-- A stream after an update of one stream. -/
theorem modify_cases {h h₀ : Nat} {st st' : Stream} {f : Stream → Stream} (hst : e.objs[h]? = some st)
    (hst' : (e.objs.modify h₀ f)[h]? = some st') :
    (h₀ = h ∧ st' = f st) ∨ (h₀ ≠ h ∧ st' = st) := by
  rw [List.getElem?_modify, hst] at hst'
  split at hst'
  · next heq =>
    cases hst'
    exact Or.inl ⟨heq, rfl⟩
  · next hne =>
    cases hst'
    exact Or.inr ⟨hne, rfl⟩

/-- A stream after an update of every stream. -/
theorem mapIdx_cases {h : Nat} {st st' : Stream} {F : Nat → Stream → Stream}
    (hst : e.objs[h]? = some st) (hst' : (e.objs.mapIdx F)[h]? = some st') : st' = F h st := by
  rw [List.getElem?_mapIdx, hst] at hst'
  cases hst'
  rfl

/-! ## Streams -/

end Endpoint

namespace Stream

/-- What a step may do to a stream. -/
inductive Change (st : Stream) : Stream → Prop
  | same : Change st st
  | accept : Change st { st with owner := .caller }
  | drop : Change st st.drop
  | closeWindow : Change st st.closeWindow
  | startSend {c : SendCall} : c.charged = false → c.chunk.length ≤ MAX_FRAME_PAYLOAD →
      Change st { st with sends := st.sends ++ [c] }
  | charge {k : Nat} {c : SendCall} : st.sends[k]? = some c → c.charged = false →
      Change st { st with
        sends := st.sends.set k { c with charged := true }
        sendWindow := st.sendWindow.map fun sem =>
          { sem with permits := sem.permits - c.chunk.length } }
  | nextSend {k : Nat} {rest : Bytes} :
      Change st { st with sends := st.sends.set k (Endpoint.nextChunk rest) }
  | endSend {k : Nat} : Change st { st with sends := st.sends.eraseIdx k }
  | pop {chunk : Bytes} {rx : List Bytes} : st.pending = none → st.rx = chunk :: rx →
      Change st { st with
        rx := rx
        buffered := st.buffered - chunk.length
        consumed := if st.sendWindow.isSome then st.consumed + chunk.length else st.consumed
        pending := some chunk }
  | take : st.consumed < WINDOW_THRESHOLD → Change st { st with pending := none }
  | regrant : Change st { st with consumed := 0, pending := none }
  | push {payload : Bytes} : st.refuses payload.length = none →
      Change st { st with
        buffered := st.buffered + payload.length
        rx := st.rx ++ [payload] }
  | grant {credit : Nat} : Change st (st.addPermits credit)

/-- What no step changes in a stream. -/
structure Evolves (st st' : Stream) : Prop where
  id : st'.id = st.id
  kind : st'.kind = st.kind
  target : st'.target = st.target
  window : st'.sendWindow.isSome = st.sendWindow.isSome
  released : st.released → st'.released

variable {st st' : Stream}

theorem Evolves.of_window (hid : st'.id = st.id) (hk : st'.kind = st.kind)
    (ht : st'.target = st.target) {f : Semaphore → Semaphore}
    (hw : st'.sendWindow = st.sendWindow.map f)
    (hf : ∀ sem, sem.closed = true → (f sem).closed = true) : st.Evolves st' where
  id := hid
  kind := hk
  target := ht
  window := by simp [hw]
  released := by
    intro h sem hsem
    rw [hw] at hsem
    obtain ⟨sem', hsem', rfl⟩ := Option.map_eq_some_iff.mp hsem
    exact hf sem' (h sem' hsem')

theorem Change.evolves (hc : st.Change st') : st.Evolves st' := by
  have hkeep : st.sendWindow = st.sendWindow.map fun sem => sem := by simp
  cases hc with
  | closeWindow => exact .of_window rfl rfl rfl rfl fun _ _ => rfl
  | charge | grant => exact .of_window rfl rfl rfl rfl fun _ h => h
  | _ => exact .of_window rfl rfl rfl hkeep fun _ h => h

theorem change_modify {l : List Stream} {h h' : Nat} {f : Stream → Stream} (hst : l[h']? = some st)
    (hf : ∀ st, l[h]? = some st → st.Change (f st)) :
    ∃ st', (l.modify h f)[h']? = some st' ∧ st.Change st' := by
  rw [List.getElem?_modify, hst]
  split
  · next heq =>
    subst heq
    exact ⟨f st, rfl, hf st hst⟩
  · exact ⟨st, rfl, .same⟩

theorem change_mapIdx {l : List Stream} {h : Nat} {F : Nat → Stream → Stream}
    (hst : l[h]? = some st) (hF : ∀ (h : Nat) (st : Stream), st.Change (F h st)) :
    ∃ st', (l.mapIdx F)[h]? = some st' ∧ st.Change st' := by
  rw [List.getElem?_mapIdx, hst]
  exact ⟨F h st, rfl, hF h st⟩

theorem change_append {l l' : List Stream} {h : Nat} (hst : l[h]? = some st) :
    ∃ st', (l ++ l')[h]? = some st' ∧ st.Change st' := by
  obtain ⟨hlt, -⟩ := List.getElem?_eq_some_iff.mp hst
  exact ⟨st, by rw [List.getElem?_append_left hlt, hst], .same⟩

theorem change_closeWindow_if {p : Prop} [Decidable p] :
    st.Change (if p then st.closeWindow else st) := by
  split
  · exact .closeWindow
  · exact .same

theorem refuses_ne_none {n : Nat} : st.refuses n ≠ none ↔
    MAX_BUFFERED < st.buffered + n ∨ st.owner = .dropped ∨ DATA_CHANNEL ≤ st.rx.length := by
  unfold refuses
  split_ifs <;> simp_all

end Stream

namespace Endpoint

variable {e e' : Endpoint} {a : Act} {ev : List Event}

/-- **Every stream of an endpoint makes one of these changes in a step.** -/
theorem Effect.change (he : Effect e a e' ev) {h : Nat} {st : Stream}
    (hst : e.objs[h]? = some st) : ∃ st', e'.objs[h]? = some st' ∧ st.Change st' := by
  cases he with
  | opened | readOpen => exact Stream.change_append hst
  | accepted => exact Stream.change_modify hst fun _ _ => .accept
  | streamDropped | deliveryFailed | readerLeftDelivering =>
    exact Stream.change_modify hst fun _ _ => .drop
  | drainedOpen => exact Stream.change_modify hst fun _ _ => .closeWindow
  | sendStarted _ _ hch _ hlen => exact Stream.change_modify hst fun _ _ => .startSend hch hlen
  | charged hst₀ _ hc hch =>
    refine Stream.change_modify hst fun st₁ hst₁ => ?_
    cases hst₁.symm.trans hst₀
    exact .charge hc hch
  | sentMore => exact Stream.change_modify hst fun _ _ => .nextSend
  | windowClosed | queueClosed | sentLast | sendDropped =>
    exact Stream.change_modify hst fun _ _ => .endSend
  | popped hst₀ _ hp hrx =>
    refine Stream.change_modify hst fun st₁ hst₁ => ?_
    cases hst₁.symm.trans hst₀
    exact .pop hp hrx
  | returned hst₀ _ _ hlt =>
    refine Stream.change_modify hst fun st₁ hst₁ => ?_
    cases hst₁.symm.trans hst₀
    exact .take hlt
  | returnedClosed | credited => exact Stream.change_modify hst fun _ _ => .regrant
  | readPushed _ _ _ hst₀ hnone =>
    refine Stream.change_modify hst fun st₁ hst₁ => ?_
    cases hst₁.symm.trans hst₀
    exact .push hnone
  | readCredit => exact Stream.change_modify hst fun _ _ => .grant
  | muxDropped =>
    refine Stream.change_mapIdx hst fun h st => ?_
    split
    · exact .drop
    · exact .same
  | tookClose | readReset | readClose =>
    simp only [removeStream_objs]
    exact Stream.change_mapIdx hst fun _ _ => Stream.change_closeWindow_if
  | writerClosed | readerClosed | watchdogFired =>
    exact Stream.change_mapIdx hst fun _ _ => Stream.change_closeWindow_if
  | _ => exact ⟨st, hst, .same⟩

theorem Effect.evolves (he : Effect e a e' ev) {h : Nat} {st : Stream}
    (hst : e.objs[h]? = some st) : ∃ st', e'.objs[h]? = some st' ∧ st.Evolves st' := by
  obtain ⟨st', hst', hc⟩ := he.change hst
  exact ⟨st', hst', hc.evolves⟩

/-- **Where a new stream comes from**: a local open, or an `Open` frame of the peer. -/
theorem Effect.created (he : Effect e a e' ev) :
    e'.objs.length = e.objs.length ∨
    (∃ kind target, a = .open kind target ∧ e'.nextId = e.nextId + 2 ∧
      e.nextId.toNat + 2 < 2 ^ 32 ∧ e.cmdOpen = true ∧ e'.cmdOpen = true ∧
      ev = [.queued (openFrame e.nextId (openPayload kind target)), .opened e.objs.length] ∧
      e'.objs = e.objs ++ [newStream e.nextId target kind e.flowcontrolOn .caller]) ∨
    (∃ f kind target, a = .readerTake f ∧ baseType f.ftype = FrameType.open.toU8 ∧
      parseOpenTarget (fromUtf8Lossy f.payload) = (kind, target) ∧
      e'.objs = e.objs ++ [newStream f.streamId target kind e.flowcontrolOn .inTransit]) := by
  cases he with
  | opened _ _ hlt hc => exact Or.inr (Or.inl ⟨_, _, rfl, rfl, hlt, hc, hc, rfl, rfl⟩)
  | readOpen _ hb _ hp => exact Or.inr (Or.inr ⟨_, _, _, rfl, hb, hp, rfl⟩)
  | _ => simp

/-! ## Sinks -/

/-- What the map holds after a step, it held before, or it was registered by this step. -/
theorem Effect.lookup (he : Effect e a e' ev) {id : UInt32} {h : Nat}
    (hl : e'.streams.lookup id = some h) :
    e.streams.lookup id = some h ∨ (∃ target, .open id target h ∈ e.cmdQ ∧ e.cmdOpen = true) ∨
      (h = e.objs.length ∧ ∃ st, e'.objs[h]? = some st ∧ st.id = id) := by
  cases he with
  | tookOpen hw hq =>
    simp only [lookup_insert_eq] at hl
    split at hl
    · next hid =>
      cases hl
      subst hid
      exact Or.inr (Or.inl ⟨_, hq ▸ List.mem_cons_self, by simp [cmdOpen, hw]⟩)
    · exact Or.inl hl
  | readOpen =>
    simp only [lookup_insert_eq] at hl
    split at hl
    · next hid =>
      cases hl
      exact Or.inr (Or.inr ⟨rfl, _, List.getElem?_concat_length, hid.symm⟩)
    · exact Or.inl hl
  | tookClose | readReset | readClose =>
    simp only [removeStream_streams, lookup_erase_eq] at hl
    split at hl
    · cases hl
    · exact Or.inl hl
  | writerClosed | readerClosed | watchdogFired => simp at hl
  | _ => exact Or.inl hl

/-- A queued open was queued before, or by this step. -/
theorem Effect.mem_cmdQ (he : Effect e a e' ev) {id : UInt32} {target : String} {h : Nat}
    (hm : .open id target h ∈ e'.cmdQ) :
    .open id target h ∈ e.cmdQ ∨
      (h = e.objs.length ∧ ∃ st, e'.objs[h]? = some st ∧ st.id = id ∧
        target = openPayload st.kind st.target) := by
  cases he with
  | opened =>
    simp only [List.mem_append, List.mem_singleton, Command.open.injEq] at hm
    rcases hm with hm | ⟨rfl, rfl, rfl⟩
    · exact Or.inl hm
    · exact Or.inr ⟨rfl, _, List.getElem?_concat_length, rfl, rfl⟩
  | tookOpen _ hq | tookWrite _ hq | drainedOpen _ hq | drainedWrite _ hq =>
    exact Or.inl (by rw [hq]; exact List.mem_cons_of_mem _ hm)
  | tookClose _ hq =>
    exact Or.inl (by rw [hq]; exact List.mem_cons_of_mem _ hm)
  | _ => exact Or.inl (by simpa using hm)

theorem sinkAlive_iff {h : Nat} : e.sinkAlive h = true ↔
    (∃ id, e.streams.lookup id = some h) ∨ ∃ id target, .open id target h ∈ e.cmdQ := by
  simp only [sinkAlive, Bool.or_eq_true, decide_eq_true_eq, mem_sinks, List.any_eq_true]
  refine or_congr Iff.rfl ⟨?_, ?_⟩
  · rintro ⟨c, hc, hh⟩
    cases c with
    | «open» id target h' =>
      cases beq_iff_eq.mp hh
      exact ⟨id, target, hc⟩
    | write f => cases hh
  · rintro ⟨id, target, hm⟩
    exact ⟨_, hm, beq_iff_eq.mpr rfl⟩

/-- A sink that exists after a step existed before it. -/
theorem Effect.sinkAlive_mono (he : Effect e a e' ev) {h : Nat} (hlt : h < e.objs.length)
    (hs : e'.sinkAlive h = true) : e.sinkAlive h = true := by
  rw [sinkAlive_iff] at hs ⊢
  rcases hs with ⟨id, hl⟩ | ⟨id, target, hq⟩
  · rcases he.lookup hl with hl | ⟨target, hq, -⟩ | ⟨rfl, -⟩
    · exact Or.inl ⟨id, hl⟩
    · exact Or.inr ⟨id, target, hq⟩
    · exact absurd hlt (lt_irrefl _)
  · rcases he.mem_cmdQ hq with hq | ⟨rfl, -⟩
    · exact Or.inr ⟨id, target, hq⟩
    · exact absurd hlt (lt_irrefl _)

/-- A new stream is held by its queued open, or by the map. -/
theorem Effect.sinkAlive_new (he : Effect e a e' ev) {h : Nat} (hold : e.objs.length ≤ h)
    (hnew : h < e'.objs.length) : e'.sinkAlive h = true := by
  cases he with
  | opened =>
    rw [List.length_append, List.length_singleton] at hnew
    cases Nat.le_antisymm hold (Nat.lt_succ_iff.mp hnew)
    exact sinkAlive_iff.mpr (Or.inr ⟨_, _, List.mem_append_right _ (List.mem_singleton.mpr rfl)⟩)
  | readOpen =>
    rw [List.length_append, List.length_singleton] at hnew
    cases Nat.le_antisymm hold (Nat.lt_succ_iff.mp hnew)
    exact sinkAlive_iff.mpr (Or.inl ⟨_, AList.lookup_insert _⟩)
  | _ => exact absurd hnew (by simpa using hold)

@[simp] theorem Effect.negotiated (he : Effect e a e' ev) : e'.negotiated = e.negotiated := by
  cases he <;> simp

theorem Effect.flowcontrolOn (he : Effect e a e' ev) : e'.flowcontrolOn = e.flowcontrolOn := by
  rw [Endpoint.flowcontrolOn, he.negotiated, Endpoint.flowcontrolOn]

/-! ## Well-formed endpoints -/

/-- The handles of streams that were opened by the peer and not accepted yet. -/
def waiting (e : Endpoint) : List Nat :=
  e.incoming ++ match e.reader with
    | .delivering h => [h]
    | _ => []

structure Wf (e : Endpoint) : Prop where
  /-- The map registers a stream under its own id. -/
  map : ∀ {id h}, e.streams.lookup id = some h → ∃ st, e.objs[h]? = some st ∧ st.id = id
  queue : ∀ {id target h}, .open id target h ∈ e.cmdQ →
    ∃ st, e.objs[h]? = some st ∧ st.id = id ∧ target = openPayload st.kind st.target
  /-- The reader answers a `Ping`, or resets a stream. -/
  reply : ∀ {f}, e.reader = .replying f → f = pongFrame ∨ ∃ st ∈ e.objs, f = closeFrame st.id
  nodup_waiting : e.waiting.Nodup
  waiting : ∀ h ∈ e.waiting, ∃ st, e.objs[h]? = some st ∧ st.owner = .inTransit
  window : ∀ st ∈ e.objs, st.sendWindow.isSome = e.flowcontrolOn
  /-- `buffered` counts the bytes in the data channel while there is one. -/
  buffered : ∀ st ∈ e.objs, st.owner ≠ .dropped → st.buffered = (st.rx.map List.length).sum
  /-- A `recv` that returned has given back the credit that was due. -/
  settled : ∀ st ∈ e.objs, st.owner ≠ .dropped → st.pending = none → st.consumed < WINDOW_THRESHOLD
  chunk : ∀ st ∈ e.objs, ∀ c ∈ st.sends, c.chunk.length ≤ MAX_FRAME_PAYLOAD

theorem wf_start (negotiated : Negotiated) (role : Role) : (start negotiated role).Wf where
  map := by simp [start]
  queue := by simp [start]
  reply := by simp [start]
  nodup_waiting := by simp [start, Endpoint.waiting]
  waiting := by simp [start, Endpoint.waiting]
  window := by simp [start]
  buffered := by simp [start]
  settled := by simp [start]
  chunk := by simp [start]

section

variable (he : Effect e a e' ev) (hwf : e.Wf)
include he hwf

theorem Effect.wf_map {id : UInt32} {h : Nat} (hl : e'.streams.lookup id = some h) :
    ∃ st, e'.objs[h]? = some st ∧ st.id = id := by
  have hkept : (∃ st, e.objs[h]? = some st ∧ st.id = id) →
      ∃ st, e'.objs[h]? = some st ∧ st.id = id := by
    rintro ⟨st, hst, rfl⟩
    obtain ⟨st', hst', hev⟩ := he.evolves hst
    exact ⟨st', hst', hev.id⟩
  rcases he.lookup hl with hl | ⟨target, hq, -⟩ | ⟨-, hst⟩
  · exact hkept (hwf.map hl)
  · obtain ⟨st, hst, hid, -⟩ := hwf.queue hq
    exact hkept ⟨st, hst, hid⟩
  · exact hst

theorem Effect.wf_queue {id : UInt32} {target : String} {h : Nat}
    (hq : .open id target h ∈ e'.cmdQ) :
    ∃ st, e'.objs[h]? = some st ∧ st.id = id ∧ target = openPayload st.kind st.target := by
  rcases he.mem_cmdQ hq with hq | ⟨-, hst⟩
  · obtain ⟨st, hst, hid, ht⟩ := hwf.queue hq
    obtain ⟨st', hst', hev⟩ := he.evolves hst
    exact ⟨st', hst', hev.id.trans hid, by rw [ht, hev.kind, hev.target]⟩
  · exact hst

theorem Effect.wf_reply {f : Frame} (hr : e'.reader = .replying f) :
    f = pongFrame ∨ ∃ st ∈ e'.objs, f = closeFrame st.id := by
  have hkept : (∃ st ∈ e.objs, f = closeFrame st.id) → ∃ st ∈ e'.objs, f = closeFrame st.id := by
    rintro ⟨st, hst, rfl⟩
    obtain ⟨h, hst⟩ := List.getElem?_of_mem hst
    obtain ⟨st', hst', hev⟩ := he.evolves hst
    exact ⟨st', List.mem_of_getElem? hst', by rw [hev.id]⟩
  have hold : e.reader = .replying f → f = pongFrame ∨ ∃ st ∈ e'.objs, f = closeFrame st.id :=
    fun h => (hwf.reply h).imp id hkept
  cases he with
  | readPing =>
    cases hr
    exact Or.inl rfl
  | readReset _ _ hl hst =>
    cases hr
    obtain ⟨st, hst', hid⟩ := hwf.map hl
    exact Or.inr (hkept ⟨st, List.mem_of_getElem? hst', by rw [hid]⟩)
  | readOpenCap | readOpen | readCritical | replyLost | replied | deliveryFailed | delivered
  | readerLeft | readerLeftDelivering | readerClosed | readerPublished => simp at hr
  | _ => exact hold (by simpa using hr)

omit hwf in
/-- Every stream after a step was there before it, or is new. -/
theorem Effect.origin {h : Nat} {st' : Stream} (hst' : e'.objs[h]? = some st') :
    (∃ st, e.objs[h]? = some st ∧ st.Change st') ∨
      (h = e.objs.length ∧ ∃ id target kind owner, owner ≠ .dropped ∧
        st' = newStream id target kind e.flowcontrolOn owner) := by
  have hlt' := (List.getElem?_eq_some_iff.mp hst').1
  cases hst : e.objs[h]? with
  | some st =>
    obtain ⟨st₁, hst₁, hc⟩ := he.change hst
    cases hst'.symm.trans hst₁
    exact Or.inl ⟨st, rfl, hc⟩
  | none =>
    have hle := List.getElem?_eq_none_iff.mp hst
    rcases he.created with hlen | ⟨kind, target, -, -, -, -, -, -, hobjs⟩ |
      ⟨f, kind, target, -, -, -, hobjs⟩
    · omega
    all_goals
      rw [hobjs, List.length_append, List.length_singleton] at hlt'
      cases Nat.le_antisymm hle (Nat.lt_succ_iff.mp hlt')
      rw [hobjs, List.getElem?_concat_length] at hst'
      cases hst'
      exact Or.inr ⟨rfl, _, _, _, _, by decide, rfl⟩

theorem Effect.wf_window : ∀ st ∈ e'.objs, st.sendWindow.isSome = e'.flowcontrolOn := by
  intro st' hst'
  obtain ⟨h, hst'⟩ := List.getElem?_of_mem hst'
  rw [he.flowcontrolOn]
  rcases he.origin hst' with ⟨st, hst, hc⟩ | ⟨-, id, target, kind, owner, -, rfl⟩
  · rw [hc.evolves.window]
    exact hwf.window st (List.mem_of_getElem? hst)
  · cases hfc : e.flowcontrolOn <;> simp [newStream]

/-- A stream changes hands when it is accepted, dropped by its caller, or dropped before it was
accepted. -/
theorem Effect.owner {h : Nat} {st st' : Stream} (hst : e.objs[h]? = some st)
    (hst' : e'.objs[h]? = some st') :
    st'.owner = st.owner ∨ (st.owner = .caller ∧ st'.owner = .dropped) ∨
      (h ∈ e.waiting ∧ h ∉ e'.waiting) := by
  have hnd := hwf.nodup_waiting
  have hlt := (List.getElem?_eq_some_iff.mp hst).1
  have hclose : ∀ {p : Prop} [Decidable p] (st : Stream),
      (if p then st.closeWindow else st).owner = st.owner := by
    intro p _ st
    split <;> rfl
  cases he with
  | @accepted h' rest hi =>
    simp only [modify_objs, List.getElem?_modify, hst] at hst'
    split at hst'
    · next hh =>
      subst hh
      simp only [Endpoint.waiting, hi, List.cons_append, List.nodup_cons] at hnd
      exact Or.inr (Or.inr ⟨by simp [Endpoint.waiting, hi], hnd.1⟩)
    · cases hst'
      exact Or.inl rfl
  | muxDropped =>
    simp only [List.getElem?_mapIdx, hst, Option.map_some, Option.some.injEq] at hst'
    split at hst'
    · next hin =>
      simp only [Endpoint.waiting, List.nodup_append] at hnd
      refine Or.inr (Or.inr ⟨List.mem_append_left _ hin, fun hw => ?_⟩)
      simp only [Endpoint.waiting, List.nil_append] at hw
      exact hnd.2.2 h hin h hw rfl
    · exact Or.inl (by rw [hst'])
  | @streamDropped h' st₀ hst₀ ho =>
    simp only [modify_objs, List.getElem?_modify, hst] at hst'
    split at hst'
    · next hh =>
      subst hh
      cases hst.symm.trans hst₀
      cases hst'
      exact Or.inr (Or.inl ⟨ho, rfl⟩)
    · cases hst'
      exact Or.inl rfl
  | @deliveryFailed h' hr | @readerLeftDelivering h' hr =>
    simp only [modify_objs, List.getElem?_modify, hst] at hst'
    split at hst'
    · next hh =>
      subst hh
      simp only [Endpoint.waiting, hr, List.nodup_append] at hnd
      refine Or.inr (Or.inr ⟨by simp [Endpoint.waiting, hr], fun hw => ?_⟩)
      simp only [Endpoint.waiting, modify_incoming, List.append_nil] at hw
      exact hnd.2.2 h' hw h' (List.mem_singleton.mpr rfl) rfl
    · cases hst'
      exact Or.inl rfl
  | opened | readOpen =>
    rw [List.getElem?_append_left hlt, hst] at hst'
    cases hst'
    exact Or.inl rfl
  | tookClose | readReset | readClose =>
    simp only [removeStream_objs, List.getElem?_mapIdx, hst, Option.map_some,
      Option.some.injEq] at hst'
    exact Or.inl (by rw [← hst', hclose])
  | writerClosed | readerClosed | watchdogFired =>
    simp only [closeAllStreams_objs, List.getElem?_mapIdx, hst, Option.map_some,
      Option.some.injEq] at hst'
    exact Or.inl (by rw [← hst', hclose])
  | sendStarted | charged | windowClosed | queueClosed | sentLast | sentMore | sendDropped
  | popped | returned | returnedClosed | credited | drainedOpen | readPushed | readCredit =>
    simp only [setSend_objs, endSend_objs, enqueue_objs, modify_objs, List.getElem?_modify,
      hst] at hst'
    split at hst'
    all_goals
      cases hst'
      exact Or.inl rfl
  | _ =>
    cases hst.symm.trans hst'
    exact Or.inl rfl

/-- A dropped stream stays dropped. -/
theorem Effect.owner_dropped {h : Nat} {st st' : Stream} (hst : e.objs[h]? = some st)
    (hst' : e'.objs[h]? = some st') (hd : st.owner = .dropped) : st'.owner = .dropped := by
  rcases he.owner hwf hst hst' with ho | ⟨ho, -⟩ | ⟨hw, -⟩
  · rw [ho, hd]
  · rw [hd] at ho
    cases ho
  · obtain ⟨st₁, hst₁, ho⟩ := hwf.waiting h hw
    cases hst.symm.trans hst₁
    rw [hd] at ho
    cases ho

omit hwf in
/-- Streams wait in the order they came; a new one waits behind the others. -/
theorem Effect.waiting : e'.waiting.Sublist e.waiting ∨
    (e'.waiting = e.waiting ++ [e.objs.length] ∧
      ∃ st, e'.objs[e.objs.length]? = some st ∧ st.owner = .inTransit) := by
  cases he with
  | readOpen hr =>
    exact Or.inr ⟨by simp [Endpoint.waiting, hr], _, List.getElem?_concat_length, rfl⟩
  | accepted hi => exact Or.inl (by simp [Endpoint.waiting, hi])
  | muxDropped => exact Or.inl (by simp [Endpoint.waiting])
  | deliveryFailed hr | delivered hr | readerLeftDelivering hr | readerClosed hr
  | readerPublished hr | readPing hr | readOpenCap hr | readReset hr | readCritical hr
  | replyLost hr | replied hr =>
    exact Or.inl (by simp [Endpoint.waiting, hr])
  | readerLeft hr =>
    rcases hr with hr | ⟨f, hr⟩ <;> exact Or.inl (by simp [Endpoint.waiting, hr])
  | _ => exact Or.inl (by simp [Endpoint.waiting])

theorem Effect.wf_nodup_waiting : e'.waiting.Nodup := by
  rcases he.waiting with hsub | ⟨heq, -⟩
  · exact hwf.nodup_waiting.sublist hsub
  · rw [heq, List.nodup_append]
    refine ⟨hwf.nodup_waiting, List.nodup_singleton _, fun h hh h' hh' => ?_⟩
    obtain ⟨st, hst, -⟩ := hwf.waiting h hh
    have hlt := (List.getElem?_eq_some_iff.mp hst).1
    rw [List.mem_singleton] at hh'
    omega

theorem Effect.wf_waiting : ∀ h ∈ e'.waiting, ∃ st, e'.objs[h]? = some st ∧
    st.owner = .inTransit := by
  intro h hh
  have hkept : h ∈ e.waiting → ∃ st, e'.objs[h]? = some st ∧ st.owner = .inTransit := by
    intro hw
    obtain ⟨st, hst, ho⟩ := hwf.waiting h hw
    obtain ⟨st', hst', -⟩ := he.evolves hst
    refine ⟨st', hst', ?_⟩
    rcases he.owner hwf hst hst' with ho' | ⟨ho', -⟩ | ⟨-, hnot⟩
    · rw [ho', ho]
    · rw [ho] at ho'
      cases ho'
    · exact absurd hh hnot
  rcases he.waiting with hsub | ⟨heq, hnew⟩
  · exact hkept (hsub.subset hh)
  · rw [heq, List.mem_append, List.mem_singleton] at hh
    rcases hh with hh | rfl
    · exact hkept hh
    · exact hnew

/-- A property of the streams in use that every change keeps. -/
theorem Effect.forall_used {P : Stream → Prop} (hold : ∀ st ∈ e.objs, st.owner ≠ .dropped → P st)
    (hnew : ∀ id target kind owner, P (newStream id target kind e.flowcontrolOn owner))
    (hchange : ∀ st st', st.Change st' → st'.owner ≠ .dropped → P st → P st') :
    ∀ st ∈ e'.objs, st.owner ≠ .dropped → P st := by
  intro st' hst' ho'
  obtain ⟨h, hst'⟩ := List.getElem?_of_mem hst'
  rcases he.origin hst' with ⟨st, hst, hc⟩ | ⟨-, id, target, kind, owner, -, rfl⟩
  · have ho : st.owner ≠ .dropped := fun hd => ho' (he.owner_dropped hwf hst hst' hd)
    exact hchange st st' hc ho' (hold st (List.mem_of_getElem? hst) ho)
  · exact hnew id target kind owner

theorem Effect.wf_buffered : ∀ st ∈ e'.objs, st.owner ≠ .dropped →
    st.buffered = (st.rx.map List.length).sum := by
  refine he.forall_used hwf (P := fun st => st.buffered = (st.rx.map List.length).sum) hwf.buffered
    (fun _ _ _ _ => rfl) fun st st' hc ho hb => ?_
  cases hc with
  | drop => exact absurd rfl ho
  | @pop chunk rx hp hrx =>
    rw [hrx, List.map_cons, List.sum_cons] at hb
    show st.buffered - chunk.length = (rx.map List.length).sum
    omega
  | push =>
    simp only [List.map_append, List.map_cons, List.map_nil, List.sum_append, List.sum_cons,
      List.sum_nil]
    omega
  | _ => exact hb

theorem Effect.wf_settled : ∀ st ∈ e'.objs, st.owner ≠ .dropped →
    st.pending = none → st.consumed < WINDOW_THRESHOLD := by
  refine he.forall_used hwf (P := fun st => st.pending = none → st.consumed < WINDOW_THRESHOLD)
    hwf.settled (fun _ _ _ _ _ => by simp [newStream, WINDOW_THRESHOLD, INIT_WINDOW])
    fun st st' hc ho hb => ?_
  cases hc with
  | drop => exact absurd rfl ho
  | pop => simp
  | take hlt => exact fun _ => hlt
  | regrant => exact fun _ => by simp [WINDOW_THRESHOLD, INIT_WINDOW]
  | _ => exact hb

theorem Effect.wf_chunk : ∀ st ∈ e'.objs, ∀ c ∈ st.sends,
    c.chunk.length ≤ MAX_FRAME_PAYLOAD := by
  intro st' hst'
  obtain ⟨h, hst'⟩ := List.getElem?_of_mem hst'
  rcases he.origin hst' with ⟨st, hst, hc⟩ | ⟨-, id, target, kind, owner, -, rfl⟩
  · have hold := hwf.chunk st (List.mem_of_getElem? hst)
    cases hc with
    | startSend hch hlen =>
      intro c' hc'
      rcases List.mem_append.mp hc' with hc' | hc'
      · exact hold c' hc'
      · rw [List.mem_singleton] at hc'
        exact hc' ▸ hlen
    | charge hk hch =>
      intro c' hc'
      rcases List.mem_or_eq_of_mem_set hc' with hc' | rfl
      · exact hold c' hc'
      · have hlen := hold _ (List.mem_of_getElem? hk)
        exact hlen
    | nextSend =>
      intro c' hc'
      rcases List.mem_or_eq_of_mem_set hc' with hc' | rfl
      · exact hold c' hc'
      · exact length_nextChunk_le _
    | endSend => exact fun c' hc' => hold c' (List.mem_of_mem_eraseIdx hc')
    | _ => exact hold
  · simp [newStream]

/-- **Well-formedness is kept by every step.** -/
theorem Effect.wf : e'.Wf where
  map := he.wf_map hwf
  queue := he.wf_queue hwf
  reply := he.wf_reply hwf
  nodup_waiting := he.wf_nodup_waiting hwf
  waiting := he.wf_waiting hwf
  window := he.wf_window hwf
  buffered := he.wf_buffered hwf
  settled := he.wf_settled hwf
  chunk := he.wf_chunk hwf

end

end Endpoint

end Leshiy.Mux
