import Leshiy.Tls.Messages

/-!
# Adapting the destination's ServerHello

`adapt_server_hello` of `leshiy-tls/src/tls13/messages.rs` is to copy the hello of the destination with
another key share. It parses the hello and builds one anew, and the builder knows two extensions in one
order. A hello of the destination is any TLS 1.3 ServerHello: its extensions stand in any order, with
any others around the key share.
-/

namespace Leshiy.Tls

open Leshiy.Lib Parse

/-! ## The hello of a destination -/

/-- The `key_share` extension of a ServerHello. -/
def keyShareEntry (group : UInt16) (key : Bytes) : UInt16 × Bytes :=
  (0x0033, beEncode 2 group.toNat ++ (beEncode 2 key.length ++ key))

/-- The extension that selects TLS 1.3. -/
def selectedVersion : UInt16 × Bytes := (0x002b, [0x03, 0x04])

/-- A ServerHello but for its key: what it says, and the extensions around its key share. -/
structure DestHello where
  random : Block 32
  sessionId : Bytes
  suite : UInt16
  group : UInt16
  before : List (UInt16 × Bytes)
  behind : List (UInt16 × Bytes)

namespace DestHello

variable (h : DestHello) (key : Bytes)

def extensions : List (UInt16 × Bytes) := h.before ++ keyShareEntry h.group key :: h.behind

def block : Bytes := (h.extensions key).flatMap encodeEntry

/-- The message with the key in its place. -/
def message : Bytes := hsMsg 0x02 (bodyWith h.random h.sessionId h.suite (h.block key))

/-- A TLS 1.3 ServerHello that a destination can send: no extension comes twice, one selects the
version, the key is of the group's length and every length fits its field. -/
structure WellFormed : Prop where
  sessionId : h.sessionId.length ≤ 32
  version : selectedVersion ∈ h.before ++ h.behind
  nodup : ((h.extensions key).map Prod.fst).Nodup
  block : (h.block key).length < 2 ^ 16
  key : ShareFits h.group key

/-- What is asked of an adapted hello: it is the destination's but for the key, and reads as it. -/
def Adapts (share : Bytes) : Prop :=
  adaptServerHello (h.message key) share = .ok (h.message share) ∧
    parseServerHello (h.message share) = .ok ⟨h.suite, h.random, h.sessionId, h.group, share⟩

end DestHello

/-! ## Reading the block -/

/-- The end of an entry is known from its front. -/
theorem encodeEntry_append_inj {e e' : UInt16 × Bytes} (he : Fits e) (he' : Fits e') {xs ys : Bytes}
    (h : encodeEntry e ++ xs = encodeEntry e' ++ ys) : e = e' ∧ xs = ys := by
  simp only [encodeEntry, List.append_assoc] at h
  obtain ⟨htype, h⟩ := List.append_inj h (by rw [length_beEncode, length_beEncode])
  obtain ⟨hlen, h⟩ := List.append_inj h (by rw [length_beEncode, length_beEncode])
  have hbody : e.2.length = e'.2.length := by
    have hdec := congrArg beDecode hlen
    rwa [beDecode_beEncode he, beDecode_beEncode he'] at hdec
  obtain ⟨hval, hrest⟩ := List.append_inj h hbody
  have hkind : e.1 = e'.1 := by
    have hdec := congrArg (fun b => UInt16.ofNat (beDecode b)) htype
    simpa only [u16_beDecode_beEncode] using hdec
  exact ⟨Prod.ext hkind hval, hrest⟩

/-- A block of extensions is written in one way only. -/
theorem flatMap_encodeEntry_inj : ∀ {xs ys : List (UInt16 × Bytes)}, (∀ e ∈ xs, Fits e) →
    (∀ e ∈ ys, Fits e) → xs.flatMap encodeEntry = ys.flatMap encodeEntry → xs = ys
  | [], [], _, _, _ => rfl
  | [], y :: ys, _, _, h => by
    have hlen := congrArg List.length h
    rw [List.flatMap_cons, List.length_append, length_encodeEntry, List.flatMap_nil,
      List.length_nil] at hlen
    omega
  | x :: xs, [], _, _, h => by
    have hlen := congrArg List.length h
    rw [List.flatMap_cons, List.length_append, length_encodeEntry, List.flatMap_nil,
      List.length_nil] at hlen
    omega
  | x :: xs, y :: ys, hx, hy, h => by
    rw [List.flatMap_cons, List.flatMap_cons] at h
    obtain ⟨rfl, hrest⟩ :=
      encodeEntry_append_inj (hx _ List.mem_cons_self) (hy _ List.mem_cons_self) h
    rw [flatMap_encodeEntry_inj (fun e he => hx e (List.mem_cons_of_mem _ he))
      (fun e he => hy e (List.mem_cons_of_mem _ he)) hrest]

theorem length_le_flatMap_encodeEntry {e : UInt16 × Bytes} : ∀ {xs : List (UInt16 × Bytes)},
    e ∈ xs → 4 + e.2.length ≤ (xs.flatMap encodeEntry).length
  | x :: xs, h => by
    rw [List.flatMap_cons, List.length_append, length_encodeEntry]
    rcases List.mem_cons.mp h with rfl | h
    · omega
    · have ih := length_le_flatMap_encodeEntry h
      omega

theorem length_le_length_flatMap_encodeEntry : ∀ xs : List (UInt16 × Bytes),
    xs.length ≤ (xs.flatMap encodeEntry).length
  | [] => Nat.le_refl _
  | x :: xs => by
    have ih := length_le_length_flatMap_encodeEntry xs
    rw [List.flatMap_cons, List.length_append, length_encodeEntry, List.length_cons]
    omega

/-- Extensions of other types are passed over. -/
theorem findKeyShare_skip {found : UInt16 × Bytes} {rest : Bytes} :
    ∀ {xs : List (UInt16 × Bytes)} {fuel : Nat}, (∀ e ∈ xs, Fits e) → (∀ e ∈ xs, e.1 ≠ 0x0033) →
      findKeyShare (xs.length + fuel) found (xs.flatMap encodeEntry ++ rest) =
        findKeyShare fuel found rest
  | [], fuel, _, _ => by
    rw [List.length_nil, Nat.zero_add, List.flatMap_nil, List.nil_append]
  | x :: xs, fuel, hfits, hne => by
    have hx : ¬ (x.1 = 0x0033 ∧ 4 ≤ x.2.length) := fun h => hne x List.mem_cons_self h.1
    have hfuel : (x :: xs).length + fuel = (xs.length + fuel) + 1 := by
      rw [List.length_cons]
      omega
    rw [hfuel, List.flatMap_cons, List.append_assoc,
      findKeyShare_entry (hfits x List.mem_cons_self), if_neg hx]
    exact findKeyShare_skip (fun e he => hfits e (List.mem_cons_of_mem _ he))
      (fun e he => hne e (List.mem_cons_of_mem _ he))

theorem findKeyShare_nil (fuel : Nat) (found : UInt16 × Bytes) :
    findKeyShare fuel found [] = found := by
  cases fuel <;> rfl

namespace DestHello

variable {h : DestHello} {key share : Bytes}

theorem WellFormed.fits (hw : h.WellFormed key) : ∀ e ∈ h.extensions key, Fits e := by
  intro e he
  have hle : 4 + e.2.length ≤ (h.block key).length := length_le_flatMap_encodeEntry he
  have hblock := hw.block
  show e.2.length < 2 ^ 16
  omega

/-- Around the key share no extension is one. -/
theorem WellFormed.around (hw : h.WellFormed key) {e : UInt16 × Bytes}
    (he : e ∈ h.before ∨ e ∈ h.behind) : e.1 ≠ 0x0033 := by
  have hnodup := hw.nodup
  rw [extensions, List.map_append, List.map_cons, List.nodup_append] at hnodup
  obtain ⟨-, hbehind, hdisj⟩ := hnodup
  rcases he with he | he
  · exact hdisj _ (List.mem_map_of_mem he) _ List.mem_cons_self
  · intro heq
    have hmem : e.1 ∈ h.behind.map Prod.fst := List.mem_map_of_mem he
    rw [heq] at hmem
    exact (List.nodup_cons.mp hbehind).1 hmem

theorem length_keyShareEntry (group : UInt16) (key : Bytes) :
    (keyShareEntry group key).2.length = 4 + key.length := by
  simp only [keyShareEntry, List.length_append, length_beEncode]
  omega

theorem findKeyShare_block (hw : h.WellFormed key) :
    findKeyShare (h.block key).length (0, []) (h.block key) = (h.group, key) := by
  have hkey : key.length < 2 ^ 16 := by
    have hle := hw.key.length_le
    omega
  have hfits := hw.fits
  unfold extensions at hfits
  have hshare : Fits (keyShareEntry h.group key) :=
    hfits _ (List.mem_append_right _ List.mem_cons_self)
  obtain ⟨fuel, hfuel⟩ : ∃ fuel, (h.block key).length =
      h.before.length + ((h.behind.length + fuel) + 1) := by
    have hle : (h.extensions key).length ≤ (h.block key).length :=
      length_le_length_flatMap_encodeEntry _
    rw [extensions, List.length_append, List.length_cons] at hle
    exact ⟨(h.block key).length - (h.before.length + h.behind.length + 1), by omega⟩
  rw [hfuel, block, extensions, List.flatMap_append, List.flatMap_cons,
    findKeyShare_skip (fun e he => hfits e (List.mem_append_left _ he))
      (fun e he => hw.around (.inl he)),
    findKeyShare_entry hshare, if_pos ⟨rfl, by rw [length_keyShareEntry]; omega⟩, keyShareEntry,
    onKeyShare_value hkey, ← List.append_nil (h.behind.flatMap encodeEntry),
    findKeyShare_skip
      (fun e he => hfits e (List.mem_append_right _ (List.mem_cons_of_mem _ he)))
      (fun e he => hw.around (.inr he)), findKeyShare_nil]

theorem length_bodyWith (h : DestHello) (ext : Bytes) :
    (bodyWith h.random h.sessionId h.suite ext).length =
      40 + h.sessionId.length + ext.length := by
  simp only [bodyWith, List.length_append, length_beEncode, h.random.2, List.length_cons,
    List.length_nil]
  omega

/-- **A hello of a destination is read**: whatever stands around its key share. -/
theorem parseServerHello_message (hw : h.WellFormed key) :
    parseServerHello (h.message key) = .ok ⟨h.suite, h.random, h.sessionId, h.group, key⟩ := by
  have hsid : h.sessionId.length < 2 ^ 8 := Nat.lt_of_le_of_lt hw.sessionId (by omega)
  have hlt : (bodyWith h.random h.sessionId h.suite (h.block key)).length < 2 ^ 24 := by
    have hblock := hw.block
    rw [length_bodyWith]
    omega
  rw [parseServerHello, message, parseHsMsg_self hlt]
  show readServerHello.run' (Parser.new _) = _
  rw [readServerHello_bodyWith hsid hw.block, findKeyShare_block hw]

/-- With another key of the group the hello is as long as before. -/
theorem WellFormed.withKey (hw : h.WellFormed key) (hshare : ShareFits h.group share) :
    h.WellFormed share := by
  have hlen : share.length = key.length := by
    rcases hshare with ⟨hgroup, hlen⟩ | ⟨hgroup, hlen⟩ <;>
      rcases hw.key with ⟨hgroup', hlen'⟩ | ⟨hgroup', hlen'⟩
    · omega
    · rw [hgroup] at hgroup'
      exact absurd hgroup' (by decide)
    · rw [hgroup] at hgroup'
      exact absurd hgroup' (by decide)
    · omega
  have hblock : (h.block share).length = (h.block key).length := by
    simp only [DestHello.block, extensions, List.flatMap_append, List.flatMap_cons, List.length_append,
      length_encodeEntry, length_keyShareEntry, hlen]
  have hmap : (h.extensions share).map Prod.fst = (h.extensions key).map Prod.fst := by
    simp only [extensions, List.map_append, List.map_cons, keyShareEntry]
  refine ⟨hw.sessionId, hw.version, ?_, ?_, hshare⟩
  · rw [hmap]
    exact hw.nodup
  · rw [hblock]
    exact hw.block

/-- What the builder makes of the fields of a hello: two extensions in one order. -/
theorem buildServerHello_eq (h : DestHello) (share : Bytes) :
    buildServerHello ⟨h.suite, h.random, h.sessionId, h.group, share⟩ =
      hsMsg 0x02 (bodyWith h.random h.sessionId h.suite
        ([selectedVersion, keyShareEntry h.group share].flatMap encodeEntry)) := rfl

theorem hsMsg_inj {msgType : UInt8} {body body' : Bytes}
    (h : hsMsg msgType body = hsMsg msgType body') : body = body' := by
  unfold hsMsg at h
  have hframe := List.append_cancel_left h
  exact (List.append_inj hframe (by rw [length_beEncode, length_beEncode])).2

theorem bodyWith_inj {ext ext' : Bytes} (heq : bodyWith h.random h.sessionId h.suite ext =
    bodyWith h.random h.sessionId h.suite ext') : ext = ext' := by
  unfold bodyWith at heq
  have hext := List.append_cancel_left (List.append_cancel_left (List.append_cancel_left
    (List.append_cancel_left (List.append_cancel_left (List.append_cancel_left heq)))))
  exact (List.append_inj hext (by rw [length_beEncode, length_beEncode])).2

theorem extensions_eq_iff : h.extensions share = [selectedVersion, keyShareEntry h.group share] ↔
    h.before = [selectedVersion] ∧ h.behind = [] := by
  unfold extensions
  refine ⟨fun heq => ?_, ?_⟩
  · match hbefore : h.before with
    | [] =>
      rw [hbefore, List.nil_append, List.cons.injEq] at heq
      have htype : (0x0033 : UInt16) = 0x002b := congrArg Prod.fst heq.1
      exact absurd htype (by decide)
    | [e] =>
      rw [hbefore, List.singleton_append, List.cons.injEq, List.cons.injEq] at heq
      obtain ⟨rfl, -, hbehind⟩ := heq
      exact ⟨rfl, hbehind⟩
    | _ :: _ :: es =>
      have hlen := congrArg List.length heq
      simp only [hbefore, List.length_append, List.length_cons, List.length_nil] at hlen
      omega
  · rintro ⟨hbefore, hbehind⟩
    rw [hbefore, hbehind, List.singleton_append]

/-- The builder is asked for what it writes. -/
theorem adapts_iff_extensions (hw : h.WellFormed key) (hshare : ShareFits h.group share) :
    h.Adapts key share ↔ h.extensions share = [selectedVersion, keyShareEntry h.group share] := by
  have hadapt := (adaptServerHello_eq (parseServerHello_message hw) hshare).1
  constructor
  · rintro ⟨hsame, -⟩
    rw [hadapt, buildServerHello_eq] at hsame
    have hblock := bodyWith_inj (hsMsg_inj (Except.ok.inj hsame))
    have hfits := (hw.withKey hshare).fits
    have hknown : ∀ e ∈ [selectedVersion, keyShareEntry h.group share], Fits e := by
      intro e he
      rcases List.mem_pair.mp he with rfl | rfl
      · show List.length _ < 2 ^ 16
        decide
      · exact hfits _ (List.mem_append_right _ List.mem_cons_self)
    exact (flatMap_encodeEntry_inj hknown hfits hblock).symm
  · intro hext
    refine ⟨?_, parseServerHello_message (hw.withKey hshare)⟩
    rw [hadapt, buildServerHello_eq, message, block, hext]

/-- **The adapted hello is the destination's** but for the key exactly when the destination sends what
the builder knows: the version, then the key share, and nothing else. -/
theorem adapts_iff (hw : h.WellFormed key) (hshare : ShareFits h.group share) :
    h.Adapts key share ↔ h.before = [selectedVersion] ∧ h.behind = [] := by
  rw [adapts_iff_extensions hw hshare, extensions_eq_iff]

/-- A hello with an x25519 share and these extensions around it. -/
def x25519Hello (before behind : List (UInt16 × Bytes)) : DestHello :=
  ⟨⟨List.replicate 32 0x11, by decide⟩, List.replicate 32 0x22, 0x1301, 0x001d, before, behind⟩

theorem wellFormed_x25519Hello {before behind : List (UInt16 × Bytes)}
    (hlist : before = [selectedVersion] ∧ behind = [] ∨ before = [] ∧ behind = [selectedVersion]) :
    (x25519Hello before behind).WellFormed (List.replicate 32 0x33) := by
  rcases hlist with ⟨rfl, rfl⟩ | ⟨rfl, rfl⟩
  · exact ⟨by decide, by decide, by decide, by decide, .inl ⟨rfl, by decide⟩⟩
  · exact ⟨by decide, by decide, by decide, by decide, .inl ⟨rfl, by decide⟩⟩

theorem adapts_iff_version_first : ShareFits 0x001d (List.replicate 32 0x44) ∧
    (x25519Hello [selectedVersion] []).Adapts (List.replicate 32 0x33) (List.replicate 32 0x44) := by
  have hshare : ShareFits 0x001d (List.replicate 32 0x44) := .inl ⟨rfl, by decide⟩
  exact ⟨hshare, (adapts_iff (h := x25519Hello [selectedVersion] [])
    (wellFormed_x25519Hello (.inl ⟨rfl, rfl⟩)) hshare).mpr ⟨rfl, rfl⟩⟩

/-- A destination that sends its key share first gets its extensions changed about. -/
theorem key_share_first_not_adapted :
    (x25519Hello [] [selectedVersion]).WellFormed (List.replicate 32 0x33) ∧
      ShareFits 0x001d (List.replicate 32 0x44) ∧
      ¬ (x25519Hello [] [selectedVersion]).Adapts (List.replicate 32 0x33)
        (List.replicate 32 0x44) := by
  have hw := wellFormed_x25519Hello (.inr ⟨rfl, rfl⟩)
  have hshare : ShareFits 0x001d (List.replicate 32 0x44) := .inl ⟨rfl, by decide⟩
  refine ⟨hw, hshare, fun hadapts => ?_⟩
  have hext := (adapts_iff_extensions (h := x25519Hello [] [selectedVersion]) hw hshare).mp hadapts
  exact absurd hext (by decide)

end DestHello

end Leshiy.Tls
