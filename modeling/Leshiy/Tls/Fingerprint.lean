import Leshiy.Tls.ClientHello
import Leshiy.Tls.View

/-!
# The look of a built hello

What both readers of `leshiy-tls/src/ja.rs` make of a hello that `leshiy-tls/src/client_hello.rs` has
built. The entropy of a connection shows in the GREASE values, in the order of the extensions and in the
fake encrypted hello, and in nothing that a fingerprint keeps.
-/

namespace Leshiy.Tls

open Leshiy.Lib Parse

/-! ## Reading the lists of a hello -/

section

variable {ys : Bytes}

theorem Parser.advance_advance (p : Parser) (m n : Nat) :
    (p.advance m).advance n = p.advance (m + n) := by
  simp [Parser.advance, Nat.add_assoc]

theorem u16s_run : ∀ (items : List UInt16) (p : Parser), p.rest = u16List items ++ ys →
    (u16s items.length).run p = .ok (items, p.advance (2 * items.length))
  | [], p, _ => rfl
  | x :: items, p, h => by
    have hcons : p.rest = beEncode 2 x.toNat ++ (u16List items ++ ys) := by
      rw [h, u16List, List.flatMap_cons, List.append_assoc]
      rfl
    have h2 := Parser.rest_advance hcons (length_beEncode 2 _)
    rw [List.length_cons, u16s, run_bind (u16_run hcons), run_bind (u16s_run items _ h2),
      Parser.advance_advance, Nat.mul_succ, Nat.add_comm]
    rfl

theorem u8s_run : ∀ (bs : Bytes) (p : Parser), p.rest = bs ++ ys →
    (u8s bs.length).run p = .ok (bs, p.advance bs.length)
  | [], p, _ => rfl
  | b :: bs, p, h => by
    have hcons : p.rest = [b] ++ (bs ++ ys) := h
    have h1 := Parser.rest_advance (n := 1) hcons rfl
    rw [List.length_cons, u8s, run_bind (u8_run h), run_bind (u8s_run bs _ h1),
      Parser.advance_advance, Nat.add_comm]
    rfl

/-- A protocol with its length. -/
def encodeProto (a : String) : Bytes := UInt8.ofNat (utf8Bytes a).length :: utf8Bytes a

theorem readProtos_run : ∀ (alpn : List String) (fuel : Nat) (p : Parser),
    (∀ a ∈ alpn, (utf8Bytes a).length < 2 ^ 8) → p.rest = alpn.flatMap encodeProto →
    alpn.length ≤ fuel → ∃ p', (readProtos fuel).run p = .ok (alpn, p')
  | [], fuel, p, _, hrest, _ => by
    have hrem : ¬0 < p.remaining := by
      rw [Parser.remaining_eq, hrest]
      simp
    cases fuel with
    | zero => exact ⟨p, rfl⟩
    | succ fuel =>
      refine ⟨p, ?_⟩
      rw [readProtos, run_get, if_neg hrem]
      rfl
  | a :: alpn, 0, _, _, _, hfuel => by simp at hfuel
  | a :: alpn, fuel + 1, p, hfits, hrest, hfuel => by
    have hcons : p.rest = [UInt8.ofNat (utf8Bytes a).length] ++
        (utf8Bytes a ++ alpn.flatMap encodeProto) := by
      rw [hrest, List.flatMap_cons]
      rfl
    have hrem : 0 < p.remaining := by
      rw [Parser.remaining_eq, hcons]
      simp
    have h1 := Parser.rest_advance (n := 1) hcons rfl
    have h := Parser.rest_advance h1 rfl
    have hlen := toNat_ofNat_length (hfits a List.mem_cons_self)
    obtain ⟨p', hread⟩ := readProtos_run alpn fuel _
      (fun b hb => hfits b (List.mem_cons_of_mem _ hb)) h (by simpa using hfuel)
    refine ⟨p', ?_⟩
    rw [readProtos, run_get, if_pos hrem, run_bind (u8_run hcons), hlen,
      run_bind (take_run h1 rfl), run_bind hread, fromUtf8Lossy_utf8Bytes]
    rfl

theorem readU16List_run {items : List UInt16} (hfits : 2 * items.length < 2 ^ 16) :
    readU16List.run' (Parser.new (listU16WithU16len items)) = .ok items := by
  have h0 : (Parser.new (listU16WithU16len items)).rest =
      beEncode 2 (u16List items).length ++ (u16List items ++ []) := by
    rw [Parser.rest_new, List.append_nil]
    rfl
  have h2 := Parser.rest_advance h0 (length_beEncode 2 _)
  obtain ⟨hu, hv⟩ := u16_run_nat (by rwa [length_u16List]) h0
  rw [readU16List, run'_bind hu, hv, length_u16List, Nat.mul_div_cancel_left _ (by decide)]
  exact run'_eq (u16s_run items _ h2)

theorem readEcPointFormats_run {formats : Bytes} (hfits : formats.length < 2 ^ 8) :
    readEcPointFormats.run' (Parser.new (UInt8.ofNat formats.length :: formats)) = .ok formats := by
  have h0 : (Parser.new (UInt8.ofNat formats.length :: formats)).rest =
      [UInt8.ofNat formats.length] ++ (formats ++ []) := by
    rw [Parser.rest_new, List.append_nil]
    rfl
  have h1 := Parser.rest_advance (n := 1) h0 rfl
  rw [readEcPointFormats, run'_bind (u8_run h0), toNat_ofNat_length hfits]
  exact run'_eq (u8s_run formats _ h1)

theorem readAlpn_run {alpn : List String} (hfits : ∀ a ∈ alpn, (utf8Bytes a).length < 2 ^ 8)
    (htotal : (alpn.flatMap encodeProto).length < 2 ^ 16) :
    readAlpn.run' (Parser.new (alpnBody alpn)) = .ok alpn := by
  have h0 : (Parser.new (alpnBody alpn)).rest =
      beEncode 2 (alpn.flatMap encodeProto).length ++ alpn.flatMap encodeProto := rfl
  have h2 := Parser.rest_advance h0 (length_beEncode 2 _)
  obtain ⟨hu, -⟩ := u16_run_nat htotal h0
  have hfuel : alpn.length ≤ ((Parser.new (alpnBody alpn)).advance 2).remaining := by
    rw [Parser.remaining_eq, h2, List.length_flatMap]
    have hle := List.length_le_sum_of_one_le (alpn.map fun a => (encodeProto a).length) (by
      intro n hn
      obtain ⟨a, -, rfl⟩ := List.mem_map.mp hn
      simp [encodeProto])
    rwa [List.length_map] at hle
  obtain ⟨p', hread⟩ := readProtos_run alpn _ _ hfits h2 hfuel
  rw [readAlpn, run'_bind hu, run'_get]
  exact run'_eq hread

theorem readSupportedVersions_run {versions : List UInt16} {n : Nat} (hn : versions.length = n)
    (hfits : n * 2 < 2 ^ 8) :
    readSupportedVersions.run' (Parser.new (UInt8.ofNat (n * 2) :: u16List versions)) =
      .ok versions := by
  subst hn
  have h0 : (Parser.new (UInt8.ofNat (versions.length * 2) :: u16List versions)).rest =
      [UInt8.ofNat (versions.length * 2)] ++ (u16List versions ++ []) := by
    rw [Parser.rest_new, List.append_nil]
    rfl
  have h1 := Parser.rest_advance (n := 1) h0 rfl
  have hlen : (UInt8.ofNat (versions.length * 2)).toNat = versions.length * 2 := by
    rw [UInt8.toNat_ofNat']
    exact Nat.mod_eq_of_lt hfits
  rw [readSupportedVersions, run'_bind (u8_run h0), hlen, Nat.mul_div_cancel _ (by decide)]
  exact run'_eq (u16s_run versions _ h1)

end

/-! ## What the extensions show -/

/-- A profile whose lists fit their length fields and that has each extension once. -/
structure Profile.Offers (p : Profile) : Prop where
  once : (nonGrease p.extensions).Nodup
  suites : 2 * p.cipherSuites.length < 2 ^ 16
  groups : 2 * p.supportedGroups.length < 2 ^ 16
  formats : p.ecPointFormats.length < 2 ^ 8
  sigAlgs : 2 * p.sigAlgs.length < 2 ^ 16
  protos : ∀ a ∈ p.alpn, (utf8Bytes a).length < 2 ^ 8
  alpn : (p.alpn.flatMap encodeProto).length < 2 ^ 16
  versions : p.supportedVersions.length * 2 < 2 ^ 8

theorem Profile.offers_yandex : Profile.yandex.Offers where
  once := by decide
  suites := by decide
  groups := by decide
  formats := by decide
  sigAlgs := by decide
  protos := by decide
  alpn := by decide
  versions := by decide

section

variable (sha256 : HashSuite 32) (h : HelloParams)

/-- What an extension of the type adds to the view. -/
def HelloParams.viewed (v : ClientHelloView) (t : UInt16) : ClientHelloView :=
  let grease := deriveGrease h.entropy
  let v := { v with extensions := v.extensions ++ [t] }
  if t = 0x0000 then { v with hasSni := true }
  else if t = 0x000a then
    { v with supportedGroups :=
        v.supportedGroups ++ h.profile.supportedGroups.map (unGrease grease.group) }
  else if t = 0x000b then { v with ecPointFormats := v.ecPointFormats ++ h.profile.ecPointFormats }
  else if t = 0x000d then { v with sigAlgs := v.sigAlgs ++ h.profile.sigAlgs }
  else if t = 0x0010 then { v with alpn := v.alpn ++ h.profile.alpn }
  else if t = 0x002b then
    { v with supportedVersions :=
        v.supportedVersions ++ h.profile.supportedVersions.map (unGrease grease.version) }
  else v

/-- The view of a hello of a profile. -/
def HelloParams.view : ClientHelloView :=
  let grease := deriveGrease h.entropy
  { legacyVersion := 0x0303
    cipherSuites := h.profile.cipherSuites.map (unGrease grease.cipher)
    extensions := grease.ext1 :: h.shuffled sha256 ++ [grease.ext2]
    supportedGroups :=
      if 0x000a ∈ h.middle then h.profile.supportedGroups.map (unGrease grease.group) else []
    ecPointFormats := if 0x000b ∈ h.middle then h.profile.ecPointFormats else []
    sigAlgs := if 0x000d ∈ h.middle then h.profile.sigAlgs else []
    alpn := if 0x0010 ∈ h.middle then h.profile.alpn else []
    hasSni := decide (0x0000 ∈ h.middle)
    supportedVersions :=
      if 0x002b ∈ h.middle then h.profile.supportedVersions.map (unGrease grease.version) else [] }

end

section

variable {sha256 : HashSuite 32} {h : HelloParams}

/-- **An extension of the hello shows what the profile offers.** -/
theorem onViewExtension_buildExtension (ho : h.profile.Offers) (v : ClientHelloView) (t : UInt16) :
    onViewExtension v t (buildExtension sha256 h t) = .ok (h.viewed v t) := by
  unfold onViewExtension HelloParams.viewed
  by_cases h0 : t = 0x0000
  · simp only [if_pos h0]
  by_cases h10 : t = 0x000a
  · have hfits : 2 * (h.profile.supportedGroups.map
        (unGrease (deriveGrease h.entropy).group)).length < 2 ^ 16 := by
      rw [List.length_map]
      exact ho.groups
    simp only [if_neg h0, if_pos h10]
    subst h10
    exact congrArg _ (readU16List_run hfits)
  by_cases h11 : t = 0x000b
  · simp only [if_neg h0, if_neg h10, if_pos h11]
    subst h11
    exact congrArg _ (readEcPointFormats_run ho.formats)
  by_cases h13 : t = 0x000d
  · simp only [if_neg h0, if_neg h10, if_neg h11, if_pos h13]
    subst h13
    exact congrArg _ (readU16List_run ho.sigAlgs)
  by_cases h16 : t = 0x0010
  · simp only [if_neg h0, if_neg h10, if_neg h11, if_neg h13, if_pos h16]
    subst h16
    exact congrArg _ (readAlpn_run ho.protos ho.alpn)
  by_cases h43 : t = 0x002b
  · simp only [if_neg h0, if_neg h10, if_neg h11, if_neg h13, if_neg h16, if_pos h43]
    subst h43
    exact congrArg _ (readSupportedVersions_run (List.length_map _) ho.versions)
  · simp only [if_neg h0, if_neg h10, if_neg h11, if_neg h13, if_neg h16, if_neg h43]

/-- A fake extension shows its type only. -/
theorem onViewExtension_grease {t : UInt16} (ht : isGrease t = true) (v : ClientHelloView)
    (body : Bytes) :
    onViewExtension v t body = .ok { v with extensions := v.extensions ++ [t] } := by
  have hne : ∀ u : UInt16, isGrease u = false → t ≠ u := by
    rintro u hu rfl
    rw [ht] at hu
    cases hu
  unfold onViewExtension
  simp only [if_neg (hne 0x0000 (by decide)), if_neg (hne 0x000a (by decide)),
    if_neg (hne 0x000b (by decide)), if_neg (hne 0x000d (by decide)),
    if_neg (hne 0x0010 (by decide)), if_neg (hne 0x002b (by decide))]

/-- What extensions of different types add up to. -/
theorem foldl_viewed : ∀ (types : List UInt16) (v : ClientHelloView), types.Nodup →
    types.foldl h.viewed v =
      { legacyVersion := v.legacyVersion
        cipherSuites := v.cipherSuites
        extensions := v.extensions ++ types
        supportedGroups := v.supportedGroups ++ if 0x000a ∈ types then
          h.profile.supportedGroups.map (unGrease (deriveGrease h.entropy).group) else []
        ecPointFormats := v.ecPointFormats ++ if 0x000b ∈ types then h.profile.ecPointFormats else []
        sigAlgs := v.sigAlgs ++ if 0x000d ∈ types then h.profile.sigAlgs else []
        alpn := v.alpn ++ if 0x0010 ∈ types then h.profile.alpn else []
        hasSni := v.hasSni || decide (0x0000 ∈ types)
        supportedVersions := v.supportedVersions ++ if 0x002b ∈ types then
          h.profile.supportedVersions.map (unGrease (deriveGrease h.entropy).version) else [] }
  | [], v, _ => by simp
  | t :: types, v, hnodup => by
    obtain ⟨ht, hrest⟩ := List.nodup_cons.mp hnodup
    rw [List.foldl_cons, foldl_viewed types _ hrest]
    unfold HelloParams.viewed
    by_cases h0 : t = 0x0000
    · subst h0
      simp
    by_cases h10 : t = 0x000a
    · subst h10
      simp [ht]
    by_cases h11 : t = 0x000b
    · subst h11
      simp [ht]
    by_cases h13 : t = 0x000d
    · subst h13
      simp [ht]
    by_cases h16 : t = 0x0010
    · subst h16
      simp [ht]
    by_cases h43 : t = 0x002b
    · subst h43
      simp [ht]
    · simp [h0, h10, h11, h13, h16, h43, Ne.symm h0, Ne.symm h10, Ne.symm h11, Ne.symm h13,
        Ne.symm h16, Ne.symm h43]

/-- The extensions as sent, shown in turn. -/
theorem foldlM_view (ho : h.profile.Offers) :
    (h.extensions sha256).foldlM (fun v e => onViewExtension v e.1 e.2)
      ⟨0x0303, h.profile.cipherSuites.map (unGrease (deriveGrease h.entropy).cipher), [], [], [], [], [],
        false, []⟩ = .ok (h.view sha256) := by
  obtain ⟨hg1, hg2, -⟩ := deriveGrease_ext h.entropy
  have hperm : (h.shuffled sha256).Perm h.middle := shuffled_perm
  have hnodup : (h.shuffled sha256).Nodup := hperm.nodup_iff.mpr ho.once
  have hmiddle : ∀ v, (h.shuffled sha256).foldlM
      (fun v t => onViewExtension v t (buildExtension sha256 h t)) v =
      .ok ((h.shuffled sha256).foldl h.viewed v) := fun v =>
    foldlM_eq_foldl _ _ fun v t _ => onViewExtension_buildExtension ho v t
  unfold HelloParams.extensions
  rw [List.cons_append, List.foldlM_cons, onViewExtension_grease hg1]
  show List.foldlM _ (_ : ClientHelloView) _ = _
  rw [List.foldlM_append, List.foldlM_map, hmiddle, foldl_viewed _ _ hnodup]
  show onViewExtension _ _ _ >>= _ = _
  rw [onViewExtension_grease hg2]
  simp only [hperm.mem_iff]
  rfl

/-! ## Reading a built hello -/

/-- The head of a hello is read back, with its suites. -/
theorem readOffer_run {blen : Nat} {random : Block 32} {sid comp ys : Bytes} {suites : List UInt16}
    {p : Parser} (hsid : sid.length < 2 ^ 8) (hsuites : 2 * suites.length < 2 ^ 16)
    (hcomp : comp.length < 2 ^ 8)
    (h : p.rest = [0x01] ++ (beEncode 3 blen ++ ([0x03, 0x03] ++ (random.1 ++
      ([UInt8.ofNat sid.length] ++ (sid ++ (beEncode 2 (u16List suites).length ++
        (u16List suites ++ ([UInt8.ofNat comp.length] ++ (comp ++ ys)))))))))) :
    ∃ p', readOffer.run p = .ok ((0x0303, suites), p') ∧ p'.rest = ys ∧ p'.buf = p.buf ∧
      p'.pos = p.pos + (42 + sid.length + 2 * suites.length + comp.length) := by
  have h1 := Parser.rest_advance (n := 1) h rfl
  have h4 := Parser.rest_advance h1 (length_beEncode 3 _)
  have h6 := Parser.rest_advance (n := 2) h4 rfl
  have h38 := Parser.rest_advance h6 random.2
  have h39 := Parser.rest_advance (n := 1) h38 rfl
  have hs := Parser.rest_advance h39 rfl
  have hc := Parser.rest_advance hs (length_beEncode 2 _)
  have hm := Parser.rest_advance hc (length_u16List suites)
  have hn := Parser.rest_advance (n := 1) hm rfl
  have hend := Parser.rest_advance hn rfl
  obtain ⟨len, hlen⟩ := u24_run h1
  have hver : u16.run ((p.advance 1).advance 3) = .ok (0x0303, _) := u16_run h4
  have htype : u8.run p = .ok (0x01, p.advance 1) := u8_run h
  have hcs : (u16List suites).length < 2 ^ 16 := by rwa [length_u16List]
  obtain ⟨hu, hv⟩ := u16_run_nat hcs hs
  have heven : ¬(u16List suites).length % 2 ≠ 0 := by
    rw [length_u16List]
    omega
  have hhalf : (u16List suites).length / 2 = suites.length := by
    rw [length_u16List]
    omega
  refine ⟨_, ?_, hend, rfl, ?_⟩
  · rw [readOffer, run_bind htype, if_neg (by decide)]
    show StateT.run (u24 >>= _) _ = _
    rw [run_bind hlen, run_bind hver, run_bind (skip_run h6 random.2), run_bind (u8_run h38),
      toNat_ofNat_length hsid, run_bind (skip_run h39 rfl), run_bind hu, hv, if_neg heven]
    show StateT.run (u16s _ >>= _) _ = _
    rw [hhalf, run_bind (u16s_run suites _ hc), run_bind (u8_run hm), toNat_ofNat_length hcomp,
      run_bind (skip_run hn rfl)]
    rfl
  · simp only [Parser.pos_advance]
    omega

/-- An entry is no longer than the block it stands in. -/
theorem fits_extensions (hfits : (h.extBytes sha256).length < 2 ^ 16) :
    ∀ e ∈ h.extensions sha256, Fits e := by
  intro e he
  have hle : (encodeEntry e).length ≤ (h.extBytes sha256).length := by
    rw [HelloParams.extBytes, List.flatMap_def]
    exact (List.sublist_flatten_of_mem (List.mem_map_of_mem he)).length_le
  rw [length_encodeEntry] at hle
  show e.2.length < 2 ^ 16
  omega

/-- **A built hello is viewed**, whatever its session id, if the extensions fit their block. -/
theorem parse_withSessionId {sid : Bytes} (ho : h.profile.Offers) (hsid : sid.length < 2 ^ 8)
    (hfits : (h.extBytes sha256).length < 2 ^ 16) :
    ClientHelloView.parse (h.withSessionId sha256 sid) = .ok (h.view sha256) := by
  have h0 := Parser.rest_new (h.withSessionId sha256 sid)
  have hsuites : 2 * (h.profile.cipherSuites.map
      (unGrease (deriveGrease h.entropy).cipher)).length < 2 ^ 16 := by
    rw [List.length_map]
    exact ho.suites
  obtain ⟨p₁, hoffer, h1, hb1, hp1⟩ := readOffer_run hsid hsuites (by decide) h0
  have hpos : p₁.pos ≤ p₁.buf.length := by
    rw [hp1, hb1]
    simp only [Parser.new, HelloParams.withSessionId, encodeHello, helloBody, HelloParams.csBytes,
      List.length_append, length_beEncode, length_u16List, h.random.2, List.length_cons,
      List.length_nil]
    omega
  obtain ⟨p₂, hread⟩ := extensionsBlock_run (fits_extensions hfits) hfits h1 hpos (foldlM_view ho)
  rw [ClientHelloView.parse, run'_bind hoffer]
  exact run'_eq hread

/-! ## Lengths -/

/-- A vector: its length in `k` bytes, and as many bytes as that says. -/
def IsVector (k : Nat) (content bytes : Bytes) : Prop :=
  content.length < 256 ^ k ∧ bytes = beEncode k content.length ++ content

/-- The body of an extension is made of vectors that fill it exactly. -/
inductive Nested : UInt16 → Bytes → Prop
  | serverName {name entry body : Bytes} (hname : IsVector 2 name entry)
      (hlist : IsVector 2 ([0x00] ++ entry) body) : Nested 0x0000 body
  | list16 {t : UInt16} {items : List UInt16} {body : Bytes} (ht : t ∈ [0x000a, 0x000d])
      (hlist : IsVector 2 (u16List items) body) : Nested t body
  | list8 {t : UInt16} {items : List UInt16} {body : Bytes} (ht : t ∈ [0x002b, 0x001b])
      (hlist : IsVector 1 (u16List items) body) : Nested t body
  | bytes {t : UInt16} {content body : Bytes} (ht : t ∈ [0x000b, 0x002d, 0xff01])
      (hlist : IsVector 1 content body) : Nested t body
  | protocols {t : UInt16} {protos : List (Bytes × Bytes)} {body : Bytes} (ht : t ∈ [0x0010, 0x44cd])
      (hprotos : ∀ q ∈ protos, IsVector 1 q.1 q.2)
      (hlist : IsVector 2 (protos.flatMap Prod.snd) body) : Nested t body
  | keyShare {entries : List (UInt16 × Bytes)} {body : Bytes} (hentries : ∀ e ∈ entries, Fits e)
      (hlist : IsVector 2 (entries.flatMap encodeEntry) body) : Nested 0x0033 body
  | statusRequest {ids responders exts requested : Bytes} (hids : IsVector 2 ids responders)
      (hexts : IsVector 2 exts requested) : Nested 0x0005 ([0x01] ++ (responders ++ requested))
  | encryptedHello {suite enc key payload text : Bytes} (configId : UInt8) (hsuite : suite.length = 4)
      (henc : IsVector 2 enc key) (hpayload : IsVector 2 payload text) :
      Nested 0xfe0d ([0x00] ++ (suite ++ ([configId] ++ (key ++ text))))
  | flag {t : UInt16} (ht : t ∈ [0x0012, 0x0017, 0x0023]) : Nested t []
  | grease {t : UInt16} {body : Bytes} (ht : isGrease t = true) : Nested t body

/-- All lengths of a hello agree, from its header down to the entries of its extensions. -/
inductive Consistent : Bytes → Prop
  | mk {body tail random sid sidVec csVec comp compVec extVec : Bytes} {suites : List UInt16}
      {exts : List (UInt16 × Bytes)} (hbody : IsVector 3 body tail) (hrandom : random.length = 32)
      (hparts : body = [0x03, 0x03] ++ (random ++ (sidVec ++ (csVec ++ (compVec ++ extVec)))))
      (hsid : IsVector 1 sid sidVec) (hcs : IsVector 2 (u16List suites) csVec)
      (hcomp : IsVector 1 comp compVec) (hexts : IsVector 2 (exts.flatMap encodeEntry) extVec)
      (hfits : ∀ e ∈ exts, Fits e) (hnested : ∀ e ∈ exts, Nested e.1 e.2) :
      Consistent ([0x01] ++ tail)

theorem isVector_one {content : Bytes} (hlen : content.length < 2 ^ 8) :
    IsVector 1 content (UInt8.ofNat content.length :: content) :=
  ⟨hlen, rfl⟩

theorem isVector_two {content : Bytes} (hlen : content.length < 2 ^ 16) :
    IsVector 2 content (beEncode 2 content.length ++ content) :=
  ⟨hlen, rfl⟩

theorem nested_serverName {sni : String} (hsni : (utf8Bytes sni).length ≤ 255) :
    Nested 0x0000 (serverNameBody sni) := by
  have hname : IsVector 2 (utf8Bytes sni) _ := isVector_two (by omega)
  refine .serverName hname ⟨?_, ?_⟩
  · simp only [List.length_append, length_beEncode, List.length_cons, List.length_nil]
    omega
  · rw [serverNameBody]
    simp only [List.length_append, length_beEncode, List.length_cons, List.length_nil]
    congr 2
    omega

theorem nested_list16 {t : UInt16} {items : List UInt16} (ht : t ∈ [0x000a, 0x000d])
    (hfits : 2 * items.length < 2 ^ 16) : Nested t (listU16WithU16len items) :=
  .list16 ht (isVector_two (by rwa [length_u16List]))

theorem nested_versions {value : UInt16} {versions : List UInt16} (hfits : versions.length * 2 < 2 ^ 8) :
    Nested 0x002b (UInt8.ofNat (versions.length * 2) :: u16List (versions.map (unGrease value))) := by
  have hlen : (u16List (versions.map (unGrease value))).length = versions.length * 2 := by
    rw [length_u16List, List.length_map, Nat.mul_comm]
  have hvector := isVector_one (hlen ▸ hfits)
  rw [hlen] at hvector
  exact .list8 (by decide) hvector

theorem nested_alpn {alpn : List String} (hfits : ∀ a ∈ alpn, (utf8Bytes a).length < 2 ^ 8)
    (htotal : (alpn.flatMap encodeProto).length < 2 ^ 16) : Nested 0x0010 (alpnBody alpn) := by
  have hprotos : ∀ q ∈ alpn.map fun a => (utf8Bytes a, encodeProto a), IsVector 1 q.1 q.2 := by
    intro q hq
    obtain ⟨a, ha, rfl⟩ := List.mem_map.mp hq
    exact isVector_one (hfits a ha)
  refine .protocols (by decide) hprotos ?_
  rw [List.flatMap_map]
  exact isVector_two htotal

theorem nested_keyShare {x25519Pub : Block 32} {mlkemEk : Block 1184} {grease : Grease} :
    Nested 0x0033 (keyShareBody x25519Pub mlkemEk grease) := by
  have hlen : ((keyShares x25519Pub mlkemEk grease).flatMap encodeEntry).length = 1261 := by
    have hbody : (keyShareBody x25519Pub mlkemEk grease).length = 1263 := length_keyShareBody
    rw [keyShareBody, List.length_append, length_beEncode] at hbody
    omega
  refine .keyShare (fits_keyShares x25519Pub mlkemEk grease) (isVector_two ?_)
  rw [hlen]
  decide

theorem nested_greaseEchOuter : Nested 0xfe0d (greaseEchOuter sha256 h.entropy) := by
  have hlen : (expand sha256 h.entropy (utf8Bytes "leshiy-ech") (1 + 32 + 1 + 208)).length = 242 :=
    length_expand _ _
  simp only [greaseEchOuter]
  generalize expand sha256 h.entropy (utf8Bytes "leshiy-ech") (1 + 32 + 1 + 208) = stream at hlen ⊢
  have hsel : (stream.getD 33 0).toNat % 65 < 65 := Nat.mod_lt _ (by decide)
  generalize (stream.getD 33 0).toNat % 65 = sel at hsel ⊢
  have hn : ((stream.take (34 + (144 + sel))).drop 34).length = 144 + sel := by
    rw [List.length_drop, List.length_take]
    omega
  have hsuite : (beEncode 2 0x0001 ++ beEncode 2 0x0001).length = 4 := rfl
  have henc : IsVector 2 ((stream.take 33).drop 1) _ := isVector_two (by
    rw [List.length_drop, List.length_take]
    omega)
  have hpayload : IsVector 2 ((stream.take (34 + (144 + sel))).drop 34) _ := isVector_two (by
    rw [hn]
    omega)
  have hnested := Nested.encryptedHello (stream.getD 0 0) hsuite henc hpayload
  rw [hn] at hnested
  simpa only [List.append_assoc] using hnested

/-- The body of every extension of a shipped profile is made of vectors. -/
theorem nested_buildExtension (hp : h.profile = .yandex) (hsni : (utf8Bytes h.sni).length ≤ 255) :
    ∀ t ∈ h.middle, Nested t (buildExtension sha256 h t) := by
  have ho : h.profile.Offers := hp ▸ Profile.offers_yandex
  have hmiddle : h.middle = [51, 27, 65281, 18, 45, 0, 35, 5, 11, 43, 16, 65037, 23, 17613, 13,
      10] := by
    rw [HelloParams.middle, hp]
    decide
  have hcompress : IsVector 1 (u16List [0x0002]) [0x02, 0x00, 0x02] := ⟨by decide, rfl⟩
  have hrenegotiation : IsVector 1 [] [0x00] := ⟨by decide, rfl⟩
  have hmodes : IsVector 1 [0x01] [0x01, 0x01] := ⟨by decide, rfl⟩
  have hnone : IsVector 2 [] [0x00, 0x00] := ⟨by decide, rfl⟩
  have hh2 : ∀ q ∈ [(([0x68, 0x32], [0x02, 0x68, 0x32]) : Bytes × Bytes)], IsVector 1 q.1 q.2 := by
    intro q hq
    cases List.mem_singleton.mp hq
    exact ⟨by decide, rfl⟩
  have hgroups : 2 * (h.profile.supportedGroups.map
      (unGrease (deriveGrease h.entropy).group)).length < 2 ^ 16 := by
    rw [List.length_map]
    exact ho.groups
  rw [hmiddle]
  intro t ht
  simp only [List.mem_cons, List.not_mem_nil, or_false] at ht
  rcases ht with rfl | rfl | rfl | rfl | rfl | rfl | rfl | rfl | rfl | rfl | rfl | rfl | rfl | rfl |
    rfl | rfl
  · exact nested_keyShare
  · exact .list8 (by decide) hcompress
  · exact .bytes (by decide) hrenegotiation
  · exact .flag (by decide)
  · exact .bytes (by decide) hmodes
  · exact nested_serverName hsni
  · exact .flag (by decide)
  · exact .statusRequest hnone hnone
  · exact .bytes (by decide) (isVector_one ho.formats)
  · exact nested_versions ho.versions
  · exact nested_alpn ho.protos ho.alpn
  · exact nested_greaseEchOuter
  · exact .flag (by decide)
  · exact .protocols (by decide) hh2 ⟨by decide, rfl⟩
  · exact nested_list16 (by decide) ho.sigAlgs
  · exact nested_list16 (by decide) hgroups

/-- **All lengths of a built hello agree.** -/
theorem consistent_withSessionId {sid : Bytes} (hp : h.profile = .yandex) (hsid : sid.length < 2 ^ 8)
    (hsni : (utf8Bytes h.sni).length ≤ 255) : Consistent (h.withSessionId sha256 sid) := by
  have hexts : (h.extBytes sha256).length < 2 ^ 16 := length_extBytes_yandex_lt hp (by omega)
  have hcs : h.csBytes.length = 32 := by
    rw [HelloParams.csBytes, length_u16List, List.length_map, hp]
    rfl
  have hbody : (helloBody h.random sid h.csBytes [0x00]
      (beEncode 2 (h.extBytes sha256).length ++ h.extBytes sha256)).length < 256 ^ 3 := by
    simp only [helloBody, List.length_append, length_beEncode, h.random.2, hcs, List.length_cons,
      List.length_nil]
    omega
  have hnested : ∀ e ∈ h.extensions sha256, Nested e.1 e.2 := by
    obtain ⟨hg1, hg2, -⟩ := deriveGrease_ext h.entropy
    intro e he
    simp only [HelloParams.extensions, List.cons_append, List.mem_cons, List.mem_append, List.mem_map,
      List.not_mem_nil, or_false] at he
    rcases he with rfl | ⟨t, ht, rfl⟩ | rfl
    · exact .grease hg1
    · exact nested_buildExtension hp hsni t (shuffled_perm.mem_iff.mp ht)
    · exact .grease hg2
  have hsuites : IsVector 2 h.csBytes _ := isVector_two (by rw [hcs]; decide)
  have hcomp : IsVector 1 [0x00] [0x01, 0x00] := ⟨by decide, rfl⟩
  refine .mk ⟨hbody, rfl⟩ h.random.2 ?_ (isVector_one hsid) hsuites hcomp (isVector_two hexts)
    (fits_extensions hexts) hnested
  simp only [helloBody, List.append_assoc]
  rfl

/-! ## What a fingerprint keeps -/

theorem nonGrease_map_unGrease {value : UInt16} (hv : isGrease value = true) (xs : List UInt16) :
    nonGrease (xs.map (unGrease value)) = nonGrease xs := by
  induction xs with
  | nil => rfl
  | cons x xs ih =>
    unfold nonGrease at ih ⊢
    by_cases hx : isGrease x = true
    · simp [unGrease, hx, hv, ih]
    · simp [unGrease, hx, ih]

theorem isGrease_deriveGrease (entropy : Block 32) : isGrease (deriveGrease entropy).cipher = true ∧
    isGrease (deriveGrease entropy).version = true :=
  ⟨(isGrease_greaseFromByte _).1, (isGrease_greaseFromByte _).1⟩

theorem nonGrease_extensions : (nonGrease (h.view sha256).extensions).Perm h.middle := by
  obtain ⟨hg1, hg2, -⟩ := deriveGrease_ext h.entropy
  have hperm : (h.shuffled sha256).Perm h.middle := shuffled_perm
  have hmiddle : nonGrease h.middle = h.middle := by
    unfold nonGrease HelloParams.middle
    rw [List.filter_filter]
    simp
  have hshow : nonGrease (h.view sha256).extensions = nonGrease (h.shuffled sha256) := by
    simp [HelloParams.view, nonGrease, hg1, hg2]
  rw [hshow, ← hmiddle]
  exact hperm.filter _

/-- What a fingerprint keeps of the hellos of a profile. -/
def Profile.look (p : Profile) : ClientHelloView :=
  { legacyVersion := 0x0303
    cipherSuites := p.cipherSuites
    extensions := p.extensions
    supportedGroups := if 0x000a ∈ nonGrease p.extensions then p.supportedGroups else []
    ecPointFormats := if 0x000b ∈ nonGrease p.extensions then p.ecPointFormats else []
    sigAlgs := if 0x000d ∈ nonGrease p.extensions then p.sigAlgs else []
    alpn := if 0x0010 ∈ nonGrease p.extensions then p.alpn else []
    hasSni := decide (0x0000 ∈ nonGrease p.extensions)
    supportedVersions := if 0x002b ∈ nonGrease p.extensions then p.supportedVersions else [] }

/-- The hellos of a profile look as it does. -/
theorem alike_look : (h.view sha256).Alike h.profile.look := by
  obtain ⟨hc, hv⟩ := isGrease_deriveGrease h.entropy
  refine ⟨nonGrease_map_unGrease hc _, nonGrease_extensions, rfl, rfl, rfl, ?_⟩
  show nonGrease (if 0x002b ∈ h.middle then _ else []) = nonGrease (if 0x002b ∈ h.middle then _ else [])
  by_cases hm : 0x002b ∈ h.middle
  · rw [if_pos hm, if_pos hm, nonGrease_map_unGrease hv]
  · rw [if_neg hm, if_neg hm]

/-- **The unhashed JA4 of a shipped profile** is the one captured from the browser, whatever goes into the
hello. -/
theorem ja4R_view (hp : h.profile = .yandex) : (h.view sha256).ja4R =
    "t13d1516h2_002f,0035,009c,009d,1301,1302,1303,c013,c014,c02b,c02c,c02f,c030,cca8,cca9_" ++
      "0005,000a,000b,000d,0012,0017,001b,0023,002b,002d,0033,44cd,fe0d,ff01_" ++
      "0403,0804,0401,0503,0805,0501,0806,0601" := by
  have hsuites : sortU16 (nonGrease Profile.yandex.look.cipherSuites) = [0x002f, 0x0035, 0x009c, 0x009d,
      0x1301, 0x1302, 0x1303, 0xc013, 0xc014, 0xc02b, 0xc02c, 0xc02f, 0xc030, 0xcca8, 0xcca9] :=
    sortU16_eq (by decide) (by decide)
  have hexts : sortU16 (Profile.yandex.look.extensions.filter
      fun x => !isGrease x && x != 0x0000 && x != 0x0010) = [0x0005, 0x000a, 0x000b, 0x000d, 0x0012,
        0x0017, 0x001b, 0x0023, 0x002b, 0x002d, 0x0033, 0x44cd, 0xfe0d, 0xff01] :=
    sortU16_eq (by decide) (by decide)
  rw [alike_look.ja4R_eq, hp, ClientHelloView.ja4R, ClientHelloView.ja4Ciphers, ClientHelloView.ja4Exts,
    hsuites, hexts]
  decide +kernel

/-- **A hello and its readers agree.** For every entropy, name of at most 255 bytes, random, session id
and key shares, the hello of a shipped profile is read back field by field, with the one x25519 key in
both shares; all its lengths agree; its extensions are those of the profile in some order, between two
GREASE values that differ; and its JA4 does not depend on the entropy. -/
theorem hello_agreement (sha256 : HashSuite 32) (h : HelloParams) (sid : Block 32)
    (hp : h.profile = .yandex ∨ h.profile = .chrome) (hsni : (utf8Bytes h.sni).length ≤ 255) :
    extractClientHelloFields (h.withSessionId sha256 sid.1) = .ok
        { random := h.random
          sessionId := sid.1
          keyShareX25519 := some h.x25519Pub
          keyShareMlkem := some ⟨h.mlkemEk.1, h.x25519Pub⟩
          sni := some h.sni } ∧
      Consistent (h.withSessionId sha256 sid.1) ∧
      ∃ v, ClientHelloView.parse (h.withSessionId sha256 sid.1) = .ok v ∧
        (∃ first order last, v.extensions = first :: order ++ [last] ∧
          order.Perm (h.profile.extensions.filter fun t => !isGrease t) ∧
          isGrease first = true ∧ isGrease last = true ∧ first ≠ last) ∧
        ∀ entropy, ∃ v', ClientHelloView.parse
            ({ h with entropy := entropy }.withSessionId sha256 sid.1) = .ok v' ∧
          v'.ja4 sha256 = v.ja4 sha256 := by
  have hyandex : h.profile = .yandex := by
    rcases hp with hp | hp
    · exact hp
    · exact hp
  have hsid : sid.1.length < 2 ^ 8 := by
    rw [sid.2]
    decide
  have hparse : ∀ entropy, ClientHelloView.parse
      ({ h with entropy := entropy }.withSessionId sha256 sid.1) =
        .ok ({ h with entropy := entropy }.view sha256) := by
    intro entropy
    refine parse_withSessionId ?_ hsid (length_extBytes_yandex_lt hyandex ?_)
    · show h.profile.Offers
      rw [hyandex]
      exact Profile.offers_yandex
    · show (utf8Bytes h.sni).length ≤ 63000
      omega
  obtain ⟨hg1, hg2, hne⟩ := deriveGrease_ext h.entropy
  refine ⟨extract_withSessionId (hyandex ▸ Profile.carries_yandex) hsid
      (length_extBytes_yandex_lt hyandex (by omega)),
    consistent_withSessionId hyandex hsid hsni, h.view sha256, hparse h.entropy, ?_, ?_⟩
  · exact ⟨_, h.shuffled sha256, _, rfl, shuffled_perm, hg1, hg2, hne⟩
  · intro entropy
    have hthis : (h.view sha256).Alike h.profile.look := alike_look
    have hother : ({ h with entropy := entropy }.view sha256).Alike h.profile.look := alike_look
    exact ⟨_, hparse entropy, (hother.ja4_eq sha256).trans (hthis.ja4_eq sha256).symm⟩

/-- A hello with the session id that a fresh one has. -/
theorem hello_agreement_fresh :
    let h : HelloParams := ⟨.chrome, "example.org", Block.fill 32 1, Block.fill 1184 2, Block.fill 32 3,
      Block.fill 32 4⟩
    extractClientHelloFields (buildClientHelloWithEntropy (HashSuite.start 32) h) =
        .ok ⟨Block.fill 32 3, (Block.fill 32 3).1, some (Block.fill 32 1),
          some ⟨(Block.fill 1184 2).1, Block.fill 32 1⟩, some "example.org"⟩ ∧
      Consistent (buildClientHelloWithEntropy (HashSuite.start 32) h) := by
  intro h
  have hagree := hello_agreement (HashSuite.start 32) h (Block.fill 32 3) (.inr rfl) (by decide)
  exact ⟨hagree.1, hagree.2.1⟩

end

end Leshiy.Tls
