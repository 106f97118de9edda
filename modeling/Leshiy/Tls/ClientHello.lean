import Leshiy.Tls.Camouflage
import Leshiy.Tls.Ja

/-!
# Building a ClientHello

`leshiy-tls/src/fingerprint.rs` and `leshiy-tls/src/client_hello.rs`. The lengths a profile can
overflow are cut by `as` casts in the source, and so they are here; a hello whose extensions
block still fits its length field is read back by `extractClientHelloFields`.
-/

namespace Leshiy.Tls

open Leshiy.Lib

/-! ## Profiles -/

def GREASE : UInt16 := 0x0a0a

def GREASE2 : UInt16 := 0x1a1a

/-- A browser fingerprint, in wire order and with GREASE placeholders. (The profile's name is
not read by the builder.) -/
structure Profile where
  cipherSuites : List UInt16
  extensions : List UInt16
  supportedGroups : List UInt16
  ecPointFormats : Bytes
  sigAlgs : List UInt16
  supportedVersions : List UInt16
  alpn : List String

def Profile.yandex : Profile where
  cipherSuites := [GREASE, 4865, 4866, 4867, 49195, 49199, 49196, 49200, 52393, 52392, 49171,
    49172, 156, 157, 47, 53]
  extensions := [GREASE, 51, 27, 65281, 18, 45, 0, 35, 5, 11, 43, 16, 65037, 23, 17613, 13, 10,
    GREASE2]
  supportedGroups := [GREASE, 4588, 29, 23, 24]
  ecPointFormats := [0x00]
  sigAlgs := [0x0403, 0x0804, 0x0401, 0x0503, 0x0805, 0x0501, 0x0806, 0x0601]
  supportedVersions := [GREASE, 0x0304, 0x0303]
  alpn := ["h2", "http/1.1"]

/-- The second profile differs from the first in its name only. -/
def Profile.chrome : Profile := Profile.yandex

/-! ## The builder -/

/-- The connection's GREASE value in the place of a placeholder. -/
def unGrease (value v : UInt16) : UInt16 := if isGrease v then value else v

def u16List (items : List UInt16) : Bytes := items.flatMap fun x => beEncode 2 x.toNat

def listU16WithU16len (items : List UInt16) : Bytes :=
  beEncode 2 (u16List items).length ++ u16List items

/-- `server_name`: list length, name type, name length, name. -/
def serverNameBody (sni : String) : Bytes :=
  let host := utf8Bytes sni
  beEncode 2 (1 + 2 + host.length) ++ ([0x00] ++ (beEncode 2 host.length ++ host))

def alpnBody (alpn : List String) : Bytes :=
  let protos := alpn.flatMap fun a => UInt8.ofNat (utf8Bytes a).length :: utf8Bytes a
  beEncode 2 protos.length ++ protos

/-- The entries of `key_share`: GREASE, the hybrid share and the plain one. -/
def keyShares (x25519Pub : Block 32) (mlkemEk : Block 1184) (grease : Grease) :
    List (UInt16 × Bytes) :=
  [(grease.group, [0x00]), (0x11ec, mlkemEk.1 ++ x25519Pub.1), (0x001d, x25519Pub.1)]

def keyShareBody (x25519Pub : Block 32) (mlkemEk : Block 1184) (grease : Grease) : Bytes :=
  let entries := (keyShares x25519Pub mlkemEk grease).flatMap encodeEntry
  beEncode 2 entries.length ++ entries

/-- What a hello is built from. `entropy` drives the camouflage and is not sent. -/
structure HelloParams where
  profile : Profile
  sni : String
  x25519Pub : Block 32
  mlkemEk : Block 1184
  random : Block 32
  entropy : Block 32

section

variable (sha256 : HashSuite 32) (h : HelloParams)

/-- The body of one extension; types without a body of their own have an empty one. -/
def buildExtension (etype : UInt16) : Bytes :=
  let grease := deriveGrease h.entropy
  if etype = 0x0000 then serverNameBody h.sni
  else if etype = 0x000a then
    listU16WithU16len (h.profile.supportedGroups.map (unGrease grease.group))
  else if etype = 0x000b then
    UInt8.ofNat h.profile.ecPointFormats.length :: h.profile.ecPointFormats
  else if etype = 0x000d then listU16WithU16len h.profile.sigAlgs
  else if etype = 0x0010 then alpnBody h.profile.alpn
  else if etype = 0x002b then
    UInt8.ofNat (h.profile.supportedVersions.length * 2) ::
      u16List (h.profile.supportedVersions.map (unGrease grease.version))
  else if etype = 0x0033 then keyShareBody h.x25519Pub h.mlkemEk grease
  else if etype = 0xff01 then [0x00]
  else if etype = 0x002d then [0x01, 0x01]
  else if etype = 0x0005 then [0x01, 0x00, 0x00, 0x00, 0x00]
  else if etype = 0x001b then [0x02, 0x00, 0x02]
  else if etype = 0xfe0d then greaseEchOuter sha256 h.entropy
  else if etype = 0x44cd then [0x00, 0x03, 0x02, 0x68, 0x32]
  else []

/-- The types of the real extensions, in the profile's order. -/
def HelloParams.middle : List UInt16 := h.profile.extensions.filter fun t => !isGrease t

/-- The types of the real extensions in the order of this connection. -/
def HelloParams.shuffled : List UInt16 :=
  (chromeExtPermutation sha256 h.entropy h.middle.length).map fun idx => h.middle.getD idx 0

/-- The extensions as sent: the real ones between two fake ones. -/
def HelloParams.extensions : List (UInt16 × Bytes) :=
  let grease := deriveGrease h.entropy
  (grease.ext1, []) :: (h.shuffled sha256).map (fun t => (t, buildExtension sha256 h t)) ++
    [(grease.ext2, [0x00])]

def HelloParams.extBytes : Bytes := (h.extensions sha256).flatMap encodeEntry

def HelloParams.csBytes : Bytes :=
  u16List (h.profile.cipherSuites.map (unGrease (deriveGrease h.entropy).cipher))

/-- The hello with a given session id. -/
def HelloParams.withSessionId (sid : Bytes) : Bytes :=
  encodeHello h.random sid h.csBytes [0x00]
    (beEncode 2 (h.extBytes sha256).length ++ h.extBytes sha256)

/-- The session id of a fresh hello repeats its random. -/
def buildClientHelloWithEntropy : Bytes := h.withSessionId sha256 h.random.1

end

/-! ## What the extensions say -/

/-- What an extension of the type adds to what was found, if it is one of ours. -/
def HelloParams.carried (h : HelloParams) (acc : Found) (etype : UInt16) : Found :=
  if etype = 0x0000 then { acc with sni := some h.sni }
  else if etype = 0x0033 then
    { acc with
      keyShareX25519 := some h.x25519Pub
      keyShareMlkem := some ⟨h.mlkemEk.1, h.x25519Pub⟩ }
  else acc

variable {sha256 : HashSuite 32} {h : HelloParams}

theorem length_serverNameBody (sni : String) :
    (serverNameBody sni).length = 5 + (utf8Bytes sni).length := by
  simp only [serverNameBody, List.length_append, length_beEncode, List.length_cons,
    List.length_nil]
  omega

theorem readServerName_serverNameBody {sni : String} (acc : Found)
    (hfits : (utf8Bytes sni).length + 3 < 2 ^ 16) :
    (readServerName acc).run' (Parser.new (serverNameBody sni)) =
      .ok { acc with sni := some sni } := by
  have h0 : (Parser.new (serverNameBody sni)).rest = beEncode 2 (1 + 2 + (utf8Bytes sni).length) ++
      ([0x00] ++ (beEncode 2 (utf8Bytes sni).length ++ (utf8Bytes sni ++ []))) := by
    rw [Parser.rest_new, List.append_nil]
    rfl
  have h2 := Parser.rest_advance h0 (length_beEncode 2 _)
  have h3 := Parser.rest_advance (n := 1) h2 rfl
  have h5 := Parser.rest_advance h3 (length_beEncode 2 _)
  obtain ⟨hlist, -⟩ := u16_run_nat (by omega) h0
  obtain ⟨hname, hlen⟩ := u16_run_nat (by omega) h3
  rw [readServerName, Parse.run'_bind hlist, Parse.run'_bind (Parse.u8_run h2),
    Parse.run'_bind hname, hlen, Parse.run'_bind (Parse.take_run h5 rfl), fromUtf8Lossy_utf8Bytes]
  rfl

/-- The fake entry is passed over and the others are found. -/
theorem foldl_onShare_keyShares {x25519Pub : Block 32} {mlkemEk : Block 1184} {grease : Grease}
    (acc : Found) :
    (keyShares x25519Pub mlkemEk grease).foldl (fun acc e => onShare acc e.1 e.2) acc =
      { acc with
        keyShareX25519 := some x25519Pub
        keyShareMlkem := some ⟨mlkemEk.1, x25519Pub⟩ } := by
  have hfake : onShare acc grease.group [0x00] = acc := by
    have h1 : ¬ (grease.group = 0x001d ∧ ([0x00] : Bytes).length = 32) := by simp
    have h2 : ¬ (grease.group = 0x11ec ∧ ([0x00] : Bytes).length = 1216) := by simp
    rw [onShare, if_neg h1, if_neg h2]
  have hhybrid : onShare acc 0x11ec (mlkemEk.1 ++ x25519Pub.1) =
      { acc with keyShareMlkem := some ⟨mlkemEk.1, x25519Pub⟩ } := by
    have hlen : (mlkemEk.1 ++ x25519Pub.1).length = 1216 := by
      rw [List.length_append, mlkemEk.2, x25519Pub.2]
    rw [onShare, if_neg (by simp), if_pos ⟨rfl, hlen⟩, List.take_left' mlkemEk.2,
      List.drop_left' mlkemEk.2, Block.ofList_val]
  have hplain : ∀ acc, onShare acc 0x001d x25519Pub.1 =
      { acc with keyShareX25519 := some x25519Pub } := by
    intro acc
    rw [onShare, if_pos ⟨rfl, x25519Pub.2⟩, Block.ofList_val]
  simp only [keyShares, List.foldl_cons, List.foldl_nil, hfake, hhybrid, hplain]

/-- The entries of `key_share` fit their length fields. -/
theorem fits_keyShares (x25519Pub : Block 32) (mlkemEk : Block 1184) (grease : Grease) :
    ∀ e ∈ keyShares x25519Pub mlkemEk grease, Fits e := by
  intro e he
  simp only [keyShares, List.mem_cons, List.not_mem_nil, or_false] at he
  obtain rfl | rfl | rfl := he
  · show ([0x00] : Bytes).length < 2 ^ 16
    decide
  · show (mlkemEk.1 ++ x25519Pub.1).length < 2 ^ 16
    rw [List.length_append, mlkemEk.2, x25519Pub.2]
    decide
  · show x25519Pub.1.length < 2 ^ 16
    rw [x25519Pub.2]
    decide

theorem readKeyShare_keyShareBody {x25519Pub : Block 32} {mlkemEk : Block 1184} {grease : Grease}
    (acc : Found) :
    (readKeyShare acc).run' (Parser.new (keyShareBody x25519Pub mlkemEk grease)) = .ok { acc with
      keyShareX25519 := some x25519Pub
      keyShareMlkem := some ⟨mlkemEk.1, x25519Pub⟩ } := by
  have hlen : ((keyShares x25519Pub mlkemEk grease).flatMap encodeEntry).length = 1261 := by
    simp only [keyShares, List.flatMap_cons, List.flatMap_nil, List.length_append,
      length_encodeEntry, mlkemEk.2, x25519Pub.2, List.length_cons, List.length_nil]
  have h0 := Parser.rest_new (keyShareBody x25519Pub mlkemEk grease)
  have h2 := Parser.rest_advance h0 (length_beEncode 2 _)
  obtain ⟨hlist, -⟩ := u16_run_nat (by omega) h0
  have hfuel : (keyShares x25519Pub mlkemEk grease).length ≤
      ((Parser.new (keyShareBody x25519Pub mlkemEk grease)).advance 2).remaining := by
    rw [Parser.remaining_eq, h2, hlen]
    show 3 ≤ 1261
    omega
  obtain ⟨p', hshares⟩ := readShares_run _ _ acc _ (fits_keyShares _ _ _) h2 hfuel
  rw [foldl_onShare_keyShares] at hshares
  rw [readKeyShare, Parse.run'_bind hlist, Parse.run'_get]
  exact Parse.run'_eq hshares

/-- **An extension of the hello says what it carries.** -/
theorem onExtension_buildExtension (hsni : (utf8Bytes h.sni).length + 3 < 2 ^ 16) (acc : Found)
    (t : UInt16) : onExtension acc t (buildExtension sha256 h t) = .ok (h.carried acc t) := by
  unfold onExtension HelloParams.carried
  by_cases h0 : t = 0x0000
  · rw [if_pos h0, if_pos h0, h0]
    exact readServerName_serverNameBody acc hsni
  rw [if_neg h0, if_neg h0]
  by_cases h33 : t = 0x0033
  · rw [if_pos h33, if_pos h33, h33]
    exact readKeyShare_keyShareBody acc
  · rw [if_neg h33, if_neg h33]

/-- The fake extensions are passed over. -/
theorem onExtension_grease {t : UInt16} (ht : isGrease t = true) (acc : Found) (body : Bytes) :
    onExtension acc t body = .ok acc := by
  have h0 : t ≠ 0x0000 := by
    rintro rfl
    revert ht
    decide
  have h33 : t ≠ 0x0033 := by
    rintro rfl
    revert ht
    decide
  rw [onExtension, if_neg h0, if_neg h33]

/-- What a list of extensions adds up to does not depend on their order. -/
theorem foldl_carried : ∀ (types : List UInt16) (acc : Found), types.foldl h.carried acc =
    { keyShareX25519 := if 0x0033 ∈ types then some h.x25519Pub else acc.keyShareX25519
      keyShareMlkem := if 0x0033 ∈ types then some ⟨h.mlkemEk.1, h.x25519Pub⟩
        else acc.keyShareMlkem
      sni := if 0x0000 ∈ types then some h.sni else acc.sni }
  | [], acc => rfl
  | t :: types, acc => by
    rw [List.foldl_cons, foldl_carried types, HelloParams.carried]
    by_cases h0 : t = 0x0000
    · subst h0
      simp
    · by_cases h33 : t = 0x0033
      · subst h33
        simp
      · simp [h0, h33, Ne.symm h0, Ne.symm h33]

/-- The real extensions in the connection's order are those of the profile. -/
theorem shuffled_perm : (h.shuffled sha256).Perm h.middle := by
  have hperm : (chromeExtPermutation sha256 h.entropy h.middle.length).Perm
      (List.range h.middle.length) := chromeExtPermutation_perm _
  have hmap : (List.range h.middle.length).map (fun idx => h.middle.getD idx 0) = h.middle := by
    apply List.ext_getElem
    · simp
    · intro i hi hi'
      simp [hi']
  have hshuffled := hperm.map fun idx => h.middle.getD idx 0
  rwa [hmap] at hshuffled

/-! ## Reading a built hello -/

theorem foldlM_eq_foldl {α β : Type} {g : β → α → Except TlsError β} {g' : β → α → β} :
    ∀ (l : List α) (b : β), (∀ b, ∀ a ∈ l, g b a = .ok (g' b a)) →
    l.foldlM g b = .ok (l.foldl g' b)
  | [], b, _ => rfl
  | a :: l, b, hg => by
    rw [List.foldlM_cons, hg b a List.mem_cons_self]
    exact foldlM_eq_foldl l _ fun b a ha => hg b a (List.mem_cons_of_mem _ ha)

/-- The extensions as sent, read in turn. -/
theorem foldlM_extensions (hsni : (utf8Bytes h.sni).length + 3 < 2 ^ 16) :
    (h.extensions sha256).foldlM (fun acc e => onExtension acc e.1 e.2) {} =
      .ok ((h.shuffled sha256).foldl h.carried {}) := by
  obtain ⟨hg1, hg2, -⟩ := deriveGrease_ext h.entropy
  have hmiddle : (h.shuffled sha256).foldlM
      (fun acc t => onExtension acc t (buildExtension sha256 h t)) {} =
      .ok ((h.shuffled sha256).foldl h.carried {}) :=
    foldlM_eq_foldl _ _ fun acc t _ => onExtension_buildExtension hsni acc t
  unfold HelloParams.extensions
  rw [List.cons_append, List.foldlM_cons, onExtension_grease hg1]
  show List.foldlM _ ({} : Found) _ = _
  rw [List.foldlM_append, List.foldlM_map, hmiddle]
  show onExtension _ _ _ >>= _ = _
  rw [onExtension_grease hg2]
  rfl

/-- A profile whose hellos carry what is read from them: a name and key shares, and a list of
suites that fits its length field. -/
structure Profile.Carries (p : Profile) : Prop where
  serverName : 0x0000 ∈ p.extensions
  keyShare : 0x0033 ∈ p.extensions
  suites : 2 * p.cipherSuites.length < 2 ^ 16

theorem Profile.carries_yandex : Profile.yandex.Carries where
  serverName := by decide
  keyShare := by decide
  suites := by decide

theorem length_u16List (items : List UInt16) : (u16List items).length = 2 * items.length := by
  induction items with
  | nil => rfl
  | cons x items ih =>
    rw [u16List, List.flatMap_cons, List.length_append, length_beEncode, List.length_cons]
    unfold u16List at ih
    omega

theorem mem_shuffled {t : UInt16} (ht : t ∈ h.profile.extensions) (hgrease : isGrease t = false) :
    t ∈ h.shuffled sha256 := by
  rw [shuffled_perm.mem_iff, HelloParams.middle, List.mem_filter, hgrease]
  exact ⟨ht, rfl⟩

/-- **A built hello is read back**, whatever its session id, if the extensions fit their block. -/
theorem extract_withSessionId {sid : Bytes} (hp : h.profile.Carries) (hsid : sid.length < 2 ^ 8)
    (hfits : (h.extBytes sha256).length < 2 ^ 16) :
    extractClientHelloFields (h.withSessionId sha256 sid) = .ok
      { random := h.random
        sessionId := sid
        keyShareX25519 := some h.x25519Pub
        keyShareMlkem := some ⟨h.mlkemEk.1, h.x25519Pub⟩
        sni := some h.sni } := by
  have hname : 0x0000 ∈ h.shuffled sha256 := mem_shuffled hp.serverName (by decide)
  have hshare : 0x0033 ∈ h.shuffled sha256 := mem_shuffled hp.keyShare (by decide)
  -- An entry is no longer than the block it stands in.
  have hentry : ∀ e ∈ h.extensions sha256, 4 + e.2.length < 2 ^ 16 := by
    intro e he
    have hle : (encodeEntry e).length ≤ (h.extBytes sha256).length := by
      rw [HelloParams.extBytes, List.flatMap_def]
      exact (List.sublist_flatten_of_mem (List.mem_map_of_mem he)).length_le
    rw [length_encodeEntry] at hle
    exact Nat.lt_of_le_of_lt hle hfits
  have hsni : (utf8Bytes h.sni).length + 3 < 2 ^ 16 := by
    have hmem : (0x0000, buildExtension sha256 h 0x0000) ∈ h.extensions sha256 := by
      simp only [HelloParams.extensions, List.cons_append, List.mem_cons, List.mem_append,
        List.mem_map]
      exact .inr (.inl ⟨_, hname, rfl⟩)
    have hlt := hentry _ hmem
    have hbody : (buildExtension sha256 h 0x0000).length = 5 + (utf8Bytes h.sni).length :=
      length_serverNameBody _
    rw [hbody] at hlt
    omega
  have hcs : h.csBytes.length < 2 ^ 16 := by
    rw [HelloParams.csBytes, length_u16List, List.length_map]
    exact hp.suites
  have hread : extractClientHelloFields (h.withSessionId sha256 sid) = .ok _ :=
    extract_encodeHello hsid hcs (by decide)
      (fun e he => Nat.lt_of_le_of_lt (Nat.le_add_left _ _) (hentry e he)) hfits
      (foldlM_extensions hsni)
  rw [foldl_carried, if_pos hname, if_pos hshare, if_pos hshare] at hread
  exact hread

/-- A block of 65536 bytes has the length zero in its field, and nothing in it is found. -/
theorem extract_withSessionId_of_wrapped {sid : Bytes} (hp : h.profile.Carries)
    (hsid : sid.length < 2 ^ 8) (hlen : (h.extBytes sha256).length = 2 ^ 16) :
    extractClientHelloFields (h.withSessionId sha256 sid) =
      .ok ⟨h.random, sid, none, none, none⟩ := by
  have hcs : h.csBytes.length < 2 ^ 16 := by
    rw [HelloParams.csBytes, length_u16List, List.length_map]
    exact hp.suites
  have hfield : beEncode 2 (2 ^ 16) = beEncode 2 0 := by decide
  rw [HelloParams.withSessionId, hlen, hfield]
  exact extract_encodeHello_of_found hsid hcs (by decide) fun _ => readFound_zero

/-- **Where a session id of 32 bytes stands in a hello**; nothing else depends on it. -/
theorem withSessionId_split (sha256 : HashSuite 32) (h : HelloParams) : ∃ pre post,
    pre.length = 38 ∧ ∀ sid : Bytes, sid.length = 32 →
      h.withSessionId sha256 sid = pre ++ ([32] ++ (sid ++ post)) := by
  let post := beEncode 2 h.csBytes.length ++ (h.csBytes ++ ([1] ++ ([0x00] ++
    (beEncode 2 (h.extBytes sha256).length ++ h.extBytes sha256))))
  refine ⟨[0x01] ++ (beEncode 3 (67 + post.length) ++ ([0x03, 0x03] ++ h.random.1)), post, ?_, ?_⟩
  · simp [h.random.2]
  · intro sid hsid
    have hbody : helloBody h.random sid h.csBytes [0x00]
        (beEncode 2 (h.extBytes sha256).length ++ h.extBytes sha256) =
          [0x03, 0x03] ++ (h.random.1 ++ ([32] ++ (sid ++ post))) := by
      rw [helloBody, hsid]
      rfl
    have hlen : ([0x03, 0x03] ++ (h.random.1 ++ ([32] ++ (sid ++ post)))).length =
        67 + post.length := by
      simp only [List.length_append, h.random.2, hsid, List.length_cons, List.length_nil]
      omega
    rw [HelloParams.withSessionId, encodeHello, hbody, hlen]
    simp only [List.append_assoc]

/-- The length of the extensions block does not depend on the order. -/
theorem length_extBytes : (h.extBytes sha256).length =
    9 + (h.middle.flatMap fun t => encodeEntry (t, buildExtension sha256 h t)).length := by
  have hperm : (h.shuffled sha256).Perm h.middle := shuffled_perm
  rw [← (hperm.flatMap_right _).length_eq]
  simp only [HelloParams.extBytes, HelloParams.extensions, List.cons_append, List.flatMap_cons,
    List.flatMap_append, List.flatMap_map, List.flatMap_nil, List.length_append,
    length_encodeEntry, List.length_cons, List.length_nil]
  omega

theorem length_keyShareBody {x25519Pub : Block 32} {mlkemEk : Block 1184} {grease : Grease} :
    (keyShareBody x25519Pub mlkemEk grease).length = 1263 := by
  simp only [keyShareBody, keyShares, List.flatMap_cons, List.flatMap_nil, List.length_append,
    length_beEncode, length_encodeEntry, mlkemEk.2, x25519Pub.2, List.length_cons, List.length_nil]

theorem length_listU16WithU16len (items : List UInt16) :
    (listU16WithU16len items).length = 2 + 2 * items.length := by
  rw [listU16WithU16len, List.length_append, length_beEncode, length_u16List]

/-- Everything but the name and the fake encrypted hello has a fixed length. -/
theorem length_extBytes_yandex (hp : h.profile = .yandex) : (h.extBytes sha256).length =
    1410 + (greaseEchOuter sha256 h.entropy).length + (utf8Bytes h.sni).length := by
  have hmiddle : h.middle = [51, 27, 65281, 18, 45, 0, 35, 5, 11, 43, 16, 65037, 23, 17613, 13,
      10] := by
    rw [HelloParams.middle, hp]
    decide
  have h51 : (buildExtension sha256 h 51).length = 1263 := length_keyShareBody
  have h0 : (buildExtension sha256 h 0).length = 5 + (utf8Bytes h.sni).length :=
    length_serverNameBody _
  have h11 : (buildExtension sha256 h 11).length = 2 := by
    show (_ :: h.profile.ecPointFormats).length = 2
    rw [hp]
    rfl
  have h43 : (buildExtension sha256 h 43).length = 7 := by
    show (_ :: u16List _).length = 7
    rw [List.length_cons, length_u16List, List.length_map, hp]
    rfl
  have h16 : (buildExtension sha256 h 16).length = 14 := by
    show (alpnBody h.profile.alpn).length = 14
    rw [hp]
    decide
  have h13 : (buildExtension sha256 h 13).length = 18 := by
    show (listU16WithU16len h.profile.sigAlgs).length = 18
    rw [length_listU16WithU16len, hp]
    rfl
  have h10 : (buildExtension sha256 h 10).length = 12 := by
    show (listU16WithU16len _).length = 12
    rw [length_listU16WithU16len, List.length_map, hp]
    rfl
  have hech : buildExtension sha256 h 65037 = greaseEchOuter sha256 h.entropy := rfl
  have h27 : (buildExtension sha256 h 27).length = 3 := rfl
  have h65281 : (buildExtension sha256 h 65281).length = 1 := rfl
  have h18 : (buildExtension sha256 h 18).length = 0 := rfl
  have h45 : (buildExtension sha256 h 45).length = 2 := rfl
  have h35 : (buildExtension sha256 h 35).length = 0 := rfl
  have h5 : (buildExtension sha256 h 5).length = 5 := rfl
  have h23 : (buildExtension sha256 h 23).length = 0 := rfl
  have h17613 : (buildExtension sha256 h 17613).length = 5 := rfl
  rw [length_extBytes, hmiddle]
  -- The bodies must stay closed, or each length is compared with each body.
  generalize buildExtension sha256 h = body at *
  simp only [List.flatMap_cons, List.flatMap_nil, List.length_append, length_encodeEntry,
    List.length_nil, h51, h27, h65281, h18, h45, h0, h35, h5, h11, h43, h16, hech, h23, h17613,
    h13, h10]
  generalize (greaseEchOuter sha256 h.entropy).length = m
  generalize (utf8Bytes h.sni).length = n
  clear * -
  omega

/-- The extensions of a shipped profile fit their block if the name is short. -/
theorem length_extBytes_yandex_lt (hp : h.profile = .yandex)
    (hsni : (utf8Bytes h.sni).length ≤ 63000) : (h.extBytes sha256).length < 2 ^ 16 := by
  have hech : (greaseEchOuter sha256 h.entropy).length ≤ 250 := length_greaseEchOuter_le
  rw [length_extBytes_yandex hp]
  omega

end Leshiy.Tls
