import Leshiy.Cli.ServerFiles

/-!
# The link that `init` prints

The link lets its holder in, not only at once: whatever commands are run after it, the server that is started
from the config knows the holder and issues the same link.
-/

namespace Leshiy.Cli

open Leshiy.Lib Leshiy.Tls Leshiy.Reality Str Host

/-! ## The config that is written -/

section

variable {o : InitOptions} {d : Draw} {quic : Option QuicEndpoint}

/-- The settings of the listener that is started from the config. -/
def authOf (o : InitOptions) (d : Draw) : ServerAuthConfig where
  staticSecret := d.secret
  serverNames := {sniOf o}
  maxTimeDiff := ⟨120, 0⟩
  dest := ensureDestPort o.dest
  destBySni := fun _ => none
  mtproxy := if o.mtproxy then some d.mtproxySecret else none

theorem toAuthConfig_serverConfig : (serverConfig o d quic).toAuthConfig = .ok (authOf o d, []) := by
  unfold RealityServerConfig.toAuthConfig serverConfig authOf
  dsimp only
  rw [base64UrlDecode_encode]
  cases o.mtproxy with
  | false =>
    simp only [orFail, bind, Except.bind, Block.tryFrom_val]
    rfl
  | true =>
    simp only [orFail, bind, Except.bind, Block.tryFrom_val, if_true, fromHex_toHex]
    rfl

end

/-! ## What is kept -/

section

variable {P : Type} [DecidableEq P] {place : String → P} {h h₁ h₂ h₃ : Host P} {fmt : Formats}
  {x25519 : KeyAgreement (Block 32) (Block 32) (Block 32)} {o : InitOptions} {d : Draw} {p : P}
  {log : List (Taken (Host P) (Cmd × List Answer) Unit)}

/-- No certificate of one's own is written there. -/
def Spared (place : String → P) (log : List (Taken (Host P) (Cmd × List Answer) Unit)) (p : P) : Prop :=
  ∀ t ∈ log, ¬t.act.1.Certifies place p

theorem change_of_spared (hr : Exec (Cmd.step place fmt x25519) h log h₁) (hp : Spared place log p) :
    Change (fun k => ∃ t ∈ log, t.act.1.Draws k) False (h.disk p) (h₁.disk p) :=
  (within_run hr p).mono (fun _ hk => hk) fun ⟨t, ht, hc⟩ => hp t ht hc

theorem bytes_of_spared {b : List UInt8} (hr : Exec (Cmd.step place fmt x25519) h log h₁)
    (hp : Spared place log p) (hb : b ≠ []) (hd : h.disk p = some (.bytes b)) :
    h₁.disk p = some (.bytes b) := by
  have hc := change_of_spared hr hp
  rw [hd] at hc
  exact hc.bytes hb

theorem users_of_spared {t : Table} (hr : Exec (Cmd.step place fmt x25519) h log h₁)
    (hp : Spared place log p) (hd : h.disk p = some (.users t)) :
    ∃ t', h₁.disk p = some (.users t') ∧ ∀ k, (¬∃ t ∈ log, t.act.1.Draws k) → t'.find k = t.find k := by
  have hc := change_of_spared hr hp
  rw [hd] at hc
  exact hc.database_of

/-- No part of the link has the character in it that ends it. -/
structure InitOptions.LinkSafe (o : InitOptions) : Prop where
  host : '?' ∉ o.host.toList
  sni : '&' ∉ (sniOf o).toList
  quic : ∀ ql ∈ o.quicListen, '&' ∉ (advertisedQuicAddr o.host ql).toList ∧
    '&' ∉ (o.quicDomain.getD (sniOf o)).toList

/-- What is documented of the format of the config. -/
structure Formats.Lawful (fmt : Formats) : Prop where
  roundTrip : ∀ cfg text, fmt.toToml cfg = some text → fmt.fromToml text = some cfg
  /-- There are keys that must be there. -/
  required : fmt.fromToml [] = none

theorem parse_link {pk : Block 32} {shortId : ShortId} {addr sni : String} {quic : Option QuicEndpoint}
    (haddr : '?' ∉ addr.toList) (hsni : '&' ∉ sni.toList)
    (hquic : ∀ q ∈ quic, '&' ∉ q.addr.toList ∧ '&' ∉ q.sni.toList) :
    RealityUri.parse (formatRealityUriFull pk addr sni shortId quic) = .ok ⟨addr, ⟨pk, shortId, sni⟩, quic⟩ :=
  RealityUri.parse_format (u := ⟨addr, ⟨pk, shortId, sni⟩, quic⟩) ⟨haddr, hsni, hquic⟩

omit [DecidableEq P] in
theorem parse_firstUri {quic : Option QuicEndpoint} (hsafe : o.LinkSafe) (hquic : QuicOf fmt p o h quic) :
    RealityUri.parse (firstUri x25519 o d quic) =
      .ok ⟨o.host, ⟨x25519.pub d.secret, d.shortId, sniOf o⟩, quic⟩ := by
  have hparts : ∀ q ∈ quic, '&' ∉ q.addr.toList ∧ '&' ∉ q.sni.toList := by
    intro q hq
    obtain rfl : quic = some q := hq
    unfold QuicOf at hquic
    split at hquic
    next => cases hquic
    next ql hql =>
      obtain ⟨f, heq, -⟩ := hquic
      cases heq
      exact hsafe.quic ql hql
  unfold firstUri
  exact parse_link hsafe.host hsafe.sni hparts

theorem issued_uri {issuer : UriIssuer} {quic : Option QuicEndpoint}
    (hpub : issuer.serverPublic = x25519.pub d.secret) (hhost : issuer.host = o.host)
    (hquic : issuer.quic = quic) (hsni : issuer.defaultSni = some (sniOf o)) :
    (issue issuer none d.shortId).uri = some (firstUri x25519 o d quic) := by
  have hname : ∀ s : String, ((none : Option String) <|> some s).getD "" = s := fun _ => rfl
  unfold issue firstUri
  dsimp only
  rw [hpub, hhost, hquic, hsni, hname]

omit [DecidableEq P] in
/-- The endpoint of issued links is the one of the printed link, if the certificate is the same. -/
theorem quic_eq_of_issues {quic quic' : Option QuicEndpoint}
    (hquic : QuicOf fmt (place (certPathOf o)) o h quic)
    (hsame : o.quicListen.isSome → h₁.disk (place (certPathOf o)) = h.disk (place (certPathOf o)))
    (hissues : IssuesQuic fmt place (serverConfig o d quic) h₁ quic') : quic' = quic := by
  unfold QuicOf at hquic
  unfold IssuesQuic at hissues
  cases hql : o.quicListen with
  | none =>
    have hnone : (serverConfig o d quic).quicListen = none := hql
    rw [hql] at hquic
    rw [hnone] at hissues
    exact hissues.trans hquic.symm
  | some ql =>
    have hsome : (serverConfig o d quic).quicListen = some ql := hql
    rw [hql] at hquic hsame
    rw [hsome] at hissues
    obtain ⟨f, rfl, b, der, rest, hd, hpem, rfl⟩ := hquic
    obtain ⟨certPath, f', hpath, ⟨b', der', rest', hd', hpem', rfl⟩, rfl⟩ := hissues
    have hcert : certPath = certPathOf o := by
      have hget : (o.quicCert <|> some (ownCertPath o)) = some (certPathOf o) := by
        unfold certPathOf
        cases o.quicCert <;> rfl
      exact (Option.some.inj (hget.symm.trans hpath)).symm
    subst hcert
    rw [hsame rfl, hd] at hd'
    cases hd'
    rw [hpem] at hpem'
    cases hpem'
    rfl

/-- The first user is allowed for as long as the row of the user stands. -/
theorem stillAllowed_of_row {t : Table} {up down : Int64} (now : UInt64)
    (hrow : t.find d.shortId = some (rowOf (firstUser d.shortId) up down)) :
    (load t).stillAllowed d.shortId now := by
  unfold InMemoryUserStore.stillAllowed
  rw [find_load, hrow]
  rfl

theorem not_stillAllowed_of_none {t : Table} (now : UInt64) (hrow : t.find d.shortId = none) :
    ¬(load t).stillAllowed d.shortId now := by
  unfold InMemoryUserStore.stillAllowed
  rw [find_load, hrow]
  exact Bool.false_ne_true

/-- The first user in the database that a later start reads. -/
theorem stillAllowed_iff {users : InMemoryUserStore} {quic : Option QuicEndpoint}
    (henrolled : Enrolled place (usersPath o) (firstUser d.shortId) h h₁)
    (hnew : ∀ t, h.usersAt place (usersPath o) = some t → t.find d.shortId = none)
    (hrun : Exec (Cmd.step place fmt x25519) h₁ log h₂) (husers : Spared place log (place (usersPath o)))
    (hfresh : ¬∃ t ∈ log, t.act.1.Draws d.shortId)
    (hserves : ServesUsers place (serverConfig o d quic) h₂ users) (now : UInt64) :
    users.stillAllowed d.shortId now ↔ h₁.warnings = h.warnings := by
  obtain ⟨t₀, t, ht₀, hd, hrow⟩ := henrolled
  obtain ⟨t', hd', hfind⟩ := users_of_spared hrun husers hd
  obtain ⟨t'', ht'', rfl⟩ := hserves (usersPath o) rfl
  obtain rfl := Option.some.inj ((usersAt_of_disk hd').symm.trans ht'')
  rcases hrow with ⟨hwarn, hrow⟩ | ⟨hwarn, hrow⟩
  · have hfound : t'.find d.shortId = some (rowOf (firstUser d.shortId) 0 0) := by
      rw [hfind _ hfresh, hrow, Table.find_persistDef, hnew t₀ ht₀]
      exact if_pos rfl
    exact iff_of_true (stillAllowed_of_row now hfound) hwarn
  · refine iff_of_false (not_stillAllowed_of_none now ?_) ?_
    · rw [hfind _ hfresh, hrow, hnew t₀ ht₀]
    · rw [hwarn]
      simp

variable {R DK : Type} {sha256 : HashSuite 32} {aes256Gcm : Aead (Block 32) (Block 12)}
  {mlkem : Kem R DK (Block 1184) (Block 1088) (Block 32)} {os os' : List Answer}
  {calls calls' : List (Call × Answer × Host P)} {out : InitOutput} {serving : Serving}

/-- A client with the key of the server and one of its names is accepted. -/
theorem client_accepted (hdh : x25519.Commutes) (haead : aes256Gcm.Correct 16 16) {pk : Block 32}
    {shortId : ShortId} {sni : String} {scfg : ServerAuthConfig} (hsni : (utf8Bytes sni).length ≤ 255)
    (hpub : pk = x25519.pub scfg.staticSecret) (hallowed : sni ∈ scfg.serverNames)
    {profile : Profile} (hprofile : profile = .yandex ∨ profile = .chrome) (draw : ClientDraw R)
    {now now' : UInt32} (hle : absDiff now' now ≤ scfg.maxTimeDiff.asSecs) :
    ∃ ch ephem dk authKey,
      buildAuthedClientHello sha256 aes256Gcm x25519 mlkem profile ⟨pk, shortId, sni⟩ now draw =
        some (ch, ephem, dk) ∧
      classifyFull sha256 aes256Gcm x25519 ch scfg now' = .authed shortId now authKey := by
  obtain ⟨sid, hbuild, hseal, -⟩ :=
    buildAuthedClientHello_eq sha256 x25519 mlkem haead profile ⟨pk, shortId, sni⟩ now draw
  exact ⟨_, _, _, _, hbuild, classifyFull_sent hdh haead hseal hprofile hsni hpub hallowed hle⟩

end

/-! ## A first start -/

def siteOptions : InitOptions :=
  ⟨"vps:443", "site", none, "server.toml", none, none, none, none, none, false⟩

def siteDraw : Draw := ⟨Block.fill 32 5, Block.fill 8 1, Block.fill 16 0, fun _ => none⟩

def siteToml : List UInt8 := utf8Bytes
  ("listen = \"0.0.0.0:443\"\ndest = \"site:443\"\nserver_names = [\"site\"]\n" ++
    "static_private_key_b64 = \"BQUFBQUFBQUFBQUFBQUFBQUFBQUFBQUFBQUFBQUFBQU\"\nshort_ids = []\n" ++
    "max_time_diff_secs = 120\nhost = \"vps:443\"\nuser_db = \"leshiy-users.db\"\n" ++
    "allow_private_egress = false\n\n[dest_by_sni]\n")

/-- The format, on the config of this start. -/
def siteFormats : Formats where
  toToml cfg := if cfg = serverConfig siteOptions siteDraw none then some siteToml else none
  fromToml text := if text = siteToml then some (serverConfig siteOptions siteDraw none) else none
  pemCerts _ := []
  pemKey _ := false
  certSha256 _ := Block.fill 32 0

def siteTable : Table := usage ((∅ : Table).persistDef (firstUser siteDraw.shortId))
  ((SqliteUserStore.open ∅).upsert (firstUser siteDraw.shortId)).snapshot

def emptyHost : Host String := ⟨fun _ => none, []⟩

theorem lawful_siteFormats : siteFormats.Lawful where
  roundTrip cfg text h := by
    simp only [siteFormats, Option.ite_none_right_eq_some, Option.some.injEq] at h ⊢
    obtain ⟨rfl, rfl⟩ := h
    exact ⟨rfl, rfl⟩
  required := by
    have hne : ¬([] : List UInt8) = siteToml := by decide +kernel
    simp only [siteFormats, hne, if_false]

end Leshiy.Cli
