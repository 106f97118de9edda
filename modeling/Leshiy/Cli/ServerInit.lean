import Leshiy.Cli.ServerConfig
import Leshiy.Lib.Calls
import Leshiy.Reality.SqliteStore

/-!
# The first start of a server

`init`, `boot` and `run` of `leshiy/src/server.rs`, up to the listener: the identity of a server is drawn and
written once, and read at every start. Files are known by their place on the disk; a call may fail at any
time, and a write that fails may have written a part. What the two commands print besides the link is left out.
-/

namespace Leshiy.Cli

open Leshiy.Lib Leshiy.Reality Str NetAddr

/-! ## The disk -/

inductive Content where
  | bytes (b : List UInt8)
  | users (t : Table)

inductive Call where
  | exists (path : String)
  | openDb (path : String)
  | upsert (path : String) (user : User)
  | flush (path : String) (snapshot : List UserStatus)
  | read (path : String)
  | write (path : String) (data : List UInt8)
  | createNew (path : String) (data : List UInt8)
  | lookupHost (addr : String)
  | connectExit (addr sni : String) (shortId : ShortId) (pin : Option (Block 32))
  | bind (listen : String)
  | warn (text : String)

inductive Answer where
  | done
  | bytes (b : List UInt8)
  | table (t : Table)
  | addrs (l : List String)
  /-- How much was done before, if anything was begun. -/
  | failed (kept : Option Nat)

/-- What is there, and what was warned of. -/
structure Host (P : Type) where
  disk : P → Option Content
  warnings : List String

namespace Host

variable {P : Type} [DecidableEq P] (place : String → P) (h : Host P)

def put (p : P) (c : Content) : Host P := { h with disk := Function.update h.disk p (some c) }

/-- The database at a path. An empty file is an empty database. -/
def usersAt (path : String) : Option Table :=
  match h.disk (place path) with
  | none | some (.bytes []) => some ∅
  | some (.bytes _) => none
  | some (.users t) => some t

def holdsUsers (path : String) (t : Table) : Bool :=
  (h.usersAt place path).any fun t' => decide (t'.entries = t.entries)

def usage (t : Table) (snapshot : List UserStatus) : Table :=
  snapshot.foldl (fun t st => t.setUsage st.user.shortId st.usedUp st.usedDown) t

/-- What a call leaves behind an answer; `none` where it cannot be answered so. -/
def after : Call → Answer → Option (Host P)
  | .exists path, .done => if (h.disk (place path)).isSome then some h else none
  | .exists _, .failed _ => some h
  | .openDb path, .table t =>
    if h.holdsUsers place path t then some (h.put (place path) (.users t)) else none
  | .openDb _, .failed none => some h
  | .openDb path, .failed (some _) => (h.usersAt place path).map fun t => h.put (place path) (.users t)
  | .upsert path user, .done =>
    (h.usersAt place path).map fun t => h.put (place path) (.users (t.persistDef user))
  | .upsert _ _, .failed _ => some h
  | .flush path snapshot, .done =>
    (h.usersAt place path).map fun t => h.put (place path) (.users (usage t snapshot))
  | .flush path snapshot, .failed kept =>
    (h.usersAt place path).map fun t => h.put (place path) (.users (usage t (snapshot.take (kept.getD 0))))
  | .read path, .bytes b =>
    match h.disk (place path) with
    | some (.bytes b') => if b = b' then some h else none
    | _ => none
  | .read _, .failed _ => some h
  | .write path data, .done => some (h.put (place path) (.bytes data))
  | .write path data, .failed kept =>
    match kept with
    | none => some h
    | some n => some (h.put (place path) (.bytes (data.take n)))
  | .createNew path data, .done =>
    if (h.disk (place path)).isNone then some (h.put (place path) (.bytes data)) else none
  | .createNew path data, .failed kept =>
    match kept with
    | none => some h
    | some n => if (h.disk (place path)).isNone then some (h.put (place path) (.bytes (data.take n))) else none
  | .lookupHost _, .addrs _ | .lookupHost _, .failed _ => some h
  | .connectExit .., .done | .connectExit .., .failed _ | .bind _, .done | .bind _, .failed _ => some h
  | .warn text, .done => some { h with warnings := h.warnings ++ [text] }
  | _, _ => none

end Host

abbrev Command := ExceptT String (Prog Call Answer)

def ask (c : Call) : Command Answer := ExceptT.lift (Prog.ask c)

/-- A call that must succeed. -/
def must (c : Call) (text : String) : Command Unit := do
  match ← ask c with
  | .failed _ => throw text
  | _ => return ()

def readFile (path text : String) : Command (List UInt8) := do
  match ← ask (.read path) with
  | .bytes b => return b
  | _ => throw text

/-- A file that is there already is left alone. -/
def writeSecretFile (path : String) (data : List UInt8) : Command Unit := do
  match ← ask (.createNew path data) with
  | .failed none => throw ("create " ++ path ++ " (refusing to overwrite)")
  | .failed (some _) => throw ("write " ++ path)
  | _ => return ()

/-- `SqliteUserStore::open`. -/
def openStore (path text : String) : Command SqliteUserStore := do
  match ← ask (.openDb path) with
  | .table t => return .open t
  | _ => throw text

def writeThroughFailed : String := "sqlite write-through (upsert) failed"

/-- The write-through of `upsert`: its failure is no failure of the call. -/
def upsertUser (path : String) (store : SqliteUserStore) (user : User) : Command SqliteUserStore := do
  match ← ask (.upsert path user) with
  | .failed _ =>
    let _ ← ask (.warn writeThroughFailed)
    return { store with mem := store.mem.upsert user }
  | _ => return store.upsert user

/-! ## What the commands rest on -/

/-- A certificate of one's own with its key, as PEM, and its DER form. -/
structure SelfSigned where
  certPem : List UInt8
  keyPem : List UInt8
  der : List UInt8

/-- The formats of other packages. -/
structure Formats where
  /-- `toml::to_string_pretty`. -/
  toToml : RealityServerConfig → Option (List UInt8)
  /-- The text of a file, read by `toml::from_str`. -/
  fromToml : List UInt8 → Option RealityServerConfig
  /-- The items of `CertificateDer::pem_slice_iter`: certificates or errors. -/
  pemCerts : List UInt8 → List (Option (List UInt8))
  /-- Whether `PrivateKeyDer::from_pem_slice` finds a key. -/
  pemKey : List UInt8 → Bool
  /-- `cert_sha256`. -/
  certSha256 : List UInt8 → Block 32

structure InitOptions where
  host : String
  dest : String
  listen : Option String
  out : String
  quicListen : Option String
  quicDomain : Option String
  quicCert : Option String
  quicKey : Option String
  connector : Option String
  mtproxy : Bool

/-- What is drawn at random. -/
structure Draw where
  secret : Block 32
  shortId : ShortId
  mtproxySecret : Block 16
  /-- `generate_simple_self_signed` for a domain. -/
  selfSigned : String → Option SelfSigned

structure InitOutput where
  configPath : String
  uri : String
  listen : String
  quicListen : Option String
  mtproxyLink : Option String

section

variable (fmt : Formats) (x25519 : KeyAgreement (Block 32) (Block 32) (Block 32))

/-! ## `init` -/

/-- The first user has no limits. -/
def firstUser (shortId : ShortId) : User := ⟨shortId, true, none, none, none, none⟩

/-- The database beside the config, with the first user in it. -/
def provisionUser (dbPath : String) (user : User) : Command Unit := do
  let store ← openStore dbPath ("create user DB at " ++ dbPath)
  let store ← upsertUser dbPath store user
  must (.flush dbPath store.snapshot) ("flush user DB at " ++ dbPath)

/-- The link of an exit node must have a QUIC endpoint. -/
def checkConnector : Option String → Except String Unit
  | none => .ok ()
  | some uri =>
    match RealityUri.parse uri with
    | .error _ => .error "connector uri"
    | .ok u => if u.quic.isNone then .error "--connector uri has no quic= endpoint" else .ok ()

/-- The fingerprint of the certificate: of the operator's, or of one that is written beside the config. -/
def quicFingerprint (o : InitOptions) (d : Draw) (domain : String) : Command (Block 32) :=
  match o.quicCert, o.quicKey with
  | some cp, some _ => do
    let pem ← readFile cp ("read quic cert " ++ cp)
    match fmt.pemCerts pem with
    | [] => throw ("no cert in " ++ cp)
    | none :: _ => throw ("parse cert " ++ cp)
    | some der :: _ => return fmt.certSha256 der
  | _, _ => do
    let c ← liftM (orFail (d.selfSigned domain) "generate self-signed QUIC cert")
    let certPath := beside o.out "leshiy-quic.crt"
    let keyPath := beside o.out "leshiy-quic.key"
    must (.write certPath c.certPem) ("write quic cert " ++ certPath)
    writeSecretFile keyPath c.keyPem
    return fmt.certSha256 c.der

/-- The endpoint that is put in the link. (The source takes the fingerprint through its digits.) -/
def quicProvision (o : InitOptions) (d : Draw) (sni : String) : Command (Option QuicEndpoint) :=
  match o.quicListen with
  | none => return none
  | some ql =>
    if o.quicCert.isSome != o.quicKey.isSome then
      throw "--quic-cert and --quic-key must be provided together"
    else do
      let domain := o.quicDomain.getD sni
      let fingerprint ← quicFingerprint fmt o d domain
      return some ⟨advertisedQuicAddr o.host ql, domain, some fingerprint⟩

/-- The name of the borrowed site. -/
def sniOf (o : InitOptions) : String := hostPart (ensureDestPort o.dest)

def serverConfig (o : InitOptions) (d : Draw) (quic : Option QuicEndpoint) : RealityServerConfig where
  listen := o.listen.getD (defaultListen o.host)
  dest := ensureDestPort o.dest
  serverNames := [sniOf o]
  destBySni := []
  staticPrivateKeyB64 := base64UrlEncode d.secret.1
  shortIds := []
  maxTimeDiffSecs := 120
  host := o.host
  controlSocket := none
  userDb := some (beside o.out "leshiy-users.db")
  quicListen := o.quicListen
  quicCertPath := quic.bind fun _ => o.quicCert <|> some (beside o.out "leshiy-quic.crt")
  quicKeyPath := quic.bind fun _ => o.quicKey <|> some (beside o.out "leshiy-quic.key")
  quicDomain := quic.map fun q => q.sni
  quicCertSha256 := quic.bind fun q => q.certSha256.map fun c => hexEncode c.1
  connector := o.connector
  allowPrivateEgress := false
  masqueradeOrigin := none
  mtproxySecret := if o.mtproxy then some (MtProxySecret.toHex d.mtproxySecret) else none

/-- The link of the first user. -/
def firstUri (o : InitOptions) (d : Draw) (quic : Option QuicEndpoint) : String :=
  formatRealityUriFull (x25519.pub d.secret) o.host (sniOf o) d.shortId quic

def init (o : InitOptions) (d : Draw) : Command InitOutput := do
  provisionUser (beside o.out "leshiy-users.db") (firstUser d.shortId)
  liftM (checkConnector o.connector)
  let quic ← quicProvision fmt o d (sniOf o)
  let cfg := serverConfig o d quic
  let text ← liftM (orFail (fmt.toToml cfg) "toml")
  writeSecretFile o.out text
  return { configPath := o.out
           uri := firstUri x25519 o d quic
           listen := cfg.listen
           quicListen := cfg.quicListen
           mtproxyLink := if o.mtproxy then some (tgLink o.host d.mtproxySecret (sniOf o)) else none }

/-! ## `run` and `boot` -/

/-- What is started: the settings of the listener, the users, what links are made of, and the chain of
certificates that QUIC clients are shown. -/
structure Serving where
  auth : ServerAuthConfig
  users : InMemoryUserStore
  issuer : UriIssuer
  chain : Option (List (List UInt8))
  allowPrivateEgress : Bool

def openUsers (cfg : RealityServerConfig) (shortIds : List ShortId) : Command InMemoryUserStore :=
  match cfg.userDb with
  | some dbPath => do
    let store ← openStore dbPath ("open user DB at " ++ dbPath)
    return store.mem
  | none => return shortIds.foldl (fun s id => s.upsert (firstUser id)) .empty

/-- One address after the other until the exit is reached. -/
def connectAny (q : QuicEndpoint) (shortId : ShortId) : List String → Command Unit
  | [] => throw "connect to exit"
  | addr :: rest => do
    match ← ask (.connectExit addr q.sni shortId q.certSha256) with
    | .failed _ => connectAny q shortId rest
    | _ => return ()

def connectExit : Option String → Command Unit
  | none => return ()
  | some uri =>
    match RealityUri.parse uri with
    | .error _ => throw "connector uri"
    | .ok u =>
      match u.quic with
      | none => throw "connector uri has no quic= endpoint"
      | some q => do
        match ← ask (.lookupHost q.addr) with
        | .addrs [] => throw ("resolve connector addr " ++ q.addr)
        | .addrs addrs => connectAny q u.client.shortId addrs
        | _ => throw ("lookup " ++ q.addr)

/-- The endpoint that issued links get: its pin is the one of the certificate that is served. -/
def startQuic (cfg : RealityServerConfig) : Command (Option (QuicEndpoint × List (List UInt8))) :=
  match cfg.quicListen with
  | none => return none
  | some ql =>
    if !isSocketAddr ql.toList then throw ("quic_listen addr: " ++ ql)
    else
      match cfg.quicCertPath, cfg.quicKeyPath with
      | none, _ => throw "quic_listen set but quic_cert_path missing"
      | some _, none => throw "quic_listen set but quic_key_path missing"
      | some certPath, some keyPath => do
        let certPem ← readFile certPath ("read quic cert " ++ certPath)
        let certs ← liftM (orFail ((fmt.pemCerts certPem).mapM id) ("parse quic cert PEM " ++ certPath))
        let keyPem ← readFile keyPath ("read quic key " ++ keyPath)
        if !fmt.pemKey keyPem then throw ("parse quic key PEM " ++ keyPath)
        else
          match certs with
          | [] => throw "panic"
          | der :: rest =>
            let pin := fmt.certSha256 der
            let differs := cfg.quicCertSha256.any fun digits =>
              decide ((hexDecode digits).bind (Block.tryFrom 32) ≠ some pin)
            if differs then
              let _ ← ask (.warn "config quic_cert_sha256 does not match the loaded cert")
            return some (⟨advertisedQuicAddr cfg.host ql, cfg.quicDomain.getD "cdn.example.com", some pin⟩,
              der :: rest)

def run (config : String) : Command Serving := do
  let text ← readFile config ("read " ++ config)
  let cfg ← liftM (orFail (fmt.fromToml text) "parse config")
  let (auth, shortIds) ← liftM cfg.toAuthConfig
  let users ← openUsers cfg shortIds
  connectExit cfg.connector
  let quic ← startQuic fmt cfg
  must (.bind cfg.listen) ("bind " ++ cfg.listen)
  return { auth, users
           issuer := ⟨x25519.pub auth.staticSecret, cfg.host, quic.map Prod.fst, cfg.serverNames.head?⟩
           chain := quic.map Prod.snd
           allowPrivateEgress := cfg.allowPrivateEgress }

/-- What the environment of a container says. -/
structure BootConfig where
  host : String
  dest : String
  listen : String
  quicListen : Option String
  quicDomain : Option String
  config : String
  connector : Option String
  mtproxy : Bool

def resolveBootConfig (get : String → Option String) : Except String BootConfig := do
  let host ← orFail (get "LESHIY_HOST") "LESHIY_HOST is required"
  let dest ← orFail (get "LESHIY_DEST") "LESHIY_DEST is required"
  return { host, dest
           listen := (get "LESHIY_LISTEN").getD "0.0.0.0:443"
           quicListen := get "LESHIY_QUIC_LISTEN"
           quicDomain := get "LESHIY_QUIC_DOMAIN"
           config := (get "LESHIY_CONFIG").getD "/etc/leshiy/server.toml"
           connector := get "LESHIY_CONNECTOR"
           mtproxy := (get "LESHIY_MTPROXY").any fun v =>
             let t := trim v.toList
             t = "1".toList || t = "true".toList || t = "yes".toList }

def BootConfig.options (c : BootConfig) : InitOptions :=
  ⟨c.host, c.dest, some c.listen, c.config, c.quicListen, c.quicDomain, none, none, c.connector, c.mtproxy⟩

/-- The entrypoint of a container: a config on the first boot only. -/
def boot (get : String → Option String) (d : Draw) : Command Serving := do
  let c ← liftM (resolveBootConfig get)
  match ← ask (.exists c.config) with
  | .done => run fmt x25519 c.config
  | _ =>
    let _ ← init fmt x25519 c.options d
    run fmt x25519 c.config

end

end Leshiy.Cli
