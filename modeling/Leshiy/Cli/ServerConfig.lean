import Leshiy.Reality.Addr
import Leshiy.Reality.Uri

/-!
# The config of a server

`leshiy/src/reality_config.rs`, with what of it becomes the settings of the listener, and the functions of
`leshiy/src/server.rs` and `leshiy-reality/src/mtproxy/mod.rs` that make its fields.
-/

namespace Leshiy.Cli

open Leshiy.Lib Leshiy.Reality Str

/-! ## The secret of MTProxy clients -/

namespace MtProxySecret

def fromHex (s : String) : Except String (Block 16) :=
  match (hexDecode (String.ofList (trim s.toList))).bind (Block.tryFrom 16) with
  | some secret => .ok secret
  | none => .error "mtproxy secret must be 32 hex chars"

def toHex (secret : Block 16) : String := hexEncode secret.1

end MtProxySecret

/-- The host and the port of the link; brackets are taken off. -/
def tgLink (hostPort : String) (secret : Block 16) (sni : String) : String :=
  let (host, port) :=
    match rsplitOnce ':' hostPort.toList with
    | some (h, p) => if (parseUnsigned UInt16.size p).isSome then (h, p) else (hostPort.toList, "443".toList)
    | none => (hostPort.toList, "443".toList)
  let host := (host.dropWhile (· = '[')).rdropWhile (· = ']')
  "tg://proxy?server=" ++ String.ofList host ++ "&port=" ++ String.ofList port ++ "&secret=ee" ++
    MtProxySecret.toHex secret ++ hexEncode (utf8Bytes sni)

/-! ## The config -/

structure RealityServerConfig where
  listen : String
  dest : String
  serverNames : List String
  /-- The keys of a map: each name once. -/
  destBySni : List (String × String)
  staticPrivateKeyB64 : String
  shortIds : List String
  maxTimeDiffSecs : UInt64
  host : String
  controlSocket : Option String
  userDb : Option String
  quicListen : Option String
  quicCertPath : Option String
  quicKeyPath : Option String
  quicDomain : Option String
  quicCertSha256 : Option String
  connector : Option String
  allowPrivateEgress : Bool
  masqueradeOrigin : Option String
  mtproxySecret : Option String
  deriving DecidableEq

/-- A failure is the text of its outermost context. -/
def orFail {α : Type} (o : Option α) (text : String) : Except String α :=
  match o with
  | some a => .ok a
  | none => .error text

def shortIdOf (s : String) : Except String ShortId := do
  let v ← orFail (hexDecode s) ("bad short_id hex: " ++ s)
  orFail (Block.tryFrom 8 v) ("short_id must be 8 bytes: " ++ s)

/-- The settings of the listener, and the short ids of a server without a database. -/
def RealityServerConfig.toAuthConfig (c : RealityServerConfig) :
    Except String (ServerAuthConfig × List ShortId) := do
  let keyVec ← orFail (base64UrlDecode c.staticPrivateKeyB64) "bad static key b64"
  let key ← orFail (Block.tryFrom 32 keyVec) "static key must be 32 bytes"
  let shortIds ← c.shortIds.mapM shortIdOf
  let mtproxy ← match c.mtproxySecret with
    | none => .ok none
    | some s =>
      match MtProxySecret.fromHex s with
      | .ok secret => .ok (some secret)
      | .error _ => .error "bad mtproxy_secret"
  return ({ staticSecret := key
            serverNames := c.serverNames.toFinset
            maxTimeDiff := ⟨c.maxTimeDiffSecs.toNat, 0⟩
            dest := c.dest
            destBySni := fun sni => (c.destBySni.find? fun kv => kv.1 = sni).map Prod.snd
            mtproxy }, shortIds)

/-! ## Names and ports -/

def ensureDestPort (dest : String) : String := String.ofList (ensurePort dest.toList 443)

/-- What stands before the last colon. -/
def hostPart (hostPort : String) : String :=
  match rsplitOnce ':' hostPort.toList with
  | some (h, _) => String.ofList h
  | none => hostPort

/-- The public host with the port that is bound. -/
def advertisedQuicAddr (host bind : String) : String :=
  let port :=
    match rsplitOnce ':' bind.toList with
    | some (_, p) => String.ofList p
    | none => "443"
  hostPart host ++ ":" ++ port

/-- All interfaces, with the port of the public host. -/
def defaultListen (host : String) : String :=
  let port :=
    match rsplitOnce ':' host.toList with
    | some (_, p) => (parseUnsigned UInt16.size p).getD 443
    | none => 443
  "0.0.0.0:" ++ String.ofList (decimal port)

/-! ## Paths -/

/-- The end of a path, from behind: slashes there, and a `.` that is not all of the path, are passed over. -/
def trimEnd : Str → Str
  | '/' :: s => trimEnd s
  | '.' :: '/' :: s => trimEnd s
  | s => s

/-- `Path::parent`. -/
def parent (path : Str) : Option Str :=
  match trimEnd path.reverse with
  | [] => none
  | behind =>
    match behind.dropWhile (· ≠ '/') with
    | [] => some []
    | dir => if trimEnd dir = [] then some ['/'] else some (trimEnd dir).reverse

/-- `Path::join` with the name of a file. -/
def join (dir name : Str) : Str :=
  if dir = [] then name else if dir.getLast? = some '/' then dir ++ name else dir ++ '/' :: name

/-- A file in the directory of another one. -/
def beside (path name : String) : String :=
  String.ofList (join ((parent path.toList).getD ['.']) name.toList)

example : beside "server.toml" "leshiy-users.db" = "leshiy-users.db" ∧
    beside "/etc/leshiy//server.toml" "leshiy-users.db" = "/etc/leshiy/leshiy-users.db" ∧
    beside "/server.toml" "leshiy-users.db" = "/leshiy-users.db" := by decide +kernel

/-! ## Settings that are read back -/

theorem fromHex_toHex (secret : Block 16) :
    MtProxySecret.fromHex (MtProxySecret.toHex secret) = .ok secret := by
  have htrim : trim (MtProxySecret.toHex secret).toList = (MtProxySecret.toHex secret).toList := by
    have hdigit : ∀ c ∈ (MtProxySecret.toHex secret).toList, ¬ isWhite c := by
      intro c hc
      obtain ⟨n, hn, rfl⟩ := hexEncode_mem hc
      have hplain : ∀ n < 16, ¬ isWhite (hexDigit n) := by decide
      exact hplain n hn
    have hkeep := @trimMatches_append isWhite [] (MtProxySecret.toHex secret).toList []
      (by simp) (by simp) (fun c hc => hdigit c (List.mem_of_mem_head? hc))
      (fun c hc => hdigit c (List.mem_of_getLast? hc))
    rwa [List.nil_append, List.append_nil] at hkeep
  rw [MtProxySecret.fromHex, htrim, String.ofList_toList, MtProxySecret.toHex, hexDecode_hexEncode,
    Option.bind_some, Block.tryFrom_val]

end Leshiy.Cli
