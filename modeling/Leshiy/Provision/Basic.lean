import Leshiy.Lib.Str

/-!
# What provisioning works on

The types of `leshiy-provision`: where a server is reached, what is asked of it and what is kept of it.
-/

namespace Leshiy.Provision

open Leshiy.Lib

inductive SshSecret where
  | none
  | password (text : Str)
  | privateKey (pem : Str) (passphrase : Option Str)
  deriving DecidableEq

structure SshTarget where
  host : Str
  port : UInt16
  user : Str
  deriving DecidableEq

/-- The role of a node in a chain from an entry to an exit. -/
inductive ProvisionRole where
  | single
  | exit
  | middle
  | entry
  deriving DecidableEq

/-- Exit and middle nodes are connected to by others. -/
def ProvisionRole.exposesConnector : ProvisionRole → Bool
  | exit | middle => true
  | single | entry => false

structure ProvisionParams where
  id : Str
  label : Str
  target : SshTarget
  secret : SshSecret
  publicHost : Str
  destSni : Str
  imageRef : Str
  container : Str
  quicPort : Option UInt16
  listenPort : UInt16
  userLabel : Str
  now : UInt64
  role : ProvisionRole
  connector : Option Str
  downstream : Option Str
  useSudo : Bool
  dnsOverride : Option Str
  mtproxy : Bool

structure QuicInfo where
  addr : Str
  sni : Str
  certSha256 : Option Str
  deriving DecidableEq

structure ClientConfig where
  shortId : Str
  label : Str
  uri : Str
  deriving DecidableEq

structure ServerRecord where
  id : Str
  label : Str
  host : Str
  port : UInt16
  sshUser : Str
  sshSecret : SshSecret
  hostKeyFp : Str
  publicHost : Str
  imageRef : Str
  container : Str
  realityPublicB64 : Str
  quic : Option QuicInfo
  clients : List ClientConfig
  createdAt : UInt64
  role : Str
  connectorUri : Option Str
  downstream : Option Str
  useSudo : Bool
  deriving DecidableEq

inductive Error where
  | ssh (text : Str)
  | command (code : Int) (stderr : Str)
  | vault (text : Str)
  | hostKeyMismatch (host pinned seen : Str)
  | parse (text : Str)
  | io (text : Str)
  deriving DecidableEq

namespace Error

/-- As the error is displayed. -/
def text : Error → Str
  | ssh t => "ssh: ".toList ++ t
  | command code stderr =>
    "remote command failed (exit ".toList ++ ((toString code).toList ++ ("): ".toList ++ stderr))
  | vault t => "vault: ".toList ++ t
  | hostKeyMismatch host pinned seen =>
    "host key mismatch for ".toList ++ (host ++ (": pinned ".toList ++
      (pinned ++ (", got ".toList ++ seen))))
  | parse t => "parse: ".toList ++ t
  | io t => "io: ".toList ++ t

end Error

end Leshiy.Provision
