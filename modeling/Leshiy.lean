import Leshiy.Cli.CommandLine
import Leshiy.Cli.ServerConfig
import Leshiy.Cli.ServerFiles
import Leshiy.Cli.ServerIdentity
import Leshiy.Cli.ServerInit
import Leshiy.Client.Consistent
import Leshiy.Client.Dial
import Leshiy.Client.DialTiming
import Leshiy.Client.HalfClose
import Leshiy.Client.KillSwitch
import Leshiy.Client.Profiles
import Leshiy.Client.Reconnect
import Leshiy.Client.Runtime
import Leshiy.Client.SplitRules
import Leshiy.Client.SplitTunnel
import Leshiy.Client.SubscriptionText
import Leshiy.Client.Supervisor
import Leshiy.Core.Frame
import Leshiy.Core.Icmp
import Leshiy.Core.Session
import Leshiy.Core.Version
import Leshiy.Gui.Subscriptions
import Leshiy.Helper.Elevate
import Leshiy.Helper.ElevationTarget
import Leshiy.Helper.Runner
import Leshiy.Helper.Server
import Leshiy.Helper.Startup
import Leshiy.Lib.AddrText
import Leshiy.Lib.BigEndian
import Leshiy.Lib.Calls
import Leshiy.Lib.Checksum
import Leshiy.Lib.Crypto
import Leshiy.Lib.Http1
import Leshiy.Lib.IpAddr
import Leshiy.Lib.Keyed
import Leshiy.Lib.Keystream
import Leshiy.Lib.Literals
import Leshiy.Lib.Lossy
import Leshiy.Lib.NetAddr
import Leshiy.Lib.Overflow
import Leshiy.Lib.Posix
import Leshiy.Lib.Prefix
import Leshiy.Lib.QuicVarint
import Leshiy.Lib.Reassembly
import Leshiy.Lib.Register
import Leshiy.Lib.Run
import Leshiy.Lib.Scan
import Leshiy.Lib.Shell
import Leshiy.Lib.Splice
import Leshiy.Lib.Str
import Leshiy.Lib.Tally
import Leshiy.Lib.Text
import Leshiy.Lib.Toml
import Leshiy.Lib.Utf8
import Leshiy.Lib.Utf8Decode
import Leshiy.Lib.Window
import Leshiy.Lib.Words
import Leshiy.Mobile.Dns
import Leshiy.Mobile.DnsExchange
import Leshiy.Mobile.Provision
import Leshiy.Mobile.Reattach
import Leshiy.Mux.Basic
import Leshiy.Mux.Conservation
import Leshiy.Mux.Credit
import Leshiy.Mux.Datagram
import Leshiy.Mux.Delivery
import Leshiy.Mux.Effect
import Leshiy.Mux.History
import Leshiy.Mux.Ids
import Leshiy.Mux.Invariant
import Leshiy.Mux.OpenTarget
import Leshiy.Mux.Pair
import Leshiy.Mux.Permits
import Leshiy.Mux.Progress
import Leshiy.Mux.Runaway
import Leshiy.Mux.Step
import Leshiy.Mux.StreamCap
import Leshiy.Mux.Teardown
import Leshiy.Provision.Basic
import Leshiy.Provision.Deploy
import Leshiy.Provision.DeployRuns
import Leshiy.Provision.Docker
import Leshiy.Provision.PersistedPorts
import Leshiy.Provision.RunCmd
import Leshiy.Provision.Seal
import Leshiy.Provision.Upgrade
import Leshiy.Provision.UriFields
import Leshiy.Provision.Vault
import Leshiy.Provision.VaultRecords
import Leshiy.Provision.VaultRuns
import Leshiy.Provision.VaultSteps
import Leshiy.Quic.Connector
import Leshiy.Quic.Datagrams
import Leshiy.Quic.EgressRead
import Leshiy.Quic.Masquerade
import Leshiy.Quic.OpenConnect
import Leshiy.Reality.AcceptBackoff
import Leshiy.Reality.Addr
import Leshiy.Reality.Agreement
import Leshiy.Reality.Auth
import Leshiy.Reality.Carrier
import Leshiy.Reality.Classify
import Leshiy.Reality.ConnLimit
import Leshiy.Reality.Control
import Leshiy.Reality.Egress
import Leshiy.Reality.FakeTls
import Leshiy.Reality.FakeTlsHandshake
import Leshiy.Reality.Framing
import Leshiy.Reality.Handshake
import Leshiy.Reality.Listener
import Leshiy.Reality.MessageRelay
import Leshiy.Reality.MtRelay
import Leshiy.Reality.NetGuard
import Leshiy.Reality.Obfs2
import Leshiy.Reality.RateLimit
import Leshiy.Reality.Replay
import Leshiy.Reality.ReplayRuns
import Leshiy.Reality.Revocation
import Leshiy.Reality.Serve
import Leshiy.Reality.SharedBucket
import Leshiy.Reality.Socks5
import Leshiy.Reality.SqliteStore
import Leshiy.Reality.Tunnel
import Leshiy.Reality.UdpAssociate
import Leshiy.Reality.UdpHeader
import Leshiy.Reality.Uri
import Leshiy.Reality.Usage
import Leshiy.Reality.UserCli
import Leshiy.Reality.WriteThrough
import Leshiy.Tls.Adaptation
import Leshiy.Tls.Camouflage
import Leshiy.Tls.ClientHello
import Leshiy.Tls.Fingerprint
import Leshiy.Tls.Ja
import Leshiy.Tls.Messages
import Leshiy.Tls.Record
import Leshiy.Tls.Suite
import Leshiy.Tls.View
import Leshiy.Tun.Engine
import Leshiy.Tun.IcmpEcho
import Leshiy.Tun.Linux
import Leshiy.Tun.LinuxPolicy
import Leshiy.Tun.LinuxTeardown
import Leshiy.Tun.PumpUdp
import Leshiy.Tun.RoutePlan
import Leshiy.Tun.SplitPolicy
import Leshiy.Tun.Windows
import Leshiy.Tun.WindowsTeardown
