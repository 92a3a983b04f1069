import TpnWorker.Config
import TpnWorker.Lib.Transition
import TpnWorker.Lib.Utf8
import TpnWorker.Lib.Table
import TpnWorker.Lib.Base64
import TpnWorker.Lib.Ipv4
import TpnWorker.Lib.Ipv6
import TpnWorker.Lib.Wrap
import TpnWorker.Error
import TpnWorker.Db.Wireguard
import TpnWorker.Wireguard.Keygen
import TpnWorker.Wireguard.Server
import TpnWorker.Wireguard.PeerManager
import TpnWorker.Db.Cleanup
import TpnWorker.Node
import TpnWorker.Concurrent.State
import TpnWorker.Concurrent.Step
import TpnWorker.Theorems.ConfiguredKeys
import TpnWorker.Concurrent.Leases
import TpnWorker.Concurrent.Slots
import TpnWorker.Theorems.Exclusive
import TpnWorker.Theorems.LivePeers
import TpnWorker.Theorems.Restart
import TpnWorker.Db.Socks5
import TpnWorker.Concurrent.Socks5
import TpnWorker.Theorems.Pools
import TpnWorker.Theorems.Passwords
import TpnWorker.Net.Ip
import TpnWorker.Service.LeaseManager
import TpnWorker.Theorems.Extensions
import TpnWorker.Api.Lease
import TpnWorker.Theorems.Admission
import TpnWorker.Theorems.LeaseTokens
import TpnWorker.Lib.Conduit
import TpnWorker.Proxy.Relay
import TpnWorker.Proxy.Socks5
import TpnWorker.Theorems.Tunnels
import TpnWorker.Theorems.Expiries
import TpnWorker.Theorems.StaleExtensions
import TpnWorker.Theorems.LiveSlots
import TpnWorker.Concurrent.Reload
import TpnWorker.Theorems.Reloads
import TpnWorker.Lib.Lines
import TpnWorker.Lib.Pieces
import TpnWorker.Lib.Session
import TpnWorker.Api.Admin
import TpnWorker.Concurrent.EnvFile
import TpnWorker.Theorems.EnvUpdates
import TpnWorker.Proxy.Initialize
import TpnWorker.Theorems.Startup
import TpnWorker.Proxy.HttpConnect
import TpnWorker.Theorems.Handshakes
import TpnWorker.Concurrent.Restarts
import TpnWorker.Theorems.TunnelAddresses
import TpnWorker.Theorems.PeerIds
import TpnWorker.Theorems.Rollbacks
import TpnWorker.Theorems.ForgottenPeers
import TpnWorker.Theorems.Batches
import TpnWorker.Theorems.SlotCounts
import TpnWorker.Theorems.ExpiryArithmetic
import TpnWorker.Theorems.EnvFrames
import TpnWorker.Bootstrap
import TpnWorker.Theorems.SavedSettings
import TpnWorker.Api.Logs
import TpnWorker.Theorems.LogTails
import TpnWorker.Net.Dns
import TpnWorker.Theorems.Hostnames
import TpnWorker.Theorems.HeaderBlocks
import TpnWorker.Db.RegistrationLog
import TpnWorker.Concurrent.Registrations
import TpnWorker.Theorems.RegistrationHistory
import TpnWorker.Theorems.Resolutions
import TpnWorker.Lib.FileSystem
import TpnWorker.Api.Upgrade
import TpnWorker.Theorems.Upgrades
import TpnWorker.Concurrent.Cache
import TpnWorker.Theorems.FreshValues
import TpnWorker.Concurrent.Rotation
import TpnWorker.Theorems.Rotations
import TpnWorker.Lib.FairLock
import TpnWorker.Lib.Simulation
import TpnWorker.Concurrent.Uninterrupted
import TpnWorker.Sync.Locks
import TpnWorker.Concurrent.Locks
import TpnWorker.Theorems.NamedLocks
import TpnWorker.Settings
import TpnWorker.Db.Timestamps
import TpnWorker.Service.MiningPool
import TpnWorker.Background
import TpnWorker.Theorems.KeptLeases
import TpnWorker.Theorems.Renewals
import TpnWorker.Api.Auth
import TpnWorker.Console
import TpnWorker.Theorems.Logins
import TpnWorker.Lib.Pool
import TpnWorker.Theorems.Registering
import TpnWorker.Installation
import TpnWorker.Theorems.OpenTunnels
import TpnWorker.Lib.Newest
import TpnWorker.Db.Init
import TpnWorker.Theorems.UniqueNames
import TpnWorker.Theorems.RenewedLeases
import TpnWorker.Lib.Ini
import TpnWorker.Machine
import TpnWorker.Theorems.KeptTunnels
