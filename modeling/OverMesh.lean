import OverMesh.Internal.Runs
import OverMesh.Internal.History
import OverMesh.Internal.Slots
import OverMesh.Internal.Upsert
import OverMesh.Internal.GoText
import OverMesh.Internal.GoBytes
import OverMesh.Internal.GoQuery
import OverMesh.Internal.GoPath
import OverMesh.Internal.Words
import OverMesh.Internal.Netip
import OverMesh.Internal.NetipText
import OverMesh.Internal.NetipPort
import OverMesh.Internal.AutoTable
import OverMesh.Internal.FirstMatch
import OverMesh.Internal.FirstFree
import OverMesh.Internal.Channel
import OverMesh.Internal.PrefixTable
import OverMesh.Internal.Framing
import OverMesh.Internal.Disk
import OverMesh.Internal.GoSlice
import OverMesh.Internal.Commands
import OverMesh.Key
import OverMesh.Key.Text
import OverMesh.Ipam
import OverMesh.Ipam.Exact
import OverMesh.Store.Basic
import OverMesh.Store.SetupKeys
import OverMesh.Store.Acl
import OverMesh.Store.Changes
import OverMesh.Store.Users
import OverMesh.Store.Routes
import OverMesh.Proto
import OverMesh.Filter.Basic
import OverMesh.Filter.Tun
import OverMesh.Filter.Write
import OverMesh.Filter.Packets
import OverMesh.Filter.Decode
import OverMesh.Coord.AclCompile
import OverMesh.Coord.PortSpec
import OverMesh.Policy
import OverMesh.Coord.Basic
import OverMesh.Coord.Register
import OverMesh.Coord.Enrolment
import OverMesh.Coord.System
import OverMesh.Coord.Addresses
import OverMesh.Coord.Rows
import OverMesh.Coord.Overlay
import OverMesh.Coord.Delivery
import OverMesh.Coord.NodeKeys
import OverMesh.Coord.Hostnames
import OverMesh.Coord.KeyUse
import OverMesh.Coord.Streams
import OverMesh.Coord.Signals
import OverMesh.Coord.Process
import OverMesh.Coord.Sequence
import OverMesh.Coord.Approval
import OverMesh.Coord.Isolation
import OverMesh.AdminApi.Acl
import OverMesh.AdminApi.CheckAcl
import OverMesh.AdminApi.Sessions
import OverMesh.AdminApi.LastAdmin
import OverMesh.AdminApi.Requests
import OverMesh.AdminApi.Members
import OverMesh.AdminApi.Lifetimes
import OverMesh.AdminApi.UpdateUser
import OverMesh.AdminApi.Recovery
import OverMesh.Meshdns
import OverMesh.Meshdns.Nxdomain
import OverMesh.Meshdns.ResolvConf
import OverMesh.Meshdns.SearchDomains
import OverMesh.Wgengine
import OverMesh.Daemon.Peers
import OverMesh.Daemon.Identity
import OverMesh.Daemon.Sync
import OverMesh.Daemon.LiveFilter
import OverMesh.Daemon.Names
import OverMesh.Daemon.Rotate
import OverMesh.Mobilecore.Peers
import OverMesh.Mobilecore.Services
import OverMesh.Relay.Frames
import OverMesh.Relay.Client
import OverMesh.Relay.Server
import OverMesh.Relay.Routing
import OverMesh.Relay.Connected
import OverMesh.Relay.Path
import OverMesh.Overdrop.Basic
import OverMesh.Overdrop.Delivery
import OverMesh.Overdrop.Concurrent
import OverMesh.Overdrop.Resume
import OverMesh.Overdrop.Wire
import OverMesh.Overdrop.Confined
import OverMesh.Magicsock.ConnMgr
import OverMesh.Magicsock.Superseded
import OverMesh.Magicsock.Probing
import OverMesh.Magicsock.Bind
import OverMesh.Magicsock.Endpoint
import OverMesh.Wgengine.Uapi
import OverMesh.Magicsock.Lifecycle
import OverMesh.Magicsock.Relayed
import OverMesh.Router.Basic
import OverMesh.Router.ExitLinux
import OverMesh.Router.Advertiser
import OverMesh.Router.ExitDarwin
import OverMesh.Router.RouteSync
import OverMesh.Daemon.Status
import OverMesh.Daemon.StateFile
import OverMesh.Daemon.ExitNode
import OverMesh.Daemon.Up
import OverMesh.Daemon.Bypass
