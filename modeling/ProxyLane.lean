import ProxyLane.Hook.TcpRelay
import ProxyLane.Protocol.HpackOrder
import ProxyLane.Protocol.StreamSwap
import ProxyLane.Protocol.WsRoundTrip
import ProxyLane.Cache.Decoding
import ProxyLane.Recording.Pending
import ProxyLane.Recording.IndexFile
import ProxyLane.Cache.Paging
import ProxyLane.Hook.UdpCapability
import ProxyLane.Mitm.Results
import ProxyLane.Mitm.Slots
import ProxyLane.Mitm.Epochs
import ProxyLane.Mitm.DnsAccounts
import ProxyLane.Cache.RunDirectory
import ProxyLane.Hook.UdpQueues
import ProxyLane.Hook.UdpLifecycle
import ProxyLane.Mitm.SessionCalls
import ProxyLane.App.Page1
import ProxyLane.Hook.AppLaunch
import ProxyLane.Hook.ChildGuardOrphans
import ProxyLane.Hook.Registration
import ProxyLane.Hook.QuicRoutes
import ProxyLane.Hook.SecureStream
import ProxyLane.Hook.ProxySegments
import ProxyLane.Hook.UdpAgreement
import ProxyLane.Protocol.HpackBlocks
import ProxyLane.App.ConfigImport
import ProxyLane.Hook.MitmControl
import ProxyLane.Mitm.Control
import ProxyLane.App.RecentSurvival
import ProxyLane.Recording.BodyAgreement
import ProxyLane.App.ProcessLifetimes
import ProxyLane.Mitm.QuicFragments
import ProxyLane.Mitm.DnsStreams
import ProxyLane.Mitm.QuicLocatorFlow
import ProxyLane.Mitm.SessionPassthrough
import ProxyLane.Mitm.Sniffing
import ProxyLane.Recording.HeaderText
import ProxyLane.Recording.SessionOrder
import ProxyLane.Hook.ElevatedCodec
import ProxyLane.Hook.ChildRewrite
import ProxyLane.Hook.HttpRequest
import ProxyLane.Hook.ProcessSnapshot
import ProxyLane.Hook.UdpBlockLogLimiter
import ProxyLane.Hook.UdpPortState
import ProxyLane.App.ProfileShareTrip
import ProxyLane.App.ProfileReload
import ProxyLane.App.AutomationTrip
import ProxyLane.App.ProfileCommandWire
import ProxyLane.Recording.Manifest
import ProxyLane.App.BoundedLogQueue
import ProxyLane.App.ProtocolHistory
import ProxyLane.Recording.HotFiles
import ProxyLane.App.RecentCache
import ProxyLane.Mitm.QuicPipe
import ProxyLane.App.ProcessTree
import ProxyLane.App.StrictLaunch
import ProxyLane.App.ProcessList
import ProxyLane.Hook.DeriveSecret
