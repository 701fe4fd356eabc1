import ProxyLane.Hook.UdpProxyTask

/-!
# The upstream side of a UDP task

A task keeps its local routes for as long as the application uses them; the
association with the proxy behind them is made for the first datagram, made
again after a failure, and given up when idle.  Datagrams that cannot be sent
wait in two queues.

The routes are those of `UdpProxyTask`, here by a number for each local
socket.  What the system, the socket library and the task manager answer is a
parameter, indexed by how often they have been asked.
-/

namespace ProxyLane.Hook

open Foundation

inductive UpstreamState where
  | routeReserved
  | associating
  | ready
  | reconnectWait
  | dormant
  | closing
  deriving DecidableEq, Repr

def shouldActivateUpstream (state : UpstreamState) : Bool :=
  state == .routeReserved || state == .dormant

def shouldEnterDormant (now lastActivity idleTimeout : UInt32)
    (hasPendingWork : Bool) : Bool :=
  !hasPendingWork && idleTimeout ≤ now - lastActivity

/-- The octets of a datagram; their number is an `int`. -/
structure Payload where
  bytes : Bytes
  small : bytes.length < 2 ^ 31
  deriving DecidableEq, Repr

def Payload.size (p : Payload) : UInt32 := UInt32.ofNat p.bytes.length

/-- One call of `ForwardUpstreamDatagram`, numbered. -/
structure Datagram where
  serial : Nat
  target : CSAddrInfo
  data : Payload
  deriving DecidableEq, Repr

/-- One call of `DeliverServerDatagram`, numbered. -/
structure Reply where
  serial : Nat
  routePeer : Nat
  application : SockAddr
  data : Payload
  deriving DecidableEq, Repr

structure PendingDatagram where
  datagram : Datagram
  queuedAt : UInt32
  deriving DecidableEq, Repr

structure PendingReply where
  reply : Reply
  queuedAt : UInt32
  deriving DecidableEq, Repr

def maxPackets : Nat := 128

def maxBytes : UInt32 := 1024 * 1024

def udpAssociationIdleTimeout : UInt32 := 5 * 60 * 1000

/-- The outcome of `ConnectProxy`; `closed` is the error of a close callback
of the new peer that arrives inside the call. -/
structure ConnectOutcome where
  ok : Bool
  closed : Option Int
  error : Int
  deriving DecidableEq, Repr

/-- The answer of `ReportUdpAssociationFailure`, and whether UDP is then
permanently unsupported. -/
inductive FailureReport where
  | retry
  | blocked
  | unsupported
  deriving DecidableEq, Repr

structure UdpEnv where
  tick : Nat → UInt32
  connect : Nat → ConnectOutcome
  /-- The error of a `SendTo`; there is none where the datagram is taken. -/
  send : Nat → Option Int
  report : Nat → FailureReport

def wsaewouldblock : Int := 10035

def wsaeconnrefused : Int := 10061

structure RoutePeer where
  id : Nat
  route : UdpRoute
  deriving DecidableEq, Repr

inductive CloseCause where
  | routeFailed
  | serverFailed
  | unsupported
  | requested
  deriving DecidableEq, Repr

/-- What is remembered of a run: an assignment of the state, with the number
of packets queued then; a server peer made; the local routes closed. -/
inductive Mark where
  | state (state : UpstreamState) (queued : Nat)
  | created
  | closed (cause : CloseCause)
  deriving DecidableEq, Repr

/-- The last six fields are history: the datagrams handed over and those the
server socket took, the replies handed over and those sent to an application,
whether a subtraction has wrapped, and the marks. -/
structure UdpUpstream where
  noProxy : Bool
  state : UpstreamState := .routeReserved
  server : Option Nat := none
  serverOpen : Bool := false
  routes : List RoutePeer := []
  pending : List PendingDatagram := []
  pendingBytes : UInt32 := 0
  pendingReplies : List PendingReply := []
  pendingReplyBytes : UInt32 := 0
  lastActivity : UInt32 := 0
  nextServerReconnect : UInt32 := 0
  serverReconnectDelay : UInt32 := 250
  lastServerError : Int := 0
  accesses : Nat := 0
  peers : Nat := 0
  passed : List Datagram := []
  accepted : List Datagram := []
  served : List Reply := []
  delivered : List Reply := []
  wrapped : Bool := false
  marks : List Mark := []

namespace UdpUpstream

def access (s : UdpUpstream) : UdpUpstream := { s with accesses := s.accesses + 1 }

def queued (s : UdpUpstream) : Nat := s.pending.length + s.pendingReplies.length

def setState (s : UdpUpstream) (state : UpstreamState) : UdpUpstream :=
  { s with state := state, marks := s.marks ++ [.state state s.queued] }

def popPending (s : UdpUpstream) : UdpUpstream :=
  match s.pending with
  | [] => s
  | p :: rest =>
    { s with
      pending := rest
      pendingBytes := s.pendingBytes - p.datagram.data.size
      wrapped := s.wrapped || s.pendingBytes < p.datagram.data.size }

def popReply (s : UdpUpstream) : UdpUpstream :=
  match s.pendingReplies with
  | [] => s
  | p :: rest =>
    { s with
      pendingReplies := rest
      pendingReplyBytes := s.pendingReplyBytes - p.reply.data.size
      wrapped := s.wrapped || s.pendingReplyBytes < p.reply.data.size }

/-- The `while` of `ExpirePendingDatagrams`. -/
def expirePending (now : UInt32) :
    List PendingDatagram → UdpUpstream → UdpUpstream
  | [], s => s
  | p :: rest, s =>
    if 5000 < now - p.queuedAt then expirePending now rest s.popPending else s

def expirePendingDatagrams (s : UdpUpstream) (now : UInt32) : UdpUpstream :=
  expirePending now s.pending s

/-- The `while` of `QueueDatagram`. -/
def trimPending (length : UInt32) :
    List PendingDatagram → UdpUpstream → UdpUpstream
  | [], s => s
  | _ :: rest, s =>
    if maxPackets ≤ s.pending.length ∨ maxBytes < s.pendingBytes + length then
      trimPending length rest s.popPending
    else s

def trimReplies (length : UInt32) :
    List PendingReply → UdpUpstream → UdpUpstream
  | [], s => s
  | _ :: rest, s =>
    if maxPackets ≤ s.pendingReplies.length ∨
        maxBytes < s.pendingReplyBytes + length then
      trimReplies length rest s.popReply
    else s

variable (env : UdpEnv)

def queueDatagram (s : UdpUpstream) (d : Datagram) : Bool × UdpUpstream :=
  let s := trimPending d.data.size s.pending s
  if maxBytes < d.data.size then (false, s)
  else
    (true, { s.access with
      pending := s.pending ++ [⟨d, env.tick s.accesses⟩]
      pendingBytes := s.pendingBytes + d.data.size })

def queueReply (s : UdpUpstream) (r : Reply) : Bool × UdpUpstream :=
  let s := trimReplies r.data.size s.pendingReplies s
  if maxBytes < r.data.size then (false, s)
  else
    (true, { s.access with
      pendingReplies := s.pendingReplies ++ [⟨r, env.tick s.accesses⟩]
      pendingReplyBytes := s.pendingReplyBytes + r.data.size })

def routeOpen (s : UdpUpstream) (id : Nat) : Bool :=
  s.routes.any fun it => it.id == id && it.route.peerOpen

/-- The `for` of `FlushPendingReplies`; `kept` are the replies it has passed
over. -/
def flushLoop (now : UInt32) (only : Option Nat) (kept : List PendingReply) :
    List PendingReply → UdpUpstream → UdpUpstream
  | [], s => { s with pendingReplies := kept }
  | p :: rest, s =>
    let erased := { s with
      pendingReplyBytes := s.pendingReplyBytes - p.reply.data.size
      wrapped := s.wrapped || s.pendingReplyBytes < p.reply.data.size }
    if 5000 < now - p.queuedAt ∨ s.routeOpen p.reply.routePeer = false then
      flushLoop now only kept rest erased
    else if only.any (· != p.reply.routePeer) then
      flushLoop now only (kept ++ [p]) rest s
    else
      match env.send s.accesses with
      | some _ => flushLoop now only (kept ++ [p]) rest s.access
      | none =>
        flushLoop now only kept rest
          { erased.access with delivered := s.delivered ++ [p.reply] }

def flushPendingReplies (s : UdpUpstream) (only : Option Nat) : UdpUpstream :=
  flushLoop env (env.tick s.accesses) only [] s.pendingReplies s.access

def closeTask (s : UdpUpstream) (cause : CloseCause) : UdpUpstream :=
  let s := s.setState .closing
  { s with
    pendingReplies := []
    pendingReplyBytes := 0
    routes := s.routes.map fun it =>
      { it with route := { it.route with peerOpen := false } }
    serverOpen := false
    marks := s.marks ++ [.closed cause] }

def endTask (s : UdpUpstream) : UdpUpstream :=
  let s := s.setState .closing
  { s with
    routes := []
    pending := []
    pendingBytes := 0
    pendingReplies := []
    pendingReplyBytes := 0
    server := none
    serverOpen := false
    marks := s.marks ++ [.closed .requested] }

/-- `CreateServerPeer`, and the error where it fails.  A close callback before
the peer is published is not recognised as the server's. -/
def createServerPeer (s : UdpUpstream) : Option Int × UdpUpstream :=
  let outcome := env.connect s.accesses
  let s := { s.access with
    peers := s.peers + 1
    marks := s.marks ++ [.created] }
  let s := match outcome.closed with
    | some _ => s.closeTask .serverFailed
    | none => s
  if !outcome.ok then
    (some (if outcome.error = 0 then wsaeconnrefused else outcome.error), s)
  else
    let s := { s with
      server := some s.peers
      serverOpen := outcome.closed.isNone }
    if s.noProxy then
      let s := s.setState .ready
      (none, { s with serverReconnectDelay := 250, lastServerError := 0 })
    else (none, s.setState .associating)

def scheduleServerReconnect (s : UdpUpstream) (errorCode : Int) : UdpUpstream :=
  if s.state = .closing then s
  else
    let s :=
      if s.state ≠ .reconnectWait then
        let now := env.tick s.accesses
        let s := s.access.setState .reconnectWait
        { s with
          nextServerReconnect := now + s.serverReconnectDelay
          lastServerError := errorCode }
      else s
    { s with serverOpen := false }

/-- The answer to a failure that `WakeServerAssociation` and `OnPeerClosed`
share. -/
def reportFailure (s : UdpUpstream) (errorCode : Int) : UdpUpstream :=
  match env.report s.accesses with
  | .unsupported => s.access.closeTask .unsupported
  | .blocked =>
    let s := s.access.scheduleServerReconnect env errorCode
    { s.access with nextServerReconnect := env.tick s.accesses + 60 * 1000 }
  | .retry => s.access.scheduleServerReconnect env errorCode

/-- The `while` of `OnServerWritable`. -/
def drain (now : UInt32) : List PendingDatagram → UdpUpstream → UdpUpstream
  | [], s => s
  | p :: rest, s =>
    if 5000 < now - p.queuedAt then drain now rest s.popPending
    else
      match env.send s.accesses with
      | some errorCode =>
        if errorCode ≠ wsaewouldblock then
          s.access.scheduleServerReconnect env errorCode
        else s.access
      | none =>
        drain now rest { s.access.popPending with
          accepted := s.accepted ++ [p.datagram] }

/-- `OnServerWritable` behind the reconnection. -/
def sendPending (s : UdpUpstream) (now : UInt32) : UdpUpstream :=
  if s.state ≠ .ready ∨ s.server = none ∨ s.serverOpen = false then s
  else (drain env now s.pending s).flushPendingReplies env none

/-- The branch of `OnServerWritable` for a peer that has to be made again. -/
def reconnect (s : UdpUpstream) (now : UInt32) : UdpUpstream :=
  match ({ s with server := none, serverOpen := false } : UdpUpstream)
      |>.createServerPeer env with
  | (none, s) => s.sendPending env now
  | (some _, s) =>
    match env.report s.accesses with
    | .unsupported => s.access.closeTask .unsupported
    | .blocked =>
      { s.access.setState .reconnectWait with
        nextServerReconnect := now + 60 * 1000 }
    | .retry =>
      let delay := min (s.serverReconnectDelay * 2) 5000
      { s.access.setState .reconnectWait with
        serverReconnectDelay := delay
        nextServerReconnect := now + delay }

def onServerWritable (s : UdpUpstream) : UdpUpstream :=
  if s.state = .closing then s
  else
    let now := env.tick s.accesses
    let s := (s.access.expirePendingDatagrams now).flushPendingReplies env none
    if s.state = .reconnectWait then
      if (now - s.nextServerReconnect).toNat < 2 ^ 31 then s.reconnect env now
      else s
    else s.sendPending env now

def enterServerDormant (s : UdpUpstream) : UdpUpstream :=
  if s.state = .closing ∨ s.state = .dormant ∨ s.state = .routeReserved ∨
      s.pending ≠ [] ∨ s.pendingReplies ≠ [] then s
  else
    { s.setState .dormant with
      serverReconnectDelay := 250
      lastServerError := 0
      server := none
      serverOpen := false }

def onMaintenanceTimer (s : UdpUpstream) : UdpUpstream :=
  if s.state = .closing then s
  else
    let now := env.tick s.accesses
    let s := (s.access.expirePendingDatagrams now).flushPendingReplies env none
    if s.state = .dormant ∨ s.state = .routeReserved then s
    else
      let hasPendingWork := !s.pending.isEmpty || !s.pendingReplies.isEmpty
      if shouldEnterDormant now s.lastActivity udpAssociationIdleTimeout
          hasPendingWork then s.enterServerDormant
      else s.onServerWritable env

def wakeServerAssociation (s : UdpUpstream) : UdpUpstream :=
  if s.state = .closing ∨ shouldActivateUpstream s.state = false then s
  else
    match ({ s.setState .associating with
        serverReconnectDelay := 250 } : UdpUpstream).createServerPeer env with
    | (some errorCode, s) => s.reportFailure env errorCode
    | (none, s) => if s.state = .ready then s.onServerWritable env else s

/-- `ForwardUpstreamDatagram` once the call is numbered. -/
def forward (s : UdpUpstream) (d : Datagram) : Bool × UdpUpstream :=
  if shouldActivateUpstream s.state then
    match s.queueDatagram env d with
    | (true, s) => (true, s.wakeServerAssociation env)
    | (false, s) => (false, s)
  else if s.state = .ready ∧ s.server ≠ none ∧ s.serverOpen = true ∧
      s.pending = [] then
    match env.send s.accesses with
    | none => (true, { s.access with accepted := s.accepted ++ [d] })
    | some errorCode =>
      if errorCode ≠ wsaewouldblock then
        (s.access.scheduleServerReconnect env errorCode).queueDatagram env d
      else s.access.queueDatagram env d
  else s.queueDatagram env d

def forwardUpstreamDatagram (s : UdpUpstream) (target : CSAddrInfo)
    (data : Payload) : Bool × UdpUpstream :=
  let d : Datagram := ⟨s.passed.length, target, data⟩
  ({ s with passed := s.passed ++ [d] } : UdpUpstream).forward env d

/-- `DeliverServerDatagram`; a closed socket takes nothing. -/
def deliverServerDatagram (s : UdpUpstream) (id : Nat) (data : Payload) :
    Bool × UdpUpstream :=
  match s.routes.find? (·.id == id) with
  | none => (false, s)
  | some it =>
    let r : Reply :=
      ⟨s.served.length, id, UdpProxyTask.applicationOf it.route, data⟩
    let s := { s with served := s.served ++ [r] }
    match (if it.route.peerOpen then env.send s.accesses else some 0) with
    | none => (true, { s.access with delivered := s.delivered ++ [r] })
    | some _ => s.access.queueReply env r

/-- The datagrams a bridge holds for the application and for the server when
it is drained; a route without one holds none. -/
structure QuicPump where
  toClient : List Payload
  toServer : List Payload
  deriving DecidableEq, Repr

def pumpClient (id : Nat) : List Payload → UdpUpstream → UdpUpstream
  | [], s => s
  | data :: rest, s =>
    match s.deliverServerDatagram env id data with
    | (false, s) => s
    | (true, s) =>
      pumpClient id rest { s.access with
        lastActivity := env.tick s.accesses }

def pumpServer (target : CSAddrInfo) :
    List Payload → UdpUpstream → UdpUpstream
  | [], s => s
  | data :: rest, s =>
    match s.forwardUpstreamDatagram env target data with
    | (false, s) => s
    | (true, s) =>
      pumpServer target rest { s.access with
        lastActivity := env.tick s.accesses }

def pumpQuic (s : UdpUpstream) (id : Nat) (target : CSAddrInfo)
    (pump : QuicPump) : UdpUpstream :=
  pumpServer env target (pump.toServer.take 64)
    (pumpClient env id (pump.toClient.take 64) s)

/-- What interception does with a client's datagram: there is no bridge; the
datagram belongs to a retired one; a bridge is fed with it, which keeps it or
not; a bridge is opened for it. -/
inductive ClientCourse where
  | plain
  | retired
  | bridged (pump : QuicPump) (retained : Bool)
  | opened (pump : QuicPump)
  deriving DecidableEq, Repr

inductive ServerCourse where
  | plain
  | retired
  | bridged (pump : QuicPump)
  deriving DecidableEq, Repr

def setApplication (s : UdpUpstream) (id : Nat) (application : SockAddr) :
    UdpUpstream :=
  { s with routes := s.routes.map fun it =>
      if it.id = id then
        { it with route := { it.route with
          applicationEndpoint := some application } }
      else it }

/-- `ForwardClientDatagram`; `first` is what a bridge of the route holds
before. -/
def forwardClientDatagram (s : UdpUpstream) (id : Nat) (first : QuicPump)
    (course : ClientCourse) (target : CSAddrInfo) (application : SockAddr)
    (data : Payload) : UdpUpstream :=
  let s := { s.access with lastActivity := env.tick s.accesses }
  let s := (s.setApplication id application).pumpQuic env id target first
  match course with
  | .plain => (s.forwardUpstreamDatagram env target data).2
  | .retired => s
  | .opened pump => s.pumpQuic env id target pump
  | .bridged pump retained =>
    let s := s.pumpQuic env id target pump
    if retained then s else (s.forwardUpstreamDatagram env target data).2

/-- `ForwardServerDatagram` for the route it has chosen. -/
def forwardServerDatagram (s : UdpUpstream) (id : Nat) (course : ServerCourse)
    (target : CSAddrInfo) (data : Payload) : UdpUpstream :=
  let s := { s.access with lastActivity := env.tick s.accesses }
  match course with
  | .plain => (s.deliverServerDatagram env id data).2
  | .retired => s
  | .bridged pump => s.pumpQuic env id target pump

/-- `OnPeerClosed` of the published server peer; its socket is closed. -/
def onServerClosed (s : UdpUpstream) (errorCode : Int) : UdpUpstream :=
  if s.server = none then s
  else
    let s := { s with serverOpen := false }
    if s.state = .closing ∨ s.state = .dormant ∨ s.state = .routeReserved then s
    else s.reportFailure env errorCode

/-- `OnPeerClosed` of a local route. -/
def onRouteClosed (s : UdpUpstream) : UdpUpstream := s.closeTask .routeFailed

def onServerReady (s : UdpUpstream) : UdpUpstream :=
  if s.state ≠ .associating ∨ s.server = none then s
  else
    let s := { s.setState .ready with
      serverReconnectDelay := 250, lastServerError := 0 }
    s.onServerWritable env

/-- `OnRouteWritable`; `pump` is what a bridge of the route holds. -/
def onRouteWritable (s : UdpUpstream) (id : Nat) (target : CSAddrInfo)
    (pump : QuicPump) : UdpUpstream :=
  (s.flushPendingReplies env (some id)).pumpQuic env id target pump

inductive Event where
  | addRoute (route : UdpRoute)
  | clientDatagram (id : Nat) (first : QuicPump) (course : ClientCourse)
      (target : CSAddrInfo) (application : SockAddr) (data : Payload)
  | serverDatagram (id : Nat) (course : ServerCourse) (target : CSAddrInfo)
      (data : Payload)
  | serverWritable
  | routeWritable (id : Nat) (target : CSAddrInfo) (pump : QuicPump)
  | timer
  | serverReady
  | serverClosed (errorCode : Int)
  | routeClosed
  | closeTask
  | endTask

def step (s : UdpUpstream) : Event → UdpUpstream
  | .addRoute route => { s with routes := s.routes ++ [⟨s.routes.length, route⟩] }
  | .clientDatagram id first course target application data =>
    s.forwardClientDatagram env id first course target application data
  | .serverDatagram id course target data =>
    s.forwardServerDatagram env id course target data
  | .serverWritable => s.onServerWritable env
  | .routeWritable id target pump => s.onRouteWritable env id target pump
  | .timer => s.onMaintenanceTimer env
  | .serverReady => s.onServerReady env
  | .serverClosed errorCode => s.onServerClosed env errorCode
  | .routeClosed => s.onRouteClosed
  | .closeTask => s.closeTask .requested
  | .endTask => s.endTask

def run (s : UdpUpstream) (es : List Event) : UdpUpstream :=
  es.foldl (step env) s

def start (noProxy : Bool) : UdpUpstream := { noProxy := noProxy }

end UdpUpstream

end ProxyLane.Hook
