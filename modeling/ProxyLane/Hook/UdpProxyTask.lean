import ProxyLane.Hook.Policy

/-!
# UDP associations and their routes

One task is one association with the proxy.  Every destination an application
socket sends to has a route of its own: a local socket whose peer keeps the
upstream target, and a copy of the registration by which replies are matched.
-/

namespace ProxyLane.Hook

open ProxyLane.Foundation

/-- `_CSAddrInfo`: the peer's own copy of where its datagrams go. -/
structure CSAddrInfo where
  srcAddr : SockAddr
  szDomainName : Bytes
  dstAddr : SockAddr
  deriving DecidableEq, Repr

/-- `SetAddrInfo` replaces a zeroed address by `127.0.0.1`. -/
def CSAddrInfo.normalize (info : CSAddrInfo) : CSAddrInfo :=
  { info with
    dstAddr := if info.dstAddr = .unspec then .inet .loopback 0 else info.dstAddr
    srcAddr := if info.srcAddr = .unspec then .inet .loopback 0 else info.srcAddr }

inductive QuicState where
  | none
  | bridged
  | retired
  deriving DecidableEq, Repr

structure UdpRoute where
  client : PrcClient
  peerOpen : Bool
  target : CSAddrInfo
  applicationEndpoint : Option SockAddr
  quic : QuicState
  deriving DecidableEq, Repr

structure UdpProxyTask where
  prcClient : PrcClient
  proxyInfo : ProxyInfo
  routes : List UdpRoute
  serverOpen : Bool
  localProxyUdpPort : UInt16
  deriving DecidableEq, Repr

open UdpAssociationPolicy

def getUdpDestination (client : PrcClient) : Destination where
  hasDomain := client.isDNValid
  domain := client.szDomainName
  family := client.dstAddr.family
  ipv4 := client.dstAddr.getdwIP
  ipv6 := client.dstAddr.getAddr6.getD .any
  port := client.dstAddr.getPort

namespace UdpProxyTask

def isClosed (task : UdpProxyTask) : Bool :=
  task.routes.all (fun it => !it.peerOpen) && !task.serverOpen

def makeTarget (client : PrcClient) : CSAddrInfo :=
  CSAddrInfo.normalize
    { srcAddr := client.srcAddr
      szDomainName :=
        if client.hasProxyDestination then [] else client.szDomainName.take 255
      dstAddr := client.getProxyDestination }

def splitRoute (requested : Destination) :
    List UdpRoute → Option (List UdpRoute × UdpRoute × List UdpRoute)
  | [] => none
  | it :: rest =>
    if isSameDestination (getUdpDestination it.client) requested then
      some ([], it, rest)
    else
      (splitRoute requested rest).map fun (before, found, after) =>
        (it :: before, found, after)

def appendRoute (task : UdpProxyTask) (client : PrcClient)
    (socket : Option SockAddr) : Bool × UdpProxyTask :=
  match socket with
  | none => (false, task)
  | some routeAddress =>
    let route : UdpRoute :=
      { client := { client with udpAddr := routeAddress }
        peerOpen := true
        target := makeTarget client
        applicationEndpoint := none
        quic := .none }
    (true, { task with
      routes := task.routes ++ [route]
      localProxyUdpPort :=
        if task.routes.isEmpty then routeAddress.getPort
        else task.localProxyUdpPort })

/--
`AddRoute`.  An existing open route of the destination takes over the new
registration but keeps its socket, and with it the peer and its target.
-/
def addRoute (task : UdpProxyTask) (client : PrcClient)
    (socket : Option SockAddr) : Bool × UdpProxyTask :=
  match splitRoute (getUdpDestination client) task.routes with
  | some (before, it, after) =>
    if it.peerOpen then
      (true, { task with routes := before ++
        { it with client := { client with udpAddr := it.client.udpAddr } } ::
          after })
    else
      ({ task with routes := before ++ after }).appendRoute client socket
  | none => task.appendRoute client socket

def hasRoute (task : UdpProxyTask) (client : PrcClient) : Bool :=
  task.routes.any fun it =>
    isSameDestination (getUdpDestination it.client) (getUdpDestination client)

def canAcceptRoute (task : UdpProxyTask) (client : PrcClient) : Bool :=
  task.routes.all fun it =>
    !(it.client.hasProxyDestination || client.hasProxyDestination) &&
      canShareAssociation (getUdpDestination it.client) (getUdpDestination client)

def matchesAssociation (task : UdpProxyTask) (client : PrcClient)
    (proxyInfo : ProxyInfo) : Bool :=
  task.prcClient.dwPid == client.dwPid &&
    task.prcClient.processCreateTime == client.processCreateTime &&
    task.prcClient.socketGeneration == client.socketGeneration &&
    task.prcClient.s == client.s &&
    task.proxyInfo.getProxyType == proxyInfo.getProxyType &&
    task.proxyInfo.nProxyPort == proxyInfo.nProxyPort &&
    task.proxyInfo.reserved == proxyInfo.reserved &&
    task.proxyInfo.strTransportPsk == proxyInfo.strTransportPsk &&
    sameText task.proxyInfo.strProxyHost proxyInfo.strProxyHost

/-- `SetTaskInfo` on a new task. -/
def setTaskInfo (client : PrcClient) (proxyInfo : ProxyInfo)
    (socket : Option SockAddr) : Option UdpProxyTask :=
  let task : UdpProxyTask := ⟨client, proxyInfo, [], false, 0⟩
  match task.addRoute client socket with
  | (true, task) => some task
  | (false, _) => none

/-- `CloseTask`: every local socket and the server socket are closed. -/
def closeTask (task : UdpProxyTask) : UdpProxyTask :=
  { task with
    routes := task.routes.map fun it => { it with peerOpen := false }
    serverOpen := false }

def applicationOf (route : UdpRoute) : SockAddr :=
  let application := route.applicationEndpoint.getD route.client.srcAddr
  if application.isAny then
    match application with
    | .inet6 _ port => .inet6 .loopback port
    | _ => .inet .loopback application.getPort
  else application

inductive Delivery where
  | application (endpoint : SockAddr)
  | bridge
  | dropped
  deriving DecidableEq, Repr

def deliver (route : UdpRoute) : Delivery :=
  match route.quic with
  | .bridged => .bridge
  | .retired => .dropped
  | .none => .application (applicationOf route)

/-- The route loop of `ForwardServerDatagram`: the exact match that ends it,
or the domain candidates seen, last first. -/
def scanRoutes (source : SockAddr) :
    List UdpRoute → List UdpRoute → UdpRoute ⊕ List UdpRoute
  | candidates, [] => .inr candidates
  | candidates, it :: rest =>
    let effectiveDestination := it.client.getProxyDestination
    if !it.peerOpen || effectiveDestination.getPort != source.getPort then
      scanRoutes source candidates rest
    else if !it.client.isDNValid && effectiveDestination.sameAddress source then
      .inl it
    else if it.client.isDNValid then
      scanRoutes source (it :: candidates) rest
    else scanRoutes source candidates rest

def selectRoute (task : UdpProxyTask) (source : SockAddr) : Option UdpRoute :=
  match scanRoutes source [] task.routes with
  | .inl selected => some selected
  | .inr [candidate] => some candidate
  | .inr [] =>
    match task.routes with
    | [only] => if only.peerOpen then some only else none
    | _ => none
  | .inr _ => none

/-- `ForwardServerDatagram`: the route chosen and what becomes of the data. -/
def forwardServerDatagram (task : UdpProxyTask) (source : SockAddr) :
    Option (UdpRoute × Delivery) :=
  (task.selectRoute source).map fun route => (route, deliver route)

end UdpProxyTask

structure UDPTaskMgr where
  tasklist : List UdpProxyTask
  deriving DecidableEq, Repr

namespace UDPTaskMgr

open UdpProxyTask

/-- Replaces the first task that satisfies `p` by the result of `f`. -/
def updateFirst (p : UdpProxyTask → Bool)
    (f : UdpProxyTask → Bool × UdpProxyTask) :
    List UdpProxyTask → Option (Bool × List UdpProxyTask)
  | [] => none
  | task :: tasks =>
    if p task then
      let (ok, task) := f task
      some (ok, task :: tasks)
    else (updateFirst p f tasks).map fun (ok, tasks) => (ok, task :: tasks)

/--
`OnNewTask`.  `canStart` is the answer of `CanStartUdpAssociation` and
`socket` the local socket the system grants, if any.
-/
def onNewTask (mgr : UDPTaskMgr) (client : PrcClient) (proxyInfo : ProxyInfo)
    (canStart : Bool) (socket : Option SockAddr) : Bool × UDPTaskMgr :=
  if !canStart then (false, mgr)
  else
    let tasks := mgr.tasklist.filter fun task =>
      !(task.matchesAssociation client proxyInfo && task.isClosed)
    let add := fun task : UdpProxyTask => task.addRoute client socket
    match updateFirst (fun task => task.matchesAssociation client proxyInfo &&
        task.hasRoute client) add tasks with
    | some (ok, tasks) => (ok, ⟨tasks⟩)
    | none =>
      match updateFirst (fun task =>
          task.matchesAssociation client proxyInfo &&
            task.canAcceptRoute client) add tasks with
      | some (ok, tasks) => (ok, ⟨tasks⟩)
      | none =>
        match setTaskInfo client proxyInfo socket with
        | some task => (true, ⟨tasks ++ [task]⟩)
        | none => (false, ⟨tasks⟩)

end UDPTaskMgr

end ProxyLane.Hook
