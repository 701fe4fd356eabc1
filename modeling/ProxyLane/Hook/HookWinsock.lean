import ProxyLane.Hook.DummyDNS

/-!
# Interception decisions

`hackConnect` and `hackSendTo` decide for one call of the application whether
it is redirected to the reception centre, refused, or left alone.  The answers
of Winsock and of the request pipe during the call are inputs of the model, as
is `inet_addr`, which reads the configured proxy host.
-/

namespace ProxyLane.Hook

open ProxyLane.Foundation

inductive HookDecision where
  | bypass
  | redirected
  | failed
  deriving DecidableEq, Repr

inductive WsaError where
  | hostUnreach
  | afNoSupport
  deriving DecidableEq, Repr

structure SocketGen where
  s : Nat
  sType : SockType
  generation : Nat
  deriving DecidableEq, Repr

structure UdpPayloadLimit where
  s : Nat
  generation : Nat
  destination : SockAddr
  domain : Bytes
  maxPayload : Nat
  connected : Bool
  deriving DecidableEq, Repr

structure HackedSocket where
  ls : List PrcClient
  socketGenerations : List SocketGen
  udpPayloadLimits : List UdpPayloadLimit
  nextSocketGeneration : Nat
  deriving DecidableEq, Repr

namespace HackedSocket

def getSocketGeneration (sockets : HackedSocket) (s : Nat)
    (sType : SockType) : Nat × HackedSocket :=
  match sockets.socketGenerations.find?
      fun it => it.s == s && it.sType == sType with
  | some it => (it.generation, sockets)
  | none =>
    let next := (sockets.nextSocketGeneration + 1) % 2 ^ 64
    let next := if next = 0 then 1 else next
    (next, { sockets with
      nextSocketGeneration := next
      socketGenerations := sockets.socketGenerations ++ [⟨s, sType, next⟩] })

def sameRegistration (left right : PrcClient) : Bool :=
  left.s == right.s && left.sType == right.sType &&
    left.srcAddr.getPort == right.srcAddr.getPort &&
    left.dstAddr.sameEndpoint right.dstAddr &&
    sameText left.szDomainName right.szDomainName

def replaceFirst {α : Type} (p : α → Bool) (item : α) :
    List α → Option (List α)
  | [] => none
  | head :: tail =>
    if p head then some (item :: tail)
    else (replaceFirst p item tail).map (head :: ·)

def push (sockets : HackedSocket) (client : PrcClient) : HackedSocket :=
  { sockets with
    ls := (replaceFirst (sameRegistration · client) client sockets.ls).getD
      (client :: sockets.ls) }

def setUDPMaxPayload (sockets : HackedSocket) (client : PrcClient)
    (maxPayload : Nat) (connected : Bool) : HackedSocket :=
  if client.sType != .dgram then sockets
  else
    let limit : UdpPayloadLimit :=
      ⟨client.s, client.socketGeneration, client.dstAddr,
        client.szDomainName.take 255, maxPayload, connected⟩
    let known := fun it : UdpPayloadLimit =>
      it.s == client.s && it.generation == client.socketGeneration &&
        it.destination.sameEndpoint client.dstAddr &&
        sameText it.domain client.szDomainName
    match sockets.udpPayloadLimits.find? known with
    | some it =>
      { sockets with udpPayloadLimits :=
          (replaceFirst known { it with maxPayload, connected }
            sockets.udpPayloadLimits).getD sockets.udpPayloadLimits }
    | none =>
      { sockets with udpPayloadLimits := limit :: sockets.udpPayloadLimits }

/-- The registration that `IsUDPReqHacked` finds. -/
def udpRoute (ls : List PrcClient) (client : PrcClient) : Option PrcClient :=
  ls.find? fun it =>
    it.s == client.s && it.sType == .dgram &&
      it.srcAddr.getPort == client.srcAddr.getPort &&
      (it.srcAddr.isAny || it.srcAddr.sameAddress client.srcAddr) &&
      if client.isDNValid then
        it.isDNValid && sameText it.szDomainName client.szDomainName &&
          it.dstAddr.getPort == client.dstAddr.getPort
      else
        !it.isDNValid && it.dstAddr.sameEndpoint client.dstAddr

def isUDPReqHacked (ls : List PrcClient) (client : PrcClient) :
    Option SockAddr :=
  (udpRoute ls client).map (·.udpAddr)

def isUDPRouteAddress (ls : List PrcClient) (s : Nat)
    (destination : SockAddr) : Bool :=
  destination.family != .unspec &&
    ls.any fun it =>
      it.s == s && it.sType == .dgram &&
        it.udpAddr.getPort == destination.getPort &&
        (it.udpAddr.sameAddress destination ||
          (it.udpAddr.isAny && destination.isLoopback))

end HackedSocket

structure HookWinsock where
  psi : ProxySettingsInfo
  dummyDNS : DummyDNS
  hackedSocket : HackedSocket
  deriving DecidableEq, Repr

/--
What the system and the reception centre answer during one call.  A failed
`GetSocketEndpoint` says whether the error was `WSAEINVAL`;
`lsAfterLock` is the registration list once the pipe lock is held, which other
threads may have extended.
-/
structure CallEnv where
  dwPid : Nat
  dwTid : Nat
  processCreateTime : Nat
  sockType : Option SockType
  endpoint : Option SockAddr
  endpointInvalid : Bool
  bindOk : Bool
  endpointAfterBind : Option SockAddr
  requestPipe : Bool
  startupInfo : Option PrcInfo
  proxyInfo : Option ProxyInfo
  lsAfterLock : List PrcClient
  onUdp : Nat
  registered : PrcClient → Option PrcClient

structure HookReply where
  decision : HookDecision
  addrname : SockAddr
  hook : HookWinsock
  lastError : Option WsaError

section Decisions

variable (inetAddr : Bytes → InAddr)

def canHackIt (psi : ProxySettingsInfo) (client : PrcClient)
    (proxyInfo : Option ProxyInfo) : HookDecision :=
  match proxyInfo with
  | none => .failed
  | some pi =>
    if DnsRedirectPolicy.shouldRedirect client psi pi then .redirected
    else if client.isDNValid then .redirected
    else if client.dstAddr.isIPv6 then .redirected
    else
      let dstaddr := client.dstAddr.getdwIP
      let proxyaddr := inetAddr pi.strProxyHost
      let sameLan := proxyaddr.net == dstaddr.net &&
        proxyaddr.host == dstaddr.host && proxyaddr.lh == dstaddr.lh
      if dstaddr == .any || dstaddr == .none then .bypass
      else if proxyaddr == .any || proxyaddr == .none then .redirected
      else if psi.bHookLanIP then .redirected
      else if dstaddr.net == 127 then
        if proxyaddr.net != 127 then .bypass else .redirected
      else if dstaddr.net == 192 && dstaddr.host == 168 then
        if !sameLan then .bypass else .redirected
      else if dstaddr.net == 172 && dstaddr.host ≥ 16 &&
          dstaddr.host ≤ 131 then
        if !sameLan then .bypass else .redirected
      else if dstaddr.net == 10 then
        if !sameLan then .bypass else .redirected
      else .redirected

def domainNameOf (dns : DummyDNS) (addrname : SockAddr) : Bytes :=
  if DummyDNS.isDummyIP addrname.getdwIP then
    (dns.getHostByIP addrname.getdwIP DummyDNS.hostSize).getD []
  else
    match addrname.getAddr6 with
    | some address =>
      if DummyDNS.isDummyIPv6 address then
        (dns.getHostByIPv6 address DummyDNS.hostSize).getD []
      else []
    | none => []

def isDummyDestination (addrname : SockAddr) : Bool :=
  match addrname with
  | .inet ip _ => DummyDNS.isDummyIP ip
  | .inet6 ip _ => DummyDNS.isDummyIPv6 ip
  | .unspec => false

def makeClient (env : CallEnv) (dns : DummyDNS) (sType : SockType)
    (s generation : Nat) (srcAddr addrname : SockAddr) : PrcClient :=
  { PrcClient.zero with
    sType
    s
    dwPid := env.dwPid
    dwTid := env.dwTid
    processCreateTime := env.processCreateTime
    socketGeneration := generation
    srcAddr
    dstAddr := addrname
    szDomainName := domainNameOf dns addrname }

def routeMaxPayload (proxyInfo : ProxyInfo) (client : PrcClient) : Nat :=
  UdpPayloadPolicy.maxPayload (proxyInfo.getProxyType == .socks5)
    (if client.isDNValid then some client.szDomainName else none)
    client.dstAddr.isIPv6

def routeTarget (route : SockAddr) (client : PrcClient) : SockAddr :=
  if route.isAny then SockAddr.setLoopbackAddress client.dstAddr.family
  else route

/-- `HackConnect` from the bound source endpoint on. -/
def hackConnectFrom (hook : HookWinsock) (env : CallEnv) (s : Nat)
    (addrname : SockAddr) (sType : SockType) (srcAddr : SockAddr) :
    HookReply :=
  let (generation, sockets) :=
    hook.hackedSocket.getSocketGeneration s sType
  let hook := { hook with hackedSocket := sockets }
  let prcc :=
    makeClient env hook.dummyDNS sType s generation srcAddr addrname
  if !env.requestPipe then ⟨.failed, addrname, hook, none⟩
  else
    match env.startupInfo with
    | none => ⟨.failed, addrname, hook, none⟩
    | some prcinfo =>
      match canHackIt inetAddr hook.psi prcc env.proxyInfo with
      | .failed => ⟨.failed, addrname, hook, none⟩
      | .bypass => ⟨.bypass, addrname, hook, none⟩
      | .redirected =>
        if sType == .stream && prcc.dstAddr.isIPv6 &&
            !prcinfo.tcpaddr6.isIPv6 then
          ⟨.failed, addrname, hook, some .afNoSupport⟩
        else
          match env.registered prcc, env.proxyInfo with
          | some prcc, some proxyInfo =>
            let sockets := hook.hackedSocket.push prcc
            let sockets := sockets.setUDPMaxPayload prcc
              (routeMaxPayload proxyInfo prcc) true
            let target :=
              if sType == .dgram then prcc.udpAddr
              else if prcc.dstAddr.isIPv6 then prcinfo.tcpaddr6
              else prcinfo.tcpaddr
            ⟨.redirected, routeTarget target prcc,
              { hook with hackedSocket := sockets }, none⟩
          | _, _ => ⟨.failed, addrname, hook, none⟩

def hackConnect (hook : HookWinsock) (env : CallEnv) (s : Nat)
    (addrname : SockAddr) : HookReply :=
  match env.sockType with
  | none => ⟨.failed, addrname, hook, none⟩
  | some .other => ⟨.bypass, addrname, hook, none⟩
  | some sType =>
    if sType == .dgram && hook.psi.bDisableMDNS &&
        UdpAssociationPolicy.isMdnsDestination addrname then
      ⟨.failed, addrname, hook, some .hostUnreach⟩
    else if sType == .dgram && !hook.psi.bHookUDP then
      ⟨.bypass, addrname, hook, none⟩
    else if sType == .stream && !hook.psi.bHookTCP then
      ⟨.bypass, addrname, hook, none⟩
    else if addrname.isLoopback && !isDummyDestination addrname then
      ⟨.bypass, addrname, hook, none⟩
    else
      match env.endpoint with
      | some srcAddr => hackConnectFrom inetAddr hook env s addrname sType srcAddr
      | none =>
        if !env.bindOk then ⟨.failed, addrname, hook, none⟩
        else
          match env.endpointAfterBind with
          | some srcAddr =>
            hackConnectFrom inetAddr hook env s addrname sType srcAddr
          | none => ⟨.failed, addrname, hook, none⟩

/-- `HackSendTo` from the bound source endpoint on. -/
def hackSendToFrom (hook : HookWinsock) (env : CallEnv) (s : Nat)
    (addrname : SockAddr) (srcAddr : SockAddr) : HookReply :=
  let (generation, sockets) :=
    hook.hackedSocket.getSocketGeneration s .dgram
  let hook := { hook with hackedSocket := sockets }
  let prcc :=
    makeClient env hook.dummyDNS .dgram s generation srcAddr addrname
  match HackedSocket.isUDPReqHacked hook.hackedSocket.ls prcc with
  | some udpAddr => ⟨.redirected, routeTarget udpAddr prcc, hook, none⟩
  | none =>
    let hook := { hook with
      hackedSocket := { hook.hackedSocket with ls := env.lsAfterLock } }
    match HackedSocket.isUDPReqHacked env.lsAfterLock prcc with
    | some udpAddr => ⟨.redirected, routeTarget udpAddr prcc, hook, none⟩
    | none =>
      if !env.requestPipe then ⟨.failed, addrname, hook, none⟩
      else
        match canHackIt inetAddr hook.psi prcc env.proxyInfo with
        | .failed => ⟨.failed, addrname, hook, none⟩
        | .bypass => ⟨.bypass, addrname, hook, none⟩
        | .redirected =>
          match env.registered { prcc with reserved := env.onUdp },
              env.proxyInfo with
          | some prcc, some proxyInfo =>
            let sockets := hook.hackedSocket.push prcc
            let sockets := sockets.setUDPMaxPayload prcc
              (routeMaxPayload proxyInfo prcc) false
            ⟨.redirected, routeTarget prcc.udpAddr prcc,
              { hook with hackedSocket := sockets }, none⟩
          | _, _ => ⟨.failed, addrname, hook, none⟩

def hackSendTo (hook : HookWinsock) (env : CallEnv) (s : Nat)
    (addrname : SockAddr) : HookReply :=
  if !hook.psi.bHookUDP then ⟨.bypass, addrname, hook, none⟩
  else
    match env.sockType with
    | none => ⟨.failed, addrname, hook, none⟩
    | some sType =>
      if sType != .dgram then ⟨.bypass, addrname, hook, none⟩
      else if HackedSocket.isUDPRouteAddress hook.hackedSocket.ls s
          addrname then
        ⟨.bypass, addrname, hook, none⟩
      else
        match env.endpoint with
        | some srcAddr => hackSendToFrom inetAddr hook env s addrname srcAddr
        | none =>
          if !env.endpointInvalid then ⟨.failed, addrname, hook, none⟩
          else if !env.bindOk then ⟨.failed, addrname, hook, none⟩
          else
            match env.endpointAfterBind with
            | some srcAddr =>
              hackSendToFrom inetAddr hook env s addrname srcAddr
            | none => ⟨.failed, addrname, hook, none⟩

end Decisions

end ProxyLane.Hook
