import ProxyLane.Foundation.Run
import ProxyLane.Hook.UdpPayload

/-!
# Datagrams and their limits

A process connects UDP sockets and sends datagrams; the hook keeps a route and
a limit for every destination.  The route is found by its name and the limit by
its address, and connected sockets have their own look-up.  A datagram is
checked against the limit of its own route as long as these meet.
-/

namespace ProxyLane.Hook

open ProxyLane.Foundation

namespace UdpPayload

def known (client : PrcClient) (it : UdpPayloadLimit) : Bool :=
  it.s == client.s && it.generation == client.socketGeneration &&
    it.destination.sameEndpoint client.dstAddr &&
    sameText it.domain client.szDomainName

def getUDPMaxPayload (limits : List UdpPayloadLimit) (client : PrcClient) :
    Option Nat :=
  (limits.find? (known client)).map (·.maxPayload)

def connectedTo (s : Nat) (it : UdpPayloadLimit) : Bool := it.s == s && it.connected

def getConnectedUDPMaxPayload (limits : List UdpPayloadLimit) (s : Nat) :
    Option Nat :=
  (limits.find? (connectedTo s)).map (·.maxPayload)

def remove (sockets : HackedSocket) (s : Nat) : HackedSocket :=
  { sockets with
    ls := sockets.ls.filter (·.s != s)
    socketGenerations := sockets.socketGenerations.filter (·.s != s)
    udpPayloadLimits := sockets.udpPayloadLimits.filter (·.s != s) }

/-- What the system answers during a call; `profile` is whether the profile is
read, and `route` the local address that the reception centre gives. -/
structure Call where
  dwPid : Nat
  dwTid : Nat
  processCreateTime : Nat
  endpoint : Option SockAddr
  endpointInvalid : Bool
  bindOk : Bool
  endpointAfterBind : Option SockAddr
  requestPipe : Bool
  startupInfo : Option PrcInfo
  profile : Bool
  route : Option SockAddr
  onUdp : Nat
  deriving DecidableEq, Repr

def registeredAs (psi : ProxySettingsInfo) (proxyInfo : ProxyInfo)
    (client : PrcClient) (udpAddr : SockAddr) : PrcClient :=
  { DnsRedirectPolicy.apply client psi proxyInfo with udpAddr := udpAddr }

def Call.env (call : Call) (proxyInfo : ProxyInfo) (hook : HookWinsock)
    (sType : SockType) : CallEnv where
  dwPid := call.dwPid
  dwTid := call.dwTid
  processCreateTime := call.processCreateTime
  sockType := some sType
  endpoint := call.endpoint
  endpointInvalid := call.endpointInvalid
  bindOk := call.bindOk
  endpointAfterBind := call.endpointAfterBind
  requestPipe := call.requestPipe
  startupInfo := call.startupInfo
  proxyInfo := if call.profile then some proxyInfo else none
  lsAfterLock := hook.hackedSocket.ls
  onUdp := call.onUdp
  registered := fun client =>
    call.route.map (registeredAs hook.psi proxyInfo client)

def Call.client (call : Call) (proxyInfo : ProxyInfo) (hook : HookWinsock)
    (sType : SockType) (s : Nat) (addrname : SockAddr) : PrcClient :=
  makeClient (call.env proxyInfo hook sType) hook.dummyDNS sType s
    (hook.hackedSocket.getSocketGeneration s sType).1
    ((call.endpoint.or call.endpointAfterBind).getD .unspec) addrname

structure Peer where
  route : PrcClient
  target : SockAddr
  deriving DecidableEq, Repr

/-- A datagram that is redirected: where it goes, the limit it is checked
against, if any, and its buffers. -/
structure Datagram where
  peer : Peer
  limit : Option Nat
  buffers : List Bytes
  deriving DecidableEq, Repr

/-- `peers` is what sockets are connected to, `log` the datagrams. -/
structure Machine where
  hook : HookWinsock
  peers : Nat → Option Peer
  log : List Datagram

/-- `wsaSend` is `WSASendTo` or `WSASendMsg` without an address, `send` is `send`
or `WSASend`. -/
inductive Event where
  | resolve (memory : Bytes) (ipv6 : Bool)
  | connect (call : Call) (sType : SockType) (s : Nat) (addrname : SockAddr)
  | sendTo (call : Call) (s : Nat) (addrname : SockAddr) (buffers : List Bytes)
  | wsaSend (s : Nat) (buffers : List Bytes)
  | send (s : Nat) (buffers : List Bytes)
  | closeSocket (s : Nat)

section Machine

variable (inetAddr : Bytes → InAddr) (proxyInfo : ProxyInfo)

def sendToRoute (hook : HookWinsock) (call : Call) (s : Nat)
    (addrname : SockAddr) : PrcClient × Nat :=
  let client := call.client proxyInfo hook .dgram s addrname
  match HackedSocket.udpRoute hook.hackedSocket.ls client with
  | some it =>
    (it, (getUDPMaxPayload hook.hackedSocket.udpPayloadLimits client).getD
      UdpPayloadPolicy.maxIPv4UdpPayload)
  | none =>
    let route := registeredAs hook.psi proxyInfo
      { client with reserved := call.onUdp } (call.route.getD .unspec)
    (route, routeMaxPayload proxyInfo route)

def connectRoute (hook : HookWinsock) (call : Call) (sType : SockType) (s : Nat)
    (addrname : SockAddr) : PrcClient :=
  registeredAs hook.psi proxyInfo (call.client proxyInfo hook sType s addrname)
    (call.route.getD .unspec)

def connectStep (m : Machine) (call : Call) (sType : SockType) (s : Nat)
    (addrname : SockAddr) : Machine :=
  let reply := hackConnect inetAddr m.hook (call.env proxyInfo m.hook sType) s addrname
  let peer :=
    match sType, reply.decision with
    | .dgram, .redirected =>
      some ⟨connectRoute proxyInfo m.hook call sType s addrname, reply.addrname⟩
    | .dgram, .bypass => none
    | _, _ => m.peers s
  { m with hook := reply.hook, peers := Function.update m.peers s peer }

def sendToStep (m : Machine) (call : Call) (s : Nat) (addrname : SockAddr)
    (buffers : List Bytes) : Machine :=
  let reply := hackSendTo inetAddr m.hook (call.env proxyInfo m.hook .dgram) s addrname
  if reply.decision = .redirected then
    let (route, limit) := sendToRoute proxyInfo m.hook call s addrname
    { m with
      hook := reply.hook
      log := m.log ++ [⟨⟨route, reply.addrname⟩, some limit, buffers⟩] }
  else { m with hook := reply.hook }

def sendOn (m : Machine) (s : Nat) (limit : Option Nat) (buffers : List Bytes) :
    Machine :=
  match m.peers s with
  | some peer => { m with log := m.log ++ [⟨peer, limit, buffers⟩] }
  | none => m

def step (m : Machine) : Event → Machine
  | .resolve memory ipv6 =>
    let host := cString memory
    { m with hook := { m.hook with
      dummyDNS := (m.hook.dummyDNS.lookup
        (if ipv6 then .ipv6 host else .ip host)).2 } }
  | .connect call sType s addrname =>
    connectStep inetAddr proxyInfo m call sType s addrname
  | .sendTo call s addrname buffers =>
    sendToStep inetAddr proxyInfo m call s addrname buffers
  | .wsaSend s buffers =>
    sendOn m s (getConnectedUDPMaxPayload m.hook.hackedSocket.udpPayloadLimits s)
      buffers
  | .send s buffers => sendOn m s none buffers
  | .closeSocket s =>
    { m with
      hook := { m.hook with hackedSocket := remove m.hook.hackedSocket s }
      peers := Function.update m.peers s none }

end Machine

def init (psi : ProxySettingsInfo) : Machine where
  hook := ⟨psi, .init, ⟨[], [], [], 0⟩⟩
  peers := fun _ => none
  log := []

def limitOf (proxyInfo : ProxyInfo) (destination : SockAddr) (domain : Bytes) :
    Nat :=
  UdpPayloadPolicy.maxPayload (proxyInfo.getProxyType == .socks5)
    (if !domain.isEmpty then some domain else none) destination.isIPv6

theorem routeMaxPayload_eq (proxyInfo : ProxyInfo) (client : PrcClient) :
    routeMaxPayload proxyInfo client =
      limitOf proxyInfo client.dstAddr client.szDomainName := rfl

theorem limitOf_sameText {domain other : Bytes} (proxyInfo : ProxyInfo)
    (destination : SockAddr) (h : sameText domain other = true) :
    limitOf proxyInfo destination domain = limitOf proxyInfo destination other := by
  have hlength : domain.length = other.length := by
    rw [← foldCase_length, sameText_iff.1 h, foldCase_length]
  cases domain <;> cases other <;>
    simp_all [limitOf, UdpPayloadPolicy.maxPayload, UdpPayloadPolicy.socks5HeaderSize]

theorem known_iff {client : PrcClient} {it : UdpPayloadLimit} :
    known client it = true ↔
      it.s = client.s ∧ it.generation = client.socketGeneration ∧
        it.destination = client.dstAddr ∧ client.dstAddr ≠ .unspec ∧
        sameText it.domain client.szDomainName = true := by
  simp only [known, Bool.and_eq_true, beq_iff_eq, SockAddr.sameEndpoint_iff]
  constructor
  · rintro ⟨⟨⟨hs, hgeneration⟩, hsame, hne⟩, htext⟩
    exact ⟨hs, hgeneration, hsame, hsame ▸ hne, htext⟩
  · rintro ⟨hs, hgeneration, hsame, hne, htext⟩
    exact ⟨⟨⟨hs, hgeneration⟩, hsame, hsame ▸ hne⟩, htext⟩

theorem known_limit {proxyInfo : ProxyInfo} {client : PrcClient}
    {it : UdpPayloadLimit} (h : known client it = true)
    (hlimit : it.maxPayload = limitOf proxyInfo it.destination it.domain) :
    it.maxPayload = routeMaxPayload proxyInfo client := by
  obtain ⟨-, -, hdestination, -, htext⟩ := known_iff.1 h
  rw [hlimit, hdestination, routeMaxPayload_eq]
  exact limitOf_sameText proxyInfo client.dstAddr htext

private theorem replaceFirst_append {α : Type} {p : α → Bool} {before after : List α}
    {it item : α} (hbefore : ∀ x ∈ before, p x = false) (hit : p it = true) :
    HackedSocket.replaceFirst p item (before ++ it :: after) =
      some (before ++ item :: after) := by
  induction before with
  | nil => simp [HackedSocket.replaceFirst, hit]
  | cons x before ih =>
    have hx : p x = false := hbefore x (by simp)
    have hrest := ih fun y hy => hbefore y (by simp [hy])
    simp [HackedSocket.replaceFirst, hx, hrest]

structure Recorded (client : PrcClient) (maxPayload : Nat) (connected : Bool)
    (limits limits' : List UdpPayloadLimit) : Prop where
  split : ∃ before entry after, limits' = before ++ entry :: after ∧
    known client entry = true ∧ entry.maxPayload = maxPayload ∧
    entry.connected = connected ∧ (∀ it ∈ before, known client it = false) ∧
    ((before = [] ∧ limits = after ∧ limits.find? (known client) = none) ∨
      ∃ it, limits = before ++ it :: after ∧ known client it = true)

theorem setUDPMaxPayload_recorded {sockets : HackedSocket} {client : PrcClient}
    {maxPayload : Nat} {connected : Bool} (hdgram : client.sType = .dgram)
    (haddress : client.dstAddr ≠ .unspec) (hname : client.szDomainName.length ≤ 255) :
    ∃ limits', sockets.setUDPMaxPayload client maxPayload connected =
        { sockets with udpPayloadLimits := limits' } ∧
      Recorded client maxPayload connected sockets.udpPayloadLimits limits' := by
  have hknown : (fun it : UdpPayloadLimit =>
      it.s == client.s && it.generation == client.socketGeneration &&
        it.destination.sameEndpoint client.dstAddr &&
        sameText it.domain client.szDomainName) = known client := rfl
  simp only [HackedSocket.setUDPMaxPayload, hdgram, hknown]
  cases hfind : sockets.udpPayloadLimits.find? (known client) with
  | none =>
    refine ⟨_, rfl, ⟨[], _, sockets.udpPayloadLimits, rfl, ?_, rfl, rfl, by simp,
      Or.inl ⟨rfl, rfl, hfind⟩⟩⟩
    rw [known_iff]
    simp [haddress, List.take_of_length_le hname, sameText_iff]
  | some it =>
    obtain ⟨hit, before, after, hsplit, hbefore⟩ :=
      List.find?_eq_some_iff_append.1 hfind
    have hbefore : ∀ x ∈ before, known client x = false := by
      simpa using hbefore
    refine ⟨_, rfl, ⟨before, { it with maxPayload, connected }, after, ?_, ?_, rfl,
      rfl, hbefore, Or.inr ⟨it, hsplit, hit⟩⟩⟩
    · rw [hsplit, replaceFirst_append hbefore hit]
      rfl
    · exact hit

namespace Recorded

variable {client : PrcClient} {maxPayload : Nat} {connected : Bool}
  {limits limits' : List UdpPayloadLimit}

theorem exists_known (h : Recorded client maxPayload connected limits limits') :
    ∃ it ∈ limits', known client it = true := by
  obtain ⟨before, entry, after, rfl, hentry, -⟩ := h.split
  exact ⟨entry, by simp, hentry⟩

theorem of_mem (h : Recorded client maxPayload connected limits limits')
    {it : UdpPayloadLimit} (hit : it ∈ limits') :
    it ∈ limits ∨ known client it = true ∧ it.maxPayload = maxPayload := by
  obtain ⟨before, entry, after, rfl, hentry, hmax, -, -, hold⟩ := h.split
  simp only [List.mem_append, List.mem_cons] at hit
  rcases hit with hit | rfl | hit
  · rcases hold with ⟨rfl, -, -⟩ | ⟨old, rfl, -⟩
    · simp at hit
    · simp [hit]
  · exact Or.inr ⟨hentry, hmax⟩
  · rcases hold with ⟨rfl, rfl, -⟩ | ⟨old, rfl, -⟩
    · exact Or.inl hit
    · simp [hit]

theorem known_kept (h : Recorded client maxPayload connected limits limits')
    {other : PrcClient} (hother : ∃ it ∈ limits, known other it = true) :
    ∃ it ∈ limits', known other it = true := by
  obtain ⟨it, hmem, hit⟩ := hother
  obtain ⟨before, entry, after, rfl, hentry, -, -, -, hold⟩ := h.split
  rcases hold with ⟨rfl, rfl, -⟩ | ⟨old, rfl, hold⟩
  · exact ⟨it, by simp [hmem], hit⟩
  · simp only [List.mem_append, List.mem_cons] at hmem
    rcases hmem with hmem | rfl | hmem
    · exact ⟨it, by simp [hmem], hit⟩
    · refine ⟨entry, by simp, ?_⟩
      simp only [known_iff, sameText_iff] at *
      grind
    · exact ⟨it, by simp [hmem], hit⟩

theorem find_other (h : Recorded client maxPayload connected limits limits')
    {s : Nat} (hs : s ≠ client.s) :
    limits'.find? (connectedTo s) = limits.find? (connectedTo s) := by
  have hnot : ∀ it, known client it = true → connectedTo s it = false := by
    intro it hit
    have := (known_iff.1 hit).1
    simp only [connectedTo, Bool.and_eq_false_iff, beq_eq_false_iff_ne]
    exact Or.inl (by omega)
  obtain ⟨before, entry, after, rfl, hentry, -, -, -, hold⟩ := h.split
  rcases hold with ⟨rfl, rfl, -⟩ | ⟨old, rfl, hold⟩
  · simp [hnot entry hentry]
  · simp [List.find?_append, hnot entry hentry, hnot old hold]

theorem find_same (h : Recorded client maxPayload false limits limits')
    (hfree : ∀ it, limits.find? (known client) = some it → it.connected = false) :
    limits'.find? (connectedTo client.s) = limits.find? (connectedTo client.s) := by
  obtain ⟨before, entry, after, rfl, hentry, -, hconnected, hbefore, hold⟩ := h.split
  have hentryNot : connectedTo client.s entry = false := by
    simp [connectedTo, hconnected]
  rcases hold with ⟨rfl, rfl, -⟩ | ⟨old, rfl, hold⟩
  · simp [hentryNot]
  · have holdNot : connectedTo client.s old = false := by
      simp [connectedTo, hfree old
        (List.find?_eq_some_iff_append.2 ⟨hold, before, after, rfl, by simpa using hbefore⟩)]
    simp [List.find?_append, hentryNot, holdNot]

theorem find_first (h : Recorded client maxPayload true limits limits')
    (hfirst : (limits.find? (known client)).isSome = true →
      ∀ it, limits.find? (fun it => known client it || connectedTo client.s it) =
        some it → known client it = true) :
    (limits'.find? (connectedTo client.s)).map (·.maxPayload) = some maxPayload := by
  obtain ⟨before, entry, after, rfl, hentry, hmax, hconnected, hbefore, hold⟩ := h.split
  have hentryFound : connectedTo client.s entry = true := by
    simp [connectedTo, hconnected, (known_iff.1 hentry).1]
  have hfree : ∀ it ∈ before, connectedTo client.s it = false := by
    intro it hit
    rcases hold with ⟨rfl, -, -⟩ | ⟨old, rfl, hold⟩
    · simp at hit
    · by_contra hconn
      have hsome : (before.find? fun it =>
          known client it || connectedTo client.s it).isSome = true := by
        rw [List.find?_isSome]
        exact ⟨it, hit, by simp [Bool.eq_true_of_not_eq_false hconn]⟩
      obtain ⟨first, hfound⟩ := Option.isSome_iff_exists.1 hsome
      have hknown := hfirst (by simp [List.find?_append, hold])
        first (by simp [List.find?_append, hfound])
      rw [hbefore first (List.mem_of_find?_eq_some hfound)] at hknown
      exact Bool.false_ne_true hknown
  have hnone : before.find? (connectedTo client.s) = none := by
    simpa using hfree
  simp [List.find?_append, hnone, hentryFound, hmax]

end Recorded

end UdpPayload

end ProxyLane.Hook
