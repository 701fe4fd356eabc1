import ProxyLane.Hook.NoLeak
import ProxyLane.Hook.UdpDatagrams

/-!
# Agreement of the hook and the encoder

The limit of a route and the header that its datagrams get are compared first,
route by route.  A run then checks every datagram against the limit of its own
route, as long as a name keeps the address it was registered with and a
connected socket does not return to a destination it had before.
-/

namespace ProxyLane.Hook

open ProxyLane.Foundation

namespace UdpPayload

/-! ## Routes -/

structure Route (client : PrcClient) : Prop where
  named : Named client
  redirected : client.dnsRedirect = true → client.szDomainName = []

/-- When the header, and 16 bytes more on a secure transport, are not more than
the limit leaves for them. -/
def Meets (inetAddr : Bytes → InAddr) (proxyInfo : ProxyInfo)
    (client : PrcClient) : Prop :=
  proxyInfo.getProxyType = .socks5 →
    if client.szDomainName = [] then
      isSecure proxyInfo = false ∧
        (client.getProxyDestination.isIPv6 = true → client.dstAddr.isIPv6 = true)
    else if inetAddr client.szDomainName = InAddr.none then
      isSecure proxyInfo = false ∧
        (client.dstAddr.isIPv6 = true → client.szDomainName.length ≤ 15)
    else if isSecure proxyInfo then
      client.dstAddr.isIPv6 = false ∧ 19 ≤ client.szDomainName.length
    else client.dstAddr.isIPv6 = true ∨ 3 ≤ client.szDomainName.length

variable {inetAddr : Bytes → InAddr} {proxyInfo : ProxyInfo}

theorem encoderHeader_route {client : PrcClient} (h : Route client) :
    encoderHeader inetAddr (UdpProxyTask.makeTarget client) =
      if client.szDomainName = [] then
        if client.getProxyDestination.isIPv6 then 22 else 10
      else if inetAddr client.szDomainName = InAddr.none then
        7 + client.szDomainName.length
      else 10 := by
  have htake := List.take_of_length_le h.named.1
  have haddress : ∀ address : SockAddr,
      (if address = .unspec then .inet .loopback 0 else address).isIPv6 =
        address.isIPv6 := by
    intro address
    cases address <;> rfl
  have hredirected := h.redirected
  simp only [encoderHeader, UdpProxyTask.makeTarget, CSAddrInfo.normalize, htake,
    PrcClient.hasProxyDestination, haddress]
  cases hdns : client.dnsRedirect with
  | true => simp [hredirected hdns]
  | false => simp [List.isEmpty_iff]

theorem limitHeader_route {client : PrcClient} (h : Route client) :
    limitHeader client =
      if client.dstAddr.isIPv6 then 22
      else if client.szDomainName = [] then 10
      else 7 + client.szDomainName.length := by
  have hlength : ¬ 255 < client.szDomainName.length := Nat.not_lt.2 h.named.1
  simp only [limitHeader, UdpPayloadPolicy.socks5HeaderSize, PrcClient.isDNValid]
  by_cases hname : client.szDomainName = []
  · simp [hname]
  · simp [hname, hlength]

theorem fits_iff_meets {client : PrcClient} (h : Route client) :
    Fits inetAddr proxyInfo client ↔ Meets inetAddr proxyInfo client := by
  apply forall_congr'
  intro _
  rw [encoderHeader_route h, limitHeader_route h]
  cases isSecure proxyInfo <;> split_ifs <;> simp_all <;> omega

structure Registered (sockets : HackedSocket) (client : PrcClient) : Prop where
  route : Route client
  generation : ∃ it,
    sockets.socketGenerations.find? (fun it => it.s == client.s && it.sType == .dgram) =
      some it ∧ it.generation = client.socketGeneration
  limit : ∃ it ∈ sockets.udpPayloadLimits, known client it = true

structure TablesSound (proxyInfo : ProxyInfo) (sockets : HackedSocket) : Prop where
  limits : ∀ it ∈ sockets.udpPayloadLimits,
    it.maxPayload = limitOf proxyInfo it.destination it.domain
  routes : ∀ it ∈ sockets.ls, it.sType = .dgram → Registered sockets it

structure PeerSound (proxyInfo : ProxyInfo) (limits : List UdpPayloadLimit)
    (s : Nat) (peer : Peer) : Prop where
  socket : peer.route.s = s
  route : Route peer.route
  target : peer.target = routeTarget peer.route.udpAddr peer.route
  limit : proxyInfo.getProxyType = .socks5 →
    getConnectedUDPMaxPayload limits s =
      some (routeMaxPayload proxyInfo peer.route)

structure Checked (proxyInfo : ProxyInfo) (datagram : Datagram) : Prop where
  route : Route datagram.peer.route
  target : datagram.peer.target =
    routeTarget datagram.peer.route.udpAddr datagram.peer.route
  limit : proxyInfo.getProxyType = .socks5 →
    datagram.limit = some (routeMaxPayload proxyInfo datagram.peer.route)

structure Sound (proxyInfo : ProxyInfo) (m : Machine) : Prop where
  names : ∀ info ∈ m.hook.dummyDNS.ls, info.szHost.length ≤ 255 ∧ 0 ∉ info.szHost
  tables : TablesSound proxyInfo m.hook.hackedSocket
  peers : ∀ s peer, m.peers s = some peer →
    PeerSound proxyInfo m.hook.hackedSocket.udpPayloadLimits s peer
  log : ∀ datagram ∈ m.log, Checked proxyInfo datagram

/-! ## Steps of the tables -/

section Tables

variable {sockets : HackedSocket} {client : PrcClient} {s : Nat} {sType : SockType}

theorem getSocketGeneration_limits (sockets : HackedSocket) (s : Nat)
    (sType : SockType) :
    (sockets.getSocketGeneration s sType).2.udpPayloadLimits =
      sockets.udpPayloadLimits := by
  rw [HackedSocket.getSocketGeneration]
  split <;> rfl

theorem getSocketGeneration_find (sockets : HackedSocket) (s : Nat)
    (sType : SockType) :
    ∃ it, (sockets.getSocketGeneration s sType).2.socketGenerations.find?
        (fun it => it.s == s && it.sType == sType) = some it ∧
      it.generation = (sockets.getSocketGeneration s sType).1 := by
  rw [HackedSocket.getSocketGeneration]
  cases hfind : sockets.socketGenerations.find?
      (fun it => it.s == s && it.sType == sType) with
  | some it => exact ⟨it, by simp [hfind], by simp⟩
  | none => simp [List.find?_append, hfind]

theorem getSocketGeneration_registered (h : Registered sockets client) :
    Registered (sockets.getSocketGeneration s sType).2 client := by
  refine ⟨h.route, ?_, by rw [getSocketGeneration_limits]; exact h.limit⟩
  obtain ⟨it, hfind, hgeneration⟩ := h.generation
  refine ⟨it, ?_, hgeneration⟩
  rw [HackedSocket.getSocketGeneration]
  split
  · exact hfind
  · simp [List.find?_append, hfind]

theorem getSocketGeneration_sound (h : TablesSound proxyInfo sockets) :
    TablesSound proxyInfo (sockets.getSocketGeneration s sType).2 := by
  refine ⟨?_, ?_⟩
  · rw [getSocketGeneration_limits]
    exact h.limits
  · rw [getSocketGeneration_ls]
    exact fun it hit hdgram => getSocketGeneration_registered (h.routes it hit hdgram)

theorem mem_replaceFirst {α : Type} {p : α → Bool} {item x : α} {l l' : List α}
    (h : HackedSocket.replaceFirst p item l = some l') (hx : x ∈ l') :
    x = item ∨ x ∈ l := by
  induction l generalizing l' with
  | nil => simp [HackedSocket.replaceFirst] at h
  | cons head tail ih =>
    simp only [HackedSocket.replaceFirst] at h
    split at h
    · simp only [Option.some.injEq] at h
      subst h
      simp only [List.mem_cons] at hx ⊢
      tauto
    · obtain ⟨rest, hrest, rfl⟩ := Option.map_eq_some_iff.1 h
      simp only [List.mem_cons] at hx ⊢
      rcases hx with rfl | hx
      · simp
      · rcases ih hrest hx with rfl | hx <;> simp [*]

theorem mem_push {it : PrcClient} (h : it ∈ (sockets.push client).ls) :
    it = client ∨ it ∈ sockets.ls := by
  simp only [HackedSocket.push] at h
  cases hreplace : HackedSocket.replaceFirst
      (fun it => HackedSocket.sameRegistration it client) client sockets.ls with
  | none => simpa [hreplace] using h
  | some ls =>
    rw [hreplace] at h
    exact mem_replaceFirst hreplace h

theorem push_stream_sound (h : TablesSound proxyInfo sockets)
    (hstream : client.sType ≠ .dgram) :
    TablesSound proxyInfo (sockets.push client) := by
  refine ⟨h.limits, fun it hit hdgram => ?_⟩
  rcases mem_push hit with rfl | hit
  · exact absurd hdgram hstream
  · exact ⟨(h.routes it hit hdgram).route, (h.routes it hit hdgram).generation,
      (h.routes it hit hdgram).limit⟩

structure Fresh (sockets : HackedSocket) (client : PrcClient) : Prop where
  dgram : client.sType = .dgram
  address : client.dstAddr ≠ .unspec
  route : Route client
  generation : ∃ it,
    sockets.socketGenerations.find? (fun it => it.s == client.s && it.sType == .dgram) =
      some it ∧ it.generation = client.socketGeneration

theorem register_sound {connected : Bool} (h : TablesSound proxyInfo sockets)
    (hclient : Fresh sockets client) :
    ∃ limits', Recorded client (routeMaxPayload proxyInfo client) connected
        sockets.udpPayloadLimits limits' ∧
      ((sockets.push client).setUDPMaxPayload client
        (routeMaxPayload proxyInfo client) connected).udpPayloadLimits = limits' ∧
      TablesSound proxyInfo ((sockets.push client).setUDPMaxPayload client
        (routeMaxPayload proxyInfo client) connected) := by
  obtain ⟨limits', heq, hset⟩ := @setUDPMaxPayload_recorded (sockets.push client) client
    (routeMaxPayload proxyInfo client) connected hclient.dgram hclient.address
    hclient.route.named.1
  have hset : Recorded client (routeMaxPayload proxyInfo client) connected
    sockets.udpPayloadLimits limits' := hset
  rw [heq]
  refine ⟨limits', hset, rfl, fun it hit => ?_, fun it hit hdgram => ?_⟩
  · rcases hset.of_mem hit with hit | ⟨hknown, hmax⟩
    · exact h.limits it hit
    · obtain ⟨-, -, hdestination, -, htext⟩ := known_iff.1 hknown
      rw [hmax, routeMaxPayload_eq, hdestination]
      exact (limitOf_sameText proxyInfo client.dstAddr htext).symm
  · rcases mem_push hit with rfl | hit
    · exact ⟨hclient.route, hclient.generation, hset.exists_known⟩
    · have hold := h.routes it hit hdgram
      exact ⟨hold.route, hold.generation, hset.known_kept hold.limit⟩

theorem find_filter_other {α : Type} {p q : α → Bool} {l : List α}
    (h : ∀ x, p x = true → q x = true) : (l.filter q).find? p = l.find? p := by
  induction l with
  | nil => rfl
  | cons x l ih =>
    cases hp : p x with
    | true => simp [h x hp, hp]
    | false => cases hq : q x <;> simp [hq, hp, ih]

theorem remove_sound (h : TablesSound proxyInfo sockets) :
    TablesSound proxyInfo (remove sockets s) := by
  refine ⟨fun it hit => h.limits it (List.mem_filter.1 hit).1, fun it hit hdgram => ?_⟩
  obtain ⟨hit, hs⟩ := List.mem_filter.1 hit
  have hold := h.routes it hit hdgram
  have hs : it.s ≠ s := by simpa using hs
  obtain ⟨entry, hentry, hgeneration⟩ := hold.generation
  obtain ⟨limit, hlimit, hknown⟩ := hold.limit
  refine ⟨hold.route, ⟨entry, ?_, hgeneration⟩, limit, ?_, hknown⟩
  · rw [← hentry]
    apply find_filter_other
    intro x hx
    simp only [Bool.and_eq_true, beq_iff_eq] at hx
    simpa [hx.1] using hs
  · simpa [remove, hlimit, (known_iff.1 hknown).1] using hs

theorem remove_connected {other : Nat} (hother : other ≠ s) :
    getConnectedUDPMaxPayload (remove sockets s).udpPayloadLimits other =
      getConnectedUDPMaxPayload sockets.udpPayloadLimits other := by
  simp only [getConnectedUDPMaxPayload, remove]
  rw [find_filter_other]
  intro x hx
  simp only [connectedTo, Bool.and_eq_true, beq_iff_eq] at hx
  simpa [hx.1] using hother

end Tables

/-! ## Calls of the hook -/

section Calls

variable (inetAddr) (proxyInfo)

def withGeneration (hook : HookWinsock) (s : Nat) (sType : SockType) : HookWinsock :=
  { hook with hackedSocket := (hook.hackedSocket.getSocketGeneration s sType).2 }

def withRoute (hook : HookWinsock) (client : PrcClient) (connected : Bool) :
    HookWinsock :=
  let sockets := hook.hackedSocket.push client
  { hook with
    hackedSocket := sockets.setUDPMaxPayload client
      (routeMaxPayload proxyInfo client) connected }

variable {inetAddr} {proxyInfo}

theorem canHackIt_address {psi : ProxySettingsInfo} {client : PrcClient}
    (hname : client.dstAddr = .unspec → client.szDomainName = [])
    (h : canHackIt inetAddr psi client (some proxyInfo) = .redirected) :
    client.dstAddr ≠ .unspec := by
  intro haddress
  simp [canHackIt, haddress, hname haddress, DnsRedirectPolicy.shouldRedirect,
    DnsRedirectPolicy.isPrivateDnsAddress, SockAddr.isIPv4, SockAddr.isIPv4Mapped,
    SockAddr.family, SockAddr.getAddr6, SockAddr.isIPv6, SockAddr.getdwIP,
    PrcClient.isDNValid] at h

theorem profile_eq {call : Call} {hook : HookWinsock} {sType : SockType} {info : ProxyInfo}
    (h : (call.env proxyInfo hook sType).proxyInfo = some info) : proxyInfo = info := by
  simp only [Call.env, Option.ite_none_right_eq_some, Option.some.injEq] at h
  exact h.2

/-- What one `sendto` does: nothing, the route of an earlier datagram, or a new
route. -/
inductive SendToReply (hook : HookWinsock) (call : Call) (s : Nat)
    (addrname : SockAddr) (reply : HookReply) : Prop where
  | refused (decision : reply.decision ≠ .redirected)
      (hook : reply.hook = hook ∨ reply.hook = withGeneration hook s .dgram)
  | known (it : PrcClient) (decision : reply.decision = .redirected)
      (found : HackedSocket.udpRoute hook.hackedSocket.ls
        (call.client proxyInfo hook .dgram s addrname) = some it)
      (target : reply.addrname = routeTarget it.udpAddr
        (call.client proxyInfo hook .dgram s addrname))
      (hook : reply.hook = withGeneration hook s .dgram)
  | registered (udpAddr : SockAddr) (decision : reply.decision = .redirected)
      (found : HackedSocket.udpRoute hook.hackedSocket.ls
        (call.client proxyInfo hook .dgram s addrname) = none)
      (route : call.route = some udpAddr)
      (redirects : canHackIt inetAddr hook.psi
        (call.client proxyInfo hook .dgram s addrname) (some proxyInfo) = .redirected)
      (target : reply.addrname = routeTarget
        (sendToRoute proxyInfo hook call s addrname).1.udpAddr
        (sendToRoute proxyInfo hook call s addrname).1)
      (hook : reply.hook = withRoute proxyInfo (withGeneration hook s .dgram)
        (sendToRoute proxyInfo hook call s addrname).1 false)

theorem hackSendToFrom_cases (hook : HookWinsock) (call : Call) (s : Nat)
    (addrname srcAddr : SockAddr)
    (hsrc : srcAddr = (call.endpoint.or call.endpointAfterBind).getD .unspec) :
    @SendToReply inetAddr proxyInfo hook call s addrname
      (hackSendToFrom inetAddr hook (call.env proxyInfo hook .dgram) s addrname
        srcAddr) := by
  subst hsrc
  have hclient : makeClient (call.env proxyInfo hook .dgram) hook.dummyDNS .dgram s
      (hook.hackedSocket.getSocketGeneration s .dgram).1
      ((call.endpoint.or call.endpointAfterBind).getD .unspec) addrname =
      call.client proxyInfo hook .dgram s addrname := rfl
  have hafter : (call.env proxyInfo hook .dgram).lsAfterLock = hook.hackedSocket.ls :=
    rfl
  simp only [hackSendToFrom, getSocketGeneration_ls, HackedSocket.isUDPReqHacked, hclient,
    hafter]
  cases hfound : HackedSocket.udpRoute hook.hackedSocket.ls
      (call.client proxyInfo hook .dgram s addrname) with
  | some it => exact .known it rfl hfound rfl rfl
  | none =>
    have hsame : { (withGeneration hook s .dgram) with
        hackedSocket := { (hook.hackedSocket.getSocketGeneration s .dgram).2 with
          ls := hook.hackedSocket.ls } } = withGeneration hook s .dgram := by
      simp [withGeneration, HackedSocket.getSocketGeneration]
      split <;> rfl
    simp only [Option.map_none]
    split
    · exact .refused (by simp) (Or.inr hsame)
    · split
      · exact .refused (by simp) (Or.inr hsame)
      · exact .refused (by simp) (Or.inr hsame)
      · rename_i hredirects
        split
        · rename_i route info hroute hinfo
          obtain ⟨udpAddr, hudpAddr, hregistered⟩ := Option.map_eq_some_iff.1 hroute
          obtain rfl := profile_eq hinfo
          have hsend : (sendToRoute proxyInfo hook call s addrname).1 = route := by
            simp only [sendToRoute, hfound, hudpAddr, Option.getD_some]
            exact hregistered
          refine .registered udpAddr rfl hfound hudpAddr ?_ ?_ ?_
          · rwa [hinfo] at hredirects
          · rw [hsend]
          · rw [hsend, ← hsame]
            rfl
        · exact .refused (by simp) (Or.inr hsame)

theorem hackSendTo_cases (hook : HookWinsock) (call : Call) (s : Nat)
    (addrname : SockAddr) :
    @SendToReply inetAddr proxyInfo hook call s addrname
      (hackSendTo inetAddr hook (call.env proxyInfo hook .dgram) s addrname) := by
  have hsockType : (call.env proxyInfo hook .dgram).sockType = some .dgram := rfl
  have hendpoint : (call.env proxyInfo hook .dgram).endpoint = call.endpoint := rfl
  have hafter : (call.env proxyInfo hook .dgram).endpointAfterBind =
    call.endpointAfterBind := rfl
  simp only [hackSendTo, hsockType, hendpoint, hafter]
  cases hsrc : call.endpoint with
  | some srcAddr =>
    simp only
    split_ifs
    · exact .refused (by simp) (Or.inl rfl)
    · exact .refused (by simp) (Or.inl rfl)
    · exact .refused (by simp) (Or.inl rfl)
    · exact hackSendToFrom_cases hook call s addrname srcAddr (by simp [hsrc])
  | none =>
    cases hbound : call.endpointAfterBind with
    | some srcAddr =>
      simp only
      split_ifs
      · exact .refused (by simp) (Or.inl rfl)
      · exact .refused (by simp) (Or.inl rfl)
      · exact .refused (by simp) (Or.inl rfl)
      · exact .refused (by simp) (Or.inl rfl)
      · exact .refused (by simp) (Or.inl rfl)
      · exact hackSendToFrom_cases hook call s addrname srcAddr
          (by simp [hsrc, hbound])
    | none =>
      simp only
      split_ifs <;> exact .refused (by simp) (Or.inl rfl)

/-- What one `connect` does: nothing, or a new route. -/
inductive ConnectReply (hook : HookWinsock) (call : Call) (sType : SockType) (s : Nat)
    (addrname : SockAddr) (reply : HookReply) : Prop where
  | refused (decision : reply.decision ≠ .redirected)
      (hook : reply.hook = hook ∨ reply.hook = withGeneration hook s sType)
  | registered (udpAddr : SockAddr) (decision : reply.decision = .redirected)
      (route : call.route = some udpAddr)
      (redirects : canHackIt inetAddr hook.psi
        (call.client proxyInfo hook sType s addrname) (some proxyInfo) = .redirected)
      (target : sType = .dgram → reply.addrname = routeTarget
        (connectRoute proxyInfo hook call sType s addrname).udpAddr
        (connectRoute proxyInfo hook call sType s addrname))
      (hook : reply.hook = withRoute proxyInfo (withGeneration hook s sType)
        (connectRoute proxyInfo hook call sType s addrname) true)

theorem hackConnectFrom_cases (hook : HookWinsock) (call : Call) (sType : SockType)
    (s : Nat) (addrname srcAddr : SockAddr)
    (hsrc : srcAddr = (call.endpoint.or call.endpointAfterBind).getD .unspec) :
    @ConnectReply inetAddr proxyInfo hook call sType s addrname
      (hackConnectFrom inetAddr hook (call.env proxyInfo hook sType) s addrname sType
        srcAddr) := by
  subst hsrc
  have hclient : makeClient (call.env proxyInfo hook sType) hook.dummyDNS sType s
      (hook.hackedSocket.getSocketGeneration s sType).1
      ((call.endpoint.or call.endpointAfterBind).getD .unspec) addrname =
      call.client proxyInfo hook sType s addrname := rfl
  simp only [hackConnectFrom, hclient]
  split
  · exact .refused (by simp) (Or.inr rfl)
  · split
    · exact .refused (by simp) (Or.inr rfl)
    · split
      · exact .refused (by simp) (Or.inr rfl)
      · exact .refused (by simp) (Or.inr rfl)
      · rename_i hredirects
        split
        · exact .refused (by simp) (Or.inr rfl)
        · split
          · rename_i route info hroute hinfo
            obtain ⟨udpAddr, hudpAddr, hregistered⟩ := Option.map_eq_some_iff.1 hroute
            obtain rfl := profile_eq hinfo
            have hconnect : connectRoute proxyInfo hook call sType s addrname = route := by
              simp only [connectRoute, hudpAddr, Option.getD_some]
              exact hregistered
            refine .registered udpAddr rfl hudpAddr ?_ ?_ ?_
            · rwa [hinfo] at hredirects
            · rintro rfl
              rw [hconnect]
              rfl
            · rw [hconnect]
              rfl
          · exact .refused (by simp) (Or.inr rfl)

theorem hackConnect_cases (hook : HookWinsock) (call : Call) (sType : SockType)
    (s : Nat) (addrname : SockAddr) :
    @ConnectReply inetAddr proxyInfo hook call sType s addrname
      (hackConnect inetAddr hook (call.env proxyInfo hook sType) s addrname) := by
  have hfrom := @hackConnectFrom_cases inetAddr proxyInfo hook call sType s addrname
  have hsockType : (call.env proxyInfo hook sType).sockType = some sType := rfl
  have hendpoint : (call.env proxyInfo hook sType).endpoint = call.endpoint := rfl
  have hafter : (call.env proxyInfo hook sType).endpointAfterBind =
    call.endpointAfterBind := rfl
  simp only [hackConnect, hsockType, hendpoint, hafter]
  cases hsrc : call.endpoint with
  | some srcAddr =>
    have hbound := hfrom srcAddr (by simp [hsrc])
    cases sType <;> simp only <;> (try split_ifs) <;>
      first | exact hbound | exact .refused (by simp) (Or.inl rfl)
  | none =>
    cases hafterBind : call.endpointAfterBind with
    | some srcAddr =>
      have hbound := hfrom srcAddr (by simp [hsrc, hafterBind])
      cases sType <;> simp only <;> (try split_ifs) <;>
        first | exact hbound | exact .refused (by simp) (Or.inl rfl)
    | none =>
      cases sType <;> simp only <;> (try split_ifs) <;>
        exact .refused (by simp) (Or.inl rfl)

end Calls

/-! ## Steps -/

/-- No defect of the look-ups is met: a name is addressed as it was registered
and, with SOCKS5, a destination is not connected to behind a newer one, an entry
that is connected is not registered again, and connected sockets send through the
checked calls. -/
def Fine (proxyInfo : ProxyInfo) (m : Machine) : Event → Prop
  | .connect call sType s addrname =>
    sType = .dgram → proxyInfo.getProxyType = .socks5 →
      let client := call.client proxyInfo m.hook .dgram s addrname
      let limits := m.hook.hackedSocket.udpPayloadLimits
      (limits.find? (known client)).isSome = true →
        ∀ it, limits.find? (fun it => known client it || connectedTo s it) =
          some it → known client it = true
  | .sendTo call s addrname _ =>
    let client := call.client proxyInfo m.hook .dgram s addrname
    match HackedSocket.udpRoute m.hook.hackedSocket.ls client with
    | some it => it.dstAddr = addrname
    | none => proxyInfo.getProxyType = .socks5 → ∀ it,
      m.hook.hackedSocket.udpPayloadLimits.find? (known client) = some it →
        it.connected = false
  | .send s _ => proxyInfo.getProxyType = .socks5 → m.peers s = none
  | _ => True

section Steps

variable {m : Machine}

theorem lookup_names {dns : DummyDNS} {request : DummyDNS.Lookup}
    (hrequest : 0 ∉ request.host)
    (h : ∀ info ∈ dns.ls, info.szHost.length ≤ 255 ∧ 0 ∉ info.szHost) :
    ∀ info ∈ (dns.lookup request).2.ls,
      info.szHost.length ≤ 255 ∧ 0 ∉ info.szHost := by
  have hnew : ∀ host, 0 ∉ host → ∀ info ∈ (dns.getDummyIP host).2.ls,
      info.szHost.length ≤ 255 ∧ 0 ∉ info.szHost := by
    intro host hhost
    rw [DummyDNS.getDummyIP]
    split
    · exact h
    · rintro info (_ | ⟨_, hinfo⟩)
      · refine ⟨by simp [DummyDNS.makeInfo, DummyDNS.hostSize], ?_⟩
        exact fun hmem => hhost (List.mem_of_mem_take hmem)
      · exact h info hinfo
  cases request with
  | ip host => exact hnew host hrequest
  | ipv6 host =>
    simp only [DummyDNS.lookup, DummyDNS.getDummyIPv6]
    split
    · exact h
    · split <;> exact hnew host hrequest

theorem client_named {call : Call} {hook : HookWinsock} {sType : SockType} {s : Nat}
    {addrname : SockAddr}
    (h : ∀ info ∈ hook.dummyDNS.ls, info.szHost.length ≤ 255 ∧ 0 ∉ info.szHost) :
    Named (call.client proxyInfo hook sType s addrname) := by
  have hfound : ∀ (p : DummyDNS.Info → Bool) (size : Nat),
      let name := ((hook.dummyDNS.ls.find? p).map (·.szHost.take size)).getD []
      name.length ≤ 255 ∧ 0 ∉ name := by
    intro p size
    cases hfind : hook.dummyDNS.ls.find? p with
    | none => simp
    | some info =>
      obtain ⟨hlength, hzero⟩ := h info (List.mem_of_find?_eq_some hfind)
      simp only [Option.map_some, Option.getD_some, List.length_take]
      exact ⟨by omega, fun hmem => hzero (List.mem_of_mem_take hmem)⟩
  simp only [Named, Call.client, makeClient, domainNameOf]
  split
  · exact hfound _ _
  · split
    · split
      · exact hfound _ _
      · simp
    · simp

theorem registeredAs_route {psi : ProxySettingsInfo} {client : PrcClient}
    {udpAddr : SockAddr} (h : Named client) :
    Route (registeredAs psi proxyInfo client udpAddr) := by
  simp only [registeredAs, DnsRedirectPolicy.apply]
  split
  · rename_i hredirect
    refine ⟨h, fun _ => ?_⟩
    simp only [DnsRedirectPolicy.shouldRedirect, Bool.and_eq_true] at hredirect
    simpa using hredirect.1.1.2
  · exact ⟨h, by simp⟩

theorem registeredAs_same (proxyInfo : ProxyInfo) (psi : ProxySettingsInfo)
    (client : PrcClient) (udpAddr : SockAddr) :
    (registeredAs psi proxyInfo client udpAddr).sType = client.sType ∧
      (registeredAs psi proxyInfo client udpAddr).s = client.s ∧
      (registeredAs psi proxyInfo client udpAddr).socketGeneration =
        client.socketGeneration ∧
      (registeredAs psi proxyInfo client udpAddr).dstAddr = client.dstAddr ∧
      (registeredAs psi proxyInfo client udpAddr).szDomainName =
        client.szDomainName := by
  simp only [registeredAs, DnsRedirectPolicy.apply]
  split <;> exact ⟨rfl, rfl, rfl, rfl, rfl⟩

theorem known_registeredAs (psi : ProxySettingsInfo) (client : PrcClient)
    (udpAddr : SockAddr) :
    known (registeredAs psi proxyInfo client udpAddr) = known client := by
  obtain ⟨-, hs, hgeneration, haddress, hname⟩ :=
    registeredAs_same proxyInfo psi client udpAddr
  funext it
  simp only [known, hs, hgeneration, haddress, hname]

variable {call : Call} {addrname : SockAddr}

theorem client_address {hook : HookWinsock} {sType : SockType} {s : Nat}
    (hredirects : canHackIt inetAddr hook.psi
      (call.client proxyInfo hook sType s addrname) (some proxyInfo) = .redirected) :
    addrname ≠ .unspec := by
  have hdummy : DummyDNS.isDummyIP InAddr.any = false := by decide
  refine canHackIt_address (fun hunspec => ?_) hredirects
  simp only [Call.client, makeClient] at hunspec ⊢
  simp [hunspec, domainNameOf, SockAddr.getdwIP, SockAddr.getAddr6, hdummy]

theorem registeredAs_fresh {hook : HookWinsock} {client : PrcClient}
    {udpAddr : SockAddr} (hdgram : client.sType = .dgram) (hname : Named client)
    (haddress : client.dstAddr ≠ .unspec)
    (hgeneration : client.socketGeneration =
      (hook.hackedSocket.getSocketGeneration client.s .dgram).1) :
    Fresh (withGeneration hook client.s .dgram).hackedSocket
      (registeredAs hook.psi proxyInfo client udpAddr) := by
  obtain ⟨hsType, hs, hsame, hdstAddr, -⟩ :=
    registeredAs_same proxyInfo hook.psi client udpAddr
  refine ⟨by rw [hsType, hdgram], by rw [hdstAddr]; exact haddress,
    registeredAs_route hname, ?_⟩
  rw [hs, hsame, hgeneration]
  exact getSocketGeneration_find hook.hackedSocket client.s .dgram

theorem withGeneration_sound {hook : HookWinsock} {s : Nat} {sType : SockType}
    (h : Sound proxyInfo m)
    (hhook : hook = m.hook ∨ hook = withGeneration m.hook s sType) :
    Sound proxyInfo { m with hook } := by
  rcases hhook with rfl | rfl
  · exact h
  · refine ⟨h.names, getSocketGeneration_sound h.tables, fun s' peer hpeer => ?_, h.log⟩
    have hold := h.peers s' peer hpeer
    refine ⟨hold.socket, hold.route, hold.target, ?_⟩
    simpa only [withGeneration, getSocketGeneration_limits] using hold.limit

theorem connectStep_stream {sType : SockType} {s : Nat}
    (h : Sound proxyInfo m) (hstream : sType ≠ .dgram) :
    Sound proxyInfo (connectStep inetAddr proxyInfo m call sType s addrname) := by
  have hpeers : (connectStep inetAddr proxyInfo m call sType s addrname).peers =
      m.peers := by
    simp only [connectStep]
    split
    · exact absurd rfl hstream
    · exact absurd rfl hstream
    · exact Function.update_eq_self s m.peers
  have hstep : connectStep inetAddr proxyInfo m call sType s addrname =
      { m with hook := (hackConnect inetAddr m.hook (call.env proxyInfo m.hook sType) s
        addrname).hook } := by
    rw [← hpeers]
    rfl
  rw [hstep]
  rcases @hackConnect_cases inetAddr proxyInfo m.hook call sType s addrname with
    ⟨-, hhook⟩ | ⟨udpAddr, -, -, -, -, hhook⟩
  · exact withGeneration_sound h hhook
  · obtain ⟨hsType, -⟩ := registeredAs_same proxyInfo m.hook.psi
      (call.client proxyInfo m.hook sType s addrname) (call.route.getD .unspec)
    have hregistered : (connectRoute proxyInfo m.hook call sType s addrname).sType ≠
        .dgram := by
      rw [connectRoute, hsType]
      exact hstream
    have hgeneration : Sound proxyInfo { m with hook := withGeneration m.hook s sType } :=
      withGeneration_sound h (Or.inr rfl)
    rw [hhook]
    generalize connectRoute proxyInfo m.hook call sType s addrname = route at *
    have hroute : withRoute proxyInfo (withGeneration m.hook s sType) route true =
        { withGeneration m.hook s sType with
          hackedSocket := (withGeneration m.hook s sType).hackedSocket.push route } := by
      simp [withRoute, HackedSocket.setUDPMaxPayload, hregistered]
    rw [hroute]
    exact ⟨hgeneration.names, push_stream_sound hgeneration.tables hregistered,
      hgeneration.peers, hgeneration.log⟩

theorem peer_other {limits limits' : List UdpPayloadLimit} {client : PrcClient}
    {maxPayload : Nat} {connected : Bool} {s : Nat} {peer : Peer}
    (h : PeerSound proxyInfo limits s peer)
    (hset : Recorded client maxPayload connected limits limits')
    (hother : s ≠ client.s) : PeerSound proxyInfo limits' s peer := by
  refine ⟨h.socket, h.route, h.target, ?_⟩
  rw [getConnectedUDPMaxPayload, hset.find_other hother]
  exact h.limit

theorem withRoute_sound {s : Nat} {route : PrcClient} {connected : Bool}
    (h : Sound proxyInfo m)
    (hfresh : Fresh (withGeneration m.hook s .dgram).hackedSocket route) :
    ∃ limits', Recorded route (routeMaxPayload proxyInfo route) connected
        m.hook.hackedSocket.udpPayloadLimits limits' ∧
      (withRoute proxyInfo (withGeneration m.hook s .dgram) route
        connected).hackedSocket.udpPayloadLimits = limits' ∧
      TablesSound proxyInfo (withRoute proxyInfo (withGeneration m.hook s .dgram) route
        connected).hackedSocket := by
  have hregister := @register_sound proxyInfo _ _ connected
    (@getSocketGeneration_sound proxyInfo _ s .dgram h.tables) hfresh
  rwa [getSocketGeneration_limits] at hregister

theorem connectStep_dgram {s : Nat} (h : Sound proxyInfo m)
    (hfine : Fine proxyInfo m (.connect call .dgram s addrname)) :
    Sound proxyInfo (connectStep inetAddr proxyInfo m call .dgram s addrname) := by
  rcases @hackConnect_cases inetAddr proxyInfo m.hook call .dgram s addrname with
    ⟨hdecision, hhook⟩ | ⟨udpAddr, hdecision, -, hredirects, htarget, hhook⟩
  · have hold := withGeneration_sound h hhook
    refine ⟨hold.names, hold.tables, fun s' peer hpeer => ?_, hold.log⟩
    apply hold.peers s' peer
    simp only [connectStep, Function.update_apply] at hpeer
    split at hpeer
    · split at hpeer
      · rename_i heq
        exact absurd heq hdecision
      · simp at hpeer
      · rename_i hs _ _ _ _
        rwa [hs]
    · exact hpeer
  · have hclient := @client_named proxyInfo call m.hook .dgram s addrname h.names
    have haddress := client_address hredirects
    have hfresh := @registeredAs_fresh proxyInfo m.hook
      (call.client proxyInfo m.hook .dgram s addrname) (call.route.getD .unspec) rfl
      hclient haddress rfl
    have hknown := @known_registeredAs proxyInfo m.hook.psi
      (call.client proxyInfo m.hook .dgram s addrname) (call.route.getD .unspec)
    have hroute : connectRoute proxyInfo m.hook call .dgram s addrname =
      registeredAs m.hook.psi proxyInfo (call.client proxyInfo m.hook .dgram s addrname)
        (call.route.getD .unspec) := rfl
    rw [← hroute] at hfresh hknown
    have hsocket : (connectRoute proxyInfo m.hook call .dgram s addrname).s = s := by
      rw [hroute]
      exact (registeredAs_same proxyInfo m.hook.psi _ _).2.1
    have hstep : connectStep inetAddr proxyInfo m call .dgram s addrname =
        { m with
          hook := withRoute proxyInfo (withGeneration m.hook s .dgram)
            (connectRoute proxyInfo m.hook call .dgram s addrname) true
          peers := Function.update m.peers s (some
            ⟨connectRoute proxyInfo m.hook call .dgram s addrname, routeTarget
              (connectRoute proxyInfo m.hook call .dgram s addrname).udpAddr
              (connectRoute proxyInfo m.hook call .dgram s addrname)⟩) } := by
      simp only [connectStep, hdecision, htarget rfl, hhook]
    have hfirst := hfine rfl
    rw [hstep]
    simp only [← hknown] at hfirst
    generalize connectRoute proxyInfo m.hook call .dgram s addrname = route at *
    obtain ⟨limits', hset, hlimits, htables⟩ :=
      @withRoute_sound proxyInfo m s route true h hfresh
    refine ⟨h.names, htables, fun s' peer hpeer => ?_, h.log⟩
    simp only [hlimits]
    by_cases hs : s' = s
    · subst hs
      simp only [Function.update_self, Option.some.injEq] at hpeer
      subst hpeer
      refine ⟨hsocket, hfresh.route, rfl, fun hsocks5 => ?_⟩
      subst hsocket
      exact hset.find_first (hfirst hsocks5)
    · simp only [ne_eq, hs, not_false_eq_true, Function.update_of_ne] at hpeer
      exact peer_other (h.peers s' peer hpeer) hset (by omega)

theorem known_route_limit {sockets : HackedSocket} {client it : PrcClient}
    (h : TablesSound proxyInfo sockets) (hit : it ∈ sockets.ls)
    (hdgram : it.sType = .dgram) (hs : it.s = client.s)
    (hgeneration : client.socketGeneration =
      (sockets.getSocketGeneration client.s .dgram).1)
    (haddress : it.dstAddr = client.dstAddr)
    (hname : sameText it.szDomainName client.szDomainName = true) :
    getUDPMaxPayload sockets.udpPayloadLimits client =
      some (routeMaxPayload proxyInfo it) := by
  obtain ⟨hroute, ⟨entry, hentry, hentryGeneration⟩, limit, hlimit, hknown⟩ :=
    h.routes it hit hdgram
  have hsame : client.socketGeneration = it.socketGeneration := by
    rw [hgeneration, HackedSocket.getSocketGeneration, ← hs, hentry]
    exact hentryGeneration
  have hclient : ∀ entry, known it entry = true ↔ known client entry = true := by
    intro entry
    simp only [known_iff, hs, ← hsame, haddress, sameText_iff] at *
    rw [hname]
  have hsome : (sockets.udpPayloadLimits.find? (known client)).isSome = true := by
    rw [List.find?_isSome]
    exact ⟨limit, hlimit, (hclient limit).1 hknown⟩
  obtain ⟨found, hfound⟩ := Option.isSome_iff_exists.1 hsome
  have hfoundKnown := (hclient found).2 (List.find?_some hfound)
  rw [getUDPMaxPayload, hfound, Option.map_some,
    known_limit hfoundKnown (h.limits found (List.mem_of_find?_eq_some hfound))]

theorem udpRoute_spec {ls : List PrcClient} {client it : PrcClient}
    (h : HackedSocket.udpRoute ls client = some it) :
    it ∈ ls ∧ it.sType = .dgram ∧ it.s = client.s ∧
      sameText it.szDomainName client.szDomainName = true := by
  refine ⟨List.mem_of_find?_eq_some h, ?_⟩
  have hfound := List.find?_some h
  simp only [Bool.and_eq_true, beq_iff_eq, PrcClient.isDNValid] at hfound
  obtain ⟨⟨⟨⟨hs, hdgram⟩, -⟩, -⟩, hname⟩ := hfound
  refine ⟨hdgram, hs, ?_⟩
  cases hempty : client.szDomainName.isEmpty with
  | true => simp_all [sameText_iff]
  | false =>
    simp only [hempty, Bool.not_false, if_true, Bool.and_eq_true] at hname
    exact hname.1.2

theorem sendToStep_sound {s : Nat} {buffers : List Bytes} (h : Sound proxyInfo m)
    (hfine : Fine proxyInfo m (.sendTo call s addrname buffers)) :
    Sound proxyInfo (sendToStep inetAddr proxyInfo m call s addrname buffers) := by
  rcases @hackSendTo_cases inetAddr proxyInfo m.hook call s addrname with
    ⟨hdecision, hhook⟩ | ⟨it, hdecision, hfound, htarget, hhook⟩ |
    ⟨udpAddr, hdecision, hfound, -, hredirects, htarget, hhook⟩
  · simp only [sendToStep, hdecision, if_false]
    exact withGeneration_sound h hhook
  · simp only [Fine, hfound] at hfine
    obtain ⟨hit, hdgram, hs, hname⟩ := udpRoute_spec hfound
    have hlimit := known_route_limit h.tables hit hdgram hs rfl hfine hname
    have hroute := (h.tables.routes it hit hdgram).route
    have hfamily : routeTarget it.udpAddr
        (call.client proxyInfo m.hook .dgram s addrname) =
        routeTarget it.udpAddr it := by
      simp only [routeTarget, hfine]
      rfl
    have hold := withGeneration_sound h (Or.inr hhook)
    simp only [sendToStep, hdecision, sendToRoute, hfound, hlimit, Option.getD_some,
      if_true]
    refine ⟨hold.names, hold.tables, hold.peers, fun datagram hmem => ?_⟩
    simp only [List.mem_append, List.mem_singleton] at hmem
    rcases hmem with hmem | rfl
    · exact h.log datagram hmem
    · exact ⟨hroute, htarget.trans hfamily, fun _ => rfl⟩
  · simp only [Fine, hfound] at hfine
    have hclient := @client_named proxyInfo call m.hook .dgram s addrname h.names
    have hfresh := @registeredAs_fresh proxyInfo m.hook
      { call.client proxyInfo m.hook .dgram s addrname with reserved := call.onUdp }
      (call.route.getD .unspec) rfl hclient (client_address hredirects) rfl
    have hknown : known (registeredAs m.hook.psi proxyInfo
        { call.client proxyInfo m.hook .dgram s addrname with reserved := call.onUdp }
        (call.route.getD .unspec)) =
        known (call.client proxyInfo m.hook .dgram s addrname) :=
      known_registeredAs _ _ _
    have hsend : sendToRoute proxyInfo m.hook call s addrname =
        (registeredAs m.hook.psi proxyInfo
          { call.client proxyInfo m.hook .dgram s addrname with reserved := call.onUdp }
          (call.route.getD .unspec),
        routeMaxPayload proxyInfo (registeredAs m.hook.psi proxyInfo
          { call.client proxyInfo m.hook .dgram s addrname with reserved := call.onUdp }
          (call.route.getD .unspec))) := by
      simp only [sendToRoute, hfound]
    have hsocket := (registeredAs_same proxyInfo m.hook.psi
      { call.client proxyInfo m.hook .dgram s addrname with reserved := call.onUdp }
      (call.route.getD .unspec)).2.1
    simp only [hsend] at htarget hhook
    simp only [sendToStep, hdecision, hsend, htarget, hhook, if_true]
    generalize registeredAs m.hook.psi proxyInfo
      { call.client proxyInfo m.hook .dgram s addrname with reserved := call.onUdp }
      (call.route.getD .unspec) = route at *
    have hsocket : route.s = s := hsocket
    obtain ⟨limits', hset, hlimits, htables⟩ :=
      @withRoute_sound proxyInfo m s route false h hfresh
    refine ⟨h.names, htables, fun s' peer hpeer => ?_, fun datagram hmem => ?_⟩
    · have hold := h.peers s' peer hpeer
      simp only [hlimits]
      by_cases hs : s' = s
      · refine ⟨hold.socket, hold.route, hold.target, fun hsocks5 => ?_⟩
        rw [hs, ← hsocket, getConnectedUDPMaxPayload,
          hset.find_same (hknown ▸ hfine hsocks5), hsocket, ← hs]
        exact hold.limit hsocks5
      · exact peer_other hold hset (by omega)
    · simp only [List.mem_append, List.mem_singleton] at hmem
      rcases hmem with hmem | rfl
      · exact h.log datagram hmem
      · exact ⟨hfresh.route, rfl, fun _ => rfl⟩

theorem sendOn_sound {s : Nat} {limit : Option Nat} {buffers : List Bytes}
    (h : Sound proxyInfo m)
    (hlimit : ∀ peer, m.peers s = some peer → proxyInfo.getProxyType = .socks5 →
      limit = some (routeMaxPayload proxyInfo peer.route)) :
    Sound proxyInfo (sendOn m s limit buffers) := by
  simp only [sendOn]
  cases hpeer : m.peers s with
  | none => exact h
  | some peer =>
    refine ⟨h.names, h.tables, h.peers, fun datagram hmem => ?_⟩
    simp only [List.mem_append, List.mem_singleton] at hmem
    rcases hmem with hmem | rfl
    · exact h.log datagram hmem
    · have hold := h.peers s peer hpeer
      exact ⟨hold.route, hold.target, hlimit peer hpeer⟩

theorem step_sound (m : Machine) (e : Event) (h : Sound proxyInfo m)
    (hfine : Fine proxyInfo m e) : Sound proxyInfo (step inetAddr proxyInfo m e) := by
  cases e with
  | resolve memory ipv6 =>
    refine ⟨lookup_names ?_ h.names, h.tables, h.peers, h.log⟩
    cases ipv6 <;> exact cString_zero_notMem memory
  | connect call sType s addrname =>
    by_cases hdgram : sType = .dgram
    · subst hdgram
      exact connectStep_dgram h hfine
    · exact connectStep_stream h hdgram
  | sendTo call s addrname buffers => exact sendToStep_sound h hfine
  | wsaSend s buffers =>
    exact sendOn_sound h fun peer hpeer => (h.peers s peer hpeer).limit
  | send s buffers =>
    refine sendOn_sound h fun peer hpeer hsocks5 => ?_
    rw [hfine hsocks5] at hpeer
    simp at hpeer
  | closeSocket s =>
    refine ⟨h.names, remove_sound h.tables, fun s' peer hpeer => ?_, h.log⟩
    by_cases hs : s' = s
    · simp [step, hs] at hpeer
    · simp only [step, ne_eq, hs, not_false_eq_true, Function.update_of_ne] at hpeer
      have hold := h.peers s' peer hpeer
      refine ⟨hold.socket, hold.route, hold.target, ?_⟩
      exact fun hsocks5 => (remove_connected hs).trans (hold.limit hsocks5)

theorem init_sound (psi : ProxySettingsInfo) : Sound proxyInfo (init psi) := by
  refine ⟨?_, ⟨?_, ?_⟩, ?_, ?_⟩ <;> simp [init, DummyDNS.init]

end Steps

/--
Whatever the limit of a route lets through is accepted and fits in a packet
exactly when the header of the route fits in what the limit leaves; and every
datagram goes to its route under that limit.
-/
theorem limits_agree (inetAddr : Bytes → InAddr) (proxyInfo : ProxyInfo)
    (psi : ProxySettingsInfo) {events : List Event}
    (hfine : Admissible (step inetAddr proxyInfo) (Fine proxyInfo) (init psi) events) :
    (∀ client, Route client →
      (Agrees inetAddr proxyInfo client ↔ Meets inetAddr proxyInfo client)) ∧
      ∀ datagram ∈ (run (step inetAddr proxyInfo) (init psi) events).log,
        Checked proxyInfo datagram := by
  constructor
  · intro client hclient
    rw [agrees_iff hclient.named, fits_iff_meets hclient]
  · exact (run_invariant step_sound (init_sound psi) hfine).log

/-! ## Short and long names -/

def sampleCall : Call where
  dwPid := 7
  dwTid := 9
  processCreateTime := 11
  endpoint := some (.inet .any 5000)
  endpointInvalid := false
  bindOk := true
  endpointAfterBind := none
  requestPipe := true
  startupInfo := none
  profile := true
  route := some (.inet .loopback 6000)
  onUdp := 0

def dummyDestination : SockAddr :=
  .inet6 (DummyDNS.makeIPv6 ⟨127, 255, 0, 1⟩) 443

def namedEvents (name : Bytes) : List Event :=
  [.resolve (name ++ [0]) true, .sendTo sampleCall 5 dummyDestination [[1]]]

def twoFormEvents (name : Bytes) : List Event :=
  namedEvents name ++ [.sendTo sampleCall 5 (.inet ⟨127, 255, 0, 1⟩ 443) [[1]]]

def sampleRun (events : List Event) : List Datagram :=
  (run (step sampleInetAddr sampleProxy) (init sampleHook.psi) events).log

private theorem namedEvents_fine (name : Bytes) :
    Admissible (step sampleInetAddr sampleProxy) (Fine sampleProxy)
      (init sampleHook.psi) (namedEvents name) := by
  refine ⟨trivial, ?_, trivial⟩
  simp [Fine, step, init, HackedSocket.udpRoute]

theorem short_name_agrees :
    ∃ datagram ∈ sampleRun (namedEvents (ascii "www.example.com")),
      datagram.limit = some 65485 ∧
      Checked sampleProxy datagram ∧
      Agrees sampleInetAddr sampleProxy datagram.peer.route := by
  have hall := limits_agree sampleInetAddr sampleProxy sampleHook.psi
    (namedEvents_fine (ascii "www.example.com"))
  have hone : ∃ datagram ∈ sampleRun (namedEvents (ascii "www.example.com")),
      datagram.limit = some 65485 ∧
      datagram.peer.route.szDomainName = ascii "www.example.com" := by
    decide
  obtain ⟨datagram, hmem, hlimit, hname⟩ := hone
  have hchecked := hall.2 datagram hmem
  refine ⟨datagram, hmem, hlimit, hchecked, (hall.1 _ hchecked.route).2 fun _ => ?_⟩
  rw [hname, if_neg (by decide), if_pos (by decide)]
  exact ⟨by decide, fun _ => by decide⟩

theorem long_name_refused :
    (∃ datagram ∈ sampleRun (namedEvents (ascii "mail.example.com")),
      datagram.limit = some 65485 ∧
      isWSABufferPayloadAllowed (some [65485]) 65485 = true ∧
      ∀ payload : Bytes, payload.length = 65485 →
        forwardUpstream sampleInetAddr (some (sampleLayer sampleProxy)) payload
          (UdpProxyTask.makeTarget datagram.peer.route) = .error .msgSize) ∧
    ∃ datagram ∈ sampleRun (twoFormEvents (ascii "name")),
      datagram.limit = some 65507 ∧
        routeMaxPayload sampleProxy datagram.peer.route = 65485 := by
  constructor
  · have hone : ∃ datagram ∈ sampleRun (namedEvents (ascii "mail.example.com")),
        datagram.limit = some 65485 ∧
        UdpProxyTask.makeTarget datagram.peer.route =
          ⟨.inet .any 5000, ascii "mail.example.com", dummyDestination⟩ := by
      decide
    obtain ⟨datagram, hmem, hlimit, htarget⟩ := hone
    refine ⟨datagram, hmem, hlimit, by decide, fun payload hlength => ?_⟩
    have hread : sampleInetAddr (ascii "mail.example.com") = InAddr.none := by decide
    have hname : (ascii "mail.example.com").length = 16 := by decide
    have hempty : ascii "mail.example.com" ≠ [] := by decide
    simp [htarget, forwardUpstream, sendToHost, sampleLayer, hread, hlength, hname,
      hempty]
  · decide

end UdpPayload

end ProxyLane.Hook
