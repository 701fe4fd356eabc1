import ProxyLane.Hook.HookWinsock

/-!
# Destinations that leave without the proxy

A bypassed call reaches its destination directly.  The destinations for which
that is meant are listed by `Listed`; this file determines exactly which calls
are bypassed for any other destination.
-/

namespace ProxyLane.Hook

open ProxyLane.Foundation

/-- The private IPv4 blocks `10/8`, `172.16/12` and `192.168/16`. -/
def Rfc1918 (ip : InAddr) : Prop :=
  ip.net = 10 ∨ (ip.net = 172 ∧ 16 ≤ ip.host ∧ ip.host ≤ 31) ∨
    (ip.net = 192 ∧ ip.host = 168)

/--
Genuine loopback, the unspecified address, limited broadcast, a private IPv4
address, or, for a datagram socket, the address of one of its own routes.
-/
def Listed (hook : HookWinsock) (sType : SockType) (s : Nat)
    (destination : SockAddr) : Prop :=
  (destination.isLoopback = true ∧ isDummyDestination destination = false) ∨
    destination.isAny = true ∨
    (∃ port, destination = .inet .none port) ∨
    (∃ ip port, destination = .inet ip port ∧ Rfc1918 ip) ∨
    (sType = .dgram ∧ HackedSocket.isUDPRouteAddress hook.hackedSocket.ls s
      destination = true)

section Bypass

variable (inetAddr : Bytes → InAddr)

def ProxyLiteral (proxyaddr : InAddr) : Prop :=
  proxyaddr ≠ .any ∧ proxyaddr ≠ .none

def SameLan (left right : InAddr) : Prop :=
  left.net = right.net ∧ left.host = right.host ∧ left.lh = right.lh

/-- The local-network rules, with the block `172.16.0.0` to `172.131.255.255`
as the source has it. -/
def LanBypass (ip proxyaddr : InAddr) : Prop :=
  (ip.net = 127 ∧ proxyaddr.net ≠ 127) ∨
    (((ip.net = 192 ∧ ip.host = 168) ∨
        (ip.net = 172 ∧ 16 ≤ ip.host ∧ ip.host ≤ 131) ∨ ip.net = 10) ∧
      ¬ SameLan proxyaddr ip)

variable {port : UInt16}

theorem canHackIt_inet6 (psi : ProxySettingsInfo) {client : PrcClient}
    (proxyInfo : Option ProxyInfo) {ip : In6Addr}
    (hdst : client.dstAddr = .inet6 ip port) :
    canHackIt inetAddr psi client proxyInfo ≠ .bypass := by
  have hsix : client.dstAddr.isIPv6 = true := by
    rw [hdst]
    rfl
  cases proxyInfo with
  | none => simp [canHackIt]
  | some pi =>
    simp only [canHackIt, hsix, if_true]
    split
    · simp
    · split <;> simp

theorem canHackIt_inet (psi : ProxySettingsInfo) {client : PrcClient}
    (proxyInfo : Option ProxyInfo) {ip : InAddr}
    (hdst : client.dstAddr = .inet ip port) :
    canHackIt inetAddr psi client proxyInfo = .bypass ↔
      ∃ pi, proxyInfo = some pi ∧
        DnsRedirectPolicy.shouldRedirect client psi pi = false ∧
        client.isDNValid = false ∧
        (ip = .any ∨ ip = .none ∨
          (ProxyLiteral (inetAddr pi.strProxyHost) ∧ psi.bHookLanIP = false ∧
            LanBypass ip (inetAddr pi.strProxyHost))) := by
  cases proxyInfo with
  | none => simp [canHackIt]
  | some pi =>
    generalize hproxy : inetAddr pi.strProxyHost = proxyaddr
    cases hredirect : DnsRedirectPolicy.shouldRedirect client psi pi with
    | true => simp [canHackIt, hredirect]
    | false =>
      cases hname : client.isDNValid with
      | true => simp [canHackIt, hredirect, hname]
      | false =>
        simp only [canHackIt, hredirect, hname, hdst, hproxy,
          SockAddr.isIPv6, SockAddr.family, SockAddr.getdwIP,
          LanBypass, SameLan, ProxyLiteral]
        simp only [Option.some.injEq, exists_eq_left', hredirect, hproxy]
        grind

/--
The local-network rules let a destination go that is neither private nor
genuine loopback: an address of `172.32.0.0` to `172.131.255.255`, or a dummy
address whose name was never recorded.
-/
def LanSlip (dns : DummyDNS) (ip : InAddr) (port : UInt16)
    (proxyaddr : InAddr) : Prop :=
  (ip.net = 172 ∧ 32 ≤ ip.host ∧ ip.host ≤ 131 ∧ ¬ SameLan proxyaddr ip) ∨
    (ip.net = 127 ∧ ip.host = 255 ∧ proxyaddr.net ≠ 127 ∧
      domainNameOf dns (.inet ip port) = [])

def LanLeak (hook : HookWinsock) (proxyInfo : Option ProxyInfo)
    (destination : SockAddr) : Prop :=
  ∃ ip port pi, destination = .inet ip port ∧ proxyInfo = some pi ∧
    hook.psi.bHookLanIP = false ∧
    ProxyLiteral (inetAddr pi.strProxyHost) ∧
    LanSlip hook.dummyDNS ip port (inetAddr pi.strProxyHost)

theorem isDummyIP_iff (ip : InAddr) :
    DummyDNS.isDummyIP ip = true ↔ ip.net = 127 ∧ ip.host = 255 := by
  have hnet := ip.net.toNat_lt
  have hhost := ip.host.toNat_lt
  have hlh := ip.lh.toNat_lt
  have himpno := ip.impno.toNat_lt
  have htop : ip.ntohl >>> 16 = ip.net.toNat * 256 + ip.host.toNat := by
    simp only [InAddr.ntohl, InAddr.toBytes, beNat, List.foldl_cons,
      List.foldl_nil, Nat.shiftRight_eq_div_pow]
    omega
  simp only [DummyDNS.isDummyIP, htop, beq_iff_eq, ← UInt8.toNat_inj,
    UInt8.reduceToNat]
  omega

theorem not_private_of_lanSlip {dns : DummyDNS} {ip proxyaddr : InAddr}
    (h : LanSlip dns ip port proxyaddr) :
    DnsRedirectPolicy.isPrivateDnsAddress (.inet ip port) = false := by
  rcases h with ⟨hnet, hlow, -, -⟩ | ⟨hnet, -, -, -⟩ <;>
    simp [DnsRedirectPolicy.isPrivateDnsAddress, SockAddr.isIPv4,
      SockAddr.family, SockAddr.getdwIP, hnet]
  intro _
  simp only [UInt8.le_iff_toNat_le, UInt8.reduceToNat,
    decide_eq_false_iff_not] at *
  omega

theorem domainNameOf_of_lanSlip {dns : DummyDNS} {ip proxyaddr : InAddr}
    (h : LanSlip dns ip port proxyaddr) :
    domainNameOf dns (.inet ip port) = [] := by
  rcases h with ⟨hnet, -, -, -⟩ | ⟨-, -, -, hname⟩
  · have hdummy : ¬ DummyDNS.isDummyIP ip = true := by
      simp [isDummyIP_iff, hnet]
    simp [domainNameOf, SockAddr.getdwIP, SockAddr.getAddr6, hdummy]
  · exact hname

structure Describes (client : PrcClient) (dns : DummyDNS)
    (destination : SockAddr) : Prop where
  dstAddr : client.dstAddr = destination
  szDomainName : client.szDomainName = domainNameOf dns destination

theorem makeClient_describes (env : CallEnv) (dns : DummyDNS)
    (sType : SockType) (s generation : Nat) (srcAddr addrname : SockAddr) :
    Describes (makeClient env dns sType s generation srcAddr addrname) dns addrname :=
  ⟨rfl, rfl⟩

theorem canHackIt_leak_iff {hook : HookWinsock} {client : PrcClient}
    {proxyInfo : Option ProxyInfo} {destination : SockAddr} {sType : SockType}
    {s : Nat} (hclient : Describes client hook.dummyDNS destination)
    (hfamily : destination ≠ .unspec) :
    (canHackIt inetAddr hook.psi client proxyInfo = .bypass ∧
      ¬ Listed hook sType s destination) ↔
    (LanLeak inetAddr hook proxyInfo destination ∧
      ¬ (sType = .dgram ∧ HackedSocket.isUDPRouteAddress
        hook.hackedSocket.ls s destination = true)) := by
  cases destination with
  | unspec => exact absurd rfl hfamily
  | inet6 ip port =>
    have hnever := canHackIt_inet6 inetAddr hook.psi proxyInfo hclient.dstAddr
    simp [hnever, LanLeak]
  | inet ip port =>
    rw [canHackIt_inet inetAddr hook.psi proxyInfo hclient.dstAddr]
    constructor
    · rintro ⟨⟨pi, hpi, -, hname, hcase⟩, hunlisted⟩
      simp only [Listed, not_or, not_and, not_exists] at hunlisted
      obtain ⟨hloop, hany, hnone, hprivate, hroute⟩ := hunlisted
      have hempty : domainNameOf hook.dummyDNS (.inet ip port) = [] := by
        rw [← hclient.szDomainName]
        simpa [PrcClient.isDNValid] using hname
      refine ⟨⟨ip, port, pi, rfl, hpi, ?_⟩, fun h => hroute h.1 h.2⟩
      rcases hcase with rfl | rfl | ⟨hliteral, hlan, hbypass⟩
      · exact absurd rfl hany
      · exact absurd rfl (hnone port)
      · refine ⟨hlan, hliteral, ?_⟩
        have hprivate := hprivate ip port rfl
        rw [SockAddr.isLoopback_inet, isDummyDestination] at hloop
        simp only [Rfc1918, not_or, not_and] at hprivate
        rcases hbypass with ⟨hnet, hproxy⟩ | ⟨hblock, hdiffer⟩
        · have hdummy : DummyDNS.isDummyIP ip = true := by
            simpa using hloop hnet
          exact Or.inr ⟨hnet, ((isDummyIP_iff ip).mp hdummy).2, hproxy, hempty⟩
        · rcases hblock with ⟨hnet, hhost⟩ | ⟨hnet, hlow, hhigh⟩ | hnet
          · exact absurd hhost (hprivate.2.2 hnet)
          · have habove := hprivate.2.1 hnet hlow
            refine Or.inl ⟨hnet, ?_, hhigh, hdiffer⟩
            simp only [UInt8.le_iff_toNat_le, UInt8.reduceToNat] at *
            omega
          · exact absurd hnet hprivate.1
    · rintro ⟨⟨_, _, pi, heq, hpi, hlan, hliteral, hslip⟩, hroute⟩
      cases heq
      have hprivate := not_private_of_lanSlip hslip
      have hempty := domainNameOf_of_lanSlip hslip
      refine ⟨⟨pi, hpi, ?_, ?_, ?_⟩, ?_⟩
      · simp [DnsRedirectPolicy.shouldRedirect, hclient.dstAddr, hprivate]
      · simp [PrcClient.isDNValid, hclient.szDomainName, hempty]
      · refine Or.inr (Or.inr ⟨hliteral, hlan, ?_⟩)
        rcases hslip with ⟨hnet, hlow, hhigh, hdiffer⟩ | ⟨hnet, -, hproxy, -⟩
        · exact Or.inr ⟨Or.inr (Or.inl
            ⟨hnet, UInt8.le_trans (show (16 : UInt8) ≤ 32 by decide) hlow,
              hhigh⟩), hdiffer⟩
        · exact Or.inl ⟨hnet, hproxy⟩
      · simp only [Listed, SockAddr.isLoopback_inet, isDummyDestination,
          SockAddr.isAny, Rfc1918]
        rintro (⟨hloop, hgenuine⟩ | hany | ⟨_, hnone⟩ | ⟨_, _, heq, hblock⟩ | hown)
        · rcases hslip with ⟨hnet, -, -, -⟩ | ⟨hnet, hhost, -, -⟩
          · simp [hnet] at hloop
          · rw [(isDummyIP_iff ip).mpr ⟨hnet, hhost⟩] at hgenuine
            cases hgenuine
        · rcases hslip with ⟨hnet, -, -, -⟩ | ⟨hnet, -, -, -⟩ <;>
            simp_all [InAddr.any]
        · rcases hslip with ⟨hnet, -, -, -⟩ | ⟨hnet, -, -, -⟩ <;>
            simp_all [InAddr.none]
        · cases heq
          rcases hslip with ⟨hnet, hlow, -, -⟩ | ⟨hnet, -, -, -⟩
          · simp only [hnet, UInt8.le_iff_toNat_le, UInt8.reduceToNat] at *
            simp at hblock
            omega
          · simp [hnet] at hblock
        · exact hroute hown

inductive Entry where
  | connect
  | sendTo
  deriving DecidableEq, Repr

def answer (entry : Entry) (hook : HookWinsock) (env : CallEnv) (s : Nat)
    (destination : SockAddr) : HookReply :=
  match entry with
  | .connect => hackConnect inetAddr hook env s destination
  | .sendTo => hackSendTo inetAddr hook env s destination

def sourceEndpoint (entry : Entry) (env : CallEnv) : Option SockAddr :=
  match env.endpoint with
  | some srcAddr => some srcAddr
  | none =>
    if env.bindOk && (entry == .connect || env.endpointInvalid) then
      env.endpointAfterBind
    else none

/-- A `HackConnect` call that gets as far as the local-network rules and
slips there. -/
def ConnectLeaks (hook : HookWinsock) (env : CallEnv) (s : Nat)
    (destination : SockAddr) (sType : SockType) : Prop :=
  LanLeak inetAddr hook env.proxyInfo destination ∧
    ¬ (sType = .dgram ∧ HackedSocket.isUDPRouteAddress
      hook.hackedSocket.ls s destination = true) ∧
    (sourceEndpoint .connect env).isSome ∧
    env.requestPipe = true ∧ env.startupInfo.isSome

/--
The same for `HackSendTo`, where a destination already routed is redirected
before the rules.  It also answers for stream sockets, on which Winsock does
not use the destination of `sendto`.
-/
def SendToLeaks (hook : HookWinsock) (env : CallEnv) (s : Nat)
    (destination : SockAddr) (sType : SockType) : Prop :=
  (sType = .stream ∧ ¬ Listed hook .stream s destination) ∨
    (sType = .dgram ∧
      LanLeak inetAddr hook env.proxyInfo destination ∧
      HackedSocket.isUDPRouteAddress hook.hackedSocket.ls s destination = false ∧
      env.requestPipe = true ∧
      ∃ srcAddr, sourceEndpoint .sendTo env = some srcAddr ∧
        ∀ ls ∈ [hook.hackedSocket.ls, env.lsAfterLock],
          HackedSocket.isUDPReqHacked ls (makeClient env hook.dummyDNS
            .dgram s 0 srcAddr destination) = none)

def Leaks (entry : Entry) (hook : HookWinsock) (env : CallEnv) (s : Nat)
    (destination : SockAddr) : Prop :=
  ∃ sType, env.sockType = some sType ∧ sType ≠ .other ∧
    match entry with
    | .connect => ConnectLeaks inetAddr hook env s destination sType
    | .sendTo => SendToLeaks inetAddr hook env s destination sType

@[simp] theorem getSocketGeneration_ls (sockets : HackedSocket) (s : Nat)
    (sType : SockType) :
    (sockets.getSocketGeneration s sType).2.ls = sockets.ls := by
  rw [HackedSocket.getSocketGeneration]
  split <;> rfl

theorem hackConnectFrom_bypass (hook : HookWinsock) (env : CallEnv) (s : Nat)
    (destination : SockAddr) (sType : SockType) (srcAddr : SockAddr) :
    (hackConnectFrom inetAddr hook env s destination sType srcAddr).decision =
        .bypass ↔
      env.requestPipe = true ∧ env.startupInfo.isSome ∧
        canHackIt inetAddr hook.psi (makeClient env hook.dummyDNS sType s
          (hook.hackedSocket.getSocketGeneration s sType).1 srcAddr
          destination) env.proxyInfo = .bypass := by
  simp only [hackConnectFrom]
  cases env.requestPipe <;> cases env.startupInfo <;> simp
  split
  · simp_all
  · simp_all
  · split
    · simp_all
    · split <;> simp_all

theorem hackSendToFrom_bypass (hook : HookWinsock) (env : CallEnv) (s : Nat)
    (destination : SockAddr) (srcAddr : SockAddr) :
    (hackSendToFrom inetAddr hook env s destination srcAddr).decision =
        .bypass ↔
      (∀ ls ∈ [hook.hackedSocket.ls, env.lsAfterLock],
        HackedSocket.isUDPReqHacked ls (makeClient env hook.dummyDNS .dgram s
          0 srcAddr destination) = none) ∧
      env.requestPipe = true ∧
        canHackIt inetAddr hook.psi (makeClient env hook.dummyDNS .dgram s
          (hook.hackedSocket.getSocketGeneration s .dgram).1 srcAddr
          destination) env.proxyInfo = .bypass := by
  have hgeneration : ∀ ls generation,
      HackedSocket.isUDPReqHacked ls (makeClient env hook.dummyDNS .dgram s
        generation srcAddr destination) =
      HackedSocket.isUDPReqHacked ls (makeClient env hook.dummyDNS .dgram s
        0 srcAddr destination) := fun _ _ => rfl
  simp only [hackSendToFrom, hgeneration, getSocketGeneration_ls,
    List.mem_cons, List.not_mem_nil, or_false, forall_eq_or_imp, forall_eq]
  split
  · simp_all
  · split
    · simp_all
    · cases env.requestPipe <;> simp_all
      split
      · simp_all
      · simp_all
      · split <;> simp_all

variable {hook : HookWinsock} {sType : SockType}

theorem hackConnect_bypass (env : CallEnv) (s : Nat) (destination : SockAddr)
    (htcp : hook.psi.bHookTCP = true) (hudp : hook.psi.bHookUDP = true)
    (hsocket : env.sockType = some sType) (htype : sType ≠ .other) :
    (hackConnect inetAddr hook env s destination).decision = .bypass ↔
      ¬ (sType = .dgram ∧ hook.psi.bDisableMDNS = true ∧
        UdpAssociationPolicy.isMdnsDestination destination = true) ∧
      ((destination.isLoopback = true ∧
          isDummyDestination destination = false) ∨
        ∃ srcAddr, sourceEndpoint .connect env = some srcAddr ∧
          (hackConnectFrom inetAddr hook env s destination sType
            srcAddr).decision = .bypass) := by
  have hgates : hackConnect inetAddr hook env s destination =
      if sType == .dgram && hook.psi.bDisableMDNS &&
          UdpAssociationPolicy.isMdnsDestination destination then
        ⟨.failed, destination, hook, some .hostUnreach⟩
      else if destination.isLoopback && !isDummyDestination destination then
        ⟨.bypass, destination, hook, none⟩
      else
        match sourceEndpoint .connect env with
        | some srcAddr =>
          hackConnectFrom inetAddr hook env s destination sType srcAddr
        | none => ⟨.failed, destination, hook, none⟩ := by
    cases sType with
    | other => exact absurd rfl htype
    | stream =>
      simp only [hackConnect, hsocket, htcp, sourceEndpoint]
      cases env.endpoint <;> cases env.bindOk <;> rfl
    | dgram =>
      simp only [hackConnect, hsocket, hudp, sourceEndpoint]
      cases env.endpoint <;> cases env.bindOk <;> rfl
  rw [hgates]
  by_cases hmdns : sType = .dgram ∧ hook.psi.bDisableMDNS = true ∧
      UdpAssociationPolicy.isMdnsDestination destination = true
  · simp [hmdns]
  · by_cases hloop : destination.isLoopback = true ∧
        isDummyDestination destination = false
    · have hfalse : (sType == .dgram && hook.psi.bDisableMDNS &&
          UdpAssociationPolicy.isMdnsDestination destination) = false := by
        simpa using hmdns
      simp [hfalse, hmdns, hloop]
    · have hfalse : (sType == .dgram && hook.psi.bDisableMDNS &&
          UdpAssociationPolicy.isMdnsDestination destination) = false := by
        simpa using hmdns
      have hgenuine : (destination.isLoopback &&
          !isDummyDestination destination) = false := by
        simpa using hloop
      cases hsource : sourceEndpoint .connect env <;>
        simp [hfalse, hgenuine, hmdns, hloop]

theorem hackSendTo_bypass (env : CallEnv) (s : Nat) (destination : SockAddr)
    (hudp : hook.psi.bHookUDP = true) (hsocket : env.sockType = some sType) :
    (hackSendTo inetAddr hook env s destination).decision = .bypass ↔
      sType ≠ .dgram ∨
      HackedSocket.isUDPRouteAddress hook.hackedSocket.ls s destination = true ∨
      ∃ srcAddr, sourceEndpoint .sendTo env = some srcAddr ∧
        (hackSendToFrom inetAddr hook env s destination srcAddr).decision =
          .bypass := by
  simp only [hackSendTo, hsocket, hudp, sourceEndpoint]
  by_cases htype : sType = .dgram
  · cases hroute : HackedSocket.isUDPRouteAddress hook.hackedSocket.ls s
        destination with
    | true => simp [htype]
    | false =>
      cases env.endpoint <;> cases env.endpointInvalid <;>
        cases env.bindOk <;> cases env.endpointAfterBind <;> simp [htype]
  · simp [htype]

private theorem lanLeak_not_mdns {proxyInfo : Option ProxyInfo}
    {destination : SockAddr} (h : LanLeak inetAddr hook proxyInfo destination) :
    UdpAssociationPolicy.isMdnsDestination destination = false := by
  obtain ⟨ip, port, pi, rfl, -, -, -, hslip⟩ := h
  have hne : ip.net ≠ 224 := by
    rcases hslip with ⟨hnet, -⟩ | ⟨hnet, -⟩ <;> simp [hnet]
  cases ip
  simp_all [UdpAssociationPolicy.isMdnsDestination]

theorem connect_listed_iff {env : CallEnv} {s : Nat} {destination : SockAddr}
    (htcp : hook.psi.bHookTCP = true) (hudp : hook.psi.bHookUDP = true)
    (hfamily : destination ≠ .unspec) (hsocket : env.sockType = some sType)
    (htype : sType ≠ .other) :
    ((hackConnect inetAddr hook env s destination).decision = .bypass →
      Listed hook sType s destination) ↔
    ¬ ConnectLeaks inetAddr hook env s destination sType := by
  have hleak : ∀ srcAddr, _ ↔ _ := fun srcAddr =>
    @canHackIt_leak_iff inetAddr hook _ env.proxyInfo _ sType s
      (makeClient_describes env hook.dummyDNS sType s
        (hook.hackedSocket.getSocketGeneration s sType).1 srcAddr destination)
      hfamily
  rw [hackConnect_bypass inetAddr env s destination htcp hudp hsocket htype]
  constructor
  · rintro hlisted ⟨hslip, hroute, hsource, hpipe, hstartup⟩
    obtain ⟨srcAddr, hsrc⟩ := Option.isSome_iff_exists.mp hsource
    obtain ⟨hbypass, hunlisted⟩ := (hleak srcAddr).mpr ⟨hslip, hroute⟩
    refine hunlisted (hlisted ⟨?_, Or.inr ⟨srcAddr, hsrc, ?_⟩⟩)
    · simp [lanLeak_not_mdns inetAddr hslip]
    · exact (hackConnectFrom_bypass inetAddr hook env s destination sType
        srcAddr).mpr ⟨hpipe, hstartup, hbypass⟩
  · rintro hno ⟨-, hloop | ⟨srcAddr, hsrc, hfrom⟩⟩
    · exact Or.inl hloop
    · by_contra hunlisted
      obtain ⟨hpipe, hstartup, hbypass⟩ := (hackConnectFrom_bypass inetAddr
        hook env s destination sType srcAddr).mp hfrom
      obtain ⟨hslip, hroute⟩ := (hleak srcAddr).mp ⟨hbypass, hunlisted⟩
      exact hno ⟨hslip, hroute, by simp [hsrc], hpipe, hstartup⟩

theorem sendTo_listed_iff {env : CallEnv} {s : Nat} {destination : SockAddr}
    (hudp : hook.psi.bHookUDP = true) (hfamily : destination ≠ .unspec)
    (hsocket : env.sockType = some sType) (htype : sType ≠ .other) :
    ((hackSendTo inetAddr hook env s destination).decision = .bypass →
      Listed hook sType s destination) ↔
    ¬ SendToLeaks inetAddr hook env s destination sType := by
  rw [hackSendTo_bypass inetAddr env s destination hudp hsocket]
  cases sType with
  | other => exact absurd rfl htype
  | stream => simp [SendToLeaks]
  | dgram =>
    have hleak : ∀ srcAddr, _ ↔ _ := fun srcAddr =>
      @canHackIt_leak_iff inetAddr hook _ env.proxyInfo _ .dgram s
        (makeClient_describes env hook.dummyDNS .dgram s
          (hook.hackedSocket.getSocketGeneration s .dgram).1 srcAddr
          destination) hfamily
    constructor
    · rintro hlisted (⟨hstream, -⟩ |
        ⟨-, hslip, hroute, hpipe, srcAddr, hsrc, hfresh⟩)
      · cases hstream
      · obtain ⟨hbypass, hunlisted⟩ :=
          (hleak srcAddr).mpr ⟨hslip, by simp [hroute]⟩
        refine hunlisted (hlisted (Or.inr (Or.inr ⟨srcAddr, hsrc, ?_⟩)))
        exact (hackSendToFrom_bypass inetAddr hook env s destination
          srcAddr).mpr ⟨hfresh, hpipe, hbypass⟩
    · rintro hno (hother | hroute | ⟨srcAddr, hsrc, hfrom⟩)
      · exact absurd rfl hother
      · exact Or.inr (Or.inr (Or.inr (Or.inr ⟨rfl, hroute⟩)))
      · by_contra hunlisted
        obtain ⟨hfresh, hpipe, hbypass⟩ := (hackSendToFrom_bypass inetAddr
          hook env s destination srcAddr).mp hfrom
        obtain ⟨hslip, hroute⟩ := (hleak srcAddr).mp ⟨hbypass, hunlisted⟩
        refine hno (Or.inr
          ⟨rfl, hslip, by simpa using hroute, hpipe, srcAddr, hsrc, hfresh⟩)

/-- With TCP and UDP interception on, a call is bypassed only for a listed
destination, except for the calls `Leaks` describes. -/
theorem bypass_listed_iff (entry : Entry) (hook : HookWinsock)
    (env : CallEnv) (s : Nat) (destination : SockAddr)
    (htcp : hook.psi.bHookTCP = true) (hudp : hook.psi.bHookUDP = true)
    (hfamily : destination ≠ .unspec) :
    (∀ sType, env.sockType = some sType → sType ≠ .other →
      (answer inetAddr entry hook env s destination).decision = .bypass →
      Listed hook sType s destination) ↔
    ¬ Leaks inetAddr entry hook env s destination := by
  simp only [Leaks, not_exists, not_and]
  refine forall_congr' fun sType => forall_congr' fun hsocket =>
    forall_congr' fun htype => ?_
  cases entry with
  | connect =>
    exact connect_listed_iff inetAddr htcp hudp hfamily hsocket htype
  | sendTo => exact sendTo_listed_iff inetAddr hudp hfamily hsocket htype

end Bypass

/-- A SOCKS5 proxy at `8.8.8.8`, LAN interception off, nothing registered. -/
def sampleHook : HookWinsock where
  psi := ⟨true, true, .localResolver, false, false, false, .unspec⟩
  dummyDNS := .init
  hackedSocket := ⟨[], [], [], 0⟩

def sampleProxy : ProxyInfo :=
  ⟨ascii "SOCKS5", ascii "8.8.8.8", 1080, [], [], 0, []⟩

def sampleEnv : CallEnv where
  dwPid := 1
  dwTid := 1
  processCreateTime := 1
  sockType := some .stream
  endpoint := some (.inet .loopback 5000)
  endpointInvalid := false
  bindOk := true
  endpointAfterBind := none
  requestPipe := true
  startupInfo := some ⟨.inet .loopback 6000, .inet6 .loopback 6000⟩
  proxyInfo := some sampleProxy
  lsAfterLock := []
  onUdp := 0
  registered := some

/-- `inet_addr` of the one host text that is looked up here. -/
def sampleInetAddr (host : Bytes) : InAddr :=
  if host = ascii "8.8.8.8" then ⟨8, 8, 8, 8⟩ else .none

theorem bypass_listed_private :
    (answer sampleInetAddr .connect sampleHook sampleEnv 7
      (.inet ⟨10, 0, 0, 1⟩ 80)).decision = .bypass ∧
    Listed sampleHook .stream 7 (.inet ⟨10, 0, 0, 1⟩ 80) := by
  refine ⟨by decide, ?_⟩
  refine (bypass_listed_iff sampleInetAddr .connect sampleHook sampleEnv 7
    (.inet ⟨10, 0, 0, 1⟩ 80) rfl rfl (by decide)).mpr ?_ .stream rfl
    (by decide) (by decide)
  rintro ⟨_, -, -, ⟨_, _, _, heq, -, -, -, hslip⟩, -⟩
  cases heq
  rcases hslip with ⟨hnet, -⟩ | ⟨hnet, -⟩ <;> exact absurd hnet (by decide)

theorem public_172_bypassed :
    (answer sampleInetAddr .connect sampleHook sampleEnv 7
      (.inet ⟨172, 32, 0, 1⟩ 443)).decision = .bypass ∧
    ¬ Listed sampleHook .stream 7 (.inet ⟨172, 32, 0, 1⟩ 443) := by
  refine ⟨by decide, ?_⟩
  rintro (⟨hloop, -⟩ | hany | ⟨_, hnone⟩ | ⟨_, _, heq, hblock⟩ | ⟨htype, -⟩)
  · exact absurd hloop (by decide)
  · exact absurd hany (by decide)
  · cases hnone
  · cases heq
    exact absurd hblock (by simp [Rfc1918])
  · cases htype

end ProxyLane.Hook
