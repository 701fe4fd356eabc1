import ProxyLane.Hook.HookWinsock
import ProxyLane.Hook.Socks5UdpCodec
import ProxyLane.Hook.UdpProxyTask

/-!
# The UDP payload limit and the encoder

The hooked process limits a datagram by the header that its destination will
get; the reception centre builds the packet, in another process, and encrypts
it where the profile says so.  The two agree on a route when what is put before
the payload is not more than the limit leaves for it.
-/

namespace ProxyLane.Hook

open ProxyLane.Foundation

namespace UdpPayload

open UdpPayloadPolicy Socks5UdpCodec

def isPayloadAllowed (maxPayload : Nat) : Nat → List Nat → Bool
  | total, [] => total ≤ maxPayload
  | total, len :: rest =>
    if maxPayload - min total maxPayload < len then false
    else isPayloadAllowed maxPayload (total + len) rest

def isWSABufferPayloadAllowed (buffers : Option (List Nat)) (maxPayload : Nat) :
    Bool :=
  match buffers with
  | none => true
  | some lengths => isPayloadAllowed maxPayload 0 lengths

private theorem isPayloadAllowed_iff {maxPayload total : Nat} {lengths : List Nat}
    (h : total ≤ maxPayload) :
    isPayloadAllowed maxPayload total lengths = true ↔
      total + lengths.sum ≤ maxPayload := by
  induction lengths generalizing total with
  | nil => simp [isPayloadAllowed]
  | cons len rest ih =>
    simp only [isPayloadAllowed, Nat.min_eq_left h, List.sum_cons]
    split
    · simp only [Bool.false_eq_true, false_iff]
      omega
    · rw [ih (by omega)]
      omega

theorem isWSABufferPayloadAllowed_iff {maxPayload : Nat} {lengths : List Nat} :
    isWSABufferPayloadAllowed (some lengths) maxPayload = true ↔
      lengths.sum ≤ maxPayload := by
  simpa [isWSABufferPayloadAllowed] using
    @isPayloadAllowed_iff maxPayload 0 lengths (Nat.zero_le _)

inductive SendError where
  | wouldBlock
  | afNoSupport
  | msgSize
  | notEnoughMemory
  | inval
  | protoNoSupport
  deriving DecidableEq, Repr

structure SecureUdp where
  hasUdpKey : Bool
  memory : Bool
  iv : Vector UInt8 16
  keystream : Nat → UInt8

def SecureUdp.encryptUdp (secure : SecureUdp) (plain : Bytes) : Bytes :=
  secure.iv.toList ++ plain.mapIdx fun i byte => byte ^^^ secure.keystream i

theorem encryptUdp_length (secure : SecureUdp) (plain : Bytes) :
    (secure.encryptUdp plain).length = 16 + plain.length := by
  simp [SecureUdp.encryptUdp]

/-- The proxy layer of an association; `opID` is set during its handshake. -/
structure UdpLayer where
  opID : Bool
  memory : Bool
  secure : Option SecureUdp

def wirePacket (layer : UdpLayer) (packet : Option Bytes) :
    Except SendError Bytes :=
  match packet, layer.secure with
  | none, _ => .error .inval
  | some packet, none => .ok packet
  | some packet, some secure =>
    if secure.hasUdpKey && secure.memory then .ok (secure.encryptUdp packet)
    else .error .protoNoSupport

def encodeAddress (payload : Bytes) (address : SockAddr) : Option Bytes :=
  let capacity : Option Int := some ((payload.length + maxHeaderSize : Nat) : Int)
  match address with
  | .inet6 ip port =>
    encodeIPv6 capacity (some (ip, port)) (some payload) payload.length
  | .inet ip port =>
    encodeIPv4 capacity (some (ip, port)) (some payload) payload.length
  | .unspec => none

/-- `SendTo` with an address. -/
def sendTo (layer : UdpLayer) (payload : Bytes) (address : SockAddr) :
    Except SendError Bytes :=
  if layer.opID then .error .wouldBlock
  else if address.family = .unspec then .error .afNoSupport
  else
    let headerLength := if address.isIPv6 then 22 else 10
    if 65507 - headerLength < payload.length then .error .msgSize
    else if !layer.memory then .error .notEnoughMemory
    else wirePacket layer (encodeAddress payload address)

/-- `SendTo` with a name; a name that `inet_addr` reads is an address. -/
def sendToHost (inetAddr : Bytes → InAddr) (layer : UdpLayer) (payload : Bytes)
    (port : UInt16) (host : Bytes) : Except SendError Bytes :=
  if layer.opID then .error .wouldBlock
  else if inetAddr host ≠ InAddr.none then
    sendTo layer payload (.inet (inetAddr host) port)
  else if host = [] ∨ 255 < host.length ∨
      65507 - (7 + host.length) < payload.length then .error .msgSize
  else if !layer.memory then .error .notEnoughMemory
  else wirePacket layer (encodeDomain
    (some ((payload.length + maxHeaderSize : Nat) : Int)) (some host) port
    (some payload) payload.length)

/-- `ForwardUpstreamDatagram`; without a proxy there is no layer. -/
def forwardUpstream (inetAddr : Bytes → InAddr) (layer : Option UdpLayer)
    (payload : Bytes) (target : CSAddrInfo) : Except SendError Bytes :=
  match layer with
  | none => .ok payload
  | some layer =>
    if target.szDomainName.isEmpty then sendTo layer payload target.dstAddr
    else sendToHost inetAddr layer payload target.dstAddr.getPort
      target.szDomainName

def proxyTransportGoncTlsPsk : Nat := 1

def isSecure (proxyInfo : ProxyInfo) : Bool :=
  proxyInfo.reserved == proxyTransportGoncTlsPsk

/-- `AddProxyLayer`: a layer of the profile whose handshake is over; profiles
other than SOCKS5 have none, and without a proxy none is needed. -/
def Serves (proxyInfo : ProxyInfo) (layer : Option UdpLayer) : Prop :=
  match proxyInfo.getProxyType, layer with
  | .noProxy, none => True
  | .socks5, some layer => layer.opID = false ∧ layer.memory = true ∧
      layer.secure.isSome = isSecure proxyInfo ∧
      ∀ secure, layer.secure = some secure →
        secure.hasUdpKey = true ∧ secure.memory = true
  | _, _ => False

def encoderHeader (inetAddr : Bytes → InAddr) (target : CSAddrInfo) : Nat :=
  if target.szDomainName.isEmpty then
    if target.dstAddr.isIPv6 then 22 else 10
  else if inetAddr target.szDomainName ≠ InAddr.none then 10
  else 7 + target.szDomainName.length

def limitHeader (client : PrcClient) : Nat :=
  if client.dstAddr.isIPv6 then 22
  else socks5HeaderSize (if client.isDNValid then some client.szDomainName else none)

def Named (client : PrcClient) : Prop :=
  client.szDomainName.length ≤ 255 ∧ 0 ∉ client.szDomainName

def Agrees (inetAddr : Bytes → InAddr) (proxyInfo : ProxyInfo)
    (client : PrcClient) : Prop :=
  ∀ (layer : Option UdpLayer) (buffers : List Bytes), Serves proxyInfo layer →
    isWSABufferPayloadAllowed (some (buffers.map List.length))
      (routeMaxPayload proxyInfo client) = true →
    ∃ wire, forwardUpstream inetAddr layer buffers.flatten
        (UdpProxyTask.makeTarget client) = .ok wire ∧ wire.length ≤ 65507

/-- Without SOCKS5 nothing is put before the payload; with it the header, and
16 bytes more on a secure transport, are not more than the limit leaves. -/
def Fits (inetAddr : Bytes → InAddr) (proxyInfo : ProxyInfo)
    (client : PrcClient) : Prop :=
  proxyInfo.getProxyType = .socks5 →
    encoderHeader inetAddr (UdpProxyTask.makeTarget client) +
      (if isSecure proxyInfo then 16 else 0) ≤ limitHeader client

variable {inetAddr : Bytes → InAddr} {proxyInfo : ProxyInfo} {client : PrcClient}
  {layer : UdpLayer} {payload : Bytes}

theorem limitHeader_le (h : Named client) : limitHeader client ≤ 262 := by
  have hlength := h.1
  unfold limitHeader socks5HeaderSize
  split
  · omega
  · split
    · omega
    · rename_i name hname
      split at hname
      · rw [Option.some.injEq] at hname
        subst hname
        split
        · omega
        · split
          · omega
          · omega
      · simp at hname

theorem routeMaxPayload_socks5 (hsocks5 : proxyInfo.getProxyType = .socks5)
    (h : Named client) :
    routeMaxPayload proxyInfo client = 65507 - limitHeader client := by
  have hle := limitHeader_le h
  have hfits : limitHeader client ≤ maxIPv4UdpPayload := by
    simp only [maxIPv4UdpPayload]
    omega
  simp only [limitHeader] at hfits
  simp only [routeMaxPayload, UdpPayloadPolicy.maxPayload, hsocks5, BEq.rfl,
    Bool.not_true, Bool.false_eq_true, if_false, limitHeader, if_pos hfits]
  rfl

theorem routeMaxPayload_direct (hdirect : proxyInfo.getProxyType ≠ .socks5) :
    routeMaxPayload proxyInfo client = 65507 := by
  simp [routeMaxPayload, UdpPayloadPolicy.maxPayload, hdirect, maxIPv4UdpPayload]

structure Ready (layer : UdpLayer) : Prop where
  opID : layer.opID = false
  memory : layer.memory = true
  secure : ∀ secure, layer.secure = some secure →
    secure.hasUdpKey = true ∧ secure.memory = true

def extra (layer : UdpLayer) : Nat := if layer.secure.isSome then 16 else 0

theorem wirePacket_ready (h : Ready layer) (packet : Bytes) :
    ∃ wire, wirePacket layer (some packet) = .ok wire ∧
      wire.length = packet.length + extra layer := by
  unfold wirePacket extra
  cases hsecure : layer.secure with
  | none => exact ⟨packet, rfl, by simp⟩
  | some secure =>
    obtain ⟨hkey, hmemory⟩ := h.secure secure hsecure
    refine ⟨secure.encryptUdp packet, by simp [hkey, hmemory], ?_⟩
    rw [encryptUdp_length]
    simp only [Option.isSome_some, if_true]
    omega

theorem assemble_payload (header payload : Bytes)
    (hheader : header.length ≤ maxHeaderSize) :
    assemble (some ((payload.length + maxHeaderSize : Nat) : Int)) header
      (some payload) payload.length = some (header ++ payload) := by
  unfold assemble
  simp only
  rw [if_neg]
  · simp
  · simp only [maxHeaderSize] at hheader ⊢
    simp
    omega

theorem encodeAddress_payload {address : SockAddr}
    (haddress : address.family ≠ .unspec) (payload : Bytes) :
    ∃ packet, encodeAddress payload address = some packet ∧
      packet.length = (if address.isIPv6 then 22 else 10) + payload.length := by
  cases address with
  | unspec => exact absurd rfl haddress
  | inet ip port =>
    refine ⟨ipv4Header ip port ++ payload, ?_, ?_⟩
    · exact assemble_payload _ _ (by simp [maxHeaderSize])
    · simp [SockAddr.isIPv6, SockAddr.family]
  | inet6 ip port =>
    refine ⟨ipv6Header ip port ++ payload, ?_, ?_⟩
    · exact assemble_payload _ _ (by simp [maxHeaderSize])
    · simp [SockAddr.isIPv6, SockAddr.family]

theorem sendTo_accepts (h : Ready layer) {address : SockAddr}
    (haddress : address.family ≠ .unspec) :
    (∃ wire, sendTo layer payload address = .ok wire ∧ wire.length ≤ 65507) ↔
      payload.length + (if address.isIPv6 then 22 else 10) + extra layer ≤ 65507 := by
  obtain ⟨packet, hpacket, hlength⟩ := encodeAddress_payload haddress payload
  obtain ⟨wire, hwire, hwireLength⟩ := wirePacket_ready h packet
  simp only [sendTo, h.opID, Bool.false_eq_true, if_false, haddress, h.memory,
    Bool.not_true, hpacket, hwire]
  have hheader : (if address.isIPv6 then 22 else 10) ≤ 22 := by split <;> omega
  generalize (if address.isIPv6 then 22 else 10) = header at *
  split
  · simp only [reduceCtorEq, false_and, exists_false, false_iff]
    omega
  · constructor
    · rintro ⟨wire', heq, hle⟩
      rw [Except.ok.injEq] at heq
      subst heq
      omega
    · intro hle
      exact ⟨wire, rfl, by omega⟩

theorem sendToHost_accepts (h : Ready layer) {host : Bytes} {port : UInt16}
    (hhost : host ≠ []) (hlength : host.length ≤ 255) (hname : 0 ∉ host) :
    (∃ wire, sendToHost inetAddr layer payload port host = .ok wire ∧
        wire.length ≤ 65507) ↔
      payload.length + (if inetAddr host ≠ InAddr.none then 10
        else 7 + host.length) + extra layer ≤ 65507 := by
  by_cases hread : inetAddr host ≠ InAddr.none
  · have hsend : sendToHost inetAddr layer payload port host =
        sendTo layer payload (.inet (inetAddr host) port) := by
      simp [sendToHost, h.opID, hread]
    rw [hsend, sendTo_accepts h (by simp [SockAddr.family]), if_pos hread]
    simp [SockAddr.isIPv6, SockAddr.family]
  · have hencode : encodeDomain
        (some ((payload.length + maxHeaderSize : Nat) : Int)) (some host) port
        (some payload) payload.length = some (domainHeader host port ++ payload) := by
      simp only [encodeDomain, cString_self hname]
      rw [if_neg (by simp [hhost]; omega)]
      exact assemble_payload _ _ (by simp [maxHeaderSize]; omega)
    obtain ⟨wire, hwire, hwireLength⟩ :=
      wirePacket_ready h (domainHeader host port ++ payload)
    simp only [List.length_append, domainHeader_length] at hwireLength
    simp only [sendToHost, h.opID, Bool.false_eq_true, if_false, hread, h.memory,
      Bool.not_true, hencode, hwire]
    by_cases hlong : 65507 - (7 + host.length) < payload.length
    · rw [if_pos (Or.inr (Or.inr hlong))]
      simp only [reduceCtorEq, false_and, exists_false, false_iff]
      omega
    · rw [if_neg (by simp [hhost]; omega)]
      constructor
      · rintro ⟨wire', heq, hle⟩
        rw [Except.ok.injEq] at heq
        subst heq
        omega
      · intro hle
        exact ⟨wire, rfl, by omega⟩

theorem makeTarget_spec (h : Named client) :
    (UdpProxyTask.makeTarget client).dstAddr.family ≠ .unspec ∧
      (UdpProxyTask.makeTarget client).szDomainName.length ≤ 255 ∧
      0 ∉ (UdpProxyTask.makeTarget client).szDomainName := by
  simp only [UdpProxyTask.makeTarget, CSAddrInfo.normalize]
  refine ⟨?_, ?_, ?_⟩
  · split
    · simp [SockAddr.family]
    · rename_i hsome
      cases haddress : client.getProxyDestination <;> simp_all [SockAddr.family]
  · split
    · simp
    · simp only [List.length_take]
      omega
  · split
    · simp
    · exact fun hmem => h.2 (List.mem_of_mem_take hmem)

theorem forwardUpstream_accepts (h : Ready layer) (hclient : Named client) :
    (∃ wire, forwardUpstream inetAddr (some layer) payload
        (UdpProxyTask.makeTarget client) = .ok wire ∧ wire.length ≤ 65507) ↔
      payload.length + encoderHeader inetAddr (UdpProxyTask.makeTarget client) +
        extra layer ≤ 65507 := by
  obtain ⟨haddress, hlength, hname⟩ := makeTarget_spec hclient
  generalize UdpProxyTask.makeTarget client = target at *
  simp only [forwardUpstream, encoderHeader]
  by_cases hempty : target.szDomainName.isEmpty = true
  · simp only [hempty, if_true]
    exact sendTo_accepts h haddress
  · simp only [hempty]
    exact sendToHost_accepts h (by simpa using hempty) hlength hname

def sampleLayer (proxyInfo : ProxyInfo) : UdpLayer where
  opID := false
  memory := true
  secure :=
    if isSecure proxyInfo then some ⟨true, true, Vector.replicate 16 0, fun _ => 0⟩
    else none

theorem sampleLayer_serves (hsocks5 : proxyInfo.getProxyType = .socks5) :
    Serves proxyInfo (some (sampleLayer proxyInfo)) := by
  simp only [Serves, hsocks5, sampleLayer]
  cases isSecure proxyInfo <;> simp

theorem serves_ready (hsocks5 : proxyInfo.getProxyType = .socks5)
    (h : Serves proxyInfo (some layer)) :
    Ready layer ∧ extra layer = if isSecure proxyInfo then 16 else 0 := by
  simp only [Serves, hsocks5] at h
  exact ⟨⟨h.1, h.2.1, h.2.2.2⟩, by rw [extra, h.2.2.1]⟩

theorem agrees_iff (hclient : Named client) :
    Agrees inetAddr proxyInfo client ↔ Fits inetAddr proxyInfo client := by
  by_cases hsocks5 : proxyInfo.getProxyType = .socks5
  · have hlimit := routeMaxPayload_socks5 hsocks5 hclient
    have hle := limitHeader_le hclient
    constructor
    · intro hagrees _
      obtain ⟨hready, hextra⟩ := serves_ready hsocks5 (sampleLayer_serves hsocks5)
      have haccepts := (forwardUpstream_accepts hready hclient).1
        (hagrees (some (sampleLayer proxyInfo))
          [List.replicate (65507 - limitHeader client) 0]
          (sampleLayer_serves hsocks5)
          (by rw [isWSABufferPayloadAllowed_iff, hlimit]; simp))
      rw [hextra] at haccepts
      simp only [List.flatten_cons, List.flatten_nil, List.append_nil,
        List.length_replicate] at haccepts
      omega
    · intro hfits layer buffers hserves hallowed
      have hfits := hfits hsocks5
      rw [isWSABufferPayloadAllowed_iff, hlimit] at hallowed
      cases layer with
      | none => simp [Serves, hsocks5] at hserves
      | some layer =>
        obtain ⟨hready, hextra⟩ := serves_ready hsocks5 hserves
        apply (forwardUpstream_accepts hready hclient).2
        rw [hextra, List.length_flatten]
        omega
  · have hlimit := @routeMaxPayload_direct proxyInfo client hsocks5
    constructor
    · intro _ hsame
      exact absurd hsame hsocks5
    · intro _ layer buffers hserves hallowed
      rw [isWSABufferPayloadAllowed_iff, hlimit] at hallowed
      cases layer with
      | none =>
        refine ⟨buffers.flatten, rfl, ?_⟩
        rw [List.length_flatten]
        exact hallowed
      | some layer =>
        simp only [Serves] at hserves
        split at hserves <;> simp_all

end UdpPayload

end ProxyLane.Hook
