import ProxyLane.Hook.StructInfo

/-!
# Routing policies

The pure decisions shared by the hook and the reception centre: dummy
addresses, redirection of private resolvers, sharing of a UDP association, the
mDNS destination and the largest datagram a route accepts.
-/

namespace ProxyLane.Hook

open ProxyLane.Foundation

namespace DummyDNS

def isDummyIP (ip : InAddr) : Bool := ip.ntohl >>> 16 == 0x7fff

def isDummyIPv6 (address : In6Addr) : Bool :=
  address[0] == 0xfd && address[1] == 0xff

end DummyDNS

namespace DnsRedirectPolicy

def isPrivateDnsAddress (address : SockAddr) : Bool :=
  if address.isIPv4 || address.isIPv4Mapped then
    let ipv4 := address.getdwIP
    ipv4.net == 10 ||
      (ipv4.net == 172 && ipv4.host ≥ 16 && ipv4.host ≤ 31) ||
      (ipv4.net == 192 && ipv4.host == 168) ||
      (ipv4.net == 169 && ipv4.host == 254)
  else
    match address.getAddr6 with
    | some bytes =>
      bytes[0] &&& 0xfe == 0xfc || (bytes[0] == 0xfe && bytes[1] &&& 0xc0 == 0x80)
    | none => false

def isValidPublicResolver (address : SockAddr) : Bool :=
  if address.isAny || address.isLoopback || address.isIPv4Mapped ||
      isPrivateDnsAddress address then
    false
  else if address.isIPv4 || address.isIPv4Mapped then
    address.getdwIP.net < 224
  else
    match address.getAddr6 with
    | some bytes => bytes[0] != 0xff
    | none => false

def shouldRedirect (client : PrcClient) (settings : ProxySettingsInfo)
    (proxy : ProxyInfo) : Bool :=
  settings.nDNSOption == .remoteResolver &&
    settings.bRedirectPrivateDNS &&
    proxy.getProxyType != .noProxy &&
    client.dstAddr.getPort == 53 &&
    client.szDomainName.isEmpty &&
    isPrivateDnsAddress client.dstAddr &&
    isValidPublicResolver settings.redirectDNSAddr

def apply (client : PrcClient) (settings : ProxySettingsInfo)
    (proxy : ProxyInfo) : PrcClient :=
  if shouldRedirect client settings proxy then
    { client with
      proxyDstAddr := settings.redirectDNSAddr.setPort 53
      dnsRedirect := true }
  else
    { client with proxyDstAddr := .unspec, dnsRedirect := false }

end DnsRedirectPolicy

namespace UdpAssociationPolicy

structure Destination where
  hasDomain : Bool
  domain : Bytes
  family : Family
  ipv4 : InAddr
  ipv6 : In6Addr
  port : UInt16
  deriving DecidableEq, Repr

def isSameDestination (left right : Destination) : Bool :=
  if left.hasDomain != right.hasDomain || left.port != right.port then false
  else if left.hasDomain then sameText left.domain right.domain
  else if left.family != right.family then false
  else if left.family == .inet6 then left.ipv6 == right.ipv6
  else left.ipv4 == right.ipv4

/--
Replies name an address and a port but no domain, so two different routes on
one port are ambiguous as soon as one of them was addressed by domain.
-/
def canShareAssociation (left right : Destination) : Bool :=
  if isSameDestination left right then true
  else !(left.port == right.port && (left.hasDomain || right.hasDomain))

def mdns6 : In6Addr :=
  #v[0xff, 0x02, 0, 0, 0, 0, 0, 0, 0, 0, 0, 0, 0, 0, 0, 0xfb]

def isMdnsDestination (address : SockAddr) : Bool :=
  address.getPort == 5353 &&
    match address with
    | .inet ip _ => ip == ⟨224, 0, 0, 251⟩
    | .inet6 ip _ => ip == mdns6
    | .unspec => false

end UdpAssociationPolicy

namespace UdpPayloadPolicy

def maxIPv4UdpPayload : Nat := 65507

def socks5HeaderSize (domain : Option Bytes) : Nat :=
  match domain with
  | none => 10
  | some domain =>
    if domain.isEmpty then 10
    else if domain.length > 255 then maxIPv4UdpPayload + 1
    else 7 + domain.length

def maxPayload (usesSocks5 : Bool) (domain : Option Bytes) (isIPv6 : Bool) :
    Nat :=
  if !usesSocks5 then maxIPv4UdpPayload
  else
    let headerSize := if isIPv6 then 22 else socks5HeaderSize domain
    if headerSize ≤ maxIPv4UdpPayload then maxIPv4UdpPayload - headerSize
    else 0

end UdpPayloadPolicy

end ProxyLane.Hook
