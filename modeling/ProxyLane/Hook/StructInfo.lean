import ProxyLane.Foundation.Bytes

/-!
# Records shared by the hook and the reception centre

Addresses keep the octets in memory order, so the byte-wise classifiers of the
source read them directly.  A socket address is either the zeroed record or a
complete IPv4 or IPv6 endpoint; flow labels and scope identifiers take part in
no comparison and are left out.
-/

namespace ProxyLane.Hook

open ProxyLane.Foundation

/-- An `in_addr`; the fields are `s_net`, `s_host`, `s_lh` and `s_impno`. -/
structure InAddr where
  net : UInt8
  host : UInt8
  lh : UInt8
  impno : UInt8
  deriving DecidableEq, Repr

namespace InAddr

def any : InAddr := ⟨0, 0, 0, 0⟩

/-- `INADDR_NONE`, which is also the limited broadcast address. -/
def none : InAddr := ⟨255, 255, 255, 255⟩

def loopback : InAddr := ⟨127, 0, 0, 1⟩

def toBytes (addr : InAddr) : Bytes :=
  [addr.net, addr.host, addr.lh, addr.impno]

def ntohl (addr : InAddr) : Nat := beNat addr.toBytes

def htonl (value : Nat) : InAddr :=
  ⟨UInt8.ofNat (value / 2 ^ 24), UInt8.ofNat (value / 2 ^ 16),
    UInt8.ofNat (value / 2 ^ 8), UInt8.ofNat value⟩

theorem ntohl_htonl {value : Nat} (h : value < 2 ^ 32) :
    (htonl value).ntohl = value := by
  simp only [htonl, ntohl, toBytes, beNat, List.foldl_cons, List.foldl_nil,
    UInt8.toNat_ofNat']
  omega

theorem htonl_inj {left right : Nat} (hl : left < 2 ^ 32)
    (hr : right < 2 ^ 32) : htonl left = htonl right ↔ left = right := by
  constructor
  · intro h
    rw [← ntohl_htonl hl, h, ntohl_htonl hr]
  · exact congrArg htonl

end InAddr

abbrev In6Addr := Vector UInt8 16

namespace In6Addr

def any : In6Addr := Vector.replicate 16 0

def loopback : In6Addr := any.set 15 1

/-- `IN6_IS_ADDR_V4MAPPED`: the prefix `::ffff:0:0/96`. -/
def isV4Mapped (addr : In6Addr) : Bool :=
  addr.toList.take 12 == List.replicate 10 0 ++ [255, 255]

/-- The last four octets, copied into an `in_addr`. -/
def tail4 (addr : In6Addr) : InAddr :=
  ⟨addr[12], addr[13], addr[14], addr[15]⟩

end In6Addr

inductive Family where
  | unspec
  | inet
  | inet6
  deriving DecidableEq, Repr

inductive SockAddr where
  | unspec
  | inet (addr : InAddr) (port : UInt16)
  | inet6 (addr : In6Addr) (port : UInt16)
  deriving DecidableEq, Repr

namespace SockAddr

def family : SockAddr → Family
  | .unspec => .unspec
  | .inet _ _ => .inet
  | .inet6 _ _ => .inet6

def isIPv4 (addr : SockAddr) : Bool := addr.family == .inet

def isIPv6 (addr : SockAddr) : Bool := addr.family == .inet6

def isIPv4Mapped : SockAddr → Bool
  | .inet6 addr _ => addr.isV4Mapped
  | _ => false

def isAny : SockAddr → Bool
  | .inet6 addr _ => addr == In6Addr.any
  | .inet addr _ => addr == InAddr.any
  | .unspec => false

def isLoopback : SockAddr → Bool
  | .inet6 addr _ => addr == In6Addr.loopback
  | .inet addr _ => addr.ntohl >>> 24 == 127
  | .unspec => false

def getdwIP : SockAddr → InAddr
  | .inet addr _ => addr
  | .inet6 addr _ => if addr.isV4Mapped then addr.tail4 else .any
  | .unspec => .any

def getAddr6 : SockAddr → Option In6Addr
  | .inet6 addr _ => some addr
  | _ => none

def getPort : SockAddr → UInt16
  | .inet _ port => port
  | .inet6 _ port => port
  | .unspec => 0

def setPort (addr : SockAddr) (port : UInt16) : SockAddr :=
  match addr with
  | .inet ip _ => .inet ip port
  | .inet6 ip _ => .inet6 ip port
  | .unspec => .unspec

def sameAddress : SockAddr → SockAddr → Bool
  | .inet left _, .inet right _ => left == right
  | .inet6 left _, .inet6 right _ => left == right
  | _, _ => false

/-- `operator ==`: the same address and the same port. -/
def sameEndpoint (left right : SockAddr) : Bool :=
  left.sameAddress right && left.getPort == right.getPort

/-- `SetLoopbackAddress`: clears the whole record, the port included. -/
def setLoopbackAddress : Family → SockAddr
  | .inet6 => .inet6 .loopback 0
  | _ => .inet .loopback 0

theorem sameEndpoint_iff {left right : SockAddr} :
    left.sameEndpoint right = true ↔ left = right ∧ left ≠ .unspec := by
  cases left <;> cases right <;>
    simp [sameEndpoint, sameAddress, getPort]

theorem isLoopback_inet (addr : InAddr) (port : UInt16) :
    (SockAddr.inet addr port).isLoopback = true ↔ addr.net = 127 := by
  have hhost := addr.host.toNat_lt
  have hlh := addr.lh.toNat_lt
  have himpno := addr.impno.toNat_lt
  have hnet : addr.ntohl >>> 24 = addr.net.toNat := by
    simp only [InAddr.ntohl, InAddr.toBytes, beNat, List.foldl_cons,
      List.foldl_nil, Nat.shiftRight_eq_div_pow]
    omega
  simp [isLoopback, hnet, ← UInt8.toNat_inj]

end SockAddr

inductive ProxyType where
  | noProxy
  | socks4
  | socks4a
  | socks5
  | http10
  | http11
  deriving DecidableEq, Repr

structure ProxyInfo where
  strProxyType : Bytes
  strProxyHost : Bytes
  nProxyPort : Int
  strProxyUser : Bytes
  strProxyPass : Bytes
  reserved : Nat
  strTransportPsk : Bytes
  deriving DecidableEq, Repr

def ProxyInfo.getProxyType (info : ProxyInfo) : ProxyType :=
  if sameText info.strProxyType (ascii "SOCKS4") then .socks4
  else if sameText info.strProxyType (ascii "SOCKS4A") then .socks4a
  else if sameText info.strProxyType (ascii "SOCKS5") then .socks5
  else if sameText info.strProxyType (ascii "HTTP10") then .http10
  else if sameText info.strProxyType (ascii "HTTP") ||
      sameText info.strProxyType (ascii "HTTP11") then .http11
  else .noProxy

inductive DnsOption where
  | localResolver
  | remoteResolver
  | other
  deriving DecidableEq, Repr

structure ProxySettingsInfo where
  bHookTCP : Bool
  bHookUDP : Bool
  nDNSOption : DnsOption
  bHookLanIP : Bool
  bDisableMDNS : Bool
  bRedirectPrivateDNS : Bool
  redirectDNSAddr : SockAddr
  deriving DecidableEq, Repr

structure PrcInfo where
  tcpaddr : SockAddr
  tcpaddr6 : SockAddr
  deriving DecidableEq, Repr

inductive SockType where
  | stream
  | dgram
  | other
  deriving DecidableEq, Repr

/--
One registration.  `dnsRedirect` is the only flag of `routingFlags`; `dstAddr`
always keeps the application's own destination.
-/
structure PrcClient where
  dwPid : Nat
  dwTid : Nat
  processCreateTime : Nat
  socketGeneration : Nat
  sType : SockType
  s : Nat
  szDomainName : Bytes
  srcAddr : SockAddr
  dstAddr : SockAddr
  proxyDstAddr : SockAddr
  dnsRedirect : Bool
  udpAddr : SockAddr
  reserved : Nat
  deriving DecidableEq, Repr

namespace PrcClient

def zero : PrcClient where
  dwPid := 0
  dwTid := 0
  processCreateTime := 0
  socketGeneration := 0
  sType := .other
  s := 0
  szDomainName := []
  srcAddr := .unspec
  dstAddr := .unspec
  proxyDstAddr := .unspec
  dnsRedirect := false
  udpAddr := .unspec
  reserved := 0

def isDNValid (client : PrcClient) : Bool := !client.szDomainName.isEmpty

def hasProxyDestination (client : PrcClient) : Bool := client.dnsRedirect

def getProxyDestination (client : PrcClient) : SockAddr :=
  if client.hasProxyDestination then client.proxyDstAddr else client.dstAddr

end PrcClient

end ProxyLane.Hook
