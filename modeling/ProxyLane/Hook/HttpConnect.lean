import ProxyLane.Foundation.Base64
import ProxyLane.Hook.ProxyHandshake
import ProxyLane.Hook.StructInfo

/-!
# The CONNECT request

What is asked of an HTTP proxy.  The request is printed into buffers of fixed
size, and the credentials are written by an encoder for mail: it ends a line
after 72 characters, and it ends every text that stops with a whole group by
one more `=`.
-/

namespace ProxyLane.Hook

open ProxyLane.Foundation

namespace HttpConnect

open ProxyHandshake (ProxyType cString)

/-- `CBase64Coding::Encode` from one group on; `written` is
`number_of_bytes_encoded`. -/
def encodeFrom : Bytes → Nat → Bytes
  | byte1 :: byte2 :: byte3 :: rest, written =>
    let b1 := byte1.toNat
    let b2 := byte2.toNat
    let b3 := byte3.toNat
    let group := [Alphabet.standard.char (b1 >>> 2),
      Alphabet.standard.char (((b1 &&& 0x03) <<< 4) ||| ((b2 &&& 0xF0) >>> 4)),
      Alphabet.standard.char (((b2 &&& 0x0F) <<< 2) ||| ((b3 &&& 0xC0) >>> 6)),
      Alphabet.standard.char (b3 &&& 0x3F)]
    if (written + 4) % 72 = 0 then
      group ++ [13, 10] ++ encodeFrom rest (written + 6)
    else group ++ encodeFrom rest (written + 4)
  | [byte1, byte2], _ =>
    let b1 := byte1.toNat
    let b2 := byte2.toNat
    [Alphabet.standard.char (b1 >>> 2),
      Alphabet.standard.char (((b1 &&& 0x03) <<< 4) ||| ((b2 &&& 0xF0) >>> 4)),
      Alphabet.standard.char (((b2 &&& 0x0F) <<< 2) ||| ((0 &&& 0xC0) >>> 6)), 61]
  | [byte1], _ =>
    let b1 := byte1.toNat
    [Alphabet.standard.char (b1 >>> 2),
      Alphabet.standard.char (((b1 &&& 0x03) <<< 4) ||| ((0 &&& 0xF0) >>> 4)),
      61, 61]
  | [], _ => [61]

def encode (source : Bytes) : Bytes := encodeFrom source 0

/-- What `_snprintf` returns. -/
def snprintf (count : Nat) (text : Bytes) : Int :=
  if text.length ≤ count then text.length else -1

structure Net where
  inetAddr : Bytes → InAddr
  inetNtop6 : In6Addr → Option Bytes

structure ProxyData where
  proxyType : ProxyType
  useLogon : Bool
  user : Bytes
  pass : Bytes
  deriving DecidableEq, Repr

structure Layer where
  peerHost : Option Bytes
  peerAddress : SockAddr
  peerIP : InAddr
  peerPort : UInt16
  deriving DecidableEq, Repr

/-- `Connect` with an address. -/
def connectAddress (address : SockAddr) : Option Layer :=
  if address = .unspec then none
  else if address.isAny then none
  else some ⟨none, address, address.getdwIP, address.getPort⟩

/-- `Connect` with a host and a port. -/
def connectHost (net : Net) (host : Bytes) (port : UInt16) : Option Layer :=
  let addr := net.inetAddr host
  if addr = .none then some ⟨some host, .unspec, .any, port⟩
  else
    (connectAddress (.inet addr port)).map fun layer =>
      { layer with peerHost := some host }

/-- `%u`. -/
def decimal (n : Nat) : Bytes :=
  (Nat.toDigits 10 n).map fun c => UInt8.ofNat c.toNat

def inetNtoa (addr : InAddr) : Bytes :=
  decimal addr.net.toNat ++ ascii "." ++ decimal addr.host.toNat ++
    ascii "." ++ decimal addr.lh.toNat ++ ascii "." ++
    decimal addr.impno.toNat

def peerText (net : Net) (layer : Layer) : Option Bytes :=
  match layer.peerHost with
  | some (first :: rest) => some (first :: rest)
  | _ =>
    match layer.peerAddress with
    | .inet6 addr _ => net.inetNtop6 addr
    | _ => some (inetNtoa layer.peerIP)

/-- `%s%s%s:%u` with the brackets of an IPv6 peer. -/
def authority (layer : Layer) (host : Bytes) : Bytes :=
  (if layer.peerAddress.isIPv6 then ascii "[" else []) ++ host ++
    (if layer.peerAddress.isIPv6 then ascii "]" else []) ++ ascii ":" ++
    decimal layer.peerPort.toNat

def crlf : Bytes := [13, 10]

/-- `szUserPassBase64`. -/
def credentials (data : ProxyData) : Bytes :=
  let text := cString data.user ++ ascii ":" ++ cString data.pass
  encode ((text.take 512).take (snprintf 512 text).toNat)

def requestText (data : ProxyData) (layer : Layer) (host : Bytes) : Bytes :=
  let target := authority layer host
  let authorization :=
    ascii "Authorization: Basic " ++ credentials data ++ crlf ++
      ascii "Proxy-Authorization: Basic " ++ credentials data ++ crlf
  match data.useLogon, decide (data.proxyType = .http10) with
  | false, true => ascii "CONNECT " ++ target ++ ascii " HTTP/1.0" ++ crlf ++ crlf
  | false, false =>
    ascii "CONNECT " ++ target ++ ascii " HTTP/1.1" ++ crlf ++
      ascii "Host: " ++ target ++ crlf ++
      ascii "Proxy-Connection: Keep-Alive" ++ crlf ++ crlf
  | true, true =>
    ascii "CONNECT " ++ target ++ ascii " HTTP/1.0" ++ crlf ++
      authorization ++
      ascii "Proxy-Connection: Keep-Alive" ++ crlf ++ crlf
  | true, false =>
    ascii "CONNECT " ++ target ++ ascii " HTTP/1.1" ++ crlf ++
      ascii "Host: " ++ target ++ crlf ++ authorization ++
      ascii "Proxy-Connection: Keep-Alive" ++ crlf ++ crlf

/-- The bytes given to `QueueProxyRequest`; none where the request fails. -/
def request (net : Net) (data : ProxyData) (layer : Layer) : Option Bytes :=
  if data.proxyType = .http10 ∨ data.proxyType = .http11 then
    match peerText net layer with
    | none => none
    | some host =>
      let text := requestText data layer host
      let length := snprintf 4096 text
      if length ≤ 0 ∨ 4096 ≤ length then none
      else some (text.take length.toNat)
  else none

end HttpConnect

end ProxyLane.Hook
