import ProxyLane.Foundation.Bytes
import ProxyLane.Foundation.Run

/-!
# The proxy handshake

The layer that asks a SOCKS or HTTP proxy for a connection.  It sends its
requests as the socket takes them and reads the replies as they come; when the
proxy has granted the request, the layer passes everything on, first of all the
bytes that came with the reply.

Bytes arrive at a socket, and each read takes some of them.
-/

namespace ProxyLane.Hook

open ProxyLane.Foundation

namespace ProxyHandshake

inductive ProxyType where
  | socks4
  | socks4a
  | socks5
  | http10
  | http11
  deriving DecidableEq, Repr

/-- `PROXYOP_CONNECT`, `PROXYOP_BIND`, `PROXYOP_UDPASSOCIATE`. -/
inductive Op where
  | connect
  | bind
  | udpAssociate
  deriving DecidableEq, Repr

def Op.id : Op → UInt8
  | .connect => 1
  | .bind => 2
  | .udpAssociate => 3

def wsaeInval : Nat := 10022
def wsaeOpNotSupp : Nat := 10045
def wsaeAfNoSupport : Nat := 10047
def wsaeConnAborted : Nat := 10053
def wsaeConnReset : Nat := 10054
def wsaHostNotFound : Nat := 11001

/-- The proxy and the peer that is asked for; addresses and ports in network
order.  `peerName` is the address of the proxy, and `resolve` what a host name
stands for. -/
structure Config where
  proxyType : ProxyType
  useLogon : Bool
  user : Bytes
  pass : Bytes
  peerHost : Option Bytes
  peerIPv6 : Option Bytes
  peerIP : Option Bytes
  peerPort : Bytes
  udpClient : Bytes
  peerName : Option Bytes
  resolve : Bytes → Option Bytes

def cString (text : Bytes) : Bytes := text.takeWhile (· ≠ 0)

def authRequest (cfg : Config) : Option Bytes :=
  let text := [1, UInt8.ofNat cfg.user.length] ++ cString cfg.user ++
    [UInt8.ofNat cfg.pass.length] ++ cString cfg.pass
  if text.length ≤ 513 then some text else none

def connectRequest (cfg : Config) (op : Op) : Option Bytes :=
  let head := [5, op.id, 0]
  if op = .udpAssociate then some (head ++ [1] ++ cfg.udpClient)
  else
    match cfg.peerIPv6, cfg.peerIP, cfg.peerHost with
    | some address, _, _ => some (head ++ [4] ++ address ++ cfg.peerPort)
    | none, some address, _ => some (head ++ [1] ++ address ++ cfg.peerPort)
    | none, none, some host =>
      some (head ++ [3, UInt8.ofNat host.length] ++ host ++ cfg.peerPort)
    | none, none, none => none

inductive ProxyError where
  | requestFailed
  | authRequired
  | authTypeUnknown
  | authFailed
  | authNoLogon
  | udpUnsupported
  deriving DecidableEq, Repr

inductive Notice where
  | callback (proxyError : ProxyError) (error : Nat) (text : Bytes)
  | listenSocketCreated (ip port : Bytes)
  | connect (error : Nat)
  | accept (error : Nat)
  | read
  | write
  deriving DecidableEq, Repr

def Op.event (op : Op) (error : Nat) : Notice :=
  if op = .bind then .accept error else .connect error

def failure (op : Op) (proxyError : ProxyError) (callbackError eventError : Nat)
    (text : Bytes) : List Notice :=
  [.callback proxyError callbackError text, op.event eventError]

inductive Verdict where
  | wait
  | failed (notices : List Notice) (clear : Bool)
  | request (data : Option Bytes) (next : Nat)
  | goOn (notices : List Notice) (next : Nat)
  | succeeded (notices : List Notice) (relay : Option (Bytes × Bytes))
  deriving DecidableEq, Repr

/-- A `char` as `unsigned`. -/
def charValue (byte : UInt8) : Nat :=
  if byte.toNat < 128 then byte.toNat else 2 ^ 32 - 256 + byte.toNat

def getSocks4Error (ver cd : UInt8) : Bytes :=
  if ver ≠ 0 then ascii s!"Unknown protocol version: {charValue ver}"
  else
    match cd.toNat with
    | 90 => []
    | 91 => ascii "Request rejected or failed"
    | 92 => ascii "Failed to connect to 'identd'"
    | 93 => ascii "'identd' user-id error"
    | _ => ascii s!"Unknown command: {charValue cd}"

def getSocks5Error (rep : UInt8) : Bytes :=
  match rep.toNat with
  | 0 => []
  | 1 => ascii "General SOCKS server failure"
  | 2 => ascii "Connection not allowed by ruleset"
  | 3 => ascii "Network unreachable"
  | 4 => ascii "Host unreachable"
  | 5 => ascii "Connection refused"
  | 6 => ascii "TTL expired"
  | 7 => ascii "Command not supported"
  | 8 => ascii "Address type not supported"
  | _ => ascii s!"Unknown reply: {charValue rep}"

def connected (op : Op) : Verdict :=
  .succeeded [op.event 0, .read, .write] none

def socks4Listening (cfg : Config) (op : Op) (ip port : Bytes) : Verdict :=
  if ip = [0, 0, 0, 0] then
    match cfg.peerName with
    | some ip => .goOn [.listenSocketCreated ip port] 2
    | none => .failed (failure op .requestFailed 0 wsaeConnAborted []) true
  else .goOn [.listenSocketCreated ip port] 2

def socks4Reply (cfg : Config) (op : Op) (opState : Nat) (reply : Bytes) :
    Verdict :=
  if reply.length ≠ 8 then .wait
  else
    let ver := reply.getD 0 0
    let cd := reply.getD 1 0
    if ver ≠ 0 ∨ cd ≠ 90 then
      .failed (failure op .requestFailed 0 wsaeConnAborted (getSocks4Error ver cd))
        true
    else if (op = .connect ∧ opState = 1) ∨ (op = .bind ∧ opState = 2) then
      connected op
    else if op = .bind ∧ opState = 1 then
      socks4Listening cfg op ((reply.drop 4).take 4) ((reply.drop 2).take 2)
    else .goOn [] opState

def socks5Method (cfg : Config) (op : Op) (opState : Nat) (reply : Bytes) :
    Verdict :=
  if reply.length ≠ 2 then .wait
  else
    let ver := reply.getD 0 0
    let method := reply.getD 1 0
    let refused (proxyError : ProxyError) : Verdict :=
      .failed (failure op proxyError 0 wsaeConnAborted []) true
    if opState = 2 ∧ method ≠ 0 then refused .authFailed
    else if opState = 1 ∧ ver ≠ 5 then refused .requestFailed
    else if opState = 1 ∧ method ≠ 0 then
      if method ≠ 2 then refused .authTypeUnknown
      else if !cfg.useLogon then refused .authNoLogon
      else .request (authRequest cfg) 2
    else
      match connectRequest cfg op with
      | some data => .request (some data) 3
      | none => .failed [.callback .requestFailed wsaeInval [], .connect wsaeInval]
          false

def responseLength (reply : Bytes) : Nat :=
  if reply.length < 4 then 4
  else
    match (reply.getD 3 0).toNat with
    | 1 => 10
    | 3 => if reply.length < 5 then 5 else 7 + (reply.getD 4 0).toNat
    | 4 => 22
    | _ => 4

/-- The relay of a `UDP ASSOCIATE`; no address stands for that of the proxy. -/
def socks5Relay (cfg : Config) (op : Op) (reply : Bytes) : Verdict :=
  let relay (ip port : Bytes) : Verdict :=
    .succeeded [.connect 0]
      (some (if ip = [0, 0, 0, 0] then cfg.peerName.getD ip else ip, port))
  match (reply.getD 3 0).toNat with
  | 1 => relay ((reply.drop 4).take 4) ((reply.drop 8).take 2)
  | 3 =>
    let length := (reply.getD 4 0).toNat
    match cfg.resolve (cString ((reply.drop 5).take length)) with
    | some ip => relay ip ((reply.drop (5 + length)).take 2)
    | none => .failed [.connect wsaHostNotFound] true
  | _ => .failed (failure op .requestFailed wsaeAfNoSupport wsaeAfNoSupport
      (ascii "UDP ASSOCIATE returned a non-IPv4 relay")) true

def socks5Granted (cfg : Config) (op : Op) (opState : Nat) (reply : Bytes) :
    Verdict :=
  let rep := reply.getD 1 0
  if reply.getD 0 0 ≠ 5 ∨ rep ≠ 0 then
    if op = .udpAssociate ∧ rep = 7 then
      .failed (failure op .udpUnsupported wsaeOpNotSupp wsaeOpNotSupp
        (getSocks5Error rep)) true
    else .failed (failure op .requestFailed wsaeConnAborted wsaeConnAborted
      (getSocks5Error rep)) true
  else if (op = .connect ∧ opState = 3) ∨ (op = .bind ∧ opState = 4) then
    connected op
  else if op = .bind ∧ opState = 3 then
    if reply.getD 3 0 ≠ 1 then
      .failed (failure op .requestFailed 0 wsaeConnAborted
        (ascii "Unexpected ATYP received")) true
    else .goOn [.listenSocketCreated ((reply.drop 4).take 4)
      ((reply.drop 8).take 2)] 4
  else if op = .udpAssociate ∧ opState = 3 then socks5Relay cfg op reply
  else .goOn [] opState

def socks5Reply (cfg : Config) (op : Op) (opState : Nat) (reply : Bytes) :
    Verdict :=
  if 4 ≤ reply.length ∧ reply.getD 3 0 ≠ 1 ∧ reply.getD 3 0 ≠ 3 ∧
      reply.getD 3 0 ≠ 4 then
    .failed (failure op .requestFailed wsaeAfNoSupport wsaeAfNoSupport
      (ascii "Unexpected ATYP received")) true
  else if reply.length = responseLength reply ∧ 4 ≤ responseLength reply then
    socks5Granted cfg op opState reply
  else .wait

def endOfHeader : Bytes := [13, 10, 13, 10]

def findEnd : Bytes → Option Nat
  | [] => none
  | byte :: rest =>
    if (byte :: rest).take 4 = endOfHeader then some 4
    else (findEnd rest).map (· + 1)

/-- A scan of text finds what is asked for, or something else, or comes to the
end of the text. -/
inductive Scan (α : Type) where
  | got (value : α) (rest : Bytes)
  | mismatch
  | exhausted
  deriving DecidableEq, Repr

def isSpace (byte : UInt8) : Bool := byte == 32 || (9 ≤ byte && byte ≤ 13)

def isDigit (byte : UInt8) : Bool := 48 ≤ byte && byte ≤ 57

def scanLiteral : Bytes → Bytes → Scan Unit
  | [], text => .got () text
  | _ :: _, [] => .exhausted
  | byte :: literal, x :: text =>
    if byte = x then scanLiteral literal text else .mismatch

/-- Digits, of which `value` has been read. -/
def scanDigits (value : Nat) : Bytes → Scan Nat
  | [] => .exhausted
  | x :: text =>
    if isDigit x then scanDigits (value * 10 + (x.toNat - 48)) text
    else .got (value % 2 ^ 32) (x :: text)

def scanFirstDigit : Bytes → Scan Nat
  | [] => .exhausted
  | x :: text => if isDigit x then scanDigits 0 (x :: text) else .mismatch

def scanSigned : Bytes → Scan Nat
  | [] => .exhausted
  | x :: text =>
    if x = 43 then scanFirstDigit text
    else if x = 45 then
      match scanFirstDigit text with
      | .got value rest => .got ((2 ^ 32 - value) % 2 ^ 32) rest
      | other => other
    else scanFirstDigit (x :: text)

/-- `%u`: white space, a sign, digits. -/
def scanNumber : Bytes → Scan Nat
  | [] => .exhausted
  | x :: text => if isSpace x then scanNumber text else scanSigned (x :: text)

def Scan.bind {α β : Type} (scan : Scan α) (next : α → Bytes → Scan β) : Scan β :=
  match scan with
  | .got value rest => next value rest
  | .mismatch => .mismatch
  | .exhausted => .exhausted

/-- `sscanf` with `HTTP/%*u.%*u %u`. -/
def scanStatus (text : Bytes) : Scan Nat :=
  (scanLiteral (ascii "HTTP/") text).bind fun _ text =>
    (scanNumber text).bind fun _ text =>
      (scanLiteral (ascii ".") text).bind fun _ text =>
        (scanNumber text).bind fun _ text => scanNumber text

def statusLine (buffer : Bytes) : Bytes :=
  let line := buffer.takeWhile (· ≠ 10)
  cString (if line.getLast? = some 13 then line.dropLast else line)

def httpRefused (uHttpStatus : Nat) (buffer : Bytes) : Verdict :=
  let notice : Notice :=
    if buffer.take 4 = ascii "HTTP" then
      if uHttpStatus = 407 then .callback .authRequired 0 []
      else .callback .requestFailed 0 (statusLine buffer)
    else .callback .requestFailed 0 (ascii "Invalid HTTP response")
  .failed [notice, .connect wsaeConnAborted] true

/-- A buffer that holds the end of the header.  It has no terminator: a scan
goes on into `heap`, and a status that is not found is `stack`. -/
def httpReply (stack : Nat) (heap buffer : Bytes) : Verdict :=
  match scanStatus (buffer ++ heap) with
  | .got status _ =>
    if status = 200 then connected .connect else httpRefused status buffer
  | _ => httpRefused stack buffer

def headerTooLong : Verdict :=
  .failed [.callback .requestFailed 0
    (ascii "Invalid HTTP response - Header size exceeds limit"),
    .connect wsaeConnAborted] true

inductive Read where
  | grant (count : Nat)
  | failed (code : Nat)
  deriving DecidableEq, Repr

inductive SendAnswer where
  | sent (count : Nat)
  | wouldBlock
  | failed (code : Nat)
  deriving DecidableEq, Repr

/-- `reply` is the buffer of the reply so far, `appRecvBuffer` what came after
it.  `socket` has arrived and is not read, and `fin` is set when no more will
come.  The last seven fields are history: what arrived, what the user received,
what was to be sent and what was, what the handshake told, what was passed on
after it, and whether it succeeded. -/
structure Layer where
  op : Option Op
  opState : Nat
  reply : Bytes
  sendBuffer : Option Bytes
  sendBufferPos : Nat
  appRecvBuffer : Bytes
  appRecvBufferPos : Nat
  udpsrvAddr : Option (Bytes × Bytes)
  socket : Bytes
  fin : Bool
  arrived : Bytes
  received : Bytes
  queued : Bytes
  sent : Bytes
  result : List Notice
  passed : List Notice
  succeeded : Bool
  deriving DecidableEq, Repr

def Layer.start (op : Op) (request : Bytes) : Layer where
  op := some op
  opState := 1
  reply := []
  sendBuffer := some request
  sendBufferPos := 0
  appRecvBuffer := []
  appRecvBufferPos := 0
  udpsrvAddr := none
  socket := []
  fin := false
  arrived := []
  received := []
  queued := request
  sent := []
  result := []
  passed := []
  succeeded := false

inductive Raw where
  | data (bytes : Bytes)
  | ended
  | wouldBlock
  | failed (code : Nat)
  deriving DecidableEq, Repr

def receiveNext (nBufLen : Nat) : Read → Layer → Raw × Layer
  | .failed code, s => (.failed code, s)
  | .grant count, s =>
    if s.socket = [] then (if s.fin then .ended else .wouldBlock, s)
    else
      let count := min (max 1 count) nBufLen
      (.data (s.socket.take count), { s with socket := s.socket.drop count })

def pendingRequest (s : Layer) : Bytes :=
  (s.sendBuffer.getD []).drop s.sendBufferPos

def clearSendBuffer (s : Layer) : Layer :=
  { s with sendBuffer := none, sendBufferPos := 0 }

def sendRequest (count : Nat) (s : Layer) : Layer :=
  let count := min count (pendingRequest s).length
  { s with
    sendBufferPos := s.sendBufferPos + count
    sent := s.sent ++ (pendingRequest s).take count }

def flushProxyRequest : List SendAnswer → Layer → Option Nat × Layer
  | [], s => (none, if pendingRequest s = [] then clearSendBuffer s else s)
  | answer :: rest, s =>
    if pendingRequest s = [] then (none, clearSendBuffer s)
    else
      match answer with
      | .wouldBlock => (none, s)
      | .failed code => (some code, clearSendBuffer s)
      | .sent 0 => (some wsaeConnReset, clearSendBuffer s)
      | .sent count => flushProxyRequest rest (sendRequest count s)

def queueProxyRequest (data : Option Bytes) (sends : List SendAnswer)
    (s : Layer) : Option Nat × Layer :=
  match data with
  | none => (some wsaeInval, s)
  | some data =>
    if data = [] ∨ s.sendBuffer.isSome then (some wsaeInval, s)
    else flushProxyRequest sends
      { s with
        sendBuffer := some data
        sendBufferPos := 0
        queued := s.queued ++ data }

def reset (notices : List Notice) (s : Layer) : Layer :=
  { s with op := none, opState := 0, result := s.result ++ notices }

def clearBuffer (s : Layer) : Layer := { s with reply := [] }

def failPendingProxyOperation (op : Op) (errorCode : Nat) (s : Layer) : Layer :=
  let errorCode := if errorCode = 0 then wsaeConnAborted else errorCode
  clearSendBuffer (clearBuffer
    (reset (failure op .requestFailed errorCode errorCode []) s))

def carryOut (op : Op) (sends : List SendAnswer) : Verdict → Layer → Layer
  | .wait, s => s
  | .failed notices clear, s =>
    reset notices (if clear then clearBuffer s else s)
  | .request data next, s =>
    match queueProxyRequest data sends s with
    | (some code, s) => reset (failure op .requestFailed code code []) s
    | (none, s) => clearBuffer { s with opState := next }
  | .goOn notices next, s =>
    clearBuffer { s with opState := next, result := s.result ++ notices }
  | .succeeded notices relay, s =>
    { reset notices (clearBuffer s) with
      udpsrvAddr := relay, succeeded := true }

/-- The answers in the course of `OnReceive`, and the memory that it reads
without having written it. -/
structure Env where
  reads : List Read
  sends : List SendAnswer
  stack : Nat
  heap : Bytes

def replyLength (cfg : Config) (opState : Nat) (reply : Bytes) : Nat :=
  if cfg.proxyType = .socks5 then
    if opState = 1 ∨ opState = 2 then 2
    else if opState = 3 ∨ opState = 4 then responseLength reply
    else 0
  else if opState = 1 ∨ opState = 2 then 8
  else 0

def socksReply (cfg : Config) (op : Op) (opState : Nat) (reply : Bytes) :
    Verdict :=
  if cfg.proxyType = .socks5 then
    if opState = 1 ∨ opState = 2 then socks5Method cfg op opState reply
    else socks5Reply cfg op opState reply
  else socks4Reply cfg op opState reply

def socksReceive (cfg : Config) (op : Op) (env : Env) (s : Layer) : Layer :=
  let length := replyLength cfg s.opState s.reply
  if length ≤ s.reply.length then s
  else
    match env.reads with
    | [] => s
    | read :: _ =>
      match receiveNext (length - s.reply.length) read s with
      | (.failed code, s) =>
        reset (failure op .requestFailed code code [])
          (if cfg.proxyType = .socks5 then s else clearBuffer s)
      | (.wouldBlock, s) => s
      | (.ended, s) => failPendingProxyOperation op wsaeConnAborted s
      | (.data chunk, s) =>
        let reply := s.reply ++ chunk
        carryOut op env.sends (socksReply cfg op s.opState reply)
          { s with reply := reply }

def headerLimit : Nat := 4096

def keepSurplus (headerEnd : Nat) (buffer : Bytes) (s : Layer) : Layer :=
  if s.succeeded && headerEnd < buffer.length then
    { s with appRecvBuffer := buffer.drop headerEnd, appRecvBufferPos := 0 }
  else s

def httpChunk (env : Env) (op : Op) (chunk : Bytes) (s : Layer) : Layer :=
  if headerLimit < s.reply.length + chunk.length then
    carryOut op [] headerTooLong s
  else
    let buffer := s.reply ++ chunk
    match findEnd buffer with
    | none => { s with reply := buffer }
    | some headerEnd =>
      keepSurplus headerEnd buffer
        (carryOut op [] (httpReply env.stack env.heap buffer)
          { s with reply := buffer })

def httpReceive (op : Op) (env : Env) : List Read → Layer → Layer
  | [], s => s
  | read :: rest, s =>
    match receiveNext headerLimit read s with
    | (.failed code, s) =>
      reset [.callback .requestFailed code [], .connect code] (clearBuffer s)
    | (.wouldBlock, s) => s
    | (.ended, s) => failPendingProxyOperation op wsaeConnAborted s
    | (.data chunk, s) =>
      let s := httpChunk env op chunk s
      if s.op = none then s else httpReceive op env rest s

def passOn (notice : Notice) (s : Layer) : Layer :=
  { s with passed := s.passed ++ [notice] }

def isHttp (cfg : Config) : Bool :=
  cfg.proxyType = .http10 || cfg.proxyType = .http11

def onReceive (cfg : Config) (nErrorCode : Nat) (env : Env) (s : Layer) : Layer :=
  match s.op with
  | none => passOn .read s
  | some op =>
    if nErrorCode ≠ 0 then failPendingProxyOperation op nErrorCode s
    else if s.opState = 0 then s
    else if isHttp cfg then httpReceive op env env.reads s
    else socksReceive cfg op env s

def onSend (nErrorCode : Nat) (sends : List SendAnswer) (s : Layer) : Layer :=
  if s.sendBuffer.isSome then
    let (error, s) :=
      if nErrorCode ≠ 0 then (some nErrorCode, s) else flushProxyRequest sends s
    match error with
    | none => s
    | some code =>
      let event := (s.op.getD .bind).event
        (if code = 0 then wsaeConnAborted else code)
      clearBuffer (reset [.callback .requestFailed code [], event] s)
  else if s.op.isSome then s
  else passOn .write s

def receive (nBufLen : Nat) (read : Read) (s : Layer) : Raw × Layer :=
  if nBufLen = 0 then (.data [], s)
  else if s.op.isSome then (.wouldBlock, s)
  else if s.appRecvBufferPos < s.appRecvBuffer.length then
    let copied := min nBufLen (s.appRecvBuffer.length - s.appRecvBufferPos)
    let bytes := (s.appRecvBuffer.drop s.appRecvBufferPos).take copied
    let pos := s.appRecvBufferPos + copied
    let s := { s with received := s.received ++ bytes }
    (.data bytes,
      if pos = s.appRecvBuffer.length then
        { s with appRecvBuffer := [], appRecvBufferPos := 0 }
      else { s with appRecvBufferPos := pos })
  else
    match receiveNext nBufLen read s with
    | (.data bytes, s) => (.data bytes, { s with received := s.received ++ bytes })
    | other => other

/-- Bytes arrive, the proxy ends its stream, the socket reports that it can be
read or written, and the user receives. -/
inductive Event where
  | arrive (bytes : Bytes)
  | finish
  | onReceive (nErrorCode : Nat) (env : Env)
  | onSend (nErrorCode : Nat) (sends : List SendAnswer)
  | receive (nBufLen : Nat) (read : Read)

def step (cfg : Config) (s : Layer) : Event → Layer
  | .arrive bytes =>
    if s.fin then s
    else { s with socket := s.socket ++ bytes, arrived := s.arrived ++ bytes }
  | .finish => { s with fin := true }
  | .onReceive nErrorCode env => onReceive cfg nErrorCode env s
  | .onSend nErrorCode sends => onSend nErrorCode sends s
  | .receive nBufLen read => (receive nBufLen read s).2

end ProxyHandshake

end ProxyLane.Hook
