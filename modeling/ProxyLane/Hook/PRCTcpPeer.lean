import ProxyLane.Foundation.Bytes

/-!
# The two ends of a forwarded connection

A connection is forwarded by two peers, one on the application's socket and
one on the proxy's, each with a buffer for what it has read and its partner
has not yet taken.  Every call of the socket interface is answered by the
environment; the answers of one event are its arguments.
-/

namespace ProxyLane.Hook

open ProxyLane.Foundation

inductive Side where
  | client
  | server
  deriving DecidableEq, Repr

def Side.other : Side → Side
  | .client => .server
  | .server => .client

/-- What `Receive` answers; no bytes is the return value 0. -/
inductive RecvResult where
  | data (bytes : Bytes)
  | wouldBlock
  | error (code : Nat)
  deriving DecidableEq, Repr

/-- What `Send` answers; `error` is any code but `WSAEWOULDBLOCK`. -/
inductive SendResult where
  | accepted (n : Nat)
  | wouldBlock
  | error (code : Nat)
  deriving DecidableEq, Repr

inductive FdEvent where
  | read
  | write
  | close
  deriving DecidableEq, Repr

/-- `recvbuf` holds the first `m_recvbufpos` bytes of the buffer. -/
structure TcpPeer where
  hasProxyLayer : Bool
  recvbuf : Bytes
  sentpos : Nat
  connShutted : Bool
  readClosed : Bool
  writeShutdown : Bool
  forwardingReady : Bool
  fullyClosing : Bool
  isOpen : Bool
  deriving DecidableEq, Repr

namespace TcpPeer

def fresh (hasProxyLayer : Bool) : TcpPeer :=
  ⟨hasProxyLayer, [], 0, false, false, false, false, false, true⟩

def pending (peer : TcpPeer) : Bytes := peer.recvbuf.drop peer.sentpos

def getValidDataLen (peer : TcpPeer) : Nat := peer.recvbuf.length - peer.sentpos

def clearBuffer (peer : TcpPeer) : TcpPeer :=
  { peer with recvbuf := [], sentpos := 0 }

def close (peer : TcpPeer) : TcpPeer := { peer with isOpen := false }

end TcpPeer

inductive Action where
  | received (side : Side) (bytes : Bytes)
  | receivedEof (side : Side)
  | accepted (side : Side) (bytes : Bytes)
  | shutDown (side : Side)
  | finished
  | closed (side : Side) (code : Nat)
  | posted (side : Side) (event : FdEvent) (code : Nat)
  deriving DecidableEq, Repr

structure TcpPair where
  client : TcpPeer
  server : TcpPeer
  trace : List Action
  deriving DecidableEq, Repr

/-- The answers to one turn of the loop of `OnReceive`. -/
structure ReceiveRound where
  recv : RecvResult
  sends : List SendResult
  readable : Int
  deriving DecidableEq, Repr

inductive LoopEnd where
  | ok (nRecvd : Nat)
  | failed (code : Nat)
  deriving DecidableEq, Repr

def maxTcpBufSize : Nat := 1024 * 4

def maxEventReadBytes : Nat := maxTcpBufSize * 16

namespace TcpPair

def start : TcpPair := ⟨.fresh false, .fresh true, []⟩

def peer (pair : TcpPair) : Side → TcpPeer
  | .client => pair.client
  | .server => pair.server

def modifyPeer (pair : TcpPair) (side : Side) (f : TcpPeer → TcpPeer) :
    TcpPair :=
  match side with
  | .client => { pair with client := f pair.client }
  | .server => { pair with server := f pair.server }

def log (pair : TcpPair) (actions : List Action) : TcpPair :=
  { pair with trace := pair.trace ++ actions }

/-- `TriggerEvent`; without a layer the posted message has no room for the
error code. -/
def triggerEvent (pair : TcpPair) (side : Side) (event : FdEvent)
    (code : Nat) : TcpPair :=
  if (pair.peer side).isOpen then
    pair.log [.posted side event
      (if (pair.peer side).hasProxyLayer then code % 65536 else 0)]
  else pair

/-- The loop of `TransferSend`: the pieces accepted, and whether it failed. -/
def sendLoop : List SendResult → Bytes → List Bytes × Bool
  | _, [] => ([], false)
  | [], _ => ([], false)
  | .wouldBlock :: _, _ => ([], false)
  | .error _ :: _, _ => ([], true)
  | .accepted n :: sends, left =>
    let (pieces, failed) := sendLoop sends (left.drop n)
    (left.take n :: pieces, failed)

/-- `TransferSend` of `side`: `none` is the return value -1. -/
def transferSend (pair : TcpPair) (side : Side) (sends : List SendResult) :
    Option Nat × TcpPair :=
  let left := (pair.peer side).pending
  let (pieces, failed) := sendLoop sends left
  let nBytesSent := pieces.flatten.length
  let moved := pair.modifyPeer side fun self =>
    if nBytesSent < left.length then
      { self with sentpos := self.sentpos + nBytesSent }
    else { self with recvbuf := [], sentpos := 0 }
  (if failed then none else some nBytesSent,
    moved.log (pieces.map (.accepted side.other)))

/-- `PropagateHalfClose`; `pendingBytes` is the answer to `FIONREAD`. -/
def propagateHalfClose (pair : TcpPair) (side : Side) (pendingBytes : Bool) :
    TcpPair :=
  let self := pair.peer side
  let partner := pair.peer side.other
  if !self.readClosed || self.getValidDataLen != 0 || !partner.isOpen ||
      partner.writeShutdown ||
      (partner.hasProxyLayer && !partner.forwardingReady) then
    pair
  else if pendingBytes then pair.triggerEvent side .read 0
  else
    (pair.modifyPeer side.other fun partner =>
      { partner with writeShutdown := true }).log [.shutDown side.other]

def tryFinishConnection (pair : TcpPair) (side : Side) : TcpPair :=
  let self := pair.peer side
  let partner := pair.peer side.other
  if self.fullyClosing || !self.readClosed || !partner.readClosed ||
      self.getValidDataLen != 0 || partner.getValidDataLen != 0 then
    pair
  else
    let shut := fun peer : TcpPeer => { peer.close with fullyClosing := true }
    ((pair.modifyPeer side shut).modifyPeer side.other shut).log [.finished]

/-- The loop of `OnReceive`; when the answers run out, nothing is readable. -/
def receiveLoop (side : Side) :
    List ReceiveRound → Nat → TcpPair → LoopEnd × TcpPair
  | [], nRecvd, pair => (.ok nRecvd, pair)
  | round :: rounds, nRecvd, pair =>
    let self := pair.peer side
    if self.recvbuf.length < maxTcpBufSize &&
        (nRecvd < maxEventReadBytes || self.readClosed) then
      match round.recv with
      | .wouldBlock => (.ok nRecvd, pair)
      | .error code => (.failed code, pair)
      | .data bytes =>
        let bytes := bytes.take (maxTcpBufSize - self.recvbuf.length)
        if bytes.isEmpty then
          (.ok nRecvd, (pair.modifyPeer side fun self =>
            { self with connShutted := true, readClosed := true }).log
            [.receivedEof side])
        else
          let pair := (pair.modifyPeer side fun self =>
            { self with recvbuf := self.recvbuf ++ bytes }).log
            [.received side bytes]
          let nRecvd := nRecvd + bytes.length
          let nValidLen := (pair.peer side).recvbuf.length
          match pair.transferSend side round.sends with
          | (none, pair) => (.failed 0, pair)
          | (some nSent, pair) =>
            if nSent < nValidLen then (.ok nRecvd, pair)
            else if round.readable < 0 then (.failed 0, pair)
            else if round.readable = 0 then (.ok nRecvd, pair)
            else receiveLoop side rounds nRecvd pair
    else (.ok nRecvd, pair)

/-- `OnReceive`; `more` is the last `TestSocketStatus`. -/
def onReceive (pair : TcpPair) (side : Side) (nErrorCode : Nat)
    (rounds : List ReceiveRound) (more : Int) (pendingBytes : Bool) :
    TcpPair :=
  if nErrorCode != 0 then pair
  else if 0 < (pair.peer side).recvbuf.length then pair
  else
    match receiveLoop side rounds 0 pair with
    | (.failed code, pair) =>
      (pair.modifyPeer side .clearBuffer).triggerEvent side .close code
    | (.ok nRecvd, pair) =>
      let pair :=
        if !(pair.peer side).readClosed && nRecvd ≥ maxEventReadBytes &&
            more > 0 then
          pair.triggerEvent side .read 0
        else pair
      (pair.propagateHalfClose side pendingBytes).tryFinishConnection side

/-- `OnSend`; `readable` is the partner's `TestSocketStatus`. -/
def onSend (pair : TcpPair) (side : Side) (nErrorCode : Nat)
    (sends : List SendResult) (readable : Int) (hasPendingRead : Bool)
    (pendingBytes : Bool) : TcpPair :=
  if nErrorCode != 0 then pair
  else
    let clearBoth := fun pair : TcpPair =>
      ((pair.modifyPeer side .clearBuffer).modifyPeer side.other
        .clearBuffer).triggerEvent side .close 0
    let resume := fun pair : TcpPair =>
      (pair.propagateHalfClose side.other pendingBytes).tryFinishConnection side.other
    let validlen := (pair.peer side.other).getValidDataLen
    if 0 < validlen then
      match pair.transferSend side.other sends with
      | (none, pair) => clearBoth pair
      | (some nSent, pair) =>
        if nSent < validlen then resume pair
        else if readable < 0 then resume (clearBoth pair)
        else if readable > 0 || hasPendingRead then
          resume (pair.triggerEvent side.other .read 0)
        else resume pair
    else resume pair

def onClose (pair : TcpPair) (side : Side) (nErrorCode : Nat)
    (pendingBytes : Bool) : TcpPair :=
  let pair := pair.modifyPeer side fun self => { self with connShutted := true }
  if nErrorCode = 0 then
    if 0 < (pair.peer side).getValidDataLen then pair
    else if (pair.peer side).readClosed then
      (pair.propagateHalfClose side pendingBytes).tryFinishConnection side
    else pair.triggerEvent side .read 0
  else
    ((pair.modifyPeer side .close).modifyPeer side.other .close).log
      [.closed side nErrorCode]

/-- `OnConnect`; the two statuses are the partner's. -/
def onConnect (pair : TcpPair) (side : Side) (nErrorCode : Nat)
    (writable readable : Int) (pendingBytes : Bool) : TcpPair :=
  if nErrorCode != 0 then pair.onClose side nErrorCode pendingBytes
  else
    let pair := pair.modifyPeer side fun self =>
      { self with forwardingReady := true }
    let pair :=
      if 0 < (pair.peer side.other).getValidDataLen then
        pair.triggerEvent side .write 0
      else pair
    let pair :=
      if writable > 0 then pair.triggerEvent side.other .write 0 else pair
    let pair :=
      if readable > 0 then pair.triggerEvent side.other .read 0 else pair
    pair.propagateHalfClose side.other pendingBytes

end TcpPair

inductive TcpEvent where
  | onConnect (side : Side) (nErrorCode : Nat) (writable readable : Int)
      (pendingBytes : Bool)
  | onReceive (side : Side) (nErrorCode : Nat) (rounds : List ReceiveRound)
      (more : Int) (pendingBytes : Bool)
  | onSend (side : Side) (nErrorCode : Nat) (sends : List SendResult)
      (readable : Int) (hasPendingRead pendingBytes : Bool)
  | onClose (side : Side) (nErrorCode : Nat) (pendingBytes : Bool)
  deriving DecidableEq, Repr

def TcpEvent.side : TcpEvent → Side
  | .onConnect side .. => side
  | .onReceive side .. => side
  | .onSend side .. => side
  | .onClose side .. => side

namespace TcpPair

def handle (pair : TcpPair) : TcpEvent → TcpPair
  | .onConnect side code writable readable pendingBytes =>
    pair.onConnect side code writable readable pendingBytes
  | .onReceive side code rounds more pendingBytes =>
    pair.onReceive side code rounds more pendingBytes
  | .onSend side code sends readable hasPendingRead pendingBytes =>
    pair.onSend side code sends readable hasPendingRead pendingBytes
  | .onClose side code pendingBytes => pair.onClose side code pendingBytes

def step (pair : TcpPair) (event : TcpEvent) : TcpPair :=
  if (pair.peer event.side).isOpen then pair.handle event else pair

end TcpPair

end ProxyLane.Hook
