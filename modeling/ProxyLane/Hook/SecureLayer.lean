import ProxyLane.Foundation.Bytes
import ProxyLane.Foundation.Run

/-!
# The secure socket layer

A layer between a socket and its user that speaks TLS below and plain bytes
above.  Records are fed to a session, which is outside; what it decrypts is
kept until the user receives it, and what it has to send is drained and sent
as the socket takes it.  Reading pauses while too much plaintext is kept.

The session is known by its answers: what a record decrypts to, what it makes
the session send, whether it ends the stream.
-/

namespace ProxyLane.Hook

open ProxyLane.Foundation

namespace SecureLayer

/-! ## The session -/

def tlsChunk : Nat := 16 * 1024
def plaintextLowWater : Nat := 256 * 1024
def plaintextHighWater : Nat := 512 * 1024
def maxBufferedData : Nat := 1024 * 1024

/-- `plain` is decrypted and not read, `tls` is to be sent and not drained. -/
structure Session where
  plain : Bytes
  tls : Bytes
  closed : Bool
  ready : Bool
  deriving DecidableEq, Repr

structure Feed where
  ok : Bool
  consumed : Nat
  plain : Bytes
  tls : Bytes
  closes : Bool
  ready : Bool
  deriving DecidableEq, Repr

/-- Nothing is decrypted after `close_notify`. -/
def Session.opened (s : Session) (e : Feed) : Bytes :=
  if s.closed then [] else e.plain

def Session.feed (s : Session) (e : Feed) : Session :=
  { plain := s.plain ++ s.opened e
    tls := s.tls ++ e.tls
    closed := s.closed || e.closes
    ready := s.ready || e.ready }

/-- The effect of plaintext that is written, or of `close_notify`. -/
structure Write where
  ok : Bool
  wouldBlock : Bool
  written : Nat
  tls : Bytes
  deriving DecidableEq, Repr

inductive SendAnswer where
  | sent (count : Nat)
  | wouldBlock
  | failed
  deriving DecidableEq, Repr

inductive RawRead where
  | data (bytes : Bytes)
  | wouldBlock
  | failed
  deriving DecidableEq, Repr

/-- The answers in the course of one call.  A socket that is asked once more
would block.  `grant` is how much of its plaintext the session gives out at
once, `broken` says that its calls fail, and `posts` that a message is posted. -/
structure Io where
  sends : List SendAnswer
  receives : List RawRead
  feeds : List Feed
  broken : Bool
  grant : Nat → Nat
  posts : Bool

/-! ## The layer -/

inductive How where
  | receives
  | sends
  | both
  deriving DecidableEq, Repr

inductive LayerState where
  | connected
  | closed
  | aborted
  deriving DecidableEq, Repr

inductive Notice where
  | connected
  | connectFailed
  | read
  | write
  | closed
  | aborted
  | readSelf
  deriving DecidableEq, Repr

/-- A shutdown of the socket: whether `close_notify` had been written, and how
many bytes were drained and not sent. -/
structure ShutDownNext where
  how : How
  closeNotified : Bool
  unsent : Nat
  deriving DecidableEq, Repr

/-- The last seven fields are history: all that the session decrypted, what was
received of it, all that the session had to send, what was sent of it, whether
`close_notify` was written, the shutdowns, and what was posted. -/
structure Layer where
  session : Session
  pendingTls : Bytes
  pendingTlsOffset : Nat
  plaintext : Bytes
  plaintextOffset : Nat
  handshakeReady : Bool
  connectNotified : Bool
  peerReadClosed : Bool
  peerEofDelivered : Bool
  receivePaused : Bool
  pendingShutdown : Option How
  state : LayerState
  decrypted : Bytes
  received : Bytes
  produced : Bytes
  sent : Bytes
  closeNotified : Bool
  shutDowns : List ShutDownNext
  notices : List Notice
  deriving DecidableEq, Repr

def Layer.start (hello : Bytes) : Layer where
  session := ⟨[], hello, false, false⟩
  pendingTls := []
  pendingTlsOffset := 0
  plaintext := []
  plaintextOffset := 0
  handshakeReady := false
  connectNotified := false
  peerReadClosed := false
  peerEofDelivered := false
  receivePaused := false
  pendingShutdown := none
  state := .connected
  decrypted := []
  received := []
  produced := hello
  sent := []
  closeNotified := false
  shutDowns := []
  notices := []

def pendingBytes (l : Layer) : Bytes := l.pendingTls.drop l.pendingTlsOffset

def buffered (l : Layer) : Bytes := l.plaintext.drop l.plaintextOffset

def hasPendingTls (l : Layer) : Bool := l.pendingTlsOffset < l.pendingTls.length

def bufferedPlaintext (l : Layer) : Nat :=
  if l.plaintextOffset < l.plaintext.length then
    l.plaintext.length - l.plaintextOffset
  else 0

def hasPendingRead (l : Layer) : Bool :=
  bufferedPlaintext l != 0 || (l.peerReadClosed && !l.peerEofDelivered)

def post (notice : Notice) (l : Layer) : Layer :=
  { l with notices := l.notices ++ [notice] }

structure Work where
  layer : Layer
  io : Io

def refill (l : Layer) : Layer :=
  { l with
    pendingTls := l.session.tls.take tlsChunk
    pendingTlsOffset := 0
    session := { l.session with tls := l.session.tls.drop tlsChunk } }

def sendNext (count : Nat) (l : Layer) : Layer :=
  let count := min count (l.pendingTls.length - l.pendingTlsOffset)
  { l with
    pendingTlsOffset := l.pendingTlsOffset + count
    sent := l.sent ++ (pendingBytes l).take count }

def flushTls (broken : Bool) : List SendAnswer → Layer →
    Bool × List SendAnswer × Layer
  | [], l =>
    if hasPendingTls l then (true, [], l)
    else if broken then (false, [], l)
    else (true, [], refill l)
  | answer :: rest, l =>
    if !hasPendingTls l && broken then (false, answer :: rest, l)
    else
      let l := if hasPendingTls l then l else refill l
      if hasPendingTls l then
        match answer with
        | .wouldBlock => (true, rest, l)
        | .failed => (false, rest, l)
        | .sent 0 => (false, rest, l)
        | .sent count => flushTls broken rest (sendNext count l)
      else (true, answer :: rest, l)

def eraseRead (l : Layer) : Layer :=
  { l with
    plaintext := l.plaintext.drop l.plaintextOffset
    plaintextOffset := 0 }

def readPlain (io : Io) (l : Layer) : Layer :=
  let capacity := min tlsChunk (maxBufferedData - bufferedPlaintext l)
  let count := max 1 (min (io.grant l.session.plain.length) capacity)
  { l with
    plaintext := l.plaintext ++ l.session.plain.take count
    session := { l.session with plain := l.session.plain.drop count } }

def drainLoop (io : Io) : Nat → Layer → Bool × Layer
  | 0, l => (true, l)
  | fuel + 1, l =>
    if maxBufferedData ≤ bufferedPlaintext l then (false, l)
    else if io.broken then (false, l)
    else if l.session.plain = [] then
      if l.session.closed then (true, { l with peerReadClosed := true })
      else if plaintextHighWater ≤ bufferedPlaintext l then
        (true, { l with receivePaused := true })
      else (true, l)
    else drainLoop io fuel (readPlain io l)

def drainPlaintext (io : Io) (l : Layer) : Bool × Layer :=
  drainLoop io (l.session.plain.length + 1) (eraseRead l)

def finishHandshake (io : Io) (l : Layer) : Bool × Layer :=
  if l.handshakeReady then (true, l)
  else if io.broken then (false, l)
  else if !l.session.ready then (true, l)
  else
    let l := { l with handshakeReady := true }
    if l.connectNotified then (true, l)
    else (true, post .connected { l with connectNotified := true })

def settle (w : Work) : Bool × Work :=
  match drainPlaintext w.io w.layer with
  | (false, l) => (false, { w with layer := l })
  | (true, l) =>
    match flushTls w.io.broken w.io.sends l with
    | (false, sends, l) => (false, ⟨l, { w.io with sends }⟩)
    | (true, sends, l) =>
      let (ok, l) := finishHandshake w.io l
      (ok, ⟨l, { w.io with sends }⟩)

/-- The answer of the session to what it is fed; by default it takes all and
decrypts nothing. -/
def nextFeed (chunk : Bytes) (w : Work) : Feed × Work :=
  let e := w.io.feeds.headD ⟨true, chunk.length, [], [], false, false⟩
  let l := w.layer
  (e, ⟨{ l with
    session := l.session.feed e
    decrypted := l.decrypted ++ l.session.opened e
    produced := l.produced ++ e.tls }, { w.io with feeds := w.io.feeds.tail }⟩)

def feedTls : Nat → Bytes → Work → Bool × Work
  | 0, _, w => (true, w)
  | fuel + 1, chunk, w =>
    if chunk = [] then (true, w)
    else
      let (e, w) := nextFeed chunk w
      if !e.ok || e.consumed == 0 then (false, w)
      else
        match settle w with
        | (false, w) => (false, w)
        | (true, w) => feedTls fuel (chunk.drop e.consumed) w

def receiveLoop : List RawRead → Work → Bool × Work
  | [], w => (true, w)
  | .wouldBlock :: _, w => (true, w)
  | .failed :: _, w => (false, w)
  | .data chunk :: rest, w =>
    if chunk = [] then (false, w)
    else
      match feedTls chunk.length chunk w with
      | (false, w) => (false, w)
      | (true, w) => if w.layer.receivePaused then (true, w) else receiveLoop rest w

def pumpTls (w : Work) : Bool × Work :=
  match settle w with
  | (false, w) => (false, w)
  | (true, w) =>
    if w.layer.receivePaused then (true, w) else receiveLoop w.io.receives w

def reportFailure (l : Layer) : Layer :=
  { post (if l.connectNotified then .aborted else .connectFailed) l with
    state := .aborted }

def onReceive (io : Io) (l : Layer) : Layer :=
  match pumpTls ⟨l, io⟩ with
  | (false, w) => reportFailure w.layer
  | (true, w) =>
    if w.layer.handshakeReady && hasPendingRead w.layer then post .read w.layer
    else w.layer

def shutDownNext (how : How) (l : Layer) : Layer :=
  { l with shutDowns := l.shutDowns ++
      [⟨how, l.closeNotified, (pendingBytes l).length⟩] }

def finishShutDown (l : Layer) : Layer :=
  match l.pendingShutdown with
  | some how =>
    if hasPendingTls l then l
    else shutDownNext how { l with pendingShutdown := none }
  | none => l

def onSend (io : Io) (l : Layer) : Layer :=
  match flushTls io.broken io.sends l with
  | (false, _, l) => reportFailure l
  | (true, _, l) =>
    match finishHandshake io l with
    | (false, l) => reportFailure l
    | (true, l) =>
      let l := finishShutDown l
      if l.connectNotified then post .write l else l

/-- One buffer of the drain in `OnClose`. -/
def closeFeed : Nat → Bytes → Work → Bool × Work
  | 0, _, w => (true, w)
  | fuel + 1, chunk, w =>
    if chunk = [] then (true, w)
    else
      let (e, w) := nextFeed chunk w
      if !e.ok || e.consumed == 0 then (false, w)
      else
        match drainPlaintext w.io w.layer with
        | (false, l) => (false, { w with layer := l })
        | (true, l) => closeFeed fuel (chunk.drop e.consumed) { w with layer := l }

def closeLoop : List RawRead → Work → Bool × Work
  | .data chunk :: rest, w =>
    if chunk = [] then (true, w)
    else
      match closeFeed chunk.length chunk w with
      | (false, w) => (false, w)
      | (true, w) => closeLoop rest w
  | _, w => (true, w)

def closeDrain (io : Io) (l : Layer) : Bool × Layer :=
  match closeLoop io.receives ⟨l, io⟩ with
  | (false, w) => (false, w.layer)
  | (true, w) => drainPlaintext w.io w.layer

def onClose (failed : Bool) (io : Io) (l : Layer) : Layer :=
  if failed then { post .aborted l with state := .aborted }
  else
    match closeDrain io { l with state := .closed } with
    | (false, l) => reportFailure { l with peerReadClosed := true }
    | (true, l) =>
      let l := { l with peerReadClosed := true }
      if !l.handshakeReady then post .closed l
      else if hasPendingRead l then post .read l
      else l

def writeSession (tls : Bytes) (l : Layer) : Layer :=
  { l with
    session := { l.session with tls := l.session.tls ++ tls }
    produced := l.produced ++ tls }

/-- `Send`: the count, or an error. -/
def send (io : Io) (write : Write) (l : Layer) : Option Nat × Layer :=
  if !l.handshakeReady then (none, l)
  else if write.wouldBlock then (none, l)
  else
    let l := writeSession write.tls l
    if !write.ok then (none, l)
    else
      match flushTls io.broken io.sends l with
      | (false, _, l) => (none, l)
      | (true, _, l) => (some write.written, l)

inductive Got where
  | data (bytes : Bytes)
  | eof
  | wouldBlock
  deriving DecidableEq, Repr

def resumeTlsReceive (posts : Bool) (l : Layer) : Layer :=
  if !l.receivePaused || l.peerReadClosed ||
      plaintextLowWater < bufferedPlaintext l then l
  else if posts then post .readSelf { l with receivePaused := false }
  else l

def takePlaintext (count : Nat) (l : Layer) : Layer :=
  { l with
    plaintextOffset := l.plaintextOffset + count
    received := l.received ++ (buffered l).take count }

def repostRead (l : Layer) : Layer :=
  if l.plaintextOffset = l.plaintext.length then
    let l := { l with plaintext := [], plaintextOffset := 0 }
    if l.peerReadClosed && !l.peerEofDelivered then post .read l else l
  else post .read l

def receive (nBufLen : Nat) (posts : Bool) (l : Layer) : Got × Layer :=
  if !l.handshakeReady then (.wouldBlock, l)
  else if l.plaintext.length ≤ l.plaintextOffset then
    if l.peerReadClosed then (.eof, { l with peerEofDelivered := true })
    else (.wouldBlock, l)
  else
    let count := min nBufLen (l.plaintext.length - l.plaintextOffset)
    (.data ((buffered l).take count),
      resumeTlsReceive posts (repostRead (takePlaintext count l)))

def shutDown (how : How) (io : Io) (write : Write) (l : Layer) : Layer :=
  if how = .receives then shutDownNext how l
  else
    let l := { writeSession write.tls l with
      closeNotified := l.closeNotified || write.ok }
    if !write.ok then l
    else
      match flushTls io.broken io.sends l with
      | (false, _, l) => l
      | (true, _, l) =>
        if hasPendingTls l then { l with pendingShutdown := some how }
        else shutDownNext how l

/-- `failed` is whether the event carries an error. -/
inductive Event where
  | onReceive (failed : Bool) (io : Io)
  | onSend (failed : Bool) (io : Io)
  | onClose (failed : Bool) (io : Io)
  | send (io : Io) (write : Write)
  | receive (nBufLen : Nat) (posts : Bool)
  | shutDown (how : How) (io : Io) (write : Write)

/-- `CallEvent` passes events on while the layer is connected. -/
def step (l : Layer) : Event → Layer
  | .onReceive failed io =>
    if l.state ≠ .connected then l
    else if failed then reportFailure l
    else onReceive io l
  | .onSend failed io =>
    if l.state ≠ .connected then l
    else if failed then reportFailure l
    else onSend io l
  | .onClose failed io =>
    if l.state ≠ .connected then l else onClose failed io l
  | .send io write => (send io write l).2
  | .receive nBufLen posts => (receive nBufLen posts l).2
  | .shutDown how io write => shutDown how io write l

/-! ## Conservation -/

/-- What was decrypted is received, kept or unread, in this order; what the
session had to send is sent, pending or not drained; no more is kept than there
is room for; and the socket is shut down for sending after `close_notify` and
with nothing pending. -/
structure Conserves (l : Layer) : Prop where
  plain : l.decrypted = l.received ++ buffered l ++ l.session.plain
  tls : l.produced = l.sent ++ pendingBytes l ++ l.session.tls
  room : l.plaintext.length ≤ maxBufferedData
  offset : l.plaintextOffset ≤ l.plaintext.length
  notified : ∀ how, l.pendingShutdown = some how → l.closeNotified = true
  shutDowns : ∀ x ∈ l.shutDowns,
    x.how = .receives ∨ (x.closeNotified = true ∧ x.unsent = 0)

variable {l : Layer} {w : Work} {io : Io}

theorem bufferedPlaintext_eq (l : Layer) :
    bufferedPlaintext l = (buffered l).length := by
  simp only [bufferedPlaintext, buffered, List.length_drop]
  split
  · rfl
  · omega

private theorem hasPendingTls_iff (l : Layer) :
    hasPendingTls l = true ↔ pendingBytes l ≠ [] := by
  simp [hasPendingTls, pendingBytes]

theorem pendingBytes_nil (h : hasPendingTls l = false) : pendingBytes l = [] := by
  by_contra hsome
  have := (hasPendingTls_iff l).2 hsome
  simp [h] at this

theorem refill_conserves (h : Conserves l) (hnone : hasPendingTls l = false) :
    Conserves (refill l) := by
  refine ⟨h.plain, ?_, h.room, h.offset, h.notified, h.shutDowns⟩
  have htls := h.tls
  rw [pendingBytes_nil hnone, List.append_nil] at htls
  simp [refill, pendingBytes, htls]

theorem sendNext_conserves (h : Conserves l) (count : Nat) :
    Conserves (sendNext count l) := by
  refine ⟨h.plain, ?_, h.room, h.offset, h.notified, h.shutDowns⟩
  have htls := h.tls
  simp only [sendNext, pendingBytes, ← List.drop_drop] at htls ⊢
  rw [htls]
  simp

structure Flushes (l l' : Layer) : Prop where
  conserves : Conserves l → Conserves l'
  plain : l'.session.plain = l.session.plain
  closed : l'.session.closed = l.session.closed
  plaintext : l'.plaintext = l.plaintext
  plaintextOffset : l'.plaintextOffset = l.plaintextOffset
  handshakeReady : l'.handshakeReady = l.handshakeReady
  peerReadClosed : l'.peerReadClosed = l.peerReadClosed
  closeNotified : l'.closeNotified = l.closeNotified
  state : l'.state = l.state

theorem Flushes.refl (l : Layer) : Flushes l l :=
  ⟨id, rfl, rfl, rfl, rfl, rfl, rfl, rfl, rfl⟩

theorem Flushes.trans {l l' l'' : Layer} (h : Flushes l l') (k : Flushes l' l'') :
    Flushes l l'' :=
  ⟨k.conserves ∘ h.conserves, k.plain.trans h.plain, k.closed.trans h.closed,
    k.plaintext.trans h.plaintext, k.plaintextOffset.trans h.plaintextOffset,
    k.handshakeReady.trans h.handshakeReady,
    k.peerReadClosed.trans h.peerReadClosed,
    k.closeNotified.trans h.closeNotified, k.state.trans h.state⟩

theorem refill_flushes (hnone : hasPendingTls l = false) : Flushes l (refill l) :=
  ⟨fun h => refill_conserves h hnone, rfl, rfl, rfl, rfl, rfl, rfl, rfl, rfl⟩

theorem sendNext_flushes (count : Nat) : Flushes l (sendNext count l) :=
  ⟨fun h => sendNext_conserves h count, rfl, rfl, rfl, rfl, rfl, rfl, rfl, rfl⟩

theorem flushTls_flushes (broken : Bool) (sends : List SendAnswer) :
    Flushes l (flushTls broken sends l).2.2 := by
  induction sends generalizing l with
  | nil =>
    simp only [flushTls]
    split
    · exact Flushes.refl l
    · rename_i hnone
      split
      · exact Flushes.refl l
      · exact refill_flushes (by simpa using hnone)
  | cons answer rest ih =>
    simp only [flushTls]
    split
    · exact Flushes.refl l
    · have hrefill : Flushes l (if hasPendingTls l then l else refill l) := by
        split
        · exact Flushes.refl l
        · rename_i hnone
          exact refill_flushes (by simpa using hnone)
      generalize (if hasPendingTls l then l else refill l) = l' at hrefill
      split
      · split
        · exact hrefill
        · exact hrefill
        · exact hrefill
        · exact (hrefill.trans (sendNext_flushes _)).trans ih
      · exact hrefill

/-! ## Draining the session -/

theorem eraseRead_conserves (h : Conserves l) : Conserves (eraseRead l) := by
  refine ⟨?_, h.tls, ?_, Nat.zero_le _, h.notified, h.shutDowns⟩
  · simpa [eraseRead, buffered] using h.plain
  · have hroom := h.room
    simp only [eraseRead, List.length_drop]
    omega

theorem readPlain_conserves (h : Conserves l) (hoffset : l.plaintextOffset = 0)
    (hroom : bufferedPlaintext l < maxBufferedData) :
    Conserves (readPlain io l) := by
  refine ⟨?_, h.tls, ?_, ?_, h.notified, h.shutDowns⟩
  · have hplain := h.plain
    simp only [buffered, hoffset, List.drop_zero] at hplain
    simp [readPlain, buffered, hoffset, hplain]
  · have hlength : bufferedPlaintext l = l.plaintext.length := by
      simp [bufferedPlaintext_eq, buffered, hoffset]
    simp only [readPlain, List.length_append, List.length_take]
    omega
  · simp [readPlain, hoffset]

/-- What draining does: plaintext moves from the session to the layer, and the
end of the stream is noted when the session is empty. -/
structure Drains (l l' : Layer) : Prop where
  conserves : Conserves l → Conserves l'
  amount : (buffered l').length + l'.session.plain.length =
    (buffered l).length + l.session.plain.length
  closed : l'.session.closed = l.session.closed
  handshakeReady : l.handshakeReady = true → l'.handshakeReady = true
  state : l'.state = l.state
  ended : l'.peerReadClosed = true → l.peerReadClosed = true ∨
    (l'.session.plain = [] ∧ l'.session.closed = true)
  kept : l.peerReadClosed = true → l'.peerReadClosed = true
  empty : l.session.plain = [] → l'.session.plain = []

theorem Drains.refl (l : Layer) : Drains l l :=
  ⟨id, rfl, rfl, id, rfl, Or.inl, id, id⟩

theorem Drains.trans {l l' l'' : Layer} (h : Drains l l') (k : Drains l' l'') :
    Drains l l'' where
  conserves := k.conserves ∘ h.conserves
  amount := k.amount.trans h.amount
  closed := k.closed.trans h.closed
  handshakeReady hr := k.handshakeReady (h.handshakeReady hr)
  state := k.state.trans h.state
  ended hended := by
    obtain hbefore | hnow := k.ended hended
    · obtain hfirst | ⟨hplain, hclosed⟩ := h.ended hbefore
      · exact Or.inl hfirst
      · exact Or.inr ⟨k.empty hplain, k.closed.trans hclosed⟩
    · exact Or.inr hnow
  kept hkept := k.kept (h.kept hkept)
  empty hempty := k.empty (h.empty hempty)

theorem eraseRead_drains (l : Layer) : Drains l (eraseRead l) where
  conserves := eraseRead_conserves
  amount := by simp [eraseRead, buffered]
  closed := rfl
  handshakeReady := id
  state := rfl
  ended := Or.inl
  kept := id
  empty := id

def Drained (l : Layer) : Prop :=
  l.session.plain = [] ∧ (l.session.closed = true → l.peerReadClosed = true)

theorem readPlain_drains (hoffset : l.plaintextOffset = 0)
    (hroom : bufferedPlaintext l < maxBufferedData) :
    Drains l (readPlain io l) where
  conserves h := readPlain_conserves h hoffset hroom
  amount := by
    simp only [readPlain, buffered, hoffset, List.drop_zero, List.length_append,
      List.length_take, List.length_drop]
    omega
  closed := rfl
  handshakeReady := id
  state := rfl
  ended := Or.inl
  kept := id
  empty h := by simp [readPlain, h]

theorem drainLoop_drains {fuel : Nat} (hoffset : l.plaintextOffset = 0)
    (hfuel : l.session.plain.length < fuel) :
    Drains l (drainLoop io fuel l).2 ∧
      ((drainLoop io fuel l).1 = true → Drained (drainLoop io fuel l).2) ∧
      (io.broken = false →
        (buffered l).length + l.session.plain.length < maxBufferedData →
        (drainLoop io fuel l).1 = true) := by
  induction fuel generalizing l with
  | zero => omega
  | succ fuel ih =>
    have hsame := Drains.refl l
    simp only [drainLoop]
    split
    · rename_i hfull
      rw [bufferedPlaintext_eq] at hfull
      exact ⟨hsame, by simp, by omega⟩
    · rename_i hroom
      split
      · rename_i hbroken
        exact ⟨hsame, by simp, by simp [hbroken]⟩
      · split
        · rename_i hempty
          split
          · rename_i hclosed
            refine ⟨⟨fun h => ⟨h.plain, h.tls, h.room, h.offset, h.notified,
              h.shutDowns⟩, rfl, rfl, id, rfl, fun _ => Or.inr ⟨hempty, hclosed⟩,
              fun _ => rfl, id⟩, fun _ => ⟨hempty, fun _ => rfl⟩, by simp⟩
          · rename_i hopen
            split
            · refine ⟨⟨fun h => ⟨h.plain, h.tls, h.room, h.offset, h.notified,
                h.shutDowns⟩, rfl, rfl, id, rfl, Or.inl, id, id⟩,
                fun _ => ⟨hempty, fun h => absurd h hopen⟩, by simp⟩
            · exact ⟨hsame, fun _ => ⟨hempty, fun h => absurd h hopen⟩, by simp⟩
        · rename_i hsome
          have hread := @readPlain_drains l io hoffset (by omega)
          have hless : (readPlain io l).session.plain.length < fuel := by
            have hpos := List.length_pos_of_ne_nil hsome
            simp only [readPlain, List.length_drop]
            omega
          have hoffset' : (readPlain io l).plaintextOffset = 0 := hoffset
          obtain ⟨hdrains, hdrained, hsucceeds⟩ := ih hoffset' hless
          refine ⟨hread.trans hdrains, hdrained, ?_⟩
          intro hbroken hlimit
          apply hsucceeds hbroken
          rw [hread.amount]
          exact hlimit

theorem drainPlaintext_drains :
    Drains l (drainPlaintext io l).2 ∧
      ((drainPlaintext io l).1 = true → Drained (drainPlaintext io l).2) ∧
      (io.broken = false →
        (buffered l).length + l.session.plain.length < maxBufferedData →
        (drainPlaintext io l).1 = true) := by
  have herase := eraseRead_drains l
  obtain ⟨hdrains, hdrained, hsucceeds⟩ := @drainLoop_drains (eraseRead l) io
    (l.session.plain.length + 1) rfl (Nat.lt_succ_self _)
  refine ⟨herase.trans hdrains, hdrained, ?_⟩
  intro hbroken hlimit
  apply hsucceeds hbroken
  rw [herase.amount]
  exact hlimit

theorem Flushes.drains {l l' : Layer} (h : Flushes l l') : Drains l l' where
  conserves := h.conserves
  amount := by simp [buffered, h.plain, h.plaintext, h.plaintextOffset]
  closed := h.closed
  handshakeReady hr := h.handshakeReady.trans hr
  state := h.state
  ended hended := Or.inl (h.peerReadClosed.symm.trans hended)
  kept hkept := h.peerReadClosed.trans hkept
  empty hempty := h.plain.trans hempty

theorem Flushes.drained {l l' : Layer} (h : Flushes l l') (hdrained : Drained l) :
    Drained l' :=
  ⟨h.plain.trans hdrained.1, fun hclosed => h.peerReadClosed.trans
    (hdrained.2 (h.closed.symm.trans hclosed))⟩

theorem finishHandshake_drains :
    Drains l (finishHandshake io l).2 ∧
      (Drained l → Drained (finishHandshake io l).2) ∧
      (io.broken = false → (finishHandshake io l).1 = true) := by
  have hsame := Drains.refl l
  unfold finishHandshake
  split
  · exact ⟨hsame, id, fun _ => rfl⟩
  · split
    · rename_i hbroken
      exact ⟨hsame, id, by simp [hbroken]⟩
    · split
      · exact ⟨hsame, id, fun _ => rfl⟩
      · simp only
        split <;>
          exact ⟨⟨fun h => ⟨h.plain, h.tls, h.room, h.offset, h.notified,
            h.shutDowns⟩, rfl, rfl, fun _ => rfl, rfl, Or.inl, id, id⟩, id,
            fun _ => rfl⟩

def Sending (sends : List SendAnswer) : Prop :=
  ∀ a ∈ sends, a ≠ .failed ∧ a ≠ .sent 0

theorem flushTls_succeeds {sends : List SendAnswer} (h : Sending sends) :
    (flushTls false sends l).1 = true ∧ Sending (flushTls false sends l).2.1 := by
  induction sends generalizing l with
  | nil =>
    simp only [flushTls]
    split <;> simp [Sending]
  | cons answer rest ih =>
    have hrest : Sending rest := fun a ha => h a (List.mem_cons_of_mem _ ha)
    have hanswer := h answer (List.mem_cons_self ..)
    simp only [flushTls, Bool.and_false, Bool.false_eq_true, if_false]
    generalize (if hasPendingTls l then l else refill l) = l'
    split
    · split
      · exact ⟨rfl, hrest⟩
      · exact absurd rfl hanswer.1
      · exact absurd rfl hanswer.2
      · exact ih hrest
    · exact ⟨rfl, h⟩

structure Untroubled (w : Work) : Prop where
  broken : w.io.broken = false
  sends : Sending w.io.sends
  feeds : ∀ e ∈ w.io.feeds, e.ok = true ∧ 0 < e.consumed
  room : (buffered w.layer).length + w.layer.session.plain.length +
    (w.io.feeds.map fun e => e.plain.length).sum < maxBufferedData

/-! ## Records -/

def Ended (l : Layer) : Prop :=
  l.peerReadClosed = true → l.session.plain = [] ∧ l.session.closed = true

structure Advances (l l' : Layer) : Prop where
  conserves : Conserves l → Conserves l'
  handshakeReady : l.handshakeReady = true → l'.handshakeReady = true
  state : l'.state = l.state
  ended : Ended l → Ended l'

theorem Advances.refl (l : Layer) : Advances l l := ⟨id, id, rfl, id⟩

theorem Advances.trans {l l' l'' : Layer} (h : Advances l l')
    (k : Advances l' l'') : Advances l l'' :=
  ⟨k.conserves ∘ h.conserves, k.handshakeReady ∘ h.handshakeReady,
    k.state.trans h.state, k.ended ∘ h.ended⟩

theorem Drains.advances {l l' : Layer} (h : Drains l l') : Advances l l' where
  conserves := h.conserves
  handshakeReady := h.handshakeReady
  state := h.state
  ended hended hclosed := by
    obtain hbefore | hnow := h.ended hclosed
    · obtain ⟨hplain, hsession⟩ := hended hbefore
      exact ⟨h.empty hplain, h.closed.trans hsession⟩
    · exact hnow

/-- A part of a call with its answers: when it succeeds the session is empty,
and it succeeds where nothing fails. -/
structure Proceeds (w : Work) (result : Bool × Work) : Prop where
  advances : Advances w.layer result.2.layer
  drained : result.1 = true → Drained result.2.layer
  succeeds : Untroubled w → result.1 = true ∧ Untroubled result.2

theorem settle_proceeds (w : Work) : Proceeds w (settle w) := by
  obtain ⟨hdrains, hdrained, hdrain⟩ := @drainPlaintext_drains w.layer w.io
  unfold settle
  cases hresult : drainPlaintext w.io w.layer with
  | mk ok l =>
    rw [hresult] at hdrains hdrained hdrain
    simp only at hdrains hdrained hdrain
    cases ok with
    | false =>
      refine ⟨hdrains.advances, by simp, ?_⟩
      intro h
      have hroom := h.room
      have := hdrain h.broken (by omega)
      simp at this
    | true =>
      have hflushes := @flushTls_flushes l w.io.broken w.io.sends
      have hsending : Untroubled w →
          (flushTls w.io.broken w.io.sends l).1 = true ∧
            Sending (flushTls w.io.broken w.io.sends l).2.1 := by
        intro h
        rw [h.broken]
        exact flushTls_succeeds h.sends
      simp only
      generalize flushTls w.io.broken w.io.sends l = flushed at hflushes hsending
      obtain ⟨ok, sends, l'⟩ := flushed
      simp only at hflushes hsending ⊢
      have hboth := hdrains.trans hflushes.drains
      cases ok with
      | false =>
        refine ⟨hboth.advances, by simp, ?_⟩
        intro h
        simpa using (hsending h).1
      | true =>
        obtain ⟨hfinishes, hfinished, hfinish⟩ :=
          @finishHandshake_drains l' w.io
        have hall := hboth.trans hfinishes
        refine ⟨hall.advances, ?_, ?_⟩
        · intro _
          exact hfinished (hflushes.drained (hdrained rfl))
        · intro h
          refine ⟨hfinish h.broken, h.broken, (hsending h).2, h.feeds, ?_⟩
          have hamount := hall.amount
          have hroom := h.room
          simp only at hamount ⊢
          omega

theorem nextFeed_advances (chunk : Bytes) (w : Work) :
    Advances w.layer (nextFeed chunk w).2.layer where
  conserves h := by
    refine ⟨?_, ?_, h.room, h.offset, h.notified, h.shutDowns⟩
    · simp only [nextFeed, Session.feed]
      rw [h.plain]
      simp [buffered]
    · simp only [nextFeed, Session.feed]
      rw [h.tls]
      simp [pendingBytes]
  handshakeReady := id
  state := rfl
  ended h hclosed := by
    obtain ⟨hplain, hsession⟩ := h hclosed
    simp [nextFeed, Session.feed, Session.opened, hplain, hsession]

theorem nextFeed_untroubled {chunk : Bytes} (hchunk : chunk ≠ [])
    (h : Untroubled w) :
    (nextFeed chunk w).1.ok = true ∧ 0 < (nextFeed chunk w).1.consumed ∧
      Untroubled (nextFeed chunk w).2 := by
  have hroom := h.room
  cases hfeeds : w.io.feeds with
  | nil =>
    refine ⟨by simp [nextFeed, hfeeds], ?_, h.broken, h.sends, ?_, ?_⟩
    · simpa [nextFeed, hfeeds] using List.length_pos_of_ne_nil hchunk
    · simp [nextFeed, hfeeds]
    · simp only [hfeeds, List.map_nil, List.sum_nil] at hroom
      simp only [nextFeed, hfeeds, Session.feed, Session.opened, List.headD_nil,
        List.tail_nil, List.map_nil, List.sum_nil, ite_self, List.append_nil]
      exact hroom
  | cons e rest =>
    have he := h.feeds e (by simp [hfeeds])
    refine ⟨by simpa [nextFeed, hfeeds] using he.1,
      by simpa [nextFeed, hfeeds] using he.2, h.broken, h.sends, ?_, ?_⟩
    · intro x hx
      apply h.feeds x
      rw [hfeeds]
      apply List.mem_cons_of_mem
      simpa [nextFeed, hfeeds] using hx
    · have hopened : (w.layer.session.opened e).length ≤ e.plain.length := by
        unfold Session.opened
        split <;> simp
      simp only [hfeeds, List.map_cons, List.sum_cons] at hroom
      simp only [nextFeed, hfeeds, List.headD_cons, List.tail_cons, Session.feed,
        List.length_append]
      change (buffered w.layer).length + _ + _ < _
      omega

theorem feedTls_proceeds {fuel : Nat} {chunk : Bytes} (hd : Drained w.layer) :
    Proceeds w (feedTls fuel chunk w) := by
  induction fuel generalizing w chunk with
  | zero => exact ⟨Advances.refl _, fun _ => hd, fun h => ⟨rfl, h⟩⟩
  | succ fuel ih =>
    simp only [feedTls]
    split
    · exact ⟨Advances.refl _, fun _ => hd, fun h => ⟨rfl, h⟩⟩
    · rename_i hchunk
      have hfeed := nextFeed_advances chunk w
      have huntroubled := @nextFeed_untroubled w chunk hchunk
      generalize nextFeed chunk w = fed at hfeed huntroubled
      obtain ⟨e, w'⟩ := fed
      simp only at hfeed huntroubled ⊢
      split
      · rename_i hbad
        refine ⟨hfeed, by simp, ?_⟩
        intro h
        obtain ⟨hok, hconsumed, -⟩ := huntroubled h
        simp [hok] at hbad
        omega
      · have hsettle := settle_proceeds w'
        cases hresult : settle w' with
        | mk ok w'' =>
          rw [hresult] at hsettle
          cases ok with
          | false =>
            refine ⟨hfeed.trans hsettle.advances, by simp, ?_⟩
            intro h
            simpa using (hsettle.succeeds (huntroubled h).2.2).1
          | true =>
            have hrest := @ih w'' (chunk.drop e.consumed) (hsettle.drained rfl)
            refine ⟨(hfeed.trans hsettle.advances).trans hrest.advances,
              hrest.drained, ?_⟩
            intro h
            exact hrest.succeeds (hsettle.succeeds (huntroubled h).2.2).2

def Receiving (receives : List RawRead) : Prop :=
  ∀ r ∈ receives, r ≠ .failed ∧ r ≠ .data []

theorem receiveLoop_advances {receives : List RawRead} (hd : Drained w.layer) :
    Advances w.layer (receiveLoop receives w).2.layer ∧
      ((receiveLoop receives w).1 = true → Drained (receiveLoop receives w).2.layer) ∧
      (Untroubled w → Receiving receives → (receiveLoop receives w).1 = true) := by
  induction receives generalizing w with
  | nil => exact ⟨Advances.refl _, fun _ => hd, fun _ _ => rfl⟩
  | cons r rest ih =>
    cases r with
    | wouldBlock => exact ⟨Advances.refl _, fun _ => hd, fun _ _ => rfl⟩
    | failed =>
      refine ⟨Advances.refl _, by simp [receiveLoop], ?_⟩
      intro _ hreceiving
      exact absurd rfl (hreceiving .failed (List.mem_cons_self ..)).1
    | data chunk =>
      simp only [receiveLoop]
      split
      · rename_i hempty
        refine ⟨Advances.refl _, by simp, ?_⟩
        intro _ hreceiving
        rw [hempty] at hreceiving
        exact absurd rfl (hreceiving (.data []) (List.mem_cons_self ..)).2
      · have hfeed := @feedTls_proceeds w chunk.length chunk hd
        cases hresult : feedTls chunk.length chunk w with
        | mk ok w' =>
          rw [hresult] at hfeed
          cases ok with
          | false =>
            refine ⟨hfeed.advances, by simp, ?_⟩
            intro h
            simpa using (hfeed.succeeds h).1
          | true =>
            have hdrained := hfeed.drained rfl
            simp only
            split
            · exact ⟨hfeed.advances, fun _ => hdrained, fun _ _ => rfl⟩
            · obtain ⟨hadvances, hdrained', hsucceeds⟩ := @ih w' hdrained
              refine ⟨hfeed.advances.trans hadvances, hdrained', ?_⟩
              intro h hreceiving
              exact hsucceeds (hfeed.succeeds h).2
                fun r hr => hreceiving r (List.mem_cons_of_mem _ hr)

theorem pumpTls_advances :
    Advances w.layer (pumpTls w).2.layer ∧
      ((pumpTls w).1 = true → Drained (pumpTls w).2.layer) ∧
      (Untroubled w → Receiving w.io.receives → (pumpTls w).1 = true) := by
  have hsettle := settle_proceeds w
  have hreceives : (settle w).2.io.receives = w.io.receives := by
    unfold settle
    split
    · rfl
    · split <;> rfl
  unfold pumpTls
  cases hresult : settle w with
  | mk ok w' =>
    rw [hresult] at hsettle hreceives
    cases ok with
    | false =>
      refine ⟨hsettle.advances, by simp, ?_⟩
      intro h
      simpa using (hsettle.succeeds h).1
    | true =>
      have hdrained := hsettle.drained rfl
      simp only at hreceives ⊢
      split
      · exact ⟨hsettle.advances, fun _ => hdrained, fun _ _ => rfl⟩
      · obtain ⟨hadvances, hdrained', hsucceeds⟩ :=
          @receiveLoop_advances w' w'.io.receives hdrained
        refine ⟨hsettle.advances.trans hadvances, hdrained', ?_⟩
        intro h hreceiving
        apply hsucceeds (hsettle.succeeds h).2
        rw [hreceives]
        exact hreceiving

/-! ## The end of the stream -/

theorem closeFeed_advances {fuel : Nat} {chunk : Bytes} :
    Advances w.layer (closeFeed fuel chunk w).2.layer ∧
      (Untroubled w → (closeFeed fuel chunk w).1 = true ∧
        Untroubled (closeFeed fuel chunk w).2) := by
  induction fuel generalizing w chunk with
  | zero => exact ⟨Advances.refl _, fun h => ⟨rfl, h⟩⟩
  | succ fuel ih =>
    simp only [closeFeed]
    split
    · exact ⟨Advances.refl _, fun h => ⟨rfl, h⟩⟩
    · rename_i hchunk
      have hfeed := nextFeed_advances chunk w
      have huntroubled := @nextFeed_untroubled w chunk hchunk
      generalize nextFeed chunk w = fed at hfeed huntroubled
      obtain ⟨e, w'⟩ := fed
      simp only at hfeed huntroubled ⊢
      split
      · rename_i hbad
        refine ⟨hfeed, ?_⟩
        intro h
        obtain ⟨hok, hconsumed, -⟩ := huntroubled h
        simp [hok] at hbad
        omega
      · obtain ⟨hdrains, -, hdrain⟩ := @drainPlaintext_drains w'.layer w'.io
        cases hresult : drainPlaintext w'.io w'.layer with
        | mk ok l =>
          rw [hresult] at hdrains hdrain
          simp only at hdrains hdrain ⊢
          have hboth := hfeed.trans hdrains.advances
          cases ok with
          | false =>
            refine ⟨hboth, ?_⟩
            intro h
            have h' := (huntroubled h).2.2
            have hroom := h'.room
            have := hdrain h'.broken (by omega)
            simp at this
          | true =>
            obtain ⟨hadvances, hsucceeds⟩ :=
              @ih { w' with layer := l } (chunk.drop e.consumed)
            refine ⟨hboth.trans hadvances, ?_⟩
            intro h
            have h' := (huntroubled h).2.2
            apply hsucceeds
            refine ⟨h'.broken, h'.sends, h'.feeds, ?_⟩
            have hamount := hdrains.amount
            have hroom := h'.room
            simp only
            omega

theorem closeLoop_advances {receives : List RawRead} :
    Advances w.layer (closeLoop receives w).2.layer ∧
      (Untroubled w → (closeLoop receives w).1 = true ∧
        Untroubled (closeLoop receives w).2) := by
  induction receives generalizing w with
  | nil => exact ⟨Advances.refl _, fun h => ⟨rfl, h⟩⟩
  | cons r rest ih =>
    cases r with
    | wouldBlock => exact ⟨Advances.refl _, fun h => ⟨rfl, h⟩⟩
    | failed => exact ⟨Advances.refl _, fun h => ⟨rfl, h⟩⟩
    | data chunk =>
      simp only [closeLoop]
      split
      · exact ⟨Advances.refl _, fun h => ⟨rfl, h⟩⟩
      · obtain ⟨hfeed, hsucceeds⟩ := @closeFeed_advances w chunk.length chunk
        cases hresult : closeFeed chunk.length chunk w with
        | mk ok w' =>
          rw [hresult] at hfeed hsucceeds
          cases ok with
          | false => exact ⟨hfeed, fun h => by simpa using (hsucceeds h).1⟩
          | true =>
            obtain ⟨hadvances, hsucceeds'⟩ := @ih w'
            exact ⟨hfeed.trans hadvances,
              fun h => hsucceeds' (hsucceeds h).2⟩

theorem closeDrain_advances :
    Advances l (closeDrain io l).2 ∧
      ((closeDrain io l).1 = true → (closeDrain io l).2.session.plain = []) ∧
      (Untroubled ⟨l, io⟩ → (closeDrain io l).1 = true) := by
  obtain ⟨hloop, hsucceeds⟩ := @closeLoop_advances ⟨l, io⟩ io.receives
  unfold closeDrain
  cases hresult : closeLoop io.receives ⟨l, io⟩ with
  | mk ok w =>
    rw [hresult] at hloop hsucceeds
    cases ok with
    | false =>
      exact ⟨hloop, by simp, fun h => by simpa using (hsucceeds h).1⟩
    | true =>
      obtain ⟨hdrains, hdrained, hdrain⟩ := @drainPlaintext_drains w.layer w.io
      refine ⟨hloop.trans hdrains.advances, fun h => (hdrained h).1, ?_⟩
      intro h
      have h' := (hsucceeds h).2
      have hroom := h'.room
      simp only at hroom
      exact hdrain h'.broken (by omega)

/-! ## One call -/

structure Safe (l : Layer) : Prop where
  conserves : Conserves l
  ended : l.peerReadClosed = true →
    l.session.plain = [] ∧ (l.state = .connected → l.session.closed = true)

theorem post_safe (notice : Notice) (h : Safe l) : Safe (post notice l) := by
  have hc := h.conserves
  exact ⟨⟨hc.plain, hc.tls, hc.room, hc.offset, hc.notified, hc.shutDowns⟩, h.ended⟩

theorem aborted_safe (h : Safe l) : Safe { l with state := .aborted } := by
  have hc := h.conserves
  exact ⟨⟨hc.plain, hc.tls, hc.room, hc.offset, hc.notified, hc.shutDowns⟩,
    fun hclosed => ⟨(h.ended hclosed).1, by simp⟩⟩

theorem reportFailure_safe (h : Safe l) : Safe (reportFailure l) :=
  aborted_safe (post_safe _ h)

theorem Advances.safe {l l' : Layer} (h : Advances l l') (hs : Safe l)
    (hended : Ended l) : Safe l' :=
  ⟨h.conserves hs.conserves, fun hclosed =>
    ⟨(h.ended hended hclosed).1, fun _ => (h.ended hended hclosed).2⟩⟩

theorem Safe.ended_connected (h : Safe l) (hstate : l.state = .connected) :
    Ended l :=
  fun hclosed => ⟨(h.ended hclosed).1, (h.ended hclosed).2 hstate⟩

theorem onReceive_safe (h : Safe l) (hstate : l.state = .connected) :
    Safe (onReceive io l) := by
  obtain ⟨hadvances, -, -⟩ := @pumpTls_advances ⟨l, io⟩
  have hsafe := hadvances.safe h (h.ended_connected hstate)
  unfold onReceive
  generalize pumpTls ⟨l, io⟩ = result at hsafe
  obtain ⟨ok, w⟩ := result
  cases ok with
  | false => exact reportFailure_safe hsafe
  | true =>
    simp only
    split
    · exact post_safe _ hsafe
    · exact hsafe

theorem shutDownNext_conserves {how : How} (h : Conserves l)
    (hallowed : how = .receives ∨ (l.closeNotified = true ∧ pendingBytes l = [])) :
    Conserves (shutDownNext how l) := by
  refine ⟨h.plain, h.tls, h.room, h.offset, h.notified, ?_⟩
  intro x hx
  obtain hx | hx := List.mem_append.1 hx
  · exact h.shutDowns x hx
  · rw [List.mem_singleton.1 hx]
    obtain hhow | ⟨hnotified, hpending⟩ := hallowed
    · exact Or.inl hhow
    · exact Or.inr ⟨hnotified, by simp [hpending]⟩

theorem Flushes.safe {l l' : Layer} (h : Flushes l l') (hs : Safe l) : Safe l' := by
  refine ⟨h.conserves hs.conserves, ?_⟩
  rw [h.peerReadClosed, h.plain, h.state, h.closed]
  exact hs.ended

theorem finishHandshake_safe (h : Safe l) : Safe (finishHandshake io l).2 := by
  have hc := h.conserves
  have hready : Safe { l with handshakeReady := true } :=
    ⟨⟨hc.plain, hc.tls, hc.room, hc.offset, hc.notified, hc.shutDowns⟩, h.ended⟩
  unfold finishHandshake
  split
  · exact h
  · split
    · exact h
    · split
      · exact h
      · simp only
        split
        · exact hready
        · have hr := hready.conserves
          exact post_safe _ ⟨⟨hr.plain, hr.tls, hr.room, hr.offset, hr.notified,
            hr.shutDowns⟩, hready.ended⟩

theorem finishShutDown_safe (h : Safe l) : Safe (finishShutDown l) := by
  unfold finishShutDown
  split
  · rename_i how hpending
    split
    · exact h
    · rename_i hnone
      have hc := h.conserves
      refine ⟨shutDownNext_conserves ⟨hc.plain, hc.tls, hc.room, hc.offset,
        by simp, hc.shutDowns⟩ ?_, h.ended⟩
      have hsent : pendingBytes l = [] := pendingBytes_nil (by simpa using hnone)
      exact Or.inr ⟨hc.notified how hpending, hsent⟩
  · exact h

theorem onSend_safe (h : Safe l) : Safe (onSend io l) := by
  have hflushed := (@flushTls_flushes l io.broken io.sends).safe h
  unfold onSend
  generalize flushTls io.broken io.sends l = flushed at hflushed
  obtain ⟨ok, sends, l'⟩ := flushed
  cases ok with
  | false => exact reportFailure_safe hflushed
  | true =>
    have hfinished := @finishHandshake_safe l' io hflushed
    simp only
    generalize finishHandshake io l' = finished at hfinished
    obtain ⟨ok, l''⟩ := finished
    cases ok with
    | false => exact reportFailure_safe hfinished
    | true =>
      have hshut := finishShutDown_safe hfinished
      simp only
      split
      · exact post_safe _ hshut
      · exact hshut

theorem writeSession_safe (tls : Bytes) (h : Safe l) :
    Safe (writeSession tls l) := by
  have hc := h.conserves
  refine ⟨⟨hc.plain, ?_, hc.room, hc.offset, hc.notified, hc.shutDowns⟩, h.ended⟩
  simp only [writeSession]
  rw [hc.tls]
  simp [pendingBytes]

theorem send_safe {write : Write} (h : Safe l) : Safe (send io write l).2 := by
  unfold send
  split
  · exact h
  · split
    · exact h
    · have hwritten := writeSession_safe write.tls h
      have hflushed :=
        (@flushTls_flushes (writeSession write.tls l) io.broken io.sends).safe hwritten
      simp only
      split
      · exact hwritten
      · split
        · rename_i hresult
          rw [hresult] at hflushed
          exact hflushed
        · rename_i hresult
          rw [hresult] at hflushed
          exact hflushed

theorem resumeTlsReceive_safe (posts : Bool) (h : Safe l) :
    Safe (resumeTlsReceive posts l) := by
  have hc := h.conserves
  unfold resumeTlsReceive
  split
  · exact h
  · split
    · exact post_safe _ ⟨⟨hc.plain, hc.tls, hc.room, hc.offset, hc.notified,
        hc.shutDowns⟩, h.ended⟩
    · exact h

theorem takePlaintext_safe (h : Safe l) {count : Nat}
    (hcount : count ≤ l.plaintext.length - l.plaintextOffset) :
    Safe (takePlaintext count l) := by
  have hc := h.conserves
  have hoffset := hc.offset
  refine ⟨⟨?_, hc.tls, hc.room, ?_, hc.notified, hc.shutDowns⟩, h.ended⟩
  · simp only [takePlaintext]
    rw [hc.plain]
    simp [buffered, ← List.drop_drop]
  · simp only [takePlaintext]
    omega

theorem repostRead_safe (h : Safe l) : Safe (repostRead l) := by
  have hc := h.conserves
  unfold repostRead
  split
  · rename_i hall
    have hcleared : Safe { l with plaintext := [], plaintextOffset := 0 } := by
      refine ⟨⟨?_, hc.tls, Nat.zero_le _, Nat.le_refl _, hc.notified,
        hc.shutDowns⟩, h.ended⟩
      have hplain := hc.plain
      simpa [buffered, hall] using hplain
    simp only
    split
    · exact post_safe _ hcleared
    · exact hcleared
  · exact post_safe _ h

theorem receive_safe {nBufLen : Nat} {posts : Bool} (h : Safe l) :
    Safe (receive nBufLen posts l).2 := by
  have hc := h.conserves
  unfold receive
  split
  · exact h
  · split
    · split
      · exact ⟨⟨hc.plain, hc.tls, hc.room, hc.offset, hc.notified, hc.shutDowns⟩,
          h.ended⟩
      · exact h
    · exact resumeTlsReceive_safe posts
        (repostRead_safe (takePlaintext_safe h (Nat.min_le_right _ _)))

theorem shutDown_safe {how : How} {write : Write} (h : Safe l) :
    Safe (shutDown how io write l) := by
  unfold shutDown
  split
  · rename_i hhow
    exact ⟨shutDownNext_conserves h.conserves (Or.inl hhow), h.ended⟩
  · have hwritten : Safe { writeSession write.tls l with
        closeNotified := l.closeNotified || write.ok } := by
      have hw := writeSession_safe write.tls h
      have hc := hw.conserves
      refine ⟨⟨hc.plain, hc.tls, hc.room, hc.offset, ?_, hc.shutDowns⟩, hw.ended⟩
      intro how' hpending
      have hnotified : l.closeNotified = true := hc.notified how' hpending
      simp [hnotified]
    have hflushes := @flushTls_flushes { writeSession write.tls l with
      closeNotified := l.closeNotified || write.ok } io.broken io.sends
    simp only
    split
    · exact hwritten
    · rename_i hok
      have hok : write.ok = true := by simpa using hok
      have hflushed := hflushes.safe hwritten
      have hnotified := hflushes.closeNotified
      simp only [hok, Bool.or_true] at hnotified hflushed ⊢
      generalize flushTls io.broken io.sends
        { writeSession write.tls l with closeNotified := true } = result
        at hflushed hnotified
      obtain ⟨ok, sends, l'⟩ := result
      have hc := hflushed.conserves
      cases ok with
      | false => exact hflushed
      | true =>
        simp only at hnotified hc ⊢
        split
        · exact ⟨⟨hc.plain, hc.tls, hc.room, hc.offset, fun _ _ => hnotified,
            hc.shutDowns⟩, hflushed.ended⟩
        · rename_i hnone
          exact ⟨shutDownNext_conserves hc (Or.inr ⟨hnotified,
            pendingBytes_nil (by simpa using hnone)⟩), hflushed.ended⟩

theorem onClose_safe (h : Safe l) (hstate : l.state = .connected)
    (hdrained : (closeDrain io { l with state := .closed }).1 = true) :
    Safe (onClose false io l) := by
  have hc := h.conserves
  have hclosed : Safe { l with state := .closed } :=
    ⟨⟨hc.plain, hc.tls, hc.room, hc.offset, hc.notified, hc.shutDowns⟩,
      fun hended => ⟨(h.ended hended).1, by simp⟩⟩
  obtain ⟨hadvances, hempty, -⟩ := @closeDrain_advances { l with state := .closed } io
  have hsafe := hadvances.safe hclosed (h.ended_connected hstate)
  have hstate' := hadvances.state
  unfold onClose
  simp only [Bool.false_eq_true, if_false]
  generalize closeDrain io { l with state := .closed } = result at *
  obtain ⟨ok, l'⟩ := result
  simp only at hdrained hempty hsafe hstate' ⊢
  subst hdrained
  have hplain := hempty rfl
  have hc' := hsafe.conserves
  have hended : Safe { l' with peerReadClosed := true } :=
    ⟨⟨hc'.plain, hc'.tls, hc'.room, hc'.offset, hc'.notified, hc'.shutDowns⟩,
      fun _ => ⟨hplain, by simp [hstate']⟩⟩
  simp only
  split
  · exact post_safe _ hended
  · split
    · exact post_safe _ hended
    · exact hended

end SecureLayer

end ProxyLane.Hook
