import ProxyLane.Mitm.Worker

/-!
# Taps and the capture worker

Producers open taps and feed them; every call of a tap puts events into one
bounded queue, from which the worker takes them.  A number, the capture epoch,
is odd while taps are accepted; it is read under a lock that a producer keeps
for all of a call.  Closing an epoch makes it even.

A step of this machine is what one thread does without waiting.  A producer
that waits for room in the queue while it keeps the lock is the `holder`; a
step that cannot be made yet leaves the state as it is.  The worker reaps and
promotes its connections one at a time.
-/

namespace ProxyLane.Mitm

open ProxyLane.Foundation ProxyLane.Protocol

/-! ## Events -/

/-- What a tap sends besides the bytes of its connection; `η` is a part of an
HTTP/3 message. -/
inductive Message (η : Type) where
  | datagram (side : Direction) (bytes : Bytes)
  | eof (side : Direction) (clean : Bool)
  | http3 (side : Direction) (part : η)
  | note (message : String)
  | state (error : Nat)
  deriving DecidableEq, Repr

structure Identity where
  connection : Connection
  rawQuic : Bool
  deriving DecidableEq, Repr

inductive CaptureEvent (η : Type) where
  | opened (id : Nat) (identity : Identity)
  | data (id : Nat) (side : Direction) (offset : Nat) (bytes : Bytes)
  | message (id : Nat) (message : Message η)
  | barrier
  | stopCapture (call : Nat)
  | shutdown
  deriving DecidableEq, Repr

def parseU64 (text : Bytes) : Option Nat :=
  let digits :=
    match text with
    | 43 :: rest => rest
    | _ => text
  if digits.isEmpty || digits.any (fun c => c < 48 || 57 < c) ||
      2 ^ 64 ≤ decimal digits then none
  else some (decimal digits)

namespace Identity

def isH3 (i : Identity) : Bool :=
  i.connection.alpn.any fun alpn => (ascii "h3:").isPrefixOf alpn

def h3StreamId (i : Identity) : Option Nat :=
  i.connection.alpn.bind fun alpn =>
    if (ascii "h3:").isPrefixOf alpn then parseU64 (alpn.drop 3) else none

end Identity

/-! ## State -/

inductive CacheMode where
  | missing
  | temporary
  | recording
  deriving DecidableEq, Repr

structure CaptureConfig where
  mode : CacheMode
  connections : Nat
  queue : Nat
  deriving DecidableEq, Repr

def CaptureConfig.recording (c : CaptureConfig) : Bool := c.mode == .recording

structure Ticket where
  parserSlot : Bool
  pending : Int
  closed : Bool
  lost : Bool
  closeReason : Option String
  deriving DecidableEq, Repr

/-- What a call has still to send: a chunk at its offset and the chunks behind
it, or a message. -/
inductive Sending (η : Type) where
  | data (side : Direction) (offset : Nat) (chunk : Bytes) (rest : List Bytes)
  | message (message : Message η)
  deriving DecidableEq, Repr

/-- A tap; `waiting` are its asynchronous calls, and `fed` is all that it was
given so far. -/
structure Tap (η : Type) where
  epoch : Nat
  offsets : Sides Nat
  ended : Sides Bool
  live : Bool
  waiting : List (Sending η)
  fed : Sides Bytes
  deriving DecidableEq, Repr

/-- The call that keeps the lock of the epoch.  A cancelled call does not
count the bytes it sends. -/
inductive Holder (η : Type) where
  | admission (id : Nat) (identity : Identity)
  | send (id : Nat) (sending : Sending η) (counted : Bool)
  deriving DecidableEq, Repr

inductive Task where
  | reapScan (all stopped : Bool)
  | reapOne (id : Nat) (stopped : Bool)
  | progressScan
  | progressOne (id : Nat)
  | reply (call : Nat)
  | exit
  deriving DecidableEq, Repr

/-- A call of `stop_capture`, with the epoch it has left. -/
inductive StopCall where
  | idle
  | closed (epoch : Nat)
  | waiting (epoch : Nat)
  | returned (epoch : Nat)
  deriving DecidableEq, Repr

structure CaptureStream (σ : Type) where
  deferred : Bool
  body : σ
  deriving DecidableEq, Repr

inductive Origin where
  | tap (id : Nat)
  | lifecycle (epoch : Nat)
  deriving DecidableEq, Repr

structure Analysis (η σ ρ : Type) where
  opened : Identity → (limited : Bool) → σ × List ρ
  data : Nat → σ → Direction → Nat → Bytes → σ × List ρ
  message : Nat → σ → Option String → Message η → σ × List ρ
  deferData : Nat → σ → Direction → Bytes → σ
  deferMessage : Nat → σ → Message η → σ
  replay : Nat → σ → Option String → Bool × σ × List ρ
  progress : Nat → σ → σ × List ρ
  finish : Nat → σ → (reason : String) → (lost stopped : Bool) → List ρ
  parsing : σ → Bool

/-- The counters are integers, so that a count below zero would show.  The
last four fields are the history. -/
structure Runtime (η σ ρ : Type) where
  captureEpoch : Nat
  holder : Option (Holder η)
  stopping : Bool
  failed : Bool
  active : Int
  parsers : Int
  rejected : Nat
  next : Nat
  queue : List (CaptureEvent η)
  tickets : Nat → Ticket
  taps : Nat → Tap η
  stops : Nat → StopCall
  connections : Table (CaptureStream σ)
  todo : List Task
  working : Bool
  sent : List (CaptureEvent η)
  published : List (Origin × ρ)
  refused : List Nat
  reaped : List Nat

variable {η σ ρ : Type}

namespace Runtime

def newTicket (slot : Bool) : Ticket := ⟨slot, 0, false, false, none⟩

def newTap (epoch : Nat) : Tap η :=
  ⟨epoch, ⟨0, 0⟩, ⟨false, false⟩, false, [], ⟨[], []⟩⟩

def initial : Runtime η σ ρ where
  captureEpoch := 1
  holder := none
  stopping := false
  failed := false
  active := 0
  parsers := 0
  rejected := 0
  next := 1
  queue := []
  tickets _ := newTicket false
  taps _ := newTap 0
  stops _ := .idle
  connections := .empty
  todo := []
  working := true
  sent := []
  published := []
  refused := []
  reaped := []

def ticket (s : Runtime η σ ρ) (id : Nat) (f : Ticket → Ticket) :
    Runtime η σ ρ :=
  { s with tickets := alter s.tickets id f }

def tap (s : Runtime η σ ρ) (id : Nat) (f : Tap η → Tap η) : Runtime η σ ρ :=
  { s with taps := alter s.taps id f }

def pend (s : Runtime η σ ρ) (id : Nat) (n : Int) : Runtime η σ ρ :=
  s.ticket id fun t => { t with pending := t.pending + n }

def push (s : Runtime η σ ρ) (e : CaptureEvent η) : Runtime η σ ρ :=
  { s with queue := s.queue ++ [e], sent := s.sent ++ [e] }

def publish (s : Runtime η σ ρ) (origin : Origin) (records : List ρ) :
    Runtime η σ ρ :=
  { s with published := s.published ++ records.map fun r => (origin, r) }

def store (s : Runtime η σ ρ) (id : Nat) (stream : CaptureStream σ) :
    Runtime η σ ρ :=
  { s with connections := s.connections.insert id stream }

def count (s : Runtime η σ ρ) (id : Nat) (side : Direction) (bytes : Bytes) :
    Runtime η σ ρ :=
  s.tap id fun t => { t with
    offsets := t.offsets.modify side fun n => n + bytes.length }

def give (s : Runtime η σ ρ) (id : Nat) (side : Direction) (bytes : Bytes) :
    Runtime η σ ρ :=
  s.tap id fun t => { t with fed := t.fed.modify side fun fed => fed ++ bytes }

/-! ## Taps -/

def accepting (s : Runtime η σ ρ) (id : Nat) : Bool :=
  !(s.tickets id).lost && !(s.tickets id).closed && !s.stopping && !s.failed

def isCapturing (s : Runtime η σ ρ) (id : Nat) : Bool :=
  s.captureEpoch == (s.taps id).epoch && (s.taps id).epoch % 2 == 1 && s.accepting id

def eventOf (id : Nat) : Sending η → CaptureEvent η
  | .data side offset chunk _ => .data id side offset chunk
  | .message m => .message id m

def counted (s : Runtime η σ ρ) (id : Nat) : Sending η → Runtime η σ ρ
  | .data side _ chunk _ => s.count id side chunk
  | .message _ => s

variable (c : CaptureConfig)

def room (s : Runtime η σ ρ) : Bool := s.queue.length < c.queue

def failRecording (s : Runtime η σ ρ) : Runtime η σ ρ :=
  { s with failed := s.failed || c.recording }

/-- `tap_at`, up to the event that it submits. -/
def tapAt (s : Runtime η σ ρ) (epoch : Nat) (identity : Identity) :
    Runtime η σ ρ :=
  if s.holder.isSome then s
  else if s.captureEpoch ≠ epoch ∨ epoch % 2 = 0 ∨ s.stopping ∨ s.failed then s
  else if !(c.recording || s.active < c.connections) then
    { s with rejected := s.rejected + 1 }
  else
    let slotless := identity.isH3 || identity.rawQuic
    let slot := !slotless && decide (s.parsers < c.connections)
    if !slotless && !slot && !c.recording then
      { s with rejected := s.rejected + 1 }
    else
      { s with
        active := s.active + 1
        parsers := if slot then s.parsers + 1 else s.parsers
        next := s.next + 1
        tickets := alter s.tickets s.next fun _ => newTicket slot
        taps := alter s.taps s.next fun _ => newTap epoch
        holder := some (.admission s.next identity) }

def free (s : Runtime η σ ρ) : Runtime η σ ρ := { s with holder := none }

def refuse (s : Runtime η σ ρ) (id : Nat) : Runtime η σ ρ :=
  { s with
    active := s.active - 1
    parsers := if (s.tickets id).parserSlot then s.parsers - 1 else s.parsers
    rejected := s.rejected + 1
    refused := s.refused ++ [id] }.free

def lose (s : Runtime η σ ρ) (id : Nat) (sending : Sending η)
    (isCounted : Bool) : Runtime η σ ρ :=
  let lost := (s.ticket id fun t => { t with lost := true }).pend id (-1)
  let lost := { lost with failed := s.failed || (!s.working && c.recording) }
  (if isCounted then lost.counted id sending else lost).free

def proceed (s : Runtime η σ ρ) (id : Nat) : Sending η → Runtime η σ ρ
  | .data side _ _ (chunk :: rest) =>
    { s with holder := some (.send id
        (.data side ((s.taps id).offsets.get side) chunk rest) true) }.pend id 1
  | .data _ _ _ [] => s.free
  | .message _ => s.free

def hold (s : Runtime η σ ρ) : Runtime η σ ρ :=
  match s.holder with
  | none => s
  | some (.admission id identity) =>
    if s.working && s.room c then
      ((s.push (.opened id identity)).tap id fun t =>
        { t with live := true }).free
    else if s.working && c.recording then s
    else if s.working then s.refuse id
    else (s.refuse id).failRecording c
  | some (.send id sending isCounted) =>
    if s.working && s.room c then
      let s := s.push (eventOf id sending)
      if isCounted then (s.counted id sending).proceed id sending
      else s.free
    else if s.working && c.recording then s
    else s.lose c id sending isCounted

def seize (s : Runtime η σ ρ) (id : Nat) (sending : Sending η)
    (isCounted : Bool) : Runtime η σ ρ :=
  if s.isCapturing id then
    { s with holder := some (.send id sending isCounted) }.pend id 1
  else s

def chunkSize : Nat := 16384

def data (s : Runtime η σ ρ) (id : Nat) (side : Direction) (bytes : Bytes) :
    Runtime η σ ρ :=
  if s.holder.isSome || !(s.taps id).live || !(s.taps id).waiting.isEmpty then s
  else
    match chunks chunkSize bytes with
    | [] => s
    | chunk :: rest =>
      (s.give id side bytes).seize id
        (.data side ((s.taps id).offsets.get side) chunk rest) true

/-- `try_data`; it may find the lock taken for an instant. -/
def tryData (s : Runtime η σ ρ) (id : Nat) (side : Direction) (bytes : Bytes)
    (contended : Bool) : Runtime η σ ρ :=
  if !c.recording then s.data id side bytes
  else if !(s.taps id).live || !(s.taps id).waiting.isEmpty ||
      chunkSize < bytes.length then s
  else if contended || s.holder.isSome then s
  else if !s.isCapturing id then s.give id side bytes
  else if !s.working then (s.give id side bytes).failRecording c
  else if s.room c then
    ((((s.give id side bytes).pend id 1).push
      (.data id side ((s.taps id).offsets.get side) bytes)).count id side bytes)
  else s

def isShared : Message η → Bool
  | .http3 .. => true
  | .note _ => true
  | _ => false

def sharedOnly (waiting : List (Sending η)) : Bool :=
  waiting.all fun w =>
    match w with
    | .message m => isShared m
    | .data .. => false

def available (s : Runtime η σ ρ) (id : Nat) (m : Message η) : Bool :=
  (s.taps id).live &&
    if isShared m then sharedOnly (s.taps id).waiting
    else (s.taps id).waiting.isEmpty

def markEnded (s : Runtime η σ ρ) (id : Nat) : Message η → Runtime η σ ρ
  | .eof side _ => s.tap id fun t => { t with ended := t.ended.set side true }
  | _ => s

def alreadyEnded (s : Runtime η σ ρ) (id : Nat) : Message η → Bool
  | .eof side _ => (s.taps id).ended.get side
  | _ => false

def drops (s : Runtime η σ ρ) (id : Nat) : Message η → Bool
  | .datagram _ bytes => decide (65535 < bytes.length)
  | .eof side _ => (s.taps id).ended.get side || (s.tickets id).lost
  | _ => false

/-- `datagram`, `eof`, `http3`, `note` and `transport_result`. -/
def send (s : Runtime η σ ρ) (id : Nat) (m : Message η) : Runtime η σ ρ :=
  if s.holder.isSome || !s.available id m || s.drops id m then s
  else (s.markEnded id m).seize id (.message m) true

/-! ## Asynchronous calls -/

def heldBy (s : Runtime η σ ρ) (id : Nat) : Bool :=
  match s.holder with
  | some (.admission holder _) => holder == id
  | some (.send holder _ _) => holder == id
  | none => false

def dataAsync (s : Runtime η σ ρ) (id : Nat) (side : Direction)
    (bytes : Bytes) : Runtime η σ ρ :=
  if s.heldBy id || !(s.taps id).live || !(s.taps id).waiting.isEmpty then s
  else
    match chunks chunkSize bytes with
    | [] => s
    | chunk :: rest =>
      (s.give id side bytes).tap id fun t => { t with
        waiting := [.data side (t.offsets.get side) chunk rest] }

/-- `datagram_async`, `eof_async`, `http3_async` and `note_async`. -/
def sendAsync (s : Runtime η σ ρ) (id : Nat) (m : Message η) :
    Runtime η σ ρ :=
  if s.heldBy id || !s.available id m || s.alreadyEnded id m then s
  else
    (s.markEnded id m).tap id fun t => { t with
      waiting := t.waiting ++ [.message m] }

def settle (s : Runtime η σ ρ) (id k : Nat) (sending : Sending η) :
    Runtime η σ ρ :=
  (s.counted id sending).tap id fun t =>
    match sending with
    | .data side _ _ (chunk :: rest) => { t with
        waiting := t.waiting.set k (.data side (t.offsets.get side) chunk rest) }
    | .data _ _ _ [] => { t with waiting := t.waiting.eraseIdx k }
    | .message _ => { t with waiting := t.waiting.eraseIdx k }

/-- One round of `send_async`. -/
def attempt (s : Runtime η σ ρ) (id k : Nat) (contended : Bool) :
    Runtime η σ ρ :=
  match (s.taps id).waiting[k]? with
  | none => s
  | some sending =>
    if s.holder.isSome || (contended && c.recording) then s
    else if !s.isCapturing id then s.settle id k sending
    else if s.working && s.room c then
      ((s.pend id 1).push (eventOf id sending)).settle id k sending
    else if c.recording then
      if s.working then s else (s.failRecording c).settle id k sending
    else
      (s.ticket id fun t => { t with lost := true }).settle id k sending

def isData : Sending η → Bool
  | .data .. => true
  | .message _ => false

/-- A call is cancelled while it waits: its event is sent all the same.  The
bytes of a connection are forwarded by the task that owns the tap, so when
they are cancelled, the tap is not used again. -/
def cancel (s : Runtime η σ ρ) (id k : Nat) : Runtime η σ ρ :=
  match (s.taps id).waiting[k]? with
  | none => s
  | some sending =>
    if s.holder.isSome || !c.recording then s
    else
      (s.tap id fun t => { t with
        waiting := t.waiting.eraseIdx k
        live := t.live && !isData sending }).seize id sending false

def closeReason (s : Runtime η σ ρ) (id : Nat) (reason : String) :
    Runtime η σ ρ :=
  s.ticket id fun t => { t with
    closeReason := t.closeReason.or (some reason) }

def transportClosed (s : Runtime η σ ρ) (id : Nat) (side : Direction)
    (error : Nat) : Runtime η σ ρ :=
  let peer :=
    match side with
    | .client => "application"
    | .server => "upstream"
  s.ticket id fun t => { t with
    closeReason := some (peer ++ " TCP transport closed (socket error " ++
      toString error ++ ")") }

/-- `drop` of a tap. -/
def dropTap (s : Runtime η σ ρ) (id : Nat) : Runtime η σ ρ :=
  if s.next ≤ id ∨ s.heldBy id ∨ (s.taps id).waiting ≠ [] then s
  else
    ((s.closeReason id
      "capture owner released; transport close cause unavailable").ticket id
        fun t => { t with closed := true }).tap id
        fun t => { t with live := false }

def startCapture (s : Runtime η σ ρ) : Runtime η σ ρ :=
  if s.holder.isSome then s
  else if s.captureEpoch % 2 = 0 then
    { s with captureEpoch := s.captureEpoch + 1 }
  else s

/-- The epoch that `stop_capture` leaves. -/
def closedEpoch (s : Runtime η σ ρ) : Nat :=
  if s.captureEpoch % 2 = 0 then s.captureEpoch else s.captureEpoch + 1

def setStop (s : Runtime η σ ρ) (call : Nat) (phase : StopCall) :
    Runtime η σ ρ :=
  { s with stops := alter s.stops call fun _ => phase }

/-- `stop_capture` closes the epoch. -/
def stopCapture (s : Runtime η σ ρ) (call : Nat) : Runtime η σ ρ :=
  if s.holder.isSome ∨ s.stops call ≠ .idle then s
  else
    { s with captureEpoch := s.closedEpoch }.setStop call (.closed s.closedEpoch)

def stopGoesOn (s : Runtime η σ ρ) (call : Nat) : Runtime η σ ρ :=
  match s.stops call with
  | .closed epoch =>
    if !s.working then s.setStop call (.returned epoch)
    else if s.room c then
      (s.push (.stopCapture call)).setStop call (.waiting epoch)
    else s
  | .waiting epoch => if s.working then s else s.setStop call (.returned epoch)
  | _ => s

def lifecycle (s : Runtime η σ ρ) (epoch : Nat) (record : ρ) :
    Runtime η σ ρ :=
  if s.holder.isSome then s
  else if s.captureEpoch ≠ epoch ∨ epoch % 2 = 0 ∨ s.stopping ∨ s.failed then s
  else s.publish (.lifecycle epoch) [record]

/-- `shutdown`; its event follows. -/
def shutdown (s : Runtime η σ ρ) : Runtime η σ ρ :=
  if s.holder.isSome then s else { s with stopping := true }

def submit (s : Runtime η σ ρ) (e : CaptureEvent η) : Runtime η σ ρ :=
  if s.working && s.room c then s.push e else s

/-! ## The worker -/

variable (a : Analysis η σ ρ)

def limited (s : Runtime η σ ρ) (id : Nat) (identity : Identity) : Bool :=
  !(s.tickets id).parserSlot && identity.h3StreamId.isNone && !identity.rawQuic

def openStream (s : Runtime η σ ρ) (id : Nat) (identity : Identity) :
    Runtime η σ ρ :=
  let limited := s.limited id identity
  let (body, records) := a.opened identity limited
  (s.store id ⟨limited && c.mode != .missing, body⟩).publish (.tap id) records

def takeData (s : Runtime η σ ρ) (now id : Nat) (side : Direction)
    (offset : Nat) (bytes : Bytes) : Runtime η σ ρ :=
  match s.connections.get? id with
  | none => s
  | some stream =>
    let (body, records) :=
      if stream.deferred then (a.deferData now stream.body side bytes, [])
      else a.data now stream.body side offset bytes
    (s.store id { stream with body := body }).publish (.tap id) records

def defers : Message η → Bool
  | .datagram .. => true
  | .eof .. => true
  | _ => false

def takeMessage (s : Runtime η σ ρ) (now id : Nat) (m : Message η) :
    Runtime η σ ρ :=
  match s.connections.get? id with
  | none => s
  | some stream =>
    let (body, records) :=
      if stream.deferred && defers m then
        (a.deferMessage now stream.body m, [])
      else a.message now stream.body (s.tickets id).closeReason m
    (s.store id { stream with body := body }).publish (.tap id) records

def closeAll (s : Runtime η σ ρ) : Runtime η σ ρ :=
  { s with tickets := fun id =>
      if s.connections.contains id then { s.tickets id with closed := true }
      else s.tickets id }

def take (s : Runtime η σ ρ) (now : Nat) : CaptureEvent η → Runtime η σ ρ
  | .opened id identity => s.openStream c a id identity
  | .data id side offset bytes =>
    (s.takeData a now id side offset bytes).pend id (-1)
  | .message id m => (s.takeMessage a now id m).pend id (-1)
  | .barrier => s
  | .stopCapture _ => s.closeAll
  | .shutdown => s

def tasksOf (due : Bool) : CaptureEvent η → List Task
  | .shutdown => [.reapScan true false, .exit]
  | .barrier => [.reapScan false false, .progressScan] ++ idle
  | .stopCapture call => [.reapScan true true, .reply call] ++ idle
  | _ => idle
where
  idle : List Task :=
    .reapScan false false :: if due then [.progressScan] else []

def toReap (s : Runtime η σ ρ) (all : Bool) : List Nat :=
  s.connections.keys.filter fun id =>
    all || ((s.tickets id).pending == 0 &&
      ((s.tickets id).closed || (s.tickets id).lost))

def endReason (t : Ticket) (stopped : Bool) : String :=
  if t.lost then "capture queue overflow"
  else if stopped then "monitoring stopped"
  else t.closeReason.getD "capture worker shutdown"

/-- `replay`; a backlog that cannot be read ends the recording. -/
def replayStream (s : Runtime η σ ρ) (now id : Nat) (stream : CaptureStream σ) :
    Runtime η σ ρ × CaptureStream σ :=
  let (ok, body, records) :=
    a.replay now stream.body (s.tickets id).closeReason
  let s := s.publish (.tap id) records
  (if ok then s else s.failRecording c, ⟨false, body⟩)

def releaseSlots (s : Runtime η σ ρ) (id : Nat) : Runtime η σ ρ :=
  { s with
    active := s.active - 1
    parsers := if (s.tickets id).parserSlot then s.parsers - 1 else s.parsers
    reaped := s.reaped ++ [id] }

/-- One round of `reap`. -/
def reapOne (s : Runtime η σ ρ) (now id : Nat) (stopped : Bool) :
    Runtime η σ ρ :=
  match s.connections.get? id with
  | none => s
  | some stream =>
    let (s, stream) :=
      if stream.deferred then s.replayStream c a now id stream else (s, stream)
    let t := s.tickets id
    ({ s with connections := s.connections.erase id }.publish (.tap id)
      (a.finish now stream.body (endReason t stopped) t.lost
        stopped)).releaseSlots id

def promote (s : Runtime η σ ρ) (id : Nat) : Runtime η σ ρ :=
  { s with parsers := s.parsers + 1 }.ticket id fun t =>
    { t with parserSlot := true }

/-- One round of `progress`. -/
def progressOne (s : Runtime η σ ρ) (now id : Nat) : Runtime η σ ρ :=
  match s.connections.get? id with
  | none => s
  | some stream =>
    let (s, stream) :=
      if stream.deferred && decide (s.parsers < c.connections) then
        (s.promote id).replayStream c a now id stream
      else (s, stream)
    let (body, records) := a.progress now stream.body
    (s.store id { stream with body := body }).publish (.tap id) records

def answer (s : Runtime η σ ρ) (call : Nat) : Runtime η σ ρ :=
  match s.stops call with
  | .waiting epoch => s.setStop call (.returned epoch)
  | _ => s

def perform (s : Runtime η σ ρ) (now : Nat) : Task → Runtime η σ ρ
  | .reapScan all stopped =>
    { s with todo := (s.toReap all).map (.reapOne · stopped) ++ s.todo }
  | .reapOne id stopped => s.reapOne c a now id stopped
  | .progressScan =>
    { s with todo := s.connections.keys.map .progressOne ++ s.todo }
  | .progressOne id => s.progressOne c a now id
  | .reply call => s.answer call
  | .exit => { s with working := false }

def work (s : Runtime η σ ρ) (now : Nat) (due : Bool) : Runtime η σ ρ :=
  if !s.working then s
  else
    match s.todo, s.queue with
    | task :: todo, _ => { s with todo := todo }.perform c a now task
    | [], [] => { s with todo := tasksOf.idle due }
    | [], e :: queue =>
      { s with queue := queue, todo := tasksOf due e }.take c a now e

end Runtime

inductive CaptureStep (η ρ : Type) where
  | startCapture
  | stopCapture (call : Nat)
  | stopGoesOn (call : Nat)
  | tapAt (epoch : Nat) (identity : Identity)
  | hold
  | data (id : Nat) (side : Direction) (bytes : Bytes)
  | tryData (id : Nat) (side : Direction) (bytes : Bytes) (contended : Bool)
  | send (id : Nat) (message : Message η)
  | dataAsync (id : Nat) (side : Direction) (bytes : Bytes)
  | sendAsync (id : Nat) (message : Message η)
  | attempt (id k : Nat) (contended : Bool)
  | cancel (id k : Nat)
  | closeReason (id : Nat) (reason : String)
  | transportClosed (id : Nat) (side : Direction) (error : Nat)
  | dropTap (id : Nat)
  | lifecycle (epoch : Nat) (record : ρ)
  | query
  | shutdown
  | sendShutdown
  | work (now : Nat) (due : Bool)
  | failure
  | panic
  deriving DecidableEq, Repr

namespace Runtime

/-- Any thread makes its next step.  A failure of the recording can come from
the disk at any time; a worker that panics takes no event any more. -/
def step (c : CaptureConfig) (a : Analysis η σ ρ) (s : Runtime η σ ρ) :
    CaptureStep η ρ → Runtime η σ ρ
  | .startCapture => s.startCapture
  | .stopCapture call => s.stopCapture call
  | .stopGoesOn call => s.stopGoesOn c call
  | .tapAt epoch identity => s.tapAt c epoch identity
  | .hold => s.hold c
  | .data id side bytes => s.data id side bytes
  | .tryData id side bytes contended => s.tryData c id side bytes contended
  | .send id m => s.send id m
  | .dataAsync id side bytes => s.dataAsync id side bytes
  | .sendAsync id m => s.sendAsync id m
  | .attempt id k contended => s.attempt c id k contended
  | .cancel id k => s.cancel c id k
  | .closeReason id reason => s.closeReason id reason
  | .transportClosed id side error => s.transportClosed id side error
  | .dropTap id => s.dropTap id
  | .lifecycle epoch record => s.lifecycle epoch record
  | .query => s.submit c .barrier
  | .shutdown => s.shutdown
  | .sendShutdown => if s.stopping then s.submit c .shutdown else s
  | .work now due => s.work c a now due
  | .failure => { s with failed := true }
  | .panic => { s with working := false, failed := true }

end Runtime

end ProxyLane.Mitm
