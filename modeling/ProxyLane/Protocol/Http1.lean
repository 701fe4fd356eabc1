import ProxyLane.Protocol.WebSocket

/-!
# HTTP/1

Requests are numbered as they arrive and wait in a table; a response belongs
to the request with the next number.  The framing of a body depends on the
head and, for a response, on the method of its request.
-/

namespace ProxyLane.Protocol

open ProxyLane.Foundation

inductive Framing where
  | fixed (left : Nat)
  | untilEof
  | chunkSize
  | chunkData (left : Nat)
  | chunkEnd
  | trailers
  deriving DecidableEq, Repr

structure Http1Active where
  id : Nat
  framing : Framing
  deriving DecidableEq, Repr

structure Http1 where
  upgrade : Option WsConfig
  buffers : Sides Bytes
  active : Sides (Option Http1Active)
  pending : Table Exchange
  requests : Nat
  responses : Nat
  deriving DecidableEq

section Heads

variable {δ ι : Type} (lib : Library δ ι) (limits : Limits)

def lowerNames (fields : Headers) : Headers :=
  fields.map fun field => (foldCase field.1, field.2)

def parseHead (side : Direction) (input : Bytes) : ParseResult Head :=
  match side with
  | .client => lib.parseRequest limits.headerCount input
  | .server => lib.parseResponse limits.headerCount input

def headPrefix : Direction → String
  | .client => "HTTP/1 request: "
  | .server => "HTTP/1 response: "

def headMessage (side : Direction) (head : Head) : Message :=
  match side with
  | .client => { Message.default with
      method := head.method
      target := head.target
      headers := lowerNames head.fields }
  | .server => { Message.default with
      status := head.status
      headers := lowerNames head.fields }

def headers (side : Direction) (input : Bytes) :
    Except String (Option (Nat × Message)) :=
  match parseHead lib limits side input with
  | .error e => .error (headPrefix side ++ e)
  | .complete length head =>
    if length > limits.headers then .error "HTTP/1 header limit"
    else .ok (some (length, headMessage side head))
  | .incomplete =>
    if input.length > limits.headers then .error "HTTP/1 header limit"
    else .ok none

end Heads

def framing (message : Message) (method : Bytes) (client : Bool) :
    Except String Framing :=
  let status := message.status.getD 0
  if !client && (method == ascii "HEAD" || status == 204 || status == 304 ||
      decide (status < 200) || (method == ascii "CONNECT" &&
        decide (200 ≤ status ∧ status < 300))) then
    .ok (.fixed 0)
  else
    match contentLength message.headers with
    | .error e => .error e
    | .ok length =>
      let transfer := tokens message.headers (ascii "transfer-encoding")
      if !transfer.isEmpty then
        if length.isSome then
          .error "ambiguous Transfer-Encoding + Content-Length"
        else if transfer ≠ [ascii "chunked"] then
          .error "unsupported Transfer-Encoding"
        else .ok .chunkSize
      else
        match length with
        | some length => .ok (.fixed length)
        | none => if client then .ok (.fixed 0) else .ok .untilEof

def isInformational (side : Direction) (message : Message) : Bool :=
  side == .server && message.status.any fun s => decide (100 ≤ s ∧ s < 200 ∧ s ≠ 101)

def isTunnel (side : Direction) (message : Message) (method : Bytes) : Bool :=
  side == .server && (message.status == some 101 ||
    (method == ascii "CONNECT" &&
      message.status.any fun s => decide (200 ≤ s ∧ s < 300)))

def unwrapNone : String := "called `Option::unwrap()` on a `None` value"

namespace Http1

def new : Http1 := ⟨none, ⟨[], []⟩, ⟨none, none⟩, .empty, 0, 0⟩

def drop (h : Http1) (side : Direction) (n : Nat) : Http1 :=
  { h with buffers := h.buffers.modify side fun buffer => buffer.drop n }

def modifyExchange (h : Http1) (id : Nat) (f : Exchange → Exchange) : Http1 :=
  { h with pending := h.pending.modify id f }

def nextId (h : Http1) : Direction → Nat
  | .client => h.requests + 1
  | .server => h.responses + 1

def methodFor (h : Http1) (side : Direction) (message : Message) :
    Option Bytes :=
  match side with
  | .client => some (message.method.getD [])
  | .server => (h.pending.get? (h.nextId .server)).bind Exchange.requestMethod

/-- `complete`: an exchange leaves the table when both messages are there. -/
def complete (h : Http1) (side : Direction) : Outcome Http1 Exchange String :=
  match h.active.get side with
  | none => .fail h unwrapNone
  | some active =>
    let h := { h with active := h.active.set side none }
    match h.pending.get? active.id with
    | none => .fail h unwrapNone
    | some exchange =>
      if (exchange.message side).isNone then .fail h unwrapNone
      else
        let finish := fun e : Exchange =>
          e.modifyMessage side fun m => { m with complete := true }
        let h := { h.modifyExchange active.id finish with
          responses :=
            if side = .server then active.id else h.responses }
        if (finish exchange).ready then
          ⟨{ h with pending := h.pending.erase active.id },
            [finish exchange], none⟩
        else .ok h

def completeTurn (h : Http1) (side : Direction) :
    Turn Http1 Exchange String :=
  match h.complete side with
  | ⟨h, out, none⟩ => .more h out
  | ⟨h, out, some e⟩ => .fail h out e

def enter (h : Http1) (side : Direction) (message : Message)
    (frame : Framing) : Http1 :=
  let id := h.nextId side
  let h := { h with active := h.active.set side (some ⟨id, frame⟩) }
  match side with
  | .client => { h with
      requests := id
      pending := h.pending.insert id
        { Exchange.new id with request := some message } }
  | .server => h.modifyExchange id fun e => { e with response := some message }

def switch (h : Http1) (side : Direction) (id : Nat) :
    Turn Http1 Exchange String :=
  match (h.pending.get? id).bind Exchange.request,
      (h.pending.get? id).bind Exchange.response with
  | some request, some response =>
    match negotiated request response with
    | .error e => .fail h [] e
    | .ok websocket =>
      match h.complete side, websocket with
      | ⟨h, out, some e⟩, _ => .fail h out e
      | ⟨h, out, none⟩, some config =>
        .wait { h with upgrade := some config } out
      | ⟨h, out, none⟩, none => .fail h out
          "protocol switched: tunnel/WebSocket/h2c decoding not implemented"
  | _, _ => .fail h [] unwrapNone

variable {δ ι : Type} (lib : Library δ ι) (limits : Limits)

/-- What a head leads to: a turn that is over, or the body of the message. -/
def acceptHead (h : Http1) (side : Direction) (length : Nat)
    (message : Message) : Except (Turn Http1 Exchange String) Http1 :=
  match h.methodFor side message with
  | none => .error (.fail h [] "response without captured request")
  | some method =>
    match framing message method (side == .client) with
    | .error e => .error (.fail h [] e)
    | .ok frame =>
      let id := h.nextId side
      let h := h.drop side length
      if isInformational side message then
        match h.pending.get? id with
        | none => .error (.fail h [] unwrapNone)
        | some exchange =>
          if 16 ≤ exchange.informational.length then
            .error (.fail h [] "informational response limit")
          else
            .error (.more (h.modifyExchange id fun e =>
              { e with informational := e.informational ++
                  [{ message with complete := true }] }) [])
      else if side == .client && decide (limits.pending ≤ h.pending.size)
      then .error (.fail h [] "pending exchange limit")
      else
        let h := h.enter side message frame
        if isTunnel side message method then .error (h.switch side id)
        else .ok h

def startTurn (h : Http1) (side : Direction) :
    Except (Turn Http1 Exchange String) Http1 :=
  if (h.buffers.get side).isEmpty then .error (.wait h [])
  else
    match headers lib limits side (h.buffers.get side) with
    | .error e => .error (.fail h [] e)
    | .ok none => .error (.wait h [])
    | .ok (some (length, message)) => h.acceptHead limits side length message

def takeBody (h : Http1) (side : Direction) (id n : Nat) (frame : Framing) :
    Http1 :=
  let bytes := (h.buffers.get side).take n
  { (h.modifyExchange id fun e =>
      e.modifyMessage side fun m => m.append bytes limits).drop side n with
    active := h.active.set side (some ⟨id, frame⟩) }

def skip (h : Http1) (side : Direction) (id n : Nat) (frame : Framing) :
    Http1 :=
  { h.drop side n with active := h.active.set side (some ⟨id, frame⟩) }

/-- What is there of a body with `left` bytes to come. -/
def takeTurn (h : Http1) (side : Direction) (id left : Nat)
    (frame : Nat → Framing) : Turn Http1 Exchange String :=
  let buffer := h.buffers.get side
  if buffer.isEmpty then .wait h []
  else
    let length := min left buffer.length
    .more (h.takeBody limits side id length (frame (left - length))) []

def inChunk (left : Nat) : Framing :=
  if left = 0 then .chunkEnd else .chunkData left

def chunkSizeTurn (h : Http1) (side : Direction) (id : Nat) :
    Turn Http1 Exchange String :=
  let buffer := h.buffers.get side
  match lib.parseChunkSize buffer with
  | .error _ => .fail h [] "invalid chunk size"
  | .incomplete =>
    if buffer.length > limits.headers then
      .fail h [] "chunk size line limit"
    else .wait h []
  | .complete length size =>
    if length > limits.headers then .fail h [] "chunk size line limit"
    else .more (h.skip side id length
      (if size = 0 then .trailers else .chunkData size)) []

def chunkEndTurn (h : Http1) (side : Direction) (id : Nat) :
    Turn Http1 Exchange String :=
  let buffer := h.buffers.get side
  if buffer.length < 2 then .wait h []
  else if buffer.take 2 ≠ [13, 10] then .fail h [] "invalid chunk terminator"
  else .more (h.skip side id 2 .chunkSize) []

def trailersTurn (h : Http1) (side : Direction) (id : Nat) :
    Turn Http1 Exchange String :=
  let buffer := h.buffers.get side
  match lib.parseHeaders limits.headerCount buffer with
  | .error e => .fail h [] ("trailers: " ++ e)
  | .incomplete =>
    if buffer.length > limits.headers then .fail h [] "trailer limit"
    else .wait h []
  | .complete length fields =>
    if length > limits.headers then .fail h [] "trailer limit"
    else
      completeTurn ((h.modifyExchange id fun e =>
        e.modifyMessage side fun m =>
          { m with trailers := lowerNames fields }).drop side length) side

def bodyTurn (h : Http1) (side : Direction) (active : Http1Active) :
    Turn Http1 Exchange String :=
  if ((h.pending.get? active.id).bind fun e => e.message side).isNone then
    .fail h [] unwrapNone
  else
    match active.framing with
    | .fixed left =>
      if left = 0 then h.completeTurn side
      else h.takeTurn limits side active.id left .fixed
    | .chunkData left => h.takeTurn limits side active.id left inChunk
    | .untilEof =>
      .wait (h.takeBody limits side active.id (h.buffers.get side).length
        .untilEof) []
    | .chunkSize => h.chunkSizeTurn lib limits side active.id
    | .chunkEnd => h.chunkEndTurn side active.id
    | .trailers => h.trailersTurn lib limits side active.id

/-- One turn of the loop of `feed`. -/
def turn (side : Direction) (h : Http1) : Turn Http1 Exchange String :=
  match h.active.get side with
  | some active => h.bodyTurn lib limits side active
  | none =>
    match h.startTurn lib limits side with
    | .error turn => turn
    | .ok h =>
      match h.active.get side with
      | some active => h.bodyTurn lib limits side active
      | none => .fail h [] unwrapNone

def Framing.isSpent (frame : Framing) : Bool :=
  frame = .fixed 0 || frame = .chunkData 0

def size (side : Direction) (h : Http1) : Nat :=
  2 * (h.buffers.get side).length +
    if (h.active.get side).any fun a => Framing.isSpent a.framing then 1 else 0

def extend (side : Direction) (h : Http1) (data : Bytes) : Http1 :=
  { h with buffers := h.buffers.modify side fun buffer => buffer ++ data }

def feed (h : Http1) (side : Direction) (data : Bytes) :
    Outcome Http1 Exchange String :=
  exhaust (turn lib limits side) (size side) (h.extend side data)

def eof (h : Http1) (side : Direction) (clean : Bool) :
    Outcome Http1 Exchange String :=
  let ended : Outcome Http1 Exchange String :=
    match h.active.get side with
    | none => .ok h
    | some active =>
      if active.framing = .untilEof ∧ clean then h.complete side
      else .fail h "incomplete HTTP/1 message at EOF"
  ended.bind fun h =>
    if (h.buffers.get side).isEmpty then .ok h
    else .fail h "incomplete HTTP/1 headers at EOF"

def drain (h : Http1) (reason : String) : List Exchange :=
  h.pending.values.map fun e => { e with problem := some reason }

/-- `take_upgrade`: the unread bytes go to the WebSocket parser. -/
def takeUpgrade (h : Http1) : Option (WsConfig × Sides Bytes) :=
  h.upgrade.map fun config => (config, h.buffers)

end Http1

end ProxyLane.Protocol
