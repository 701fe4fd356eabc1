import ProxyLane.Protocol.Model

/-!
# HTTP/2

The frame layer of the analyzer: header blocks are decoded in wire order with
one HPACK table for each direction, streams are kept until both of their
messages are complete, and a reset stream leaves a tombstone.
-/

namespace ProxyLane.Protocol

open ProxyLane.Foundation

namespace HpackGuard

def continuation : List Nat → Nat → Bytes → Except String (Nat × Bytes)
  | [], _, _ => .error "HPACK integer limit"
  | _ :: _, _, [] => .error "incomplete HPACK integer"
  | shift :: shifts, value, next :: rest =>
    let value := value + (next &&& 127).toNat * 2 ^ shift
    if next &&& 128 = 0 then .ok (value, rest)
    else continuation shifts value rest

def integer (bits : Nat) : Bytes → Except String (Nat × Bytes)
  | [] => .error "incomplete HPACK integer"
  | first :: rest =>
    let value := first.toNat % 2 ^ bits
    if value < 2 ^ bits - 1 then .ok (value, rest)
    else continuation [0, 7, 14, 21] value rest

def string (input : Bytes) : Except String Bytes :=
  match integer 7 input with
  | .error e => .error e
  | .ok (length, rest) =>
    if length > rest.length then .error "incomplete HPACK string"
    else .ok (rest.drop length)

def representation (seenHeader : Bool) (input : Bytes) :
    Except String (Bool × Bytes) :=
  match input with
  | [] => .ok (seenHeader, [])
  | first :: _ =>
    if first &&& 128 ≠ 0 then
      (integer 7 input).map fun (_, rest) => (true, rest)
    else if first &&& 0xe0 = 0x20 then
      if seenHeader then .error "late HPACK table size update"
      else (integer 5 input).map fun (_, rest) => (seenHeader, rest)
    else
      match integer (if first &&& 64 ≠ 0 then 6 else 4) input with
      | .error e => .error e
      | .ok (index, rest) =>
        match if index = 0 then string rest else .ok rest with
        | .error e => .error e
        | .ok rest => (string rest).map fun rest => (true, rest)

def validateFrom : Nat → Bool → Bytes → Except String Unit
  | _, _, [] => .ok ()
  | 0, _, _ => .ok ()
  | fuel + 1, seenHeader, input =>
    match representation seenHeader input with
    | .error e => .error e
    | .ok (seenHeader, rest) => validateFrom fuel seenHeader rest

def validate (input : Bytes) : Except String Unit :=
  validateFrom input.length false input

end HpackGuard

def addFields (limits : Limits) (size : Nat) (fields : Headers) :
    Headers → Except String (Nat × Headers)
  | [] => .ok (size, fields)
  | (name, value) :: rest =>
    let size := size + (name.length + value.length + 32)
    if size > limits.headers || fields.length ≥ limits.headerCount then
      .error "decoded HTTP/2 header limit"
    else if !isUtf8 name then .error "non-ASCII HTTP/2 header name"
    else addFields limits size (fields ++ [(name, value)]) rest

def isConnectionSpecific (name value : Bytes) : Bool :=
  name == ascii "connection" || name == ascii "proxy-connection" ||
    name == ascii "keep-alive" || name == ascii "transfer-encoding" ||
    name == ascii "upgrade" ||
    (name == ascii "te" && !sameText value (ascii "trailers"))

def isInvalidField (name value : Bytes) : Bool :=
  name.isEmpty ||
    name.any (fun c => isAsciiUppercase c || c ≤ 32 || c ≥ 127) ||
    value.any (fun c => c == 13 || c == 10 || c == 0)

def isAllowedPseudo (client : Bool) (name : Bytes) : Bool :=
  if client then
    name == ascii ":method" || name == ascii ":scheme" ||
      name == ascii ":authority" || name == ascii ":path"
  else name == ascii ":status"

/-- The loop of `validate`; `pseudo` are the pseudo-headers seen. -/
def validateFields (trailers client : Bool) :
    Bool → List Bytes → Headers → Except String Unit
  | _, _, [] => .ok ()
  | ordinary, pseudo, (name, value) :: rest =>
    if isInvalidField name value then .error "invalid HTTP/2 header"
    else if name.head? == some 58 then
      if trailers || ordinary || pseudo.contains name then
        .error "invalid HTTP/2 pseudo-header ordering/duplicate"
      else if !isAllowedPseudo client name then
        .error "unsupported HTTP/2 pseudo-header"
      else if isConnectionSpecific name value then
        .error "connection-specific HTTP/2 header"
      else validateFields trailers client ordinary (name :: pseudo) rest
    else if isConnectionSpecific name value then
      .error "connection-specific HTTP/2 header"
    else validateFields trailers client true pseudo rest

def validate (fields : Headers) (trailers client : Bool) :
    Except String Unit :=
  match validateFields trailers client false [] fields with
  | .error e => .error e
  | .ok () => (contentLength fields).map fun _ => ()

def getField (fields : Headers) (name : Bytes) : Option Bytes :=
  (fields.find? fun field => field.1 == name).map Prod.snd

/-- The message a first header block describes. -/
def makeMessage (side : Direction) (fields : Headers) :
    Except String Message :=
  match side with
  | .client =>
    match (getField fields (ascii ":method")).filter (!·.isEmpty) with
    | none => .error "missing :method"
    | some method =>
      if method = ascii "CONNECT" then
        .error "HTTP/2 CONNECT not implemented"
      else
        match (getField fields (ascii ":path")).filter (!·.isEmpty) with
        | none => .error "missing :path"
        | some target =>
          if (getField fields (ascii ":scheme")).isNone then
            .error "missing :scheme"
          else .ok { Message.default with
            method := some method
            target := some target
            headers := fields }
  | .server =>
    match getField fields (ascii ":status") with
    | none => .error "missing :status"
    | some status =>
      if status.length != 3 || !status.all isAsciiDigit then
        .error "invalid :status"
      else
        let code := decimal status
        if code < 100 || code == 101 || code > 599 then
          .error "invalid :status"
        else .ok { Message.default with
          status := some code
          headers := fields }

structure Block where
  stream : Nat
  endStream : Bool
  bytes : Bytes
  deriving DecidableEq, Repr

structure Http2Side (δ : Type) where
  buffer : Bytes
  decoder : δ
  block : Option Block
  settings : List (Option Nat)
  deriving DecidableEq, Repr

/-- `opened` is not in the source: it remembers every stream ever inserted. -/
structure Http2 (δ : Type) where
  sides : Sides (Http2Side δ)
  preface : Bool
  streams : Table Exchange
  resets : Table Direction
  highestStream : Nat
  goaway : Option Nat
  goawayReason : Option String
  opened : List Nat
  deriving DecidableEq

structure Frame where
  kind : UInt8
  flags : UInt8
  stream : Nat
  payload : Bytes
  deriving DecidableEq, Repr

def prefaceBytes : Bytes := ascii "PRI * HTTP/2.0\r\n\r\nSM\r\n\r\n"

def sideName : Direction → String
  | .client => "application"
  | .server => "upstream"

def unpad (payload : Bytes) (flags : UInt8) : Except String Bytes :=
  if flags &&& 8 ≠ 0 then
    match payload with
    | [] => .error "missing HTTP/2 padding length"
    | pad :: payload =>
      if pad.toNat > payload.length then .error "invalid HTTP/2 padding"
      else .ok (payload.take (payload.length - pad.toNat))
  else .ok payload

def headersFragment (payload : Bytes) (flags : UInt8) : Except String Bytes :=
  match unpad payload flags with
  | .error e => .error e
  | .ok data =>
    if flags &&& 32 ≠ 0 then
      if data.length < 5 then .error "incomplete HEADERS priority"
      else .ok (data.drop 5)
    else .ok data

def settingsSize (limits : Limits) :
    Bytes → Option Nat → Except String (Option Nat)
  | a :: b :: c :: d :: e :: f :: rest, size =>
    if a = 0 ∧ b = 1 then
      let value := beNat [c, d, e, f]
      if value > limits.hpackTable then .error "HPACK table limit"
      else settingsSize limits rest (some value)
    else settingsSize limits rest size
  | _, size => .ok size

namespace Http2

section

variable {δ ι : Type} (lib : Library δ ι) (limits : Limits)

def new : Http2 δ where
  sides :=
    ⟨⟨[], lib.hpackInit, none, []⟩, ⟨[], lib.hpackInit, none, []⟩⟩
  preface := false
  streams := .empty
  resets := .empty
  highestStream := 0
  goaway := none
  goawayReason := none
  opened := []

def modifySide (h : Http2 δ) (side : Direction)
    (f : Http2Side δ → Http2Side δ) : Http2 δ :=
  { h with sides := h.sides.modify side f }

def modifyStream (h : Http2 δ) (stream : Nat) (f : Exchange → Exchange) :
    Http2 δ :=
  { h with streams := h.streams.modify stream f }

def isReset (h : Http2 δ) (side : Direction) (stream : Nat) : Bool :=
  (h.resets.get? stream).any (· != side)

def removeStream (h : Http2 δ) (stream : Nat) (exchange : Exchange) :
    Outcome (Http2 δ) Exchange String :=
  ⟨{ h with streams := h.streams.erase stream }, [exchange], none⟩

def endStream (h : Http2 δ) (side : Direction) (stream : Nat) :
    Outcome (Http2 δ) Exchange String :=
  match h.streams.get? stream with
  | none => .fail h "called `Option::unwrap()` on a `None` value"
  | some exchange =>
    match exchange.message side with
    | none => .fail h "called `Option::unwrap()` on a `None` value"
    | some message =>
      let bodyless := side == .server &&
        (exchange.requestMethod == some (ascii "HEAD") ||
          message.status == some 304 || message.status == some 204)
      match if bodyless then .ok none else contentLength message.headers with
      | .error e => .fail h e
      | .ok length =>
        if length.any (· != message.bodyBytes) then
          .fail h "HTTP/2 Content-Length mismatch"
        else
          let exchange := exchange.setMessage side
            { message with complete := true }
          let h := h.modifyStream stream fun _ => exchange
          if exchange.ready ||
              (side == .client && h.goaway.any (stream > ·)) then
            h.removeStream stream exchange
          else .ok h

def dataFrame (h : Http2 δ) (side : Direction) (f : Frame) :
    Outcome (Http2 δ) Exchange String :=
  match unpad f.payload f.flags with
  | .error e => .fail h e
  | .ok data =>
    if h.isReset side f.stream then .ok h
    else
      match h.streams.get? f.stream with
      | none => .fail h "DATA on unknown HTTP/2 stream"
      | some exchange =>
        match exchange.message side with
        | none => .fail h "DATA before headers"
        | some message =>
          if message.complete then .fail h "DATA after END_STREAM"
          else if side == .server &&
              (exchange.requestMethod == some (ascii "HEAD") ||
                message.status == some 204 ||
                message.status == some 304) && !data.isEmpty then
            .fail h "DATA on bodyless response"
          else
            let h := h.modifyStream f.stream fun exchange =>
              exchange.setMessage side (message.append data limits)
            if f.flags &&& 1 ≠ 0 then h.endStream side f.stream
            else .ok h

/-- The decoding loop of `headers`.  The fuel is the length of the block, of
which each representation takes at least one octet. -/
def decodeFields : Nat → δ → Bytes → Nat → Headers → δ × Except String Headers
  | _, decoder, [], _, fields => (decoder, .ok fields)
  | 0, decoder, _, _, _ => (decoder, .error "HPACK: no progress")
  | fuel + 1, decoder, bytes, size, fields =>
    match lib.decodeExact decoder bytes with
    | .error e => (decoder, .error ("HPACK: " ++ e))
    | .ok (decoder, rest, one) =>
      match addFields limits size fields one with
      | .error e => (decoder, .error e)
      | .ok (size, fields) => decodeFields fuel decoder rest size fields

def openStream (h : Http2 δ) (side : Direction) (stream : Nat) :
    Outcome (Http2 δ) Exchange String :=
  if side == .client && !h.streams.contains stream then
    if stream ≤ h.highestStream then .fail h "reused/closed HTTP/2 stream"
    else if h.streams.size ≥ limits.pending then
      .fail h "pending exchange limit"
    else
      let exchange := { Exchange.new stream with
        problem :=
          if h.goaway.any (stream > ·) then
            some "GOAWAY: request in flight was not processed"
          else none }
      .ok { h with
        highestStream := stream
        streams := h.streams.insert stream exchange
        opened := h.opened ++ [stream] }
  else .ok h

/-- Stores a decoded field list as head, trailers or informational head. -/
def storeFields (h : Http2 δ) (side : Direction) (block : Block)
    (fields : Headers) : Outcome (Http2 δ) Exchange String :=
  let finish := fun h : Http2 δ =>
    if block.endStream then h.endStream side block.stream else .ok h
  match h.streams.get? block.stream with
  | none => .fail h "response without captured request"
  | some exchange =>
    match validate fields (exchange.message side).isSome (side == .client) with
    | .error e => .fail h e
    | .ok () =>
      match exchange.message side with
      | some message =>
        if message.complete || !block.endStream then
          .fail h "invalid HTTP/2 trailers/END_STREAM"
        else
          finish (h.modifyStream block.stream fun exchange =>
            exchange.setMessage side { message with trailers := fields })
      | none =>
        match makeMessage side fields with
        | .error e => .fail h e
        | .ok message =>
          if message.status.any (· < 200) then
            if block.endStream then
              .fail h "informational response with END_STREAM"
            else if exchange.informational.length ≥ 16 then
              .fail h "informational response limit"
            else
              .ok (h.modifyStream block.stream fun exchange =>
                { exchange with informational :=
                    exchange.informational ++
                      [{ message with complete := true }] })
          else
            finish (h.modifyStream block.stream fun exchange =>
              exchange.setMessage side message)

/-- `headers`: the block is decoded whatever becomes of its stream. -/
def headers (h : Http2 δ) (side : Direction) (block : Block) :
    Outcome (Http2 δ) Exchange String :=
  let h := h.modifySide side fun s => { s with block := none }
  match HpackGuard.validate block.bytes with
  | .error e => .fail h e
  | .ok () =>
    let (decoder, result) := decodeFields lib limits block.bytes.length
      (h.sides.get side).decoder block.bytes 0 []
    let h := h.modifySide side fun s => { s with decoder := decoder }
    match result with
    | .error e => .fail h e
    | .ok fields =>
      if h.isReset side block.stream then .ok h
      else
        (h.openStream limits side block.stream).bind fun h =>
          h.storeFields side block fields

def blockFrame (h : Http2 δ) (side : Direction) (f : Frame) (block : Block) :
    Outcome (Http2 δ) Exchange String :=
  let h := h.modifySide side fun s => { s with block := some block }
  if f.flags &&& 4 ≠ 0 then headers lib limits h side block else .ok h

def headersFrame (h : Http2 δ) (side : Direction) (f : Frame) :
    Outcome (Http2 δ) Exchange String :=
  if f.stream = 0 ∨ f.stream % 2 = 0 then
    .fail h "invalid/unsupported HTTP/2 stream ID"
  else
    match headersFragment f.payload f.flags with
    | .error e => .fail h e
    | .ok data =>
      if data.length > limits.headers then .fail h "HPACK block limit"
      else blockFrame lib limits h side f ⟨f.stream, f.flags &&& 1 ≠ 0, data⟩

def continuationFrame (h : Http2 δ) (side : Direction) (f : Frame) :
    Outcome (Http2 δ) Exchange String :=
  match (h.sides.get side).block with
  | none => .fail h "unexpected CONTINUATION"
  | some block =>
    if block.bytes.length + f.payload.length > limits.headers then
      .fail h "HPACK block limit"
    else
      blockFrame lib limits h side f
        { block with bytes := block.bytes ++ f.payload }

def settingsFrame (h : Http2 δ) (side : Direction) (f : Frame) :
    Outcome (Http2 δ) Exchange String :=
  if f.stream ≠ 0 then .fail h "SETTINGS on nonzero stream"
  else if f.flags &&& 1 ≠ 0 then
    if !f.payload.isEmpty then .fail h "nonempty SETTINGS ACK"
    else
      match (h.sides.get side).settings with
      | [] => .fail h "SETTINGS ACK without captured SETTINGS"
      | size :: settings =>
        .ok (h.modifySide side fun s =>
          { s with
            settings := settings
            decoder :=
              match size with
              | some size => lib.setMaxDynamicSize s.decoder size
              | none => s.decoder })
  else if f.payload.length % 6 ≠ 0 then .fail h "invalid SETTINGS length"
  else
    match settingsSize limits f.payload none with
    | .error e => .fail h e
    | .ok size =>
      if (h.sides.get side.other).settings.length ≥ 16 then
        .fail h "unacknowledged SETTINGS limit"
      else
        .ok (h.modifySide side.other fun s =>
          { s with settings := s.settings ++ [size] })

def recordReset (h : Http2 δ) (side : Direction) (stream : Nat) : Http2 δ :=
  if stream ≤ h.highestStream then
    let resets :=
      if h.resets.contains stream then h.resets else h.resets.insert stream side
    { h with resets := if resets.size > 1024 then resets.popFirst else resets }
  else h

def rstStreamFrame (h : Http2 δ) (side : Direction) (f : Frame) :
    Outcome (Http2 δ) Exchange String :=
  if f.stream = 0 ∨ f.payload.length ≠ 4 then .fail h "invalid RST_STREAM"
  else
    let h := h.recordReset side f.stream
    match h.streams.get? f.stream with
    | none => .ok h
    | some exchange =>
      h.removeStream f.stream { exchange with
        problem := some ("RST_STREAM " ++ toString (beNat f.payload) ++
          " from " ++ sideName side) }

def refuseStreams (last code : Nat) :
    List Nat → Http2 δ → Outcome (Http2 δ) Exchange String
  | [], h => .ok h
  | id :: ids, h =>
    if id ≤ last then refuseStreams last code ids h
    else
      match h.streams.get? id with
      | none => .fail h "called `Option::unwrap()` on a `None` value"
      | some exchange =>
        let exchange := { exchange with
          problem := some ("GOAWAY " ++ toString code ++
            ": stream not processed") }
        let h := h.modifyStream id fun _ => exchange
        if exchange.request.any Message.complete then
          (h.removeStream id exchange).bind (refuseStreams last code ids)
        else refuseStreams last code ids h

def goawayFrame (h : Http2 δ) (side : Direction) (f : Frame) :
    Outcome (Http2 δ) Exchange String :=
  if f.stream ≠ 0 ∨ f.payload.length < 8 then .fail h "invalid GOAWAY"
  else
    let last := beNat (f.payload.take 4) % 2 ^ 31
    let code := beNat ((f.payload.drop 4).take 4)
    let reason := "HTTP/2 GOAWAY " ++ toString code ++ " from " ++
      sideName side ++ " (last stream " ++ toString last ++ ")"
    match side with
    | .client => .ok { h with goawayReason := some reason }
    | .server =>
      let lowest := (h.goaway.map (min · last)).getD last
      refuseStreams last code h.streams.keys
        { h with goawayReason := some reason, goaway := some lowest }

def isInterleaved (h : Http2 δ) (side : Direction) (f : Frame) : Bool :=
  (h.sides.get side).block.any fun block =>
    f.kind != 9 || f.stream != block.stream

def frame (h : Http2 δ) (side : Direction) (f : Frame) :
    Outcome (Http2 δ) Exchange String :=
  if h.isInterleaved side f then
    .fail h "interleaved/mismatched HTTP/2 CONTINUATION"
  else if f.kind = 0 then h.dataFrame limits side f
  else if f.kind = 1 then headersFrame lib limits h side f
  else if f.kind = 9 then continuationFrame lib limits h side f
  else if f.kind = 4 then settingsFrame lib limits h side f
  else if f.kind = 3 then h.rstStreamFrame side f
  else if f.kind = 7 then h.goawayFrame side f
  else if f.kind = 5 then .fail h "HTTP/2 server push not implemented"
  else if f.kind = 2 ∧ (f.stream = 0 ∨ f.payload.length ≠ 5) then
    .fail h "invalid PRIORITY"
  else if f.kind = 6 ∧ (f.stream ≠ 0 ∨ f.payload.length ≠ 8) then
    .fail h "invalid PING"
  else if f.kind = 8 ∧ f.payload.length ≠ 4 then
    .fail h "invalid WINDOW_UPDATE"
  else .ok h

theorem frame_in_turn {h : Http2 δ} {side : Direction} {f : Frame}
    (hok : (frame lib limits h side f).error = none) :
    ¬ h.isInterleaved side f = true := by
  intro hinter
  rw [frame, if_pos hinter] at hok
  cases hok

def parseFrame (buffer : Bytes) : ParseResult Frame :=
  if buffer.length < 9 then .incomplete
  else
    let length := beNat (buffer.take 3)
    if length > limits.frame then .error "HTTP/2 frame limit"
    else if buffer.length < length + 9 then .incomplete
    else
      .complete (length + 9)
        { kind := buffer[3]?.getD 0
          flags := buffer[4]?.getD 0
          stream := beNat ((buffer.drop 5).take 4) % 2 ^ 31
          payload := (buffer.drop 9).take length }

def drop (h : Http2 δ) (side : Direction) (n : Nat) : Http2 δ :=
  h.modifySide side fun s => { s with buffer := s.buffer.drop n }

/-- One turn of the loop of `feed`; the client preface comes before it. -/
def turn (side : Direction) (h : Http2 δ) : Turn (Http2 δ) Exchange String :=
  let buffer := (h.sides.get side).buffer
  if side == .client && !h.preface then
    let length := min buffer.length prefaceBytes.length
    if buffer.take length != prefaceBytes.take length then
      .fail h [] ("missing HTTP/2 client preface " ++
        "(capture must start at connection beginning)")
    else if buffer.length < prefaceBytes.length then .wait h []
    else .more { h.drop side prefaceBytes.length with preface := true } []
  else
    match parseFrame limits buffer with
    | .incomplete => .wait h []
    | .error e => .fail h [] e
    | .complete length f =>
      let r := frame lib limits (h.drop side length) side f
      match r.error with
      | none => .more r.state r.out
      | some e => .fail r.state r.out e

def extend (side : Direction) (h : Http2 δ) (data : Bytes) : Http2 δ :=
  h.modifySide side fun s => { s with buffer := s.buffer ++ data }

def bufferSize (side : Direction) (h : Http2 δ) : Nat :=
  (h.sides.get side).buffer.length

def feed (h : Http2 δ) (side : Direction) (data : Bytes) :
    Outcome (Http2 δ) Exchange String :=
  exhaust (turn lib limits side) (bufferSize side) (extend side h data)

def eof (h : Http2 δ) (side : Direction) :
    Outcome (Http2 δ) Exchange String :=
  if !(h.sides.get side).buffer.isEmpty || (h.sides.get side).block.isSome then
    .fail h "incomplete HTTP/2 frame/header block at EOF"
  else .ok h

/-- `drain`: every pending stream, in order, with the reason. -/
def drain (h : Http2 δ) (reason : String) : List Exchange :=
  let reason :=
    match h.goawayReason with
    | some goaway => goaway ++ "; " ++ reason
    | none => reason
  h.streams.values.map fun exchange => { exchange with problem := some reason }

variable {limits}

theorem parseFrame_complete {buffer : Bytes} {n : Nat} {f : Frame}
    (h : parseFrame limits buffer = .complete n f) :
    9 ≤ n ∧ n ≤ buffer.length := by
  unfold parseFrame at h
  split at h
  · cases h
  · dsimp only at h
    split at h
    · cases h
    · split at h
      · cases h
      · cases h
        omega

theorem parseFrame_append {buffer : Bytes} (y : Bytes)
    (h : parseFrame limits buffer ≠ .incomplete) :
    parseFrame limits (buffer ++ y) = parseFrame limits buffer := by
  have hlong : ¬ buffer.length < 9 := by
    intro hlt
    exact h (if_pos hlt)
  have htake : (buffer ++ y).take 3 = buffer.take 3 :=
    List.take_append_of_le_length (by omega)
  unfold parseFrame at h ⊢
  rw [if_neg hlong] at h
  rw [if_neg hlong, if_neg (by rw [List.length_append]; omega), htake]
  dsimp only at h ⊢
  split
  · rfl
  · rw [if_neg ‹_›] at h
    split at h
    case isTrue => exact absurd rfl h
    case isFalse hfull =>
      rw [if_neg hfull, if_neg (by rw [List.length_append]; omega)]
      rw [List.getElem?_append_left (by omega),
        List.getElem?_append_left (by omega),
        List.drop_append_of_le_length (by omega),
        List.drop_append_of_le_length (by omega),
        List.take_append_of_le_length (by rw [List.length_drop]; omega),
        List.take_append_of_le_length (by rw [List.length_drop]; omega)]

variable (limits)

@[simp] theorem buffer_drop (h : Http2 δ) (side : Direction) (n : Nat) :
    ((h.drop side n).sides.get side).buffer = (h.sides.get side).buffer.drop n := by
  simp [drop, modifySide]

end

end Http2

end ProxyLane.Protocol
