import ProxyLane.Foundation.Incremental
import ProxyLane.Foundation.Table

/-!
# Messages and exchanges

Field names and values are octets (ISO-8859-1 text in the source).  The
libraries the analyzer is built on are a parameter: the HTTP/1 head parser,
the HPACK decoder, the inflater and the decoder of content codings.
-/

namespace ProxyLane.Protocol

open ProxyLane.Foundation

inductive Direction where
  | client
  | server
  deriving DecidableEq, Repr

def Direction.other : Direction → Direction
  | .client => .server
  | .server => .client

inductive ProtocolKind where
  | http1
  | h2
  | webSocket
  deriving DecidableEq, Repr

structure Sides (α : Type) where
  client : α
  server : α
  deriving DecidableEq, Repr

namespace Sides

variable {α : Type}

def get (sides : Sides α) : Direction → α
  | .client => sides.client
  | .server => sides.server

def set (sides : Sides α) (side : Direction) (a : α) : Sides α :=
  match side with
  | .client => { sides with client := a }
  | .server => { sides with server := a }

def modify (sides : Sides α) (side : Direction) (f : α → α) : Sides α :=
  sides.set side (f (sides.get side))

theorem get_set (sides : Sides α) (side s : Direction) (a : α) :
    (sides.set side a).get s = if s = side then a else sides.get s := by
  cases side <;> cases s <;> rfl

@[simp] theorem get_set_self (sides : Sides α) (side : Direction) (a : α) :
    (sides.set side a).get side = a := by
  cases side <;> rfl

theorem get_modify (sides : Sides α) (side s : Direction) (f : α → α) :
    (sides.modify side f).get s =
      if s = side then f (sides.get s) else sides.get s := by
  cases side <;> cases s <;> rfl

@[simp] theorem get_modify_self (sides : Sides α) (side : Direction)
    (f : α → α) : (sides.modify side f).get side = f (sides.get side) := by
  cases side <;> rfl

@[simp] theorem get_modify_other (sides : Sides α) (side : Direction)
    (f : α → α) :
    (sides.modify side f).get side.other = sides.get side.other := by
  cases side <;> rfl

@[simp] theorem modify_modify (sides : Sides α) (side : Direction)
    (f g : α → α) :
    (sides.modify side f).modify side g = sides.modify side (g ∘ f) := by
  cases side <;> rfl

@[simp] theorem set_get (sides : Sides α) (side : Direction) :
    sides.set side (sides.get side) = sides := by
  cases side <;> rfl

@[ext] theorem ext {a b : Sides α} (h : ∀ side, a.get side = b.get side) :
    a = b := by
  cases a
  cases b
  have hc := h .client
  have hs := h .server
  simp only [get] at hc hs
  rw [hc, hs]

end Sides

@[simp] theorem Direction.other_ne (side : Direction) : side.other ≠ side := by
  cases side <;> decide

@[simp] theorem Direction.other_other (side : Direction) :
    side.other.other = side := by
  cases side <;> rfl

abbrev Headers := List (Bytes × Bytes)

structure Limits where
  headers : Nat
  headerCount : Nat
  encodedBody : Nat
  decodedBody : Nat
  pending : Nat
  frame : Nat
  hpackTable : Nat
  deriving DecidableEq, Repr

/-- The head of a message as `httparse` reports it. -/
structure Head where
  method : Option Bytes
  target : Option Bytes
  status : Option Nat
  fields : Headers
  deriving DecidableEq, Repr

/-- What the analyzer uses of its libraries, with the state of an HPACK
decoder and of an inflater. -/
structure Library (δ ι : Type) where
  parseRequest : Nat → Bytes → ParseResult Head
  parseResponse : Nat → Bytes → ParseResult Head
  parseHeaders : Nat → Bytes → ParseResult Headers
  parseChunkSize : Bytes → ParseResult Nat
  hpackInit : δ
  /-- One representation: the new table, what is left, and its fields. -/
  decodeExact : δ → Bytes → Except String (δ × Bytes × Headers)
  setMaxDynamicSize : δ → Nat → δ
  inflateInit : ι
  /-- A piece of input with a sync flush: what comes out, and an error. -/
  inflate : ι → Bytes → ι × Bytes × Option String
  /-- `decode::body` of the content codings, with its limit. -/
  decodeBody : Headers → Bytes → Nat → Except String Bytes

def utf8Tail (byte : UInt8) : Option (List (UInt8 × UInt8)) :=
  if byte < 0x80 then some []
  else if 0xc2 ≤ byte ∧ byte ≤ 0xdf then some [(0x80, 0xbf)]
  else if byte = 0xe0 then some [(0xa0, 0xbf), (0x80, 0xbf)]
  else if byte = 0xed then some [(0x80, 0x9f), (0x80, 0xbf)]
  else if 0xe1 ≤ byte ∧ byte ≤ 0xef then some [(0x80, 0xbf), (0x80, 0xbf)]
  else if byte = 0xf0 then some [(0x90, 0xbf), (0x80, 0xbf), (0x80, 0xbf)]
  else if 0xf1 ≤ byte ∧ byte ≤ 0xf3 then
    some [(0x80, 0xbf), (0x80, 0xbf), (0x80, 0xbf)]
  else if byte = 0xf4 then some [(0x80, 0x8f), (0x80, 0xbf), (0x80, 0xbf)]
  else none

def utf8Step (state : Option (List (UInt8 × UInt8))) (byte : UInt8) :
    Option (List (UInt8 × UInt8)) :=
  match state with
  | none => none
  | some [] => utf8Tail byte
  | some ((low, high) :: rest) =>
    if low ≤ byte ∧ byte ≤ high then some rest else none

/-- `String::from_utf8` succeeds. -/
def isUtf8 (bytes : Bytes) : Bool := bytes.foldl utf8Step (some []) == some []

def isAsciiDigit (byte : UInt8) : Bool := 48 ≤ byte && byte ≤ 57

def isAsciiUppercase (byte : UInt8) : Bool := 65 ≤ byte && byte ≤ 90

/-- `str::trim` on ISO-8859-1 text: the Unicode white space below 256. -/
def isTrimSpace (byte : UInt8) : Bool :=
  (9 ≤ byte && byte ≤ 13) || byte == 32 || byte == 0x85 || byte == 0xa0

def trim (text : Bytes) : Bytes :=
  ((text.dropWhile isTrimSpace).reverse.dropWhile isTrimSpace).reverse

/-- `str::split` at one character. -/
def splitOn (separator : UInt8) : Bytes → List Bytes
  | [] => [[]]
  | byte :: rest =>
    if byte = separator then [] :: splitOn separator rest
    else
      match splitOn separator rest with
      | [] => [[byte]]
      | part :: parts => (byte :: part) :: parts

def decimal (digits : Bytes) : Nat :=
  digits.foldl (fun n digit => n * 10 + (digit.toNat - 48)) 0

def values (headers : Headers) (name : Bytes) : List Bytes :=
  (headers.filter fun field => sameText field.1 name).map Prod.snd

def tokens (headers : Headers) (name : Bytes) : List Bytes :=
  ((values headers name).flatMap (splitOn 44)).map fun s => foldCase (trim s)

/-- The loop of `content_length` over the comma-separated values. -/
def contentLengthFrom (result : Option Nat) :
    List Bytes → Except String (Option Nat)
  | [] => .ok result
  | value :: rest =>
    let value := trim value
    if value.isEmpty || !value.all isAsciiDigit then
      .error "invalid Content-Length"
    else if 2 ^ 64 ≤ decimal value then .error "Content-Length overflow"
    else if result.any fun old => old != decimal value then
      .error "conflicting Content-Length"
    else contentLengthFrom (some (decimal value)) rest

def contentLength (headers : Headers) : Except String (Option Nat) :=
  contentLengthFrom none
    ((values headers (ascii "content-length")).flatMap (splitOn 44))

structure Message where
  method : Option Bytes
  target : Option Bytes
  status : Option Nat
  headers : Headers
  trailers : Headers
  bodyBytes : Nat
  complete : Bool
  body : Bytes
  decoded : Option Bytes
  text : Option Bytes
  decoding : String
  deriving DecidableEq, Repr

namespace Message

def default : Message :=
  ⟨none, none, none, [], [], 0, false, [], none, none, ""⟩

/-- `append`: every byte is counted, the first `encoded_body` are kept. -/
def append (message : Message) (bytes : Bytes) (limits : Limits) : Message :=
  { message with
    bodyBytes := message.bodyBytes + bytes.length
    body := message.body ++ bytes.take (limits.encodedBody - message.body.length) }

def isBodylessStatus (message : Message) : Bool :=
  message.status.any fun s => s < 200 || s == 204 || s == 304

end Message

structure Exchange where
  id : Nat
  request : Option Message
  response : Option Message
  informational : List Message
  problem : Option String
  deriving DecidableEq, Repr

namespace Exchange

def new (id : Nat) : Exchange := ⟨id, none, none, [], none⟩

def message (exchange : Exchange) : Direction → Option Message
  | .client => exchange.request
  | .server => exchange.response

def setMessage (exchange : Exchange) (side : Direction) (m : Message) :
    Exchange :=
  match side with
  | .client => { exchange with request := some m }
  | .server => { exchange with response := some m }

def modifyMessage (exchange : Exchange) (side : Direction)
    (f : Message → Message) : Exchange :=
  match side with
  | .client => { exchange with request := exchange.request.map f }
  | .server => { exchange with response := exchange.response.map f }

def requestMethod (exchange : Exchange) : Option Bytes :=
  exchange.request.bind Message.method

def ready (exchange : Exchange) : Bool :=
  exchange.request.any Message.complete && exchange.response.any Message.complete

end Exchange

section Finish

variable {δ ι : Type} (lib : Library δ ι) (limits : Limits)

/-- `Message::finish` without a payload cache. -/
def Message.finish (message : Message) : Message :=
  if !message.complete then
    { message with decoding := "skipped: incomplete message" }
  else if message.bodyBytes != message.body.length then
    { message with decoding := "skipped: encoded body limit" }
  else
    match lib.decodeBody message.headers message.body limits.decodedBody with
    | .ok bytes =>
      { message with
        text := if isUtf8 bytes then some bytes else none
        decoded := some bytes
        decoding := "ok" }
    | .error error => { message with decoding := "failed: " ++ error }

def Message.finishResponse (head : Bool) (message : Message) : Message :=
  if message.complete && (head || message.isBodylessStatus) then
    { message with decoding := "not applicable: bodyless response" }
  else message.finish lib limits

def Exchange.finish (exchange : Exchange) : Exchange :=
  let head := exchange.requestMethod == some (ascii "HEAD")
  { exchange with
    request := exchange.request.map (Message.finish lib limits)
    response := exchange.response.map (Message.finishResponse lib limits head)
    informational :=
      exchange.informational.map (Message.finishResponse lib limits head) }

end Finish

/-- The static indices of `GET`, `http` and `/`, and the table size. -/
def staticLibrary : Library Nat Unit where
  parseRequest _ _ := .incomplete
  parseResponse _ _ := .incomplete
  parseHeaders _ _ := .incomplete
  parseChunkSize _ := .incomplete
  hpackInit := 4096
  decodeExact size
    | 0x82 :: rest => .ok (size, rest, [(ascii ":method", ascii "GET")])
    | 0x86 :: rest => .ok (size, rest, [(ascii ":scheme", ascii "http")])
    | 0x84 :: rest => .ok (size, rest, [(ascii ":path", ascii "/")])
    | _ => .error "invalid index"
  setMaxDynamicSize _ size := size
  inflateInit := ()
  inflate _ _ := ((), [], none)
  decodeBody _ body _ := .ok body

def smallLimits : Limits := ⟨256, 16, 1024, 1024, 4, 16384, 65536⟩

end ProxyLane.Protocol
