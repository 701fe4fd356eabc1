import Mathlib.Data.Prod.Lex
import Mathlib.Order.WithBot
import ProxyLane.Foundation.Json

/-!
# The list index of a recording

One line for every summary of a session or connection, numbered and with a
checksum, behind a header and before an end marker.  Of the lines with one key
the last one counts.
-/

namespace ProxyLane.Recording

open ProxyLane.Foundation

def lineLimit : Nat := 128 * 1024

def newline : UInt8 := 10

def hex16 (n : UInt64) : String :=
  let digits := Nat.toDigits 16 n.toNat
  String.ofList (List.replicate (16 - digits.length) '0' ++ digits)

def checksum (bytes : Bytes) : String :=
  hex16 (bytes.foldl (fun h b => (h ^^^ b.toUInt64) * 0x100000001b3)
    0xcbf29ce484222325)

def envelope (lib : Serde) (sequence : Nat) (value : Json) : Json :=
  .object [("sequence", .num sequence),
    ("checksum", .str (checksum (lib.print value))), ("record", value)]

def line (lib : Serde) (sequence : Nat) (value : Json) :
    Except String Bytes :=
  let bytes := lib.print (envelope lib sequence value) ++ [newline]
  if lineLimit < bytes.length then
    .error "recording list index row exceeds limit"
  else .ok bytes

def decode (lib : Serde) (bytes : Bytes) (sequence : Nat) :
    Except String Json :=
  if bytes.getLast? ≠ some newline then .error "incomplete index tail"
  else
    match lib.parse bytes with
    | none => .error "invalid index line"
    | some v =>
      match v.get? "record" with
      | none => .error "missing index record"
      | some record =>
        if !(v.get "sequence").isNum sequence ||
            !(v.get "checksum").isStr (checksum (lib.print record)) then
          .error "index sequence/checksum mismatch"
        else .ok record

def upToNewline : Bytes → Bytes
  | [] => []
  | b :: rest => if b = newline then [b] else b :: upToNewline rest

def readLine (input : Bytes) : Except String (Bytes × Bytes) :=
  let bytes := upToNewline (input.take (lineLimit + 1))
  if lineLimit < bytes.length then .error "index row exceeds limit"
  else .ok (bytes, input.drop bytes.length)

def idByte (c : Char) : Bool := c.isAlphanum || c == '-' || c == '_'

def key (v : Json) : Except String String :=
  if !(v.get "format").isStr "ProxyLaneSession" || !(v.get "version").isNum 2
  then .error "invalid list snapshot format"
  else if (v.get "type").isStr "connection" then
    match ((v.get "connection").get "id").asStr with
    | none => .error "missing connection ID"
    | some id =>
      if id.isEmpty || 128 < id.utf8ByteSize || !id.toList.all idByte then
        .error "invalid connection ID"
      else .ok ("c:" ++ id)
  else if (v.get "type").isStr "exchange" || (v.get "type").isStr "stream" ||
      (v.get "type").isStr "dns" then
    match (v.get "cache_id").asNat with
    | none | some 0 => .error "missing cache ID"
    | some id => .ok ("s:" ++ toString id)
  else .error "unsupported list snapshot type"

def select (v : Json) (keys : List String) : Json :=
  if !v.isObject then .null
  else
    keys.foldl (fun out key =>
      match v.get? key with
      | some x => out.set key x
      | none => out) (.obj [])

/-- A number with at least `width` digits. -/
def padded (width n : Nat) : String :=
  let digits := toString n
  String.ofList (List.replicate (width - digits.length) '0') ++ digits

def sessionRelative (id : Nat) : String :=
  "payload/" ++ padded 6 (id / 1000) ++ "/" ++ padded 12 id ++ ".json"

def connectionRelative (id : String) : String :=
  "connections/" ++ id ++ ".json"

/-- The characters that fit into `room` bytes. -/
def fitting : Nat → List Char → List Char
  | _, [] => []
  | room, c :: cs =>
    if c.utf8Size ≤ room then c :: fitting (room - c.utf8Size) cs else []

def truncated (s : String) : String :=
  if 4096 < s.utf8ByteSize then String.ofList (fitting 4096 s.toList) else s

mutual

def bound : Json → Json
  | .str s => .str (truncated s)
  | .arr items => .arr (boundItems items)
  | .obj fields => .obj (boundFields fields)
  | v => v

def boundItems : List Json → List Json
  | [] => []
  | v :: rest => bound v :: boundItems rest

def boundFields : List (String × Json) → List (String × Json)
  | [] => []
  | (key, v) :: rest => (key, bound v) :: boundFields rest

end

def exchangeSummary (v : Json) : Json :=
  let exchange := v.get "exchange"
  let out := select exchange
    ["id", "kind", "name", "status", "sent_bytes", "received_bytes"]
  if out.isObject then
    let out := out.set "cache" ((select (exchange.get "cache") ["id"]).set "id"
      (v.get "cache_id"))
    let message := fun side => select (exchange.get side)
      ["method", "target", "status", "body_bytes", "complete",
        "observed_start_unix_ms"]
    let out := (out.set "request" (message "request")).set "response"
      (message "response")
    let out := out.set "informational" (.arr [])
    if (exchange.get "problem").asStr.any fun s => !s.isEmpty then
      out.set "problem" (.str "Recorded problem")
    else out
  else out

def streamSummary (v : Json) : Json :=
  let out := select (v.get "stream")
    ["sent_bytes", "received_bytes", "finished", "complete"]
  if out.isObject then
    let out := out.set "cache" (.object [("id", v.get "cache_id")])
    if ((v.get "stream").get "problem").isString then
      out.set "problem" (.str "Recorded problem")
    else out
  else out

def listed (v : Json) : Bool :=
  (v.get "type").isStr "connection" || (v.get "type").isStr "exchange" ||
    (v.get "type").isStr "stream" || (v.get "type").isStr "dns"

def fullSummary (v : Json) : Json :=
  let out := select v ["format", "version", "type", "cache_id",
    "first_observed_unix_ms", "protocol", "connection", "status"]
  let detail :=
    if (v.get "type").isStr "connection" then
      connectionRelative ((((v.get "connection").get "id").asStr).getD "")
    else sessionRelative (((v.get "cache_id").asNat).getD 0)
  let out := out.set "detail_file" (.str detail)
  let out := out.set "summary" (v.get "summary")
  let out := out.set "exchange" (exchangeSummary v)
  let out := out.set "stream" (streamSummary v)
  let out := if (v.get? "doh").isSome then out.set "doh" (.obj []) else out
  if (v.get "quic").isObject then
    out.set "quic" (select (v.get "quic") ["version", "sni"])
  else out

def summary (v : Json) : Option Json :=
  if listed v then some (bound (fullSummary v)) else none

structure Item where
  id : Nat
  connection : Option String
  time : Nat
  offset : Nat
  length : Nat
  sequence : Nat
  deriving DecidableEq, Repr

def Item.rank (item : Item) : Nat ×ₗ Nat ×ₗ WithBot String :=
  toLex (item.time, toLex (item.id, item.connection))

def maxSessions : Nat := 2000000

def connectionOf (v : Json) : String :=
  (((v.get "connection").get "id").asStr).getD ""

def isConnection (v : Json) : Bool := (v.get "type").isStr "connection"

def itemOf (v : Json) (offset length sequence : Nat) : Item where
  id := ((v.get "cache_id").asNat).getD 0
  connection := if isConnection v then some (connectionOf v) else none
  time := ((v.get "first_observed_unix_ms").asNat).getD 0
  offset := offset
  length := length
  sequence := sequence

structure Load where
  latest : List (String × Item × String)
  offset : Nat
  sequence : Nat
  ended : Bool

def Load.start : Load := ⟨[], 0, 0, false⟩

/-- `latest.insert`. -/
def insertLatest (latest : List (String × Item × String)) (key : String)
    (entry : Item × String) : List (String × Item × String) :=
  (latest.filter fun old => old.1 != key) ++ [(key, entry)]

def isHeader : Json → Bool
  | .obj [("format", .str "ProxyLaneListIndex"), ("version", .num 1)] => true
  | _ => false

/-- One round of the loop of `load_index`. -/
def loadLine (lib : Serde) (s : Load) (bytes : Bytes) : Except String Load :=
  if s.ended then .error "data after index completion marker"
  else
    match decode lib bytes s.sequence with
    | .error e => .error e
    | .ok value =>
      let next := { s with
        offset := s.offset + bytes.length
        sequence := s.sequence + 1 }
      if s.sequence = 0 then
        if isHeader value then .ok next
        else .error "unsupported list index format"
      else if (value.get? "end").isSome then
        if (value.get "end").isNum s.sequence then
          .ok { next with ended := true }
        else .error "invalid index completion marker"
      else
        match key value with
        | .error e => .error e
        | .ok k =>
          let latest := insertLatest s.latest k
            (itemOf value s.offset bytes.length s.sequence, connectionOf value)
          if maxSessions < latest.length then
            .error ("Recording index exceeds two million sessions; " ++
              "no entries were silently omitted.")
          else .ok { next with latest }

/-- The loop of `load_index`; every round takes at least one byte. -/
def loadLoop (lib : Serde) : Nat → Load → Bytes → Except String Load
  | 0, s, _ => .ok s
  | fuel + 1, s, input =>
    match readLine input with
    | .error e => .error e
    | .ok ([], _) => .ok s
    | .ok (bytes, rest) =>
      match loadLine lib s bytes with
      | .error e => .error e
      | .ok s => loadLoop lib fuel s rest

def Load.items (s : Load) : List Item :=
  let represented := (s.latest.filter fun entry =>
    entry.2.1.connection.isNone).map fun entry => entry.2.2
  ((s.latest.filter fun entry =>
    entry.2.1.connection.isNone || !represented.contains entry.2.2).map
      fun entry => entry.2.1).mergeSort fun a b => a.rank ≤ b.rank

def loadIndex (lib : Serde) (file : Bytes) : Except String (List Item) :=
  match loadLoop lib (file.length + 1) .start file with
  | .error e => .error e
  | .ok s =>
    if s.ended then .ok s.items
    else
      .error "index was not finalized; the recording may have been interrupted"

end ProxyLane.Recording
