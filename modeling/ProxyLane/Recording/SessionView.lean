import ProxyLane.Recording.Index

/-!
# Session snapshots

Each event of a recording that names a cache id rewrites the snapshot of its
session.  Events come from several threads: what the writer of the payload
said last about the cache stays, and so does the earliest time.
-/

namespace ProxyLane.Recording.SessionView

open ProxyLane.Foundation

def startOf (message : Json) : Option Nat :=
  (message.get "observed_start_unix_ms").asNat

def earliest (times : List Nat) : Option Nat := (times.filter (· ≠ 0)).min?

def firstObserved (saved : Json) (observed : Nat) : Nat :=
  (earliest (some observed :: [(saved.get "first_observed_unix_ms").asNat,
    startOf ((saved.get "exchange").get "request"),
    startOf ((saved.get "exchange").get "response")]).reduceOption).getD observed

def sideName (side : Nat) : String :=
  if side = 0 then "request" else "response"

def payloadName (id side : Nat) (ending : String) : String :=
  padded 12 id ++ "." ++ sideName side ++ ending

def nth (v : Json) (i : Nat) : Json := (v.items[i]?).getD .null

def isEmptyArray (v : Json) : Bool := v.items.isEmpty

/-- The fields of a message go into files; the messages of the two sides and
the informational ones differ in the suffix. -/
def stripHeaders (id side : Nat) (suffix : String) (message : Json) : Json :=
  if !message.isObject then message
  else
    let m :=
      if (message.get "headers").isArray then
        (message.set "headers_file"
          (.str (payloadName id side (suffix ++ ".headers.txt")))).remove "headers"
      else message
    match m.get? "trailers" with
    | none => m
    | some trailers =>
      if trailers.isArray && !isEmptyArray trailers then
        (m.remove "trailers").set "trailers_file"
          (.str (payloadName id side (suffix ++ ".trailers.txt")))
      else m.remove "trailers"

/-- `a.to_ascii_lowercase()`. -/
def lowerAscii (s : String) : String := s.map Char.toLower

def summaryField (v : Json) (pair : Json) : Json :=
  let name := lowerAscii (((nth pair 0).asStr).getD "")
  if name = ":authority" ∨ name = "host" then v.set "authority" (nth pair 1)
  else if name = ":scheme" then v.set "scheme" (nth pair 1)
  else if name = "content-type" then v.set "content_type" (nth pair 1)
  else if name = "content-encoding" then v.set "content_encoding" (nth pair 1)
  else v

def messageSummary (m : Json) : Json :=
  if !m.isObject then .null
  else
    (m.get "headers").items.foldl summaryField
      (select m ["method", "target", "status", "body_bytes", "complete",
        "observed_start_unix_ms"])

/-- What the journal answers: whether a relative path is a file, its name,
and the size of a payload. -/
structure Files where
  isFile : String → Bool
  fileName : String → String
  payloadSize : Nat → Nat → Option Nat

/-- `v[a][b] = x`. -/
def set2 (v : Json) (a b : String) (x : Json) : Json :=
  v.set a ((v.get a).set b x)

def number (n : Option Nat) : Json := .num (n.getD 0)

def newSession (id observed : Nat) : Json :=
  .object [("format", .str "ProxyLaneSession"), ("version", .num 2),
    ("cache_id", .num id), ("payloads", .obj []),
    ("first_observed_unix_ms", .num observed)]

def setAll (saved : Json) (fields : List (String × Json)) : Json :=
  fields.foldl (fun v field => v.set field.1 field.2) saved

def sideOf (event : Json) : Nat := ((event.get "side").asNat).getD 0

def typeOf (event : Json) : String := ((event.get "type").asStr).getD ""

def mergeContext (event saved : Json) : Json :=
  let context := event.get "context"
  let saved :=
    if (context.get "connection").isObject then
      saved.set "connection" (context.get "connection")
    else saved
  let saved :=
    if (context.get "protocol").isString then
      saved.set "protocol" (context.get "protocol")
    else saved
  if (context.get "kind").isString then saved.set "kind" (context.get "kind")
  else saved

def newExchange (id : Nat) (event : Json) : Json :=
  .object [("id", event.get "exchange_id"), ("request", .null),
    ("response", .null), ("informational", .arr []),
    ("cache", .object [("id", .num id)])]

def withExchange (id : Nat) (event saved : Json) : Json :=
  if !(saved.get "exchange").isObject then
    saved.set "exchange" (newExchange id event)
  else saved

def messageHead (id : Nat) (event saved : Json) : Json :=
  let saved := withExchange id event (saved.set "type" (.str "exchange"))
  let exchange := (saved.get "exchange").set "id" (event.get "exchange_id")
  let exchange := set2 exchange "cache" "id" (.num id)
  saved.set "exchange" (exchange.set (sideName (sideOf event)) (event.get "message"))

def exchangeEnd (event saved : Json) : Json :=
  let saved := saved.set "type" (.str "exchange")
  let exchange := ["request", "response", "informational", "problem"].foldl
    (fun exchange key => exchange.set key (event.get key)) (saved.get "exchange")
  saved.set "exchange" (exchange.set "id" (event.get "exchange_id"))

def spread (cache saved : Json) (name : String) : Json :=
  if (saved.get name).isObject then set2 saved name "cache" cache else saved

def checkpoint (event saved : Json) : Json :=
  ["exchange", "stream"].foldl (spread (event.get "cache"))
    (saved.set "cache" (event.get "cache"))

def decodedFile (files : Files) (event : Json) (key : String) : Json :=
  match (event.get key).asStr with
  | some p => if files.isFile p then .str (files.fileName p) else .null
  | none => .null

def bodyDecode (files : Files) (event saved : Json) : Json :=
  let decode := ["file", "source_file"].foldl
    (fun decode key => decode.set key (decodedFile files event key)) event
  let side := sideName (sideOf event)
  saved.set "payloads" (set2 (saved.get "payloads") side "decode" decode)

def datagram (id : Nat) (event saved : Json) : Json :=
  let side := sideOf event
  saved.set "payloads" (set2 (saved.get "payloads") (sideName side)
    "datagrams_file" (.str (payloadName id side ".datagrams.jsonl")))

def merge (files : Files) (id : Nat) (event saved : Json) :
    Except String Json :=
  if typeOf event = "observation" then
    match event.get "record" with
    | .obj fields => .ok (setAll saved fields)
    | _ => .error "invalid observation"
  else
    let saved := mergeContext event saved
    .ok (if typeOf event = "message_head" then messageHead id event saved
      else if typeOf event = "exchange_end" then exchangeEnd event saved
      else if typeOf event = "payload_checkpoint" then checkpoint event saved
      else if typeOf event = "body_decode" then bodyDecode files event saved
      else if typeOf event = "datagram" then datagram id event saved
      else saved)

def spreadCache (saved : Json) : Json :=
  if (saved.get "cache").isObject then
    ["exchange", "stream"].foldl (spread (saved.get "cache")) saved
  else saved

def isStreamProtocol (protocol : String) : Bool :=
  ["tcp", "udp", "quic_stream", "quic_datagram", "tls_stream",
    "tls_encrypted"].contains protocol

def protocolOf (saved : Json) : String := ((saved.get "protocol").asStr).getD ""

def streamOfCheckpoint (event saved : Json) : Json :=
  if !(saved.get "type").isString && isStreamProtocol (protocolOf saved) then
    (saved.set "type" (.str "stream")).set "stream"
      (.object [("cache", event.get "cache"),
        ("datagrams", .arr [.arr [], .arr []]),
        ("packet_counts", .arr [.num 0, .num 0])])
  else saved

def streamCounts (cache saved : Json) : Json :=
  if (saved.get "type").isStr "stream" then
    let stream := saved.get "stream"
    let stream := stream.set "sent_bytes" (cache.get "request_bytes")
    let stream := stream.set "received_bytes" (cache.get "response_bytes")
    let stream := stream.set "finished" (cache.get "finished")
    let complete := match cache.get "finished" with
      | .bool b => b && (cache.get "reason").isNull
      | _ => false
    saved.set "stream" (stream.set "complete" (.bool complete))
  else saved

def bodyBytes (cache saved : Json) (side : String) (bytes : String) : Json :=
  if ((saved.get "exchange").get side).isObject then
    saved.set "exchange"
      (set2 (saved.get "exchange") side "body_bytes" (cache.get bytes))
  else saved

def exchangeCounts (cache saved : Json) : Json :=
  if (saved.get "type").isStr "exchange" then
    bodyBytes cache (bodyBytes cache saved "request" "request_bytes")
      "response" "response_bytes"
  else saved

def finishCheckpoint (event saved : Json) : Json :=
  if typeOf event = "payload_checkpoint" then
    exchangeCounts (event.get "cache")
      (streamCounts (event.get "cache") (streamOfCheckpoint event saved))
  else saved

def isHttp (protocol : String) : Bool := ["http1", "h2", "h3"].contains protocol

def summarize (saved : Json) (key : String) : Json :=
  match messageSummary ((saved.get "exchange").get key) with
  | .obj fields =>
    saved.set "summary" ((saved.get "summary").set key
      (setAll ((saved.get "summary").get key) fields))
  | _ => saved

def stripSide (protocol : String) (id side : Nat) (saved : Json) : Json :=
  if isHttp protocol then
    saved.set "exchange" ((saved.get "exchange").set (sideName side)
      (stripHeaders id side "" ((saved.get "exchange").get (sideName side))))
  else saved

def placePayload (files : Files) (id side : Nat) (saved : Json) : Json :=
  let key := sideName side
  let size := files.payloadSize id side
  let payload := ((saved.get "payloads").get key).set "file"
    (if size.isSome then .str (payloadName id side ".bin") else .null)
  saved.set "payloads"
    ((saved.get "payloads").set key (payload.set "bytes" (number size)))

def projectSide (files : Files) (protocol : String) (id : Nat) (saved : Json)
    (side : Nat) : Json :=
  placePayload files id side
    (stripSide protocol id side (summarize saved (sideName side)))

def projectInformational (id : Nat) (saved : Json) : Json :=
  let exchange := saved.get "exchange"
  saved.set "exchange" (exchange.set "informational"
    (match exchange.get "informational" with
    | .arr infos =>
      .arr (infos.zipIdx.map fun info =>
        stripHeaders id 1 (".info-" ++ toString info.2) info.1)
    | v => v))

def observedOf (clock : UInt64) (event : Json) : Nat :=
  ((event.get "observed_unix_ms").asNat).getD clock.toNat

def idOf (event : Json) : Option Nat :=
  (event.get "cache_id").asNat.or <|
    if typeOf event = "observation" then
      let cacheId := fun name =>
        ((((event.get "record").get name).get "cache").get "id").asNat
      (cacheId "exchange").or (cacheId "stream")
    else none

def projectSession (files : Files) (clock : UInt64) (id : Nat)
    (event saved : Json) : Except String Json :=
  (merge files id event saved).map fun saved =>
    let observed := observedOf clock event
    let saved := spreadCache saved
    let saved := saved.set "first_observed_unix_ms"
      (.num (firstObserved saved observed))
    let protocol := protocolOf saved
    let saved := finishCheckpoint event saved
    let saved := [0, 1].foldl (projectSide files protocol id) saved
    let saved := projectInformational id saved
    (saved.set "observed_unix_ms" (.num observed)).set "sequence" (.num id)

abbrev Snapshots := Nat → Option Json

structure Arrival where
  event : Json
  files : Files
  clock : UInt64

/-- `project` for the events of sessions; an error leaves the snapshot. -/
def project (store : Snapshots) (a : Arrival) : Snapshots :=
  if typeOf a.event = "observation" ∧
      ((a.event.get "record").get "type").isStr "connection" then store
  else
    match idOf a.event with
    | none => store
    | some id =>
      let saved := (store id).getD (newSession id (observedOf a.clock a.event))
      match projectSession a.files a.clock id a.event saved with
      | .ok saved => Function.update store id (some saved)
      | .error _ => store

end ProxyLane.Recording.SessionView
