import ProxyLane.Foundation.Ledger
import ProxyLane.Protocol.Model

/-!
# DNS transactions of a connection

A query is a transaction from its first datagram to its response, its
timeout or the end of the connection.  At most `pendingLimit` of them are
resident; when the capture is recorded, the oldest is written to a file of
the connection's own directory and read back when its key is seen again.

The reader of DNS messages and the digest that names the files are
parameters.  So is the disk: the order in which a directory is listed, and
which accesses fail.
-/

namespace ProxyLane.Mitm

open Foundation Protocol

structure Question where
  name : String
  queryType : String
  queryClass : String
  deriving DecidableEq, Repr

structure WireMessage where
  id : Nat
  response : Bool
  opcodeQuery : Bool
  queries : List Question
  responseCode : String
  deriving DecidableEq, Repr

structure Packet where
  id : Nat
  response : Bool
  key : String
  name : String
  kind : String
  status : String
  deriving DecidableEq, Repr

structure DnsLib where
  /-- The message and the number of octets read. -/
  read : Bytes → Except String (WireMessage × Nat)
  /-- The hexadecimal SHA-256 digest. -/
  digest : String → String

namespace DnsLib

variable (lib : DnsLib)

def decode (bytes : Bytes) : Except String Packet :=
  let count (at_ : Nat) := beNat ((bytes.drop at_).take 2)
  if bytes.length < 12 ∨ 65535 < bytes.length then
    .error "Invalid DNS message length"
  else if 16 < count 4 ∨ 256 < count 6 + count 8 + count 10 then
    .error "DNS record limit exceeded"
  else
    match lib.read bytes with
    | .error e => .error ("Invalid DNS message: " ++ e)
    | .ok (msg, index) =>
      if index ≠ bytes.length then .error "Trailing bytes after DNS message"
      else if !msg.opcodeQuery then .error "Unsupported DNS opcode"
      else if !msg.response && msg.queries.isEmpty then
        .error "DNS query has no question"
      else
        .ok {
          id := msg.id
          response := msg.response
          key := msg.queries.foldl (fun key q => key ++ "|" ++
            q.name.toLower ++ ":" ++ q.queryType ++ ":" ++ q.queryClass)
            (toString msg.id)
          name := ", ".intercalate (msg.queries.map Question.name)
          kind := ", ".intercalate (msg.queries.map Question.queryType)
          status := msg.responseCode.toUpper }

def spillName (dir key : String) : String :=
  dir ++ "/" ++ lib.digest key ++ ".json"

end DnsLib

def pendingLimit : Nat := 64

def dnsTimeout : Nat := 10000

structure Transaction where
  id : Nat
  key : String
  name : String
  kind : String
  wireId : Nat
  cache : Option Nat
  bytes : Sides Nat
  started : Nat
  startedMs : Nat
  retries : Nat
  deriving DecidableEq, Repr

structure DnsRecord where
  id : Nat
  wireId : Nat
  name : String
  kind : String
  status : String
  problem : Option String
  retries : Nat
  startedMs : Nat
  elapsedMs : Nat
  finished : Bool
  sentBytes : Nat
  receivedBytes : Nat
  cache : Option Nat
  deriving DecidableEq, Repr

structure Clock where
  instant : Nat
  nowMs : Nat
  observedMs : Nat
  deriving DecidableEq, Repr

def Transaction.record (t : Transaction) (clock : Clock) (status : String)
    (problem : Option String) (finished : Bool) : DnsRecord where
  id := t.id
  wireId := t.wireId
  name := t.name
  kind := t.kind
  status := status
  problem := problem
  retries := t.retries
  startedMs := t.startedMs
  elapsedMs := clock.observedMs - t.startedMs
  finished := finished
  sentBytes := t.bytes.client
  receivedBytes := t.bytes.server
  cache := t.cache

/-- The cache handed to a call: whether it records, and the next number of a
working directory. -/
structure CacheHandle where
  recording : Bool
  workingId : Nat
  deriving DecidableEq, Repr

inductive CacheCall where
  | stream (id : Nat)
  | appendStream (id : Nat) (side : Direction) (bytes : Bytes)
  | finishStream (id : Nat) (bytes : Sides Nat)
  | duplicate (side : Direction) (bytes : Bytes)
  | record (r : DnsRecord)
  | failRecording (reason : String)
  deriving DecidableEq, Repr

structure Disk where
  /-- The error of the `n`th access, if it fails. -/
  fault : Nat → Option String
  /-- The order in which the `n`th access lists a directory. -/
  listing : Nat → List String → List String

structure Moment where
  resident : List Transaction
  spilled : List Transaction
  deriving DecidableEq, Repr

/-- The tracker, its directory and the cache.  The last three fields are
history: the records made, with the transaction's key and the response they
answer to; the moments; and the keys of the messages read. -/
structure Dns where
  spill : Option String := none
  pending : List Transaction := []
  recent : List String := []
  next : Nat := 0
  buffers : Sides Bytes := ⟨[], []⟩
  files : List (String × Transaction) := []
  accesses : Nat := 0
  entries : Nat := 0
  calls : List CacheCall := []
  log : List (Report String (DnsRecord × Option Packet)) := []
  moments : List Moment := []
  seen : List String := []

namespace Dns

def access (s : Dns) : Dns := { s with accesses := s.accesses + 1 }

def call (s : Dns) (calls : List CacheCall) : Dns :=
  { s with calls := s.calls ++ calls }

def hold (s : Dns) (pending : List Transaction)
    (files : List (String × Transaction)) : Dns :=
  { s with
    pending := pending
    files := files
    moments := s.moments ++ [⟨pending, files.map Prod.snd⟩] }

def report (s : Dns) (key : String) (r : DnsRecord)
    (answer : Option Packet) : Dns :=
  { s with log := s.log ++ [⟨r.id, key, r.finished, r, answer⟩] }

def finish (s : Dns) (t : Transaction) : Dns :=
  match t.cache with
  | some id => s.call [.finishStream id t.bytes]
  | none => s

/-- `cache.fail_recording`, where the call was given a cache. -/
def failRecording (s : Dns) (cache : Option CacheHandle) (reason : String) :
    Dns :=
  if cache.isSome then s.call [.failRecording reason] else s

/-- `duplicate` keeps the datagram under an entry of its own. -/
def duplicate (s : Dns) (cache : Option CacheHandle) (side : Direction)
    (bytes : Bytes) : Dns :=
  if cache.any (·.recording) then s.call [.duplicate side bytes] else s

variable (lib : DnsLib) (disk : Disk)

def file? (s : Dns) (name : String) : Option Transaction :=
  (s.files.find? fun f => f.1 == name).map Prod.snd

/-- `working_write`; the content `null` removes the file. -/
def workingWrite (s : Dns) (name : String) (content : Option Transaction) :
    Dns × Option String :=
  let others := s.files.eraseP fun f => f.1 == name
  match disk.fault s.accesses with
  | some e => (s.access, some e)
  | none =>
    (s.access.hold s.pending
      (others ++ (content.map fun t => (name, t)).toList), none)

def spillOldest (s : Dns) : Dns × Option String :=
  match s.spill, s.pending with
  | some dir, t :: rest =>
    (s.hold rest s.files).workingWrite disk (lib.spillName dir t.key) (some t)
  | _, _ => (s, none)

/-- The part of `restore_query` after the file was read. -/
def takeBack (s : Dns) (clock : Clock) (name key : String)
    (value : Transaction) : Dns × Option String :=
  let (s, failed) :=
    if pendingLimit ≤ s.pending.length then s.spillOldest lib disk
    else (s, none)
  match failed with
  | some e => (s, some e)
  | none =>
    let (s, failed) :=
      if value.cache.isSome then (s.access, disk.fault s.accesses)
      else (s, none)
    match failed with
    | some e => (s, some e)
    | none =>
      let age := clock.nowMs - value.startedMs
      let t := { value with key := key, started := clock.instant - age }
      let (s, failed) := s.workingWrite disk name none
      match failed with
      | some e => (s, some e)
      | none => (s.hold (s.pending ++ [t]) s.files, none)

def restoreQuery (s : Dns) (clock : Clock) (key : String) :
    Dns × Option String :=
  if s.pending.any (·.key == key) then (s, none)
  else
    match s.spill with
    | none => (s, none)
    | some dir =>
      let name := lib.spillName dir key
      -- a failed `metadata` is taken for an absent file
      match disk.fault s.accesses, s.file? name with
      | none, some value =>
        match disk.fault (s.accesses + 1) with
        | some e => (s.access.access, some e)
        | none => s.access.access.takeBack lib disk clock name key value
      | _, _ => (s.access, none)

/-- Resident queries ended to make room while the directory is read; each
record goes to the journal, and the last `pendingLimit` are also returned. -/
def flush (reason : String) (clock : Clock) :
    List Transaction → Dns → List DnsRecord → Dns × List DnsRecord
  | [], s, out => (s, out)
  | t :: rest, s, out =>
    let r := t.record clock "Incomplete" (some reason) true
    let s := ((s.hold rest s.files).finish t).report t.key r none
    flush reason clock rest (s.call [.record r])
      ((if pendingLimit ≤ out.length then out.drop 1 else out) ++ [r])

def restoreFile (reason : String) (clock : Clock) (name : String) (s : Dns)
    (out : List DnsRecord) : Dns × List DnsRecord × Option String :=
  match disk.fault s.accesses, s.file? name with
  | some e, _ => (s.access, out, some e)
  | none, none => (s.access, out, some "file not found")
  | none, some value =>
    let (s, out) := flush reason clock s.pending s.access out
    let (s, failed) := s.restoreQuery lib disk clock value.key
    (s, out, failed)

def restoreFiles (reason : String) (clock : Clock) :
    List String → Dns → List DnsRecord → Dns × List DnsRecord
  | [], s, out => (s, out)
  | name :: rest, s, out =>
    match disk.fault s.accesses with
    | some _ => restoreFiles reason clock rest s.access out
    | none =>
      match restoreFile lib disk reason clock name s.access out with
      | (s, out, some e) =>
        (s.call [.failRecording ("DNS analysis state: " ++ e)], out)
      | (s, out, none) => restoreFiles reason clock rest s out

/-- The `while` of `expire`. -/
def popExpired (closing : Option String) (clock : Clock) :
    List Transaction → Dns → List DnsRecord → Dns × List DnsRecord
  | [], s, out => (s, out)
  | t :: rest, s, out =>
    if closing.isSome ∨ dnsTimeout ≤ clock.instant - t.started then
      let r := t.record clock
        (if closing.isSome then "Incomplete" else "Timeout")
        (some (closing.getD "DNS response timeout")) true
      let s := ((s.hold rest s.files).finish t).report t.key r none
      popExpired closing clock rest s (out ++ [r])
    else (s, out)

/-- The part of `expire` that brings the spilled queries back. -/
def restoreSpilled (s : Dns) (clock : Clock) (reason : String) :
    Dns × List DnsRecord :=
  if s.spill.isSome then
    match disk.fault s.accesses with
    | some _ => (s.access, [])
    | none =>
      restoreFiles lib disk reason clock
        (disk.listing s.accesses (s.files.map Prod.fst)) s.access []
  else (s, [])

def expire (s : Dns) (clock : Clock) (closing : Option String) :
    Dns × List DnsRecord :=
  if s.spill.isSome ∧ closing.isNone then (s, [])
  else
    let (s, out) := match closing with
      | some reason => s.restoreSpilled lib disk clock reason
      | none => (s, [])
    popExpired closing clock s.pending s out

def startSpill (s : Dns) (cache : Option CacheHandle) : Dns :=
  match s.spill, cache with
  | none, some c =>
    if c.recording then
      { s with spill := some ("analysis/dns-" ++ toString c.workingId) }
    else s
  | _, _ => s

/-- A further datagram of the query `key`. -/
def retry (key : String) : List Transaction → List Transaction
  | [] => []
  | t :: ts =>
    if t.key == key then
      { t with retries := min (t.retries + 1) (2 ^ 32 - 1) } :: ts
    else t :: retry key ts

/-- The cases of `feed` that return before a transaction is made. -/
def feedKnown (s : Dns) (cache : Option CacheHandle) (clock : Clock)
    (side : Direction) (bytes : Bytes) (p : Packet) :
    Option (Dns × List DnsRecord) :=
  if !p.response && side == .client then
    match (retry p.key s.pending).find? (·.key == p.key) with
    | some t =>
      let r := t.record clock "Pending" none false
      some ((((s.duplicate cache side bytes).hold
        (retry p.key s.pending) s.files).report t.key r none), [r])
    | none => none
  else if p.response && side == .server then
    match s.pending.find? (·.key == p.key) with
    | some t =>
      let t := { t with bytes := t.bytes.set .server bytes.length }
      let r := t.record clock p.status none true
      let recent := s.recent ++ [t.key]
      let s := s.hold (s.pending.eraseP (·.key == p.key)) s.files
      let s := match t.cache with
        | some id => s.call [.appendStream id .server bytes]
        | none => s
      some ({ (s.finish t).report t.key r (some p) with
        recent := if pendingLimit < recent.length then recent.drop 1
          else recent }, [r])
    | none =>
      if s.recent.contains p.key then
        some (s.duplicate cache side bytes, [])
      else none
  else none

def create (s : Dns) (cache : Option CacheHandle) (clock : Clock)
    (side : Direction) (bytes : Bytes) (packet : Except String Packet) :
    Dns × Transaction :=
  let valid := packet.toOption
  let id := s.entries + 1
  let t : Transaction := {
    id := s.next + 1
    key := (valid.map Packet.key).getD ""
    name := (valid.map Packet.name).getD ""
    kind := (valid.map Packet.kind).getD ""
    wireId := (valid.map Packet.id).getD 0
    cache := cache.map fun _ => id
    bytes := (⟨0, 0⟩ : Sides Nat).set side bytes.length
    started := clock.instant
    startedMs := clock.observedMs
    retries := 0 }
  let s := { s with next := s.next + 1 }
  if cache.isSome then
    ({ s.call [.stream id, .appendStream id side bytes] with entries := id }, t)
  else (s, t)

def makeRoom (s : Dns) (cache : Option CacheHandle) (clock : Clock) :
    Dns × List DnsRecord :=
  if pendingLimit ≤ s.pending.length then
    if s.spill.isSome then
      match s.spillOldest lib disk with
      | (s, some e) => (s.failRecording cache e, [])
      | (s, none) => (s, [])
    else
      match s.pending with
      | old :: rest =>
        let r := old.record clock "Incomplete"
          (some "DNS pending query limit reached") true
        (((s.hold rest s.files).finish old).report old.key r none, [r])
      | [] => (s, [])
  else (s, [])

/-- The `match` that ends `feed`. -/
def feedNew (s : Dns) (cache : Option CacheHandle) (clock : Clock)
    (side : Direction) (bytes : Bytes) (packet : Except String Packet) :
    Dns × List DnsRecord :=
  let (s, t) := s.create cache clock side bytes packet
  match packet with
  | .ok p =>
    if !p.response && side == .client then
      let s := { s with recent := s.recent.filter fun key => key != t.key }
      let (s, out) := s.makeRoom lib disk cache clock
      let r := t.record clock "Pending" none false
      ((s.hold (s.pending ++ [t]) s.files).report t.key r none, out ++ [r])
    else
      let r := t.record clock p.status (some "Unmatched DNS message") true
      ((s.finish t).report t.key r none, [r])
  | .error e =>
    let r := t.record clock "Malformed" (some e) true
    ((s.finish t).report t.key r none, [r])

def recallQuery (s : Dns) (cache : Option CacheHandle) (clock : Clock)
    (key : String) : Dns :=
  match ({ s with seen := s.seen ++ [key] } : Dns).restoreQuery lib disk clock
      key with
  | (s, some e) => s.failRecording cache ("DNS analysis state: " ++ e)
  | (s, none) => s

/-- `feed` behind its first `expire`. -/
def feedPacket (s : Dns) (cache : Option CacheHandle) (clock : Clock)
    (side : Direction) (bytes : Bytes) : Dns × List DnsRecord :=
  match lib.decode bytes with
  | .error e => s.feedNew lib disk cache clock side bytes (.error e)
  | .ok p =>
    let s := s.recallQuery lib disk cache clock p.key
    match s.feedKnown cache clock side bytes p with
    | some result => result
    | none => s.feedNew lib disk cache clock side bytes (.ok p)

def feed (s : Dns) (cache : Option CacheHandle) (clock : Clock)
    (side : Direction) (bytes : Bytes) : Dns × List DnsRecord :=
  let (s, expired) := (s.startSpill cache).expire lib disk clock none
  let (s, out) := s.feedPacket lib disk cache clock side bytes
  (s, expired ++ out)

/-- The loop of `tcp`; `b` is the buffer of the side. -/
def tcpLoop (cache : Option CacheHandle) (clock : Clock) (side : Direction)
    (s : Dns) (out : List DnsRecord) (b : Bytes) : Dns × List DnsRecord :=
  let len := beNat (b.take 2)
  if b.length < 2 ∨ b.length < len + 2 then
    ({ s with buffers := s.buffers.set side b }, out)
  else
    let message := (b.drop 2).take len
    let rest := b.drop (len + 2)
    let (s, more) := ({ s with buffers := s.buffers.set side rest } : Dns).feed
      lib disk cache clock side message
    tcpLoop cache clock side s (out ++ more) rest
termination_by b.length
decreasing_by simp only [List.length_drop]; omega

def tcp (s : Dns) (cache : Option CacheHandle) (clock : Clock)
    (side : Direction) (bytes : Bytes) : Dns × List DnsRecord :=
  tcpLoop lib disk cache clock side s [] (s.buffers.get side ++ bytes)

/-- One round of the `for` of `close`. -/
def feedRest (s : Dns) (cache : Option CacheHandle) (clock : Clock)
    (side : Direction) : Dns × List DnsRecord :=
  let bytes := s.buffers.get side
  if bytes.isEmpty then (s, [])
  else
    ({ s with buffers := s.buffers.set side [] } : Dns).feed lib disk cache
      clock side bytes

def close (s : Dns) (cache : Option CacheHandle) (clock : Clock)
    (reason : String) : Dns × List DnsRecord :=
  let (s, client) := s.feedRest lib disk cache clock .client
  let (s, server) := s.feedRest lib disk cache clock .server
  let (s, rest) := s.expire lib disk clock (some reason)
  (s, client ++ server ++ rest)

inductive Event where
  | feed (cache : Option CacheHandle) (clock : Clock) (side : Direction)
      (bytes : Bytes)
  | tcp (cache : Option CacheHandle) (clock : Clock) (side : Direction)
      (bytes : Bytes)
  | expire (clock : Clock) (closing : Option String)
  | close (cache : Option CacheHandle) (clock : Clock) (reason : String)

def step (s : Dns) : Event → Dns × List DnsRecord
  | .feed cache clock side bytes => s.feed lib disk cache clock side bytes
  | .tcp cache clock side bytes => s.tcp lib disk cache clock side bytes
  | .expire clock closing => s.expire lib disk clock closing
  | .close cache clock reason => s.close lib disk cache clock reason

def run : Dns → List Event → Dns × List DnsRecord
  | s, [] => (s, [])
  | s, e :: es =>
    let (s, out) := s.step lib disk e
    let (s, rest) := run s es
    (s, out ++ rest)

end Dns

end ProxyLane.Mitm
