import ProxyLane.Foundation.Run
import ProxyLane.Protocol.Model

/-!
# The temporary payload cache

Producers hand chunks of payload to one disk worker through a bounded queue.
A step of the machine is one access to what they share: a producer tests or
counts or sends, the worker receives, looks at one entry, removes, writes or
counts down.  What the file system answers is part of the step.  This is the
cache without a recording; an entry is known by its number.
-/

namespace ProxyLane.Cache

open ProxyLane.Foundation ProxyLane.Protocol

/-! ## Entries -/

structure CacheConfig where
  entryBytes : Nat
  totalBytes : Nat
  queueChunks : Nat
  maxEntries : Nat
  decodeBytes : Nat
  decodeInputBytes : Nat
  deriving DecidableEq, Repr

def chunkSize : Nat := 16384

structure CacheSnapshot where
  id : Nat
  bytes : Sides Nat
  finished : Bool
  pendingChunks : Nat
  evicted : Bool
  reason : Option String
  deriving DecidableEq, Repr

structure BodyInfo where
  present : Bool
  bytes : Nat
  complete : Bool
  headers : Headers
  bodyless : Bool
  deriving DecidableEq, Repr

structure Ticket where
  state : CacheSnapshot
  info : Sides BodyInfo
  accepting : Bool
  pending : Nat
  finished : Nat
  deriving DecidableEq, Repr

namespace Ticket

def new (id : Nat) : Ticket :=
  ⟨⟨id, ⟨0, 0⟩, false, 0, false, none⟩,
    ⟨⟨false, 0, false, [], false⟩, ⟨false, 0, false, [], false⟩⟩, true, 0, 0⟩

def snapshot (t : Ticket) : CacheSnapshot :=
  { t.state with pendingChunks := t.pending, finished := t.finished != 0 }

def stop (t : Ticket) (reason : String) : Ticket :=
  { t with
    accepting := false
    state := { t.state with reason := t.state.reason <|> some reason } }

end Ticket

inductive Query where
  | reference (id : Nat)
  | working (name : String) (bytes : Bytes)
  | finishRecording
  | stats
  | status (id : Nat)
  | read (id : Nat) (side : Direction) (offset length : Nat) (decode : Bool)
      (decodedLimit : Nat)
  deriving DecidableEq, Repr

inductive Command where
  | register (id : Nat)
  | append (id : Nat) (side : Direction) (bytes : Bytes)
  | query (query : Query)
  deriving DecidableEq, Repr

/-- Where a call of `append` on one side stands: before the next test of
`accepting`, between `fetch_add` and `try_send`, or before the `stop` that
follows a rejection. -/
inductive Call where
  | idle
  | chunks (rest : List Bytes)
  | sending (chunk : Bytes) (rest : List Bytes)
  | refused (reason : String)
  deriving DecidableEq, Repr

inductive Phase where
  | writing
  | ordering
  | storing (order : Nat)
  | finished
  deriving DecidableEq, Repr

/-- The owner of an entry.  The last three fields are not in the source: the
bytes it has offered, those the queue has taken, and the place of the first
byte that was refused or cut. -/
structure Producer where
  calls : Sides Call
  phase : Phase
  offered : Sides Bytes
  accepted : Sides Bytes
  lost : Sides (Option Nat)
  deriving DecidableEq, Repr

def Producer.new : Producer :=
  ⟨⟨.idle, .idle⟩, .writing, ⟨[], []⟩, ⟨[], []⟩, ⟨none, none⟩⟩

/-! ## The worker -/

structure Record where
  files : Sides Bool
  stored : Sides Nat
  stopped : Bool
  deriving DecidableEq, Repr

def Record.new : Record := ⟨⟨false, false⟩, ⟨0, 0⟩, false⟩

def Record.sum (r : Record) : Nat := r.stored.client + r.stored.server

structure CacheStats where
  usedBytes : Nat
  peakBytes : Nat
  entries : Nat
  evictedEntries : Nat
  deriving DecidableEq, Repr

inductive Job where
  | register (id : Nat)
  | append (id : Nat) (side : Direction) (bytes : Bytes) (wanted : Nat)
  deriving DecidableEq, Repr

def Job.command : Job → Command
  | .register id => .register id
  | .append id side bytes _ => .append id side bytes

/-- Where the worker stands.  `scan` is inside `oldest`, which visits the
records one by one; `ready` is not in the source: the entries that could be
evicted when the scan began. -/
inductive Task where
  | idle
  | received (command : Command)
  | room (id : Nat) (side : Direction) (bytes : Bytes) (wanted : Nat)
  | scan (job : Job) (todo : List Nat) (best : Option (Nat × Nat)) (ready : List Nat)
  | evict (job : Job) (victim : Nat) (ready : List Nat)
  | commit (job : Job)
  | settle (id : Nat)
  deriving DecidableEq, Repr

def Task.commands : Task → List Command
  | .idle | .settle _ => []
  | .received command => [command]
  | .room id side bytes _ => [.append id side bytes]
  | .scan job _ _ _ | .evict job _ _ | .commit job => [job.command]

def Job.resume : Job → Task
  | .register id => .commit (.register id)
  | .append id side bytes wanted => .room id side bytes wanted

structure Worker where
  records : Table Record
  retired : Table CacheSnapshot
  retiredOrder : List Nat
  stats : CacheStats
  task : Task
  deriving DecidableEq

def Worker.new : Worker := ⟨.empty, .empty, [], ⟨0, 0, 0, 0⟩, .idle⟩

/-- What would unwind the worker: a quota subtraction below zero, and an
`unwrap` of a record that is not there. -/
inductive Panic where
  | underflow
  | missing
  deriving DecidableEq, Repr

/-- What the file system answers to one step of the worker.  A failed
`write_all` has written some of its bytes, but not all. -/
structure Io where
  remove : Sides Bool
  opened : Bool
  failedAfter : Option Nat
  metadata : Bool
  read : Bool
  cleanup : Bool
  error : String
  deriving DecidableEq, Repr

structure State where
  tickets : Nat → Ticket
  producers : Nat → Producer
  next : Nat
  completion : Nat
  queue : List Command
  closed : Bool
  owned : Bool
  worker : Option Worker
  panicked : Option Panic
  disk : Nat → Sides (Option Bytes)

def State.initial : State :=
  ⟨.new, fun _ => .new, 1, 1, [], false, true, some .new, none,
    fun _ => ⟨none, none⟩⟩

/-- `PayloadCache::new`. -/
def newCache (config : CacheConfig) : Except String State :=
  if config.decodeBytes = 0 ∨ config.decodeBytes > 64 * 1024 * 1024 ∨
      config.decodeInputBytes > 64 * 1024 * 1024 then
    .error "invalid decode limits"
  else if config.queueChunks = 0 ∨ config.queueChunks > 4096 ∨
      config.maxEntries = 0 ∨ config.maxEntries > 65536 then
    .error "invalid cache queue/entry count limit"
  else .ok .initial

namespace State

def modifyTicket (s : State) (id : Nat) (f : Ticket → Ticket) : State :=
  { s with tickets := alter s.tickets id f }

def stopTicket (s : State) (id : Nat) (reason : String) : State :=
  s.modifyTicket id fun t => t.stop reason

def modifyProducer (s : State) (id : Nat) (f : Producer → Producer) : State :=
  { s with producers := alter s.producers id f }

def setCall (s : State) (id : Nat) (side : Direction) (call : Call) : State :=
  s.modifyProducer id fun p => { p with calls := p.calls.set side call }

def lose (s : State) (id : Nat) (side : Direction) (place : Nat) : State :=
  s.modifyProducer id fun p =>
    { p with lost := p.lost.modify side fun lost => lost <|> some place }

def line (s : State) : List Command :=
  ((s.worker.map fun w => w.task.commands).getD []) ++ s.queue

end State

def Command.bytes (id : Nat) (side : Direction) : Command → Bytes
  | .append i sd bytes => if i = id ∧ sd = side then bytes else []
  | _ => []

namespace State

def waiting (s : State) (id : Nat) (side : Direction) : Bytes :=
  s.line.flatMap (Command.bytes id side)

def place (s : State) (id : Nat) (side : Direction) : Nat :=
  ((s.producers id).accepted.get side).length - (s.waiting id side).length

def setWorker (s : State) (w : Worker) : State := { s with worker := some w }

def panic (s : State) (p : Panic) : State :=
  { s with worker := none, queue := [], panicked := some p }

/-! ## Producers -/

def trySend (config : CacheConfig) (s : State) (c : Command) :
    Except String State :=
  if s.panicked.isSome then .error "cache worker failed"
  else if s.closed then .error "cache closed"
  else if s.worker.isNone then .error "cache worker unavailable"
  else if config.queueChunks ≤ s.queue.length then .error "cache queue full"
  else .ok { s with queue := s.queue ++ [c] }

def entry (config : CacheConfig) (s : State) : State :=
  let id := s.next
  let s := { s with next := id + 1 }
  match s.trySend config (.register id) with
  | .ok s => s
  | .error reason => s.stopTicket id reason

/-- `CacheRef::append` is called; the loop over the chunks begins. -/
def append (s : State) (id : Nat) (side : Direction) (bytes : Bytes) :
    State :=
  let s := s.modifyProducer id fun p =>
    { p with offered := p.offered.modify side (· ++ bytes) }
  if s.owned then s.setCall id side (.chunks (chunks chunkSize bytes))
  else
    (s.stopTicket id "cache closed").lose id side
      ((s.producers id).accepted.get side).length

/-- The loop's test of `accepting`, and `pending.fetch_add`. -/
def poll (s : State) (id : Nat) (side : Direction) : State :=
  match (s.producers id).calls.get side with
  | .chunks [] => s.setCall id side .idle
  | .chunks (chunk :: rest) =>
    if (s.tickets id).accepting then
      (s.modifyTicket id fun t => { t with pending := t.pending + 1 }).setCall
        id side (.sending chunk rest)
    else
      (s.setCall id side .idle).lose id side
        ((s.producers id).accepted.get side).length
  | _ => s

/-- `try_send`; a rejection takes back the count. -/
def send (config : CacheConfig) (s : State) (id : Nat) (side : Direction) :
    State :=
  match (s.producers id).calls.get side with
  | .sending chunk rest =>
    match s.trySend config (.append id side chunk) with
    | .ok s =>
      (s.modifyProducer id fun p =>
        { p with accepted := p.accepted.modify side (· ++ chunk) }).setCall
          id side (.chunks rest)
    | .error reason =>
      ((s.modifyTicket id fun t =>
        { t with pending := t.pending - 1 }).setCall id side
          (.refused reason)).lose id side
            ((s.producers id).accepted.get side).length
  | _ => s

/-- The `stop` behind a rejection, and `break`. -/
def refuse (s : State) (id : Nat) (side : Direction) : State :=
  match (s.producers id).calls.get side with
  | .refused reason => (s.stopTicket id reason).setCall id side .idle
  | _ => s

/-- `CacheRef::finish` up to the assignment of `info`. -/
def finish (s : State) (id : Nat) (info : Sides BodyInfo) : State :=
  if (s.producers id).phase = .writing ∧ (s.tickets id).finished = 0 then
    (s.modifyTicket id fun t => { t with info }).modifyProducer id fun p =>
      { p with phase := .ordering }
  else s

/-- `completion.fetch_add`, or 1 when the cache is gone. -/
def order (s : State) (id : Nat) : State :=
  if (s.producers id).phase = .ordering then
    if s.owned then
      { s.modifyProducer id fun p => { p with phase := .storing s.completion }
        with completion := s.completion + 1 }
    else s.modifyProducer id fun p => { p with phase := .storing 1 }
  else s

/-- `finished.store`. -/
def publish (s : State) (id : Nat) : State :=
  match (s.producers id).phase with
  | .storing order =>
    (s.modifyTicket id fun t => { t with finished := order }).modifyProducer
      id fun p => { p with phase := .finished }
  | _ => s

end State

/-! ## Eviction -/

/-- What `oldest` reads of one record: its completion number, if it is
finished and nothing of it is pending.  The two loads are one step: a finished
entry gets no new appends, so the second load decides. -/
def Ticket.eligible (t : Ticket) : Option Nat :=
  if t.finished ≠ 0 ∧ t.pending = 0 then some t.finished else none

/-- `min_by_key` keeps the first of equal keys. -/
def better (best : Option (Nat × Nat)) (id order : Nat) : Option (Nat × Nat) :=
  match best with
  | none => some (id, order)
  | some (old, least) =>
    if order < least then some (id, order) else some (old, least)

/-- One round of the loop of `evict` over the two files. -/
inductive Removal where
  | done (record : Record) (used : Nat) (disk : Sides (Option Bytes))
  | failed (record : Record)
  | underflow

def Record.removeFile (r : Record) (side : Direction) (ok : Bool) (used : Nat)
    (disk : Sides (Option Bytes)) : Removal :=
  let closed := { r with files := r.files.set side false }
  if r.files.get side || r.stored.get side != 0 then
    if ok then
      if r.stored.get side ≤ used then
        .done { closed with stored := r.stored.set side 0 }
          (used - r.stored.get side) (disk.set side none)
      else .underflow
    else .failed closed
  else .done closed used disk

/-- Pops retired snapshots until there are at most `limit`. -/
def trimRetired (limit : Nat) :
    List Nat → Table CacheSnapshot → List Nat × Table CacheSnapshot
  | [], retired => ([], retired)
  | id :: ids, retired =>
    if limit < (id :: ids).length then
      trimRetired limit ids (retired.erase id)
    else (id :: ids, retired)

def Worker.modifyRecord (w : Worker) (id : Nat) (f : Record → Record) :
    Worker :=
  { w with records := w.records.modify id f }

def Worker.setUsed (w : Worker) (used : Nat) : Worker :=
  { w with stats := { w.stats with usedBytes := used } }

/-- The end of a successful `evict`. -/
def Worker.retire (config : CacheConfig) (w : Worker) (id : Nat)
    (snapshot : CacheSnapshot) : Worker :=
  let (order, retired) := trimRetired config.maxEntries
    (w.retiredOrder ++ [id]) (w.retired.insert id snapshot)
  { w with
    records := w.records.erase id
    retired
    retiredOrder := order
    stats := { w.stats with evictedEntries := w.stats.evictedEntries + 1 } }

inductive Evicted where
  | ok (s : State) (w : Worker)
  | failed (s : State) (w : Worker) (reason : String)
  | panicked (p : Panic)

namespace State

def setDisk (s : State) (id : Nat) (files : Sides (Option Bytes)) : State :=
  { s with disk := alter s.disk id fun _ => files }

def evict (config : CacheConfig) (s : State) (w : Worker) (id : Nat)
    (io : Io) : Evicted :=
  match w.records.get? id with
  | none => .panicked .missing
  | some record =>
    let s := s.modifyTicket id fun t =>
      let t := t.stop "payload evicted"
      { t with state := { t.state with evicted := true } }
    let reason := "payload eviction failed: " ++ io.error
    match record.removeFile .client io.remove.client w.stats.usedBytes
        (s.disk id) with
    | .underflow => .panicked .underflow
    | .failed r => .failed s (w.modifyRecord id fun _ => r) reason
    | .done r used files =>
      match r.removeFile .server io.remove.server used files with
      | .underflow => .panicked .underflow
      | .failed r =>
        .failed (s.setDisk id files)
          ((w.modifyRecord id fun _ => r).setUsed used) reason
      | .done _ used files =>
        let snapshot :=
          { (s.tickets id).snapshot with bytes := ⟨0, 0⟩ }
        .ok
          ((s.modifyTicket id fun t =>
            { t with state := snapshot }).setDisk id files)
          ((w.setUsed used).retire config id snapshot)

/-! ## The worker's commands -/

/-- `Worker::stop`, without a journal. -/
def stopRecord (s : State) (w : Worker) (id : Nat) (reason : String) :
    State × Worker :=
  if w.records.contains id then
    (s.stopTicket id reason, w.modifyRecord id fun r =>
      { r with stopped := true })
  else (s, w)

def settle (s : State) (w : Worker) (id : Nat) : State :=
  s.setWorker { w with task := .settle id }

/-- `Worker::stop` and the return from `append`. -/
def abort (s : State) (w : Worker) (id : Nat) (reason : String) : State :=
  (s.stopRecord w id reason).1.settle (s.stopRecord w id reason).2 id

def startScan (s : State) (w : Worker) (job : Job) : State :=
  s.setWorker { w with
    task := .scan job w.records.keys none
      (w.records.keys.filter fun id => (s.tickets id).eligible.isSome) }

def register (config : CacheConfig) (s : State) (w : Worker) (id : Nat) :
    State :=
  if w.records.contains id then s.setWorker { w with task := .idle }
  else if config.maxEntries ≤ w.records.size then s.startScan w (.register id)
  else s.setWorker { w with task := .commit (.register id) }

/-- `Worker::append` up to its loop. -/
def beginAppend (config : CacheConfig) (s : State) (w : Worker) (id : Nat)
    (side : Direction) (bytes : Bytes) : State :=
  match w.records.get? id with
  | none => (s.lose id side (s.place id side)).settle w id
  | some record =>
    if record.stopped then (s.lose id side (s.place id side)).settle w id
    else
      s.setWorker { w with
        task := .room id side bytes
          (min bytes.length (config.entryBytes - record.sum)) }

def makeRoom (config : CacheConfig) (s : State) (w : Worker) (id : Nat)
    (side : Direction) (bytes : Bytes) (wanted : Nat) : State :=
  if config.totalBytes < w.stats.usedBytes then s.panic .underflow
  else if config.totalBytes - w.stats.usedBytes < wanted then
    s.startScan w (.append id side bytes wanted)
  else s.setWorker { w with task := .commit (.append id side bytes wanted) }

/-- One round of `oldest`, or its result. -/
def scan (s : State) (w : Worker) (job : Job) (todo : List Nat)
    (best : Option (Nat × Nat)) (ready : List Nat) : State :=
  match todo with
  | id :: rest =>
    let best := match (s.tickets id).eligible with
      | some order => better best id order
      | none => best
    s.setWorker { w with task := .scan job rest best ready }
  | [] =>
    match best, job with
    | some (victim, _), job =>
      s.setWorker { w with task := .evict job victim ready }
    | none, .append id side bytes wanted =>
      s.setWorker { w with task := .commit (.append id side bytes wanted) }
    | none, .register id =>
      (s.stopTicket id "cache entry count limit").setWorker
        { w with task := .idle }

def giveUp (s : State) (w : Worker) (job : Job) (reason : String) : State :=
  match job with
  | .register id => (s.stopTicket id reason).setWorker { w with task := .idle }
  | .append id side _ _ => (s.lose id side (s.place id side)).abort w id reason

/-- The call of `evict`, and what its caller does with the result. -/
def evictFor (config : CacheConfig) (s : State) (w : Worker) (job : Job)
    (victim : Nat) (io : Io) : State :=
  match s.evict config w victim io with
  | .panicked p => s.panic p
  | .ok s w => s.setWorker { w with task := job.resume }
  | .failed s w reason => s.giveUp w job reason

structure Written where
  file : Bytes
  actual : Nat
  used : Nat

/-- `write_all` of the first `keep` bytes and the accounting around it; none
when the refund would underflow. -/
def write (file : Bytes) (stored used : Nat) (bytes : Bytes) (keep : Nat)
    (io : Io) : Option Written :=
  let written := match io.failedAfter with
    | none => keep
    | some n => min n (keep - 1)
  let file := file ++ bytes.take written
  let actual :=
    if io.failedAfter.isSome && io.metadata then file.length
    else stored + keep
  let actual := max stored (min actual (stored + keep))
  if stored + keep - actual ≤ used + keep then
    some ⟨file, actual, used + keep - (stored + keep - actual)⟩
  else none

/-- The tail of `Worker::append`: what was not kept stops the entry. -/
def endAppend (s : State) (w : Worker) (id : Nat) (side : Direction)
    (bytes : Bytes) (wanted keep : Nat) : State :=
  if keep < bytes.length then
    let reason :=
      if wanted < bytes.length ∧ keep = wanted then "per-exchange payload limit"
      else "total payload limit (active entries protected)"
    (s.lose id side (s.place id side + keep)).abort w id reason
  else s.settle w id

/-- `Worker::append` behind its loop. -/
def store (config : CacheConfig) (s : State) (w : Worker) (id : Nat)
    (side : Direction) (bytes : Bytes) (wanted : Nat) (io : Io) : State :=
  if config.totalBytes < w.stats.usedBytes then s.panic .underflow
  else
    let keep := min wanted (config.totalBytes - w.stats.usedBytes)
    if keep = 0 then s.endAppend w id side bytes wanted keep
    else
      match w.records.get? id with
      | none => s.panic .missing
      | some record =>
        let failure := "cache write failed: " ++ io.error
        if !record.files.get side && !io.opened then
          (s.lose id side (s.place id side)).abort w id failure
        else
          let old := ((s.disk id).get side).getD []
          match write old (record.stored.get side) w.stats.usedBytes bytes
              keep io with
          | none => s.panic .underflow
          | some new =>
            let stored := record.stored.set side new.actual
            let w := { w with
              records := w.records.modify id fun r =>
                { r with files := r.files.set side true, stored }
              stats := { w.stats with
                usedBytes := new.used
                peakBytes :=
                  max w.stats.peakBytes (w.stats.usedBytes + keep) } }
            let s := (s.modifyTicket id fun t =>
              { t with state := { t.state with bytes := stored } }).setDisk
                id ((s.disk id).set side (some new.file))
            if io.failedAfter.isSome then
              (s.lose id side (s.place id side +
                (new.file.length - old.length))).abort w id failure
            else s.endAppend w id side bytes wanted keep

def insertRecord (s : State) (w : Worker) (id : Nat) : State :=
  s.setWorker { w with records := w.records.insert id .new, task := .idle }

end State

/-! ## Queries -/

structure CachedPayload where
  cache : CacheSnapshot
  direction : Direction
  offset : Nat
  data : Bytes
  decoded : Bool
  decodedBytes : Nat
  warning : Option String
  deriving DecidableEq, Repr

inductive Answer where
  | reference (id : Nat)
  | stats (stats : CacheStats)
  | status (snapshot : Option CacheSnapshot)
  | payload (payload : CachedPayload)
  deriving DecidableEq, Repr

/-- The two entry points of `decode`. -/
structure Decoder where
  body : Headers → Bytes → Nat → Except String Bytes
  preview : Headers → Bytes → Nat → Except String (Bytes × Option String)

namespace State

/-- The bytes of a read, before any decoding.  Reading opens the file. -/
def readBytes (config : CacheConfig) (s : State) (w : Worker) (id : Nat)
    (side : Direction) (offset length : Nat) (decode : Bool) (io : Io) :
    Except String (Record × Ticket × Bytes) :=
  match w.records.get? id with
  | none => .error "payload unavailable (evicted or not admitted)"
  | some record =>
    let ticket := s.tickets id
    if ticket.snapshot.evicted then .error "payload evicted"
    else
      let info := ticket.info.get side
      let stored := record.stored.get side
      if decode && (!ticket.snapshot.finished ||
          ticket.snapshot.pendingChunks != 0 || !info.complete ||
          info.bytes != stored) then
        .error "cannot decode incomplete cached body"
      else if decode && config.decodeInputBytes < stored then
        .error ("decode input exceeds " ++
          toString (config.decodeInputBytes / 1024 / 1024) ++ " MiB")
      else
        let count := if decode then stored else min (stored - offset) length
        let file := ((s.disk id).get side).getD []
        if count = 0 then .ok (record, ticket, [])
        else if !record.files.get side && !io.opened then .error io.error
        else if !io.read || file.length < offset + count then .error io.error
        else
          .ok ({ record with files := record.files.set side true }, ticket,
            (file.drop offset).take count)

def read (config : CacheConfig) (decoder : Decoder) (s : State) (w : Worker)
    (id : Nat) (side : Direction) (offset length : Nat) (decode : Bool)
    (decodedLimit : Nat) (io : Io) : Except String CachedPayload :=
  match s.readBytes config w id side offset length decode io with
  | .error e => .error e
  | .ok (_, ticket, bytes) =>
    let info := ticket.info.get side
    let limit := min decodedLimit config.decodeBytes
    let decoded : Except String (Bytes × Option String) :=
      if decode && !info.bodyless then
        if length ≠ 0 then decoder.preview info.headers bytes limit
        else (decoder.body info.headers bytes limit).map fun b => (b, none)
      else .ok (bytes, none)
    decoded.map fun (bytes, warning) =>
      ⟨ticket.snapshot, side, offset,
        if decode && length != 0 then bytes.take length else bytes,
        decode, if decode then bytes.length else 0, warning⟩

def query (config : CacheConfig) (decoder : Decoder) (s : State) (w : Worker)
    (q : Query) (io : Io) : Except String Answer :=
  match q with
  | .working _ _ => .error "working file requires recording"
  | .reference id =>
    if w.records.contains id then .ok (.reference id) else .error io.error
  | .finishRecording => .ok (.stats w.stats)
  | .stats => .ok (.stats { w.stats with entries := w.records.size })
  | .status id =>
    .ok (.status (if w.records.contains id then
      some (s.tickets id).snapshot else w.retired.get? id))
  | .read id side offset length decode decodedLimit =>
    (s.read config decoder w id side offset length decode decodedLimit
      io).map .payload

def afterQuery (config : CacheConfig) (s : State) (w : Worker) (q : Query)
    (io : Io) : Worker :=
  match q with
  | .stats => { w with stats := { w.stats with entries := w.records.size } }
  | .read id side offset length decode _ =>
    match s.readBytes config w id side offset length decode io with
    | .ok (record, _, _) =>
      w.modifyRecord id fun r => { r with files := record.files }
    | .error _ => w
  | _ => w

/-! ## Steps -/

def receive (s : State) : State :=
  match s.worker, s.queue with
  | some w, c :: rest =>
    if w.task = .idle then
      { s with
        worker := some { w with task := .received c }
        queue := rest }
    else s
  | _, _ => s

/-- `pending.fetch_sub` behind an append. -/
def countDown (s : State) (w : Worker) (id : Nat) : State :=
  (s.modifyTicket id fun t => { t with pending := t.pending - 1 }).setWorker
    { w with task := .idle }

def work (config : CacheConfig) (s : State) (io : Io) : State :=
  match s.worker with
  | none => s
  | some w =>
    match w.task with
    | .idle => s
    | .received (.register id) => s.register config w id
    | .received (.append id side bytes) =>
      s.beginAppend config w id side bytes
    | .received (.query q) =>
      s.setWorker { s.afterQuery config w q io with task := .idle }
    | .room id side bytes wanted => s.makeRoom config w id side bytes wanted
    | .scan job todo best ready => s.scan w job todo best ready
    | .evict job victim _ => s.evictFor config w job victim io
    | .commit (.register id) => s.insertRecord w id
    | .commit (.append id side bytes wanted) =>
      s.store config w id side bytes wanted io
    | .settle id => s.countDown w id

/-- The senders are gone and the queue is drained: the entries are stopped and
the directory is removed. -/
def exit (s : State) (io : Io) : State :=
  match s.worker with
  | none => s
  | some w =>
    if w.task = .idle ∧ s.queue = [] ∧ s.closed = true then
      { s with
        worker := none
        tickets := fun id =>
          if w.records.contains id then (s.tickets id).stop "cache closed"
          else s.tickets id
        disk := if io.cleanup then fun _ => ⟨none, none⟩ else s.disk }
    else s

/-- `Inner::query` waits for room in the queue. -/
def ask (config : CacheConfig) (s : State) (q : Query) : State :=
  match s.trySend config (.query q) with
  | .ok s => s
  | .error _ => s

end State

inductive Event where
  | entry
  | append (id : Nat) (side : Direction) (bytes : Bytes)
  | poll (id : Nat) (side : Direction)
  | send (id : Nat) (side : Direction)
  | refuse (id : Nat) (side : Direction)
  | endEarly (id : Nat)
  | finish (id : Nat) (info : Sides BodyInfo)
  | order (id : Nat)
  | publish (id : Nat)
  | query (query : Query)
  | receive
  | work (io : Io)
  | shutdown
  | drop
  | exit (io : Io)
  deriving DecidableEq, Repr

/-- One step.  A producer waits for its call on a side to return before it
makes the next one; only numbers that `entry` gave out are used. -/
def step (config : CacheConfig) (s : State) : Event → State
  | .entry => if s.owned then s.entry config else s
  | .append id side bytes =>
    if id < s.next ∧ (s.producers id).calls.get side = .idle then
      s.append id side bytes
    else s
  | .poll id side => s.poll id side
  | .send id side => s.send config id side
  | .refuse id side => s.refuse id side
  | .endEarly id =>
    if id < s.next then
      s.stopTicket id "capture ended before both directions closed"
    else s
  | .finish id info => if id < s.next then s.finish id info else s
  | .order id => s.order id
  | .publish id => s.publish id
  | .query q => s.ask config q
  | .receive => s.receive
  | .work io => s.work config io
  | .shutdown => { s with closed := true }
  | .drop => { s with closed := true, owned := false }
  | .exit io => s.exit io

end ProxyLane.Cache
