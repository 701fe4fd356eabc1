import ProxyLane.Cache.PayloadCache

/-!
# The payload cache of a recording

With a recording the payload files stay, and only the metadata of an entry
leaves memory: `evict` writes it beside the payload, `restore` loads a copy to
look at, and `restore_live` puts the entry's own ticket back.  The queue is
first in first out and a query waits for its answer, so an operation is taken
here together with the worker's service of it.  A ticket is an address, since
the worker compares tickets by identity, and a caller keeps the last handle it
was given for an entry.
-/

namespace ProxyLane.Cache.Retained

open ProxyLane.Foundation ProxyLane.Protocol

/-- How a write to an open payload file ends.  After a failed one the length of
the file is asked for. -/
inductive Wrote where
  | done
  | failed (length : Option Nat) (error : String)
  deriving DecidableEq, Repr

/-- The answers to one service of the worker: saving an entry's metadata,
loading it, charging a chunk, opening a payload file, writing to it, and logging
events. -/
structure Reply where
  metadata : Option String
  load : Option String
  charge : Option String
  opening : Option String
  write : Wrote
  event : Option String
  deriving DecidableEq, Repr

def Reply.calm : Reply := ⟨none, none, none, none, .done, none⟩

/-- The part of `recording::State` that the cache reads. -/
structure Journal where
  stopped : Bool
  ended : Bool
  reason : Option String
  deriving DecidableEq, Repr

def Journal.accepting (j : Journal) : Bool := !j.stopped && !j.ended

def Journal.stop (j : Journal) (reason : String) : Journal :=
  { j with
    stopped := true
    reason := j.reason <|> some (String.ofList (reason.toList.take 512)) }

/-- `append` opens a payload file for appending, a read opens one that is closed
for reading only. -/
inductive Opened where
  | closed
  | appending
  | reading
  deriving DecidableEq, Repr

structure Files where
  opened : Sides Opened
  dirty : Bool
  deriving DecidableEq, Repr

def Files.none (dirty : Bool) : Files := ⟨⟨.closed, .closed⟩, dirty⟩

structure Record where
  ticket : Nat
  stored : Sides Nat
  stopped : Bool
  files : Files
  deriving DecidableEq, Repr

structure SavedEntry where
  cache : CacheSnapshot
  info : Sides BodyInfo
  deriving DecidableEq, Repr

structure State where
  tickets : Nat → Ticket
  fresh : Nat
  handles : Nat → Option Nat
  next : Nat
  completion : Nat
  journal : Journal
  records : Table Record
  restored : Option Nat
  saved : Nat → Option SavedEntry

def State.initial : State :=
  ⟨.new, 0, fun _ => none, 1, 1, ⟨false, false, none⟩, .empty, none,
    fun _ => none⟩

namespace State

def modifyTicket (s : State) (a : Nat) (f : Ticket → Ticket) : State :=
  { s with tickets := alter s.tickets a f }

def stopTicket (s : State) (a : Nat) (reason : String) : State :=
  s.modifyTicket a fun t => t.stop reason

def fail (s : State) (reason : String) : State :=
  { s with journal := s.journal.stop reason }

/-- `Worker::event`; a refusal stops the recording. -/
def event (s : State) (r : Reply) : State :=
  match r.event with
  | some reason => s.fail reason
  | none => s

def allocate (s : State) (t : Ticket) : State × Nat :=
  ({ s with tickets := alter s.tickets s.fresh fun _ => t,
            fresh := s.fresh + 1 }, s.fresh)

def hold (s : State) (id a : Nat) : State :=
  { s with handles := alter s.handles id fun _ => some a }

def older (s : State) (best : Option (Nat × Nat)) (e : Nat × Record) :
    Option (Nat × Nat) :=
  let t := s.tickets e.2.ticket
  if t.finished ≠ 0 ∧ t.pending = 0 then
    match best with
    | some b => if t.finished < b.2 then some (e.1, t.finished) else some b
    | none => some (e.1, t.finished)
  else best

def oldest (s : State) : Option Nat :=
  (s.records.entries.foldl s.older none).map Prod.fst

def victim (s : State) : Option Nat := s.oldest <|> s.records.keys.head?

/-- The retained branch of `evict`.  An error stops the recording: which handles
it closed first no longer matters. -/
def evict (s : State) (id : Nat) (r : Reply) : Except String State :=
  match s.records.get? id with
  | none => .ok s
  | some record =>
    match r.metadata with
    | some reason => .error reason
    | none =>
      let t := s.tickets record.ticket
      .ok { s with
        saved := alter s.saved id fun _ => some ⟨t.snapshot, t.info⟩
        records := s.records.erase id }

/-- `None` is a cache without a limit on its entries. -/
def full (limit : Option Nat) (s : State) : Bool :=
  match limit with
  | none => false
  | some maxEntries => decide (maxEntries ≤ s.records.size)

def makeRoom (limit : Option Nat) (s : State) (r : Reply) :
    Except String State :=
  if s.full limit then
    match s.victim with
    | some id => s.evict id r
    | none => .ok s
  else .ok s

def register (limit : Option Nat) (s : State) (a : Nat) (r : Reply) : State :=
  let id := (s.tickets a).state.id
  if s.records.contains id then s
  else
    match s.makeRoom limit r with
    | .error reason => (s.stopTicket a reason).fail reason
    | .ok s =>
      let s := s.event r
      { s with records := s.records.insert id ⟨a, ⟨0, 0⟩, false, .none true⟩ }

/-- `restore_live`; after a refusal the record is gone. -/
def restoreLive (limit : Option Nat) (s : State) (a : Nat) (r : Reply) :
    State × Option String :=
  let id := (s.tickets a).state.id
  let restored := if s.restored = some id then none else s.restored
  let s := { s with restored := restored, records := s.records.erase id }
  match s.makeRoom limit r with
  | .error reason => (s, some reason)
  | .ok s =>
    let snapshot := (s.tickets a).snapshot
    let record : Record :=
      ⟨a, snapshot.bytes, snapshot.reason.isSome, .none true⟩
    ({ s with records := s.records.insert id record }, none)

def current (s : State) (a : Nat) : Bool :=
  (s.records.get? (s.tickets a).state.id).any fun record => record.ticket == a

def live (limit : Option Nat) (s : State) (a : Nat) (r : Reply) :
    State × Option String :=
  if s.current a then (s, none) else s.restoreLive limit a r

def stop (s : State) (id : Nat) (reason : String) : State :=
  let s := s.fail reason
  match s.records.get? id with
  | none => s
  | some record =>
    { s with
      records := s.records.modify id fun record =>
        { record with stopped := true }
      tickets := alter s.tickets record.ticket fun t => t.stop reason }

def refile (s : State) (id : Nat) (f : Files → Files) : State :=
  { s with records := s.records.modify id fun record =>
      { record with files := f record.files } }

/-- `check_entry`; the events are left to the caller. -/
def checkEntry (s : State) (id : Nat) : State :=
  let finished := (s.records.get? id).any fun record =>
    (s.tickets record.ticket).finished != 0
  s.refile id fun f =>
    if !f.dirty then f else if finished then .none false
    else { f with dirty := false }

/-- The reply is the first refusal of the journal. -/
def checkpoint (s : State) (r : Reply) : State :=
  (s.records.keys.foldl checkEntry s).event r

def store (s : State) (id a : Nat) (stored : Sides Nat) : State :=
  { s with
    records := s.records.modify id fun record =>
      { record with stored := stored }
    tickets := alter s.tickets a fun t =>
      { t with state := { t.state with bytes := stored } } }

end State

/-- What the file is taken to hold after a failed write of `keep` bytes. -/
def actual (stored keep : Nat) (length : Option Nat) : Nat :=
  max stored (min (length.getD (stored + keep)) (stored + keep))

def writeFailed (error : String) : String := "cache write failed: " ++ error

/-- Why nothing can be written to a payload file. -/
def Files.obstacle (f : Files) (side : Direction) (r : Reply) : Option String :=
  match f.opened.get side with
  | .closed => r.opening
  | .appending => Option.none
  | .reading => some "Access is denied. (os error 5)"

namespace State

def write (s : State) (id a : Nat) (record : Record) (side : Direction)
    (keep : Nat) (r : Reply) : State :=
  match record.files.obstacle side r with
  | some error =>
    -- a file that is open already is written to in vain
    (s.refile id fun f => { f with
      dirty := f.dirty || f.opened.get side == .reading }).stop id
        (writeFailed error)
  | none =>
    let s := s.refile id fun f => ⟨f.opened.set side .appending, true⟩
    match r.write with
    | .done => s.store id a (record.stored.modify side (· + keep))
    | .failed length error =>
      (s.store id a (record.stored.modify side (actual · keep length))).stop id
        (writeFailed error)

def appendRecord (limit : Option Nat) (s : State) (a : Nat) (side : Direction)
    (keep : Nat) (r : Reply) : State :=
  match s.live limit a r with
  | (s, some reason) => s.fail reason
  | (s, none) =>
    let id := (s.tickets a).state.id
    match s.records.get? id with
    | none => s
    | some record =>
      if record.stopped then s
      else if !s.journal.accepting then s
      else
        match r.charge with
        | some reason => s.stop id reason
        | none =>
          if keep = 0 then s
          else s.write id a record side keep r

def finishedRecord (limit : Option Nat) (s : State) (a : Nat) (r : Reply) :
    State :=
  match s.live limit a r with
  | (s, some reason) => s.fail reason
  | (s, none) =>
    let id := (s.tickets a).state.id
    ((s.refile id fun f => { f with dirty := true }).checkEntry id).event r

def restore (s : State) (id : Nat) (r : Reply) : State :=
  if s.records.contains id then s
  else
    match r.load, s.saved id with
    | none, some entry =>
      let records := match s.restored with
        | some old => s.records.erase old
        | none => s.records
      let (s, a) := s.allocate ⟨entry.cache, entry.info, false, 0, 1⟩
      { s with
        records := records.insert id ⟨a, entry.cache.bytes, true, .none false⟩
        restored := some id }
    | _, _ => s

def lookup (s : State) (id : Nat) : Option CacheSnapshot :=
  (s.records.get? id).map fun record => (s.tickets record.ticket).snapshot

/-- A range of a payload file; `none` is the body that a decode asks for. -/
abbrev Range := Option (Nat × Nat)

/-- How much of a payload file of `stored` bytes is read. -/
def requested (range : Range) (stored : Nat) (t : Ticket) (side : Direction) :
    Nat :=
  match range with
  | some (offset, length) => min (stored - offset) length
  | none =>
    let info := t.info.get side
    if t.finished ≠ 0 ∧ t.pending = 0 ∧ info.complete = true ∧
      info.bytes = stored then stored else 0

def readRecord (s : State) (id : Nat) (side : Direction) (range : Range)
    (r : Reply) : State :=
  match s.records.get? id with
  | none => s
  | some record =>
    let count := requested range (record.stored.get side)
      (s.tickets record.ticket) side
    if count ≠ 0 ∧ record.files.opened.get side = .closed ∧ r.opening = none then
      s.refile id fun f => { f with opened := f.opened.set side .reading }
    else s

/-- `Query::Read`.  A decode that is answered without the payload file is a read
of nothing. -/
def read (s : State) (id : Nat) (side : Direction) (range : Range) (r : Reply) :
    State :=
  (s.restore id r).readRecord id side range r

def entry (limit : Option Nat) (s : State) (r : Reply) : State :=
  let id := s.next
  let (s, a) := s.allocate (.new id)
  ({ s with next := id + 1 }.hold id a).register limit a r

def appendChunk (limit : Option Nat) (s : State) (a : Nat) (side : Direction)
    (chunk : Bytes) (r : Reply) : State :=
  let s := s.modifyTicket a fun t => { t with pending := t.pending + 1 }
  let s := s.appendRecord limit a side chunk.length r
  s.modifyTicket a fun t => { t with pending := t.pending - 1 }

def appendChunks (limit : Option Nat) (a : Nat) (side : Direction) :
    State → List Bytes → List Reply → State
  | s, chunk :: rest, replies =>
    if (s.tickets a).accepting then
      appendChunks limit a side
        (s.appendChunk limit a side chunk (replies.headD .calm)) rest
        replies.tail
    else s
  | s, [], _ => s

def append (limit : Option Nat) (s : State) (a : Nat) (side : Direction)
    (bytes : Bytes) (replies : List Reply) : State :=
  if s.journal.accepting then
    appendChunks limit a side s (chunks chunkSize bytes) replies
  else s

def finish (limit : Option Nat) (s : State) (a : Nat) (info : Sides BodyInfo)
    (r : Reply) : State :=
  if (s.tickets a).finished ≠ 0 then s
  else
    let order := s.completion
    let s := s.modifyTicket a fun t => { t with info := info, finished := order }
    { s with completion := order + 1 }.finishedRecord limit a r

end State

def streamEnded : String := "capture ended before both directions closed"

def streamInfo (bytes : Sides Nat) (complete : Bool) : Sides BodyInfo :=
  ⟨⟨false, bytes.client, complete, [], false⟩,
    ⟨false, bytes.server, complete, [], false⟩⟩

namespace State

def finishStream (limit : Option Nat) (s : State) (a : Nat)
    (bytes : Sides Nat) (complete : Bool) (r : Reply) : State :=
  let s := if complete then s else s.stopTicket a streamEnded
  s.finish limit a (streamInfo bytes complete) r

/-- The ticket that `reference` builds from a saved entry. -/
def reopened (entry : SavedEntry) : Ticket :=
  ⟨entry.cache, entry.info, entry.cache.reason.isNone, 0,
    if entry.cache.finished then 1 else 0⟩

def handOut (s : State) (id : Nat) : State × Option CacheSnapshot :=
  match s.records.get? id with
  | none => (s, none)
  | some record =>
    (s.hold id record.ticket, some (s.tickets record.ticket).snapshot)

def reference (limit : Option Nat) (s : State) (id : Nat) (r : Reply) :
    State × Option CacheSnapshot :=
  if !s.records.contains id || s.restored == some id then
    match r.load, s.saved id with
    | none, some entry =>
      let (s, a) := s.allocate (reopened entry)
      match s.restoreLive limit a r with
      | (s, some _) => (s, none)
      | (s, none) => s.handOut id
    | _, _ => (s, none)
  else s.handOut id

end State

inductive Op where
  | entry (r : Reply)
  | append (id : Nat) (side : Direction) (bytes : Bytes) (replies : List Reply)
  | finish (id : Nat) (info : Sides BodyInfo) (r : Reply)
  | finishStream (id : Nat) (bytes : Sides Nat) (complete : Bool) (r : Reply)
  | status (id : Nat) (r : Reply)
  | reference (id : Nat) (r : Reply)
  | read (id : Nat) (side : Direction) (range : State.Range) (r : Reply)
  | fail (reason : String)
  | checkpoint (r : Reply)
  | finishRecording (r : Reply)
  deriving DecidableEq, Repr

inductive Answer where
  | done
  | snapshot (cache : Option CacheSnapshot)
  deriving DecidableEq, Repr

/-- One operation of the caller.  Without a handle there is nothing to call
`append` or `finish` on. -/
def step (limit : Option Nat) (s : State) : Op → State × Answer
  | .entry r => (s.entry limit r, .done)
  | .append id side bytes replies =>
    match s.handles id with
    | some a => (s.append limit a side bytes replies, .done)
    | none => (s, .done)
  | .finish id info r =>
    match s.handles id with
    | some a => (s.finish limit a info r, .done)
    | none => (s, .done)
  | .finishStream id bytes complete r =>
    match s.handles id with
    | some a => (s.finishStream limit a bytes complete r, .done)
    | none => (s, .done)
  | .status id r =>
    let s := s.restore id r
    (s, .snapshot (s.lookup id))
  | .reference id r =>
    let (s, answer) := s.reference limit id r
    (s, .snapshot answer)
  | .read id side range r => (s.read id side range r, .done)
  | .fail reason => (s.fail reason, .done)
  | .checkpoint r => (s.checkpoint r, .done)
  | .finishRecording r =>
    let s := s.checkpoint r
    ({ s with journal := { s.journal with ended := true } }, .done)

end ProxyLane.Cache.Retained
