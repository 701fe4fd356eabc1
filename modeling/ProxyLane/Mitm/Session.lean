import ProxyLane.Foundation.Trace
import ProxyLane.Protocol.Model

/-!
# A TLS session between an application and an upstream server

Octets of either socket are fed to a session, which ends the application's TLS
connection in one leg and opens another to the server.  `pump` moves plaintext
from leg to leg, past the capture, and ciphertext to the outputs.

The two legs are abstract machines: what a record holds, how much a reader or
a writer takes and when a call fails is answered by a parameter, indexed by
how often it has been asked.  A leg decodes nothing before its handshake is
over or behind an authenticated close.
-/

namespace ProxyLane.Mitm

open Foundation Protocol

def highWater : Nat := 256 * 1024

def helloLimit : Nat := 64 * 1024

/-- What `process_new_packets` found in the records it was given. -/
structure Flight where
  plain : Bytes
  closed : Bool
  handshaking : Bool
  wire : Bytes
  deriving DecidableEq, Repr

/-- `closed` is an authenticated close of the peer, `plain` is decoded and not
read, `wire` is encrypted and not written. -/
structure Leg where
  handshaking : Bool := true
  closed : Bool := false
  plain : Bytes := []
  wire : Bytes := []
  deriving DecidableEq, Repr

def Leg.fresh (leg : Leg) (flight : Flight) : Bytes :=
  if leg.closed || (leg.handshaking && flight.handshaking) then []
  else flight.plain

def Leg.process (leg : Leg) (flight : Flight) : Leg where
  handshaking := leg.handshaking && flight.handshaking
  closed := leg.closed || flight.closed
  plain := leg.plain ++ leg.fresh flight
  wire := leg.wire ++ flight.wire

structure Written where
  taken : Nat
  wire : Bytes
  deriving DecidableEq, Repr

structure TlsEnv where
  readTls : Nat → Except String Nat
  process : Nat → Except String Flight
  read : Nat → Except String Nat
  write : Nat → Except String Written
  writeTls : Nat → Except String Nat
  closeNotify : Nat → Bytes
  /-- A `ClientHello` is incomplete, or accepted; then the first flight to the
  server. -/
  hello : Nat → Except String (Option Bytes)
  /-- A certificate is made and the application's connection accepted. -/
  accept : Nat → Except String Bytes
  jobStart : Nat → Bool
  /-- Whether the job is over. -/
  jobPoll : Nat → Except String Bool
  /-- The answer of `try_data`. -/
  takes : Nat → Bool
  tap : Nat → Bool
  /-- The error of a write to the log. -/
  log : Nat → Option String
  /-- The handshake has taken longer than it may. -/
  late : Nat → Bool
  handshakeSeconds : Nat

inductive Phase where
  | sniffing
  | passthrough
  | hello
  | upstream
  | active
  deriving DecidableEq, Repr

structure HandshakeJob where
  leg : Leg
  data : Bytes
  deriving DecidableEq, Repr

/-- What is remembered of a run: plaintext decoded on a leg and an
authenticated close of its peer; a capture attached; plaintext of a leg
offered to it, and whether it was taken; plaintext of a leg queued for the
other one; plaintext written to a leg and a close sent on it. -/
inductive Act where
  | decoded (side : Direction) (bytes : Bytes)
  | peerClosed (side : Direction)
  | tapped
  | offered (side : Direction) (bytes : Bytes) (taken : Bool)
  | forwarded (side : Direction) (bytes : Bytes)
  | written (side : Direction) (bytes : Bytes)
  | closeNotify (side : Direction)
  deriving DecidableEq, Repr

structure Session where
  asyncHandshake : Bool
  phase : Phase := .sniffing
  sniff : Bytes := []
  helloBytes : Nat := 0
  deferred : Bytes := []
  connections : Sides (Option Leg) := ⟨none, none⟩
  handshake : Option HandshakeJob := none
  output : Sides Bytes := ⟨[], []⟩
  plaintext : Sides Bytes := ⟨[], []⟩
  capturePending : Option (Direction × Bytes) := none
  encryptedPending : Sides Bytes := ⟨[], []⟩
  eof : Sides Bool := ⟨false, false⟩
  closeSent : Sides Bool := ⟨false, false⟩
  error : Option String := none
  drainError : Option String := none
  protocolSource : Bool
  protocol : Bool := false
  accesses : Nat := 0
  trace : List Act := []

abbrev Outcome := Option String × Session

/-- The operator `?`. -/
def Outcome.andThen (r : Outcome) (f : Session → Outcome) : Outcome :=
  match r with
  | (none, s) => f s
  | (some e, s) => (some e, s)

def panicked : String := "panic in MITM session"

def stalled : String := "nested too deeply"

def sideName : Direction → String
  | .client => "application"
  | .server => "upstream"

namespace Session

def access (s : Session) : Session := { s with accesses := s.accesses + 1 }

def act (s : Session) (a : Act) : Session := { s with trace := s.trace ++ [a] }

def setLeg (s : Session) (side : Direction) (leg : Leg) : Session :=
  { s with connections := s.connections.set side (some leg) }

def pending (s : Session) : Bool := s.capturePending.isSome

def encryptedEmpty (s : Session) : Bool :=
  s.encryptedPending.client.isEmpty && s.encryptedPending.server.isEmpty

def recordingPending (s : Session) : Bool := s.pending || !s.encryptedEmpty

def canReadSide (s : Session) (side : Direction) : Bool :=
  s.error.isNone && s.drainError.isNone && !s.eof.get side && !s.pending &&
    s.encryptedEmpty && !(side == .server && s.handshake.isSome) &&
    (s.output.get side.other).length < highWater &&
    (s.plaintext.get side.other).length < highWater

def established (s : Session) (side : Direction) : Bool :=
  (s.connections.get side).any fun leg => !leg.handshaking

def ready (s : Session) : Bool :=
  s.phase == .passthrough ||
    (s.phase == .active && s.established .client && s.established .server)

def wantsWrite (s : Session) (side : Direction) : Bool :=
  (s.connections.get side).any fun leg => !leg.wire.isEmpty

def shutdownOutput (s : Session) (side : Direction) : Bool :=
  s.drainError.isNone && s.eof.get side.other && !s.recordingPending &&
    (s.output.get side).isEmpty && (s.plaintext.get side).isEmpty &&
    (s.phase == .passthrough ||
      (s.closeSent.get side && (s.connections.get side).any (·.wire.isEmpty)))

variable (env : TlsEnv)

/-- `Session::event`; a session without a log writes nothing. -/
def event (s : Session) : Outcome := (env.log s.accesses, s.access)

def offer (s : Session) (side : Direction) (bytes : Bytes) : Bool × Session :=
  if s.protocol then
    let taken := env.takes s.accesses
    (taken, s.access.act (.offered side bytes taken))
  else (true, s)

def forward (s : Session) (side : Direction) (bytes : Bytes) : Outcome :=
  Outcome.andThen (s.event env) fun s =>
    (none, { s with
      plaintext := s.plaintext.modify side.other (· ++ bytes)
      trace := s.trace ++ [.forwarded side bytes] })

def deliver (s : Session) (side : Direction) (bytes : Bytes) : Outcome :=
  match s.offer env side bytes with
  | (false, s) => (none, { s with capturePending := some (side, bytes) })
  | (true, s) => s.forward env side bytes

/-- What `pump` begins with. -/
def retryCapture (s : Session) : Outcome :=
  match s.capturePending with
  | none => (none, s)
  | some (side, bytes) =>
    ({ s with capturePending := none } : Session).deliver env side bytes

/-- The `loop` over the reader of a leg. -/
def drainLoop (side : Direction) : Nat → Session → Outcome
  | 0, s => (some stalled, s)
  | fuel + 1, s =>
    match s.connections.get side with
    | none => (none, s)
    | some leg =>
      match env.read s.accesses with
      | .error e => (some e, s.access)
      | .ok n =>
        if leg.plain = [] then (none, s.access)
        else
          let k := max 1 (min n 16384)
          let s := s.access.setLeg side
            { leg with plain := leg.plain.drop k }
          Outcome.andThen (s.deliver env side (leg.plain.take k)) fun s =>
            if s.pending then (none, s) else drainLoop side fuel s

def unread (s : Session) (side : Direction) : Bytes :=
  ((s.connections.get side).map Leg.plain).getD []

def drainLeg (s : Session) (side : Direction) : Outcome :=
  if s.pending then (none, s)
  else drainLoop env side ((s.unread side).length + 1) s

/-- The `while` over the writer of a leg. -/
def writeLoop (side : Direction) : Nat → Session → Outcome
  | 0, s => (some stalled, s)
  | fuel + 1, s =>
    match s.connections.get side with
    | none => (none, s)
    | some leg =>
      if s.plaintext.get side = [] then (none, s)
      else
        match env.write s.accesses with
        | .error e => (some e, s.access)
        | .ok out =>
          let bytes := (s.plaintext.get side).take out.taken
          if bytes = [] then (none, s.access)
          else
            writeLoop side fuel { s.access.setLeg side
                { leg with wire := leg.wire ++ out.wire } with
              plaintext := s.plaintext.modify side (·.drop out.taken)
              trace := s.trace ++ [.written side bytes] }

def sendClose (s : Session) (side : Direction) : Outcome :=
  match s.connections.get side with
  | none => (none, s)
  | some leg =>
    if s.eof.get side.other && s.drainError.isNone && !s.pending &&
        s.encryptedEmpty && (s.plaintext.get side).isEmpty &&
        !s.closeSent.get side then
      (none, { s.access.setLeg side
          { leg with wire := leg.wire ++ env.closeNotify s.accesses } with
        closeSent := s.closeSent.set side true
        trace := s.trace ++ [.closeNotify side] })
    else (none, s)

/-- The `while` over `write_tls`. -/
def flushLoop (side : Direction) : Nat → Session → Outcome
  | 0, s => (some stalled, s)
  | fuel + 1, s =>
    match s.connections.get side with
    | none => (none, s)
    | some leg =>
      if leg.wire = [] ∨ highWater ≤ (s.output.get side).length then (none, s)
      else
        match env.writeTls s.accesses with
        | .error e => (some e, s.access)
        | .ok n =>
          let bytes := leg.wire.take n
          if bytes = [] then (none, s.access)
          else
            flushLoop side fuel { s.access.setLeg side
                { leg with wire := leg.wire.drop n } with
              output := s.output.modify side (· ++ bytes) }

def unsent (s : Session) (side : Direction) : Bytes :=
  ((s.connections.get side).map Leg.wire).getD []

def writeLeg (s : Session) (side : Direction) : Outcome :=
  let written : Outcome :=
    if s.established side then
      (writeLoop env side ((s.plaintext.get side).length + 1) s).andThen
        fun s => s.sendClose env side
    else (none, s)
  written.andThen fun s =>
    flushLoop env side ((s.unsent side).length + 1) s

/-- `read_tls` and `process_new_packets`: the leg, what it has decoded and the
octets not read. -/
def absorb (s : Session) (leg : Leg) (data : Bytes) :
    Except String (Leg × Bytes × Bytes) :=
  match env.readTls s.accesses with
  | .error e => .error e
  | .ok n =>
    if data.take n = [] then .error "TLS input made no progress"
    else
      match env.process s.accesses with
      | .error e => .error e
      | .ok flight => .ok (leg.process flight, leg.fresh flight, data.drop n)

def absorbed (s : Session) (side : Direction) (leg : Leg) (fresh : Bytes) :
    Session :=
  let s := (s.access.setLeg side leg).act (.decoded side fresh)
  if leg.closed then
    { s.act (.peerClosed side) with eof := s.eof.set side true }
  else s

/-- The `while` of `feed_tls`; the recursive calls are given. -/
def feedStep (pump : Session → Outcome)
    (loop : Direction → Bytes → Session → Outcome) (side : Direction)
    (data : Bytes) (s : Session) : Outcome :=
  if data = [] then (none, s)
  else
    match s.connections.get side with
    | none => (some "missing TLS endpoint", s)
    | some leg =>
      match s.absorb env leg data with
      | .error e => (some e, s.access)
      | .ok (leg, fresh, rest) =>
        Outcome.andThen (pump (s.absorbed side leg fresh)) fun s =>
          if s.pending then
            (none, { s with encryptedPending :=
              s.encryptedPending.modify side (· ++ rest) })
          else loop side rest s

def feedTls (loop : Direction → Bytes → Session → Outcome) (side : Direction)
    (data : Bytes) (s : Session) : Outcome :=
  if s.pending then
    if highWater < (s.encryptedPending.get side).length + data.length then
      (some "TLS input while recording paused", s)
    else
      (none, { s with encryptedPending :=
        s.encryptedPending.modify side (· ++ data) })
  else if side = .server ∧ s.phase = .upstream ∧ s.asyncHandshake = true then
    match s.connections.server with
    | none => (some "missing upstream TLS endpoint", s)
    | some leg =>
      let taken := { s.access with
        connections := s.connections.set .server none }
      if env.jobStart s.accesses then
        (none, { taken with handshake := some ⟨leg, data⟩ })
      else (some "upstream handshake queue full or unavailable", taken)
  else loop side data s

def feedPending (feed : Direction → Bytes → Session → Outcome)
    (side : Direction) (s : Session) : Outcome :=
  if s.pending ∨ s.encryptedPending.get side = [] then (none, s)
  else
    feed side (s.encryptedPending.get side) { s with
      encryptedPending := s.encryptedPending.set side [] }

def joinCapture (s : Session) (wire : Bytes) : Session :=
  let s := { s.access.setLeg .client { wire := wire } with phase := .active }
  if s.protocolSource && env.tap s.accesses then
    { s.access.act .tapped with protocol := true, protocolSource := false }
  else { s.access with protocolSource := false }

def finishUpstream (feed : Direction → Bytes → Session → Outcome)
    (s : Session) : Outcome :=
  match env.accept s.accesses with
  | .error e => (some e, s.access)
  | .ok wire =>
    Outcome.andThen ((s.joinCapture env wire).event env) fun s =>
      if s.deferred = [] then (none, s)
      else feed .client s.deferred { s with deferred := [] }

/-- The branch of `pump` for a handshake that runs elsewhere. -/
def pollHandshake (feed : Direction → Bytes → Session → Outcome)
    (again : Session → Outcome) (job : HandshakeJob) (s : Session) : Outcome :=
  match env.jobPoll s.accesses with
  | .error e => (some ("upstream TLS: " ++ e), s.access)
  | .ok false => (none, s.access)
  | .ok true =>
    match s.absorb env job.leg job.data with
    | .error e => (some ("upstream TLS: " ++ e), s.access)
    | .ok (leg, fresh, rest) =>
      let s := ({ s with handshake := none } : Session).absorbed .server leg fresh
      Outcome.andThen (again s) fun s =>
        if rest = [] then (none, s) else feed .server rest s

/-- Where the upstream handshake is over, the application's is begun before
any plaintext is read. -/
def beginDownstream (feed : Direction → Bytes → Session → Outcome)
    (s : Session) : Outcome :=
  if s.phase = .upstream then
    match s.connections.server with
    | none => (some panicked, s)
    | some leg =>
      if leg.handshaking then (none, s) else s.finishUpstream env feed
  else (none, s)

/-- `pump` behind what was held back. -/
def pumpLegs (feed : Direction → Bytes → Session → Outcome) (s : Session) :
    Outcome :=
  if s.phase = .upstream ∨ s.phase = .active then
    (s.beginDownstream env feed).andThen fun s =>
      (s.drainLeg env .client).andThen fun s =>
        (s.drainLeg env .server).andThen fun s =>
          (s.writeLeg env .client).andThen fun s => s.writeLeg env .server
  else (none, s)

def pumpWith (feed : Direction → Bytes → Session → Outcome)
    (again : Session → Outcome) (s : Session) : Outcome :=
  (s.retryCapture env).andThen fun s =>
    (s.feedPending feed .client).andThen fun s =>
      (s.feedPending feed .server).andThen fun s =>
        if s.pending then (none, s)
        else
          match s.handshake with
          | some job => s.pollHandshake env feed again job
          | none => s.pumpLegs env feed

/-- The loop of `feed_tls` and `pump`, which call each other; `depth` bounds
how deeply. -/
def machine : Nat →
    (Direction → Bytes → Session → Outcome) × (Session → Outcome)
  | 0 => (fun _ _ s => (some stalled, s), fun s => (some stalled, s))
  | depth + 1 =>
    (feedStep env (machine depth).2 (machine depth).1,
      pumpWith env (feedTls env (machine depth).1) (machine depth).2)

def pump (depth : Nat) : Session → Outcome := (machine env depth).2

def releasePending (s : Session) : Session :=
  match s.capturePending with
  | none => s
  | some (side, bytes) =>
    let s := { s with capturePending := none }
    if s.protocol then s.act (.offered side bytes true) else s

def readOut (s : Session) (side : Direction) : Session :=
  match s.connections.get side with
  | none => s
  | some leg =>
    (s.setLeg side { leg with plain := [] }).act (.offered side leg.plain true)

def finishPendingCapture (s : Session) : Session :=
  let s := s.releasePending
  if s.protocol then (s.readOut .client).readOut .server else s

def fail (s : Session) (e : String) : Session :=
  if s.error.isSome then s
  else { s.finishPendingCapture with protocol := false, error := some e }

def flushed (s : Session) : Bool :=
  s.output.client.isEmpty && s.output.server.isEmpty &&
    s.plaintext.client.isEmpty && s.plaintext.server.isEmpty &&
    !s.wantsWrite .client && !s.wantsWrite .server

def tick (s : Session) : Outcome :=
  if s.error.isSome then (s.error, s)
  else if s.drainError.isSome && s.flushed then (s.drainError, s)
  else if !s.ready && (s.phase != .sniffing || !s.sniff.isEmpty) &&
      env.late s.accesses then
    (some ("TLS detection/handshake exceeded " ++ toString env.handshakeSeconds ++
      " seconds"), s.access)
  else (none, s.access)

/-- `passthrough_data`, and the octets are sent on. -/
def passthroughData (s : Session) (side : Direction) (bytes : Bytes) : Session :=
  { s.access with
    protocol := if s.protocolSource then env.tap s.accesses else s.protocol
    protocolSource := false
    output := s.output.modify side.other (· ++ bytes) }

def hello (depth : Nat) (data : Bytes) (s : Session) : Outcome :=
  let s := { s with helloBytes := s.helloBytes + data.length }
  if helloLimit < s.helloBytes then (some "ClientHello exceeds 64 KiB", s)
  else
    match env.hello s.accesses with
    | .error e => (some e, s.access)
    | .ok none => (none, s.access)
    | .ok (some wire) =>
      let s := { s.access.setLeg .server { wire := wire } with
        phase := .upstream }
      (s.event env).andThen (pump env depth)

def plausibleHello (sniff : Bytes) : Bool :=
  sniff[0]?.all (· == 0x16) && sniff[1]?.all (· == 3) && sniff[2]?.all (· ≤ 3)

def feedSniffing (depth : Nat) (side : Direction) (data : Bytes) (s : Session) :
    Outcome :=
  match side with
  | .server =>
    if s.sniff ≠ [] then
      (some "upstream spoke during partial TLS detection", s)
    else (none, ({ s with phase := .passthrough } : Session).passthroughData env
      .server data)
  | .client =>
    let sniff := s.sniff ++ data
    if sniff = [] then (some panicked, s)
    else if !plausibleHello sniff then
      let s := { s with phase := .passthrough, sniff := [] }
      (s.passthroughData env .client sniff).event env
    else if sniff.length < 3 then (none, { s with sniff := sniff })
    else hello env depth sniff { s with phase := .hello, sniff := [] }

def feedReady (depth : Nat) (side : Direction) (data : Bytes) (s : Session) :
    Outcome :=
  match s.phase with
  | .sniffing => feedSniffing env depth side data s
  | .passthrough => (none, s.passthroughData env side data)
  | .hello =>
    if side = .server then
      (some "unexpected upstream bytes before TLS ClientHello", s)
    else hello env depth data s
  | .upstream | .active =>
    if side = .client ∧ s.connections.client = none then
      if helloLimit < s.deferred.length + data.length then
        (some "too much data before downstream handshake", s)
      else (none, { s with deferred := s.deferred ++ data })
    else
      match feedTls env (machine env depth).1 side data s with
      | (some e, s) => (some (sideName side ++ " TLS: " ++ e), s)
      | (none, s) => pump env depth s

def feed (depth : Nat) (side : Direction) (data : Bytes) (s : Session) :
    Outcome :=
  (s.tick env).andThen fun s =>
    if s.eof.get side then (some "data received after EOF", s)
    else if 16384 < data.length ∨ s.canReadSide side = false then
      (some "MITM input exceeds bounded buffer capacity", s)
    else feedReady env depth side data s

def peek (depth : Nat) (side : Direction) (n : Nat) (s : Session) :
    Outcome × Bytes :=
  let r := pump env depth s
  (r, (r.2.output.get side).take n)

def consume (depth : Nat) (side : Direction) (n : Nat) (s : Session) : Outcome :=
  if (s.output.get side).length < n then (some "invalid output consumption", s)
  else pump env depth { s with output := s.output.modify side (·.drop n) }

def truncated (s : Session) (side : Direction) : String :=
  "TLS truncated: " ++ sideName side ++ " TCP EOF without close_notify (" ++
    (if s.eof.get side.other then "opposite peer already sent close_notify"
      else if !s.ready then "during handshake" else "during transfer") ++ ")"

/-- A TCP end that no authenticated close went before: what is queued is still
sent, the capture is given up. -/
def unclean (s : Session) (side : Direction) (e : String) : Session :=
  { s with drainError := some e, eof := s.eof.set side true, protocol := false }

def inputEof (depth : Nat) (side : Direction) (s : Session) : Outcome :=
  if s.phase = .sniffing ∧ s.sniff ≠ [] then
    (some (sideName side ++ " EOF within TLS prefix"), s)
  else
    let s := if s.phase = .sniffing then { s with phase := .passthrough } else s
    if s.phase ≠ .passthrough ∧ s.eof.get side = false then
      if s.ready then
        (pump env depth s).andThen fun t =>
          (none, t.unclean side (s.truncated side))
      else (some (s.truncated side), s)
    else pump env depth { s with eof := s.eof.set side true }

inductive Op where
  | feed (side : Direction) (data : Bytes)
  | peek (side : Direction) (length : Nat)
  | consume (side : Direction) (length : Nat)
  | eof (side : Direction)
  | status
  | connected (error : Nat)
  deriving DecidableEq, Repr

def perform (depth : Nat) (s : Session) : Op → Outcome
  | .feed side data =>
    if data = [] then (some "empty input", s) else feed env depth side data s
  | .peek side length =>
    if length = 0 then (some "empty output buffer", s)
    else (peek env depth side length s).1
  | .consume side length => consume env depth side length s
  | .eof side => inputEof env depth side s
  | .status => (s.tick env).andThen (pump env depth)
  | .connected error =>
    if error = 0 then (none, s)
    else (none, s.fail ("TCP connection failed: " ++ toString error))

def conclude (r : Outcome) : Session :=
  match r with
  | (none, s) => s
  | (some e, s) => s.fail e

/-- `call`: behind an error a session does nothing. -/
def step (depth : Nat) (s : Session) (op : Op) : Session :=
  if s.error.isSome then s else conclude (perform env depth s op)

def run (depth : Nat) (s : Session) (ops : List Op) : Session :=
  ops.foldl (step env depth) s

def start (asyncHandshake protocolSource : Bool) : Session :=
  { asyncHandshake := asyncHandshake, protocolSource := protocolSource }

end Session

end ProxyLane.Mitm
