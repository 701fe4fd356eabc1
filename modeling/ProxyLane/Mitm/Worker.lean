import ProxyLane.Foundation.LittleEndian
import ProxyLane.Protocol.Analyzer

/-!
# The analysis worker

What the worker does with the plaintext of one connection: DNS messages, an
HTTP parser that is chosen from the first bytes, or an opaque capture.  When
all parser slots are taken, a connection is deferred: its events become the
frames of a backlog, which is replayed later.  Connections of HTTP/3 and raw
QUIC streams need no slot and are left out.
-/

namespace ProxyLane.Mitm

open ProxyLane.Foundation ProxyLane.Protocol

inductive Entry (ρ : Type) where
  | output (time : Nat) (output : Output)
  | dns (time : Nat) (record : ρ)
  | opened
  | failed (time : Nat) (reason : String)
  | fallbackOpened (reason : String)
  | chunk (time : Nat) (side : Direction) (sourceOffset offset length : Nat)
  | datagram (time : Nat) (side : Direction) (offset length number : Nat)
  | bytes (side : Direction) (bytes : Bytes)
  | finished
  deriving DecidableEq, Repr

/-- The parts of the worker that keep a state of their own: the HTTP parsers,
the DNS transactions and the QUIC probe. -/
structure Worker (δ ι χ θ ρ : Type) where
  lib : Library δ ι
  limits : Limits
  udpPackets : Nat
  dnsInit : χ
  dnsTcp : χ → Nat → Direction → Bytes → χ × List ρ
  dnsFeed : χ → Nat → Direction → Bytes → χ × List ρ
  dnsDecodes : Bytes → Bool
  quicInit : θ
  quicFeed : θ → Direction → Bytes → θ

structure Connection where
  udp : Bool
  serverPort : Nat
  alpn : Option Bytes
  decrypted : Bool
  deriving DecidableEq, Repr

structure Stream (δ ι χ θ ρ : Type) where
  fallback : Bool
  analysisNote : Option String
  dns : Option χ
  quic : θ
  analyzer : Option (Analyzer δ ι)
  sniff : Bytes
  detect : Bool
  encrypted : Bool
  cache : Bool
  counts : Sides Nat
  datagrams : Sides (List (Nat × Nat))
  packetCounts : Sides Nat
  log : List (Entry ρ)

variable {δ ι χ θ ρ : Type}

namespace Stream

def emit (s : Stream δ ι χ θ ρ) (entries : List (Entry ρ)) :
    Stream δ ι χ θ ρ :=
  { s with log := s.log ++ entries }

def opaqueData (s : Stream δ ι χ θ ρ) (side : Direction) (bytes : Bytes) :
    Stream δ ι χ θ ρ :=
  let s := { s with
    counts := s.counts.modify side fun count => count + bytes.length }
  if s.cache then s.emit [.bytes side bytes] else s

/-- `opaque`: what was read to detect a protocol is captured first. -/
def opaqueCapture (s : Stream δ ι χ θ ρ) : Stream δ ι χ θ ρ :=
  let s := { s.emit [.opened] with detect := false, cache := true }
  if s.sniff.isEmpty then s
  else { s with sniff := [] }.opaqueData .client s.sniff

def startFallback (s : Stream δ ι χ θ ρ) (now : Nat) (reason : String) :
    Stream δ ι χ θ ρ :=
  let first := if s.fallback then [] else [.failed now reason]
  { s.emit (first ++ [.fallbackOpened reason]) with
    analyzer := none, detect := false, sniff := [], fallback := true,
    analysisNote := some reason, cache := true }

def fallbackData (s : Stream δ ι χ θ ρ) (now : Nat) (side : Direction)
    (sourceOffset : Nat) (bytes : Bytes) : Stream δ ι χ θ ρ :=
  let s :=
    if s.cache then
      s.emit [.chunk now side sourceOffset (s.counts.get side) bytes.length]
    else s
  s.opaqueData side bytes

end Stream

def lineEnd : Bytes → Option Nat
  | 13 :: 10 :: _ => some 0
  | _ :: rest => (lineEnd rest).map (· + 1)
  | [] => none

def isRequestLine (text : Bytes) : Bool :=
  match text.splitOn 32 with
  | [method, target, version] =>
    !method.isEmpty && !target.isEmpty &&
      method.all (fun c => 65 ≤ c && c ≤ 90) &&
      (version == ascii "HTTP/1.0" || version == ascii "HTTP/1.1")
  | _ => false

inductive Detected where
  | protocol (protocol : ProtocolKind)
  | opaqueBytes (encrypted : Option Bool)
  | undecided
  deriving DecidableEq, Repr

def detect (decrypted : Bool) (sniff : Bytes) : Detected :=
  if prefaceBytes.isPrefixOf sniff then .protocol .h2
  else if sniff.isPrefixOf prefaceBytes then .undecided
  else if !decrypted && sniff.head? == some 22 then
    match sniff with
    | _ :: major :: minor :: _ => .opaqueBytes (some (major == 3 && minor ≤ 3))
    | _ => .undecided
  else
    match lineEnd sniff with
    | some i =>
      if isRequestLine (sniff.take i) then .protocol .http1
      else .opaqueBytes none
    | none =>
      if 8192 < sniff.length || sniff.any (fun b => b == 0 || 128 ≤ b) then
        .opaqueBytes none
      else .undecided

namespace Worker

variable (w : Worker δ ι χ θ ρ)

/-- `parser`; the limits of the worker are valid. -/
def parser (protocol : ProtocolKind) : Analyzer δ ι :=
  match Analyzer.new w.lib protocol w.limits with
  | .ok a => a
  | .error _ => ⟨protocol, w.limits, none, ⟨0, 0⟩, ⟨false, false⟩, []⟩

def diagnostic : Output → Option String
  | .diagnostic _ detail => some detail
  | .exchange .. => none

def failure (out : List Output) : Option String :=
  out.foldl (fun error o => (diagnostic o).or error) none

def put (now : Nat) (s : Stream δ ι χ θ ρ) (out : List Output) :
    Stream δ ι χ θ ρ :=
  s.emit (out.map (.output now))

def parsed (now : Nat) (s : Stream δ ι χ θ ρ) (side : Direction)
    (offset : Nat) (bytes : Bytes) (r : Analyzer δ ι × List Output) :
    Stream δ ι χ θ ρ :=
  let s := put now s r.2
  match failure r.2 with
  | some reason =>
    (s.startFallback now reason).fallbackData now side offset bytes
  | none => { s with analyzer := some r.1 }

def data (decrypted : Bool) (now : Nat) (s : Stream δ ι χ θ ρ)
    (side : Direction) (offset : Nat) (bytes : Bytes) : Stream δ ι χ θ ρ :=
  match s.dns with
  | some dns =>
    let (dns, records) := w.dnsTcp dns now side bytes
    { s.emit (records.map (.dns now)) with dns := some dns }
  | none =>
    if s.detect then
      match side with
      | .server => s.opaqueCapture.opaqueData .server bytes
      | .client =>
        let sniff := s.sniff ++ bytes
        match Mitm.detect decrypted sniff with
        | .protocol protocol =>
          let r := (w.parser protocol).push w.lib .client 0 sniff
          { parsed now { s with sniff := [] } .client 0 sniff r with
            detect := false, sniff := [] }
        | .opaqueBytes encrypted =>
          { s with
            sniff := sniff
            encrypted := encrypted.getD s.encrypted }.opaqueCapture
        | .undecided => { s with sniff := sniff }
    else
      match s.analyzer with
      | some a => parsed now s side offset bytes (a.push w.lib side offset bytes)
      | none =>
        if s.fallback then s.fallbackData now side offset bytes
        else s.opaqueData side bytes

def probe (decrypted : Bool) (s : Stream δ ι χ θ ρ) (bytes : Bytes) :
    Stream δ ι χ θ ρ :=
  if !decrypted && !s.fallback && s.dns.isNone &&
      s.packetCounts == ⟨0, 0⟩ && w.dnsDecodes bytes then
    let s := if s.cache then { s.emit [.finished] with cache := false } else s
    { s with dns := some w.dnsInit }
  else s

def datagram (decrypted : Bool) (now : Nat) (s : Stream δ ι χ θ ρ)
    (side : Direction) (bytes : Bytes) : Stream δ ι χ θ ρ :=
  let s := w.probe decrypted s bytes
  match s.dns with
  | some dns =>
    let (dns, records) := w.dnsFeed dns now side bytes
    { s.emit (records.map (.dns now)) with dns := some dns }
  | none =>
    let s :=
      if !decrypted && !s.fallback then
        { s with quic := w.quicFeed s.quic side bytes }
      else s
    let s :=
      if (s.datagrams.get side).length < w.udpPackets then
        { s with datagrams := s.datagrams.modify side fun packets =>
            packets ++ [(s.counts.get side, bytes.length)] }
      else s
    let s := { s with
      packetCounts := s.packetCounts.modify side fun count => count + 1 }
    let s :=
      if s.cache then
        s.emit [.datagram now side (s.counts.get side) bytes.length
          (s.packetCounts.get side)]
      else s
    s.opaqueData side bytes

/-- The arm of `Event::Eof`: a parser that fails is given up. -/
def eof (now : Nat) (s : Stream δ ι χ θ ρ) (side : Direction) (clean : Bool)
    (reason : String) : Stream δ ι χ θ ρ :=
  match s.analyzer with
  | none => s
  | some a =>
    let (a, out) := a.eof w.lib side clean reason
    let s := { put now s out with analyzer := some a }
    match failure out with
    | some reason => s.startFallback now reason
    | none => s

def eofReplayed (now : Nat) (s : Stream δ ι χ θ ρ) (side : Direction)
    (clean : Bool) (reason : String) : Stream δ ι χ θ ρ :=
  match s.analyzer with
  | none => s
  | some a =>
    let (a, out) := a.eof w.lib side clean reason
    { put now s out with analyzer := some a }

def protocolOf : Option Bytes → Option ProtocolKind
  | none => none
  | some alpn =>
    if alpn = ascii "h2" then some .h2
    else if alpn = ascii "http/1.1" then some .http1
    else none

def blank : Stream δ ι χ θ ρ where
  fallback := false
  analysisNote := none
  dns := none
  quic := w.quicInit
  analyzer := none
  sniff := []
  detect := false
  encrypted := false
  cache := false
  counts := ⟨0, 0⟩
  datagrams := ⟨[], []⟩
  packetCounts := ⟨0, 0⟩
  log := []

/-- The arm of `Event::Open` with a free parser slot. -/
def openStream (c : Connection) : Stream δ ι χ θ ρ :=
  let protocol := protocolOf c.alpn
  let dns := if c.serverPort = 53 then some w.dnsInit else none
  let s := { w.blank with
    dns := dns
    analyzer := protocol.map w.parser
    detect := c.alpn.isNone && !c.udp && dns.isNone }
  if dns.isNone && (c.udp || (protocol.isNone && c.alpn.isSome)) then
    s.opaqueCapture
  else s

/-- The state in which `replay` reads the backlog. -/
def resume (c : Connection) (s : Stream δ ι χ θ ρ) : Stream δ ι χ θ ρ :=
  let protocol := protocolOf c.alpn
  let dns := if c.serverPort = 53 then some w.dnsInit else none
  let s := { s with
    dns := dns
    analyzer := if dns.isNone then protocol.map w.parser else none
    detect := c.alpn.isNone && !c.udp && dns.isNone }
  if dns.isNone && (c.udp || (protocol.isNone && !s.detect)) then
    s.opaqueCapture
  else s

/-- What the tap of a connection sends, and the close reasons that it leaves
in its ticket. -/
inductive Event where
  | data (side : Direction) (bytes : Bytes)
  | datagram (side : Direction) (bytes : Bytes)
  | eof (side : Direction) (clean : Bool)
  | closing (reason : String)
  deriving DecidableEq, Repr

structure Capture (δ ι χ θ ρ : Type) where
  stream : Stream δ ι χ θ ρ
  offsets : Sides Nat
  ended : Sides Bool
  closeReason : Option String
  deferred : Bytes

def eofReason (closeReason : Option String) (side : Direction)
    (clean : Bool) : String :=
  closeReason.getD <|
    let peer :=
      match side with
      | .client => "application"
      | .server => "upstream"
    if clean then peer ++ " clean transport EOF"
    else peer ++ " TCP EOF without TLS close_notify"

def live (c : Connection) (s : Capture δ ι χ θ ρ) (e : Nat × Event) :
    Capture δ ι χ θ ρ :=
  match e with
  | (now, .data side bytes) =>
    { s with
      stream := w.data c.decrypted now s.stream side (s.offsets.get side) bytes
      offsets := s.offsets.modify side fun n => n + bytes.length }
  | (now, .datagram side bytes) =>
    { s with stream := w.datagram c.decrypted now s.stream side bytes }
  | (now, .eof side clean) =>
    { s with
      stream := w.eof now s.stream side clean (eofReason s.closeReason side clean)
      ended := s.ended.set side clean }
  | (_, .closing reason) => { s with closeReason := some reason }

def sideByte : Direction → UInt8
  | .client => 0
  | .server => 1

def frame (now : Nat) (kind : UInt8) (side : Direction) (bytes : Bytes) :
    Bytes :=
  leBytes 8 now ++ [kind, sideByte side] ++ leBytes 4 bytes.length ++ bytes

/-- `defer`, for an event of a deferred connection. -/
def defer (s : Capture δ ι χ θ ρ) (e : Nat × Event) : Capture δ ι χ θ ρ :=
  match e with
  | (now, .data side bytes) =>
    { s with
      offsets := s.offsets.modify side fun n => n + bytes.length
      deferred := s.deferred ++ frame now 1 side bytes }
  | (now, .datagram side bytes) =>
    { s with deferred := s.deferred ++ frame now 3 side bytes }
  | (now, .eof side clean) =>
    { s with
      ended := s.ended.set side clean
      deferred := s.deferred ++ frame now 2 side [if clean then 1 else 0] }
  | (_, .closing reason) => { s with closeReason := some reason }

def readFrame (file : Bytes) :
    Except String (Nat × UInt8 × Direction × Bytes × Bytes) :=
  if file.length < 14 then .error "failed to fill whole buffer"
  else
    let header := (file.drop 8).take 6
    let n := leNat (header.drop 2)
    match header with
    | kind :: side :: _ =>
      if 1 < side || 65535 < n || file.length < 14 + n then
        .error "invalid analysis backlog frame"
      else
        .ok (leNat (file.take 8), kind,
          if side = 0 then .client else .server,
          (file.drop 14).take n, file.drop (14 + n))
    | _ => .error "failed to fill whole buffer"

/-- The loop of `replay`; every round takes at least 14 bytes. -/
def replayLoop (c : Connection) (closeReason : Option String) :
    Nat → Bytes → Sides Nat → Stream δ ι χ θ ρ → Except String (Stream δ ι χ θ ρ)
  | 0, _, _, s => .ok s
  | fuel + 1, file, offsets, s =>
    if file.isEmpty then .ok s
    else
      match readFrame file with
      | .error e => .error e
      | .ok (now, kind, side, bytes, rest) =>
        if kind = 1 then
          replayLoop c closeReason fuel rest
            (offsets.modify side fun n => n + bytes.length)
            (w.data c.decrypted now s side (offsets.get side) bytes)
        else if kind = 2 then
          replayLoop c closeReason fuel rest offsets
            (w.eofReplayed now s side (bytes == [1])
              (eofReason closeReason side (bytes == [1])))
        else if kind = 3 then
          replayLoop c closeReason fuel rest offsets
            (w.datagram c.decrypted now s side bytes)
        else .error "unknown analysis backlog event"

def replay (c : Connection) (s : Capture δ ι χ θ ρ) :
    Except String (Capture δ ι χ θ ρ) :=
  (replayLoop w c s.closeReason (s.deferred.length + 1) s.deferred ⟨0, 0⟩
    (w.resume c s.stream)).map fun stream =>
      { s with stream := stream, deferred := [] }

def start (stream : Stream δ ι χ θ ρ) : Capture δ ι χ θ ρ :=
  ⟨stream, ⟨0, 0⟩, ⟨false, false⟩, none, []⟩

def runLive (c : Connection) (events : List (Nat × Event)) :
    Capture δ ι χ θ ρ :=
  run (w.live c) (start (w.openStream c)) events

/-- The connection is opened without a parser slot; after some events its
backlog is replayed, and the later ones are taken as they come. -/
def runDeferred (c : Connection) (backlog later : List (Nat × Event)) :
    Except String (Capture δ ι χ θ ρ) :=
  (w.replay c (run defer (start w.blank) backlog)).map fun s =>
    run (w.live c) s later

end Worker

end ProxyLane.Mitm
