import ProxyLane.Foundation.Bytes
import ProxyLane.Foundation.Run
import ProxyLane.Foundation.Table

/-!
# Admission of QUIC connections

The first datagrams of a QUIC connection are kept in a bridge while the
handshake is looked at.  Then either the interception engine takes them, or
the connection is rejected for interception and they are passed on to the
upstream server, in batches.  The bytes that all bridges of the process keep
have one budget.

Answers of the engine, of the system and of the upstream server are inputs.
-/

namespace ProxyLane.Hook

open ProxyLane.Foundation

namespace QuicBridge

/-! ## Bridges -/

/-- `BrowserQuicPolicy::Status`. -/
inductive Compatibility where
  | none
  | pending
  | ready
  | unavailable
  deriving DecidableEq, Repr

/-- `number` is history: which datagram of its route this is. -/
structure Datagram where
  number : Nat
  data : Bytes
  deriving DecidableEq, Repr

/-- `toClient`, `toServer` and `closed` are what the engine says of an open
connection. -/
structure Bridge where
  initial : List Datagram
  bytes : Nat
  rejected : Bool
  handle : Bool
  inspected : Int
  compat : Compatibility
  admissionSlot : Bool
  toClient : List Bytes
  toServer : List Bytes
  closed : Bool
  deriving DecidableEq, Repr

structure Counters where
  initialBytes : Int
  quicBridges : Int
  admissions : Int
  deriving DecidableEq, Repr

def initialByteLimit : Nat := 8 * 1024 * 1024

/-- Answers in the course of one call: `elapsed` and `waited` are two readings
of the time since the bridge was made, `inspect` and `opens` are results of the
engine, `room` is whether memory is allocated, and `takes` and `delivers` are
the answers of `ForwardUpstreamDatagram` and `DeliverServerDatagram` to the
calls of one drain. -/
structure Env where
  enabled : Bool
  elapsed : Nat
  waited : Nat
  latest : Compatibility
  inspect : Int
  opens : Int
  room : Bool
  takes : Nat → Bool
  delivers : Nat → Bool

structure Work where
  bridge : Bridge
  counters : Counters
  handed : List Datagram

def releaseSlot (w : Work) : Work :=
  if w.bridge.admissionSlot then
    { w with
      bridge := { w.bridge with admissionSlot := false }
      counters := { w.counters with admissions := w.counters.admissions - 1 } }
  else w

variable (env : Env)

def judge (b : Bridge) : Bridge :=
  if !env.enabled || 5000 < env.elapsed || b.inspected < 0 then
    { b with rejected := true }
  else if b.compat = .pending then
    if 2000 ≤ env.waited ∨ env.latest = .unavailable then
      { b with rejected := true }
    else if env.latest = .ready then { b with compat := .ready }
    else b
  else b

def openEngine (w : Work) : Work :=
  if w.bridge.rejected = false ∧ w.bridge.compat ≠ .pending ∧
      w.bridge.inspected = 1 then
    if env.opens = 1 then
      { bridge := { w.bridge with handle := true, initial := [], bytes := 0 }
        counters := { w.counters with
          initialBytes := w.counters.initialBytes - w.bridge.bytes }
        handed := w.handed ++ w.bridge.initial }
    else { w with bridge := { w.bridge with rejected := true } }
  else w

def tryOpen (w : Work) : Work :=
  if w.bridge.handle then w
  else if w.bridge.rejected then releaseSlot w
  else
    let w := openEngine env { w with bridge := judge env w.bridge }
    if w.bridge.handle || w.bridge.rejected then releaseSlot w else w

def reject (w : Work) : Work :=
  { w with bridge := { w.bridge with rejected := true } }

/-- `Feed` of a client's datagram: whether it was kept, and the bridge. -/
def feed (d : Datagram) (w : Work) : Bool × Work :=
  let n := d.data.length
  if w.bridge.handle then (true, { w with handed := w.handed ++ [d] })
  else
    let w :=
      if 65536 < w.bridge.bytes + n ∨ 64 ≤ w.bridge.initial.length then reject w
      else w
    if 512 * 1024 < w.bridge.bytes + n ∨
        (initialByteLimit : Int) - w.counters.initialBytes < n then
      (false, tryOpen env (reject w))
    else if env.room = false then (false, tryOpen env (reject w))
    else
      let b := { w.bridge with
        initial := w.bridge.initial ++ [d]
        bytes := w.bridge.bytes + n }
      let b := if b.rejected then b else { b with inspected := env.inspect }
      (true, tryOpen env { w with
        bridge := b
        counters := { w.counters with
          initialBytes := w.counters.initialBytes + n } })

inductive Side where
  | client
  | server
  deriving DecidableEq, Repr

def engineQueue (b : Bridge) : Side → List Bytes
  | .client => b.toClient
  | .server => b.toServer

/-- The datagram that `Peek` copies; an empty one is not told from none. -/
def peek (b : Bridge) (side : Side) : Bytes :=
  if b.handle then (engineQueue b side).headD []
  else
    match side, b.initial with
    | .server, d :: _ =>
      if b.rejected && d.data.length ≤ 65536 then d.data else []
    | _, _ => []

structure Drain where
  bridge : Bridge
  counters : Counters
  passed : List Datagram

def consume (side : Side) (w : Drain) : Drain :=
  if w.bridge.handle then
    match side with
    | .client => { w with
        bridge := { w.bridge with toClient := w.bridge.toClient.tail } }
    | .server => { w with
        bridge := { w.bridge with toServer := w.bridge.toServer.tail } }
  else
    match side, w.bridge.initial with
    | .server, d :: rest =>
      { bridge := { w.bridge with
          bytes := w.bridge.bytes - d.data.length
          initial := rest }
        counters := { w.counters with
          initialBytes := w.counters.initialBytes - d.data.length }
        passed := w.passed ++ [d] }
    | _, _ => w

/-- One side of a drain: at most so many datagrams, until there is none or one
is not taken. -/
def drain (side : Side) (takes : Nat → Bool) : Nat → Drain → Drain
  | 0, w => w
  | n + 1, w =>
    if peek w.bridge side = [] then w
    else if takes n then drain side takes n (consume side w)
    else w

def isDrained (b : Bridge) : Bool :=
  if b.handle then b.closed && peek b .client == [] && peek b .server == []
  else b.rejected && b.initial.isEmpty

def destroy (b : Bridge) (c : Counters) : Counters where
  initialBytes := c.initialBytes - b.bytes
  quicBridges := c.quicBridges - 1
  admissions := if b.admissionSlot then c.admissions - 1 else c.admissions

/-- What `Open` asks for besides. -/
structure Opening where
  lookup : Compatibility
  loaded : Bool
  window : Bool
  timer : Bool

def isLongHeader (data : Bytes) : Bool :=
  7 ≤ data.length && (data.headD 0 &&& 0xc0) == 0xc0

def fresh (compat : Compatibility) : Bridge :=
  ⟨[], 0, false, false, 0, compat, true, [], [], false⟩

/-- `Open`: a bridge that keeps the first datagram, or none. -/
def openBridge (opening : Opening) (d : Datagram) (c : Counters) :
    Option Bridge × Counters × List Datagram :=
  if !env.enabled || !isLongHeader d.data then (none, c, [])
  else if opening.lookup = .unavailable then (none, c, [])
  else if 256 ≤ c.quicBridges ∨ 128 ≤ c.admissions then (none, c, [])
  else if !opening.loaded then (none, c, [])
  else
    let c := { c with
      quicBridges := c.quicBridges + 1
      admissions := c.admissions + 1 }
    let b := fresh opening.lookup
    if !opening.window then (none, destroy b c, [])
    else
      let w := (feed env d ⟨b, c, []⟩).2
      if w.bridge.rejected || (!w.bridge.handle && !opening.timer) then
        (none, destroy w.bridge w.counters, w.handed)
      else (some w.bridge, w.counters, w.handed)

/-! ## Routes -/

/-- How a client's datagram left: given to the engine, taken by the upstream
server out of the queue, or passed to it on arrival, with none of the route's
queued or with some. -/
inductive Way where
  | engine
  | queued
  | direct
  | ahead
  deriving DecidableEq, Repr

structure Sent where
  number : Nat
  way : Way
  deriving DecidableEq, Repr

/-- The last three fields are history: how many datagrams the client has sent,
those that left, in order, and those dropped because they are late. -/
structure Route where
  quic : Option Bridge
  quicRetired : Bool
  firstDatagramLogged : Bool
  arrived : Nat
  out : List Sent
  late : List Nat
  deriving DecidableEq, Repr

def Route.start : Route := ⟨none, false, false, 0, [], []⟩

def sent (way : Way) (ds : List Datagram) : List Sent :=
  ds.map fun d => ⟨d.number, way⟩

/-- `PumpQuic` for a route with a bridge. -/
def pumpBridge (route : Route) (b : Bridge) (c : Counters) : Route × Counters :=
  let w := drain .server env.takes 64 (drain .client env.delivers 64 ⟨b, c, []⟩)
  let route := { route with out := route.out ++ sent .queued w.passed }
  if isDrained w.bridge then
    ({ route with quicRetired := w.bridge.handle, quic := none },
      destroy w.bridge w.counters)
  else ({ route with quic := some w.bridge }, w.counters)

def pumpQuic (route : Route) (c : Counters) : Route × Counters :=
  match route.quic with
  | some b => pumpBridge env route b c
  | none => (route, c)

def isInitial (data : Bytes) : Bool :=
  1200 ≤ data.length &&
    (((data.getD 0 0 &&& 0xf0) == 0xc0 && data.getD 1 0 == 0 &&
        data.getD 2 0 == 0 && data.getD 3 0 == 0 && data.getD 4 0 == 1) ||
      ((data.getD 0 0 &&& 0xf0) == 0xd0 && data.getD 1 0 == 0x6b &&
        data.getD 2 0 == 0x33 && data.getD 3 0 == 0x43 && data.getD 4 0 == 0xcf))

def pending (route : Route) : List Datagram :=
  match route.quic with
  | some b => b.initial
  | none => []

/-- `ForwardUpstreamDatagram` for a datagram that has just come. -/
def passOn (route : Route) (d : Datagram) : Route :=
  { route with out := route.out ++
      [⟨d.number, if (pending route).isEmpty then .direct else .ahead⟩] }

def feedRoute (route : Route) (b : Bridge) (c : Counters) (d : Datagram) :
    Route × Counters :=
  let (kept, w) := feed env d ⟨b, c, []⟩
  let (route, c) := pumpQuic env
    { route with
      quic := some w.bridge
      out := route.out ++ sent .engine w.handed } w.counters
  (if kept then route else passOn route d, c)

def openRoute (opening : Opening) (route : Route) (c : Counters)
    (d : Datagram) : Route × Counters :=
  let route := { route with firstDatagramLogged := true }
  match openBridge env opening d c with
  | (some b, c, handed) =>
    pumpQuic env
      { route with quic := some b, out := route.out ++ sent .engine handed } c
  | (none, c, _) => (passOn route d, c)

def admitDatagram (opening : Opening) (route : Route) (c : Counters) (d : Datagram) :
    Route × Counters :=
  if route.quicRetired && !isInitial d.data then
    ({ route with late := route.late ++ [d.number] }, c)
  else
    let route :=
      if route.quicRetired then
        { route with quicRetired := false, firstDatagramLogged := false }
      else route
    match route.quic with
    | some b => feedRoute env route b c d
    | none =>
      if route.firstDatagramLogged then (passOn route d, c)
      else openRoute env opening route c d

/-- `ForwardClientDatagram`; `first` answers the calls of the first drain. -/
def forwardClientDatagram (first : Env) (opening : Opening) (route : Route)
    (c : Counters) (data : Bytes) : Route × Counters :=
  let d : Datagram := ⟨route.arrived, data⟩
  let (route, c) := pumpQuic first { route with arrived := route.arrived + 1 } c
  admitDatagram env opening route c d

def onWake (route : Route) (c : Counters) : Route × Counters :=
  match route.quic with
  | some b =>
    let w := tryOpen env ⟨b, c, []⟩
    pumpQuic env
      { route with
        quic := some w.bridge
        out := route.out ++ sent .engine w.handed } w.counters
  | none => (route, c)

structure State where
  counters : Counters
  routes : Table Route

def State.start : State := ⟨⟨0, 0, 0⟩, .empty⟩

inductive Event where
  | add (id : Nat)
  | remove (id : Nat)
  | client (id : Nat) (data : Bytes) (first second : Env) (opening : Opening)
  | server (id : Nat) (env : Env)
  | writable (id : Nat) (env : Env)
  | wake (id : Nat) (env : Env)
  | engine (id : Nat) (toClient toServer : List Bytes) (closed : Bool)

def atRoute (s : State) (id : Nat)
    (f : Route → Counters → Route × Counters) : State :=
  match s.routes.get? id with
  | some route =>
    let (route, counters) := f route s.counters
    ⟨counters, s.routes.modify id fun _ => route⟩
  | none => s

def setEngine (toClient toServer : List Bytes) (closed : Bool) (route : Route)
    (c : Counters) : Route × Counters :=
  match route.quic with
  | some b =>
    if b.handle then
      ({ route with quic := some { b with toClient, toServer, closed } }, c)
    else (route, c)
  | none => (route, c)

def closeRoute (route : Route) (c : Counters) : Counters :=
  match route.quic with
  | some b => destroy b c
  | none => c

def maxDatagram : Nat := 65507

/-- A server's datagram goes to the engine, where there is one, and the route
is drained. -/
def step (s : State) : Event → State
  | .add id =>
    match s.routes.get? id with
    | none => { s with routes := s.routes.insert id .start }
    | some _ => s
  | .remove id =>
    match s.routes.get? id with
    | some route =>
      ⟨closeRoute route s.counters, s.routes.erase id⟩
    | none => s
  | .client id data first second opening =>
    if data.length ≤ maxDatagram then
      atRoute s id fun route c =>
        forwardClientDatagram second first opening route c data
    else s
  | .server id env => atRoute s id (pumpQuic env)
  | .writable id env => atRoute s id (pumpQuic env)
  | .wake id env => atRoute s id (onWake env)
  | .engine id toClient toServer closed =>
    atRoute s id (setEngine toClient toServer closed)

/-! ## Accounts of one bridge -/

def size (ds : List Datagram) : Nat := (ds.map fun d => d.data.length).sum

@[simp] theorem size_nil : size [] = 0 := rfl

@[simp] theorem size_cons (d : Datagram) (ds : List Datagram) :
    size (d :: ds) = d.data.length + size ds := rfl

@[simp] theorem size_append (xs ys : List Datagram) :
    size (xs ++ ys) = size xs + size ys := by
  simp [size]

def slot (b : Bridge) : Int := if b.admissionSlot then 1 else 0

def others (b : Bridge) (c : Counters) : Counters :=
  ⟨c.initialBytes - b.bytes, c.quicBridges - 1, c.admissions - slot b⟩

theorem destroy_eq_others (b : Bridge) (c : Counters) :
    destroy b c = others b c := by
  simp only [destroy, others, slot]
  split <;> simp

structure Sound (b : Bridge) : Prop where
  bytes : b.bytes = size b.initial
  opened : b.handle = true → b.initial = [] ∧ b.rejected = false ∧
    b.admissionSlot = false
  slot : b.admissionSlot = false → b.handle = true ∨ b.rejected = true
  lengths : ∀ d ∈ b.initial, d.data.length ≤ maxDatagram

/-- Between calls the bridge has its slot while it is neither opened nor
rejected. -/
def Settled (b : Bridge) : Prop :=
  b.admissionSlot = (!b.handle && !b.rejected)

structure Accounted (w w' : Work) : Prop where
  sound : Sound w'.bridge
  others : others w'.bridge w'.counters = others w.bridge w.counters
  limit : w'.counters.initialBytes ≤ w.counters.initialBytes

structure Opens (w w' : Work) : Prop extends Accounted w w' where
  queue : w'.handed ++ w'.bridge.initial = w.handed ++ w.bridge.initial
  rejected : w.bridge.rejected = true →
    w'.bridge.rejected = true ∧ w'.handed = w.handed ∧
      w'.bridge.initial = w.bridge.initial

theorem Opens.refl {w : Work} (h : Sound w.bridge) : Opens w w :=
  ⟨⟨h, rfl, Int.le_refl _⟩, rfl, fun h => ⟨h, rfl, rfl⟩⟩

theorem Opens.trans {w w' w'' : Work} (h : Opens w w') (k : Opens w' w'') :
    Opens w w'' := by
  refine ⟨⟨k.sound, k.others.trans h.others, k.limit.trans h.limit⟩,
    k.queue.trans h.queue, ?_⟩
  intro hr
  obtain ⟨hr', hhanded, hinitial⟩ := h.rejected hr
  obtain ⟨hr'', hhanded', hinitial'⟩ := k.rejected hr'
  exact ⟨hr'', hhanded'.trans hhanded, hinitial'.trans hinitial⟩

variable {env}

theorem releaseSlot_opens {w : Work} (h : Sound w.bridge)
    (hdone : w.bridge.handle = true ∨ w.bridge.rejected = true) :
    Opens w (releaseSlot w) ∧ Settled (releaseSlot w).bridge := by
  unfold releaseSlot
  split
  · rename_i hslot
    have hclosed : w.bridge.handle = false := by
      by_contra hopen
      have := (h.opened (by simpa using hopen)).2.2
      simp [hslot] at this
    have hrejected : w.bridge.rejected = true := by simpa [hclosed] using hdone
    refine ⟨⟨⟨⟨h.bytes, by simp [hclosed], fun _ => hdone, h.lengths⟩, ?_,
      Int.le_refl _⟩, rfl, fun h => ⟨h, rfl, rfl⟩⟩, by simp [Settled, hrejected]⟩
    simp [others, slot, hslot]
  · rename_i hslot
    refine ⟨Opens.refl h, ?_⟩
    obtain hopen | hrejected := hdone
    · simp [Settled, hslot, hopen]
    · simp [Settled, hslot, hrejected]

theorem judge_cases (b : Bridge) :
    judge env b = { b with rejected := true } ∨
      ∃ compat, judge env b = { b with compat } := by
  unfold judge
  split
  · exact Or.inl rfl
  · split
    · split
      · exact Or.inl rfl
      · split
        · exact Or.inr ⟨_, rfl⟩
        · exact Or.inr ⟨_, rfl⟩
    · exact Or.inr ⟨_, rfl⟩

theorem reject_opens {w : Work} (h : Sound w.bridge)
    (hclosed : w.bridge.handle = false) : Opens w (reject w) := by
  refine ⟨⟨⟨h.bytes, ?_, fun _ => Or.inr rfl, h.lengths⟩, rfl, Int.le_refl _⟩, rfl,
    fun _ => ⟨rfl, rfl, rfl⟩⟩
  simp [reject, hclosed]

theorem judge_opens {w : Work} (h : Sound w.bridge)
    (hclosed : w.bridge.handle = false) :
    Opens w { w with bridge := judge env w.bridge } ∧
      (judge env w.bridge).handle = false := by
  obtain hjudge | ⟨compat, hjudge⟩ := @judge_cases env w.bridge
  · rw [hjudge]
    exact ⟨reject_opens h hclosed, hclosed⟩
  · rw [hjudge]
    exact ⟨⟨⟨⟨h.bytes, h.opened, h.slot, h.lengths⟩, rfl, Int.le_refl _⟩, rfl,
      fun h => ⟨h, rfl, rfl⟩⟩, hclosed⟩

theorem Sound.slot_held {b : Bridge} (h : Sound b) (hclosed : b.handle = false)
    (hadmitting : b.rejected = false) : b.admissionSlot = true := by
  by_contra hslot
  have hdone := h.slot (by simpa using hslot)
  simp [hclosed, hadmitting] at hdone

theorem opened_opens {w : Work} (h : Sound w.bridge)
    (hclosed : w.bridge.handle = false) (hadmitting : w.bridge.rejected = false) :
    let w' := releaseSlot
      { bridge := { w.bridge with handle := true, initial := [], bytes := 0 }
        counters := { w.counters with
          initialBytes := w.counters.initialBytes - w.bridge.bytes }
        handed := w.handed ++ w.bridge.initial }
    Opens w w' ∧ Settled w'.bridge := by
  have hslot := h.slot_held hclosed hadmitting
  simp only [releaseSlot, hslot, if_true]
  refine ⟨⟨⟨⟨rfl, by simp [hadmitting], fun _ => Or.inl rfl, by simp⟩, ?_, ?_⟩,
    by simp, by simp [hadmitting]⟩, by simp [Settled]⟩
  · simp [others, slot, hslot]
  · simp only
    omega

theorem tryOpen_opens {w : Work} (h : Sound w.bridge) :
    Opens w (tryOpen env w) ∧ Settled (tryOpen env w).bridge := by
  unfold tryOpen
  split
  · rename_i hopen
    obtain ⟨-, hadmitting, hslot⟩ := h.opened hopen
    exact ⟨Opens.refl h, by simp [Settled, hopen, hslot]⟩
  · rename_i hclosed
    split
    · rename_i hrejected
      exact releaseSlot_opens h (Or.inr hrejected)
    · obtain ⟨hjudged, hclosed'⟩ := @judge_opens env w h (by simpa using hclosed)
      generalize judge env w.bridge = b at hjudged hclosed'
      have hb : Sound b := hjudged.sound
      by_cases hready : b.rejected = false ∧ b.compat ≠ .pending ∧ b.inspected = 1
      · have heq : openEngine env { w with bridge := b } =
            if env.opens = 1 then _ else _ := if_pos hready
        simp only [heq]
        split
        · obtain ⟨hopens, hsettled⟩ := opened_opens
            (w := { w with bridge := b }) hb hclosed' hready.1
          exact ⟨hjudged.trans hopens, hsettled⟩
        · have hreject : Opens { w with bridge := b }
              (reject { w with bridge := b }) := reject_opens hb hclosed'
          obtain ⟨hopens, hsettled⟩ :=
            releaseSlot_opens hreject.sound (Or.inr rfl)
          simp only [Bool.or_true, if_true]
          exact ⟨(hjudged.trans hreject).trans hopens, hsettled⟩
      · have heq : openEngine env { w with bridge := b } = { w with bridge := b } :=
          if_neg hready
        simp only [heq]
        split
        · rename_i hdone
          obtain ⟨hopens, hsettled⟩ := releaseSlot_opens
            (w := { w with bridge := b }) hb (by simpa using hdone)
          exact ⟨hjudged.trans hopens, hsettled⟩
        · rename_i hdone
          simp only [Bool.or_eq_true, not_or, Bool.not_eq_true] at hdone
          exact ⟨hjudged, by simp [Settled, hdone, hb.slot_held hdone.1 hdone.2]⟩

/-- What `Feed` does with a datagram. -/
structure Feeds (d : Datagram) (b : Bridge) (c : Counters) (kept : Bool)
    (w : Work) : Prop where
  sound : Sound w.bridge
  settled : Settled w.bridge
  others : others w.bridge w.counters = others b c
  limit : c.initialBytes ≤ initialByteLimit →
    w.counters.initialBytes ≤ initialByteLimit
  keeps : kept = true → w.handed ++ w.bridge.initial = b.initial ++ [d]
  refuses : kept = false → w.handed = [] ∧ w.bridge.initial = b.initial ∧
    w.bridge.rejected = true
  rejected : b.rejected = true → w.handed = [] ∧ w.bridge.rejected = true

theorem refused_feeds {b : Bridge} {c : Counters} {d : Datagram} {w : Work}
    (h : Opens ⟨b, c, []⟩ w) (hclosed : w.bridge.handle = false)
    (hhanded : w.handed = []) (hinitial : w.bridge.initial = b.initial) :
    Feeds d b c false (tryOpen env (reject w)) := by
  have hreject := reject_opens h.sound hclosed
  obtain ⟨hopens, hsettled⟩ := @tryOpen_opens env (reject w) hreject.sound
  obtain ⟨hrejected, hhanded', hinitial'⟩ := hopens.rejected rfl
  have hall := (h.trans hreject).trans hopens
  have hnone : (tryOpen env (reject w)).handed = [] := hhanded'.trans hhanded
  exact ⟨hall.sound, hsettled, hall.others, hall.limit.trans, by simp,
    fun _ => ⟨hnone, hinitial'.trans hinitial, hrejected⟩,
    fun _ => ⟨hnone, hrejected⟩⟩

theorem kept_feeds {b b' : Bridge} {c : Counters} {d : Datagram} {w : Work}
    (h : Opens ⟨b, c, []⟩ w) (hclosed : w.bridge.handle = false)
    (hhanded : w.handed = []) (hinitial : w.bridge.initial = b.initial)
    (hlength : d.data.length ≤ maxDatagram)
    (hb : b' = { w.bridge with
      initial := w.bridge.initial ++ [d]
      bytes := w.bridge.bytes + d.data.length
      inspected := b'.inspected })
    (hroom : (d.data.length : Int) ≤ initialByteLimit - w.counters.initialBytes) :
    Feeds d b c true (tryOpen env
      { w with
        bridge := b'
        counters := { w.counters with
          initialBytes := w.counters.initialBytes + d.data.length } }) := by
  have hsound : Sound b' := by
    rw [hb]
    refine ⟨by simp [h.sound.bytes], by simp [hclosed], h.sound.slot, ?_⟩
    intro x hx
    obtain hx | hx := List.mem_append.1 hx
    · exact h.sound.lengths x hx
    · rw [List.mem_singleton.1 hx]
      exact hlength
  have hqueue : b'.initial = b.initial ++ [d] := by rw [hb, hinitial]
  obtain ⟨hopens, hsettled⟩ := @tryOpen_opens env
    { w with
      bridge := b'
      counters := { w.counters with
        initialBytes := w.counters.initialBytes + d.data.length } } hsound
  refine ⟨hopens.sound, hsettled, ?_, ?_, ?_, by simp, ?_⟩
  · rw [hopens.others]
    rw [← h.others, hb]
    simp only [others, slot, Counters.mk.injEq, and_true]
    omega
  · intro _
    apply hopens.limit.trans
    simp only
    omega
  · intro _
    rw [hopens.queue, hqueue]
    simp [hhanded]
  · intro hrejected
    have hw := (h.rejected hrejected).1
    have hb' : b'.rejected = true := by rw [hb]; exact hw
    obtain ⟨hrejected', hhanded', -⟩ := hopens.rejected hb'
    exact ⟨hhanded'.trans hhanded, hrejected'⟩

theorem feed_feeds {b : Bridge} {c : Counters} {d : Datagram} (h : Sound b)
    (hlength : d.data.length ≤ maxDatagram) :
    Feeds d b c (feed env d ⟨b, c, []⟩).1 (feed env d ⟨b, c, []⟩).2 := by
  unfold feed
  simp only
  split
  · rename_i hopen
    obtain ⟨hempty, hadmitting, hslot⟩ := h.opened hopen
    refine ⟨h, by simp [Settled, hopen, hslot], rfl, id, ?_, by simp, ?_⟩
    · simp [hempty]
    · simp [hadmitting]
  · rename_i hclosed
    have hclosed : b.handle = false := by simpa using hclosed
    generalize hw : (if 65536 < b.bytes + d.data.length ∨ 64 ≤ b.initial.length then
      reject ⟨b, c, []⟩ else ⟨b, c, []⟩) = w
    have hopens : Opens ⟨b, c, []⟩ w ∧ w.bridge.handle = false ∧
        w.bridge.initial = b.initial ∧ w.handed = [] := by
      rw [← hw]
      split
      · exact ⟨reject_opens h hclosed, hclosed, rfl, rfl⟩
      · exact ⟨Opens.refl h, hclosed, rfl, rfl⟩
    obtain ⟨hopens, hclosed, hinitial, hhanded⟩ := hopens
    split
    · exact refused_feeds hopens hclosed hhanded hinitial
    · rename_i hroom
      split
      · exact refused_feeds hopens hclosed hhanded hinitial
      · apply kept_feeds hopens hclosed hhanded hinitial hlength
        · split <;> rfl
        · omega

/-! ## Accounts of a drain -/

structure Drains (w w' : Drain) : Prop where
  sound : Sound w'.bridge
  settled : Settled w'.bridge
  others : others w'.bridge w'.counters = others w.bridge w.counters
  limit : w'.counters.initialBytes ≤ w.counters.initialBytes
  queue : w'.passed ++ w'.bridge.initial = w.passed ++ w.bridge.initial
  admitting : w.bridge.rejected = false → w'.passed = w.passed
  rejected : w'.bridge.rejected = w.bridge.rejected

theorem Drains.trans {w w' w'' : Drain} (h : Drains w w') (k : Drains w' w'') :
    Drains w w'' where
  sound := k.sound
  settled := k.settled
  others := k.others.trans h.others
  limit := k.limit.trans h.limit
  queue := k.queue.trans h.queue
  admitting hr := (k.admitting (h.rejected.trans hr)).trans (h.admitting hr)
  rejected := k.rejected.trans h.rejected

theorem Drains.refl {w : Drain} (h : Sound w.bridge) (hs : Settled w.bridge) :
    Drains w w :=
  ⟨h, hs, rfl, Int.le_refl _, rfl, fun _ => rfl, rfl⟩

private theorem peek_queue {b : Bridge} {side : Side} (hclosed : b.handle = false)
    (h : peek b side ≠ []) :
    ∃ d rest, side = .server ∧ b.initial = d :: rest ∧ b.rejected = true := by
  simp only [peek, hclosed, Bool.false_eq_true, if_false] at h
  split at h
  · rename_i d rest hinitial
    split at h
    · rename_i hshown
      simp only [Bool.and_eq_true] at hshown
      exact ⟨d, rest, rfl, hinitial, hshown.1⟩
    · exact absurd rfl h
  · exact absurd rfl h

theorem consume_drains {w : Drain} {side : Side} (h : Sound w.bridge)
    (hs : Settled w.bridge) (hpeek : peek w.bridge side ≠ []) :
    Drains w (consume side w) := by
  unfold consume
  split
  · rename_i hopen
    cases side <;> exact ⟨⟨h.bytes, h.opened, h.slot, h.lengths⟩, hs, rfl,
      Int.le_refl _, rfl, fun _ => rfl, rfl⟩
  · rename_i hclosed
    have hclosed : w.bridge.handle = false := by simpa using hclosed
    obtain ⟨d, rest, rfl, hinitial, hrejected⟩ := peek_queue hclosed hpeek
    have hbytes : w.bridge.bytes = d.data.length + size rest := by
      rw [h.bytes, hinitial, size_cons]
    simp only [hinitial]
    refine ⟨⟨?_, ?_, h.slot, ?_⟩, hs, ?_, ?_, ?_, ?_, rfl⟩
    · simp only
      omega
    · simp [hclosed]
    · intro x hx
      apply h.lengths x
      rw [hinitial]
      exact List.mem_cons_of_mem _ hx
    · simp only [others, slot, Counters.mk.injEq, and_true]
      omega
    · simp only
      omega
    · simp [hinitial]
    · simp [hrejected]

theorem drain_drains {w : Drain} {side : Side} {takes : Nat → Bool} {n : Nat}
    (h : Sound w.bridge) (hs : Settled w.bridge) :
    Drains w (drain side takes n w) := by
  induction n generalizing w with
  | zero => exact Drains.refl h hs
  | succ n ih =>
    simp only [drain]
    split
    · exact Drains.refl h hs
    · rename_i hpeek
      split
      · have hconsume := consume_drains h hs hpeek
        exact hconsume.trans (ih hconsume.sound hconsume.settled)
      · exact Drains.refl h hs

end QuicBridge

end ProxyLane.Hook
