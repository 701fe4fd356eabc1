import ProxyLane.Foundation.JsonText
import ProxyLane.Foundation.Run

/-!
# Control of the capture runtime

The requests of `plm_protocol` that start, stop and shut down the capture or
open a recording hold one lock.  Settings change beside them, and arriving
connections take the runtime out of its slot or put the first one into it.
Each section under one lock is one step; a runtime that nobody holds any more
is shut down when it is dropped.
-/

namespace ProxyLane.Mitm.Control

open ProxyLane.Foundation

/-! ## The options -/

structure RecordingOptions where
  enabled : Bool := false
  directory : String := ""
  capacityMib : Nat := 8192
  reserveMib : Nat := 512
  deriving DecidableEq

structure Options where
  recording : RecordingOptions := {}
  entryMib : Nat := 32
  totalMib : Nat := 512
  historyRows : Nat := 512
  previewKib : Nat := 64
  decodeMib : Nat := 4
  connections : Nat := 128
  pendingRequests : Nat := 8
  udpPackets : Nat := 256
  handshakeSeconds : Nat := 15
  deriving DecidableEq

namespace Options

def ranges (o : Options) : List (String × Nat × Nat × Nat) :=
  [("entry_mib", o.entryMib, 1, 1024), ("total_mib", o.totalMib, 16, 8192),
    ("history_rows", o.historyRows, 128, 10000),
    ("preview_kib", o.previewKib, 16, 1024),
    ("decode_mib", o.decodeMib, 1, 64),
    ("connections", o.connections, 1, 256),
    ("pending_requests", o.pendingRequests, 1, 256),
    ("udp_packets", o.udpPackets, 16, 4096),
    ("handshake_seconds", o.handshakeSeconds, 5, 120)]

def directoryError (path : String) : String :=
  let detail :=
    "Recording directory must be an absolute path (at most 2048 UTF-8 bytes)."
  String.ofList (Json.object [("error", .str "recording_directory_error"),
    ("path", .str path), ("detail", .str detail)]).text

def rangeError : List (String × Nat × Nat × Nat) → Option String
  | [] => none
  | (name, value, min, max) :: rest =>
    if min ≤ value ∧ value ≤ max then rangeError rest
    else some (name ++ " must be between " ++ toString min ++ " and " ++
      toString max)

def validate (isAbsolute : String → Bool) (o : Options) :
    Except String Unit :=
  let r := o.recording
  if ¬ ((16 ≤ r.capacityMib ∧ r.capacityMib ≤ 1048576) ∧
      (16 ≤ r.reserveMib ∧ r.reserveMib ≤ 1048576)) then
    .error "recording capacity/reserve must be between 16 and 1048576 MiB"
  else if r.enabled ∧ (r.directory = "" ∨ 2048 < r.directory.utf8ByteSize ∨
      isAbsolute r.directory = false) then
    .error (directoryError r.directory)
  else match rangeError o.ranges with
    | some e => .error e
    | none =>
      if o.totalMib < o.entryMib then
        .error "Single payload limit must not exceed total cache limit"
      else .ok ()

def sameAnalysis (o other : Options) : Bool :=
  let a := { o with previewKib := 0, handshakeSeconds := 0 }
  let b := { other with previewKib := 0, handshakeSeconds := 0 }
  a == b

end Options

/-! ## The runtime -/

structure CacheConfig where
  entryBytes : Nat := 0
  totalBytes : Nat := 0
  maxEntries : Nat := 0
  queueChunks : Option Nat := none
  root : Option String := none
  /-- Bytes in all and bytes kept free, of a recording. -/
  recording : Option (Nat × Nat) := none

structure Cache where
  recording : Bool
  workerError : Option String := none
  deriving DecidableEq

structure Runtime where
  options : Options := {}
  cache : Option Cache := none
  failure : Option String := none
  captureEpoch : Nat := 1
  deriving DecidableEq

namespace Runtime

def workerError (r : Runtime) : Option String :=
  r.failure <|> r.cache.bind Cache.workerError

def isRecording (r : Runtime) : Bool := r.cache.any Cache.recording

def startCapture (r : Runtime) : Runtime :=
  if r.captureEpoch % 2 = 0 then { r with captureEpoch := r.captureEpoch + 1 }
  else r

/-- The gate of `stop_capture`. -/
def closeGate (r : Runtime) : Runtime :=
  if r.captureEpoch % 2 ≠ 0 then { r with captureEpoch := r.captureEpoch + 1 }
  else r

end Runtime

structure Answers where
  cacheRoot : Option String := none
  entryBytes : Option (Option Nat) := none
  totalBytes : Option (Option Nat) := none
  random : Except String Unit := .ok ()
  cacheNew : CacheConfig → Except String Unit := fun _ => .ok ()
  spawn : Except String Unit := .ok ()
  /-- `stop_capture` or `shutdown` of a runtime. -/
  finish : Except String Unit := .ok ()
  /-- The run of the recording that was opened. -/
  reader : Except String String := .ok ""

def mib (n : Nat) : Nat := n * 1024 * 1024

def environmentLimit (name : String) (given : Option (Option Nat))
    (configured : Nat) : Except String Nat :=
  match given with
  | none => .ok configured
  | some none => .error ("invalid " ++ name)
  | some (some n) => .ok n

def withOptions (isAbsolute : String → Bool) (a : Answers)
    (config : CacheConfig) (options : Options) : Except String Runtime := do
  options.validate isAbsolute
  a.random
  let cache ← match a.cacheNew config, config.recording with
    | .ok (), _ => pure (some { recording := config.recording.isSome })
    | .error e, some _ => throw e
    | .error _, none => pure none
  a.spawn
  pure { options, cache }

def configured (isAbsolute : String → Bool) (a : Answers)
    (options : Options) : Except String Runtime := do
  let entryBytes ← environmentLimit "PROXYLANE_PROTOCOL_ENTRY_BYTES"
    a.entryBytes (mib options.entryMib)
  let totalBytes ← environmentLimit "PROXYLANE_PROTOCOL_TOTAL_BYTES"
    a.totalBytes (mib options.totalMib)
  let config : CacheConfig := {
    entryBytes, totalBytes
    maxEntries := max (options.historyRows * 2) 4096, root := a.cacheRoot }
  let r := options.recording
  let recording := { config with
    queueChunks := some 1024, root := some r.directory
    recording := some (mib r.capacityMib, mib r.reserveMib) }
  withOptions isAbsolute a (if r.enabled then recording else config) options

inductive RecordingRequest where
  | recordingOpen (path : Option String)
  | recordingClose
  deriving DecidableEq

/-- The requests that hold `PROTOCOL_CONTROL`. -/
inductive Request where
  | analysisStart
  | analysisStop
  | shutdown
  | recording (request : RecordingRequest)
  deriving DecidableEq

inductive Reply where
  | started (reset : Bool)
  | stopped
  | opened (run : String)
  | closed
  deriving DecidableEq

inductive Phase where
  | idle
  | viewCheck (request : RecordingRequest)
  | viewSection (request : RecordingRequest)
  | startCheck
  | startDisable
  | startSlot
  | startShutdown (changed : Bool) (old : Nat)
  | startOptions (changed : Bool)
  | startConfigured (changed : Bool)
  | startInstall (changed : Bool) (runtime : Nat)
  | startEnable (changed : Bool)
  | stopSlot (shutdown : Bool)
  | stopCapture (runtime : Nat)
  | shutdownRuntime (runtime : Nat)
  deriving DecidableEq

structure State where
  /-- The mutexes `OPTIONS`, `RECORDING_VIEW` and `PROTOCOL`. -/
  options : Option Options := none
  view : Option String := none
  slot : Option Nat := none
  monitoring : Bool := false
  skipUpstreamVerify : Bool := false
  phase : Phase := .idle
  /-- Every runtime that was made, by its number. -/
  runtimes : Nat → Runtime := fun _ => {}
  next : Nat := 0
  /-- One entry for each connection or query that holds a runtime. -/
  holders : List Nat := []
  /-- What was ever put into the slot, and what was passed to `shutdown`. -/
  installed : List Nat := []
  shutDown : List Nat := []

inductive Output where
  | quiet
  | answered (request : Request) (result : Except String Reply)
  | runtime (id epoch : Nat)
  | refused (error : String)
  | settings (result : Except String (Bool × Options))

namespace State

def currentOptions (s : State) : Options := s.options.getD {}

def update (s : State) (id : Nat) (f : Runtime → Runtime) : State :=
  { s with runtimes := Function.update s.runtimes id (f (s.runtimes id)) }

def finish (s : State) (request : Request) (result : Except String Reply) :
    State × Output :=
  ({ s with phase := .idle }, .answered request result)

def enter (s : State) (phase : Phase) : State × Output :=
  ({ s with phase }, .quiet)

def viewCheck (s : State) (request : RecordingRequest) : State × Output :=
  if s.monitoring then
    s.finish (.recording request)
      (.error "Stop monitoring before opening a recording.")
  else s.enter (.viewSection request)

def viewSection (s : State) (a : Answers) (request : RecordingRequest) :
    State × Output :=
  match request with
  | .recordingClose =>
    { s with view := none }.finish (.recording request) (.ok .closed)
  | .recordingOpen none =>
    s.finish (.recording request) (.error "missing recording directory")
  | .recordingOpen (some _) =>
    match a.reader with
    | .error e => s.finish (.recording request) (.error e)
    | .ok run =>
      { s with view := some run }.finish (.recording request) (.ok (.opened run))

def startCheck (s : State) : State × Output :=
  if s.view.isSome then
    s.finish .analysisStart
      (.error "Close the recording view before starting monitoring.")
  else s.enter .startDisable

def startDisable (s : State) : State × Output :=
  { s with monitoring := false }.enter .startSlot

def changed (s : State) : Bool :=
  s.slot.any fun id =>
    let r := s.runtimes id
    r.workerError.isSome || r.isRecording || !r.options.sameAnalysis s.currentOptions

def startSlot (s : State) : State × Output :=
  match s.slot with
  | none => s.enter (.startOptions false)
  | some id =>
    if s.changed then { s with slot := none }.enter (.startShutdown true id)
    else (s.update id Runtime.startCapture).enter (.startOptions false)

def startShutdown (s : State) (a : Answers) (changed : Bool) (old : Nat) :
    State × Output :=
  let s := { s with shutDown := old :: s.shutDown }
  match a.finish with
  | .error e => s.finish .analysisStart (.error e)
  | .ok () => s.enter (.startOptions changed)

def startOptions (s : State) (changed : Bool) : State × Output :=
  if s.currentOptions.recording.enabled then s.enter (.startConfigured changed)
  else s.enter (.startEnable changed)

def create (s : State) (r : Runtime) : State :=
  { s with
    runtimes := Function.update s.runtimes s.next r, next := s.next + 1 }

def startConfigured (isAbsolute : String → Bool) (s : State) (a : Answers)
    (changed : Bool) : State × Output :=
  match configured isAbsolute a s.currentOptions with
  | .error e => s.finish .analysisStart (.error e)
  | .ok r => (s.create r).enter (.startInstall changed s.next)

def dropSlot (s : State) : State :=
  match s.slot with
  | none => s
  | some old =>
    if old ∈ s.holders then s else { s with shutDown := old :: s.shutDown }

def install (s : State) (id : Nat) : State :=
  { s with slot := some id, installed := id :: s.installed }

def startInstall (s : State) (changed : Bool) (runtime : Nat) :
    State × Output :=
  (s.dropSlot.install runtime).enter (.startEnable changed)

def startEnable (s : State) (changed : Bool) : State × Output :=
  { s with monitoring := true }.finish .analysisStart (.ok (.started changed))

def stopSlot (s : State) : Bool → State × Output
  | true =>
    match s.slot with
    | none => s.finish .shutdown (.ok .stopped)
    | some id => { s with slot := none }.enter (.shutdownRuntime id)
  | false =>
    let s := { s with monitoring := false }
    match s.slot with
    | none => s.finish .analysisStop (.ok .stopped)
    | some id => s.enter (.stopCapture id)

def stopCapture (s : State) (a : Answers) (runtime : Nat) : State × Output :=
  (s.update runtime Runtime.closeGate).finish .analysisStop
    (a.finish.map fun _ => .stopped)

def shutdownRuntime (s : State) (a : Answers) (runtime : Nat) :
    State × Output :=
  { s with shutDown := runtime :: s.shutDown }.finish .shutdown
    (a.finish.map fun _ => .stopped)

def advance (isAbsolute : String → Bool) (s : State) (a : Answers) :
    State × Output :=
  match s.phase with
  | .idle => (s, .quiet)
  | .viewCheck request => s.viewCheck request
  | .viewSection request => s.viewSection a request
  | .startCheck => s.startCheck
  | .startDisable => s.startDisable
  | .startSlot => s.startSlot
  | .startShutdown changed old => s.startShutdown a changed old
  | .startOptions changed => s.startOptions changed
  | .startConfigured changed => s.startConfigured isAbsolute a changed
  | .startInstall changed runtime => s.startInstall changed runtime
  | .startEnable changed => s.startEnable changed
  | .stopSlot shutdown => s.stopSlot shutdown
  | .stopCapture runtime => s.stopCapture a runtime
  | .shutdownRuntime runtime => s.shutdownRuntime a runtime

def begin (s : State) (request : Request) : State × Output :=
  match s.phase with
  | .idle =>
    match request with
    | .analysisStart => s.enter .startCheck
    | .recording request => s.enter (.viewCheck request)
    | .analysisStop => s.enter (.stopSlot false)
    | .shutdown => s.enter (.stopSlot true)
  | _ => (s, .quiet)

/-! ## Connections, queries and settings -/

def hold (s : State) (id : Nat) : State :=
  { s with holders := id :: s.holders }

def protocolRuntime (isAbsolute : String → Bool) (s : State) (a : Answers) :
    State × Output :=
  if s.monitoring = false then (s, .refused "monitoring stopped")
  else match s.slot with
    | some id => (s.hold id, .runtime id (s.runtimes id).captureEpoch)
    | none =>
      match configured isAbsolute a s.currentOptions with
      | .error e => (s, .refused e)
      | .ok r =>
        (((s.create r).install s.next).hold s.next,
          .runtime s.next r.captureEpoch)

def query (s : State) : State :=
  match s.slot with
  | none => s
  | some id => s.hold id

def hand (s : State) : Option Nat :=
  match s.phase with
  | .startShutdown _ id | .shutdownRuntime id => some id
  | _ => none

def release (s : State) (id : Nat) : State :=
  if id ∈ s.holders then
    let s := { s with holders := s.holders.erase id }
    if id ∈ s.holders ∨ s.slot = some id ∨ s.hand = some id then s
    else { s with shutDown := id :: s.shutDown }
  else s

def mitmOptions (isAbsolute : String → Bool) (s : State)
    (settings : Option (Except String Options)) (validateOnly : Bool)
    (skip : Option (Option Bool)) : State × Output :=
  if skip = some none then
    (s, .settings (.error "invalid verification option"))
  else
    let verified : Option (Except String Options) := settings.map fun given =>
      given.bind fun o => (o.validate isAbsolute).map fun _ => o
    match verified with
    | some (.error e) => (s, .settings (.error e))
    | some (.ok o) =>
      let s := if validateOnly then s else { s with
        options := some o
        skipUpstreamVerify := (skip.bind id).getD s.skipUpstreamVerify }
      (s, .settings (.ok (s.skipUpstreamVerify, o)))
    | none =>
      let s := if validateOnly then s else { s with
        skipUpstreamVerify := (skip.bind id).getD s.skipUpstreamVerify }
      (s, .settings (.ok (s.skipUpstreamVerify, s.currentOptions)))

end State

inductive Event where
  | request (r : Request)
  | advance (a : Answers)
  | connection (a : Answers)
  | query
  | release (id : Nat)
  | mitmOptions (settings : Option (Except String Options))
      (validateOnly : Bool) (skip : Option (Option Bool))
  | workerFails (id : Nat) (reason : String)

open State

def step (isAbsolute : String → Bool) (s : State) : Event → State × Output
  | .request r => s.begin r
  | .advance a => s.advance isAbsolute a
  | .connection a => s.protocolRuntime isAbsolute a
  | .query => (s.query, .quiet)
  | .release id => (s.release id, .quiet)
  | .mitmOptions settings validateOnly skip =>
    s.mitmOptions isAbsolute settings validateOnly skip
  | .workerFails id reason =>
    (s.update id fun r => { r with failure := r.failure <|> some reason }, .quiet)

def next (isAbsolute : String → Bool) (s : State) (e : Event) : State :=
  (step isAbsolute s e).1

/-! ## What every section keeps -/

namespace Phase

def viewing : Phase → Bool
  | .viewSection _ => true
  | _ => false

def starting : Phase → Bool
  | .startDisable | .startSlot | .startShutdown .. | .startOptions _
  | .startConfigured _ | .startInstall .. | .startEnable _ => true
  | _ => false

def disabled : Phase → Bool
  | .startSlot | .startShutdown .. | .startOptions _ | .startConfigured _
  | .startInstall .. | .startEnable _ | .stopCapture _ => true
  | _ => false

def made : Phase → Option Nat
  | .startInstall _ id => some id
  | _ => none

end Phase

structure Inv (s : State) : Prop where
  monitoring : s.monitoring = true → s.view = none
  viewing : s.phase.viewing = true → s.monitoring = false
  starting : s.phase.starting = true → s.view = none
  disabled : s.phase.disabled = true → s.monitoring = false
  installed : ∀ id ∈ s.installed, id < s.next
  shutDown : ∀ id ∈ s.shutDown, id < s.next
  holders : ∀ id ∈ s.holders, id < s.next
  made : ∀ id, s.phase.made = some id →
    id < s.next ∧ id ∉ s.installed ∧ id ∉ s.shutDown ∧ id ∉ s.holders
  slot : ∀ id, s.slot = some id → id ∈ s.installed ∧ id ∉ s.shutDown
  hand : ∀ id, s.hand = some id → id ∈ s.installed ∧ s.slot ≠ some id

theorem inv_init : Inv {} := by
  constructor <;> simp [Phase.viewing, Phase.starting, Phase.disabled,
    Phase.made, State.hand]

section Sections

variable {isAbsolute : String → Bool} {s : State} {a : Answers}

variable {p : Phase}

theorem Inv.enter (h : Inv s) (hviewing : p.viewing = true → s.monitoring = false)
    (hstarting : p.starting = true → s.view = none)
    (hdisabled : p.disabled = true → s.monitoring = false) (hmade : p.made = none)
    (hhand : { s with phase := p }.hand = none) :
    Inv { s with phase := p } where
  monitoring := h.monitoring
  viewing := hviewing
  starting := hstarting
  disabled := hdisabled
  installed := h.installed
  shutDown := h.shutDown
  holders := h.holders
  made := by simp [hmade]
  slot := h.slot
  hand := by simp [hhand]

theorem Inv.idle (h : Inv s) : Inv { s with phase := .idle } :=
  h.enter nofun nofun nofun rfl rfl

theorem Inv.start (h : Inv s) (hview : s.view = none)
    (hoff : s.monitoring = false) (hp : p.viewing = false)
    (hmade : p.made = none) (hhand : { s with phase := p }.hand = none) :
    Inv { s with phase := p } :=
  h.enter (by simp [hp]) (fun _ => hview) (fun _ => hoff) hmade hhand

theorem Inv.update (h : Inv s) (id : Nat) (f : Runtime → Runtime) :
    Inv (s.update id f) := by
  obtain ⟨h1, h2, h3, h4, h5, h6, h7, h8, h9, h10⟩ := h
  exact ⟨h1, h2, h3, h4, h5, h6, h7, h8, h9, h10⟩

variable {id : Nat}

theorem Inv.shut (h : Inv s) (hid : id < s.next)
    (hslot : s.slot ≠ some id) (hmade : s.phase.made ≠ some id) :
    Inv { s with shutDown := id :: s.shutDown } where
  monitoring := h.monitoring
  viewing := h.viewing
  starting := h.starting
  disabled := h.disabled
  installed := h.installed
  shutDown := by
    intro id' hmem
    rcases List.mem_cons.mp hmem with rfl | hmem
    · exact hid
    · exact h.shutDown id' hmem
  holders := h.holders
  made id' heq := by
    obtain ⟨hlt, hinstalled, hshut, hholders⟩ := h.made id' heq
    have hne : id' ≠ id := by rintro rfl; exact hmade heq
    exact ⟨hlt, hinstalled, by simp [hne, hshut], hholders⟩
  slot id' heq := by
    obtain ⟨hinstalled, hshut⟩ := h.slot id' heq
    have hne : id' ≠ id := by rintro rfl; exact hslot heq
    exact ⟨hinstalled, by simp [hne, hshut]⟩
  hand := h.hand

theorem Inv.viewed (h : Inv s) (hoff : s.monitoring = false)
    (hphase : s.phase.starting = false) (view : Option String) :
    Inv { s with view } where
  monitoring hon := absurd (hoff ▸ hon) (by simp)
  viewing := h.viewing
  starting hp := absurd (hphase ▸ hp) (by simp)
  disabled := h.disabled
  installed := h.installed
  shutDown := h.shutDown
  holders := h.holders
  made := h.made
  slot := h.slot
  hand := h.hand

theorem Inv.switchedOff (h : Inv s) : Inv { s with monitoring := false } where
  monitoring := nofun
  viewing _ := rfl
  starting := h.starting
  disabled _ := rfl
  installed := h.installed
  shutDown := h.shutDown
  holders := h.holders
  made := h.made
  slot := h.slot
  hand := h.hand

/-! ## The sections of a request -/

theorem inv_viewCheck (h : Inv s) (request : RecordingRequest) :
    Inv (s.viewCheck request).1 := by
  by_cases hon : s.monitoring = true
  · simp only [viewCheck, hon, if_true]
    exact h.idle
  · simp only [viewCheck, hon, Bool.false_eq_true, if_false]
    exact h.enter (fun _ => by simpa using hon) nofun nofun rfl rfl

theorem inv_viewSection {request : RecordingRequest} (h : Inv s)
    (hphase : s.phase = .viewSection request) :
    Inv (s.viewSection a request).1 := by
  have hoff : s.monitoring = false := h.viewing (by simp [hphase, Phase.viewing])
  have hview : ∀ view, Inv { s with view } :=
    h.viewed hoff (by simp [hphase, Phase.starting])
  cases request with
  | recordingOpen path =>
    cases path with
    | none => exact h.idle
    | some path =>
      simp only [viewSection]
      cases a.reader with
      | error e => exact h.idle
      | ok run => exact (hview _).idle
  | recordingClose => exact (hview _).idle

theorem inv_startCheck (h : Inv s) : Inv s.startCheck.1 := by
  cases hview : s.view with
  | some run =>
    simp only [startCheck, hview, Option.isSome_some, if_true]
    exact h.idle
  | none =>
    simp only [startCheck, hview, Option.isSome_none, Bool.false_eq_true, if_false]
    exact h.enter nofun (fun _ => hview) nofun rfl rfl

theorem inv_startDisable (h : Inv s) (hphase : s.phase = .startDisable) :
    Inv s.startDisable.1 :=
  h.switchedOff.start (h.starting (by simp [hphase, Phase.starting])) rfl rfl
    rfl rfl

theorem inv_startSlot (h : Inv s) (hphase : s.phase = .startSlot) :
    Inv s.startSlot.1 := by
  have hview : s.view = none := h.starting (by simp [hphase, Phase.starting])
  have hoff : s.monitoring = false :=
    h.disabled (by simp [hphase, Phase.disabled])
  cases hslot : s.slot with
  | none =>
    simp only [startSlot, hslot]
    exact h.start hview hoff rfl rfl rfl
  | some id =>
    simp only [startSlot, hslot]
    split
    · constructor <;> simp [State.enter, Phase.viewing, Phase.made,
        State.hand, hview, hoff]
      · exact h.installed
      · exact h.shutDown
      · exact h.holders
      · exact (h.slot id hslot).1
    · exact (h.update id _).start hview hoff rfl rfl rfl

theorem inv_startShutdown {changed : Bool} {old : Nat} (h : Inv s)
    (hphase : s.phase = .startShutdown changed old) :
    Inv (s.startShutdown a changed old).1 := by
  have hview : s.view = none := h.starting (by simp [hphase, Phase.starting])
  have hoff : s.monitoring = false :=
    h.disabled (by simp [hphase, Phase.disabled])
  have hold := h.hand old (by simp [State.hand, hphase])
  have hshut := h.shut (h.installed old hold.1) hold.2 (by simp [hphase, Phase.made])
  simp only [startShutdown]
  cases a.finish with
  | error e => exact hshut.idle
  | ok _ => exact hshut.start hview hoff rfl rfl rfl

theorem inv_startOptions {changed : Bool} (h : Inv s)
    (hphase : s.phase = .startOptions changed) :
    Inv (s.startOptions changed).1 := by
  have hview : s.view = none := h.starting (by simp [hphase, Phase.starting])
  have hoff : s.monitoring = false :=
    h.disabled (by simp [hphase, Phase.disabled])
  simp only [startOptions]
  split
  · exact h.start hview hoff rfl rfl rfl
  · exact h.start hview hoff rfl rfl rfl

theorem inv_startConfigured {changed : Bool} (h : Inv s)
    (hphase : s.phase = .startConfigured changed) :
    Inv (s.startConfigured isAbsolute a changed).1 := by
  have hview : s.view = none := h.starting (by simp [hphase, Phase.starting])
  have hoff : s.monitoring = false :=
    h.disabled (by simp [hphase, Phase.disabled])
  have hnext : s.next ∉ s.installed ∧ s.next ∉ s.shutDown ∧
      s.next ∉ s.holders :=
    ⟨fun hmem => by have := h.installed _ hmem; omega,
      fun hmem => by have := h.shutDown _ hmem; omega,
      fun hmem => by have := h.holders _ hmem; omega⟩
  simp only [startConfigured]
  cases configured isAbsolute a s.currentOptions with
  | error e => exact h.idle
  | ok r =>
    constructor <;> simp [State.enter, create, Phase.viewing, Phase.made,
      State.hand, hview, hoff]
    · exact fun id hmem => (h.installed id hmem).le
    · exact fun id hmem => (h.shutDown id hmem).le
    · exact fun id hmem => (h.holders id hmem).le
    · exact hnext
    · exact fun id => h.slot id

theorem Inv.dropSlot (h : Inv s) :
    Inv { s.dropSlot with slot := none } := by
  have hbase : Inv { s with slot := none } := by
    obtain ⟨h1, h2, h3, h4, h5, h6, h7, h8, h9, h10⟩ := h
    exact ⟨h1, h2, h3, h4, h5, h6, h7, h8, nofun,
      fun id heq => ⟨(h10 id heq).1, nofun⟩⟩
  cases hslot : s.slot with
  | none => simpa [State.dropSlot, hslot] using hbase
  | some old =>
    by_cases hheld : old ∈ s.holders
    · simpa [State.dropSlot, hslot, hheld] using hbase
    · have hold := (h.slot old hslot).1
      have hmade : s.phase.made ≠ some old := fun hmade =>
        (h.made old hmade).2.1 hold
      have hshut := hbase.shut (h.installed old hold) nofun hmade
      simpa [State.dropSlot, hslot, hheld] using hshut

variable {runtime : Nat}

theorem inv_startInstall {changed : Bool} (h : Inv s)
    (hphase : s.phase = .startInstall changed runtime) :
    Inv (s.startInstall changed runtime).1 := by
  have hdropped := h.dropSlot
  have hkept : s.dropSlot.phase = s.phase := by
    simp only [State.dropSlot]
    split
    · rfl
    · split <;> rfl
  have hmade := hdropped.made runtime (by simp [hkept, hphase, Phase.made])
  have hview := hdropped.starting (by simp [hkept, hphase, Phase.starting])
  have hoff := hdropped.disabled (by simp [hkept, hphase, Phase.disabled])
  obtain ⟨h1, h2, h3, h4, h5, h6, h7, h8, h9, h10⟩ := hdropped
  constructor <;> simp [startInstall, State.enter, install, Phase.viewing,
    Phase.made, State.hand]
  · exact h1
  · exact fun _ => hview
  · exact fun _ => hoff
  · exact ⟨hmade.1, h5⟩
  · exact h6
  · exact h7
  · exact hmade.2.2.1

theorem inv_startEnable {changed : Bool} (h : Inv s)
    (hphase : s.phase = .startEnable changed) :
    Inv (s.startEnable changed).1 := by
  have hview : s.view = none := h.starting (by simp [hphase, Phase.starting])
  have hidle := h.idle
  obtain ⟨h1, h2, h3, h4, h5, h6, h7, h8, h9, h10⟩ := hidle
  exact ⟨fun _ => hview, nofun, nofun, nofun, h5, h6, h7, nofun, h9, nofun⟩

theorem inv_stopSlot (h : Inv s) (shutdown : Bool) :
    Inv (s.stopSlot shutdown).1 := by
  cases shutdown with
  | true =>
    cases hslot : s.slot with
    | none =>
      simp only [stopSlot, hslot]
      exact h.idle
    | some id =>
      simp only [stopSlot, hslot]
      constructor <;> simp [State.enter, Phase.viewing, Phase.starting,
        Phase.disabled, Phase.made, State.hand]
      · exact h.monitoring
      · exact h.installed
      · exact h.shutDown
      · exact h.holders
      · exact (h.slot id hslot).1
  | false =>
    simp only [stopSlot]
    split
    · exact h.switchedOff.idle
    · exact h.switchedOff.enter nofun nofun (fun _ => rfl) rfl rfl

private theorem inv_shutdownRuntime (h : Inv s)
    (hphase : s.phase = .shutdownRuntime runtime) :
    Inv (s.shutdownRuntime a runtime).1 := by
  have hhand := h.hand runtime (by simp [State.hand, hphase])
  exact (h.shut (h.installed runtime hhand.1) hhand.2
    (by simp [hphase, Phase.made])).idle

theorem inv_advance (h : Inv s) : Inv (s.advance isAbsolute a).1 := by
  simp only [advance]
  split <;> rename_i hphase
  · exact h
  · exact inv_viewCheck h _
  · exact inv_viewSection h hphase
  · exact inv_startCheck h
  · exact inv_startDisable h hphase
  · exact inv_startSlot h hphase
  · exact inv_startShutdown h hphase
  · exact inv_startOptions h hphase
  · exact inv_startConfigured h hphase
  · exact inv_startInstall h hphase
  · exact inv_startEnable h hphase
  · exact inv_stopSlot h _
  · exact (h.update _ _).idle
  · exact inv_shutdownRuntime h hphase

theorem inv_begin (h : Inv s) (request : Request) :
    Inv (s.begin request).1 := by
  simp only [State.begin]
  split
  · cases request <;> exact h.enter nofun nofun nofun rfl rfl
  · exact h

/-! ## Everything else -/

theorem Inv.hold (h : Inv s) (hid : id < s.next)
    (hmade : s.phase.made ≠ some id) : Inv (s.hold id) := by
  obtain ⟨h1, h2, h3, h4, h5, h6, h7, h8, h9, h10⟩ := h
  refine ⟨h1, h2, h3, h4, h5, h6, ?_, ?_, h9, h10⟩
  · intro id' hmem
    rcases List.mem_cons.mp hmem with rfl | hmem
    · exact hid
    · exact h7 id' hmem
  · intro id' heq
    have hne : id' ≠ id := by rintro rfl; exact hmade heq
    obtain ⟨hlt, hinstalled, hshut, hholders⟩ := h8 id' heq
    exact ⟨hlt, hinstalled, hshut, by simp [State.hold, hne, hholders]⟩

theorem Inv.holdSlot (h : Inv s) (hslot : s.slot = some id) :
    Inv (s.hold id) := by
  have hinstalled := (h.slot id hslot).1
  exact h.hold (h.installed id hinstalled)
    fun hmade => (h.made id hmade).2.1 hinstalled

theorem Inv.made_none (h : Inv s) (hon : s.monitoring = true) :
    s.phase.made = none := by
  cases hphase : s.phase with
  | startInstall changed id =>
    have hoff := h.disabled (by simp [hphase, Phase.disabled])
    simp [hon] at hoff
  | _ => rfl

theorem Inv.installNew (h : Inv s) (hmade : s.phase.made = none)
    (r : Runtime) : Inv ((s.create r).install s.next) := by
  have hnext : s.next ∉ s.shutDown := fun hmem => by
    have := h.shutDown _ hmem
    omega
  obtain ⟨h1, h2, h3, h4, h5, h6, h7, h8, h9, h10⟩ := h
  refine ⟨h1, h2, h3, h4, ?_, fun id hmem => Nat.lt_succ_of_lt (h6 id hmem),
    fun id hmem => Nat.lt_succ_of_lt (h7 id hmem), ?_, ?_, ?_⟩
  · intro id hmem
    rcases List.mem_cons.mp hmem with rfl | hmem
    · exact Nat.lt_succ_self _
    · exact Nat.lt_succ_of_lt (h5 id hmem)
  · intro id heq
    exact absurd (hmade.symm.trans heq) nofun
  · intro id heq
    obtain rfl : s.next = id := by simpa [install] using heq
    exact ⟨List.mem_cons_self, hnext⟩
  · intro id heq
    obtain ⟨hinstalled, -⟩ := h10 id heq
    refine ⟨List.mem_cons_of_mem _ hinstalled, fun hslot => ?_⟩
    obtain rfl : s.next = id := by simpa [install] using hslot
    exact absurd (h5 _ hinstalled) (Nat.lt_irrefl _)

theorem inv_protocolRuntime (h : Inv s) :
    Inv (s.protocolRuntime isAbsolute a).1 := by
  by_cases hon : s.monitoring = false
  · simpa [protocolRuntime, hon] using h
  · have hmade := h.made_none (by simpa using hon)
    simp only [protocolRuntime, hon]
    cases hslot : s.slot with
    | some id => exact h.holdSlot hslot
    | none =>
      cases configured isAbsolute a s.currentOptions with
      | error e => exact h
      | ok r =>
        have hnew := h.installNew hmade r
        refine hnew.hold (Nat.lt_succ_self _) fun heq => ?_
        exact absurd (hmade.symm.trans heq) nofun

theorem inv_query (h : Inv s) : Inv s.query := by
  simp only [State.query]
  cases hslot : s.slot with
  | none => exact h
  | some id => exact h.holdSlot hslot

theorem inv_release (h : Inv s) (id : Nat) : Inv (s.release id) := by
  by_cases hheld : id ∈ s.holders
  · have hfewer : Inv { s with holders := s.holders.erase id } := by
      obtain ⟨h1, h2, h3, h4, h5, h6, h7, h8, h9, h10⟩ := h
      refine ⟨h1, h2, h3, h4, h5, h6,
        fun id' hmem => h7 id' (List.mem_of_mem_erase hmem), ?_, h9, h10⟩
      intro id' heq
      obtain ⟨hlt, hinstalled, hshut, hholders⟩ := h8 id' heq
      exact ⟨hlt, hinstalled, hshut,
        fun hmem => hholders (List.mem_of_mem_erase hmem)⟩
    simp only [release, hheld, if_true]
    split
    · exact hfewer
    · rename_i hlast
      simp only [not_or] at hlast
      exact hfewer.shut (h.holders id hheld) hlast.2.1
        fun hmade => (h.made id hmade).2.2.2 hheld
  · simpa [release, hheld] using h

theorem inv_mitmOptions {settings : Option (Except String Options)}
    {validateOnly : Bool} {skip : Option (Option Bool)} (h : Inv s) :
    Inv (s.mitmOptions isAbsolute settings validateOnly skip).1 := by
  have hset : ∀ options verify,
      Inv { s with options, skipUpstreamVerify := verify } := by
    intro options verify
    obtain ⟨h1, h2, h3, h4, h5, h6, h7, h8, h9, h10⟩ := h
    exact ⟨h1, h2, h3, h4, h5, h6, h7, h8, h9, h10⟩
  simp only [mitmOptions]
  split
  · exact h
  · split
    · exact h
    · split
      · exact h
      · exact hset _ _
    · split
      · exact h
      · exact hset s.options _

theorem inv_step (h : Inv s) (e : Event) : Inv (step isAbsolute s e).1 := by
  cases e with
  | request r => exact inv_begin h r
  | advance a => exact inv_advance h
  | connection a => exact inv_protocolRuntime h
  | query => exact inv_query h
  | release id => exact inv_release h id
  | mitmOptions settings validateOnly skip => exact inv_mitmOptions h
  | workerFails id reason =>
    exact h.update id fun r => { r with failure := r.failure <|> some reason }

theorem inv_run (es : List Event) :
    Inv (run (next isAbsolute) {} es) := by
  have hstep : ∀ s e, Inv s → Inv (next isAbsolute s e) :=
    fun s e h => inv_step h e
  exact run_induction hstep inv_init es

/-! ## What is answered -/

inductive Answered (t : State) : Request → Except String Reply → Prop where
  | recording (request : RecordingRequest) (result : Except String Reply) :
      Answered t (.recording request) result
  | shutdown (result : Except String Reply) : Answered t .shutdown result
  | started (reply : Reply) : Answered t .analysisStart (.ok reply)
  | failed (message : String) (hoff : t.monitoring = false) :
      Answered t .analysisStart (.error message)
  | stopped (result : Except String Reply) (hoff : t.monitoring = false)
      (hidle : t.phase = .idle) : Answered t .analysisStop result

def Ends (after : State × Output) : Prop :=
  after.2 = .quiet ∨
    ∃ request result, after.2 = .answered request result ∧
      Answered after.1 request result

theorem ends_enter (s : State) (p : Phase) : Ends (s.enter p) := .inl rfl

theorem ends_finish {request : Request} {result : Except String Reply}
    (h : Answered { s with phase := .idle } request result) :
    Ends (s.finish request result) := .inr ⟨_, _, rfl, h⟩

theorem ends_recording (s : State) (request : RecordingRequest)
    (result : Except String Reply) :
    Ends (s.finish (.recording request) result) :=
  ends_finish (.recording request result)

theorem ends_startCheck (h : Inv s) : Ends s.startCheck := by
  simp only [startCheck]
  split
  · rename_i hview
    refine ends_finish (.failed _ ?_)
    by_contra hon
    simp [h.monitoring (by simpa using hon)] at hview
  · exact ends_enter _ _

theorem ends_startSlot (s : State) : Ends s.startSlot := by
  simp only [startSlot]
  split
  · exact ends_enter _ _
  · split <;> exact ends_enter _ _

theorem ends_stopSlot (s : State) (shutdown : Bool) :
    Ends (s.stopSlot shutdown) := by
  cases shutdown <;> simp only [stopSlot] <;> split
  · exact ends_finish (.stopped _ rfl rfl)
  · exact ends_enter _ _
  · exact ends_finish (.shutdown _)
  · exact ends_enter _ _

theorem ends_advance (h : Inv s) : Ends (s.advance isAbsolute a) := by
  have hoff : s.phase.disabled = true → s.monitoring = false := h.disabled
  simp only [advance]
  split <;> rename_i hphase <;> simp only [hphase, Phase.disabled] at hoff
  · exact .inl rfl
  · simp only [viewCheck]
    split
    · exact ends_recording _ _ _
    · exact ends_enter _ _
  · simp only [viewSection]
    split
    · exact ends_recording _ _ _
    · exact ends_recording _ _ _
    · split <;> exact ends_recording _ _ _
  · exact ends_startCheck h
  · exact ends_enter _ _
  · exact ends_startSlot s
  · simp only [startShutdown]
    split
    · exact ends_finish (.failed _ (hoff trivial))
    · exact ends_enter _ _
  · simp only [startOptions]
    split <;> exact ends_enter _ _
  · simp only [startConfigured]
    split
    · exact ends_finish (.failed _ (hoff trivial))
    · exact ends_enter _ _
  · exact ends_enter _ _
  · exact ends_finish (.started _)
  · exact ends_stopSlot s _
  · exact ends_finish (.stopped _ (hoff trivial) rfl)
  · exact ends_finish (.shutdown _)

variable {e : Event}

theorem answered_step {request : Request} {result : Except String Reply} (h : Inv s)
    (hanswer : (step isAbsolute s e).2 = .answered request result) :
    Answered (step isAbsolute s e).1 request result := by
  cases e with
  | advance a =>
    have hends : Ends (s.advance isAbsolute a) := ends_advance h
    rcases hends with hquiet | ⟨request', result', houtput, hends⟩
    · simp [step, hquiet] at hanswer
    · simp only [step, houtput, Output.answered.injEq] at hanswer
      obtain ⟨rfl, rfl⟩ := hanswer
      exact hends
  | request r =>
    simp only [step, State.begin] at hanswer
    split at hanswer
    · cases r <;> cases hanswer
    · cases hanswer
  | connection a =>
    simp only [step, protocolRuntime] at hanswer
    split at hanswer
    · cases hanswer
    · split at hanswer
      · cases hanswer
      · split at hanswer <;> cases hanswer
  | mitmOptions settings validateOnly skip =>
    simp only [step, mitmOptions] at hanswer
    split at hanswer
    · cases hanswer
    · split at hanswer <;> cases hanswer
  | query => cases hanswer
  | release id => cases hanswer
  | workerFails id reason => cases hanswer

/-! ## After a stop -/

structure Off (s : State) : Prop where
  monitoring : s.monitoring = false
  starting : s.phase.starting = false
  startCheck : s.phase ≠ .startCheck

theorem off_enter (h : Off s) (hstarting : p.starting = false)
    (hcheck : p ≠ .startCheck) : Off { s with phase := p } :=
  ⟨h.monitoring, hstarting, hcheck⟩

theorem off_finish {request : Request} {result : Except String Reply}
    (h : Off s) : Off (s.finish request result).1 :=
  off_enter h rfl nofun

theorem off_advance (h : Off s) : Off (s.advance isAbsolute a).1 := by
  have hstarting := h.starting
  have hcheck := h.startCheck
  simp only [advance]
  split <;> rename_i hphase <;>
    simp only [hphase, Phase.starting, ne_eq, reduceCtorEq, not_true_eq_false,
      not_false_eq_true] at hstarting hcheck
  · exact h
  · simp only [viewCheck]
    split
    · exact off_finish h
    · exact off_enter h rfl nofun
  · have hview : ∀ view, Off { s with view } :=
      fun _ => ⟨h.monitoring, h.starting, h.startCheck⟩
    simp only [viewSection]
    split
    · exact off_finish (hview _)
    · exact off_finish h
    · split
      · exact off_finish h
      · exact off_finish (hview _)
  · rename_i shutdown
    cases shutdown <;> simp only [stopSlot] <;> split
    · exact ⟨rfl, rfl, nofun⟩
    · exact ⟨rfl, rfl, nofun⟩
    · exact off_finish h
    · exact ⟨h.monitoring, rfl, nofun⟩
  · exact ⟨h.monitoring, rfl, nofun⟩
  · exact ⟨h.monitoring, rfl, nofun⟩

def Output.obtained : Output → Option Nat
  | .runtime id _ => some id
  | _ => none

/-- Nothing but a start switches monitoring on, and a connection obtains no
runtime before. -/
theorem off_step (hinv : Inv s) (h : Off s) (hstart : e ≠ .request .analysisStart) :
    Off (next isAbsolute s e) ∧ (step isAbsolute s e).2.obtained = none := by
  have hframe : ∀ options verify runtimes holders shutDown, Off { s with
      options, skipUpstreamVerify := verify, runtimes, holders, shutDown } :=
    fun _ _ _ _ _ => ⟨h.monitoring, h.starting, h.startCheck⟩
  cases e with
  | request r =>
    simp only [next, step, State.begin]
    split
    · cases r with
      | analysisStart => exact absurd rfl hstart
      | _ => exact ⟨off_enter h rfl nofun, rfl⟩
    · exact ⟨h, rfl⟩
  | advance a =>
    refine ⟨off_advance h, ?_⟩
    have hends : Ends (s.advance isAbsolute a) := ends_advance hinv
    rcases hends with hquiet | ⟨request, result, houtput, -⟩
    · simp [step, hquiet, Output.obtained]
    · simp [step, houtput, Output.obtained]
  | connection a =>
    simpa [next, step, protocolRuntime, h.monitoring] using ⟨h, rfl⟩
  | query =>
    simp only [next, step, State.query]
    split
    · exact ⟨h, rfl⟩
    · exact ⟨hframe _ _ _ _ _, rfl⟩
  | release id =>
    simp only [next, step, release]
    split
    · split <;> exact ⟨hframe _ _ _ _ _, rfl⟩
    · exact ⟨h, rfl⟩
  | mitmOptions settings validateOnly skip =>
    simp only [next, step, mitmOptions]
    split
    · exact ⟨h, rfl⟩
    · split
      · exact ⟨h, rfl⟩
      · split
        · exact ⟨h, rfl⟩
        · exact ⟨hframe _ _ _ _ _, rfl⟩
      · split
        · exact ⟨h, rfl⟩
        · exact ⟨hframe _ _ _ _ _, rfl⟩
  | workerFails id reason => exact ⟨hframe _ _ _ _ _, rfl⟩

theorem off_run {es : List Event} (hinv : Inv s) (h : Off s)
    (hes : ∀ e ∈ es, e ≠ .request .analysisStart) :
    ∀ o ∈ answers (step isAbsolute) s es, o.obtained = none := by
  induction es generalizing s with
  | nil => nofun
  | cons e es ih =>
    have hnext : Off (next isAbsolute s e) ∧
        (step isAbsolute s e).2.obtained = none :=
      off_step hinv h (hes e List.mem_cons_self)
    obtain ⟨hoff, hnone⟩ := hnext
    have hrest := ih (inv_step hinv e) hoff
      fun e' hmem => hes e' (List.mem_cons_of_mem _ hmem)
    intro o hmem
    rcases List.mem_cons.mp hmem with rfl | hmem
    · exact hnone
    · exact hrest o hmem

/-! ## Where the installed runtimes are -/

/-- Every runtime that was ever installed is in the slot, was passed to
`shutdown`, or is in the hands of the request that passes it there next. -/
def Accounted (s : State) : Prop :=
  ∀ id ∈ s.installed, s.slot = some id ∨ id ∈ s.shutDown ∨ s.hand = some id

instance (s : State) : Decidable (Accounted s) :=
  inferInstanceAs (Decidable (∀ id ∈ s.installed, _ ∨ _ ∨ _))

/-- A start puts its runtime into an empty slot, or into one whose runtime
nobody holds. -/
def Spares (s : State) : Event → Prop
  | .advance _ =>
    match s.phase with
    | .startInstall .. => ∀ id, s.slot = some id → id ∉ s.holders
    | _ => True
  | _ => True

/-- No connection asks for a runtime while the one of the slot is being shut
down. -/
def Freed (s : State) : Event → Prop
  | .connection _ => ∀ id, s.phase ≠ .shutdownRuntime id
  | _ => True

theorem accounted_init : Accounted {} := nofun

theorem Accounted.frame {t : State} (h : Accounted s)
    (hinstalled : t.installed = s.installed) (hslot : t.slot = s.slot)
    (hshut : ∀ id ∈ s.shutDown, id ∈ t.shutDown)
    (hhand : ∀ id, s.hand = some id → t.hand = some id ∨ id ∈ t.shutDown) :
    Accounted t := by
  intro id hmem
  rcases h id (hinstalled ▸ hmem) with hid | hid | hid
  · exact .inl (hslot.trans hid)
  · exact .inr (.inl (hshut id hid))
  · exact .inr ((hhand id hid).symm)

theorem Accounted.take (h : Accounted s)
    (hslot : s.slot = some id) (hhand : s.hand = none)
    (hp : { s with slot := none, phase := p }.hand = some id) :
    Accounted { s with slot := none, phase := p } := by
  intro id' hmem
  rcases h id' hmem with hid | hid | hid
  · obtain rfl : id = id' := by simpa [hslot] using hid
    exact .inr (.inr hp)
  · exact .inr (.inl hid)
  · simp [hhand] at hid

theorem accounted_startInstall {changed : Bool} (hinv : Inv s)
    (h : Accounted s) (hphase : s.phase = .startInstall changed runtime) :
    Accounted (s.startInstall changed runtime).1 ↔
      ∀ id, s.slot = some id → id ∉ s.holders := by
  have hhand : s.hand = none := by simp [State.hand, hphase]
  have hmade := hinv.made runtime (by simp [hphase, Phase.made])
  cases hslot : s.slot with
  | none =>
    refine iff_of_true (fun id hmem => ?_) nofun
    simp only [startInstall, State.enter, install, State.dropSlot, hslot,
      List.mem_cons] at hmem ⊢
    rcases hmem with rfl | hmem
    · exact .inl rfl
    · rcases h id hmem with hid | hid | hid
      · simp [hslot] at hid
      · exact .inr (.inl hid)
      · simp [hhand] at hid
  | some old =>
    have hold := hinv.slot old hslot
    have hne : runtime ≠ old := by
      rintro rfl
      exact hmade.2.1 hold.1
    by_cases hheld : old ∈ s.holders
    · refine iff_of_false (fun hafter => ?_) fun hspare =>
        hspare old rfl hheld
      have hid := hafter old
        (by simp [startInstall, State.enter, install, State.dropSlot, hslot,
          hheld, hold.1])
      simp [startInstall, State.enter, install, State.dropSlot, hslot, hheld,
        hne, hold.2, State.hand] at hid
    · refine iff_of_true (fun id hmem => ?_) fun id heq => by
        obtain rfl : old = id := by simpa using heq
        exact hheld
      simp only [startInstall, State.enter, install, State.dropSlot, hslot,
        hheld, if_false, List.mem_cons] at hmem ⊢
      rcases hmem with rfl | hmem
      · exact .inl rfl
      · rcases h id hmem with hid | hid | hid
        · exact .inr (.inl (.inl (by simpa [hslot, eq_comm] using hid)))
        · exact .inr (.inl (.inr hid))
        · simp [hhand] at hid

theorem accounted_advance (hinv : Inv s) (h : Accounted s) :
    Accounted (s.advance isAbsolute a).1 ↔ Spares s (.advance a) := by
  have hkept : ∀ {t : State}, s.hand = none → t.installed = s.installed →
      t.slot = s.slot → t.shutDown = s.shutDown → Accounted t := by
    intro t hhand hinstalled hslot hshut
    exact h.frame hinstalled hslot (fun id hmem => hshut ▸ hmem)
      fun id hid => by simp [hhand] at hid
  have hpassed : ∀ {t : State} {id : Nat}, s.hand = some id →
      t.installed = s.installed → t.slot = s.slot →
      t.shutDown = id :: s.shutDown → Accounted t := by
    intro t id hhand hinstalled hslot hshut
    refine h.frame hinstalled hslot (fun id' hmem => by simp [hshut, hmem])
      fun id' hid => ?_
    obtain rfl : id = id' := by simpa [hhand] using hid
    exact .inr (by simp [hshut])
  simp only [advance, Spares]
  split <;> rename_i hphase
  case h_10 =>
    simpa only [hphase] using accounted_startInstall hinv h hphase
  all_goals
    have hhand := State.hand.eq_1 s
    simp only [hphase, iff_true] at hhand ⊢
  · exact h
  · simp only [viewCheck]
    split <;> exact hkept hhand rfl rfl rfl
  · simp only [viewSection]
    split
    · exact hkept hhand rfl rfl rfl
    · exact hkept hhand rfl rfl rfl
    · split <;> exact hkept hhand rfl rfl rfl
  · simp only [startCheck]
    split <;> exact hkept hhand rfl rfl rfl
  · exact hkept hhand rfl rfl rfl
  · simp only [startSlot]
    split
    · exact hkept hhand rfl rfl rfl
    · rename_i hslot
      split
      · exact h.take hslot hhand rfl
      · exact hkept hhand rfl rfl rfl
  · simp only [startShutdown]
    split <;> exact hpassed hhand rfl rfl rfl
  · simp only [startOptions]
    split <;> exact hkept hhand rfl rfl rfl
  · simp only [startConfigured]
    split <;> exact hkept hhand rfl rfl rfl
  · exact hkept hhand rfl rfl rfl
  · rename_i shutdown
    cases shutdown <;> simp only [stopSlot] <;> split
    · exact hkept hhand rfl rfl rfl
    · exact hkept hhand rfl rfl rfl
    · exact hkept hhand rfl rfl rfl
    · rename_i hslot
      exact h.take hslot hhand rfl
  · exact hkept hhand rfl rfl rfl
  · exact hpassed hhand rfl rfl rfl

theorem accounted_protocolRuntime (h : Accounted s) :
    Accounted (s.protocolRuntime isAbsolute a).1 := by
  have hsame : ∀ {t : State}, t.installed = s.installed → t.slot = s.slot →
      t.shutDown = s.shutDown → t.phase = s.phase → Accounted t := by
    intro t hinstalled hslot hshut hphase
    exact h.frame hinstalled hslot (fun id hmem => hshut ▸ hmem)
      fun id hid => .inl (by simpa [State.hand, hphase] using hid)
  simp only [protocolRuntime]
  split
  · exact h
  · split
    · exact hsame rfl rfl rfl rfl
    · rename_i hslot
      split
      · exact h
      · intro id hmem
        rcases List.mem_cons.mp hmem with rfl | hmem
        · exact .inl rfl
        · rcases h id hmem with hid | hid | hid
          · simp [hslot] at hid
          · exact .inr (.inl hid)
          · exact .inr (.inr hid)

/-- From a state that accounts for its runtimes, the next one does if and only
if the step spares the runtime in use. -/
theorem accounted_step (hinv : Inv s) (h : Accounted s) :
    Accounted (next isAbsolute s e) ↔ Spares s e := by
  have hsame : ∀ {t : State}, t.installed = s.installed → t.slot = s.slot →
      (∀ id ∈ s.shutDown, id ∈ t.shutDown) → t.hand = s.hand →
      Accounted t := by
    intro t hinstalled hslot hshut hhand
    exact h.frame hinstalled hslot hshut fun id hid => .inl (hhand.trans hid)
  have hkeep : ∀ id ∈ s.shutDown, id ∈ s.shutDown := fun _ hmem => hmem
  cases e with
  | advance a => exact accounted_advance hinv h
  | connection a => exact iff_of_true (accounted_protocolRuntime h) trivial
  | request r =>
    refine iff_of_true ?_ trivial
    simp only [next, step, State.begin]
    split
    · rename_i hphase
      have hhand : s.hand = none := by simp [State.hand, hphase]
      cases r <;> exact hsame rfl rfl hkeep hhand.symm
    · exact h
  | query =>
    refine iff_of_true ?_ trivial
    simp only [next, step, State.query]
    split
    · exact h
    · exact hsame rfl rfl hkeep rfl
  | release id =>
    refine iff_of_true ?_ trivial
    simp only [next, step, release]
    split
    · split
      · exact hsame rfl rfl hkeep rfl
      · exact hsame rfl rfl (fun _ => List.mem_cons_of_mem _) rfl
    · exact h
  | mitmOptions settings validateOnly skip =>
    refine iff_of_true ?_ trivial
    simp only [next, step, mitmOptions]
    split
    · exact h
    · split
      · exact h
      · split
        · exact h
        · exact hsame rfl rfl hkeep rfl
      · split
        · exact h
        · exact hsame rfl rfl hkeep rfl
  | workerFails id reason =>
    exact iff_of_true (hsame rfl rfl hkeep rfl) trivial

/-- Every state on the way accounts for its runtimes if and only if every
step spares the runtime in use. -/
theorem accounted_along {es : List Event} (hinv : Inv s) (h : Accounted s) :
    (∀ before after, es = before ++ after →
      Accounted (run (next isAbsolute) s before)) ↔
    Admissible (next isAbsolute) Spares s es := by
  induction es generalizing s with
  | nil =>
    refine iff_of_true (fun before after heq => ?_) trivial
    obtain ⟨rfl, rfl⟩ := List.append_eq_nil_iff.mp heq.symm
    exact h
  | cons e es ih =>
    have hnext : Accounted (next isAbsolute s e) ↔ Spares s e :=
      accounted_step hinv h
    constructor
    · intro hall
      have hafter : Accounted (next isAbsolute s e) := hall [e] es rfl
      refine ⟨hnext.mp hafter, (ih (inv_step hinv e) hafter).mp ?_⟩
      rintro before after rfl
      exact hall (e :: before) after rfl
    · rintro ⟨hspares, hrest⟩ before after heq
      have hafter := hnext.mpr hspares
      cases before with
      | nil => exact h
      | cons e' before =>
        obtain ⟨rfl, rfl⟩ := List.cons.inj heq
        exact (ih (inv_step hinv e) hafter).mpr hrest before after rfl

/-! ## What is replaced -/

theorem installed_advance
    (hphase : ∀ changed id, s.phase ≠ .startInstall changed id) :
    (s.advance isAbsolute a).1.installed = s.installed := by
  simp only [advance]
  split <;> rename_i heq
  case h_10 => exact absurd heq (hphase _ _)
  · rfl
  · simp only [viewCheck]
    split <;> rfl
  · simp only [viewSection]
    split
    · rfl
    · rfl
    · split <;> rfl
  · simp only [startCheck]
    split <;> rfl
  · rfl
  · simp only [startSlot]
    split
    · rfl
    · split <;> rfl
  · simp only [startShutdown]
    split <;> rfl
  · simp only [startOptions]
    split <;> rfl
  · simp only [startConfigured]
    split <;> rfl
  · rfl
  · rename_i shutdown
    cases shutdown <;> simp only [stopSlot] <;> split <;> rfl
  · rfl
  · rfl

theorem replaced_startInstall {changed : Bool} (hinv : Inv s)
    (h : Accounted s) (hphase : s.phase = .startInstall changed runtime)
    (hspares : ∀ id, s.slot = some id → id ∉ s.holders) :
    ∀ id ∈ s.installed, id ∈ (s.startInstall changed runtime).1.shutDown := by
  have hmade := hinv.made runtime (by simp [hphase, Phase.made])
  have hafter := (accounted_startInstall hinv h hphase).mpr hspares
  intro id hmem
  have hkept : id ∈ (s.startInstall changed runtime).1.installed := by
    simp only [startInstall, State.enter, install, State.dropSlot]
    split
    · exact List.mem_cons_of_mem _ hmem
    · split <;> exact List.mem_cons_of_mem _ hmem
  rcases hafter id hkept with hid | hid | hid
  · obtain rfl : runtime = id := by
      simpa [startInstall, State.enter, install] using hid
    exact absurd hmem hmade.2.1
  · exact hid
  · simp [startInstall, State.enter, State.hand] at hid

theorem replaced_protocolRuntime (hinv : Inv s) (h : Accounted s)
    (hfreed : ∀ id, s.phase ≠ .shutdownRuntime id)
    (hnew : (s.protocolRuntime isAbsolute a).1.installed ≠ s.installed) :
    ∀ id ∈ s.installed, id ∈ (s.protocolRuntime isAbsolute a).1.shutDown := by
  have hhand : s.monitoring = true → s.hand = none := by
    intro hon
    have hdisabled := hinv.disabled
    simp only [State.hand]
    split
    · rename_i hphase
      simp [hphase, Phase.disabled, hon] at hdisabled
    · rename_i hphase
      exact absurd hphase (hfreed _)
    · rfl
  by_cases hon : s.monitoring = false
  · simp [protocolRuntime, hon] at hnew
  · simp only [protocolRuntime, hon] at hnew ⊢
    cases hslot : s.slot with
    | some id => simp [hslot, hold] at hnew
    | none =>
      cases hmade : configured isAbsolute a s.currentOptions with
      | error e => simp [hslot, hmade] at hnew
      | ok r =>
        intro id hmem
        rcases h id hmem with hid | hid | hid
        · simp [hslot] at hid
        · exact hid
        · simp [hhand (by simpa using hon)] at hid

/-- What a step installs comes after the shutdown of all that was installed
before. -/
theorem replaced_step (hinv : Inv s) (h : Accounted s) (hspares : Spares s e)
    (hfreed : Freed s e) (hnew : (next isAbsolute s e).installed ≠ s.installed) :
    ∀ id ∈ s.installed, id ∈ (next isAbsolute s e).shutDown := by
  cases e with
  | advance a =>
    cases hphase : s.phase with
    | startInstall changed runtime =>
      simp only [Spares, hphase] at hspares
      simp only [next, step, advance, hphase]
      exact replaced_startInstall hinv h hphase hspares
    | _ => exact absurd (installed_advance (by simp [hphase])) hnew
  | connection a => exact replaced_protocolRuntime hinv h hfreed hnew
  | request r =>
    refine absurd ?_ hnew
    simp only [next, step, State.begin]
    split
    · cases r <;> rfl
    · rfl
  | query =>
    refine absurd ?_ hnew
    simp only [next, step, State.query]
    split <;> rfl
  | release id =>
    refine absurd ?_ hnew
    simp only [next, step, release]
    split
    · split <;> rfl
    · rfl
  | mitmOptions settings validateOnly skip =>
    refine absurd ?_ hnew
    simp only [next, step, mitmOptions]
    split
    · rfl
    · split
      · rfl
      · split <;> rfl
      · split <;> rfl
  | workerFails id reason => exact absurd rfl hnew

end Sections

/-- Monitoring is never on beside a recording view, a start that fails leaves
it off, and after a stop no connection obtains a runtime before the next
start.  Every runtime that was installed is accounted for in all states of a
run if and only if each start spares the runtime that is in use; then, unless
connections come while a shutdown is under way, none is installed before the
others have been shut down. -/
theorem runtime_control (isAbsolute : String → Bool) (es : List Event) :
    ((run (next isAbsolute) {} es).monitoring = true →
      (run (next isAbsolute) {} es).view = none) ∧
    (∀ e message, (step isAbsolute (run (next isAbsolute) {} es) e).2 =
        .answered .analysisStart (.error message) →
      (run (next isAbsolute) {} (es ++ [e])).monitoring = false) ∧
    (∀ e reply later, (step isAbsolute (run (next isAbsolute) {} es) e).2 =
        .answered .analysisStop (.ok reply) →
      (∀ e' ∈ later, e' ≠ .request .analysisStart) →
      ∀ o ∈ answers (step isAbsolute)
        (run (next isAbsolute) {} (es ++ [e])) later, o.obtained = none) ∧
    ((∀ before after, es = before ++ after →
        Accounted (run (next isAbsolute) {} before)) ↔
      Admissible (next isAbsolute) Spares {} es) ∧
    (∀ e, Admissible (next isAbsolute) Spares {} (es ++ [e]) →
      Freed (run (next isAbsolute) {} es) e →
      (run (next isAbsolute) {} (es ++ [e])).installed ≠
        (run (next isAbsolute) {} es).installed →
      ∀ id ∈ (run (next isAbsolute) {} es).installed,
        id ∈ (run (next isAbsolute) {} (es ++ [e])).shutDown) := by
  have hinv : Inv (run (next isAbsolute) {} es) := inv_run es
  have hlast : ∀ e, run (next isAbsolute) {} (es ++ [e]) =
      next isAbsolute (run (next isAbsolute) {} es) e := by
    intro e
    rw [run_append]
    rfl
  refine ⟨hinv.monitoring, ?_, ?_, accounted_along inv_init accounted_init, ?_⟩
  · intro e message hanswer
    rw [hlast]
    cases answered_step hinv hanswer with
    | failed _ hoff => exact hoff
  · intro e reply later hanswer hlater
    rw [hlast]
    cases answered_step hinv hanswer with
    | stopped _ hoff hidle =>
      have hstopped : Off (next isAbsolute (run (next isAbsolute) {} es) e) :=
        ⟨hoff, by rw [next, hidle]; rfl, by rw [next, hidle]; nofun⟩
      exact off_run (inv_step hinv e) hstopped hlater
  · intro e hspares hfreed hnew
    have hall := (accounted_along inv_init accounted_init).mpr hspares
    have hbefore := hall es [e] rfl
    have hafter := hall (es ++ [e]) [] (by simp)
    rw [hlast] at hafter hnew ⊢
    exact replaced_step hinv hbefore ((accounted_step hinv hbefore).mp hafter)
      hfreed hnew

/-- Recording is switched on between two starts. -/
def restarted : List Event :=
  [.request .analysisStart, .advance {}, .advance {}, .advance {}, .advance {},
    .advance {}, .connection {}, .release 0,
    .mitmOptions (some (.ok { recording := ⟨true, "C:\\records", 8192, 512⟩ }))
      false none,
    .request .analysisStart, .advance {}, .advance {}, .advance {}, .advance {},
    .advance {}, .advance {}]

theorem runtime_control_restarted :
    let s := run (next fun _ => true) {} (restarted ++ [.advance {}])
    s.installed = [1, 0] ∧ 0 ∈ s.shutDown := by
  have hspares : Admissible (next fun _ => true) Spares {}
      (restarted ++ [.advance {}]) := by
    iterate 16 refine ⟨trivial, ?_⟩
    exact ⟨nofun, trivial⟩
  have hlast := (runtime_control (fun _ => true) restarted).2.2.2.2 (.advance {}) hspares
    trivial (by decide)
  exact ⟨by decide, hlast 0 (by decide)⟩

/-- Recording is switched on after a start has kept the runtime that a
connection holds: the new runtime takes its place, and nobody shuts it
down. -/
theorem runtime_replaced :
    let recording : Options :=
      { recording := { enabled := true, directory := "C:\\records" } }
    let begun : List Event := [.request .analysisStart, .advance {},
      .advance {}, .advance {}, .advance {}, .advance {}, .connection {}]
    let kept : List Event := [.request .analysisStart, .advance {},
      .advance {}, .advance {}]
    let switched : List Event := [.mitmOptions (some (.ok recording)) false none,
      .advance {}, .advance {}, .advance {}, .advance {}]
    let s := run (next fun _ => true) {} (begun ++ kept ++ switched)
    s.installed = [1, 0] ∧ s.slot = some 1 ∧ s.shutDown = [] ∧
      s.holders = [0] ∧ s.phase = .idle ∧ s.monitoring = true ∧
      ¬ Accounted s := by
  decide

end ProxyLane.Mitm.Control
