import Mathlib.Tactic
import ProxyLane.Foundation.Run

/-!
# Monitoring commands and their watchdogs

`monitor_start` and `monitor_stop` hold one lock while they set three flags,
count the generation up and start or stop the analysis.  Each start leaves a
thread that watches the analysis of its generation.  It tests the generation
and the flag without the lock, and takes it only to stop the analysis.  Every
access to a flag and every call of the analysis module is one step.
-/

namespace ProxyLane.Hook.MitmControl

open ProxyLane.Foundation

/-- The analysis module: whether the last start that it accepted was not
followed by a stop, whether it has stopped by itself since, and how many
starts it has accepted. -/
structure Analysis where
  analysing : Bool := false
  stopped : Bool := false
  accepted : Nat := 0
  deriving DecidableEq

structure Start where
  quic : Option (Option Bool) := none
  decrypt : Option (Option Bool) := none
  deriving DecidableEq

inductive Command where
  | monitorStart (c : Start)
  | monitorStop
  deriving DecidableEq

inductive Stage where
  | idle
  | stopBump
  | stopEnabled
  | stopMonitoring
  | stopQuic
  | stopQuery
  | startCheck (c : Start)
  | startQuery (decrypt quic : Bool)
  | startBump (decrypt quic : Bool)
  | startThread (decrypt quic : Bool)
  | startUndo
  | startEnabled (decrypt quic : Bool)
  | startQuic (quic : Bool)
  | startMonitoring
  | failBump (command error : String)
  | failEnabled (command error : String)
  | failMonitoring (command error : String)
  | failQuic (command error : String)
  deriving DecidableEq

/-- Where a watchdog stands; from `lockedGeneration` on it has the lock. -/
inductive Watch where
  | sleeping
  | loadGeneration
  | loadMonitoring
  | status
  | waiting
  | lockedGeneration
  | lockedMonitoring
  | storeEnabled
  | storeQuic
  | storeMonitoring
  | bump
  | stop
  | returned
  deriving DecidableEq

structure Watchdog where
  pc : Watch := .sleeping
  /-- The analysis it was started for, by its number. -/
  analysis : Nat := 0
  deriving DecidableEq

inductive Owner where
  | command
  | watchdog (generation : Nat)
  deriving DecidableEq

structure State where
  /-- The module can be used on this system; the setting of the
  environment. -/
  supported : Bool := true
  environment : Bool := false
  enabledMode : Option Bool := none
  streamMonitoring : Bool := false
  quicEnabled : Bool := false
  monitorGeneration : Nat := 0
  protocolQuery : Bool := false
  analysis : Analysis := {}
  lock : Option Owner := none
  stage : Stage := .idle
  /-- The thread that was started for a generation. -/
  watchdogs : Nat → Option Watchdog := fun _ => none

structure Answers where
  /-- The module has been loaded. -/
  loaded : Bool := true
  prepareCA : Except String Unit := .ok ()
  quicCA : Except String Unit := .ok ()
  quicPrepare : Except String Unit := .ok ()
  /-- `analysis_start` or `analysis_stop`. -/
  query : Except String Unit := .ok ()
  /-- The thread could be made. -/
  thread : Bool := true

inductive Output where
  | quiet
  | answered (command : String) (result : Except String Unit)

namespace State

def isEnabled (s : State) : Bool :=
  s.supported && s.enabledMode.getD s.environment

def intercepting (s : State) : Bool := s.streamMonitoring && s.isEnabled

def quicIntercepting (s : State) : Bool := s.quicEnabled && s.streamMonitoring

def enter (s : State) (stage : Stage) : State × Output :=
  ({ s with stage }, .quiet)

def finish (s : State) (command : String) (result : Except String Unit) :
    State × Output :=
  ({ s with stage := .idle, lock := none }, .answered command result)

def bump (s : State) : State :=
  { s with monitorGeneration := s.monitorGeneration + 1 }

def analysisStart (s : State) : State :=
  { s with analysis := ⟨true, false, s.analysis.accepted + 1⟩ }

def analysisStop (s : State) : State :=
  { s with analysis := { s.analysis with analysing := false } }

/-! ## `QueryProtocol` -/

def startCheck (s : State) (a : Answers) (c : Start) : State × Output :=
  if c.quic = some none then
    s.finish "monitor_start" (.error "Invalid QUIC decryption option.")
  else if c.decrypt = some none then
    s.finish "monitor_start" (.error "Invalid HTTPS decryption option.")
  else
    let given := c.decrypt.bind id
    let decrypt := given.getD s.isEnabled
    let quic := (c.quic.bind id).getD false
    let s := { s with protocolQuery := s.protocolQuery || a.loaded }
    match given, a.prepareCA with
    | some true, .error e => s.finish "monitor_start" (.error e)
    | _, _ =>
      if s.protocolQuery = false then
        s.finish "monitor_start" (.error "Cannot load compatible protocol module.")
      else match quic, a.quicCA, a.quicPrepare with
        | true, .error e, _ => s.finish "monitor_start" (.error e)
        | true, _, .error e => s.finish "monitor_start" (.error e)
        | _, _, _ => s.enter (.startQuery decrypt quic)

def startQuery (s : State) (a : Answers) (decrypt quic : Bool) :
    State × Output :=
  match a.query with
  | .error e => s.enter (.failBump "monitor_start" e)
  | .ok () => s.analysisStart.enter (.startBump decrypt quic)

def startThread (s : State) (a : Answers) (decrypt quic : Bool) :
    State × Output :=
  if a.thread then
    let watchdog : Watchdog := { analysis := s.analysis.accepted }
    let watchdogs :=
      Function.update s.watchdogs s.monitorGeneration (some watchdog)
    { s with watchdogs }.enter (.startEnabled decrypt quic)
  else s.enter .startUndo

def stopQuery (s : State) (a : Answers) : State × Output :=
  if s.protocolQuery then
    match a.query with
    | .error e => s.analysisStop.enter (.failBump "monitor_stop" e)
    | .ok () => s.analysisStop.finish "monitor_stop" (.ok ())
  else s.finish "monitor_stop" (.ok ())

def advance (s : State) (a : Answers) : State × Output :=
  match s.stage with
  | .idle => (s, .quiet)
  | .stopBump => s.bump.enter .stopEnabled
  | .stopEnabled =>
    { s with enabledMode := some false }.enter .stopMonitoring
  | .stopMonitoring => { s with streamMonitoring := false }.enter .stopQuic
  | .stopQuic => { s with quicEnabled := false }.enter .stopQuery
  | .stopQuery => s.stopQuery a
  | .startCheck c => s.startCheck a c
  | .startQuery decrypt quic => s.startQuery a decrypt quic
  | .startBump decrypt quic => s.bump.enter (.startThread decrypt quic)
  | .startThread decrypt quic => s.startThread a decrypt quic
  | .startUndo =>
    s.analysisStop.finish "monitor_start"
      (.error "Cannot start monitoring health watchdog.")
  | .startEnabled decrypt quic =>
    { s with enabledMode := some decrypt }.enter (.startQuic quic)
  | .startQuic quic => { s with quicEnabled := quic }.enter .startMonitoring
  | .startMonitoring =>
    { s with streamMonitoring := true }.finish "monitor_start" (.ok ())
  | .failBump command e => s.bump.enter (.failEnabled command e)
  | .failEnabled command e =>
    { s with enabledMode := some false }.enter (.failMonitoring command e)
  | .failMonitoring command e =>
    { s with streamMonitoring := false }.enter (.failQuic command e)
  | .failQuic command e =>
    { s with quicEnabled := false }.finish command (.error e)

def begin (s : State) (c : Command) : State × Output :=
  if s.supported = false then
    (s, .answered (match c with
      | .monitorStart _ => "monitor_start"
      | .monitorStop => "monitor_stop")
      (.error ("MITM and protocol monitoring require a supported Windows " ++
        "version and the 64-bit ProxyLane host.")))
  else if s.lock = none then
    { s with lock := some .command }.enter (match c with
      | .monitorStart c => .startCheck c
      | .monitorStop => .stopBump)
  else (s, .quiet)

def move (s : State) (generation : Nat) (w : Watchdog) (pc : Watch) : State :=
  { s with watchdogs :=
      Function.update s.watchdogs generation (some { w with pc }) }

def leave (s : State) (generation : Nat) (w : Watchdog) : State :=
  { s.move generation w .returned with lock := none }

/-- One step of the watchdog of a generation; `answered` says that the module
gave a status. -/
def watch (s : State) (generation : Nat) (w : Watchdog) (answered : Bool) :
    State :=
  match w.pc with
  | .sleeping => s.move generation w .loadGeneration
  | .loadGeneration =>
    if s.monitorGeneration ≠ generation then s.move generation w .returned
    else s.move generation w .loadMonitoring
  | .loadMonitoring =>
    if s.streamMonitoring = false then s.move generation w .returned
    else s.move generation w .status
  | .status =>
    if answered && s.analysis.stopped then s.move generation w .waiting
    else s.move generation w .sleeping
  | .waiting =>
    if s.lock = none then
      { s.move generation w .lockedGeneration with
        lock := some (.watchdog generation) }
    else s
  | .lockedGeneration =>
    if s.monitorGeneration ≠ generation then s.leave generation w
    else s.move generation w .lockedMonitoring
  | .lockedMonitoring =>
    if s.streamMonitoring = false then s.leave generation w
    else s.move generation w .storeEnabled
  | .storeEnabled =>
    { s with enabledMode := some false }.move generation w .storeQuic
  | .storeQuic =>
    { s with quicEnabled := false }.move generation w .storeMonitoring
  | .storeMonitoring =>
    { s with streamMonitoring := false }.move generation w .bump
  | .bump => s.bump.move generation w .stop
  | .stop => s.analysisStop.leave generation w
  | .returned => s

end State

inductive Event where
  | command (c : Command)
  | advance (a : Answers)
  | watchdog (generation : Nat) (answered : Bool)
  | stopsByItself

def step (s : State) : Event → State × Output
  | .command c => s.begin c
  | .advance a => s.advance a
  | .watchdog generation answered =>
    match s.watchdogs generation with
    | none => (s, .quiet)
    | some w => (s.watch generation w answered, .quiet)
  | .stopsByItself =>
    ({ s with analysis := { s.analysis with stopped := true } }, .quiet)

def next (s : State) (e : Event) : State := (step s e).1

/-! ## The lock and the generation -/

namespace Stage

def accepted : Stage → Bool
  | .startBump .. => true
  | _ => false

def making : Stage → Bool
  | .startThread .. => true
  | _ => false

end Stage

namespace Watch

def locked : Watch → Bool
  | .lockedGeneration | .lockedMonitoring | .storeEnabled | .storeQuic
  | .storeMonitoring | .bump | .stop => true
  | _ => false

def checked : Watch → Bool
  | .lockedMonitoring | .storeEnabled | .storeQuic | .storeMonitoring
  | .bump => true
  | _ => false

end Watch

structure Inv (s : State) : Prop where
  command : s.stage ≠ .idle ↔ s.lock = some .command
  locked : ∀ g w, s.watchdogs g = some w → w.pc.locked = true →
    s.lock = some (.watchdog g)
  bound : ∀ g w, s.watchdogs g = some w → g ≤ s.monitorGeneration
  fresh : s.stage.making = true →
    ∀ g w, s.watchdogs g = some w → g < s.monitorGeneration
  current : ∀ g w, s.watchdogs g = some w → w.pc.checked = true →
    s.monitorGeneration = g
  analysis : s.stage.accepted = false →
    ∀ w, s.watchdogs s.monitorGeneration = some w → w.analysis = s.analysis.accepted
  stopping : ∀ g w, s.watchdogs g = some w → w.pc = .stop →
    w.analysis = s.analysis.accepted

theorem inv_init (supported environment : Bool) :
    Inv { supported, environment } := by
  constructor <;> simp

section Commands

variable {s t : State} {a : Answers}

theorem Inv.unlocked (h : Inv s) (hlock : s.lock = some .command) {g : Nat}
    {w : Watchdog} (hw : s.watchdogs g = some w) : w.pc.locked = false := by
  by_contra hlocked
  have := h.locked g w hw (by simpa using hlocked)
  simp [hlock] at this

theorem Inv.commanded (h : Inv s) (hlock : s.lock = some .command)
    (hwatch : t.watchdogs = s.watchdogs)
    (hcommand : t.stage ≠ .idle ↔ t.lock = some .command)
    (hgeneration : s.monitorGeneration ≤ t.monitorGeneration)
    (hfresh : t.stage.making = true → s.monitorGeneration < t.monitorGeneration)
    (hanalysis : t.stage.accepted = false →
      s.monitorGeneration < t.monitorGeneration ∨
        s.stage.accepted = false ∧
          t.analysis.accepted = s.analysis.accepted) : Inv t where
  command := hcommand
  locked g w hw hlocked := by
    rw [hwatch] at hw
    simp [h.unlocked hlock hw] at hlocked
  bound g w hw := (h.bound g w (hwatch ▸ hw)).trans hgeneration
  fresh hmaking g w hw :=
    (h.bound g w (hwatch ▸ hw)).trans_lt (hfresh hmaking)
  current g w hw hchecked := by
    rw [hwatch] at hw
    have hunlocked := h.unlocked hlock hw
    cases hpc : w.pc <;> simp [hpc, Watch.checked, Watch.locked]
      at hchecked hunlocked
  analysis hstage w hw := by
    rw [hwatch] at hw
    have hle := h.bound _ w hw
    rcases hanalysis hstage with hlt | ⟨haccepted, hsame⟩
    · omega
    · have heq : t.monitorGeneration = s.monitorGeneration := by omega
      rw [heq] at hw
      rw [hsame]
      exact h.analysis haccepted w hw
  stopping g w hw hpc := by
    rw [hwatch] at hw
    have hunlocked := h.unlocked hlock hw
    simp [hpc, Watch.locked] at hunlocked

theorem inv_startCheck {c : Start} (h : Inv s)
    (hstage : s.stage = .startCheck c) : Inv (s.startCheck a c).1 := by
  have hlock : s.lock = some .command := h.command.mp (by simp [hstage])
  have hframe : ∀ query stage lock, (stage ≠ .idle ↔ lock = some .command) →
      stage.making = false → stage.accepted = false →
      Inv { s with protocolQuery := query, stage, lock } := by
    intro query stage lock hcommand hmaking haccepted
    exact h.commanded hlock rfl hcommand le_rfl (by simp [hmaking])
      fun _ => .inr ⟨by simp [hstage, Stage.accepted], rfl⟩
  simp only [State.startCheck]
  split
  · exact hframe _ _ _ (by simp) rfl rfl
  · split
    · exact hframe _ _ _ (by simp) rfl rfl
    · split
      · exact hframe _ _ _ (by simp) rfl rfl
      · split
        · exact hframe _ _ _ (by simp) rfl rfl
        · split
          · exact hframe _ _ _ (by simp) rfl rfl
          · exact hframe _ _ _ (by simp) rfl rfl
          · exact hframe _ _ _ (by simp [hlock]) rfl rfl

theorem inv_startThread {decrypt quic : Bool} (h : Inv s)
    (hstage : s.stage = .startThread decrypt quic) :
    Inv (s.startThread a decrypt quic).1 := by
  have hlock : s.lock = some .command := h.command.mp (by simp [hstage])
  have hfresh := h.fresh (by simp [hstage, Stage.making])
  have hothers : Inv { s with stage := .startEnabled decrypt quic } :=
    h.commanded hlock rfl (by simp [hlock]) le_rfl nofun
      fun _ => .inr ⟨by simp [hstage, Stage.accepted], rfl⟩
  simp only [State.startThread]
  split
  · obtain ⟨hcommand, hlocked, hbound, -, hcurrent, hanalysis, hstopping⟩ :=
      hothers
    refine ⟨hcommand, ?_, ?_, nofun, ?_, ?_, ?_⟩
    · intro g w hw hpc
      by_cases hg : g = s.monitorGeneration
      · obtain rfl : _ = w := by
          simpa [State.enter, Function.update_apply, hg] using hw
        simp [Watch.locked] at hpc
      · exact hlocked g w (by
          simpa [State.enter, Function.update_apply, hg] using hw) hpc
    · intro g w hw
      by_cases hg : g = s.monitorGeneration
      · exact hg.le
      · exact hbound g w (by
          simpa [State.enter, Function.update_apply, hg] using hw)
    · intro g w hw hpc
      by_cases hg : g = s.monitorGeneration
      · exact hg.symm
      · exact hcurrent g w (by
          simpa [State.enter, Function.update_apply, hg] using hw) hpc
    · intro _ w hw
      obtain rfl : _ = w := by
        simpa [State.enter, Function.update_apply] using hw
      rfl
    · intro g w hw hpc
      by_cases hg : g = s.monitorGeneration
      · obtain rfl : _ = w := by
          simpa [State.enter, Function.update_apply, hg] using hw
        simp at hpc
      · exact hstopping g w (by
          simpa [State.enter, Function.update_apply, hg] using hw) hpc
  · exact h.commanded hlock rfl (by simp [State.enter, hlock]) le_rfl nofun
      fun _ => .inr ⟨by simp [hstage, Stage.accepted], rfl⟩

theorem inv_advance (h : Inv s) : Inv (s.advance a).1 := by
  have hlock : s.stage ≠ .idle → s.lock = some .command := h.command.mp
  cases hstage : s.stage
  case idle => simpa [State.advance, hstage] using h
  case startCheck c =>
      simpa only [State.advance, hstage] using inv_startCheck h hstage
  case startThread decrypt quic =>
      simpa only [State.advance, hstage] using inv_startThread h hstage
  case startQuery decrypt quic =>
      have hlock := hlock (by simp [hstage])
      simp only [State.advance, hstage, State.startQuery]
      split
      · exact h.commanded hlock rfl (by simp [State.enter, hlock]) le_rfl
          nofun fun _ => .inr ⟨by simp [hstage, Stage.accepted], rfl⟩
      · exact h.commanded hlock rfl
          (by simp [State.enter, State.analysisStart, hlock]) le_rfl nofun nofun
  case stopQuery =>
      have hlock := hlock (by simp [hstage])
      have haccepted : s.stage.accepted = false := by
        simp [hstage, Stage.accepted]
      simp only [State.advance, hstage, State.stopQuery]
      split
      · split
        · exact h.commanded hlock rfl
            (by simp [State.enter, State.analysisStop, hlock]) le_rfl nofun
            fun _ => .inr ⟨haccepted, rfl⟩
        · exact h.commanded hlock rfl
            (by simp [State.finish, State.analysisStop]) le_rfl nofun
            fun _ => .inr ⟨haccepted, rfl⟩
      · exact h.commanded hlock rfl (by simp [State.finish]) le_rfl nofun
          fun _ => .inr ⟨haccepted, rfl⟩
  -- A store or the count of the generation: the threads stay as they are.
  all_goals
    have hlock := hlock (by simp [hstage])
    apply h.commanded hlock <;>
      simp [State.advance, hstage, State.enter, State.finish, State.bump,
        State.analysisStop, Stage.making, Stage.accepted, hlock]

theorem Inv.idle (h : Inv s) (hlock : s.lock ≠ some .command) :
    s.stage = .idle := by
  by_contra hstage
  exact hlock (h.command.mp hstage)

theorem inv_begin {c : Command} (h : Inv s) : Inv (s.begin c).1 := by
  by_cases hsupported : s.supported = false
  · simpa [State.begin, hsupported] using h
  · by_cases hlock : s.lock = none
    · have hidle : s.stage = .idle := h.idle (by simp [hlock])
      have hfree : ∀ g w, s.watchdogs g = some w → w.pc.locked = false := by
        intro g w hw
        by_contra hlocked
        simpa [hlock] using h.locked g w hw (by simpa using hlocked)
      have htaken : ∀ stage, stage ≠ .idle → stage.making = false →
          Inv { s with stage, lock := some .command } := by
        intro stage hstage hmaking
        refine ⟨by simp [hstage], ?_, h.bound, ?_, h.current, ?_, h.stopping⟩
        · intro g w hw hlocked
          simp [hfree g w hw] at hlocked
        · intro hmaking'
          simp [hmaking] at hmaking'
        · exact fun _ => h.analysis (by simp [hidle, Stage.accepted])
      cases c with
      | monitorStart c =>
        simpa [State.begin, State.enter, hsupported, hlock] using
          htaken (.startCheck c) (by simp) rfl
      | monitorStop =>
        simpa [State.begin, State.enter, hsupported, hlock] using
          htaken .stopBump (by simp) rfl
    · simpa [State.begin, hsupported, hlock] using h

end Commands

/-! ## The steps of a watchdog -/

section Watchdogs

variable {s t : State} {g : Nat} {w w' : Watchdog}

/-- A step of a watchdog that goes from `w` to `w'`; with the lock in its
hands it may count the generation up. -/
theorem Inv.watched (h : Inv s) (hw : s.watchdogs g = some w)
    (hwatch : t.watchdogs = Function.update s.watchdogs g (some w'))
    (hstage : t.stage = s.stage)
    (hlock : t.lock = s.lock ∨ w.pc.locked = true ∧ t.lock = none ∧
        w'.pc.locked = false ∨
      s.lock = none ∧ t.lock = some (.watchdog g))
    (hlocked : w'.pc.locked = true → t.lock = some (.watchdog g))
    (hgeneration : t.monitorGeneration = s.monitorGeneration ∨
      w.pc.locked = true ∧ t.monitorGeneration = s.monitorGeneration + 1)
    (hchecked : w'.pc.checked = true → t.monitorGeneration = g)
    (hanalysis : w'.analysis = w.analysis)
    (haccepted : t.analysis.accepted = s.analysis.accepted)
    (hstopping : w'.pc = .stop → w.analysis = s.analysis.accepted) :
    Inv t := by
  have hother : ∀ {g' w''}, g' ≠ g → t.watchdogs g' = some w'' →
      s.watchdogs g' = some w'' := by
    intro g' w'' hne hw''
    simpa [hwatch, Function.update_apply, hne] using hw''
  have hself : ∀ {w''}, t.watchdogs g = some w'' → w'' = w' := by
    intro w'' hw''
    simpa [hwatch, eq_comm] using hw''
  have hheld : w.pc.locked = true → s.lock = some (.watchdog g) :=
    h.locked g w hw
  have hbound := h.bound g w hw
  refine ⟨?_, ?_, ?_, ?_, ?_, ?_, ?_⟩
  · have hcommand := h.command
    rcases hlock with hsame | ⟨hmine, hfree, -⟩ | ⟨hfree, hmine⟩
    · rwa [hstage, hsame]
    · simpa [hstage, hheld hmine, hfree] using hcommand
    · simpa [hstage, hfree, hmine] using hcommand
  · intro g' w'' hw'' hpc
    by_cases hg : g' = g
    · subst hg
      exact hlocked (hself hw'' ▸ hpc)
    · have hother' := h.locked g' w'' (hother hg hw'') hpc
      rcases hlock with hsame | ⟨hmine, -, -⟩ | ⟨hfree, -⟩
      · exact hsame.trans hother'
      · exact absurd (hother'.symm.trans (hheld hmine)) (by simpa using hg)
      · simp [hfree] at hother'
  · intro g' w'' hw''
    have hle : s.monitorGeneration ≤ t.monitorGeneration := by omega
    by_cases hg : g' = g
    · omega
    · exact (h.bound g' w'' (hother hg hw'')).trans hle
  · intro hmaking g' w'' hw''
    rw [hstage] at hmaking
    have hcommand : s.lock = some .command := h.command.mp fun hidle => by
      simp [hidle, Stage.making] at hmaking
    have hunlocked := h.unlocked hcommand hw
    have hsame : t.monitorGeneration = s.monitorGeneration := by
      simpa [hunlocked] using hgeneration
    rw [hsame]
    by_cases hg : g' = g
    · exact hg ▸ h.fresh hmaking g w hw
    · exact h.fresh hmaking g' w'' (hother hg hw'')
  · intro g' w'' hw'' hpc
    by_cases hg : g' = g
    · subst hg
      exact hchecked (hself hw'' ▸ hpc)
    · have hw := hother hg hw''
      have hpc' : w''.pc.locked = true := by
        cases heq : w''.pc <;> simp [heq, Watch.checked, Watch.locked]
          at hpc ⊢
      rcases hgeneration with hsame | ⟨hmine, -⟩
      · exact hsame.trans (h.current g' w'' hw hpc)
      · have hboth := (h.locked g' w'' hw hpc').symm.trans (hheld hmine)
        exact absurd hboth (by simpa using hg)
  · intro haccepting w'' hw''
    rw [hstage] at haccepting
    rw [haccepted]
    rcases hgeneration with hsame | ⟨hmine, hnext⟩
    · rw [hsame] at hw''
      by_cases hg : s.monitorGeneration = g
      · subst hg
        rw [hself hw'', hanalysis]
        exact h.analysis haccepting w hw
      · exact h.analysis haccepting w'' (hother hg hw'')
    · have hne : t.monitorGeneration ≠ g := by omega
      have hlate := h.bound _ w'' (hother hne hw'')
      omega
  · intro g' w'' hw'' hpc
    rw [haccepted]
    by_cases hg : g' = g
    · subst hg
      obtain rfl := hself hw''
      rw [hanalysis]
      exact hstopping hpc
    · exact h.stopping g' w'' (hother hg hw'') hpc

theorem Inv.moved {pc : Watch} (h : Inv s) (hw : s.watchdogs g = some w)
    (hpc : pc.locked = false) : Inv (s.move g w pc) := by
  refine h.watched hw rfl rfl (.inl rfl) ?_ (.inl rfl) ?_ rfl rfl ?_
  · intro hlocked
    simp [hpc] at hlocked
  · intro hchecked
    cases pc <;> simp [Watch.checked, Watch.locked] at hchecked hpc
  · rintro rfl
    simp [Watch.locked] at hpc

theorem Inv.held (h : Inv s) (hw : s.watchdogs g = some w)
    (hlocked : w.pc.locked = true) (hgeneration : s.monitorGeneration = g)
    (pc : Watch) (hpc : pc ≠ .stop) (enabledMode : Option Bool)
    (quicEnabled streamMonitoring : Bool) :
    Inv { s.move g w pc with enabledMode, quicEnabled, streamMonitoring } :=
  h.watched hw rfl rfl (.inl rfl) (fun _ => h.locked g w hw hlocked)
    (.inl rfl) (fun _ => hgeneration) rfl rfl fun hstop => absurd hstop hpc

theorem Inv.left (h : Inv s) (hw : s.watchdogs g = some w)
    (hlocked : w.pc.locked = true) (analysing : Bool) :
    Inv ({ s with analysis := { s.analysis with analysing } }.leave g w) :=
  h.watched hw rfl rfl (.inr (.inl ⟨hlocked, rfl, rfl⟩)) nofun (.inl rfl)
    nofun rfl rfl nofun

theorem inv_watch (h : Inv s) (hw : s.watchdogs g = some w)
    (answered : Bool) : Inv (s.watch g w answered) := by
  have hlocked := h.locked g w hw
  have hcurrent := h.current g w hw
  cases hpc : w.pc <;>
    simp only [State.watch, hpc, Watch.locked, Watch.checked, forall_const,
      Bool.false_eq_true, false_implies] at hlocked hcurrent ⊢
  case sleeping => exact h.moved hw rfl
  case loadGeneration => split <;> exact h.moved hw rfl
  case loadMonitoring => split <;> exact h.moved hw rfl
  case status => split <;> exact h.moved hw rfl
  case waiting =>
      split
      · rename_i hfree
        exact h.watched hw rfl rfl (.inr (.inr ⟨hfree, rfl⟩)) (fun _ => rfl)
          (.inl rfl) nofun rfl rfl nofun
      · exact h
  case lockedGeneration =>
      split
      · exact h.left hw (by simp [hpc, Watch.locked]) _
      · rename_i hsame
        exact h.held hw (by simp [hpc, Watch.locked]) (by simpa using hsame)
          .lockedMonitoring (by simp) _ _ _
  case lockedMonitoring =>
      split
      · exact h.left hw (by simp [hpc, Watch.locked]) _
      · exact h.held hw (by simp [hpc, Watch.locked]) hcurrent .storeEnabled
          (by simp) _ _ _
  case storeEnabled =>
      exact h.held hw (by simp [hpc, Watch.locked]) hcurrent .storeQuic
        (by simp) _ _ _
  case storeQuic =>
      exact h.held hw (by simp [hpc, Watch.locked]) hcurrent .storeMonitoring
        (by simp) _ _ _
  case storeMonitoring =>
      exact h.held hw (by simp [hpc, Watch.locked]) hcurrent .bump (by simp) _ _ _
  case bump =>
      have hidle : s.stage.accepted = false := by
        rw [h.idle (by simp [hlocked])]
        rfl
      exact h.watched hw rfl rfl (.inl rfl) (fun _ => hlocked)
        (.inr ⟨by simp [hpc, Watch.locked], rfl⟩) nofun rfl rfl
        fun _ => h.analysis hidle w (hcurrent ▸ hw)
  case stop => exact h.left hw (by simp [hpc, Watch.locked]) false
  case returned => exact h

theorem inv_step (h : Inv s) (e : Event) : Inv (next s e) := by
  cases e with
  | command c => exact inv_begin h
  | advance a => exact inv_advance h
  | watchdog g answered =>
    cases hw : s.watchdogs g with
    | none => simpa [next, step, hw] using h
    | some w => simpa [next, step, hw] using inv_watch h hw answered
  | stopsByItself =>
    obtain ⟨h1, h2, h3, h4, h5, h6, h7⟩ := h
    exact ⟨h1, h2, h3, h4, h5, h6, h7⟩

end Watchdogs

/-! ## What the flags say -/

namespace Stage

def settled : Stage → Bool
  | .idle | .startCheck _ | .startQuery .. => true
  | _ => false

def started : Stage → Bool
  | .startBump .. | .startThread .. | .startEnabled .. | .startQuic _
  | .startMonitoring => true
  | _ => false

def watched : Stage → Bool
  | .startEnabled .. | .startQuic _ | .startMonitoring => true
  | _ => false

def dark : Stage → Bool
  | .stopQuic | .stopQuery | .failQuic .. | .startUndo => true
  | _ => false

def blind : Stage → Bool
  | .stopMonitoring | .stopQuic | .stopQuery | .failMonitoring ..
  | .failQuic .. => true
  | _ => false

def storing : Stage → Bool
  | .stopQuic | .failQuic .. | .startQuic _ | .startMonitoring => true
  | _ => false

end Stage

structure Watch.Off (pc : Watch) (s : State) : Prop where
  enabled : pc = .storeQuic ∨ pc = .storeMonitoring → s.enabledMode = some false
  quic : pc = .storeMonitoring → s.quicEnabled = false
  monitoring : pc = .bump ∨ pc = .stop → s.streamMonitoring = false

def Alive (s : State) : Prop :=
  ∃ w, s.watchdogs s.monitorGeneration = some w ∧ w.pc ≠ .returned

structure Flags (s : State) : Prop where
  running : s.stage.settled = true → s.streamMonitoring = true →
    s.analysis.analysing = true ∧ Alive s
  started : s.stage.started = true → s.analysis.analysing = true
  watched : s.stage.watched = true → Alive s
  dark : s.stage.dark = true → s.streamMonitoring = false
  blind : s.stage.blind = true → s.enabledMode = some false
  hidden : s.stage.storing = false → s.streamMonitoring = false →
    s.enabledMode ≠ some true ∧ s.quicEnabled = false
  watch : ∀ g w, s.watchdogs g = some w → w.pc.Off s

/-- The watchdog of a start first reads the flag after the start has set it,
and no thread fails to be made while monitoring is on. -/
def Timely (s : State) : Event → Prop
  | .watchdog g _ =>
    ∀ w, s.watchdogs g = some w → w.pc = .loadMonitoring →
      g = s.monitorGeneration → s.stage.watched = true →
      s.streamMonitoring = true
  | .advance a =>
    s.stage.making = true → a.thread = false → s.streamMonitoring = false
  | _ => True

theorem flags_init (supported environment : Bool) :
    Flags { supported, environment } := by
  constructor <;> simp [Stage.started, Stage.watched, Stage.dark, Stage.blind]

section Flags

variable {s t : State} {a : Answers}

theorem off_of_unlocked {pc : Watch} (hpc : pc.locked = false) (s : State) :
    pc.Off s := by
  cases pc <;> simp [Watch.locked] at hpc <;> constructor <;> simp

theorem Inv.watch_off (hinv : Inv s) (hlock : s.lock = some .command)
    (hwatch : t.watchdogs = s.watchdogs) :
    ∀ g w, t.watchdogs g = some w → w.pc.Off t := by
  intro g w hw
  rw [hwatch] at hw
  exact off_of_unlocked (hinv.unlocked hlock hw) t

theorem flags_advance (hinv : Inv s) (h : Flags s)
    (hok : Timely s (.advance a)) : Flags (s.advance a).1 := by
  have hlock : s.stage ≠ .idle → s.lock = some .command := hinv.command.mp
  have hoff : ∀ {t : State}, s.stage ≠ .idle → t.watchdogs = s.watchdogs →
      ∀ g w, t.watchdogs g = some w → w.pc.Off t :=
    fun hstage => hinv.watch_off (hlock hstage)
  obtain ⟨hrunning, hstarted, hwatched, hdark, hblind, hhidden, -⟩ := id h
  cases hstage : s.stage
  all_goals
    simp only [hstage, Stage.settled, Stage.started, Stage.watched, Stage.dark,
      Stage.blind, Stage.storing, Timely, Stage.making, ne_eq, reduceCtorEq,
      not_false_eq_true, forall_const, false_implies, Bool.false_eq_true]
      at hoff hrunning hstarted hwatched hdark hblind hhidden hok
    simp only [State.advance, hstage]
  case stopBump =>
      refine ⟨nofun, nofun, nofun, nofun, nofun, fun _ => hhidden, hoff rfl⟩
  case stopEnabled =>
      refine ⟨nofun, nofun, nofun, nofun, fun _ => rfl,
        fun _ hmon => ⟨nofun, (hhidden hmon).2⟩, hoff rfl⟩
  case stopMonitoring =>
      refine ⟨nofun, nofun, nofun, fun _ => rfl, fun _ => hblind, nofun, hoff rfl⟩
  case stopQuic =>
      refine ⟨nofun, nofun, nofun, fun _ => hdark, fun _ => hblind,
        fun _ _ => ⟨by simp [State.enter, hblind], rfl⟩, hoff rfl⟩
  case stopQuery =>
      have hidle : ∀ analysis lock,
          Flags { s with stage := .idle, analysis, lock } := fun _ _ =>
        ⟨fun _ hmon => by simp [hdark] at hmon, nofun, nofun, nofun, nofun,
          fun _ => hhidden, hoff rfl⟩
      simp only [State.stopQuery]
      split
      · split
        · exact ⟨nofun, nofun, nofun, nofun, nofun, fun _ => hhidden, hoff rfl⟩
        · exact hidle _ _
      · exact hidle _ _
  case startCheck c =>
      have hkeep : ∀ protocolQuery stage lock, stage = .idle ∨
          (∃ decrypt quic, stage = .startQuery decrypt quic) →
          Flags { s with protocolQuery, stage, lock } := by
        rintro protocolQuery stage lock (rfl | ⟨decrypt, quic, rfl⟩)
        all_goals
          exact ⟨fun _ => hrunning, nofun, nofun, nofun, nofun,
            fun _ => hhidden, hoff rfl⟩
      simp only [State.startCheck]
      split
      · exact hkeep _ _ _ (.inl rfl)
      · split
        · exact hkeep _ _ _ (.inl rfl)
        · split
          · exact hkeep _ _ _ (.inl rfl)
          · split
            · exact hkeep _ _ _ (.inl rfl)
            · split
              · exact hkeep _ _ _ (.inl rfl)
              · exact hkeep _ _ _ (.inl rfl)
              · exact hkeep _ _ _ (.inr ⟨_, _, rfl⟩)
  case startQuery decrypt quic =>
      simp only [State.startQuery]
      split
      · exact ⟨nofun, nofun, nofun, nofun, nofun, fun _ => hhidden, hoff rfl⟩
      · exact ⟨nofun, fun _ => rfl, nofun, nofun, nofun, fun _ => hhidden, hoff rfl⟩
  case startBump decrypt quic =>
      exact ⟨nofun, fun _ => hstarted, nofun, nofun, nofun, fun _ => hhidden,
        hoff rfl⟩
  case startThread decrypt quic =>
      simp only [State.startThread]
      split
      · refine ⟨nofun, fun _ => hstarted, fun _ => ?_, nofun, nofun,
          fun _ => hhidden, ?_⟩
        · exact ⟨{ analysis := s.analysis.accepted },
            Function.update_self _ _ _, by simp⟩
        · intro g w hw
          by_cases hg : g = s.monitorGeneration
          · obtain rfl : _ = w := by
              simpa [State.enter, Function.update_apply, hg] using hw
            exact off_of_unlocked rfl _
          · have hw' : s.watchdogs g = some w := by
              simpa [State.enter, Function.update_apply, hg] using hw
            exact off_of_unlocked (hinv.unlocked (hlock (by simp [hstage])) hw') _
      · rename_i hthread
        exact ⟨nofun, nofun, nofun, fun _ => hok (by simpa using hthread),
          nofun, fun _ => hhidden, hoff rfl⟩
  case startUndo =>
      exact ⟨fun _ hmon => absurd hmon (by simp [State.finish,
        State.analysisStop, hdark]), nofun, nofun, nofun, nofun,
        fun _ => hhidden, hoff rfl⟩
  case startEnabled decrypt quic =>
      exact ⟨nofun, fun _ => hstarted, fun _ => hwatched, nofun, nofun, nofun,
        hoff rfl⟩
  case startQuic quic =>
      exact ⟨nofun, fun _ => hstarted, fun _ => hwatched, nofun, nofun, nofun,
        hoff rfl⟩
  case startMonitoring =>
      exact ⟨fun _ _ => ⟨hstarted, hwatched⟩, nofun, nofun, nofun, nofun,
        nofun, hoff rfl⟩
  case failBump command e =>
      exact ⟨nofun, nofun, nofun, nofun, nofun, fun _ => hhidden, hoff rfl⟩
  case failEnabled command e =>
      exact ⟨nofun, nofun, nofun, nofun, fun _ => rfl,
        fun _ hmon => ⟨nofun, (hhidden hmon).2⟩, hoff rfl⟩
  case failMonitoring command e =>
      exact ⟨nofun, nofun, nofun, fun _ => rfl, fun _ => hblind, nofun, hoff rfl⟩
  case failQuic command e =>
      exact ⟨fun _ hmon => absurd hmon (by simp [State.finish, hdark]), nofun,
        nofun, nofun, nofun,
        fun _ _ => ⟨by simp [State.finish, hblind], rfl⟩, hoff rfl⟩
  case idle =>
      exact h

theorem flags_begin {c : Command} (hinv : Inv s) (h : Flags s) :
    Flags (s.begin c).1 := by
  by_cases hsupported : s.supported = false
  · simpa [State.begin, hsupported] using h
  · by_cases hlock : s.lock = none
    · have hidle : s.stage = .idle := hinv.idle (by simp [hlock])
      obtain ⟨hrunning, -, -, -, -, hhidden, -⟩ := h
      have hhidden := hhidden (by simp [hidle, Stage.storing])
      have hoff : ∀ {t : State}, t.watchdogs = s.watchdogs →
          ∀ g w, t.watchdogs g = some w → w.pc.Off t := by
        intro t hwatch g w hw
        rw [hwatch] at hw
        refine off_of_unlocked ?_ t
        by_contra hlocked
        simpa [hlock] using hinv.locked g w hw (by simpa using hlocked)
      cases c with
      | monitorStart c =>
        have hrunning := hrunning (by simp [hidle, Stage.settled])
        simp only [State.begin, hsupported, hlock, if_true]
        exact ⟨fun _ => hrunning, nofun, nofun, nofun, nofun,
          fun _ => hhidden, hoff rfl⟩
      | monitorStop =>
        simp only [State.begin, hsupported, hlock, if_true]
        exact ⟨nofun, nofun, nofun, nofun, nofun, fun _ => hhidden, hoff rfl⟩
    · simpa [State.begin, hsupported, hlock] using h

theorem Flags.idle (hstage : s.stage = .idle)
    (hrunning : s.streamMonitoring = true → s.analysis.analysing = true ∧ Alive s)
    (hhidden : s.streamMonitoring = false →
      s.enabledMode ≠ some true ∧ s.quicEnabled = false)
    (hwatch : ∀ g w, s.watchdogs g = some w → w.pc.Off s) : Flags s :=
  ⟨fun _ => hrunning, by simp [hstage, Stage.started],
    by simp [hstage, Stage.watched], by simp [hstage, Stage.dark],
    by simp [hstage, Stage.blind], fun _ => hhidden, hwatch⟩

variable {g : Nat} {w w' : Watchdog}

/-- The watchdog of the current generation stays alive as another one moves,
or as it moves itself without returning. -/
theorem alive_update
    (hwatch : t.watchdogs = Function.update s.watchdogs g (some w'))
    (hgeneration : t.monitorGeneration = s.monitorGeneration)
    (halive : w'.pc = .returned → g ≠ s.monitorGeneration) (h : Alive s) :
    Alive t := by
  obtain ⟨v, hv, hpc⟩ := h
  by_cases hg : s.monitorGeneration = g
  · refine ⟨w', by simp [hwatch, hgeneration, hg], fun hreturned => ?_⟩
    exact halive hreturned hg.symm
  · exact ⟨v, by simp [hwatch, hgeneration, hg, hv], hpc⟩

theorem Flags.moved (h : Flags s) (pc : Watch)
    (hpc : ∀ t : State, pc.Off t)
    (halive : pc = .returned → g = s.monitorGeneration →
      s.streamMonitoring = false ∧ s.stage.watched = false)
    (lock : Option Owner) : Flags { s.move g w pc with lock } := by
  have hkept : s.streamMonitoring = true ∨ s.stage.watched = true →
      Alive s → Alive { s.move g w pc with lock } := by
    intro hneeded
    refine alive_update rfl rfl fun hreturned heq => ?_
    obtain ⟨hoff, hunwatched⟩ := halive hreturned heq
    simp [hoff, hunwatched] at hneeded
  refine ⟨fun hsettled hmon => ?_, h.started, fun hwatched => ?_, h.dark,
    h.blind, h.hidden, ?_⟩
  · obtain ⟨hanalysing, hlive⟩ := h.running hsettled hmon
    exact ⟨hanalysing, hkept (.inl hmon) hlive⟩
  · exact hkept (.inr hwatched) (h.watched hwatched)
  · intro g' w'' hw''
    by_cases hg : g' = g
    · obtain rfl : _ = w'' := by
        simpa [State.move, Function.update_apply, hg] using hw''
      exact hpc _
    · have hold := h.watch g' w'' (by
        simpa [State.move, Function.update_apply, hg] using hw'')
      exact ⟨hold.enabled, hold.quic, hold.monitoring⟩

theorem Inv.others_off (hinv : Inv s) (hlock : s.lock = some (.watchdog g))
    (hwatch : t.watchdogs = Function.update s.watchdogs g (some w'))
    (hself : w'.pc.Off t) :
    ∀ g' w'', t.watchdogs g' = some w'' → w''.pc.Off t := by
  intro g' w'' hw''
  by_cases hg : g' = g
  · obtain rfl : w' = w'' := by simpa [hwatch, hg] using hw''
    exact hself
  · have hold : s.watchdogs g' = some w'' := by
      simpa [hwatch, Function.update_apply, hg] using hw''
    refine off_of_unlocked ?_ t
    by_contra hlocked
    have hmine := hinv.locked g' w'' hold (by simpa using hlocked)
    obtain rfl : g = g' := by simpa [hlock] using hmine
    exact hg rfl

theorem flags_watch {answered : Bool} (hinv : Inv s) (h : Flags s)
    (hw : s.watchdogs g = some w) (hok : Timely s (.watchdog g answered)) :
    Flags (s.watch g w answered) := by
  have hlocked := hinv.locked g w hw
  have hoff := h.watch g w hw
  have hidle : s.lock = some (.watchdog g) → s.stage = .idle :=
    fun hlock => hinv.idle (by simp [hlock])
  have hfree : ∀ pc : Watch, pc.locked = false → ∀ t : State, pc.Off t :=
    fun pc hpc => off_of_unlocked hpc
  cases hpc : w.pc <;>
    simp only [State.watch, hpc, Watch.locked, forall_const,
      Bool.false_eq_true, false_implies] at hlocked ⊢
  case sleeping => exact h.moved .loadGeneration (hfree _ rfl) nofun _
  case loadGeneration =>
      split
      · rename_i hother
        exact h.moved .returned (hfree _ rfl) (fun _ heq => absurd heq.symm hother) _
      · exact h.moved .loadMonitoring (hfree _ rfl) nofun _
  case loadMonitoring =>
      split
      · rename_i hmon
        refine h.moved .returned (hfree _ rfl) (fun _ heq => ⟨hmon, ?_⟩) _
        by_contra hwatched
        have hon := hok w hw hpc heq (by simpa using hwatched)
        simp [hmon] at hon
      · exact h.moved .status (hfree _ rfl) nofun _
  case status =>
      split
      · exact h.moved .waiting (hfree _ rfl) nofun _
      · exact h.moved .sleeping (hfree _ rfl) nofun _
  case waiting =>
      split
      · exact h.moved .lockedGeneration (fun _ => ⟨by simp, by simp, by simp⟩) nofun _
      · exact h
  case lockedGeneration =>
      split
      · rename_i hother
        exact h.moved .returned (hfree _ rfl) (fun _ heq => absurd heq.symm hother) _
      · exact h.moved .lockedMonitoring (fun _ => ⟨by simp, by simp, by simp⟩) nofun _
  case lockedMonitoring =>
      split
      · rename_i hmon
        exact h.moved .returned (hfree _ rfl)
          (fun _ _ => ⟨hmon, by simp [hidle hlocked, Stage.watched]⟩) _
      · exact h.moved .storeEnabled (fun _ => ⟨by simp, by simp, by simp⟩) nofun _
  case storeEnabled =>
      have hidle := hidle hlocked
      refine .idle hidle (fun hmon => ?_) (fun hmon => ⟨nofun, ?_⟩) ?_
      · obtain ⟨hanalysing, hlive⟩ :=
          h.running (by simp [hidle, Stage.settled]) hmon
        exact ⟨hanalysing, alive_update rfl rfl nofun hlive⟩
      · exact (h.hidden (by simp [hidle, Stage.storing]) hmon).2
      · exact hinv.others_off hlocked rfl ⟨fun _ => rfl, by simp, by simp⟩
  case storeQuic =>
      have hidle := hidle hlocked
      have henabled := hoff.enabled (.inl hpc)
      refine .idle hidle (fun hmon => ?_) (fun _ => ⟨?_, rfl⟩) ?_
      · obtain ⟨hanalysing, hlive⟩ :=
          h.running (by simp [hidle, Stage.settled]) hmon
        exact ⟨hanalysing, alive_update rfl rfl nofun hlive⟩
      · simp [State.move, henabled]
      · exact hinv.others_off hlocked rfl ⟨fun _ => henabled, fun _ => rfl, by simp⟩
  case storeMonitoring =>
      have henabled := hoff.enabled (.inr hpc)
      refine .idle (hidle hlocked) nofun
        (fun _ => ⟨by simp [State.move, henabled], hoff.quic hpc⟩) ?_
      exact hinv.others_off hlocked rfl ⟨by simp, by simp, fun _ => rfl⟩
  case bump =>
      have hidle := hidle hlocked
      have hmon := hoff.monitoring (.inl hpc)
      refine .idle hidle (fun hon => ?_)
        (fun _ => h.hidden (by simp [hidle, Stage.storing]) hmon) ?_
      · simp [State.move, State.bump, hmon] at hon
      · exact hinv.others_off hlocked rfl ⟨by simp, by simp, fun _ => hmon⟩
  case stop =>
      have hidle := hidle hlocked
      have hmon := hoff.monitoring (.inr hpc)
      refine .idle hidle (fun hon => ?_)
        (fun _ => h.hidden (by simp [hidle, Stage.storing]) hmon) ?_
      · simp [State.leave, State.move, State.analysisStop, hmon] at hon
      · exact hinv.others_off hlocked rfl ⟨by simp, by simp, by simp⟩
  case returned => exact h

theorem flags_step {e : Event} (hinv : Inv s) (h : Flags s)
    (hok : Timely s e) : Flags (next s e) := by
  cases e with
  | command c => exact flags_begin hinv h
  | advance a => exact flags_advance hinv h hok
  | watchdog g answered =>
    cases hw : s.watchdogs g with
    | none => simpa [next, step, hw] using h
    | some w => simpa [next, step, hw] using flags_watch hinv h hw hok
  | stopsByItself =>
    obtain ⟨h1, h2, h3, h4, h5, h6, h7⟩ := h
    exact ⟨h1, h2, h3, h4, h5, h6, fun g w hw =>
      ⟨(h7 g w hw).enabled, (h7 g w hw).quic, (h7 g w hw).monitoring⟩⟩

structure Unflagged (s t : State) : Prop where
  enabledMode : t.enabledMode = s.enabledMode
  streamMonitoring : t.streamMonitoring = s.streamMonitoring
  quicEnabled : t.quicEnabled = s.quicEnabled
  monitorGeneration : t.monitorGeneration = s.monitorGeneration

theorem watch_unflagged {answered : Bool} (hinv : Inv s)
    (hw : s.watchdogs g = some w) (hg : g ≠ s.monitorGeneration) :
    Unflagged s (s.watch g w answered) := by
  have hcurrent := hinv.current g w hw
  cases hpc : w.pc <;>
    simp only [State.watch, hpc, Watch.checked, forall_const, eq_comm, hg]
      at hcurrent ⊢
  case stop => exact ⟨rfl, rfl, rfl, rfl⟩
  case sleeping => exact ⟨rfl, rfl, rfl, rfl⟩
  case returned => exact ⟨rfl, rfl, rfl, rfl⟩
  all_goals
    split <;> exact ⟨rfl, rfl, rfl, rfl⟩

/-! ## Answers -/

def Unsupported (s : State) : Prop :=
  s.supported = false → s.stage = .idle

theorem watch_stage (s : State) (g : Nat) (w : Watchdog) (answered : Bool) :
    (s.watch g w answered).stage = s.stage ∧
      (s.watch g w answered).supported = s.supported := by
  simp only [State.watch]
  split
  case h_1 => exact ⟨rfl, rfl⟩
  case h_8 => exact ⟨rfl, rfl⟩
  case h_9 => exact ⟨rfl, rfl⟩
  case h_10 => exact ⟨rfl, rfl⟩
  case h_11 => exact ⟨rfl, rfl⟩
  case h_12 => exact ⟨rfl, rfl⟩
  case h_13 => exact ⟨rfl, rfl⟩
  all_goals
    split <;> exact ⟨rfl, rfl⟩

theorem advance_ends (s : State) (a : Answers) :
    (s.advance a).2 = .quiet ∨ (s.advance a).1.stage = .idle := by
  cases hstage : s.stage <;> simp only [State.advance, hstage]
  case startCheck c =>
      simp only [State.startCheck]
      split
      · exact .inr rfl
      · split
        · exact .inr rfl
        · split
          · exact .inr rfl
          · split
            · exact .inr rfl
            · split
              · exact .inr rfl
              · exact .inr rfl
              · exact .inl rfl
  case startQuery decrypt quic =>
      simp only [State.startQuery]
      split <;> exact .inl rfl
  case startThread decrypt quic =>
      simp only [State.startThread]
      split <;> exact .inl rfl
  case stopQuery =>
      simp only [State.stopQuery]
      split
      · split
        · exact .inl rfl
        · exact .inr rfl
      · exact .inr rfl
  case startUndo => exact .inr rfl
  case startMonitoring => exact .inr rfl
  case failQuic => exact .inr rfl
  case idle => exact .inl trivial
  all_goals exact .inl rfl

private theorem supported_advance (s : State) (a : Answers) :
    (s.advance a).1.supported = s.supported := by
  cases hstage : s.stage <;> simp only [State.advance, hstage]
  case startCheck c =>
      simp only [State.startCheck]
      split
      · rfl
      · split
        · rfl
        · split
          · rfl
          · split
            · rfl
            · split <;> rfl
  case startQuery decrypt quic =>
      simp only [State.startQuery]
      split <;> rfl
  case startThread decrypt quic =>
      simp only [State.startThread]
      split <;> rfl
  case stopQuery =>
      simp only [State.stopQuery]
      split
      · split <;> rfl
      · rfl
  all_goals rfl

theorem unsupported_step {e : Event} (h : Unsupported s) :
    Unsupported (next s e) := by
  cases e with
  | command c =>
    by_cases hsupported : s.supported = false
    · simpa [next, step, State.begin, hsupported] using h
    · by_cases hlock : s.lock = none
      · intro hnot
        simp [next, step, State.begin, State.enter, hsupported, hlock]
          at hnot
      · simpa [next, step, State.begin, hsupported, hlock] using h
  | advance a =>
    intro hnot
    have hidle := h ((supported_advance s a).symm.trans hnot)
    simp [next, step, State.advance, hidle]
  | watchdog g answered =>
    cases hw : s.watchdogs g with
    | none => simpa [next, step, hw] using h
    | some w =>
      obtain ⟨hstage, hsupported⟩ := watch_stage s g w answered
      simpa [next, step, hw, Unsupported, hstage, hsupported] using h
  | stopsByItself => exact h

theorem answered_idle {e : Event} {c : String} {result : Except String Unit}
    (h : Unsupported s) (hanswer : (step s e).2 = .answered c result) :
    (next s e).stage = .idle := by
  cases e with
  | command c =>
    by_cases hsupported : s.supported = false
    · simpa [next, step, State.begin, hsupported] using h hsupported
    · by_cases hlock : s.lock = none
      · simp [step, State.begin, State.enter, hsupported, hlock] at hanswer
      · simp [step, State.begin, hsupported, hlock] at hanswer
  | advance a =>
    rcases advance_ends s a with hquiet | hidle
    · simp [step, hquiet] at hanswer
    · exact hidle
  | watchdog g answered =>
    cases hw : s.watchdogs g <;> simp [step, hw] at hanswer
  | stopsByItself => cases hanswer

end Flags

/-! ## Monitoring is coherent -/

/-- Monitoring means a running analysis with a live watchdog, and a stopped
analysis means that nothing is monitored or intercepted. -/
structure Coherent (s : State) : Prop where
  running : s.streamMonitoring = true → s.analysis.analysing = true ∧ Alive s
  stopped : s.analysis.analysing = false →
    s.streamMonitoring = false ∧ s.intercepting = false ∧
      s.quicIntercepting = false ∧ s.enabledMode ≠ some true ∧
      s.quicEnabled = false

theorem Flags.coherent {s : State} (h : Flags s) (hidle : s.stage = .idle) :
    Coherent s := by
  have hrunning := h.running (by simp [hidle, Stage.settled])
  refine ⟨hrunning, fun hstopped => ?_⟩
  have hoff : s.streamMonitoring = false := by
    by_contra hon
    simpa [hstopped] using (hrunning (by simpa using hon)).1
  obtain ⟨henabled, hquic⟩ := h.hidden (by simp [hidle, Stage.storing]) hoff
  exact ⟨hoff, by simp [State.intercepting, hoff],
    by simp [State.quicIntercepting, hoff], henabled, hquic⟩

def reached (supported environment : Bool) (es : List Event) : State :=
  run next { supported, environment } es

section Runs

variable (supported environment : Bool)

theorem reached_append (es : List Event) (e : Event) :
    reached supported environment (es ++ [e]) =
      next (reached supported environment es) e := by
  simp [reached, run_append]

theorem inv_reached (es : List Event) :
    Inv (reached supported environment es) := by
  have hstep : ∀ s e, Inv s → Inv (next s e) := fun _ e h => inv_step h e
  exact run_induction hstep (inv_init supported environment) es

theorem unsupported_reached (es : List Event) :
    Unsupported (reached supported environment es) := by
  have hstep : ∀ s e, Unsupported s → Unsupported (next s e) :=
    fun _ _ h => unsupported_step h
  exact run_induction hstep (fun _ => rfl) es

theorem flags_reached {es : List Event}
    (hok : Admissible next Timely { supported, environment } es) :
    Flags (reached supported environment es) := by
  have hstep : ∀ s e, Inv s ∧ Flags s → Timely s e →
      Inv (next s e) ∧ Flags (next s e) :=
    fun s e h hok => ⟨inv_step h.1 e, flags_step h.1 h.2 hok⟩
  have hinit := And.intro (inv_init supported environment)
    (flags_init supported environment)
  exact (run_invariant hstep hinit hok).2

/-- In every run, a watchdog of an older generation changes no flag, and the
analysis that a watchdog stops is the one it was started for.  In a run whose
steps are timely, monitoring is coherent whenever no command is in progress,
in particular after each command that fails. -/
theorem monitoring_coherent (es : List Event) :
    (∀ g w answered,
      (reached supported environment es).watchdogs g = some w →
      (g ≠ (reached supported environment es).monitorGeneration →
        Unflagged (reached supported environment es)
          ((reached supported environment es).watch g w answered)) ∧
      (w.pc = .stop → w.analysis =
        (reached supported environment es).analysis.accepted)) ∧
    (Admissible next Timely { supported, environment } es →
      (reached supported environment es).stage = .idle →
      Coherent (reached supported environment es)) ∧
    (∀ e c message,
      Admissible next Timely { supported, environment } (es ++ [e]) →
      (step (reached supported environment es) e).2 = .answered c (.error message) →
      Coherent (reached supported environment (es ++ [e]))) := by
  have hinv := inv_reached supported environment es
  refine ⟨?_, ?_, ?_⟩
  · intro g w answered hw
    exact ⟨watch_unflagged hinv hw, hinv.stopping g w hw⟩
  · intro hok hidle
    exact (flags_reached supported environment hok).coherent hidle
  · intro e c message hok hanswer
    have hidle :=
      answered_idle (unsupported_reached supported environment es) hanswer
    rw [← reached_append] at hidle
    exact (flags_reached supported environment hok).coherent hidle

end Runs

def watchedStart : List Event :=
  [.command (.monitorStart {}), .advance {}, .advance {}, .advance {}, .advance {},
    .advance {}, .advance {}, .advance {}, .watchdog 1 true, .watchdog 1 true]

theorem monitoring_coherent_start :
    (reached true false watchedStart).streamMonitoring = true ∧
      Coherent (reached true false watchedStart) := by
  have hadvance : ∀ s, Timely s (.advance {}) := fun _ _ h => nomatch h
  have htimely : Admissible next Timely { supported := true, environment := false }
      watchedStart := by
    refine ⟨trivial, hadvance _, hadvance _, hadvance _, hadvance _, hadvance _,
      hadvance _, hadvance _, fun _ _ _ _ _ => ?_, fun _ _ _ _ _ => ?_, trivial⟩ <;>
      decide
  exact ⟨by decide, (monitoring_coherent true false watchedStart).2.1 htimely (by decide)⟩

/-- A watchdog that reads the flag before its start has set it returns, and
monitoring goes on without it; a thread that cannot be made leaves the flags
of the start before, whose analysis has been stopped. -/
theorem monitoring_incoherent :
    let start : List Event := [.command (.monitorStart {}), .advance {},
      .advance {}, .advance {}, .advance {}]
    let stores : List Event := [.advance {}, .advance {}, .advance {}]
    let early : List Event := [.watchdog 1 true, .watchdog 1 true, .watchdog 1 true]
    let refused : List Event := [.command (.monitorStart {}), .advance {},
      .advance {}, .advance {}, .advance { thread := false }, .advance {}]
    let dead := reached true false (start ++ early ++ stores)
    let stopped := reached true false (start ++ stores ++ refused)
    (dead.stage = .idle ∧ ¬ Coherent dead) ∧
      (stopped.stage = .idle ∧ ¬ Coherent stopped) := by
  intro start stores early refused dead stopped
  have hdead : dead.stage = .idle ∧ dead.streamMonitoring = true ∧
      dead.monitorGeneration = 1 ∧
      dead.watchdogs 1 = some { pc := .returned, analysis := 1 } := by
    decide
  have hstopped : stopped.stage = .idle ∧ stopped.streamMonitoring = true ∧
      stopped.analysis.analysing = false := by
    decide
  refine ⟨⟨hdead.1, fun h => ?_⟩, hstopped.1, fun h => ?_⟩
  · obtain ⟨-, w, hw, hpc⟩ := h.running hdead.2.1
    rw [hdead.2.2.1, hdead.2.2.2] at hw
    cases hw
    exact hpc rfl
  · have hrunning := (h.running hstopped.2.1).1
    simp [hstopped.2.2] at hrunning

end ProxyLane.Hook.MitmControl
