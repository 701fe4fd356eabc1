import ProxyLane.App.ConfigStorage

/-!
# Import of a configuration

An import copies the chosen file beside the settings file, keeps a backup under
the lock, restarts the program and replaces the settings file on the way; where
that fails, or the new program does not come up, it puts the backup back.
Other processes store through `ConfigStorage::Update`, which is one step while
the lock is free.
-/

namespace ProxyLane.App

open ProxyLane.Foundation

namespace ConfigImport

/-! ## The import -/

/-- `suspended` until it is resumed, `gone` when it has ended. -/
inductive Child where
  | absent
  | suspended
  | running
  | gone
  deriving DecidableEq, Repr

/-- `refused` is an import that was not begun; `ready` and `restarted` are the
ends with and without the new program, and `restoreFailed` is the report. -/
inductive Outcome where
  | refused
  | ready
  | restarted
  | restoreFailed
  deriving DecidableEq, Repr

/-- Where the import is; a restore is the first one, or the one after the new
program was stopped. -/
inductive Point where
  | prepareExists
  | prepareStaged
  | prepared
  | armCheck
  | armRead
  | armBackup
  | armVerify
  | armLaunch
  | armed
  | finishCheck
  | finishStaged
  | finishReplace
  | finishVerify
  | restoreLock (stopped : Bool)
  | restoreCheck (stopped : Bool)
  | restoreDelete (stopped : Bool)
  | restoreCopy (stopped : Bool)
  | restoreMove (stopped : Bool)
  | restoreVerify (stopped : Bool)
  | resume
  | wait
  | terminate
  | relaunch
  | ended (outcome : Outcome)
  deriving DecidableEq, Repr

def Point.locked : Point → Bool
  | .armCheck | .armRead | .armBackup | .armVerify => true
  | .finishCheck | .finishStaged | .finishReplace | .finishVerify => true
  | .restoreCheck _ | .restoreDelete _ | .restoreCopy _ | .restoreMove _
  | .restoreVerify _ => true
  | _ => false

def Point.confirmed : Point → Bool
  | .prepareExists | .prepareStaged | .prepared | .armCheck | .armRead
  | .armBackup | .armVerify => false
  | _ => true

/-- The files and the import.  The rest is history: what the destination would
hold without the import, whether another writer stored it after the backup,
whether the import lost such a configuration, and whether the new program has
stored one. -/
structure World where
  destination : Option Bytes
  staged : Option Bytes
  backup : Option Bytes
  restore : Option Bytes
  hadPrevious : Bool
  previous : Bytes
  attempted : Bool
  changed : Bool
  child : Child
  ready : Bool
  point : Point
  kept : Option Bytes
  foreign : Bool
  lost : Bool
  guiStored : Bool
  deriving DecidableEq, Repr

/-- `ok` is whether the system does what the step asks for; at `wait` it is
whether the time is not over. -/
inductive Event where
  | go (ok : Bool)
  | other (bytes : Bytes)
  | guiStore (bytes : Bytes)
  | guiReady
  | guiExit
  deriving DecidableEq, Repr

namespace World

variable (w : World)

def prior : Option Bytes := if w.hadPrevious then some w.previous else none

def moveTo (point : Point) : World := { w with point }

def refuse : World := w.moveTo (.ended .refused)

def overwrite (content : Option Bytes) (point : Point) : World :=
  { w with
    destination := content
    lost := w.lost || w.foreign
    foreign := false
    point }

/-- The error branch of `FinishAfterShutdown`. -/
def fail : World :=
  if w.attempted then w.moveTo (.restoreLock false)
  else { w with changed := false, point := .resume }

/-- The answer of `Restore`. -/
def restored (stopped ok : Bool) : World :=
  if !ok then w.moveTo (.ended .restoreFailed)
  else if stopped then w.moveTo .relaunch
  else { w with changed := false, point := .resume }

end World

section Machine

variable (contents : Bytes)

/-- One step of the import. -/
def go (w : World) (ok : Bool) : World :=
  match w.point with
  | .prepareExists =>
    if ok then
      { w with hadPrevious := w.destination.isSome, point := .prepareStaged }
    else w.refuse
  | .prepareStaged =>
    if ok then { w with staged := some contents, point := .prepared } else w.refuse
  | .prepared => if ok then w.moveTo .armCheck else w.refuse
  | .armCheck =>
    if !ok || w.destination.isSome != w.hadPrevious then w.refuse
    else if w.hadPrevious then w.moveTo .armRead
    else w.moveTo .armLaunch
  | .armRead =>
    match w.destination, ok with
    | some bytes, true => { w with previous := bytes, point := .armBackup }
    | _, _ => w.refuse
  | .armBackup =>
    if ok then { w with backup := some w.previous, point := .armVerify }
    else w.refuse
  | .armVerify =>
    if ok && w.backup == some w.previous then w.moveTo .armLaunch else w.refuse
  | .armLaunch =>
    if ok then { w with child := .suspended, point := .armed } else w.refuse
  | .armed => if ok then w.moveTo .finishCheck else w.fail
  | .finishCheck =>
    if !ok || w.destination.isSome != w.hadPrevious ||
        (w.hadPrevious && w.destination != some w.previous) then w.fail
    else w.moveTo .finishStaged
  | .finishStaged =>
    if ok && w.staged == some contents then
      { w with attempted := true, point := .finishReplace }
    else w.fail
  | .finishReplace =>
    if ok && w.destination.isSome == w.hadPrevious && w.staged.isSome then
      { w.overwrite w.staged .finishVerify with staged := none, changed := true }
    else w.fail
  | .finishVerify =>
    if ok && w.destination == some contents then w.moveTo .resume else w.fail
  | .restoreLock stopped =>
    if ok then w.moveTo (.restoreCheck stopped) else w.restored stopped false
  | .restoreCheck stopped =>
    if !ok then w.restored stopped false
    else if !w.hadPrevious then
      if w.destination.isSome then w.moveTo (.restoreDelete stopped)
      else w.restored stopped true
    else if w.destination == some w.previous then w.restored stopped true
    else w.moveTo (.restoreCopy stopped)
  | .restoreDelete stopped =>
    if ok then (w.overwrite none w.point).restored stopped true
    else w.restored stopped false
  | .restoreCopy stopped =>
    if ok && w.backup.isSome && w.restore.isNone then
      { w with restore := w.backup, point := .restoreMove stopped }
    else w.restored stopped false
  | .restoreMove stopped =>
    if ok then
      { w.overwrite w.restore (.restoreVerify stopped) with restore := none }
    else ({ w with restore := none }).restored stopped false
  | .restoreVerify stopped =>
    w.restored stopped (ok && w.destination == some w.previous)
  | .resume =>
    if ok then { w with child := .running, point := .wait } else w.moveTo .terminate
  | .wait =>
    if w.ready then w.moveTo (.ended .ready)
    else if w.child = .gone || !ok then w.moveTo .terminate
    else w
  | .terminate =>
    if w.child = .gone || ok then
      { w with
        child := .gone
        point := if w.changed then .restoreLock true else .relaunch }
    else w.moveTo (.ended .restoreFailed)
  | .relaunch => w.moveTo (.ended .restarted)
  | .ended _ => w

def isEnded : Point → Bool
  | .ended _ => true
  | _ => false

def step (w : World) : Event → World
  | .go ok => go contents w ok
  | .other bytes =>
    if w.point.locked || isEnded w.point then w
    else
      { w with
        destination := some bytes
        kept := some bytes
        foreign := w.point.confirmed && some bytes != w.prior }
  | .guiStore bytes =>
    if w.point.locked || isEnded w.point || w.child ≠ .running then w
    else { w with destination := some bytes, guiStored := true }
  | .guiReady =>
    if isEnded w.point || w.child ≠ .running then w else { w with ready := true }
  | .guiExit =>
    if isEnded w.point || w.child ≠ .running then w else { w with child := .gone }

end Machine

def start (destination : Option Bytes) : World where
  destination
  staged := none
  backup := none
  restore := none
  hadPrevious := false
  previous := []
  attempted := false
  changed := false
  child := .absent
  ready := false
  point := .prepareExists
  kept := destination
  foreign := false
  lost := false
  guiStored := false

/-! ## Invariants -/

def exposed (w : World) : Bool :=
  match w.point with
  | .restoreLock _ => true
  | .resume | .wait | .terminate => w.changed
  | _ => false

/-- No other process stores while the import is exposed; the new program stores
nothing before it is ready, and nothing where the original was kept. -/
def Fine (w : World) : Event → Prop
  | .other _ => exposed w = false
  | .guiStore _ => w.changed = true ∧ w.ready = false
  | .guiReady => w.guiStored = false
  | _ => True

instance (w : World) (e : Event) : Decidable (Fine w e) := by
  cases e <;> unfold Fine <;> infer_instance

def Holds (contents : Bytes) (w : World) : Point → Prop
  | .finishStaged => w.destination = w.kept ∧ w.kept = w.prior ∧
      w.attempted = false ∧ w.changed = false
  | .finishReplace => w.destination = w.kept ∧ w.kept = w.prior ∧ w.changed = false ∧
      w.staged = some contents
  | .finishVerify => w.destination = some contents ∧ w.kept = w.prior ∧
      w.changed = true
  | .restoreLock _ | .restoreCheck _ => w.kept = w.prior
  | .restoreDelete _ => w.kept = w.prior ∧ w.hadPrevious = false
  | .restoreCopy _ => w.kept = w.prior ∧ w.hadPrevious = true
  | .restoreMove _ => w.kept = w.prior ∧ w.hadPrevious = true ∧
      w.restore = some w.previous
  | .restoreVerify _ => w.kept = w.prior ∧ w.hadPrevious = true
  | .resume | .wait | .terminate =>
    if w.changed then
      w.kept = w.prior ∧ (w.guiStored = false → w.destination = some contents)
    else w.destination = w.kept
  | .ended .ready => w.destination = some contents ∨ w.destination = w.kept
  | .ended .restoreFailed => True
  | _ => w.destination = w.kept

def Point.early : Point → Bool
  | .prepareExists | .prepareStaged | .prepared | .armCheck | .armRead
  | .armBackup | .armVerify | .armLaunch | .armed | .finishCheck => true
  | _ => false

structure Inv (contents : Bytes) (w : World) : Prop where
  holds : Holds contents w w.point
  lost : w.lost = false
  foreign : w.foreign = true → w.point.confirmed = true ∧ w.kept ≠ w.prior
  backup : w.point.confirmed = true → isEnded w.point = false →
    w.hadPrevious = true → w.backup = some w.previous
  child : w.child = .running → w.point = .wait ∨ w.point = .terminate ∨
    isEnded w.point = true
  ready : w.ready = true → w.guiStored = false
  early : w.point.early = true → w.attempted = false ∧ w.changed = false
  replacing : w.point = .finishReplace ∨ w.point = .finishVerify → w.attempted = true

section Steps

variable {contents : Bytes} {w : World}

theorem start_inv (destination : Option Bytes) : Inv contents (start destination) := by
  constructor <;> simp [start, Holds]

theorem Inv.moveTo (h : Inv contents w) {point : Point} (hholds : Holds contents w point)
    (hconfirmed : w.point.confirmed = true → point.confirmed = true)
    (hbackup : point.confirmed = true → isEnded point = false →
      w.hadPrevious = true → w.backup = some w.previous)
    (hchild : w.child = .running → point = .wait ∨ point = .terminate ∨
      isEnded point = true)
    (hearly : point.early = true → w.attempted = false ∧ w.changed = false)
    (hreplacing : point = .finishReplace ∨ point = .finishVerify →
      w.attempted = true) : Inv contents (w.moveTo point) := by
  refine ⟨?_, h.lost, fun hf => ⟨hconfirmed (h.foreign hf).1, (h.foreign hf).2⟩, hbackup,
    hchild, h.ready, hearly, hreplacing⟩
  cases point with
  | ended outcome => cases outcome <;> exact hholds
  | _ => exact hholds

theorem Inv.refuse (h : Inv contents w) (hkept : w.destination = w.kept) :
    Inv contents w.refuse := by
  apply h.moveTo <;> simp [Holds, Point.confirmed, isEnded, Point.early, hkept]

structure Under (w : World) : Prop where
  confirmed : w.point.confirmed = true
  going : isEnded w.point = false
  child : w.child ≠ .running

theorem Inv.fail (h : Inv contents w) (hunder : Under w)
    (hkept : w.attempted = false → w.destination = w.kept)
    (hprior : w.attempted = true → w.kept = w.prior) : Inv contents w.fail := by
  have hbackup := h.backup hunder.confirmed hunder.going
  simp only [World.fail]
  split
  · rename_i hattempted
    refine h.moveTo ?_ (fun _ => rfl) (fun _ _ => hbackup) ?_ ?_ ?_ <;>
      simp [Holds, Point.early, hprior hattempted, hunder.child]
  · rename_i hattempted
    have hdestination := hkept (by simpa using hattempted)
    exact ⟨by simp [Holds, hdestination], h.lost,
      fun hf => ⟨rfl, (h.foreign hf).2⟩, fun _ _ => hbackup,
      fun hrunning => absurd hrunning hunder.child, h.ready, by simp [Point.early],
      by simp⟩

theorem Inv.restored (h : Inv contents w) (hunder : Under w) (stopped : Bool) {ok : Bool}
    (hkept : ok = true → w.destination = w.kept) :
    Inv contents (w.restored stopped ok) := by
  have hbackup := h.backup hunder.confirmed hunder.going
  simp only [World.restored]
  split
  · apply h.moveTo <;> simp [Holds, Point.confirmed, isEnded, Point.early]
  · rename_i hok
    have hdestination := hkept (by simpa using hok)
    split
    · refine h.moveTo ?_ (fun _ => rfl) (fun _ _ => hbackup) ?_ ?_ ?_ <;>
        simp [Holds, Point.early, hdestination, hunder.child]
    · exact ⟨by simp [Holds, hdestination], h.lost,
        fun hf => ⟨rfl, (h.foreign hf).2⟩, fun _ _ => hbackup,
        fun hrunning => absurd hrunning hunder.child, h.ready, by simp [Point.early],
        by simp⟩

theorem Inv.overwrite (h : Inv contents w) (hprior : w.kept = w.prior) :
    w.foreign = false := by
  cases hforeign : w.foreign with
  | false => rfl
  | true => exact absurd hprior (h.foreign hforeign).2

theorem Inv.early_step (h : Inv contents w) {w' : World}
    (hpoint : w.point.early = true) (hpoint' : w'.point.early = true)
    (hdestination : w'.destination = w.destination) (hkept : w'.kept = w.kept)
    (hattempted : w'.attempted = w.attempted) (hchanged : w'.changed = w.changed)
    (hlost : w'.lost = w.lost) (hready : w'.ready = w.ready)
    (hguiStored : w'.guiStored = w.guiStored)
    (hforeign : w'.foreign = true → w'.point.confirmed = true ∧ w'.kept ≠ w'.prior)
    (hchild : w'.child ≠ .running)
    (hbackup : w'.point.confirmed = true → w'.hadPrevious = true →
      w'.backup = some w'.previous) : Inv contents w' := by
  have hholds : ∀ (u : World) {point : Point}, point.early = true →
      (Holds contents u point ↔ u.destination = u.kept) := by
    intro u point hearly
    cases point <;> simp_all [Point.early, Holds]
  refine ⟨(hholds w' hpoint').2 ?_, hlost.trans h.lost, hforeign,
    fun hconfirmed _ => hbackup hconfirmed, fun hrunning => absurd hrunning hchild, ?_,
    fun _ => ?_, ?_⟩
  · rw [hdestination, hkept]
    exact (hholds w hpoint).1 h.holds
  · rw [hready, hguiStored]
    exact h.ready
  · rw [hattempted, hchanged]
    exact h.early hpoint
  · rintro (hat | hat) <;> simp [hat, Point.early] at hpoint'

theorem go_arm (h : Inv contents w) (ok : Bool) (hpoint : w.point.confirmed = false) :
    Inv contents (go contents w ok) := by
  have hforeign : w.foreign = false := by
    cases hf : w.foreign with
    | false => rfl
    | true => simpa [hpoint] using (h.foreign hf).1
  have hchild : w.child ≠ .running := by
    intro hrunning
    rcases h.child hrunning with hat | hat | hat
    · simp [hat, Point.confirmed] at hpoint
    · simp [hat, Point.confirmed] at hpoint
    · cases hp : w.point <;> simp_all [isEnded, Point.confirmed]
  have hearly : w.point.early = true := by
    cases hp : w.point <;> simp_all [Point.early, Point.confirmed]
  have hkept : w.destination = w.kept := by
    have hholds := h.holds
    cases hp : w.point <;> simp_all [Holds, Point.confirmed]
  have hrefuse := h.refuse hkept
  cases hat : w.point with
  | prepareExists =>
    simp only [go, hat]
    split
    · apply h.early_step hearly <;> simp [Point.early, Point.confirmed, hforeign, hchild]
    · exact hrefuse
  | prepareStaged =>
    simp only [go, hat]
    split
    · apply h.early_step hearly <;> simp [Point.early, Point.confirmed, hforeign, hchild]
    · exact hrefuse
  | prepared =>
    simp only [go, hat]
    split
    · apply h.early_step hearly <;>
        simp [World.moveTo, Point.early, Point.confirmed, hforeign, hchild]
    · exact hrefuse
  | armCheck =>
    simp only [go, hat]
    split
    · exact hrefuse
    · split
      · apply h.early_step hearly <;>
          simp [World.moveTo, Point.early, Point.confirmed, hforeign, hchild]
      · rename_i hprevious
        apply h.early_step hearly <;>
          simp [World.moveTo, Point.early, hforeign, hchild, hprevious]
  | armRead =>
    simp only [go, hat]
    split
    · apply h.early_step hearly <;> simp [Point.early, Point.confirmed, hforeign, hchild]
    · exact hrefuse
  | armBackup =>
    simp only [go, hat]
    split
    · apply h.early_step hearly <;> simp [Point.early, Point.confirmed, hforeign, hchild]
    · exact hrefuse
  | armVerify =>
    simp only [go, hat]
    split
    · rename_i hverified
      simp only [Bool.and_eq_true, beq_iff_eq] at hverified
      apply h.early_step hearly <;>
        simp [World.moveTo, Point.early, hforeign, hchild, hverified.2]
    · exact hrefuse
  | _ => simp [hat, Point.confirmed] at hpoint

theorem go_finish (h : Inv contents w) (ok : Bool)
    (hpoint : w.point = .armLaunch ∨ w.point = .armed ∨ w.point = .finishCheck ∨
      w.point = .finishStaged ∨ w.point = .finishReplace ∨ w.point = .finishVerify) :
    Inv contents (go contents w ok) := by
  have hunder : Under w := by
    refine ⟨?_, ?_, fun hrunning => ?_⟩
    · rcases hpoint with hat | hat | hat | hat | hat | hat <;> simp [hat, Point.confirmed]
    · rcases hpoint with hat | hat | hat | hat | hat | hat <;> simp [hat, isEnded]
    · rcases hpoint with hat | hat | hat | hat | hat | hat <;>
        simpa [hat, isEnded] using h.child hrunning
  have hbackup := h.backup hunder.confirmed hunder.going
  have hholds := h.holds
  rcases hpoint with hat | hat | hat | hat | hat | hat
  · rw [hat] at hholds
    simp only [go, hat]
    split
    · apply h.early_step (by simp [hat, Point.early]) <;> simp [Point.early]
      · exact fun hf => ⟨rfl, (h.foreign hf).2⟩
      · exact fun _ => hbackup
    · exact h.refuse hholds
  · rw [hat] at hholds
    have hearly := h.early (by simp [hat, Point.early])
    simp only [go, hat]
    split
    · apply h.early_step (by simp [hat, Point.early]) <;>
        simp [World.moveTo, Point.early, hunder.child]
      · exact fun hf => ⟨rfl, (h.foreign hf).2⟩
      · exact fun _ => hbackup
    · exact h.fail hunder (fun _ => hholds) (by simp [hearly.1])
  · rw [hat] at hholds
    have hearly := h.early (by simp [hat, Point.early])
    simp only [go, hat]
    split
    · exact h.fail hunder (fun _ => hholds) (by simp [hearly.1])
    · rename_i hcompared
      refine h.moveTo ⟨hholds, ?_, hearly⟩ (fun _ => rfl) (fun _ _ => hbackup) ?_ ?_ ?_
      · rw [← show w.destination = w.kept from hholds]
        simp only [Bool.or_eq_true, not_or, Bool.not_eq_true] at hcompared
        cases hprevious : w.hadPrevious <;> simp_all [World.prior]
      · exact fun hrunning => absurd hrunning hunder.child
      · simp [Point.early]
      · simp
  · rw [hat] at hholds
    obtain ⟨hkept, hprior, hattempted, hchanged⟩ := hholds
    simp only [go, hat]
    split
    · rename_i hstaged
      simp only [Bool.and_eq_true, beq_iff_eq] at hstaged
      exact ⟨⟨hkept, hprior, hchanged, hstaged.2⟩, h.lost,
        fun hf => ⟨rfl, (h.foreign hf).2⟩, fun _ _ => hbackup,
        fun hrunning => absurd hrunning hunder.child, h.ready, by simp [Point.early],
        by simp⟩
    · exact h.fail hunder (fun _ => hkept) (by simp [hattempted])
  · rw [hat] at hholds
    obtain ⟨hkept, hprior, hchanged, hstaged⟩ := hholds
    have hattempted := h.replacing (Or.inl hat)
    have hforeign := h.overwrite hprior
    simp only [go, hat]
    split
    · exact ⟨⟨hstaged, hprior, rfl⟩, by simp [World.overwrite, h.lost, hforeign],
        by simp [World.overwrite], fun _ _ => hbackup,
        fun hrunning => absurd hrunning hunder.child, h.ready,
        by simp [World.overwrite, Point.early], fun _ => hattempted⟩
    · exact h.fail hunder (by simp [hattempted]) (fun _ => hprior)
  · rw [hat] at hholds
    obtain ⟨hdestination, hprior, hchanged⟩ := hholds
    have hattempted := h.replacing (Or.inr hat)
    simp only [go, hat]
    split
    · refine h.moveTo ?_ (fun _ => rfl) (fun _ _ => hbackup) ?_ ?_ ?_ <;>
        simp [Holds, Point.early, hchanged, hprior, hdestination, hunder.child]
    · exact h.fail hunder (by simp [hattempted]) (fun _ => hprior)

theorem go_restore (h : Inv contents w) (ok : Bool) {stopped : Bool}
    (hpoint : w.point = .restoreLock stopped ∨ w.point = .restoreCheck stopped ∨
      w.point = .restoreDelete stopped ∨ w.point = .restoreCopy stopped ∨
      w.point = .restoreMove stopped ∨ w.point = .restoreVerify stopped) :
    Inv contents (go contents w ok) := by
  have hunder : Under w := by
    refine ⟨?_, ?_, fun hrunning => ?_⟩
    · rcases hpoint with hat | hat | hat | hat | hat | hat <;> simp [hat, Point.confirmed]
    · rcases hpoint with hat | hat | hat | hat | hat | hat <;> simp [hat, isEnded]
    · rcases hpoint with hat | hat | hat | hat | hat | hat <;>
        simpa [hat, isEnded] using h.child hrunning
  have hbackup := h.backup hunder.confirmed hunder.going
  have hholds := h.holds
  rcases hpoint with hat | hat | hat | hat | hat | hat
  · rw [hat] at hholds
    simp only [go, hat]
    split
    · refine h.moveTo hholds (fun _ => rfl) (fun _ _ => hbackup) ?_ ?_ ?_ <;>
        simp [Point.early, hunder.child]
    · exact h.restored hunder stopped (by simp)
  · rw [hat] at hholds
    have hprior : w.kept = w.prior := hholds
    simp only [go, hat]
    split
    · exact h.restored hunder stopped (by simp)
    · split
      · rename_i hprevious
        simp only [Bool.not_eq_true'] at hprevious
        split
        · refine h.moveTo ⟨hholds, hprevious⟩ (fun _ => rfl) (fun _ _ => hbackup)
            ?_ ?_ ?_ <;> simp [Point.early, hunder.child]
        · refine h.restored hunder stopped fun _ => ?_
          simp_all [World.prior]
      · rename_i hprevious
        simp only [Bool.not_eq_true', Bool.not_eq_false] at hprevious
        split
        · refine h.restored hunder stopped fun _ => ?_
          simp_all [World.prior]
        · refine h.moveTo ⟨hholds, hprevious⟩ (fun _ => rfl) (fun _ _ => hbackup)
            ?_ ?_ ?_ <;> simp [Point.early, hunder.child]
  · rw [hat] at hholds
    obtain ⟨hprior, hprevious⟩ := hholds
    have hforeign := h.overwrite hprior
    simp only [go, hat]
    split
    · have hdeleted : Inv contents (w.overwrite none (.restoreDelete stopped)) :=
        ⟨⟨hprior, hprevious⟩, by simp [World.overwrite, h.lost, hforeign],
          by simp [World.overwrite], fun _ _ => hbackup,
          fun hrunning => absurd hrunning hunder.child, h.ready,
          by simp [World.overwrite, Point.early], by simp [World.overwrite]⟩
      refine hdeleted.restored ⟨rfl, rfl, hunder.child⟩ stopped fun _ => ?_
      have hkept : w.kept = none := by simp [hprior, World.prior, hprevious]
      simp [World.overwrite, hkept]
    · exact h.restored hunder stopped (by simp)
  · rw [hat] at hholds
    obtain ⟨hprior, hprevious⟩ := hholds
    simp only [go, hat]
    split
    · exact ⟨⟨hprior, hprevious, hbackup hprevious⟩, h.lost,
        fun hf => ⟨rfl, (h.foreign hf).2⟩, fun _ _ => hbackup,
        fun hrunning => absurd hrunning hunder.child, h.ready, by simp [Point.early],
        by simp⟩
    · exact h.restored hunder stopped (by simp)
  · rw [hat] at hholds
    obtain ⟨hprior, hprevious, hrestore⟩ := hholds
    have hforeign := h.overwrite hprior
    simp only [go, hat]
    split
    · exact ⟨⟨hprior, hprevious⟩, by simp [World.overwrite, h.lost, hforeign],
        by simp [World.overwrite], fun _ _ => hbackup,
        fun hrunning => absurd hrunning hunder.child, h.ready,
        by simp [World.overwrite, Point.early], by simp [World.overwrite]⟩
    · exact ⟨trivial, h.lost, fun hf => ⟨rfl, (h.foreign hf).2⟩, by simp [isEnded,
        World.restored, World.moveTo], fun hrunning => absurd hrunning hunder.child,
        h.ready, by simp [World.restored, World.moveTo, Point.early],
        by simp [World.restored, World.moveTo]⟩
  · rw [hat] at hholds
    obtain ⟨hprior, hprevious⟩ := hholds
    simp only [go, hat]
    refine h.restored hunder stopped fun hverified => ?_
    simp only [Bool.and_eq_true, beq_iff_eq] at hverified
    rw [hverified.2, hprior, World.prior, if_pos hprevious]

theorem go_restart (h : Inv contents w) (ok : Bool)
    (hpoint : w.point = .resume ∨ w.point = .wait ∨ w.point = .terminate ∨
      w.point = .relaunch) : Inv contents (go contents w ok) := by
  have hconfirmed : w.point.confirmed = true := by
    rcases hpoint with hat | hat | hat | hat <;> simp [hat, Point.confirmed]
  have hgoing : isEnded w.point = false := by
    rcases hpoint with hat | hat | hat | hat <;> simp [hat, isEnded]
  have hbackup := h.backup hconfirmed hgoing
  have hholds := h.holds
  rcases hpoint with hat | hat | hat | hat
  · rw [hat] at hholds
    have hchild : w.child ≠ .running := fun hrunning => by
      simpa [hat, isEnded] using h.child hrunning
    simp only [go, hat]
    split
    · exact ⟨hholds, h.lost, fun hf => ⟨rfl, (h.foreign hf).2⟩, fun _ _ => hbackup,
        by simp, h.ready, by simp [Point.early], by simp⟩
    · refine h.moveTo hholds (fun _ => rfl) (fun _ _ => hbackup) ?_ ?_ ?_ <;>
        simp [Point.early]
  · rw [hat] at hholds
    simp only [go, hat]
    split
    · rename_i hready
      refine h.moveTo ?_ (fun _ => rfl) (by simp [isEnded]) ?_ ?_ ?_
      · simp only [Holds] at hholds ⊢
        split at hholds
        · exact Or.inl (hholds.2 (h.ready hready))
        · exact Or.inr hholds
      · simp [isEnded]
      · simp [Point.early]
      · simp
    · split
      · refine h.moveTo hholds (fun _ => rfl) (fun _ _ => hbackup) ?_ ?_ ?_ <;>
          simp [Point.early]
      · exact h
  · rw [hat] at hholds
    simp only [go, hat]
    split
    · cases hchanged : w.changed with
      | true =>
        simp only [Holds, hchanged, if_true] at hholds
        exact ⟨hholds.1, h.lost, fun hf => ⟨rfl, (h.foreign hf).2⟩,
          fun _ _ => hbackup, by simp, h.ready, by simp [Point.early], by simp⟩
      | false =>
        simp only [Holds, hchanged, Bool.false_eq_true, if_false] at hholds
        exact ⟨hholds, h.lost, fun hf => ⟨rfl, (h.foreign hf).2⟩,
          fun _ _ => hbackup, by simp, h.ready, by simp [Point.early], by simp⟩
    · apply h.moveTo <;> simp [Holds, Point.confirmed, isEnded, Point.early]
  · rw [hat] at hholds
    simp only [go, hat]
    refine h.moveTo hholds (fun _ => rfl) ?_ ?_ ?_ ?_ <;> simp [isEnded, Point.early]

theorem go_inv (h : Inv contents w) (ok : Bool) : Inv contents (go contents w ok) := by
  cases hconfirmed : w.point.confirmed with
  | false => exact go_arm h ok hconfirmed
  | true =>
    cases hat : w.point with
    | ended outcome => simpa [go, hat] using h
    | armLaunch | armed | finishCheck | finishStaged | finishReplace | finishVerify =>
      exact go_finish h ok (by simp [hat])
    | restoreLock stopped | restoreCheck stopped | restoreDelete stopped
    | restoreCopy stopped | restoreMove stopped | restoreVerify stopped =>
      exact @go_restore contents w h ok stopped (by simp [hat])
    | resume | wait | terminate | relaunch => exact go_restart h ok (by simp [hat])
    | _ => simp [hat, Point.confirmed] at hconfirmed

private theorem other_inv (h : Inv contents w) (bytes : Bytes)
    (hfine : Fine w (.other bytes)) : Inv contents (step contents w (.other bytes)) := by
  simp only [step]
  split
  · exact h
  · rename_i hfree
    have hfine : exposed w = false := hfine
    have hholds := h.holds
    refine ⟨?_, h.lost, ?_, h.backup, h.child, h.ready, h.early, h.replacing⟩
    · cases hat : w.point <;>
        simp_all [Holds, Point.locked, isEnded, exposed]
    · simp only [Bool.and_eq_true, bne_iff_ne, ne_eq]
      exact fun hforeign => hforeign

theorem holds_child {point : Point} (h : Holds contents w point) (child : Child)
    (ready : Bool) : Holds contents { w with child, ready } point := by
  cases point with
  | ended outcome => cases outcome <;> exact h
  | _ => exact h

theorem step_inv (w : World) (e : Event) (h : Inv contents w) (hfine : Fine w e) :
    Inv contents (step contents w e) := by
  cases e with
  | go ok => exact go_inv h ok
  | other bytes => exact other_inv h bytes hfine
  | guiStore bytes =>
    simp only [step]
    split
    · exact h
    · rename_i hrunning
      simp only [Bool.or_eq_true, decide_eq_true_eq, not_or, Bool.not_eq_true,
        not_not] at hrunning
      obtain ⟨hchanged, hready⟩ := hfine
      have hholds := h.holds
      have hat : w.point = .wait ∨ w.point = .terminate := by
        rcases h.child hrunning.2 with hat | hat | hat
        · exact Or.inl hat
        · exact Or.inr hat
        · rw [hrunning.1.2] at hat
          simp at hat
      refine ⟨?_, h.lost, h.foreign, h.backup, h.child, by simp [hready], h.early,
        h.replacing⟩
      rcases hat with hat | hat <;> simp_all [Holds, World.prior]
  | guiReady =>
    simp only [step]
    split
    · exact h
    · refine ⟨?_, h.lost, h.foreign, h.backup, h.child, fun _ => hfine, h.early,
        h.replacing⟩
      exact holds_child h.holds w.child true
  | guiExit =>
    simp only [step]
    split
    · exact h
    · refine ⟨?_, h.lost, h.foreign, h.backup, by simp, h.ready, h.early, h.replacing⟩
      exact holds_child h.holds .gone w.ready

end Steps

def AllOrNothing (contents : Bytes) (w : World) : Prop :=
  ∀ outcome, w.point = .ended outcome →
    outcome = .ready ∧ w.destination = some contents ∨ w.destination = w.kept ∨
      outcome = .restoreFailed

/--
As long as nobody stores while a restore may still come, an import ends with the
imported configuration and the new program ready, with what was there without
it, or with a report; and it never overwrites a configuration of another writer.
-/
theorem import_all_or_nothing (contents : Bytes) (destination : Option Bytes)
    {events : List Event}
    (hfine : Admissible (step contents) Fine (start destination) events) :
    AllOrNothing contents (run (step contents) (start destination) events) ∧
      (run (step contents) (start destination) events).lost = false := by
  have h := run_invariant step_inv (start_inv destination) hfine
  refine ⟨fun outcome hended => ?_, h.lost⟩
  have hholds := h.holds
  rw [hended] at hholds
  cases outcome with
  | refused => exact Or.inr (Or.inl hholds)
  | ready =>
    simp only [Holds] at hholds
    simpa using hholds
  | restarted => exact Or.inr (Or.inl hholds)
  | restoreFailed => simp

def toReplacement : List Event := List.replicate 11 (.go true)

def completed : List Event :=
  toReplacement ++ [.go true, .go true, .go true, .guiReady, .go true]

def interrupted : List Event :=
  toReplacement ++ [.go false, .other [3]] ++ List.replicate 5 (.go true)

theorem completed_import :
    (run (step [2]) (start (some [1])) completed).point = .ended .ready ∧
      (run (step [2]) (start (some [1])) completed).destination = some [2] ∧
      AllOrNothing [2] (run (step [2]) (start (some [1])) completed) :=
  ⟨by decide, by decide, (import_all_or_nothing [2] (some [1]) (by decide)).1⟩

theorem interrupted_import :
    let before :=
      run (step [2]) (start (some [1])) (toReplacement ++ [.go false, .other [3]])
    let after := run (step [2]) (start (some [1])) interrupted
    before.destination = some [3] ∧ before.kept = some [3] ∧
      after.destination = some [1] ∧ after.kept = some [3] ∧ after.lost = true := by
  decide

end ConfigImport

end ProxyLane.App
