import ProxyLane.Hook.ProcessRegistry

/-!
# The watchdog of suspended children

The hook starts a child suspended, with a marker in its environment, and lets
it run when it has been dealt with.  Where the parent ends in between, the
child is left suspended; a timer looks for such orphans and terminates them.

A scan reads a list of the system's processes, and everything it looks at may
change between any two of its steps: processes start and end, identifiers are
used again, children are registered and released by other threads.
-/

namespace ProxyLane.Hook

open ProxyLane.Foundation

namespace ChildGuard

/-! ## The list of processes -/

structure SystemThread where
  threadId : Nat
  threadState : Nat
  waitReason : Nat
  deriving DecidableEq, Repr

/-- An entry of the answer of `NtQuerySystemInformation`. -/
structure SystemProcess where
  processId : Nat
  parentProcessId : Nat
  createTime : Int
  kernelTime : Nat
  userTime : Nat
  threads : List SystemThread
  deriving DecidableEq, Repr

structure ProcessSnapshot where
  processId : Nat
  parentProcessId : Nat
  threadId : Nat
  threadCount : Nat
  createTime : Nat
  cpuTime : Nat
  onlyThreadSuspended : Bool
  deriving DecidableEq, Repr

def isSuspended (thread : SystemThread) : Bool :=
  thread.threadState == 5 && (thread.waitReason == 5 || thread.waitReason == 12)

def snapshotOf (entry : SystemProcess) : ProcessSnapshot where
  processId := entry.processId
  parentProcessId := entry.parentProcessId
  threadId := match entry.threads with
    | [thread] => thread.threadId
    | _ => 0
  threadCount := entry.threads.length
  createTime := entry.createTime.toNat
  cpuTime := (entry.kernelTime + entry.userTime) % 2 ^ 64
  onlyThreadSuspended := match entry.threads with
    | [thread] => isSuspended thread
    | _ => false

abbrev Processes := Table ProcessSnapshot

def addProcess (processes : Processes) (entry : SystemProcess) : Processes :=
  if entry.processId ≠ 0 ∧ 0 < entry.createTime then
    processes.insert entry.processId (snapshotOf entry)
  else processes

def queryChildGuardProcessSnapshot (system : List SystemProcess) : Processes :=
  system.foldl addProcess .empty

abbrev Lifetime := Nat × Nat

def lists (processes : Processes) (it : Lifetime) : Bool :=
  (processes.get? it.1).any (·.createTime == it.2)

/-! ## Scans -/

structure Marker where
  name : List UInt16
  generationTime : Nat
  deriving DecidableEq, Repr

structure SuspendedChildObservation where
  processCreateTime : Nat
  cpuTime : Nat
  consecutiveChecks : Nat
  deriving DecidableEq, Repr

/-- What a scan has read; `carrying` are the processes in which
`RemoteProcessHasChildGuard` has found the marker. -/
structure Scan where
  marker : Marker
  processes : Processes
  now : Nat
  carrying : List Lifetime

/-- `marked` is the process in which the marker was found again. -/
structure Recheck where
  processes : Processes
  marked : Lifetime

/-- A termination, with all that was seen before it; `released` says whether
the lifetime had been released, `registered` what the registry answered. -/
structure Kill where
  lifetime : Lifetime
  previous : Option Scan
  scan : Scan
  recheck : Recheck
  registered : Bool
  released : Bool

inductive Point where
  | examine
  | guarded (child : ProcessSnapshot)
  | recheck (child : ProcessSnapshot)
  | again (child : ProcessSnapshot) (processes : Processes)
  | opening (child : ProcessSnapshot) (recheck : Recheck)
  | opened (child : ProcessSnapshot) (recheck : Recheck)
  | checked (child : ProcessSnapshot) (recheck : Recheck) (registered released : Bool)

inductive Phase where
  | idle
  | queried (marker : Marker) (processes : Processes)
  | scanning (scan : Scan) (next : Table SuspendedChildObservation)
      (rest : List ProcessSnapshot) (point : Point)

/-- A release is recorded by another thread, after its creation time has been
looked up: `releasing` are the calls in between.  The last four fields are
history: the lifetimes that have ended and those that were released, the
scan completed last, and the terminations. -/
structure State where
  system : List SystemProcess
  registry : ProcessRegistry.Records
  releasing : List Lifetime
  releasedChildren : Table Nat
  observations : Table SuspendedChildObservation
  processed : Table Nat
  phase : Phase
  departed : List Lifetime
  released : List Lifetime
  previous : Option Scan
  kills : List Kill

def State.start (system : List SystemProcess) : State :=
  ⟨system, .empty, [], .empty, .empty, .empty, .idle, [], [], none, []⟩

def processesOf (s : State) : Processes :=
  queryChildGuardProcessSnapshot s.system

/-- `answer` is whether the call the thread is at succeeds. -/
structure Input where
  marker : Option Marker
  now : Nat
  answer : Bool

inductive Event where
  | system (system : List SystemProcess)
  | registry (records : ProcessRegistry.Records)
  | release (child : Lifetime) (answered : Bool)
  | record (child : Lifetime)
  | advance (input : Input)

def minimumAge : Nat := 60 * 1000 * 1000 * 10

def hasParent (processes : Processes) (child : ProcessSnapshot) : Bool :=
  child.parentProcessId != 0 &&
    (processes.get? child.parentProcessId).any (·.createTime ≤ child.createTime)

def isCandidate (scan : Scan) (child : ProcessSnapshot) : Bool :=
  !(child.createTime < scan.marker.generationTime || scan.now < child.createTime ||
      scan.now - child.createTime < minimumAge || child.threadCount != 1 ||
      !child.onlyThreadSuspended || child.threadId == 0) &&
    !hasParent scan.processes child

def isRegistered (s : State) (child : ProcessSnapshot) : Bool :=
  (ProcessRegistry.get s.registry child.processId child.createTime).isSome

def isRecorded (records : Table Nat) (child : ProcessSnapshot) : Bool :=
  records.get? child.processId == some child.createTime

def prune {α : Type} (createTime : α → Nat) (processes : Processes)
    (records : Table α) : Table α where
  entries := records.entries.filter fun it =>
    lists processes (it.1, createTime it.2)
  sorted := records.sorted.sublist (List.filter_sublist.map _)

def observe (observations : Table SuspendedChildObservation)
    (child : ProcessSnapshot) : SuspendedChildObservation where
  processCreateTime := child.createTime
  cpuTime := child.cpuTime
  consecutiveChecks :=
    match observations.get? child.processId with
    | some previous =>
      if previous.processCreateTime = child.createTime ∧
          previous.cpuTime = child.cpuTime then
        (previous.consecutiveChecks + 1) % 2 ^ 32
      else 1
    | none => 1

def isUnchanged (processes : Processes) (child : ProcessSnapshot) : Bool :=
  (processes.get? child.processId).any fun it =>
    it.createTime == child.createTime && it.threadCount == 1 &&
      it.onlyThreadSuspended && it.threadId == child.threadId &&
      it.cpuTime == child.cpuTime

def lifetimeOf (child : ProcessSnapshot) : Lifetime :=
  (child.processId, child.createTime)

/-- The process that is opened to look for the marker: the one that has the
identifier now. -/
def remoteProcess (s : State) (child : ProcessSnapshot) : Option Lifetime :=
  ((processesOf s).get? child.processId).map lifetimeOf

/-! ## Steps -/

def beginScan (s : State) (processes : Processes) (marker : Marker)
    (now : Nat) : State :=
  { s with
    releasedChildren := prune id processes s.releasedChildren
    observations :=
      prune SuspendedChildObservation.processCreateTime processes s.observations
    processed := prune id processes s.processed
    phase := .scanning ⟨marker, processes, now, []⟩ .empty processes.values .examine }

/-- One step of the loop over the processes. -/
def advanceAt (s : State) (scan : Scan) (next : Table SuspendedChildObservation)
    (rest : List ProcessSnapshot) (answer : Bool) : Point → State
  | .examine =>
    match rest with
    | [] =>
      { s with
        observations := next
        phase := .idle
        previous := some scan }
    | child :: rest =>
      if isCandidate scan child && !isRegistered s child &&
          !isRecorded s.releasedChildren child &&
          !isRecorded s.processed child then
        { s with phase := .scanning scan next rest (.guarded child) }
      else { s with phase := .scanning scan next rest .examine }
  | .guarded child =>
    match (remoteProcess s child).filter fun _ => answer with
    | some remote =>
      let observation := observe s.observations child
      let scan := { scan with carrying := remote :: scan.carrying }
      let next := next.insert child.processId observation
      if observation.consecutiveChecks < 2 then
        { s with phase := .scanning scan next rest .examine }
      else { s with phase := .scanning scan next rest (.recheck child) }
    | none => { s with phase := .scanning scan next rest .examine }
  | .recheck child =>
    if answer && isUnchanged (processesOf s) child then
      { s with
        phase := .scanning scan next rest (.again child (processesOf s)) }
    else { s with phase := .scanning scan next rest .examine }
  | .again child processes =>
    match (remoteProcess s child).filter fun _ => answer with
    | some remote =>
      { s with phase :=
          .scanning scan next rest (.opening child ⟨processes, remote⟩) }
    | none => { s with phase := .scanning scan next rest .examine }
  | .opening child recheck =>
    -- the handle is of the process that has the identifier now
    if answer && lists (processesOf s) (lifetimeOf child) then
      { s with phase := .scanning scan next rest (.opened child recheck) }
    else { s with phase := .scanning scan next rest .examine }
  | .opened child recheck =>
    if isRegistered s child || isRecorded s.releasedChildren child then
      { s with phase := .scanning scan next rest .examine }
    else
      { s with
        phase := .scanning scan next rest (.checked child recheck
          (isRegistered s child) (s.released.contains (lifetimeOf child))) }
  | .checked child recheck registered released =>
    if answer then
      { s with
        processed := s.processed.insert child.processId child.createTime
        phase := .scanning scan next rest .examine
        kills := ⟨lifetimeOf child, s.previous, scan, recheck, registered,
          released⟩ :: s.kills }
    else { s with phase := .scanning scan next rest .examine }

def advance (s : State) (input : Input) : State :=
  match s.phase with
  | .idle =>
    match input.marker with
    | some marker =>
      if input.answer then
        { s with phase := .queried marker (processesOf s) }
      else s
    | none => s
  | .queried marker processes => beginScan s processes marker input.now
  | .scanning scan next rest point =>
    advanceAt s scan next rest input.answer point

def handle? : Phase → Option Lifetime
  | .scanning _ _ _ (.opened child _) => some (lifetimeOf child)
  | .scanning _ _ _ (.checked child _ _ _) => some (lifetimeOf child)
  | _ => none

def lifetimes (processes : Processes) : List Lifetime :=
  processes.entries.map fun it => (it.1, it.2.createTime)

def follows (s : State) (system : List SystemProcess) : Bool :=
  let processes := queryChildGuardProcessSnapshot system
  s.departed.all (!lists processes ·) && (handle? s.phase).all (lists processes ·)

def changeSystem (s : State) (system : List SystemProcess) : State :=
  if follows s system then
    { s with
      system
      departed := s.departed ++ (lifetimes (processesOf s)).filter
        fun it => !lists (queryChildGuardProcessSnapshot system) it }
  else s

def registerReleasedChild (s : State) (child : Lifetime) (answered : Bool) :
    State :=
  if child.1 = 0 ∨ child.2 = 0 then s
  else if answered && !lists (processesOf s) child &&
      (processesOf s).contains child.1 then s
  else if lists (processesOf s) child || s.departed.contains child then
    { s with releasing := child :: s.releasing }
  else s

local instance : LawfulBEq Lifetime := inferInstance

def recordReleasedChild (s : State) (child : Lifetime) : State :=
  if child ∈ s.releasing then
    { s with
      releasing := s.releasing.erase child
      releasedChildren := s.releasedChildren.insert child.1 child.2
      released := child :: s.released }
  else s

def step (s : State) : Event → State
  | .system system => changeSystem s system
  | .registry records => { s with registry := records }
  | .release child answered => registerReleasedChild s child answered
  | .record child => recordReleasedChild s child
  | .advance input => advance s input

private theorem addProcess_keyed {processes : Processes} (entry : SystemProcess)
    (h : ∀ pid it, processes.get? pid = some it → it.processId = pid)
    {pid : Nat} {it : ProcessSnapshot}
    (hit : (addProcess processes entry).get? pid = some it) :
    it.processId = pid := by
  unfold addProcess at hit
  split at hit
  · rw [Table.get?_insert] at hit
    split at hit
    · rename_i hpid
      cases hit
      exact hpid.symm
    · exact h pid it hit
  · exact h pid it hit

theorem query_keyed (system : List SystemProcess) :
    ∀ pid it, (queryChildGuardProcessSnapshot system).get? pid = some it →
      it.processId = pid := by
  have hfold : ∀ processes : Processes,
      (∀ pid it, processes.get? pid = some it → it.processId = pid) →
      ∀ pid it, (system.foldl addProcess processes).get? pid = some it →
        it.processId = pid := by
    induction system with
    | nil => exact fun processes h => h
    | cons entry system ih =>
      intro processes h
      exact ih _ fun pid it hit => addProcess_keyed entry h hit
  exact hfold .empty (by simp)

theorem lists_iff {processes : Processes} {it : Lifetime} :
    lists processes it = true ↔
      ∃ child, processes.get? it.1 = some child ∧ child.createTime = it.2 := by
  cases hget : processes.get? it.1 <;> simp [lists, hget]

theorem mem_lifetimes {processes : Processes} {it : Lifetime} :
    it ∈ lifetimes processes ↔ lists processes it = true := by
  rw [lists_iff]
  simp only [lifetimes, List.mem_map, Table.get?_eq_some_iff]
  constructor
  · rintro ⟨entry, hentry, rfl⟩
    exact ⟨entry.2, hentry, rfl⟩
  · rintro ⟨child, hchild, htime⟩
    exact ⟨(it.1, child), hchild, Prod.ext rfl htime⟩

theorem lists_unique {processes : Processes} {pid t t' : Nat}
    (h : lists processes (pid, t) = true)
    (h' : lists processes (pid, t') = true) : t = t' := by
  obtain ⟨child, hchild, htime⟩ := lists_iff.1 h
  obtain ⟨child', hchild', htime'⟩ := lists_iff.1 h'
  cases hchild.symm.trans hchild'
  exact htime.symm.trans htime'

theorem prune_get? {α : Type} {createTime : α → Nat} {processes : Processes}
    {records : Table α} {pid : Nat} {it : α} :
    (prune createTime processes records).get? pid = some it ↔
      records.get? pid = some it ∧ lists processes (pid, createTime it) = true := by
  simp only [Table.get?_eq_some_iff, prune, List.mem_filter]

/-! ## What a scan has seen -/

def SuspendedIn (processes : Processes) (it : Lifetime) (cpuTime : Nat) : Prop :=
  ∃ child, processes.get? it.1 = some child ∧ child.createTime = it.2 ∧
    child.threadCount = 1 ∧ child.onlyThreadSuspended = true ∧
    child.cpuTime = cpuTime

def ParentGone (processes : Processes) (it : Lifetime) : Prop :=
  ∀ child parent, processes.get? it.1 = some child →
    child.parentProcessId ≠ 0 →
    processes.get? child.parentProcessId = some parent →
    child.createTime < parent.createTime

structure Orphan (kill : Kill) : Prop where
  created : kill.scan.marker.generationTime ≤ kill.lifetime.2
  old : kill.lifetime.2 + minimumAge ≤ kill.scan.now
  parent : ParentGone kill.scan.processes kill.lifetime
  suspended : ∃ before cpuTime, kill.previous = some before ∧
    SuspendedIn before.processes kill.lifetime cpuTime ∧
    SuspendedIn kill.scan.processes kill.lifetime cpuTime ∧
    SuspendedIn kill.recheck.processes kill.lifetime cpuTime ∧
    kill.lifetime ∈ before.carrying
  marked : kill.lifetime ∈ kill.scan.carrying ∧ kill.recheck.marked = kill.lifetime
  registered : kill.registered = false

def Observed (gone : List Lifetime) (scan : Scan) (pid : Nat)
    (observation : SuspendedChildObservation) : Prop :=
  SuspendedIn scan.processes (pid, observation.processCreateTime)
      observation.cpuTime ∧
    ((pid, observation.processCreateTime) ∈ scan.carrying ∨
      (pid, observation.processCreateTime) ∈ gone)

def Candidate (scan : Scan) (child : ProcessSnapshot) : Prop :=
  scan.processes.get? child.processId = some child ∧ isCandidate scan child = true

def Suspect (gone : List Lifetime) (previous : Option Scan) (scan : Scan)
    (child : ProcessSnapshot) : Prop :=
  Candidate scan child ∧
    (lifetimeOf child ∈ scan.carrying ∨ lifetimeOf child ∈ gone) ∧
    ∃ before, previous = some before ∧
      SuspendedIn before.processes (lifetimeOf child) child.cpuTime ∧
      (lifetimeOf child ∈ before.carrying ∨ lifetimeOf child ∈ gone)

def Rechecked (gone : List Lifetime) (recheck : Recheck)
    (child : ProcessSnapshot) : Prop :=
  isUnchanged recheck.processes child = true ∧
    (recheck.marked = lifetimeOf child ∨ lifetimeOf child ∈ gone)

def PointOk (gone : List Lifetime) (previous : Option Scan) (scan : Scan)
    (processes : Processes) : Point → Prop
  | .examine => True
  | .guarded child => Candidate scan child
  | .recheck child => Suspect gone previous scan child
  | .again child recheck => Suspect gone previous scan child ∧
      isUnchanged recheck child = true
  | .opening child recheck => Suspect gone previous scan child ∧
      Rechecked gone recheck child
  | .opened child recheck => Suspect gone previous scan child ∧
      Rechecked gone recheck child ∧ lists processes (lifetimeOf child) = true
  | .checked child recheck registered _ => Suspect gone previous scan child ∧
      Rechecked gone recheck child ∧
      lists processes (lifetimeOf child) = true ∧ registered = false

def Tracked (gone : List Lifetime) (earlier processes : Processes) : Prop :=
  ∀ it, lists earlier it = true → it ∈ gone ∨ lists processes it = true

def PhaseOk (gone : List Lifetime) (previous : Option Scan)
    (processes : Processes) : Phase → Prop
  | .idle => True
  | .queried _ earlier => Tracked gone earlier processes ∧
      ∀ pid it, earlier.get? pid = some it → it.processId = pid
  | .scanning scan next rest point => Tracked gone scan.processes processes ∧
      (∀ child ∈ rest, scan.processes.get? child.processId = some child) ∧
      (∀ pid it, next.get? pid = some it → Observed gone scan pid it) ∧
      PointOk gone previous scan processes point

structure Seen (s : State) : Prop where
  apart : ∀ it ∈ s.departed, lists (processesOf s) it = false
  observations : ∀ pid it, s.observations.get? pid = some it →
    ∃ before, s.previous = some before ∧ Observed s.departed before pid it
  phase : PhaseOk s.departed s.previous (processesOf s) s.phase
  kills : ∀ kill ∈ s.kills, Orphan kill

section Gone

variable {gone gone' : List Lifetime} (hgone : gone ⊆ gone')
include hgone

theorem Observed.mono {scan : Scan} {pid : Nat}
    {it : SuspendedChildObservation} (h : Observed gone scan pid it) :
    Observed gone' scan pid it :=
  ⟨h.1, h.2.imp_right fun hit => hgone hit⟩

theorem Suspect.mono {previous : Option Scan} {scan : Scan}
    {child : ProcessSnapshot} (h : Suspect gone previous scan child) :
    Suspect gone' previous scan child := by
  obtain ⟨hcandidate, hcarrying, before, hbefore, hsuspended, hcarried⟩ := h
  exact ⟨hcandidate, hcarrying.imp_right fun hit => hgone hit, before, hbefore,
    hsuspended, hcarried.imp_right fun hit => hgone hit⟩

theorem Rechecked.mono {recheck : Recheck} {child : ProcessSnapshot}
    (h : Rechecked gone recheck child) : Rechecked gone' recheck child :=
  ⟨h.1, h.2.imp_right fun hit => hgone hit⟩

theorem PointOk.mono {previous : Option Scan} {scan : Scan}
    {processes processes' : Processes} {next : Table SuspendedChildObservation}
    {rest : List ProcessSnapshot} {point : Point}
    (h : PointOk gone previous scan processes point)
    (hheld : (handle? (.scanning scan next rest point)).all
      (lists processes' ·) = true) :
    PointOk gone' previous scan processes' point := by
  cases point with
  | examine => trivial
  | guarded child => exact h
  | recheck child => exact Suspect.mono hgone h
  | again child processes => exact ⟨h.1.mono hgone, h.2⟩
  | opening child recheck => exact ⟨h.1.mono hgone, h.2.mono hgone⟩
  | opened child recheck =>
    exact ⟨h.1.mono hgone, h.2.1.mono hgone, by simpa [handle?] using hheld⟩
  | checked child recheck registered released =>
    exact ⟨h.1.mono hgone, h.2.1.mono hgone, by simpa [handle?] using hheld,
      h.2.2.2⟩

end Gone

theorem tracked_change {s : State} {system : List SystemProcess}
    {earlier : Processes} (h : Tracked s.departed earlier (processesOf s)) :
    Tracked (s.departed ++ (lifetimes (processesOf s)).filter
        fun it => !lists (queryChildGuardProcessSnapshot system) it)
      earlier (queryChildGuardProcessSnapshot system) := by
  intro it hit
  obtain hdeparted | hlisted := h it hit
  · exact Or.inl (List.mem_append_left _ hdeparted)
  · by_cases hstill :
        lists (queryChildGuardProcessSnapshot system) it = true
    · exact Or.inr hstill
    · left
      apply List.mem_append_right
      exact List.mem_filter.2 ⟨mem_lifetimes.2 hlisted, by simpa using hstill⟩

theorem Seen.changeSystem {s : State} (h : Seen s)
    (system : List SystemProcess) : Seen (changeSystem s system) := by
  unfold ChildGuard.changeSystem
  split
  · rename_i hfollows
    simp only [follows, Bool.and_eq_true, List.all_eq_true,
      Bool.not_eq_true'] at hfollows
    obtain ⟨hreturn, hheld⟩ := hfollows
    have hgone := List.subset_append_left s.departed
      ((lifetimes (processesOf s)).filter
        fun it => !lists (queryChildGuardProcessSnapshot system) it)
    constructor
    · intro it hit
      obtain hdeparted | hleft := List.mem_append.1 hit
      · exact hreturn it hdeparted
      · have hnot :
            lists (queryChildGuardProcessSnapshot system) it = false := by
          simpa using (List.mem_filter.1 hleft).2
        exact hnot
    · intro pid it hit
      obtain ⟨before, hbefore, hobserved⟩ := h.observations pid it hit
      exact ⟨before, hbefore, hobserved.mono hgone⟩
    · have hphase := h.phase
      revert hphase hheld
      cases s.phase with
      | idle => intros; trivial
      | queried marker processes =>
        intro _ hphase
        exact ⟨tracked_change hphase.1, hphase.2⟩
      | scanning scan next rest point =>
        intro hheld hphase
        obtain ⟨htracked, hrest, hnext, hpoint⟩ := hphase
        exact ⟨tracked_change htracked, hrest,
          fun pid it hit => (hnext pid it hit).mono hgone,
          hpoint.mono hgone hheld⟩
    · exact h.kills
  · exact h

/-! ## One step of a scan -/

variable {s : State} {scan : Scan} {next : Table SuspendedChildObservation}
  {rest : List ProcessSnapshot} {child : ProcessSnapshot}

theorem Seen.moved (h : Seen s) {phase : Phase}
    (hphase : PhaseOk s.departed s.previous (processesOf s) phase) :
    Seen { s with phase } :=
  ⟨h.apart, h.observations, hphase, h.kills⟩

theorem candidate_facts (h : Candidate scan child) :
    scan.marker.generationTime ≤ child.createTime ∧
      child.createTime + minimumAge ≤ scan.now ∧
      SuspendedIn scan.processes (lifetimeOf child) child.cpuTime ∧
      ParentGone scan.processes (lifetimeOf child) := by
  obtain ⟨hlisted, hcandidate⟩ := h
  simp only [isCandidate, Bool.and_eq_true, Bool.not_eq_true', Bool.or_eq_false_iff,
    decide_eq_false_iff_not, bne_eq_false_iff_eq, Bool.not_eq_false', beq_eq_false_iff_ne]
    at hcandidate
  obtain ⟨⟨⟨⟨⟨⟨hcreated, hnow⟩, hage⟩, hcount⟩, hsuspended⟩, -⟩, hparent⟩ := hcandidate
  refine ⟨by omega, by omega, ⟨child, hlisted, rfl, hcount, hsuspended, rfl⟩, ?_⟩
  intro child' parent hchild' hpid hget
  cases hlisted.symm.trans hchild'
  simpa [hasParent, hpid, hget] using hparent

theorem remote_of_tracked (hkeyed : scan.processes.get? child.processId = some child)
    (htracked : Tracked s.departed scan.processes (processesOf s))
    {remote : Lifetime} (hremote : remoteProcess s child = some remote) :
    remote = lifetimeOf child ∨ lifetimeOf child ∈ s.departed := by
  have hlisted : lists scan.processes (lifetimeOf child) = true :=
    lists_iff.2 ⟨child, hkeyed, rfl⟩
  obtain hgone | hnow := htracked _ hlisted
  · exact Or.inr hgone
  · left
    obtain ⟨it, hit, htime⟩ := lists_iff.1 hnow
    have hget : (processesOf s).get? child.processId = some it := hit
    simp only [remoteProcess, hget, Option.map_some, Option.some.injEq] at hremote
    rw [← hremote]
    exact Prod.ext (query_keyed s.system _ _ hget) htime

theorem observe_twice {observations : Table SuspendedChildObservation}
    (h : ¬ (observe observations child).consecutiveChecks < 2) :
    ∃ it, observations.get? child.processId = some it ∧
      it.processCreateTime = child.createTime ∧ it.cpuTime = child.cpuTime := by
  simp only [observe] at h
  split at h
  · rename_i it hget
    split at h
    · rename_i hsame
      exact ⟨it, hget, hsame⟩
    · omega
  · omega

theorem unchanged_suspended {processes : Processes}
    (h : isUnchanged processes child = true) :
    SuspendedIn processes (lifetimeOf child) child.cpuTime := by
  simp only [isUnchanged, Option.any_eq_true, Bool.and_eq_true, beq_iff_eq] at h
  obtain ⟨it, hget, ⟨⟨⟨htime, hcount⟩, hsuspended⟩, -⟩, hcpu⟩ := h
  exact ⟨it, hget, htime, hcount, hsuspended, hcpu⟩

theorem Seen.beginScan (h : Seen s) {marker : Marker} {processes : Processes}
    (hphase : s.phase = .queried marker processes) (now : Nat) :
    Seen (beginScan s processes marker now) := by
  have hok := h.phase
  rw [hphase] at hok
  refine ⟨h.apart, ?_, ⟨hok.1, ?_, by simp, trivial⟩, h.kills⟩
  · intro pid it hit
    exact h.observations pid it (prune_get?.1 hit).1
  · intro child hchild
    obtain ⟨entry, hentry, rfl⟩ := List.mem_map.1 hchild
    have hget := Table.get?_eq_some_iff.2 hentry
    have hkey : entry.2.processId = entry.1 := hok.2 _ _ hget
    rw [hkey]
    exact hget

theorem PhaseOk.at {gone : List Lifetime} {previous : Option Scan}
    {processes : Processes} {point point' : Point}
    (h : PhaseOk gone previous processes (.scanning scan next rest point))
    (hpoint : PointOk gone previous scan processes point') :
    PhaseOk gone previous processes (.scanning scan next rest point') :=
  ⟨h.1, h.2.1, h.2.2.1, hpoint⟩

theorem Seen.guarded (h : Seen s) {answer : Bool}
    (hphase : s.phase = .scanning scan next rest (.guarded child)) :
    Seen (advanceAt s scan next rest answer (.guarded child)) := by
  have hok := h.phase
  rw [hphase] at hok
  obtain ⟨htracked, hrest, hnext, hcandidate⟩ := hok
  simp only [advanceAt]
  split
  · rename_i remote hremote
    have hmarked := remote_of_tracked hcandidate.1 htracked
      (Option.filter_eq_some_iff.1 hremote).1
    have hcarrying : lifetimeOf child ∈ remote :: scan.carrying ∨
        lifetimeOf child ∈ s.departed := by
      obtain rfl | hgone := hmarked
      · exact Or.inl (List.mem_cons_self ..)
      · exact Or.inr hgone
    have hnext' : ∀ pid it, (next.insert child.processId
        (observe s.observations child)).get? pid = some it →
        Observed s.departed { scan with carrying := remote :: scan.carrying }
          pid it := by
      intro pid it hit
      rw [Table.get?_insert] at hit
      split at hit
      · rename_i hpid
        cases hit
        subst hpid
        exact ⟨(candidate_facts hcandidate).2.2.1, hcarrying⟩
      · obtain ⟨hsuspended, hcarried⟩ := hnext pid it hit
        exact ⟨hsuspended, hcarried.imp_left (List.mem_cons_of_mem _)⟩
    split
    · exact h.moved ⟨htracked, hrest, hnext', trivial⟩
    · rename_i htwice
      obtain ⟨it, hit, htime, hcpu⟩ := observe_twice htwice
      obtain ⟨before, hbefore, hsuspended, hcarried⟩ := h.observations _ it hit
      rw [htime, hcpu] at hsuspended
      rw [htime] at hcarried
      exact h.moved ⟨htracked, hrest, hnext', hcandidate, hcarrying, before,
        hbefore, hsuspended, hcarried⟩
  · exact h.moved ⟨htracked, hrest, hnext, trivial⟩

theorem Orphan.of_checked (h : Seen s) {recheck : Recheck}
    {registered released : Bool}
    (hpoint : PointOk s.departed s.previous scan (processesOf s)
      (.checked child recheck registered released)) :
    Orphan ⟨lifetimeOf child, s.previous, scan, recheck, registered, released⟩ := by
  obtain ⟨⟨hcandidate, hcarrying, before, hbefore, hsuspended, hcarried⟩,
    ⟨hunchanged, hmarked⟩, hlisted, hregistered⟩ := hpoint
  have hnotgone : lifetimeOf child ∉ s.departed := by
    intro hgone
    simp [h.apart _ hgone] at hlisted
  obtain ⟨hcreated, hold, hnow, hparent⟩ := candidate_facts hcandidate
  constructor
  · exact hcreated
  · exact hold
  · exact hparent
  · exact ⟨before, child.cpuTime, hbefore, hsuspended, hnow,
      unchanged_suspended hunchanged, hcarried.resolve_right hnotgone⟩
  · exact ⟨hcarrying.resolve_right hnotgone, hmarked.resolve_right hnotgone⟩
  · exact hregistered

theorem Seen.advanceAt (h : Seen s) {point : Point} (answer : Bool)
    (hphase : s.phase = .scanning scan next rest point) :
    Seen (advanceAt s scan next rest answer point) := by
  have hok := h.phase
  rw [hphase] at hok
  cases point with
  | examine =>
    cases rest with
    | nil => exact ⟨h.apart, fun pid it hit => ⟨scan, rfl, hok.2.2.1 pid it hit⟩,
        trivial, h.kills⟩
    | cons child rest =>
      obtain ⟨htracked, hrest, hnext, -⟩ := hok
      have hrest' : ∀ it ∈ rest, scan.processes.get? it.processId = some it :=
        fun it hit => hrest it (List.mem_cons_of_mem _ hit)
      simp only [ChildGuard.advanceAt]
      split
      · rename_i hcandidate
        simp only [Bool.and_eq_true] at hcandidate
        exact h.moved ⟨htracked, hrest', hnext,
          hrest child (List.mem_cons_self ..), hcandidate.1.1.1⟩
      · exact h.moved ⟨htracked, hrest', hnext, trivial⟩
  | guarded child => exact h.guarded hphase
  | recheck child =>
    simp only [ChildGuard.advanceAt]
    split
    · rename_i hunchanged
      simp only [Bool.and_eq_true] at hunchanged
      exact h.moved (hok.at ⟨hok.2.2.2, hunchanged.2⟩)
    · exact h.moved (hok.at trivial)
  | again child processes =>
    obtain ⟨hsuspect, hunchanged⟩ := hok.2.2.2
    simp only [ChildGuard.advanceAt]
    split
    · rename_i remote hremote
      have hmarked := remote_of_tracked hsuspect.1.1 hok.1
        (Option.filter_eq_some_iff.1 hremote).1
      exact h.moved (hok.at ⟨hsuspect, hunchanged, hmarked⟩)
    · exact h.moved (hok.at trivial)
  | opening child recheck =>
    obtain ⟨hsuspect, hrechecked⟩ := hok.2.2.2
    simp only [ChildGuard.advanceAt]
    split
    · rename_i hlisted
      simp only [Bool.and_eq_true] at hlisted
      exact h.moved (hok.at ⟨hsuspect, hrechecked, hlisted.2⟩)
    · exact h.moved (hok.at trivial)
  | opened child recheck =>
    obtain ⟨hsuspect, hrechecked, hlisted⟩ := hok.2.2.2
    simp only [ChildGuard.advanceAt]
    split
    · exact h.moved (hok.at trivial)
    · rename_i hfree
      simp only [Bool.or_eq_true, not_or, Bool.not_eq_true] at hfree
      exact h.moved (hok.at ⟨hsuspect, hrechecked, hlisted, hfree.1⟩)
  | checked child recheck registered released =>
    simp only [ChildGuard.advanceAt]
    split
    · refine ⟨h.apart, h.observations, hok.at trivial, ?_⟩
      intro kill hkill
      obtain rfl | hkill := List.mem_cons.1 hkill
      · exact Orphan.of_checked h hok.2.2.2
      · exact h.kills kill hkill
    · exact h.moved (hok.at trivial)

theorem Seen.step (h : Seen s) (e : Event) : Seen (step s e) := by
  cases e with
  | system system => exact h.changeSystem system
  | registry records => exact ⟨h.apart, h.observations, h.phase, h.kills⟩
  | release child answered =>
    simp only [ChildGuard.step, registerReleasedChild]
    split
    · exact h
    · split
      · exact h
      · split
        · exact ⟨h.apart, h.observations, h.phase, h.kills⟩
        · exact h
  | record child =>
    simp only [ChildGuard.step, recordReleasedChild]
    split
    · exact ⟨h.apart, h.observations, h.phase, h.kills⟩
    · exact h
  | advance input =>
    simp only [ChildGuard.step, advance]
    split
    · split
      · split
        · exact h.moved ⟨fun it hit => Or.inr hit, query_keyed s.system⟩
        · exact h
      · exact h
    · rename_i hphase
      exact h.beginScan hphase input.now
    · rename_i hphase
      exact h.advanceAt input.answer hphase

end ChildGuard

end ProxyLane.Hook
