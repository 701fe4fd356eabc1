import ProxyLane.App.ProcessActions
import ProxyLane.Foundation.Run

/-!
# The process page

The page shows process snapshots as rows and acts on the selected ones.  It
runs on one thread: between two messages, and while a message box is open, any
handler may be called, and a handler that waits in a box goes on when its box
is the last one open.  A handler that is in a loop takes no messages, but
processes come and go between its turns.

Each selected row, and each saved target, also carries the lifetime that was
on display when it was chosen.  The code does not read it.
-/

namespace ProxyLane.App.Page3

open ProxyLane.Foundation ProcessActions BrowserLaunchWatch

/-- `DisplayedProcess` with the state of its item. -/
structure Row where
  pid : Nat
  startTime : Nat
  selected : Option Lifetime
  deriving DecidableEq, Repr

def Row.lifetime (r : Row) : Lifetime := ⟨r.pid, r.startTime⟩

structure Selection where
  pid : Nat
  expectedCreationTime : Nat
  chosen : Lifetime
  deriving DecidableEq, Repr

structure Target where
  handle : Option Lifetime
  chosen : Lifetime
  deriving DecidableEq, Repr

structure SelectedProcessTarget where
  pid : Nat
  chosen : Lifetime
  deriving DecidableEq, Repr

inductive Action where
  | terminate
  | inject
  deriving DecidableEq, Repr

structure Hit where
  action : Action
  process : Lifetime
  chosen : Lifetime
  deriving DecidableEq, Repr

inductive Box where
  | confirmEnd (targets : List Target)
  | endSummary
  | confirmChildren (root : Lifetime) (descendants : List Lifetime)
  | browserWarning (candidates : List Lifetime) (instances : List Instance)
  | confirmBrowser (active : List Lifetime)
  | browserSummary
  deriving DecidableEq, Repr

inductive Work where
  | idle
  | opening (rest : List Selection) (targets : List Target)
  | ending (rest : List Target) (failed : Bool)
  | injecting (rest : List SelectedProcessTarget)
  | openingExact (rest : List Lifetime) (opened : List Target)
  | endingExact (rest : List Target)
  | hooking (rest : List Lifetime)
  deriving DecidableEq, Repr

structure Page where
  system : System
  processQuery : AsyncSnapshot (List ProcessInfo)
  processSortData : Table ProcessInfo
  pendingProcessRows : Table ProcessInfo
  displayedProcesses : List Row
  processApplyIndex : Nat
  applyingProcesses : Bool
  terminating : Bool
  processesExpanded : Bool
  visible : Bool
  tracking : Bool
  processSearch : String
  onlyHooked : Bool
  filterText : String
  filterHooked : Bool
  pendingFinder : Option Lifetime
  launchedProcess : Lifetime
  showingBrowserWarning : Bool
  boxes : List Box
  work : Work
  chose : List Lifetime
  hits : List Hit

def initial (system : System) : Page where
  system := system
  processQuery := .initial
  processSortData := .empty
  pendingProcessRows := .empty
  displayedProcesses := []
  processApplyIndex := 0
  applyingProcesses := false
  terminating := false
  processesExpanded := false
  visible := false
  tracking := false
  processSearch := ""
  onlyHooked := false
  filterText := ""
  filterHooked := false
  pendingFinder := none
  launchedProcess := ⟨0, 0⟩
  showingBrowserWarning := false
  boxes := []
  work := .idle
  chose := []
  hits := []

structure Platform where
  self : Nat
  makeLower : String → String
  trim : String → String
  sameText : String → String → Bool

/-- `OnBnClickedInjectdll`: the items that can be read, and the channel. -/
structure InjectAnswer where
  readable : Nat → Bool
  channel : Bool

/-- What a turn of the message loop for the list meets: how many turns of the
loop fit into its time, the items that cannot be inserted, the order that the
sort leaves, the hooked processes and the process of the target window. -/
structure BatchAnswer where
  turns : Nat
  refused : List Nat
  order : List Row → List Row
  hooked : List Lifetime
  window : Option Nat
  inject : InjectAnswer

structure BoxAnswer where
  inject : InjectAnswer
  snapshot : Bool
  complete : Bool
  hooked : List Lifetime
  nodes : List Node

structure WorkAnswer where
  opened : OpenAnswer
  hook : HookAnswer
  granted : Bool
  interrupted : Bool
  exiting : Bool

inductive Reply where
  | yes
  | no
  | cancel
  | select
  | terminate
  | proxy
  deriving DecidableEq, Repr

def updatePslist (s : Page) : Page :=
  if !s.processesExpanded || !s.visible || s.applyingProcesses || s.tracking ||
      s.terminating then s
  else { s with processQuery := s.processQuery.request }

def cancelProcessRefresh (s : Page) : Page :=
  let s := { s with
    processQuery := s.processQuery.cancel
    pendingFinder := none
    pendingProcessRows := .empty }
  if s.applyingProcesses then
    { s with
      displayedProcesses := []
      processSortData := .empty
      applyingProcesses := false }
  else s

def cancelLaunchSelection (s : Page) : Page :=
  { s with launchedProcess := ⟨0, 0⟩ }

def setProcessesExpanded (p : Platform) (expanded : Bool) (s : Page) : Page :=
  let s := { s with processesExpanded := expanded }
  if expanded then
    updatePslist { s with
      filterText := p.makeLower (p.trim s.processSearch)
      filterHooked := s.onlyHooked }
  else cancelProcessRefresh (cancelLaunchSelection s)

/-- `SelectProcessesByPid`: all the rows of these PIDs and no others. -/
def selectProcessesByPid (p : Platform) (processIds : List Nat)
    (chosen : Row → Lifetime) (s : Page) : Page × Bool :=
  let s := if s.processesExpanded then s else setProcessesExpanded p true s
  if processIds.isEmpty then (s, false)
  else
    let found := s.displayedProcesses.filter fun r => processIds.contains r.pid
    ({ s with
      displayedProcesses := s.displayedProcesses.map fun r =>
        { r with
          selected :=
            if processIds.contains r.pid then some (chosen r) else none }
      chose := s.chose ++ found.map chosen }, !found.isEmpty)

def trySelectLaunchedProcess (p : Platform) (s : Page) : Page :=
  if !s.visible || !s.processesExpanded then cancelLaunchSelection s
  else
    match s.processSortData.get? s.launchedProcess.pid with
    | none => s
    | some info =>
      if info.hasStartTime && info.startTimeValue == s.launchedProcess.time then
        (selectProcessesByPid p
          (if s.launchedProcess.pid = 0 then [] else [s.launchedProcess.pid])
          Row.lifetime (cancelLaunchSelection s)).1
      else s

def refreshLaunchedProcess (p : Platform) (launched : Lifetime) (s : Page) :
    Page :=
  let s := cancelLaunchSelection s
  if !s.visible || !s.processesExpanded then s
  else if launched.pid = 0 ∨ launched.time = 0 then updatePslist s
  else
    trySelectLaunchedProcess p (updatePslist { s with launchedProcess := launched })

def onBnClickedInjectdll (answer : InjectAnswer) (s : Page) : Page :=
  if s.applyingProcesses then s
  else
    let targets := s.displayedProcesses.filterMap fun r =>
      if answer.readable r.pid then
        r.selected.map fun c => ⟨r.pid, c⟩
      else none
    if targets.isEmpty || !answer.channel then s
    else { s with work := .injecting targets }

def validParent (data : Table ProcessInfo) (child : ProcessInfo) : Bool :=
  child.parentPid != 0 && child.parentPid != child.pid &&
    match data.get? child.parentPid with
    | none => false
    | some parent =>
      !(parent.hasStartTime && child.hasStartTime &&
        decide (child.startTimeValue < parent.startTimeValue))

def childrenOf (data : Table ProcessInfo) (pid : Nat) : List Nat :=
  (data.values.filter fun child =>
    child.parentPid == pid && validParent data child).map ProcessInfo.pid

def descend (data : Table ProcessInfo) :
    Nat → List Nat → List Nat → List Nat
  | 0, _, _ => []
  | _ + 1, [], _ => []
  | fuel + 1, pid :: pending, visited =>
    let found := (childrenOf data pid).filter fun c => !visited.contains c
    found ++ descend data fuel (pending ++ found) (visited ++ found)

def collectDescendantProcessIds (data : Table ProcessInfo)
    (rootProcessId : Nat) : List Nat :=
  if rootProcessId = 0 ∨ data.contains rootProcessId = false then []
  else descend data (data.size + 1) [rootProcessId] [rootProcessId]

def shownAs (data : Table ProcessInfo) (pid : Nat) : Lifetime :=
  ⟨pid, ((data.get? pid).map ProcessInfo.startTimeValue).getD 0⟩

def resolveWindowFinderTarget (p : Platform) (window : Option Nat) :
    Option Nat :=
  window.filter fun pid => decide (4 < pid) && pid != p.self

def finishWindowFinder (p : Platform) (expected : Lifetime)
    (window : Option Nat) (answer : InjectAnswer) (s : Page) : Page :=
  match resolveWindowFinderTarget p window with
  | none => s
  | some processId =>
    match s.processSortData.get? processId with
    | none => s
    | some identity =>
      if processId ≠ expected.pid ∨ identity.startTimeValue ≠ expected.time then s
      else
        let (s, selected) :=
          selectProcessesByPid p [processId] (fun _ => expected) s
        let descendants :=
          collectDescendantProcessIds s.processSortData processId
        if !selected then s
        else if descendants.isEmpty then onBnClickedInjectdll answer s
        else
          { s with
            boxes := .confirmChildren expected
              (descendants.map (shownAs s.processSortData)) :: s.boxes }

/-- One turn of the loop; `none` when all is installed. -/
def applyRow (refused : List Nat) (s : Page) : Option Page :=
  match s.displayedProcesses[s.processApplyIndex]? with
  | some displayed =>
    match s.pendingProcessRows.get? displayed.pid with
    | some next =>
      if displayed.startTime ≠ next.startTimeValue then
        some { s with
          displayedProcesses :=
            s.displayedProcesses.eraseIdx s.processApplyIndex }
      else
        some { s with
          pendingProcessRows := s.pendingProcessRows.erase displayed.pid
          processApplyIndex := s.processApplyIndex + 1 }
    | none =>
      some { s with
        displayedProcesses :=
          s.displayedProcesses.eraseIdx s.processApplyIndex }
  | none =>
    match s.pendingProcessRows.entries with
    | [] => none
    | (_, info) :: _ =>
      let displayed :=
        if refused.contains info.pid then s.displayedProcesses
        else s.displayedProcesses ++ [⟨info.pid, info.startTimeValue, none⟩]
      some { s with
        displayedProcesses := displayed
        pendingProcessRows := s.pendingProcessRows.popFirst
        processApplyIndex := displayed.length }

def applyRows (refused : List Nat) : Nat → Page → Page
  | 0, s => s
  | turns + 1, s =>
    match applyRow refused s with
    | none => s
    | some s => applyRows refused turns s

/-- `SortDisplayedProcesses`: the comparison is not read here, the rows stay
the same ones. -/
def sortDisplayedProcesses (order : List Row → List Row) (rows : List Row) :
    List Row :=
  if (order rows).isPerm rows then order rows else rows

def takeFinder (p : Platform) (answer : BatchAnswer) (s : Page) : Page :=
  match s.pendingFinder with
  | none => s
  | some expected =>
    finishWindowFinder p expected answer.window answer.inject
      { s with pendingFinder := none }

def applyProcessBatch (p : Platform) (answer : BatchAnswer) (s : Page) : Page :=
  let s := applyRows answer.refused answer.turns s
  if s.processApplyIndex < s.displayedProcesses.length ∨
      s.pendingProcessRows.entries ≠ [] then s
  else
    let s := { s with
      displayedProcesses :=
        sortDisplayedProcesses answer.order s.displayedProcesses
      applyingProcesses := false }
    takeFinder p answer
      (if s.launchedProcess.pid = 0 then s else trySelectLaunchedProcess p s)

def find (text part : List Char) : Bool :=
  text.tails.any fun rest => part.isPrefixOf rest

/-- The filter of `BeginFilteredUpdate`. -/
def keeps (p : Platform) (filterText : String) (filterHooked : Bool)
    (hooked : List Lifetime) (info : ProcessInfo) : Bool :=
  (!filterHooked || hooked.contains ⟨info.pid, info.startTimeValue⟩) &&
    (filterText.isEmpty ||
      find (p.makeLower (toString info.pid ++ " " ++ info.proname ++ " " ++
        info.propath)).toList filterText.toList)

def beginFilteredUpdate (p : Platform) (answer : BatchAnswer) (s : Page) :
    Page :=
  if !s.processesExpanded || !s.visible then s
  else
    applyProcessBatch p answer { s with
      pendingProcessRows := s.processSortData.restrict
        (keeps p s.filterText s.filterHooked answer.hooked)
      applyingProcesses := true
      processApplyIndex := 0 }

def pollProcessList (p : Platform) (answer : BatchAnswer) (s : Page) : Page :=
  if !s.visible || !s.processesExpanded then cancelProcessRefresh s
  else if s.terminating || s.tracking then s
  else if s.applyingProcesses then applyProcessBatch p answer s
  else
    match s.processQuery.take with
    | (none, _) => if s.processQuery.busy then s else updatePslist s
    | (some none, query) =>
      { s with processQuery := query, pendingFinder := none }
    | (some (some rows), query) =>
      beginFilteredUpdate p answer { s with
        processQuery := query
        processSortData :=
          rows.foldl (fun data row => data.insert row.pid row) .empty }

def onFilterTimer (p : Platform) (answer : BatchAnswer) (s : Page) : Page :=
  if s.tracking || s.terminating then s
  else
    beginFilteredUpdate p answer { s with
      filterText := p.makeLower (p.trim s.processSearch)
      filterHooked := s.onlyHooked }

def onBnClickedTerminateProcess (s : Page) : Page :=
  if s.terminating || s.applyingProcesses then s
  else
    let s := cancelLaunchSelection s
    let rest := s.displayedProcesses.filterMap fun r =>
      match r.selected, s.processSortData.get? r.pid with
      | some chosen, some info =>
        some ⟨r.pid, if info.hasStartTime then info.startTimeValue else 0, chosen⟩
      | _, _ => none
    { s with terminating := true, work := .opening rest [] }

def targetsOf (shown : List Instance) : List Lifetime :=
  shown.flatMap fun i => i.main.identity :: i.networks

def openBrowserNotification (p : Platform) (candidates : List Lifetime)
    (nodes : List Node) (hooked : List Lifetime) (s : Page) : Page :=
  if s.showingBrowserWarning || s.terminating || s.tracking then s
  else
    let shown := incompleteInstances p.sameText nodes candidates
      fun l => hooked.contains l
    if shown.isEmpty then s
    else
      { s with
        showingBrowserWarning := true
        boxes := .browserWarning candidates shown :: s.boxes }

def endBrowserWarning (s : Page) : Page :=
  { s with showingBrowserWarning := false }

def applyBrowserProcessAction (targets : List Lifetime) (terminate : Bool)
    (answer : BoxAnswer) (s : Page) : Page :=
  let s := { s with chose := s.chose ++ targets }
  if answer.snapshot = false then endBrowserWarning s
  else
    let active := targets.filter fun t =>
      answer.complete && matchesSnapshot s.system t &&
        (terminate || !answer.hooked.contains t)
    if active.isEmpty then { s with boxes := .browserSummary :: s.boxes }
    else if terminate then { s with boxes := .confirmBrowser active :: s.boxes }
    else if answer.inject.channel = false then endBrowserWarning s
    else { s with work := .hooking active }

def selectBrowserRows (p : Platform) (candidates : List Lifetime)
    (answer : BoxAnswer) (s : Page) : Page :=
  let s := updatePslist (cancelLaunchSelection s)
  let remaining := incompleteInstances p.sameText answer.nodes candidates
    fun l => answer.hooked.contains l
  let related := remaining.flatMap fun i => i.networks ++ [i.main.identity]
  let selected := related.filter fun c =>
    (s.processSortData.get? c.pid).map ProcessInfo.startTimeValue == some c.time
  let s := { s with
    displayedProcesses :=
      s.displayedProcesses.map fun r => { r with selected := none } }
  endBrowserWarning
    (selectProcessesByPid p (selected.map Lifetime.pid) Row.lifetime s).1

def named (candidates : List Lifetime) (r : Row) : Lifetime :=
  (candidates.find? fun c => c.pid == r.pid).getD r.lifetime

def answerBox (p : Platform) (reply : Reply) (answer : BoxAnswer) (s : Page) :
    Page :=
  match s.boxes with
  | [] => s
  | .confirmEnd targets :: boxes =>
    match reply with
    | .yes => { s with boxes := boxes, work := .ending targets false }
    | _ => { s with boxes := boxes, terminating := false }
  | .endSummary :: boxes => { s with boxes := boxes, terminating := false }
  | .confirmChildren root descendants :: boxes =>
    let s := { s with boxes := boxes }
    match reply with
    | .cancel => s
    | .yes =>
      onBnClickedInjectdll answer.inject
        (selectProcessesByPid p (root.pid :: descendants.map Lifetime.pid)
          (named (root :: descendants)) s).1
    | _ => onBnClickedInjectdll answer.inject s
  | .browserWarning candidates shown :: boxes =>
    let s := { s with boxes := boxes }
    match reply with
    | .terminate => applyBrowserProcessAction (targetsOf shown) true answer s
    | .proxy => applyBrowserProcessAction (targetsOf shown) false answer s
    | .select => selectBrowserRows p candidates answer s
    | _ => endBrowserWarning s
  | .confirmBrowser active :: boxes =>
    match reply with
    | .yes => { s with boxes := boxes, work := .openingExact active [] }
    | _ => endBrowserWarning { s with boxes := boxes }
  | .browserSummary :: boxes =>
    endBrowserWarning (updatePslist { s with boxes := boxes })

def hit (action : Action) (process chosen : Lifetime) (s : Page) : Page :=
  { s with hits := s.hits ++ [⟨action, process, chosen⟩] }

/-- `TerminateProcess` on a handle that is not signalled. -/
def terminateProcess (granted : Bool) (handle chosen : Lifetime) (s : Page) :
    Page :=
  let s := hit .terminate handle chosen s
  if granted then { s with system := s.system.terminate handle } else s

def injectInto (pid expected : Nat) (chosen : Lifetime) (answer : HookAnswer)
    (s : Page) : Page :=
  match hookProcess s.system pid expected answer with
  | none => s
  | some process => hit .inject process.lifetime chosen s

def workStep (p : Platform) (answer : WorkAnswer) (s : Page) : Page :=
  match s.work with
  | .idle => s
  | .opening [] targets =>
    if targets.isEmpty then { s with work := .idle, terminating := false }
    else { s with work := .idle, boxes := .confirmEnd targets :: s.boxes }
  | .opening (item :: rest) targets =>
    let handle := openForTermination p.self s.system item.pid
      item.expectedCreationTime answer.opened
    { s with work := .opening rest (targets ++ [⟨handle, item.chosen⟩]) }
  | .ending [] failed =>
    if failed then { s with work := .idle, boxes := .endSummary :: s.boxes }
    else { s with work := .idle, terminating := false }
  | .ending (target :: rest) failed =>
    match target.handle with
    | none => { s with work := .ending rest true }
    | some handle =>
      if s.system.runs handle = false then
        { s with work := .ending rest failed }
      else
        { terminateProcess answer.granted handle target.chosen s with
          work := .ending rest (failed || !answer.granted) }
  | .injecting [] => { s with work := .idle }
  | .injecting (target :: rest) =>
    if target.pid = p.self then { s with work := .injecting rest }
    else
      { injectInto target.pid 0 target.chosen answer.hook s with
        work := .injecting rest }
  | .openingExact [] opened => { s with work := .endingExact opened }
  | .openingExact (target :: rest) opened =>
    let handle :=
      if answer.interrupted then none
      else openForTermination p.self s.system target.pid target.time answer.opened
    { s with work := .openingExact rest (opened ++ [⟨handle, target⟩]) }
  | .endingExact [] =>
    { s with work := .idle, boxes := .browserSummary :: s.boxes }
  | .endingExact (target :: rest) =>
    match target.handle with
    | none => { s with work := .endingExact rest }
    | some handle =>
      if answer.interrupted || answer.exiting ||
          s.system.runs handle = false then
        { s with work := .endingExact rest }
      else
        { terminateProcess answer.granted handle target.chosen s with
          work := .endingExact rest }
  | .hooking [] =>
    { s with work := .idle, boxes := .browserSummary :: s.boxes }
  | .hooking (target :: rest) =>
    { injectInto target.pid target.time target answer.hook s with
      work := .hooking rest }

def clickRows (pids : List Nat) (s : Page) : Page :=
  let taken := s.displayedProcesses.filter fun r => pids.contains r.pid
  { s with
    displayedProcesses := s.displayedProcesses.map fun r =>
      { r with
        selected :=
          if pids.contains r.pid then some (r.selected.getD r.lifetime)
          else none }
    chose := s.chose ++ taken.map Row.lifetime }

def onWindowFinderComplete (p : Platform) (window : Option Nat)
    (readable : Bool) (s : Page) : Page :=
  let s := { s with tracking := false }
  match resolveWindowFinderTarget p window with
  | none => s
  | some pid =>
    match s.system.find pid with
    | none => s
    | some process =>
      if creationTime readable process = 0 then s
      else
        updatePslist { s with
          pendingFinder := some process.lifetime
          chose := s.chose ++ [process.lifetime] }

inductive UiEvent where
  | timer
  | poll (answer : BatchAnswer)
  | typed (processSearch : String) (onlyHooked : Bool)
  | filterTimer (answer : BatchAnswer)
  | columnClick (order : List Row → List Row)
  | expand (expanded : Bool)
  | showWindow (visible : Bool)
  | click (pids : List Nat)
  | launched (process : Lifetime)
  | launchTimer
  | cancelLaunch
  | finderBegin
  | finderComplete (window : Option Nat) (readable : Bool)
  | finderCancel
  | terminateButton
  | injectButton (answer : InjectAnswer)
  | browserNotification (candidates : List Lifetime) (nodes : List Node)
      (hooked : List Lifetime)
  | answer (reply : Reply) (answer : BoxAnswer)

def uiStep (p : Platform) (s : Page) : UiEvent → Page
  | .timer => updatePslist s
  | .poll answer => pollProcessList p answer s
  | .typed text hooked => { s with processSearch := text, onlyHooked := hooked }
  | .filterTimer answer => onFilterTimer p answer s
  | .columnClick order =>
    if s.applyingProcesses then s
    else
      { s with
        displayedProcesses :=
          sortDisplayedProcesses order s.displayedProcesses }
  | .expand expanded => setProcessesExpanded p expanded s
  | .showWindow visible =>
    if visible then updatePslist { s with visible := true }
    else cancelProcessRefresh { s with visible := false }
  | .click pids => clickRows pids s
  | .launched process => refreshLaunchedProcess p process s
  | .launchTimer =>
    if s.terminating || s.launchedProcess.pid == 0 then s
    else trySelectLaunchedProcess p (updatePslist s)
  | .cancelLaunch => cancelLaunchSelection s
  | .finderBegin => cancelProcessRefresh { s with tracking := true }
  | .finderComplete window readable =>
    onWindowFinderComplete p window readable s
  | .finderCancel => { s with tracking := false, pendingFinder := none }
  | .terminateButton => onBnClickedTerminateProcess s
  | .injectButton answer => onBnClickedInjectdll answer s
  | .browserNotification candidates nodes hooked =>
    openBrowserNotification p candidates nodes hooked s
  | .answer reply answer => answerBox p reply answer s

inductive Event where
  | spawned (process : Process)
  | exited (pid : Nat)
  | reaped (pid : Nat)
  | queried (answer : ListAnswer) (succeeds : Bool)
  | queryFinished
  | work (answer : WorkAnswer)
  | ui (event : UiEvent)

def step (p : Platform) (s : Page) : Event → Page
  | .spawned process => { s with system := s.system.spawn process }
  | .exited pid => { s with system := s.system.exit pid }
  | .reaped pid => { s with system := s.system.reap pid }
  | .queried answer succeeds =>
    { s with
      processQuery := s.processQuery.query
        (if succeeds then some (getProcessList answer s.system) else none) }
  | .queryFinished => { s with processQuery := s.processQuery.finish }
  | .work answer => workStep p answer s
  | .ui event =>
    match s.work with
    | .idle => uiStep p s event
    | _ => s

end ProxyLane.App.Page3
