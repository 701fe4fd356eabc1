import ProxyLane.Foundation.Table

/-!
# Processes seen from outside

The page meets processes through PIDs and through handles.  A PID goes to a new
process once the old one is gone; a handle stays with the process it was opened
for, whatever becomes of the PID.  The system is the list of its process
objects, one for each PID in use.
-/

namespace ProxyLane.App

open ProxyLane.Foundation

structure Lifetime where
  pid : Nat
  time : Nat
  deriving DecidableEq, Repr

structure Process where
  pid : Nat
  parentPid : Nat
  creationTime : Nat
  name : String
  running : Bool
  critical : Bool
  deriving DecidableEq, Repr

def Process.lifetime (p : Process) : Lifetime := ⟨p.pid, p.creationTime⟩

abbrev System := List Process

namespace System

def find (sys : System) (pid : Nat) : Option Process :=
  List.find? (fun p => p.pid == pid) sys

def runs (sys : System) (handle : Lifetime) : Bool :=
  List.any sys fun p => p.lifetime == handle && p.running

/-- `TerminateProcess`. -/
def terminate (sys : System) (handle : Lifetime) : System :=
  List.map (fun p =>
    if p.lifetime = handle then { p with running := false } else p) sys

def spawn (sys : System) (p : Process) : System :=
  if (sys.find p.pid).isSome then sys else sys ++ [p]

def exit (sys : System) (pid : Nat) : System :=
  List.map (fun p => if p.pid = pid then { p with running := false } else p) sys

def reap (sys : System) (pid : Nat) : System :=
  List.filter (fun p => p.pid != pid || p.running) sys

theorem mem_of_find {sys : System} {pid : Nat} {p : Process}
    (h : sys.find pid = some p) : p ∈ sys ∧ p.pid = pid := by
  refine ⟨List.mem_of_find?_eq_some h, ?_⟩
  simpa using List.find?_some h

end System

namespace ProcessActions

structure OpenAnswer where
  opens : Bool
  readable : Bool
  queried : Bool
  deriving DecidableEq, Repr

/-- `CreationTime`: 0 where the times of the handle cannot be read. -/
def creationTime (readable : Bool) (p : Process) : Nat :=
  if readable then p.creationTime else 0

def openForTermination (self : Nat) (sys : System) (pid expectedCreationTime : Nat)
    (answer : OpenAnswer) : Option Lifetime :=
  if pid ≤ 4 ∨ pid = self then none
  else if expectedCreationTime = 0 then none
  else if answer.opens = false then none
  else
    match sys.find pid with
    | none => none
    | some process =>
      let actualCreationTime := creationTime answer.readable process
      if actualCreationTime = 0 then none
      else if actualCreationTime ≠ expectedCreationTime then none
      else if process.running = false then none
      else if answer.queried = false then none
      else if process.critical then none
      else some process.lifetime

theorem openForTermination_eq_some {self : Nat} {sys : System}
    {pid expected : Nat} {answer : OpenAnswer} {handle : Lifetime}
    (h : openForTermination self sys pid expected answer = some handle) :
    expected ≠ 0 ∧ handle = ⟨pid, expected⟩ := by
  unfold openForTermination at h
  split at h
  · cases h
  split at h
  · cases h
  rename_i hexpected
  split at h
  · cases h
  cases hfind : sys.find pid with
  | none => simp [hfind] at h
  | some process =>
    obtain ⟨-, hpid⟩ := System.mem_of_find hfind
    simp only [hfind, creationTime, Process.lifetime, hpid] at h
    grind

structure HookAnswer where
  opens : Bool
  readable : Bool
  authorized : Bool
  deriving DecidableEq, Repr

/-- `HookProcess`: the process that `InjectDll` goes on with.  Its handle is
held throughout, which keeps the PID from another process. -/
def hookProcess (sys : System) (pid expectedCreationTime : Nat)
    (answer : HookAnswer) : Option Process :=
  if answer.opens = false then none
  else
    match sys.find pid with
    | none => none
    | some process =>
      if expectedCreationTime ≠ 0 ∧
          (creationTime answer.readable process ≠ expectedCreationTime ∨
            process.running = false) then none
      else if answer.authorized = false then none
      else some process

theorem hookProcess_eq_some {sys : System} {pid expected : Nat}
    {answer : HookAnswer} {process : Process}
    (h : hookProcess sys pid expected answer = some process) :
    answer.opens = true ∧ answer.authorized = true ∧
      sys.find pid = some process ∧
      (expected ≠ 0 → process.creationTime = expected) := by
  unfold hookProcess at h
  cases hfind : sys.find pid with
  | none => simp [hfind] at h
  | some found =>
    simp only [hfind, creationTime] at h
    grind

end ProcessActions

/-- `_myPROCESSINFO`; the orders and the text of the time are not read here. -/
structure ProcessInfo where
  pid : Nat
  parentPid : Nat
  proname : String
  propath : String
  hasStartTime : Bool
  startTimeValue : Nat
  deriving DecidableEq, Repr

def setProcessStartTime (convertible : Bool) (startTimeValue : Nat)
    (info : ProcessInfo) : ProcessInfo :=
  if convertible then
    { info with hasStartTime := true, startTimeValue := startTimeValue }
  else info

/-- What the system says about names, times and paths; a path that the second
snapshot does not bear out is empty. -/
structure ListAnswer where
  unknownProcess : String
  convertible : Nat → Bool
  path : Nat → String

def processRow (answer : ListAnswer) (process : Process) : ProcessInfo :=
  let name :=
    if process.name ≠ "" then process.name
    else if process.pid = 0 then "[System Process]"
    else answer.unknownProcess
  let info : ProcessInfo := ⟨process.pid, process.parentPid, name,
    if process.creationTime = 0 then "" else answer.path process.pid, false, 0⟩
  if process.creationTime = 0 then info
  else setProcessStartTime (answer.convertible process.creationTime)
    process.creationTime info

def getProcessList (answer : ListAnswer) (sys : System) : List ProcessInfo :=
  sys.map (processRow answer)

/-- `AsyncSnapshot`: one query in flight and one result.  A result that came
after a cancellation is dropped. -/
structure AsyncSnapshot (α : Type) where
  generation : Nat
  worker : Option (Nat × Option (Option α))
  ready : Option (Option α)

namespace AsyncSnapshot

variable {α : Type}

def initial : AsyncSnapshot α := ⟨0, none, none⟩

def busy (q : AsyncSnapshot α) : Bool := q.worker.isSome

def request (q : AsyncSnapshot α) : AsyncSnapshot α :=
  if q.busy || q.ready.isSome then q
  else { q with worker := some (q.generation, none) }

/-- The worker runs the query; `none` is a query that failed. -/
def query (q : AsyncSnapshot α) (value : Option α) : AsyncSnapshot α :=
  { q with worker := q.worker.map fun w => (w.1, some value) }

def finish (q : AsyncSnapshot α) : AsyncSnapshot α :=
  match q.worker with
  | none => q
  | some (generation, result) =>
    { q with
      worker := none
      ready := if generation = q.generation then result else q.ready }

def take (q : AsyncSnapshot α) : Option (Option α) × AsyncSnapshot α :=
  (q.ready, { q with ready := none })

def cancel (q : AsyncSnapshot α) : AsyncSnapshot α :=
  { q with generation := q.generation + 1, ready := none }

end AsyncSnapshot

namespace BrowserLaunchWatch

inductive Role where
  | unknown
  | main
  | network
  | other
  deriving DecidableEq, Repr

structure Node where
  identity : Lifetime
  parentPid : Nat
  sessionId : Nat
  path : String
  role : Role
  deriving DecidableEq, Repr

structure Instance where
  main : Node
  networks : List Lifetime
  deriving DecidableEq, Repr

section Nodes

-- `_wcsicmp` of two texts being 0
variable (sameText : String → String → Bool)

def nodeOf (nodes : List Node) (pid : Nat) : Option Node :=
  nodes.reverse.find? fun n => n.identity.pid == pid

def parent (nodes : List Node) (node : Node) : Option Node :=
  match nodeOf nodes node.parentPid with
  | none => none
  | some found =>
    if found.identity.pid ≠ node.identity.pid ∧ found.identity.time ≠ 0 ∧
        node.identity.time ≠ 0 ∧ found.identity.time ≤ node.identity.time ∧
        found.sessionId = node.sessionId ∧
        sameText found.path node.path = true then some found
    else none

def roots (nodes : List Node) : List Node :=
  nodes.filter fun node =>
    node.identity.pid ≠ 0 ∧ node.identity.time ≠ 0 ∧
      (node.role = .main ∨ (node.role = .unknown ∧ parent sameText nodes node = none))

/-- The PID of the first root above a node; the walk ends where it comes to a
PID again. -/
def rootAbove (nodes : List Node) :
    Nat → List Nat → Node → Option Nat
  | 0, _, _ => none
  | fuel + 1, visited, node =>
    match parent sameText nodes node with
    | none => none
    | some ancestor =>
      if ancestor.identity.pid ∈ visited then none
      else if (roots sameText nodes).any
          (fun r => r.identity.pid == ancestor.identity.pid) then
        some ancestor.identity.pid
      else
        rootAbove nodes fuel (ancestor.identity.pid :: visited) ancestor

def placeNetwork (pid : Nat) (network : Lifetime) :
    List Instance → List Instance
  | [] => []
  | i :: is =>
    if i.main.identity.pid = pid ∧
        ¬ is.any (fun j => j.main.identity.pid == pid) then
      { i with networks := i.networks ++ [network] } :: is
    else i :: placeNetwork pid network is

def instances (nodes : List Node) : List Instance :=
  (nodes.filter fun n => n.role = .network).foldl
    (fun result node =>
      match rootAbove sameText nodes (nodes.length + 1) [] node with
      | none => result
      | some pid => placeNetwork pid node.identity result)
    ((roots sameText nodes).map fun n => ⟨n, []⟩)

def incompleteInstances (nodes : List Node) (candidates : List Lifetime)
    (isHooked : Lifetime → Bool) : List Instance :=
  (instances sameText nodes).filter fun i =>
    candidates.contains i.main.identity &&
      !(i.main.role == .main && isHooked i.main.identity &&
        !i.networks.isEmpty && i.networks.all isHooked)

end Nodes

/-- The creation times of a snapshot: a `std::map`, so the last entry stays. -/
def creationTimes (sys : System) : Table Nat :=
  sys.foldl (fun t p => t.insert p.pid p.creationTime) .empty

/-- `Matches`, on a complete snapshot. -/
def matchesSnapshot (sys : System) (identity : Lifetime) : Bool :=
  identity.pid != 0 && identity.time != 0 &&
    (creationTimes sys).get? identity.pid == some identity.time

end BrowserLaunchWatch

end ProxyLane.App
