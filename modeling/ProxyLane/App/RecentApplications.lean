import ProxyLane.App.RecentEntry
import ProxyLane.Foundation.Directory
import ProxyLane.Foundation.Run

/-!
# The history of recent applications

Each profile keeps its recent applications in sections of the settings file,
one for each entry.  An operation reads all of them, edits the list and writes
back what has changed, new records first and deletions last; it can end after
any of these writes.
-/

namespace ProxyLane.App.RecentApplications

open ProxyLane.Foundation

def kMaxEntries : Nat := 128

def validId (id : Text) : Bool := id.length == 32 && id.all hexDigit

/-- What `NewId` gives. -/
structure Guid where
  text : Text
  valid : validId text = true

/-- The sections of one profile: whether it has any value, its
`RecentAppsId`, and the records of an identity by what follows their prefix. -/
structure Ini where
  profile : Bool
  recentAppsId : Text
  history : Text → Directory Text Section

inductive Failure where
  | invalidData
  | bufferOverflow
  | notFound
  | tooManyNames
  | invalidParameter
  | encoding
  deriving DecidableEq

/-- `std::stable_sort` by a comparison that says what comes first. -/
def stableSort (less : Entry → Entry → Bool) (entries : List Entry) :
    List Entry :=
  entries.insertionSort fun a b => less b a = false

def sort : List Entry → List Entry :=
  stableSort fun a b =>
    if a.pinned != b.pinned then a.pinned else decide (b.lastUsed < a.lastUsed)

/-- Positions count on from `order`. -/
def number : Nat → List Entry → List Entry
  | _, [] => []
  | order, entry :: rest =>
    { entry with displayOrder := order + 1 } :: number (order + 1) rest

def numberMissing : Nat → List Entry → List Entry
  | _, [] => []
  | order, entry :: rest =>
    if entry.displayOrder = 0 then
      { entry with displayOrder := order + 1 } :: numberMissing (order + 1) rest
    else entry :: numberMissing order rest

def largestOrder (entries : List Entry) : Nat :=
  entries.foldl (fun order entry => max order entry.displayOrder) 0

def rebased (loaded : List Entry) : List Entry :=
  number 0 <| stableSort (fun a b =>
    if a.displayOrder = 0 ∨ b.displayOrder = 0 then
      decide (b.displayOrder < a.displayOrder)
    else decide (a.displayOrder < b.displayOrder)) loaded

def largeOrder : Nat := counterLimit - 512

def settle (loaded : List Entry) : List Entry :=
  if largeOrder < largestOrder (sort loaded) then
    numberMissing (rebased (sort loaded)).length (sort (rebased (sort loaded)))
  else numberMissing (largestOrder (sort loaded)) (sort loaded)

/-- `BindProfile`: the identity, and whether it was just made. -/
def bindProfile (ini : Ini) (create : Bool) (newId : Option Guid) :
    Except Failure (Text × Bool) :=
  if ini.profile = false then .ok ([], false)
  else if ini.recentAppsId = [] then
    if create then
      match newId with
      | none => .error .encoding
      | some guid => .ok (guid.text, true)
    else .ok ([], false)
  else if validId ini.recentAppsId then .ok (ini.recentAppsId, false)
  else .error .invalidData

section Operations

variable (p : Platform)

def load (identity : Text) :
    List (Text × Section) → List Entry → Except Failure (List Entry)
  | [], loaded => .ok loaded
  | (id, fields) :: rest, loaded =>
    if validId id = false then .error .invalidData
    else match decodeEntry p identity id fields with
      | none => .error .invalidData
      | some entry =>
        if kMaxEntries + 1 < (loaded ++ [entry]).length then
          .error .bufferOverflow
        else load identity rest (loaded ++ [entry])

structure Bound where
  entries : List Entry
  identity : Text
  made : Bool

/-- `Store::ReadBound` of a store that expects an identity, or none. -/
def readBound (ini : Ini) (expected : Text) (create : Bool)
    (newId : Option Guid) : Except Failure Bound := do
  let (identity, made) ← bindProfile ini create newId
  if identity = [] ∨ (expected ≠ [] ∧ expected ≠ identity) then
    if create then throw .notFound else pure ⟨[], [], made⟩
  else
    let loaded ← load p identity (ini.history identity).entries []
    pure ⟨settle loaded, identity, made⟩

def read (ini : Ini) (expected : Text) : Except Failure (List Entry) :=
  (readBound p ini expected false none).map Bound.entries

def sameText (a b : Text) : Bool := a.map p.lower == b.map p.lower

def sameLaunch (a b : Entry) : Bool :=
  if a.elevated != b.elevated then false
  else if a.shortcut ≠ [] ∧ sameText p a.shortcut b.shortcut then true
  else
    sameText p a.app.path b.app.path && sameText p a.app.aumid b.app.aumid &&
      a.app.arguments == b.app.arguments &&
      sameText p a.app.workingDirectory b.app.workingDirectory

/-- The loop of `Remember`: what it remembers, and the entries it leaves. -/
def merge : Entry → List Entry → Entry × List Entry
  | entry, [] => (entry, [])
  | entry, old :: rest =>
    let entry := { entry with
      lastUsed := max entry.lastUsed (old.lastUsed + 1) }
    if (entry.id ≠ [] ∧ entry.id = old.id) ∨ sameLaunch p entry old then
      merge { entry with
        id := old.id, pinned := old.pinned
        displayOrder := old.displayOrder } rest
    else
      let merged := merge entry rest
      (merged.1, old :: merged.2)

def trim : Nat → List Entry → List Entry
  | _, [] => []
  | recent, entry :: rest =>
    if entry.pinned then entry :: trim recent rest
    else if 20 < recent + 1 then trim (recent + 1) rest
    else entry :: trim (recent + 1) rest

def nextOrder (entries : List Entry) : Nat :=
  entries.foldl (fun order entry => max order (entry.displayOrder + 1)) 1

/-- The entry that `Remember` adds, and the ones it leaves. -/
def remembered (entries : List Entry) (identity : Text) (entry : Entry)
    (now : UInt64) (newId : Text) : Entry × List Entry :=
  let merged := merge p { entry with
    profileId := identity, displayOrder := 0, lastUsed := now.toNat } entries
  let found := merged.1
  ({ found with
      id := if found.id = [] then newId else found.id
      displayOrder := if found.displayOrder = 0 then nextOrder entries
        else found.displayOrder }, merged.2)

def pin (id : Text) (pinned : Bool) (entries : List Entry) : List Entry :=
  entries.map fun entry =>
    if entry.id = id then { entry with pinned } else entry

def sortForDisplay : List Entry → List Entry :=
  stableSort fun a b =>
    if a.pinned != b.pinned then a.pinned
    else if a.displayOrder ≠ b.displayOrder then
      decide (a.displayOrder < b.displayOrder)
    else decide (a.id < b.id)

inductive Op where
  | remember (entry : Entry) (now : UInt64) (profileId newId : Option Guid)
  | setPinned (id : Text) (pinned : Bool)
  | remove (id : Text)
  | move (id : Text) (direction : Int)
  | moveTo (id targetId : Text)

def swapped (entries : List Entry) (i j : Nat) : List Entry :=
  match entries[i]?, entries[j]? with
  | some a, some b => (entries.set i b).set j a
  | _, _ => entries

def moved (entries : List Entry) (i j : Nat) : List Entry :=
  match entries[i]? with
  | some a => (entries.eraseIdx i).insertIdx j a
  | none => entries

/-- `Store::Move`; nothing is written where the entry stays. -/
def moveBy (entries : List Entry) (id : Text) (direction : Int) :
    Except Failure (Option (List Entry)) :=
  if direction ≠ -1 ∧ direction ≠ 1 then .error .invalidParameter
  else
    let shown := sortForDisplay entries
    match shown.findIdx? fun entry => entry.id = id with
    | none => .error .notFound
    | some i =>
      let next := (i : Int) + direction
      if next < 0 then .ok none
      else match shown[i]?, shown[next.toNat]? with
        | some a, some b =>
          if a.pinned != b.pinned then .ok none
          else .ok (some (sort (number 0 (swapped shown i next.toNat))))
        | _, _ => .ok none

def moveTo (entries : List Entry) (id targetId : Text) :
    Except Failure (Option (List Entry)) :=
  let shown := sortForDisplay entries
  match shown.findIdx? fun entry => entry.id = id,
      shown.findIdx? fun entry => entry.id = targetId with
  | some i, some j =>
    if (shown[i]?.map Entry.pinned) ≠ (shown[j]?.map Entry.pinned) then
      .error .invalidParameter
    else if i = j then .ok none
    else .ok (some (sort (number 0 (moved shown i j))))
  | _, _ => .error .notFound

def listed (entries : List Entry) (identity : Text) : Op → List Entry
  | .remember entry now _ newId =>
    let (added, kept) := remembered p entries identity entry now
      ((newId.map Guid.text).getD [])
    sort (kept ++ [added])
  | .setPinned id pinned => sort (pin id pinned entries)
  | .remove id => sort (entries.filter fun entry => entry.id ≠ id)
  | _ => []

def edit (entries : List Entry) (identity : Text) (op : Op) :
    Except Failure (Option (List Entry)) :=
  match op with
  | .remember entry now _ newId =>
    let (added, _) := remembered p entries identity entry now
      ((newId.map Guid.text).getD [])
    if entry.profileId ≠ [] ∧ entry.profileId ≠ identity then
      .error .invalidData
    else if validId added.id = false then .error .invalidData
    else
      let trimmed := trim 0 (listed p entries identity op)
      if kMaxEntries < trimmed.length then .error .tooManyNames
      else .ok (some trimmed)
  | .setPinned id _ | .remove id =>
    if entries.any fun entry => entry.id = id then
      .ok (some (trim 0 (listed p entries identity op)))
    else .error .notFound
  | .move id direction => moveBy entries id direction
  | .moveTo id targetId => moveTo entries id targetId

inductive Change where
  | write (id : Text) (fields : Section)
  | delete (id : Text)

def Change.apply (d : Directory Text Section) : Change → Directory Text Section
  | .write id fields =>
    if id ∈ d.names then d.modify id fun _ => fields
    else d.create id fields
  | .delete id => d.remove [id]

/-- `Store::Write`: records that differ, then sections that are not kept. -/
def changes (d : Directory Text Section) (entries : List Entry) :
    Except Failure (List Change) :=
  match entries.mapM (encodeEntry p) with
  | none => .error .encoding
  | some records =>
    let writes := (entries.zip records).filterMap fun (entry, fields) =>
      if (d.get? entry.id).getD {} ≠ fields then
        some (.write entry.id fields)
      else none
    let deletes := (d.names.filter fun id =>
      !entries.any fun entry => sameText p id entry.id).map .delete
    .ok (writes ++ deletes)

def Op.unused (ini : Ini) : Op → Option Guid
  | .remember _ _ profileId _ =>
    profileId.filter fun guid => (ini.history guid.text).entries.isEmpty
  | _ => none

def Op.renew (d : Directory Text Section) : Op → Op
  | .remember entry now profileId newId =>
    .remember entry now profileId
      (newId.filter fun guid => decide (guid.text ∉ d.names))
  | op => op

/-- A store of the profile runs an operation; the first `cut` changes of the
file take place. -/
structure Event where
  op : Op
  expected : Text := []
  cut : Nat

def Op.creates (expected : Text) : Op → Bool
  | .remember .. => expected = []
  | _ => false

def Event.bound (ini : Ini) (e : Event) : Except Failure Bound :=
  readBound p ini e.expected (e.op.creates e.expected) (e.op.unused ini)

def Event.edited (ini : Ini) (e : Event) (b : Bound) :
    Except Failure (Option (List Entry)) :=
  let identified : Bool := match e.op with
    | .remember .. => b.identity ≠ []
    | _ => true
  if identified then
    edit p b.entries b.identity (e.op.renew (ini.history b.identity))
  else .error .notFound

def Event.plan (ini : Ini) (e : Event) (b : Bound) : List Change :=
  match e.edited p ini b with
  | .ok (some entries) =>
    match changes p (ini.history b.identity) entries with
    | .ok plan => plan
    | .error _ => []
  | _ => []

def Event.done (ini : Ini) (e : Event) (b : Bound) : List Change :=
  (e.plan p ini b).take (e.cut - b.made.toNat)

def step (ini : Ini) (e : Event) : Ini :=
  match e.bound p ini with
  | .error _ => ini
  | .ok b =>
    if b.made = true ∧ e.cut = 0 then ini
    else { ini with
      recentAppsId := if b.made then b.identity else ini.recentAppsId
      history := Function.update ini.history b.identity
        ((e.done p ini b).foldl Change.apply (ini.history b.identity)) }

end Operations

end ProxyLane.App.RecentApplications
