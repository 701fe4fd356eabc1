import ProxyLane.Foundation.Bytes
import ProxyLane.Foundation.Directory

/-!
# Run directories

A cache that is not retained lives in a flat directory of its own, marked as
ours by a lock file and a format marker.  A later start removes what an
interrupted run left behind: `inspect` accepts exactly the directories that
hold nothing but such files, and payload only beside a complete marker.
Everything a run and its interrupted removals can leave is accepted, and a
directory that is not accepted keeps all its files.
-/

namespace ProxyLane.Cache

open Foundation

/-! ## Names and kinds -/

inductive OsName where
  | text (name : Bytes)
  | other (id : Nat)
  deriving DecidableEq, Repr

inductive PathKind where
  | file (content : Bytes)
  | directory
  | symlink
  | reparse
  deriving DecidableEq, Repr

@[simp] theorem OsName.text_beq (name other : Bytes) :
    (OsName.text name == OsName.text other) = (name == other) := by
  rw [Bool.eq_iff_iff]
  simp

def marker : Bytes := ascii "ProxyLaneProtocolCache/v1\n"

def ownerLock : Bytes := ascii "owner.lock"

def formatName : Bytes := ascii "format"

def isHexDigit (b : UInt8) : Bool :=
  (48 ≤ b && b ≤ 57) || (65 ≤ b && b ≤ 70) || (97 ≤ b && b ≤ 102)

def runName (name : Bytes) : Bool :=
  name.take 4 == ascii "run-" && (name.drop 4).length == 32 &&
    (name.drop 4).all isHexDigit

def payloadName (name : Bytes) : Bool :=
  [ascii ".request.body", ascii ".response.body"].any fun suffix =>
    name.drop 16 == suffix && (name.take 16).length == 16 &&
      (name.take 16).all isHexDigit

/-- The error of `plain`, if the path is of another kind. -/
def plain (kind : PathKind) (directory : Bool) : Option String :=
  let other := "expected a regular " ++
    (if directory then "directory" else "file") ++
    ", but found a different path type"
  match kind, directory with
  | .reparse, _ => some "cache path is a reparse point"
  | .symlink, _ => some other
  | .directory, false => some other
  | .file _, true => some other
  | .directory, true => none
  | .file _, false => none

structure RunDir where
  parent : String
  name : OsName
  kind : PathKind
  contents : Directory OsName PathKind

structure Inspected where
  files : List OsName := []
  hasPayload : Bool := false
  hasOwner : Bool := false
  completeMarker : Bool := false

def inspectEntry (seen : Inspected) (e : OsName × PathKind) :
    Except String Inspected :=
  match plain e.2 false, e with
  | some error, _ => .error error
  | none, (.text name, .file content) =>
    let seen := { seen with
      files := seen.files ++ [.text name]
      hasPayload := seen.hasPayload || payloadName name
      hasOwner := seen.hasOwner || name == ownerLock }
    if name ≠ ownerLock ∧ name ≠ formatName ∧ payloadName name = false then
      .error "unrecognized file in cache run"
    else if name = formatName then
      if marker.length < content.length ∨ ¬ content.isPrefixOf marker then
        .error "unrecognized cache format"
      else .ok { seen with completeMarker := content == marker }
    else .ok seen
  | none, _ => .error "invalid cache filename"

def inspectEntries : List (OsName × PathKind) → Inspected →
    Except String Inspected
  | [], seen => .ok seen
  | e :: es, seen =>
    match inspectEntry seen e with
    | .error error => .error error
    | .ok seen => inspectEntries es seen

def OsName.isRun : OsName → Bool
  | .text name => runName name
  | .other _ => false

def inspect (root : String) (run : RunDir) : Except String (List OsName) :=
  if run.parent ≠ root ∨ run.name.isRun = false then
    .error "cache cleanup target outside managed root"
  else
    match plain run.kind true with
    | some error => .error error
    | none =>
      match inspectEntries run.contents.entries {} with
      | .error error => .error error
      | .ok seen =>
        if seen.hasPayload && (!seen.hasOwner || !seen.completeMarker) then
          .error "payload directory has no complete ownership marker"
        else .ok seen.files

def extension? (name : Bytes) : Option Bytes :=
  let stem := name.reverse.dropWhile (· != 46)
  if stem.length ≤ 1 then none
  else some (name.reverse.takeWhile (· != 46)).reverse

def OsName.isBody : OsName → Bool
  | .text name => extension? name == some (ascii "body")
  | .other _ => false

inductive Outcome where
  | removed
  | interrupted
  | inUse
  | refused (error : String)
  deriving DecidableEq, Repr

def removalOrder (files : List OsName) : List OsName :=
  files.filter (·.isBody) ++ files.filter (!·.isBody)

/-- `remove_flat`, interrupted after `steps` removals where there are so
many left; the last removal is that of the directory. -/
def removeFlat (root : String) (run : RunDir) (steps : Nat) :
    Option RunDir × Outcome :=
  match inspect root run with
  | .error error => (some run, .refused error)
  | .ok files =>
    if steps ≤ files.length then
      (some { run with
        contents := run.contents.remove ((removalOrder files).take steps) },
        .interrupted)
    else (none, .removed)

/-- One round of the loop in `create`; `held` tells whether another process
holds the lock of the directory's owner. -/
def recoverRun (root : String) (run : RunDir) (held : Bool) (steps : Nat) :
    Option RunDir × Outcome :=
  match inspect root run with
  | .error error => (some run, .refused error)
  | .ok _ =>
    if .text ownerLock ∈ run.contents.names ∧ held = true then
      (some run, .inUse)
    else removeFlat root run steps

structure Recovery where
  runs : List RunDir
  recovered : Nat
  warnings : List (OsName × String)

/-- The loop in `create`, interrupted after `steps` removals. -/
def recover (root : String) (held : OsName → Bool) :
    List RunDir → Nat → Nat → List (OsName × String) → Recovery
  | [], _, recovered, warnings => ⟨[], recovered, warnings⟩
  | run :: rest, steps, recovered, warnings =>
    if run.name.isRun = false then
      let after := recover root held rest steps recovered warnings
      { after with runs := run :: after.runs }
    else
      match recoverRun root run (held run.name) steps with
      | (left, .interrupted) => ⟨left.toList ++ rest, recovered, warnings⟩
      | (left, .removed) =>
        let after := recover root held rest
          (steps - (run.contents.entries.length + 1)) (recovered + 1) warnings
        { after with runs := left.toList ++ after.runs }
      | (left, .inUse) =>
        let after := recover root held rest steps recovered warnings
        { after with runs := left.toList ++ after.runs }
      | (left, .refused error) =>
        let after := recover root held rest steps recovered
          (if warnings.length < 16 then warnings ++ [(run.name, error)]
            else warnings)
        { after with runs := left.toList ++ after.runs }

/-! ## The life of a run directory -/

def hexDigit (n : Nat) : UInt8 :=
  UInt8.ofNat (if n < 10 then 48 + n else 87 + n)

def hexText : Nat → Nat → Bytes
  | 0, _ => []
  | width + 1, value => hexText width (value / 16) ++ [hexDigit (value % 16)]

def payloadFile (id : UInt64) (response : Bool) : OsName :=
  .text (hexText 16 id.toNat ++
    (if response then ascii ".response.body" else ascii ".request.body"))

def newRunName (random : Fin 16 → UInt8) : OsName :=
  .text (ascii "run-" ++ (List.ofFn random).flatMap fun b =>
    [hexDigit (b.toNat / 16), hexDigit (b.toNat % 16)])

inductive Stage where
  /-- Its creator is inside `create`. -/
  | creating
  /-- Its owner writes payload. -/
  | live
  /-- Nobody works on it. -/
  | idle
  deriving DecidableEq, Repr

inductive LifeEvent where
  | createDir
  | openOwner
  | openFormat
  | writeMarker (count : Nat)
  | created
  | write (id : UInt64) (response : Bool) (bytes : Bytes)
  | evict (id : UInt64) (response : Bool)
  | crash
  | relist (order : List (OsName × PathKind))
  | cleanup (steps : Nat)

def PathKind.append (bytes : Bytes) : PathKind → PathKind
  | .file content => .file (content ++ bytes)
  | kind => kind

def PathKind.appendMarker (count : Nat) : PathKind → PathKind
  | .file content => .file (content ++ (marker.drop content.length).take count)
  | kind => kind

/-- The directory `name` below `root`, from its creation to its removal.  An
event that the stage does not allow changes nothing. -/
def lifeStep (root : String) (name : OsName) :
    Option (Stage × Directory OsName PathKind) → LifeEvent →
    Option (Stage × Directory OsName PathKind)
  | none, .createDir => some (.creating, .empty)
  | some (.creating, d), .openOwner =>
    some (.creating, d.create (.text ownerLock) (.file []))
  | some (.creating, d), .openFormat =>
    if .text ownerLock ∈ d.names then
      some (.creating, d.create (.text formatName) (.file []))
    else some (.creating, d)
  | some (.creating, d), .writeMarker count =>
    some (.creating, d.modify (.text formatName) (.appendMarker count))
  | some (.creating, d), .created =>
    if d.get? (.text formatName) = some (.file marker) then some (.live, d)
    else some (.creating, d)
  | some (.live, d), .write id response bytes =>
    some (.live, (d.create (payloadFile id response) (.file [])).modify
      (payloadFile id response) (.append bytes))
  | some (.live, d), .evict id response =>
    some (.live, d.remove [payloadFile id response])
  | some (_, d), .crash => some (.idle, d)
  | some (stage, d), .relist order =>
    if h : order.Perm d.entries then some (stage, d.relist order h)
    else some (stage, d)
  | some (_, d), .cleanup steps =>
    (removeFlat root ⟨root, name, .directory, d⟩ steps).1.map fun run =>
      (.idle, run.contents)
  | s, _ => s

def life (root : String) (name : OsName) (es : List LifeEvent) :
    Option (Stage × Directory OsName PathKind) :=
  es.foldl (lifeStep root name) none

/-! ## What inspection accepts -/

def OsName.isPayload : OsName → Bool
  | .text name => payloadName name
  | .other _ => false

def Fine (e : OsName × PathKind) : Prop :=
  ∃ name content, e = (.text name, .file content) ∧
    (name = ownerLock ∨ name = formatName ∨ payloadName name = true) ∧
    (name = formatName → content <+: marker)

structure Acceptable (d : Directory OsName PathKind) : Prop where
  fine : ∀ e ∈ d.entries, Fine e
  owned : ∀ e ∈ d.entries, e.1.isPayload = true →
    .text ownerLock ∈ d.names ∧ (.text formatName, .file marker) ∈ d.entries

def Inspected.noted (seen : Inspected) (e : OsName × PathKind) : Inspected where
  files := seen.files ++ [e.1]
  hasPayload := seen.hasPayload || e.1.isPayload
  hasOwner := seen.hasOwner || e.1 == .text ownerLock
  completeMarker :=
    if e.1 = .text formatName then e.2 == .file marker else seen.completeMarker

theorem inspectEntry_of_fine (seen : Inspected) {e : OsName × PathKind}
    (h : Fine e) : inspectEntry seen e = .ok (seen.noted e) := by
  obtain ⟨name, content, rfl, hname, hformat⟩ := h
  have hknown : ¬ (name ≠ ownerLock ∧ name ≠ formatName ∧
      payloadName name = false) := by
    rintro ⟨howner, hnot, hpayload⟩
    rcases hname with h | h | h
    · exact howner h
    · exact hnot h
    · simp [h] at hpayload
  simp only [inspectEntry, plain, if_neg hknown, Inspected.noted, OsName.isPayload]
  by_cases hf : name = formatName
  · have hpre := hformat hf
    have hshort : ¬ (marker.length < content.length ∨
        ¬ content.isPrefixOf marker = true) := by
      rintro (hlong | hnot)
      · exact absurd hpre.length_le (by omega)
      · exact hnot (List.isPrefixOf_iff_prefix.2 hpre)
    rw [if_pos hf, if_neg hshort]
    simp [hf]
  · simp [hf]

theorem fine_of_inspectEntry {seen seen' : Inspected} {e : OsName × PathKind}
    (h : inspectEntry seen e = .ok seen') : Fine e := by
  obtain ⟨name, kind⟩ := e
  cases kind with
  | directory => simp [inspectEntry, plain] at h
  | symlink => simp [inspectEntry, plain] at h
  | reparse => simp [inspectEntry, plain] at h
  | file content =>
    cases name with
    | other id => simp [inspectEntry, plain] at h
    | text name =>
      simp only [inspectEntry, plain] at h
      split at h
      · simp at h
      · rename_i hknown
        refine ⟨name, content, rfl, ?_, ?_⟩
        · by_contra hnot
          apply hknown
          simp only [not_or, Bool.not_eq_true] at hnot
          exact hnot
        · intro hf
          rw [if_pos hf] at h
          split at h
          · simp at h
          · rename_i hshort
            simp only [not_or, not_not] at hshort
            exact List.isPrefixOf_iff_prefix.1 hshort.2

theorem inspectEntries_of_fine {es : List (OsName × PathKind)}
    (h : ∀ e ∈ es, Fine e) (seen : Inspected) :
    inspectEntries es seen = .ok (es.foldl Inspected.noted seen) := by
  induction es generalizing seen with
  | nil => rfl
  | cons e es ih =>
    rw [inspectEntries, inspectEntry_of_fine seen (h e List.mem_cons_self)]
    exact ih (fun e he => h e (List.mem_cons_of_mem _ he)) _

theorem fine_of_inspectEntries {es : List (OsName × PathKind)}
    {seen seen' : Inspected} (h : inspectEntries es seen = .ok seen') :
    ∀ e ∈ es, Fine e := by
  induction es generalizing seen with
  | nil => simp
  | cons e es ih =>
    unfold inspectEntries at h
    split at h
    · simp at h
    · rename_i here hentry
      intro a ha
      rcases List.mem_cons.1 ha with rfl | ha
      · exact fine_of_inspectEntry hentry
      · exact ih h a ha

theorem noted_files (es : List (OsName × PathKind)) (seen : Inspected) :
    (es.foldl Inspected.noted seen).files = seen.files ++ es.map Prod.fst := by
  induction es generalizing seen with
  | nil => simp
  | cons e es ih => simp [ih, Inspected.noted]

theorem noted_hasPayload (es : List (OsName × PathKind)) (seen : Inspected) :
    (es.foldl Inspected.noted seen).hasPayload =
      (seen.hasPayload || es.any fun e => e.1.isPayload) := by
  induction es generalizing seen with
  | nil => simp
  | cons e es ih => simp [ih, Inspected.noted, Bool.or_assoc]

theorem noted_hasOwner (es : List (OsName × PathKind)) (seen : Inspected) :
    (es.foldl Inspected.noted seen).hasOwner =
      (seen.hasOwner || es.any fun e => e.1 == .text ownerLock) := by
  induction es generalizing seen with
  | nil => simp
  | cons e es ih => simp [ih, Inspected.noted, Bool.or_assoc]

theorem noted_completeMarker {es : List (OsName × PathKind)}
    (h : (es.map Prod.fst).Nodup) (seen : Inspected) :
    (es.foldl Inspected.noted seen).completeMarker = true ↔
      (.text formatName, .file marker) ∈ es ∨
        (.text formatName ∉ es.map Prod.fst ∧ seen.completeMarker = true) := by
  induction es generalizing seen with
  | nil => simp
  | cons e es ih =>
    rw [List.map_cons, List.nodup_cons] at h
    rw [List.foldl_cons, ih h.2]
    by_cases he : e.1 = .text formatName
    · have habsent : ∀ kind, (.text formatName, kind) ∉ es := by
        intro kind hmem
        apply h.1
        rw [he]
        exact List.mem_map_of_mem hmem
      have hnames : OsName.text formatName ∉ es.map Prod.fst := he ▸ h.1
      have hhead : ((OsName.text formatName, PathKind.file marker) = e) ↔
          e.2 = .file marker := by
        constructor
        · rintro rfl
          rfl
        · intro hkind
          rw [← he, ← hkind]
      simp only [List.mem_cons, habsent, or_false, hhead, Inspected.noted, he,
        if_true, beq_iff_eq, List.map_cons, hnames, not_true_eq_false,
        false_and, false_or, not_false_eq_true, true_and, or_false]
    · have hhead : (OsName.text formatName, PathKind.file marker) ≠ e := by
        rintro rfl
        exact he rfl
      have hne : OsName.text formatName ≠ e.1 := fun h => he h.symm
      simp only [List.mem_cons, hhead, false_or, Inspected.noted, he, if_false,
        List.map_cons, hne]

variable {run : RunDir}

theorem inspect_of_acceptable {root : String}
    (hroot : run.parent = root) (hname : run.name.isRun = true)
    (hkind : run.kind = .directory) (h : Acceptable run.contents) :
    inspect root run = .ok run.contents.names := by
  have houtside : ¬ (run.parent ≠ root ∨ run.name.isRun = false) := by
    simp [hroot, hname]
  unfold inspect
  rw [if_neg houtside, hkind]
  simp only [plain, inspectEntries_of_fine h.fine]
  have howned : ¬ ((run.contents.entries.foldl Inspected.noted {}).hasPayload &&
      (!(run.contents.entries.foldl Inspected.noted {}).hasOwner ||
        !(run.contents.entries.foldl Inspected.noted {}).completeMarker)) =
      true := by
    intro hbad
    simp only [Bool.and_eq_true, Bool.or_eq_true, Bool.not_eq_true',
      noted_hasPayload, noted_hasOwner, Bool.false_or, List.any_eq_true] at hbad
    obtain ⟨⟨e, he, hpayload⟩, hlack⟩ := hbad
    obtain ⟨howner, hmarker⟩ := h.owned e he hpayload
    rcases hlack with hlack | hlack
    · obtain ⟨o, ho, honame⟩ := List.mem_map.1 howner
      rw [List.any_eq_false] at hlack
      exact hlack o ho (by simp [honame])
    · have hcomplete := (noted_completeMarker run.contents.distinct {}).2
        (Or.inl hmarker)
      simp [hcomplete] at hlack
  rw [if_neg howned, noted_files]
  rfl

theorem acceptable_of_inspect {root : String}
    {files : List OsName} (h : inspect root run = .ok files) :
    Acceptable run.contents ∧ files = run.contents.names := by
  unfold inspect at h
  split at h
  · simp at h
  · split at h
    · simp at h
    · split at h
      · simp at h
      · rename_i seen hseen
        have hfine := fine_of_inspectEntries hseen
        rw [inspectEntries_of_fine hfine] at hseen
        cases hseen
        split at h
        · simp at h
        · rename_i howned
          cases h
          refine ⟨⟨hfine, fun e he hpayload => ?_⟩, by simp [noted_files,
            Directory.names]⟩
          simp only [Bool.and_eq_true, Bool.or_eq_true, Bool.not_eq_true',
            noted_hasPayload, noted_hasOwner, Bool.false_or,
            List.any_eq_true, not_and, not_or, Bool.not_eq_false] at howned
          obtain ⟨howner, hmarker⟩ := howned ⟨e, he, hpayload⟩
          constructor
          · obtain ⟨o, ho, honame⟩ := howner
            rw [beq_iff_eq] at honame
            rw [← honame]
            exact List.mem_map_of_mem ho
          · rcases (noted_completeMarker run.contents.distinct {}).1 hmarker with
              hmem | ⟨-, hno⟩
            · exact hmem
            · simp at hno

/-! ## Interrupted removals -/

/-- Holds an entry that is not one of ours, or payload without the complete
marker. -/
def Foreign (d : Directory OsName PathKind) : Prop :=
  (∃ e ∈ d.entries, ¬ Fine e) ∨
    (∃ e ∈ d.entries, e.1.isPayload = true) ∧
      (.text formatName, .file marker) ∉ d.entries

theorem inspect_of_foreign (root : String)
    (h : Foreign run.contents) : ∃ error, inspect root run = .error error := by
  cases hinspect : inspect root run with
  | error error => exact ⟨error, rfl⟩
  | ok files =>
    exfalso
    obtain ⟨haccept, -⟩ := acceptable_of_inspect hinspect
    rcases h with ⟨e, he, hbad⟩ | ⟨⟨e, he, hpayload⟩, hnone⟩
    · exact hbad (haccept.fine e he)
    · exact hnone (haccept.owned e he hpayload).2

theorem removeFlat_of_foreign {root : String}
    (h : Foreign run.contents) (steps : Nat) :
    (removeFlat root run steps).1 = some run := by
  obtain ⟨error, herror⟩ := inspect_of_foreign root h
  simp [removeFlat, herror]

theorem recoverRun_of_foreign (root : String)
    (h : Foreign run.contents) (held : Bool) (steps : Nat) :
    ∃ error, recoverRun root run held steps = (some run, .refused error) := by
  obtain ⟨error, herror⟩ := inspect_of_foreign root h
  exact ⟨error, by simp [recoverRun, herror]⟩

theorem recover_keeps_foreign {root : String} {held : OsName → Bool}
    (h : Foreign run.contents) {runs : List RunDir} (hmem : run ∈ runs)
    (steps recovered : Nat) (warnings : List (OsName × String)) :
    run ∈ (recover root held runs steps recovered warnings).runs := by
  induction runs generalizing steps recovered warnings with
  | nil => simp at hmem
  | cons first rest ih =>
    unfold recover
    rcases List.mem_cons.1 hmem with rfl | hmem
    · obtain ⟨error, hrefused⟩ :=
        recoverRun_of_foreign root h (held run.name) steps
      rw [hrefused]
      split <;> simp
    · split
      · exact List.mem_cons_of_mem _ (ih hmem _ _ _)
      · split
        · exact List.mem_append_right _ hmem
        · exact List.mem_append_right _ (ih hmem _ _ _)
        · exact List.mem_append_right _ (ih hmem _ _ _)
        · exact List.mem_append_right _ (ih hmem _ _ _)

theorem isBody_of_isPayload {name : OsName} (h : name.isPayload = true) :
    name.isBody = true := by
  cases name with
  | other id => simp [OsName.isPayload] at h
  | text name =>
    simp only [OsName.isPayload, payloadName, List.any_cons, List.any_nil,
      Bool.or_false, Bool.or_eq_true, Bool.and_eq_true, beq_iff_eq] at h
    have hsplit : name = name.take 16 ++ name.drop 16 :=
      (List.take_append_drop 16 name).symm
    have hlen : (name.take 16).length = 16 := by
      rcases h with h | h
      · exact h.1.2
      · exact h.1.2
    have hcons : ∃ b rest, (name.take 16).reverse = b :: rest := by
      cases hrev : (name.take 16).reverse with
      | nil => simp [List.reverse_eq_nil_iff.1 hrev] at hlen
      | cons b rest => exact ⟨b, rest, rfl⟩
    obtain ⟨b, rest, hrev⟩ := hcons
    rcases h with h | h
    · rw [hsplit, h.1.1, OsName.isBody, extension?, List.reverse_append, hrev]
      rfl
    · rw [hsplit, h.1.1, OsName.isBody, extension?, List.reverse_append, hrev]
      rfl

theorem take_removalOrder {files : List OsName} {steps : Nat} {name : OsName}
    (hname : name ∈ files) (hbody : name.isBody = true)
    (hleft : name ∉ (removalOrder files).take steps) :
    ∀ gone ∈ (removalOrder files).take steps, gone.isBody = true := by
  have hbodies : name ∈ files.filter (·.isBody) :=
    List.mem_filter.2 ⟨hname, hbody⟩
  have hfew : steps ≤ (files.filter (·.isBody)).length := by
    by_contra hmany
    apply hleft
    rw [removalOrder, List.take_append, List.take_of_length_le (by omega)]
    exact List.mem_append_left _ hbodies
  intro gone hgone
  rw [removalOrder, List.take_append_of_le_length hfew] at hgone
  exact (List.mem_filter.1 (List.mem_of_mem_take hgone)).2

variable {d : Directory OsName PathKind}

theorem Acceptable.interrupted (h : Acceptable d) (steps : Nat) :
    Acceptable (d.remove ((removalOrder d.names).take steps)) := by
  constructor
  · intro e he
    exact h.fine e (Directory.mem_remove.1 he).1
  · intro e he hpayload
    obtain ⟨hin, hleft⟩ := Directory.mem_remove.1 he
    obtain ⟨howner, hmarker⟩ := h.owned e hin hpayload
    have hgone := take_removalOrder (List.mem_map_of_mem hin)
      (isBody_of_isPayload hpayload) hleft
    constructor
    · obtain ⟨o, ho, honame⟩ := List.mem_map.1 howner
      apply List.mem_map.2
      refine ⟨o, Directory.mem_remove.2 ⟨ho, fun hmem => ?_⟩, honame⟩
      have hbody := hgone _ hmem
      rw [honame] at hbody
      exact absurd hbody (by decide)
    · refine Directory.mem_remove.2 ⟨hmarker, fun hmem => ?_⟩
      exact absurd (hgone _ hmem) (by decide)

/-! ## Lives -/

structure Lawful (stage : Stage) (d : Directory OsName PathKind) : Prop where
  acceptable : Acceptable d
  creating : stage = .creating → (∀ e ∈ d.entries, e.1.isPayload = false) ∧
    (.text formatName ∈ d.names → .text ownerLock ∈ d.names)
  live : stage = .live →
    .text ownerLock ∈ d.names ∧ (.text formatName, .file marker) ∈ d.entries

theorem hexDigit_isHexDigit (n : Nat) : isHexDigit (hexDigit (n % 16)) = true := by
  have hlt : n % 16 < 16 := Nat.mod_lt _ (by decide)
  generalize n % 16 = m at hlt
  have hall : ∀ m < 16, isHexDigit (hexDigit m) = true := by decide
  exact hall m hlt

theorem newRunName_isRun (random : Fin 16 → UInt8) :
    (newRunName random).isRun = true := by
  have hall : ∀ bytes : Bytes, (bytes.flatMap fun b =>
      [hexDigit (b.toNat / 16), hexDigit (b.toNat % 16)]).length =
        2 * bytes.length ∧ (bytes.flatMap fun b =>
      [hexDigit (b.toNat / 16), hexDigit (b.toNat % 16)]).all isHexDigit = true := by
    intro bytes
    induction bytes with
    | nil => simp
    | cons b bytes ih =>
      have hhigh : b.toNat / 16 % 16 = b.toNat / 16 := by
        have := b.toNat_lt
        omega
      have hdigit := hexDigit_isHexDigit (b.toNat / 16)
      rw [hhigh] at hdigit
      rw [List.flatMap_cons, List.length_append, List.all_append, ih.1, ih.2]
      simp [hdigit, hexDigit_isHexDigit]
      omega
  obtain ⟨hlen, hdigits⟩ := hall (List.ofFn random)
  have htake : ∀ rest, (ascii "run-" ++ rest).take 4 = ascii "run-" :=
    fun rest => List.take_left' rfl
  have hdrop : ∀ rest, (ascii "run-" ++ rest).drop 4 = rest :=
    fun rest => List.drop_left' rfl
  simp only [newRunName, OsName.isRun, runName, htake, hdrop, hlen, hdigits,
    List.length_ofFn]
  decide

private theorem hexText_spec (width value : Nat) :
    (hexText width value).length = width ∧
      (hexText width value).all isHexDigit = true := by
  induction width generalizing value with
  | zero => simp [hexText]
  | succ width ih =>
    obtain ⟨hlen, hall⟩ := ih (value / 16)
    simp [hexText, hlen, hall, hexDigit_isHexDigit]

theorem payloadFile_isPayload (id : UInt64) (response : Bool) :
    (payloadFile id response).isPayload = true := by
  obtain ⟨hlen, hall⟩ := hexText_spec 16 id.toNat
  have htake : ∀ suffix, (hexText 16 id.toNat ++ suffix).take 16 =
      hexText 16 id.toNat := by
    intro suffix
    rw [List.take_append_of_le_length (by omega), List.take_of_length_le (by omega)]
  have hdrop : ∀ suffix, (hexText 16 id.toNat ++ suffix).drop 16 = suffix := by
    intro suffix
    rw [List.drop_append_of_le_length (by omega), List.drop_of_length_le (by omega)]
    rfl
  cases response <;>
    simp [payloadFile, OsName.isPayload, payloadName, htake, hdrop, hlen, hall]

theorem isPayload_ne {name : OsName} (h : name.isPayload = true) :
    name ≠ .text ownerLock ∧ name ≠ .text formatName := by
  constructor
  · rintro rfl
    exact absurd h (by decide)
  · rintro rfl
    exact absurd h (by decide)

theorem Acceptable.create (h : Acceptable d)
    {name : OsName} (hfine : Fine (name, .file []))
    (howned : name.isPayload = true → .text ownerLock ∈ d.names ∧
      (.text formatName, .file marker) ∈ d.entries) :
    Acceptable (d.create name (.file [])) := by
  have hnames : ∀ other ∈ d.names, other ∈ (d.create name (.file [])).names := by
    intro other hother
    obtain ⟨e, he, rfl⟩ := List.mem_map.1 hother
    exact List.mem_map_of_mem (Directory.mem_create_of_mem he)
  constructor
  · intro e he
    rcases Directory.mem_create he with he | ⟨rfl, -⟩
    · exact h.fine e he
    · exact hfine
  · intro e he hpayload
    have hboth : .text ownerLock ∈ d.names ∧
        (.text formatName, .file marker) ∈ d.entries := by
      rcases Directory.mem_create he with he | ⟨rfl, -⟩
      · exact h.owned e he hpayload
      · exact howned hpayload
    exact ⟨hnames _ hboth.1, Directory.mem_create_of_mem hboth.2⟩

@[simp] theorem names_modify (d : Directory OsName PathKind) (name : OsName)
    (f : PathKind → PathKind) : (d.modify name f).names = d.names := by
  unfold Directory.names Directory.modify
  rw [List.map_map]
  apply List.map_congr_left
  intro e _
  simp only [Function.comp_apply]
  split <;> rfl

theorem lawful_write (h : Lawful .live d)
    (id : UInt64) (response : Bool) (bytes : Bytes) :
    Lawful .live ((d.create (payloadFile id response) (.file [])).modify
      (payloadFile id response) (.append bytes)) := by
  have hpayload := payloadFile_isPayload id response
  obtain ⟨howner, hmarker⟩ := h.live rfl
  have hnew : Fine (payloadFile id response, .file []) := by
    refine ⟨_, [], rfl, Or.inr (Or.inr hpayload), ?_⟩
    intro heq
    exact absurd (congrArg OsName.text heq) (isPayload_ne hpayload).2
  have hcreated := h.acceptable.create hnew fun _ => ⟨howner, hmarker⟩
  -- appending to a payload file touches neither the lock nor the marker
  have hkept : .text ownerLock ∈ ((d.create (payloadFile id response)
        (.file [])).modify (payloadFile id response) (.append bytes)).names ∧
      (.text formatName, .file marker) ∈ ((d.create (payloadFile id response)
        (.file [])).modify (payloadFile id response) (.append bytes)).entries := by
    constructor
    · rw [names_modify]
      obtain ⟨o, ho, honame⟩ := List.mem_map.1 howner
      rw [← honame]
      exact List.mem_map_of_mem (Directory.mem_create_of_mem ho)
    · refine Directory.mem_modify.2 ⟨_, Directory.mem_create_of_mem hmarker, ?_⟩
      rw [if_neg (fun heq => (isPayload_ne hpayload).2 heq.symm)]
  refine ⟨⟨?_, fun _ _ _ => hkept⟩, by simp, fun _ => hkept⟩
  intro e he
  obtain ⟨old, hold, rfl⟩ := Directory.mem_modify.1 he
  split
  case isTrue hname =>
    obtain ⟨name, content, rfl, hknown, -⟩ := hcreated.fine old hold
    refine ⟨name, content ++ bytes, rfl, hknown, fun hformat => ?_⟩
    have hmarked : (OsName.text formatName).isPayload = true := by
      rw [← hname, hformat] at hpayload
      exact hpayload
    exact absurd hmarked (by decide)
  case isFalse hname => exact hcreated.fine old hold

theorem lawful_evict (h : Lawful .live d) (id : UInt64) (response : Bool) :
    Lawful .live (d.remove [payloadFile id response]) := by
  obtain ⟨howner, hmarker⟩ := h.live rfl
  obtain ⟨hnotOwner, hnotFormat⟩ :=
    isPayload_ne (payloadFile_isPayload id response)
  have hkept : .text ownerLock ∈ (d.remove [payloadFile id response]).names ∧
      (.text formatName, .file marker) ∈
        (d.remove [payloadFile id response]).entries := by
    constructor
    · obtain ⟨o, ho, honame⟩ := List.mem_map.1 howner
      rw [← honame]
      apply List.mem_map_of_mem
      refine Directory.mem_remove.2 ⟨ho, ?_⟩
      rw [honame, List.mem_singleton]
      exact fun heq => hnotOwner heq.symm
    · refine Directory.mem_remove.2 ⟨hmarker, ?_⟩
      rw [List.mem_singleton]
      exact fun heq => hnotFormat heq.symm
  refine ⟨⟨?_, fun _ _ _ => hkept⟩, by simp, fun _ => hkept⟩
  exact fun e he => h.acceptable.fine e (Directory.mem_remove.1 he).1

theorem lawful_open (h : Lawful .creating d)
    {name : Bytes} (hname : name = ownerLock ∨
      (name = formatName ∧ .text ownerLock ∈ d.names)) :
    Lawful .creating (d.create (.text name) (.file [])) := by
  obtain ⟨hnone, horder⟩ := h.creating rfl
  have hplain : (OsName.text name).isPayload = false := by
    rcases hname with rfl | ⟨rfl, -⟩ <;> decide
  have hnames : ∀ other ∈ d.names,
      other ∈ (d.create (.text name) (.file [])).names := by
    intro other hother
    obtain ⟨e, he, rfl⟩ := List.mem_map.1 hother
    exact List.mem_map_of_mem (Directory.mem_create_of_mem he)
  refine ⟨h.acceptable.create ?_ (by simp [hplain]), fun _ => ⟨?_, ?_⟩, by simp⟩
  · refine ⟨name, [], rfl, ?_, fun _ => List.nil_prefix⟩
    rcases hname with h | ⟨h, -⟩
    · exact Or.inl h
    · exact Or.inr (Or.inl h)
  · intro e he
    rcases Directory.mem_create he with he | ⟨rfl, -⟩
    · exact hnone e he
    · exact hplain
  · intro hformat
    obtain ⟨e, he, hen⟩ := List.mem_map.1 hformat
    rcases Directory.mem_create he with he | ⟨rfl, hnew⟩
    · apply hnames
      apply horder
      rw [← hen]
      exact List.mem_map_of_mem he
    · rcases hname with rfl | ⟨-, howner⟩
      · exact absurd hen (by decide)
      · exact hnames _ howner

theorem append_marker {content : Bytes} (h : content <+: marker) (count : Nat) :
    content ++ (marker.drop content.length).take count <+: marker := by
  obtain ⟨rest, hrest⟩ := h
  have hdrop : marker.drop content.length = rest := by
    rw [← hrest, List.drop_left]
  rw [hdrop]
  refine ⟨rest.drop count, ?_⟩
  rw [List.append_assoc, List.take_append_drop, hrest]

theorem lawful_writeMarker (h : Lawful .creating d) (count : Nat) :
    Lawful .creating (d.modify (.text formatName) (.appendMarker count)) := by
  obtain ⟨hnone, horder⟩ := h.creating rfl
  have hnone' : ∀ e ∈ (d.modify (.text formatName) (.appendMarker count)).entries,
      e.1.isPayload = false := by
    intro e he
    obtain ⟨old, hold, rfl⟩ := Directory.mem_modify.1 he
    split <;> exact hnone old hold
  refine ⟨⟨?_, ?_⟩, fun _ => ⟨hnone', by rwa [names_modify]⟩, by simp⟩
  · intro e he
    obtain ⟨old, hold, rfl⟩ := Directory.mem_modify.1 he
    obtain ⟨name, content, rfl, hknown, hformat⟩ := h.acceptable.fine old hold
    split
    case isTrue hname =>
      cases hname
      exact ⟨formatName, _, rfl, hknown,
        fun _ => append_marker (hformat rfl) count⟩
    case isFalse hname => exact ⟨name, content, rfl, hknown, hformat⟩
  · intro e he hpayload
    simp [hnone' e he] at hpayload

theorem Acceptable.idle (h : Acceptable d) : Lawful .idle d := ⟨h, by simp, by simp⟩

theorem lawful_relist {stage : Stage}
    (h : Lawful stage d) {order : List (OsName × PathKind)}
    (hperm : order.Perm d.entries) : Lawful stage (d.relist order hperm) := by
  have hnames : ∀ name, name ∈ (d.relist order hperm).names ↔ name ∈ d.names :=
    fun name => (hperm.map Prod.fst).mem_iff
  have hentries : ∀ e, e ∈ (d.relist order hperm).entries ↔ e ∈ d.entries :=
    fun e => hperm.mem_iff
  constructor
  · constructor
    · intro e he
      exact h.acceptable.fine e ((hentries e).1 he)
    · intro e he hpayload
      rw [hnames, hentries]
      exact h.acceptable.owned e ((hentries e).1 he) hpayload
  · intro hstage
    rw [hnames, hnames]
    exact ⟨fun e he => (h.creating hstage).1 e ((hentries e).1 he),
      (h.creating hstage).2⟩
  · intro hstage
    rw [hnames, hentries]
    exact h.live hstage

theorem lawful_created (h : Lawful .creating d)
    (hmarker : d.get? (.text formatName) = some (.file marker)) :
    Lawful .live d := by
  have hmem := Directory.get?_eq_some_iff.1 hmarker
  refine ⟨h.acceptable, by simp, fun _ => ⟨?_, hmem⟩⟩
  exact (h.creating rfl).2 (List.mem_map_of_mem hmem)

section Lives

variable {root : String} {name : OsName}

theorem removeFlat_of_acceptable {d : Directory OsName PathKind}
    (hname : name.isRun = true) (h : Acceptable d) (steps : Nat) :
    removeFlat root ⟨root, name, .directory, d⟩ steps =
      if steps ≤ d.names.length then
        (some ⟨root, name, .directory,
          d.remove ((removalOrder d.names).take steps)⟩, .interrupted)
      else (none, .removed) := by
  have hinspect : inspect root ⟨root, name, .directory, d⟩ = .ok d.names :=
    inspect_of_acceptable rfl hname rfl h
  simp only [removeFlat, hinspect]

def LawfulLife : Option (Stage × Directory OsName PathKind) → Prop
  | none => True
  | some (stage, d) => Lawful stage d

theorem lifeStep_lawful (hname : name.isRun = true)
    {s : Option (Stage × Directory OsName PathKind)} (h : LawfulLife s)
    (e : LifeEvent) : LawfulLife (lifeStep root name s e) := by
  unfold lifeStep
  split
  · exact ⟨⟨by simp [Directory.empty], by simp [Directory.empty]⟩,
      by simp [Directory.empty, Directory.names], by simp⟩
  · exact lawful_open h (Or.inl rfl)
  · split
    case isTrue howner => exact lawful_open h (Or.inr ⟨rfl, howner⟩)
    case isFalse howner => exact h
  · exact lawful_writeMarker h _
  · split
    case isTrue hmarker => exact lawful_created h hmarker
    case isFalse hmarker => exact h
  · exact lawful_write h _ _ _
  · exact lawful_evict h _ _
  · exact (Lawful.acceptable h).idle
  · split
    case isTrue hperm => exact lawful_relist h hperm
    case isFalse hperm => exact h
  · rw [removeFlat_of_acceptable hname (Lawful.acceptable h)]
    split
    · exact ((Lawful.acceptable h).interrupted _).idle
    · trivial
  · exact h

theorem life_lawful (root : String) (hname : name.isRun = true)
    (es : List LifeEvent) : LawfulLife (life root name es) := by
  have hrun : ∀ s, LawfulLife s →
      LawfulLife (es.foldl (lifeStep root name) s) := by
    induction es with
    | nil => exact fun s h => h
    | cons e es ih => exact fun s h => ih _ (lifeStep_lawful hname h e)
  exact hrun none trivial

/-- Whatever a run directory has been through, inspection accepts it and an
uninterrupted recovery removes it; a directory with anything foreign in it,
or with payload beside an incomplete marker, keeps all its files in every
cleanup. -/
theorem recovery_safe (root : String) :
    (∀ random es stage d, life root (newRunName random) es = some (stage, d) →
      inspect root ⟨root, newRunName random, .directory, d⟩ = .ok d.names ∧
      recoverRun root ⟨root, newRunName random, .directory, d⟩ false
        (d.names.length + 1) = (none, .removed)) ∧
    ∀ run : RunDir, Foreign run.contents →
      (∀ steps, (removeFlat root run steps).1 = some run) ∧
      ∀ held runs steps recovered warnings, run ∈ runs →
        run ∈ (recover root held runs steps recovered warnings).runs := by
  constructor
  · intro random es stage d hlife
    have hname := newRunName_isRun random
    have hlawful := life_lawful root hname es
    rw [hlife] at hlawful
    have haccept := Lawful.acceptable hlawful
    have hinspect : inspect root ⟨root, newRunName random, .directory, d⟩ =
        .ok d.names :=
      inspect_of_acceptable rfl hname rfl haccept
    refine ⟨hinspect, ?_⟩
    unfold recoverRun
    rw [hinspect, removeFlat_of_acceptable hname haccept]
    simp
  · intro run hforeign
    refine ⟨removeFlat_of_foreign hforeign, ?_⟩
    intro held runs steps recovered warnings hmem
    exact recover_keeps_foreign hforeign hmem steps recovered warnings

def notesRun : RunDir :=
  ⟨"cache", newRunName fun _ => 0, .directory,
    Directory.empty.create (.text (ascii "notes.txt")) (.file [])⟩

def markerCrash : List LifeEvent :=
  [.createDir, .openOwner, .openFormat, .writeMarker 3, .crash]

theorem recovery_safe_sample :
    (∃ d, life "cache" (newRunName fun _ => 0) markerCrash = some (.idle, d) ∧
      inspect "cache" ⟨"cache", newRunName fun _ => 0, .directory, d⟩ = .ok d.names) ∧
    (removeFlat "cache" notesRun 1).1 = some notesRun := by
  have hforeign : Foreign notesRun.contents := by
    refine Or.inl ⟨(.text (ascii "notes.txt"), .file []), by decide, ?_⟩
    rintro ⟨name, content, heq, hname, -⟩
    cases heq
    revert hname
    decide
  obtain ⟨hlife, hkeep⟩ := recovery_safe "cache"
  exact ⟨⟨_, rfl, (hlife _ markerCrash _ _ rfl).1⟩, (hkeep notesRun hforeign).1 1⟩

end Lives

end ProxyLane.Cache
