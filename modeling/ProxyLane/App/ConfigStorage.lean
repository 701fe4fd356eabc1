import Mathlib.Data.List.Sublists
import ProxyLane.Foundation.Bytes
import ProxyLane.Foundation.Run

/-!
# Updates of the settings file

Several processes edit one settings file through `ConfigStorage::Update`.  Each
call copies the file under a unique name, edits the copy and puts it in the
place of the original, all under a named mutex; any step of the system can
fail, and a process can end between any two steps.
-/

namespace ProxyLane.App

open ProxyLane.Foundation

namespace ConfigStorage

/-- `CreateUnicodeFile`: a byte order mark. -/
def unicodeFile : Bytes := [0xff, 0xfe]

/-- What `Read` accepts. -/
def maxSize : Nat := 8 * 1024 * 1024

/-! ## Files -/

structure Files where
  path : Option Bytes
  readOnly : Bool
  staged : Nat → Option Bytes

def Files.stage (files : Files) (id : Nat) (content : Option Bytes) : Files :=
  { files with staged := Function.update files.staged id content }

@[simp] theorem Files.stage_path (files : Files) (id : Nat) (content : Option Bytes) :
    (files.stage id content).path = files.path := rfl

@[simp] theorem Files.stage_staged (files : Files) (id : Nat)
    (content : Option Bytes) : (files.stage id content).staged id = content := by
  simp [Files.stage]

/-! ## One call -/

/-- Where a call is that holds the lock; `found` is whether the file existed. -/
inductive Stage where
  | attributes
  | unique (found : Bool)
  | copy (found : Bool) (id : Nat)
  | edit (found : Bool) (id : Nat)
  | readStaged (found : Bool) (id : Nat)
  | readPath (id : Nat) (after : Bytes)
  | flush (found : Bool) (id : Nat)
  | replace (found : Bool) (id : Nat)
  | delete (id : Nat) (ok : Bool)
  deriving DecidableEq, Repr

/-- What the system answers to one step; `id` is a new name, and `left` what a
write that fails leaves behind. -/
structure Answer where
  ok : Bool
  id : Nat
  left : Option Bytes
  deriving DecidableEq, Repr

inductive Next where
  | go (stage : Stage)
  | ret (ok : Bool)
  deriving DecidableEq, Repr

/-- `CopyFile` and `CreateUnicodeFile` fail where the name is taken, `ReplaceFile`
without a file, and `MoveFileEx` with one. -/
def perform (edit : Bytes → Option Bytes) (files : Files) (answer : Answer) :
    Stage → Files × Next
  | .attributes =>
    if !answer.ok || (files.path.isSome && files.readOnly) then (files, .ret false)
    else (files, .go (.unique files.path.isSome))
  | .unique found =>
    if answer.ok then (files, .go (.copy found answer.id)) else (files, .ret false)
  | .copy found id =>
    match files.staged id with
    | some _ => (files, .go (.delete id false))
    | none =>
      match if found then files.path else some unicodeFile, answer.ok with
      | some bytes, true => (files.stage id (some bytes), .go (.edit found id))
      | _, _ => (files.stage id answer.left, .go (.delete id false))
  | .edit found id =>
    match (files.staged id).bind edit, answer.ok with
    | some bytes, true => (files.stage id (some bytes), .go (.readStaged found id))
    | _, _ => (files.stage id answer.left, .go (.delete id false))
  | .readStaged found id =>
    match files.staged id with
    | none => (files, .go (.delete id false))
    | some after =>
      if !answer.ok || maxSize < after.length then (files, .go (.delete id false))
      else if found then (files, .go (.readPath id after))
      else (files, .go (.flush found id))
  | .readPath id after =>
    match files.path with
    | none => (files, .go (.delete id false))
    | some before =>
      if !answer.ok || maxSize < before.length then (files, .go (.delete id false))
      else if before = after then (files, .go (.delete id true))
      else (files, .go (.flush true id))
  | .flush found id =>
    if answer.ok && (files.staged id).isSome then (files, .go (.replace found id))
    else (files, .go (.delete id false))
  | .replace found id =>
    match files.staged id with
    | none => (files, .go (.delete id false))
    | some bytes =>
      if answer.ok && found == files.path.isSome then
        ({ files.stage id none with path := some bytes }, .go (.delete id true))
      else (files, .go (.delete id false))
  | .delete id ok =>
    (if answer.ok then files.stage id none else files, .ret ok)

def cutOff (files : Files) (left : Option Bytes) : Stage → Files
  | .copy _ id => if files.staged id = none then files.stage id left else files
  | .edit _ id => files.stage id left
  | _ => files

/-! ## Several calls -/

inductive Phase where
  | idle
  | waiting
  | inside (stage : Stage)
  | returned (ok : Bool)
  | crashed
  deriving DecidableEq, Repr

/-- The files, the owner of the mutex and the calls.  The rest is history: the
calls in the order they took the lock, those whose replacement took place, and
for each call the file and the replacements when it took the lock, and the file
when it returned. -/
structure World where
  files : Files
  holder : Option Nat
  phase : Nat → Phase
  locked : List Nat
  replaced : List Nat
  base : Nat → Option Bytes
  before : Nat → List Nat
  final : Nat → Option Bytes

/-- A call is a number of its own; `crash` is also the end of its process. -/
inductive Event where
  | call (c : Nat)
  | step (c : Nat) (answer : Answer)
  | crash (c : Nat) (left : Option Bytes)
  deriving DecidableEq, Repr

def World.setPhase (w : World) (c : Nat) (phase : Phase) : World :=
  { w with phase := Function.update w.phase c phase }

def World.enter (w : World) (c : Nat) : World :=
  { w with
    holder := some c
    phase := Function.update w.phase c (.inside .attributes)
    locked := w.locked ++ [c]
    base := Function.update w.base c w.files.path
    before := Function.update w.before c w.replaced }

def tookPlace : Stage → Next → Bool
  | .replace _ _, .go (.delete _ true) => true
  | _, _ => false

def World.advance (w : World) (c : Nat) (stage : Stage) (files : Files) (next : Next) :
    World :=
  let replaced := if tookPlace stage next then w.replaced ++ [c] else w.replaced
  match next with
  | .go stage =>
    { w with
      files, replaced
      phase := Function.update w.phase c (.inside stage) }
  | .ret ok =>
    { w with
      files, replaced
      holder := none
      phase := Function.update w.phase c (.returned ok)
      final := Function.update w.final c files.path }

section Machine

variable (edit : Nat → Bytes → Option Bytes)

def step (w : World) : Event → World
  | .call c => if w.phase c = .idle then w.setPhase c .waiting else w
  | .step c answer =>
    match w.phase c with
    | .waiting =>
      if !answer.ok then w.setPhase c (.returned false)
      else if w.holder = none then w.enter c
      else w
    | .inside stage =>
      let (files, next) := perform (edit c) w.files answer stage
      w.advance c stage files next
    | _ => w
  | .crash c left =>
    match w.phase c with
    | .waiting => w.setPhase c .crashed
    | .inside stage =>
      { w.setPhase c .crashed with
        files := cutOff w.files left stage
        holder := none }
    | _ => w

end Machine

def start (files : Files) : World where
  files
  holder := none
  phase := fun _ => .idle
  locked := []
  replaced := []
  base := fun _ => none
  before := fun _ => []
  final := fun _ => none

def source (content : Option Bytes) : Bytes := content.getD unicodeFile

inductive Sequential (edit : Nat → Bytes → Option Bytes) (first : Option Bytes) :
    List Nat → Option Bytes → Prop where
  | nil : Sequential edit first [] first
  | snoc {calls : List Nat} {content : Option Bytes} {bytes : Bytes} (c : Nat)
      (done : Sequential edit first calls content)
      (edited : edit c (source content) = some bytes) :
      Sequential edit first (calls ++ [c]) (some bytes)

/-! ## What a call does while it holds the lock -/

/-- A call whose file was `base` when it took the lock. -/
def Working (edit : Bytes → Option Bytes) (files : Files) (base : Option Bytes) :
    Stage → Prop
  | .attributes => files.path = base
  | .unique found => files.path = base ∧ found = base.isSome
  | .copy found _ => files.path = base ∧ found = base.isSome
  | .edit found id =>
    files.path = base ∧ found = base.isSome ∧ files.staged id = some (source base)
  | .readStaged found id | .flush found id | .replace found id =>
    files.path = base ∧ found = base.isSome ∧
      ∃ bytes, files.staged id = some bytes ∧ edit (source base) = some bytes
  | .readPath id after =>
    files.path = base ∧ base.isSome = true ∧ files.staged id = some after ∧
      edit (source base) = some after
  | .delete _ true => ∃ bytes, edit (source base) = some bytes ∧ files.path = some bytes
  | .delete _ false => files.path = base

/-- How one step leaves the file of `base`. -/
structure Performed (edit : Bytes → Option Bytes) (base : Option Bytes) (files : Files)
    (stage : Stage) (files' : Files) (next : Next) : Prop where
  working : ∀ stage', next = .go stage' → Working edit files' base stage'
  accepted : next = .ret true →
    ∃ bytes, edit (source base) = some bytes ∧ files'.path = some bytes
  refused : next = .ret false → files'.path = base
  same : tookPlace stage next = false → files'.path = files.path
  replaced : tookPlace stage next = true → files.path = base
  unchanged : ∀ id, tookPlace stage next = false → next = .go (.delete id true) →
    files.path = base
  decided : next = .ret true → ∃ id, stage = .delete id true
  deleting : ∀ id ok, stage = .delete id ok → next = .ret ok

theorem perform_performed {edit : Bytes → Option Bytes} {base : Option Bytes}
    {files : Files} {answer : Answer} {stage : Stage}
    (h : Working edit files base stage) :
    Performed edit base files stage (perform edit files answer stage).1
      (perform edit files answer stage).2 := by
  cases stage with
  | attributes =>
    simp only [Working] at h
    subst h
    simp only [perform]
    split <;> constructor <;> simp [Working, tookPlace]
  | unique found =>
    obtain ⟨rfl, rfl⟩ := h
    simp only [perform]
    split <;> constructor <;> simp [Working, tookPlace]
  | copy found id =>
    obtain ⟨rfl, rfl⟩ := h
    have hsource : ∀ bytes, (if files.path.isSome = true then files.path
        else some unicodeFile) = some bytes → bytes = source files.path := by
      intro bytes hbytes
      cases hpath : files.path <;> simp_all [source]
    simp only [perform]
    split
    · constructor <;> simp [Working, tookPlace]
    · split
      · rename_i bytes hbytes _
        obtain rfl := hsource bytes hbytes
        constructor <;> simp [Working, tookPlace]
      · constructor <;> simp [Working, tookPlace]
  | edit found id =>
    obtain ⟨rfl, rfl, hstaged⟩ := h
    simp only [perform, hstaged, Option.bind_some]
    split
    · rename_i bytes hedit _
      constructor <;> simp [Working, tookPlace, hedit]
    · constructor <;> simp [Working, tookPlace]
  | readStaged found id =>
    obtain ⟨rfl, hfound, bytes, hstaged, hedit⟩ := h
    simp only [perform, hstaged]
    split
    · constructor <;> simp [Working, tookPlace]
    · split
      · rename_i htrue
        subst htrue
        constructor <;> simp [Working, tookPlace, ← hfound, hstaged, hedit]
      · constructor <;> simp [Working, tookPlace, ← hfound, hstaged, hedit]
  | readPath id after =>
    obtain ⟨rfl, hsome, hstaged, hedit⟩ := h
    obtain ⟨before, hbefore⟩ := Option.isSome_iff_exists.1 hsome
    simp only [perform, hbefore]
    split
    · constructor <;> simp [Working, tookPlace, hbefore]
    · split
      · rename_i heq
        subst heq
        rw [hbefore] at hedit
        constructor <;> simp [Working, tookPlace, hbefore, hedit]
      · rw [hbefore] at hedit
        constructor <;> simp [Working, tookPlace, hbefore, hstaged, hedit]
  | flush found id =>
    obtain ⟨rfl, hfound, bytes, hstaged, hedit⟩ := h
    simp only [perform]
    split <;> constructor <;> simp [Working, tookPlace, hstaged, hedit, hfound]
  | replace found id =>
    obtain ⟨rfl, hfound, bytes, hstaged, hedit⟩ := h
    simp only [perform, hstaged]
    split <;> constructor <;> simp [Working, tookPlace, hedit]
  | delete id ok =>
    have hpath : (if answer.ok = true then files.stage id none else files).path =
        files.path := by
      split <;> rfl
    cases ok with
    | true =>
      obtain ⟨bytes, hedit, hbytes⟩ := h
      simp only [perform]
      constructor <;> simp [tookPlace, hpath, hbytes, hedit]
    | false =>
      simp only [Working] at h
      simp only [perform]
      constructor <;> simp [tookPlace, hpath, h]

/-! ## Invariants of a run -/

def Settled (w : World) (c : Nat) : Stage → Prop
  | .delete _ true => w.replaced = w.before c ++ [c] ∨
      w.replaced = w.before c ∧ w.base c = w.files.path
  | _ => w.replaced = w.before c

structure Sound (edit : Nat → Bytes → Option Bytes) (first : Option Bytes)
    (w : World) : Prop where
  sequential : Sequential edit first w.replaced w.files.path
  sublist : w.replaced.Sublist w.locked
  nodup : w.locked.Nodup
  outside : ∀ c, w.phase c = .idle ∨ w.phase c = .waiting →
    c ∉ w.locked ∧ w.base c = none ∧ w.final c = none
  holder : ∀ c, w.holder = some c ↔ ∃ stage, w.phase c = .inside stage
  inside : ∀ c stage, w.phase c = .inside stage →
    c ∈ w.locked ∧ Working (edit c) w.files (w.base c) stage ∧ Settled w c stage
  last : ∀ c stage, w.phase c = .inside stage →
    ∃ earlier, w.locked = earlier ++ [c] ∧ (w.before c).Sublist earlier
  entered : ∀ c ∈ w.locked, w.before c <+: w.replaced ∧ c ∉ w.before c ∧
    Sequential edit first (w.before c) (w.base c)
  kept : ∀ c ∈ w.replaced, w.before c ++ [c] <+: w.replaced
  accepted : ∀ c, w.phase c = .returned true → c ∈ w.locked ∧
    ∃ bytes, edit c (source (w.base c)) = some bytes ∧ w.final c = some bytes ∧
      (c ∈ w.replaced ∨ w.base c = some bytes)
  refused : ∀ c, w.phase c = .returned false → c ∉ w.replaced ∧ w.final c = w.base c

section Sound

variable {edit : Nat → Bytes → Option Bytes} {first : Option Bytes} {w : World}

theorem Sound.only_holder (h : Sound edit first w) {c other : Nat} {stage : Stage}
    (hc : w.phase c = .inside stage) (hother : other ≠ c) :
    ∀ stage', w.phase other ≠ .inside stage' := by
  intro stage' hinside
  have hholder := (h.holder c).2 ⟨stage, hc⟩
  have hother' := (h.holder other).2 ⟨stage', hinside⟩
  rw [hholder] at hother'
  exact hother (Option.some.inj hother').symm

theorem Sound.setPhase (h : Sound edit first w) {c : Nat} {phase : Phase}
    (hc : w.phase c = .idle ∨ w.phase c = .waiting)
    (hphase : phase = .waiting ∨ phase = .returned false ∨ phase = .crashed) :
    Sound edit first (w.setPhase c phase) := by
  have hnot := h.outside c hc
  have hinside : ∀ other stage, (w.setPhase c phase).phase other = .inside stage ↔
      w.phase other = .inside stage := by
    intro other stage
    by_cases hother : other = c
    · subst hother
      simp only [World.setPhase, Function.update_self]
      constructor
      · rintro rfl
        simp at hphase
      · intro hstage
        rcases hc with hc | hc <;> rw [hc] at hstage <;> simp at hstage
    · simp [World.setPhase, hother]
  refine ⟨h.sequential, h.sublist, h.nodup, fun other hother => ?_, fun other => ?_,
    fun other stage hstage => h.inside other stage ((hinside other stage).1 hstage),
    fun other stage hstage => h.last other stage ((hinside other stage).1 hstage),
    h.entered, h.kept, fun other hother => ?_, fun other hother => ?_⟩
  · by_cases heq : other = c
    · subst heq
      exact hnot
    · simp only [World.setPhase, ne_eq, heq, not_false_eq_true,
        Function.update_of_ne] at hother
      exact h.outside other hother
  · simp only [hinside]
    exact h.holder other
  · by_cases heq : other = c
    · subst heq
      simp only [World.setPhase, Function.update_self] at hother
      subst hother
      simp at hphase
    · simp only [World.setPhase, ne_eq, heq, not_false_eq_true,
        Function.update_of_ne] at hother
      exact h.accepted other hother
  · by_cases heq : other = c
    · subst heq
      exact ⟨fun hmem => hnot.1 (h.sublist.subset hmem), by
        simp [World.setPhase, hnot.2.1, hnot.2.2]⟩
    · simp only [World.setPhase, ne_eq, heq, not_false_eq_true,
        Function.update_of_ne] at hother
      exact h.refused other hother

theorem Sound.enter (h : Sound edit first w) {c : Nat} (hc : w.phase c = .waiting)
    (hfree : w.holder = none) : Sound edit first (w.enter c) := by
  have hnot := (h.outside c (Or.inr hc)).1
  have hnone : ∀ other stage, w.phase other ≠ .inside stage := by
    intro other stage hstage
    have hholder := (h.holder other).2 ⟨stage, hstage⟩
    rw [hfree] at hholder
    simp at hholder
  have hphase : ∀ other, other ≠ c → (w.enter c).phase other = w.phase other := by
    intro other hother
    simp [World.enter, hother]
  have hbase : ∀ other ∈ w.locked, (w.enter c).base other = w.base other ∧
      (w.enter c).before other = w.before other := by
    intro other hother
    have hne : other ≠ c := fun heq => hnot (heq ▸ hother)
    simp [World.enter, hne]
  have hself : (w.enter c).phase c = .inside .attributes := by simp [World.enter]
  refine ⟨h.sequential, h.sublist.trans (List.sublist_append_left _ _), ?_,
    fun other hother => ?_, fun other => ?_, fun other stage hstage => ?_,
    fun other stage hstage => ?_, fun other hother => ?_, fun other hother => ?_,
    fun other hother => ?_, fun other hother => ?_⟩
  · simp only [World.enter]
    rw [List.nodup_append]
    refine ⟨h.nodup, by simp, ?_⟩
    rintro a ha b hb rfl
    simp only [List.mem_singleton] at hb
    exact hnot (hb ▸ ha)
  · by_cases heq : other = c
    · subst heq
      rw [hself] at hother
      simp at hother
    · rw [hphase other heq] at hother
      obtain ⟨hlocked, hbase, hfinal⟩ := h.outside other hother
      simp [World.enter, hlocked, heq, hbase, hfinal]
  · by_cases heq : other = c
    · subst heq
      simp [World.enter]
    · rw [hphase other heq]
      constructor
      · intro hholder
        simp only [World.enter, Option.some.injEq] at hholder
        exact absurd hholder.symm heq
      · rintro ⟨stage, hstage⟩
        exact absurd hstage (hnone other stage)
  · by_cases heq : other = c
    · subst heq
      rw [hself] at hstage
      obtain rfl := (Phase.inside.inj hstage).symm
      simp [World.enter, Working, Settled]
    · rw [hphase other heq] at hstage
      exact absurd hstage (hnone other stage)
  · by_cases heq : other = c
    · subst heq
      exact ⟨w.locked, rfl, by simpa [World.enter] using h.sublist⟩
    · rw [hphase other heq] at hstage
      exact absurd hstage (hnone other stage)
  · simp only [World.enter, List.mem_append, List.mem_singleton] at hother
    rcases hother with hother | rfl
    · rw [(hbase other hother).1, (hbase other hother).2]
      exact h.entered other hother
    · simp only [World.enter, Function.update_self]
      exact ⟨List.prefix_rfl, fun hmem => hnot (h.sublist.subset hmem), h.sequential⟩
  · rw [(hbase other (h.sublist.subset hother)).2]
    exact h.kept other hother
  · have heq : other ≠ c := by
      rintro rfl
      rw [hself] at hother
      simp at hother
    rw [hphase other heq] at hother
    obtain ⟨hlocked, hedit⟩ := h.accepted other hother
    rw [(hbase other hlocked).1]
    exact ⟨by simp [World.enter, hlocked], hedit⟩
  · have heq : other ≠ c := by
      rintro rfl
      rw [hself] at hother
      simp at hother
    rw [hphase other heq] at hother
    obtain ⟨hreplaced, hfinal⟩ := h.refused other hother
    exact ⟨hreplaced, by simpa [World.enter, heq] using hfinal⟩

theorem tookPlace_cases {stage : Stage} {next : Next} (h : tookPlace stage next = true) :
    (∃ found id, stage = .replace found id) ∧ ∃ id, next = .go (.delete id true) := by
  unfold tookPlace at h
  split at h
  · exact ⟨⟨_, _, rfl⟩, _, rfl⟩
  · simp at h

theorem Sound.advance_replaced (h : Sound edit first w) {c : Nat} {stage : Stage}
    {files : Files} {next : Next} (hc : w.phase c = .inside stage)
    (hp : Performed (edit c) (w.base c) w.files stage files next) :
    let w' := w.advance c stage files next
    Sequential edit first w'.replaced w'.files.path ∧ w'.replaced.Sublist w'.locked ∧
      (w.replaced <+: w'.replaced) ∧
      (∀ other ∈ w'.replaced, w.before other ++ [other] <+: w'.replaced) ∧
      (tookPlace stage next = true ∧ w'.replaced = w.before c ++ [c] ∨
        tookPlace stage next = false ∧ w'.replaced = w.replaced) := by
  obtain ⟨hlocked, hworking, hsettled⟩ := h.inside c stage hc
  have hreplaced : (w.advance c stage files next).replaced =
      if tookPlace stage next then w.replaced ++ [c] else w.replaced := by
    cases next <;> rfl
  have hfiles : (w.advance c stage files next).files = files := by
    cases next <;> rfl
  have hlocked' : (w.advance c stage files next).locked = w.locked := by
    cases next <;> rfl
  simp only [hreplaced, hfiles, hlocked']
  cases htook : tookPlace stage next with
  | false =>
    simp only [Bool.false_eq_true, if_false, false_and, true_and, false_or]
    rw [hp.same htook]
    exact ⟨h.sequential, h.sublist, List.prefix_rfl, h.kept, trivial⟩
  | true =>
    obtain ⟨⟨found, id, rfl⟩, id', rfl⟩ := tookPlace_cases htook
    have hsame : w.replaced = w.before c := hsettled
    obtain ⟨bytes, hedit, hpath⟩ := hp.working _ rfl
    have hsequential := h.sequential
    rw [hp.replaced htook] at hsequential
    simp only [if_true, true_and, hsame]
    refine ⟨?_, ?_, ⟨[c], rfl⟩, fun other hother => ?_, by simp⟩
    · rw [← hsame, hpath]
      exact .snoc c hsequential hedit
    · obtain ⟨earlier, hearlier, hbefore⟩ := h.last c _ hc
      rw [hearlier]
      exact hbefore.append (List.Sublist.refl [c])
    · simp only [List.mem_append, List.mem_singleton] at hother
      rcases hother with hother | rfl
      · exact (hsame ▸ h.kept other (hsame ▸ hother)).trans ⟨[c], rfl⟩
      · exact List.prefix_rfl

theorem settled_begun {c : Nat} {stage : Stage} (h : Settled w c stage)
    (hstage : ∀ id, stage ≠ .delete id true) : w.replaced = w.before c := by
  cases stage with
  | delete id ok =>
    cases ok with
    | true => exact absurd rfl (hstage id)
    | false => exact h
  | _ => exact h

theorem advance_settled {c : Nat} {stage stage' : Stage} {files : Files}
    (hp : Performed (edit c) (w.base c) w.files stage files (.go stage'))
    (hsettled : Settled w c stage) :
    Settled (w.advance c stage files (.go stage')) c stage' := by
  have hbegun : w.replaced = w.before c := by
    refine settled_begun hsettled fun id hid => ?_
    have := hp.deleting id true hid
    simp at this
  cases htook : tookPlace stage (.go stage') with
  | true =>
    obtain ⟨-, id, hid⟩ := tookPlace_cases htook
    obtain rfl := Next.go.inj hid
    exact Or.inl (by simp [World.advance, htook, hbegun])
  | false =>
    have hsame : (w.advance c stage files (.go stage')).replaced = w.before c := by
      simp [World.advance, htook, hbegun]
    cases stage' with
    | delete id ok =>
      cases ok with
      | true =>
        refine Or.inr ⟨hsame, ?_⟩
        simp [World.advance, hp.same htook, hp.unchanged id htook rfl]
      | false => exact hsame
    | _ => exact hsame

theorem Sound.advance (h : Sound edit first w) {c : Nat} {stage : Stage}
    {files : Files} {next : Next} (hc : w.phase c = .inside stage)
    (hp : Performed (edit c) (w.base c) w.files stage files next) :
    Sound edit first (w.advance c stage files next) := by
  obtain ⟨hlocked, hworking, hsettled⟩ := h.inside c stage hc
  obtain ⟨hsequential, hsublist, hprefix, hkept, hcase⟩ := h.advance_replaced hc hp
  have honly := fun other (hother : other ≠ c) => h.only_holder hc hother
  have hnot := (h.entered c hlocked).2.1
  have hentered : ∀ other ∈ w.locked,
      w.before other <+: (w.advance c stage files next).replaced ∧
        other ∉ w.before other ∧ Sequential edit first (w.before other) (w.base other) :=
    fun other hother => ⟨(h.entered other hother).1.trans hprefix,
      (h.entered other hother).2⟩
  have hreplacedMem : ∀ other, other ≠ c →
      (other ∈ (w.advance c stage files next).replaced ↔ other ∈ w.replaced) := by
    intro other hother
    rcases hcase with ⟨htook, heq⟩ | ⟨-, heq⟩
    · obtain ⟨⟨found, id, rfl⟩, -⟩ := tookPlace_cases htook
      have hsame : w.replaced = w.before c := hsettled
      rw [heq, hsame]
      simp [hother]
    · rw [heq]
  cases next with
  | go stage' =>
    have hphase : ∀ other, other ≠ c →
        (w.advance c stage files (.go stage')).phase other = w.phase other := by
      intro other hother
      simp [World.advance, hother]
    have hself : (w.advance c stage files (.go stage')).phase c = .inside stage' := by
      simp [World.advance]
    refine ⟨hsequential, hsublist, h.nodup, fun other hother => ?_, fun other => ?_,
      fun other stage'' hstage => ?_, fun other stage'' hstage => ?_, hentered, hkept,
      fun other hother => ?_, fun other hother => ?_⟩
    · have heq : other ≠ c := by
        rintro rfl
        rw [hself] at hother
        simp at hother
      exact h.outside other (hphase other heq ▸ hother)
    · by_cases heq : other = c
      · subst heq
        rw [hself]
        simpa [World.advance] using (h.holder other).2 ⟨stage, hc⟩
      · rw [hphase other heq]
        exact h.holder other
    · by_cases heq : other = c
      · subst heq
        rw [hself] at hstage
        obtain rfl := Phase.inside.inj hstage
        exact ⟨hlocked, hp.working _ rfl, advance_settled hp hsettled⟩
      · rw [hphase other heq] at hstage
        exact absurd hstage (honly other heq stage'')
    · by_cases heq : other = c
      · subst heq
        exact h.last other stage hc
      · rw [hphase other heq] at hstage
        exact absurd hstage (honly other heq stage'')
    · have heq : other ≠ c := by
        rintro rfl
        rw [hself] at hother
        simp at hother
      obtain ⟨hmem, bytes, hedit, hfinal, hor⟩ :=
        h.accepted other (hphase other heq ▸ hother)
      exact ⟨hmem, bytes, hedit, hfinal, hor.imp_left (hreplacedMem other heq).2⟩
    · have heq : other ≠ c := by
        rintro rfl
        rw [hself] at hother
        simp at hother
      obtain ⟨hmem, hfinal⟩ := h.refused other (hphase other heq ▸ hother)
      exact ⟨fun hin => hmem ((hreplacedMem other heq).1 hin), hfinal⟩
  | ret ok =>
    have hnone : tookPlace stage (.ret ok) = false := by
      cases stage <;> rfl
    have hsame := hp.same hnone
    have hreplaced : (w.advance c stage files (.ret ok)).replaced = w.replaced := by
      simp [World.advance, hnone]
    have hphase : ∀ other, other ≠ c →
        (w.advance c stage files (.ret ok)).phase other = w.phase other := by
      intro other hother
      simp [World.advance, hother]
    have hself : (w.advance c stage files (.ret ok)).phase c = .returned ok := by
      simp [World.advance]
    have hfinal : ∀ other, other ≠ c →
        (w.advance c stage files (.ret ok)).final other = w.final other := by
      intro other hother
      simp [World.advance, hother]
    have hnoneInside : ∀ other stage',
        (w.advance c stage files (.ret ok)).phase other ≠ .inside stage' := by
      intro other stage' hstage
      by_cases heq : other = c
      · subst heq
        rw [hself] at hstage
        simp at hstage
      · rw [hphase other heq] at hstage
        exact honly other heq stage' hstage
    refine ⟨hsequential, hsublist, h.nodup, fun other hother => ?_, fun other => ?_,
      fun other stage' hstage => absurd hstage (hnoneInside other stage'),
      fun other stage' hstage => absurd hstage (hnoneInside other stage'), hentered,
      hkept, fun other hother => ?_, fun other hother => ?_⟩
    · have heq : other ≠ c := by
        rintro rfl
        rw [hself] at hother
        simp at hother
      rw [hfinal other heq]
      exact h.outside other (hphase other heq ▸ hother)
    · constructor
      · intro hholder
        simp [World.advance] at hholder
      · rintro ⟨stage', hstage⟩
        exact absurd hstage (hnoneInside other stage')
    · by_cases heq : other = c
      · subst heq
        rw [hself] at hother
        obtain rfl := Phase.returned.inj hother
        obtain ⟨bytes, hedit, hpath⟩ := hp.accepted rfl
        obtain ⟨id, rfl⟩ := hp.decided rfl
        refine ⟨hlocked, bytes, hedit, by simp [World.advance, hpath], ?_⟩
        rw [hreplaced]
        rcases hsettled with hown | ⟨-, hbase⟩
        · exact Or.inl (by simp [hown])
        · exact Or.inr (by rw [← hpath, hsame]; exact hbase)
      · rw [hphase other heq] at hother
        rw [hfinal other heq, hreplaced]
        exact h.accepted other hother
    · by_cases heq : other = c
      · subst heq
        rw [hself] at hother
        obtain rfl := Phase.returned.inj hother
        refine ⟨?_, by simp [World.advance, hp.refused rfl]⟩
        rw [hreplaced, settled_begun hsettled fun id hid => ?_]
        · exact hnot
        · have := hp.deleting id true hid
          simp at this
      · rw [hphase other heq] at hother
        rw [hfinal other heq, hreplaced]
        exact h.refused other hother

private theorem cutOff_path (files : Files) (left : Option Bytes) (stage : Stage) :
    (cutOff files left stage).path = files.path := by
  cases stage with
  | copy found id =>
    simp only [cutOff]
    split <;> rfl
  | _ => rfl

theorem Sound.crash (h : Sound edit first w) {c : Nat} {stage : Stage}
    (left : Option Bytes) (hc : w.phase c = .inside stage) :
    Sound edit first { w.setPhase c .crashed with
      files := cutOff w.files left stage
      holder := none } := by
  have honly := fun other (hother : other ≠ c) => h.only_holder hc hother
  have hphase : ∀ other, other ≠ c → (w.setPhase c .crashed).phase other =
      w.phase other := by
    intro other hother
    simp [World.setPhase, hother]
  have hself : (w.setPhase c .crashed).phase c = .crashed := by
    simp [World.setPhase]
  have hnoneInside : ∀ other stage', (w.setPhase c .crashed).phase other ≠
      .inside stage' := by
    intro other stage' hstage
    by_cases heq : other = c
    · subst heq
      rw [hself] at hstage
      simp at hstage
    · rw [hphase other heq] at hstage
      exact honly other heq stage' hstage
  have hother : ∀ other phase, phase ≠ .crashed →
      (w.setPhase c .crashed).phase other = phase → w.phase other = phase := by
    intro other phase hne heq
    by_cases hcrash : other = c
    · subst hcrash
      rw [hself] at heq
      exact absurd heq.symm hne
    · rwa [hphase other hcrash] at heq
  refine ⟨?_, h.sublist, h.nodup, fun other hstart => ?_, fun other => ?_,
    fun other stage' hstage => absurd hstage (hnoneInside other stage'),
    fun other stage' hstage => absurd hstage (hnoneInside other stage'), h.entered,
    h.kept, fun other haccepted => h.accepted other (hother other _ (by simp) haccepted),
    fun other hrefused => h.refused other (hother other _ (by simp) hrefused)⟩
  · simp only [cutOff_path]
    exact h.sequential
  · exact h.outside other (hstart.imp (hother other _ (by simp))
      (hother other _ (by simp)))
  · constructor
    · intro hholder
      simp at hholder
    · rintro ⟨stage', hstage⟩
      exact absurd hstage (hnoneInside other stage')

theorem step_sound (w : World) (e : Event) (h : Sound edit first w) :
    Sound edit first (step edit w e) := by
  cases e with
  | call c =>
    simp only [step]
    split
    · rename_i hidle
      exact h.setPhase (Or.inl hidle) (Or.inl rfl)
    · exact h
  | step c answer =>
    simp only [step]
    split
    · rename_i hwaiting
      split
      · exact h.setPhase (Or.inr hwaiting) (Or.inr (Or.inl rfl))
      · split
        · rename_i hfree
          exact h.enter hwaiting hfree
        · exact h
    · rename_i stage hinside
      exact h.advance hinside (perform_performed (h.inside c stage hinside).2.1)
    · exact h
  | crash c left =>
    simp only [step]
    split
    · rename_i hwaiting
      exact h.setPhase (Or.inr hwaiting) (Or.inr (Or.inr rfl))
    · rename_i stage hinside
      exact h.crash left hinside
    · exact h

theorem start_sound (files : Files) : Sound edit files.path (start files) := by
  refine ⟨.nil, ?_, ?_, ?_, ?_, ?_, ?_, ?_, ?_, ?_, ?_⟩ <;> simp [start]

end Sound

/--
The file is the first one with the edits of the calls whose replacement took
place, in the order in which they had the lock; a call that is reported as done
has its edit in the file it leaves, made on the newest one; a call that is
reported as failed has left the file as it was.
-/
theorem update_atomic (edit : Nat → Bytes → Option Bytes) (files : Files)
    (events : List Event) :
    let w := run (step edit) (start files) events
    Sequential edit files.path w.replaced w.files.path ∧
      w.replaced.Sublist w.locked ∧ w.locked.Nodup ∧
      (∀ c ∈ w.locked, w.before c <+: w.replaced ∧
        Sequential edit files.path (w.before c) (w.base c)) ∧
      (∀ c ∈ w.replaced, w.before c ++ [c] <+: w.replaced) ∧
      (∀ c, w.phase c = .returned true → c ∈ w.locked ∧
        ∃ bytes, edit c (source (w.base c)) = some bytes ∧ w.final c = some bytes ∧
          (c ∈ w.replaced ∨ w.base c = some bytes)) ∧
      ∀ c, w.phase c = .returned false → c ∉ w.replaced ∧ w.final c = w.base c := by
  have h : Sound edit files.path (run (step edit) (start files) events) :=
    run_induction step_sound (start_sound files) events
  exact ⟨h.sequential, h.sublist, h.nodup,
    fun c hc => ⟨(h.entered c hc).1, (h.entered c hc).2.2⟩, h.kept, h.accepted,
    h.refused⟩

example :
    let edit : Nat → Bytes → Option Bytes := fun _ bytes => some (bytes ++ [1])
    let events := .call 7 :: List.replicate 9 (.step 7 ⟨true, 3, none⟩)
    (run (step edit) (start ⟨none, false, fun _ => none⟩) events).files.path =
      some [0xff, 0xfe, 1] := by
  decide

end ConfigStorage

end ProxyLane.App
