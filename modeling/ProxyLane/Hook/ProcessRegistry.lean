import ProxyLane.Foundation.Run
import ProxyLane.Foundation.Table

/-!
# The process registry

Reports about hooked processes arrive on several pipe threads, late and out of
order across the reuse of a process identifier.  A record belongs to one
lifetime, that is, one identifier and one creation time.  `pruneExited` works
on a copy while other threads go on; each section under the lock is one step.
-/

namespace ProxyLane.Hook

open ProxyLane.Foundation

inductive ProcessHookState where
  | pending
  | succeeded
  | failed
  deriving DecidableEq, Repr

def maxPath : Nat := 260

/-- `szAppPath` holds the characters before the first NUL. -/
structure HookProcessIdentityInfo where
  dwProcessId : Nat
  processCreateTime : Nat
  szAppPath : List UInt16
  hookState : ProcessHookState
  hookError : Nat
  deriving DecidableEq, Repr

def HookProcessIdentityInfo.zero : HookProcessIdentityInfo :=
  ⟨0, 0, [], .pending, 0⟩

/-- `ProxyProcessIdentity::Snapshot`; the process list is not read here. -/
structure ProcessSnapshot where
  complete : Bool
  creationTimes : Table Nat

def ProcessSnapshot.hasExited (snapshot : ProcessSnapshot)
    (identity : HookProcessIdentityInfo) : Bool :=
  if !snapshot.complete || identity.dwProcessId == 0 ||
      identity.processCreateTime == 0 then false
  else
    match snapshot.creationTimes.get? identity.dwProcessId with
    | none => true
    | some time => time != 0 && time != identity.processCreateTime

namespace ProcessRegistry

abbrev Records := Table HookProcessIdentityInfo

/-- `operator []`: the record of an identifier, or a cleared one. -/
def entryOf (records : Records) (pid : Nat) : HookProcessIdentityInfo :=
  (records.get? pid).getD .zero

def lifetime (entry : HookProcessIdentityInfo) (pid creationTime : Nat) :
    HookProcessIdentityInfo :=
  if entry.processCreateTime ≠ creationTime then
    { HookProcessIdentityInfo.zero with
      dwProcessId := pid
      processCreateTime := creationTime }
  else entry

def withPath (entry : HookProcessIdentityInfo) (path : List UInt16) :
    HookProcessIdentityInfo :=
  { entry with szAppPath := path.take (maxPath - 1) }

def withResult (entry : HookProcessIdentityInfo) (error : Nat) :
    HookProcessIdentityInfo :=
  if entry.hookState = .succeeded then entry
  else
    { entry with
      hookState := if error ≠ 0 then .failed else .succeeded
      hookError := error }

/-- What `Register` and `Update` share: a report about an earlier lifetime is
refused. -/
def report (records : Records) (pid creationTime : Nat)
    (change : HookProcessIdentityInfo → HookProcessIdentityInfo) :
    Bool × Records :=
  if creationTime < (entryOf records pid).processCreateTime then (false, records)
  else
    (true, records.insert pid
      (change (lifetime (entryOf records pid) pid creationTime)))

def register (records : Records) (identity : Option HookProcessIdentityInfo) :
    Bool × Records :=
  match identity with
  | none => (false, records)
  | some identity =>
    if identity.dwProcessId = 0 ∨ identity.processCreateTime = 0 ∨
        identity.szAppPath = [] then (false, records)
    else
      report records identity.dwProcessId identity.processCreateTime
        (withPath · identity.szAppPath)

def update (records : Records) (pid creationTime error : Nat) :
    Bool × Records :=
  if pid = 0 ∨ creationTime = 0 then (false, records)
  else report records pid creationTime (withResult · error)

def get (records : Records) (pid creationTime : Nat) :
    Option HookProcessIdentityInfo :=
  if pid = 0 then none
  else
    (records.get? pid).filter fun it =>
      creationTime == 0 || it.processCreateTime == creationTime

def snapshotHooked (records : Records)
    (identities : Option (List HookProcessIdentityInfo)) (capacity : Nat) :
    Nat × Option (List HookProcessIdentityInfo) :=
  let hooked := records.values.filter (·.hookState == .succeeded)
  match identities with
  | none => (hooked.length, none)
  | some buffer =>
    if capacity < hooked.length then (hooked.length, some buffer)
    else (hooked.length, some (hooked ++ buffer.drop hooked.length))

/-- A call of `PruneExited`: what is left of its copy, and the answer of
`QuerySnapshot`. -/
structure Scan where
  records : List (Nat × HookProcessIdentityInfo)
  processes : Option ProcessSnapshot

structure State where
  processes : Records
  scans : Nat → Option Scan

def State.empty : State := ⟨.empty, fun _ => none⟩

inductive Event where
  | register (identity : Option HookProcessIdentityInfo)
  | update (pid creationTime error : Nat)
  | get (pid creationTime : Nat)
  | snapshotHooked (identities : Option (List HookProcessIdentityInfo))
      (capacity : Nat)
  | pruneCopy (thread : Nat)
  | pruneQuery (thread : Nat) (answer : Option ProcessSnapshot)
  | pruneNext (thread : Nat)

def setScan (s : State) (thread : Nat) (scan : Option Scan) : State :=
  { s with scans := fun t => if t = thread then scan else s.scans t }

def prune (records : Records) (processes : ProcessSnapshot)
    (it : Nat × HookProcessIdentityInfo) : Records :=
  if processes.hasExited it.2 then
    match records.get? it.1 with
    | none => records
    | some current =>
      if current.processCreateTime = it.2.processCreateTime then
        records.erase it.1
      else records
  else records

/-- Events of a thread that is elsewhere do nothing. -/
def step (s : State) : Event → State
  | .register identity =>
    { s with processes := (register s.processes identity).2 }
  | .update pid creationTime error =>
    { s with processes := (update s.processes pid creationTime error).2 }
  | .get _ _ => s
  | .snapshotHooked _ _ => s
  | .pruneCopy thread =>
    match s.scans thread with
    | some _ => s
    | none =>
      if s.processes.entries = [] then s
      else setScan s thread (some ⟨s.processes.entries, none⟩)
  | .pruneQuery thread answer =>
    match s.scans thread with
    | some ⟨records, none⟩ =>
      match answer with
      | none => setScan s thread none
      | some processes => setScan s thread (some ⟨records, some processes⟩)
    | _ => s
  | .pruneNext thread =>
    match s.scans thread with
    | some ⟨it :: rest, some processes⟩ =>
      { setScan s thread (some ⟨rest, some processes⟩) with
        processes := prune s.processes processes it }
    | some ⟨[], some _⟩ => setScan s thread none
    | _ => s

variable {records : Records} {s : State}

/-- A record that takes the place of another: a later lifetime, or the same
one with an installed hook kept. -/
def Follows (r r' : HookProcessIdentityInfo) : Prop :=
  r.processCreateTime < r'.processCreateTime ∨
    (r'.processCreateTime = r.processCreateTime ∧
      (r.hookState = .succeeded → r'.hookState = .succeeded))

theorem Follows.refl (r : HookProcessIdentityInfo) : Follows r r :=
  Or.inr ⟨rfl, id⟩

variable {r : HookProcessIdentityInfo}

theorem Follows.trans {r' r'' : HookProcessIdentityInfo} (h : Follows r r')
    (k : Follows r' r'') : Follows r r'' := by
  unfold Follows at *
  obtain h | ⟨h, hs⟩ := h
  · left
    obtain k | ⟨k, _⟩ := k <;> omega
  · obtain k | ⟨k, ks⟩ := k
    · left
      omega
    · exact Or.inr ⟨k.trans h, fun hr => ks (hs hr)⟩

structure Keeps (change : HookProcessIdentityInfo → HookProcessIdentityInfo) :
    Prop where
  pid : ∀ r, (change r).dwProcessId = r.dwProcessId
  time : ∀ r, (change r).processCreateTime = r.processCreateTime
  succeeded : ∀ r, r.hookState = .succeeded → (change r).hookState = .succeeded

theorem withPath_keeps (path : List UInt16) : Keeps (withPath · path) :=
  ⟨fun _ => rfl, fun _ => rfl, fun _ h => h⟩

theorem withResult_keeps (error : Nat) : Keeps (withResult · error) := by
  constructor
  · intro r
    simp only [withResult]
    split <;> rfl
  · intro r
    simp only [withResult]
    split <;> rfl
  · intro r h
    simp [withResult, h]

theorem report_get? (records : Records) (pid creationTime : Nat)
    (change : HookProcessIdentityInfo → HookProcessIdentityInfo) (k : Nat) :
    (report records pid creationTime change).2.get? k =
      if creationTime < (entryOf records pid).processCreateTime then
        records.get? k
      else if k = pid then
        some (change (lifetime (entryOf records pid) pid creationTime))
      else records.get? k := by
  unfold report
  split
  · rfl
  · simp only [Table.get?_insert]

variable {pid : Nat}

theorem report_follows {creationTime : Nat}
    {change : HookProcessIdentityInfo → HookProcessIdentityInfo} (hc : Keeps change)
    {k : Nat} (h : records.get? k = some r) :
    ∃ r', (report records pid creationTime change).2.get? k = some r' ∧
      Follows r r' := by
  rw [report_get?]
  split
  · exact ⟨r, h, Follows.refl r⟩
  · rename_i hold
    split
    · rename_i hk
      subst hk
      have hentry : entryOf records k = r := by simp [entryOf, h]
      rw [hentry] at hold ⊢
      refine ⟨_, rfl, ?_⟩
      unfold lifetime Follows
      rw [hc.time]
      split
      · left
        simp only
        omega
      · exact Or.inr ⟨rfl, hc.succeeded r⟩
    · exact ⟨r, h, Follows.refl r⟩

def Keyed (entries : List (Nat × HookProcessIdentityInfo)) : Prop :=
  ∀ e ∈ entries, e.2.dwProcessId = e.1

theorem keyed_get? (h : Keyed records.entries) {k : Nat}
    (hr : records.get? k = some r) :
    r.dwProcessId = k :=
  h (k, r) (Table.get?_eq_some_iff.1 hr)

theorem report_keyed {creationTime : Nat} (hpos : 0 < creationTime)
    {change : HookProcessIdentityInfo → HookProcessIdentityInfo}
    (hc : Keeps change) (h : Keyed records.entries) :
    Keyed (report records pid creationTime change).2.entries := by
  rintro ⟨k, r⟩ he
  have hr := Table.get?_eq_some_iff.2 he
  rw [report_get?] at hr
  split at hr
  · exact keyed_get? h hr
  · split at hr
    · rename_i hk
      cases hr
      rw [hc.pid]
      unfold lifetime
      split
      · exact hk.symm
      · rename_i hsame
        have htime : (entryOf records pid).processCreateTime = creationTime := by
          simpa using hsame
        cases hentry : records.get? pid with
        | none =>
          simp [entryOf, hentry, HookProcessIdentityInfo.zero] at htime
          omega
        | some old =>
          simp only [entryOf, hentry, Option.getD_some]
          rw [hk]
          exact keyed_get? h hentry
    · exact keyed_get? h hr

structure Sound (s : State) : Prop where
  records : Keyed s.processes.entries
  scans : ∀ thread scan, s.scans thread = some scan → Keyed scan.records

theorem setScan_sound {thread : Nat} {scan : Option Scan} (h : Sound s)
    (hscan : ∀ x, scan = some x → Keyed x.records) :
    Sound (setScan s thread scan) := by
  refine ⟨h.records, ?_⟩
  intro t x hx
  simp only [setScan] at hx
  split at hx
  · exact hscan x hx
  · exact h.scans t x hx

theorem prune_get? (records : Records) (processes : ProcessSnapshot)
    (it : Nat × HookProcessIdentityInfo) (k : Nat) :
    (prune records processes it).get? k = records.get? k ∨
      (k = it.1 ∧ (prune records processes it).get? k = none ∧
        processes.hasExited it.2 = true ∧
        ∃ current, records.get? k = some current ∧
          current.processCreateTime = it.2.processCreateTime) := by
  unfold prune
  split
  · rename_i hexited
    split
    · exact Or.inl rfl
    · rename_i current hcurrent
      split
      · rename_i hsame
        rw [Table.get?_erase]
        split
        · rename_i hk
          subst hk
          exact Or.inr ⟨rfl, rfl, hexited, current, hcurrent, hsame⟩
        · exact Or.inl rfl
      · exact Or.inl rfl
  · exact Or.inl rfl

theorem prune_keyed (processes : ProcessSnapshot)
    (it : Nat × HookProcessIdentityInfo) (h : Keyed records.entries) :
    Keyed (prune records processes it).entries := by
  rintro ⟨k, r⟩ he
  have hr := Table.get?_eq_some_iff.2 he
  obtain hsame | ⟨-, hnone, -⟩ := prune_get? records processes it k
  · rw [hsame] at hr
    exact keyed_get? h hr
  · simp [hnone] at hr

theorem step_sound (e : Event) (h : Sound s) : Sound (step s e) := by
  cases e with
  | register identity =>
    refine ⟨?_, h.scans⟩
    simp only [step, register]
    split
    · exact h.records
    · split
      · exact h.records
      · rename_i hvalid
        exact report_keyed (by omega) (withPath_keeps _) h.records
  | update pid creationTime error =>
    refine ⟨?_, h.scans⟩
    simp only [step, update]
    split
    · exact h.records
    · rename_i hvalid
      exact report_keyed (by omega) (withResult_keeps _) h.records
  | get pid creationTime => exact h
  | snapshotHooked identities capacity => exact h
  | pruneCopy thread =>
    simp only [step]
    split
    · exact h
    · split
      · exact h
      · apply setScan_sound h
        rintro x ⟨⟩
        exact h.records
  | pruneQuery thread answer =>
    simp only [step]
    split
    · rename_i copied hscan
      have hcopy := h.scans thread _ hscan
      cases answer with
      | none => exact setScan_sound h (by simp)
      | some processes =>
        apply setScan_sound h
        rintro x ⟨⟩
        exact hcopy
    · exact h
  | pruneNext thread =>
    simp only [step]
    split
    · rename_i it rest processes hscan
      have hcopy := h.scans thread _ hscan
      have hrest : Sound (setScan s thread (some ⟨rest, some processes⟩)) := by
        apply setScan_sound h
        rintro x ⟨⟩
        intro e he
        exact hcopy e (List.mem_cons_of_mem _ he)
      exact ⟨prune_keyed processes it h.records, hrest.scans⟩
    · exact setScan_sound h (by simp)
    · exact h

/-- The step takes the record away: a scan that has copied this lifetime, with
an answer that shows it as gone. -/
def Pruned (s : State) (e : Event) (r : HookProcessIdentityInfo) : Prop :=
  ∃ thread rest it processes, e = .pruneNext thread ∧
    s.scans thread = some ⟨it :: rest, some processes⟩ ∧
    it.2.dwProcessId = r.dwProcessId ∧
    it.2.processCreateTime = r.processCreateTime ∧
    processes.complete = true ∧ processes.hasExited r = true

theorem hasExited_congr {processes : ProcessSnapshot}
    {r' : HookProcessIdentityInfo} (hp : r.dwProcessId = r'.dwProcessId)
    (ht : r.processCreateTime = r'.processCreateTime) :
    processes.hasExited r = processes.hasExited r' := by
  simp [ProcessSnapshot.hasExited, hp, ht]

theorem complete_of_hasExited {processes : ProcessSnapshot}
    (h : processes.hasExited r = true) :
    processes.complete = true := by
  by_contra hn
  simp [ProcessSnapshot.hasExited, hn] at h

theorem step_record (e : Event) (hs : Sound s) (h : s.processes.get? pid = some r) :
    (∃ r', (step s e).processes.get? pid = some r' ∧ Follows r r') ∨
      ((step s e).processes.get? pid = none ∧ Pruned s e r) := by
  have same : ∀ t : State, t.processes = s.processes →
      ∃ r', t.processes.get? pid = some r' ∧ Follows r r' := by
    intro t ht
    rw [ht]
    exact ⟨r, h, Follows.refl r⟩
  cases e with
  | register identity =>
    left
    simp only [step, register]
    split
    · exact same _ rfl
    · split
      · exact same _ rfl
      · exact report_follows (withPath_keeps _) h
  | update k creationTime error =>
    left
    simp only [step, update]
    split
    · exact same _ rfl
    · exact report_follows (withResult_keeps _) h
  | get k creationTime => exact Or.inl (same _ rfl)
  | snapshotHooked identities capacity => exact Or.inl (same _ rfl)
  | pruneCopy thread =>
    left
    apply same
    simp only [step]
    split
    · rfl
    · split <;> rfl
  | pruneQuery thread answer =>
    left
    apply same
    simp only [step]
    split
    · cases answer <;> rfl
    · rfl
  | pruneNext thread =>
    simp only [step]
    split
    · rename_i it rest processes hscan
      obtain hsame | ⟨hk, hnone, hexited, current, hcurrent, htime⟩ :=
        prune_get? s.processes processes it pid
      · left
        simp only [hsame]
        exact ⟨r, h, Follows.refl r⟩
      · right
        rw [h, Option.some.injEq] at hcurrent
        subst hcurrent
        have hcopy := hs.scans thread _ hscan it List.mem_cons_self
        have hpid : it.2.dwProcessId = r.dwProcessId := by
          rw [hcopy, ← hk, keyed_get? hs.records h]
        have hgone : processes.hasExited r = true := by
          rw [hasExited_congr hpid.symm htime]
          exact hexited
        exact ⟨hnone, thread, rest, it, processes, rfl, hscan, hpid, htime.symm,
          complete_of_hasExited hgone, hgone⟩
    · exact Or.inl (same _ rfl)
    · exact Or.inl (same _ rfl)

theorem run_sound (events : List Event) (h : Sound s) :
    Sound (run step s events) :=
  run_induction (fun _ e hs => step_sound e hs) h events

theorem empty_sound : Sound .empty :=
  ⟨by simp [Keyed, State.empty, Table.empty], by simp [State.empty]⟩

def Stays (pid : Nat) : State → List Event → Prop
  | s, [] => s.processes.get? pid ≠ none
  | s, e :: es => s.processes.get? pid ≠ none ∧ Stays pid (step s e) es

theorem stays_follows (events : List Event) :
    ∀ {s : State} {r r' : HookProcessIdentityInfo}, Sound s →
      Stays pid s events → s.processes.get? pid = some r →
      (run step s events).processes.get? pid = some r' → Follows r r' := by
  induction events with
  | nil =>
    intro s r r' _ _ hr hr'
    rw [run_nil, hr, Option.some.injEq] at hr'
    rw [hr']
    exact Follows.refl r'
  | cons e es ih =>
    intro s r r' hs hstay hr hr'
    obtain ⟨mid, hmid, hfollows⟩ | ⟨hnone, -⟩ := step_record e hs hr
    · exact hfollows.trans (ih (step_sound e hs) hstay.2 hmid hr')
    · have hin : (step s e).processes.get? pid ≠ none := by
        cases es with
        | nil => exact hstay.2
        | cons e' es' => exact hstay.2.1
      exact absurd hnone hin

theorem lifetime_time (r : HookProcessIdentityInfo) (pid creationTime : Nat) :
    (lifetime r pid creationTime).processCreateTime = creationTime := by
  unfold lifetime
  split
  · rfl
  · rename_i h
    simpa using h

private theorem lifetime_same (pid : Nat) {time : Nat}
    (h : r.processCreateTime = time) : lifetime r pid time = r := by
  simp [lifetime, h]

theorem report_report {creationTime : Nat}
    {f g : HookProcessIdentityInfo → HookProcessIdentityInfo} (hf : Keeps f) :
    (report (report records pid creationTime f).2 pid creationTime g).2 =
      (report records pid creationTime (g ∘ f)).2 := by
  by_cases hold : creationTime < (entryOf records pid).processCreateTime
  · simp [report, hold]
  · have htime : (f (lifetime (entryOf records pid) pid
        creationTime)).processCreateTime = creationTime := by
      rw [hf.time, lifetime_time]
    have hentry : entryOf (records.insert pid
        (f (lifetime (entryOf records pid) pid creationTime))) pid =
        f (lifetime (entryOf records pid) pid creationTime) := by
      simp [entryOf, Table.get?_insert]
    simp [report, hold, hentry, htime, lifetime_same]

theorem withPath_withResult (r : HookProcessIdentityInfo) (path : List UInt16)
    (error : Nat) :
    withResult (withPath r path) error = withPath (withResult r error) path := by
  by_cases h : r.hookState = .succeeded <;> simp [withPath, withResult, h]

theorem register_update_comm (records : Records)
    (identity : HookProcessIdentityInfo) (error : Nat) :
    (update (register records (some identity)).2 identity.dwProcessId
        identity.processCreateTime error).2 =
      (register (update records identity.dwProcessId identity.processCreateTime
        error).2 (some identity)).2 := by
  by_cases hid : identity.dwProcessId = 0 ∨ identity.processCreateTime = 0
  · have hreg : identity.dwProcessId = 0 ∨ identity.processCreateTime = 0 ∨
        identity.szAppPath = [] := by tauto
    simp only [register, update, if_pos hid, if_pos hreg]
  · by_cases hpath : identity.szAppPath = []
    · have hreg : identity.dwProcessId = 0 ∨ identity.processCreateTime = 0 ∨
          identity.szAppPath = [] := by tauto
      simp only [register, if_pos hreg]
    · have hreg : ¬(identity.dwProcessId = 0 ∨ identity.processCreateTime = 0 ∨
          identity.szAppPath = []) := by tauto
      simp only [register, update, if_neg hid, if_neg hreg]
      rw [report_report (withPath_keeps _), report_report (withResult_keeps _)]
      congr 2
      funext r
      exact withPath_withResult r _ error

/-- A report that is taken is found again. -/
theorem get_register {identity : HookProcessIdentityInfo}
    (h : (register records (some identity)).1 = true) :
    get (register records (some identity)).2 identity.dwProcessId
      identity.processCreateTime = some (withPath (lifetime
        (entryOf records identity.dwProcessId) identity.dwProcessId
        identity.processCreateTime) identity.szAppPath) := by
  simp only [register] at h ⊢
  split at h
  · cases h
  next hvalid =>
    rw [if_neg hvalid]
    simp only [report] at h ⊢
    split at h
    · cases h
    next hlate =>
      have hpid : identity.dwProcessId ≠ 0 := fun h => hvalid (.inl h)
      rw [if_neg hlate, get, if_neg hpid, Table.get?_insert, if_pos rfl]
      simp only [withPath, lifetime, Option.filter_some]
      split <;> simp_all

/-- In every run: the creation time of an identifier that stays does not
decrease, and an installed hook of a lifetime stays; a report of a path and one
of a result commute; what leaves the registry is a record whose lifetime a
complete snapshot shows as gone; `snapshotHooked` writes nothing if its buffer is
too small, and else just the records with an installed hook. -/
theorem registry_lifetimes (events : List Event) :
    let s := run step .empty events
    (∀ (more : List Event) (pid : Nat) (r r' : HookProcessIdentityInfo),
      Stays pid s more → s.processes.get? pid = some r →
      (run step s more).processes.get? pid = some r' →
        r.processCreateTime ≤ r'.processCreateTime ∧
          (r'.processCreateTime = r.processCreateTime →
            r.hookState = .succeeded → r'.hookState = .succeeded)) ∧
      (∀ (identity : HookProcessIdentityInfo) (error : Nat),
        (update (register s.processes (some identity)).2 identity.dwProcessId
            identity.processCreateTime error).2 =
          (register (update s.processes identity.dwProcessId
            identity.processCreateTime error).2 (some identity)).2) ∧
      (∀ (e : Event) (pid : Nat) (r : HookProcessIdentityInfo),
        s.processes.get? pid = some r → (step s e).processes.get? pid = none →
          r.dwProcessId = pid ∧ Pruned s e r) ∧
      (∀ (buffer : List HookProcessIdentityInfo) (capacity : Nat),
        let hooked := s.processes.values.filter (·.hookState == .succeeded)
        (capacity < hooked.length →
          (snapshotHooked s.processes (some buffer) capacity).2 = some buffer) ∧
        (hooked.length ≤ capacity →
          (snapshotHooked s.processes (some buffer) capacity).2 =
            some (hooked ++ buffer.drop hooked.length))) := by
  intro s
  have hs : Sound s := run_sound events empty_sound
  refine ⟨?_, register_update_comm s.processes, ?_, ?_⟩
  · intro more pid r r' hstay hr hr'
    have hfollows := stays_follows more hs hstay hr hr'
    unfold Follows at hfollows
    refine ⟨by omega, fun htime hstate => ?_⟩
    obtain hlt | ⟨-, hkept⟩ := hfollows
    · omega
    · exact hkept hstate
  · intro e pid r hr hnone
    refine ⟨keyed_get? hs.records hr, ?_⟩
    obtain ⟨r', hr', -⟩ | ⟨-, hpruned⟩ := step_record e hs hr
    · simp [hr'] at hnone
    · exact hpruned
  · intro buffer capacity hooked
    refine ⟨fun hsmall => ?_, fun hroom => ?_⟩
    · rw [snapshotHooked, if_pos hsmall]
    · rw [snapshotHooked, if_neg (Nat.not_lt.2 hroom)]

def hookedProcess : HookProcessIdentityInfo :=
  ⟨7, 5, [97], .pending, 0⟩

example : get (run step .empty [.register (some hookedProcess),
    .update 7 5 0, .register (some { hookedProcess with processCreateTime := 4 }),
    .pruneCopy 0]).processes 7 5 =
      some { hookedProcess with hookState := .succeeded } := by decide

end ProcessRegistry

end ProxyLane.Hook
