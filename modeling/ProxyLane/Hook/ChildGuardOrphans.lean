import ProxyLane.Hook.ChildGuard

/-!
# Terminations by the watchdog

A terminated process is recorded until it has ended, so that it is terminated
at most once.  So is a released child, provided that its record is not made
while a scan holds a list of processes older than the child: the scan prunes
by that list.
-/

namespace ProxyLane.Hook

open ProxyLane.Foundation

namespace ChildGuard

variable {s : State} {scan : Scan} {next : Table SuspendedChildObservation}
  {rest : List ProcessSnapshot} {child : ProcessSnapshot}

def killed (s : State) : List Lifetime := s.kills.map Kill.lifetime

def subject? : Point → Option ProcessSnapshot
  | .examine => none
  | .guarded child => some child
  | .recheck child => some child
  | .again child _ => some child
  | .opening child _ => some child
  | .opened child _ => some child
  | .checked child _ _ _ => some child

def Existing (gone known : List Lifetime) (processes : Processes) : Prop :=
  ∀ it ∈ known, it ∈ gone ∨ lists processes it = true

def Recorded (gone known : List Lifetime) (records : Table Nat) : Prop :=
  ∀ it ∈ known, it ∈ gone ∨ records.get? it.1 = some it.2

def OncePhase (gone known : List Lifetime) (processed : Table Nat) :
    Phase → Prop
  | .idle => True
  | .queried _ earlier => Existing gone known earlier
  | .scanning scan _ _ point =>
    (∀ pid t, processed.get? pid = some t → lists scan.processes (pid, t) = true) ∧
    ∀ child, subject? point = some child → isRecorded processed child = false

structure Once (s : State) : Prop where
  existing : Existing s.departed (killed s) (processesOf s)
  recorded : Recorded s.departed (killed s) s.processed
  phase : OncePhase s.departed (killed s) s.processed s.phase
  nodup : (killed s).Nodup

variable {known gone gone' : List Lifetime}

theorem Existing.mono {processes : Processes}
    (hgone : gone ⊆ gone') (h : Existing gone known processes) :
    Existing gone' known processes :=
  fun it hit => (h it hit).imp_left fun hit => hgone hit

theorem Recorded.mono {records : Table Nat}
    (hgone : gone ⊆ gone') (h : Recorded gone known records) :
    Recorded gone' known records :=
  fun it hit => (h it hit).imp_left fun hit => hgone hit

theorem Recorded.prune {records : Table Nat} {processes : Processes}
    (h : Recorded gone known records) (hexisting : Existing gone known processes) :
    Recorded gone known (prune id processes records) := by
  intro it hit
  obtain hgone | hrecord := h it hit
  · exact Or.inl hgone
  · apply (hexisting it hit).imp_right
    intro hlisted
    exact prune_get?.2 ⟨hrecord, hlisted⟩

theorem existing_change {system : List SystemProcess}
    (h : Existing s.departed known (processesOf s)) :
    Existing (s.departed ++ (lifetimes (processesOf s)).filter
        fun it => !lists (queryChildGuardProcessSnapshot system) it)
      known (queryChildGuardProcessSnapshot system) := by
  intro it hit
  obtain hgone | hlisted := h it hit
  · exact Or.inl (List.mem_append_left _ hgone)
  · exact tracked_change (fun _ => Or.inr) it hlisted

variable {phase : Phase}

theorem OncePhase.mono {processed : Table Nat} (hgone : gone ⊆ gone')
    (h : OncePhase gone known processed phase) :
    OncePhase gone' known processed phase := by
  cases phase with
  | idle => trivial
  | queried marker processes => exact Existing.mono hgone h
  | scanning scan next rest point => exact h

theorem Once.moved (h : Once s)
    (hphase : OncePhase s.departed (killed s) s.processed phase) :
    Once { s with phase } :=
  ⟨h.existing, h.recorded, hphase, h.nodup⟩

theorem OncePhase.at {processed : Table Nat}
    {scan' : Scan} {next' : Table SuspendedChildObservation}
    {rest' : List ProcessSnapshot} {point point' : Point}
    (h : OncePhase gone known processed (.scanning scan next rest point))
    (hprocesses : scan'.processes = scan.processes)
    (hsubject : ∀ child, subject? point' = some child → subject? point = some child) :
    OncePhase gone known processed (.scanning scan' next' rest' point') :=
  ⟨fun pid t ht => hprocesses ▸ h.1 pid t ht,
    fun child hchild => h.2 child (hsubject child hchild)⟩

theorem isRecorded_iff {records : Table Nat} :
    isRecorded records child = true ↔
      records.get? (lifetimeOf child).1 = some (lifetimeOf child).2 := by
  simp [isRecorded, lifetimeOf]

theorem Once.kill (h : Once s) (hseen : Seen s) {recheck : Recheck}
    {registered released : Bool}
    (hphase : s.phase =
      .scanning scan next rest (.checked child recheck registered released)) :
    Once (advanceAt s scan next rest true
      (.checked child recheck registered released)) := by
  have hok := hseen.phase
  have honce := h.phase
  rw [hphase] at hok honce
  obtain ⟨hsuspect, -, hlisted, -⟩ := hok.2.2.2
  obtain ⟨hlists, hsubject⟩ := honce
  have hfresh := hsubject child rfl
  have hscan : lists scan.processes (lifetimeOf child) = true :=
    lists_iff.2 ⟨child, hsuspect.1.1, rfl⟩
  have hnotgone : lifetimeOf child ∉ s.departed := by
    intro hgone
    simp [hseen.apart _ hgone] at hlisted
  have hnew : lifetimeOf child ∉ killed s := by
    intro hkilled
    have hrecord := isRecorded_iff.2 ((h.recorded _ hkilled).resolve_left hnotgone)
    simp [hfresh] at hrecord
  constructor
  · intro it hit
    obtain rfl | hit := List.mem_cons.1 hit
    · exact Or.inr hlisted
    · exact h.existing it hit
  · intro it hit
    change it ∈ s.departed ∨
      (s.processed.insert child.processId child.createTime).get? it.1 = some it.2
    rw [Table.get?_insert]
    obtain rfl | hit := List.mem_cons.1 hit
    · exact Or.inr (if_pos rfl)
    · apply (h.recorded it hit).imp_right
      intro hrecord
      have hother : it.1 ≠ child.processId := by
        intro hpid
        have hit' := hlists it.1 it.2 hrecord
        rw [hpid] at hrecord hit'
        have htime : it.2 = child.createTime := lists_unique hit' hscan
        rw [htime] at hrecord
        have hrecorded : isRecorded s.processed child = true :=
          isRecorded_iff.2 hrecord
        simp [hfresh] at hrecorded
      rwa [if_neg hother]
  · refine ⟨?_, by simp [subject?]⟩
    intro pid t ht
    change (s.processed.insert child.processId child.createTime).get? pid =
      some t at ht
    rw [Table.get?_insert] at ht
    split at ht
    · rename_i hpid
      cases ht
      rw [hpid]
      exact hscan
    · exact hlists pid t ht
  · exact List.nodup_cons.2 ⟨hnew, h.nodup⟩

theorem Once.advanceAt (h : Once s) (hseen : Seen s) {point : Point}
    (answer : Bool) (hphase : s.phase = .scanning scan next rest point) :
    Once (advanceAt s scan next rest answer point) := by
  have hok := h.phase
  rw [hphase] at hok
  cases point with
  | examine =>
    cases rest with
    | nil => exact ⟨h.existing, h.recorded, trivial, h.nodup⟩
    | cons child rest =>
      simp only [ChildGuard.advanceAt]
      split
      · rename_i hfree
        simp only [Bool.and_eq_true, Bool.not_eq_true'] at hfree
        refine h.moved ⟨hok.1, ?_⟩
        rintro it ⟨⟩
        exact hfree.2
      · exact h.moved (hok.at rfl (by simp [subject?]))
  | guarded child =>
    simp only [ChildGuard.advanceAt]
    split
    · split
      · exact h.moved (hok.at rfl (by simp [subject?]))
      · exact h.moved (hok.at rfl fun _ => id)
    · exact h.moved (hok.at rfl (by simp [subject?]))
  | recheck child =>
    simp only [ChildGuard.advanceAt]
    split
    · exact h.moved (hok.at rfl fun _ => id)
    · exact h.moved (hok.at rfl (by simp [subject?]))
  | again child processes =>
    simp only [ChildGuard.advanceAt]
    split
    · exact h.moved (hok.at rfl fun _ => id)
    · exact h.moved (hok.at rfl (by simp [subject?]))
  | opening child recheck =>
    simp only [ChildGuard.advanceAt]
    split
    · exact h.moved (hok.at rfl fun _ => id)
    · exact h.moved (hok.at rfl (by simp [subject?]))
  | opened child recheck =>
    simp only [ChildGuard.advanceAt]
    split
    · exact h.moved (hok.at rfl (by simp [subject?]))
    · exact h.moved (hok.at rfl fun _ => id)
  | checked child recheck registered released =>
    cases answer with
    | true => exact h.kill hseen hphase
    | false => exact h.moved (hok.at rfl (by simp [subject?]))

theorem Once.step (h : Once s) (hseen : Seen s) (e : Event) :
    Once (step s e) := by
  cases e with
  | system system =>
    simp only [ChildGuard.step, changeSystem]
    split
    · have hgone := List.subset_append_left s.departed
        ((lifetimes (processesOf s)).filter
          fun it => !lists (queryChildGuardProcessSnapshot system) it)
      exact ⟨existing_change h.existing, h.recorded.mono hgone,
        h.phase.mono hgone, h.nodup⟩
    · exact h
  | registry records => exact ⟨h.existing, h.recorded, h.phase, h.nodup⟩
  | release child answered =>
    simp only [ChildGuard.step, registerReleasedChild]
    split
    · exact h
    · split
      · exact h
      · split
        · exact ⟨h.existing, h.recorded, h.phase, h.nodup⟩
        · exact h
  | record child =>
    simp only [ChildGuard.step, recordReleasedChild]
    split
    · exact ⟨h.existing, h.recorded, h.phase, h.nodup⟩
    · exact h
  | advance input =>
    simp only [ChildGuard.step, advance]
    split
    · split
      · split
        · exact h.moved h.existing
        · exact h
      · exact h
    · rename_i marker processes hphase
      have hok := h.phase
      rw [hphase] at hok
      refine ⟨h.existing, h.recorded.prune hok, ⟨?_, by simp [subject?]⟩, h.nodup⟩
      intro pid t ht
      exact (prune_get?.1 ht).2
    · rename_i hphase
      exact h.advanceAt hseen input.answer hphase

/-- A record is not made between the list of a scan and its pruning, unless the
list has the child. -/
def ListedIn (child : Lifetime) (gone : List Lifetime) : Phase → Prop
  | .queried _ processes => child ∈ gone ∨ lists processes child = true
  | _ => True

instance (child : Lifetime) (gone : List Lifetime) (phase : Phase) :
    Decidable (ListedIn child gone phase) :=
  match phase with
  | .queried _ processes => inferInstanceAs
      (Decidable (child ∈ gone ∨ lists processes child = true))
  | .idle | .scanning _ _ _ _ => inferInstanceAs (Decidable True)

def Replaces (child : Lifetime) (gone : List Lifetime) : Option Nat → Prop
  | some t => t = child.2 ∨ (child.1, t) ∈ gone
  | none => True

instance (child : Lifetime) (gone : List Lifetime) (record : Option Nat) :
    Decidable (Replaces child gone record) :=
  match record with
  | some t => inferInstanceAs (Decidable (t = child.2 ∨ (child.1, t) ∈ gone))
  | none => inferInstanceAs (Decidable True)

def Timely (s : State) : Event → Prop
  | .record child => ListedIn child s.departed s.phase ∧
      Replaces child s.departed (s.releasedChildren.get? child.1)
  | _ => True

instance (s : State) (e : Event) : Decidable (Timely s e) :=
  match e with
  | .record child => inferInstanceAs (Decidable
      (ListedIn child s.departed s.phase ∧
        Replaces child s.departed (s.releasedChildren.get? child.1)))
  | .system _ | .registry _ | .release _ _ | .advance _ =>
    inferInstanceAs (Decidable True)

def KeptPhase (gone known : List Lifetime) : Phase → Prop
  | .queried _ earlier => Existing gone known earlier
  | .scanning _ _ _ (.checked _ _ _ released) => released = false
  | _ => True

structure Kept (s : State) : Prop where
  releasing : Existing s.departed s.releasing (processesOf s)
  existing : Existing s.departed s.released (processesOf s)
  recorded : Recorded s.departed s.released s.releasedChildren
  phase : KeptPhase s.departed s.released s.phase
  kills : ∀ kill ∈ s.kills, kill.released = false

theorem Kept.moved (h : Kept s)
    (hphase : KeptPhase s.departed s.released phase) : Kept { s with phase } :=
  ⟨h.releasing, h.existing, h.recorded, hphase, h.kills⟩

theorem KeptPhase.mono (hgone : gone ⊆ gone') (h : KeptPhase gone known phase) :
    KeptPhase gone' known phase := by
  cases phase with
  | idle => trivial
  | queried marker processes => exact Existing.mono hgone h
  | scanning scan next rest point =>
    cases point with
    | checked child recheck registered released => exact h
    | _ => trivial

theorem Kept.record (h : Kept s) {child : Lifetime} (hchild : child ∈ s.releasing)
    (hok : Timely s (.record child)) : Kept (recordReleasedChild s child) := by
  obtain ⟨hlisted, hreplaces⟩ := hok
  simp only [recordReleasedChild, if_pos hchild]
  constructor
  · intro it hit
    exact h.releasing it (List.mem_of_mem_erase hit)
  · intro it hit
    obtain rfl | hit := List.mem_cons.1 hit
    · exact h.releasing it hchild
    · exact h.existing it hit
  · intro it hit
    simp only [Table.get?_insert]
    obtain rfl | hit := List.mem_cons.1 hit
    · exact Or.inr (if_pos rfl)
    · obtain hgone | hrecord := h.recorded it hit
      · exact Or.inl hgone
      · by_cases hpid : it.1 = child.1
        · rw [← hpid, hrecord] at hreplaces
          obtain htime | hgone := hreplaces
          · exact Or.inr (by simp [hpid, htime])
          · rw [← hpid] at hgone
            exact Or.inl hgone
        · rw [if_neg hpid]
          exact Or.inr hrecord
  · have hphase := h.phase
    revert hphase hlisted
    cases s.phase with
    | idle => intros; trivial
    | queried marker processes =>
      intro hlisted hphase it hit
      obtain rfl | hit := List.mem_cons.1 hit
      · exact hlisted
      · exact hphase it hit
    | scanning scan next rest point =>
      intro _ hphase
      cases point with
      | checked child recheck registered released => exact hphase
      | _ => trivial
  · exact h.kills

theorem Kept.advanceAt (h : Kept s) (hseen : Seen s) {point : Point}
    (answer : Bool) (hphase : s.phase = .scanning scan next rest point) :
    Kept (advanceAt s scan next rest answer point) := by
  cases point with
  | examine =>
    cases rest with
    | nil => exact ⟨h.releasing, h.existing, h.recorded, trivial, h.kills⟩
    | cons child rest =>
      simp only [ChildGuard.advanceAt]
      split <;> exact h.moved trivial
  | guarded child =>
    simp only [ChildGuard.advanceAt]
    split
    · split <;> exact h.moved trivial
    · exact h.moved trivial
  | recheck child =>
    simp only [ChildGuard.advanceAt]
    split <;> exact h.moved trivial
  | again child processes =>
    simp only [ChildGuard.advanceAt]
    split <;> exact h.moved trivial
  | opening child recheck =>
    simp only [ChildGuard.advanceAt]
    split <;> exact h.moved trivial
  | opened child recheck =>
    have hok := hseen.phase
    rw [hphase] at hok
    obtain ⟨-, -, hlisted⟩ := hok.2.2.2
    simp only [ChildGuard.advanceAt]
    split
    · exact h.moved trivial
    · rename_i hfree
      simp only [Bool.or_eq_true, not_or, Bool.not_eq_true] at hfree
      apply h.moved
      by_contra hreleased
      have hmem : lifetimeOf child ∈ s.released := by
        simpa [KeptPhase] using hreleased
      obtain hgone | hrecord := h.recorded _ hmem
      · simp [hseen.apart _ hgone] at hlisted
      · have hrecorded := isRecorded_iff.2 hrecord
        simp [hfree.2] at hrecorded
  | checked child recheck registered released =>
    have hok := h.phase
    rw [hphase] at hok
    simp only [ChildGuard.advanceAt]
    split
    · refine ⟨h.releasing, h.existing, h.recorded, trivial, ?_⟩
      intro kill hkill
      obtain rfl | hkill := List.mem_cons.1 hkill
      · exact hok
      · exact h.kills kill hkill
    · exact h.moved trivial

theorem Kept.release (h : Kept s) (child : Lifetime) (answered : Bool) :
    Kept (registerReleasedChild s child answered) := by
  unfold registerReleasedChild
  split
  · exact h
  · split
    · exact h
    · split
      · rename_i hstarted
        simp only [Bool.or_eq_true, List.contains_iff_mem] at hstarted
        refine ⟨?_, h.existing, h.recorded, h.phase, h.kills⟩
        intro it hit
        obtain rfl | hit := List.mem_cons.1 hit
        · exact hstarted.symm
        · exact h.releasing it hit
      · exact h

theorem Kept.step (h : Kept s) (hseen : Seen s) {e : Event}
    (hok : Timely s e) : Kept (step s e) := by
  cases e with
  | system system =>
    simp only [ChildGuard.step, changeSystem]
    split
    · have hgone := List.subset_append_left s.departed
        ((lifetimes (processesOf s)).filter
          fun it => !lists (queryChildGuardProcessSnapshot system) it)
      exact ⟨existing_change h.releasing, existing_change h.existing,
        h.recorded.mono hgone, h.phase.mono hgone, h.kills⟩
    · exact h
  | registry records =>
    exact ⟨h.releasing, h.existing, h.recorded, h.phase, h.kills⟩
  | release child answered => exact h.release child answered
  | record child =>
    by_cases hchild : child ∈ s.releasing
    · exact h.record hchild hok
    · simpa [ChildGuard.step, recordReleasedChild, hchild] using h
  | advance input =>
    simp only [ChildGuard.step, advance]
    split
    · split
      · split
        · exact h.moved h.existing
        · exact h
      · exact h
    · rename_i marker processes hphase
      have hkept := h.phase
      rw [hphase] at hkept
      exact ⟨h.releasing, h.existing, h.recorded.prune hkept, trivial, h.kills⟩
    · rename_i hphase
      exact h.advanceAt hseen input.answer hphase

theorem seen_start (system : List SystemProcess) : Seen (.start system) :=
  ⟨by simp [State.start], by simp [State.start], trivial, by simp [State.start]⟩

private theorem once_start (system : List SystemProcess) : Once (.start system) :=
  ⟨by simp [Existing, killed, State.start],
    by simp [Recorded, killed, State.start], trivial,
    by simp [killed, State.start]⟩

theorem kept_start (system : List SystemProcess) : Kept (.start system) :=
  ⟨by simp [Existing, State.start], by simp [Existing, State.start],
    by simp [Recorded, State.start], trivial, by simp [State.start]⟩

theorem seen_once_run (system : List SystemProcess) (events : List Event) :
    Seen (run step (.start system) events) ∧
      Once (run step (.start system) events) := by
  have hstep : ∀ s e, Seen s ∧ Once s → Seen (step s e) ∧ Once (step s e) := by
    rintro s e ⟨hseen, honce⟩
    exact ⟨hseen.step e, honce.step hseen e⟩
  exact run_induction hstep ⟨seen_start system, once_start system⟩ events

theorem kept_run {system : List SystemProcess} {events : List Event}
    (hok : Admissible step Timely (.start system) events) :
    Kept (run step (.start system) events) := by
  have hboth : Seen (run step (.start system) events) ∧
      Kept (run step (.start system) events) := by
    have hstep : ∀ s e, Seen s ∧ Kept s → Timely s e →
        Seen (step s e) ∧ Kept (step s e) := by
      rintro s e ⟨hseen, hkept⟩ htimely
      exact ⟨hseen.step e, hkept.step hseen htimely⟩
    exact run_invariant hstep ⟨seen_start system, kept_start system⟩ hok
  exact hboth.2

/-- Where no release is recorded while a scan has its list and has not pruned,
and none takes the place of another child's, the watchdog terminates orphans
only, none that has been released, and none twice. -/
theorem terminates_orphans_only {system : List SystemProcess}
    {events : List Event}
    (hok : Admissible step Timely (.start system) events) :
    (∀ kill ∈ (run step (.start system) events).kills,
      Orphan kill ∧ kill.released = false) ∧
    (killed (run step (.start system) events)).Nodup := by
  obtain ⟨hseen, honce⟩ := seen_once_run system events
  constructor
  · intro kill hkill
    exact ⟨hseen.kills kill hkill, (kept_run hok).kills kill hkill⟩
  · exact honce.nodup

def parentProcess : SystemProcess := ⟨9, 0, 60, 0, 0, [⟨12, 2, 0⟩]⟩

def childProcess (thread : SystemThread) : SystemProcess :=
  ⟨10, 9, 100, 0, 0, [thread]⟩

def suspendedChild : SystemProcess := childProcess ⟨11, 5, 5⟩

def onceMore : Event := .advance ⟨some ⟨[], 50⟩, 1000000000, true⟩

theorem terminates_orphans_only_second_scan :
    killed (run step (.start [suspendedChild]) (List.replicate 14 onceMore)) =
        [(10, 100)] ∧
      ∀ kill ∈ (run step (.start [suspendedChild])
        (List.replicate 14 onceMore)).kills, Orphan kill ∧ kill.released = false :=
  ⟨by decide, (terminates_orphans_only (by decide)).1⟩

/-- A scan has its list when a child is started, let run and released; the
record is pruned.  Suspended again after its parent has ended, the child is
terminated. -/
theorem released_child_terminated :
    let before : List Event :=
      [onceMore, .system [parentProcess, childProcess ⟨11, 2, 0⟩],
        .release (10, 100) true, .record (10, 100)]
    let events := before ++ List.replicate 3 onceMore ++
      .system [suspendedChild] :: List.replicate 14 onceMore
    (run step (.start [parentProcess]) before).releasedChildren.get? 10 =
        some 100 ∧
      (run step (.start [parentProcess]) before).kills.length = 0 ∧
      killed (run step (.start [parentProcess]) events) = [(10, 100)] ∧
      ((run step (.start [parentProcess]) events).kills.map Kill.released) =
        [true] := by
  decide

end ChildGuard

end ProxyLane.Hook
