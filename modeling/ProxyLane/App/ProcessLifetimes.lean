import ProxyLane.App.Page3

/-!
# Actions and lifetimes

A row stands for the process of its snapshot, but the list hands its PID on to
the actions.  Between two snapshots the PID may go to another process.  The
termination and the browser actions check the lifetime on the handle they use;
the injection of the selected rows does not.
-/

namespace ProxyLane.App.Page3

open ProxyLane.Foundation ProcessActions BrowserLaunchWatch

/-! ## What the parts of a page say -/

structure Hit.Faithful (chose : List Lifetime) (h : Hit) : Prop where
  chosen : h.chosen ∈ chose
  pid : h.process.pid = h.chosen.pid
  process : h.chosen.time ≠ 0 → h.process = h.chosen

def Shows (data : Table ProcessInfo) (r : Row) : Prop :=
  ∃ info, data.get? r.pid = some info ∧ info.startTimeValue = r.startTime

/-- While a snapshot is installed, the rows before the index agree with it;
afterwards all rows do. -/
structure Synced (data pending : Table ProcessInfo) (rows : List Row)
    (applying : Bool) (index : Nat) : Prop where
  keyed : ∀ k info, data.get? k = some info → info.pid = k
  pending : applying = true →
    ∀ k info, pending.get? k = some info → data.get? k = some info
  installed : applying = true → ∀ r ∈ rows.take index, Shows data r
  complete : applying = false → ∀ r ∈ rows, Shows data r

def RowsChosen (chose : List Lifetime) (rows : List Row) : Prop :=
  ∀ r ∈ rows, ∀ c, r.selected = some c → c = r.lifetime ∧ c ∈ chose

structure Target.Held (chose : List Lifetime) (t : Target) : Prop where
  chosen : t.chosen ∈ chose
  handle : ∀ handle, t.handle = some handle → handle = t.chosen

structure Selection.Chosen (chose : List Lifetime) (i : Selection) : Prop where
  chosen : i.chosen ∈ chose
  pid : i.chosen.pid = i.pid
  expected : i.expectedCreationTime ≠ 0 → i.expectedCreationTime = i.chosen.time

structure SelectedProcessTarget.Shown (chose : List Lifetime) (rows : List Row)
    (t : SelectedProcessTarget) : Prop where
  chosen : t.chosen ∈ chose
  pid : t.chosen.pid = t.pid
  row : ∃ r ∈ rows, r.lifetime = t.chosen

def Box.Sound (chose : List Lifetime) : Box → Prop
  | .confirmEnd targets => ∀ t ∈ targets, t.Held chose
  | .confirmBrowser active => ∀ l ∈ active, l ∈ chose
  | _ => True

def Work.Sound (chose : List Lifetime) (rows : List Row) : Work → Prop
  | .idle => True
  | .opening rest targets =>
    (∀ i ∈ rest, i.Chosen chose) ∧ ∀ t ∈ targets, t.Held chose
  | .ending rest _ => ∀ t ∈ rest, t.Held chose
  | .injecting rest => ∀ t ∈ rest, t.Shown chose rows
  | .openingExact rest opened =>
    (∀ l ∈ rest, l ∈ chose) ∧ ∀ t ∈ opened, t.Held chose
  | .endingExact rest => ∀ t ∈ rest, t.Held chose
  | .hooking rest => ∀ l ∈ rest, l ∈ chose

structure Inv (s : Page) : Prop where
  synced : Synced s.processSortData s.pendingProcessRows s.displayedProcesses
    s.applyingProcesses s.processApplyIndex
  rows : RowsChosen s.chose s.displayedProcesses
  boxes : ∀ b ∈ s.boxes, b.Sound s.chose
  work : s.work.Sound s.chose s.displayedProcesses
  hits : ∀ h ∈ s.hits, h.Faithful s.chose

section Grow

variable {chose more : List Lifetime}

theorem Hit.Faithful.mono {h : Hit} (hh : h.Faithful chose) :
    h.Faithful (chose ++ more) :=
  ⟨List.mem_append_left _ hh.chosen, hh.pid, hh.process⟩

theorem Target.Held.mono {t : Target} (ht : t.Held chose) :
    t.Held (chose ++ more) :=
  ⟨List.mem_append_left _ ht.chosen, ht.handle⟩

theorem Box.Sound.mono {b : Box} (hb : b.Sound chose) :
    b.Sound (chose ++ more) := by
  cases b with
  | confirmEnd targets => exact fun t ht => (hb t ht).mono
  | confirmBrowser active => exact fun l hl => List.mem_append_left _ (hb l hl)
  | _ => trivial

end Grow

section Steps

variable {p : Platform} {s : Page}

theorem inv_initial (system : System) : Inv (initial system) where
  synced := by constructor <;> simp [initial]
  rows := by simp [initial, RowsChosen]
  boxes := by simp [initial]
  work := trivial
  hits := by simp [initial]

theorem inv_updatePslist (h : Inv s) : Inv (updatePslist s) := by
  unfold updatePslist
  split
  · exact h
  · exact ⟨h.synced, h.rows, h.boxes, h.work, h.hits⟩

@[simp] theorem work_updatePslist : (updatePslist s).work = s.work := by
  unfold updatePslist
  split <;> rfl

theorem inv_cancelProcessRefresh (h : Inv s) (hwork : s.work = .idle) :
    Inv (cancelProcessRefresh s) := by
  simp only [cancelProcessRefresh]
  split
  · exact ⟨by constructor <;> simp, by simp [RowsChosen], h.boxes,
      by simp [hwork, Work.Sound], h.hits⟩
  · rename_i happlying
    simp only [Bool.not_eq_true] at happlying
    refine ⟨⟨h.synced.keyed, ?_, ?_, h.synced.complete⟩, h.rows, h.boxes,
      h.work, h.hits⟩
    · simp [happlying]
    · simp [happlying]

theorem inv_cancelLaunchSelection (h : Inv s) : Inv (cancelLaunchSelection s) :=
  ⟨h.synced, h.rows, h.boxes, h.work, h.hits⟩

theorem setProcessesExpanded_true (p : Platform) (s : Page) :
    ∃ query text hooked, setProcessesExpanded p true s =
      { s with
        processesExpanded := true
        processQuery := query
        filterText := text
        filterHooked := hooked } := by
  simp only [setProcessesExpanded, updatePslist, if_true]
  split
  · exact ⟨_, _, _, rfl⟩
  · exact ⟨_, _, _, rfl⟩

theorem inv_setProcessesExpanded (expanded : Bool) (h : Inv s)
    (hwork : s.work = .idle) : Inv (setProcessesExpanded p expanded s) := by
  cases expanded with
  | true =>
    obtain ⟨query, text, hooked, heq⟩ := setProcessesExpanded_true p s
    rw [heq]
    exact ⟨h.synced, h.rows, h.boxes, h.work, h.hits⟩
  | false =>
    have hs : Inv { s with processesExpanded := false } :=
      ⟨h.synced, h.rows, h.boxes, h.work, h.hits⟩
    exact inv_cancelProcessRefresh (inv_cancelLaunchSelection hs) hwork

/-! ## Selecting -/

theorem Synced.map {data pending : Table ProcessInfo} {rows : List Row}
    {applying : Bool} {index : Nat} {f : Row → Row}
    (h : Synced data pending rows applying index)
    (hf : ∀ r, (f r).lifetime = r.lifetime) :
    Synced data pending (rows.map f) applying index := by
  have hshows : ∀ r, Shows data r → Shows data (f r) := by
    intro r hr
    have hlife := hf r
    simp only [Row.lifetime, Lifetime.mk.injEq] at hlife
    simpa only [Shows, hlife.1, hlife.2] using hr
  refine ⟨h.keyed, h.pending, ?_, ?_⟩
  · intro happlying r hr
    rw [← List.map_take, List.mem_map] at hr
    obtain ⟨r, hr, rfl⟩ := hr
    exact hshows r (h.installed happlying r hr)
  · intro happlying r hr
    obtain ⟨r', hr', rfl⟩ := List.mem_map.mp hr
    exact hshows r' (h.complete happlying r' hr')

theorem inv_select {rows : List Row} {choice : Row → Option Lifetime}
    {more : List Lifetime} (h : Inv s) (hwork : s.work = .idle)
    (hrows : rows = s.displayedProcesses.map fun r =>
      { r with selected := choice r })
    (hchoice : ∀ r ∈ s.displayedProcesses, ∀ c, choice r = some c →
      c = r.lifetime ∧ c ∈ s.chose ++ more) :
    Inv { s with
      displayedProcesses := rows
      chose := s.chose ++ more } where
  synced := hrows ▸ h.synced.map fun _ => rfl
  rows := by
    intro r hr c hc
    simp only [hrows, List.mem_map] at hr
    obtain ⟨r, hr, rfl⟩ := hr
    exact hchoice r hr c hc
  boxes := fun b hb => (h.boxes b hb).mono
  work := by simp [hwork, Work.Sound]
  hits := fun x hx => (h.hits x hx).mono

theorem selectProcessesByPid_frame (p : Platform) (pids : List Nat)
    (chosen : Row → Lifetime) (s : Page) :
    let s' := (selectProcessesByPid p pids chosen s).1
    s'.work = s.work ∧ s'.applyingProcesses = s.applyingProcesses ∧
      s'.processSortData = s.processSortData ∧
      s'.pendingFinder = s.pendingFinder := by
  obtain ⟨query, text, hooked, heq⟩ := setProcessesExpanded_true p s
  simp only [selectProcessesByPid, heq]
  split <;> split <;> simp

theorem inv_selectProcessesByPid {pids : List Nat} {chosen : Row → Lifetime}
    (h : Inv s) (hwork : s.work = .idle)
    (hchosen : ∀ r ∈ s.displayedProcesses, r.pid ∈ pids → chosen r = r.lifetime) :
    Inv (selectProcessesByPid p pids chosen s).1 := by
  have hopen : ∀ s : Page, Inv s → s.work = .idle →
      (∀ r ∈ s.displayedProcesses, r.pid ∈ pids → chosen r = r.lifetime) →
      Inv { s with
        displayedProcesses := s.displayedProcesses.map fun r =>
          { r with
            selected := if pids.contains r.pid then some (chosen r) else none }
        chose := s.chose ++ (s.displayedProcesses.filter fun r =>
          pids.contains r.pid).map chosen } := by
    intro s h hwork hchosen
    refine inv_select h hwork rfl ?_
    intro r hr c hc
    split at hc
    · rename_i hpid
      cases hc
      refine ⟨hchosen r hr (List.contains_iff_mem.mp hpid), ?_⟩
      exact List.mem_append_right _ (List.mem_map_of_mem
        (List.mem_filter.mpr ⟨hr, hpid⟩))
    · cases hc
  obtain ⟨query, text, hooked, heq⟩ := setProcessesExpanded_true p s
  have hs : Inv (setProcessesExpanded p true s) :=
    inv_setProcessesExpanded true h hwork
  have hsame : (setProcessesExpanded p true s).displayedProcesses =
      s.displayedProcesses := by rw [heq]
  have hidle : (setProcessesExpanded p true s).work = .idle := by
    rw [heq]
    exact hwork
  by_cases hexpanded : s.processesExpanded = true
  · simp only [selectProcessesByPid, if_pos hexpanded]
    split
    · exact h
    · exact hopen s h hwork hchosen
  · simp only [selectProcessesByPid, if_neg hexpanded]
    split
    · exact hs
    · exact hopen _ hs hidle (hsame ▸ hchosen)

theorem inv_clickRows {pids : List Nat} (h : Inv s) (hwork : s.work = .idle) :
    Inv (clickRows pids s) := by
  refine inv_select h hwork rfl ?_
  intro r hr c hc
  split at hc
  · rename_i hpid
    simp only [Option.some.injEq] at hc
    subst hc
    have hmore : r.lifetime ∈ (s.displayedProcesses.filter fun r =>
        pids.contains r.pid).map Row.lifetime :=
      List.mem_map_of_mem (List.mem_filter.mpr ⟨hr, hpid⟩)
    cases hselected : r.selected with
    | none => exact ⟨rfl, List.mem_append_right _ hmore⟩
    | some c =>
      obtain ⟨hlife, hchose⟩ := h.rows r hr c hselected
      exact ⟨hlife, List.mem_append_left _ hchose⟩
  · cases hc

theorem trySelectLaunchedProcess_frame (p : Platform) (s : Page) :
    (trySelectLaunchedProcess p s).work = s.work ∧
      (trySelectLaunchedProcess p s).applyingProcesses = s.applyingProcesses ∧
      (trySelectLaunchedProcess p s).processSortData = s.processSortData ∧
      (trySelectLaunchedProcess p s).pendingFinder = s.pendingFinder := by
  simp only [trySelectLaunchedProcess]
  split
  · simp [cancelLaunchSelection]
  split
  · simp
  split
  · exact selectProcessesByPid_frame p _ _ (cancelLaunchSelection s)
  · simp

theorem inv_trySelectLaunchedProcess (h : Inv s) (hwork : s.work = .idle) :
    Inv (trySelectLaunchedProcess p s) := by
  simp only [trySelectLaunchedProcess]
  split
  · exact inv_cancelLaunchSelection h
  split
  · exact h
  split
  · exact inv_selectProcessesByPid (inv_cancelLaunchSelection h) hwork
      fun _ _ _ => rfl
  · exact h

theorem inv_refreshLaunchedProcess {launched : Lifetime} (h : Inv s)
    (hwork : s.work = .idle) : Inv (refreshLaunchedProcess p launched s) := by
  simp only [refreshLaunchedProcess]
  split
  · exact inv_cancelLaunchSelection h
  split
  · exact inv_updatePslist (inv_cancelLaunchSelection h)
  · refine inv_trySelectLaunchedProcess (inv_updatePslist ?_) (by simpa)
    exact ⟨h.synced, h.rows, h.boxes, h.work, h.hits⟩

theorem inv_onBnClickedInjectdll {answer : InjectAnswer} (h : Inv s) :
    Inv (onBnClickedInjectdll answer s) := by
  simp only [onBnClickedInjectdll]
  split
  · exact h
  split
  · exact h
  · refine ⟨h.synced, h.rows, h.boxes, ?_, h.hits⟩
    intro t ht
    obtain ⟨r, hr, hselected⟩ := List.mem_filterMap.mp ht
    split at hselected
    · obtain ⟨c, hc, rfl⟩ := Option.map_eq_some_iff.mp hselected
      obtain ⟨rfl, hchose⟩ := h.rows r hr c hc
      exact ⟨hchose, rfl, r, hr, rfl⟩
    · cases hselected

theorem inv_onBnClickedTerminateProcess (h : Inv s) :
    Inv (onBnClickedTerminateProcess s) := by
  simp only [onBnClickedTerminateProcess]
  split
  · exact h
  · rename_i hbusy
    simp only [Bool.or_eq_true, not_or, Bool.not_eq_true] at hbusy
    refine ⟨h.synced, h.rows, h.boxes, ⟨?_, by simp⟩, h.hits⟩
    intro i hi
    obtain ⟨r, hr, hi⟩ := List.mem_filterMap.mp hi
    simp only [cancelLaunchSelection] at hr hi
    cases hselected : r.selected with
    | none => simp [hselected] at hi
    | some c =>
      obtain ⟨rfl, hchose⟩ := h.rows r hr c hselected
      obtain ⟨info, hinfo, htime⟩ := h.synced.complete hbusy.2 r hr
      simp only [hselected, hinfo, Option.some.injEq] at hi
      subst hi
      refine ⟨hchose, rfl, ?_⟩
      simp only [Row.lifetime, ← htime]
      split
      · exact fun _ => rfl
      · exact fun h => absurd rfl h

theorem inv_finishWindowFinder {expected : Lifetime} {window : Option Nat}
    {answer : InjectAnswer} (h : Inv s) (hwork : s.work = .idle)
    (happlying : s.applyingProcesses = false) :
    Inv (finishWindowFinder p expected window answer s) := by
  unfold finishWindowFinder
  split
  · exact h
  split
  · exact h
  rename_i processId _ _ identity hidentity
  split
  · exact h
  rename_i hsame
  simp only [ne_eq, not_or, not_not] at hsame
  have hselect : Inv (selectProcessesByPid p [processId]
      (fun _ => expected) s).1 := by
    refine inv_selectProcessesByPid h hwork ?_
    intro r hr hpid
    obtain ⟨info, hinfo, htime⟩ := h.synced.complete happlying r hr
    simp only [List.mem_singleton] at hpid
    rw [hpid, hidentity, Option.some.injEq] at hinfo
    rw [← hinfo] at htime
    simp only [Row.lifetime, hpid, ← htime, hsame.1, hsame.2]
  dsimp only
  split
  · exact hselect
  split
  · exact inv_onBnClickedInjectdll hselect
  · refine ⟨hselect.synced, hselect.rows, ?_, hselect.work, hselect.hits⟩
    intro b hb
    rcases List.mem_cons.mp hb with rfl | hb
    · trivial
    · exact hselect.boxes b hb

/-! ## Installing -/

theorem inv_applyRow {refused : List Nat} {s' : Page} (h : Inv s)
    (happlying : s.applyingProcesses = true) (hwork : s.work = .idle)
    (hstep : applyRow refused s = some s') :
    Inv s' ∧ s'.applyingProcesses = true ∧ s'.work = .idle := by
  have hsound : ∀ rows, s.work.Sound s.chose rows := by
    simp [hwork, Work.Sound]
  -- A row that the snapshot does not have goes, the ones before it stay.
  have hdelete : Inv { s with
      displayedProcesses :=
        s.displayedProcesses.eraseIdx s.processApplyIndex } := by
    refine ⟨⟨h.synced.keyed, h.synced.pending, ?_, ?_⟩, ?_, h.boxes, hsound _, h.hits⟩
    · intro _ r hr
      rw [List.take_eraseIdx_eq_take_of_le _ _ _ (Nat.le_refl _)] at hr
      exact h.synced.installed happlying r hr
    · simp [happlying]
    · exact fun r hr => h.rows r (List.mem_of_mem_eraseIdx hr)
  unfold applyRow at hstep
  cases hrow : s.displayedProcesses[s.processApplyIndex]? with
  | some displayed =>
    simp only [hrow] at hstep
    cases hnext : s.pendingProcessRows.get? displayed.pid with
    | none =>
      simp only [hnext, Option.some.injEq] at hstep
      subst hstep
      exact ⟨hdelete, happlying, hwork⟩
    | some next =>
      simp only [hnext] at hstep
      split at hstep
      · cases hstep
        exact ⟨hdelete, happlying, hwork⟩
      · rename_i htime
        cases hstep
        refine ⟨⟨⟨h.synced.keyed, ?_, ?_, ?_⟩, h.rows, h.boxes, hsound _,
          h.hits⟩, happlying, hwork⟩
        · intro _ k info hk
          rw [Table.get?_erase] at hk
          split at hk
          · cases hk
          · exact h.synced.pending happlying k info hk
        · intro _ r hr
          simp only [List.take_add_one, hrow, Option.toList_some,
            List.mem_append, List.mem_singleton] at hr
          rcases hr with hr | rfl
          · exact h.synced.installed happlying r hr
          · refine ⟨next, h.synced.pending happlying _ _ hnext, ?_⟩
            simpa [eq_comm] using htime
        · simp [happlying]
  | none =>
    simp only [hrow] at hstep
    split at hstep
    · cases hstep
    rename_i key info _ hentries
    cases hstep
    have hall : s.displayedProcesses.take s.processApplyIndex =
        s.displayedProcesses :=
      List.take_of_length_le (List.getElem?_eq_none_iff.mp hrow)
    have hinfo : s.processSortData.get? key = some info := by
      refine h.synced.pending happlying key info ?_
      rw [Table.get?_eq_some_iff, hentries]
      exact List.mem_cons_self
    have hkey : info.pid = key := h.synced.keyed key info hinfo
    have hnew : ∀ r ∈ (if refused.contains info.pid then
          s.displayedProcesses
        else s.displayedProcesses ++ [⟨info.pid, info.startTimeValue, none⟩]),
        r ∈ s.displayedProcesses ∨ r = ⟨info.pid, info.startTimeValue, none⟩ := by
      intro r hr
      split at hr
      · exact Or.inl hr
      · simpa using hr
    refine ⟨⟨⟨h.synced.keyed, ?_, ?_, ?_⟩, ?_, h.boxes, hsound _, h.hits⟩,
      happlying, hwork⟩
    · intro _ k v hk
      exact h.synced.pending happlying k v (Table.get?_popFirst hk)
    · intro _ r hr
      rcases hnew r (List.mem_of_mem_take hr) with hr | rfl
      · exact h.synced.installed happlying r (hall.symm ▸ hr)
      · exact ⟨info, hkey.symm ▸ hinfo, rfl⟩
    · simp [happlying]
    · intro r hr c hc
      rcases hnew r hr with hr | rfl
      · exact h.rows r hr c hc
      · cases hc

theorem inv_applyRows {refused : List Nat} {turns : Nat} (h : Inv s)
    (happlying : s.applyingProcesses = true) (hwork : s.work = .idle) :
    Inv (applyRows refused turns s) ∧
      (applyRows refused turns s).applyingProcesses = true ∧
      (applyRows refused turns s).work = .idle := by
  induction turns generalizing s with
  | zero => exact ⟨h, happlying, hwork⟩
  | succ turns ih =>
    cases hstep : applyRow refused s with
    | none => simpa only [applyRows, hstep] using ⟨h, happlying, hwork⟩
    | some s' =>
      obtain ⟨h, happlying, hwork⟩ := inv_applyRow h happlying hwork hstep
      simpa only [applyRows, hstep] using ih h happlying hwork

theorem mem_sortDisplayedProcesses {order : List Row → List Row}
    {rows : List Row} {r : Row} :
    r ∈ sortDisplayedProcesses order rows ↔ r ∈ rows := by
  unfold sortDisplayedProcesses
  split
  · rename_i hperm
    exact (List.isPerm_iff.mp hperm).mem_iff
  · exact Iff.rfl

theorem inv_installed {order : List Row → List Row} (h : Inv s)
    (happlying : s.applyingProcesses = true) (hwork : s.work = .idle)
    (hindex : s.displayedProcesses.length ≤ s.processApplyIndex) :
    Inv { s with
      displayedProcesses := sortDisplayedProcesses order s.displayedProcesses
      applyingProcesses := false } := by
  refine ⟨⟨h.synced.keyed, by simp, by simp, ?_⟩, ?_, h.boxes, ?_, h.hits⟩
  · intro _ r hr
    rw [mem_sortDisplayedProcesses] at hr
    refine h.synced.installed happlying r ?_
    rwa [List.take_of_length_le hindex]
  · intro r hr
    exact h.rows r (mem_sortDisplayedProcesses.mp hr)
  · simp [hwork, Work.Sound]

variable {answer : BatchAnswer}

theorem inv_takeFinder (h : Inv s)
    (hwork : s.work = .idle) (hcomplete : s.applyingProcesses = false) :
    Inv (takeFinder p answer s) := by
  unfold takeFinder
  split
  · exact h
  · refine inv_finishWindowFinder ?_ hwork hcomplete
    exact ⟨h.synced, h.rows, h.boxes, h.work, h.hits⟩

theorem inv_applyProcessBatch (h : Inv s)
    (happlying : s.applyingProcesses = true) (hwork : s.work = .idle) :
    Inv (applyProcessBatch p answer s) := by
  unfold applyProcessBatch
  obtain ⟨h, happlying, hwork⟩ :=
    @inv_applyRows s answer.refused answer.turns h happlying hwork
  generalize applyRows answer.refused answer.turns s = s at h happlying hwork
  dsimp only
  split
  · exact h
  rename_i hdone
  simp only [not_or, Nat.not_lt] at hdone
  have hinstalled := @inv_installed s answer.order h happlying hwork hdone.1
  split
  · exact inv_takeFinder hinstalled hwork rfl
  · obtain ⟨hframe, hframe', -, -⟩ := trySelectLaunchedProcess_frame p
      { s with
        displayedProcesses :=
          sortDisplayedProcesses answer.order s.displayedProcesses
        applyingProcesses := false }
    exact inv_takeFinder (inv_trySelectLaunchedProcess hinstalled hwork)
      (hframe.trans hwork) hframe'

theorem inv_beginFilteredUpdate
    (hkeyed : ∀ k info, s.processSortData.get? k = some info → info.pid = k)
    (hrows : RowsChosen s.chose s.displayedProcesses)
    (hboxes : ∀ b ∈ s.boxes, b.Sound s.chose)
    (hhits : ∀ h ∈ s.hits, h.Faithful s.chose) (hwork : s.work = .idle)
    (hvisible : (!s.processesExpanded || !s.visible) = false) :
    Inv (beginFilteredUpdate p answer s) := by
  simp only [beginFilteredUpdate, hvisible, Bool.false_eq_true, if_false]
  refine inv_applyProcessBatch ?_ rfl hwork
  refine ⟨⟨hkeyed, ?_, by simp, by simp⟩, hrows, hboxes,
    by simp [hwork, Work.Sound], hhits⟩
  exact fun _ _ _ hk => Table.get?_of_mem_restrict hk

private theorem keyed_of_rows (rows : List ProcessInfo) :
    ∀ data : Table ProcessInfo,
      (∀ k info, data.get? k = some info → info.pid = k) →
      ∀ k info, (rows.foldl (fun data row => data.insert row.pid row)
        data).get? k = some info → info.pid = k := by
  induction rows with
  | nil => exact fun _ h => h
  | cons row rows ih =>
    intro data h
    refine ih _ ?_
    intro k info hk
    rw [Table.get?_insert] at hk
    grind

theorem inv_pollProcessList (h : Inv s)
    (hwork : s.work = .idle) : Inv (pollProcessList p answer s) := by
  unfold pollProcessList
  split
  · exact inv_cancelProcessRefresh h hwork
  rename_i hvisible
  split
  · exact h
  split
  · rename_i happlying
    exact inv_applyProcessBatch h happlying hwork
  split
  · split
    · exact h
    · exact inv_updatePslist h
  · exact ⟨h.synced, h.rows, h.boxes, h.work, h.hits⟩
  · refine inv_beginFilteredUpdate ?_ h.rows h.boxes h.hits hwork ?_
    · exact keyed_of_rows _ .empty (by simp)
    · simpa [and_comm] using hvisible

theorem inv_onFilterTimer (h : Inv s)
    (hwork : s.work = .idle) : Inv (onFilterTimer p answer s) := by
  unfold onFilterTimer
  split
  · exact h
  by_cases hvisible : (!s.processesExpanded || !s.visible) = true
  · rw [beginFilteredUpdate, if_pos hvisible]
    exact ⟨h.synced, h.rows, h.boxes, h.work, h.hits⟩
  · exact inv_beginFilteredUpdate h.synced.keyed h.rows h.boxes h.hits hwork
      (by simpa using hvisible)

theorem inv_onWindowFinderComplete {window : Option Nat} {readable : Bool}
    (h : Inv s) (hwork : s.work = .idle) :
    Inv (onWindowFinderComplete p window readable s) := by
  have hs : Inv { s with tracking := false } :=
    ⟨h.synced, h.rows, h.boxes, h.work, h.hits⟩
  simp only [onWindowFinderComplete]
  split
  · exact hs
  split
  · exact hs
  split
  · exact hs
  · refine inv_updatePslist ⟨h.synced, ?_, fun b hb => (h.boxes b hb).mono,
      by simp [hwork, Work.Sound], fun x hx => (h.hits x hx).mono⟩
    intro r hr c hc
    obtain ⟨hlife, hchose⟩ := h.rows r hr c hc
    exact ⟨hlife, List.mem_append_left _ hchose⟩

theorem inv_endBrowserWarning (h : Inv s) : Inv (endBrowserWarning s) :=
  ⟨h.synced, h.rows, h.boxes, h.work, h.hits⟩

theorem inv_push {b : Box} (h : Inv s) (hb : b.Sound s.chose) :
    Inv { s with boxes := b :: s.boxes } := by
  refine ⟨h.synced, h.rows, ?_, h.work, h.hits⟩
  intro b' hb'
  rcases List.mem_cons.mp hb' with rfl | hb'
  · exact hb
  · exact h.boxes b' hb'

theorem inv_openBrowserNotification {candidates : List Lifetime}
    {nodes : List Node} {hooked : List Lifetime} (h : Inv s) :
    Inv (openBrowserNotification p candidates nodes hooked s) := by
  simp only [openBrowserNotification]
  split
  · exact h
  split
  · exact h
  · have hs : Inv { s with showingBrowserWarning := true } :=
      ⟨h.synced, h.rows, h.boxes, h.work, h.hits⟩
    exact inv_push hs trivial

theorem inv_applyBrowserProcessAction {targets : List Lifetime}
    {terminate : Bool} {answer : BoxAnswer} (h : Inv s)
    (hwork : s.work = .idle) :
    Inv (applyBrowserProcessAction targets terminate answer s) := by
  have hs : Inv { s with chose := s.chose ++ targets } := by
    refine ⟨h.synced, ?_, fun b hb => (h.boxes b hb).mono,
      by simp [hwork, Work.Sound], fun x hx => (h.hits x hx).mono⟩
    intro r hr c hc
    obtain ⟨hlife, hchose⟩ := h.rows r hr c hc
    exact ⟨hlife, List.mem_append_left _ hchose⟩
  have hactive : ∀ (keep : Lifetime → Bool), ∀ l ∈ targets.filter keep,
      l ∈ s.chose ++ targets := fun _ _ hl =>
    List.mem_append_right _ (List.mem_of_mem_filter hl)
  unfold applyBrowserProcessAction
  dsimp only
  split
  · exact inv_endBrowserWarning hs
  split
  · exact inv_push hs trivial
  split
  · exact inv_push hs (hactive _)
  split
  · exact inv_endBrowserWarning hs
  · exact ⟨hs.synced, hs.rows, hs.boxes, hactive _, hs.hits⟩

theorem inv_selectBrowserRows {candidates : List Lifetime}
    {answer : BoxAnswer} (h : Inv s) (hwork : s.work = .idle) :
    Inv (selectBrowserRows p candidates answer s) := by
  unfold selectBrowserRows
  have hs := inv_updatePslist (inv_cancelLaunchSelection h)
  have hidle : (updatePslist (cancelLaunchSelection s)).work = .idle := by
    simpa [cancelLaunchSelection] using hwork
  refine inv_endBrowserWarning (inv_selectProcessesByPid ?_ hidle ?_)
  · have hnone := @inv_select _ _ (fun _ => none) [] hs hidle rfl (by simp)
    simpa using hnone
  · exact fun _ _ _ => rfl

/-! ## Message boxes -/

theorem named_eq {candidates : List Lifetime} {r : Row}
    (h : ∀ c ∈ candidates, c.pid = r.pid → c = r.lifetime) :
    named candidates r = r.lifetime := by
  unfold named
  cases hfind : candidates.find? fun c => c.pid == r.pid with
  | none => rfl
  | some c =>
    have hpid : c.pid = r.pid := by simpa using List.find?_some hfind
    exact h c (List.mem_of_find?_eq_some hfind) hpid

/-- A PID that the injection of the selected rows opens is still that of the
process in its row. -/
def KeptWork (p : Platform) (s : Page) (answer : WorkAnswer) : Work → Prop
  | .injecting (target :: _) =>
    target.pid ≠ p.self → answer.hook.opens = true →
      answer.hook.authorized = true →
      ∀ process ∈ s.system, process.pid = target.pid →
      ∀ r ∈ s.displayedProcesses, r.pid = target.pid →
        r.startTime ≠ 0 → process.creationTime = r.startTime
  | _ => True

/-- While the box about child processes was open, no refresh gave the row of a
named PID to another process. -/
def KeptBox (s : Page) : List Box → Prop
  | .confirmChildren root descendants :: _ =>
    ∀ c ∈ root :: descendants, ∀ r ∈ s.displayedProcesses,
      c.pid = r.pid → c.time = r.startTime
  | _ => True

def Kept (p : Platform) (s : Page) : Event → Prop
  | .work answer => KeptWork p s answer s.work
  | .ui (.answer .yes _) => KeptBox s s.boxes
  | _ => True

theorem inv_answerBox {reply : Reply} {answer : BoxAnswer} (h : Inv s)
    (hwork : s.work = .idle) (hkept : Kept p s (.ui (.answer reply answer))) :
    Inv (answerBox p reply answer s) := by
  unfold answerBox
  split
  · exact h
  · rename_i targets boxes hboxes
    have hsound : ∀ b ∈ boxes, b.Sound s.chose := fun b hb =>
      h.boxes b (hboxes ▸ List.mem_cons_of_mem _ hb)
    have htargets : Box.Sound s.chose (.confirmEnd targets) :=
      h.boxes _ (hboxes ▸ List.mem_cons_self)
    split
    · exact ⟨h.synced, h.rows, hsound, htargets, h.hits⟩
    · exact ⟨h.synced, h.rows, hsound, h.work, h.hits⟩
  · rename_i boxes hboxes
    exact ⟨h.synced, h.rows, fun b hb =>
      h.boxes b (hboxes ▸ List.mem_cons_of_mem _ hb), h.work, h.hits⟩
  · rename_i root descendants boxes hboxes
    have hs : Inv { s with boxes := boxes } :=
      ⟨h.synced, h.rows, fun b hb =>
        h.boxes b (hboxes ▸ List.mem_cons_of_mem _ hb), h.work, h.hits⟩
    cases reply with
    | cancel => exact hs
    | yes =>
      refine inv_onBnClickedInjectdll (inv_selectProcessesByPid hs hwork ?_)
      intro r hr _
      simp only [Kept, hboxes, KeptBox] at hkept
      refine named_eq fun c hc hpid => ?_
      have htime := hkept c hc r hr hpid
      cases c
      simp_all [Row.lifetime]
    | _ => exact inv_onBnClickedInjectdll hs
  · rename_i candidates shown boxes hboxes
    have hs : Inv { s with boxes := boxes } :=
      ⟨h.synced, h.rows, fun b hb =>
        h.boxes b (hboxes ▸ List.mem_cons_of_mem _ hb), h.work, h.hits⟩
    cases reply with
    | terminate => exact inv_applyBrowserProcessAction hs hwork
    | proxy => exact inv_applyBrowserProcessAction hs hwork
    | select => exact inv_selectBrowserRows hs hwork
    | _ => exact inv_endBrowserWarning hs
  · rename_i active boxes hboxes
    have hsound : ∀ b ∈ boxes, b.Sound s.chose := fun b hb =>
      h.boxes b (hboxes ▸ List.mem_cons_of_mem _ hb)
    have hactive : Box.Sound s.chose (.confirmBrowser active) :=
      h.boxes _ (hboxes ▸ List.mem_cons_self)
    split
    · exact ⟨h.synced, h.rows, hsound, ⟨hactive, by simp⟩, h.hits⟩
    · exact ⟨h.synced, h.rows, hsound, h.work, h.hits⟩
  · rename_i boxes hboxes
    refine inv_endBrowserWarning (inv_updatePslist ?_)
    exact ⟨h.synced, h.rows, fun b hb =>
      h.boxes b (hboxes ▸ List.mem_cons_of_mem _ hb), h.work, h.hits⟩

theorem inv_uiStep {event : UiEvent} (h : Inv s) (hwork : s.work = .idle)
    (hkept : Kept p s (.ui event)) : Inv (uiStep p s event) := by
  cases event with
  | timer => exact inv_updatePslist h
  | poll answer => exact inv_pollProcessList h hwork
  | typed text hooked => exact ⟨h.synced, h.rows, h.boxes, h.work, h.hits⟩
  | filterTimer answer => exact inv_onFilterTimer h hwork
  | columnClick order =>
    simp only [uiStep]
    split
    · exact h
    · rename_i happlying
      refine ⟨⟨h.synced.keyed, h.synced.pending, ?_, ?_⟩, ?_, h.boxes,
        by simp [hwork, Work.Sound], h.hits⟩
      · simp [happlying]
      · intro hcomplete r hr
        exact h.synced.complete hcomplete r (mem_sortDisplayedProcesses.mp hr)
      · intro r hr
        exact h.rows r (mem_sortDisplayedProcesses.mp hr)
  | expand expanded => exact inv_setProcessesExpanded expanded h hwork
  | showWindow visible =>
    have hs : ∀ visible, Inv { s with visible := visible } := fun _ =>
      ⟨h.synced, h.rows, h.boxes, h.work, h.hits⟩
    cases visible with
    | true => exact inv_updatePslist (hs true)
    | false => exact inv_cancelProcessRefresh (hs false) hwork
  | click pids => exact inv_clickRows h hwork
  | launched process => exact inv_refreshLaunchedProcess h hwork
  | launchTimer =>
    simp only [uiStep]
    split
    · exact h
    · exact inv_trySelectLaunchedProcess (inv_updatePslist h) (by simpa)
  | cancelLaunch => exact inv_cancelLaunchSelection h
  | finderBegin =>
    have hs : Inv { s with tracking := true } :=
      ⟨h.synced, h.rows, h.boxes, h.work, h.hits⟩
    exact inv_cancelProcessRefresh hs hwork
  | finderComplete window readable => exact inv_onWindowFinderComplete h hwork
  | finderCancel => exact ⟨h.synced, h.rows, h.boxes, h.work, h.hits⟩
  | terminateButton => exact inv_onBnClickedTerminateProcess h
  | injectButton answer => exact inv_onBnClickedInjectdll h
  | browserNotification candidates nodes hooked =>
    exact inv_openBrowserNotification h
  | answer reply answer => exact inv_answerBox h hwork hkept

/-! ## Loops -/

theorem inv_work {work : Work} (h : Inv s)
    (hwork : work.Sound s.chose s.displayedProcesses) :
    Inv { s with work := work } :=
  ⟨h.synced, h.rows, h.boxes, hwork, h.hits⟩

theorem inv_openBox {b : Box} (h : Inv s) (hb : b.Sound s.chose) :
    Inv { s with work := .idle, boxes := b :: s.boxes } :=
  inv_work (inv_push h hb) trivial

variable {chosen : Lifetime}

theorem inv_hit {action : Action} {process : Lifetime}
    (h : Inv s) (hhit : Hit.Faithful s.chose ⟨action, process, chosen⟩) :
    Inv (hit action process chosen s) := by
  refine ⟨h.synced, h.rows, h.boxes, h.work, ?_⟩
  intro x hx
  rcases List.mem_append.mp hx with hx | hx
  · exact h.hits x hx
  · exact List.mem_singleton.mp hx ▸ hhit

theorem inv_terminateProcess {granted : Bool} {target : Target}
    {handle : Lifetime} (h : Inv s) (htarget : target.Held s.chose)
    (hhandle : target.handle = some handle) :
    Inv (terminateProcess granted handle target.chosen s) := by
  obtain rfl := htarget.handle handle hhandle
  have hhit := inv_hit h (⟨htarget.chosen, rfl, fun _ => rfl⟩ :
    Hit.Faithful s.chose ⟨.terminate, target.chosen, target.chosen⟩)
  unfold terminateProcess
  split
  · exact ⟨hhit.synced, hhit.rows, hhit.boxes, hhit.work, hhit.hits⟩
  · exact hhit

theorem held_opened {pid expected : Nat} {answer : OpenAnswer}
    {chose : List Lifetime} (hchose : chosen ∈ chose) (hpid : chosen.pid = pid)
    (hexpected : expected ≠ 0 → expected = chosen.time) :
    Target.Held chose ⟨openForTermination p.self s.system pid expected answer,
      chosen⟩ := by
  refine ⟨hchose, fun handle hhandle => ?_⟩
  obtain ⟨hne, rfl⟩ := openForTermination_eq_some hhandle
  rw [← hpid, hexpected hne]

theorem inv_injectInto_expected {target : Lifetime} {answer : HookAnswer}
    (h : Inv s) (htarget : target ∈ s.chose) :
    Inv (injectInto target.pid target.time target answer s) := by
  unfold injectInto
  split
  · exact h
  · rename_i process hprocess
    obtain ⟨-, -, hfind, htime⟩ := hookProcess_eq_some hprocess
    have hpid := (System.mem_of_find hfind).2
    refine inv_hit h ⟨htarget, hpid, fun hne => ?_⟩
    simp only [Process.lifetime, hpid, htime hne]

theorem inv_injectInto_selected {target : SelectedProcessTarget}
    {answer : HookAnswer} (h : Inv s)
    (htarget : target.Shown s.chose s.displayedProcesses)
    (hkept : answer.opens = true → answer.authorized = true →
      ∀ process ∈ s.system, process.pid = target.pid →
      ∀ r ∈ s.displayedProcesses, r.pid = target.pid →
        r.startTime ≠ 0 → process.creationTime = r.startTime) :
    Inv (injectInto target.pid 0 target.chosen answer s) := by
  unfold injectInto
  split
  · exact h
  · rename_i process hprocess
    obtain ⟨hopens, hauthorized, hfind, -⟩ := hookProcess_eq_some hprocess
    obtain ⟨hmem, hpid⟩ := System.mem_of_find hfind
    obtain ⟨r, hr, hlife⟩ := htarget.row
    have hrow : r.pid = target.pid := by rw [← htarget.pid, ← hlife]; rfl
    refine inv_hit h ⟨htarget.chosen, hpid.trans htarget.pid.symm, ?_⟩
    intro hne
    rw [← hlife] at hne ⊢
    have htime := hkept hopens hauthorized process hmem hpid r hr hrow hne
    simp only [Process.lifetime, Row.lifetime, hpid, hrow, htime]

@[simp] theorem hit_displayedProcesses {action : Action} {process : Lifetime} :
    (hit action process chosen s).displayedProcesses = s.displayedProcesses := rfl

@[simp] theorem hit_chose {action : Action} {process : Lifetime} :
    (hit action process chosen s).chose = s.chose := rfl

theorem injectInto_frame (pid expected : Nat) (chosen : Lifetime)
    (answer : HookAnswer) (s : Page) :
    (injectInto pid expected chosen answer s).chose = s.chose ∧
      (injectInto pid expected chosen answer s).displayedProcesses =
        s.displayedProcesses := by
  unfold injectInto
  split <;> simp

theorem terminateProcess_frame (granted : Bool) (handle chosen : Lifetime)
    (s : Page) :
    (terminateProcess granted handle chosen s).chose = s.chose ∧
      (terminateProcess granted handle chosen s).displayedProcesses =
        s.displayedProcesses := by
  unfold terminateProcess
  split <;> simp

theorem inv_workStep {answer : WorkAnswer} (h : Inv s)
    (hkept : Kept p s (.work answer)) : Inv (workStep p answer s) := by
  have hsound := h.work
  have hidle : Work.Sound s.chose s.displayedProcesses .idle := trivial
  unfold workStep
  split <;> rename_i hwork <;> simp only [hwork, Work.Sound] at hsound
  · exact h
  · split
    · exact ⟨h.synced, h.rows, h.boxes, hidle, h.hits⟩
    · exact inv_openBox h hsound.2
  · rename_i item rest targets
    obtain ⟨hrest, htargets⟩ := hsound
    have hitem := hrest item List.mem_cons_self
    refine inv_work h ⟨fun i hi => hrest i (List.mem_cons_of_mem _ hi), ?_⟩
    intro t ht
    rcases List.mem_append.mp ht with ht | ht
    · exact htargets t ht
    · rw [List.mem_singleton.mp ht]
      exact held_opened hitem.chosen hitem.pid hitem.expected
  · split
    · exact inv_openBox h trivial
    · exact ⟨h.synced, h.rows, h.boxes, hidle, h.hits⟩
  · rename_i target rest failed
    have htarget := hsound target List.mem_cons_self
    have hrest : ∀ t ∈ rest, t.Held s.chose := fun t ht =>
      hsound t (List.mem_cons_of_mem _ ht)
    split
    · exact inv_work h hrest
    · rename_i handle hhandle
      split
      · exact inv_work h hrest
      · refine inv_work (inv_terminateProcess h htarget hhandle) ?_
        rw [(terminateProcess_frame _ _ _ s).1]
        exact hrest
  · exact inv_work h hidle
  · rename_i target rest
    have htarget := hsound target List.mem_cons_self
    have hrest : ∀ t ∈ rest, t.Shown s.chose s.displayedProcesses :=
      fun t ht => hsound t (List.mem_cons_of_mem _ ht)
    split
    · exact inv_work h hrest
    · rename_i hself
      simp only [Kept, hwork, KeptWork] at hkept
      refine inv_work (inv_injectInto_selected h htarget (hkept hself)) ?_
      obtain ⟨hchose, hrows⟩ := injectInto_frame target.pid 0 target.chosen
        answer.hook s
      rw [hchose, hrows]
      exact hrest
  · exact inv_work h hsound.2
  · rename_i target rest opened
    obtain ⟨hrest, hopened⟩ := hsound
    have htarget := hrest target List.mem_cons_self
    refine inv_work h ⟨fun l hl => hrest l (List.mem_cons_of_mem _ hl), ?_⟩
    intro t ht
    rcases List.mem_append.mp ht with ht | ht
    · exact hopened t ht
    · rw [List.mem_singleton.mp ht]
      split
      · exact ⟨htarget, fun _ hnone => nomatch hnone⟩
      · exact held_opened htarget rfl fun _ => rfl
  · exact inv_openBox h trivial
  · rename_i target rest
    have htarget := hsound target List.mem_cons_self
    have hrest : ∀ t ∈ rest, t.Held s.chose := fun t ht =>
      hsound t (List.mem_cons_of_mem _ ht)
    split
    · exact inv_work h hrest
    · rename_i handle hhandle
      split
      · exact inv_work h hrest
      · refine inv_work (inv_terminateProcess h htarget hhandle) ?_
        rw [(terminateProcess_frame _ _ _ s).1]
        exact hrest
  · exact inv_openBox h trivial
  · rename_i target rest
    have htarget := hsound target List.mem_cons_self
    have hrest : ∀ l ∈ rest, l ∈ s.chose := fun l hl =>
      hsound l (List.mem_cons_of_mem _ hl)
    refine inv_work (inv_injectInto_expected h htarget) ?_
    rw [(injectInto_frame _ _ _ _ s).1]
    exact hrest

theorem inv_step {event : Event} (h : Inv s) (hkept : Kept p s event) :
    Inv (step p s event) := by
  cases event with
  | work answer => exact inv_workStep h hkept
  | ui event =>
    simp only [step]
    split
    · rename_i hwork
      exact inv_uiStep h hwork hkept
    · exact h
  | _ => exact ⟨h.synced, h.rows, h.boxes, h.work, h.hits⟩

end Steps

/-- Every action reached the lifetime that was on display when it was chosen,
where its creation time was known. -/
def HitsChosen (s : Page) : Prop :=
  ∀ h ∈ s.hits, h.chosen ∈ s.chose ∧ h.process.pid = h.chosen.pid ∧
    (h.chosen.time ≠ 0 → h.process = h.chosen)

instance (s : Page) : Decidable (HitsChosen s) :=
  inferInstanceAs (Decidable (∀ h ∈ s.hits, h.chosen ∈ s.chose ∧
    h.process.pid = h.chosen.pid ∧ (h.chosen.time ≠ 0 → h.process = h.chosen)))

/-- Actions hit the displayed lifetimes as long as no PID passes to another
process between the display of a row and its injection. -/
theorem actions_hit_chosen {p : Platform} {system : System}
    {events : List Event}
    (h : Admissible (step p) (Kept p) (initial system) events) :
    HitsChosen (run (step p) (initial system) events) := by
  have hinv : Inv (run (step p) (initial system) events) :=
    run_invariant (fun _ _ hs hkept => inv_step hs hkept) (inv_initial system) h
  intro hit hhit
  obtain ⟨hchosen, hpid, hprocess⟩ := hinv.hits hit hhit
  exact ⟨hchosen, hpid, hprocess⟩

/-! ## A PID that was taken over -/

def samplePlatform : Platform := ⟨9000, id, id, fun a b => a == b⟩

def sampleBatch : BatchAnswer :=
  ⟨64, [], id, [], some 100, ⟨fun _ => true, true⟩⟩

def sampleWork : WorkAnswer :=
  ⟨⟨true, true, true⟩, ⟨true, true, true⟩, true, false, false⟩

def sampleShown : List Event :=
  [.spawned ⟨100, 1, 5000, "client.exe", true, false⟩, .ui (.expand true),
    .ui (.showWindow true), .queried ⟨"", fun _ => true, fun _ => ""⟩ true,
    .queryFinished, .ui (.poll sampleBatch), .ui (.click [100])]

def sampleInject : List Event :=
  [.ui (.injectButton ⟨fun _ => true, true⟩), .work sampleWork, .work sampleWork]

def sampleTerminate : List Event :=
  [.ui .terminateButton, .work sampleWork, .work sampleWork,
    .ui (.answer .yes ⟨⟨fun _ => true, true⟩, true, true, [], []⟩),
    .work sampleWork]

def sampleReused : List Event :=
  [.exited 100, .reaped 100, .spawned ⟨100, 1, 7000, "other.exe", true, false⟩]

instance (p : Platform) (s : Page) (answer : WorkAnswer) (work : Work) :
    Decidable (KeptWork p s answer work) := by
  cases work with
  | injecting rest =>
    cases rest with
    | nil => exact .isTrue trivial
    | cons target rest =>
      exact inferInstanceAs (Decidable (target.pid ≠ p.self →
        answer.hook.opens = true → answer.hook.authorized = true →
        ∀ process ∈ s.system, process.pid = target.pid →
        ∀ r ∈ s.displayedProcesses, r.pid = target.pid →
          r.startTime ≠ 0 → process.creationTime = r.startTime))
  | _ => exact .isTrue trivial

instance (s : Page) (boxes : List Box) : Decidable (KeptBox s boxes) := by
  cases boxes with
  | nil => exact .isTrue trivial
  | cons box boxes =>
    cases box with
    | confirmChildren root descendants =>
      exact inferInstanceAs (Decidable (∀ c ∈ root :: descendants,
        ∀ r ∈ s.displayedProcesses, c.pid = r.pid → c.time = r.startTime))
    | _ => exact .isTrue trivial

instance (p : Platform) (s : Page) (event : Event) :
    Decidable (Kept p s event) := by
  cases event with
  | work answer => exact inferInstanceAs (Decidable (KeptWork p s answer s.work))
  | ui event =>
    cases event with
    | answer reply answer =>
      cases reply with
      | yes => exact inferInstanceAs (Decidable (KeptBox s s.boxes))
      | _ => exact .isTrue trivial
    | _ => exact .isTrue trivial
  | _ => exact .isTrue trivial

theorem actions_hit_chosen_sample :
    (run (step samplePlatform) (initial [])
      (sampleShown ++ sampleInject ++ sampleTerminate)).hits =
        [⟨.inject, ⟨100, 5000⟩, ⟨100, 5000⟩⟩,
          ⟨.terminate, ⟨100, 5000⟩, ⟨100, 5000⟩⟩] ∧
      HitsChosen (run (step samplePlatform) (initial [])
        (sampleShown ++ sampleInject ++ sampleTerminate)) :=
  ⟨by decide, actions_hit_chosen (by decide)⟩

theorem inject_hits_reused :
    ¬ ∀ (p : Platform) (system : System) (events : List Event),
      HitsChosen (run (step p) (initial system) events) := by
  intro h
  exact absurd (h samplePlatform []
    (sampleShown ++ sampleReused ++ sampleInject)) (by decide)

end ProxyLane.App.Page3
