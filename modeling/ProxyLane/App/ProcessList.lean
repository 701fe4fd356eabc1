import ProxyLane.App.RecentEntry
import ProxyLane.Foundation.Run

/-!
# The process list is brought up to date in turns

`ApplyProcessBatch` changes the rows on display into the rows of a filtered
snapshot, some in each turn of the message loop.  The list control does what it
is asked, and a row of it is kept with the lifetime it was made for.  `target`
and `log` are not in the code: they say what is being installed and what was done.
-/

namespace ProxyLane.App.ProcessList

open Foundation RecentApplications

/-- `_myPROCESSINFO` after `BuildProcessTree`. -/
structure Info where
  pid : Nat
  proname : Text
  propath : Text
  startTimeText : Text
  hasStartTime : Bool
  startTimeValue : Nat
  treeOrder : Int
  treePrefix : Text
  deriving DecidableEq

/-- A map of processes by their pid. -/
structure Snapshot where
  rows : List Info
  ascending : rows.Pairwise fun a b => a.pid < b.pid

def Snapshot.find (s : Snapshot) (pid : Nat) : Option Info := s.rows.find? (·.pid == pid)

/-- `DisplayedProcess`, and also a row of the list control. -/
structure Row where
  pid : Nat
  startTime : Nat
  name : Text
  started : Text
  path : Text
  deriving DecidableEq

inductive SortState where
  | none
  | ascending
  | descending
  deriving DecidableEq

structure SortOrder where
  state : SortState
  column : Int

structure Filter where
  hookedOnly : Bool
  hooked : List (Nat × Nat)
  text : Text

inductive Op where
  | deleted (row : Row) (target : Snapshot)
  | updated (row : Row) (info : Info)
  | emptied
  | completed (native displayed : List Row) (target data : Snapshot)

structure Page where
  order : SortOrder
  data : Snapshot
  pending : List Info
  target : Snapshot
  displayed : List Row
  native : List Row
  applying : Bool
  index : Nat
  log : List Op

section Order

variable {σ : Type} [LinearOrder σ] (fold : Text → σ)

def directed (order : SortOrder) (result : Ordering) : Ordering :=
  if order.state = .descending then result.swap else result

def comparePrimary (order : SortOrder) (left right : Info) : Ordering :=
  if order.state = .none ∨ order.column < 0 then compare left.treeOrder right.treeOrder
  else if order.column = 0 then directed order (compare left.pid right.pid)
  else if order.column = 1 then
    directed order (compare (fold left.proname) (fold right.proname))
  else if order.column = 2 then
    if left.hasStartTime ≠ right.hasStartTime then
      if left.hasStartTime then .lt else .gt
    else if left.hasStartTime then
      directed order (compare left.startTimeValue right.startTimeValue)
    else .eq
  else if order.column = 3 then
    directed order (compare (fold left.propath) (fold right.propath))
  else .eq

/-- `CompareProcessItems`, with `_tcsicmp` comparing the texts as folded. -/
def compareProcessItems (order : SortOrder) (data : Snapshot) (left right : Nat) :
    Ordering :=
  match data.find left, data.find right with
  | none, none => .eq
  | none, some _ => .gt
  | some _, none => .lt
  | some left, some right =>
    (comparePrimary fold order left right).then (compare left.pid right.pid)

def less (order : SortOrder) (data : Snapshot) (left right : Row) : Bool :=
  compareProcessItems fold order data left.pid right.pid == .lt

/-- What `SortItems` and `std::sort` promise of an order given by keys. -/
structure Sorter where
  run : (Row → Row → Bool) → List Row → List Row
  perm : ∀ less l, (run less l).Perm l
  sorted : ∀ {κ : Type} [LinearOrder κ] (key : Row → κ) less,
    (∀ a b, less a b = true ↔ key a < key b) →
    ∀ l, (run less l).Pairwise fun a b => key a ≤ key b

def isSorted (less : Row → Row → Bool) : List Row → Bool
  | a :: b :: rest => !less b a && isSorted less (b :: rest)
  | _ => true

end Order

def rowOf (order : SortOrder) (info : Info) : Row where
  pid := info.pid
  startTime := info.startTimeValue
  name := (if order.state = .none then info.treePrefix else []) ++ info.proname
  started := info.startTimeText
  path := info.propath

/-- Only the columns that differ are written. -/
def writeColumns (displayed values row : Row) : Row where
  pid := row.pid
  startTime := row.startTime
  name := if displayed.name ≠ values.name then values.name else row.name
  started := if displayed.started ≠ values.started then values.started else row.started
  path := if displayed.path ≠ values.path then values.path else row.path

def written (displayed values : Row) : Nat :=
  (if displayed.name ≠ values.name then 1 else 0) +
    (if displayed.started ≠ values.started then 1 else 0) +
    (if displayed.path ≠ values.path then 1 else 0)

def Page.delete (p : Page) (row : Row) : Page :=
  { p with
    native := p.native.eraseIdx p.index
    displayed := p.displayed.eraseIdx p.index
    log := .deleted row p.target :: p.log }

/-- One turn of the loop, and what it adds to `processed`. -/
def applyOne (p : Page) : Page × Nat :=
  match p.displayed[p.index]? with
  | some displayed =>
    match p.pending.find? (·.pid == displayed.pid) with
    | none => (p.delete displayed, 1)
    | some info =>
      if displayed.startTime ≠ info.startTimeValue then (p.delete displayed, 1)
      else
        let values := rowOf p.order info
        ({ p with
          native := p.native.modify p.index (writeColumns displayed values)
          displayed := p.displayed.set p.index (writeColumns displayed values displayed)
          pending := p.pending.eraseP (·.pid == displayed.pid)
          index := p.index + 1
          log := .updated displayed info :: p.log }, written displayed values)
  | none =>
    match p.pending with
    | info :: rest =>
      ({ p with
        native := p.native ++ [rowOf p.order info]
        displayed := p.displayed ++ [rowOf p.order info]
        pending := rest
        index := p.displayed.length + 1 }, 5)
    | [] => (p, 0)

def Page.installed (p : Page) : Prop := p.displayed.length ≤ p.index ∧ p.pending = []

instance (p : Page) : Decidable p.installed :=
  inferInstanceAs (Decidable (_ ∧ _))

/-- The loop, while the clock allows. -/
def batch : Nat → Nat → Page → Page
  | 0, _, p => p
  | readings + 1, processed, p =>
    if 64 ≤ processed ∨ p.installed then p
    else batch readings (processed + (applyOne p).2) (applyOne p).1

section Steps

variable {σ : Type} [LinearOrder σ] (fold : Text → σ) (lowerText : Info → Text)
  (sortItems stdSort : Sorter)

def sortDisplayedProcesses (p : Page) : Page :=
  if isSorted (less fold p.order p.data) p.displayed then p
  else
    { p with
      native := sortItems.run (less fold p.order p.data) p.native
      displayed := stdSort.run (less fold p.order p.data) p.displayed }

def Page.complete (p : Page) : Page :=
  { p with
    applying := false
    log := .completed p.native p.displayed p.target p.data :: p.log }

def applyProcessBatch (readings : Nat) (p : Page) : Page :=
  let p := batch readings 0 p
  if p.installed then (sortDisplayedProcesses fold sortItems stdSort p).complete else p

def Filter.keeps (f : Filter) (info : Info) : Bool :=
  (!f.hookedOnly || (info.pid, info.startTimeValue) ∈ f.hooked) &&
    (f.text = [] || decide (f.text <:+: lowerText info))

def Snapshot.filtered (s : Snapshot) (f : Filter) : Snapshot :=
  ⟨s.rows.filter (f.keeps lowerText), s.ascending.filter _⟩

def beginFilteredUpdate (f : Filter) (readings : Nat) (p : Page) : Page :=
  applyProcessBatch fold sortItems stdSort readings
    { p with
      pending := (p.data.filtered lowerText f).rows
      target := p.data.filtered lowerText f
      applying := true
      index := 0 }

def cancelProcessRefresh (p : Page) : Page :=
  if p.applying then
    { p with
      pending := [], native := [], displayed := [], data := ⟨[], .nil⟩,
      applying := false, log := .emptied :: p.log }
  else { p with pending := [] }

inductive Event where
  | arrived (snapshot : Snapshot) (filter : Filter) (readings : Nat)
  | filterChanged (filter : Filter) (visible : Bool) (readings : Nat)
  | turn (readings : Nat)
  | cancelled

/-- No result is taken while one is being installed. -/
def step (p : Page) : Event → Page
  | .arrived snapshot f readings =>
    if p.applying then p
    else beginFilteredUpdate fold lowerText sortItems stdSort f readings
      { p with data := snapshot }
  | .filterChanged f visible readings =>
    if visible then beginFilteredUpdate fold lowerText sortItems stdSort f readings p else p
  | .turn readings =>
    if p.applying then applyProcessBatch fold sortItems stdSort readings p else p
  | .cancelled => cancelProcessRefresh p

theorem directed_key {κ : Type} [LinearOrder κ] (order : SortOrder) (key : Info → κ) :
    ∃ (ν : Type) (_ : LinearOrder ν) (k : Info → ν), ∀ a b,
      (directed order (compare (key a) (key b)) = .lt ↔ k a < k b) ∧
      (directed order (compare (key a) (key b)) = .eq ↔ k a = k b) := by
  by_cases h : order.state = .descending
  · exact ⟨κᵒᵈ, inferInstance, fun a => OrderDual.toDual (key a), fun a b => by
      simp [directed, h, compare_gt_iff_gt]⟩
  · exact ⟨κ, inferInstance, key, fun a b => by simp [directed, h, compare_lt_iff_lt]⟩

theorem primary_key (order : SortOrder) :
    ∃ (ν : Type) (_ : LinearOrder ν) (k : Info → ν), ∀ a b,
      (comparePrimary fold order a b = .lt ↔ k a < k b) ∧
      (comparePrimary fold order a b = .eq ↔ k a = k b) := by
  unfold comparePrimary
  split_ifs
  · exact ⟨Int, inferInstance, Info.treeOrder, fun a b => by simp [compare_lt_iff_lt]⟩
  · exact directed_key order Info.pid
  · exact directed_key order fun a => fold a.proname
  · obtain ⟨ν, _, k, hk⟩ := directed_key order fun a =>
      if a.hasStartTime then a.startTimeValue else 0
    refine ⟨Bool ×ₗ ν, inferInstance, fun a => toLex (!a.hasStartTime, k a), fun a b => ?_⟩
    rw [Prod.Lex.toLex_lt_toLex, toLex_inj, Prod.mk.injEq, ← (hk a b).1, ← (hk a b).2]
    cases a.hasStartTime <;> cases b.hasStartTime <;> simp [directed]
  · exact directed_key order fun a => fold a.propath
  · exact ⟨Unit, inferInstance, fun _ => (), fun a b => by simp⟩

theorem find_pid {data : Snapshot} {pid : Nat} {info : Info}
    (h : data.find pid = some info) : info.pid = pid := by
  simpa using List.find?_some h

theorem less_key (order : SortOrder) (data : Snapshot) :
    ∃ (κ : Type) (_ : LinearOrder κ) (key : Row → κ),
      (∀ a b, less fold order data a b = true ↔ key a < key b) ∧
      ∀ a b, (data.find a.pid).isSome → key a = key b → a.pid = b.pid := by
  obtain ⟨ν, _, k, hk⟩ := primary_key fold order
  let key (row : Row) : WithTop (ν ×ₗ Nat) :=
    match data.find row.pid with
    | none => ⊤
    | some info => WithTop.some (toLex (k info, info.pid))
  refine ⟨WithTop (ν ×ₗ Nat), inferInstance, key, fun a b => ?_, fun a b ha h => ?_⟩
  · simp only [less, compareProcessItems, key]
    cases data.find a.pid <;> cases data.find b.pid <;>
      simp [WithTop.coe_lt_coe, Prod.Lex.toLex_lt_toLex, Ordering.then_eq_lt,
        compare_lt_iff_lt, (hk _ _).1, (hk _ _).2]
  · simp only [key] at h
    split at h
    next hnone => simp [hnone] at ha
    next left hleft =>
      split at h
      · cases h
      next right hright =>
        simp only [WithTop.coe_inj, toLex_inj, Prod.mk.injEq] at h
        rw [← find_pid hleft, ← find_pid hright, h.2]

theorem isSorted_sorted {κ : Type} [LinearOrder κ] {key : Row → κ}
    {less : Row → Row → Bool} {l : List Row} (hkey : ∀ a b, less a b = true ↔ key a < key b)
    (h : isSorted less l = true) : l.Pairwise fun a b => key a ≤ key b := by
  induction l with
  | nil => exact .nil
  | cons a l ih =>
    cases l with
    | nil => exact List.pairwise_singleton _ _
    | cons b rest =>
      simp only [isSorted, Bool.and_eq_true, Bool.not_eq_true'] at h
      have hrest := ih h.2
      have hab : key a ≤ key b := by
        have := hkey b a
        simp_all
      refine List.pairwise_cons.2 ⟨fun x hx => ?_, hrest⟩
      rcases List.mem_cons.1 hx with rfl | hx
      · exact hab
      · exact hab.trans ((List.pairwise_cons.1 hrest).1 x hx)

theorem sort_spec {p : Page} (hmirrored : p.native = p.displayed)
    (hdistinct : (p.displayed.map (·.pid)).Nodup)
    (hdata : ∀ row ∈ p.displayed, (p.data.find row.pid).isSome) :
    (sortDisplayedProcesses fold sortItems stdSort p).native =
      (sortDisplayedProcesses fold sortItems stdSort p).displayed ∧
    (sortDisplayedProcesses fold sortItems stdSort p).displayed.Perm p.displayed ∧
    (sortDisplayedProcesses fold sortItems stdSort p).displayed.Pairwise
      fun a b => less fold p.order p.data a b = true := by
  obtain ⟨κ, _, key, hless, hpids⟩ := less_key fold p.order p.data
  have hinj : ∀ a ∈ p.displayed, ∀ b ∈ p.displayed, key a = key b → a = b :=
    fun a ha b hb h => List.inj_on_of_nodup_map hdistinct ha hb (hpids a b (hdata a ha) h)
  have hstrict {l : List Row} (hperm : l.Perm p.displayed)
      (hsorted : l.Pairwise fun a b => key a ≤ key b) :
      l.Pairwise fun a b => less fold p.order p.data a b = true := by
    have hnodup : l.Nodup := hperm.nodup_iff.2 hdistinct.of_map
    refine (hsorted.and hnodup).imp_of_mem fun ha hb h => ?_
    have ha := hperm.mem_iff.1 ha
    have hb := hperm.mem_iff.1 hb
    exact (hless _ _).2 (lt_of_le_of_ne h.1 fun heq => h.2 (hinj _ ha _ hb heq))
  unfold sortDisplayedProcesses
  split
  next h => exact ⟨hmirrored, .refl _, hstrict (.refl _) (isSorted_sorted hless h)⟩
  next =>
    have hn := sortItems.sorted key _ hless p.displayed
    have hd := stdSort.sorted key _ hless p.displayed
    have hpn := sortItems.perm (less fold p.order p.data) p.displayed
    have hpd := stdSort.perm (less fold p.order p.data) p.displayed
    refine ⟨?_, hpd, hstrict hpd hd⟩
    rw [hmirrored]
    exact List.Perm.eq_of_pairwise (fun a b ha hb hab hba => hinj a (hpn.mem_iff.1 ha) b
      (hpd.mem_iff.1 hb) (le_antisymm hab hba)) hn hd (hpn.trans hpd.symm)

/-- What each logged operation may do. -/
def Justified (order : SortOrder) : Op → Prop
  | .deleted row target =>
    ∀ info ∈ target.rows, info.pid = row.pid → info.startTimeValue ≠ row.startTime
  | .updated row info => info.pid = row.pid ∧ info.startTimeValue = row.startTime
  | .emptied => True
  | .completed native displayed target data =>
    native = displayed ∧ displayed.Perm (target.rows.map (rowOf order)) ∧
      displayed.Pairwise fun a b => less fold order data a b = true

/-- The rows up to `index` and those pending make the snapshot. -/
structure Updating (p : Page) : Prop where
  chosen : p.target.rows ⊆ p.data.rows
  parts : ∃ done rest, p.displayed = done ++ rest ∧ p.index = done.length ∧
    (done ++ p.pending.map (rowOf p.order)).Perm (p.target.rows.map (rowOf p.order))

structure Inv (p : Page) : Prop where
  mirrored : p.native = p.displayed
  distinct : (p.displayed.map (·.pid)).Nodup
  sound : ∀ op ∈ p.log, Justified fold p.order op
  updating : p.applying = true → Updating p

variable {fold} {p : Page}

theorem pids_nodup (data : Snapshot) : (data.rows.map (·.pid)).Nodup :=
  List.pairwise_map.2 (data.ascending.imp fun h => by omega)

theorem parts_nodup {target : Snapshot} {order : SortOrder} {done : List Row}
    {pending : List Info}
    (h : (done ++ pending.map (rowOf order)).Perm (target.rows.map (rowOf order))) :
    (done.map (·.pid) ++ pending.map (·.pid)).Nodup := by
  have hpids := (h.map (·.pid)).nodup_iff
  simp only [List.map_append, List.map_map] at hpids
  exact hpids.2 (pids_nodup target)

private theorem rowOf_inj {order : SortOrder} {a b : Info} (h : rowOf order a = rowOf order b) :
    a.pid = b.pid ∧ a.startTimeValue = b.startTimeValue := by
  simp only [rowOf, Row.mk.injEq] at h
  exact ⟨h.1, h.2.1⟩

theorem delete_inv {done rest : List Row} {row : Row} (h : Inv fold p)
    (hchosen : p.target.rows ⊆ p.data.rows) (hdisplayed : p.displayed = done ++ row :: rest)
    (hindex : p.index = done.length)
    (hparts : (done ++ p.pending.map (rowOf p.order)).Perm
      (p.target.rows.map (rowOf p.order)))
    (hnone : ∀ info ∈ p.pending, info.pid = row.pid → info.startTimeValue ≠ row.startTime) :
    Inv fold (p.delete row) where
  mirrored := by simp [Page.delete, h.mirrored]
  distinct := (h.distinct.sublist ((List.eraseIdx_sublist _ _).map _) :)
  sound := by
    intro op hop
    rcases List.mem_cons.1 hop with rfl | hop
    · intro info hinfo hpid htime
      have hrow := hparts.mem_iff.2 (List.mem_map_of_mem hinfo)
      rcases List.mem_append.1 hrow with hmem | hmem
      · have hd := h.distinct
        rw [hdisplayed, List.map_append, List.nodup_append] at hd
        exact hd.2.2 _ (List.mem_map_of_mem hmem) row.pid (by simp) hpid
      · obtain ⟨other, hother, heq⟩ := List.mem_map.1 hmem
        have := rowOf_inj heq
        exact hnone other hother (by omega) (by omega)
    · exact h.sound op hop
  updating _ := ⟨hchosen, done, rest,
    by simp [Page.delete, hdisplayed, hindex, List.eraseIdx_append_of_length_le],
    hindex, hparts⟩

theorem keep_inv {done rest : List Row} {row : Row} {info : Info} (h : Inv fold p)
    (hchosen : p.target.rows ⊆ p.data.rows) (hdisplayed : p.displayed = done ++ row :: rest)
    (hindex : p.index = done.length)
    (hparts : (done ++ p.pending.map (rowOf p.order)).Perm
      (p.target.rows.map (rowOf p.order)))
    (hfind : p.pending.find? (·.pid == row.pid) = some info)
    (htime : row.startTime = info.startTimeValue) :
    Inv fold (applyOne p).1 := by
  have hpid : info.pid = row.pid := by simpa using List.find?_some hfind
  have hat : p.displayed[p.index]? = some row := by simp [hdisplayed, hindex]
  have hvalues : writeColumns row (rowOf p.order info) row = rowOf p.order info := by
    simp only [writeColumns, rowOf, Row.mk.injEq]
    refine ⟨hpid.symm, htime, ?_, ?_, ?_⟩ <;> split_ifs <;> simp_all
  obtain ⟨before, after, hpending, hbefore⟩ :=
    (List.find?_eq_some_iff_append.1 hfind).2
  have herase : p.pending.eraseP (·.pid == row.pid) = before ++ after := by
    rw [hpending, List.eraseP_append_right _ (by simpa using hbefore)]
    simp [hpid]
  simp only [applyOne, hat, hfind, htime, ne_eq, not_true_eq_false, if_false, hvalues,
    herase]
  refine ⟨?_, ?_, ?_, fun _ => ⟨hchosen, done ++ [rowOf p.order info], rest, ?_, ?_, ?_⟩⟩
  · simp [h.mirrored, hdisplayed, hindex, List.modify_eq_set_getElem?, hvalues]
  · have hd := h.distinct
    rw [hdisplayed] at hd
    simpa [hdisplayed, hindex, rowOf, hpid] using hd
  · intro op hop
    rcases List.mem_cons.1 hop with rfl | hop
    · exact ⟨hpid, htime.symm⟩
    · exact h.sound op hop
  · simp [hdisplayed, hindex]
  · simp [hindex]
  · refine .trans ?_ hparts
    simpa [hpending] using (List.perm_middle.symm).append_left done

theorem insert_inv {info : Info} {rest : List Info} (h : Inv fold p)
    (hchosen : p.target.rows ⊆ p.data.rows) (hindex : p.index = p.displayed.length)
    (hpending : p.pending = info :: rest)
    (hparts : (p.displayed ++ p.pending.map (rowOf p.order)).Perm
      (p.target.rows.map (rowOf p.order))) :
    Inv fold (applyOne p).1 := by
  have hnone : p.displayed[p.index]? = none := by simp [hindex]
  simp only [applyOne, hnone, hpending]
  rw [hpending] at hparts
  refine ⟨by simp [h.mirrored], ?_, h.sound, fun _ => ⟨hchosen,
    p.displayed ++ [rowOf p.order info], [], by simp, by simp, by simpa using hparts⟩⟩
  have hd : (p.displayed.map (·.pid) ++ [info.pid]).Nodup :=
    (parts_nodup hparts).sublist (by simp)
  simpa [rowOf] using hd

theorem applyOne_inv (h : Inv fold p) (happlying : p.applying = true) :
    Inv fold (applyOne p).1 ∧ (applyOne p).1.applying = true := by
  obtain ⟨hchosen, done, rest, hdisplayed, hindex, hparts⟩ := h.updating happlying
  cases rest with
  | nil =>
    rw [List.append_nil] at hdisplayed
    cases hpending : p.pending with
    | nil => simp [applyOne, hdisplayed, hindex, hpending, h, happlying]
    | cons info rest =>
      refine ⟨insert_inv h hchosen (by rw [hdisplayed, hindex]) hpending
        (by rw [hdisplayed]; exact hparts), ?_⟩
      simp [applyOne, hdisplayed, hindex, hpending, happlying]
  | cons row rest =>
    have hat : p.displayed[p.index]? = some row := by simp [hdisplayed, hindex]
    cases hfind : p.pending.find? (·.pid == row.pid) with
    | none =>
      have hnone := delete_inv h hchosen hdisplayed hindex hparts fun info hinfo hpid =>
        absurd hpid (by simpa using List.find?_eq_none.1 hfind info hinfo)
      rw [show applyOne p = (p.delete row, 1) by simp [applyOne, hat, hfind]]
      exact ⟨hnone, happlying⟩
    | some info =>
      by_cases htime : row.startTime = info.startTimeValue
      · refine ⟨keep_inv h hchosen hdisplayed hindex hparts hfind htime, ?_⟩
        simp [applyOne, hat, hfind, htime, happlying]
      · have hnone := delete_inv h hchosen hdisplayed hindex hparts
          fun other hother hpid heq => htime (by
            have hinfo : info.pid = row.pid := by simpa using List.find?_some hfind
            have hsame := List.inj_on_of_nodup_map
              (List.nodup_append.1 (parts_nodup hparts)).2.1 hother
              (List.mem_of_find?_eq_some hfind) (hpid.trans hinfo.symm)
            rw [← hsame, heq])
        rw [show applyOne p = (p.delete row, 1) by simp [applyOne, hat, hfind, htime]]
        exact ⟨hnone, happlying⟩

theorem batch_inv (readings processed : Nat) (h : Inv fold p)
    (happlying : p.applying = true) : Inv fold (batch readings processed p) ∧
      (batch readings processed p).applying = true := by
  induction readings generalizing processed p with
  | zero => exact ⟨h, happlying⟩
  | succ readings ih =>
    rw [batch]
    split
    · exact ⟨h, happlying⟩
    · exact ih _ (applyOne_inv h happlying).1 (applyOne_inv h happlying).2

theorem complete_inv (h : Inv fold p) (happlying : p.applying = true)
    (hinstalled : p.installed) :
    Inv fold (sortDisplayedProcesses fold sortItems stdSort p).complete := by
  obtain ⟨hchosen, done, rest, hdisplayed, hindex, hparts⟩ := h.updating happlying
  obtain ⟨hlength, hpending⟩ := hinstalled
  obtain rfl : rest = [] := by
    rw [hdisplayed, hindex] at hlength
    simpa using hlength
  simp only [hpending, List.map_nil, List.append_nil] at hparts hdisplayed
  rw [← hdisplayed] at hparts
  obtain ⟨hmirrored, hperm, hsorted⟩ :=
    sort_spec fold sortItems stdSort h.mirrored h.distinct fun row hrow => by
      obtain ⟨info, hinfo, rfl⟩ := List.mem_map.1 (hparts.mem_iff.1 hrow)
      exact List.find?_isSome.2 ⟨info, hchosen hinfo, by simp [rowOf]⟩
  have hsame : sortDisplayedProcesses fold sortItems stdSort p =
      { p with
        native := (sortDisplayedProcesses fold sortItems stdSort p).native
        displayed := (sortDisplayedProcesses fold sortItems stdSort p).displayed } := by
    unfold sortDisplayedProcesses
    split <;> rfl
  generalize sortDisplayedProcesses fold sortItems stdSort p = q at *
  rw [hsame]
  refine ⟨hmirrored, (hperm.map _).nodup_iff.2 h.distinct, fun op hop => ?_, nofun⟩
  rcases List.mem_cons.1 hop with rfl | hop
  · exact ⟨hmirrored, hperm.trans hparts, hsorted⟩
  · exact h.sound op hop

theorem apply_inv (readings : Nat) (h : Inv fold p) (happlying : p.applying = true) :
    Inv fold (applyProcessBatch fold sortItems stdSort readings p) := by
  obtain ⟨hbatch, hstill⟩ := batch_inv readings 0 h happlying
  unfold applyProcessBatch
  dsimp only
  split
  next hinstalled => exact complete_inv sortItems stdSort hbatch hstill hinstalled
  next => exact hbatch

theorem begin_inv (f : Filter) (readings : Nat) (hmirrored : p.native = p.displayed)
    (hdistinct : (p.displayed.map (·.pid)).Nodup)
    (hsound : ∀ op ∈ p.log, Justified fold p.order op) :
    Inv fold (beginFilteredUpdate fold lowerText sortItems stdSort f readings p) :=
  apply_inv sortItems stdSort readings
    ⟨hmirrored, hdistinct, hsound, fun _ =>
      ⟨List.filter_sublist.subset, [], p.displayed, rfl, rfl, .refl _⟩⟩ rfl

theorem step_inv (p : Page) (event : Event) (h : Inv fold p) :
    Inv fold (step fold lowerText sortItems stdSort p event) := by
  cases event with
  | arrived snapshot f readings =>
    rw [step]
    split
    · exact h
    · exact begin_inv lowerText sortItems stdSort f readings h.mirrored h.distinct h.sound
  | filterChanged f visible readings =>
    rw [step]
    split
    · exact begin_inv lowerText sortItems stdSort f readings h.mirrored h.distinct h.sound
    · exact h
  | turn readings =>
    rw [step]
    split
    next happlying => exact apply_inv sortItems stdSort readings h happlying
    next => exact h
  | cancelled =>
    rw [step, cancelProcessRefresh]
    split
    · refine ⟨rfl, .nil, fun op hop => ?_, nofun⟩
      rcases List.mem_cons.1 hop with rfl | hop
      · trivial
      · exact h.sound op hop
    next hidle => exact ⟨h.mirrored, h.distinct, h.sound, fun ha => absurd ha hidle⟩

/-- A list on display, of processes of different pids. -/
structure Listing where
  rows : List Row
  distinct : (rows.map (·.pid)).Nodup

def start (order : SortOrder) (listing : Listing) : Page where
  order := order
  data := ⟨[], .nil⟩
  pending := []
  target := ⟨[], .nil⟩
  displayed := listing.rows
  native := listing.rows
  applying := false
  index := 0
  log := []

/-- Over any turns the two lists agree, and an update deletes, writes and ends
as a rebuild would have it. -/
theorem list_installs_snapshot (order : SortOrder) (listing : Listing)
    (events : List Event) :
    let p := run (step fold lowerText sortItems stdSort) (start order listing) events
    p.native = p.displayed ∧ (p.displayed.map (·.pid)).Nodup ∧
      ∀ op ∈ p.log, Justified fold p.order op := by
  have hstart : Inv fold (start order listing) :=
    ⟨rfl, listing.distinct, by simp [start], nofun⟩
  have h := run_induction (fun p e hp => step_inv lowerText sortItems stdSort p e hp)
    hstart events
  exact ⟨h.mirrored, h.distinct, h.sound⟩

end Steps

def mergeSorter : Sorter where
  run less l := l.mergeSort fun a b => !less b a
  perm _ _ := List.mergeSort_perm _ _
  sorted key less h l := by
    have hle (a b : Row) : (!less b a) = true ↔ key a ≤ key b := by
      simp [← not_lt, ← h]
    have hsorted := @List.pairwise_mergeSort _ (fun a b => !less b a)
      (fun a b c hab hbc => (hle a c).2 (((hle a b).1 hab).trans ((hle b c).1 hbc)))
      (fun a b => by simpa [← not_lt, ← h] using (le_total (key a) (key b))) l
    exact hsorted.imp fun hab => (hle _ _).1 hab

def sampleInfo : Info := ⟨7, [], [], [], true, 1, 0, []⟩

theorem cancel_empties :
    let order : SortOrder := ⟨.none, -1⟩
    let events : List Event := [.arrived ⟨[sampleInfo], List.pairwise_singleton _ _⟩
      ⟨false, [], []⟩ 0]
    let step := step List.length (fun _ => []) mergeSorter mergeSorter
    let listing : Listing := ⟨[rowOf order sampleInfo], by decide⟩
    (run step (start order listing) events).target.rows = [sampleInfo] ∧
      (run step (start order listing) events).displayed = [rowOf order sampleInfo] ∧
      (run step (start order listing) (events ++ [.cancelled])).displayed = [] :=
  ⟨rfl, rfl, rfl⟩

end ProxyLane.App.ProcessList
