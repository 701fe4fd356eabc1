import ProxyLane.App.RecentApplications

/-!
# What interruptions leave of the history

A history is read as long as each of its records can be decoded and there is at
most one more than an operation leaves.  Records of old entries stay readable
whatever is written of them; what a run can spoil is the record of an entry
that is remembered, and the count.
-/

namespace ProxyLane.App.RecentApplications

open ProxyLane.Foundation

/-! ## Lists of entries -/

def core (entry : Entry) : Entry :=
  { entry with pinned := false, displayOrder := 0 }

@[simp] theorem core_id (entry : Entry) : (core entry).id = entry.id := rfl

theorem ids_map_core (entries : List Entry) :
    (entries.map core).map Entry.id = entries.map Entry.id := by
  simp

theorem stableSort_perm (less : Entry → Entry → Bool) (entries : List Entry) :
    (stableSort less entries).Perm entries :=
  List.perm_insertionSort _ _

theorem sort_perm (entries : List Entry) : (sort entries).Perm entries :=
  stableSort_perm _ entries

theorem sortForDisplay_perm (entries : List Entry) :
    (sortForDisplay entries).Perm entries :=
  stableSort_perm _ entries

theorem number_cons (order : Nat) (entry : Entry) (rest : List Entry) :
    number order (entry :: rest) =
      { entry with displayOrder := order + 1 } :: number (order + 1) rest := rfl

theorem number_core (order : Nat) (entries : List Entry) :
    (number order entries).map core = entries.map core := by
  induction entries generalizing order with
  | nil => rfl
  | cons entry rest ih => simp [number_cons, ih, core]

theorem length_number (order : Nat) (entries : List Entry) :
    (number order entries).length = entries.length := by
  induction entries generalizing order with
  | nil => rfl
  | cons entry rest ih => simp [number_cons, ih]

variable {entry : Entry}

theorem number_le {order : Nat} {entries : List Entry}
    (h : entry ∈ number order entries) :
    entry.displayOrder ≤ order + entries.length := by
  induction entries generalizing order with
  | nil => cases h
  | cons first rest ih =>
    simp only [number_cons, List.mem_cons] at h
    simp only [List.length_cons]
    rcases h with rfl | h
    · exact Nat.add_le_add_left (Nat.le_add_left 1 _) order
    · have := ih h
      omega

theorem numberMissing_cons (order : Nat) (entry : Entry) (rest : List Entry) :
    numberMissing order (entry :: rest) =
      if entry.displayOrder = 0 then
        { entry with displayOrder := order + 1 } :: numberMissing (order + 1) rest
      else entry :: numberMissing order rest := rfl

theorem numberMissing_core (order : Nat) (entries : List Entry) :
    (numberMissing order entries).map core = entries.map core := by
  induction entries generalizing order with
  | nil => rfl
  | cons entry rest ih =>
    rw [numberMissing_cons]
    split <;> simp [ih, core]

theorem numberMissing_le {order : Nat} {entries : List Entry}
    (h : entry ∈ numberMissing order entries) :
    entry.displayOrder ≤ order + entries.length ∨ entry ∈ entries := by
  induction entries generalizing order with
  | nil => cases h
  | cons first rest ih =>
    rw [numberMissing_cons] at h
    simp only [List.length_cons, List.mem_cons]
    split at h <;> rcases List.mem_cons.mp h with rfl | h
    · exact .inl (Nat.add_le_add_left (Nat.le_add_left 1 _) order)
    · rcases ih h with hle | hmem
      · omega
      · exact .inr (.inr hmem)
    · exact .inr (.inl rfl)
    · rcases ih h with hle | hmem
      · omega
      · exact .inr (.inr hmem)

theorem le_largestOrder {entries : List Entry}
    (h : entry ∈ entries) : entry.displayOrder ≤ largestOrder entries := by
  have hfold : ∀ (n : Nat) (es : List Entry), n ≤ es.foldl
      (fun order entry => max order entry.displayOrder) n ∧
      ∀ entry ∈ es, entry.displayOrder ≤ es.foldl
        (fun order entry => max order entry.displayOrder) n := by
    intro n es
    induction es generalizing n with
    | nil => simp
    | cons first rest ih =>
      obtain ⟨hstart, hrest⟩ := ih (max n first.displayOrder)
      simp only [List.foldl_cons, List.forall_mem_cons]
      exact ⟨by omega, by omega, hrest⟩
  exact (hfold 0 entries).2 entry h

private theorem rebased_core (loaded : List Entry) :
    ((rebased loaded).map core).Perm (loaded.map core) := by
  rw [rebased, number_core]
  exact (stableSort_perm _ _).map core

theorem length_rebased (loaded : List Entry) :
    (rebased loaded).length = loaded.length := by
  rw [rebased, length_number, (stableSort_perm _ _).length_eq]

theorem settle_core (loaded : List Entry) :
    ((settle loaded).map core).Perm (loaded.map core) := by
  have hsort : ((sort loaded).map core).Perm (loaded.map core) :=
    (sort_perm loaded).map core
  simp only [settle]
  split
  · rw [numberMissing_core]
    exact ((sort_perm _).map core).trans ((rebased_core _).trans hsort)
  · rw [numberMissing_core]
    exact hsort

theorem settle_displayOrder {loaded : List Entry}
    (hlength : loaded.length ≤ kMaxEntries + 1) (h : entry ∈ settle loaded) :
    entry.displayOrder + 1 < counterLimit := by
  have hsorted := (sort_perm loaded).length_eq
  have hlarge : largeOrder + 200 < counterLimit := by
    unfold largeOrder counterLimit
    omega
  have hroom : 1000 < counterLimit := by
    unfold counterLimit
    omega
  simp only [kMaxEntries] at hlength
  simp only [settle] at h
  split at h
  · rcases numberMissing_le h with hle | hmem
    · simp only [(sort_perm _).length_eq, length_rebased] at hle
      omega
    · have hle := number_le ((sort_perm _).mem_iff.mp hmem)
      simp only [(stableSort_perm _ _).length_eq] at hle
      omega
  · rename_i hsmall
    rcases numberMissing_le h with hle | hmem
    · omega
    · have := le_largestOrder hmem
      omega

theorem trim_sublist (recent : Nat) (entries : List Entry) :
    (trim recent entries).Sublist entries := by
  induction entries generalizing recent with
  | nil => exact List.Sublist.refl _
  | cons entry rest ih =>
    simp only [trim]
    split_ifs
    · exact (ih recent).cons_cons entry
    · exact (ih _).cons entry
    · exact (ih _).cons_cons entry

theorem pin_core (id : Text) (pinned : Bool) (entries : List Entry) :
    (pin id pinned entries).map core = entries.map core := by
  rw [pin, List.map_map]
  apply List.map_congr_left
  intro entry _
  simp only [Function.comp_apply]
  split <;> rfl

theorem swapped_perm (entries : List Entry) (i j : Nat) :
    (swapped entries i j).Perm entries := by
  by_cases h : i < entries.length ∧ j < entries.length
  · simpa [swapped, h] using List.set_set_perm h.1 h.2
  · simp only [swapped]
    split
    · rename_i hi hj
      obtain ⟨hi, -⟩ := List.getElem?_eq_some_iff.mp hi
      obtain ⟨hj, -⟩ := List.getElem?_eq_some_iff.mp hj
      exact absurd ⟨hi, hj⟩ h
    · rfl

theorem moved_perm {entries : List Entry} {i j : Nat}
    (hj : j < entries.length) : (moved entries i j).Perm entries := by
  simp only [moved]
  split
  · rename_i hi
    obtain ⟨hlt, rfl⟩ := List.getElem?_eq_some_iff.mp hi
    have hroom : j ≤ (entries.eraseIdx i).length := by
      rw [List.length_eraseIdx_of_lt hlt]
      omega
    exact (List.perm_insertIdx _ _ hroom).trans (List.getElem_cons_eraseIdx_perm hlt)
  · rfl

/-! ## The entry that is remembered -/

section Remember

variable {p : Platform}

theorem merge_cons (entry old : Entry) (rest : List Entry) :
    merge p entry (old :: rest) =
      if (entry.id ≠ [] ∧ entry.id = old.id) ∨ sameLaunch p { entry with
          lastUsed := max entry.lastUsed (old.lastUsed + 1) } old then
        merge p { entry with
          id := old.id, pinned := old.pinned, displayOrder := old.displayOrder
          lastUsed := max entry.lastUsed (old.lastUsed + 1) } rest
      else
        ((merge p { entry with
            lastUsed := max entry.lastUsed (old.lastUsed + 1) } rest).1,
          old :: (merge p { entry with
            lastUsed := max entry.lastUsed (old.lastUsed + 1) } rest).2) := rfl

theorem merge_app (entry : Entry) (entries : List Entry) :
    (merge p entry entries).1.app = entry.app ∧
      (merge p entry entries).1.shortcut = entry.shortcut ∧
      (merge p entry entries).1.profileId = entry.profileId := by
  induction entries generalizing entry with
  | nil => exact ⟨rfl, rfl, rfl⟩
  | cons old rest ih =>
    rw [merge_cons]
    split
    · exact ih _
    · exact ih _

theorem merge_sublist (entry : Entry) (entries : List Entry) :
    (merge p entry entries).2.Sublist entries := by
  induction entries generalizing entry with
  | nil => exact List.Sublist.refl _
  | cons old rest ih =>
    rw [merge_cons]
    split
    · exact (ih _).cons old
    · exact (ih _).cons_cons old

theorem merge_id_mem (entry : Entry) (entries : List Entry) :
    (merge p entry entries).1.id = entry.id ∨
      (merge p entry entries).1.id ∈ entries.map Entry.id := by
  induction entries generalizing entry with
  | nil => exact .inl rfl
  | cons old rest ih =>
    simp only [merge_cons, List.map_cons, List.mem_cons]
    split
    · rcases ih { entry with
        id := old.id, pinned := old.pinned, displayOrder := old.displayOrder
        lastUsed := max entry.lastUsed (old.lastUsed + 1) } with h | h
      · exact .inr (.inl h)
      · exact .inr (.inr h)
    · rcases ih { entry with
        lastUsed := max entry.lastUsed (old.lastUsed + 1) } with h | h
      · exact .inl h
      · exact .inr (.inr h)

variable {entry : Entry}

theorem merge_id_notMem {entries : List Entry}
    (hdistinct : (entries.map Entry.id).Nodup)
    (hid : (merge p entry entries).1.id ≠ []) :
    (merge p entry entries).1.id ∉ (merge p entry entries).2.map Entry.id := by
  induction entries generalizing entry with
  | nil => exact List.not_mem_nil
  | cons old rest ih =>
    simp only [List.map_cons, List.nodup_cons] at hdistinct
    rw [merge_cons] at hid ⊢
    split
    · rename_i hsame
      simp only [hsame, if_true] at hid
      exact ih hdistinct.2 hid
    · rename_i hother
      simp only [hother, if_false] at hid
      simp only [List.map_cons, List.mem_cons, not_or]
      refine ⟨?_, ih hdistinct.2 hid⟩
      rcases merge_id_mem (p := p) { entry with
        lastUsed := max entry.lastUsed (old.lastUsed + 1) } rest with h | h
      · intro heq
        have hgiven : entry.id = old.id := h.symm.trans heq
        exact hother (.inl ⟨fun hnil => hid (h.trans hnil), hgiven⟩)
      · intro heq
        exact hdistinct.1 (heq ▸ h)

/-- `Remember` takes the entry for an old one. -/
def Matches (p : Platform) (entry old : Entry) : Prop :=
  (entry.id ≠ [] ∧ entry.id = old.id) ∨ sameLaunch p entry old = true

theorem merge_id_of_matches {old : Entry} {entries : List Entry}
    (hold : old ∈ entries) (hmatch : Matches p entry old) :
    (merge p entry entries).1.id ∈ entries.map Entry.id := by
  induction entries generalizing entry with
  | nil => cases hold
  | cons first rest ih =>
    simp only [merge_cons, List.map_cons, List.mem_cons]
    split
    · rcases merge_id_mem (p := p) { entry with
        id := first.id, pinned := first.pinned
        displayOrder := first.displayOrder
        lastUsed := max entry.lastUsed (first.lastUsed + 1) } rest with h | h
      · exact .inl h
      · exact .inr h
    · rename_i hother
      rcases List.mem_cons.mp hold with rfl | hrest
      · exact absurd hmatch hother
      · exact .inr (ih hrest hmatch)

theorem merge_id_of_not_matches {entries : List Entry}
    (h : ∀ old ∈ entries, ¬ Matches p entry old) :
    (merge p entry entries).1.id = entry.id := by
  induction entries generalizing entry with
  | nil => rfl
  | cons first rest ih =>
    simp only [List.forall_mem_cons] at h
    rw [merge_cons]
    split
    · rename_i hsame
      exact absurd hsame h.1
    · exact ih h.2

theorem merge_lastUsed (entry : Entry) (entries : List Entry) (n : Nat) :
    (merge p entry entries).1.lastUsed < n ↔
      entry.lastUsed < n ∧ ∀ old ∈ entries, old.lastUsed + 1 < n := by
  induction entries generalizing entry with
  | nil => exact ⟨fun h => ⟨h, by simp⟩, fun h => h.1⟩
  | cons old rest ih =>
    simp only [merge_cons, List.forall_mem_cons]
    split
    · rw [ih]
      simp only [max_lt_iff, and_assoc]
    · rw [ih]
      simp only [max_lt_iff, and_assoc]

theorem merge_displayOrder {entries : List Entry} {n : Nat}
    (hentry : entry.displayOrder < n) (h : ∀ old ∈ entries, old.displayOrder < n) :
    (merge p entry entries).1.displayOrder < n := by
  induction entries generalizing entry with
  | nil => exact hentry
  | cons old rest ih =>
    simp only [List.forall_mem_cons] at h
    rw [merge_cons]
    split
    · exact ih h.1 h.2
    · exact ih hentry h.2

end Remember

/-! ## What an operation leaves out -/

section Edit

variable {p : Platform} {entries final : List Entry} {identity : Text} {op : Op}

def Op.added (p : Platform) (entries : List Entry) (identity : Text) :
    Op → Option Entry
  | .remember entry now _ newId =>
    some (remembered p entries identity entry now ((newId.map Guid.text).getD [])).1
  | _ => none

def choice (p : Platform) (entries : List Entry) (identity : Text) :
    Op → List Entry
  | .remember entry now _ newId =>
    let (added, kept) := remembered p entries identity entry now
      ((newId.map Guid.text).getD [])
    kept ++ [added]
  | _ => entries

/-- An operation gives an entry up: it removes it, merges it into another one,
or trims it. -/
inductive Dropped (p : Platform) (entries : List Entry) (identity : Text) :
    Op → Text → Prop where
  | removed (id : Text) : Dropped p entries identity (.remove id) id
  | merged (op : Op) (id : Text)
      (h : id ∉ (choice p entries identity op).map Entry.id) :
      Dropped p entries identity op id
  | trimmed (op : Op) (id : Text)
      (hlisted : id ∈ (listed p entries identity op).map Entry.id)
      (h : id ∉ (trim 0 (listed p entries identity op)).map Entry.id) :
      Dropped p entries identity op id

def Renewed (p : Platform) (entries : List Entry) (identity : Text) (op : Op)
    (id : Text) : Prop :=
  ∃ added, op.added p entries identity = some added ∧ added.id = id

variable {entry : Entry}

theorem mem_choice (h : entry ∈ choice p entries identity op) :
    entry ∈ entries ∨ op.added p entries identity = some entry := by
  cases op with
  | remember remembered now profileId newId =>
    rcases List.mem_append.mp h with hkept | hnew
    · exact .inl ((merge_sublist _ _).mem hkept)
    · exact .inr (congrArg some (List.mem_singleton.mp hnew).symm)
  | _ => exact .inl h

theorem added_mem_choice {added : Entry}
    (h : op.added p entries identity = some added) :
    added ∈ choice p entries identity op := by
  cases op with
  | remember remembered now profileId newId =>
    simp only [Op.added, Option.some.injEq] at h
    exact List.mem_append_right _ (List.mem_singleton.mpr h.symm)
  | _ => cases h

theorem remembered_kept (entry : Entry) (now : UInt64) (newId : Text) :
    (remembered p entries identity entry now newId).2.Sublist entries :=
  merge_sublist _ _

theorem remembered_notMem {now : UInt64} {newId : Text}
    (hdistinct : (entries.map Entry.id).Nodup)
    (hfresh : newId ∉ entries.map Entry.id) :
    (remembered p entries identity entry now newId).1.id ∉
      (remembered p entries identity entry now newId).2.map Entry.id := by
  simp only [remembered]
  split
  · intro hmem
    obtain ⟨old, hold, heq⟩ := List.mem_map.mp hmem
    exact hfresh (heq ▸ List.mem_map_of_mem ((merge_sublist _ _).mem hold))
  · rename_i hid
    exact merge_id_notMem hdistinct hid

theorem remembered_id_mem {now : UInt64} {newId : Text}
    (hfresh : newId ∉ entries.map Entry.id) (hvalid : [] ∉ entries.map Entry.id) :
    (remembered p entries identity entry now newId).1.id ∈
        entries.map Entry.id ↔ ∃ old ∈ entries, Matches p entry old := by
  have hgiven : ∀ old, Matches p { entry with
      profileId := identity, displayOrder := 0, lastUsed := now.toNat } old ↔
      Matches p entry old := fun old => Iff.rfl
  simp only [remembered]
  constructor
  · intro hmem
    by_contra hnone
    have hnot : ∀ old ∈ entries, ¬ Matches p { entry with
        profileId := identity, displayOrder := 0, lastUsed := now.toNat } old :=
      fun old hold hmatch => hnone ⟨old, hold, (hgiven old).mp hmatch⟩
    simp only [merge_id_of_not_matches hnot] at hmem
    split at hmem
    · exact hfresh hmem
    · rename_i hid
      obtain ⟨old, hold, heq⟩ := List.mem_map.mp hmem
      exact hnone ⟨old, hold, .inl ⟨hid, heq.symm⟩⟩
  · rintro ⟨old, hold, hmatch⟩
    have hmem := merge_id_of_matches hold ((hgiven old).mpr hmatch)
    split
    · rename_i hnil
      exact absurd (hnil ▸ hmem) hvalid
    · exact hmem

theorem listed_choice (entries : List Entry) (identity : Text) (op : Op) :
    ((listed p entries identity op).map core).Subperm
      ((choice p entries identity op).map core) := by
  cases op with
  | remember entry now profileId newId =>
    exact ((sort_perm _).map core).subperm
  | setPinned id pinned =>
    refine ((sort_perm _).map core).subperm.trans ?_
    rw [pin_core]
    exact List.Subperm.refl _
  | remove id =>
    exact ((sort_perm _).map core).subperm.trans
      (List.filter_sublist.map core).subperm
  | move id direction => exact List.nil_subperm
  | moveTo id targetId => exact List.nil_subperm

theorem edit_cases (h : edit p entries identity op = .ok (some final)) :
    final = trim 0 (listed p entries identity op) ∧
        (∀ added ∈ choice p entries identity op,
          added ∈ entries ∨ validId added.id = true) ∧
        (∀ id direction, op ≠ .move id direction) ∧
        (∀ id targetId, op ≠ .moveTo id targetId) ∨
      choice p entries identity op = entries ∧ (∀ id, op ≠ .remove id) ∧
        ∃ shown : List Entry, shown.Perm entries ∧ final = sort (number 0 shown) := by
  cases op with
  | remember entry now profileId newId =>
    simp only [edit] at h
    split_ifs at h with hprofile hvalid hmany
    simp only [Except.ok.injEq, Option.some.injEq] at h
    refine .inl ⟨h.symm, fun added hadded => ?_, nofun, nofun⟩
    rcases List.mem_append.mp hadded with hkept | hnew
    · exact .inl ((merge_sublist _ _).mem hkept)
    · rw [List.mem_singleton] at hnew
      subst hnew
      exact .inr (Bool.eq_true_of_not_eq_false hvalid)
  | setPinned id pinned =>
    simp only [edit] at h
    split_ifs at h
    simp only [Except.ok.injEq, Option.some.injEq] at h
    exact .inl ⟨h.symm, fun _ => .inl, nofun, nofun⟩
  | remove id =>
    simp only [edit] at h
    split_ifs at h
    simp only [Except.ok.injEq, Option.some.injEq] at h
    exact .inl ⟨h.symm, fun _ => .inl, nofun, nofun⟩
  | move id direction =>
    refine .inr ⟨rfl, nofun, ?_⟩
    simp only [edit, moveBy] at h
    split at h
    · cases h
    · split at h
      · cases h
      · split at h
        · cases h
        · split at h
          · split at h
            · cases h
            · simp only [Except.ok.injEq, Option.some.injEq] at h
              exact ⟨_, (swapped_perm _ _ _).trans (sortForDisplay_perm _), h.symm⟩
          · cases h
  | moveTo id targetId =>
    refine .inr ⟨rfl, nofun, ?_⟩
    simp only [edit, RecentApplications.moveTo] at h
    split at h
    · rename_i i j hi hj
      split at h
      · cases h
      · split at h
        · cases h
        · simp only [Except.ok.injEq, Option.some.injEq] at h
          have hj := (List.findIdx?_eq_some_iff_getElem.mp hj).1
          exact ⟨_, (moved_perm hj).trans (sortForDisplay_perm _), h.symm⟩
    · cases h

theorem edit_choice (h : edit p entries identity op = .ok (some final)) :
    (final.map core).Subperm ((choice p entries identity op).map core) := by
  rcases edit_cases h with ⟨rfl, -⟩ | ⟨hchoice, -, shown, hshown, rfl⟩
  · exact ((trim_sublist 0 _).map core).subperm.trans (listed_choice _ _ _)
  · rw [hchoice]
    refine ((sort_perm _).map core).subperm.trans ?_
    rw [number_core]
    exact (hshown.map core).subperm

def Op.Fresh (entries : List Entry) : Op → Prop
  | .remember _ _ _ newId =>
    (newId.map Guid.text).getD [] ∉ entries.map Entry.id
  | _ => True

theorem choice_distinct (hdistinct : (entries.map Entry.id).Nodup)
    (hfresh : op.Fresh entries) :
    ((choice p entries identity op).map Entry.id).Nodup := by
  cases op with
  | remember entry now profileId newId =>
    simp only [choice, List.map_append, List.map_cons, List.map_nil]
    rw [List.nodup_append]
    refine ⟨hdistinct.sublist ((remembered_kept _ _ _).map _), by simp, ?_⟩
    intro id hid added hadded heq
    rw [List.mem_singleton] at hadded
    subst hadded heq
    exact remembered_notMem hdistinct hfresh hid
  | _ => exact hdistinct

theorem final_distinct (hdistinct : (entries.map Entry.id).Nodup)
    (hfresh : op.Fresh entries)
    (h : edit p entries identity op = .ok (some final)) :
    (final.map Entry.id).Nodup := by
  obtain ⟨l, hperm, hsub⟩ := edit_choice h
  have hl : (l.map Entry.id).Nodup := by
    have hchoice : ((choice p entries identity op).map Entry.id).Nodup :=
      choice_distinct hdistinct hfresh
    rw [← ids_map_core] at hchoice
    exact hchoice.sublist (hsub.map Entry.id)
  rw [← ids_map_core]
  exact (hperm.map Entry.id).nodup_iff.mp hl

theorem core_mem_of_id_mem {xs ys : List Entry} {x : Entry}
    (hsub : (xs.map core).Subperm (ys.map core))
    (hdistinct : (ys.map Entry.id).Nodup) (hx : x ∈ ys)
    (hid : x.id ∈ xs.map Entry.id) : core x ∈ xs.map core := by
  obtain ⟨y, hy, heq⟩ := List.mem_map.mp hid
  obtain ⟨z, hz, hcore⟩ := List.mem_map.mp (hsub.subset (List.mem_map_of_mem hy))
  have hzx : z = x := by
    apply List.inj_on_of_nodup_map hdistinct hz hx
    rw [← core_id z, hcore, core_id, heq]
  exact List.mem_map.mpr ⟨y, hy, by rw [← hcore, hzx]⟩

theorem listed_ids {id : Text}
    (hmem : id ∈ (choice p entries identity op).map Entry.id)
    (hremove : op ≠ .remove id) (hmove : ∀ id direction, op ≠ .move id direction)
    (hmoveTo : ∀ id targetId, op ≠ .moveTo id targetId) :
    id ∈ (listed p entries identity op).map Entry.id := by
  cases op with
  | remember remembered now profileId newId =>
    exact ((sort_perm _).map Entry.id).mem_iff.mpr hmem
  | setPinned other pinned =>
    have hids : (pin other pinned entries).map Entry.id =
        entries.map Entry.id := by
      rw [← ids_map_core, pin_core, ids_map_core]
    refine ((sort_perm _).map Entry.id).mem_iff.mpr ?_
    rwa [hids]
  | remove other =>
    obtain ⟨entry, hentry, rfl⟩ := List.mem_map.mp hmem
    have hne : entry.id ≠ other := by
      rintro rfl
      exact hremove rfl
    refine List.mem_map_of_mem ((sort_perm _).mem_iff.mpr ?_)
    simpa using ⟨hentry, hne⟩
  | move other direction => exact absurd rfl (hmove other direction)
  | moveTo other targetId => exact absurd rfl (hmoveTo other targetId)

theorem edit_kept (h : edit p entries identity op = .ok (some final))
    (hentry : entry ∈ entries) (hkept : ¬ Dropped p entries identity op entry.id) :
    entry.id ∈ final.map Entry.id := by
  rcases edit_cases h with ⟨rfl, -, hmove, hmoveTo⟩ | ⟨-, -, shown, hshown, rfl⟩
  · have hchoice : entry.id ∈ (choice p entries identity op).map Entry.id := by
      by_contra hnot
      exact hkept (.merged op entry.id hnot)
    have hremove : op ≠ .remove entry.id := by
      rintro rfl
      exact hkept (.removed entry.id)
    by_contra hnot
    exact hkept (.trimmed op entry.id (listed_ids hchoice hremove hmove hmoveTo) hnot)
  · have hmem : core entry ∈ shown.map core :=
      List.mem_map_of_mem (hshown.mem_iff.mpr hentry)
    rw [← number_core 0] at hmem
    rw [← ids_map_core]
    exact List.mem_map.mpr
      ⟨core entry, ((sort_perm _).map core).mem_iff.mpr hmem, rfl⟩

theorem edit_same (hdistinct : (entries.map Entry.id).Nodup)
    (hfresh : op.Fresh entries) (h : edit p entries identity op = .ok (some final))
    (hentry : entry ∈ entries) (hkept : ¬ Dropped p entries identity op entry.id)
    (hsame : ¬ Renewed p entries identity op entry.id) :
    core entry ∈ final.map core := by
  have hchoice : entry.id ∈ (choice p entries identity op).map Entry.id := by
    by_contra hnot
    exact hkept (.merged op entry.id hnot)
  obtain ⟨chosen, hchosen, hid⟩ := List.mem_map.mp hchoice
  rcases mem_choice hchosen with hold | hadded
  · have heq : chosen = entry :=
      List.inj_on_of_nodup_map hdistinct hold hentry hid
    exact core_mem_of_id_mem (edit_choice h)
      (choice_distinct hdistinct hfresh) (heq ▸ hchosen)
      (edit_kept h hentry hkept)
  · exact absurd ⟨chosen, hadded, hid⟩ hsame

theorem nextOrder_lt {n : Nat} (hn : 1 < n)
    (h : ∀ old ∈ entries, old.displayOrder + 1 < n) : nextOrder entries < n := by
  have hfold : ∀ (m : Nat), m < n → entries.foldl
      (fun order entry => max order (entry.displayOrder + 1)) m < n := by
    induction entries with
    | nil => exact fun m hm => hm
    | cons old rest ih =>
      simp only [List.forall_mem_cons] at h
      exact fun m hm => ih h.2 _ (max_lt hm h.1)
  exact hfold 1 hn

theorem remembered_displayOrder
    (h : ∀ old ∈ entries, old.displayOrder + 1 < counterLimit)
    (entry : Entry) (now : UInt64) (newId : Text) :
    (remembered p entries identity entry now newId).1.displayOrder <
      counterLimit := by
  have hone : 1 < counterLimit := by
    unfold counterLimit
    omega
  simp only [remembered]
  split
  · exact nextOrder_lt hone h
  · refine merge_displayOrder (Nat.zero_lt_of_lt hone) fun old hold => ?_
    have := h old hold
    omega

theorem edit_displayOrder (hlength : entries.length ≤ kMaxEntries + 1)
    (horder : ∀ old ∈ entries, old.displayOrder + 1 < counterLimit)
    (h : edit p entries identity op = .ok (some final)) :
    ∀ entry ∈ final, entry.displayOrder < counterLimit := by
  have hroom : 1000 < counterLimit := by
    unfold counterLimit
    omega
  have hold : ∀ old ∈ entries, old.displayOrder < counterLimit :=
    fun old hmem => by
      have := horder old hmem
      omega
  rcases edit_cases h with ⟨rfl, -, hmove, hmoveTo⟩ | ⟨-, -, shown, hshown, rfl⟩
  · intro entry hentry
    have hlisted := (trim_sublist 0 _).mem hentry
    cases op with
    | remember remembered now profileId newId =>
      rcases List.mem_append.mp ((sort_perm _).mem_iff.mp hlisted) with
        hkept | hnew
      · exact hold entry ((merge_sublist _ _).mem hkept)
      · rw [List.mem_singleton] at hnew
        subst hnew
        exact remembered_displayOrder horder _ _ _
    | setPinned id pinned =>
      have hmem := (sort_perm _).mem_iff.mp hlisted
      obtain ⟨old, hmember, rfl⟩ := List.mem_map.mp hmem
      split
      · exact hold old hmember
      · exact hold old hmember
    | remove id =>
      have hmem := (sort_perm _).mem_iff.mp hlisted
      exact hold entry (List.mem_filter.mp hmem).1
    | move id direction => exact absurd rfl (hmove id direction)
    | moveTo id targetId => exact absurd rfl (hmoveTo id targetId)
  · intro entry hentry
    have hle := number_le ((sort_perm _).mem_iff.mp hentry)
    rw [hshown.length_eq] at hle
    simp only [kMaxEntries] at hlength
    omega

end Edit

/-! ## Changes of the file -/

section Changes

variable {p : Platform} {d : Directory Text Section} {plan : List Change}
  {id : Text} {fields : Section}

theorem mem_apply {change : Change} {record : Text × Section}
    (h : record ∈ (change.apply d).entries) :
    record ∈ d.entries ∨ change = .write record.1 record.2 := by
  cases change with
  | write id fields =>
    simp only [Change.apply] at h
    split at h
    · obtain ⟨old, hold, rfl⟩ := Directory.mem_modify.mp h
      split
      · rename_i heq
        exact .inr (by simp [heq])
      · exact .inl hold
    · rcases Directory.mem_create h with h | ⟨rfl, -⟩
      · exact .inl h
      · exact .inr rfl
  | delete id => exact .inl (Directory.mem_remove.mp h).1

theorem mem_apply_all {record : Text × Section}
    (h : record ∈ (plan.foldl Change.apply d).entries) :
    record ∈ d.entries ∨ .write record.1 record.2 ∈ plan := by
  induction plan generalizing d with
  | nil => exact .inl h
  | cons change rest ih =>
    rcases ih h with hmem | hmem
    · rcases mem_apply hmem with hmem | rfl
      · exact .inl hmem
      · exact .inr List.mem_cons_self
    · exact .inr (List.mem_cons_of_mem _ hmem)

theorem names_apply {change : Change} (h : id ∈ d.names)
    (hkept : change ≠ .delete id) : id ∈ (change.apply d).names := by
  obtain ⟨record, hmem, rfl⟩ := List.mem_map.mp h
  cases change with
  | write id fields =>
    simp only [Change.apply]
    split
    · refine List.mem_map.mpr ⟨_, Directory.mem_modify.mpr
        ⟨record, hmem, rfl⟩, ?_⟩
      split <;> rfl
    · exact List.mem_map_of_mem (Directory.mem_create_of_mem hmem)
  | delete id =>
    have hne : record.1 ≠ id := by
      rintro rfl
      exact hkept rfl
    exact List.mem_map_of_mem (Directory.mem_remove.mpr ⟨hmem, by simp [hne]⟩)

theorem names_apply_all (h : id ∈ d.names) (hkept : .delete id ∉ plan) :
    id ∈ (plan.foldl Change.apply d).names := by
  induction plan generalizing d with
  | nil => exact h
  | cons change rest ih =>
    simp only [List.mem_cons, not_or] at hkept
    exact ih (names_apply h fun heq => hkept.1 heq.symm) hkept.2

theorem mem_apply_write (d : Directory Text Section) (id : Text)
    (fields : Section) :
    (id, fields) ∈ (Change.apply d (.write id fields)).entries := by
  simp only [Change.apply]
  split
  · rename_i hmem
    obtain ⟨record, hrecord, rfl⟩ := List.mem_map.mp hmem
    exact Directory.mem_modify.mpr ⟨record, hrecord, by simp⟩
  · rename_i hnew
    simp [Directory.create, hnew]

theorem mem_apply_kept {change : Change} (h : (id, fields) ∈ d.entries)
    (hdelete : change ≠ .delete id)
    (hwrite : ∀ fields', change = .write id fields' → fields' = fields) :
    (id, fields) ∈ (change.apply d).entries := by
  cases change with
  | write id' fields' =>
    by_cases heq : id' = id
    · subst heq
      obtain rfl := hwrite fields' rfl
      exact mem_apply_write d _ _
    · simp only [Change.apply]
      split
      · exact Directory.mem_modify.mpr ⟨_, h, by simp [Ne.symm heq]⟩
      · exact Directory.mem_create_of_mem h
  | delete id' =>
    have hne : id ≠ id' := by
      rintro rfl
      exact hdelete rfl
    exact Directory.mem_remove.mpr ⟨h, by simp [hne]⟩

theorem mem_apply_all_write (hwrite : .write id fields ∈ plan)
    (honly : ∀ fields', .write id fields' ∈ plan → fields' = fields)
    (hkept : .delete id ∉ plan) :
    (id, fields) ∈ (plan.foldl Change.apply d).entries := by
  have hstays : ∀ (rest : List Change) (d : Directory Text Section),
      (∀ fields', .write id fields' ∈ rest → fields' = fields) →
      .delete id ∉ rest → (id, fields) ∈ d.entries →
      (id, fields) ∈ (rest.foldl Change.apply d).entries := by
    intro rest
    induction rest with
    | nil => exact fun d _ _ h => h
    | cons change rest ih =>
      intro d honly hkept h
      simp only [List.mem_cons, not_or] at honly hkept
      refine ih _ (fun fields' hmem => honly fields' (.inr hmem)) hkept.2 ?_
      exact mem_apply_kept h (fun heq => hkept.1 heq.symm)
        fun fields' heq => honly fields' (.inl heq.symm)
  induction plan generalizing d with
  | nil => cases hwrite
  | cons change rest ih =>
    have honly' := fun fields' hmem =>
      honly fields' (List.mem_cons_of_mem change hmem)
    have hkept' := fun hmem => hkept (List.mem_cons_of_mem change hmem)
    rcases List.mem_cons.mp hwrite with rfl | hmem
    · exact hstays rest _ honly' hkept' (mem_apply_write d id fields)
    · exact ih hmem honly' hkept'

theorem names_apply_all_delete (hdelete : .delete id ∈ plan)
    (hwrite : ∀ fields, .write id fields ∉ plan) :
    id ∉ (plan.foldl Change.apply d).names := by
  induction plan generalizing d with
  | nil => cases hdelete
  | cons change rest ih =>
    simp only [List.mem_cons, not_or] at hwrite
    rcases List.mem_cons.mp hdelete with rfl | hmem
    · intro hname
      obtain ⟨record, hrecord, rfl⟩ := List.mem_map.mp hname
      have hrest : record ∈
          (rest.foldl Change.apply (d.remove [record.1])).entries := hrecord
      rcases mem_apply_all hrest with hold | hnew
      · simpa using (Directory.mem_remove.mp hold).2
      · exact (hwrite _).2 hnew
    · exact ih hmem fun fields => (hwrite fields).2

end Changes

/-! ## Reading a history -/

section Reading

variable {p : Platform} {identity : Text} {d : Directory Text Section}

def Legible (p : Platform) (identity : Text) (record : Text × Section) : Prop :=
  validId record.1 = true ∧ (decodeEntry p identity record.1 record.2).isSome = true

def decoded (p : Platform) (identity : Text)
    (records : List (Text × Section)) : List Entry :=
  records.filterMap fun record => decodeEntry p identity record.1 record.2

theorem load_eq_ok {records : List (Text × Section)} {loaded found : List Entry} :
    load p identity records loaded = .ok found ↔
      (∀ record ∈ records, Legible p identity record) ∧
      (records = [] ∨ loaded.length + records.length ≤ kMaxEntries + 1) ∧
      found = loaded ++ decoded p identity records := by
  induction records generalizing loaded with
  | nil => simp [load, decoded, eq_comm]
  | cons record rest ih =>
    obtain ⟨id, fields⟩ := record
    simp only [load, List.forall_mem_cons]
    cases hvalid : validId id with
    | false => simp [Legible, hvalid]
    | true =>
      cases hdecode : decodeEntry p identity id fields with
      | none => simp [Legible, hdecode]
      | some entry =>
        have hlegible : Legible p identity (id, fields) :=
          ⟨hvalid, by simp [hdecode]⟩
        simp only [Bool.true_eq_false, if_false, hlegible, true_and]
        split
        · rename_i hmany
          simp only [List.length_append, List.length_cons,
            List.length_nil] at hmany
          simp only [reduceCtorEq, List.length_cons, false_or, false_iff,
            not_and]
          omega
        · rename_i hfew
          simp only [List.length_append, List.length_cons,
            List.length_nil] at hfew
          rw [ih]
          simp only [decoded, List.filterMap_cons, hdecode,
            List.append_assoc, List.singleton_append, reduceCtorEq,
            List.length_append, List.length_cons, List.length_nil,
            false_or]
          have hcount : (rest = [] ∨
              loaded.length + (0 + 1) + rest.length ≤ kMaxEntries + 1) ↔
              loaded.length + (rest.length + 1) ≤ kMaxEntries + 1 := by
            constructor
            · rintro (rfl | h)
              · simpa using hfew
              · omega
            · intro h
              exact .inr (by omega)
          rw [hcount]

structure Accepted (p : Platform) (identity : Text)
    (d : Directory Text Section) : Prop where
  legible : ∀ record ∈ d.entries, Legible p identity record
  count : d.entries.length ≤ kMaxEntries + 1

theorem load_accepted {found : List Entry} :
    load p identity d.entries [] = .ok found ↔
      Accepted p identity d ∧ found = decoded p identity d.entries := by
  rw [load_eq_ok]
  simp only [List.length_nil, Nat.zero_add, List.nil_append]
  constructor
  · rintro ⟨hlegible, hcount, rfl⟩
    refine ⟨⟨hlegible, ?_⟩, rfl⟩
    rcases hcount with hnil | hcount
    · simp [hnil]
    · exact hcount
  · rintro ⟨⟨hlegible, hcount⟩, rfl⟩
    exact ⟨hlegible, .inr hcount, rfl⟩

theorem decoded_ids (h : ∀ record ∈ d.entries, Legible p identity record) :
    (decoded p identity d.entries).map Entry.id = d.names := by
  have hall : ∀ records : List (Text × Section),
      (∀ record ∈ records, Legible p identity record) →
      (decoded p identity records).map Entry.id = records.map Prod.fst := by
    intro records
    induction records with
    | nil => exact fun _ => rfl
    | cons record rest ih =>
      intro h
      simp only [List.forall_mem_cons] at h
      obtain ⟨entry, hentry⟩ := Option.isSome_iff_exists.mp h.1.2
      simp only [decoded, List.filterMap_cons, hentry, List.map_cons]
      rw [(stored_of_decodeEntry hentry).1]
      exact congrArg _ (ih h.2)
  exact hall d.entries h

theorem mem_decoded {records : List (Text × Section)} {entry : Entry} :
    entry ∈ decoded p identity records ↔
      ∃ record ∈ records, decodeEntry p identity record.1 record.2 = some entry := by
  simp [decoded]

theorem Stored.of_core {x y : Entry} (h : Stored p identity x)
    (hcore : core y = core x) (horder : y.displayOrder < counterLimit) :
    Stored p identity y := by
  have happ := congrArg Entry.app hcore
  have hshortcut := congrArg Entry.shortcut hcore
  have hused := congrArg Entry.lastUsed hcore
  have hprofile := congrArg Entry.profileId hcore
  simp only [core] at happ hshortcut hused hprofile
  exact ⟨hprofile.trans h.profileId, hused ▸ h.lastUsed, horder,
    happ ▸ h.target, by simpa only [Entry.texts, happ, hshortcut] using h.texts⟩

structure Given (p : Platform) (identity : Text) (d : Directory Text Section)
    (entries : List Entry) : Prop where
  ids : (entries.map Entry.id).Perm d.names
  recorded : ∀ entry ∈ entries, ∃ record ∈ d.entries, ∃ old,
    decodeEntry p identity record.1 record.2 = some old ∧ core old = core entry
  stored : ∀ entry ∈ entries, Stored p identity entry
  valid : ∀ entry ∈ entries, validId entry.id = true
  displayOrder : ∀ entry ∈ entries, entry.displayOrder + 1 < counterLimit
  count : entries.length ≤ kMaxEntries + 1

theorem Given.distinct {entries : List Entry}
    (h : Given p identity d entries) : (entries.map Entry.id).Nodup :=
  h.ids.nodup_iff.mpr d.distinct

theorem given_settle (h : Accepted p identity d) :
    Given p identity d (settle (decoded p identity d.entries)) := by
  have hids := decoded_ids h.legible
  have hcore := settle_core (decoded p identity d.entries)
  have hlength : (decoded p identity d.entries).length = d.entries.length := by
    have hnames := congrArg List.length hids
    simpa [Directory.names] using hnames
  have hcount : (decoded p identity d.entries).length ≤ kMaxEntries + 1 :=
    hlength.trans_le h.count
  have hfound : ∀ entry ∈ settle (decoded p identity d.entries),
      ∃ record ∈ d.entries, ∃ old,
        decodeEntry p identity record.1 record.2 = some old ∧
          core old = core entry := by
    intro entry hentry
    obtain ⟨old, hold, heq⟩ := List.mem_map.mp
      (hcore.mem_iff.mp (List.mem_map_of_mem hentry))
    obtain ⟨record, hrecord, hdecode⟩ := mem_decoded.mp hold
    exact ⟨record, hrecord, old, hdecode, heq⟩
  refine ⟨?_, hfound, ?_, ?_, fun _ => settle_displayOrder hcount, ?_⟩
  · have hmap := hcore.map Entry.id
    rwa [ids_map_core, ids_map_core, hids] at hmap
  · intro entry hentry
    obtain ⟨record, -, old, hdecode, heq⟩ := hfound entry hentry
    have horder := settle_displayOrder hcount hentry
    exact (stored_of_decodeEntry hdecode).2.of_core heq.symm (by omega)
  · intro entry hentry
    obtain ⟨record, hrecord, old, hdecode, heq⟩ := hfound entry hentry
    have hid : entry.id = record.1 :=
      (congrArg Entry.id heq).symm.trans (stored_of_decodeEntry hdecode).1
    rw [hid]
    exact (h.legible record hrecord).1
  · have hsame := hcore.length_eq
    simp only [List.length_map] at hsame
    omega

end Reading

/-! ## One operation -/

section Operation

variable {p : Platform} {identity : Text} {d : Directory Text Section}
  {entries final : List Entry} {op : Op} {plan : List Change}

theorem sameText_validId {a b : Text} (ha : validId a = true)
    (hb : validId b = true) : sameText p a b = true ↔ a = b := by
  have hlower : ∀ id : Text, validId id = true → id.map p.lower = id := by
    intro id hid
    simp only [validId, Bool.and_eq_true, List.all_eq_true] at hid
    calc id.map p.lower = id.map (fun c => c) :=
          List.map_congr_left fun c hc => p.lower_hex c (hid.2 c hc)
      _ = id := List.map_id' id
  simp [sameText, hlower a ha, hlower b hb]

theorem encoded_of_mapM {records : List Section}
    (h : final.mapM (encodeEntry p) = some records) :
    (∀ pair ∈ final.zip records, encodeEntry p pair.1 = some pair.2) ∧
      ∀ entry ∈ final, ∃ fields, (entry, fields) ∈ final.zip records := by
  induction final generalizing records with
  | nil => simp
  | cons entry rest ih =>
    rw [List.mapM_cons] at h
    obtain ⟨fields, hfields, h⟩ := of_bind_eq_some h
    obtain ⟨records', hrest, h⟩ := of_bind_eq_some h
    simp only [pure, Option.some.injEq] at h
    subst h
    obtain ⟨hpair, hall⟩ := ih hrest
    rw [List.zip_cons_cons]
    refine ⟨List.forall_mem_cons.mpr ⟨hfields, hpair⟩, ?_⟩
    refine List.forall_mem_cons.mpr ⟨⟨fields, List.mem_cons_self⟩, ?_⟩
    intro entry' hentry'
    obtain ⟨fields', hfields'⟩ := hall entry' hentry'
    exact ⟨fields', List.mem_cons_of_mem _ hfields'⟩

theorem write_mem_changes (h : changes p d final = .ok plan) {id : Text}
    {fields : Section} :
    .write id fields ∈ plan ↔ (d.get? id).getD {} ≠ fields ∧
      ∃ entry ∈ final, entry.id = id ∧ encodeEntry p entry = some fields := by
  simp only [changes] at h
  cases hrecords : final.mapM (encodeEntry p) with
  | none => simp [hrecords] at h
  | some records =>
    simp only [hrecords, Except.ok.injEq] at h
    subst h
    obtain ⟨hpair, hall⟩ := encoded_of_mapM hrecords
    simp only [List.mem_append, List.mem_filterMap, List.mem_map,
      reduceCtorEq, and_false, exists_false, or_false, Prod.exists,
      Option.ite_none_right_eq_some, Option.some.injEq, Change.write.injEq]
    constructor
    · rintro ⟨entry, fields', hmem, hdiffers, rfl, rfl⟩
      exact ⟨hdiffers, entry, (List.of_mem_zip hmem).1, rfl, hpair _ hmem⟩
    · rintro ⟨hdiffers, entry, hentry, rfl, hencode⟩
      obtain ⟨fields', hmem⟩ := hall entry hentry
      obtain rfl : fields' = fields :=
        Option.some.inj ((hpair _ hmem).symm.trans hencode)
      exact ⟨entry, fields', hmem, hdiffers, rfl, rfl⟩

theorem delete_mem_changes (h : changes p d final = .ok plan) {id : Text} :
    .delete id ∈ plan ↔
      id ∈ d.names ∧ ∀ entry ∈ final, sameText p id entry.id = false := by
  simp only [changes] at h
  cases hrecords : final.mapM (encodeEntry p) with
  | none => simp [hrecords] at h
  | some records =>
    simp only [hrecords, Except.ok.injEq] at h
    subst h
    simp [List.mem_append, List.mem_filterMap]

structure Planned (p : Platform) (identity : Text) (d : Directory Text Section)
    (entries : List Entry) (op : Op) (final : List Entry) (plan : List Change) :
    Prop where
  accepted : Accepted p identity d
  given : Given p identity d entries
  fresh : op.Fresh entries
  edit : edit p entries identity op = .ok (some final)
  changes : changes p d final = .ok plan

variable (h : Planned p identity d entries op final plan)

include h

theorem Planned.distinct : (final.map Entry.id).Nodup :=
  final_distinct h.given.distinct h.fresh h.edit

variable {entry : Entry}

theorem Planned.source (hentry : entry ∈ final) :
    (∃ old ∈ entries, core entry = core old) ∨
      ∃ added, op.added p entries identity = some added ∧
        core entry = core added := by
  obtain ⟨old, hold, hcore⟩ := List.mem_map.mp
    ((edit_choice h.edit).subset (List.mem_map_of_mem hentry))
  rcases mem_choice hold with hmem | hadded
  · exact .inl ⟨old, hmem, hcore.symm⟩
  · exact .inr ⟨old, hadded, hcore.symm⟩

theorem Planned.displayOrder (hentry : entry ∈ final) :
    entry.displayOrder < counterLimit :=
  edit_displayOrder h.given.count h.given.displayOrder h.edit entry hentry

theorem Planned.valid (hentry : entry ∈ final) :
    validId entry.id = true := by
  obtain ⟨old, hold, hcore⟩ := List.mem_map.mp
    ((edit_choice h.edit).subset (List.mem_map_of_mem hentry))
  have hid : entry.id = old.id := (congrArg Entry.id hcore).symm
  rw [hid]
  rcases edit_cases h.edit with ⟨-, hvalid, -⟩ | ⟨hchoice, -⟩
  · rcases hvalid old hold with hmem | hnew
    · exact h.given.valid old hmem
    · exact hnew
  · exact h.given.valid old (hchoice ▸ hold)

theorem Planned.notMem_delete (hentry : entry ∈ final) :
    .delete entry.id ∉ plan := by
  intro hdelete
  have hother := ((delete_mem_changes h.changes).mp hdelete).2 entry hentry
  have hvalid := h.valid hentry
  rw [(sameText_validId hvalid hvalid).mpr rfl] at hother
  cases hother

theorem Planned.write_unique {id : Text} {fields fields' : Section}
    (hwrite : .write id fields ∈ plan) (hwrite' : .write id fields' ∈ plan) :
    fields' = fields := by
  obtain ⟨-, entry, hentry, hid, hencode⟩ :=
    (write_mem_changes h.changes).mp hwrite
  obtain ⟨-, entry', hentry', hid', hencode'⟩ :=
    (write_mem_changes h.changes).mp hwrite'
  have hsame : entry' = entry :=
    List.inj_on_of_nodup_map h.distinct hentry' hentry (hid'.trans hid.symm)
  subst hsame
  exact Option.some.inj (hencode'.symm.trans hencode)

omit h in
theorem remembered_lastUsed (entry : Entry) (now : UInt64) (newId : Text)
    (n : Nat) :
    (remembered p entries identity entry now newId).1.lastUsed < n ↔
      now.toNat < n ∧ ∀ old ∈ entries, old.lastUsed + 1 < n := by
  simp only [remembered]
  exact merge_lastUsed _ _ n

theorem Planned.profileId (hentry : entry ∈ final) :
    entry.profileId = identity ∧ entry.lastUsed < 2 ^ 64 := by
  have hsmall : ∀ old ∈ entries, old.lastUsed + 1 < 2 ^ 64 := by
    intro old hold
    have hused := (h.given.stored old hold).lastUsed
    unfold counterLimit at hused
    omega
  rcases h.source hentry with ⟨old, hold, hcore⟩ | ⟨added, hadded, hcore⟩
  · have hprofile := congrArg Entry.profileId hcore
    have hused := congrArg Entry.lastUsed hcore
    have hroom := hsmall old hold
    simp only [core] at hprofile hused
    exact ⟨hprofile.trans (h.given.stored old hold).profileId, by omega⟩
  · have hprofile := congrArg Entry.profileId hcore
    have hused := congrArg Entry.lastUsed hcore
    simp only [core] at hprofile hused
    cases op with
    | remember new now profileId newId =>
      simp only [Op.added, Option.some.injEq] at hadded
      subst hadded
      refine ⟨hprofile.trans (merge_app _ _).2.2, hused.trans_lt ?_⟩
      exact (remembered_lastUsed _ _ _ _).mpr ⟨now.toNat_lt, hsmall⟩
    | _ => cases hadded

theorem Planned.legible {fields : Section}
    (hentry : entry ∈ final) (hencode : encodeEntry p entry = some fields) :
    decodeEntry p identity entry.id fields = rereadEntry p entry := by
  obtain ⟨hprofile, hused⟩ := h.profileId hentry
  have horder := h.displayOrder hentry
  unfold counterLimit at horder
  rw [← hprofile]
  exact decodeEntry_encodeEntry hencode hused (by omega)

structure Sound (p : Platform) (entries : List Entry) (done : List Change)
    (added : Entry) : Prop where
  lastUsed : added.lastUsed < counterLimit
  presentable : Presentable p added
  room : entries.length ≤ kMaxEntries ∨ added.id ∈ entries.map Entry.id ∨
    ∃ id, .delete id ∈ done

omit h in
theorem presentable_core {x y : Entry} (hcore : core x = core y)
    (hx : Presentable p x) : Presentable p y := by
  have happ := congrArg Entry.app hcore
  have hshortcut := congrArg Entry.shortcut hcore
  simp only [core] at happ hshortcut
  exact ⟨happ ▸ hx.target, by
    simpa only [Entry.texts, happ, hshortcut] using hx.texts⟩

theorem Planned.legible_added {added : Entry} {fields : Section}
    (hentry : entry ∈ final) (hcore : core entry = core added)
    (hencode : encodeEntry p entry = some fields) :
    Legible p identity (entry.id, fields) ↔
      added.lastUsed < counterLimit ∧ Presentable p added := by
  have hused := congrArg Entry.lastUsed hcore
  simp only [core] at hused
  simp only [Legible, h.valid hentry, h.legible hentry hencode,
    rereadEntry_isSome, h.displayOrder hentry, hused, true_and]
  constructor
  · rintro ⟨hlimit, hpresentable⟩
    exact ⟨hlimit, presentable_core hcore hpresentable⟩
  · rintro ⟨hlimit, hpresentable⟩
    exact ⟨hlimit, presentable_core hcore.symm hpresentable⟩

theorem Planned.decode_old {old : Entry} {fields : Section} (hentry : entry ∈ final)
    (hold : old ∈ entries) (hcore : core entry = core old)
    (hencode : encodeEntry p entry = some fields) :
    decodeEntry p identity entry.id fields = some entry := by
  have hstored := (h.given.stored old hold).of_core hcore (h.displayOrder hentry)
  rw [h.legible hentry hencode, rereadEntry_of_stored hstored]

theorem Planned.core_added {added : Entry} (hentry : entry ∈ final)
    (hadded : op.added p entries identity = some added)
    (hid : entry.id = added.id) : core entry = core added := by
  obtain ⟨chosen, hchosen, hcore⟩ := List.mem_map.mp
    ((edit_choice h.edit).subset (List.mem_map_of_mem hentry))
  have hsame : chosen = added := by
    apply List.inj_on_of_nodup_map (choice_distinct h.given.distinct h.fresh)
      hchosen (added_mem_choice hadded)
    exact (congrArg Entry.id hcore).trans hid
  rw [← hcore, hsame]

section Cut

variable (cut : Nat)

omit h in
theorem mem_plan {change : Change} (hmem : change ∈ plan.take cut) :
    change ∈ plan :=
  List.mem_of_mem_take hmem

theorem Planned.legible_iff :
    (∀ record ∈ ((plan.take cut).foldl Change.apply d).entries,
      Legible p identity record) ↔
    ∀ added fields, op.added p entries identity = some added →
      .write added.id fields ∈ plan.take cut →
      added.lastUsed < counterLimit ∧ Presentable p added := by
  constructor
  · intro hall added fields hadded hwrite
    obtain ⟨-, entry, hentry, hid, hencode⟩ :=
      (write_mem_changes h.changes).mp (mem_plan cut hwrite)
    have hrecord : (added.id, fields) ∈
        ((plan.take cut).foldl Change.apply d).entries := by
      apply mem_apply_all_write hwrite
      · intro fields' hother
        exact h.write_unique (mem_plan cut hwrite) (mem_plan cut hother)
      · intro hdelete
        exact h.notMem_delete hentry (hid ▸ mem_plan cut hdelete)
    have hlegible := hall _ hrecord
    rw [← hid] at hlegible
    exact (h.legible_added hentry (h.core_added hentry hadded hid)
      hencode).mp hlegible
  · intro hnew record hrecord
    rcases mem_apply_all hrecord with hmem | hwrite
    · exact h.accepted.legible record hmem
    · obtain ⟨-, entry, hentry, hid, hencode⟩ :=
        (write_mem_changes h.changes).mp (mem_plan cut hwrite)
      rcases h.source hentry with ⟨old, hmem, hcore⟩ | ⟨added, hadded, hcore⟩
      · have hdecode := h.decode_old hentry hmem hcore hencode
        rw [hid] at hdecode
        exact ⟨hid ▸ h.valid hentry, by simp [hdecode]⟩
      · have hsame : entry.id = added.id := by
          simpa using congrArg Entry.id hcore
        have hgood := hnew added record.2 hadded (by rwa [← hsame, hid])
        have hlegible := (h.legible_added hentry hcore hencode).mpr hgood
        rwa [hid] at hlegible

theorem Planned.name_cases {id : Text}
    (hname : id ∈ ((plan.take cut).foldl Change.apply d).names) :
    (id ∈ d.names ∧ .delete id ∉ plan.take cut) ∨
      ∃ added fields, op.added p entries identity = some added ∧
        .write added.id fields ∈ plan.take cut ∧ id = added.id := by
  by_cases hwritten : ∃ fields, Change.write id fields ∈ plan.take cut
  · obtain ⟨fields, hwrite⟩ := hwritten
    obtain ⟨-, entry, hentry, hid, -⟩ :=
      (write_mem_changes h.changes).mp (mem_plan cut hwrite)
    rcases h.source hentry with ⟨old, hold, hcore⟩ | ⟨added, hadded, hcore⟩
    · have hsame : entry.id = old.id := by
        simpa using congrArg Entry.id hcore
      refine .inl ⟨?_, fun hdelete =>
        h.notMem_delete hentry (hid ▸ mem_plan cut hdelete)⟩
      rw [← hid, hsame]
      exact h.given.ids.mem_iff.mp (List.mem_map_of_mem hold)
    · have hsame : entry.id = added.id := by
        simpa using congrArg Entry.id hcore
      have heq : id = added.id := hid.symm.trans hsame
      exact .inr ⟨added, fields, hadded, heq ▸ hwrite, heq⟩
  · have hwritten : ∀ fields, Change.write id fields ∉ plan.take cut :=
      fun fields hwrite => hwritten ⟨fields, hwrite⟩
    refine .inl ⟨?_, fun hdelete =>
      names_apply_all_delete hdelete hwritten hname⟩
    obtain ⟨record, hrecord, rfl⟩ := List.mem_map.mp hname
    rcases mem_apply_all hrecord with hold | hwrite
    · exact List.mem_map_of_mem hold
    · exact absurd hwrite (hwritten _)

theorem Planned.count_iff :
    ((plan.take cut).foldl Change.apply d).entries.length ≤ kMaxEntries + 1 ↔
    ∀ added fields, op.added p entries identity = some added →
      .write added.id fields ∈ plan.take cut →
      entries.length ≤ kMaxEntries ∨ added.id ∈ entries.map Entry.id ∨
        ∃ id, .delete id ∈ plan.take cut := by
  have hnames : ∀ {id}, id ∈ entries.map Entry.id ↔ id ∈ d.names :=
    h.given.ids.mem_iff
  have hlength : entries.length = d.names.length := by
    simpa using h.given.ids.length_eq
  have hcount : d.names.length ≤ kMaxEntries + 1 := by
    simpa [Directory.names] using h.accepted.count
  have hnext := ((plan.take cut).foldl Change.apply d).distinct
  have hsize : ((plan.take cut).foldl Change.apply d).entries.length =
      ((plan.take cut).foldl Change.apply d).names.length := by
    simp [Directory.names]
  rw [hsize]
  constructor
  · intro hfew added fields hadded hwrite
    by_contra hnone
    simp only [not_or, not_exists, hnames] at hnone
    obtain ⟨hfull, hnew, hdelete⟩ := hnone
    have hsub : (added.id :: d.names).Subperm
        ((plan.take cut).foldl Change.apply d).names := by
      apply List.subperm_of_subset
      · exact List.nodup_cons.mpr ⟨hnew, d.distinct⟩
      · refine List.cons_subset.mpr ⟨?_, fun id hid =>
          names_apply_all hid (hdelete id)⟩
        refine List.mem_map_of_mem (mem_apply_all_write hwrite ?_ (hdelete _))
        intro fields' hother
        exact h.write_unique (mem_plan cut hwrite) (mem_plan cut hother)
    have hmore := hsub.length_le
    simp only [List.length_cons] at hmore
    omega
  · intro hroom
    by_cases hadds : ∃ added fields, op.added p entries identity = some added ∧
        Change.write added.id fields ∈ plan.take cut ∧ added.id ∉ d.names
    · obtain ⟨added, fields, hadded, hwrite, hnew⟩ := hadds
      have hone : ∀ other, op.added p entries identity = some other →
          other = added := fun other hother =>
        Option.some.inj (hother.symm.trans hadded)
      rcases hroom added fields hadded hwrite with hfew | hold | ⟨gone, hgone⟩
      · have hsub : ((plan.take cut).foldl Change.apply d).names.Subperm
            (added.id :: d.names) := by
          apply List.subperm_of_subset hnext
          intro id hid
          rcases h.name_cases cut hid with ⟨hmem, -⟩ | ⟨other, -, hother, -, rfl⟩
          · exact List.mem_cons_of_mem _ hmem
          · rw [hone other hother]
            exact List.mem_cons_self
        have hmore := hsub.length_le
        simp only [List.length_cons] at hmore
        omega
      · exact absurd (hnames.mp hold) hnew
      · have hmem := ((delete_mem_changes h.changes).mp (mem_plan cut hgone)).1
        have hsub : ((plan.take cut).foldl Change.apply d).names.Subperm
            (added.id :: d.names.erase gone) := by
          apply List.subperm_of_subset hnext
          intro id hid
          rcases h.name_cases cut hid with ⟨hmem, hstays⟩ | ⟨other, -, hother, -, rfl⟩
          · refine List.mem_cons_of_mem _ ((List.mem_erase_of_ne ?_).mpr hmem)
            rintro rfl
            exact hstays hgone
          · rw [hone other hother]
            exact List.mem_cons_self
        have hmore := hsub.length_le
        simp only [List.length_cons, List.length_erase_of_mem hmem] at hmore
        have hpositive := List.length_pos_of_mem hmem
        omega
    · have hsub : ((plan.take cut).foldl Change.apply d).names.Subperm
          d.names := by
        apply List.subperm_of_subset hnext
        intro id hid
        rcases h.name_cases cut hid with ⟨hmem, -⟩ |
          ⟨added, fields, hadded, hwrite, rfl⟩
        · exact hmem
        · by_contra hnew
          exact hadds ⟨added, fields, hadded, hwrite, hnew⟩
      exact hsub.length_le.trans hcount

/-- What an interrupted operation leaves is read if and only if the record it
has added is sound. -/
theorem Planned.accepted_iff :
    Accepted p identity ((plan.take cut).foldl Change.apply d) ↔
    ∀ added fields, op.added p entries identity = some added →
      .write added.id fields ∈ plan.take cut →
      Sound p entries (plan.take cut) added := by
  constructor
  · rintro ⟨hlegible, hcount⟩ added fields hadded hwrite
    obtain ⟨hused, hpresentable⟩ :=
      (h.legible_iff cut).mp hlegible added fields hadded hwrite
    exact ⟨hused, hpresentable,
      (h.count_iff cut).mp hcount added fields hadded hwrite⟩
  · intro hsound
    constructor
    · refine (h.legible_iff cut).mpr fun added fields hadded hwrite => ?_
      have hadded := hsound added fields hadded hwrite
      exact ⟨hadded.lastUsed, hadded.presentable⟩
    · refine (h.count_iff cut).mpr fun added fields hadded hwrite => ?_
      exact (hsound added fields hadded hwrite).room

theorem Planned.name_kept {entry : Entry} (hentry : entry ∈ entries)
    (hkept : ¬ Dropped p entries identity op entry.id) :
    entry.id ∈ ((plan.take cut).foldl Change.apply d).names := by
  obtain ⟨same, hsame, hid⟩ := List.mem_map.mp (edit_kept h.edit hentry hkept)
  apply names_apply_all
  · exact h.given.ids.mem_iff.mp (List.mem_map_of_mem hentry)
  · intro hdelete
    exact h.notMem_delete hsame (hid ▸ mem_plan cut hdelete)

theorem Planned.decode_kept {entry : Entry} {record : Text × Section}
    (hentry : entry ∈ entries)
    (hkept : ¬ Dropped p entries identity op entry.id)
    (hsame : ¬ Renewed p entries identity op entry.id)
    (hrecord : record ∈ ((plan.take cut).foldl Change.apply d).entries)
    (hid : record.1 = entry.id) :
    ∃ found, decodeEntry p identity record.1 record.2 = some found ∧
      core found = core entry := by
  rcases mem_apply_all hrecord with hold | hwrite
  · obtain ⟨record', hrecord', old, hdecode, hcore⟩ :=
      h.given.recorded entry hentry
    have hname : record'.1 = record.1 := by
      rw [hid, ← (stored_of_decodeEntry hdecode).1]
      simpa using congrArg Entry.id hcore
    have heq := d.eq_of_name_eq hrecord' hold hname
    subst heq
    exact ⟨old, hdecode, hcore⟩
  · obtain ⟨-, written, hwritten, hid', hencode⟩ :=
      (write_mem_changes h.changes).mp (mem_plan cut hwrite)
    obtain ⟨stays, hstays, hcore⟩ := List.mem_map.mp (edit_same
      h.given.distinct h.fresh h.edit hentry hkept hsame)
    have hone : written = stays := by
      apply List.inj_on_of_nodup_map h.distinct hwritten hstays
      rw [hid', hid]
      simpa using (congrArg Entry.id hcore).symm
    subst hone
    have hdecode := h.decode_old hwritten hentry hcore hencode
    rw [hid'] at hdecode
    exact ⟨written, hdecode, hcore⟩

omit h in
theorem mem_settle_of_decode {record : Text × Section} {found : Entry}
    (hrecord : record ∈ d.entries)
    (hdecode : decodeEntry p identity record.1 record.2 = some found) :
    ∃ entry ∈ settle (decoded p identity d.entries), core entry = core found := by
  have hmem := mem_decoded.mpr ⟨record, hrecord, hdecode⟩
  have hcore := (settle_core _).mem_iff.mpr (List.mem_map_of_mem hmem)
  exact List.mem_map.mp hcore

/-- An entry that is not given up is read again, and is the same unless it is
the one that was remembered anew. -/
theorem Planned.kept {entry : Entry} (hentry : entry ∈ entries)
    (hafter : Accepted p identity ((plan.take cut).foldl Change.apply d))
    (hkept : ¬ Dropped p entries identity op entry.id) :
    ∃ entry' ∈ settle (decoded p identity
        ((plan.take cut).foldl Change.apply d).entries),
      entry'.id = entry.id ∧
      (¬ Renewed p entries identity op entry.id → core entry' = core entry) := by
  obtain ⟨record, hrecord, hid⟩ := List.mem_map.mp (h.name_kept cut hentry hkept)
  by_cases hsame : Renewed p entries identity op entry.id
  · obtain ⟨found, hdecode⟩ := Option.isSome_iff_exists.mp
      (hafter.legible record hrecord).2
    obtain ⟨entry', hentry', hcore⟩ := mem_settle_of_decode hrecord hdecode
    have hid' : entry'.id = found.id := by
      simpa using congrArg Entry.id hcore
    exact ⟨entry', hentry',
      hid'.trans ((stored_of_decodeEntry hdecode).1.trans hid),
      fun hnot => absurd hsame hnot⟩
  · obtain ⟨found, hdecode, hfound⟩ :=
      h.decode_kept cut hentry hkept hsame hrecord hid
    obtain ⟨entry', hentry', hcore⟩ := mem_settle_of_decode hrecord hdecode
    have hcore := hcore.trans hfound
    exact ⟨entry', hentry', by simpa using congrArg Entry.id hcore,
      fun _ => hcore⟩

end Cut

end Operation

end ProxyLane.App.RecentApplications
