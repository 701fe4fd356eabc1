import ProxyLane.App.RecentHistory

/-!
# Runs over the history

Stores of a profile run operations one after the other, each to its end or up
to one of its writes.
-/

namespace ProxyLane.App.RecentApplications

open ProxyLane.Foundation

section Bound

variable {p : Platform} {ini : Ini} {e : Event} {b : Bound}
  {entries : List Entry}

/-- `Store::Read` of the profile succeeds. -/
def Readable (p : Platform) (ini : Ini) : Prop :=
  ∃ entries, read p ini [] = .ok entries

instance : Decidable (Readable p ini) :=
  decidable_of_iff ((read p ini []).toOption.isSome = true) (by
    unfold Readable
    cases read p ini [] <;> simp [Except.toOption])

structure Loaded (p : Platform) (ini : Ini) (identity : Text)
    (entries : List Entry) : Prop where
  profile : ini.profile = true
  valid : validId identity = true
  accepted : Accepted p identity (ini.history identity)
  entries : entries = settle (decoded p identity (ini.history identity).entries)

theorem ne_nil_of_validId {id : Text} (h : validId id = true) : id ≠ [] := by
  rintro rfl
  cases h

theorem map_eq_ok {α β ε : Type} {x : Except ε α} {f : α → β} {b : β} :
    x.map f = .ok b ↔ ∃ a, x = .ok a ∧ f a = b := by
  cases x <;> simp [Except.map]

variable {identity : Text}

theorem loaded_of_load {loaded : List Entry}
    (hprofile : ini.profile = true) (hvalid : validId identity = true)
    (hload : load p identity (ini.history identity).entries [] = .ok loaded) :
    Loaded p ini identity (settle loaded) := by
  obtain ⟨haccepted, heq⟩ := load_accepted.mp hload
  exact ⟨hprofile, hvalid, haccepted, congrArg settle heq⟩

theorem read_eq_ok : read p ini [] = .ok entries ↔
    ((ini.profile = false ∨ ini.recentAppsId = []) ∧ entries = []) ∨
      (ini.recentAppsId ≠ [] ∧ Loaded p ini ini.recentAppsId entries) := by
  by_cases hnone : ini.profile = false ∨ ini.recentAppsId = []
  · have hbind : bindProfile ini false none = .ok ([], false) := by
      rcases hnone with h | h
      · simp [bindProfile, h]
      · simp [bindProfile, h]
    have hnot : ¬ (ini.recentAppsId ≠ [] ∧
        Loaded p ini ini.recentAppsId entries) := by
      rintro ⟨hid, hloaded⟩
      simp [hloaded.profile, hid] at hnone
    have hread : read p ini [] = .ok [] := by
      simp [read, readBound, hbind, Except.map, bind, Except.bind, pure, Except.pure]
    simp only [hread, hnone, hnot, true_and, or_false, Except.ok.injEq]
    exact eq_comm
  · simp only [not_or, Bool.not_eq_false] at hnone
    obtain ⟨hprofile, hid⟩ := hnone
    simp only [hprofile, hid, Bool.true_eq_false, or_false, false_and,
      false_or, ne_eq, not_false_eq_true, true_and]
    cases hvalid : validId ini.recentAppsId with
    | false =>
      constructor
      · intro h
        simp [read, readBound, bindProfile, hprofile, hid, hvalid, Except.map,
          bind, Except.bind] at h
      · intro h
        have hbad := h.valid
        simp [hvalid] at hbad
    | true =>
      have hread : read p ini [] =
          (load p ini.recentAppsId (ini.history ini.recentAppsId).entries
            []).map settle := by
        cases hload : load p ini.recentAppsId
            (ini.history ini.recentAppsId).entries [] with
        | error failure =>
          simp [read, readBound, bindProfile, hprofile, hid, hvalid, hload,
            Except.map, bind, Except.bind]
        | ok loaded =>
          simp [read, readBound, bindProfile, hprofile, hid, hvalid, hload,
            Except.map, bind, Except.bind, pure, Except.pure]
      rw [hread, map_eq_ok]
      simp only [load_accepted]
      constructor
      · rintro ⟨loaded, ⟨haccepted, rfl⟩, rfl⟩
        exact ⟨hprofile, hvalid, haccepted, rfl⟩
      · intro h
        exact ⟨_, ⟨h.accepted, rfl⟩, h.entries.symm⟩

theorem bindProfile_cases {create made : Bool} {newId : Option Guid}
    (h : bindProfile ini create newId = .ok (identity, made)) :
    (made = false ∧ identity = []) ∨
      ini.profile = true ∧ validId identity = true ∧
        (made = true ∧ create = true ∧ ini.recentAppsId = [] ∧
            (∃ guid, newId = some guid ∧ identity = guid.text) ∨
          made = false ∧ identity = ini.recentAppsId) := by
  simp only [bindProfile] at h
  split_ifs at h with hprofile hid hcreate hvalid
  · simp only [Except.ok.injEq, Prod.mk.injEq] at h
    exact .inl ⟨h.2.symm, h.1.symm⟩
  · cases newId with
    | none => cases h
    | some guid =>
      simp only [Except.ok.injEq, Prod.mk.injEq] at h
      obtain ⟨rfl, rfl⟩ := h
      exact .inr ⟨Bool.eq_true_of_not_eq_false hprofile, guid.valid,
        .inl ⟨rfl, hcreate, hid, guid, rfl, rfl⟩⟩
  · simp only [Except.ok.injEq, Prod.mk.injEq] at h
    exact .inl ⟨h.2.symm, h.1.symm⟩
  · simp only [Except.ok.injEq, Prod.mk.injEq] at h
    obtain ⟨rfl, rfl⟩ := h
    exact .inr ⟨Bool.eq_true_of_not_eq_false hprofile, hvalid, .inr ⟨rfl, rfl⟩⟩

/-- What a store reads before it edits: nothing of another profile, or the
history of the identity, which may be a new one. -/
theorem bound_cases (hb : e.bound p ini = .ok b) :
    (b.made = false ∧ b.identity = [] ∧ b.entries = []) ∨
      Loaded p ini b.identity b.entries ∧
        (b.made = true ∧ ini.recentAppsId = [] ∧
            (ini.history b.identity).entries = [] ∨
          b.made = false ∧ b.identity = ini.recentAppsId) := by
  unfold Event.bound readBound at hb
  cases hbind : bindProfile ini (e.op.creates e.expected) (e.op.unused ini) with
  | error failure =>
    simp only [hbind, bind, Except.bind, reduceCtorEq] at hb
  | ok bound =>
    obtain ⟨identity, made⟩ := bound
    simp only [hbind, bind, Except.bind] at hb
    have hcases := bindProfile_cases hbind
    split at hb
    · split at hb
      · cases hb
      · rename_i hcreate
        simp only [pure, Except.pure, Except.ok.injEq] at hb
        subst hb
        rcases hcases with ⟨rfl, -⟩ | ⟨-, -, ⟨-, hyes, -⟩ | ⟨rfl, -⟩⟩
        · exact .inl ⟨rfl, rfl, rfl⟩
        · exact absurd hyes hcreate
        · exact .inl ⟨rfl, rfl, rfl⟩
    · rename_i hown
      simp only [not_or] at hown
      split at hb
      · cases hb
      · rename_i loaded hload
        simp only [pure, Except.pure, Except.ok.injEq] at hb
        subst hb
        dsimp only
        rcases hcases with ⟨-, hnil⟩ | ⟨hprofile, hvalid, hmade⟩
        · exact absurd hnil hown.1
        · refine .inr ⟨loaded_of_load hprofile hvalid hload, ?_⟩
          rcases hmade with ⟨rfl, -, hnew, guid, hguid, hid⟩ | ⟨rfl, hid⟩
          · rw [hid]
            refine .inl ⟨rfl, hnew, ?_⟩
            cases hop : e.op with
            | remember entry now profileId newId =>
              simp only [hop, Op.unused, Option.filter_eq_some_iff,
                List.isEmpty_iff] at hguid
              exact hguid.2
            | _ => simp [hop, Op.unused] at hguid
          · exact .inr ⟨rfl, hid⟩

theorem readable_iff {ini : Ini} (hprofile : ini.profile = true)
    (hvalid : validId ini.recentAppsId = true) : Readable p ini ↔
      Accepted p ini.recentAppsId (ini.history ini.recentAppsId) := by
  have hid := ne_nil_of_validId hvalid
  simp only [Readable, read_eq_ok, hprofile, hid, Bool.true_eq_false,
    or_false, false_and, false_or, ne_eq, not_false_eq_true, true_and]
  constructor
  · rintro ⟨entries, hloaded⟩
    exact hloaded.accepted
  · intro haccepted
    exact ⟨_, hprofile, hvalid, haccepted, rfl⟩

theorem read_of_accepted (hprofile : ini.profile = true)
    (hvalid : validId ini.recentAppsId = true)
    (haccepted : Accepted p ini.recentAppsId (ini.history ini.recentAppsId)) :
    read p ini [] = .ok (settle (decoded p ini.recentAppsId
      (ini.history ini.recentAppsId).entries)) :=
  read_eq_ok.mpr (.inr ⟨ne_nil_of_validId hvalid, hprofile, hvalid, haccepted, rfl⟩)

theorem Loaded.given (h : Loaded p ini identity entries) :
    Given p identity (ini.history identity) entries :=
  h.entries ▸ given_settle h.accepted

theorem nil_notMem_ids (h : Loaded p ini identity entries) :
    [] ∉ entries.map Entry.id := by
  intro hmem
  obtain ⟨entry, hentry, hid⟩ := List.mem_map.mp hmem
  exact ne_nil_of_validId (h.given.valid entry hentry) hid

theorem renew_notMem {newId : Option Guid} (h : Loaded p ini identity entries) :
    ((newId.filter fun guid => decide (guid.text ∉
      (ini.history identity).names)).map Guid.text).getD [] ∉
        entries.map Entry.id := by
  cases hnew : newId.filter fun guid => decide (guid.text ∉
      (ini.history identity).names) with
  | none => exact nil_notMem_ids h
  | some guid =>
    simp only [Option.filter_eq_some_iff, decide_eq_true_eq] at hnew
    intro hmem
    exact hnew.2 (h.given.ids.mem_iff.mp hmem)

theorem renew_fresh (h : Loaded p ini identity entries)
    (op : Op) : (op.renew (ini.history identity)).Fresh entries := by
  cases op with
  | remember entry now profileId newId => exact renew_notMem h
  | _ => trivial

private theorem ok_of_ite {α ε : Type} {c : Prop} [Decidable c] {x : Except ε α}
    {failure : ε} {a : α}
    (h : (if c then x else .error failure) = .ok a) : x = .ok a := by
  split at h
  · exact h
  · cases h

theorem edit_of_edited {result : Option (List Entry)}
    (h : e.edited p ini b = .ok result) :
    edit p b.entries b.identity (e.op.renew (ini.history b.identity)) =
      .ok result := by
  simp only [Event.edited] at h
  exact ok_of_ite h

theorem plan_cases (e : Event) (ini : Ini) (b : Bound) : e.plan p ini b = [] ∨
    ∃ final, e.edited p ini b = .ok (some final) ∧
      changes p (ini.history b.identity) final = .ok (e.plan p ini b) := by
  unfold Event.plan
  cases hedited : e.edited p ini b with
  | error failure => exact .inl rfl
  | ok result =>
    cases result with
    | none => exact .inl rfl
    | some final =>
      cases hchanges : changes p (ini.history b.identity) final with
      | error failure => exact .inl (by simp only [hchanges])
      | ok plan =>
        exact .inr ⟨final, rfl, by simp only [hchanges]⟩

theorem foreign_plan (hidentity : b.identity = []) (hentries : b.entries = []) :
    e.plan p ini b = [] := by
  have hedited : ∀ final, e.edited p ini b ≠ .ok (some final) := by
    intro final
    cases hop : e.op with
    | remember entry now profileId newId =>
      simp [Event.edited, hop, hidentity]
    | setPinned id pinned =>
      simp [Event.edited, hop, hentries, Op.renew, edit]
    | remove id => simp [Event.edited, hop, hentries, Op.renew, edit]
    | move id direction =>
      simp only [Event.edited, hop, hentries, Op.renew, edit, moveBy, if_true]
      split <;> simp [sortForDisplay, stableSort]
    | moveTo id targetId =>
      simp [Event.edited, hop, hentries, Op.renew, edit, moveTo,
        sortForDisplay, stableSort]
  unfold Event.plan
  split
  · rename_i final hfinal
    exact absurd hfinal (hedited final)
  · rfl

theorem step_foreign (hb : e.bound p ini = .ok b) (hmade : b.made = false)
    (hplan : e.plan p ini b = []) : step p ini e = ini := by
  simp [step, hb, hmade, Event.done, hplan]

theorem step_unmade (hb : e.bound p ini = .ok b) (hmade : b.made = true)
    (hcut : e.cut = 0) : step p ini e = ini := by
  simp [step, hb, hmade, hcut]

def Event.Records (p : Platform) (ini : Ini) (e : Event) (b : Bound)
    (added : Entry) : Prop :=
  (e.op.renew (ini.history b.identity)).added p b.entries b.identity =
      some added ∧
    ∃ fields, .write added.id fields ∈ e.done p ini b

theorem step_of_loaded (hb : e.bound p ini = .ok b)
    (hcases : b.made = true ∧ ini.recentAppsId = [] ∧
        (ini.history b.identity).entries = [] ∨
      b.made = false ∧ b.identity = ini.recentAppsId)
    (hcut : ¬ (b.made = true ∧ e.cut = 0)) :
    (step p ini e).profile = ini.profile ∧
      (step p ini e).recentAppsId = b.identity ∧
      (step p ini e).history b.identity =
        (e.done p ini b).foldl Change.apply (ini.history b.identity) := by
  simp only [step, hb, hcut, if_false, Function.update_self, true_and, and_true]
  rcases hcases with ⟨hmade, -⟩ | ⟨hmade, hid⟩
  · simp [hmade]
  · simp [hmade, hid]

theorem planned_of_loaded {final : List Entry}
    (hloaded : Loaded p ini b.identity b.entries)
    (hedited : e.edited p ini b = .ok (some final))
    (hchanges : changes p (ini.history b.identity) final = .ok (e.plan p ini b)) :
    Planned p b.identity (ini.history b.identity) b.entries
      (e.op.renew (ini.history b.identity)) final (e.plan p ini b) :=
  ⟨hloaded.accepted, hloaded.given, renew_fresh hloaded e.op,
    edit_of_edited hedited, hchanges⟩

theorem step_readable (hread : Readable p ini) (hb : e.bound p ini = .ok b) :
    Readable p (step p ini e) ↔ ∀ added, e.Records p ini b added →
      Sound p b.entries (e.done p ini b) added := by
  rcases bound_cases hb with ⟨hmade, hidentity, hentries⟩ | ⟨hloaded, hcases⟩
  · have hplan : e.plan p ini b = [] := foreign_plan hidentity hentries
    simp [step_foreign hb hmade hplan, hread, Event.Records, Event.done, hplan]
  · by_cases hcut : b.made = true ∧ e.cut = 0
    · have hdone : e.done p ini b = [] := by simp [Event.done, hcut]
      simp [step_unmade hb hcut.1 hcut.2, hread, Event.Records, hdone]
    · obtain ⟨hprofile, hid, hhistory⟩ := step_of_loaded hb hcases hcut
      have hiff := readable_iff (p := p) (hprofile.trans hloaded.profile)
        (hid ▸ hloaded.valid)
      rw [hiff, hid, hhistory]
      rcases plan_cases (p := p) e ini b with hplan | ⟨final, hedited, hchanges⟩
      · simp [Event.Records, Event.done, hplan, hloaded.accepted]
      · have hplanned := planned_of_loaded hloaded hedited hchanges
        simp only [Event.done, hplanned.accepted_iff, Event.Records]
        constructor
        · rintro hsound added ⟨hadded, fields, hwrite⟩
          exact hsound added fields hadded hwrite
        · intro hsound added fields hadded hwrite
          exact hsound added ⟨hadded, fields, hwrite⟩

def Event.GivesUp (p : Platform) (ini : Ini) (e : Event) (id : Text) : Prop :=
  ∃ b final, e.bound p ini = .ok b ∧ e.edited p ini b = .ok (some final) ∧
    Dropped p b.entries b.identity (e.op.renew (ini.history b.identity)) id

def Event.Renews (p : Platform) (ini : Ini) (e : Event) (id : Text) : Prop :=
  ∃ b final, e.bound p ini = .ok b ∧ e.edited p ini b = .ok (some final) ∧
    Renewed p b.entries b.identity (e.op.renew (ini.history b.identity)) id

theorem step_kept {entry : Entry} (hread : read p ini [] = .ok entries)
    (hafter : Readable p (step p ini e)) (hentry : entry ∈ entries)
    (hkept : ¬ e.GivesUp p ini entry.id) :
    ∃ entries', read p (step p ini e) [] = .ok entries' ∧
      ∃ entry' ∈ entries', entry'.id = entry.id ∧
        (¬ e.Renews p ini entry.id → core entry' = core entry) := by
  have hstays : step p ini e = ini → ∃ entries',
      read p (step p ini e) [] = .ok entries' ∧ ∃ entry' ∈ entries',
        entry'.id = entry.id ∧
        (¬ e.Renews p ini entry.id → core entry' = core entry) := by
    intro hsame
    rw [hsame]
    exact ⟨entries, hread, entry, hentry, rfl, fun _ => rfl⟩
  cases hb : e.bound p ini with
  | error failure => exact hstays (by simp [step, hb])
  | ok b =>
    rcases bound_cases hb with ⟨hmade, hid, hnone⟩ | ⟨hloaded, hcases⟩
    · exact hstays (step_foreign hb hmade (foreign_plan hid hnone))
    · rcases read_eq_ok.mp hread with ⟨-, rfl⟩ | ⟨hid, hown⟩
      · cases hentry
      · rcases hcases with ⟨-, hnil, -⟩ | ⟨hmade, hsame⟩
        · exact absurd hnil hid
        · have hentries : b.entries = entries := by
            rw [hloaded.entries, hown.entries, hsame]
          rcases plan_cases (p := p) e ini b with
            hplan | ⟨final, hedited, hchanges⟩
          · exact hstays (step_foreign hb hmade hplan)
          · have hplanned := planned_of_loaded hloaded hedited hchanges
            obtain ⟨hprofile, hid', hhistory⟩ :=
              step_of_loaded hb (.inr ⟨hmade, hsame⟩) (by simp [hmade])
            have hprofile' := hprofile.trans hloaded.profile
            have hvalid := hid' ▸ hloaded.valid
            have haccepted := (readable_iff hprofile' hvalid).mp hafter
            have hfinal := read_of_accepted hprofile' hvalid haccepted
            rw [hid', hhistory] at haccepted hfinal
            obtain ⟨entry', hentry', hid, hcore⟩ := hplanned.kept
              (e.cut - b.made.toNat) (hentries ▸ hentry) haccepted
              fun hdropped => hkept ⟨b, final, hb, hedited, hdropped⟩
            exact ⟨_, hfinal, entry', hentry', hid, fun hnot =>
              hcore fun hrenewed => hnot ⟨b, final, hb, hedited, hrenewed⟩⟩

/-- A `Remember` that writes the record of its entry leaves what can be read:
the record can be, and there is room for one more, or the entry takes the place
of an old one, or a record is deleted before the call ends. -/
structure Harmless (p : Platform) (entries : List Entry) (done : List Change)
    (entry : Entry) (now : UInt64) : Prop where
  now : now.toNat < counterLimit
  lastUsed : ∀ old ∈ entries, old.lastUsed + 1 < counterLimit
  presentable : Presentable p entry
  room : entries.length ≤ kMaxEntries ∨
    (∃ old ∈ entries, Matches p entry old) ∨ ∃ id, .delete id ∈ done

/-- The operation is no `Remember` that spoils the history. -/
def Event.Fine (p : Platform) (ini : Ini) (e : Event) : Prop :=
  match e.op with
  | .remember entry now _ _ => ∀ b added, e.bound p ini = .ok b →
      e.Records p ini b added →
      Harmless p b.entries (e.done p ini b) entry now
  | _ => True

theorem sound_iff {done : List Change} {entry : Entry} {now : UInt64} {newId : Text}
    (hfresh : newId ∉ entries.map Entry.id) (hvalid : [] ∉ entries.map Entry.id) :
    Sound p entries done (remembered p entries identity entry now newId).1 ↔
      Harmless p entries done entry now := by
  have hpresentable : Presentable p
      (remembered p entries identity entry now newId).1 ↔
      Presentable p entry := by
    obtain ⟨happ, hshortcut, -⟩ := merge_app (p := p) { entry with
      profileId := identity, displayOrder := 0, lastUsed := now.toNat } entries
    constructor
    · rintro ⟨htarget, htexts⟩
      simp only [remembered, Entry.texts, happ, hshortcut] at htarget htexts
      exact ⟨htarget, htexts⟩
    · rintro ⟨htarget, htexts⟩
      constructor
      · simpa only [remembered, happ] using htarget
      · simpa only [remembered, Entry.texts, happ, hshortcut] using htexts
  constructor
  · rintro ⟨hused, hshown, hroom⟩
    obtain ⟨hnow, hold⟩ := (remembered_lastUsed _ _ _ _).mp hused
    rw [remembered_id_mem hfresh hvalid] at hroom
    exact ⟨hnow, hold, hpresentable.mp hshown, hroom⟩
  · rintro ⟨hnow, hold, hshown, hroom⟩
    refine ⟨(remembered_lastUsed _ _ _ _).mpr ⟨hnow, hold⟩,
      hpresentable.mpr hshown, ?_⟩
    rwa [remembered_id_mem hfresh hvalid]

theorem fine_iff (hb : e.bound p ini = .ok b) : e.Fine p ini ↔
    ∀ added, e.Records p ini b added → Sound p b.entries (e.done p ini b) added := by
  cases hop : e.op with
  | remember entry now profileId newId =>
    have hiff : ∀ added, e.Records p ini b added →
        (Sound p b.entries (e.done p ini b) added ↔
          Harmless p b.entries (e.done p ini b) entry now) := by
      rintro added ⟨hadded, fields, hwrite⟩
      rcases bound_cases hb with ⟨-, hid, hnone⟩ | ⟨hloaded, -⟩
      · simp [Event.done, foreign_plan hid hnone] at hwrite
      · simp only [hop, Op.renew, Op.added, Option.some.injEq] at hadded
        rw [← hadded]
        exact sound_iff (renew_notMem hloaded) (nil_notMem_ids hloaded)
    simp only [Event.Fine, hop]
    constructor
    · intro hfine added hrecords
      exact (hiff added hrecords).mpr (hfine b added hb hrecords)
    · intro hsound b' added hb' hrecords
      obtain rfl : b = b' := Except.ok.inj (hb.symm.trans hb')
      exact (hiff added hrecords).mp (hsound added hrecords)
  | _ => simp [Event.Fine, Event.Records, hop, Op.renew, Op.added]

theorem step_fine (hread : Readable p ini) :
    Readable p (step p ini e) ↔ e.Fine p ini := by
  cases hb : e.bound p ini with
  | error failure =>
    have hsame : step p ini e = ini := by simp [step, hb]
    have hfine : e.Fine p ini := by
      unfold Event.Fine
      split
      · intro b added hbound
        cases hb.symm.trans hbound
      · trivial
    simp [hsame, hread, hfine]
  | ok b => rw [step_readable hread hb, fine_iff hb]

theorem run_readable (hread : Readable p ini) {events : List Event}
    (h : Admissible (step p) (fun ini e => e.Fine p ini) ini events) :
    Readable p (run (step p) ini events) := by
  have hstep : ∀ s e, Readable p s → Event.Fine p s e → Readable p (step p s e) :=
    fun _ _ hread hfine => (step_fine hread).mpr hfine
  exact run_invariant hstep hread h

theorem admissible_of_readable (hread : Readable p ini) {events : List Event}
    (h : ∀ n, Readable p (run (step p) ini (events.take n))) :
    Admissible (step p) (fun ini e => e.Fine p ini) ini events := by
  induction events generalizing ini with
  | nil => trivial
  | cons e rest ih =>
    have hnext : Readable p (step p ini e) := h 1
    exact ⟨(step_fine hread).mp hnext, ih hnext fun n => h (n + 1)⟩

theorem run_kept {events : List Event} {entry : Entry}
    (hfine : Admissible (step p) (fun ini e => e.Fine p ini) ini events)
    (hread : read p ini [] = .ok entries) (hentry : entry ∈ entries)
    (hkept : Admissible (step p) (fun ini e => ¬ e.GivesUp p ini entry.id) ini
      events) :
    ∃ entries', read p (run (step p) ini events) [] = .ok entries' ∧
      ∃ entry' ∈ entries', entry'.id = entry.id ∧
        (Admissible (step p) (fun ini e => ¬ e.Renews p ini entry.id) ini
          events → core entry' = core entry) := by
  induction events generalizing ini entries entry with
  | nil => exact ⟨entries, hread, entry, hentry, rfl, fun _ => rfl⟩
  | cons e rest ih =>
    have hafter := (step_fine ⟨entries, hread⟩).mpr hfine.1
    obtain ⟨entries', hread', entry', hentry', hid, hsame⟩ :=
      step_kept hread hafter hentry hkept.1
    obtain ⟨final, hfinal, last, hlast, hid', hsame'⟩ :=
      ih hfine.2 hread' hentry' (hid ▸ hkept.2)
    refine ⟨final, hfinal, last, hlast, hid'.trans hid, fun hrenews => ?_⟩
    exact (hsame' (hid ▸ hrenews.2)).trans (hsame hrenews.1)

/-- A history that is read stays readable through a run if and only if every
`Remember` of the run is fine; then an entry that was there at any point is
there at the end, unless an operation gave it up. -/
theorem history_survives (hread : Readable p ini) (events : List Event) :
    ((∀ n, Readable p (run (step p) ini (events.take n))) ↔
      Admissible (step p) (fun ini e => e.Fine p ini) ini events) ∧
    (Admissible (step p) (fun ini e => e.Fine p ini) ini events →
      ∀ before after entries entry, events = before ++ after →
      read p (run (step p) ini before) [] = .ok entries → entry ∈ entries →
      Admissible (step p) (fun ini e => ¬ e.GivesUp p ini entry.id)
        (run (step p) ini before) after →
      ∃ entries', read p (run (step p) ini events) [] = .ok entries' ∧
        ∃ entry' ∈ entries', entry'.id = entry.id ∧
          (Admissible (step p) (fun ini e => ¬ e.Renews p ini entry.id)
            (run (step p) ini before) after → core entry' = core entry)) := by
  refine ⟨⟨admissible_of_readable hread, fun h n => ?_⟩, ?_⟩
  · rw [← List.take_append_drop n events] at h
    exact run_readable hread (admissible_append.mp h).1
  · rintro hfine before after entries entry rfl hentries hentry hkept
    rw [run_append]
    exact run_kept (admissible_append.mp hfine).2 hentries hentry hkept

end Bound

def ascii : Platform where
  lower := id
  lower_hex _ _ := rfl
  wideCharToMultiByte text := text.map fun c => UInt8.ofNat c.toNat
  multiByteToWideChar bytes := some (bytes.map fun b => UInt16.ofNat b.toNat)

def sampleId (c : Char) : Text := List.replicate 32 (unit c)

def sampleIni (lastUsed : Nat) : Ini where
  profile := true
  recentAppsId := sampleId 'a'
  history identity := if identity = sampleId 'a' then
      Directory.empty.create (sampleId 'b') ((encodeEntry ascii {
        id := sampleId 'b', profileId := sampleId 'a', lastUsed
        app := { path := wide "C:\\a.exe" } }).getD {})
    else Directory.empty

def sampleRemember : Event where
  op := .remember { app := { path := wide "C:\\b.exe" } } 134000000000000000
    none (some ⟨sampleId 'c', by decide⟩)
  cut := 1

theorem history_survives_sample :
    sampleRemember.Fine ascii (sampleIni 1) ∧
      ∃ entries, read ascii (run (step ascii) (sampleIni 1) [sampleRemember]) [] =
        .ok entries ∧ sampleId 'b' ∈ entries.map Entry.id := by
  have hread : Readable ascii (sampleIni 1) := by decide +kernel
  have hfine : sampleRemember.Fine ascii (sampleIni 1) :=
    (step_fine hread).1 (by decide +kernel)
  refine ⟨hfine, ?_⟩
  have hids : (read ascii (sampleIni 1) []).toOption.map (·.map Entry.id) =
      some [sampleId 'b'] := by
    decide +kernel
  have hchosen : (sampleRemember.bound ascii (sampleIni 1)).toOption.all fun b =>
      let op := sampleRemember.op.renew ((sampleIni 1).history b.identity)
      sampleId 'b' ∈ (choice ascii b.entries b.identity op).map Entry.id ∧
        sampleId 'b' ∈ (trim 0 (listed ascii b.entries b.identity op)).map Entry.id := by
    decide +kernel
  obtain ⟨entries, hentries⟩ := hread
  obtain ⟨entry, rfl, hid⟩ : ∃ entry, entries = [entry] ∧ entry.id = sampleId 'b' := by
    simpa [hentries, Except.toOption, List.map_eq_singleton_iff] using hids
  have hkept : ¬ sampleRemember.GivesUp ascii (sampleIni 1) entry.id := by
    rintro ⟨b, -, hb, -, hdropped⟩
    simp only [hb, Except.toOption, Option.all_some, decide_eq_true_eq] at hchosen
    rw [hid] at hdropped
    generalize hop : sampleRemember.op.renew _ = op at hdropped hchosen
    cases hdropped with
    | removed => cases hop
    | merged _ _ hgone => exact hgone hchosen.1
    | trimmed _ _ _ hgone => exact hgone hchosen.2
  obtain ⟨entries', hentries', entry', hmem, hid', -⟩ :=
    (history_survives ⟨_, hentries⟩ [sampleRemember]).2 ⟨hfine, trivial⟩ [] _ _ entry
      rfl hentries (by simp) ⟨hkept, trivial⟩
  exact ⟨entries', hentries', List.mem_map.2 ⟨entry', hmem, hid'.trans hid⟩⟩

theorem history_lost :
    Readable ascii (sampleIni 18446744073709551614) ∧
    ¬ Readable ascii (run (step ascii) (sampleIni 18446744073709551614)
      [sampleRemember]) := by
  decide +kernel

end ProxyLane.App.RecentApplications
