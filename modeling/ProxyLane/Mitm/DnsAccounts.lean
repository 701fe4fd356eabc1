import ProxyLane.Mitm.DnsDelivery

/-!
# Accounting for DNS transactions

Resident and spilled transactions together are the open items of a ledger.
Moving one to a file and back permutes the list; a query adds to it, and
every other record of the tracker ends one item of it.
-/

namespace ProxyLane.Mitm

open Foundation Protocol

theorem perm_cons_eraseP {α : Type} {p : α → Bool} {l : List α} {a : α}
    (h : l.find? p = some a) : l.Perm (a :: l.eraseP p) := by
  induction l with
  | nil => simp at h
  | cons b l ih =>
    by_cases hb : p b = true
    · rw [List.find?_cons_of_pos hb] at h
      cases h
      rw [List.eraseP_cons_of_pos hb]
    · rw [List.find?_cons_of_neg hb] at h
      rw [List.eraseP_cons_of_neg hb]
      exact ((ih h).cons b).trans (List.Perm.swap a b _)

def Transaction.ticket (t : Transaction) : Nat × String := (t.id, t.key)

structure Moment.Sound (m : Moment) : Prop where
  room : m.resident.length ≤ pendingLimit
  keys : ((m.resident ++ m.spilled).map Transaction.key).Nodup

/-- A record that answers a response belongs to a query of the response's
key that was opened before and has not ended. -/
def Answers (before : List (Report String (DnsRecord × Option Packet)))
    (e : Report String (DnsRecord × Option Packet)) : Prop :=
  ∀ p, e.about.2 = some p → p.response = true ∧ p.key = e.key ∧
    (∃ q ∈ before, q.id = e.id ∧ q.key = e.key ∧ q.finished = false) ∧
    ∀ q ∈ before, q.id = e.id → q.finished = false

namespace Dns

variable {lib : DnsLib} {disk : Disk} {s s' : Dns}

def opened (s : Dns) : List Transaction := s.pending ++ s.files.map Prod.snd

def Distinct (lib : DnsLib) (s : Dns) : Prop :=
  ∀ k ∈ s.seen, ∀ k' ∈ s.seen, lib.digest k = lib.digest k' → k = k'

theorem Distinct.before (h : Distinct lib s') (hseen : s.seen ⊆ s'.seen) :
    Distinct lib s :=
  fun k hk k' hk' => h k (hseen hk) k' (hseen hk')

theorem Distinct.congr (h : Distinct lib s) (hseen : s'.seen = s.seen) :
    Distinct lib s' :=
  h.before (by rw [hseen]; exact List.Subset.refl _)

structure Tracked (lib : DnsLib) (s : Dns) : Prop where
  books : Accounted (s.opened.map Transaction.ticket) s.next s.log
  answers : Justified Answers s.log
  keys : (s.opened.map Transaction.key).Nodup
  room : s.pending.length ≤ pendingLimit
  filed : ∀ f ∈ s.files, ∃ dir, s.spill = some dir ∧ f.1 = lib.spillName dir f.2.key
  known : ∀ t ∈ s.opened, t.key ∈ s.seen
  sound : ∀ m ∈ s.moments, m.Sound

/-! ## Changes that do not concern the ledger -/

/-- Equal in all that `Tracked` is about. -/
structure Same (s s' : Dns) : Prop where
  spill : s'.spill = s.spill
  pending : s'.pending = s.pending
  files : s'.files = s.files
  next : s'.next = s.next
  log : s'.log = s.log
  moments : s'.moments = s.moments
  seen : s'.seen = s.seen

theorem Same.trans {s'' : Dns} (h : Same s s') (h' : Same s' s'') :
    Same s s'' := by
  constructor
  · rw [h'.spill, h.spill]
  · rw [h'.pending, h.pending]
  · rw [h'.files, h.files]
  · rw [h'.next, h.next]
  · rw [h'.log, h.log]
  · rw [h'.moments, h.moments]
  · rw [h'.seen, h.seen]

theorem Same.opened (h : Same s s') : s'.opened = s.opened := by
  simp [Dns.opened, h.pending, h.files]

theorem Same.tracked (h : Same s s') (ht : Tracked lib s) : Tracked lib s' := by
  constructor
  · rw [h.opened, h.next, h.log]
    exact ht.books
  · rw [h.log]
    exact ht.answers
  · rw [h.opened]
    exact ht.keys
  · rw [h.pending]
    exact ht.room
  · rw [h.files, h.spill]
    exact ht.filed
  · rw [h.opened, h.seen]
    exact ht.known
  · rw [h.moments]
    exact ht.sound

theorem same_access (s : Dns) : Same s s.access := by
  constructor <;> rfl

theorem same_call (s : Dns) (calls : List CacheCall) : Same s (s.call calls) := by
  constructor <;> rfl

theorem same_finish (s : Dns) (t : Transaction) : Same s (s.finish t) := by
  unfold finish
  split <;> constructor <;> rfl

theorem same_duplicate (s : Dns) (cache : Option CacheHandle)
    (side : Direction) (bytes : Bytes) :
    Same s (s.duplicate cache side bytes) := by
  unfold duplicate
  split <;> constructor <;> rfl

theorem same_buffers (s : Dns) (buffers : Sides Bytes) :
    Same s { s with buffers := buffers } := by
  constructor <;> rfl

@[simp] theorem hold_pending (s : Dns) (pending : List Transaction)
    (files : List (String × Transaction)) :
    (s.hold pending files).pending = pending := rfl

@[simp] theorem hold_files (s : Dns) (pending : List Transaction)
    (files : List (String × Transaction)) :
    (s.hold pending files).files = files := rfl

/-! ## What a change of the ledger has to show -/

theorem Tracked.change (h : Tracked lib s)
    (hbooks : Accounted (s'.opened.map Transaction.ticket) s'.next s'.log)
    (hanswers : Justified Answers s'.log)
    (hkeys : (s'.opened.map Transaction.key).Nodup)
    (hroom : s'.pending.length ≤ pendingLimit)
    (hfiled : ∀ f ∈ s'.files,
      ∃ dir, s'.spill = some dir ∧ f.1 = lib.spillName dir f.2.key)
    (hknown : ∀ t ∈ s'.opened, t.key ∈ s'.seen)
    (hmoments : ∀ m ∈ s'.moments, m ∈ s.moments ∨
      m = ⟨s'.pending, s'.files.map Prod.snd⟩ ∨ m.Sound) : Tracked lib s' where
  books := hbooks
  answers := hanswers
  keys := hkeys
  room := hroom
  filed := hfiled
  known := hknown
  sound m hm := by
    rcases hmoments m hm with hm | rfl | hm
    · exact h.sound m hm
    · exact ⟨hroom, hkeys⟩
    · exact hm

variable {t : Transaction} {r : DnsRecord}

theorem Tracked.ended (h : Tracked lib s) {pending : List Transaction}
    (hperm : s.pending.Perm (t :: pending)) (hid : r.id = t.id)
    (hend : r.finished = true) {answer : Option Packet}
    (hanswer : ∀ p, answer = some p → p.response = true ∧ p.key = t.key) :
    Tracked lib ((s.hold pending s.files).report t.key r answer) := by
  have hopen : s.opened.Perm (t :: (pending ++ s.files.map Prod.snd)) :=
    hperm.append_right _
  have hbooks : Accounted (t.ticket ::
      (pending ++ s.files.map Prod.snd).map Transaction.ticket) s.next s.log :=
    h.books.perm (hopen.symm.map _)
  have hsub : ∀ u ∈ pending ++ s.files.map Prod.snd, u ∈ s.opened :=
    fun u hu => hopen.symm.subset (List.mem_cons_of_mem _ hu)
  apply h.change
  · exact hbooks.finish hend hid
  · apply h.answers.snoc
    intro p hp
    obtain ⟨hresponse, hkey⟩ := hanswer p hp
    refine ⟨hresponse, hkey, ?_, ?_⟩
    · obtain ⟨q, hq, hqid, hqkey, hqend⟩ := hbooks.begun _ List.mem_cons_self
      exact ⟨q, hq, hqid.trans hid.symm, hqkey, hqend⟩
    · intro q hq hqid
      exact not_finished_of_ends (hbooks.owing _ List.mem_cons_self) hq
        (hqid.trans hid)
  · have hkeys := (hopen.map Transaction.key).nodup_iff.1 h.keys
    exact (List.nodup_cons.1 hkeys).2
  · have hlen := hperm.length_eq
    have hroom := h.room
    simp only [List.length_cons] at hlen
    simp only [report, hold]
    omega
  · exact h.filed
  · intro u hu
    exact h.known u (hsub u hu)
  · intro m hm
    rw [← or_assoc]
    left
    simpa [report, hold] using hm

theorem Tracked.ended_front (h : Tracked lib s)
    {rest : List Transaction} (hpending : s.pending = t :: rest)
    (hid : r.id = t.id) (hend : r.finished = true) :
    Tracked lib (((s.hold rest s.files).finish t).report t.key r none) := by
  have hended : Tracked lib ((s.hold rest s.files).report t.key r none) :=
    h.ended (List.Perm.of_eq hpending) hid hend (by simp)
  have hsame := same_finish (s.hold rest s.files) t
  apply Same.tracked ?_ hended
  constructor <;> simp [report, hsame.spill, hsame.pending, hsame.files,
    hsame.next, hsame.log, hsame.moments, hsame.seen]

/-! ## Spilling and restoring

No access to the disk fails from here on. -/

variable {key dir : String}

theorem Tracked.unfiled (h : Tracked lib s) (hd : Distinct lib s)
    (hspill : s.spill = some dir) (hseen : key ∈ s.seen)
    (hkey : ∀ f ∈ s.files, f.2.key ≠ key) :
    ∀ f ∈ s.files, ¬ (f.1 == lib.spillName dir key) = true := by
  intro f hf heq
  obtain ⟨dir', hdir, hname⟩ := h.filed f hf
  have hsame : dir' = dir := by
    rw [hspill] at hdir
    exact (Option.some.inj hdir).symm
  have hfkey : f.2.key ∈ s.seen :=
    h.known f.2 (List.mem_append_right _ (List.mem_map_of_mem hf))
  have hdigest : lib.digest f.2.key = lib.digest key := by
    rw [beq_iff_eq, hname, hsame] at heq
    simpa [DnsLib.spillName] using heq
  exact hkey f hf (hd _ hfkey _ hseen hdigest)

theorem workingWrite_ok (hdisk : ∀ n, disk.fault n = none) (s : Dns)
    (name : String) (content : Option Transaction) :
    s.workingWrite disk name content =
      (s.access.hold s.pending ((s.files.eraseP fun f => f.1 == name) ++
        (content.map fun t => (name, t)).toList), none) := by
  simp [workingWrite, hdisk]

theorem spillOldest_none (h : s.spill = none ∨ s.pending = []) :
    s.spillOldest lib disk = (s, none) := by
  unfold spillOldest
  rcases h with h | h <;> simp [h]

theorem spillOldest_eq (hdisk : ∀ n, disk.fault n = none) (h : Tracked lib s)
    (hd : Distinct lib s) (hspill : s.spill = some dir) {rest : List Transaction}
    (hpending : s.pending = t :: rest) :
    s.spillOldest lib disk =
      ((s.hold rest s.files).access.hold rest
        (s.files ++ [(lib.spillName dir t.key, t)]), none) := by
  have hkeys := h.keys
  rw [opened, hpending, List.cons_append, List.map_cons, List.nodup_cons] at hkeys
  have hkey : ∀ f ∈ s.files, f.2.key ≠ t.key := by
    intro f hf heq
    apply hkeys.1
    rw [← heq]
    exact List.mem_map_of_mem (List.mem_append_right _ (List.mem_map_of_mem hf))
  have hunfiled := h.unfiled hd hspill (h.known t (by simp [opened, hpending])) hkey
  simp only [spillOldest, hspill, hpending, workingWrite_ok hdisk]
  simp [hold, access, List.eraseP_of_forall_not hunfiled]

theorem spillOldest_tracked (hdisk : ∀ n, disk.fault n = none)
    (h : Tracked lib s) (hd : Distinct lib s) :
    Tracked lib (s.spillOldest lib disk).1 := by
  cases hspill : s.spill with
  | none => rwa [spillOldest_none (Or.inl hspill)]
  | some dir =>
    cases hpending : s.pending with
    | nil => rwa [spillOldest_none (Or.inr hpending)]
    | cons t rest =>
      have hkeys := h.keys
      have hroom := h.room
      rw [opened, hpending, List.cons_append, List.map_cons,
        List.nodup_cons] at hkeys
      rw [hpending, List.length_cons] at hroom
      have hperm : (rest ++ (s.files.map Prod.snd ++ [t])).Perm s.opened := by
        rw [opened, hpending, ← List.append_assoc]
        exact List.perm_append_comm
      rw [spillOldest_eq hdisk h hd hspill hpending]
      apply h.change
      · apply h.books.perm
        simpa [opened, hold] using hperm.map Transaction.ticket
      · exact h.answers
      · have := (hperm.map Transaction.key).nodup_iff.2 h.keys
        simpa [opened, hold] using this
      · simp only [hold]
        omega
      · intro f hf
        simp only [hold, List.mem_append, List.mem_singleton] at hf
        rcases hf with hf | rfl
        · exact h.filed f hf
        · exact ⟨dir, hspill, rfl⟩
      · intro u hu
        apply h.known u
        apply hperm.subset
        simpa [opened, hold] using hu
      · intro m hm
        have hbetween : Moment.Sound ⟨rest, s.files.map Prod.snd⟩ :=
          ⟨by simp only; omega, hkeys.2⟩
        simp only [hold, access, List.mem_append, List.mem_singleton] at hm
        rcases hm with (hm | rfl) | rfl
        · exact Or.inl hm
        · exact Or.inr (Or.inr hbetween)
        · exact Or.inr (Or.inl rfl)

variable {value : Transaction} {name : String}

theorem file?_perm (h : s.file? name = some value) :
    ∃ f : String × Transaction, f.1 = name ∧ f.2 = value ∧ f ∈ s.files ∧
      s.files.Perm (f :: s.files.eraseP fun f => f.1 == name) := by
  obtain ⟨f, hf, rfl⟩ := Option.map_eq_some_iff.1 h
  refine ⟨f, ?_, rfl, List.mem_of_find?_eq_some hf, perm_cons_eraseP hf⟩
  simpa using List.find?_some hf

theorem Tracked.takenBack (h : Tracked lib s) {f : String × Transaction}
    {left : List (String × Transaction)} (hperm : s.files.Perm (f :: left))
    (hroom : s.pending.length < pendingLimit) (ht : t.ticket = f.2.ticket) :
    Tracked lib ((s.hold s.pending left).hold (s.pending ++ [t]) left) := by
  have hkey : t.key = f.2.key := congrArg Prod.snd ht
  have hopen : s.opened.Perm (f.2 :: (s.pending ++ left.map Prod.snd)) :=
    ((hperm.map Prod.snd).append_left s.pending).trans List.perm_middle
  have hback : (s.pending ++ [t] ++ left.map Prod.snd).Perm
      (t :: (s.pending ++ left.map Prod.snd)) := by
    rw [List.append_assoc]
    exact List.perm_middle
  have hkeys := (hopen.map Transaction.key).nodup_iff.1 h.keys
  apply h.change
  · apply h.books.perm
    apply (hback.map Transaction.ticket).trans
    rw [List.map_cons, ht]
    exact (hopen.map Transaction.ticket).symm
  · exact h.answers
  · apply (hback.map Transaction.key).nodup_iff.2
    rw [List.map_cons, hkey]
    exact hkeys
  · simp only [hold, List.length_append, List.length_singleton]
    omega
  · intro g hg
    exact h.filed g (hperm.symm.subset (List.mem_cons_of_mem _ hg))
  · intro u hu
    rcases List.mem_cons.1 (hback.subset hu) with rfl | hu
    · rw [hkey]
      exact h.known f.2 (hopen.symm.subset List.mem_cons_self)
    · exact h.known u (hopen.symm.subset (List.mem_cons_of_mem _ hu))
  · intro m hm
    have hbetween : Moment.Sound ⟨s.pending, left.map Prod.snd⟩ :=
      ⟨h.room, (List.nodup_cons.1 hkeys).2⟩
    simp only [hold, List.mem_append, List.mem_singleton] at hm
    rcases hm with (hm | rfl) | rfl
    · exact Or.inl hm
    · exact Or.inr (Or.inr hbetween)
    · exact Or.inr (Or.inl rfl)

theorem takeBack_of_room (hdisk : ∀ n, disk.fault n = none) (h : Tracked lib s)
    (clock : Clock) (hroom : s.pending.length < pendingLimit)
    (hfile : s.file? name = some value) (hkey : value.key = key) :
    Tracked lib (s.takeBack lib disk clock name key value).1 := by
  obtain ⟨f, -, rfl, -, hperm⟩ := file?_perm hfile
  have hback := h.takenBack hperm hroom (t := { f.2 with
    key := key, started := clock.instant - (clock.nowMs - f.2.startedMs) })
    (by simp [Transaction.ticket, hkey])
  unfold takeBack
  rw [if_neg (by omega)]
  -- the accesses counted on the way are not part of the ledger
  by_cases hcache : f.2.cache.isSome = true
  · simp only [hcache, if_true, hdisk, workingWrite_ok hdisk]
    apply Same.tracked ?_ hback
    constructor <;> simp [hold, access]
  · simp only [hcache, workingWrite_ok hdisk]
    apply Same.tracked ?_ hback
    constructor <;> simp [hold, access]

theorem takeBack_tracked (hdisk : ∀ n, disk.fault n = none) (h : Tracked lib s)
    (hd : Distinct lib s) (hspill : s.spill = some dir) (clock : Clock)
    (hfile : s.file? name = some value) (hkey : value.key = key) :
    Tracked lib (s.takeBack lib disk clock name key value).1 := by
  by_cases hroom : s.pending.length < pendingLimit
  · exact takeBack_of_room hdisk h clock hroom hfile hkey
  · cases hpending : s.pending with
    | nil => simp [hpending, pendingLimit] at hroom
    | cons t rest =>
      have hspilled := spillOldest_tracked hdisk h hd
      have heq := spillOldest_eq hdisk h hd hspill hpending
      rw [heq] at hspilled
      have hlen : rest.length < pendingLimit := by
        have := h.room
        rw [hpending, List.length_cons] at this
        omega
      have hstill : Dns.file? ((s.hold rest s.files).access.hold rest
          (s.files ++ [(lib.spillName dir t.key, t)])) name = some value := by
        obtain ⟨f, hf, rfl⟩ := Option.map_eq_some_iff.1 hfile
        simp [file?, hf]
      have hback := takeBack_of_room hdisk hspilled clock
        (by simpa using hlen) hstill hkey
      have hfull : pendingLimit ≤ s.pending.length := by omega
      have hthen : s.takeBack lib disk clock name key value =
          Dns.takeBack lib disk ((s.hold rest s.files).access.hold rest
            (s.files ++ [(lib.spillName dir t.key, t)])) clock name key
            value := by
        conv_rhs => unfold takeBack
        rw [if_neg (by simpa using hlen)]
        unfold takeBack
        rw [if_pos hfull, heq]
      rw [hthen]
      exact hback

structure Restored (key : String) (s s' : Dns) : Prop where
  spill : s'.spill = s.spill
  seen : s'.seen = s.seen
  resident : ∀ f ∈ s'.files, f.2.key ≠ key

private theorem spillOldest_ok (lib : DnsLib) (hdisk : ∀ n, disk.fault n = none)
    (s : Dns) :
    (s.spillOldest lib disk).2 = none ∧
      (s.spillOldest lib disk).1.spill = s.spill ∧
      (s.spillOldest lib disk).1.seen = s.seen := by
  unfold spillOldest
  split
  · simp [workingWrite_ok hdisk, hold, access]
  · simp

theorem takeBack_ok (lib : DnsLib) (hdisk : ∀ n, disk.fault n = none) (s : Dns)
    (clock : Clock) (name key : String) (value : Transaction) :
    (s.takeBack lib disk clock name key value).2 = none ∧
      (s.takeBack lib disk clock name key value).1.spill = s.spill ∧
      (s.takeBack lib disk clock name key value).1.seen = s.seen ∧
      ∃ t ∈ (s.takeBack lib disk clock name key value).1.pending, t.key = key := by
  obtain ⟨hok, hspill, hseen⟩ := spillOldest_ok lib hdisk s
  by_cases hfull : pendingLimit ≤ s.pending.length <;>
    by_cases hcache : value.cache.isSome = true <;>
    simp [takeBack, hfull, hcache, hok, hdisk, workingWrite_ok hdisk, hold,
      access, hspill, hseen]

theorem restoreQuery_tracked (hdisk : ∀ n, disk.fault n = none) (h : Tracked lib s)
    (hd : Distinct lib s) (clock : Clock) (hkey : key ∈ s.seen) :
    (s.restoreQuery lib disk clock key).2 = none ∧
      Tracked lib (s.restoreQuery lib disk clock key).1 ∧
      Restored key s (s.restoreQuery lib disk clock key).1 := by
  -- a key that is resident is in no file
  have hresident : ∀ u : Dns, Tracked lib u → (∃ t ∈ u.pending, t.key = key) →
      ∀ f ∈ u.files, f.2.key ≠ key := by
    rintro u hu ⟨t, ht, htkey⟩ f hf heq
    have hkeys := hu.keys
    rw [opened, List.map_append, List.nodup_append] at hkeys
    exact hkeys.2.2 key (List.mem_map.2 ⟨t, ht, htkey⟩) key (List.mem_map.2
      ⟨f.2, List.mem_map_of_mem hf, heq⟩) rfl
  unfold restoreQuery
  split
  case isTrue hany =>
    refine ⟨rfl, h, rfl, rfl, hresident s h ?_⟩
    simpa using hany
  case isFalse hany =>
    split
    case h_1 hspill =>
      refine ⟨rfl, h, rfl, rfl, fun f hf => ?_⟩
      obtain ⟨dir, hdir, -⟩ := h.filed f hf
      simp [hspill] at hdir
    case h_2 dir hspill =>
      dsimp only
      split
      case h_1 value hok hfile =>
        obtain ⟨f, hname, rfl, hf, -⟩ := file?_perm hfile
        have hfkey : f.2.key = key := by
          by_contra hne
          obtain ⟨dir', hdir, hfiled⟩ := h.filed f hf
          rw [hspill] at hdir
          cases hdir
          rw [hname] at hfiled
          refine hne (hd _ (h.known _ ?_) _ hkey ?_)
          · exact List.mem_append_right _ (List.mem_map_of_mem hf)
          · simpa [DnsLib.spillName] using hfiled.symm
        have hsame : Same s s.access.access :=
          (same_access s).trans (same_access s.access)
        have hback := takeBack_tracked hdisk (hsame.tracked h)
          (hd.congr hsame.seen) hspill clock hfile hfkey
        obtain ⟨hnone, hspill', hseen', hnow⟩ := takeBack_ok lib hdisk
          s.access.access clock (lib.spillName dir key) key f.2
        simp only [hdisk]
        exact ⟨hnone, hback, hspill', hseen', hresident _ hback hnow⟩
      case h_2 hnot =>
        refine ⟨rfl, (same_access s).tracked h, rfl, rfl, fun f hf heq => ?_⟩
        obtain ⟨dir', hdir, hfiled⟩ := h.filed f hf
        rw [hspill] at hdir
        cases hdir
        cases hfile : s.file? (lib.spillName dir key) with
        | none =>
          have habsent := List.find?_eq_none.1 (Option.map_eq_none_iff.1 hfile)
          exact habsent f hf (by simp [hfiled, heq])
        | some value => exact hnot value (hdisk _) hfile

theorem recall_tracked (hdisk : ∀ n, disk.fault n = none) (h : Tracked lib s)
    (cache : Option CacheHandle) (clock : Clock)
    (hd : Distinct lib { s with seen := s.seen ++ [key] }) :
    Tracked lib (s.recallQuery lib disk cache clock key) ∧
      Restored key { s with seen := s.seen ++ [key] }
        (s.recallQuery lib disk cache clock key) := by
  have hseen : Tracked lib { s with seen := s.seen ++ [key] } := by
    constructor
    · exact h.books
    · exact h.answers
    · exact h.keys
    · exact h.room
    · exact h.filed
    · exact fun t ht => List.mem_append_left _ (h.known t ht)
    · exact h.sound
  have hlast : key ∈ s.seen ++ [key] := by simp
  obtain ⟨hok, htracked, hrestored⟩ :=
    restoreQuery_tracked hdisk hseen hd clock hlast
  unfold recallQuery
  split
  case h_1 s' e heq => simp [heq] at hok
  case h_2 s' heq =>
    rw [heq] at htracked hrestored
    exact ⟨htracked, hrestored⟩

/-! ## Expiry -/

structure Keeps (s s' : Dns) : Prop where
  spill : s'.spill = s.spill
  files : s'.files = s.files
  seen : s'.seen = s.seen

theorem Keeps.trans {s'' : Dns} (h : Keeps s s') (h' : Keeps s' s'') :
    Keeps s s'' := by
  constructor
  · rw [h'.spill, h.spill]
  · rw [h'.files, h.files]
  · rw [h'.seen, h.seen]

theorem Same.keeps (h : Same s s') : Keeps s s' := ⟨h.spill, h.files, h.seen⟩

theorem keeps_ended (s : Dns) (t : Transaction) (rest : List Transaction)
    (key : String) (r : DnsRecord) (answer : Option Packet) :
    Keeps s (((s.hold rest s.files).finish t).report key r answer) := by
  have hsame := same_finish (s.hold rest s.files) t
  exact ⟨hsame.spill, hsame.files, hsame.seen⟩

theorem ended_pending (s : Dns) (t : Transaction) (rest : List Transaction)
    (key : String) (r : DnsRecord) (answer : Option Packet) :
    (((s.hold rest s.files).finish t).report key r answer).pending = rest :=
  (same_finish (s.hold rest s.files) t).pending

theorem flush_tracked (reason : String) (clock : Clock) (ts : List Transaction)
    (h : Tracked lib s) (hpending : s.pending = ts) (out : List DnsRecord) :
    Tracked lib (flush reason clock ts s out).1 ∧
      (flush reason clock ts s out).1.pending = [] ∧
      Keeps s (flush reason clock ts s out).1 := by
  induction ts generalizing s out with
  | nil => exact ⟨h, hpending, rfl, rfl, rfl⟩
  | cons t rest ih =>
    have hended := h.ended_front hpending
      (r := t.record clock "Incomplete" (some reason) true) rfl rfl
    have hkeeps := keeps_ended s t rest t.key
      (t.record clock "Incomplete" (some reason) true) none
    have hcall := same_call
      (((s.hold rest s.files).finish t).report t.key
        (t.record clock "Incomplete" (some reason) true) none)
      [.record (t.record clock "Incomplete" (some reason) true)]
    obtain ⟨htracked, hempty, hrest⟩ := ih (hcall.tracked hended)
      (by rw [hcall.pending, ended_pending])
      ((if pendingLimit ≤ out.length then out.drop 1 else out) ++
        [t.record clock "Incomplete" (some reason) true])
    exact ⟨htracked, hempty, (hkeeps.trans hcall.keeps).trans hrest⟩

theorem popExpired_tracked (closing : Option String) (clock : Clock)
    (ts : List Transaction) (h : Tracked lib s) (hpending : s.pending = ts)
    (out : List DnsRecord) :
    Tracked lib (popExpired closing clock ts s out).1 ∧
      Keeps s (popExpired closing clock ts s out).1 ∧
      (closing.isSome = true →
        (popExpired closing clock ts s out).1.pending = []) := by
  induction ts generalizing s out with
  | nil => exact ⟨h, ⟨rfl, rfl, rfl⟩, fun _ => hpending⟩
  | cons t rest ih =>
    unfold popExpired
    split
    case isTrue hdue =>
      dsimp only
      have hkeeps := keeps_ended s t rest t.key (t.record clock
        (if closing.isSome then "Incomplete" else "Timeout")
        (some (closing.getD "DNS response timeout")) true) none
      obtain ⟨htracked, hrest, hempty⟩ := ih
        (h.ended_front hpending (r := t.record clock
          (if closing.isSome then "Incomplete" else "Timeout")
          (some (closing.getD "DNS response timeout")) true) rfl rfl)
        (ended_pending _ _ _ _ _ _)
        (out ++ [t.record clock
          (if closing.isSome then "Incomplete" else "Timeout")
          (some (closing.getD "DNS response timeout")) true])
      exact ⟨htracked, hkeeps.trans hrest, hempty⟩
    case isFalse hdue =>
      refine ⟨h, ⟨rfl, rfl, rfl⟩, fun hclosing => ?_⟩
      exact absurd (Or.inl hclosing) hdue

theorem Tracked.no_files (h : Tracked lib s) (hspill : s.spill = none) :
    s.files = [] := by
  apply List.eq_nil_iff_forall_not_mem.2
  intro f hf
  obtain ⟨dir, hdir, -⟩ := h.filed f hf
  simp [hspill] at hdir

theorem takeBack_files (hdisk : ∀ n, disk.fault n = none)
    (hroom : s.pending.length < pendingLimit) (clock : Clock)
    (name key : String) (value : Transaction) :
    (s.takeBack lib disk clock name key value).1.files =
      s.files.eraseP fun f => f.1 == name := by
  have hfull : ¬ pendingLimit ≤ s.pending.length := by omega
  by_cases hcache : value.cache.isSome = true <;>
    simp [takeBack, hfull, hcache, hdisk, workingWrite_ok hdisk, access]

theorem restoreQuery_files (hdisk : ∀ n, disk.fault n = none)
    (hpending : s.pending = []) (hspill : s.spill = some dir)
    (hfile : s.file? (lib.spillName dir key) = some value) (clock : Clock) :
    (s.restoreQuery lib disk clock key).1.files =
      s.files.eraseP fun f => f.1 == lib.spillName dir key := by
  have hroom : s.access.access.pending.length < pendingLimit := by
    simp [access, hpending, pendingLimit]
  simp only [restoreQuery, hpending, List.any_nil, hspill, hdisk, hfile]
  rw [if_neg (by simp), takeBack_files hdisk hroom]
  rfl

theorem restoreFile_tracked (hdisk : ∀ n, disk.fault n = none) (h : Tracked lib s)
    (hd : Distinct lib s) (reason : String) (clock : Clock)
    (hfile : s.file? name = some value) (out : List DnsRecord) :
    (restoreFile lib disk reason clock name s out).2.2 = none ∧
      Tracked lib (restoreFile lib disk reason clock name s out).1 ∧
      (restoreFile lib disk reason clock name s out).1.spill = s.spill ∧
      (restoreFile lib disk reason clock name s out).1.seen = s.seen ∧
      (restoreFile lib disk reason clock name s out).1.files =
        s.files.eraseP fun f => f.1 == name := by
  obtain ⟨f, hname, rfl, hf, -⟩ := file?_perm hfile
  obtain ⟨dir, hdir, hfiled⟩ := h.filed f hf
  have hseen : f.2.key ∈ s.seen :=
    h.known f.2 (List.mem_append_right _ (List.mem_map_of_mem hf))
  obtain ⟨hflushed, hempty, hkeeps⟩ := flush_tracked reason clock s.pending
    ((same_access s).tracked h) rfl out
  have hback := restoreQuery_tracked hdisk hflushed
    (hd.congr hkeeps.seen) clock
    (by rw [hkeeps.seen]; exact hseen)
  have hfiles : (Dns.restoreQuery lib disk
      (flush reason clock s.pending s.access out).1 clock f.2.key).1.files =
      s.files.eraseP fun f => f.1 == name := by
    have hthere : (flush reason clock s.pending s.access out).1.file?
        (lib.spillName dir f.2.key) = some f.2 := by
      rw [file?, hkeeps.files, ← hfiled, hname]
      exact hfile
    rw [restoreQuery_files hdisk hempty (hkeeps.spill.trans hdir) hthere,
      hkeeps.files, ← hfiled, hname]
    rfl
  simp only [restoreFile, hdisk, hfile]
  refine ⟨hback.1, hback.2.1, ?_, ?_, hfiles⟩
  · rw [hback.2.2.spill, hkeeps.spill]
    rfl
  · rw [hback.2.2.seen, hkeeps.seen]
    rfl

theorem restoreFiles_tracked (hdisk : ∀ n, disk.fault n = none)
    (reason : String) (clock : Clock) (names : List String)
    (h : Tracked lib s) (hd : Distinct lib s)
    (hnames : (s.files.map Prod.fst).Perm names) (out : List DnsRecord) :
    Tracked lib (restoreFiles lib disk reason clock names s out).1 ∧
      (restoreFiles lib disk reason clock names s out).1.spill = s.spill ∧
      (restoreFiles lib disk reason clock names s out).1.seen = s.seen ∧
      (restoreFiles lib disk reason clock names s out).1.files = [] := by
  induction names generalizing s out with
  | nil => exact ⟨h, rfl, rfl, List.map_eq_nil_iff.1 hnames.eq_nil⟩
  | cons name rest ih =>
    have hmem : name ∈ s.files.map Prod.fst :=
      hnames.symm.subset List.mem_cons_self
    obtain ⟨g, hg, hgname⟩ := List.mem_map.1 hmem
    obtain ⟨value, hfile⟩ : ∃ value, s.file? name = some value := by
      apply Option.ne_none_iff_exists'.1
      intro hnone
      have habsent := List.find?_eq_none.1 (Option.map_eq_none_iff.1 hnone)
      exact habsent g hg (by simp [hgname])
    have hsame := same_access s
    have hthere : s.access.file? name = some value := hfile
    have hone := restoreFile_tracked hdisk (hsame.tracked h)
      (hd.congr hsame.seen) reason clock hthere out
    obtain ⟨f, hname, -, -, hperm⟩ := file?_perm hfile
    have hrest : ((s.files.eraseP fun f => f.1 == name).map Prod.fst).Perm
        rest := by
      apply List.Perm.cons_inv (a := name)
      have := (hperm.map Prod.fst).symm.trans hnames
      rwa [List.map_cons, hname] at this
    simp only [restoreFiles, hdisk]
    generalize restoreFile lib disk reason clock name s.access out = result
      at hone
    obtain ⟨u, out', failed⟩ := result
    obtain ⟨hok, htracked, hspill, hseen, hfiles⟩ := hone
    simp only at hok htracked hspill hseen hfiles
    subst hok
    obtain ⟨hall, hspill', hseen', hnone⟩ := ih htracked
      (hd.congr hseen) (by rw [hfiles]; exact hrest) out'
    exact ⟨hall, hspill'.trans hspill, hseen'.trans hseen, hnone⟩

theorem restoreSpilled_tracked (hdisk : ∀ n, disk.fault n = none)
    (hlist : ∀ n names, (disk.listing n names).Perm names)
    (h : Tracked lib s) (hd : Distinct lib s) (clock : Clock)
    (reason : String) :
    Tracked lib (s.restoreSpilled lib disk clock reason).1 ∧
      (s.restoreSpilled lib disk clock reason).1.seen = s.seen ∧
      (s.restoreSpilled lib disk clock reason).1.files = [] := by
  unfold restoreSpilled
  split
  case isTrue hspill =>
    simp only [hdisk]
    have hsame := same_access s
    obtain ⟨htracked, -, hseen, hfiles⟩ := restoreFiles_tracked hdisk reason clock
      (disk.listing s.accesses (s.files.map Prod.fst)) (hsame.tracked h)
      (hd.congr hsame.seen) (hlist _ _).symm []
    exact ⟨htracked, hseen, hfiles⟩
  case isFalse hspill =>
    refine ⟨h, rfl, h.no_files ?_⟩
    simpa using hspill

theorem expire_tracked (hdisk : ∀ n, disk.fault n = none)
    (hlist : ∀ n names, (disk.listing n names).Perm names)
    (h : Tracked lib s) (hd : Distinct lib s) (clock : Clock)
    (closing : Option String) :
    Tracked lib (s.expire lib disk clock closing).1 ∧
      (s.expire lib disk clock closing).1.seen = s.seen ∧
      (closing.isSome = true → (s.expire lib disk clock closing).1.opened = []) := by
  unfold expire
  split
  case isTrue hskip =>
    refine ⟨h, rfl, fun hclosing => ?_⟩
    simp [Option.isNone_iff_eq_none.1 hskip.2] at hclosing
  case isFalse hskip =>
    cases closing with
    | none =>
      obtain ⟨htracked, hkeeps, -⟩ :=
        popExpired_tracked none clock s.pending h rfl []
      exact ⟨htracked, hkeeps.seen, by simp⟩
    | some reason =>
      obtain ⟨hback, hseen, hfiles⟩ :=
        restoreSpilled_tracked hdisk hlist h hd clock reason
      obtain ⟨htracked, hkeeps, hempty⟩ := popExpired_tracked (some reason)
        clock _ hback rfl (s.restoreSpilled lib disk clock reason).2
      refine ⟨htracked, hkeeps.seen.trans hseen, fun hclosing => ?_⟩
      rw [opened, hempty hclosing, hkeeps.files, hfiles]
      rfl

/-! ## Datagrams -/

theorem startSpill_tracked (h : Tracked lib s) (cache : Option CacheHandle) :
    Tracked lib (s.startSpill cache) ∧ (s.startSpill cache).seen = s.seen := by
  unfold startSpill
  split
  case h_1 c hspill =>
    split
    · refine ⟨?_, rfl⟩
      constructor
      · exact h.books
      · exact h.answers
      · exact h.keys
      · exact h.room
      · simp [h.no_files hspill]
      · exact h.known
      · exact h.sound
    · exact ⟨h, rfl⟩
  case h_2 => exact ⟨h, rfl⟩

theorem retry_ticket (key : String) (ts : List Transaction) :
    (retry key ts).map Transaction.ticket = ts.map Transaction.ticket := by
  induction ts with
  | nil => rfl
  | cons t ts ih =>
    unfold retry
    split
    · simp [Transaction.ticket]
    · simp [ih]

theorem map_key (ts : List Transaction) :
    ts.map Transaction.key = (ts.map Transaction.ticket).map Prod.snd := by
  simp [Transaction.ticket]

theorem Tracked.retried (h : Tracked lib s) (ht : t ∈ retry key s.pending)
    (hid : r.id = t.id) (hopen : r.finished = false) :
    Tracked lib ((s.hold (retry key s.pending) s.files).report t.key r none) := by
  have htickets : (retry key s.pending ++ s.files.map Prod.snd).map
      Transaction.ticket = s.opened.map Transaction.ticket := by
    rw [opened, List.map_append, List.map_append, retry_ticket]
  have hkeys : (retry key s.pending ++ s.files.map Prod.snd).map
      Transaction.key = s.opened.map Transaction.key := by
    rw [map_key, htickets, ← map_key]
  have hlen := congrArg List.length (retry_ticket key s.pending)
  simp only [List.length_map] at hlen
  apply h.change
  · have hissued : 1 ≤ t.id ∧ t.id ≤ s.next := by
      apply h.books.issued t.ticket
      rw [← htickets]
      exact List.mem_map_of_mem (List.mem_append_left _ ht)
    simp only [opened, report, hold, htickets]
    exact h.books.note hopen (by simpa [hid] using hissued)
  · apply h.answers.snoc
    intro p hp
    simp at hp
  · simp only [opened, report, hold, hkeys]
    exact h.keys
  · simp only [report, hold, hlen]
    exact h.room
  · exact h.filed
  · intro u hu
    have hmem : u.key ∈ s.opened.map Transaction.key := by
      rw [← hkeys]
      exact List.mem_map_of_mem hu
    obtain ⟨v, hv, hkey⟩ := List.mem_map.1 hmem
    simp only [report, hold]
    rw [← hkey]
    exact h.known v hv
  · intro m hm
    rw [← or_assoc]
    left
    simpa [report, hold] using hm

theorem feedKnown_tracked (h : Tracked lib s) {cache : Option CacheHandle}
    {clock : Clock} {side : Direction} {bytes : Bytes} {p : Packet}
    {result : Dns × List DnsRecord}
    (hresult : s.feedKnown cache clock side bytes p = some result) :
    Tracked lib result.1 ∧ result.1.seen = s.seen := by
  unfold feedKnown at hresult
  split at hresult
  case isTrue hquery =>
    split at hresult
    case h_1 t hfind =>
      cases hresult
      have hsame := same_duplicate s cache side bytes
      have hmem : t ∈ retry p.key (s.duplicate cache side bytes).pending := by
        rw [hsame.pending]
        exact List.mem_of_find?_eq_some hfind
      have hretried := (hsame.tracked h).retried hmem
        (r := t.record clock "Pending" none false) rfl rfl
      rw [hsame.pending, hsame.files] at hretried
      exact ⟨hretried, hsame.seen⟩
    case h_2 => simp at hresult
  case isFalse hquery =>
    split at hresult
    case isTrue hresponse =>
      split at hresult
      case h_1 t hfind =>
        cases hresult
        simp only [Bool.and_eq_true] at hresponse
        have hkey : t.key = p.key := by simpa using List.find?_some hfind
        have hanswer : ∀ q, some p = some q →
            q.response = true ∧ q.key = t.key := by
          intro q hq
          cases hq
          exact ⟨hresponse.1, hkey.symm⟩
        have hended := h.ended (perm_cons_eraseP hfind)
          (r := { t with bytes := t.bytes.set .server bytes.length }.record
            clock p.status none true) rfl rfl hanswer
        refine ⟨Same.tracked ?_ hended, ?_⟩
        · cases hcache : t.cache <;> (constructor <;> simp [report, finish, call])
        · cases hcache : t.cache <;> simp [report, finish, call, hold]
      case h_2 hfind =>
        split at hresult
        · cases hresult
          have hsame := same_duplicate s cache side bytes
          exact ⟨hsame.tracked h, hsame.seen⟩
        · simp at hresult
    case isFalse hresponse => simp at hresult

theorem makeRoom_next (lib : DnsLib) (disk : Disk) (s : Dns) (n : Nat)
    (cache : Option CacheHandle) (clock : Clock) :
    Dns.makeRoom lib disk { s with next := n } cache clock =
      ({ (s.makeRoom lib disk cache clock).1 with next := n },
        (s.makeRoom lib disk cache clock).2) := by
  unfold makeRoom
  by_cases hfull : pendingLimit ≤ s.pending.length
  · simp only [hfull, if_true]
    cases hspill : s.spill with
    | some dir =>
      cases hpending : s.pending with
      | nil => simp [spillOldest, hspill, hpending]
      | cons t rest =>
        cases hfault : disk.fault s.accesses with
        | none =>
          simp [spillOldest, hspill, hpending, workingWrite, hold, access,
            hfault]
        | some e =>
          cases cache <;>
            simp [spillOldest, hspill, hpending, workingWrite, hold,
              access, hfault, failRecording, call]
    | none =>
      cases hpending : s.pending with
      | nil => simp [hspill, hpending]
      | cons t rest =>
        cases hcache : t.cache <;>
          simp [report, finish, hcache, call, hold, hspill]
  · simp [hfull]

theorem makeRoom_tracked (hdisk : ∀ n, disk.fault n = none)
    (h : Tracked lib s) (hd : Distinct lib s) (cache : Option CacheHandle)
    (clock : Clock) :
    Tracked lib (s.makeRoom lib disk cache clock).1 ∧
      (s.makeRoom lib disk cache clock).1.seen = s.seen ∧
      (s.makeRoom lib disk cache clock).1.next = s.next ∧
      (s.makeRoom lib disk cache clock).1.pending.length < pendingLimit ∧
      ∀ t ∈ (s.makeRoom lib disk cache clock).1.opened, t ∈ s.opened := by
  have hroom := h.room
  unfold makeRoom
  split
  case isTrue hfull =>
    cases hpending : s.pending with
    | nil => simp [hpending, pendingLimit] at hfull
    | cons t rest =>
      rw [hpending, List.length_cons] at hroom
      cases hspill : s.spill with
      | some dir =>
        have hspilled := spillOldest_tracked hdisk h hd
        rw [spillOldest_eq hdisk h hd hspill hpending] at hspilled ⊢
        simp only [Option.isSome_some, if_true]
        refine ⟨hspilled, rfl, rfl, ?_, ?_⟩
        · simp only [hold]
          omega
        · intro u hu
          simp only [opened, hold, hpending, List.map_append, List.mem_append,
            List.mem_cons, List.map_cons, List.map_nil] at hu ⊢
          tauto
      | none =>
        have hended := h.ended_front hpending (r := t.record clock
          "Incomplete" (some "DNS pending query limit reached") true) rfl rfl
        have hsame := same_finish (s.hold rest s.files) t
        rw [if_neg (by simp)]
        refine ⟨hended, hsame.seen, hsame.next, ?_, ?_⟩
        · rw [ended_pending]
          omega
        · intro u hu
          rw [opened, ended_pending, (keeps_ended s t rest _ _ _).files] at hu
          rw [opened, hpending, List.cons_append]
          exact List.mem_cons_of_mem _ hu
  case isFalse hfull =>
    exact ⟨h, rfl, rfl, by simpa using hfull, fun t ht => ht⟩

theorem Tracked.added (h : Tracked lib s)
    (hroom : s.pending.length < pendingLimit) {t : Transaction}
    (hid : t.id = s.next + 1) (hkey : t.key ∈ s.seen)
    (hfresh : ∀ u ∈ s.opened, u.key ≠ t.key) {r : DnsRecord}
    (hr : r.id = t.id) (hopen : r.finished = false) :
    Tracked lib ((Dns.hold { s with next := s.next + 1 } (s.pending ++ [t])
      s.files).report t.key r none) := by
  have hperm : (s.pending ++ [t] ++ s.files.map Prod.snd).Perm
      (t :: s.opened) := by
    rw [List.append_assoc]
    exact List.perm_middle
  apply h.change
  · have hissue := h.books.issue (e := ⟨r.id, t.key, r.finished, r, none⟩) hopen
      (hr.trans hid)
    apply hissue.perm
    rw [← hid]
    exact hperm.map Transaction.ticket
  · apply h.answers.snoc
    intro p hp
    simp at hp
  · apply (hperm.map Transaction.key).nodup_iff.2
    rw [List.map_cons, List.nodup_cons]
    refine ⟨?_, h.keys⟩
    intro hmem
    obtain ⟨u, hu, heq⟩ := List.mem_map.1 hmem
    exact hfresh u hu heq
  · simp only [report, hold, List.length_append, List.length_singleton]
    omega
  · exact h.filed
  · intro u hu
    rcases List.mem_cons.1 (hperm.subset hu) with rfl | hu
    · exact hkey
    · exact h.known u hu
  · intro m hm
    rw [← or_assoc]
    left
    simpa [report, hold] using hm

theorem Tracked.instant (h : Tracked lib s) (hid : t.id = s.next + 1)
    (hr : r.id = t.id) (hend : r.finished = true) :
    Tracked lib (Dns.report { s with next := s.next + 1 } t.key r none) := by
  apply h.change
  · exact h.books.instant hend (hr.trans hid)
  · apply h.answers.snoc
    intro p hp
    simp at hp
  · exact h.keys
  · exact h.room
  · exact h.filed
  · exact h.known
  · exact fun m hm => Or.inl hm

theorem create_spec (s : Dns) (cache : Option CacheHandle) (clock : Clock)
    (side : Direction) (bytes : Bytes) (packet : Except String Packet) :
    ∃ u : Dns, Same s u ∧
      (s.create cache clock side bytes packet).1 = { u with next := u.next + 1 } ∧
      (s.create cache clock side bytes packet).2.id = s.next + 1 ∧
      ∀ p, packet = .ok p →
        (s.create cache clock side bytes packet).2.key = p.key := by
  unfold create
  dsimp only
  split
  · refine ⟨{ s.call [.stream (s.entries + 1),
      .appendStream (s.entries + 1) side bytes] with entries := s.entries + 1 },
      ?_, rfl, rfl, ?_⟩
    · constructor <;> rfl
    · rintro p rfl
      rfl
  · refine ⟨s, ?_, rfl, rfl, ?_⟩
    · constructor <;> rfl
    · rintro p rfl
      rfl

theorem feedNew_tracked (hdisk : ∀ n, disk.fault n = none)
    (h : Tracked lib s) (hd : Distinct lib s) (cache : Option CacheHandle)
    (clock : Clock) (side : Direction) (bytes : Bytes)
    {packet : Except String Packet}
    (hquery : ∀ p, packet = .ok p → p.response = false → side = .client →
      p.key ∈ s.seen ∧ ∀ u ∈ s.opened, u.key ≠ p.key) :
    Tracked lib (s.feedNew lib disk cache clock side bytes packet).1 ∧
      (s.feedNew lib disk cache clock side bytes packet).1.seen = s.seen := by
  obtain ⟨u, hsame, hcreate, hid, hkey⟩ :=
    create_spec s cache clock side bytes packet
  unfold feedNew
  generalize s.create cache clock side bytes packet = made at hcreate hid hkey
  obtain ⟨v, t⟩ := made
  simp only at hcreate hid hkey
  subst hcreate
  have hu := hsame.tracked h
  -- a message that is no query: its only record ends it
  have hother : ∀ r : DnsRecord, r.id = t.id → r.finished = true →
      Tracked lib ((Dns.finish { u with next := u.next + 1 } t).report t.key r none) ∧
      ((Dns.finish { u with next := u.next + 1 } t).report t.key r none).seen =
        s.seen := by
    intro r hr hend
    have hinstant := hu.instant (t := t) (by rw [hid, hsame.next]) hr hend
    have hfinish := same_finish { u with next := u.next + 1 } t
    refine ⟨Same.tracked ?_ hinstant, hfinish.seen.trans hsame.seen⟩
    constructor
    · exact hfinish.spill
    · exact hfinish.pending
    · exact hfinish.files
    · exact hfinish.next
    · simp only [report, hfinish.log]
    · exact hfinish.moments
    · exact hfinish.seen
  cases packet with
  | error e => exact hother _ rfl rfl
  | ok p =>
    dsimp only
    split
    case isFalse hnot => exact hother _ rfl rfl
    case isTrue hcond =>
      simp only [Bool.and_eq_true, Bool.not_eq_eq_eq_not, Bool.not_true,
        beq_iff_eq] at hcond
      obtain ⟨hseen, hfresh⟩ := hquery p rfl hcond.1 hcond.2
      -- the query is no longer a recent one
      have hrecent : Same u { u with
          recent := u.recent.filter fun key => key != t.key } := by
        constructor <;> rfl
      have hw := hrecent.tracked hu
      obtain ⟨hmade, hmadeSeen, hmadeNext, hroom, hsub⟩ := makeRoom_tracked
        hdisk hw (hd.congr (hrecent.seen.trans hsame.seen)) cache clock
      have hadded := hmade.added hroom (t := t)
        (r := t.record clock "Pending" none false)
        (by rw [hmadeNext, hid, ← hsame.next])
        (by rw [hmadeSeen, hkey p rfl, hrecent.seen, hsame.seen]; exact hseen)
        (by
          intro x hx
          rw [hkey p rfl]
          apply hfresh x
          rw [← hsame.opened, ← hrecent.opened]
          exact hsub x hx) rfl rfl
      have hnext := makeRoom_next lib disk { u with
        recent := u.recent.filter fun key => key != t.key } (u.next + 1)
        cache clock
      simp only at hnext
      rw [hnext]
      rw [hmadeNext] at hadded
      exact ⟨hadded, hmadeSeen.trans hsame.seen⟩

theorem feedPacket_tracked (hdisk : ∀ n, disk.fault n = none)
    (h : Tracked lib s) (cache : Option CacheHandle) (clock : Clock)
    (side : Direction) (bytes : Bytes)
    (hd : Distinct lib (s.feedPacket lib disk cache clock side bytes).1) :
    Tracked lib (s.feedPacket lib disk cache clock side bytes).1 := by
  have hgrows := (emits_feedPacket lib disk s cache clock side bytes).seen
  unfold feedPacket at hd hgrows ⊢
  split
  case h_1 e hdecode =>
    rw [hdecode] at hd hgrows
    exact (feedNew_tracked hdisk h (hd.before hgrows) cache clock side bytes
      (by simp)).1
  case h_2 p hdecode =>
    rw [hdecode] at hd
    dsimp only at hd ⊢
    -- the keys read with this message are among those of the outcome
    have hwith : Distinct lib (s.recallQuery lib disk cache clock p.key) := by
      split at hd
      case h_1 result hknown => exact hd.before (emits_feedKnown hknown).seen
      case h_2 hknown =>
        exact hd.before (emits_feedNew lib disk _ cache clock side bytes _).seen
    have hkey : s.seen ++ [p.key] ⊆
        (s.recallQuery lib disk cache clock p.key).seen := by
      have hrestore := (quiet_restoreQuery lib disk
        { s with seen := s.seen ++ [p.key] } clock p.key).seen
      unfold recallQuery
      split
      case h_1 u e heq =>
        rw [heq] at hrestore
        exact List.Subset.trans hrestore (quiet_failRecording u _ _).seen
      case h_2 u heq =>
        rw [heq] at hrestore
        exact hrestore
    obtain ⟨hrecall, hrestored⟩ := recall_tracked hdisk h cache clock
      (hwith.before hkey)
    split
    case h_1 result hknown => exact (feedKnown_tracked hrecall hknown).1
    case h_2 hknown =>
      refine (feedNew_tracked hdisk hrecall hwith cache clock side bytes ?_).1
      intro q hq hquery hside
      cases hq
      refine ⟨by simp [hrestored.seen], fun u hu => ?_⟩
      rcases List.mem_append.1 hu with hu | hu
      · -- a resident query of this key would have been a further datagram
        intro heq
        have hmem : u.key ∈ (retry p.key
            (s.recallQuery lib disk cache clock p.key).pending).map
              Transaction.key := by
          rw [map_key, retry_ticket, ← map_key]
          exact List.mem_map_of_mem hu
        obtain ⟨v, hv, hvkey⟩ := List.mem_map.1 hmem
        unfold feedKnown at hknown
        rw [if_pos (by simp [hquery, hside])] at hknown
        split at hknown
        · simp at hknown
        · rename_i hfind
          exact List.find?_eq_none.1 hfind v hv (by simp [hvkey, heq])
      · obtain ⟨f, hf, rfl⟩ := List.mem_map.1 hu
        exact hrestored.resident f hf

theorem feed_tracked (hdisk : ∀ n, disk.fault n = none)
    (hlist : ∀ n names, (disk.listing n names).Perm names)
    (h : Tracked lib s) (cache : Option CacheHandle) (clock : Clock)
    (side : Direction) (bytes : Bytes)
    (hd : Distinct lib (s.feed lib disk cache clock side bytes).1) :
    Tracked lib (s.feed lib disk cache clock side bytes).1 := by
  obtain ⟨hspill, -⟩ := startSpill_tracked h cache
  have hpacket := emits_feedPacket lib disk
    ((s.startSpill cache).expire lib disk clock none).1 cache clock side bytes
  have hexpire := emits_expire lib disk (s.startSpill cache) clock none
  have hbefore : Distinct lib (s.startSpill cache) :=
    (hd.before hpacket.seen).before hexpire.seen
  obtain ⟨hexpired, -⟩ :=
    expire_tracked hdisk hlist hspill hbefore clock none
  exact feedPacket_tracked hdisk hexpired cache clock side bytes hd

/-! ## Runs -/

theorem tcpLoop_tracked (hdisk : ∀ n, disk.fault n = none)
    (hlist : ∀ n names, (disk.listing n names).Perm names)
    (cache : Option CacheHandle) (clock : Clock) (side : Direction)
    (h : Tracked lib s) (out : List DnsRecord) (b : Bytes)
    (hd : Distinct lib (tcpLoop lib disk cache clock side s out b).1) :
    Tracked lib (tcpLoop lib disk cache clock side s out b).1 := by
  fun_induction tcpLoop with
  | case1 s out b len hwait => exact (same_buffers s _).tracked h
  | case2 s out b len hfull message rest u more heq ih =>
    have hu : u = (Dns.feed lib disk
        { s with buffers := s.buffers.set side rest } cache clock side
        message).1 := by
      rw [heq]
    have hdu := hd.before (emits_tcpLoop lib disk cache clock side u _ rest).seen
    apply ih ?_ hd
    subst hu
    exact feed_tracked hdisk hlist ((same_buffers s _).tracked h) cache clock
      side message hdu

theorem feedRest_tracked (hdisk : ∀ n, disk.fault n = none)
    (hlist : ∀ n names, (disk.listing n names).Perm names)
    (h : Tracked lib s) (cache : Option CacheHandle) (clock : Clock)
    (side : Direction)
    (hd : Distinct lib (s.feedRest lib disk cache clock side).1) :
    Tracked lib (s.feedRest lib disk cache clock side).1 := by
  unfold feedRest at hd ⊢
  dsimp only at hd ⊢
  split
  case isTrue hempty => exact h
  case isFalse hempty =>
    rw [if_neg hempty] at hd
    exact feed_tracked hdisk hlist ((same_buffers s _).tracked h) cache clock
      side _ hd

theorem close_tracked (hdisk : ∀ n, disk.fault n = none)
    (hlist : ∀ n names, (disk.listing n names).Perm names)
    (h : Tracked lib s) (cache : Option CacheHandle) (clock : Clock)
    (reason : String)
    (hd : Distinct lib (s.close lib disk cache clock reason).1) :
    Tracked lib (s.close lib disk cache clock reason).1 ∧
      (s.close lib disk cache clock reason).1.opened = [] := by
  have hserver : Distinct lib (Dns.feedRest lib disk
      (s.feedRest lib disk cache clock .client).1 cache clock .server).1 :=
    hd.before (emits_expire lib disk _ clock (some reason)).seen
  have hclient : Distinct lib (s.feedRest lib disk cache clock .client).1 :=
    hserver.before (emits_feedRest lib disk _ cache clock .server).seen
  have hfirst := feedRest_tracked hdisk hlist h cache clock .client hclient
  have hsecond := feedRest_tracked hdisk hlist hfirst cache clock .server hserver
  obtain ⟨htracked, -, hopened⟩ :=
    expire_tracked hdisk hlist hsecond hserver clock (some reason)
  exact ⟨htracked, hopened rfl⟩

theorem step_tracked (hdisk : ∀ n, disk.fault n = none)
    (hlist : ∀ n names, (disk.listing n names).Perm names)
    (h : Tracked lib s) (e : Event)
    (hd : Distinct lib (s.step lib disk e).1) :
    Tracked lib (s.step lib disk e).1 := by
  cases e with
  | feed cache clock side bytes =>
    exact feed_tracked hdisk hlist h cache clock side bytes hd
  | tcp cache clock side bytes =>
    exact tcpLoop_tracked hdisk hlist cache clock side h [] _ hd
  | expire clock closing =>
    have hbefore := hd.before (emits_expire lib disk s clock closing).seen
    exact (expire_tracked hdisk hlist h hbefore clock closing).1
  | close cache clock reason =>
    exact (close_tracked hdisk hlist h cache clock reason hd).1

theorem run_tracked (hdisk : ∀ n, disk.fault n = none)
    (hlist : ∀ n names, (disk.listing n names).Perm names)
    (h : Tracked lib s) (es : List Event)
    (hd : Distinct lib (run lib disk s es).1) :
    Tracked lib (run lib disk s es).1 := by
  induction es generalizing s with
  | nil => exact h
  | cons e es ih =>
    have hbefore := hd.before (emits_run lib disk (s.step lib disk e).1 es).seen
    exact ih (step_tracked hdisk hlist h e hbefore) hd

theorem tracked_start (lib : DnsLib) : Tracked lib {} := by
  constructor
  · exact Accounted.start
  · exact Justified.nil Answers
  · simp [opened]
  · simp
  · simp
  · simp [opened]
  · simp

theorem run_append (lib : DnsLib) (disk : Disk) (s : Dns) (es fs : List Event) :
    run lib disk s (es ++ fs) =
      ((run lib disk (run lib disk s es).1 fs).1,
        (run lib disk s es).2 ++ (run lib disk (run lib disk s es).1 fs).2) := by
  induction es generalizing s with
  | nil => rfl
  | cons e es ih =>
    simp only [List.cons_append, run, ih, List.append_assoc]

/-- One finished record was made for `id`, and it is the only one that was
returned or sent to the journal. -/
def FinishedOnce (s : Dns) (returned : List DnsRecord) (id : Nat) : Prop :=
  ends s.log id = 1 ∧
    ∃ r, (r.id = id ∧ r.finished = true ∧
        (r ∈ returned ∨ .record r ∈ s.calls)) ∧
      ∀ r', r'.id = id → r'.finished = true →
        (r' ∈ returned ∨ .record r' ∈ s.calls) → r' = r

theorem Emits.finishedOnce {returned : List DnsRecord}
    (h : Emits {} [] s returned) {id : Nat} (hends : ends s.log id = 1) :
    FinishedOnce s returned id := by
  obtain ⟨more, hlog, hdone, hsub, hjournal⟩ := h.made
  simp only [List.nil_append] at hlog hsub
  subst hlog
  -- the one end of the log
  obtain ⟨e, hfilter⟩ : ∃ e, s.log.filter
      (fun e => e.finished && e.id == id) = [e] := by
    apply List.length_eq_one_iff.1
    rw [← List.countP_eq_length_filter]
    exact hends
  have hmem : ∀ a, a ∈ s.log → a.finished = true → a.id = id → a = e := by
    intro a ha hend hid
    have : a ∈ s.log.filter (fun e => e.finished && e.id == id) :=
      List.mem_filter.2 ⟨ha, by simp [hend, hid]⟩
    rw [hfilter] at this
    exact List.mem_singleton.1 this
  obtain ⟨he, hecond⟩ := List.mem_filter.1
    (hfilter ▸ List.mem_singleton_self e : e ∈ s.log.filter _)
  simp only [Bool.and_eq_true, beq_iff_eq] at hecond
  obtain ⟨heid, heend, hewhere⟩ := hdone e he
  refine ⟨hends, e.about.1, ⟨by rw [← heid, hecond.2], by rw [← heend, hecond.1],
    hewhere⟩, ?_⟩
  intro r hid hend hwhere
  have hin : r ∈ s.log.map fun e => e.about.1 := by
    rcases hwhere with hr | hr
    · exact hsub.subset hr
    · rcases hjournal r hr with hr | hr
      · simp at hr
      · exact hr
  obtain ⟨a, ha, rfl⟩ := List.mem_map.1 hin
  obtain ⟨haid, haend, -⟩ := hdone a ha
  rw [hmem a ha (haend.trans hend) (haid.trans hid)]

/-- While no access to the disk fails and the digest tells the keys apart: at
no moment are there too many resident transactions or two open ones of one
key, a response goes to the open query of its key, and after `close` every
number handed out has exactly one finished record. -/
theorem transactions_accounted (lib : DnsLib) (disk : Disk)
    (hdisk : ∀ n, disk.fault n = none)
    (hlist : ∀ n names, (disk.listing n names).Perm names) (es : List Event) :
    (Distinct lib (run lib disk {} es).1 →
      (∀ m ∈ (run lib disk {} es).1.moments, m.Sound) ∧
      Justified Answers (run lib disk {} es).1.log) ∧
    ∀ cache clock reason s returned,
      run lib disk {} (es ++ [.close cache clock reason]) = (s, returned) →
      Distinct lib s → ∀ id, 1 ≤ id → id ≤ s.next → FinishedOnce s returned id := by
  constructor
  · intro hd
    have htracked := run_tracked hdisk hlist (tracked_start lib) es hd
    exact ⟨htracked.sound, htracked.answers⟩
  · intro cache clock reason s returned hrun hd id hlow hhigh
    have hemits := emits_run lib disk {} (es ++ [.close cache clock reason])
    have hstate : s =
        ((run lib disk {} es).1.close lib disk cache clock reason).1 := by
      rw [run_append] at hrun
      exact (congrArg Prod.fst hrun).symm
    rw [hrun] at hemits
    subst hstate
    have hbefore : Distinct lib (run lib disk {} es).1 :=
      hd.before (emits_close lib disk _ cache clock reason).seen
    obtain ⟨htracked, hopened⟩ := close_tracked hdisk hlist
      (run_tracked hdisk hlist (tracked_start lib) es hbefore) cache clock reason
      hd
    have hbooks := htracked.books
    rw [hopened] at hbooks
    exact hemits.finishedOnce (hbooks.ended id hlow hhigh (by simp))

/-- A query for `a.` of type `A`, as on the wire. -/
def sampleQuery (id : Nat) : Bytes :=
  beBytes 2 id ++ [1, 0, 0, 1, 0, 0, 0, 0, 0, 0, 1, 97, 0, 0, 1, 0, 1]

def sampleLib : DnsLib where
  read bytes := .ok (⟨beNat (bytes.take 2), bytes[2]? == some 129, true,
    [⟨"a.", "A", "IN"⟩], "NoError"⟩, bytes.length)
  digest key :=
    if key = "0|a.:A:IN" then
      "4ecb5ddd4a9b93e914d887c270c9f9da88f9b955f54e1d0b48fcf0a7a3a2aa39"
    else key

def sampleClock : Clock := ⟨0, 0, 0⟩

/-- A disk whose access `n` fails. -/
def failingDisk (n : Nat) : Disk where
  fault m := if m = n then some "recording capacity reached" else none
  listing _ names := names

def calmDisk : Disk where
  fault _ := none
  listing _ names := names

def recordingCache : Option CacheHandle := some ⟨true, 1⟩

def queries : List Event := (List.range 65).map fun id =>
  .feed recordingCache sampleClock .client (sampleQuery id)

/-- The oldest of 65 queries goes to disk, and the third one is answered. -/
def answeredEvents : List Event :=
  queries ++ [.feed recordingCache sampleClock .server ((sampleQuery 2).set 2 129)]

theorem transactions_accounted_sample :
    let before := run sampleLib calmDisk {} answeredEvents
    let after := run sampleLib calmDisk {}
      (answeredEvents ++ [.close recordingCache sampleClock "end"])
    before.1.files.length = 1 ∧
      (3, true) ∈ before.2.map (fun r => (r.id, r.finished)) ∧
      ∀ id, 1 ≤ id → id ≤ 65 → FinishedOnce after.1 after.2 id := by
  intro before after
  refine ⟨by decide +kernel, by decide +kernel, fun id hlow hhigh => ?_⟩
  have hcount : after.1.next = 65 := by decide +kernel
  have hdistinct : Distinct sampleLib after.1 := by
    unfold Distinct
    decide +kernel
  exact (transactions_accounted sampleLib calmDisk (fun _ => rfl)
    (fun _ names => List.Perm.refl names) answeredEvents).2
    recordingCache sampleClock "end" after.1 after.2 Prod.mk.eta.symm hdistinct
    id hlow (hcount ▸ hhigh)

def spillingEvents : List Event :=
  queries ++ [.close recordingCache sampleClock "end"]

theorem failed_spill_loses_query :
    (run sampleLib (failingDisk 65) {} spillingEvents).2.any
      (fun r => r.id == 1 && !r.finished) = true ∧
    ¬ FinishedOnce (run sampleLib (failingDisk 65) {} spillingEvents).1
      (run sampleLib (failingDisk 65) {} spillingEvents).2 1 := by
  have hrun : (run sampleLib (failingDisk 65) {} spillingEvents).2.any
      (fun r => r.id == 1 && !r.finished) = true ∧
      ends (run sampleLib (failingDisk 65) {} spillingEvents).1.log 1 = 0 := by
    decide +kernel
  refine ⟨hrun.1, fun h => ?_⟩
  rw [FinishedOnce, hrun.2] at h
  exact absurd h.1 (by decide)

end Dns

end ProxyLane.Mitm
