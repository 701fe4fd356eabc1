import ProxyLane.Cache.Retained

/-!
# Paging of a recording's metadata

A ledger keeps every entry in memory.  The cache of a recording represents one:
each entry is either resident with the ticket its caller holds, or filed on
disk, and then at most a copy of it is in memory.  A cache that keeps this
answers as the ledger does, so as a cache without a limit would.
-/

namespace ProxyLane.Cache.Retained

open ProxyLane.Foundation ProxyLane.Protocol

/-! ## The ledger -/

structure Ledger where
  next : Nat
  journal : Journal
  entries : Nat → Option SavedEntry

def settled (t : Ticket) : SavedEntry :=
  ⟨{ t.snapshot with pendingChunks := 0 }, t.info⟩

namespace SavedEntry

def quiet (e : SavedEntry) : SavedEntry :=
  { e with cache := { e.cache with pendingChunks := 0 } }

def stop (e : SavedEntry) (reason : String) : SavedEntry :=
  { e with cache := { e.cache with reason := e.cache.reason <|> some reason } }

def store (e : SavedEntry) (stored : Sides Nat) : SavedEntry :=
  { e with cache := { e.cache with bytes := stored } }

def append (e : SavedEntry) (side : Direction) (keep : Nat)
    (obstacle : Option String) (r : Reply) : SavedEntry × Option String :=
  match r.charge with
  | some reason => (e.stop reason, some reason)
  | none =>
    if keep = 0 then (e, none)
    else
      match obstacle, r.write with
      | some error, _ =>
        (e.stop (writeFailed error), some (writeFailed error))
      | none, .done => (e.store (e.cache.bytes.modify side (· + keep)), none)
      | none, .failed length error =>
        ((e.store (e.cache.bytes.modify side (actual · keep length))).stop
          (writeFailed error), some (writeFailed error))

def finish (e : SavedEntry) (info : Sides BodyInfo) : SavedEntry :=
  if e.cache.finished then e
  else ⟨{ e.cache with finished := true }, info⟩

end SavedEntry

namespace Ledger

def initial : Ledger := ⟨1, ⟨false, false, none⟩, fun _ => none⟩

def put (m : Ledger) (id : Nat) (e : SavedEntry) : Ledger :=
  { m with entries := alter m.entries id fun _ => some e }

def fail (m : Ledger) (reason : String) : Ledger :=
  { m with journal := m.journal.stop reason }

def failed (m : Ledger) (reason : Option String) : Ledger :=
  match reason with
  | some reason => m.fail reason
  | none => m

def entry (m : Ledger) (r : Reply) : Ledger :=
  ({ m with next := m.next + 1 }.put m.next (settled (.new m.next))).failed r.event

def appendChunk (m : Ledger) (id : Nat) (e : SavedEntry) (side : Direction)
    (chunk : Bytes) (obstacle : Option String) (r : Reply) : Ledger :=
  if m.journal.accepting then
    let (e, reason) := e.append side chunk.length obstacle r
    (m.put id e).failed reason
  else m

/-- What is in the way of the payload file is in the way of the first write. -/
def appendChunks (id : Nat) (side : Direction) :
    Ledger → List Bytes → Option String → List Reply → Ledger
  | m, chunk :: rest, obstacle, replies =>
    match m.entries id with
    | some e =>
      if e.cache.reason.isNone then
        appendChunks id side
          (m.appendChunk id e side chunk obstacle (replies.headD .calm)) rest
          none replies.tail
      else m
    | none => m
  | m, [], _, _ => m

def append (m : Ledger) (id : Nat) (side : Direction) (bytes : Bytes)
    (obstacle : Option String) (replies : List Reply) : Ledger :=
  if m.journal.accepting then
    appendChunks id side m (chunks chunkSize bytes) obstacle replies
  else m

def finish (m : Ledger) (id : Nat) (e : SavedEntry) (info : Sides BodyInfo)
    (r : Reply) : Ledger :=
  if e.cache.finished then m.put id e
  else (m.put id (e.finish info)).failed r.event

/-- A step, with what is in the way of the payload file. -/
def step (m : Ledger) (obstacle : Option String) : Op → Ledger × Answer
  | .entry r => (m.entry r, .done)
  | .append id side bytes replies =>
    (m.append id side bytes obstacle replies, .done)
  | .finish id info r =>
    match m.entries id with
    | some e => (m.finish id e info r, .done)
    | none => (m, .done)
  | .finishStream id bytes complete r =>
    match m.entries id with
    | some e =>
      let e := if complete then e else e.stop streamEnded
      (m.finish id e (streamInfo bytes complete) r, .done)
    | none => (m, .done)
  | .status id _ | .reference id _ =>
    (m, .snapshot ((m.entries id).map SavedEntry.cache))
  | .read _ _ _ _ => (m, .done)
  | .fail reason => (m.fail reason, .done)
  | .checkpoint r => (m.failed r.event, .done)
  | .finishRecording r =>
    let m := m.failed r.event
    ({ m with journal := { m.journal with ended := true } }, .done)

end Ledger

/-! ## Where an entry is -/

def Resident (s : State) (id a : Nat) : Prop :=
  ∃ stopped files, s.records.get? id =
      some ⟨a, (s.tickets a).state.bytes, stopped, files⟩ ∧
    (stopped = true → (s.tickets a).state.reason.isSome = true) ∧
    s.restored ≠ some id

def Shelved (s : State) (id a : Nat) : Prop :=
  s.records.get? id = none ∨
    ∃ record, s.records.get? id = some record ∧ s.restored = some id ∧
      record.ticket ≠ a ∧ record.ticket < s.fresh ∧
      settled (s.tickets record.ticket) = settled (s.tickets a)

def Filed (s : State) (id a : Nat) : Prop :=
  (s.saved id).map SavedEntry.quiet = some (settled (s.tickets a)) ∧ Shelved s id a

structure Handle (s : State) (id a : Nat) : Prop where
  allocated : a < s.fresh
  id_eq : (s.tickets a).state.id = id
  accepting : (s.tickets a).accepting = (s.tickets a).state.reason.isNone

def Placed (loose : Option Nat) (s : State) (id a : Nat) : Prop :=
  Resident s id a ∨ Filed s id a ∨ (loose = some id ∧ s.current a = false)

structure Placement (loose : Option Nat) (s : State) : Prop where
  handle : ∀ {id a}, s.handles id = some a → Handle s id a
  placed : ∀ {id a}, s.handles id = some a → Placed loose s id a
  unknown : ∀ {id}, s.handles id = none → s.records.get? id = none ∧ s.saved id = none
  restored : ∀ {id}, s.restored = some id → (s.handles id).isSome = true

structure Books (s : State) (m : Ledger) : Prop where
  next : s.next = m.next
  completion : s.completion ≠ 0
  journal : s.journal = m.journal
  entries : ∀ id, (s.handles id).map (fun a => settled (s.tickets a)) = m.entries id
  unborn : ∀ {id}, s.next ≤ id → s.handles id = none

section Reading

variable {s s' : State} {m : Ledger} {loose : Option Nat} {id a : Nat}

@[simp] theorem settled_id (t : Ticket) : (settled t).cache.id = t.state.id :=
  rfl

@[simp] theorem settled_bytes (t : Ticket) :
    (settled t).cache.bytes = t.state.bytes := rfl

@[simp] theorem settled_reason (t : Ticket) :
    (settled t).cache.reason = t.state.reason := rfl

@[simp] theorem settled_finished (t : Ticket) :
    (settled t).cache.finished = (t.finished != 0) := rfl

@[simp] theorem settled_info (t : Ticket) : (settled t).info = t.info := rfl

@[simp] theorem settled_quiet (t : Ticket) :
    SavedEntry.quiet ⟨t.snapshot, t.info⟩ = settled t := rfl

theorem snapshot_of_pending {t : Ticket} (h : t.pending = 0) :
    t.snapshot = (settled t).cache := by
  simp [settled, Ticket.snapshot, h]

theorem Placement.handle_eq (hp : Placement loose s) {i : Nat}
    (hi : s.handles i = some a) (ha : s.handles id = some a) : i = id :=
  (hp.handle hi).id_eq.symm.trans (hp.handle ha).id_eq

theorem current_iff (hid : (s.tickets a).state.id = id) :
    s.current a = true ↔
      ∃ record, s.records.get? id = some record ∧ record.ticket = a := by
  simp [State.current, hid, Option.any_eq_true]

theorem current_of_none (hid : (s.tickets a).state.id = id)
    (h : s.records.get? id = none) : s.current a = false := by
  simp [State.current, hid, h]

theorem Resident.current (h : Resident s id a)
    (hid : (s.tickets a).state.id = id) : s.current a = true := by
  obtain ⟨stopped, files, hrecord, -, -⟩ := h
  exact (current_iff hid).mpr ⟨_, hrecord, rfl⟩

theorem Shelved.not_current (h : Shelved s id a)
    (hid : (s.tickets a).state.id = id) : s.current a = false := by
  obtain hnone | ⟨record, hrecord, -, hne, -, -⟩ := h
  · exact current_of_none hid hnone
  · simp [State.current, hid, hrecord, hne]

/-- The files of an entry once its record is in memory. -/
def State.files (s : State) (a : Nat) : Files :=
  match s.records.get? (s.tickets a).state.id with
  | some record => if record.ticket = a then record.files else .none true
  | none => .none true

theorem files_of_record (hid : (s.tickets a).state.id = id)
    {stored : Sides Nat} {stopped : Bool} {files : Files}
    (h : s.records.get? id = some ⟨a, stored, stopped, files⟩) :
    s.files a = files := by
  simp [State.files, hid, h]

theorem files_modifyTicket {f : Ticket → Ticket}
    (h : (f (s.tickets a)).state.id = (s.tickets a).state.id) :
    (s.modifyTicket a f).files a = s.files a := by
  simp [State.files, State.modifyTicket, h]

theorem files_of_not_current (h : s.current a = false) :
    s.files a = .none true := by
  unfold State.files
  split
  case h_1 record hrecord =>
    have hne : record.ticket ≠ a := by simpa [State.current, hrecord] using h
    rw [if_neg hne]
  case h_2 => rfl

theorem Placement.record_id (hp : Placement none s) {record : Record}
    (h : s.records.get? id = some record) :
    (s.tickets record.ticket).state.id = id := by
  cases hhandle : s.handles id with
  | none =>
    rw [(hp.unknown hhandle).1] at h
    cases h
  | some a =>
    have hid := (hp.handle hhandle).id_eq
    obtain hres | hfiled | ⟨hloose, -⟩ := hp.placed hhandle
    · obtain ⟨stopped, files, hrecord, -, -⟩ := hres
      rw [hrecord] at h
      cases h
      exact hid
    · obtain hnone | ⟨copy, hcopy, -, -, -, hsettled⟩ := hfiled.2
      · rw [hnone] at h
        cases h
      · rw [hcopy] at h
        cases h
        have := congrArg (fun e => e.cache.id) hsettled
        simpa [hid] using this
    · cases hloose

end Reading

/-! ## Making room -/

structure Moved (s s' : State) : Prop where
  tickets : s'.tickets = s.tickets
  fresh : s'.fresh = s.fresh
  handles : s'.handles = s.handles
  next : s'.next = s.next
  completion : s'.completion = s.completion
  journal : s'.journal = s.journal

section Room

variable {s s' s'' : State} {m : Ledger} {loose limit : Option Nat}
  {id a : Nat} {r : Reply}

theorem Moved.refl (s : State) : Moved s s := ⟨rfl, rfl, rfl, rfl, rfl, rfl⟩

theorem Moved.trans (h : Moved s s') (h' : Moved s' s'') : Moved s s'' where
  tickets := h'.tickets.trans h.tickets
  fresh := h'.fresh.trans h.fresh
  handles := h'.handles.trans h.handles
  next := h'.next.trans h.next
  completion := h'.completion.trans h.completion
  journal := h'.journal.trans h.journal

theorem Books.moved (hb : Books s m) (h : Moved s s') : Books s' m where
  next := h.next.trans hb.next
  completion := h.completion ▸ hb.completion
  journal := h.journal.trans hb.journal
  entries := by
    rw [h.handles, h.tickets]
    exact hb.entries
  unborn := by
    rw [h.handles, h.next]
    exact hb.unborn

theorem Handle.moved (hh : Handle s id a) (h : Moved s s') : Handle s' id a where
  allocated := h.fresh ▸ hh.allocated
  id_eq := h.tickets ▸ hh.id_eq
  accepting := h.tickets ▸ hh.accepting

theorem Placed.frame (h : Placed loose s id a)
    (hticket : s'.tickets a = s.tickets a)
    (hcopies : ∀ record, s.records.get? id = some record →
      s'.tickets record.ticket = s.tickets record.ticket)
    (hfresh : s.fresh ≤ s'.fresh) (hid : (s.tickets a).state.id = id)
    (hrecord : s'.records.get? id = s.records.get? id)
    (hrestored : s'.restored = some id ↔ s.restored = some id)
    (hsaved : s'.saved id = s.saved id) : Placed loose s' id a := by
  obtain ⟨stopped, files, hrec, hstopped, hne⟩ | ⟨hfile, hshelf⟩ | ⟨hloose, hcur⟩ := h
  · left
    refine ⟨stopped, files, ?_, ?_, ?_⟩
    · rw [hrecord, hticket, hrec]
    · rw [hticket]
      exact hstopped
    · exact fun h => hne (hrestored.mp h)
  · right
    left
    refine ⟨?_, ?_⟩
    · rw [hsaved, hticket, hfile]
    · obtain hnone | ⟨copy, hcopy, hres, hne, hlt, hsame⟩ := hshelf
      · exact .inl (hrecord.trans hnone)
      · right
        refine ⟨copy, hrecord.trans hcopy, hrestored.mpr hres, hne, ?_, ?_⟩
        · omega
        · rw [hticket, hcopies copy hcopy, hsame]
  · right
    right
    refine ⟨hloose, ?_⟩
    simpa [State.current, hticket, hid, hrecord] using hcur

theorem Placed.congr (h : Placed loose s id a)
    (htickets : s'.tickets = s.tickets) (hfresh : s'.fresh = s.fresh)
    (hid : (s.tickets a).state.id = id)
    (hrecord : s'.records.get? id = s.records.get? id)
    (hrestored : s'.restored = some id ↔ s.restored = some id)
    (hsaved : s'.saved id = s.saved id) : Placed loose s' id a :=
  h.frame (by rw [htickets]) (fun _ _ => by rw [htickets]) hfresh.ge hid
    hrecord hrestored hsaved

theorem refile_record (s : State) (i id : Nat) (f : Files → Files) :
    ∃ g : Files → Files, (s.refile i f).records.get? id =
      (s.records.get? id).map fun record =>
        { record with files := g record.files } := by
  by_cases h : id = i
  · exact ⟨f, by simp [State.refile, Table.get?_modify, h]⟩
  · exact ⟨fun f => f, by simp [State.refile, Table.get?_modify, h]⟩

theorem Resident.refile (h : Resident s id a) (i : Nat) (f : Files → Files) :
    Resident (s.refile i f) id a := by
  obtain ⟨g, hg⟩ := refile_record s i id f
  obtain ⟨stopped, files, hrec, hstopped, hne⟩ := h
  exact ⟨stopped, g files, by rw [hg, hrec]; rfl, hstopped, hne⟩

theorem Placed.refile (h : Placed loose s id a) (i : Nat) (f : Files → Files)
    (hid : (s.tickets a).state.id = id) : Placed loose (s.refile i f) id a := by
  obtain ⟨g, hg⟩ := refile_record s i id f
  obtain hres | ⟨hfile, hshelf⟩ | ⟨hloose, hcur⟩ := h
  · exact .inl (hres.refile i f)
  · refine .inr (.inl ⟨hfile, ?_⟩)
    obtain hnone | ⟨copy, hcopy, hrest⟩ := hshelf
    · exact .inl (by rw [hg, hnone]; rfl)
    · exact .inr ⟨{ copy with files := g copy.files },
        by rw [hg, hcopy, Option.map_some], hrest⟩
  · refine .inr (.inr ⟨hloose, ?_⟩)
    have htickets : (s.refile i f).tickets = s.tickets := rfl
    simpa [State.current, htickets, hid, hg, Option.any_map,
      Function.comp_def] using hcur

theorem refile_moved (s : State) (i : Nat) (f : Files → Files) :
    Moved s (s.refile i f) := ⟨rfl, rfl, rfl, rfl, rfl, rfl⟩

theorem Placement.refile (hp : Placement loose s) (i : Nat)
    (f : Files → Files) : Placement loose (s.refile i f) where
  handle hi := (hp.handle hi).moved (refile_moved s i f)
  placed hi := (hp.placed hi).refile i f (hp.handle hi).id_eq
  unknown {j} hj := by
    obtain ⟨g, hg⟩ := refile_record s i j f
    rw [hg, (hp.unknown hj).1]
    exact ⟨rfl, (hp.unknown hj).2⟩
  restored := hp.restored

variable {v : Nat}

theorem evict_ok (h : s.evict v r = .ok s') :
    s' = s ∨ ∃ record, s.records.get? v = some record ∧
      s' = { s with
        saved := alter s.saved v fun _ => some
          ⟨(s.tickets record.ticket).snapshot, (s.tickets record.ticket).info⟩
        records := s.records.erase v } := by
  unfold State.evict at h
  split at h
  case h_1 hnone =>
    cases h
    exact .inl rfl
  case h_2 record hrecord =>
    split at h
    case h_1 => cases h
    case h_2 =>
      cases h
      exact .inr ⟨record, hrecord, rfl⟩

theorem evict_filed {record : Record}
    (hrecord : s.records.get? v = some record)
    (h : Resident s v a ∨ Filed s v a)
    (hsaved : s'.saved v = some
      ⟨(s.tickets record.ticket).snapshot, (s.tickets record.ticket).info⟩)
    (hnone : s'.records.get? v = none) (htickets : s'.tickets = s.tickets) :
    Filed s' v a := by
  refine ⟨?_, .inl hnone⟩
  rw [hsaved, htickets, Option.map_some, settled_quiet]
  obtain ⟨stopped, files, hrec, -, -⟩ | ⟨-, hempty | ⟨copy, hcopy, -, -, -, hsame⟩⟩ := h
  · rw [hrec] at hrecord
    cases hrecord
    rfl
  · rw [hempty] at hrecord
    cases hrecord
  · rw [hcopy] at hrecord
    cases hrecord
    rw [hsame]

theorem evict_placement (hp : Placement loose s)
    (h : s.evict v r = .ok s') : Moved s s' ∧ Placement loose s' := by
  obtain rfl | ⟨record, hrecord, rfl⟩ := evict_ok h
  · exact ⟨.refl _, hp⟩
  refine ⟨⟨rfl, rfl, rfl, rfl, rfl, rfl⟩, ?_, ?_, ?_, hp.restored⟩
  · intro i b hi
    exact (hp.handle hi).moved ⟨rfl, rfl, rfl, rfl, rfl, rfl⟩
  · intro i b hi
    have hid := (hp.handle hi).id_eq
    by_cases hiv : i = v
    · subst hiv
      have hgone : (s.records.erase i).get? i = none := by
        simp [Table.get?_erase]
      obtain hres | hfiled | ⟨hloose, -⟩ := hp.placed hi
      · exact .inr (.inl (evict_filed hrecord (.inl hres) (by simp) hgone rfl))
      · exact .inr (.inl (evict_filed hrecord (.inr hfiled) (by simp) hgone rfl))
      · exact .inr (.inr ⟨hloose, current_of_none hid hgone⟩)
    · have hkeep : (s.records.erase v).get? i = s.records.get? i := by
        simp [Table.get?_erase, hiv]
      have hfile : alter s.saved v (fun _ => some
          ⟨(s.tickets record.ticket).snapshot, (s.tickets record.ticket).info⟩)
          i = s.saved i := alter_ne hiv
      exact (hp.placed hi).congr rfl rfl hid hkeep Iff.rfl hfile
  · intro i hi
    have hne : i ≠ v := by
      rintro rfl
      rw [(hp.unknown hi).1] at hrecord
      cases hrecord
    simpa [Table.get?_erase, alter_ne hne, hne] using hp.unknown hi

theorem evict_restored (h : s.evict v r = .ok s') :
    s'.restored = s.restored := by
  obtain rfl | ⟨record, -, rfl⟩ := evict_ok h <;> rfl

theorem evict_absent {i : Nat} (h : s.evict v r = .ok s')
    (hi : s.records.get? i = none) : s'.records.get? i = none := by
  obtain rfl | ⟨record, -, rfl⟩ := evict_ok h
  · exact hi
  · simp [Table.get?_erase, hi]

theorem evict_succeeds (h : r.metadata = none) :
    ∃ s', s.evict v r = .ok s' := by
  unfold State.evict
  split
  · exact ⟨_, rfl⟩
  · simp [h]

def Room (limit : Option Nat) (s : State) (r : Reply) : Prop :=
  s.full limit = false ∨ r.metadata = none

theorem makeRoom_spec (hp : Placement loose s) (hroom : Room limit s r) :
    ∃ s', s.makeRoom limit r = .ok s' ∧ Moved s s' ∧ Placement loose s' ∧
      s'.restored = s.restored ∧
      ∀ i, s.records.get? i = none → s'.records.get? i = none := by
  unfold State.makeRoom
  split
  case isFalse => exact ⟨s, rfl, .refl s, hp, rfl, fun _ h => h⟩
  case isTrue hfull =>
    split
    case h_2 => exact ⟨s, rfl, .refl s, hp, rfl, fun _ h => h⟩
    case h_1 v hv =>
      have hok : r.metadata = none := by
        obtain h | h := hroom
        · rw [h] at hfull
          cases hfull
        · exact h
      obtain ⟨s', hs'⟩ := evict_succeeds (s := s) (v := v) hok
      obtain ⟨hmoved, hplaced⟩ := evict_placement hp hs'
      exact ⟨s', hs', hmoved, hplaced, evict_restored hs',
        fun _ h => evict_absent hs' h⟩

/-! ## Taking an entry up -/

def State.withdraw (s : State) (id : Nat) : State :=
  { s with
    restored := if s.restored = some id then none else s.restored
    records := s.records.erase id }

theorem withdraw_moved (s : State) (id : Nat) : Moved s (s.withdraw id) :=
  ⟨rfl, rfl, rfl, rfl, rfl, rfl⟩

theorem withdraw_restored {i : Nat} :
    (s.withdraw id).restored = some i ↔ s.restored = some i ∧ i ≠ id := by
  unfold State.withdraw
  dsimp only
  split
  case isTrue h =>
    simp only [h, reduceCtorEq, Option.some.injEq, ne_eq, false_iff, not_and, not_not]
    exact fun h => h.symm
  case isFalse h =>
    constructor
    · intro hi
      refine ⟨hi, ?_⟩
      rintro rfl
      exact h hi
    · exact fun hi => hi.1

theorem withdraw_records (i : Nat) : (s.withdraw id).records.get? i =
    if i = id then none else s.records.get? i := by
  simp [State.withdraw, Table.get?_erase]

theorem withdraw_placement (hp : Placement (some id) s) :
    Placement (some id) (s.withdraw id) where
  handle hi := (hp.handle hi).moved (withdraw_moved s id)
  placed {i b} hi := by
    have hid := (hp.handle hi).id_eq
    by_cases h : i = id
    · subst h
      have hnone : (s.withdraw i).records.get? i = none := by
        rw [withdraw_records, if_pos rfl]
      exact .inr (.inr ⟨rfl, current_of_none hid hnone⟩)
    · have hkeep : (s.withdraw id).records.get? i = s.records.get? i := by
        rw [withdraw_records, if_neg h]
      refine (hp.placed hi).congr rfl rfl hid hkeep ?_ rfl
      rw [withdraw_restored]
      exact and_iff_left h
  unknown {i} hi := by
    refine ⟨?_, (hp.unknown hi).2⟩
    rw [withdraw_records, (hp.unknown hi).1, ite_self]
  restored hi := hp.restored (withdraw_restored.mp hi).1

private theorem withdraw_size_le (s : State) (id : Nat) :
    (s.withdraw id).records.size ≤ s.records.size :=
  List.length_filter_le _ _

theorem Room.withdraw (h : Room limit s r) : Room limit (s.withdraw id) r := by
  refine h.imp_left fun hfull => ?_
  unfold State.full at hfull ⊢
  cases limit with
  | none => rfl
  | some maxEntries =>
    have hle := withdraw_size_le s id
    simp only [decide_eq_false_iff_not] at hfull ⊢
    omega

def State.seat (s : State) (id a : Nat) : State :=
  let t := (s.tickets a).state
  let record : Record := ⟨a, t.bytes, t.reason.isSome, .none true⟩
  { s with records := s.records.insert id record }

theorem seat_moved (s : State) (id a : Nat) : Moved s (s.seat id a) :=
  ⟨rfl, rfl, rfl, rfl, rfl, rfl⟩

theorem seat_record : (s.seat id a).records.get? id = some
    ⟨a, (s.tickets a).state.bytes, (s.tickets a).state.reason.isSome,
      .none true⟩ := by
  simp [State.seat, Table.get?_insert]

theorem seat_resident (h : s.restored ≠ some id) :
    Resident (s.seat id a) id a :=
  ⟨_, _, seat_record, fun h => h, h⟩

theorem seat_placement (hp : Placement (some id) s)
    (ha : s.handles id = some a) (hrestored : s.restored ≠ some id) :
    Placement none (s.seat id a) where
  handle hi := (hp.handle hi).moved (seat_moved s id a)
  placed {i b} hi := by
    by_cases h : i = id
    · subst h
      obtain rfl : b = a := Option.some.inj (hi.symm.trans ha)
      exact .inl (seat_resident hrestored)
    · have hkeep : (s.seat id a).records.get? i = s.records.get? i := by
        simp [State.seat, Table.get?_insert, h]
      have hplaced : Placed (some id) (s.seat id a) i b :=
        (hp.placed hi).congr rfl rfl (hp.handle hi).id_eq hkeep Iff.rfl rfl
      obtain hres | hfiled | ⟨hloose, -⟩ := hplaced
      · exact .inl hres
      · exact .inr (.inl hfiled)
      · exact absurd (Option.some.inj hloose).symm h
  unknown {i} hi := by
    have h : i ≠ id := by
      rintro rfl
      cases hi.symm.trans ha
    simpa [State.seat, Table.get?_insert, h] using hp.unknown hi
  restored := hp.restored

theorem restoreLive_spec (hp : Placement (some id) s)
    (ha : s.handles id = some a) (hroom : Room limit s r) :
    ∃ s', s.restoreLive limit a r = (s', none) ∧ Moved s s' ∧
      Placement none s' ∧ Resident s' id a ∧ s'.files a = .none true := by
  have hid := (hp.handle ha).id_eq
  have hroom' : Room limit (s.withdraw id) r := hroom.withdraw
  obtain ⟨s', hs', hmoved, hplaced, hrestored, -⟩ :=
    makeRoom_spec (withdraw_placement hp) hroom'
  have hne : s'.restored ≠ some id := by
    rw [hrestored]
    exact fun h => (withdraw_restored.mp h).2 rfl
  have hhandle : s'.handles id = some a := by
    rw [hmoved.handles]
    exact ha
  refine ⟨s'.seat id a, ?_, ?_, seat_placement hplaced hhandle hne,
    seat_resident hne, ?_⟩
  · simp only [State.restoreLive, hid]
    have heq : State.makeRoom limit { s with
        restored := if s.restored = some id then none else s.restored
        records := s.records.erase id } r = .ok s' := hs'
    rw [heq]
    rfl
  · exact ((withdraw_moved s id).trans hmoved).trans (seat_moved s' id a)
  · refine files_of_record ?_ seat_record
    exact (hmoved.tickets ▸ hid : (s'.tickets a).state.id = id)

theorem Placement.loosen (hp : Placement none s) : Placement (some id) s where
  handle := hp.handle
  placed hi := by
    obtain hres | hfiled | ⟨hloose, -⟩ := hp.placed hi
    · exact .inl hres
    · exact .inr (.inl hfiled)
    · cases hloose
  unknown := hp.unknown
  restored := hp.restored

theorem Placement.resident (hp : Placement loose s) (ha : s.handles id = some a)
    (hcur : s.current a = true) : Resident s id a := by
  obtain hres | hfiled | ⟨-, hnot⟩ := hp.placed ha
  · exact hres
  · have hnot := hfiled.2.not_current (hp.handle ha).id_eq
    rw [hnot] at hcur
    cases hcur
  · rw [hnot] at hcur
    cases hcur

theorem Placement.tighten (hp : Placement (some id) s)
    (ha : s.handles id = some a) (h : Resident s id a ∨ Filed s id a) :
    Placement none s where
  handle := hp.handle
  placed {i b} hi := by
    obtain hres | hfiled | ⟨hloose, -⟩ := hp.placed hi
    · exact .inl hres
    · exact .inr (.inl hfiled)
    · obtain rfl : id = i := Option.some.inj hloose
      obtain rfl : b = a := Option.some.inj (hi.symm.trans ha)
      exact h.imp_right .inl
  unknown := hp.unknown
  restored := hp.restored

theorem live_spec (hp : Placement (some id) s) (ha : s.handles id = some a)
    (hroom : s.current a = true ∨ Room limit s r) :
    ∃ s', s.live limit a r = (s', none) ∧ Moved s s' ∧ Placement none s' ∧
      Resident s' id a ∧ s'.files a = s.files a := by
  unfold State.live
  split
  case isTrue hcur =>
    have hres := hp.resident ha hcur
    exact ⟨s, rfl, .refl s, hp.tighten ha (.inl hres), hres, rfl⟩
  case isFalse hcur =>
    rw [files_of_not_current (by simpa using hcur)]
    exact restoreLive_spec hp ha (hroom.resolve_left hcur)

end Room

/-! ## Changing a ticket -/

section Tickets

variable {s s' : State} {m : Ledger} {loose limit : Option Nat}
  {id a : Nat} {r : Reply} {f : Ticket → Ticket}

structure Fair (f : Ticket → Ticket) (t : Ticket) : Prop where
  id_eq : (f t).state.id = t.state.id
  accepting : (f t).accepting = (f t).state.reason.isNone

/-- Only the ticket that one entry's caller holds is changed; the record of
that entry may change too. -/
structure Touched (f : Ticket → Ticket) (id a : Nat) (s s' : State) : Prop where
  tickets : s'.tickets = alter s.tickets a f
  fresh : s'.fresh = s.fresh
  handles : s'.handles = s.handles
  records : ∀ i, i ≠ id → s'.records.get? i = s.records.get? i
  restored : s'.restored = s.restored
  saved : s'.saved = s.saved

theorem Touched.ticket (h : Touched f id a s s') :
    s'.tickets a = f (s.tickets a) := by
  rw [h.tickets, alter_self]

theorem Touched.handle (h : Touched f id a s s') (hp : Placement none s)
    (hf : Fair f (s.tickets a)) {i b : Nat} (hi : s.handles i = some b) :
    Handle s' i b := by
  have hh := hp.handle hi
  by_cases hb : b = a
  · subst hb
    refine ⟨?_, ?_, ?_⟩
    · rw [h.fresh]
      exact hh.allocated
    · rw [h.ticket, hf.id_eq, hh.id_eq]
    · rw [h.ticket, hf.accepting]
  · have hsame : s'.tickets b = s.tickets b := by
      rw [h.tickets, alter_ne hb]
    refine ⟨?_, ?_, ?_⟩
    · rw [h.fresh]
      exact hh.allocated
    · rw [hsame, hh.id_eq]
    · rw [hsame, hh.accepting]

theorem Touched.others (h : Touched f id a s s') (hp : Placement none s)
    (ha : s.handles id = some a) {i b : Nat} (hi : s.handles i = some b)
    (hne : i ≠ id) : Placed none s' i b := by
  have hid := (hp.handle ha).id_eq
  have hkept : ∀ c, (s.tickets c).state.id = i →
      s'.tickets c = s.tickets c := by
    intro c hc
    have hca : c ≠ a := by
      rintro rfl
      exact hne (hc.symm.trans hid)
    rw [h.tickets, alter_ne hca]
  exact (hp.placed hi).frame (hkept b (hp.handle hi).id_eq)
    (fun record hrecord => hkept _ (hp.record_id hrecord)) h.fresh.ge
    (hp.handle hi).id_eq (h.records i hne) (by rw [h.restored])
    (by rw [h.saved])

theorem Touched.placement (h : Touched f id a s s') (hp : Placement none s)
    (ha : s.handles id = some a) (hf : Fair f (s.tickets a))
    (hplaced : Placed loose s' id a) : Placement loose s' where
  handle {i b} hi := h.handle hp hf (h.handles ▸ hi)
  placed {i b} hi := by
    rw [h.handles] at hi
    by_cases hne : i = id
    · subst hne
      obtain rfl : b = a := Option.some.inj (hi.symm.trans ha)
      exact hplaced
    · obtain hres | hfiled | ⟨hloose, -⟩ := h.others hp ha hi hne
      · exact .inl hres
      · exact .inr (.inl hfiled)
      · cases hloose
  unknown {i} hi := by
    rw [h.handles] at hi
    have hne : i ≠ id := by
      rintro rfl
      cases hi.symm.trans ha
    rw [h.records i hne, h.saved]
    exact hp.unknown hi
  restored {i} hi := by
    rw [h.handles]
    rw [h.restored] at hi
    exact hp.restored hi

theorem Touched.books (h : Touched f id a s s') (hp : Placement none s)
    (hb : Books s m) (ha : s.handles id = some a) {e : SavedEntry}
    {j : Journal} (he : settled (f (s.tickets a)) = e)
    (hnext : s'.next = s.next) (hcompletion : s'.completion ≠ 0)
    (hjournal : s'.journal = j) :
    Books s' { m.put id e with journal := j } where
  next := hnext.trans hb.next
  completion := hcompletion
  journal := hjournal
  entries i := by
    rw [h.handles]
    by_cases hi : i = id
    · subst hi
      rw [ha, Option.map_some, h.ticket, he]
      simp [Ledger.put]
    · have hbook := hb.entries i
      simp only [Ledger.put, alter_ne hi]
      rw [← hbook]
      cases hhandle : s.handles i with
      | none => rfl
      | some b =>
        have hba : b ≠ a := by
          rintro rfl
          exact hi (hp.handle_eq hhandle ha)
        simp only [Option.map_some, h.tickets, alter_ne hba]
  unborn {i} hi := by
    rw [h.handles]
    exact hb.unborn (hnext ▸ hi)

theorem modifyTicket_touched (s : State) (id a : Nat) (f : Ticket → Ticket) :
    Touched f id a s (s.modifyTicket a f) :=
  ⟨rfl, rfl, rfl, fun _ _ => rfl, rfl, rfl⟩

/-- A caller's change of its ticket: a resident entry stays, a filed one is
out of its place until the worker takes it up. -/
theorem Touched.loosened (h : Touched f id a s s') (hp : Placement none s)
    (ha : s.handles id = some a) (hf : Fair f (s.tickets a))
    (hrecords : s'.records = s.records)
    (hbytes : (f (s.tickets a)).state.bytes = (s.tickets a).state.bytes)
    (hreason : (s.tickets a).state.reason.isSome = true →
      (f (s.tickets a)).state.reason.isSome = true) :
    Placement (some id) s' := by
  refine h.placement hp ha hf ?_
  have hid := (hp.handle ha).id_eq
  obtain ⟨stopped, files, hrec, hstopped, hne⟩ | hfiled | ⟨hloose, -⟩ := hp.placed ha
  · left
    refine ⟨stopped, files, ?_, ?_, ?_⟩
    · rw [hrecords, h.ticket, hbytes, hrec]
    · rw [h.ticket]
      exact fun hst => hreason (hstopped hst)
    · rw [h.restored]
      exact hne
  · right
    right
    have hcur := hfiled.2.not_current hid
    refine ⟨rfl, ?_⟩
    simpa [State.current, h.ticket, hf.id_eq, hid, hrecords] using hcur
  · cases hloose

/-! ## Serving an entry that is in memory -/

/-- The entry is in memory, everything else is in its place, and the ledger
agrees. -/
structure Serving (s : State) (m : Ledger) (id a : Nat) : Prop where
  placement : Placement none s
  books : Books s m
  handle : s.handles id = some a
  resident : Resident s id a

theorem Serving.refile (h : Serving s m id a) (f : Files → Files) :
    Serving (s.refile id f) m id a where
  placement := h.placement.refile id f
  books := h.books.moved (refile_moved s id f)
  handle := h.handle
  resident := h.resident.refile id f

theorem stop_eq (hres : Resident s id a) (reason : String) :
    s.stop id reason = { s with
      journal := s.journal.stop reason
      records := s.records.modify id fun record =>
        { record with stopped := true }
      tickets := alter s.tickets a fun t => t.stop reason } := by
  obtain ⟨stopped, files, hrec, -, -⟩ := hres
  simp [State.stop, State.fail, hrec]

theorem fair_stop {t : Ticket} (reason : String) :
    Fair (fun t => t.stop reason) t where
  id_eq := rfl
  accepting := by cases h : t.state.reason <;> simp [Ticket.stop, h]

@[simp] theorem settled_stop (t : Ticket) (reason : String) :
    settled (t.stop reason) = (settled t).stop reason := rfl

theorem stop_serving (h : Serving s m id a) (reason : String) :
    Serving (s.stop id reason)
      ((m.put id ((settled (s.tickets a)).stop reason)).fail reason) id a := by
  have hres := h.resident
  rw [stop_eq hres]
  obtain ⟨stopped, files, hrec, hstopped, hne⟩ := hres
  have htouch : Touched (fun t => t.stop reason) id a s { s with
      journal := s.journal.stop reason
      records := s.records.modify id fun record =>
        { record with stopped := true }
      tickets := alter s.tickets a fun t => t.stop reason } :=
    ⟨rfl, rfl, rfl, fun i hi => by simp [Table.get?_modify, hi], rfl, rfl⟩
  have hresident : Resident { s with
      journal := s.journal.stop reason
      records := s.records.modify id fun record =>
        { record with stopped := true }
      tickets := alter s.tickets a fun t => t.stop reason } id a := by
    refine ⟨true, files, ?_, ?_, hne⟩
    · simp [Table.get?_modify, hrec, Ticket.stop]
    · simp [Ticket.stop]
  refine ⟨?_, ?_, h.handle, hresident⟩
  · exact htouch.placement h.placement h.handle (fair_stop reason) (.inl hresident)
  · refine htouch.books h.placement h.books h.handle rfl rfl
      h.books.completion ?_
    exact congrArg (fun j : Journal => j.stop reason) h.books.journal

@[simp] theorem settled_store (stored : Sides Nat) :
    settled ((s.store id a stored).tickets a) =
      (settled (s.tickets a)).store stored := by
  simp [State.store, settled, SavedEntry.store, Ticket.snapshot]

theorem store_serving (h : Serving s m id a) (stored : Sides Nat) :
    Serving (s.store id a stored)
      (m.put id ((settled (s.tickets a)).store stored)) id a := by
  obtain ⟨stopped, files, hrec, hstopped, hne⟩ := h.resident
  have hfair : Fair (fun t : Ticket =>
      { t with state := { t.state with bytes := stored } }) (s.tickets a) :=
    ⟨rfl, (h.placement.handle h.handle).accepting⟩
  have htouch : Touched (fun t : Ticket =>
      { t with state := { t.state with bytes := stored } }) id a s
      (s.store id a stored) :=
    ⟨rfl, rfl, rfl, fun i hi => by simp [State.store, Table.get?_modify, hi],
      rfl, rfl⟩
  have hresident : Resident (s.store id a stored) id a := by
    refine ⟨stopped, files, ?_, ?_, hne⟩
    · simp [State.store, Table.get?_modify, hrec]
    · simpa [State.store] using hstopped
  refine ⟨?_, ?_, h.handle, hresident⟩
  · exact htouch.placement h.placement h.handle hfair (.inl hresident)
  · exact htouch.books h.placement h.books h.handle rfl rfl
      h.books.completion h.books.journal

@[simp] theorem put_put (m : Ledger) (id : Nat) (e e' : SavedEntry) :
    (m.put id e).put id e' = m.put id e' := by
  unfold Ledger.put
  congr 1
  funext i
  by_cases hi : i = id
  · subst hi
    simp
  · simp [alter_ne hi]

@[simp] theorem failed_some (m : Ledger) (reason : String) :
    m.failed (some reason) = m.fail reason := rfl

@[simp] theorem failed_none (m : Ledger) : m.failed none = m := rfl

theorem Books.put_self (hb : Books s m) (ha : s.handles id = some a) :
    m.put id (settled (s.tickets a)) = m := by
  unfold Ledger.put
  congr 1
  funext i
  by_cases hi : i = id
  · subst hi
    rw [alter_self, ← hb.entries, ha, Option.map_some]
  · rw [alter_ne hi]

theorem Books.entry (hb : Books s m) (ha : s.handles id = some a) :
    m.entries id = some (settled (s.tickets a)) := by
  rw [← hb.entries, ha, Option.map_some]

theorem write_serving (h : Serving s m id a) (record : Record)
    (hstored : record.stored = (s.tickets a).state.bytes) (side : Direction)
    (keep : Nat) (hcharge : r.charge = none) (hkeep : keep ≠ 0) :
    Serving (s.write id a record side keep r)
      ((m.put id ((settled (s.tickets a)).append side keep
        (record.files.obstacle side r) r).1).failed
        ((settled (s.tickets a)).append side keep
          (record.files.obstacle side r) r).2) id a := by
  cases hobstacle : record.files.obstacle side r with
  | some error =>
    have hstop := stop_serving (h.refile fun f => { f with
      dirty := f.dirty || f.opened.get side == .reading }) (writeFailed error)
    simpa [State.write, SavedEntry.append, hcharge, hkeep, hobstacle,
      State.refile] using hstop
  | none =>
    have hopened := h.refile fun f => ⟨f.opened.set side .appending, true⟩
    cases hwrite : r.write with
    | done =>
      have hstore := store_serving hopened
        (record.stored.modify side (· + keep))
      simpa [State.write, SavedEntry.append, hcharge, hkeep, hwrite, hobstacle,
        hstored, State.refile] using hstore
    | failed length error =>
      have hstore := store_serving hopened
        (record.stored.modify side (actual · keep length))
      have hstop := stop_serving hstore (writeFailed error)
      rw [put_put, settled_store] at hstop
      simpa [State.write, SavedEntry.append, hcharge, hkeep, hwrite, hobstacle,
        hstored, State.refile] using hstop

/-- An append that has gone through has left its payload file open. -/
def Writable (s : State) (a : Nat) (side : Direction) : Prop :=
  s.journal.accepting = true → (s.files a).opened.get side = .appending

theorem writable_of_stop (id : Nat) (reason : String) (side : Direction) :
    Writable (s.stop id reason) a side := by
  intro h
  have hstopped : (s.stop id reason).journal = s.journal.stop reason := by
    unfold State.stop
    dsimp only
    split <;> rfl
  rw [hstopped] at h
  cases h

theorem write_writable (hres : Resident s id a)
    (hid : (s.tickets a).state.id = id) (record : Record) (side : Direction)
    (keep : Nat) : Writable (s.write id a record side keep r) a side := by
  unfold State.write
  split
  case h_1 => exact writable_of_stop id _ side
  case h_2 =>
    dsimp only
    split
    case h_2 => exact writable_of_stop id _ side
    case h_1 =>
      intro _
      obtain ⟨stopped, files, hrec, -, -⟩ := hres
      simp [State.files, State.store, State.refile, Table.get?_modify, hid, hrec]

theorem appendRecord_serving (hp : Placement none s) (hb : Books s m)
    (ha : s.handles id = some a)
    (hroom : s.current a = true ∨ Room limit s r)
    (haccepting : (s.tickets a).accepting = true) (side : Direction)
    {chunk : Bytes} (hchunk : chunk ≠ []) :
    Serving (s.appendRecord limit a side chunk.length r)
      (m.appendChunk id (settled (s.tickets a)) side chunk
        ((s.files a).obstacle side r) r) id a ∧
      Writable (s.appendRecord limit a side chunk.length r) a side := by
  obtain ⟨s', hlive, hmoved, hplaced, hres, hfiles⟩ :=
    live_spec hp.loosen ha hroom
  have hserving : Serving s' m id a :=
    ⟨hplaced, hb.moved hmoved, by rw [hmoved.handles, ha], hres⟩
  have hid : (s'.tickets a).state.id = id :=
    (hplaced.handle hserving.handle).id_eq
  have hkeep : chunk.length ≠ 0 := by simpa using hchunk
  rw [← hmoved.tickets] at haccepting
  rw [← hmoved.tickets, ← hfiles]
  have hwritable := write_writable hres hid (r := r)
  have hreason : (s'.tickets a).state.reason.isNone = true := by
    rw [← (hplaced.handle hserving.handle).accepting]
    exact haccepting
  obtain ⟨stopped, files, hrec, hstopped, -⟩ := hres
  have hrunning : stopped = false := by
    cases stopped with
    | false => rfl
    | true => simp [Option.isNone_iff_eq_none.mp hreason] at hstopped
  have hjournal := hserving.books.journal
  rw [files_of_record hid hrec]
  simp only [State.appendRecord, hlive, hid, hrec, hrunning, Ledger.appendChunk,
    ← hjournal]
  cases haccept : s'.journal.accepting with
  | false => exact ⟨by simpa using hserving, fun h => by simp [haccept] at h⟩
  | true =>
    simp only [Bool.not_true, Bool.false_eq_true, if_false, if_true]
    cases hcharge : r.charge with
    | some reason =>
      have hstop := stop_serving hserving reason
      exact ⟨by simpa [SavedEntry.append, hcharge] using hstop,
        writable_of_stop id reason side⟩
    | none =>
      simp only [hkeep, if_false]
      exact ⟨write_serving hserving _ rfl side _ hcharge hkeep,
        hwritable _ side _⟩

theorem Touched.pending_placement (h : Touched f id a s s')
    (hp : Placement none s) (ha : s.handles id = some a)
    (hrecords : s'.records = s.records)
    (hsettled : settled (f (s.tickets a)) = settled (s.tickets a))
    (haccepting : (f (s.tickets a)).accepting = (s.tickets a).accepting) :
    Placement none s' := by
  have hid := congrArg (fun e => e.cache.id) hsettled
  have hbytes := congrArg (fun e => e.cache.bytes) hsettled
  have hreason := congrArg (fun e => e.cache.reason) hsettled
  simp only [settled_id, settled_bytes, settled_reason] at hid hbytes hreason
  have hf : Fair f (s.tickets a) := by
    refine ⟨hid, ?_⟩
    rw [haccepting, hreason, (hp.handle ha).accepting]
  have hloose := h.loosened hp ha hf hrecords hbytes (by simp [hreason])
  obtain hres | ⟨hfile, hshelf⟩ | ⟨hloose, -⟩ := hp.placed ha
  · refine hloose.tighten (by rw [h.handles, ha]) (.inl ?_)
    have hcur := hres.current (hp.handle ha).id_eq
    refine hloose.resident (by rw [h.handles, ha]) ?_
    simpa [State.current, h.ticket, hid, hrecords] using hcur
  · refine hloose.tighten (by rw [h.handles, ha]) (.inr ⟨?_, ?_⟩)
    · rw [h.saved, h.ticket, hsettled, hfile]
    · obtain hnone | ⟨copy, hcopy, hrestored, hne, hlt, hsame⟩ := hshelf
      · exact .inl (by rw [hrecords, hnone])
      · refine .inr ⟨copy, by rw [hrecords, hcopy], by rw [h.restored, hrestored],
          hne, by rw [h.fresh]; exact hlt, ?_⟩
        rw [h.ticket, hsettled, h.tickets, alter_ne hne, hsame]
  · cases hloose

theorem pending_serving (h : Serving s m id a)
    (hsettled : settled (f (s.tickets a)) = settled (s.tickets a))
    (haccepting : (f (s.tickets a)).accepting = (s.tickets a).accepting) :
    Serving (s.modifyTicket a f) m id a := by
  have htouch := modifyTicket_touched s id a f
  have hplaced := htouch.pending_placement h.placement h.handle rfl hsettled
    haccepting
  have hbooks := htouch.books h.placement h.books h.handle hsettled rfl
    h.books.completion h.books.journal
  have hself := h.books.put_self h.handle
  rw [hself] at hbooks
  refine ⟨hplaced, hbooks, h.handle, hplaced.resident h.handle ?_⟩
  have hid := congrArg (fun e => e.cache.id) hsettled
  have hcur := h.resident.current (h.placement.handle h.handle).id_eq
  simp only [settled_id] at hid
  simpa [State.current, State.modifyTicket, hid] using hcur

/-! ## What is under way -/

def Quiet (s : State) : Prop := ∀ b, (s.tickets b).pending = 0

theorem alter_pending {tickets : Nat → Ticket} (b : Nat)
    (hf : ∀ t, (f t).pending = t.pending) :
    (alter tickets a f b).pending = (tickets b).pending := by
  by_cases hb : b = a
  · subst hb
    simp [hf]
  · rw [alter_ne hb]

theorem makeRoom_tickets (h : s.makeRoom limit r = .ok s') :
    s'.tickets = s.tickets := by
  unfold State.makeRoom at h
  split at h
  · split at h
    · obtain rfl | ⟨record, -, rfl⟩ := evict_ok h <;> rfl
    · cases h
      rfl
  · cases h
    rfl

theorem live_tickets : (s.live limit a r).1.tickets = s.tickets := by
  unfold State.live State.restoreLive
  split
  · rfl
  · dsimp only
    split
    · rfl
    · next s' hs' =>
        have htickets := makeRoom_tickets hs'
        exact htickets

theorem stop_pending (id : Nat) (reason : String) (b : Nat) :
    ((s.stop id reason).tickets b).pending = (s.tickets b).pending := by
  unfold State.stop State.fail
  dsimp only
  split
  · rfl
  · exact alter_pending b fun _ => rfl

theorem store_pending (id : Nat) (stored : Sides Nat) (b : Nat) :
    ((s.store id a stored).tickets b).pending = (s.tickets b).pending :=
  alter_pending b fun _ => rfl

theorem write_pending (id : Nat) (record : Record) (side : Direction)
    (keep b : Nat) :
    ((s.write id a record side keep r).tickets b).pending =
      (s.tickets b).pending := by
  unfold State.write
  split
  · exact stop_pending id _ b
  · dsimp only
    split
    · exact store_pending id _ b
    · rw [stop_pending, store_pending]
      rfl

theorem appendRecord_pending (side : Direction) (keep b : Nat) :
    ((s.appendRecord limit a side keep r).tickets b).pending =
      (s.tickets b).pending := by
  have htickets : (s.live limit a r).1.tickets = s.tickets := live_tickets
  unfold State.appendRecord
  rcases hlive : s.live limit a r with ⟨s', error⟩
  rw [hlive] at htickets
  simp only at htickets
  rw [← htickets]
  cases error with
  | some reason => rfl
  | none =>
    dsimp only
    split
    · rfl
    split
    · rfl
    split
    · rfl
    split
    · exact stop_pending _ _ b
    split
    · rfl
    · exact write_pending _ _ side keep b

theorem appendChunk_quiet (h : Quiet s) (side : Direction) (chunk : Bytes) :
    Quiet (s.appendChunk limit a side chunk r) := by
  intro b
  by_cases hb : b = a
  · subst hb
    simp [State.appendChunk, State.modifyTicket, appendRecord_pending, h b]
  · simp [State.appendChunk, State.modifyTicket, alter_ne hb,
      appendRecord_pending, h b]

theorem appendChunk_serving (hp : Placement none s) (hb : Books s m)
    (ha : s.handles id = some a)
    (hroom : s.current a = true ∨ Room limit s r)
    (haccepting : (s.tickets a).accepting = true) (side : Direction)
    {chunk : Bytes} (hchunk : chunk ≠ []) :
    Serving (s.appendChunk limit a side chunk r)
      (m.appendChunk id (settled (s.tickets a)) side chunk
        ((s.files a).obstacle side r) r) id a ∧
      Writable (s.appendChunk limit a side chunk r) a side := by
  have htouch := modifyTicket_touched s id a fun t =>
    { t with pending := t.pending + 1 }
  have hplaced := htouch.pending_placement hp ha rfl rfl rfl
  have hbooks := htouch.books hp hb ha rfl rfl hb.completion hb.journal
  have hself : m.put id (settled (s.tickets a)) = m := hb.put_self ha
  have hbooks' : Books (s.modifyTicket a fun t =>
      { t with pending := t.pending + 1 }) m := by
    have hsame : settled { s.tickets a with
        pending := (s.tickets a).pending + 1 } = settled (s.tickets a) := rfl
    rw [hsame, hself] at hbooks
    exact hbooks
  have hcur : (s.modifyTicket a fun t =>
      { t with pending := t.pending + 1 }).current a = s.current a := by
    simp [State.current, State.modifyTicket]
  have hroom' : (s.modifyTicket a fun t =>
      { t with pending := t.pending + 1 }).current a = true ∨
      Room limit (s.modifyTicket a fun t =>
        { t with pending := t.pending + 1 }) r :=
    hroom.imp (fun h => hcur.trans h) fun h => h
  obtain ⟨hserving, hwritable⟩ := appendRecord_serving hplaced hbooks' ha hroom'
    (by simpa [State.modifyTicket] using haccepting) side hchunk
  have hticket : settled ((s.modifyTicket a fun t =>
      { t with pending := t.pending + 1 }).tickets a) =
      settled (s.tickets a) := by
    simp [State.modifyTicket, settled, Ticket.snapshot]
  rw [hticket, files_modifyTicket rfl] at hserving
  refine ⟨pending_serving hserving rfl rfl, fun h => ?_⟩
  rw [State.appendChunk, files_modifyTicket rfl]
  exact hwritable h

end Tickets

structure Represents (s : State) (m : Ledger) : Prop where
  placement : Placement none s
  books : Books s m
  quiet : Quiet s

section Operations

variable {s s' : State} {m : Ledger} {limit : Option Nat} {id a : Nat}
  {r : Reply}

theorem initial_represents : Represents .initial .initial where
  placement :=
    { handle := fun h => by cases h
      placed := fun h => by cases h
      unknown := fun _ => ⟨rfl, rfl⟩
      restored := fun h => by cases h }
  books :=
    { next := rfl
      completion := by decide
      journal := rfl
      entries := fun _ => rfl
      unborn := fun _ => rfl }
  quiet := fun _ => rfl

theorem Placement.aside {loose : Option Nat} (hp : Placement loose s) (n : Nat)
    (j : Journal) : Placement loose { s with next := n, journal := j } where
  handle hi := by
    obtain ⟨hallocated, hid, haccepting⟩ := hp.handle hi
    exact ⟨hallocated, hid, haccepting⟩
  placed hi := (hp.placed hi).congr rfl rfl (hp.handle hi).id_eq rfl Iff.rfl rfl
  unknown := hp.unknown
  restored := hp.restored

theorem journal_represents (h : Represents s m) (change : Journal → Journal) :
    Represents { s with journal := change s.journal }
      { m with journal := change m.journal } where
  placement := h.placement.aside s.next (change s.journal)
  books :=
    { next := h.books.next
      completion := h.books.completion
      journal := congrArg change h.books.journal
      entries := h.books.entries
      unborn := h.books.unborn }
  quiet := h.quiet

theorem fail_represents (h : Represents s m) (reason : String) :
    Represents (s.fail reason) (m.fail reason) :=
  journal_represents h fun j => j.stop reason

theorem Represents.refile (h : Represents s m) (id : Nat) (f : Files → Files) :
    Represents (s.refile id f) m where
  placement := h.placement.refile id f
  books := h.books.moved (refile_moved s id f)
  quiet := h.quiet

theorem event_represents (h : Represents s m) (r : Reply) :
    Represents (s.event r) (m.failed r.event) := by
  unfold State.event
  cases r.event with
  | none => exact h
  | some reason => exact fail_represents h reason

theorem checkpoint_represents (h : Represents s m) (r : Reply) :
    Represents (s.checkpoint r) (m.failed r.event) := by
  refine event_represents ?_ r
  refine List.foldlRecOn (motive := fun s' => Represents s' m) s.records.keys
    State.checkEntry h fun s' hs' id _ => ?_
  unfold State.checkEntry
  exact hs'.refile id _

/-- An obstacle matters only while the recording takes anything. -/
theorem Ledger.appendChunk_congr {e : SavedEntry} {side : Direction}
    {chunk : Bytes} {o o' : Option String}
    (h : m.journal.accepting = true → o = o') :
    m.appendChunk id e side chunk o r = m.appendChunk id e side chunk o' r := by
  unfold Ledger.appendChunk
  split
  case isTrue haccept => rw [h haccept]
  case isFalse => rfl

theorem appendChunks_represents (h : Represents s m)
    (ha : s.handles id = some a) {side : Direction} {chunks : List Bytes}
    {replies : List Reply} {obstacle : Option String}
    (hchunks : ∀ chunk ∈ chunks, chunk ≠ [])
    (hobstacle : s.journal.accepting = true →
      (s.files a).obstacle side (replies.headD .calm) = obstacle)
    (hroom : s.current a = true ∨ Room limit s (replies.headD .calm)) :
    Represents (State.appendChunks limit a side s chunks replies)
      (Ledger.appendChunks id side m chunks obstacle replies) := by
  induction chunks generalizing s m replies obstacle with
  | nil => exact h
  | cons chunk rest ih =>
    have hentry := h.books.entry ha
    have haccepting := (h.placement.handle ha).accepting
    unfold State.appendChunks Ledger.appendChunks
    simp only [hentry, settled_reason, ← haccepting]
    split
    case isFalse => exact h
    case isTrue hopen =>
      obtain ⟨hserving, hwritable⟩ := appendChunk_serving h.placement h.books ha
        hroom hopen side (hchunks chunk List.mem_cons_self)
      rw [Ledger.appendChunk_congr (h.books.journal ▸ hobstacle)] at hserving
      have hid := (hserving.placement.handle hserving.handle).id_eq
      refine ih ⟨hserving.placement, hserving.books,
        appendChunk_quiet h.quiet side chunk⟩ hserving.handle
        (fun c hc => hchunks c (List.mem_cons_of_mem chunk hc)) ?_
        (.inl (hserving.resident.current hid))
      intro haccept
      unfold Files.obstacle
      rw [hwritable haccept]

theorem append_represents (h : Represents s m) (ha : s.handles id = some a)
    {side : Direction} {bytes : Bytes} {replies : List Reply}
    (hroom : s.current a = true ∨ Room limit s (replies.headD .calm)) :
    Represents (s.append limit a side bytes replies) (m.append id side bytes
      ((s.files a).obstacle side (replies.headD .calm)) replies) := by
  unfold State.append Ledger.append
  rw [h.books.journal]
  split
  · exact appendChunks_represents h ha (fun _ => ne_nil_of_mem_chunks (by decide))
      (fun _ => rfl) hroom
  · exact h

theorem finishedRecord_represents (hp : Placement (some id) s)
    (hb : Books s m) (hq : Quiet s) (ha : s.handles id = some a)
    (hroom : s.current a = true ∨ Room limit s r) :
    Represents (s.finishedRecord limit a r) (m.failed r.event) := by
  obtain ⟨s', hlive, hmoved, hplaced, -, -⟩ := live_spec hp ha hroom
  have hquiet : Quiet s' := by
    intro b
    rw [hmoved.tickets]
    exact hq b
  have hlived : Represents s' m := ⟨hplaced, hb.moved hmoved, hquiet⟩
  unfold State.finishedRecord
  rw [hlive]
  exact event_represents ((hlived.refile _ _).refile _ _) r

theorem report_represents (order : Nat) {f : Ticket → Ticket}
    (h : Represents s m) (ha : s.handles id = some a)
    (hf : Fair f (s.tickets a))
    (hbytes : (f (s.tickets a)).state.bytes = (s.tickets a).state.bytes)
    (hreason : (s.tickets a).state.reason.isSome = true →
      (f (s.tickets a)).state.reason.isSome = true)
    (hpending : ∀ t, (f t).pending = t.pending)
    (hroom : s.current a = true ∨ Room limit s r) :
    Represents
      ({ s.modifyTicket a f with completion := order + 1 }.finishedRecord limit a r)
      ((m.put id (settled (f (s.tickets a)))).failed r.event) := by
  have htouch : Touched f id a s
      { s.modifyTicket a f with completion := order + 1 } :=
    ⟨rfl, rfl, rfl, fun _ _ => rfl, rfl, rfl⟩
  have hplaced := htouch.loosened h.placement ha hf rfl hbytes hreason
  have hbooks := htouch.books h.placement h.books ha rfl rfl
    (Nat.succ_ne_zero order) h.books.journal
  have hcur : { s.modifyTicket a f with completion := order + 1 }.current a =
      s.current a := by
    simp [State.current, State.modifyTicket, hf.id_eq]
  refine finishedRecord_represents hplaced hbooks ?_ ha ?_
  · intro b
    exact (alter_pending b hpending).trans (h.quiet b)
  · exact hroom.imp (fun h => hcur.trans h) fun h => h

theorem finish_represents (h : Represents s m) (ha : s.handles id = some a)
    {info : Sides BodyInfo}
    (hroom : (s.tickets a).finished ≠ 0 ∨ s.current a = true ∨ Room limit s r) :
    Represents (s.finish limit a info r)
      (m.finish id (settled (s.tickets a)) info r) := by
  unfold State.finish Ledger.finish
  by_cases hfin : (s.tickets a).finished = 0
  case neg => simpa [hfin, h.books.put_self ha] using h
  case pos =>
    have hreport := report_represents s.completion (f := fun t =>
      { t with info := info, finished := s.completion }) h ha
      ⟨rfl, (h.placement.handle ha).accepting⟩ rfl (fun h => h) (fun _ => rfl)
      (hroom.resolve_left fun hne => hne hfin)
    have hsettled : settled { s.tickets a with
        info := info, finished := s.completion } =
        (settled (s.tickets a)).finish info := by
      simp [settled, SavedEntry.finish, Ticket.snapshot, hfin, h.books.completion]
    rw [hsettled] at hreport
    simpa [hfin] using hreport

theorem modifyTicket_modifyTicket (s : State) (a : Nat)
    (f g : Ticket → Ticket) :
    (s.modifyTicket a f).modifyTicket a g = s.modifyTicket a fun t => g (f t) := by
  unfold State.modifyTicket
  congr 1
  funext b
  by_cases hb : b = a
  · subst hb
    simp
  · simp [alter_ne hb]

theorem stop_of_stopped {t : Ticket} {reason : String}
    (haccepting : t.accepting = t.state.reason.isNone)
    (h : t.state.reason.isSome = true) : t.stop reason = t := by
  obtain ⟨old, hold⟩ := Option.isSome_iff_exists.mp h
  rcases t with ⟨⟨i, bytes, fin, pend, evicted, why⟩, info, acc, pending, order⟩
  simp only at hold haccepting
  subst hold
  simp only [Option.isNone_some] at haccepting
  subst haccepting
  rfl

theorem modifyTicket_self {f : Ticket → Ticket}
    (h : f (s.tickets a) = s.tickets a) : s.modifyTicket a f = s := by
  have htickets : alter s.tickets a f = s.tickets := by
    funext b
    by_cases hb : b = a
    · subst hb
      rw [alter_self, h]
    · rw [alter_ne hb]
  unfold State.modifyTicket
  rw [htickets]

theorem stopTicket_represents (h : Represents s m) (ha : s.handles id = some a)
    (reason : String)
    (hsafe : (s.tickets a).state.reason.isSome = true ∨ s.current a = true) :
    Represents (s.stopTicket a reason)
      (m.put id ((settled (s.tickets a)).stop reason)) := by
  have hhandle := h.placement.handle ha
  obtain hstopped | hcur := hsafe
  · have hsame : (s.tickets a).stop reason = s.tickets a :=
      stop_of_stopped hhandle.accepting hstopped
    have hself : s.stopTicket a reason = s := modifyTicket_self hsame
    rw [hself, ← settled_stop, hsame, h.books.put_self ha]
    exact h
  · have htouch := modifyTicket_touched s id a fun t => t.stop reason
    have hloose := htouch.loosened h.placement ha (fair_stop reason) rfl rfl
      fun hsome => by simp [Ticket.stop]
    have hbooks := htouch.books h.placement h.books ha rfl rfl
      h.books.completion h.books.journal
    have hres := hloose.resident ha (by
      simpa [State.current, State.modifyTicket, Ticket.stop] using hcur)
    have hquiet : Quiet (s.stopTicket a reason) := fun b =>
      (alter_pending (f := fun t => t.stop reason) b fun _ => rfl).trans (h.quiet b)
    exact ⟨hloose.tighten ha (.inl hres), hbooks, hquiet⟩

theorem finishStream_represents (h : Represents s m)
    (ha : s.handles id = some a) {bytes : Sides Nat} {complete : Bool}
    (hsafe : complete = true ∨ (s.tickets a).finished = 0 ∨
      (s.tickets a).state.reason.isSome = true ∨ s.current a = true)
    (hroom : (s.tickets a).finished ≠ 0 ∨ s.current a = true ∨ Room limit s r) :
    Represents (s.finishStream limit a bytes complete r)
      (m.finish id (if complete then settled (s.tickets a)
        else (settled (s.tickets a)).stop streamEnded)
        (streamInfo bytes complete) r) := by
  cases complete with
  | true => simpa [State.finishStream] using finish_represents h ha hroom
  | false =>
    have hsafe' := hsafe.resolve_left (by simp)
    simp only [State.finishStream, Bool.false_eq_true, if_false]
    by_cases hfin : (s.tickets a).finished = 0
    case neg =>
      have hstop := stopTicket_represents h ha streamEnded
        (hsafe'.resolve_left hfin)
      have hsame : (s.stopTicket a streamEnded).finish limit a
          (streamInfo bytes false) r = s.stopTicket a streamEnded := by
        simp [State.finish, State.stopTicket, State.modifyTicket, Ticket.stop, hfin]
      rw [hsame]
      simpa [Ledger.finish, hfin, SavedEntry.stop] using hstop
    case pos =>
      have hreport := report_represents s.completion (f := fun t =>
        { t.stop streamEnded with
          info := streamInfo bytes false, finished := s.completion }) h ha
        ⟨rfl, (fair_stop streamEnded).accepting⟩ rfl
        (fun _ => by simp [Ticket.stop]) (fun _ => rfl)
        (hroom.resolve_left fun hne => hne hfin)
      have hsettled : settled { (s.tickets a).stop streamEnded with
          info := streamInfo bytes false, finished := s.completion } =
          ((settled (s.tickets a)).stop streamEnded).finish
            (streamInfo bytes false) := by
        simp [settled, SavedEntry.finish, SavedEntry.stop, Ticket.snapshot,
          Ticket.stop, hfin, h.books.completion]
      rw [hsettled] at hreport
      have hfin' : ((s.stopTicket a streamEnded).tickets a).finished = 0 := by
        simpa [State.stopTicket, State.modifyTicket, Ticket.stop] using hfin
      have hopen :
          ((settled (s.tickets a)).stop streamEnded).cache.finished = false := by
        simp [SavedEntry.stop, hfin]
      simp only [State.finish, hfin', ne_eq, not_true_eq_false, if_false,
        Ledger.finish, hopen, Bool.false_eq_true]
      rw [State.stopTicket, modifyTicket_modifyTicket]
      exact hreport

theorem Placement.record_allocated (hp : Placement none s) {record : Record}
    (h : s.records.get? id = some record) : record.ticket < s.fresh := by
  cases hhandle : s.handles id with
  | none =>
    rw [(hp.unknown hhandle).1] at h
    cases h
  | some a =>
    obtain hres | hfiled | ⟨hloose, -⟩ := hp.placed hhandle
    · obtain ⟨stopped, files, hrecord, -, -⟩ := hres
      rw [hrecord] at h
      cases h
      exact (hp.handle hhandle).allocated
    · obtain hnone | ⟨copy, hcopy, -, -, hlt, -⟩ := hfiled.2
      · rw [hnone] at h
        cases h
      · rw [hcopy] at h
        cases h
        exact hlt
    · cases hloose

variable {b : Nat}

theorem allocate_ne (t : Ticket) (hb : b ≠ s.fresh) :
    (s.allocate t).1.tickets b = s.tickets b := by
  simp [State.allocate, alter_ne hb]

theorem allocate_ticket (t : Ticket) (hb : b < s.fresh) :
    (s.allocate t).1.tickets b = s.tickets b :=
  allocate_ne t (Nat.ne_of_lt hb)

@[simp] theorem allocate_new (t : Ticket) :
    (s.allocate t).1.tickets s.fresh = t := by
  simp [State.allocate]

theorem allocate_represents (h : Represents s m) {t : Ticket}
    (ht : t.pending = 0) : Represents (s.allocate t).1 m where
  placement :=
    { handle := fun {i b} hi => by
        have hh := h.placement.handle hi
        have hsame : (s.allocate t).1.tickets b = s.tickets b :=
          allocate_ticket t hh.allocated
        refine ⟨Nat.lt_succ_of_lt hh.allocated, ?_, ?_⟩
        · rw [hsame]
          exact hh.id_eq
        · rw [hsame]
          exact hh.accepting
      placed := fun {i b} hi => by
        have hh := h.placement.handle hi
        exact (h.placement.placed hi).frame (allocate_ticket t hh.allocated)
          (fun record hrecord =>
            allocate_ticket t (h.placement.record_allocated hrecord))
          (Nat.le_succ _) hh.id_eq rfl Iff.rfl rfl
      unknown := h.placement.unknown
      restored := h.placement.restored }
  books :=
    { next := h.books.next
      completion := h.books.completion
      journal := h.books.journal
      entries := fun i => by
        rw [← h.books.entries i]
        cases hi : s.handles i with
        | none => simp [State.allocate, hi]
        | some b =>
          have hsame : (s.allocate t).1.tickets b = s.tickets b :=
            allocate_ticket t (h.placement.handle hi).allocated
          have hhandles : (s.allocate t).1.handles i = some b := hi
          simp only [hhandles, Option.map_some, hsame]
      unborn := h.books.unborn }
  quiet := by
    intro b
    by_cases hb : b = s.fresh
    · subst hb
      rw [allocate_new, ht]
    · rw [allocate_ne t hb, h.quiet b]

theorem hold_placement (hp : Placement none s) (hallocated : a < s.fresh)
    (hid : (s.tickets a).state.id = id)
    (haccepting : (s.tickets a).accepting = (s.tickets a).state.reason.isNone)
    (hnew : ∀ record, s.records.get? id = some record → record.ticket ≠ a) :
    Placement (some id) (s.hold id a) where
  handle {i b} hi := by
    by_cases h : i = id
    · subst h
      obtain rfl : a = b := by simpa [State.hold] using hi
      exact ⟨hallocated, hid, haccepting⟩
    · have hi' : s.handles i = some b := by
        simpa [State.hold, alter_ne h] using hi
      obtain ⟨hallocated', hid', haccepting'⟩ := hp.handle hi'
      exact ⟨hallocated', hid', haccepting'⟩
  placed {i b} hi := by
    by_cases h : i = id
    · subst h
      obtain rfl : a = b := by simpa [State.hold] using hi
      refine .inr (.inr ⟨rfl, ?_⟩)
      simp only [State.current, State.hold, hid]
      cases hrecord : s.records.get? i with
      | none => rfl
      | some record => simp [hnew record hrecord]
    · have hi' : s.handles i = some b := by
        simpa [State.hold, alter_ne h] using hi
      obtain hres | hfiled | ⟨hloose, -⟩ := hp.placed hi'
      · exact .inl hres
      · exact .inr (.inl hfiled)
      · cases hloose
  unknown {i} hi := by
    have h : i ≠ id := by
      rintro rfl
      simp [State.hold] at hi
    exact hp.unknown (by simpa [State.hold, alter_ne h] using hi)
  restored {i} hi := by
    by_cases h : i = id
    · subst h
      simp [State.hold]
    · simpa [State.hold, alter_ne h] using hp.restored hi

variable {e : SavedEntry}

theorem hold_books (hb : Books s m)
    (he : settled (s.tickets a) = e) (hlt : id < s.next) :
    Books (s.hold id a) (m.put id e) where
  next := hb.next
  completion := hb.completion
  journal := hb.journal
  entries i := by
    by_cases h : i = id
    · subst h
      simp [State.hold, Ledger.put, he]
    · simpa [State.hold, Ledger.put, alter_ne h] using hb.entries i
  unborn {i} hi := by
    have hne : i ≠ id := by
      have hle : s.next ≤ i := hi
      omega
    simpa [State.hold, alter_ne hne] using hb.unborn hi

theorem register_represents (hp : Placement (some id) s) (hb : Books s m)
    (hq : Quiet s) (ha : s.handles id = some a) (hnew : s.tickets a = .new id)
    (habsent : s.records.get? id = none) (hrestored : s.restored ≠ some id)
    (hroom : Room limit s r) :
    Represents (s.register limit a r) (m.failed r.event) := by
  obtain ⟨s', hs', hmoved, hplaced, hkept, -⟩ := makeRoom_spec hp hroom
  have hne : s'.restored ≠ some id := by
    rw [hkept]
    exact hrestored
  have hhandle : s'.handles id = some a := by rw [hmoved.handles, ha]
  have hquiet : Quiet (s'.seat id a) := by
    intro b
    have hticket : (s'.seat id a).tickets b = s.tickets b := by
      rw [(seat_moved s' id a).tickets, hmoved.tickets]
    rw [hticket, hq b]
  have hseated : Represents (s'.seat id a) m :=
    ⟨seat_placement hplaced hhandle hne,
      (hb.moved hmoved).moved (seat_moved s' id a), hquiet⟩
  have hticket : s'.tickets a = .new id := by rw [hmoved.tickets, hnew]
  have hregister : s.register limit a r = (s'.seat id a).event r := by
    have hid : (s.tickets a).state.id = id := by rw [hnew]; rfl
    have hcontains : s.records.contains id = false := by
      simp [Table.contains, habsent]
    simp only [State.register, hid, hcontains, hs', Bool.false_eq_true, if_false,
      State.event, State.seat, hticket]
    cases r.event <;> rfl
  rw [hregister]
  exact event_represents hseated r

theorem entry_represents (h : Represents s m) (hroom : Room limit s r) :
    Represents (s.entry limit r) (m.entry r) := by
  have hunborn : s.handles s.next = none := h.books.unborn le_rfl
  have hunknown := h.placement.unknown hunborn
  have hallocated := allocate_represents h (t := .new s.next) rfl
  have hplaced := hallocated.placement.aside (s.next + 1) s.journal
  have hbooks : Books { (s.allocate (.new s.next)).1 with next := s.next + 1 }
      { m with next := m.next + 1 } :=
    { next := congrArg (· + 1) h.books.next
      completion := hallocated.books.completion
      journal := hallocated.books.journal
      entries := hallocated.books.entries
      unborn := fun hi => hallocated.books.unborn (Nat.le_of_succ_le hi) }
  have hticket := allocate_new (s := s) (.new s.next)
  have hrestored : s.restored ≠ some s.next := by
    intro hsome
    have hknown := h.placement.restored hsome
    rw [hunborn] at hknown
    cases hknown
  have hid : (((s.allocate (.new s.next)).1).tickets s.fresh).state.id =
      s.next := by
    rw [hticket]
    rfl
  have hheld := hold_placement hplaced (Nat.lt_succ_self _) hid
    (by rw [hticket]; rfl)
    fun record hrecord => by cases hunknown.1.symm.trans hrecord
  have hbooked := hold_books hbooks (congrArg settled hticket)
    (Nat.lt_succ_self s.next)
  have hregister : Represents (s.entry limit r) _ :=
    register_represents hheld hbooked hallocated.quiet (by simp [State.hold])
      hticket hunknown.1 hrestored hroom
  unfold Ledger.entry
  rw [← h.books.next] at hregister ⊢
  exact hregister

def State.cleared (s : State) : Table Record :=
  match s.restored with
  | some old => s.records.erase old
  | none => s.records

theorem cleared_get? (i : Nat) : s.cleared.get? i =
    if s.restored = some i then none else s.records.get? i := by
  unfold State.cleared
  cases hrestored : s.restored with
  | none => simp
  | some old =>
    rw [Table.get?_erase]
    by_cases hi : i = old
    · simp [hi]
    · simp [hi, Ne.symm hi]

def State.display (s : State) (id b : Nat) (stored : Sides Nat) : State :=
  let record : Record := ⟨b, stored, true, .none false⟩
  { s with records := s.cleared.insert id record, restored := some id }

theorem display_get? {b i : Nat} {stored : Sides Nat} (hi : i ≠ id) :
    (s.display id b stored).records.get? i =
      if s.restored = some i then none else s.records.get? i := by
  simp [State.display, Table.get?_insert, hi, cleared_get?]

theorem display_represents (h : Represents s m) (ha : s.handles id = some a)
    (hfiled : Filed s id a) (hb : b < s.fresh) (hne : b ≠ a)
    (hsame : settled (s.tickets b) = settled (s.tickets a))
    (stored : Sides Nat) : Represents (s.display id b stored) m where
  placement :=
    { handle := fun hi => by
        obtain ⟨hallocated, hid, haccepting⟩ := h.placement.handle hi
        exact ⟨hallocated, hid, haccepting⟩
      placed := fun {i c} hi => by
        have hid := (h.placement.handle hi).id_eq
        by_cases h' : i = id
        · subst h'
          obtain rfl : c = a := Option.some.inj (hi.symm.trans ha)
          have hget : (s.display i b stored).records.get? i =
              some ⟨b, stored, true, .none false⟩ := by
            simp [State.display, Table.get?_insert]
          exact .inr (.inl ⟨hfiled.1, .inr ⟨_, hget, rfl, hne, hb, hsame⟩⟩)
        · have hget := @display_get? s id b i stored h'
          by_cases hold : s.restored = some i
          · rw [if_pos hold] at hget
            obtain ⟨-, -, -, -, hnot⟩ | hfile | ⟨hloose, -⟩ :=
              h.placement.placed hi
            · exact absurd hold hnot
            · exact .inr (.inl ⟨hfile.1, .inl hget⟩)
            · cases hloose
          · rw [if_neg hold] at hget
            refine (h.placement.placed hi).congr rfl rfl hid hget ?_ rfl
            simp [State.display, hold, Ne.symm h']
      unknown := fun {i} hi => by
        have h' : i ≠ id := by
          rintro rfl
          cases hi.symm.trans ha
        refine ⟨?_, (h.placement.unknown hi).2⟩
        rw [display_get? h', (h.placement.unknown hi).1, ite_self]
      restored := fun hi => by
        obtain rfl := Option.some.inj hi
        rw [State.display, ha]
        rfl }
  books :=
    { next := h.books.next
      completion := h.books.completion
      journal := h.books.journal
      entries := h.books.entries
      unborn := h.books.unborn }
  quiet := h.quiet

theorem Represents.filed (h : Represents s m) (ha : s.handles id = some a)
    (habsent : s.records.get? id = none) : Filed s id a := by
  obtain ⟨stopped, files, hrec, -, -⟩ | hfiled | ⟨hloose, -⟩ := h.placement.placed ha
  · rw [habsent] at hrec
    cases hrec
  · exact hfiled
  · cases hloose

theorem lookup_eq (h : Represents s m)
    (hpresent : s.records.get? id = none → s.handles id = none) :
    s.lookup id = (m.entries id).map SavedEntry.cache := by
  rw [← h.books.entries]
  unfold State.lookup
  cases ha : s.handles id with
  | none =>
    rw [(h.placement.unknown ha).1]
    rfl
  | some a =>
    obtain ⟨stopped, files, hrec, -, -⟩ | ⟨-, hnone | ⟨copy, hcopy, -, -, -, hsame⟩⟩ |
      ⟨hloose, -⟩ := h.placement.placed ha
    · simp [hrec, snapshot_of_pending (h.quiet a)]
    · rw [hpresent hnone] at ha
      cases ha
    · simp [hcopy, snapshot_of_pending (h.quiet _), hsame]
    · cases hloose

theorem Filed.saved_eq (hfiled : Filed s id a)
    (hsaved : s.saved id = some e) : e.quiet = settled (s.tickets a) := by
  have hfile := hfiled.1
  rw [hsaved] at hfile
  exact Option.some.inj hfile

theorem settled_copy (h : e.cache.finished = true) :
    settled ⟨e.cache, e.info, false, 0, 1⟩ = e.quiet := by
  rcases e with ⟨⟨i, bytes, finished, pending, evicted, reason⟩, info⟩
  simp only at h
  simp [settled, SavedEntry.quiet, Ticket.snapshot, h]

theorem copy_represents (h : Represents s m) (ha : s.handles id = some a)
    (habsent : s.records.get? id = none)
    (hsaved : s.saved id = some e) (hfinished : e.cache.finished = true) :
    Represents ((s.allocate ⟨e.cache, e.info, false, 0, 1⟩).1.display id s.fresh
      e.cache.bytes) m := by
  have hallocated := allocate_represents h (t := ⟨e.cache, e.info, false, 0, 1⟩) rfl
  have hold := (h.placement.handle ha).allocated
  have hsame := allocate_ticket ⟨e.cache, e.info, false, 0, 1⟩ hold
  refine display_represents hallocated ha (hallocated.filed ha habsent)
    (Nat.lt_succ_self _) (Nat.ne_of_gt hold) ?_ _
  rw [allocate_new, settled_copy hfinished, hsame]
  exact (h.filed ha habsent).saved_eq hsaved

theorem restore_represents (h : Represents s m)
    (hok : ∀ e, s.records.get? id = none → s.saved id = some e →
      r.load = none ∧ e.cache.finished = true) :
    Represents (s.restore id r) m ∧
      ((s.restore id r).records.get? id = none → s.handles id = none) := by
  unfold State.restore
  cases hget : s.records.get? id with
  | some record => simp [Table.contains, hget, h]
  | none =>
    simp only [Table.contains, hget, Option.isSome_none, Bool.false_eq_true,
      if_false]
    cases hsaved : s.saved id with
    | none =>
      have hnone : s.handles id = none := by
        cases ha : s.handles id with
        | none => rfl
        | some a =>
          have hfile := (h.filed ha hget).1
          rw [hsaved] at hfile
          cases hfile
      cases r.load <;> exact ⟨h, fun _ => hnone⟩
    | some e =>
      obtain ⟨hload, hfinished⟩ := hok e hget hsaved
      cases ha : s.handles id with
      | none =>
        have hnone := (h.placement.unknown ha).2
        rw [hsaved] at hnone
        cases hnone
      | some a =>
        rw [hload]
        have hdisplay := copy_represents h ha hget hsaved hfinished
        refine ⟨hdisplay, fun hnone => ?_⟩
        simp [Table.get?_insert] at hnone

theorem readRecord_represents (h : Represents s m) {side : Direction}
    {range : State.Range} : Represents (s.readRecord id side range r) m := by
  unfold State.readRecord
  split
  case h_1 => exact h
  case h_2 =>
    dsimp only
    split
    · exact h.refile id _
    · exact h

theorem evict_hold (s : State) (v i b : Nat) (r : Reply) :
    (s.hold i b).evict v r = (s.evict v r).map (·.hold i b) := by
  simp only [State.evict, State.hold]
  split
  · rfl
  · split <;> rfl

theorem makeRoom_hold (s : State) (i b : Nat) (r : Reply) :
    (s.hold i b).makeRoom limit r = (s.makeRoom limit r).map (·.hold i b) := by
  have hfull : (s.hold i b).full limit = s.full limit := rfl
  have hvictim : (s.hold i b).victim = s.victim := rfl
  simp only [State.makeRoom, hfull, hvictim]
  split
  · split
    · exact evict_hold s _ i b r
    · rfl
  · rfl

theorem withdraw_hold (s : State) (id i b : Nat) :
    (s.hold i b).withdraw id = (s.withdraw id).hold i b := rfl

theorem restoreLive_eq (s : State) (hid : (s.tickets a).state.id = id) :
    s.restoreLive limit a r =
      match (s.withdraw id).makeRoom limit r with
      | .error reason => (s.withdraw id, some reason)
      | .ok s' => (s'.seat id a, none) := by
  subst hid
  rfl

theorem restoreLive_hold {i : Nat} (hid : (s.tickets a).state.id = id)
    (h : (s.hold i b).restoreLive limit a r = (s', none)) :
    ∃ s₁, s.restoreLive limit a r = (s₁, none) ∧ s' = s₁.hold i b := by
  have hid' : ((s.hold i b).tickets a).state.id = id := hid
  rw [restoreLive_eq _ hid', withdraw_hold, makeRoom_hold] at h
  rw [restoreLive_eq _ hid]
  cases hroom : (s.withdraw id).makeRoom limit r with
  | error reason =>
    rw [hroom] at h
    cases h
  | ok s₁ =>
    rw [hroom] at h
    cases h
    exact ⟨s₁.seat id a, rfl, rfl⟩

theorem hold_self (ha : s.handles id = some a) : s.hold id a = s := by
  have hhandles : alter s.handles id (fun _ => some a) = s.handles := by
    funext i
    by_cases hi : i = id
    · subst hi
      rw [alter_self, ha]
    · rw [alter_ne hi]
  unfold State.hold
  rw [hhandles]

theorem handOut_resident (hres : Resident s id a) :
    s.handOut id = (s.hold id a, some (s.tickets a).snapshot) := by
  obtain ⟨stopped, files, hrec, -, -⟩ := hres
  simp [State.handOut, hrec]

theorem settled_reopened (e : SavedEntry) :
    settled (State.reopened e) = e.quiet := by
  rcases e with ⟨⟨i, bytes, finished, pending, evicted, reason⟩, info⟩
  cases finished <;> rfl

theorem Represents.put_eq (h : Represents s m) (ha : s.handles id = some a)
    (he : e = settled (s.tickets a)) : m.put id e = m := by
  rw [he, h.books.put_self ha]

theorem reopen_represents (h : Represents s m) (ha : s.handles id = some a)
    (hfiled : Filed s id a) (hsaved : s.saved id = some e)
    (hroom : Room limit s r) :
    ∃ s', (s.allocate (State.reopened e)).1.restoreLive limit s.fresh r =
        (s', none) ∧ Represents (s'.hold id s.fresh) m ∧
      Resident s' id s.fresh ∧
      settled (s'.tickets s.fresh) = settled (s.tickets a) := by
  have hquiet := hfiled.saved_eq hsaved
  have hallocated := allocate_represents h (t := State.reopened e) rfl
  have hticket := allocate_new (s := s) (State.reopened e)
  have hsettled : settled ((s.allocate (State.reopened e)).1.tickets s.fresh) =
      settled (s.tickets a) := by
    rw [hticket, settled_reopened, hquiet]
  have hid : ((s.allocate (State.reopened e)).1.tickets s.fresh).state.id =
      id := by
    have hids := congrArg (fun e => e.cache.id) hsettled
    simpa [(h.placement.handle ha).id_eq] using hids
  have hheld := hold_placement hallocated.placement (Nat.lt_succ_self _) hid
    (by rw [hticket]; rfl) fun record hrecord =>
      Nat.ne_of_lt (h.placement.record_allocated hrecord)
  have hlt : id < s.next := by
    by_contra hle
    have hnone := h.books.unborn (Nat.le_of_not_lt hle)
    cases hnone.symm.trans ha
  have hbooked := hold_books hallocated.books hsettled hlt
  rw [h.put_eq ha rfl] at hbooked
  have hhandle : ((s.allocate (State.reopened e)).1.hold id s.fresh).handles id =
      some s.fresh := by
    simp [State.hold]
  obtain ⟨s', hlive, hmoved, hplaced, hres, -⟩ :=
    restoreLive_spec hheld hhandle hroom
  obtain ⟨s₁, hs₁, rfl⟩ := restoreLive_hold hid hlive
  have htickets : s₁.tickets = (s.allocate (State.reopened e)).1.tickets :=
    hmoved.tickets
  refine ⟨s₁, hs₁, ⟨hplaced, hbooked.moved hmoved, ?_⟩, hres, ?_⟩
  · intro b
    have hpending := hallocated.quiet b
    rw [← htickets] at hpending
    exact hpending
  · rw [htickets, hsettled]

theorem reference_represents (h : Represents s m)
    (hok : ∀ e, s.records.get? id = none ∨ s.restored = some id →
      s.saved id = some e → r.load = none ∧ Room limit s r) :
    Represents (s.reference limit id r).1 m ∧
      (s.reference limit id r).2 = (m.entries id).map SavedEntry.cache := by
  cases ha : s.handles id with
  | none =>
    obtain ⟨hnone, hsaved⟩ := h.placement.unknown ha
    rw [← h.books.entries, ha]
    cases hload : r.load <;>
      simp [State.reference, Table.contains, hnone, hsaved, hload, h]
  | some a =>
    rw [h.books.entry ha]
    obtain hres | hfiled | ⟨hloose, -⟩ := h.placement.placed ha
    · have hhand := handOut_resident hres
      rw [hold_self ha, snapshot_of_pending (h.quiet a)] at hhand
      obtain ⟨stopped, files, hrec, -, hne⟩ := hres
      simp [State.reference, Table.contains, hrec, hne, hhand, h]
    · obtain ⟨e, hsaved, -⟩ := Option.map_eq_some_iff.mp hfiled.1
      have haway : s.records.get? id = none ∨ s.restored = some id := by
        obtain hnone | ⟨copy, -, hrestored, -⟩ := hfiled.2
        · exact .inl hnone
        · exact .inr hrestored
      obtain ⟨hload, hroom⟩ := hok e haway hsaved
      obtain ⟨s', hlive, hback, hres, hsettled⟩ :=
        reopen_represents h ha hfiled hsaved hroom
      have hhand := handOut_resident hres
      have hsnapshot := snapshot_of_pending (hback.quiet s.fresh)
      have haway' : (!s.records.contains id || s.restored == some id) =
          true := by
        obtain hnone | hrestored := haway
        · simp [Table.contains, hnone]
        · simp [hrestored]
      have href : s.reference limit id r =
          (s'.hold id s.fresh, some (s'.tickets s.fresh).snapshot) := by
        simp only [State.reference, haway', hload, hsaved, if_true]
        have hlive' : State.restoreLive limit
            (s.allocate (State.reopened e)).1
            (s.allocate (State.reopened e)).2 r = (s', none) := hlive
        rw [hlive']
        exact hhand
      rw [href]
      refine ⟨hback, ?_⟩
      have hsnap : (s'.tickets s.fresh).snapshot =
          (settled (s'.tickets s.fresh)).cache := hsnapshot
      rw [hsnap, hsettled, Option.map_some]
    · cases hloose

end Operations

/-! ## Runs -/

namespace State

def room (limit : Option Nat) (s : State) (r : Reply) : Bool :=
  !s.full limit || r.metadata.isNone

/-- What keeps an operation from showing that entries are filed: the files can
be written and read, a filed entry is looked at only when it was finished, and
a finished stream that is filed is not ended once more as incomplete. -/
def kept (limit : Option Nat) (s : State) : Op → Bool
  | .entry r => s.room limit r
  | .append id _ _ replies => (s.handles id).all fun a =>
    s.current a || s.room limit (replies.headD .calm)
  | .finish id _ r => (s.handles id).all fun a =>
    (s.tickets a).finished != 0 || s.current a || s.room limit r
  | .finishStream id _ complete r => (s.handles id).all fun a =>
    (complete || (s.tickets a).finished == 0 ||
      (s.tickets a).state.reason.isSome || s.current a) &&
    ((s.tickets a).finished != 0 || s.current a || s.room limit r)
  | .status id r | .read id _ _ r => s.records.contains id ||
      (s.saved id).all fun e => r.load.isNone && e.cache.finished
  | .reference id r => (s.records.contains id && s.restored != some id) ||
      (s.saved id).all fun _ => r.load.isNone && s.room limit r
  | .fail _ | .checkpoint _ | .finishRecording _ => true

/-- What an append finds in the way of its payload file. -/
def obstacle (s : State) : Op → Option String
  | .append id side _ replies => (s.handles id).bind fun a =>
    (s.files a).obstacle side (replies.headD .calm)
  | _ => none

end State

section Runs

variable {s : State} {m : Ledger} {limit : Option Nat} {r : Reply}

theorem room_iff : s.room limit r = true ↔ Room limit s r := by
  simp [State.room, Room]

theorem restore_kept {id : Nat} (h : (s.records.contains id ||
      (s.saved id).all fun e => r.load.isNone && e.cache.finished) = true) :
    ∀ e, s.records.get? id = none → s.saved id = some e →
      r.load = none ∧ e.cache.finished = true := by
  intro e hnone hsaved
  simpa [Table.contains, hnone, hsaved] using h

theorem reference_kept {id : Nat}
    (h : s.kept limit (.reference id r) = true) :
    ∀ e, s.records.get? id = none ∨ s.restored = some id →
      s.saved id = some e → r.load = none ∧ Room limit s r := by
  intro e haway hsaved
  have haway' : (s.records.contains id && s.restored != some id) = false := by
    obtain hnone | hrestored := haway
    · simp [Table.contains, hnone]
    · simp [hrestored]
  simpa [State.kept, haway', hsaved, room_iff] using h

theorem append_unknown {id : Nat} (h : m.entries id = none) (side : Direction)
    (bytes : Bytes) (obstacle : Option String) (replies : List Reply) :
    m.append id side bytes obstacle replies = m := by
  unfold Ledger.append
  split
  · cases chunks chunkSize bytes with
    | nil => rfl
    | cons chunk rest => simp [Ledger.appendChunks, h]
  · rfl

theorem restore_handles (s : State) (id : Nat) (r : Reply) :
    (s.restore id r).handles = s.handles := by
  unfold State.restore
  split
  · rfl
  · split <;> rfl

theorem step_represents (h : Represents s m) {op : Op}
    (hkept : s.kept limit op = true) :
    Represents (step limit s op).1 (m.step (s.obstacle op) op).1 ∧
      (step limit s op).2 = (m.step (s.obstacle op) op).2 := by
  cases op with
  | entry r => exact ⟨entry_represents h (room_iff.mp hkept), rfl⟩
  | append id side bytes replies =>
    cases ha : s.handles id with
    | none =>
      have hentry : m.entries id = none := by
        rw [← h.books.entries, ha, Option.map_none]
      simpa [step, Ledger.step, ha, append_unknown hentry] using h
    | some a =>
      have hroom : s.current a = true ∨
          Room limit s (replies.headD .calm) := by
        simpa [State.kept, ha, room_iff] using hkept
      simpa [step, Ledger.step, State.obstacle, ha] using
        append_represents h ha hroom
  | finish id info r =>
    have hentry := h.books.entries id
    cases ha : s.handles id with
    | none => simpa [step, Ledger.step, ha, ← hentry] using h
    | some a =>
      have hroom : (s.tickets a).finished ≠ 0 ∨ s.current a = true ∨
          Room limit s r := by
        simpa [State.kept, ha, room_iff, or_assoc] using hkept
      simpa [step, Ledger.step, ha, ← hentry] using finish_represents h ha hroom
  | finishStream id bytes complete r =>
    have hentry := h.books.entries id
    cases ha : s.handles id with
    | none => simpa [step, Ledger.step, ha, ← hentry] using h
    | some a =>
      simp only [State.kept, ha, Option.all_some, Bool.and_eq_true,
        Bool.or_eq_true, room_iff, or_assoc, bne_iff_ne, beq_iff_eq]
        at hkept
      simpa [step, Ledger.step, ha, ← hentry] using
        finishStream_represents h ha hkept.1 hkept.2
  | status id r =>
    obtain ⟨hrestored, hpresent⟩ := restore_represents h (restore_kept hkept)
    refine ⟨hrestored, congrArg Answer.snapshot (lookup_eq hrestored ?_)⟩
    rw [restore_handles]
    exact hpresent
  | reference id r =>
    obtain ⟨hnext, hanswer⟩ := reference_represents h (reference_kept hkept)
    exact ⟨hnext, congrArg Answer.snapshot hanswer⟩
  | read id side range r =>
    exact ⟨readRecord_represents (restore_represents h (restore_kept hkept)).1,
      rfl⟩
  | fail reason => exact ⟨fail_represents h reason, rfl⟩
  | checkpoint r => exact ⟨checkpoint_represents h r, rfl⟩
  | finishRecording r =>
    exact ⟨journal_represents (checkpoint_represents h r) fun j =>
      { j with ended := true }, rfl⟩

/-! ## Without a limit -/

@[simp] theorem makeRoom_none (s : State) (r : Reply) :
    s.makeRoom none r = .ok s := by
  simp [State.makeRoom, State.full]

@[simp] theorem event_saved (s : State) (r : Reply) :
    (s.event r).saved = s.saved := by
  unfold State.event
  split <;> rfl

@[simp] theorem stop_saved (s : State) (id : Nat) (reason : String) :
    (s.stop id reason).saved = s.saved := by
  unfold State.stop
  dsimp only
  split <;> rfl

theorem live_saved (s : State) (a : Nat) (r : Reply) :
    (s.live none a r).1.saved = s.saved := by
  unfold State.live
  split
  · rfl
  · simp [State.restoreLive]

@[simp] theorem checkEntry_saved (s : State) (id : Nat) :
    (s.checkEntry id).saved = s.saved := rfl

theorem checkpoint_saved (s : State) (r : Reply) :
    (s.checkpoint r).saved = s.saved := by
  rw [State.checkpoint, event_saved]
  refine List.foldlRecOn (motive := fun s' => s'.saved = s.saved)
    s.records.keys State.checkEntry rfl fun s' hs' id _ => ?_
  rw [checkEntry_saved, hs']

theorem write_saved (s : State) (id a : Nat) (record : Record)
    (side : Direction) (keep : Nat) (r : Reply) :
    (s.write id a record side keep r).saved = s.saved := by
  unfold State.write
  split
  · rw [stop_saved]
    rfl
  · dsimp only
    split
    · rfl
    · rw [stop_saved]
      rfl

theorem appendRecord_saved (s : State) (a : Nat) (side : Direction)
    (keep : Nat) (r : Reply) :
    (s.appendRecord none a side keep r).saved = s.saved := by
  have hsaved := live_saved s a r
  unfold State.appendRecord
  rcases hlive : s.live none a r with ⟨s', error⟩
  rw [hlive] at hsaved
  simp only at hsaved
  rw [← hsaved]
  cases error with
  | some reason => rfl
  | none =>
    dsimp only
    split
    · rfl
    split
    · rfl
    split
    · rfl
    split
    · rw [stop_saved]
    split
    · rfl
    · rw [write_saved]

theorem appendChunks_saved (a : Nat) (side : Direction) (s : State)
    (chunks : List Bytes) (replies : List Reply) :
    (State.appendChunks none a side s chunks replies).saved = s.saved := by
  induction chunks generalizing s replies with
  | nil => rfl
  | cons chunk rest ih =>
    unfold State.appendChunks
    split
    · rw [ih]
      exact appendRecord_saved _ a side chunk.length _
    · rfl

theorem finish_saved (s : State) (a : Nat) (info : Sides BodyInfo)
    (r : Reply) : (s.finish none a info r).saved = s.saved := by
  unfold State.finish
  split
  · rfl
  · unfold State.finishedRecord
    dsimp only
    generalize hmodified : ({ s.modifyTicket a fun t =>
      { t with info := info, finished := s.completion } with
        completion := s.completion + 1 } : State) = s'
    have hbefore : s'.saved = s.saved := by rw [← hmodified]; rfl
    have hsaved := live_saved s' a r
    rcases hlive : s'.live none a r with ⟨s₁, error⟩
    rw [hlive] at hsaved
    simp only at hsaved
    rw [← hbefore, ← hsaved]
    cases error with
    | some reason => rfl
    | none => exact event_saved _ r

theorem register_saved (s : State) (a : Nat) (r : Reply) :
    (s.register none a r).saved = s.saved := by
  unfold State.register
  dsimp only
  split
  · rfl
  · simp

theorem restore_saved (s : State) (id : Nat) (r : Reply) :
    (s.restore id r).saved = s.saved := by
  unfold State.restore
  split
  · rfl
  · split <;> rfl

theorem read_saved (s : State) (id : Nat) (side : Direction)
    (range : State.Range) (r : Reply) :
    (s.read id side range r).saved = s.saved := by
  rw [← restore_saved s id r]
  unfold State.read State.readRecord
  split
  · rfl
  · dsimp only
    split <;> rfl

theorem handOut_saved (s : State) (id : Nat) :
    (s.handOut id).1.saved = s.saved := by
  unfold State.handOut
  split <;> rfl

theorem reference_saved (s : State) (id : Nat) (r : Reply) :
    (s.reference none id r).1.saved = s.saved := by
  unfold State.reference
  split
  · split
    · simp [State.restoreLive, handOut_saved, State.allocate]
    · rfl
  · exact handOut_saved s id

theorem step_saved (s : State) (op : Op) :
    (step none s op).1.saved = s.saved := by
  cases op with
  | entry r => exact register_saved _ s.fresh r
  | append id side bytes replies =>
    cases ha : s.handles id with
    | none => simp [step, ha]
    | some a =>
      simp only [step, ha, State.append]
      split
      · exact appendChunks_saved a side s _ replies
      · rfl
  | finish id info r =>
    cases ha : s.handles id with
    | none => simp [step, ha]
    | some a => simp [step, ha, finish_saved]
  | finishStream id bytes complete r =>
    cases ha : s.handles id with
    | none => simp [step, ha]
    | some a =>
      cases complete <;>
        simp [step, ha, State.finishStream, finish_saved, State.stopTicket,
          State.modifyTicket]
  | status id r => exact restore_saved s id r
  | reference id r => exact reference_saved s id r
  | read id side range r => exact read_saved s id side range r
  | fail reason => rfl
  | checkpoint r => exact checkpoint_saved s r
  | finishRecording r => exact checkpoint_saved s r

theorem kept_of_unfiled (h : Represents s m) (hsaved : ∀ id, s.saved id = none)
    (op : Op) : s.kept none op = true := by
  have hroom : ∀ r, s.room none r = true := fun r => rfl
  have hcurrent : ∀ {id a}, s.handles id = some a → s.current a = true := by
    intro id a ha
    obtain hres | hfiled | ⟨hloose, -⟩ := h.placement.placed ha
    · exact hres.current (h.placement.handle ha).id_eq
    · have hfile := hfiled.1
      rw [hsaved] at hfile
      cases hfile
    · cases hloose
  cases op with
  | entry r => exact hroom r
  | append id side bytes replies =>
    cases ha : s.handles id <;> simp [State.kept, ha, hroom]
  | finish id info r => cases ha : s.handles id <;> simp [State.kept, ha, hroom]
  | finishStream id bytes complete r =>
    cases ha : s.handles id with
    | none => simp [State.kept, ha]
    | some a => simp [State.kept, ha, hcurrent ha]
  | status id r => simp [State.kept, hsaved]
  | reference id r => simp [State.kept, hsaved]
  | read id side range r => simp [State.kept, hsaved]
  | fail reason => rfl
  | checkpoint r => rfl
  | finishRecording r => rfl

end Runs

/-- Two entries in turns in a table of one: each is evicted, taken back and
restored. -/
def turns : List Op :=
  [.entry .calm, .append 1 .client [1, 2, 3] [], .entry .calm,
    .append 2 .server [4] [], .append 1 .server [5, 6] [],
    .finish 1 (streamInfo ⟨3, 2⟩ true) .calm, .reference 2 .calm,
    .append 2 .server [7] [], .status 1 .calm,
    .finishStream 2 ⟨0, 2⟩ false .calm, .reference 1 .calm,
    .read 1 .client (some (0, 3)) .calm, .checkpoint .calm, .status 2 .calm]

def glance : List Op :=
  [.entry .calm, .append 1 .client [1, 2, 3] [], .entry .calm, .status 1 .calm]

/-- A taken up entry is read before it is appended to: the handle is for
reading only. -/
def peek : List Op :=
  [.entry .calm, .append 1 .client [1, 2, 3] [], .entry .calm,
    .append 1 .server [4, 5] [], .read 1 .client (some (0, 3)) .calm,
    .append 1 .client [6] [], .status 1 .calm]

example : answers (step (some 1)) .initial peek ≠
    answers (step none) .initial peek := by decide

end ProxyLane.Cache.Retained
