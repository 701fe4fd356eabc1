import ProxyLane.Cache.Quota

/-!
# What the cache publishes of an entry

The byte counts of a snapshot are those of the entry's record, as long as no
eviction stops between the two files of an entry.
-/

namespace ProxyLane.Cache

open ProxyLane.Foundation ProxyLane.Protocol

def Worker.stored (w : Worker) (id : Nat) : Sides Nat :=
  ((w.records.get? id).map Record.stored).getD ⟨0, 0⟩

structure Shown (tickets : Nat → Ticket) (w : Worker) : Prop where
  ticket : ∀ id, (tickets id).state.bytes = w.stored id
  retired : ∀ id snapshot, w.retired.get? id = some snapshot → snapshot.bytes = ⟨0, 0⟩

def Published (s : State) : Prop :=
  ∀ w, s.worker = some w → Shown s.tickets w

def State.victim (s : State) : Option Record :=
  s.worker.bind fun w =>
    match w.task with
    | .evict _ id _ => w.records.get? id
    | _ => none

/-- An eviction that removes the request file with its bytes and then fails on
the response file. -/
def Torn (s : State) : Event → Prop
  | .work io => ∃ r ∈ s.victim, r.stored.client ≠ 0 ∧
      io.remove = ⟨true, false⟩ ∧
      (r.files.server = true ∨ r.stored.server ≠ 0)
  | _ => False

instance (s : State) : ∀ e, Decidable (Torn s e)
  | .work _ => inferInstanceAs (Decidable (∃ r ∈ s.victim, _))
  | .entry | .append .. | .poll .. | .send .. | .refuse .. | .endEarly _
  | .finish .. | .order _ | .publish _ | .query _ | .receive | .exit _ | .shutdown
  | .drop => .isFalse id

section Steps

variable {config : CacheConfig} {s : State} {w : Worker}

theorem Shown.task (h : Shown s.tickets w) (task : Task) :
    Shown s.tickets { w with task } :=
  ⟨h.ticket, h.retired⟩

theorem Shown.modifyTicket (h : Shown s.tickets w) (id : Nat)
    {f : Ticket → Ticket} (hf : ∀ t, (f t).state.bytes = t.state.bytes) :
    Shown (s.modifyTicket id f).tickets w :=
  ⟨fun j => (alter_bytes id hf j).trans (h.ticket j), h.retired⟩

theorem Shown.stopTicket (h : Shown s.tickets w) (id : Nat)
    (reason : String) : Shown (s.stopTicket id reason).tickets w :=
  h.modifyTicket id fun _ => rfl

theorem published_setWorker (h : Shown s.tickets w) :
    Published (s.setWorker w) := by
  intro w' hw'
  cases hw'
  exact h

theorem published_panic (s : State) (p : Panic) : Published (s.panic p) :=
  nofun

theorem stored_modify (w : Worker) (id : Nat) (f : Record → Record)
    (hf : ∀ r, (f r).stored = r.stored) (j : Nat) :
    (w.modifyRecord id f).stored j = w.stored j := by
  unfold Worker.stored Worker.modifyRecord
  rw [Table.get?_modify]
  split
  · cases w.records.get? j with
    | none => rfl
    | some r => simp [hf]
  · rfl

private theorem stopRecord_shown (h : Shown s.tickets w) (id : Nat)
    (reason : String) :
    Shown (s.stopRecord w id reason).1.tickets (s.stopRecord w id reason).2 := by
  unfold State.stopRecord
  split
  · refine ⟨fun j => ((h.stopTicket id reason).ticket j).trans ?_, h.retired⟩
    exact (stored_modify w id _ (by intro _; rfl) j).symm
  · exact h

theorem abort_published (h : Shown s.tickets w) (id : Nat) (reason : String) :
    Published (s.abort w id reason) :=
  published_setWorker ((stopRecord_shown h id reason).task _)

theorem endAppend_published (h : Shown s.tickets w) (id : Nat)
    (side : Direction) (bytes : Bytes) (wanted keep : Nat) :
    Published (s.endAppend w id side bytes wanted keep) := by
  unfold State.endAppend
  split
  · exact abort_published (s := s.lose _ _ _) h id _
  · exact published_setWorker (h.task _)

theorem register_published (h : Shown s.tickets w) (id : Nat) :
    Published (s.register config w id) := by
  unfold State.register
  split
  · exact published_setWorker (h.task _)
  · split <;> exact published_setWorker (h.task _)

theorem beginAppend_published (h : Shown s.tickets w) (id : Nat)
    (side : Direction) (bytes : Bytes) :
    Published (s.beginAppend config w id side bytes) := by
  unfold State.beginAppend
  split
  · exact published_setWorker (s := s.lose _ _ _) (h.task _)
  · split
    · exact published_setWorker (s := s.lose _ _ _) (h.task _)
    · exact published_setWorker (h.task _)

theorem makeRoom_published (h : Shown s.tickets w) (id : Nat)
    (side : Direction) (bytes : Bytes) (wanted : Nat) :
    Published (s.makeRoom config w id side bytes wanted) := by
  unfold State.makeRoom
  split
  · exact published_panic s _
  · split <;> exact published_setWorker (h.task _)

theorem scan_published (h : Shown s.tickets w) (job : Job) (todo : List Nat)
    (best : Option (Nat × Nat)) (ready : List Nat) :
    Published (s.scan w job todo best ready) := by
  unfold State.scan
  split
  · exact published_setWorker (h.task _)
  · split
    · exact published_setWorker (h.task _)
    · exact published_setWorker (h.task _)
    · exact published_setWorker ((h.stopTicket _ _).task _)

theorem insertRecord_published (h : Shown s.tickets w) {id : Nat}
    (hnew : id ∉ w.records.keys) : Published (s.insertRecord w id) := by
  refine published_setWorker ⟨fun j => ?_, h.retired⟩
  rw [h.ticket]
  unfold Worker.stored
  rw [Table.get?_insert]
  split
  case isTrue hj =>
    rw [hj, Table.get?_eq_none_iff.2 hnew]
    rfl
  case isFalse => rfl

theorem store_published (h : Shown s.tickets w) (id : Nat) (side : Direction)
    (bytes : Bytes) (wanted : Nat) (io : Io) :
    Published (s.store config w id side bytes wanted io) := by
  unfold State.store
  dsimp only
  split
  · exact published_panic s _
  · split
    · exact endAppend_published h id side bytes wanted _
    · split
      · exact published_panic s _
      case h_2 r hget =>
        split
        · exact abort_published (s := s.lose _ _ _) h id _
        · split
          · exact published_panic s _
          case h_2 new hwrite =>
            have hshown : ∀ stats, Shown
                (s.modifyTicket id fun t => { t with
                  state := { t.state with
                    bytes := r.stored.set side new.actual } }).tickets
                { w with
                  records := w.records.modify id fun r' => { r' with
                    files := r'.files.set side true
                    stored := r.stored.set side new.actual }
                  stats } := by
              intro stats
              refine ⟨fun j => ?_, h.retired⟩
              unfold Worker.stored
              rw [Table.get?_modify]
              change (alter s.tickets id _ j).state.bytes = _
              unfold alter
              split
              case isTrue hj =>
                rw [hj, hget]
                rfl
              case isFalse => exact h.ticket j
            split
            · exact abort_published (by exact hshown _) id _
            · exact endAppend_published (by exact hshown _) id side bytes wanted _

theorem giveUp_published (h : Shown s.tickets w) (job : Job)
    (reason : String) : Published (s.giveUp w job reason) := by
  cases job with
  | register id => exact published_setWorker ((h.stopTicket id reason).task _)
  | append id side bytes wanted =>
    exact abort_published (s := s.lose id side _) h id reason

theorem get?_trimRetired {limit id : Nat} {snapshot : CacheSnapshot}
    {ids : List Nat} {retired : Table CacheSnapshot}
    (h : (trimRetired limit ids retired).2.get? id = some snapshot) :
    retired.get? id = some snapshot := by
  induction ids generalizing retired with
  | nil => exact h
  | cons first ids ih =>
    rw [trimRetired] at h
    split at h
    · have hget := ih h
      rw [Table.get?_erase] at hget
      split at hget
      · cases hget
      · exact hget
    · exact h

theorem evictFor_published (h : Shown s.tickets w) (ha : Accounted config w)
    (job : Job) (victim : Nat) (io : Io)
    (hwhole : ∀ r, w.records.get? victim = some r → r.stored.client ≠ 0 →
      io.remove = ⟨true, false⟩ →
      ¬(r.files.server = true ∨ r.stored.server ≠ 0)) :
    Published (s.evictFor config w job victim io) := by
  cases hget : w.records.get? victim with
  | none =>
    have hevict : s.evict config w victim io = .panicked .missing := by
      simp [State.evict, hget]
    simp only [State.evictFor, hevict]
    exact published_panic s _
  | some r =>
    have hused : r.sum ≤ w.stats.usedBytes :=
      ha.used ▸ Table.measure_le_total Record.sum hget
    have hold : (s.tickets victim).state.bytes = r.stored := by
      rw [h.ticket, Worker.stored, hget]
      rfl
    -- a failure that kept the counts of the record
    have hkept : ∀ r' files stats, r'.stored = r.stored → Shown
        ((s.modifyTicket victim Ticket.markEvicted).setDisk victim files).tickets
        { w with records := w.records.modify victim fun _ => r', stats } := by
      intro r' files stats hstored
      have hmarked := h.modifyTicket victim (f := Ticket.markEvicted)
        fun _ => rfl
      refine ⟨fun j => (hmarked.ticket j).trans ?_, h.retired⟩
      unfold Worker.stored
      rw [Table.get?_modify]
      split
      case isTrue hj =>
        rw [hj, hget]
        exact hstored.symm
      case isFalse => rfl
    rcases @State.evict_cases config s _ _ _ io hget hused with
      ⟨files, -, hevict⟩ | ⟨r', hstored, -, hevict⟩ |
        ⟨r', files, hstored, -, -, hserver, hopen, hclient, hevict⟩
    · simp only [State.evictFor, hevict]
      have hshown : Shown
          (((s.modifyTicket victim Ticket.markEvicted).modifyTicket victim
            fun t => { t with state := { ((s.modifyTicket victim
              Ticket.markEvicted).tickets victim).snapshot with
                bytes := ⟨0, 0⟩ } }).setDisk victim files).tickets
          ((w.setUsed (w.stats.usedBytes - r.sum)).retire config victim
            { ((s.modifyTicket victim Ticket.markEvicted).tickets
              victim).snapshot with bytes := ⟨0, 0⟩ }) := by
        refine ⟨fun j => ?_, fun j snapshot hsnap => ?_⟩
        · change (alter (alter s.tickets victim _) victim _ j).state.bytes =
            (((w.records.erase victim).get? j).map Record.stored).getD ⟨0, 0⟩
          rw [Table.get?_erase]
          unfold alter
          split
          · rfl
          · exact h.ticket j
        · have hsnap := get?_trimRetired hsnap
          rw [Table.get?_insert] at hsnap
          split at hsnap
          · cases hsnap
            rfl
          · exact h.retired j snapshot hsnap
      exact published_setWorker (hshown.task _)
    · simp only [State.evictFor, hevict]
      exact giveUp_published (s := s.modifyTicket victim _)
        (hkept r' (s.disk victim) w.stats hstored) job _
    · simp only [State.evictFor, hevict]
      refine giveUp_published (s := (s.modifyTicket victim _).setDisk victim _)
        (hkept r' files _ ?_) job _
      have hzero : r.stored.client = 0 := by
        by_contra hne
        refine hwhole r hget hne ?_ hopen
        exact Sides.ext fun side => by
          cases side
          · exact hclient hne
          · exact hserver
      rw [hstored, ← hzero]

theorem work_published (h : Published s) (hq : QuotaInv config s) {io : Io}
    (hwhole : ¬Torn s (.work io)) : Published (s.work config io) := by
  unfold State.work
  split
  · exact h
  case h_2 w hw =>
    have hs := h w hw
    have hf := hq.fits w hw
    split
    all_goals rename_i htask
    all_goals rw [htask] at hf
    · exact h
    · exact register_published hs _
    · exact beginAppend_published hs _ _ _
    · refine published_setWorker (Shown.task ?_ _)
      rcases afterQuery_cases config s w _ io with ⟨entries, h⟩ | ⟨id, files, h⟩
      · rw [h]
        exact ⟨hs.ticket, hs.retired⟩
      · rw [h]
        exact ⟨fun j => (hs.ticket j).trans
          (stored_modify w id _ (by intro _; rfl) j).symm, hs.retired⟩
    · exact makeRoom_published hs _ _ _ _
    · exact scan_published hs _ _ _ _
    · refine evictFor_published hs (hq.accounted w hw) _ _ io
        fun r hr hne hio hopen => hwhole ⟨r, ?_, hne, hio, hopen⟩
      simpa [State.victim, hw, htask] using hr
    · exact insertRecord_published hs hf.1
    · exact store_published hs _ _ _ _ io
    · exact published_setWorker ((hs.modifyTicket _ (by intro _; rfl)).task _)

end Steps

theorem step_published {config : CacheConfig} {s : State} (h : Published s)
    (hq : QuotaInv config s) {e : Event} (hwhole : ¬Torn s e) :
    Published (step config s e) := by
  rcases step_cases config s e with hsame | rfl | ⟨io, rfl⟩ | ⟨io, rfl⟩
  · intro w hw
    have hs := h w (hsame.worker ▸ hw)
    exact ⟨fun id => (hsame.bytes id).trans (hs.ticket id), hs.retired⟩
  · rw [step, State.receive]
    split
    case h_1 w c rest hw hqueue =>
      split
      · exact published_setWorker (s := { s with queue := rest }) ((h w hw).task _)
      · exact h
    case h_2 => exact h
  · exact work_published h hq hwhole
  · rw [step, State.exit]
    split
    · exact h
    · split
      · rintro _ ⟨⟩
      · exact h

theorem initial_published : Published State.initial := by
  intro w hw
  cases hw
  exact ⟨fun _ => rfl, nofun⟩

/--
In every state the bytes in use are the stored ones, no quota is exceeded and
no subtraction has gone below zero; and as long as no eviction was torn, every
snapshot shows what is stored.
-/
theorem payload_accounting {config : CacheConfig} {start : State}
    (hnew : newCache config = .ok start) (events : List Event) :
    let s := run (step config) start events
    s.panicked ≠ some .underflow ∧
      (∀ w, s.worker = some w → Accounted config w) ∧
      (Admissible (step config) (fun s e => ¬Torn s e) start events →
        ∀ w, s.worker = some w →
          (∀ id, (s.tickets id).snapshot.bytes = w.stored id) ∧
          ∀ decoder id io snapshot,
            s.query config decoder w (.status id) io = .ok (.status (some snapshot)) →
            snapshot.bytes = w.stored id) := by
  intro s
  obtain ⟨rfl, -⟩ := newCache_eq hnew
  have hstep : ∀ s e, QuotaInv config s → QuotaInv config (step config s e) :=
    fun _ e h => step_quota h e
  have hquota : QuotaInv config s :=
    run_induction hstep (initial_quota config) events
  refine ⟨hquota.panic, hquota.accounted, fun hwhole w hw => ?_⟩
  have hboth : ∀ s e, QuotaInv config s ∧ Published s → ¬Torn s e →
      QuotaInv config (step config s e) ∧ Published (step config s e) :=
    fun _ e h hok => ⟨step_quota h.1 e, step_published h.2 h.1 hok⟩
  have hinv : QuotaInv config s ∧ Published s :=
    run_invariant hboth ⟨initial_quota config, initial_published⟩ hwhole
  have hshown := hinv.2 w hw
  refine ⟨hshown.ticket, fun decoder id io snapshot hstatus => ?_⟩
  simp only [State.query, Except.ok.injEq, Answer.status.injEq] at hstatus
  split at hstatus
  · cases hstatus
    exact hshown.ticket id
  case isFalse hmissing =>
    rw [hshown.retired id snapshot hstatus, Worker.stored]
    have hnone : w.records.get? id = none := by
      simpa [Table.contains] using hmissing
    rw [hnone]
    rfl

def tightConfig : CacheConfig := ⟨10, 3, 4, 4, 1, 10⟩

def Io.fine : Io := ⟨⟨true, true⟩, true, none, true, true, true, ""⟩

def appendEvents (id : Nat) (side : Direction) (bytes : Bytes) : List Event :=
  [.append id side bytes, .poll id side, .send id side, .poll id side,
    .receive] ++ List.replicate 4 (.work .fine)

def entryEvents : List Event := [.entry, .receive, .work .fine, .work .fine]

def finishEvents (id : Nat) (info : Sides BodyInfo) : List Event :=
  [.finish id info, .order id, .publish id]

/-- Two bytes and one byte fill the quota; a byte of the second entry needs
room, and the first one is chosen to make it. -/
def evictionEvents : List Event :=
  entryEvents ++ appendEvents 1 .client [1, 2] ++ appendEvents 1 .server [3] ++
    finishEvents 1 ⟨⟨true, 2, true, [], false⟩, ⟨true, 1, true, [], false⟩⟩ ++
    entryEvents ++ [.append 2 .client [4], .poll 2 .client, .send 2 .client,
      .receive] ++ List.replicate 5 (.work .fine)

theorem torn_eviction_shows_removed_bytes :
    newCache tightConfig = .ok .initial ∧
      let s := run (step tightConfig) .initial (evictionEvents ++
        [.work { Io.fine with remove := ⟨true, false⟩ }])
      (s.tickets 1).snapshot.bytes = ⟨2, 1⟩ ∧
        (s.disk 1).client = none ∧
        s.worker.map (fun w => w.stored 1) = some ⟨0, 1⟩ := by
  refine ⟨rfl, ?_⟩
  decide

theorem payload_accounting_sample :
    newCache tightConfig = .ok .initial ∧
      let events := evictionEvents ++ [.work .fine]
      let s := run (step tightConfig) .initial events
      Admissible (step tightConfig) (fun s e => ¬Torn s e) .initial events ∧
        s.panicked ≠ some .underflow ∧
        ∀ w, s.worker = some w → Accounted tightConfig w ∧
          (s.tickets 1).snapshot.bytes = w.stored 1 := by
  have hwhole : Admissible (step tightConfig) (fun s e => ¬Torn s e) .initial
      (evictionEvents ++ [.work .fine]) := by
    decide
  have h := @payload_accounting tightConfig _ rfl (evictionEvents ++ [.work .fine])
  exact ⟨rfl, hwhole, h.1, fun w hw => ⟨h.2.1 w hw, (h.2.2 hwhole w hw).1 1⟩⟩

end ProxyLane.Cache
