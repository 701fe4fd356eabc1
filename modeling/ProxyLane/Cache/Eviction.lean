import ProxyLane.Cache.Published

/-!
# Only finished entries are evicted

The counter of an entry is the number of its chunks on the way: in the hands
of a producer, in the queue or with the worker.  An owner appends nothing once
it has begun to finish, so an entry that `oldest` has seen ready stays ready
until it is evicted, and the entry that room is made for is never ready.
-/

namespace ProxyLane.Cache

open ProxyLane.Foundation ProxyLane.Protocol

/-! ## Counting chunks -/

def Command.appends (id : Nat) : Command → Bool
  | .append i _ _ => i == id
  | _ => false

def Task.owes (id : Nat) : Task → Nat
  | .settle i => if i = id then 1 else 0
  | task => task.commands.countP (Command.appends id)

def Call.owes : Call → Nat
  | .sending _ _ => 1
  | _ => 0

def State.underway (s : State) (id : Nat) : Nat :=
  ((s.worker.map fun w => w.task.owes id).getD 0 +
    s.queue.countP (Command.appends id)) +
    ((s.producers id).calls.client.owes + (s.producers id).calls.server.owes)

/-- What every caller keeps to: no call of `append` once `finish` was called,
`finish` only behind the calls of `append`, with the number of bytes that were
offered. -/
def Honest (s : State) : Event → Prop
  | .append id _ _ => (s.producers id).phase = .writing
  | .finish id info => ∀ side, (s.producers id).calls.get side = .idle ∧
      (info.get side).bytes = ((s.producers id).offered.get side).length
  | _ => True

instance decidableForallDirection {p : Direction → Prop}
    [hp : ∀ side, Decidable (p side)] : Decidable (∀ side, p side) :=
  decidable_of_iff (p .client ∧ p .server)
    ⟨fun h side => by cases side; exacts [h.1, h.2],
      fun h => ⟨h _, h _⟩⟩

instance (s : State) (e : Event) : Decidable (Honest s e) := by
  cases e <;> unfold Honest <;> infer_instance

/-! ## The invariant -/

def Ticket.Ready (t : Ticket) : Prop := t.finished ≠ 0 ∧ t.pending = 0

theorem Ticket.eligible_eq_some_iff {t : Ticket} {order : Nat} :
    t.eligible = some order ↔ t.Ready ∧ t.finished = order := by
  unfold Ticket.eligible Ticket.Ready
  split
  · simp [*]
  · simp [*]

def Job.Present (records : Table Record) : Job → Prop
  | .register _ => True
  | .append id _ _ _ => id ∈ records.keys

/-- `oldest` holds the least number of the entries it has passed. -/
structure Scanned (tickets : Nat → Ticket) (records : Table Record)
    (todo : List Nat) (best : Option (Nat × Nat)) (ready : List Nat) :
    Prop where
  ahead : ∀ id ∈ todo, id ∈ records.keys
  found : ∀ id order, best = some (id, order) → id ∈ records.keys ∧
    (tickets id).Ready ∧ (tickets id).finished = order
  stays : ∀ id ∈ ready, (tickets id).Ready
  least : ∀ id ∈ ready, id ∈ todo ∨ ∃ v order, best = some (v, order) ∧
    order ≤ (tickets id).finished

/-- The victim is ready, and no entry that was ready when the scan began has
completed before it. -/
structure Chosen (tickets : Nat → Ticket) (records : Table Record)
    (victim : Nat) (ready : List Nat) : Prop where
  record : victim ∈ records.keys
  isReady : (tickets victim).Ready
  stays : ∀ id ∈ ready, (tickets id).Ready
  least : ∀ id ∈ ready, (tickets victim).finished ≤ (tickets id).finished

def Task.Safe (tickets : Nat → Ticket) (records : Table Record) : Task → Prop
  | .idle | .received _ | .settle _ => True
  | .room id _ _ _ => id ∈ records.keys
  | .scan job todo best ready =>
    job.Present records ∧ Scanned tickets records todo best ready
  | .evict job victim ready =>
    job.Present records ∧ Chosen tickets records victim ready
  | .commit job => job.Present records

structure EvictInv (config : CacheConfig) (s : State) : Prop where
  quota : QuotaInv config s
  panic : s.panicked = none
  pending : ∀ id, (s.tickets id).pending = s.underway id
  calls : ∀ id, (s.producers id).phase ≠ .writing → ∀ side,
    (s.producers id).calls.get side = .idle
  finished : ∀ id, (s.tickets id).finished ≠ 0 → (s.producers id).phase = .finished
  task : ∀ w, s.worker = some w → w.task.Safe s.tickets w.records

def KeepsReady (tickets tickets' : Nat → Ticket) : Prop :=
  ∀ id, (tickets id).Ready → (tickets' id).Ready ∧
    (tickets' id).finished = (tickets id).finished

theorem Scanned.keep {tickets tickets' : Nat → Ticket}
    {records : Table Record} {todo ready : List Nat}
    {best : Option (Nat × Nat)}
    (h : Scanned tickets records todo best ready)
    (hkeep : KeepsReady tickets tickets') :
    Scanned tickets' records todo best ready where
  ahead := h.ahead
  found id order hbest := by
    obtain ⟨hrecord, hready, hnumber⟩ := h.found id order hbest
    exact ⟨hrecord, (hkeep id hready).1, (hkeep id hready).2.trans hnumber⟩
  stays id hid := (hkeep id (h.stays id hid)).1
  least id hid := by
    rw [(hkeep id (h.stays id hid)).2]
    exact h.least id hid

theorem Chosen.keep {tickets tickets' : Nat → Ticket}
    {records : Table Record} {victim : Nat} {ready : List Nat}
    (h : Chosen tickets records victim ready)
    (hkeep : KeepsReady tickets tickets') :
    Chosen tickets' records victim ready where
  record := h.record
  isReady := (hkeep victim h.isReady).1
  stays id hid := (hkeep id (h.stays id hid)).1
  least id hid := by
    rw [(hkeep victim h.isReady).2, (hkeep id (h.stays id hid)).2]
    exact h.least id hid

theorem Task.Safe.keep {tickets tickets' : Nat → Ticket}
    {records : Table Record} {task : Task} (h : task.Safe tickets records)
    (hkeep : KeepsReady tickets tickets') : task.Safe tickets' records := by
  cases task with
  | scan job todo best ready => exact ⟨h.1, h.2.keep hkeep⟩
  | evict job victim ready => exact ⟨h.1, h.2.keep hkeep⟩
  | _ => exact h

/-! ## Steps of the worker -/

structure Quiet (s s' : State) : Prop where
  queue : s'.queue = s.queue
  panicked : s'.panicked = s.panicked
  pending : ∀ id, (s'.tickets id).pending = (s.tickets id).pending
  finished : ∀ id, (s'.tickets id).finished = (s.tickets id).finished
  calls : ∀ id, (s'.producers id).calls = (s.producers id).calls
  phase : ∀ id, (s'.producers id).phase = (s.producers id).phase

namespace Quiet

variable {s s' s'' : State}

theorem refl (s : State) : Quiet s s :=
  ⟨rfl, rfl, fun _ => rfl, fun _ => rfl, fun _ => rfl, fun _ => rfl⟩

theorem trans (h : Quiet s s') (h' : Quiet s' s'') : Quiet s s'' where
  queue := h'.queue.trans h.queue
  panicked := h'.panicked.trans h.panicked
  pending id := (h'.pending id).trans (h.pending id)
  finished id := (h'.finished id).trans (h.finished id)
  calls id := (h'.calls id).trans (h.calls id)
  phase id := (h'.phase id).trans (h.phase id)

theorem modifyTicket (s : State) (id : Nat) {f : Ticket → Ticket}
    (hpending : ∀ t, (f t).pending = t.pending)
    (hfinished : ∀ t, (f t).finished = t.finished) :
    Quiet s (s.modifyTicket id f) := by
  refine ⟨rfl, rfl, fun j => ?_, fun j => ?_, fun _ => rfl, fun _ => rfl⟩
  · simp only [State.modifyTicket, alter]
    split
    · exact hpending _
    · rfl
  · simp only [State.modifyTicket, alter]
    split
    · exact hfinished _
    · rfl

theorem stopTicket (s : State) (id : Nat) (reason : String) :
    Quiet s (s.stopTicket id reason) :=
  modifyTicket s id (fun _ => rfl) fun _ => rfl

theorem lose (s : State) (id : Nat) (side : Direction) (place : Nat) :
    Quiet s (s.lose id side place) := by
  refine ⟨rfl, rfl, fun _ => rfl, fun _ => rfl, fun j => ?_, fun j => ?_⟩ <;>
    simp only [State.lose, State.modifyProducer, alter] <;> split <;> rfl

theorem setWorker (s : State) (w : Worker) : Quiet s (s.setWorker w) :=
  ⟨rfl, rfl, fun _ => rfl, fun _ => rfl, fun _ => rfl, fun _ => rfl⟩

theorem setDisk (s : State) (id : Nat) (files : Sides (Option Bytes)) :
    Quiet s (s.setDisk id files) :=
  ⟨rfl, rfl, fun _ => rfl, fun _ => rfl, fun _ => rfl, fun _ => rfl⟩

theorem stopRecord (s : State) (w : Worker) (id : Nat) (reason : String) :
    Quiet s (s.stopRecord w id reason).1 := by
  unfold State.stopRecord
  split
  · exact stopTicket s id reason
  · exact refl s

theorem ready (h : Quiet s s') (id : Nat) :
    (s'.tickets id).Ready ↔ (s.tickets id).Ready := by
  simp only [Ticket.Ready, h.pending, h.finished]

theorem keepsReady (h : Quiet s s') : KeepsReady s.tickets s'.tickets :=
  fun id hready => ⟨(h.ready id).2 hready, h.finished id⟩

end Quiet

section Worker

variable {config : CacheConfig} {s s' : State} {w w' : Worker}

theorem EvictInv.quiet (h : EvictInv config s) (hw : s.worker = some w)
    (hquiet : Quiet s s') (hw' : s'.worker = some w')
    (howes : ∀ id, w'.task.owes id = w.task.owes id)
    (hquota : QuotaInv config s')
    (hsafe : w'.task.Safe s'.tickets w'.records) : EvictInv config s' where
  quota := hquota
  panic := hquiet.panicked.trans h.panic
  pending id := by
    rw [hquiet.pending, h.pending, State.underway, State.underway, hw, hw',
      hquiet.queue, hquiet.calls, Option.map_some, Option.map_some,
      Option.getD_some, Option.getD_some, howes]
  calls id hphase side := by
    rw [hquiet.calls]
    exact h.calls id (hquiet.phase id ▸ hphase) side
  finished id hne := by
    rw [hquiet.phase]
    exact h.finished id (hquiet.finished id ▸ hne)
  task w'' hw'' := by
    rw [hw'] at hw''
    cases hw''
    exact hsafe

variable {id : Nat}

theorem EvictInv.not_ready (h : EvictInv config s) (hw : s.worker = some w)
    (howes : w.task.owes id ≠ 0) : ¬(s.tickets id).Ready := by
  intro hready
  have hzero := hready.2
  rw [h.pending, State.underway, hw, Option.map_some, Option.getD_some] at hzero
  omega

variable {side : Direction} {bytes : Bytes}

theorem EvictInv.settle (h : EvictInv config s) (hw : s.worker = some w)
    (htask : w.task.commands = [.append id side bytes])
    (hquiet : Quiet s s') (hquota : QuotaInv config (s'.settle w' id)) :
    EvictInv config (s'.settle w' id) := by
  refine h.quiet hw (hquiet.trans (Quiet.setWorker s' _)) rfl (fun j => ?_)
    hquota trivial
  cases htask' : w.task with
  | settle i => simp [htask', Task.commands] at htask
  | idle => simp [htask', Task.commands] at htask
  | _ =>
    rw [htask'] at htask
    simp only [Task.owes, htask, List.countP_cons, List.countP_nil,
      Command.appends, beq_iff_eq, Nat.zero_add]

theorem EvictInv.abort (h : EvictInv config s) (hw : s.worker = some w)
    (htask : w.task.commands = [.append id side bytes]) (hquiet : Quiet s s')
    {reason : String} (hquota : QuotaInv config (s'.abort w' id reason)) :
    EvictInv config (s'.abort w' id reason) :=
  h.settle hw htask (hquiet.trans (Quiet.stopRecord s' w' id reason)) hquota

variable {wanted : Nat}

theorem endAppend_evict (h : EvictInv config s) (hw : s.worker = some w)
    (htask : w.task.commands = [.append id side bytes])
    (hquiet : Quiet s s') {keep : Nat}
    (hquota : QuotaInv config (s'.endAppend w' id side bytes wanted keep)) :
    EvictInv config (s'.endAppend w' id side bytes wanted keep) := by
  by_cases hkeep : keep < bytes.length
  · rw [State.endAppend, if_pos hkeep] at hquota ⊢
    exact h.abort hw htask (hquiet.trans (Quiet.lose s' _ _ _)) hquota
  · rw [State.endAppend, if_neg hkeep] at hquota ⊢
    exact h.settle hw htask hquiet hquota

theorem scanned_start (tickets : Nat → Ticket) (records : Table Record) :
    Scanned tickets records records.keys none
      (records.keys.filter fun id => (tickets id).eligible.isSome) where
  ahead id hid := hid
  found := nofun
  stays id hid := by
    obtain ⟨order, horder⟩ :=
      Option.isSome_iff_exists.1 (List.mem_filter.1 hid).2
    exact (Ticket.eligible_eq_some_iff.1 horder).1
  least id hid := Or.inl (List.mem_filter.1 hid).1

theorem Scanned.visit {tickets : Nat → Ticket} {records : Table Record}
    {todo ready : List Nat} {best : Option (Nat × Nat)}
    (h : Scanned tickets records (id :: todo) best ready) :
    Scanned tickets records todo
      (match (tickets id).eligible with
      | some order => better best id order
      | none => best) ready := by
  have hahead : ∀ j ∈ todo, j ∈ records.keys := fun j hj =>
    h.ahead j (List.mem_cons_of_mem _ hj)
  cases heligible : (tickets id).eligible with
  | none =>
    refine ⟨hahead, h.found, h.stays, fun j hj => ?_⟩
    rcases h.least j hj with hmem | hbest
    · rcases List.mem_cons.1 hmem with rfl | hmem
      · have hsome := Ticket.eligible_eq_some_iff.2 ⟨h.stays j hj, rfl⟩
        rw [heligible] at hsome
        cases hsome
      · exact Or.inl hmem
    · exact Or.inr hbest
  | some order =>
    obtain ⟨hready, hnumber⟩ := Ticket.eligible_eq_some_iff.1 heligible
    have hid : id ∈ records.keys := h.ahead id List.mem_cons_self
    -- whichever entry is kept, its number is at most both
    have hkept : ∃ v number, better best id order = some (v, number) ∧
        v ∈ records.keys ∧ (tickets v).Ready ∧
        (tickets v).finished = number ∧ number ≤ order ∧
        ∀ old least, best = some (old, least) → number ≤ least := by
      cases best with
      | none => exact ⟨id, order, rfl, hid, hready, hnumber, Nat.le_refl _,
          nofun⟩
      | some old =>
        obtain ⟨v, least⟩ := old
        obtain ⟨hv, hvready, hvnumber⟩ := h.found v least rfl
        simp only [better]
        split
        · refine ⟨id, order, rfl, hid, hready, hnumber, Nat.le_refl _,
            fun _ _ heq => ?_⟩
          cases heq
          omega
        · refine ⟨v, least, rfl, hv, hvready, hvnumber, by omega,
            fun _ _ heq => ?_⟩
          cases heq
          exact Nat.le_refl _
    obtain ⟨v, number, hbetter, hv, hvready, hvnumber, hle, hmin⟩ := hkept
    refine ⟨hahead, fun j o hj => ?_, h.stays, fun j hj => ?_⟩
    · change better best id order = some (j, o) at hj
      rw [hbetter] at hj
      cases hj
      exact ⟨hv, hvready, hvnumber⟩
    · rcases h.least j hj with hmem | ⟨old, least, hbest, hleast⟩
      · rcases List.mem_cons.1 hmem with rfl | hmem
        · exact Or.inr ⟨v, number, hbetter, hnumber ▸ hle⟩
        · exact Or.inl hmem
      · exact Or.inr ⟨v, number, hbetter,
          Nat.le_trans (hmin old least hbest) hleast⟩

variable {victim : Nat}

theorem Scanned.choose {tickets : Nat → Ticket} {records : Table Record}
    {ready : List Nat} {order : Nat}
    (h : Scanned tickets records [] (some (victim, order)) ready) :
    Chosen tickets records victim ready where
  record := (h.found victim order rfl).1
  isReady := (h.found victim order rfl).2.1
  stays := h.stays
  least id hid := by
    rw [(h.found victim order rfl).2.2]
    rcases h.least id hid with hmem | ⟨v, o, hbest, hle⟩
    · cases hmem
    · cases hbest
      exact hle

variable {job : Job}

theorem startScan_evict (h : EvictInv config s) (hw : s.worker = some w)
    (htask : w.task.commands = [job.command]) (hidle : ∀ id, w.task ≠ .settle id)
    (hpresent : job.Present w.records) (hfits : job.Fits config w.records) :
    EvictInv config (s.startScan w job) := by
  refine h.quiet hw (Quiet.setWorker s _) rfl (fun j => ?_)
    (startScan_quota h.quota.panic (h.quota.accounted w hw) hfits)
    ⟨hpresent, scanned_start s.tickets w.records⟩
  cases htask' : w.task with
  | settle i => exact absurd htask' (hidle i)
  | _ =>
    rw [htask'] at htask
    simp only [Task.owes, htask]
    rfl

theorem register_evict (h : EvictInv config s) (hw : s.worker = some w)
    (htask : w.task = .received (.register id)) :
    EvictInv config (s.register config w id) := by
  have hquota := register_quota h.quota.panic (h.quota.accounted w hw) id
  have howes : ∀ j, w.task.owes j = 0 := fun j => by rw [htask]; rfl
  unfold State.register at hquota ⊢
  split
  · rw [if_pos ‹_›] at hquota
    exact h.quiet hw (Quiet.setWorker s _) rfl (fun j => (howes j).symm) hquota
      trivial
  case isFalse hmissing =>
    rw [if_neg hmissing] at hquota
    split
    case isTrue hfull =>
      refine startScan_evict h hw (by rw [htask]; rfl) (fun i => by simp [htask])
        trivial ?_
      exact fun hmem => hmissing (Table.contains_iff.2 hmem)
    case isFalse hroom =>
      rw [if_neg hroom] at hquota
      exact h.quiet hw (Quiet.setWorker s _) rfl (fun j => (howes j).symm)
        hquota trivial

theorem beginAppend_evict (h : EvictInv config s) (hw : s.worker = some w)
    (htask : w.task = .received (.append id side bytes)) :
    EvictInv config (s.beginAppend config w id side bytes) := by
  have hquota :=
    beginAppend_quota h.quota.panic (h.quota.accounted w hw) id side bytes
  have hcommands : w.task.commands = [.append id side bytes] := by
    rw [htask]
    rfl
  unfold State.beginAppend at hquota ⊢
  cases hget : w.records.get? id with
  | none =>
    simp only [hget] at hquota ⊢
    exact h.settle hw hcommands (Quiet.lose s _ _ _) hquota
  | some r =>
    simp only [hget] at hquota ⊢
    split
    case isTrue hstopped =>
      rw [if_pos hstopped] at hquota
      exact h.settle hw hcommands (Quiet.lose s _ _ _) hquota
    case isFalse hstopped =>
      rw [if_neg hstopped] at hquota
      exact h.quiet hw (Quiet.setWorker s _) rfl
        (fun j => by rw [htask]; rfl) hquota (Table.mem_keys_of_get? hget)

theorem makeRoom_evict (h : EvictInv config s) (hw : s.worker = some w)
    (htask : w.task = .room id side bytes wanted) :
    EvictInv config (s.makeRoom config w id side bytes wanted) := by
  have ha := h.quota.accounted w hw
  have hfits := h.quota.fits w hw
  have hsafe := h.task w hw
  rw [htask] at hfits hsafe
  have hquota : QuotaInv config (s.makeRoom config w id side bytes wanted) :=
    makeRoom_quota h.quota.panic ha hfits
  unfold State.makeRoom at hquota ⊢
  rw [if_neg (Nat.not_lt.2 ha.total)] at hquota ⊢
  split
  · exact startScan_evict h hw (by rw [htask]; rfl) (fun i => by simp [htask])
      hsafe hfits
  case isFalse hroom =>
    rw [if_neg hroom] at hquota
    exact h.quiet hw (Quiet.setWorker s _) rfl (fun j => by rw [htask]; rfl)
      hquota hsafe

theorem scan_evict (h : EvictInv config s) (hw : s.worker = some w)
    {todo ready : List Nat} {best : Option (Nat × Nat)}
    (htask : w.task = .scan job todo best ready) :
    EvictInv config (s.scan w job todo best ready) := by
  have hfits := h.quota.fits w hw
  have hsafe := h.task w hw
  rw [htask] at hfits hsafe
  obtain ⟨hpresent, hscanned⟩ := hsafe
  have hquota := scan_quota h.quota.panic (h.quota.accounted w hw) hfits todo
    best ready
  have howes : ∀ j, w.task.owes j = (Task.commit job).owes j := fun j => by
    rw [htask]
    rfl
  cases todo with
  | cons id rest =>
    exact h.quiet hw (Quiet.setWorker s _) rfl (fun j => (howes j).symm)
      hquota ⟨hpresent, hscanned.visit⟩
  | nil =>
    cases best with
    | some best =>
      obtain ⟨victim, order⟩ := best
      exact h.quiet hw (Quiet.setWorker s _) rfl (fun j => (howes j).symm)
        hquota ⟨hpresent, hscanned.choose⟩
    | none =>
      cases job with
      | register id =>
        exact h.quiet hw ((Quiet.stopTicket s id _).trans
          (Quiet.setWorker _ _)) rfl (fun j => (howes j).symm) hquota
          trivial
      | append id side bytes wanted =>
        exact h.quiet hw (Quiet.setWorker s _) rfl
          (fun j => (howes j).symm) hquota hpresent

theorem EvictInv.job_ne_victim (h : EvictInv config s) (hw : s.worker = some w)
    {ready : List Nat}
    (htask : w.task = .evict (.append id side bytes wanted) victim ready) :
    id ≠ victim := by
  rintro rfl
  have hsafe := h.task w hw
  rw [htask] at hsafe
  refine h.not_ready hw ?_ hsafe.2.isReady
  simp [htask, Task.owes, Task.commands, Job.command, Command.appends]

theorem giveUp_evict (h : EvictInv config s) (hw : s.worker = some w)
    {ready : List Nat}
    (htask : w.task = .evict job victim ready) (hquiet : Quiet s s')
    {reason : String} (hquota : QuotaInv config (s'.giveUp w' job reason)) :
    EvictInv config (s'.giveUp w' job reason) := by
  cases job with
  | register id =>
    exact h.quiet hw (hquiet.trans ((Quiet.stopTicket s' id reason).trans
      (Quiet.setWorker _ _))) rfl (fun j => by rw [htask]; rfl) hquota
      trivial
  | append id side bytes wanted =>
    exact h.abort hw (by rw [htask]; rfl)
      (hquiet.trans (Quiet.lose s' id side _)) hquota

theorem evictFor_evict (h : EvictInv config s) (hw : s.worker = some w)
    {ready : List Nat} (htask : w.task = .evict job victim ready) (io : Io) :
    EvictInv config (s.evictFor config w job victim io) := by
  have ha := h.quota.accounted w hw
  have hfits := h.quota.fits w hw
  have hsafe := h.task w hw
  rw [htask] at hfits hsafe
  obtain ⟨hpresent, hchosen⟩ := hsafe
  have hquota := evictFor_quota h.quota.panic ha hfits victim io
  obtain ⟨r, hget⟩ : ∃ r, w.records.get? victim = some r :=
    Option.isSome_iff_exists.1 (Table.contains_iff.2 hchosen.record)
  have hused : r.sum ≤ w.stats.usedBytes :=
    ha.used ▸ Table.measure_le_total Record.sum hget
  have hmark := Quiet.modifyTicket s victim (f := Ticket.markEvicted)
    (fun _ => rfl) fun _ => rfl
  rcases @State.evict_cases config s _ _ _ io hget hused with
    ⟨files, -, hevict⟩ | ⟨r', -, -, hevict⟩ | ⟨r', files, -, -, -, -, -, -, hevict⟩
  · simp only [State.evictFor, hevict] at hquota ⊢
    refine h.quiet hw ?_ rfl (fun j => ?_) hquota ?_
    · refine hmark.trans (.trans ?_ (.trans (.setDisk _ _ _) (.setWorker _ _)))
      exact Quiet.modifyTicket _ _ (by intro _; rfl) (by intro _; rfl)
    · rw [htask]
      cases job <;> rfl
    · cases job with
      | register id => trivial
      | append id side bytes wanted =>
        exact Table.mem_keys_erase.2 ⟨hpresent, h.job_ne_victim hw htask⟩
  · simp only [State.evictFor, hevict] at hquota ⊢
    exact giveUp_evict h hw htask hmark hquota
  · simp only [State.evictFor, hevict] at hquota ⊢
    exact giveUp_evict h hw htask (hmark.trans (Quiet.setDisk _ _ _)) hquota

theorem store_evict (h : EvictInv config s) (hw : s.worker = some w)
    (htask : w.task = .commit (.append id side bytes wanted)) (io : Io) :
    EvictInv config (s.store config w id side bytes wanted io) := by
  have ha := h.quota.accounted w hw
  have hfits := h.quota.fits w hw
  have hsafe := h.task w hw
  rw [htask] at hfits hsafe
  have hquota : QuotaInv config (s.store config w id side bytes wanted io) :=
    store_quota h.quota.panic ha hfits io
  have hcommands : w.task.commands = [.append id side bytes] := by
    rw [htask]
    rfl
  obtain ⟨r, hget⟩ : ∃ r, w.records.get? id = some r :=
    Option.isSome_iff_exists.1 (Table.contains_iff.2 hsafe)
  unfold State.store at hquota ⊢
  rw [if_neg (Nat.not_lt.2 ha.total)] at hquota ⊢
  simp only [hget] at hquota ⊢
  split
  case isTrue hkeep =>
    rw [if_pos hkeep] at hquota
    exact endAppend_evict h hw hcommands (.refl s) hquota
  case isFalse hkeep =>
    rw [if_neg hkeep] at hquota
    split
    case isTrue hclosed =>
      rw [if_pos hclosed] at hquota
      exact h.abort hw hcommands (.lose s _ _ _) hquota
    case isFalse hopen =>
      rw [if_neg hopen] at hquota
      obtain ⟨written, actual, hwrite, -⟩ :=
        write_cases (((s.disk id).get side).getD []) (r.stored.get side)
          w.stats.usedBytes bytes
          (min wanted (config.totalBytes - w.stats.usedBytes)) io
      simp only [hwrite] at hquota ⊢
      have hstored : ∀ stored files, Quiet s ((s.modifyTicket id fun t =>
          { t with state := { t.state with bytes := stored } }).setDisk id
            files) := fun stored files =>
        .trans (.modifyTicket s id (by intro _; rfl) (by intro _; rfl))
          (.setDisk _ _ _)
      split
      case isTrue hfailed =>
        rw [if_pos hfailed] at hquota
        exact h.abort hw hcommands ((hstored _ _).trans (.lose _ _ _ _)) hquota
      case isFalse hok =>
        rw [if_neg hok] at hquota
        exact endAppend_evict h hw hcommands (hstored _ _) hquota

theorem countDown_tickets_ne (s : State) (w : Worker) {j : Nat}
    (h : j ≠ id) : (s.countDown w id).tickets j = s.tickets j := by
  simp [State.countDown, State.modifyTicket, State.setWorker, alter, h]

theorem countDown_evict (h : EvictInv config s) (hw : s.worker = some w)
    (htask : w.task = .settle id) :
    EvictInv config (s.countDown w id) := by
  have howed : (s.tickets id).pending ≠ 0 := by
    rw [h.pending, State.underway, hw, Option.map_some, Option.getD_some, htask]
    simp only [Task.owes, if_true]
    omega
  have hkeep : KeepsReady s.tickets (s.countDown w id).tickets := by
    intro j hready
    have hne : j ≠ id := fun heq => howed (heq ▸ hready.2)
    rw [countDown_tickets_ne s w hne]
    exact ⟨hready, rfl⟩
  refine ⟨.setWorker h.quota.panic ((h.quota.accounted w hw).task _) trivial,
    h.panic, fun j => ?_, h.calls, fun j hne => ?_, fun w' hw' => ?_⟩
  · have hold := h.pending j
    rw [State.underway, hw, Option.map_some, Option.getD_some, htask] at hold
    have hnew : (s.countDown w id).underway j =
        (0 + s.queue.countP (Command.appends j)) +
          ((s.producers j).calls.client.owes +
            (s.producers j).calls.server.owes) := rfl
    rw [hnew]
    by_cases hj : j = id
    · subst hj
      have hless : ((s.countDown w j).tickets j).pending =
          (s.tickets j).pending - 1 := by
        simp [State.countDown, State.modifyTicket, State.setWorker]
      rw [hless]
      simp only [Task.owes, if_true] at hold
      omega
    · rw [countDown_tickets_ne s w hj, hold]
      simp [Task.owes, Ne.symm hj]
  · refine h.finished j fun hzero => hne ?_
    change (alter s.tickets id _ j).finished = 0
    unfold alter
    split
    · exact hzero
    · exact hzero
  · cases hw'
    trivial

theorem work_evict (h : EvictInv config s) (io : Io) :
    EvictInv config (s.work config io) := by
  have hquota := work_quota h.quota io
  unfold State.work at hquota ⊢
  cases hw : s.worker with
  | none => exact h
  | some w =>
    simp only [hw] at hquota ⊢
    split
    all_goals rename_i htask
    all_goals simp only [htask] at hquota
    · exact h
    · exact register_evict h hw htask
    · exact beginAppend_evict h hw htask
    · exact h.quiet hw (Quiet.setWorker s _) rfl
        (fun j => by rw [htask]; rfl) hquota trivial
    · exact makeRoom_evict h hw htask
    · exact scan_evict h hw htask
    · exact evictFor_evict h hw htask io
    · exact h.quiet hw (Quiet.setWorker s _) rfl
        (fun j => by rw [htask]; rfl) hquota trivial
    · exact store_evict h hw htask io
    · exact countDown_evict h hw htask

end Worker

/-! ## Steps of the producers -/

section Producers

variable {config : CacheConfig} {s s' : State}

theorem EvictInv.producer (h : EvictInv config s) (hsame : SameWorker s s')
    (hpending : ∀ id, (s'.tickets id).pending = s'.underway id)
    (hcalls : ∀ id, (s'.producers id).phase ≠ .writing → ∀ side,
      (s'.producers id).calls.get side = .idle)
    (hfinished : ∀ id, (s'.tickets id).finished ≠ 0 →
      (s'.producers id).phase = .finished)
    (hkeep : KeepsReady s.tickets s'.tickets) : EvictInv config s' where
  quota := ⟨fun w hw => h.quota.accounted w (hsame.worker ▸ hw),
    fun w hw => h.quota.fits w (hsame.worker ▸ hw),
    hsame.panicked ▸ h.quota.panic⟩
  panic := hsame.panicked.trans h.panic
  pending := hpending
  calls := hcalls
  finished := hfinished
  task w hw := (h.task w (hsame.worker ▸ hw)).keep hkeep

theorem EvictInv.quietProducer (h : EvictInv config s)
    (hsame : SameWorker s s') (hquiet : Quiet s s') : EvictInv config s' := by
  refine h.producer hsame (fun id => ?_) (fun id hphase side => ?_)
    (fun id hne => ?_) hquiet.keepsReady
  · rw [hquiet.pending, h.pending, State.underway, State.underway,
      hsame.worker, hquiet.queue, hquiet.calls]
  · rw [hquiet.calls]
    exact h.calls id (hquiet.phase id ▸ hphase) side
  · rw [hquiet.phase]
    exact h.finished id (hquiet.finished id ▸ hne)

theorem EvictInv.push (h : EvictInv config s) {c : Command}
    (hc : ∀ id, c.appends id = false) :
    EvictInv config { s with queue := s.queue ++ [c] } := by
  refine h.producer ⟨rfl, rfl, rfl, fun _ => rfl⟩ (fun id => ?_) h.calls
    h.finished fun id hready => ⟨hready, rfl⟩
  change (s.tickets id).pending = _
  rw [h.pending]
  simp [State.underway, List.countP_append, hc]

theorem entry_evict (h : EvictInv config s) :
    EvictInv config (s.entry config) := by
  have hnext : EvictInv config { s with next := s.next + 1 } :=
    h.quietProducer ⟨rfl, rfl, rfl, fun _ => rfl⟩
      ⟨rfl, rfl, fun _ => rfl, fun _ => rfl, fun _ => rfl, fun _ => rfl⟩
  unfold State.entry
  dsimp only
  split
  case h_1 s' hsend =>
    rw [State.trySend_eq hsend]
    exact hnext.push fun _ => rfl
  case h_2 reason _ =>
    exact hnext.quietProducer
      (sameWorker_modifyTicket _ _ (by intro _; rfl)) (.stopTicket _ _ reason)

theorem ask_evict (h : EvictInv config s) (q : Query) :
    EvictInv config (s.ask config q) := by
  unfold State.ask
  split
  case h_1 s' hsend =>
    rw [State.trySend_eq hsend]
    exact h.push fun _ => rfl
  case h_2 => exact h

theorem setCall_calls (s : State) (id j : Nat) (side : Direction)
    (call : Call) : ((s.setCall id side call).producers j).calls =
      if j = id then (s.producers j).calls.set side call
      else (s.producers j).calls := by
  simp only [State.setCall, State.modifyProducer, alter]
  split <;> rfl

theorem setCall_phase (s : State) (id j : Nat) (side : Direction)
    (call : Call) :
    ((s.setCall id side call).producers j).phase = (s.producers j).phase := by
  simp only [State.setCall, State.modifyProducer, alter]
  split <;> rfl

private theorem owes_set (calls : Sides Call) (side : Direction) (call : Call) :
    (calls.set side call).client.owes + (calls.set side call).server.owes +
        (calls.get side).owes =
      calls.client.owes + calls.server.owes + call.owes := by
  cases side <;> simp only [Sides.set, Sides.get] <;> omega

variable {id : Nat}

theorem EvictInv.call (h : EvictInv config s) (side : Direction)
    (call : Call) (hsame : SameWorker s s')
    (hphase : (s.producers id).phase = .writing)
    (hphases : ∀ j, (s'.producers j).phase = (s.producers j).phase)
    (hcalls : ∀ j, (s'.producers j).calls =
      if j = id then (s.producers j).calls.set side call
      else (s.producers j).calls)
    (hfinished : ∀ j, (s'.tickets j).finished = (s.tickets j).finished)
    (hother : ∀ j, j ≠ id → (s'.tickets j).pending = (s.tickets j).pending ∧
      s'.queue.countP (Command.appends j) = s.queue.countP (Command.appends j))
    (hself : (s'.tickets id).pending + s.queue.countP (Command.appends id) +
        ((s.producers id).calls.get side).owes =
      (s.tickets id).pending + s'.queue.countP (Command.appends id) +
        call.owes) : EvictInv config s' := by
  have hunfinished : (s.tickets id).finished = 0 := by
    by_contra hne
    rw [h.finished id hne] at hphase
    cases hphase
  refine h.producer hsame (fun j => ?_) (fun j hj => ?_) (fun j hj => ?_)
    fun j hready => ?_
  · have hold := h.pending j
    unfold State.underway at hold ⊢
    rw [hsame.worker, hcalls j]
    by_cases hid : j = id
    · subst hid
      rw [if_pos rfl]
      have := owes_set (s.producers j).calls side call
      omega
    · rw [if_neg hid, (hother j hid).1, (hother j hid).2]
      exact hold
  · rw [hphases] at hj
    have hid : j ≠ id := fun hid => hj (hid ▸ hphase)
    rw [hcalls, if_neg hid]
    exact h.calls j hj
  · rw [hphases]
    exact h.finished j (hfinished j ▸ hj)
  · have hid : j ≠ id := fun hid => hready.1 (hid ▸ hunfinished)
    exact ⟨⟨hfinished j ▸ hready.1, (hother j hid).1.trans hready.2⟩, hfinished j⟩

theorem EvictInv.writing (h : EvictInv config s) (side : Direction)
    (hcall : (s.producers id).calls.get side ≠ .idle) :
    (s.producers id).phase = .writing := by
  by_contra hphase
  exact hcall (h.calls id hphase side)

theorem append_evict (h : EvictInv config s) {side : Direction}
    {bytes : Bytes} (hidle : (s.producers id).calls.get side = .idle)
    (hphase : (s.producers id).phase = .writing) :
    EvictInv config (s.append id side bytes) := by
  have hoffer : Quiet s (s.modifyProducer id fun p =>
      { p with offered := p.offered.modify side (· ++ bytes) }) := by
    refine ⟨rfl, rfl, fun _ => rfl, fun _ => rfl, fun j => ?_, fun j => ?_⟩ <;>
      simp only [State.modifyProducer, alter] <;> split <;> rfl
  have hsame := append_sameWorker s id side bytes
  unfold State.append at hsame ⊢
  dsimp only at hsame ⊢
  split
  case isTrue howned =>
    rw [if_pos howned] at hsame
    refine h.call side (.chunks (chunks chunkSize bytes)) hsame hphase (fun j => ?_)
      (fun j => ?_) (fun _ => rfl) (fun _ _ => ⟨rfl, rfl⟩) ?_
    · rw [setCall_phase, hoffer.phase]
    · rw [setCall_calls, hoffer.calls]
    · rw [hidle]
      rfl
  case isFalse howned =>
    rw [if_neg howned] at hsame
    exact h.quietProducer hsame
      (hoffer.trans ((Quiet.stopTicket _ _ _).trans (Quiet.lose _ _ _ _)))

theorem poll_evict (h : EvictInv config s) (id : Nat) (side : Direction) :
    EvictInv config (s.poll id side) := by
  have hsame := poll_sameWorker s id side
  unfold State.poll at hsame ⊢
  split
  case h_1 hcall =>
    simp only [hcall] at hsame
    exact h.call side .idle hsame (h.writing side (by simp [hcall]))
      (fun j => setCall_phase s id j side _)
      (fun j => setCall_calls s id j side _) (fun _ => rfl)
      (fun _ _ => ⟨rfl, rfl⟩) (by rw [hcall]; rfl)
  case h_2 chunk rest hcall =>
    simp only [hcall] at hsame
    have hphase : (s.producers id).phase = .writing :=
      h.writing side (by simp [hcall])
    split
    case isTrue haccepting =>
      rw [if_pos haccepting] at hsame
      refine h.call side (.sending chunk rest) hsame hphase
        (fun j => setCall_phase _ id j side _)
        (fun j => setCall_calls _ id j side _) (fun j => ?_) (fun j hj => ?_) ?_
      · simp only [State.setCall, State.modifyProducer, State.modifyTicket,
          alter]
        split <;> rfl
      · simp [State.setCall, State.modifyProducer, State.modifyTicket, alter, hj]
      · rw [hcall]
        simp only [State.setCall, State.modifyProducer, State.modifyTicket,
          alter_self, Call.owes]
        omega
    case isFalse haccepting =>
      rw [if_neg haccepting] at hsame
      have hlose := Quiet.lose (s.setCall id side .idle) id side
        ((s.producers id).accepted.get side).length
      refine h.call side .idle hsame hphase (fun j => ?_) (fun j => ?_)
        (fun _ => rfl) (fun _ _ => ⟨rfl, rfl⟩) (by rw [hcall]; rfl)
      · rw [hlose.phase, setCall_phase]
      · rw [hlose.calls, setCall_calls]
  case h_3 => exact h

theorem send_evict (h : EvictInv config s) (id : Nat) (side : Direction) :
    EvictInv config (s.send config id side) := by
  have hsame := send_sameWorker config s id side
  unfold State.send at hsame ⊢
  split
  case h_2 => exact h
  case h_1 chunk rest hcall =>
    simp only [hcall] at hsame
    have hphase : (s.producers id).phase = .writing :=
      h.writing side (by simp [hcall])
    split
    case h_1 s₁ hsend =>
      simp only [hsend] at hsame
      rw [State.trySend_eq hsend] at hsame ⊢
      refine h.call side (.chunks rest) hsame hphase (fun j => ?_) (fun j => ?_)
        (fun _ => rfl) (fun j hj => ⟨rfl, ?_⟩) ?_
      · rw [setCall_phase]
        simp only [State.modifyProducer, alter]
        split <;> rfl
      · rw [setCall_calls]
        simp only [State.modifyProducer, alter]
        by_cases hj : j = id <;> simp [hj]
      · change (s.queue ++ [_]).countP _ = _
        simp [List.countP_append, Command.appends, Ne.symm hj]
      · rw [hcall]
        change (s.tickets id).pending + _ + 1 =
          _ + (s.queue ++ [_]).countP _ + 0
        simp only [List.countP_append, List.countP_singleton, Command.appends,
          beq_self_eq_true, if_true]
        omega
    case h_2 reason hsend =>
      simp only [hsend] at hsame
      have howed : (s.tickets id).pending ≠ 0 := by
        rw [h.pending, State.underway]
        have howes : 1 ≤ (s.producers id).calls.client.owes +
            (s.producers id).calls.server.owes := by
          cases side <;> simp only [Sides.get] at hcall <;>
            simp only [hcall, Call.owes] <;> omega
        omega
      have hlose := fun s' : State => Quiet.lose s' id side
        ((s.producers id).accepted.get side).length
      refine h.call side (.refused reason) hsame hphase (fun j => ?_) (fun j => ?_)
        (fun j => ?_) (fun j hj => ?_) ?_
      · rw [(hlose _).phase, setCall_phase]
        rfl
      · rw [(hlose _).calls, setCall_calls]
        rfl
      · rw [(hlose _).finished]
        simp only [State.setCall, State.modifyProducer, State.modifyTicket, alter]
        split <;> rfl
      · rw [(hlose _).pending]
        simp [State.setCall, State.modifyProducer, State.modifyTicket, alter,
          hj, State.lose]
      · rw [hcall, (hlose _).pending]
        simp only [State.setCall, State.modifyProducer, State.modifyTicket,
          alter_self, Call.owes, State.lose]
        omega

theorem refuse_evict (h : EvictInv config s) (id : Nat) (side : Direction) :
    EvictInv config (s.refuse id side) := by
  have hsame := refuse_sameWorker s id side
  unfold State.refuse at hsame ⊢
  split
  case h_2 => exact h
  case h_1 reason hcall =>
    simp only [hcall] at hsame
    have hstop := Quiet.stopTicket s id reason
    have hphase : (s.producers id).phase = .writing :=
      h.writing side (by simp [hcall])
    refine h.call side .idle hsame hphase (fun j => ?_)
      (fun j => ?_) hstop.finished (fun j _ => ⟨hstop.pending j, rfl⟩) ?_
    · rw [setCall_phase, hstop.phase]
    · rw [setCall_calls, hstop.calls]
    · rw [hcall]
      change (((s.stopTicket id reason).tickets id).pending) + _ + 0 = _ + _ + 0
      rw [hstop.pending]
      rfl

theorem EvictInv.advance (h : EvictInv config s)
    (hsame : SameWorker s s') (hqueue : s'.queue = s.queue)
    (hidle : ∀ side, (s.producers id).calls.get side = .idle)
    (hunfinished : (s.tickets id).finished = 0)
    (hfinished : (s'.tickets id).finished ≠ 0 → (s'.producers id).phase = .finished)
    (hpending : (s'.tickets id).pending = (s.tickets id).pending)
    (hcalls : ∀ j, (s'.producers j).calls = (s.producers j).calls)
    (hother : ∀ j, j ≠ id → s'.tickets j = s.tickets j ∧
      (s'.producers j).phase = (s.producers j).phase) :
    EvictInv config s' := by
  refine h.producer hsame (fun j => ?_) (fun j hj side => ?_) (fun j hj => ?_)
    fun j hready => ?_
  · rw [State.underway, hsame.worker, hqueue, hcalls, ← State.underway,
      ← h.pending]
    by_cases hid : j = id
    · rw [hid, hpending]
    · rw [(hother j hid).1]
  · rw [hcalls]
    by_cases hid : j = id
    · exact hid ▸ hidle side
    · rw [(hother j hid).2] at hj
      exact h.calls j hj side
  · by_cases hid : j = id
    · subst hid
      exact hfinished hj
    · rw [(hother j hid).1] at hj
      rw [(hother j hid).2]
      exact h.finished j hj
  · have hid : j ≠ id := fun hid => hready.1 (hid ▸ hunfinished)
    rw [(hother j hid).1]
    exact ⟨hready, rfl⟩

theorem EvictInv.unfinished (h : EvictInv config s)
    (hphase : (s.producers id).phase ≠ .finished) :
    (s.tickets id).finished = 0 := by
  by_contra hne
  exact hphase (h.finished id hne)

theorem finish_evict (h : EvictInv config s) {info : Sides BodyInfo}
    (hidle : ∀ side, (s.producers id).calls.get side = .idle) :
    EvictInv config (s.finish id info) := by
  have hsame := finish_sameWorker s id info
  unfold State.finish at hsame ⊢
  split
  case isFalse => exact h
  case isTrue hphase =>
    rw [if_pos hphase] at hsame
    refine h.advance hsame rfl hidle hphase.2 (fun hne => ?_) ?_ (fun j => ?_)
      fun j hj => ?_
    · refine absurd hphase.2 ?_
      simpa [State.modifyProducer, State.modifyTicket] using hne
    · simp [State.modifyProducer, State.modifyTicket]
    · simp only [State.modifyProducer, State.modifyTicket, alter]
      split <;> rfl
    · simp [State.modifyProducer, State.modifyTicket, alter, hj]

theorem order_evict (h : EvictInv config s) (id : Nat) :
    EvictInv config (s.order id) := by
  have hsame := order_sameWorker s id
  unfold State.order at hsame ⊢
  split
  case isFalse => exact h
  case isTrue hphase =>
    rw [if_pos hphase] at hsame
    have hzero : (s.tickets id).finished = 0 :=
      h.unfinished (by simp [hphase])
    have hidle := h.calls id (by simp [hphase])
    split
    case isTrue howned =>
      rw [if_pos howned] at hsame
      refine h.advance hsame rfl hidle hzero (fun hne => absurd hzero hne) rfl
        (fun j => ?_) fun j hj => ⟨rfl, ?_⟩
      · simp only [State.modifyProducer, alter]
        split <;> rfl
      · simp [State.modifyProducer, alter, hj]
    case isFalse howned =>
      rw [if_neg howned] at hsame
      refine h.advance hsame rfl hidle hzero (fun hne => absurd hzero hne) rfl
        (fun j => ?_) fun j hj => ⟨rfl, ?_⟩
      · simp only [State.modifyProducer, alter]
        split <;> rfl
      · simp [State.modifyProducer, alter, hj]

theorem publish_evict (h : EvictInv config s) (id : Nat) :
    EvictInv config (s.publish id) := by
  have hsame := publish_sameWorker s id
  unfold State.publish at hsame ⊢
  split
  case h_2 => exact h
  case h_1 order hphase =>
    simp only [hphase] at hsame
    refine h.advance hsame rfl (h.calls id (by simp [hphase]))
      (h.unfinished (by simp [hphase])) (fun _ => ?_) ?_ (fun j => ?_)
      fun j hj => ?_
    · simp [State.modifyProducer, State.modifyTicket]
    · simp [State.modifyProducer, State.modifyTicket]
    · simp only [State.modifyProducer, State.modifyTicket, alter]
      split <;> rfl
    · simp [State.modifyProducer, State.modifyTicket, alter, hj]

theorem receive_evict (h : EvictInv config s) :
    EvictInv config s.receive := by
  unfold State.receive
  split
  case h_2 => exact h
  case h_1 w c rest hw hqueue =>
    split
    case isFalse => exact h
    case isTrue hidle =>
      refine ⟨.setWorker (s := { s with queue := rest }) h.quota.panic
        ((h.quota.accounted w hw).task _) trivial, h.panic, fun id => ?_,
        h.calls, h.finished, fun w' hw' => ?_⟩
      · change (s.tickets id).pending = _
        have hold := h.pending id
        simp only [State.underway, hw, hqueue, hidle, Option.map_some,
          Option.getD_some, Task.owes, Task.commands, List.countP_cons,
          List.countP_nil] at hold ⊢
        omega
      · cases hw'
        trivial

theorem exit_evict (h : EvictInv config s) (io : Io) :
    EvictInv config (s.exit io) := by
  unfold State.exit
  split
  case h_1 => exact h
  case h_2 w hw =>
    split
    case isFalse => exact h
    case isTrue hidle =>
      obtain ⟨htask, hqueue, -⟩ := hidle
      have hstop : ∀ id, (if w.records.contains id then
          (s.tickets id).stop "cache closed" else s.tickets id).pending =
            (s.tickets id).pending ∧ (if w.records.contains id then
          (s.tickets id).stop "cache closed" else s.tickets id).finished =
            (s.tickets id).finished := by
        intro id
        split <;> exact ⟨rfl, rfl⟩
      refine ⟨⟨nofun, nofun, h.quota.panic⟩, h.panic, fun id => ?_, h.calls,
        fun id hne => ?_, nofun⟩
      · refine (hstop id).1.trans ?_
        rw [h.pending]
        simp [State.underway, hw, htask, Task.owes, Task.commands]
      · exact h.finished id ((hstop id).2 ▸ hne)

end Producers

theorem step_evict {config : CacheConfig} {s : State} (h : EvictInv config s)
    {e : Event} (hok : Honest s e) : EvictInv config (step config s e) := by
  cases e with
  | entry =>
    rw [step]
    split
    · exact entry_evict h
    · exact h
  | append id side bytes =>
    rw [step]
    split
    case isTrue hid => exact append_evict h hid.2 hok
    case isFalse => exact h
  | poll id side => exact poll_evict h id side
  | send id side => exact send_evict h id side
  | refuse id side => exact refuse_evict h id side
  | endEarly id =>
    rw [step]
    split
    · exact h.quietProducer (sameWorker_modifyTicket s id (by intro _; rfl))
        (.stopTicket s id _)
    · exact h
  | finish id info =>
    rw [step]
    split
    · exact finish_evict h fun side => (hok side).1
    · exact h
  | order id => exact order_evict h id
  | publish id => exact publish_evict h id
  | query q => exact ask_evict h q
  | receive => exact receive_evict h
  | work io => exact work_evict h io
  | shutdown =>
    exact h.quietProducer ⟨rfl, rfl, rfl, fun _ => rfl⟩
      ⟨rfl, rfl, fun _ => rfl, fun _ => rfl, fun _ => rfl, fun _ => rfl⟩
  | drop =>
    exact h.quietProducer ⟨rfl, rfl, rfl, fun _ => rfl⟩
      ⟨rfl, rfl, fun _ => rfl, fun _ => rfl, fun _ => rfl, fun _ => rfl⟩
  | exit io => exact exit_evict h io

theorem initial_evict (config : CacheConfig) :
    EvictInv config State.initial where
  quota := initial_quota config
  panic := rfl
  pending id := rfl
  calls id hphase side := absurd rfl hphase
  finished id hne := absurd rfl hne
  task w hw := by
    cases hw
    trivial

theorem run_evict {config : CacheConfig} {events : List Event}
    (hok : Admissible (step config) Honest .initial events) :
    EvictInv config (run (step config) .initial events) := by
  have hstep : ∀ s e, EvictInv config s → Honest s e →
      EvictInv config (step config s e) := fun _ _ h => step_evict h
  exact run_invariant hstep (initial_evict config) hok

theorem underway_eq_zero {config : CacheConfig} {s : State}
    (h : EvictInv config s) {id : Nat} (hready : (s.tickets id).Ready) :
    (∀ side bytes, .append id side bytes ∉ s.line) ∧
      ∀ side, ((s.producers id).calls.get side).owes = 0 := by
  have hzero : s.underway id = 0 := (h.pending id).symm.trans hready.2
  unfold State.underway at hzero
  refine ⟨fun side bytes hmem => ?_, fun side => ?_⟩
  · rcases List.mem_append.1 hmem with hmem | hmem
    · cases hw : s.worker with
      | none => simp [hw] at hmem
      | some w =>
        rw [hw, Option.map_some, Option.getD_some] at hmem hzero
        have hcount : 0 < w.task.commands.countP (Command.appends id) :=
          List.countP_pos_iff.2 ⟨_, hmem, by simp [Command.appends]⟩
        cases htask : w.task with
        | settle i => simp [htask, Task.commands] at hmem
        | _ =>
          rw [htask] at hcount hzero
          simp only [Task.owes] at hzero
          omega
    · have hcount : 0 < s.queue.countP (Command.appends id) :=
        List.countP_pos_iff.2 ⟨_, hmem, by simp [Command.appends]⟩
      omega
  · cases side <;> simp only [Sides.get] <;> omega

/--
In every state in which the worker is about to evict: the victim has a record,
is finished and has no chunk on the way; it is not the entry whose append is
being processed; and no entry that was ready when the scan began has completed
before it.  The worker never fails to find a record.
-/
theorem eviction_spares_live_entries {config : CacheConfig} {start : State}
    (hnew : newCache config = .ok start) {events : List Event}
    (hok : Admissible (step config) Honest start events) :
    let s := run (step config) start events
    s.panicked = none ∧
      ∀ w job victim ready, s.worker = some w →
        w.task = .evict job victim ready →
        victim ∈ w.records.keys ∧
          (s.tickets victim).finished ≠ 0 ∧ (s.tickets victim).pending = 0 ∧
          (∀ side bytes, .append victim side bytes ∉ s.line) ∧
          (∀ id side bytes wanted, job = .append id side bytes wanted →
            id ≠ victim ∧ id ∈ w.records.keys) ∧
          ∀ id ∈ ready, (s.tickets victim).finished ≤ (s.tickets id).finished := by
  intro s
  obtain ⟨rfl, -⟩ := newCache_eq hnew
  have h : EvictInv config s := run_evict hok
  refine ⟨h.panic, fun w job victim ready hw htask => ?_⟩
  have hsafe := h.task w hw
  rw [htask] at hsafe
  obtain ⟨hpresent, hchosen⟩ := hsafe
  refine ⟨hchosen.record, hchosen.isReady.1, hchosen.isReady.2,
    (underway_eq_zero h hchosen.isReady).1, ?_, hchosen.least⟩
  rintro id side bytes wanted rfl
  exact ⟨h.job_ne_victim hw htask, hpresent⟩

def bodyInfo (bytes : Sides Nat) : Sides BodyInfo :=
  ⟨⟨true, bytes.client, true, [], false⟩, ⟨true, bytes.server, true, [], false⟩⟩

/-- Room for two entries.  The scan for a third one has passed the first entry
when both are finished, in the order of their numbers. -/
def overtakenEvents : List Event :=
  entryEvents ++ entryEvents ++ [.entry, .receive, .work .fine, .work .fine] ++
    finishEvents 1 (bodyInfo ⟨0, 0⟩) ++ finishEvents 2 (bodyInfo ⟨0, 0⟩) ++
    [.work .fine, .work .fine]

/-- The second entry is evicted, though the first one has completed before it
and is ready as well. -/
theorem overtaken_scan_breaks_completion_order :
    newCache { tightConfig with maxEntries := 2 } = .ok .initial ∧
      Admissible (step { tightConfig with maxEntries := 2 }) Honest .initial
        overtakenEvents ∧
      let s := run (step { tightConfig with maxEntries := 2 }) .initial
        overtakenEvents
      s.worker.map (fun w => (w.task, w.records.contains 1)) =
          some (.evict (.register 3) 2 [], true) ∧
        (s.tickets 1).eligible = some 1 ∧ (s.tickets 2).eligible = some 2 := by
  refine ⟨rfl, ?_⟩
  decide

theorem eviction_spares_live_entries_sample :
    let s := run (step tightConfig) .initial evictionEvents
    newCache tightConfig = .ok .initial ∧
      Admissible (step tightConfig) Honest .initial evictionEvents ∧
      s.worker.map (fun w => w.task) = some (.evict (.append 2 .client [4] 1) 1 [1]) ∧
      s.panicked = none ∧ (s.tickets 1).pending = 0 := by
  have hok : Admissible (step tightConfig) Honest .initial evictionEvents := by
    decide
  have h := @eviction_spares_live_entries tightConfig _ rfl _ hok
  have htask : (run (step tightConfig) .initial evictionEvents).worker.map
      (fun w => w.task) = some (.evict (.append 2 .client [4] 1) 1 [1]) := by
    decide
  obtain ⟨w, hw, hwtask⟩ := Option.map_eq_some_iff.1 htask
  exact ⟨rfl, hok, htask, h.1, (h.2 w _ _ _ hw hwtask).2.2.1⟩

end ProxyLane.Cache
