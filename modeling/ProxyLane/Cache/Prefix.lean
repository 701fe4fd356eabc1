import ProxyLane.Cache.Eviction

/-!
# What is stored is an initial part of what was offered

The bytes of a side go through the owner's call, the queue and the worker in
one order.  A side that has lost a byte in one of these places gets nothing
more behind it: the owner stops calling, or the worker stops writing.
-/

namespace ProxyLane.Cache

open ProxyLane.Foundation ProxyLane.Protocol

/-! ## The bytes of a side -/

namespace State

def file (s : State) (id : Nat) (side : Direction) : Bytes :=
  ((s.disk id).get side).getD []

def offered (s : State) (id : Nat) (side : Direction) : Bytes :=
  (s.producers id).offered.get side

def accepted (s : State) (id : Nat) (side : Direction) : Bytes :=
  (s.producers id).accepted.get side

def call (s : State) (id : Nat) (side : Direction) : Call :=
  (s.producers id).calls.get side

def lost (s : State) (id : Nat) (side : Direction) : Option Nat :=
  (s.producers id).lost.get side

def Live (s : State) (id : Nat) : Prop :=
  (s.tickets id).state.evicted = false ∧ ∃ w, s.worker = some w ∧
    ((∃ r, w.records.get? id = some r ∧ r.stopped = false) ∨ .register id ∈ s.line)

end State

def Call.rest : Call → Bytes
  | .chunks rest => rest.flatten
  | .sending chunk rest => chunk ++ rest.flatten
  | _ => []

def Call.Stuck (accepting : Bool) : Call → Prop
  | .sending _ _ => False
  | .refused _ => True
  | _ => accepting = false

/-- The call of a side goes on where the queue has left off, unless the owner
has given up. -/
def State.Flows (s : State) (id : Nat) (side : Direction) : Prop :=
  (∃ reason, s.call id side = .refused reason) ∨
    (s.call id side).owes = 0 ∧ (s.tickets id).accepting = false ∨
    s.accepted id side ++ (s.call id side).rest = s.offered id side

/-- One side of an entry.  `done` are the accepted bytes that the worker has
left behind. -/
structure SideInv (s : State) (id : Nat) (side : Direction) : Prop where
  accepted : s.accepted id side <+: s.offered id side
  flow : s.Flows id side
  queue : ∃ done, s.accepted id side = done ++ s.waiting id side ∧
    s.file id side <+: done
  live : s.Live id → s.accepted id side = s.file id side ++ s.waiting id side
  lost : ∀ k, s.lost id side = some k → (s.file id side).length ≤ k ∧
    (s.Live id → (s.accepted id side).length ≤ k ∧
      (s.call id side).Stuck (s.tickets id).accepting)
  info : (s.producers id).phase ≠ .writing →
    ((s.tickets id).info.get side).bytes = (s.offered id side).length

def Command.entryId : Command → Option Nat
  | .register id | .append id _ _ => some id
  | .query _ => none

def Behind (a b : Command) : Prop :=
  ∀ id, a.entryId = some id → b ≠ .register id

def Task.appending : Task → Option Nat
  | .room id _ _ _ => some id
  | .scan (.append id _ _ _) _ _ _ | .evict (.append id _ _ _) _ _
  | .commit (.append id _ _ _) => some id
  | _ => none

structure LineInv (s : State) : Prop where
  known : ∀ c ∈ s.line, ∀ id, c.entryId = some id → id < s.next
  order : s.line.Pairwise Behind
  callers : ∀ id, s.next ≤ id → s.producers id = .new
  fresh : ∀ id, s.next ≤ id ∨ .register id ∈ s.line →
    s.disk id = ⟨none, none⟩ ∧ ∀ w, s.worker = some w → id ∉ w.records.keys
  evicted : ∀ id, (s.tickets id).state.evicted = true → (s.tickets id).Ready
  busy : ∀ w, s.worker = some w → ∀ id, w.task.appending = some id →
    ∃ r, w.records.get? id = some r ∧ r.stopped = false

structure FlowInv (s : State) : Prop where
  line : LineInv s
  side : ∀ id side, SideInv s id side

/-! ## Frames -/

section Frames

variable {config : CacheConfig} {s s' : State} {id : Nat} {side : Direction}

theorem SideInv.place (h : SideInv s id side) :
    (s.file id side).length ≤ s.place id side := by
  obtain ⟨done, hdone, hfile⟩ := h.queue
  have hlen := congrArg List.length hdone
  rw [List.length_append] at hlen
  change _ ≤ (s.accepted id side).length - (s.waiting id side).length
  have := hfile.length_le
  omega

theorem SideInv.place_live (h : SideInv s id side) (hlive : s.Live id) :
    s.place id side = (s.file id side).length := by
  change (s.accepted id side).length - (s.waiting id side).length = _
  rw [h.live hlive, List.length_append]
  omega

structure SameSide (s s' : State) (id : Nat) (side : Direction) : Prop where
  call : s'.call id side = s.call id side
  offered : s'.offered id side = s.offered id side
  accepted : s'.accepted id side = s.accepted id side
  phase : (s'.producers id).phase = (s.producers id).phase
  info : (s'.tickets id).info.get side = (s.tickets id).info.get side
  accepting : (s'.tickets id).accepting = true → (s.tickets id).accepting = true

namespace SameSide

theorem closed (h : SameSide s s' id side)
    (hold : (s.tickets id).accepting = false) :
    (s'.tickets id).accepting = false := by
  by_contra hnew
  rw [Bool.not_eq_false] at hnew
  rw [h.accepting hnew] at hold
  cases hold

theorem stuck (h : SameSide s s' id side) {call : Call}
    (hstuck : call.Stuck (s.tickets id).accepting) :
    call.Stuck (s'.tickets id).accepting := by
  cases call with
  | sending chunk rest => exact hstuck
  | refused reason => exact hstuck
  | idle => exact h.closed hstuck
  | chunks rest => exact h.closed hstuck

theorem flows (h : SameSide s s' id side) (hflow : s.Flows id side) :
    s'.Flows id side := by
  unfold State.Flows
  rw [h.call, h.accepted, h.offered]
  rcases hflow with hrefused | ⟨howes, hstop⟩ | hflow
  · exact Or.inl hrefused
  · exact Or.inr (Or.inl ⟨howes, h.closed hstop⟩)
  · exact Or.inr (Or.inr hflow)

end SameSide

structure SameOwner (s s' : State) (id : Nat) : Prop where
  calls : (s'.producers id).calls = (s.producers id).calls
  phase : (s'.producers id).phase = (s.producers id).phase
  offered : (s'.producers id).offered = (s.producers id).offered
  accepted : (s'.producers id).accepted = (s.producers id).accepted
  info : (s'.tickets id).info = (s.tickets id).info
  accepting : (s'.tickets id).accepting = true → (s.tickets id).accepting = true

namespace SameOwner

theorem onSide (h : SameOwner s s' id) (side : Direction) :
    SameSide s s' id side where
  call := by rw [State.call, h.calls, ← State.call]
  offered := by rw [State.offered, h.offered, ← State.offered]
  accepted := by rw [State.accepted, h.accepted, ← State.accepted]
  phase := h.phase
  info := by rw [h.info]
  accepting := h.accepting

theorem trans {s'' : State} (h : SameOwner s s' id)
    (h' : SameOwner s' s'' id) : SameOwner s s'' id where
  calls := h'.calls.trans h.calls
  phase := h'.phase.trans h.phase
  offered := h'.offered.trans h.offered
  accepted := h'.accepted.trans h.accepted
  info := h'.info.trans h.info
  accepting hacc := h.accepting (h'.accepting hacc)

theorem modifyTicket (s : State) (id : Nat) {f : Ticket → Ticket}
    (hinfo : ∀ t, (f t).info = t.info)
    (haccepting : ∀ t, (f t).accepting = true → t.accepting = true)
    (j : Nat) : SameOwner s (s.modifyTicket id f) j := by
  refine ⟨rfl, rfl, rfl, rfl, ?_, ?_⟩
  · simp only [State.modifyTicket, alter]
    split
    · exact hinfo _
    · rfl
  · simp only [State.modifyTicket, alter]
    split
    · exact haccepting _
    · exact fun h => h

theorem stopTicket (s : State) (id : Nat) (reason : String) (j : Nat) :
    SameOwner s (s.stopTicket id reason) j :=
  modifyTicket s id (by intro _; rfl) (by intro _ h; cases h) j

theorem lose (s : State) (id : Nat) (side : Direction) (place j : Nat) :
    SameOwner s (s.lose id side place) j := by
  refine ⟨?_, ?_, ?_, ?_, rfl, fun h => h⟩ <;>
    simp only [State.lose, State.modifyProducer, alter] <;> split <;> rfl

theorem setWorker (s : State) (w : Worker) (j : Nat) :
    SameOwner s (s.setWorker w) j :=
  ⟨rfl, rfl, rfl, rfl, rfl, fun h => h⟩

theorem setDisk (s : State) (id : Nat) (files : Sides (Option Bytes))
    (j : Nat) : SameOwner s (s.setDisk id files) j :=
  ⟨rfl, rfl, rfl, rfl, rfl, fun h => h⟩

theorem stopRecord (s : State) (w : Worker) (id : Nat) (reason : String)
    (j : Nat) : SameOwner s (s.stopRecord w id reason).1 j := by
  unfold State.stopRecord
  split
  · exact stopTicket s id reason j
  · exact ⟨rfl, rfl, rfl, rfl, rfl, fun h => h⟩

end SameOwner

theorem SideInv.frame (h : SideInv s id side)
    (howner : SameSide s s' id side)
    (hwaiting : s'.waiting id side = s.waiting id side)
    (hfile : s'.file id side = s.file id side ∨ s'.file id side = [] ∧ ¬s'.Live id)
    (hlive : s'.Live id → s.Live id)
    (hlost : s'.lost id side = s.lost id side) : SideInv s' id side := by
  have hcall := howner.call
  have hoffered := howner.offered
  have haccepted := howner.accepted
  refine ⟨?_, ?_, ?_, fun hl => ?_, fun k hk => ?_, fun hphase => ?_⟩
  · rw [haccepted, hoffered]
    exact h.accepted
  · exact howner.flows h.flow
  · obtain ⟨done, hdone, hprefix⟩ := h.queue
    refine ⟨done, by rw [haccepted, hwaiting, hdone], ?_⟩
    rcases hfile with hfile | ⟨hfile, -⟩
    · rwa [hfile]
    · rw [hfile]
      exact List.nil_prefix
  · rcases hfile with hfile | ⟨-, hdead⟩
    · rw [haccepted, hfile, hwaiting]
      exact h.live (hlive hl)
    · exact absurd hl hdead
  · obtain ⟨hle, hstuck⟩ := h.lost k (hlost ▸ hk)
    refine ⟨?_, fun hl => ?_⟩
    · rcases hfile with hfile | ⟨hfile, -⟩
      · rwa [hfile]
      · rw [hfile]
        exact Nat.zero_le _
    · rw [haccepted, hcall]
      exact ⟨(hstuck (hlive hl)).1, howner.stuck (hstuck (hlive hl)).2⟩
  · rw [hoffered, howner.info]
    exact h.info (howner.phase ▸ hphase)

/-- The worker leaves an append behind: some first bytes of it are written, or
none, and if all of it is not, the entry is not written to any more. -/
theorem SideInv.passed (h : SideInv s id side)
    (howner : SameSide s s' id side) {chunk : Bytes}
    (hwaiting : s.waiting id side = chunk ++ s'.waiting id side)
    (hfile : s'.file id side = s.file id side ∨
      s.Live id ∧ ∃ n, s'.file id side = s.file id side ++ chunk.take n)
    (hlive : s'.Live id → s.Live id ∧ s'.file id side = s.file id side ++ chunk)
    (hlost : s'.lost id side = s.lost id side ∨
      ∃ k, s'.lost id side = (s.lost id side <|> some k) ∧
        (s'.file id side).length ≤ k ∧ ¬s'.Live id) : SideInv s' id side := by
  have hcall := howner.call
  have hoffered := howner.offered
  have haccepted := howner.accepted
  have hold : ∀ k, s.lost id side = some k →
      (s'.file id side).length ≤ k ∧
        (s'.Live id → (s'.accepted id side).length ≤ k ∧
          (s'.call id side).Stuck (s'.tickets id).accepting) := by
    intro k hk
    obtain ⟨hle, hstuck⟩ := h.lost k hk
    refine ⟨?_, fun hl => ?_⟩
    · rcases hfile with hfile | ⟨hl, n, hfile⟩
      · rwa [hfile]
      · have hlen := congrArg List.length (h.live hl)
        have hmax := (hstuck hl).1
        rw [hwaiting, List.length_append, List.length_append] at hlen
        rw [hfile, List.length_append, List.length_take]
        omega
    · rw [haccepted, hcall]
      exact ⟨(hstuck (hlive hl).1).1, howner.stuck (hstuck (hlive hl).1).2⟩
  refine ⟨?_, ?_, ?_, fun hl => ?_, fun k hk => ?_, fun hphase => ?_⟩
  · rw [haccepted, hoffered]
    exact h.accepted
  · exact howner.flows h.flow
  · rcases hfile with hfile | ⟨hl, n, hfile⟩
    · obtain ⟨done, hdone, hprefix⟩ := h.queue
      refine ⟨done ++ chunk, ?_, ?_⟩
      · rw [haccepted, hdone, hwaiting, List.append_assoc]
      · rw [hfile]
        exact hprefix.trans (List.prefix_append _ _)
    · refine ⟨s.file id side ++ chunk, ?_, ?_⟩
      · rw [haccepted, h.live hl, hwaiting, List.append_assoc]
      · rw [hfile]
        exact List.prefix_append_right_inj _ |>.2 (List.take_prefix n chunk)
  · obtain ⟨hl, hfile⟩ := hlive hl
    rw [haccepted, h.live hl, hfile, hwaiting, List.append_assoc]
  · rcases hlost with hlost | ⟨k', hlost, hle, hdead⟩
    · exact hold k (hlost ▸ hk)
    · cases hprev : s.lost id side with
      | some k'' =>
        rw [hlost, hprev] at hk
        exact hold k (hprev.trans hk)
      | none =>
        rw [hlost, hprev] at hk
        obtain rfl : k' = k := by simpa using hk
        exact ⟨hle, fun hl => absurd hl hdead⟩
  · rw [hoffered, howner.info]
    exact h.info (howner.phase ▸ hphase)

/-! ## The line of commands -/

theorem line_eq {w : Worker} (hw : s.worker = some w) :
    s.line = w.task.commands ++ s.queue := by
  rw [State.line, hw]
  rfl

def Proceeds (s s' : State) : Prop :=
  s'.line = s.line ∨ ∃ c, s.line = c :: s'.line

theorem Proceeds.mem (h : Proceeds s s') {c : Command} (hc : c ∈ s'.line) :
    c ∈ s.line := by
  rcases h with h | ⟨_, h⟩
  · rwa [h] at hc
  · rw [h]
    exact List.mem_cons_of_mem _ hc

theorem Proceeds.order (h : Proceeds s s') (horder : s.line.Pairwise Behind) :
    s'.line.Pairwise Behind := by
  rcases h with h | ⟨_, h⟩
  · rwa [h]
  · rw [h] at horder
    exact (List.pairwise_cons.1 horder).2

def Touched (s s' : State) (id : Nat) : Prop :=
  ∃ c, s.line = c :: s'.line ∧ c.entryId = some id

theorem LineInv.touched (h : LineInv s) (ht : Touched s s' id) :
    id < s.next ∧ .register id ∉ s'.line := by
  obtain ⟨c, hline, hid⟩ := ht
  refine ⟨h.known c (hline ▸ List.mem_cons_self) id hid, fun hmem => ?_⟩
  have horder := h.order
  rw [hline] at horder
  exact (List.pairwise_cons.1 horder).1 _ hmem id hid rfl

/-- A step of the worker that writes and registers only for the entry whose
command it leaves behind. -/
theorem LineInv.proceed (h : LineInv s) (hproceeds : Proceeds s s')
    (hnext : s'.next = s.next)
    (hproducers : ∀ j, s.next ≤ j → s'.producers j = s.producers j)
    (hdisk : ∀ j, Removed (s.disk j) (s'.disk j) ∨ Touched s s' j)
    (hkeys : ∀ w', s'.worker = some w' → ∀ j ∈ w'.records.keys,
      Touched s s' j ∨ ∃ w, s.worker = some w ∧ j ∈ w.records.keys)
    (hkeep : KeepsReady s.tickets s'.tickets)
    (hevicted : ∀ j, (s'.tickets j).state.evicted = true →
      (s.tickets j).state.evicted = true ∨ (s.tickets j).Ready)
    (hbusy : ∀ w', s'.worker = some w' → ∀ j, w'.task.appending = some j →
      ∃ r, w'.records.get? j = some r ∧ r.stopped = false) : LineInv s' where
  known c hc j hj := hnext ▸ h.known c (hproceeds.mem hc) j hj
  order := hproceeds.order h.order
  callers j hj := by
    rw [hnext] at hj
    rw [hproducers j hj]
    exact h.callers j hj
  fresh j hj := by
    have huntouched : ¬Touched s s' j := by
      intro ht
      obtain ⟨hlt, hnot⟩ := h.touched ht
      rcases hj with hj | hj
      · rw [hnext] at hj
        omega
      · exact hnot hj
    have hold := h.fresh j (hj.imp (hnext ▸ ·) hproceeds.mem)
    refine ⟨?_, fun w' hw' hmem => ?_⟩
    · rcases hdisk j with hrem | ht
      · rw [hold.1] at hrem
        refine Sides.ext fun sd => ?_
        have hnone : (⟨none, none⟩ : Sides (Option Bytes)).get sd = none := by
          cases sd <;> rfl
        rcases hrem sd with heq | heq
        · exact heq
        · rw [heq, hnone]
      · exact absurd ht huntouched
    · rcases hkeys w' hw' j hmem with ht | ⟨w, hw, hmem⟩
      · exact huntouched ht
      · exact hold.2 w hw hmem
  evicted j hj := by
    rcases hevicted j hj with hold | hready
    · exact (hkeep j (h.evicted j hold)).1
    · exact (hkeep j hready).1
  busy := hbusy

theorem waiting_congr (h : s'.line = s.line) (j : Nat) (sd : Direction) :
    s'.waiting j sd = s.waiting j sd := by
  rw [State.waiting, State.waiting, h]

theorem waiting_cons {c : Command} (h : s.line = c :: s'.line) (j : Nat)
    (sd : Direction) :
    s.waiting j sd = c.bytes j sd ++ s'.waiting j sd := by
  rw [State.waiting, State.waiting, h, List.flatMap_cons]

theorem live_mono {w w' : Worker} {j : Nat} (hw : s.worker = some w)
    (hw' : s'.worker = some w')
    (hevicted : (s.tickets j).state.evicted = true →
      (s'.tickets j).state.evicted = true)
    (hrecords : ∀ r', w'.records.get? j = some r' → r'.stopped = false →
      (∃ r, w.records.get? j = some r ∧ r.stopped = false) ∨ .register j ∈ s.line)
    (hproceeds : Proceeds s s') (hlive : s'.Live j) : s.Live j := by
  obtain ⟨hnot, w'', hw'', hrecord⟩ := hlive
  rw [hw'] at hw''
  cases hw''
  refine ⟨?_, w, hw, ?_⟩
  · by_contra htrue
    rw [Bool.not_eq_false] at htrue
    rw [hevicted htrue] at hnot
    cases hnot
  · rcases hrecord with ⟨r', hr', hrun⟩ | hmem
    · exact hrecords r' hr' hrun
    · exact Or.inr (hproceeds.mem hmem)

structure Turn (s s' : State) (w w' : Worker) : Prop where
  before : s.worker = some w
  after : s'.worker = some w'
  next : s'.next = s.next
  producers : s'.producers = s.producers
  owner : ∀ j, SameOwner s s' j
  line : s'.line = s.line ∨ ∃ c, s.line = c :: s'.line ∧ ∀ j sd, c.bytes j sd = []
  disk : ∀ j, Removed (s.disk j) (s'.disk j)
  kept : ∀ j, s'.disk j = s.disk j ∨ (s'.tickets j).state.evicted = true
  evicted : ∀ j, (s.tickets j).state.evicted = true →
    (s'.tickets j).state.evicted = true
  ready : ∀ j, (s'.tickets j).state.evicted = true →
    (s.tickets j).state.evicted = true ∨ (s.tickets j).Ready
  records : ∀ j r', w'.records.get? j = some r' →
    (∃ r, w.records.get? j = some r ∧ r'.stopped = r.stopped) ∨
      s.line = .register j :: s'.line

theorem FlowInv.turn {w w' : Worker} (h : FlowInv s) (ht : Turn s s' w w')
    (hkeep : KeepsReady s.tickets s'.tickets)
    (hbusy : ∀ j, w'.task.appending = some j →
      ∃ r, w'.records.get? j = some r ∧ r.stopped = false) : FlowInv s' := by
  have hproceeds : Proceeds s s' := ht.line.imp id fun ⟨c, hc, _⟩ => ⟨c, hc⟩
  refine ⟨h.line.proceed hproceeds ht.next (fun j _ => by rw [ht.producers])
    (fun j => Or.inl (ht.disk j)) (fun w'' hw'' j hj => ?_) hkeep ht.ready
    (fun w'' hw'' => ?_), fun j sd => ?_⟩
  · rw [ht.after] at hw''
    cases hw''
    obtain ⟨r', hr'⟩ := Option.isSome_iff_exists.1 (Table.contains_iff.2 hj)
    rcases ht.records j r' hr' with ⟨r, hr, -⟩ | hline
    · exact Or.inr ⟨w, ht.before, Table.mem_keys_of_get? hr⟩
    · exact Or.inl ⟨_, hline, rfl⟩
  · rw [ht.after] at hw''
    cases hw''
    exact hbusy
  · refine (h.side j sd).frame ((ht.owner j).onSide sd) ?_ ?_ ?_ ?_
    · rcases ht.line with hline | ⟨c, hline, hc⟩
      · exact waiting_congr hline j sd
      · rw [waiting_cons hline, hc, List.nil_append]
    · rcases ht.kept j with hsame | hgone
      · exact Or.inl (by rw [State.file, hsame, ← State.file])
      · rcases ht.disk j sd with hsame | hnone
        · exact Or.inl (by rw [State.file, hsame, ← State.file])
        · exact Or.inr ⟨by rw [State.file, hnone]; rfl,
            fun hl => by simp [hl.1] at hgone⟩
    · refine live_mono ht.before ht.after (ht.evicted j)
        (fun r' hr' hrun => ?_) hproceeds
      rcases ht.records j r' hr' with ⟨r, hr, hstop⟩ | hline
      · exact Or.inl ⟨r, hr, hstop ▸ hrun⟩
      · exact Or.inr (hline ▸ List.mem_cons_self)
    · rw [State.lost, ht.producers, ← State.lost]

theorem Turn.task {w : Worker} {t : State} {task : Task}
    (hw : s.worker = some w) (howner : ∀ j, SameOwner s t j)
    (hqueue : t.queue = s.queue) (hnext : t.next = s.next)
    (hproducers : t.producers = s.producers) (hdisk : t.disk = s.disk)
    (hevicted : ∀ j, (t.tickets j).state.evicted = (s.tickets j).state.evicted)
    (htask : task.commands = w.task.commands ∨ task.commands = [] ∧
      ∃ c, w.task.commands = [c] ∧ ∀ j sd, c.bytes j sd = []) :
    Turn s (t.setWorker { w with task }) w { w with task } where
  before := hw
  after := rfl
  next := hnext
  producers := hproducers
  owner j := (howner j).trans (.setWorker t _ j)
  line := by
    have hline : (t.setWorker { w with task }).line =
        task.commands ++ s.queue := by
      rw [line_eq (s := t.setWorker { w with task }) rfl]
      exact congrArg _ hqueue
    rw [hline, line_eq hw]
    rcases htask with hsame | ⟨hnil, c, hc, hbytes⟩
    · exact Or.inl (by rw [hsame])
    · exact Or.inr ⟨c, by rw [hc, hnil]; rfl, hbytes⟩
  disk j := by
    change Removed (s.disk j) (t.disk j)
    rw [hdisk]
    exact removed_refl _
  kept j := Or.inl (congrFun hdisk j)
  evicted j hj := (hevicted j).trans hj
  ready j hj := Or.inl ((hevicted j).symm.trans hj)
  records j r' hr' := Or.inl ⟨r', hr', rfl⟩

structure Pass (s s' : State) (w w' : Worker) (id : Nat) (side : Direction)
    (bytes : Bytes) : Prop where
  before : s.worker = some w
  commands : w.task.commands = [.append id side bytes]
  after : s'.worker = some w'
  task : w'.task = .settle id
  queue : s'.queue = s.queue
  next : s'.next = s.next
  owner : ∀ j, SameOwner s s' j
  producers : ∀ j, j ≠ id → s'.producers j = s.producers j
  disk : ∀ j sd, ¬(j = id ∧ sd = side) → (s'.disk j).get sd = (s.disk j).get sd
  evicted : ∀ j, (s'.tickets j).state.evicted = (s.tickets j).state.evicted
  records : ∀ j r', w'.records.get? j = some r' →
    ∃ r, w.records.get? j = some r ∧ (r'.stopped = false → r.stopped = false)

theorem Pass.line {w w' : Worker} {bytes : Bytes}
    (hp : Pass s s' w w' id side bytes) :
    s.line = .append id side bytes :: s'.line := by
  rw [line_eq hp.before, line_eq hp.after, hp.commands, hp.task, hp.queue]
  rfl

theorem Pass.live {w w' : Worker} {bytes : Bytes}
    (hp : Pass s s' w w' id side bytes) {j : Nat} (hl : s'.Live j) :
    s.Live j := by
  refine live_mono hp.before hp.after (fun hj => (hp.evicted j).trans hj)
    (fun r' hr' hrun => ?_) (Or.inr ⟨_, hp.line⟩) hl
  obtain ⟨r, hr, hstop⟩ := hp.records j r' hr'
  exact Or.inl ⟨r, hr, hstop hrun⟩

theorem FlowInv.pass {w w' : Worker} {bytes : Bytes} (h : FlowInv s)
    (hp : Pass s s' w w' id side bytes)
    (hkeep : KeepsReady s.tickets s'.tickets)
    (hother : s'.lost id side.other = s.lost id side.other)
    (hfile : s'.file id side = s.file id side ∨
      s.Live id ∧ ∃ n, s'.file id side = s.file id side ++ bytes.take n)
    (hlive : s'.Live id → s'.file id side = s.file id side ++ bytes)
    (hlost : s'.lost id side = s.lost id side ∨
      ∃ k, s'.lost id side = (s.lost id side <|> some k) ∧
        (s'.file id side).length ≤ k ∧ ¬s'.Live id) : FlowInv s' := by
  have hproceeds : Proceeds s s' := Or.inr ⟨_, hp.line⟩
  have htouched : Touched s s' id := ⟨_, hp.line, rfl⟩
  refine ⟨h.line.proceed hproceeds hp.next (fun j hj => ?_) (fun j => ?_)
    (fun w'' hw'' j hj => ?_) hkeep (fun j hj => Or.inl (hp.evicted j ▸ hj))
    (fun w'' hw'' j hj => ?_), fun j sd => ?_⟩
  · have hlt := (h.line.touched htouched).1
    exact hp.producers j (by omega)
  · by_cases hj : j = id
    · exact Or.inr (hj ▸ htouched)
    · exact Or.inl fun sd => Or.inl (hp.disk j sd fun hand => hj hand.1)
  · rw [hp.after] at hw''
    cases hw''
    obtain ⟨r', hr'⟩ := Option.isSome_iff_exists.1 (Table.contains_iff.2 hj)
    obtain ⟨r, hr, -⟩ := hp.records j r' hr'
    exact Or.inr ⟨w, hp.before, Table.mem_keys_of_get? hr⟩
  · rw [hp.after] at hw''
    cases hw''
    rw [hp.task] at hj
    cases hj
  · by_cases hhere : j = id ∧ sd = side
    · obtain ⟨rfl, rfl⟩ := hhere
      refine (h.side j sd).passed ((hp.owner j).onSide sd) ?_ hfile
        (fun hl => ⟨hp.live hl, hlive hl⟩) hlost
      rw [waiting_cons hp.line, Command.bytes, if_pos ⟨rfl, rfl⟩]
    · refine (h.side j sd).frame ((hp.owner j).onSide sd) ?_ ?_ hp.live ?_
      · rw [waiting_cons hp.line, Command.bytes,
          if_neg fun hand => hhere ⟨hand.1.symm, hand.2.symm⟩, List.nil_append]
      · exact Or.inl (by rw [State.file, hp.disk j sd hhere, ← State.file])
      · by_cases hj : j = id
        · subst hj
          have hsd : sd = side.other := by
            cases sd <;> cases side <;> simp_all [Direction.other]
          rw [hsd]
          exact hother
        · rw [State.lost, hp.producers j hj, ← State.lost]

end Frames

/-! ## Steps of the worker -/

section Worker

variable {config : CacheConfig} {s t : State} {w w' : Worker} {id : Nat}
  {side : Direction} {bytes : Bytes}

theorem SameOwner.refl (s : State) (j : Nat) : SameOwner s s j :=
  ⟨rfl, rfl, rfl, rfl, rfl, fun h => h⟩

theorem FlowInv.task (h : FlowInv s) (hw : s.worker = some w) {task : Task}
    (htask : task.commands = w.task.commands ∨ task.commands = [] ∧
      ∃ c, w.task.commands = [c] ∧ ∀ j sd, c.bytes j sd = [])
    (hbusy : ∀ j, task.appending = some j →
      ∃ r, w.records.get? j = some r ∧ r.stopped = false) :
    FlowInv (s.setWorker { w with task }) :=
  h.turn (Turn.task hw (.refl s) rfl rfl rfl rfl (fun _ => rfl) htask)
    (Quiet.setWorker s _).keepsReady hbusy

theorem appending_scan (job : Job) (todo ready : List Nat)
    (best : Option (Nat × Nat)) :
    (Task.scan job todo best ready).appending = (Task.commit job).appending := by
  cases job <;> rfl

theorem appending_evict (job : Job) (victim : Nat) (ready : List Nat) :
    (Task.evict job victim ready).appending = (Task.commit job).appending := by
  cases job <;> rfl

theorem appending_resume (job : Job) :
    job.resume.appending = (Task.commit job).appending := by
  cases job <;> rfl

theorem commands_resume (job : Job) : job.resume.commands = [job.command] := by
  cases job <;> rfl

theorem startScan_flow (h : FlowInv s) (hw : s.worker = some w) {job : Job}
    (htask : w.task.commands = [job.command])
    (hbusy : ∀ j, (Task.commit job).appending = some j →
      ∃ r, w.records.get? j = some r ∧ r.stopped = false) :
    FlowInv (s.startScan w job) := by
  refine h.task hw (Or.inl htask.symm) fun j hj => hbusy j ?_
  rwa [appending_scan] at hj

theorem register_flow (h : FlowInv s) (hw : s.worker = some w)
    (htask : w.task = .received (.register id)) :
    FlowInv (s.register config w id) := by
  have hcommands : w.task.commands = [.register id] := by
    rw [htask]
    rfl
  unfold State.register
  split
  · exact h.task hw (Or.inr ⟨rfl, _, hcommands, fun _ _ => rfl⟩) nofun
  · split
    · exact startScan_flow h hw hcommands nofun
    · exact h.task hw (Or.inl hcommands.symm) nofun

theorem FlowInv.leave (h : FlowInv s) (hw : s.worker = some w) {c : Command}
    (hcommands : w.task.commands = [c]) (hbytes : ∀ j sd, c.bytes j sd = [])
    (hidle : w'.task = .idle)
    (hrecords : ∀ j r', w'.records.get? j = some r' →
      (∃ r, w.records.get? j = some r ∧ r'.stopped = r.stopped) ∨
        c = .register j) : FlowInv (s.setWorker w') := by
  have hline : s.line = c :: (s.setWorker w').line := by
    rw [line_eq hw, line_eq (s := s.setWorker w') rfl, hcommands, hidle]
    rfl
  have hturn : Turn s (s.setWorker w') w w' := by
    refine ⟨hw, rfl, rfl, rfl, .setWorker s _, Or.inr ⟨c, hline, hbytes⟩,
      fun _ => removed_refl _, fun _ => Or.inl rfl, fun _ hj => hj,
      fun _ hj => Or.inl hj, fun j r' hr' => ?_⟩
    rcases hrecords j r' hr' with hold | rfl
    · exact Or.inl hold
    · exact Or.inr hline
  refine h.turn hturn (Quiet.setWorker s _).keepsReady fun j hj => ?_
  rw [hidle] at hj
  cases hj

theorem insertRecord_flow (h : FlowInv s) (hw : s.worker = some w)
    (htask : w.task = .commit (.register id)) :
    FlowInv (s.insertRecord w id) := by
  refine h.leave hw (c := .register id) (by rw [htask]; rfl) (fun _ _ => rfl)
    rfl fun j r' hr' => ?_
  change (w.records.insert id .new).get? j = some r' at hr'
  rw [Table.get?_insert] at hr'
  split at hr'
  case isTrue hj => exact Or.inr (hj ▸ rfl)
  case isFalse => exact Or.inl ⟨r', hr', rfl⟩

theorem lose_lost (s : State) (id : Nat) (side : Direction) (place : Nat) :
    (s.lose id side place).lost id side = (s.lost id side <|> some place) := by
  simp [State.lose, State.lost, State.modifyProducer, Sides.modify]

theorem lose_lost_other (s : State) (id : Nat) (side : Direction)
    (place : Nat) : (s.lose id side place).lost id side.other =
      s.lost id side.other := by
  cases side <;> simp [State.lose, State.lost, State.modifyProducer,
    Sides.modify, Sides.set, Sides.get, Direction.other]

theorem lose_producers_ne (s : State) (side : Direction) (place : Nat)
    {j : Nat} (hj : j ≠ id) :
    (s.lose id side place).producers j = s.producers j := by
  simp [State.lose, State.modifyProducer, alter, hj]

structure Near (s t : State) (w w' : Worker) (id : Nat) (side : Direction) :
    Prop where
  worker : t.worker = s.worker
  queue : t.queue = s.queue
  next : t.next = s.next
  producers : t.producers = s.producers
  quiet : Quiet s t
  owner : ∀ j, SameOwner s t j
  disk : ∀ j sd, ¬(j = id ∧ sd = side) → (t.disk j).get sd = (s.disk j).get sd
  evicted : ∀ j, (t.tickets j).state.evicted = (s.tickets j).state.evicted
  records : ∀ j r', w'.records.get? j = some r' →
    ∃ r, w.records.get? j = some r ∧ r'.stopped = r.stopped

theorem Near.refl (s : State) (w : Worker) (id : Nat) (side : Direction) :
    Near s s w w id side :=
  ⟨rfl, rfl, rfl, rfl, .refl s, .refl s, fun _ _ _ => rfl, fun _ => rfl,
    fun _ r' hr' => ⟨r', hr', rfl⟩⟩

theorem Near.place (hn : Near s t w w' id side) :
    t.place id side = s.place id side := by
  unfold State.place State.waiting State.line
  rw [hn.worker, hn.queue, hn.producers]

theorem Near.settle (hn : Near s t w w' id side) (hw : s.worker = some w)
    (hcommands : w.task.commands = [.append id side bytes]) :
    Pass s (t.settle w' id) w { w' with task := .settle id } id side bytes where
  before := hw
  commands := hcommands
  after := rfl
  task := rfl
  queue := hn.queue
  next := hn.next
  owner j := (hn.owner j).trans (.setWorker t _ j)
  producers j _ := congrFun hn.producers j
  disk := hn.disk
  evicted := hn.evicted
  records j r' hr' := by
    obtain ⟨r, hr, hstop⟩ := hn.records j r' hr'
    exact ⟨r, hr, fun hrun => hstop ▸ hrun⟩

theorem stopRecord_get? {reason : String} {r : Record} (j : Nat)
    (hr : (s.stopRecord w id reason).2.records.get? j = some r) :
    (∃ r₀, w.records.get? j = some r₀ ∧
      (r.stopped = false → r₀.stopped = false)) ∧
      (j = id → r.stopped = true) := by
  unfold State.stopRecord at hr
  split at hr
  case isTrue hmem =>
    rw [Worker.modifyRecord, Table.get?_modify] at hr
    split at hr
    case isTrue hj =>
      obtain ⟨r₀, hr₀, rfl⟩ := Option.map_eq_some_iff.1 hr
      exact ⟨⟨r₀, hr₀, by simp⟩, fun _ => rfl⟩
    case isFalse hj =>
      exact ⟨⟨r, hr, fun hrun => hrun⟩, fun heq => absurd heq hj⟩
  case isFalse hmem =>
    refine ⟨⟨r, hr, fun hrun => hrun⟩, ?_⟩
    rintro rfl
    exact absurd (Table.contains_iff.2 (Table.mem_keys_of_get? hr)) hmem

private theorem stopRecord_evicted (s : State) (w : Worker) (id : Nat)
    (reason : String) (j : Nat) :
    ((s.stopRecord w id reason).1.tickets j).state.evicted =
      (s.tickets j).state.evicted := by
  unfold State.stopRecord
  split
  · simp only [State.stopTicket, State.modifyTicket, alter]
    split <;> rfl
  · rfl

theorem Near.abort (hn : Near s t w w' id side) (hw : s.worker = some w)
    (hcommands : w.task.commands = [.append id side bytes]) (place : Nat)
    (reason : String) :
    Pass s ((t.lose id side place).abort w' id reason) w
      { ((t.lose id side place).stopRecord w' id reason).2 with
        task := .settle id } id side bytes where
  before := hw
  commands := hcommands
  after := rfl
  task := rfl
  queue := (Quiet.stopRecord (t.lose id side place) w' id reason).queue.trans hn.queue
  next := by
    refine Eq.trans ?_ hn.next
    unfold State.abort State.stopRecord
    split <;> rfl
  owner j := (hn.owner j).trans (.trans (.lose t id side place j)
    (.trans (.stopRecord _ w' id reason j) (.setWorker _ _ j)))
  producers j hj := by
    refine Eq.trans ?_ (congrFun hn.producers j)
    rw [← lose_producers_ne t side place hj]
    unfold State.abort State.stopRecord
    split <;> rfl
  disk j sd hne := by
    refine Eq.trans ?_ (hn.disk j sd hne)
    unfold State.abort State.stopRecord
    split <;> rfl
  evicted j := (stopRecord_evicted _ w' id reason j).trans (hn.evicted j)
  records j r' hr' := by
    obtain ⟨⟨r₁, hr₁, hstop₁⟩, -⟩ := stopRecord_get? j hr'
    obtain ⟨r, hr, hstop⟩ := hn.records j r₁ hr₁
    exact ⟨r, hr, fun hrun => hstop ▸ hstop₁ hrun⟩

theorem Near.lost (hn : Near s t w w' id side) (sd : Direction) :
    t.lost id sd = s.lost id sd := by
  rw [State.lost, hn.producers, ← State.lost]

theorem LineInv.dead {s' : State} (h : LineInv s)
    (hp : Pass s s' w w' id side bytes)
    (hstopped : ∀ r, w'.records.get? id = some r → r.stopped = true) :
    ¬s'.Live id := by
  rintro ⟨-, w'', hw'', hlive⟩
  rw [hp.after] at hw''
  cases hw''
  rcases hlive with ⟨r, hr, hrun⟩ | hmem
  · rw [hstopped r hr] at hrun
    cases hrun
  · exact (h.touched ⟨_, hp.line, rfl⟩).2 hmem

theorem FlowInv.abort (h : FlowInv s) (hn : Near s t w w' id side)
    (hw : s.worker = some w)
    (hcommands : w.task.commands = [.append id side bytes]) {place : Nat}
    {reason : String}
    (hfile : t.file id side = s.file id side ∨
      s.Live id ∧ ∃ n, t.file id side = s.file id side ++ bytes.take n)
    (hplace : (t.file id side).length ≤ place) :
    FlowInv ((t.lose id side place).abort w' id reason) := by
  have hp := hn.abort hw hcommands place reason
  have hdead := h.line.dead hp fun r hr => (stopRecord_get? id hr).2 rfl
  have hproducers : ∀ j, ((t.lose id side place).abort w' id reason).lost id j =
      (t.lose id side place).lost id j := fun j => by
    unfold State.abort State.stopRecord
    split <;> rfl
  have hsame : ((t.lose id side place).abort w' id reason).file id side =
      t.file id side := by
    unfold State.abort State.stopRecord
    split <;> rfl
  refine h.pass hp ?_ ?_ (hsame.symm ▸ hfile) (fun hl => absurd hl hdead)
    (Or.inr ⟨place, ?_, hsame.symm ▸ hplace, hdead⟩)
  · exact (hn.quiet.trans ((Quiet.lose t id side place).trans
      ((Quiet.stopRecord _ w' id reason).trans (Quiet.setWorker _ _)))).keepsReady
  · rw [hproducers, lose_lost_other, hn.lost]
  · rw [hproducers, lose_lost, hn.lost]

theorem beginAppend_flow (h : FlowInv s) (hw : s.worker = some w)
    (htask : w.task = .received (.append id side bytes)) :
    FlowInv (s.beginAppend config w id side bytes) := by
  have hcommands : w.task.commands = [.append id side bytes] := by
    rw [htask]
    rfl
  -- an append to a record that is gone or stopped is dropped
  have hdrop : (∀ r, w.records.get? id = some r → r.stopped = true) →
      FlowInv ((s.lose id side (s.place id side)).settle w id) := by
    intro hstopped
    have hp : Pass s ((s.lose id side (s.place id side)).settle w id) w
        { w with task := .settle id } id side bytes :=
      ⟨hw, hcommands, rfl, rfl, rfl, rfl,
        fun j => (SameOwner.lose s id side _ j).trans (.setWorker _ _ j),
        fun j hj => lose_producers_ne s side _ hj, fun _ _ _ => rfl,
        fun _ => rfl, fun _ r hr => ⟨r, hr, fun hrun => hrun⟩⟩
    have hdead := h.line.dead hp hstopped
    exact h.pass hp ((Quiet.lose s id side _).trans
      (Quiet.setWorker _ _)).keepsReady (lose_lost_other s id side _)
      (Or.inl rfl) (fun hl => absurd hl hdead)
      (Or.inr ⟨_, lose_lost s id side _, (h.side id side).place, hdead⟩)
  unfold State.beginAppend
  cases hget : w.records.get? id with
  | none => exact hdrop (by simp [hget])
  | some r =>
    dsimp only
    split
    case isTrue hstopped =>
      refine hdrop fun r' hr' => ?_
      rw [hget] at hr'
      cases hr'
      exact hstopped
    case isFalse hrun =>
      refine h.task hw (Or.inl hcommands.symm) ?_
      rintro j ⟨⟩
      exact ⟨r, hget, by simpa using hrun⟩

theorem makeRoom_flow (h : FlowInv s) (hw : s.worker = some w)
    (ha : Accounted config w) {wanted : Nat}
    (htask : w.task = .room id side bytes wanted) :
    FlowInv (s.makeRoom config w id side bytes wanted) := by
  have hcommands : w.task.commands = [.append id side bytes] := by
    rw [htask]
    rfl
  have hbusy := h.line.busy w hw
  rw [htask] at hbusy
  unfold State.makeRoom
  rw [if_neg (Nat.not_lt.2 ha.total)]
  split
  · exact startScan_flow h hw hcommands hbusy
  · exact h.task hw (Or.inl hcommands.symm) hbusy

theorem scan_flow (h : FlowInv s) (hw : s.worker = some w) {job : Job}
    {todo ready : List Nat} {best : Option (Nat × Nat)}
    (htask : w.task = .scan job todo best ready) :
    FlowInv (s.scan w job todo best ready) := by
  have hcommands : w.task.commands = [job.command] := by
    rw [htask]
    rfl
  have hbusy := h.line.busy w hw
  rw [htask, appending_scan] at hbusy
  cases todo with
  | cons id rest =>
    exact h.task hw (Or.inl hcommands.symm) (by rwa [appending_scan])
  | nil =>
    cases best with
    | some best =>
      exact h.task hw (Or.inl hcommands.symm) (by rwa [appending_evict])
    | none =>
      cases job with
      | append id side bytes wanted =>
        exact h.task hw (Or.inl hcommands.symm) hbusy
      | register id =>
        refine h.turn (Turn.task hw (.stopTicket s id _) rfl rfl rfl rfl
          (fun j => ?_) (Or.inr ⟨rfl, _, hcommands, fun _ _ => rfl⟩))
          ((Quiet.stopTicket s id _).trans
            (Quiet.setWorker _ _)).keepsReady nofun
        simp only [State.stopTicket, State.modifyTicket, alter]
        split <;> rfl

theorem markEvicted_owner (s : State) (victim j : Nat) :
    SameOwner s (s.modifyTicket victim Ticket.markEvicted) j :=
  .modifyTicket s victim (by intro _; rfl) (by intro _ hacc; cases hacc) j

theorem markEvicted_evicted (s : State) (victim j : Nat) :
    ((s.modifyTicket victim Ticket.markEvicted).tickets j).state.evicted =
      if j = victim then true else (s.tickets j).state.evicted := by
  simp only [State.modifyTicket, alter]
  split <;> rfl

theorem Turn.evict {victim : Nat} {files : Sides (Option Bytes)}
    (hw : s.worker = some w) (hready : (s.tickets victim).Ready)
    (hqueue : t.queue = s.queue) (hnext : t.next = s.next)
    (hproducers : t.producers = s.producers) (howner : ∀ j, SameOwner s t j)
    (hfiles : Removed (s.disk victim) files)
    (hdisk : t.disk = alter s.disk victim fun _ => files)
    (hevicted : ∀ j, (t.tickets j).state.evicted =
      if j = victim then true else (s.tickets j).state.evicted)
    (htask : w'.task.commands = w.task.commands)
    (hrecords : ∀ j r', w'.records.get? j = some r' →
      ∃ r, w.records.get? j = some r ∧ r'.stopped = r.stopped) :
    Turn s (t.setWorker w') w w' where
  before := hw
  after := rfl
  next := hnext
  producers := hproducers
  owner j := (howner j).trans (.setWorker t _ j)
  line := by
    refine Or.inl ?_
    rw [line_eq hw, line_eq (s := t.setWorker w') rfl, htask]
    exact congrArg _ hqueue
  disk j := by
    change Removed (s.disk j) (t.disk j)
    rw [hdisk]
    unfold alter
    split
    case isTrue hj => exact hj ▸ hfiles
    case isFalse => exact removed_refl _
  kept j := by
    change t.disk j = s.disk j ∨ (t.tickets j).state.evicted = true
    rw [hevicted, hdisk]
    by_cases hj : j = victim
    · exact Or.inr (if_pos hj)
    · exact Or.inl (alter_ne hj)
  evicted j hj := by
    refine (hevicted j).trans ?_
    split
    · rfl
    · exact hj
  ready j hj := by
    by_cases hid : j = victim
    · exact Or.inr (hid ▸ hready)
    · rw [show ((t.setWorker w').tickets j).state.evicted = _ from hevicted j,
        if_neg hid] at hj
      exact Or.inl hj
  records j r' hr' := Or.inl (hrecords j r' hr')

theorem giveUp_flow (h : FlowInv (t.setWorker w'))
    (htask : t.worker.map (fun w => w.task) = some w'.task) {job : Job}
    (hcommands : w'.task.commands = [job.command]) (reason : String) :
    FlowInv (t.giveUp w' job reason) := by
  have hline : t.line = (t.setWorker w').line := by
    obtain ⟨w₀, hw₀, heq⟩ := Option.map_eq_some_iff.1 htask
    rw [line_eq hw₀, line_eq (s := t.setWorker w') rfl, heq]
    rfl
  cases job with
  | register id =>
    change FlowInv (((t.setWorker w').stopTicket id reason).setWorker
      { w' with task := .idle })
    refine h.turn (Turn.task rfl (.stopTicket _ id reason) rfl rfl rfl rfl
      (fun j => ?_) (Or.inr ⟨rfl, _, hcommands, fun _ _ => rfl⟩))
      ((Quiet.stopTicket _ id reason).trans (Quiet.setWorker _ _)).keepsReady nofun
    simp only [State.stopTicket, State.modifyTicket, alter]
    split <;> rfl
  | append id side bytes wanted =>
    have hplace : t.place id side = (t.setWorker w').place id side := by
      unfold State.place State.waiting
      rw [hline]
      rfl
    have hgive : t.giveUp w' (.append id side bytes wanted) reason =
        ((t.setWorker w').lose id side
          ((t.setWorker w').place id side)).abort w' id reason := by
      rw [← hplace]
      change (t.lose id side (t.place id side)).abort w' id reason = _
      unfold State.abort State.stopRecord
      split <;> rfl
    rw [hgive]
    exact h.abort (.refl _ w' id side) rfl hcommands (Or.inl rfl)
      (h.side id side).place

theorem evictFor_flow (h : FlowInv s) (hevict : EvictInv config s)
    (hw : s.worker = some w) {job : Job} {victim : Nat} {ready : List Nat}
    (htask : w.task = .evict job victim ready) (io : Io) :
    FlowInv (s.evictFor config w job victim io) := by
  have ha := hevict.quota.accounted w hw
  have hsafe := hevict.task w hw
  rw [htask] at hsafe
  obtain ⟨-, hchosen⟩ := hsafe
  have hready := hchosen.isReady
  have hcommands : w.task.commands = [job.command] := by
    rw [htask]
    rfl
  have hbusy := h.line.busy w hw
  obtain ⟨r, hget⟩ : ∃ r, w.records.get? victim = some r :=
    Option.isSome_iff_exists.1 (Table.contains_iff.2 hchosen.record)
  have hused : r.sum ≤ w.stats.usedBytes :=
    ha.used ▸ Table.measure_le_total Record.sum hget
  have hmark := Quiet.modifyTicket s victim (f := Ticket.markEvicted)
    (fun _ => rfl) fun _ => rfl
  have hrecords : ∀ r', r'.stopped = r.stopped → ∀ j r'',
      (w.modifyRecord victim fun _ => r').records.get? j = some r'' →
      ∃ r, w.records.get? j = some r ∧ r''.stopped = r.stopped := by
    intro r' hstop j r'' hr''
    rw [Worker.modifyRecord, Table.get?_modify] at hr''
    split at hr''
    case isTrue hj =>
      rw [hj, hget] at hr''
      cases hr''
      exact ⟨r, hj ▸ hget, hstop⟩
    case isFalse => exact ⟨r'', hr'', rfl⟩
  have hkept : ∀ r', r'.stopped = r.stopped → ∀ j,
      w.task.appending = some j → ∃ r,
        (w.modifyRecord victim fun _ => r').records.get? j = some r ∧
          r.stopped = false := by
    intro r' hstop j hj
    obtain ⟨r₀, hr₀, hrun⟩ := hbusy j hj
    rw [Worker.modifyRecord, Table.get?_modify, hr₀]
    split
    case isTrue hid =>
      rw [hid, hget] at hr₀
      cases hr₀
      exact ⟨r', rfl, hstop.trans hrun⟩
    case isFalse => exact ⟨r₀, rfl, hrun⟩
  rcases @State.evict_cases config s _ _ _ io hget hused with
    ⟨files, hfiles, heq⟩ | ⟨r', -, hstop, heq⟩ |
      ⟨r', files, -, hstop, hfiles, -, -, -, heq⟩
  · simp only [State.evictFor, heq]
    refine h.turn (Turn.evict hw hready rfl rfl rfl (fun j => ?_) hfiles rfl
      (fun j => ?_) ?_ fun j r' hr' => ?_) ?_ fun j hj => ?_
    · exact (markEvicted_owner s victim j).trans (.trans
        (.modifyTicket _ victim (by intro _; rfl) (by intro _ h; exact h) j)
        (.setDisk _ _ _ j))
    · simp only [State.modifyTicket, State.setDisk, alter]
      split
      · simp [Ticket.snapshot, Ticket.markEvicted]
      · rfl
    · rw [hcommands]
      exact commands_resume job
    · change (w.records.erase victim).get? j = some r' at hr'
      rw [Table.get?_erase] at hr'
      split at hr'
      · cases hr'
      · exact ⟨r', hr', rfl⟩
    · refine (hmark.trans (.trans ?_ (.trans (.setDisk _ _ _)
        (.setWorker _ _)))).keepsReady
      exact Quiet.modifyTicket _ _ (by intro _; rfl) (by intro _; rfl)
    · change job.resume.appending = some j at hj
      rw [appending_resume, ← appending_evict job victim ready, ← htask] at hj
      obtain ⟨r₀, hr₀, hrun⟩ := hbusy j hj
      refine ⟨r₀, ?_, hrun⟩
      change (w.records.erase victim).get? j = some r₀
      rw [Table.get?_erase, if_neg, hr₀]
      -- the victim is not the entry that room is made for
      cases job with
      | register id =>
        rw [htask] at hj
        cases hj
      | append id side bytes wanted =>
        rw [htask] at hj
        cases hj
        exact hevict.job_ne_victim hw htask
  · simp only [State.evictFor, heq]
    have hdisk : s.disk = alter s.disk victim fun _ => s.disk victim := by
      funext j
      unfold alter
      split
      case isTrue hj => exact hj ▸ rfl
      case isFalse => rfl
    have hturn : Turn s ((s.modifyTicket victim Ticket.markEvicted).setWorker
        (w.modifyRecord victim fun _ => r')) w _ :=
      Turn.evict hw hready rfl rfl rfl (markEvicted_owner s victim)
        (removed_refl _) hdisk (markEvicted_evicted s victim) rfl
        (hrecords r' hstop)
    refine giveUp_flow (h.turn hturn (hmark.trans (.setWorker _ _)).keepsReady
      (hkept r' hstop)) ?_ hcommands _
    change s.worker.map _ = _
    rw [hw]
    rfl
  · simp only [State.evictFor, heq]
    have hturn : Turn s (((s.modifyTicket victim Ticket.markEvicted).setDisk
        victim files).setWorker ((w.modifyRecord victim fun _ => r').setUsed
          (w.stats.usedBytes - r.stored.client))) w _ :=
      Turn.evict hw hready rfl rfl rfl
        (fun j => (markEvicted_owner s victim j).trans (.setDisk _ _ _ j))
        hfiles rfl (markEvicted_evicted s victim) rfl (hrecords r' hstop)
    refine giveUp_flow (h.turn hturn (hmark.trans ((Quiet.setDisk _ _ _).trans
      (.setWorker _ _))).keepsReady (hkept r' hstop)) ?_ hcommands _
    change s.worker.map _ = _
    rw [hw]
    rfl

theorem live_of_appending (h : FlowInv s) (hevict : EvictInv config s)
    (hw : s.worker = some w) (hid : w.task.appending = some id)
    (hcommands : w.task.commands = [.append id side bytes])
    (howes : w.task.owes id = w.task.commands.countP (Command.appends id)) :
    s.Live id := by
  refine ⟨?_, w, hw, Or.inl (h.line.busy w hw id hid)⟩
  by_contra htrue
  rw [Bool.not_eq_false] at htrue
  refine hevict.not_ready hw ?_ (h.line.evicted id htrue)
  simp [howes, hcommands, Command.appends]

theorem endAppend_flow (h : FlowInv s) (hn : Near s t w w' id side)
    (hw : s.worker = some w) (hlive : s.Live id)
    (hcommands : w.task.commands = [.append id side bytes]) {keep : Nat}
    (hfile : t.file id side = s.file id side ++ bytes.take keep)
    (wanted : Nat) :
    FlowInv (t.endAppend w' id side bytes wanted keep) := by
  unfold State.endAppend
  split
  case isTrue hcut =>
    refine h.abort hn hw hcommands (Or.inr ⟨hlive, keep, hfile⟩) ?_
    rw [hn.place, (h.side id side).place_live hlive, hfile, List.length_append,
      List.length_take]
    omega
  case isFalse hall =>
    have htake : bytes.take keep = bytes := List.take_of_length_le (by omega)
    have hsame : (t.settle w' id).file id side = t.file id side := rfl
    have hwhole : (t.settle w' id).file id side = s.file id side ++ bytes := by
      rw [hsame, hfile, htake]
    exact h.pass (hn.settle hw hcommands)
      (hn.quiet.trans (Quiet.setWorker t _)).keepsReady (hn.lost _)
      (Or.inr ⟨hlive, keep, hfile⟩) (fun _ => hwhole)
      (Or.inl (hn.lost _))

theorem store_flow (h : FlowInv s) (hevict : EvictInv config s)
    (hw : s.worker = some w) {wanted : Nat}
    (htask : w.task = .commit (.append id side bytes wanted)) (io : Io) :
    FlowInv (s.store config w id side bytes wanted io) := by
  have ha := hevict.quota.accounted w hw
  have hcommands : w.task.commands = [.append id side bytes] := by
    rw [htask]
    rfl
  have hid : w.task.appending = some id := by
    rw [htask]
    rfl
  have hlive : s.Live id :=
    live_of_appending h hevict hw hid hcommands (by rw [htask]; rfl)
  obtain ⟨r, hget, -⟩ := h.line.busy w hw id hid
  unfold State.store
  rw [if_neg (Nat.not_lt.2 ha.total)]
  simp only [hget]
  split
  case isTrue hkeep =>
    rw [hkeep]
    exact endAppend_flow h (.refl s w id side) hw hlive hcommands (by simp) _
  case isFalse hkeep =>
    split
    case isTrue hclosed =>
      exact h.abort (.refl s w id side) hw hcommands (Or.inl rfl)
        (h.side id side).place
    case isFalse hopen =>
      obtain ⟨written, actual, hwrite, -, -, -, hall, -⟩ :=
        write_cases (((s.disk id).get side).getD []) (r.stored.get side)
          w.stats.usedBytes bytes
          (min wanted (config.totalBytes - w.stats.usedBytes)) io
      simp only [hwrite]
      have hnear : ∀ stats, Near s ((s.modifyTicket id fun t =>
          { t with state := { t.state with
            bytes := r.stored.set side actual } }).setDisk id
              ((s.disk id).set side (some (((s.disk id).get side).getD [] ++
                bytes.take written)))) w
          { w with
            records := w.records.modify id fun r' =>
              { r' with
                files := r'.files.set side true
                stored := r.stored.set side actual }
            stats } id side := by
        intro stats
        refine ⟨rfl, rfl, rfl, rfl, ?_, fun j => ?_, fun j sd hne => ?_,
          fun j => ?_, fun j r' hr' => ?_⟩
        · exact (Quiet.modifyTicket s id (by intro _; rfl)
            (by intro _; rfl)).trans (.setDisk _ _ _)
        · exact (SameOwner.modifyTicket s id (by intro _; rfl)
            (by intro _ hacc; exact hacc) j).trans (.setDisk _ _ _ j)
        · simp only [State.setDisk, State.modifyTicket, alter]
          split
          case isTrue hj =>
            rw [Sides.get_set, if_neg fun hsd => hne ⟨hj, hsd⟩, hj]
          case isFalse => rfl
        · simp only [State.setDisk, State.modifyTicket, alter]
          split <;> rfl
        · change (w.records.modify id _).get? j = some r' at hr'
          rw [Table.get?_modify] at hr'
          split at hr'
          case isTrue hj =>
            obtain ⟨r₀, hr₀, rfl⟩ := Option.map_eq_some_iff.1 hr'
            exact ⟨r₀, hr₀, rfl⟩
          case isFalse => exact ⟨r', hr', rfl⟩
      have hfile : State.file ((s.modifyTicket id fun t =>
          { t with state := { t.state with
            bytes := r.stored.set side actual } }).setDisk id
              ((s.disk id).set side (some (((s.disk id).get side).getD [] ++
                bytes.take written)))) id side =
          s.file id side ++ bytes.take written := by
        simp [State.file, State.setDisk, State.modifyTicket]
      split
      case isTrue hfailed =>
        refine h.abort (hnear _) hw hcommands (Or.inr ⟨hlive, written, hfile⟩) ?_
        rw [(hnear w.stats).place, (h.side id side).place_live hlive, hfile]
        simp only [State.file, List.length_append]
        omega
      case isFalse hok =>
        refine endAppend_flow h (hnear _) hw hlive hcommands ?_ _
        rw [hfile, hall (by simpa using hok)]

theorem afterQuery_flow (h : FlowInv s) (hw : s.worker = some w) {q : Query}
    (htask : w.task = .received (.query q)) (io : Io) :
    FlowInv (s.setWorker { s.afterQuery config w q io with task := .idle }) := by
  refine h.leave hw (c := .query q) (by rw [htask]; rfl) (fun _ _ => rfl) rfl
    fun j r' hr' => Or.inl ?_
  change (s.afterQuery config w q io).records.get? j = some r' at hr'
  rcases afterQuery_cases config s w q io with ⟨entries, heq⟩ | ⟨i, files, heq⟩
  · rw [heq] at hr'
    exact ⟨r', hr', rfl⟩
  · rw [heq, Worker.modifyRecord, Table.get?_modify] at hr'
    split at hr'
    case isTrue hj =>
      obtain ⟨r₀, hr₀, rfl⟩ := Option.map_eq_some_iff.1 hr'
      exact ⟨r₀, hr₀, rfl⟩
    case isFalse => exact ⟨r', hr', rfl⟩

theorem countDown_flow (h : FlowInv s) (hevict : EvictInv config s)
    (hw : s.worker = some w) (htask : w.task = .settle id) :
    FlowInv (s.countDown w id) := by
  have howed : (s.tickets id).pending ≠ 0 := by
    rw [hevict.pending, State.underway, hw, Option.map_some, Option.getD_some, htask]
    simp only [Task.owes, if_true]
    omega
  refine h.turn (Turn.task hw (.modifyTicket s id (by intro _; rfl)
    (by intro _ hacc; exact hacc)) rfl rfl rfl rfl (fun j => ?_)
    (Or.inl (by rw [htask]; rfl))) (fun j hready => ?_) (by rintro _ ⟨⟩)
  · simp only [State.modifyTicket, alter]
    split <;> rfl
  · have hne : j ≠ id := fun heq => howed (heq ▸ hready.2)
    change (((s.countDown w id).tickets j).Ready) ∧
      ((s.countDown w id).tickets j).finished = _
    rw [countDown_tickets_ne s w hne]
    exact ⟨hready, rfl⟩

theorem work_flow (h : FlowInv s) (hevict : EvictInv config s) (io : Io) :
    FlowInv (s.work config io) := by
  unfold State.work
  cases hw : s.worker with
  | none => exact h
  | some w =>
    dsimp only
    split
    all_goals rename_i htask
    · exact h
    · exact register_flow h hw htask
    · exact beginAppend_flow h hw htask
    · exact afterQuery_flow h hw htask io
    · exact makeRoom_flow h hw (hevict.quota.accounted w hw) htask
    · exact scan_flow h hw htask
    · exact evictFor_flow h hevict hw htask io
    · exact insertRecord_flow h hw htask
    · exact store_flow h hevict hw htask io
    · exact countDown_flow h hevict hw htask

theorem receive_flow (h : FlowInv s) : FlowInv s.receive := by
  unfold State.receive
  split
  case h_2 => exact h
  case h_1 w c rest hw hqueue =>
    split
    case isFalse => exact h
    case isTrue hidle =>
      have hline : s.line = c :: rest := by
        rw [line_eq hw, hidle, hqueue]
        rfl
      have hturn : Turn s { s with
          worker := some { w with task := .received c }
          queue := rest } w { w with task := .received c } :=
        ⟨hw, rfl, rfl, rfl, fun _ => ⟨rfl, rfl, rfl, rfl, rfl, fun h => h⟩,
          Or.inl hline.symm, fun _ => removed_refl _, fun _ => Or.inl rfl,
          fun _ hj => hj, fun _ hj => Or.inl hj,
          fun _ r' hr' => Or.inl ⟨r', hr', rfl⟩⟩
      exact h.turn hturn (fun _ hready => ⟨hready, rfl⟩) nofun

theorem exit_flow (h : FlowInv s) (io : Io) : FlowInv (s.exit io) := by
  unfold State.exit
  split
  case h_1 => exact h
  case h_2 w hw =>
    split
    case isFalse => exact h
    case isTrue hidle =>
      obtain ⟨htask, hqueue, -⟩ := hidle
      have hline : s.line = [] := by
        rw [line_eq hw, htask, hqueue]
        rfl
      have hremoved : ∀ j, Removed (s.disk j)
          ((if io.cleanup then fun _ => ⟨none, none⟩ else s.disk) j) := by
        intro j
        split
        · exact fun sd => Or.inr (by cases sd <;> rfl)
        · exact removed_refl _
      have hstop : ∀ j, ∀ ticket, ticket = (if w.records.contains j then
          (s.tickets j).stop "cache closed" else s.tickets j) →
          ticket.state.evicted = (s.tickets j).state.evicted ∧
            ticket.info = (s.tickets j).info ∧
            (ticket.accepting = true → (s.tickets j).accepting = true) ∧
            ((s.tickets j).Ready → ticket.Ready ∧
              ticket.finished = (s.tickets j).finished) := by
        rintro j ticket rfl
        split
        · exact ⟨rfl, rfl, nofun, fun hready => ⟨hready, rfl⟩⟩
        · exact ⟨rfl, rfl, fun h => h, fun hready => ⟨hready, rfl⟩⟩
      refine ⟨h.line.proceed (Or.inl ?_) rfl (fun _ _ => rfl)
        (fun j => Or.inl (hremoved j)) nofun
        (fun j => (hstop j _ rfl).2.2.2)
        (fun j hj => Or.inl ((hstop j _ rfl).1 ▸ hj)) nofun, fun j sd => ?_⟩
      · rw [hline]
        exact hqueue
      · have hsame := hstop j _ rfl
        refine (h.side j sd).frame ⟨rfl, rfl, rfl, rfl, ?_, hsame.2.2.1⟩
          (waiting_congr ?_ j sd) ?_ (fun hl => ?_) rfl
        · exact congrArg (Sides.get · sd) hsame.2.1
        · rw [hline]
          exact hqueue
        · rcases hremoved j sd with heq | hnone
          · exact Or.inl (by rw [State.file, heq, ← State.file])
          · exact Or.inr ⟨by rw [State.file, hnone]; rfl, fun hl => by
              obtain ⟨-, w', hw', -⟩ := hl
              cases hw'⟩
        · obtain ⟨-, w', hw', -⟩ := hl
          cases hw'

end Worker

end ProxyLane.Cache
