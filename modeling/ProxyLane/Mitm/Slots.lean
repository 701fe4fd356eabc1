import ProxyLane.Mitm.Capture
import ProxyLane.Mitm.Replay

/-!
# Capture slots

A tap that is admitted takes a place among the active streams, and a parser
slot unless it needs none or none is free.  Both are given back once: when the
admission fails, or when the worker reaps the stream.
-/

namespace ProxyLane.Mitm

open ProxyLane.Foundation ProxyLane.Protocol

variable {η σ ρ : Type}

/-! ## Accounts -/

structure SlotState where
  active : Int
  parsers : Int
  unreaped : List Nat
  slot : Nat → Bool
  next : Nat
  gone : List Nat

inductive SlotStep (limit : Nat) (s s' : SlotState) : Prop where
  | keep (hactive : s'.active = s.active) (hparsers : s'.parsers = s.parsers)
      (hunreaped : s'.unreaped.Perm s.unreaped) (hslot : s'.slot = s.slot)
      (hnext : s'.next = s.next) (hgone : s'.gone = s.gone)
  | admission (slot : Bool) (hactive : s'.active = s.active + 1)
      (hparsers : s'.parsers = if slot then s.parsers + 1 else s.parsers)
      (hfree : slot → s.parsers < limit)
      (hunreaped : s'.unreaped.Perm (s.next :: s.unreaped))
      (hslot : s'.slot = alter s.slot s.next fun _ => slot)
      (hnext : s'.next = s.next + 1) (hgone : s'.gone = s.gone)
  | release (id : Nat) (hactive : s'.active = s.active - 1)
      (hparsers : s'.parsers = if s.slot id then s.parsers - 1 else s.parsers)
      (hunreaped : s.unreaped.Perm (id :: s'.unreaped)) (hslot : s'.slot = s.slot)
      (hnext : s'.next = s.next) (hgone : s'.gone.Perm (id :: s.gone))
  | promote (id : Nat) (hactive : s'.active = s.active)
      (hparsers : s'.parsers = s.parsers + 1) (hfree : s.parsers < limit)
      (hmem : id ∈ s.unreaped) (hnone : s.slot id = false)
      (hunreaped : s'.unreaped.Perm s.unreaped)
      (hslot : s'.slot = alter s.slot id fun _ => true)
      (hnext : s'.next = s.next) (hgone : s'.gone = s.gone)

structure SlotState.Counted (limit : Nat) (s : SlotState) : Prop where
  active : s.active = s.unreaped.length
  parsers : s.parsers = s.unreaped.countP s.slot
  parsers_le : s.parsers ≤ limit
  next_pos : 0 < s.next
  all : (s.unreaped ++ s.gone).Perm (List.range' 1 (s.next - 1))

namespace SlotState

variable {limit : Nat}

theorem Counted.nodup {s : SlotState} (h : s.Counted limit) :
    (s.unreaped ++ s.gone).Nodup :=
  h.all.nodup_iff.mpr List.nodup_range'

theorem Counted.lt_next {s : SlotState} (h : s.Counted limit)
    {id : Nat} (hid : id ∈ s.unreaped) : id < s.next := by
  have hmem : id ∈ List.range' 1 (s.next - 1) :=
    h.all.mem_iff.mp (List.mem_append_left _ hid)
  simp only [List.mem_range'_1] at hmem
  omega

theorem countP_alter_of_notMem {slot : Nat → Bool} {id : Nat} {b : Bool}
    {ids : List Nat} (h : id ∉ ids) :
    ids.countP (alter slot id fun _ => b) = ids.countP slot := by
  apply List.countP_congr
  intro j hj
  have hne : j ≠ id := by
    rintro rfl
    exact h hj
  rw [alter_ne hne]

theorem countP_alter_true {slot : Nat → Bool} {id : Nat} {ids : List Nat}
    (hnodup : ids.Nodup) (hmem : id ∈ ids) (hnone : slot id = false) :
    ids.countP (alter slot id fun _ => true) = ids.countP slot + 1 := by
  induction ids with
  | nil => simp at hmem
  | cons j ids ih =>
    simp only [List.nodup_cons] at hnodup
    by_cases hj : j = id
    · subst hj
      simp [countP_alter_of_notMem hnodup.1, hnone]
    · have hrest : id ∈ ids := by
        simpa [Ne.symm hj] using hmem
      simp only [List.countP_cons, ih hnodup.2 hrest, alter_ne hj]
      omega

theorem Counted.keep {s s' : SlotState} (h : s.Counted limit)
    (hactive : s'.active = s.active) (hparsers : s'.parsers = s.parsers)
    (hunreaped : s'.unreaped.Perm s.unreaped) (hslot : s'.slot = s.slot)
    (hnext : s'.next = s.next) (hgone : s'.gone = s.gone) :
    s'.Counted limit := by
  constructor
  · rw [hactive, h.active, hunreaped.length_eq]
  · rw [hparsers, h.parsers, hslot, hunreaped.countP_eq]
  · rw [hparsers]
    exact h.parsers_le
  · rw [hnext]
    exact h.next_pos
  · rw [hgone, hnext]
    exact (hunreaped.append_right _).trans h.all

theorem Counted.admission {s s' : SlotState} (h : s.Counted limit)
    {slot : Bool} (hactive : s'.active = s.active + 1)
    (hparsers : s'.parsers = if slot then s.parsers + 1 else s.parsers)
    (hfree : slot → s.parsers < limit)
    (hunreaped : s'.unreaped.Perm (s.next :: s.unreaped))
    (hslot : s'.slot = alter s.slot s.next fun _ => slot)
    (hnext : s'.next = s.next + 1) (hgone : s'.gone = s.gone) :
    s'.Counted limit := by
  have hfresh : s.next ∉ s.unreaped := by
    intro hmem
    have hlt := h.lt_next hmem
    omega
  have hpos := h.next_pos
  have hle := h.parsers_le
  constructor
  · rw [hactive, h.active, hunreaped.length_eq]
    simp
  · rw [hparsers, hslot, hunreaped.countP_eq, List.countP_cons,
      countP_alter_of_notMem hfresh, h.parsers]
    cases slot <;> simp
  · rw [hparsers]
    cases slot with
    | false => simpa using hle
    | true =>
      have hlt := hfree rfl
      simp only [if_true]
      omega
  · omega
  · have hrange : List.range' 1 (s'.next - 1) =
        List.range' 1 (s.next - 1) ++ [s.next] := by
      have hcount : s'.next - 1 = s.next - 1 + 1 := by omega
      rw [hcount, List.range'_concat]
      congr 2
      omega
    rw [hgone, hrange]
    calc (s'.unreaped ++ s.gone).Perm (s.next :: (s.unreaped ++ s.gone)) :=
          hunreaped.append_right _
      _ |>.Perm (s.next :: List.range' 1 (s.next - 1)) := h.all.cons _
      _ |>.Perm (List.range' 1 (s.next - 1) ++ [s.next]) :=
          (List.perm_append_singleton _ _).symm

theorem Counted.release {s s' : SlotState} (h : s.Counted limit)
    {id : Nat} (hactive : s'.active = s.active - 1)
    (hparsers : s'.parsers = if s.slot id then s.parsers - 1 else s.parsers)
    (hunreaped : s.unreaped.Perm (id :: s'.unreaped)) (hslot : s'.slot = s.slot)
    (hnext : s'.next = s.next) (hgone : s'.gone.Perm (id :: s.gone)) :
    s'.Counted limit := by
  have hle := h.parsers_le
  constructor
  · rw [hactive, h.active, hunreaped.length_eq]
    simp
  · rw [hparsers, h.parsers, hslot, hunreaped.countP_eq, List.countP_cons]
    split <;> simp
  · rw [hparsers]
    split <;> omega
  · rw [hnext]
    exact h.next_pos
  · rw [hnext]
    calc (s'.unreaped ++ s'.gone).Perm (s'.unreaped ++ (id :: s.gone)) :=
          hgone.append_left _
      _ |>.Perm (id :: (s'.unreaped ++ s.gone)) := List.perm_middle
      _ |>.Perm (s.unreaped ++ s.gone) := (hunreaped.append_right s.gone).symm
      _ |>.Perm (List.range' 1 (s.next - 1)) := h.all

theorem Counted.promote {s s' : SlotState} (h : s.Counted limit) {id : Nat}
    (hactive : s'.active = s.active) (hparsers : s'.parsers = s.parsers + 1)
    (hfree : s.parsers < limit) (hmem : id ∈ s.unreaped) (hnone : s.slot id = false)
    (hunreaped : s'.unreaped.Perm s.unreaped)
    (hslot : s'.slot = alter s.slot id fun _ => true) (hnext : s'.next = s.next)
    (hgone : s'.gone = s.gone) :
    s'.Counted limit := by
  have hnodup : s.unreaped.Nodup := (List.nodup_append.mp h.nodup).1
  constructor
  · rw [hactive, h.active, hunreaped.length_eq]
  · rw [hparsers, hslot, hunreaped.countP_eq,
      countP_alter_true hnodup hmem hnone, h.parsers]
    simp
  · rw [hparsers]
    omega
  · rw [hnext]
    exact h.next_pos
  · rw [hgone, hnext]
    exact (hunreaped.append_right _).trans h.all

theorem Counted.step {s s' : SlotState} (h : s.Counted limit)
    (hstep : SlotStep limit s s') : s'.Counted limit := by
  cases hstep with
  | keep hactive hparsers hunreaped hslot hnext hgone =>
    exact h.keep hactive hparsers hunreaped hslot hnext hgone
  | admission slot hactive hparsers hfree hunreaped hslot hnext hgone =>
    exact h.admission hactive hparsers hfree hunreaped hslot hnext hgone
  | release id hactive hparsers hunreaped hslot hnext hgone =>
    exact h.release hactive hparsers hunreaped hslot hnext hgone
  | promote id hactive hparsers hfree hmem hnone hunreaped hslot hnext hgone =>
    exact h.promote hactive hparsers hfree hmem hnone hunreaped hslot hnext hgone

end SlotState

/-! ## The accounts of a runtime -/

namespace Runtime

def openedId : CaptureEvent η → Option Nat
  | .opened id _ => some id
  | _ => none

def admitting : Option (Holder η) → List Nat
  | some (.admission id _) => [id]
  | _ => []

@[simp] theorem admitting_none : admitting (none : Option (Holder η)) = [] := rfl

@[simp] theorem admitting_send (id : Nat) (sending : Sending η)
    (counted : Bool) : admitting (some (.send id sending counted)) = [] := rfl

@[simp] theorem admitting_admit (id : Nat) (identity : Identity) :
    admitting (some (.admission id identity : Holder η)) = [id] := rfl

def unreaped (s : Runtime η σ ρ) : List Nat :=
  admitting s.holder ++ s.queue.filterMap openedId ++ s.connections.keys

def slotHolders (s : Runtime η σ ρ) : List Nat :=
  s.unreaped.filter fun id => (s.tickets id).parserSlot

def slots (s : Runtime η σ ρ) : SlotState where
  active := s.active
  parsers := s.parsers
  unreaped := s.unreaped
  slot id := (s.tickets id).parserSlot
  next := s.next
  gone := s.refused ++ s.reaped

def DeferredWait (s : Runtime η σ ρ) : Prop :=
  ∀ id stream, s.connections.get? id = some stream → stream.deferred = true →
    (s.tickets id).parserSlot = false

section Frame

variable (s : Runtime η σ ρ) (id : Nat)

@[simp] theorem slots_tap (f : Tap η → Tap η) : (s.tap id f).slots = s.slots := rfl

@[simp] theorem slots_publish (origin : Origin) (records : List ρ) :
    (s.publish origin records).slots = s.slots := rfl

@[simp] theorem slots_failRecording (c : CaptureConfig) :
    (s.failRecording c).slots = s.slots := rfl

theorem slots_ticket {f : Ticket → Ticket}
    (hf : ∀ t, (f t).parserSlot = t.parserSlot) :
    (s.ticket id f).slots = s.slots := by
  have hslot : (fun j => (alter s.tickets id f j).parserSlot) =
      fun j => (s.tickets j).parserSlot := by
    funext j
    by_cases hj : j = id
    · simp [hj, hf]
    · rw [alter_ne hj]
  simp only [slots, ticket, hslot]
  rfl

@[simp] theorem slots_pend (n : Int) : (s.pend id n).slots = s.slots := by
  apply slots_ticket
  simp

theorem slots_holder {holder : Option (Holder η)}
    (h : admitting holder = admitting s.holder) :
    { s with holder := holder }.slots = s.slots := by
  simp only [slots, unreaped, h]

theorem slots_push {e : CaptureEvent η} (h : openedId e = none) :
    (s.push e).slots = s.slots := by
  simp [slots, unreaped, push, h]

theorem slots_counted (sending : Sending η) :
    (s.counted id sending).slots = s.slots := by
  cases sending <;> rfl

@[simp] theorem openedId_eventOf (sending : Sending η) :
    openedId (eventOf id sending) = none := by
  cases sending <;> rfl

end Frame

structure Balanced (c : CaptureConfig) (s : Runtime η σ ρ) : Prop where
  counted : s.slots.Counted c.connections
  waits : s.DeferredWait

section Steps

variable {c : CaptureConfig} {a : Analysis η σ ρ} {s s' : Runtime η σ ρ}

theorem initial_balanced : Balanced c (initial : Runtime η σ ρ) := by
  constructor
  · constructor <;> simp [slots, unreaped, initial, admitting]
  · intro id stream hget
    simp [initial] at hget

theorem Balanced.congr (h : Balanced c s) (hslots : s'.slots = s.slots)
    (hconnections : s'.connections = s.connections) : Balanced c s' := by
  constructor
  · rw [hslots]
    exact h.counted
  · intro id stream hget hdeferred
    rw [hconnections] at hget
    have hslot : (s'.tickets id).parserSlot = (s.tickets id).parserSlot :=
      congrFun (congrArg SlotState.slot hslots) id
    rw [hslot]
    exact h.waits id stream hget hdeferred

theorem keys_insert_perm_of_mem {t : Table (CaptureStream σ)} {id : Nat}
    (stream : CaptureStream σ) (h : id ∈ t.keys) :
    (t.insert id stream).keys.Perm t.keys := by
  apply (List.perm_ext_iff_of_nodup (t.insert id stream).nodup_keys t.nodup_keys).mpr
  intro j
  rw [Table.mem_keys_insert]
  constructor
  · rintro (rfl | hj)
    · exact h
    · exact hj
  · exact Or.inr

theorem Balanced.store (h : Balanced c s) {id : Nat}
    {old stream : CaptureStream σ} (hold : s.connections.get? id = some old)
    (hdeferred : stream.deferred = true → old.deferred = true) :
    Balanced c (s.store id stream) := by
  constructor
  · apply h.counted.step
    apply SlotStep.keep
    case hunreaped =>
      apply List.Perm.append_left
      exact keys_insert_perm_of_mem stream (Table.mem_keys_of_get? hold)
    all_goals rfl
  · intro j other hget hother
    simp only [Runtime.store, Table.get?_insert] at hget
    split at hget
    case isTrue hj =>
      injection hget with hget
      subst hget hj
      exact h.waits j old hold (hdeferred hother)
    case isFalse => exact h.waits j other hget hother

/-! ## Taps -/

theorem tapAt_balanced (h : Balanced c s) (epoch : Nat) (identity : Identity) :
    Balanced c (s.tapAt c epoch identity) := by
  unfold tapAt
  dsimp only
  split
  case isTrue => exact h
  case isFalse hholder =>
    have hnone : s.holder = none := by
      simpa using hholder
    split
    case isTrue => exact h
    case isFalse =>
      split
      case isTrue => exact h.congr rfl rfl
      case isFalse =>
        split
        case isTrue => exact h.congr rfl rfl
        case isFalse =>
          constructor
          · apply h.counted.step
            apply SlotStep.admission
              (!(identity.isH3 || identity.rawQuic) &&
                decide (s.parsers < c.connections))
            case hfree =>
              intro hslot
              simp only [Bool.and_eq_true, decide_eq_true_eq] at hslot
              exact hslot.2
            case hunreaped =>
              simp [slots, unreaped, hnone]
            case hslot =>
              funext j
              by_cases hj : j = s.next
              · simp [slots, hj, newTicket]
              · simp [slots, alter_ne hj]
            all_goals rfl
          · intro j stream hget hdeferred
            have hmem : j ∈ s.unreaped := by
              simp [unreaped, Table.mem_keys_of_get? hget]
            have hlt : j < s.next := h.counted.lt_next hmem
            have hne : j ≠ s.next := by omega
            simp only [alter_ne hne]
            exact h.waits j stream hget hdeferred

theorem refuse_balanced (h : Balanced c s) {id : Nat} {identity : Identity}
    (hholder : s.holder = some (.admission id identity)) :
    Balanced c (s.refuse id) := by
  constructor
  · apply h.counted.step
    apply SlotStep.release id
    case hunreaped => simp [slots, unreaped, refuse, free, hholder]
    case hgone =>
      simp only [slots, refuse, free, List.append_assoc]
      exact List.perm_middle
    all_goals rfl
  · exact h.waits

theorem Balanced.free (h : Balanced c s) (hholder : admitting s.holder = []) :
    Balanced c s.free :=
  h.congr (slots_holder s (by simp [hholder])) rfl

theorem Balanced.count (h : Balanced c s) (id : Nat) (sending : Sending η) :
    Balanced c (s.counted id sending) :=
  h.congr (slots_counted s id sending) (by cases sending <;> rfl)

theorem Balanced.tap (h : Balanced c s) (id : Nat) (f : Tap η → Tap η) :
    Balanced c (s.tap id f) :=
  h.congr (slots_tap s id f) rfl

theorem Balanced.fail (h : Balanced c s) : Balanced c (s.failRecording c) :=
  h.congr (slots_failRecording s c) rfl

theorem Balanced.lose (h : Balanced c s) (id : Nat) :
    Balanced c (s.ticket id fun t => { t with lost := true }) :=
  h.congr (slots_ticket s id (by simp)) rfl

theorem Balanced.pend (h : Balanced c s) (id : Nat) (n : Int) :
    Balanced c (s.pend id n) :=
  h.congr (slots_pend s id n) rfl

variable {e : CaptureEvent η}

theorem Balanced.push (h : Balanced c s)
    (he : openedId e = none) : Balanced c (s.push e) :=
  h.congr (slots_push s he) rfl

theorem proceed_balanced (h : Balanced c s) (id : Nat) (sending : Sending η)
    (hholder : admitting s.holder = []) : Balanced c (s.proceed id sending) := by
  unfold proceed
  split
  · apply h.congr
    · rw [slots_pend, slots_holder]
      simp [hholder]
    · rfl
  · exact h.free hholder
  · exact h.free hholder

theorem seize_balanced (h : Balanced c s) (id : Nat) (sending : Sending η)
    (counted : Bool) (hholder : s.holder = none) :
    Balanced c (s.seize id sending counted) := by
  unfold seize
  split
  · apply h.congr
    · rw [slots_pend, slots_holder]
      simp [hholder]
    · rfl
  · exact h

theorem admit_balanced (h : Balanced c s) {id : Nat} {identity : Identity}
    (hholder : s.holder = some (.admission id identity)) :
    Balanced c ((s.push (.opened id identity)).tap id fun t =>
      { t with live := true }).free := by
  constructor
  · apply h.counted.step
    apply SlotStep.keep
    case hunreaped =>
      simp only [slots, unreaped, push, tap, free, hholder, admitting_none,
        admitting_admit, List.filterMap_append, List.nil_append]
      apply List.Perm.append_right
      exact List.perm_append_comm
    all_goals rfl
  · exact h.waits

theorem lose_balanced (h : Balanced c s) (id : Nat) (sending : Sending η)
    (isCounted : Bool) (hholder : admitting s.holder = []) :
    Balanced c (s.lose c id sending isCounted) := by
  have hlost : Balanced c { (s.ticket id fun t =>
      { t with lost := true }).pend id (-1) with
        failed := s.failed || (!s.working && c.recording) } :=
    ((h.lose id).pend id (-1)).congr rfl rfl
  unfold lose
  dsimp only
  split
  · exact (hlost.count id sending).free (by cases sending <;> exact hholder)
  · exact hlost.free hholder

theorem hold_balanced (h : Balanced c s) : Balanced c (s.hold c) := by
  unfold hold
  split
  case h_1 => exact h
  case h_2 id identity hholder =>
    split
    · exact admit_balanced h hholder
    · split
      · exact h
      · split
        · exact refuse_balanced h hholder
        · exact (refuse_balanced h hholder).congr rfl rfl
  case h_3 id sending isCounted hholder =>
    have hadmitting : admitting s.holder = [] := by
      simp [hholder]
    split
    · have hpush : Balanced c (s.push (eventOf id sending)) :=
        h.push (openedId_eventOf id sending)
      dsimp only
      split
      · apply proceed_balanced (hpush.count id sending)
        cases sending <;> exact hadmitting
      · exact hpush.free hadmitting
    · split
      · exact h
      · exact lose_balanced h id sending isCounted hadmitting

theorem data_balanced (h : Balanced c s) (id : Nat) (side : Direction)
    (bytes : Bytes) : Balanced c (s.data id side bytes) := by
  unfold data
  split
  case isTrue => exact h
  case isFalse hfree =>
    have hholder : s.holder = none := by
      simp only [Bool.or_eq_true, not_or, Bool.not_eq_true,
        Option.isSome_eq_false_iff, Option.isNone_iff_eq_none] at hfree
      exact hfree.1.1
    split
    · exact h
    · exact seize_balanced (h.tap id _) _ _ _ hholder

theorem tryData_balanced (h : Balanced c s) (id : Nat) (side : Direction)
    (bytes : Bytes) (contended : Bool) :
    Balanced c (s.tryData c id side bytes contended) := by
  have hgive : Balanced c (s.give id side bytes) := h.tap id _
  unfold tryData
  split
  · exact data_balanced h id side bytes
  · split
    · exact h
    · split
      · exact h
      · split
        · exact hgive
        · split
          · exact hgive.fail
          · split
            · have hpush := (hgive.pend id 1).push (e := .data id side
                ((s.taps id).offsets.get side) bytes) rfl
              exact hpush.tap id _
            · exact h

theorem markEnded_balanced (h : Balanced c s) (id : Nat) (m : Message η) :
    Balanced c (s.markEnded id m) := by
  cases m <;> exact h.congr rfl rfl

theorem send_balanced (h : Balanced c s) (id : Nat) (m : Message η) :
    Balanced c (s.send id m) := by
  unfold send
  split
  case isTrue => exact h
  case isFalse hfree =>
    have hholder : s.holder = none := by
      simp only [Bool.or_eq_true, not_or, Bool.not_eq_true,
        Option.isSome_eq_false_iff, Option.isNone_iff_eq_none] at hfree
      exact hfree.1.1
    apply seize_balanced (markEnded_balanced h id m)
    cases m <;> exact hholder

theorem dataAsync_balanced (h : Balanced c s) (id : Nat) (side : Direction)
    (bytes : Bytes) : Balanced c (s.dataAsync id side bytes) := by
  unfold dataAsync
  split
  · exact h
  · split
    · exact h
    · exact (h.tap id _).tap id _

theorem sendAsync_balanced (h : Balanced c s) (id : Nat) (m : Message η) :
    Balanced c (s.sendAsync id m) := by
  unfold sendAsync
  split
  · exact h
  · exact (markEnded_balanced h id m).tap id _

theorem settle_balanced (h : Balanced c s) (id k : Nat) (sending : Sending η) :
    Balanced c (s.settle id k sending) :=
  (h.count id sending).tap id _

theorem attempt_balanced (h : Balanced c s) (id k : Nat) (contended : Bool) :
    Balanced c (s.attempt c id k contended) := by
  unfold attempt
  split
  · exact h
  · rename_i sending _
    split
    · exact h
    · split
      · exact settle_balanced h id k sending
      · split
        · apply settle_balanced
          exact (h.pend id 1).push (openedId_eventOf id sending)
        · split
          · split
            · exact h
            · exact settle_balanced h.fail id k sending
          · exact settle_balanced (h.lose id) id k sending

theorem cancel_balanced (h : Balanced c s) (id k : Nat) :
    Balanced c (s.cancel c id k) := by
  unfold cancel
  split
  · exact h
  · split
    case isTrue => exact h
    case isFalse hfree =>
      have hholder : s.holder = none := by
        simp only [Bool.or_eq_true, not_or, Bool.not_eq_true,
          Option.isSome_eq_false_iff, Option.isNone_iff_eq_none] at hfree
        exact hfree.1
      exact seize_balanced (h.tap id _) _ _ _ hholder

theorem dropTap_balanced (h : Balanced c s) (id : Nat) :
    Balanced c (s.dropTap id) := by
  unfold dropTap
  split
  · exact h
  · have hreason : Balanced c (s.closeReason id
        "capture owner released; transport close cause unavailable") :=
      h.congr (slots_ticket s id (by simp)) rfl
    apply hreason.congr
    · rw [slots_tap]
      exact slots_ticket _ id (by simp)
    · rfl

/-! ## The worker -/

theorem openStream_balanced {queue : List (CaptureEvent η)} {id : Nat}
    {identity : Identity} (h : Balanced c s)
    (hqueue : s.queue = .opened id identity :: queue) (todo : List Task) :
    Balanced c ({ s with queue := queue, todo := todo }.openStream c a id
      identity) := by
  have hnodup := h.counted.nodup
  have hfresh : id ∉ s.connections.keys := by
    intro hmem
    simp [slots, unreaped, hqueue, openedId, List.nodup_append, hmem] at hnodup
  constructor
  · apply h.counted.step
    apply SlotStep.keep
    case hunreaped =>
      simp only [slots, unreaped, openStream, publish, Runtime.store, hqueue,
        List.filterMap_cons, openedId, List.append_assoc]
      apply List.Perm.append_left
      exact ((Table.keys_insert_perm hfresh).append_left _).trans List.perm_middle
    all_goals rfl
  · intro j stream hget hdeferred
    simp only [openStream, publish, Runtime.store, Table.get?_insert] at hget
    split at hget
    case isTrue hj =>
      injection hget with hget
      subst hget hj
      simp only [Bool.and_eq_true, limited, Bool.not_eq_true'] at hdeferred
      exact hdeferred.1.1.1
    case isFalse => exact h.waits j stream hget hdeferred

theorem Balanced.pop (h : Balanced c s) {queue : List (CaptureEvent η)}
    (hqueue : s.queue = e :: queue) (he : openedId e = none) (todo : List Task) :
    Balanced c { s with queue := queue, todo := todo } := by
  apply h.congr
  · simp [slots, unreaped, hqueue, he]
  · rfl

theorem take_balanced (h : Balanced c s) {queue : List (CaptureEvent η)}
    (hqueue : s.queue = e :: queue) (todo : List Task) (now : Nat) :
    Balanced c ({ s with queue := queue, todo := todo }.take c a now e) := by
  cases e with
  | opened id identity => exact openStream_balanced h hqueue todo
  | data id side offset bytes =>
    have hpop := h.pop hqueue rfl todo
    apply Balanced.pend
    unfold takeData
    split
    · exact hpop
    · rename_i stream hget
      exact (hpop.store hget (by simp)).congr (slots_publish _ _ _) rfl
  | message id m =>
    have hpop := h.pop hqueue rfl todo
    apply Balanced.pend
    unfold takeMessage
    split
    · exact hpop
    · rename_i stream hget
      exact (hpop.store hget (by simp)).congr (slots_publish _ _ _) rfl
  | barrier => exact h.pop hqueue rfl todo
  | stopCapture call =>
    apply (h.pop hqueue rfl todo).congr
    · have hslot : (fun j => (if s.connections.contains j then
          { s.tickets j with closed := true } else s.tickets j).parserSlot) =
          fun j => (s.tickets j).parserSlot := by
        funext j
        split <;> rfl
      simp only [slots, unreaped, take, closeAll, hslot]
    · rfl
  | shutdown => exact h.pop hqueue rfl todo

theorem replayStream_balanced (h : Balanced c s) (now id : Nat)
    (stream : CaptureStream σ) :
    Balanced c (s.replayStream c a now id stream).1 ∧
      (s.replayStream c a now id stream).1.connections = s.connections ∧
      (s.replayStream c a now id stream).1.tickets = s.tickets ∧
      (s.replayStream c a now id stream).2.deferred = false := by
  unfold replayStream
  dsimp only
  split
  · exact ⟨h.congr rfl rfl, rfl, rfl, rfl⟩
  · exact ⟨h.congr rfl rfl, rfl, rfl, rfl⟩

theorem release_balanced (h : Balanced c s) {id : Nat}
    (hmem : id ∈ s.connections.keys) (records : List ρ) :
    Balanced c (({ s with connections := s.connections.erase id }.publish
      (.tap id) records).releaseSlots id) := by
  constructor
  · apply h.counted.step
    apply SlotStep.release id
    case hunreaped =>
      simp only [slots, unreaped, releaseSlots, publish]
      exact ((Table.keys_erase_perm hmem).append_left _).trans List.perm_middle
    case hgone =>
      simp only [slots, releaseSlots, publish, ← List.append_assoc]
      exact List.perm_append_singleton _ _
    all_goals rfl
  · intro j stream hget hdeferred
    simp only [releaseSlots, publish, Table.get?_erase] at hget
    split at hget
    case isTrue => cases hget
    case isFalse => exact h.waits j stream hget hdeferred

theorem reapOne_balanced (h : Balanced c s) (now id : Nat) (stopped : Bool) :
    Balanced c (s.reapOne c a now id stopped) := by
  unfold reapOne
  split
  · exact h
  · rename_i stream hget
    have hmem := Table.mem_keys_of_get? hget
    dsimp only
    split
    · obtain ⟨hreplayed, hconnections, -⟩ :=
        replayStream_balanced (a := a) h now id stream
      apply release_balanced hreplayed
      rw [hconnections]
      exact hmem
    · exact release_balanced h hmem _

theorem promote_balanced (h : Balanced c s) {id : Nat} {stream : CaptureStream σ}
    (hget : s.connections.get? id = some stream)
    (hdeferred : stream.deferred = true) (hfree : s.parsers < c.connections) :
    (s.promote id).slots.Counted c.connections := by
  apply h.counted.step
  apply SlotStep.promote id
  case hfree => exact hfree
  case hmem => simp [slots, unreaped, Table.mem_keys_of_get? hget]
  case hnone => exact h.waits id stream hget hdeferred
  case hslot =>
    funext j
    by_cases hj : j = id
    · simp [slots, promote, ticket, hj]
    · simp [slots, promote, ticket, alter_ne hj]
  all_goals rfl

theorem resume_balanced (h : Balanced c s) {id : Nat} {stream : CaptureStream σ}
    (hget : s.connections.get? id = some stream)
    (hdeferred : stream.deferred = true) (hfree : s.parsers < c.connections)
    {resumed : CaptureStream σ} (hresumed : resumed.deferred = false) :
    Balanced c ((s.promote id).store id resumed) := by
  constructor
  · apply (promote_balanced h hget hdeferred hfree).step
    apply SlotStep.keep
    case hunreaped =>
      apply List.Perm.append_left
      exact keys_insert_perm_of_mem resumed (Table.mem_keys_of_get? hget)
    all_goals rfl
  · intro j other hother hwait
    simp only [Runtime.store, promote, ticket, Table.get?_insert] at hother
    split at hother
    case isTrue hj =>
      injection hother with hother
      rw [← hother, hresumed] at hwait
      cases hwait
    case isFalse hj =>
      simp only [Runtime.store, promote, ticket, alter_ne hj]
      exact h.waits j other hother hwait

theorem progressOne_balanced (h : Balanced c s) (now id : Nat) :
    Balanced c (s.progressOne c a now id) := by
  unfold progressOne
  split
  case h_1 => exact h
  case h_2 stream hget =>
    dsimp only
    split
    case isTrue hpromote =>
      simp only [Bool.and_eq_true, decide_eq_true_eq] at hpromote
      have hdeferred : CaptureStream.deferred { ((s.promote id).replayStream
          c a now id stream).2 with body := (a.progress now ((s.promote
            id).replayStream c a now id stream).2.body).1 } = false := by
        unfold replayStream
        dsimp only
      have hresumed := resume_balanced h hget hpromote.1 hpromote.2 hdeferred
      apply hresumed.congr
      · unfold replayStream
        dsimp only
        split <;> rfl
      · unfold replayStream
        dsimp only
        split <;> rfl
    case isFalse =>
      exact (h.store hget (by simp)).congr (slots_publish _ _ _) rfl

private theorem answer_balanced (h : Balanced c s) (call : Nat) :
    Balanced c (s.answer call) := by
  unfold answer
  split
  · exact h.congr rfl rfl
  · exact h

theorem perform_balanced (h : Balanced c s) (now : Nat) (task : Task) :
    Balanced c (s.perform c a now task) := by
  cases task with
  | reapScan all stopped => exact h.congr rfl rfl
  | reapOne id stopped => exact reapOne_balanced h now id stopped
  | progressScan => exact h.congr rfl rfl
  | progressOne id => exact progressOne_balanced h now id
  | reply call => exact answer_balanced h call
  | exit => exact h.congr rfl rfl

theorem work_balanced (h : Balanced c s) (now : Nat) (due : Bool) :
    Balanced c (s.work c a now due) := by
  unfold work
  split
  · exact h
  · split
    · rename_i task todo htodo
      have hpop : Balanced c { s with todo := todo } := h.congr rfl rfl
      exact perform_balanced hpop now task
    · exact h.congr rfl rfl
    · rename_i e queue _ hqueue
      exact take_balanced h hqueue _ now

/-! ## Runs -/

theorem startCapture_balanced (h : Balanced c s) : Balanced c s.startCapture := by
  unfold startCapture
  split
  · exact h
  · split
    · exact h.congr rfl rfl
    · exact h

theorem stopCapture_balanced (h : Balanced c s) (call : Nat) :
    Balanced c (s.stopCapture call) := by
  unfold stopCapture
  split
  · exact h
  · exact h.congr rfl rfl

theorem lifecycle_balanced (h : Balanced c s) (epoch : Nat) (record : ρ) :
    Balanced c (s.lifecycle epoch record) := by
  unfold lifecycle
  split
  · exact h
  · split
    · exact h
    · exact h.congr rfl rfl

theorem shutdown_balanced (h : Balanced c s) : Balanced c s.shutdown := by
  unfold shutdown
  split
  · exact h
  · exact h.congr rfl rfl

theorem stopGoesOn_balanced (h : Balanced c s) (call : Nat) :
    Balanced c (s.stopGoesOn c call) := by
  unfold stopGoesOn
  split
  · split
    · exact h.congr rfl rfl
    · split
      · exact (h.push (e := .stopCapture call) rfl).congr rfl rfl
      · exact h
  · split
    · exact h
    · exact h.congr rfl rfl
  · exact h

theorem submit_balanced (h : Balanced c s)
    (he : openedId e = none) : Balanced c (s.submit c e) := by
  unfold submit
  split
  · exact h.push he
  · exact h

theorem step_balanced (s : Runtime η σ ρ) (e : CaptureStep η ρ)
    (h : Balanced c s) : Balanced c (s.step c a e) := by
  cases e with
  | startCapture => exact startCapture_balanced h
  | stopCapture call => exact stopCapture_balanced h call
  | stopGoesOn call => exact stopGoesOn_balanced h call
  | tapAt epoch identity => exact tapAt_balanced h epoch identity
  | hold => exact hold_balanced h
  | data id side bytes => exact data_balanced h id side bytes
  | tryData id side bytes contended =>
    exact tryData_balanced h id side bytes contended
  | send id m => exact send_balanced h id m
  | dataAsync id side bytes => exact dataAsync_balanced h id side bytes
  | sendAsync id m => exact sendAsync_balanced h id m
  | attempt id k contended => exact attempt_balanced h id k contended
  | cancel id k => exact cancel_balanced h id k
  | closeReason id reason =>
    exact h.congr (slots_ticket s id (by simp)) rfl
  | transportClosed id side error =>
    exact h.congr (slots_ticket s id (by simp)) rfl
  | dropTap id => exact dropTap_balanced h id
  | lifecycle epoch record => exact lifecycle_balanced h epoch record
  | query => exact submit_balanced h rfl
  | shutdown => exact shutdown_balanced h
  | sendShutdown =>
    simp only [step]
    split
    · exact submit_balanced h rfl
    · exact h
  | work now due => exact work_balanced h now due
  | failure => exact h.congr rfl rfl
  | panic => exact h.congr rfl rfl

/-- In every state that is reached, the streams that were opened and not
reaped are counted, those of them that hold a parser slot are counted and
never exceed the limit, and each number that was given out is either one of
them, or was refused or reaped, and that once. -/
theorem slots_accounted (c : CaptureConfig) (a : Analysis η σ ρ)
    (steps : List (CaptureStep η ρ)) :
    (run (step c a) initial steps).active =
      (run (step c a) initial steps).unreaped.length ∧
    (run (step c a) initial steps).parsers =
      (run (step c a) initial steps).slotHolders.length ∧
    (run (step c a) initial steps).parsers ≤ c.connections ∧
    ((run (step c a) initial steps).unreaped ++
      ((run (step c a) initial steps).refused ++
        (run (step c a) initial steps).reaped)).Perm
      (List.range' 1 ((run (step c a) initial steps).next - 1)) := by
  have hbalanced : Balanced c (run (step c a) initial steps) :=
    run_induction step_balanced initial_balanced steps
  have hcounted := hbalanced.counted
  refine ⟨hcounted.active, ?_, hcounted.parsers_le, hcounted.all⟩
  rw [slotHolders, ← List.countP_eq_length_filter]
  exact hcounted.parsers

end Steps

end Runtime

section Parsers

variable {δ ι χ θ : Type}

structure Analyzed (δ ι χ θ ρ : Type) where
  connection : Connection
  capture : Worker.Capture δ ι χ θ ρ

namespace Analyzed

def since (s : Analyzed δ ι χ θ ρ) (stream : Stream δ ι χ θ ρ) :
    Analyzed δ ι χ θ ρ × List (Entry ρ) :=
  ({ s with capture := { s.capture with stream := stream } },
    stream.log.drop s.capture.stream.log.length)

end Analyzed

open Worker in
/-- The analysis of connections other than HTTP/3 and raw QUIC streams. -/
def Worker.analysis (w : Worker δ ι χ θ ρ) :
    Analysis Empty (Analyzed δ ι χ θ ρ) (Entry ρ) where
  opened identity limited :=
    let stream := if limited then w.blank else w.openStream identity.connection
    (⟨identity.connection, start stream⟩, stream.log)
  data now s side offset bytes :=
    s.since (w.data s.connection.decrypted now s.capture.stream side offset bytes)
  message now s reason m :=
    match m with
    | .datagram side bytes =>
      s.since (w.datagram s.connection.decrypted now s.capture.stream side bytes)
    | .eof side clean =>
      s.since (w.eof now s.capture.stream side clean (eofReason reason side clean))
    | .note message =>
      s.since { s.capture.stream with analysisNote := some message }
    | .state _ => (s, [])
  deferData now s side bytes :=
    { s with capture := defer s.capture (now, .data side bytes) }
  deferMessage now s m :=
    match m with
    | .datagram side bytes =>
      { s with capture := defer s.capture (now, .datagram side bytes) }
    | .eof side clean =>
      { s with capture := defer s.capture (now, .eof side clean) }
    | _ => s
  replay _ s reason :=
    match w.replay s.connection { s.capture with closeReason := reason } with
    | .ok capture =>
      (true, { s with capture := capture },
        capture.stream.log.drop s.capture.stream.log.length)
    | .error _ => (false, s, [])
  progress _ s := (s, [])
  finish now s reason _ _ :=
    match s.capture.stream.analyzer with
    | some parser => (parser.close w.lib reason).2.map (.output now)
    | none => if s.capture.stream.cache then [.finished] else []
  parsing s := s.capture.stream.analyzer.isSome

namespace Runtime

def liveParsers (a : Analysis η σ ρ) (s : Runtime η σ ρ) : Nat :=
  s.connections.values.countP fun stream => a.parsing stream.body

theorem datagram_stream_holds_slot :
    (run (step ⟨.temporary, 128, 512⟩ Worker.partialWorker.analysis) initial
      [.tapAt 1 ⟨⟨true, 4433, none, false⟩, false⟩, .hold,
        .work 0 false]).parsers = 1 ∧
    liveParsers Worker.partialWorker.analysis
      (run (step ⟨.temporary, 128, 512⟩ Worker.partialWorker.analysis) initial
        [.tapAt 1 ⟨⟨true, 4433, none, false⟩, false⟩, .hold, .work 0 false]) = 0 := by
  decide

end Runtime

end Parsers

end ProxyLane.Mitm
