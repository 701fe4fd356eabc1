import ProxyLane.Mitm.Taps

/-!
# Closed epochs

The event that a call of `stop_capture` sends stands behind all events of the
epoch that it has closed.  When the worker answers it, the streams of that
epoch are reaped, and no event of them is left.
-/

namespace ProxyLane.Mitm

open ProxyLane.Foundation ProxyLane.Protocol

variable {η σ ρ : Type}

def ownerOf : CaptureEvent η → Option Nat
  | .opened id _ => some id
  | .data id .. => some id
  | .message id _ => some id
  | _ => none

namespace Runtime

def sentBy (s : Runtime η σ ρ) (id : Nat) : List (CaptureEvent η) :=
  s.sent.filter fun e => ownerOf e == some id

def publishedFrom (s : Runtime η σ ρ) (origin : Origin) : List (Origin × ρ) :=
  s.published.filter fun p => p.1 == origin

/-! ## What producers change -/

section Producers

variable {s s' u : Runtime η σ ρ}

structure Quiet (s s' : Runtime η σ ρ) : Prop where
  next : s'.next = s.next
  captureEpoch : s'.captureEpoch = s.captureEpoch
  epochs : ∀ id, (s'.taps id).epoch = (s.taps id).epoch
  queue : s'.queue = s.queue
  sent : s'.sent = s.sent
  connections : s'.connections = s.connections
  todo : s'.todo = s.todo
  working : s'.working = s.working
  published : s'.published = s.published
  stops : s'.stops = s.stops

theorem Quiet.refl (s : Runtime η σ ρ) : Quiet s s := by
  constructor <;> intros <;> rfl

theorem Quiet.trans (h : Quiet s u) (h' : Quiet u s') : Quiet s s' where
  next := h'.next.trans h.next
  captureEpoch := h'.captureEpoch.trans h.captureEpoch
  epochs id := (h'.epochs id).trans (h.epochs id)
  queue := h'.queue.trans h.queue
  sent := h'.sent.trans h.sent
  connections := h'.connections.trans h.connections
  todo := h'.todo.trans h.todo
  working := h'.working.trans h.working
  published := h'.published.trans h.published
  stops := h'.stops.trans h.stops

theorem quiet_tap (s : Runtime η σ ρ) (id : Nat) {f : Tap η → Tap η}
    (hf : ∀ t, (f t).epoch = t.epoch) : Quiet s (s.tap id f) := by
  constructor
  case epochs =>
    intro j
    by_cases hj : j = id
    · simp [tap, hj, hf]
    · simp [tap, alter_ne hj]
  all_goals rfl

theorem quiet_ticket (s : Runtime η σ ρ) (id : Nat) (f : Ticket → Ticket) :
    Quiet s (s.ticket id f) := by
  constructor <;> intros <;> rfl

theorem quiet_failRecording (s : Runtime η σ ρ) (c : CaptureConfig) :
    Quiet s (s.failRecording c) := by
  constructor <;> intros <;> rfl

theorem quiet_counted (s : Runtime η σ ρ) (id : Nat) (sending : Sending η) :
    Quiet s (s.counted id sending) := by
  cases sending with
  | data side offset chunk rest => exact quiet_tap s id (by simp)
  | message m => exact .refl s

theorem quiet_holder (s : Runtime η σ ρ) (holder : Option (Holder η)) :
    Quiet s { s with holder := holder } := by
  constructor <;> intros <;> rfl

theorem quiet_seize (s : Runtime η σ ρ) (id : Nat) (sending : Sending η)
    (isCounted : Bool) : Quiet s (s.seize id sending isCounted) := by
  unfold seize
  split
  · exact (quiet_holder s _).trans (quiet_ticket _ id _)
  · exact .refl s

theorem quiet_proceed (s : Runtime η σ ρ) (id : Nat) (sending : Sending η) :
    Quiet s (s.proceed id sending) := by
  unfold proceed
  split
  · exact (quiet_holder s _).trans (quiet_ticket _ id _)
  · exact quiet_holder s none
  · exact quiet_holder s none

theorem quiet_markEnded (s : Runtime η σ ρ) (id : Nat) (m : Message η) :
    Quiet s (s.markEnded id m) := by
  cases m with
  | eof side clean => exact quiet_tap s id (by simp)
  | _ => exact .refl s

theorem quiet_settle (s : Runtime η σ ρ) (id k : Nat) (sending : Sending η) :
    Quiet s (s.settle id k sending) := by
  apply (quiet_counted s id sending).trans
  apply quiet_tap
  intro t
  cases sending with
  | data side offset chunk rest => cases rest <;> rfl
  | message m => rfl

theorem quiet_refuse (s : Runtime η σ ρ) (id : Nat) : Quiet s (s.refuse id) := by
  constructor <;> intros <;> rfl

theorem quiet_lose (s : Runtime η σ ρ) (c : CaptureConfig) (id : Nat)
    (sending : Sending η) (isCounted : Bool) :
    Quiet s (s.lose c id sending isCounted) := by
  have hlost : Quiet s { (s.ticket id fun t => { t with lost := true }).pend id
      (-1) with failed := s.failed || (!s.working && c.recording) } := by
    constructor <;> intros <;> rfl
  unfold lose
  dsimp only
  split
  · exact hlost.trans ((quiet_counted _ id sending).trans (quiet_holder _ none))
  · exact hlost.trans (quiet_holder _ none)

structure Produces (s s' : Runtime η σ ρ) (events : List (CaptureEvent η)) :
    Prop where
  next_le : s.next ≤ s'.next
  epoch_le : s.captureEpoch ≤ s'.captureEpoch
  epochs : ∀ id, id < s.next → (s'.taps id).epoch = (s.taps id).epoch
  queue : s'.queue = s.queue ++ events
  sent : s'.sent = s.sent ++ events
  current : ∀ e ∈ events, ∀ id, ownerOf e = some id →
    id < s.next ∧ (s.taps id).epoch = s.captureEpoch
  connections : s'.connections = s.connections
  todo : s'.todo = s.todo
  working : s'.working = true → s.working = true
  published : ∀ origin, origin ≠ .lifecycle s.captureEpoch →
    s'.publishedFrom origin = s.publishedFrom origin

theorem Quiet.produces (h : Quiet s s') : Produces s s' [] where
  next_le := Nat.le_of_eq h.next.symm
  epoch_le := Nat.le_of_eq h.captureEpoch.symm
  epochs id _ := h.epochs id
  queue := by simp [h.queue]
  sent := by simp [h.sent]
  current := by simp
  connections := h.connections
  todo := h.todo
  working hw := by rw [← hw, h.working]
  published origin _ := by rw [publishedFrom, publishedFrom, h.published]

theorem produces_push (h : Quiet s u) {e : CaptureEvent η}
    (hcurrent : ∀ id, ownerOf e = some id →
      id < s.next ∧ (s.taps id).epoch = s.captureEpoch)
    (h' : Quiet (u.push e) s') : Produces s s' [e] where
  next_le := Nat.le_of_eq (h'.next.trans h.next).symm
  epoch_le := Nat.le_of_eq (h'.captureEpoch.trans h.captureEpoch).symm
  epochs id _ := (h'.epochs id).trans (h.epochs id)
  queue := by simp [h'.queue, push, h.queue]
  sent := by simp [h'.sent, push, h.sent]
  current := by simpa using hcurrent
  connections := h'.connections.trans h.connections
  todo := h'.todo.trans h.todo
  working hw := by
    rw [h'.working] at hw
    rw [← hw]
    exact h.working.symm
  published origin _ := by
    rw [publishedFrom, publishedFrom, h'.published]
    exact congrArg _ h.published

/-- A step that is not one of a call of `stop_capture`. -/
structure Ordinary (s s' : Runtime η σ ρ) : Prop where
  stops : s'.stops = s.stops
  produces : ∃ events, Produces s s' events ∧
    ∀ call, CaptureEvent.stopCapture call ∉ events

theorem Quiet.ordinary (h : Quiet s s') : Ordinary s s' :=
  ⟨h.stops, [], h.produces, by simp⟩

theorem ordinary_push (h : Quiet s u) {e : CaptureEvent η}
    (hcurrent : ∀ id, ownerOf e = some id →
      id < s.next ∧ (s.taps id).epoch = s.captureEpoch)
    (hstop : ∀ call, e ≠ .stopCapture call) (h' : Quiet (u.push e) s') :
    Ordinary s s' := by
  refine ⟨h'.stops.trans h.stops, [e], produces_push h hcurrent h', ?_⟩
  intro call
  simpa using (hstop call).symm

/-! ## The calls of a tap -/

theorem ownerOf_eventOf (id : Nat) (sending : Sending η) :
    ownerOf (eventOf id sending) = some id := by
  cases sending <;> rfl

theorem eventOf_ne_stop (id call : Nat) (sending : Sending η) :
    eventOf id sending ≠ .stopCapture call := by
  cases sending <;> simp [eventOf]

theorem tapAt_ordinary (c : CaptureConfig) (epoch : Nat) (identity : Identity) :
    Ordinary s (s.tapAt c epoch identity) := by
  have hrejected : Quiet s { s with rejected := s.rejected + 1 } := by
    constructor <;> intros <;> rfl
  unfold tapAt
  dsimp only
  split
  · exact (Quiet.refl s).ordinary
  · split
    · exact (Quiet.refl s).ordinary
    · split
      · exact hrejected.ordinary
      · split
        · exact hrejected.ordinary
        · refine ⟨rfl, [], ?_, by simp⟩
          constructor
          case next_le => exact Nat.le_succ _
          case epochs =>
            intro id hid
            have hne : id ≠ s.next := by omega
            simp [alter_ne hne]
          case working => exact fun hw => hw
          all_goals simp
          intro origin _
          rfl

theorem hold_ordinary (h : Orderly s) (c : CaptureConfig) :
    Ordinary s (s.hold c) := by
  unfold hold
  split
  case h_1 => exact (Quiet.refl s).ordinary
  case h_2 id identity hholder =>
    obtain ⟨hid, htap, -⟩ := h.sane.admission id identity hholder
    split
    · apply ordinary_push (.refl s) (e := .opened id identity)
      · intro j hj
        simp only [ownerOf, Option.some.injEq] at hj
        subst hj
        exact ⟨hid, by simp [htap, newTap]⟩
      · simp
      · exact (quiet_tap _ id (by simp)).trans (quiet_holder _ none)
    · split
      · exact (Quiet.refl s).ordinary
      · split
        · exact (quiet_refuse s id).ordinary
        · exact ((quiet_refuse s id).trans (quiet_failRecording _ c)).ordinary
  case h_3 id sending isCounted hholder =>
    obtain ⟨hid, hepoch, -⟩ := h.sane.held id sending isCounted hholder
    have hcurrent : ∀ j, ownerOf (eventOf id sending) = some j →
        j < s.next ∧ (s.taps j).epoch = s.captureEpoch := by
      intro j hj
      rw [ownerOf_eventOf] at hj
      injection hj with hj
      subst hj
      exact ⟨hid, hepoch⟩
    split
    · dsimp only
      split
      · exact ordinary_push (.refl s) hcurrent (eventOf_ne_stop id · sending)
          ((quiet_counted _ id sending).trans (quiet_proceed _ id sending))
      · exact ordinary_push (.refl s) hcurrent (eventOf_ne_stop id · sending)
          (quiet_holder _ none)
    · split
      · exact (Quiet.refl s).ordinary
      · exact (quiet_lose s c id sending isCounted).ordinary

theorem data_quiet (id : Nat) (side : Direction) (bytes : Bytes) :
    Quiet s (s.data id side bytes) := by
  unfold data
  split
  · exact .refl s
  · split
    · exact .refl s
    · exact (quiet_tap s id (by simp)).trans (quiet_seize _ id _ true)

theorem tryData_ordinary (h : Orderly s) (c : CaptureConfig) (id : Nat)
    (side : Direction) (bytes : Bytes) (contended : Bool) :
    Ordinary s (s.tryData c id side bytes contended) := by
  have hgive : Quiet s (s.give id side bytes) := quiet_tap s id (by simp)
  unfold tryData
  split
  case isTrue => exact (data_quiet id side bytes).ordinary
  case isFalse =>
    split
    case isTrue => exact (Quiet.refl s).ordinary
    case isFalse hready =>
      simp only [Bool.or_eq_true, Bool.not_eq_true', not_or, Bool.not_eq_false]
        at hready
      have hid := lt_next_of_live h hready.1.1
      split
      case isTrue => exact (Quiet.refl s).ordinary
      case isFalse =>
        split
        case isTrue => exact hgive.ordinary
        case isFalse hcan =>
          split
          case isTrue => exact (hgive.trans (quiet_failRecording _ c)).ordinary
          case isFalse =>
            split
            case isTrue =>
              apply ordinary_push (hgive.trans (quiet_ticket _ id _))
                (e := .data id side ((s.taps id).offsets.get side) bytes)
              case hcurrent =>
                intro j hj
                simp only [ownerOf, Option.some.injEq] at hj
                subst hj
                exact ⟨hid, capturing_epoch (by simpa using hcan)⟩
              case hstop => simp
              case h' => exact quiet_tap _ id (by simp)
            case isFalse => exact (Quiet.refl s).ordinary

theorem send_quiet (id : Nat) (m : Message η) : Quiet s (s.send id m) := by
  unfold send
  split
  · exact .refl s
  · exact (quiet_markEnded s id m).trans (quiet_seize _ id _ true)

theorem dataAsync_quiet (id : Nat) (side : Direction) (bytes : Bytes) :
    Quiet s (s.dataAsync id side bytes) := by
  unfold dataAsync
  split
  · exact .refl s
  · split
    · exact .refl s
    · exact (quiet_tap s id (by simp)).trans (quiet_tap _ id (by simp))

theorem sendAsync_quiet (id : Nat) (m : Message η) :
    Quiet s (s.sendAsync id m) := by
  unfold sendAsync
  split
  · exact .refl s
  · exact (quiet_markEnded s id m).trans (quiet_tap _ id (by simp))

theorem attempt_ordinary (h : Orderly s) (c : CaptureConfig) (id k : Nat)
    (contended : Bool) : Ordinary s (s.attempt c id k contended) := by
  unfold attempt
  split
  case h_1 => exact (Quiet.refl s).ordinary
  case h_2 sending hget =>
    have hid := lt_next_of_waiting h hget
    split
    case isTrue => exact (Quiet.refl s).ordinary
    case isFalse =>
      split
      case isTrue => exact (quiet_settle s id k sending).ordinary
      case isFalse hcan =>
        split
        case isTrue =>
          apply ordinary_push (quiet_ticket s id _)
          case hcurrent =>
            intro j hj
            rw [ownerOf_eventOf] at hj
            injection hj with hj
            subst hj
            exact ⟨hid, capturing_epoch (by simpa using hcan)⟩
          case hstop => exact (eventOf_ne_stop id · sending)
          case h' => exact quiet_settle _ id k sending
        case isFalse =>
          split
          · split
            · exact (Quiet.refl s).ordinary
            · exact ((quiet_failRecording s c).trans
                (quiet_settle _ id k sending)).ordinary
          · exact ((quiet_ticket s id _).trans (quiet_settle _ id k sending)).ordinary

theorem cancel_quiet (c : CaptureConfig) (id k : Nat) :
    Quiet s (s.cancel c id k) := by
  unfold cancel
  split
  · exact .refl s
  · split
    · exact .refl s
    · exact (quiet_tap s id (by simp)).trans (quiet_seize _ id _ false)

theorem dropTap_quiet (id : Nat) : Quiet s (s.dropTap id) := by
  unfold dropTap
  split
  · exact .refl s
  · exact (quiet_ticket s id _).trans
      ((quiet_ticket _ id _).trans (quiet_tap _ id (by simp)))

theorem lifecycle_ordinary (epoch : Nat) (record : ρ) :
    Ordinary s (s.lifecycle epoch record) := by
  unfold lifecycle
  split
  case isTrue => exact (Quiet.refl s).ordinary
  case isFalse =>
    split
    case isTrue => exact (Quiet.refl s).ordinary
    case isFalse hgate =>
      simp only [not_or, not_not] at hgate
      refine ⟨rfl, [], ?_, by simp⟩
      constructor
      case published =>
        intro origin horigin
        have hother : (Origin.lifecycle epoch == origin) = false := by
          simpa [← hgate.1] using Ne.symm horigin
        simp [publishedFrom, publish, hother]
      case working => exact fun hw => hw
      all_goals simp [publish]

theorem submit_ordinary (c : CaptureConfig) {e : CaptureEvent η}
    (howner : ownerOf e = none) (hstop : ∀ call, e ≠ .stopCapture call) :
    Ordinary s (s.submit c e) := by
  unfold submit
  split
  · exact ordinary_push (.refl s) (by simp [howner]) hstop (.refl _)
  · exact (Quiet.refl s).ordinary

theorem startCapture_ordinary : Ordinary s s.startCapture := by
  unfold startCapture
  split
  · exact (Quiet.refl s).ordinary
  · split
    · refine ⟨rfl, [], ?_, by simp⟩
      constructor
      case epoch_le => exact Nat.le_succ _
      case working => exact fun hw => hw
      all_goals simp
      intro origin _
      rfl
    · exact (Quiet.refl s).ordinary

theorem panic_ordinary : Ordinary s { s with working := false, failed := true } := by
  refine ⟨rfl, [], ?_, by simp⟩
  constructor
  case working => simp
  all_goals simp
  intro origin _
  rfl

end Producers

/-! ## Calls of `stop_capture` -/

def NoOld (s : Runtime η σ ρ) (epoch : Nat) (events : List (CaptureEvent η)) :
    Prop :=
  ∀ id identity, .opened id identity ∈ events → epoch ≤ (s.taps id).epoch

structure Clear (s : Runtime η σ ρ) (epoch : Nat) : Prop where
  queue : NoOld s epoch s.queue
  connections : ∀ id ∈ s.connections.keys, epoch ≤ (s.taps id).epoch

structure Behind (s : Runtime η σ ρ) (call epoch : Nat)
    (before after : List (CaptureEvent η)) : Prop where
  queue : s.queue = before ++ .stopCapture call :: after
  not_before : .stopCapture call ∉ before
  not_after : .stopCapture call ∉ after
  later : NoOld s epoch after
  todo : .reply call ∉ s.todo

structure Reaping (s : Runtime η σ ρ) (call epoch : Nat) (before after : List Task) :
    Prop where
  queue : .stopCapture call ∉ s.queue
  later : NoOld s epoch s.queue
  todo : s.todo = before ++ .reply call :: after
  not_before : .reply call ∉ before
  not_after : .reply call ∉ after
  reaped : (∃ stopped, Task.reapScan true stopped ∈ before) ∨
    ∀ id ∈ s.connections.keys, (s.taps id).epoch < epoch →
      ∃ stopped, Task.reapOne id stopped ∈ before

def Fence (s : Runtime η σ ρ) (call : Nat) : StopCall → Prop
  | .idle => .stopCapture call ∉ s.queue ∧ .reply call ∉ s.todo
  | .closed epoch => epoch ≤ s.captureEpoch ∧
      .stopCapture call ∉ s.queue ∧ .reply call ∉ s.todo
  | .waiting epoch => epoch ≤ s.captureEpoch ∧ (s.working = true →
      (∃ before after, Behind s call epoch before after) ∨
      ∃ before after, Reaping s call epoch before after)
  | .returned epoch => epoch ≤ s.captureEpoch ∧ (s.working = true →
      Clear s epoch ∧ .stopCapture call ∉ s.queue ∧ .reply call ∉ s.todo)

/-- All calls stand where they should, and only numbers that were given out
are in use. -/
structure Fenced (s : Runtime η σ ρ) : Prop where
  calls : ∀ call, Fence s call (s.stops call)
  queued : ∀ id identity, .opened id identity ∈ s.queue → id < s.next
  connected : ∀ id ∈ s.connections.keys, id < s.next

theorem initial_fenced : Fenced (initial : Runtime η σ ρ) := by
  constructor
  · intro call
    simp [initial, Fence]
  · simp [initial]
  · simp [initial]

section Producers

variable {s s' : Runtime η σ ρ} {events : List (CaptureEvent η)}

theorem NoOld.grow {epoch : Nat} {old : List (CaptureEvent η)}
    (h : NoOld s epoch old) (hknown : ∀ id identity,
      .opened id identity ∈ old → id < s.next)
    (hp : Produces s s' events) (hepoch : epoch ≤ s.captureEpoch) :
    NoOld s' epoch (old ++ events) := by
  intro id identity hmem
  rcases List.mem_append.mp hmem with hold | hnew
  · rw [hp.epochs id (hknown id identity hold)]
    exact h id identity hold
  · obtain ⟨hid, hcurrent⟩ := hp.current _ hnew id rfl
    rw [hp.epochs id hid]
    omega

theorem Produces.queued (h : Fenced s) (hp : Produces s s' events) :
    (∀ id identity, .opened id identity ∈ s'.queue → id < s'.next) ∧
      ∀ id ∈ s'.connections.keys, id < s'.next := by
  have hle := hp.next_le
  constructor
  · intro id identity hmem
    rw [hp.queue] at hmem
    rcases List.mem_append.mp hmem with hold | hnew
    · have hlt := h.queued id identity hold
      omega
    · have hlt := (hp.current _ hnew id rfl).1
      omega
  · intro id hid
    rw [hp.connections] at hid
    have hlt := h.connected id hid
    omega

theorem Fence.produced (h : Fenced s) (hp : Produces s s' events) {call : Nat}
    {phase : StopCall} (hstop : .stopCapture call ∉ events)
    (hfence : Fence s call phase) : Fence s' call phase := by
  have hepoch := hp.epoch_le
  have hqueue : .stopCapture call ∉ s.queue → .stopCapture call ∉ s'.queue := by
    intro hnot
    rw [hp.queue]
    simp [hnot, hstop]
  cases phase with
  | idle =>
    simp only [Fence, hp.todo] at hfence ⊢
    exact ⟨hqueue hfence.1, hfence.2⟩
  | closed epoch =>
    simp only [Fence, hp.todo] at hfence ⊢
    exact ⟨by omega, hqueue hfence.2.1, hfence.2.2⟩
  | waiting epoch =>
    simp only [Fence] at hfence ⊢
    refine ⟨by omega, fun hw => ?_⟩
    rcases hfence.2 (hp.working hw) with ⟨before, after, hb⟩ | ⟨before, after, hr⟩
    · left
      refine ⟨before, after ++ events, ?_⟩
      constructor
      · rw [hp.queue, hb.queue]
        simp
      · exact hb.not_before
      · simp [hb.not_after, hstop]
      · apply hb.later.grow _ hp hfence.1
        intro id identity hmem
        apply h.queued id identity
        rw [hb.queue]
        simp [hmem]
      · rw [hp.todo]
        exact hb.todo
    · right
      refine ⟨before, after, ?_⟩
      constructor
      · exact hqueue hr.queue
      · rw [hp.queue]
        exact hr.later.grow h.queued hp hfence.1
      · rw [hp.todo]
        exact hr.todo
      · exact hr.not_before
      · exact hr.not_after
      · rcases hr.reaped with hscan | hreaped
        · exact .inl hscan
        · right
          intro id hid hold
          rw [hp.connections] at hid
          rw [hp.epochs id (h.connected id hid)] at hold
          exact hreaped id hid hold
  | returned epoch =>
    simp only [Fence, hp.todo] at hfence ⊢
    refine ⟨by omega, fun hw => ?_⟩
    obtain ⟨hclear, hnot, hreply⟩ := hfence.2 (hp.working hw)
    refine ⟨⟨?_, ?_⟩, hqueue hnot, hreply⟩
    · rw [hp.queue]
      exact hclear.queue.grow h.queued hp hfence.1
    · intro id hid
      rw [hp.connections] at hid
      rw [hp.epochs id (h.connected id hid)]
      exact hclear.connections id hid

theorem Ordinary.fenced (ho : Ordinary s s') (h : Fenced s) : Fenced s' := by
  obtain ⟨hstops, events, hp, hnone⟩ := ho
  obtain ⟨hqueued, hconnected⟩ := hp.queued h
  refine ⟨?_, hqueued, hconnected⟩
  intro call
  rw [hstops]
  exact Fence.produced h hp (hnone call) (h.calls call)

/-- Only the call that moved on has to be looked at. -/
theorem Fenced.setStop (h : Fenced s) {t : Runtime η σ ρ} {call : Nat} {phase : StopCall}
    (hp : Produces s (t.setStop call phase) events) (hstops : t.stops = s.stops)
    (hnone : ∀ other, other ≠ call → .stopCapture other ∉ events)
    (hfence : Fence (t.setStop call phase) call phase) : Fenced (t.setStop call phase) := by
  obtain ⟨hqueued, hconnected⟩ := hp.queued h
  refine ⟨fun other => ?_, hqueued, hconnected⟩
  by_cases hother : other = call
  · subst hother
    simpa only [Runtime.setStop, alter_self] using hfence
  · have hold := Fence.produced h hp (hnone other hother) (h.calls other)
    simpa only [Runtime.setStop, alter_ne hother, hstops] using hold

theorem stopCapture_fenced (h : Fenced s) (call : Nat) :
    Fenced (s.stopCapture call) := by
  unfold stopCapture
  split
  case isTrue => exact h
  case isFalse hlock =>
    simp only [not_or, not_not] at hlock
    have hepoch : s.captureEpoch ≤ s.closedEpoch := by
      unfold closedEpoch
      split <;> omega
    have hp : Produces s ({ s with captureEpoch := s.closedEpoch }.setStop call
        (.closed s.closedEpoch)) [] := by
      constructor
      case epoch_le => exact hepoch
      case working => exact fun hw => hw
      case published => exact fun origin _ => rfl
      all_goals simp [setStop]
    have hidle := h.calls call
    rw [hlock.2] at hidle
    exact h.setStop hp rfl (by simp) ⟨Nat.le_refl _, hidle⟩

theorem setStop_fenced (h : Fenced s) {call : Nat} {phase : StopCall}
    (hfence : Fence s call phase) : Fenced (s.setStop call phase) := by
  have hp : Produces s (s.setStop call phase) [] := by
    constructor
    case working => exact fun hw => hw
    case published => exact fun origin _ => rfl
    all_goals simp [setStop]
  exact h.setStop hp rfl (by simp) (Fence.produced h hp (by simp) hfence)

theorem stopSend_fenced (h : Fenced s) {call epoch : Nat}
    (hphase : s.stops call = .closed epoch) :
    Fenced ((s.push (.stopCapture call)).setStop call (.waiting epoch)) := by
  have hp : Produces s ((s.push (.stopCapture call)).setStop call
      (.waiting epoch)) [.stopCapture call] := by
    constructor
    case working => exact fun hw => hw
    case published => exact fun origin _ => rfl
    all_goals simp [setStop, push, ownerOf]
  have hclosed := h.calls call
  rw [hphase] at hclosed
  refine h.setStop hp rfl (fun other hother => by simpa using hother)
    ⟨hclosed.1, fun _ => .inl ⟨s.queue, [], ?_⟩⟩
  constructor
  · rfl
  · exact hclosed.2.1
  · simp
  · simp [NoOld]
  · exact hclosed.2.2

theorem stopGoesOn_fenced (h : Fenced s) (c : CaptureConfig) (call : Nat) :
    Fenced (s.stopGoesOn c call) := by
  have hfence := h.calls call
  unfold stopGoesOn
  split
  case h_1 epoch hphase =>
    rw [hphase] at hfence
    split
    case isTrue hdead =>
      apply setStop_fenced h
      refine ⟨hfence.1, fun hw => ?_⟩
      simp [hw] at hdead
    case isFalse =>
      split
      · exact stopSend_fenced h hphase
      · exact h
  case h_2 epoch hphase =>
    rw [hphase] at hfence
    split
    case isTrue => exact h
    case isFalse hdead =>
      apply setStop_fenced h
      exact ⟨hfence.1, fun hw => absurd hw hdead⟩
  case h_3 => exact h

end Producers

/-! ## The worker -/

section Worker

variable {c : CaptureConfig} {a : Analysis η σ ρ} {s s' : Runtime η σ ρ}

theorem publishedFrom_publish {origin other : Origin} (h : origin ≠ other)
    (s : Runtime η σ ρ) (records : List ρ) :
    (s.publish other records).publishedFrom origin = s.publishedFrom origin := by
  simp [publishedFrom, publish, Ne.symm h]

theorem replayStream_worker (s : Runtime η σ ρ) (now id : Nat)
    (stream : CaptureStream σ) :
    (s.replayStream c a now id stream).1.queue = s.queue ∧
    (s.replayStream c a now id stream).1.todo = s.todo ∧
    (s.replayStream c a now id stream).1.stops = s.stops ∧
    (s.replayStream c a now id stream).1.working = s.working ∧
    (s.replayStream c a now id stream).1.connections = s.connections ∧
    ∀ origin, origin ≠ .tap id →
      (s.replayStream c a now id stream).1.publishedFrom origin =
        s.publishedFrom origin := by
  unfold replayStream
  dsimp only
  split
  · refine ⟨rfl, rfl, rfl, rfl, rfl, fun origin horigin => ?_⟩
    exact publishedFrom_publish horigin s _
  · refine ⟨rfl, rfl, rfl, rfl, rfl, fun origin horigin => ?_⟩
    exact publishedFrom_publish horigin s _

/-- What a task does: it adds tasks before the others, and it publishes and
forgets streams of the worker. -/
structure Performed (s s' : Runtime η σ ρ) (task : Task) (extra : List Task) :
    Prop where
  queue : s'.queue = s.queue
  todo : s'.todo = extra ++ s.todo
  no_reply : ∀ call, .reply call ∉ extra
  keys : ∀ id ∈ s'.connections.keys, id ∈ s.connections.keys
  scanned : ∀ stopped, task = .reapScan true stopped →
    ∀ id ∈ s'.connections.keys, ∃ stopped, Task.reapOne id stopped ∈ extra
  reaped : ∀ id stopped, task = .reapOne id stopped → id ∉ s'.connections.keys
  stops : ∀ call, task ≠ .reply call → s'.stops call = s.stops call
  working : s'.working = true → s.working = true
  published : ∀ origin, (∀ id ∈ s.connections.keys, origin ≠ .tap id) →
    s'.publishedFrom origin = s.publishedFrom origin

theorem reapOne_performed (s : Runtime η σ ρ) (now id : Nat) (stopped : Bool) :
    Performed s (s.reapOne c a now id stopped) (.reapOne id stopped) [] := by
  unfold reapOne
  split
  case h_1 hnone =>
    constructor
    case reaped =>
      intro j stopped' htask
      injection htask with hj
      subst hj
      exact Table.get?_eq_none_iff.mp hnone
    case scanned => simp
    case working => exact fun hw => hw
    all_goals simp
  case h_2 stream hget =>
    have hmem := Table.mem_keys_of_get? hget
    dsimp only
    split
    case isTrue =>
      obtain ⟨hqueue, htodo, hstops, hworking, hconnections, hpublished⟩ :=
        replayStream_worker (c := c) (a := a) s now id stream
      constructor
      case published =>
        intro origin horigin
        have hne := horigin id hmem
        refine Eq.trans ?_ (hpublished origin hne)
        exact publishedFrom_publish hne _ _
      case working =>
        intro hw
        exact hworking.symm.trans hw
      case scanned => simp
      case keys =>
        intro j hj
        simp only [releaseSlots, publish, hconnections, Table.mem_keys_erase] at hj
        exact hj.1
      case reaped =>
        intro j stopped' htask
        injection htask with hj
        subst hj
        simp [releaseSlots, publish, Table.mem_keys_erase]
      all_goals simp [releaseSlots, publish, hqueue, htodo, hstops]
    case isFalse =>
      constructor
      case published =>
        intro origin horigin
        exact publishedFrom_publish (horigin id hmem) _ _
      case working => exact fun hw => hw
      case scanned => simp
      case keys =>
        intro j hj
        simp only [releaseSlots, publish, Table.mem_keys_erase] at hj
        exact hj.1
      case reaped =>
        intro j stopped' htask
        injection htask with hj
        subst hj
        simp [releaseSlots, publish, Table.mem_keys_erase]
      all_goals simp [releaseSlots, publish]

theorem progressOne_performed (s : Runtime η σ ρ) (now id : Nat) :
    Performed s (s.progressOne c a now id) (.progressOne id) [] := by
  unfold progressOne
  split
  case h_1 =>
    constructor
    case working => exact fun hw => hw
    all_goals simp
  case h_2 stream hget =>
    have hmem := Table.mem_keys_of_get? hget
    dsimp only
    split
    case isTrue =>
      obtain ⟨hqueue, htodo, hstops, hworking, hconnections, hpublished⟩ :=
        replayStream_worker (c := c) (a := a) (s.promote id) now id stream
      constructor
      case published =>
        intro origin horigin
        have hne := horigin id hmem
        refine Eq.trans ?_ (hpublished origin hne)
        exact publishedFrom_publish hne _ _
      case working =>
        intro hw
        exact hworking.symm.trans hw
      case keys =>
        intro j hj
        simp only [Runtime.store, publish, hconnections, Table.mem_keys_insert] at hj
        rcases hj with rfl | hj
        · exact hmem
        · exact hj
      case queue => exact hqueue
      case todo => exact htodo
      case stops => exact fun call _ => congrFun hstops call
      all_goals simp
    case isFalse =>
      constructor
      case published =>
        intro origin horigin
        exact publishedFrom_publish (horigin id hmem) _ _
      case working => exact fun hw => hw
      case keys =>
        intro j hj
        simp only [Runtime.store, publish, Table.mem_keys_insert] at hj
        rcases hj with rfl | hj
        · exact hmem
        · exact hj
      all_goals simp [Runtime.store, publish]

theorem perform_performed (s : Runtime η σ ρ) (now : Nat) (task : Task) :
    ∃ extra, Performed s (s.perform c a now task) task extra := by
  cases task with
  | reapScan all stopped =>
    refine ⟨(s.toReap all).map (Task.reapOne · stopped), ?_⟩
    constructor
    case scanned =>
      intro stopped' htask id hid
      injection htask with hall
      subst hall
      refine ⟨stopped, ?_⟩
      simp only [List.mem_map, toReap, List.mem_filter]
      exact ⟨id, ⟨hid, by simp⟩, rfl⟩
    case working => exact fun hw => hw
    case keys => exact fun id hid => hid
    case published => exact fun origin _ => rfl
    all_goals simp [perform]
  | reapOne id stopped => exact ⟨[], reapOne_performed s now id stopped⟩
  | progressScan =>
    refine ⟨s.connections.keys.map Task.progressOne, ?_⟩
    constructor
    case working => exact fun hw => hw
    case keys => exact fun id hid => hid
    case published => exact fun origin _ => rfl
    all_goals simp [perform]
  | progressOne id => exact ⟨[], progressOne_performed s now id⟩
  | reply call =>
    refine ⟨[], ?_⟩
    simp only [perform, answer]
    split
    · constructor
      case stops =>
        intro other hother
        have hne : other ≠ call := by
          rintro rfl
          exact hother rfl
        simp [setStop, alter_ne hne]
      case working => exact fun hw => hw
      case keys => exact fun id hid => hid
      case published => exact fun origin _ => rfl
      all_goals simp [setStop]
    · constructor
      case working => exact fun hw => hw
      all_goals simp
  | exit =>
    refine ⟨[], ?_⟩
    constructor
    case working => simp [perform]
    case published => exact fun origin _ => rfl
    all_goals simp [perform]

theorem NoOld.spared {epoch : Nat} {events : List (CaptureEvent η)}
    (h : NoOld s epoch events) (hspares : Spares s s') :
    NoOld s' epoch events := by
  intro id identity hmem
  rw [hspares.taps]
  exact h id identity hmem

variable {call : Nat}

theorem Fence.performed {task : Task} {todo extra : List Task}
    (htodo : s.todo = task :: todo)
    (hp : Performed { s with todo := todo } s' task extra) (hspares : Spares s s')
    {phase : StopCall} (hother : task ≠ .reply call) (hfence : Fence s call phase) :
    Fence s' call phase := by
  have hqueue : s'.queue = s.queue := hp.queue
  have hreply : Task.reply call ∉ s.todo → Task.reply call ∉ s'.todo := by
    intro hnot
    rw [htodo] at hnot
    rw [hp.todo]
    simp only [List.mem_append, not_or]
    exact ⟨hp.no_reply call, fun hmem => hnot (List.mem_cons_of_mem _ hmem)⟩
  cases phase with
  | idle =>
    simp only [Fence, hqueue] at hfence ⊢
    exact ⟨hfence.1, hreply hfence.2⟩
  | closed epoch =>
    simp only [Fence, hqueue, hspares.captureEpoch] at hfence ⊢
    exact ⟨hfence.1, hfence.2.1, hreply hfence.2.2⟩
  | waiting epoch =>
    simp only [Fence, hspares.captureEpoch] at hfence ⊢
    refine ⟨hfence.1, fun hw => ?_⟩
    rcases hfence.2 (hp.working hw) with ⟨before, after, hb⟩ | ⟨before, after, hr⟩
    · left
      refine ⟨before, after, ?_⟩
      constructor
      · rw [hqueue]
        exact hb.queue
      · exact hb.not_before
      · exact hb.not_after
      · exact hb.later.spared hspares
      · exact hreply hb.todo
    · right
      have htasks := hr.todo
      rw [htodo] at htasks
      cases before with
      | nil =>
        simp only [List.nil_append, List.cons.injEq] at htasks
        exact absurd htasks.1 hother
      | cons first before =>
        simp only [List.cons_append, List.cons.injEq] at htasks
        obtain ⟨rfl, hrest⟩ := htasks
        refine ⟨extra ++ before, after, ?_⟩
        constructor
        · rw [hqueue]
          exact hr.queue
        · rw [hqueue]
          exact hr.later.spared hspares
        · rw [hp.todo, List.append_assoc]
          exact congrArg _ hrest
        · simp only [List.mem_append, not_or]
          exact ⟨hp.no_reply call,
            fun hmem => hr.not_before (List.mem_cons_of_mem _ hmem)⟩
        · exact hr.not_after
        · rcases hr.reaped with ⟨stopped, hscan⟩ | hreaped
          · rcases List.mem_cons.mp hscan with hfirst | hscan
            · right
              intro id hid _
              obtain ⟨stopped', hone⟩ := hp.scanned stopped hfirst.symm id hid
              exact ⟨stopped', List.mem_append_left _ hone⟩
            · exact .inl ⟨stopped, List.mem_append_right _ hscan⟩
          · right
            intro id hid hold
            rw [hspares.taps] at hold
            obtain ⟨stopped, hone⟩ := hreaped id (hp.keys id hid) hold
            rcases List.mem_cons.mp hone with hfirst | hone
            · exact absurd hid (hp.reaped id stopped hfirst.symm)
            · exact ⟨stopped, List.mem_append_right _ hone⟩
  | returned epoch =>
    simp only [Fence, hspares.captureEpoch] at hfence ⊢
    refine ⟨hfence.1, fun hw => ?_⟩
    obtain ⟨hclear, hnot, hnone⟩ := hfence.2 (hp.working hw)
    rw [hqueue]
    refine ⟨⟨?_, ?_⟩, hnot, hreply hnone⟩
    · rw [hqueue]
      exact hclear.queue.spared hspares
    · intro id hid
      rw [hspares.taps]
      exact hclear.connections id (hp.keys id hid)

theorem Fence.answered {epoch : Nat} {todo : List Task}
    (htodo : s.todo = .reply call :: todo) (hw : s.working = true)
    (hfence : Fence s call (.waiting epoch)) :
    Fence ({ s with todo := todo }.setStop call (.returned epoch)) call
      (.returned epoch) := by
  refine ⟨hfence.1, fun _ => ?_⟩
  rcases hfence.2 hw with ⟨before, after, hb⟩ | ⟨before, after, hr⟩
  · have hnot := hb.todo
    simp [htodo] at hnot
  · have htasks := hr.todo
    rw [htodo] at htasks
    cases before with
    | cons first before =>
      simp only [List.cons_append, List.cons.injEq] at htasks
      have hnot := hr.not_before
      simp [← htasks.1] at hnot
    | nil =>
      simp only [List.nil_append, List.cons.injEq, true_and] at htasks
      refine ⟨⟨hr.later, ?_⟩, hr.queue, ?_⟩
      · intro id hid
        rcases hr.reaped with ⟨stopped, hscan⟩ | hreaped
        · simp at hscan
        · by_contra hold
          obtain ⟨stopped, hone⟩ := hreaped id hid (Nat.lt_of_not_le hold)
          simp at hone
      · change Task.reply call ∉ todo
        rw [htasks]
        exact hr.not_after

theorem perform_fenced (h : Fenced s) (hw : s.working = true) {task : Task}
    {todo : List Task} (htodo : s.todo = task :: todo) (now : Nat) :
    Fenced ({ s with todo := todo }.perform c a now task) := by
  obtain ⟨extra, hp⟩ := perform_performed (c := c) (a := a)
    { s with todo := todo } now task
  have hdone : Spares s { s with todo := todo } :=
    .own rfl rfl rfl rfl rfl rfl rfl rfl
  have hspares : Spares s ({ s with todo := todo }.perform c a now task) :=
    hdone.trans (spares_perform _ c a now task)
  refine ⟨?_, ?_, ?_⟩
  · intro call
    by_cases hreply : task = .reply call
    · subst hreply
      have hfence := h.calls call
      simp only [perform, answer]
      split
      case h_1 epoch hphase =>
        have hphase : s.stops call = .waiting epoch := hphase
        rw [hphase] at hfence
        have hset : ({ s with todo := todo }.setStop call
            (.returned epoch)).stops call = .returned epoch := by
          simp [setStop]
        rw [hset]
        exact Fence.answered htodo hw hfence
      case h_2 hphase =>
        have hphase : ∀ epoch, s.stops call ≠ .waiting epoch := hphase
        have hmem : Task.reply call ∈ s.todo := by
          simp [htodo]
        change Fence { s with todo := todo } call (s.stops call)
        cases hcase : s.stops call with
        | idle =>
          rw [hcase] at hfence
          exact absurd hmem hfence.2
        | closed epoch =>
          rw [hcase] at hfence
          exact absurd hmem hfence.2.2
        | waiting epoch => exact absurd hcase (hphase epoch)
        | returned epoch =>
          rw [hcase] at hfence
          exact absurd hmem (hfence.2 hw).2.2
    · rw [hp.stops call hreply]
      exact Fence.performed htodo hp hspares hreply (h.calls call)
  · intro id identity hmem
    rw [hp.queue] at hmem
    rw [hspares.next]
    exact h.queued id identity hmem
  · intro id hid
    rw [hspares.next]
    exact h.connected id (hp.keys id hid)

/-! ## Taking an event -/

structure Taken (s s' : Runtime η σ ρ) (e : CaptureEvent η) : Prop where
  queue : s'.queue = s.queue
  todo : s'.todo = s.todo
  stops : s'.stops = s.stops
  working : s'.working = s.working
  keys : ∀ id ∈ s'.connections.keys,
    id ∈ s.connections.keys ∨ ∃ identity, e = .opened id identity
  published : ∀ origin, (∀ id ∈ s.connections.keys, origin ≠ .tap id) →
    (∀ id identity, e = .opened id identity → origin ≠ .tap id) →
    s'.publishedFrom origin = s.publishedFrom origin

theorem Taken.refl (s : Runtime η σ ρ) (e : CaptureEvent η) : Taken s s e :=
  ⟨rfl, rfl, rfl, rfl, fun _ => .inl, fun _ _ _ => rfl⟩

theorem Taken.put {e : CaptureEvent η} {id : Nat}
    (h : id ∈ s.connections.keys ∨ ∃ identity, e = .opened id identity)
    (stream : CaptureStream σ) (records : List ρ) :
    Taken s ((s.store id stream).publish (.tap id) records) e := by
  refine ⟨rfl, rfl, rfl, rfl, fun j hj => ?_, fun origin hkeys hopened => ?_⟩
  · simp only [publish, Runtime.store, Table.mem_keys_insert] at hj
    rcases hj with rfl | hj
    · exact h
    · exact .inl hj
  · refine publishedFrom_publish ?_ _ _
    rcases h with hmem | ⟨identity, heq⟩
    · exact hkeys id hmem
    · exact hopened id identity heq

theorem Taken.pend {e : CaptureEvent η} (h : Taken s s' e) (id : Nat) (n : Int) :
    Taken s (s'.pend id n) e :=
  ⟨h.queue, h.todo, h.stops, h.working, h.keys, h.published⟩

theorem take_taken (s : Runtime η σ ρ) (now : Nat) (e : CaptureEvent η) :
    Taken s (s.take c a now e) e := by
  cases e with
  | opened id identity => exact .put (.inr ⟨identity, rfl⟩) _ _
  | data id side offset bytes =>
    refine Taken.pend ?_ id (-1)
    unfold takeData
    split
    · exact .refl s _
    next hget => exact .put (.inl (Table.mem_keys_of_get? hget)) _ _
  | message id m =>
    refine Taken.pend ?_ id (-1)
    unfold takeMessage
    split
    · exact .refl s _
    next hget => exact .put (.inl (Table.mem_keys_of_get? hget)) _ _
  | barrier => exact .refl s _
  | stopCapture call =>
    exact ⟨rfl, rfl, rfl, rfl, fun _ => .inl, fun _ _ _ => rfl⟩
  | shutdown => exact .refl s _

theorem reply_mem_tasksOf {due : Bool} {e : CaptureEvent η}
    (h : Task.reply call ∈ tasksOf due e) : e = .stopCapture call := by
  have hidle : Task.reply call ∉ tasksOf.idle due := by
    cases due <;> simp [tasksOf.idle]
  cases e with
  | stopCapture other =>
    simp [tasksOf, hidle] at h
    rw [h]
  | _ => simp [tasksOf, hidle] at h

theorem Fence.taken {e : CaptureEvent η} {queue : List (CaptureEvent η)}
    {due : Bool} (hqueue : s.queue = e :: queue) (htodo : s.todo = [])
    (ht : Taken { s with queue := queue, todo := tasksOf due e } s' e)
    (hspares : Spares s s') {phase : StopCall}
    (hfence : Fence s call phase) : Fence s' call phase := by
  have hqueue' : s'.queue = queue := ht.queue
  have htodo' : s'.todo = tasksOf due e := ht.todo
  have hworking : s'.working = s.working := ht.working
  have hold : ∀ {epoch}, NoOld s epoch s.queue → NoOld s' epoch s'.queue := by
    intro epoch hold id identity hmem
    rw [hspares.taps]
    rw [hqueue'] at hmem
    exact hold id identity (by simp [hqueue, hmem])
  have hnever : CaptureEvent.stopCapture call ∉ s.queue →
      CaptureEvent.stopCapture call ∉ s'.queue ∧ Task.reply call ∉ s'.todo := by
    intro hnot
    rw [hqueue] at hnot
    simp only [List.mem_cons, not_or] at hnot
    rw [hqueue', htodo']
    exact ⟨hnot.2, fun hmem => hnot.1 (reply_mem_tasksOf hmem).symm⟩
  cases phase with
  | idle =>
    simp only [Fence] at hfence ⊢
    exact hnever hfence.1
  | closed epoch =>
    simp only [Fence, hspares.captureEpoch] at hfence ⊢
    exact ⟨hfence.1, hnever hfence.2.1⟩
  | waiting epoch =>
    simp only [Fence, hspares.captureEpoch, hworking] at hfence ⊢
    refine ⟨hfence.1, fun hw => ?_⟩
    rcases hfence.2 hw with ⟨before, after, hb⟩ | ⟨before, after, hr⟩
    · have hevents := hb.queue
      rw [hqueue] at hevents
      cases before with
      | nil =>
        simp only [List.nil_append, List.cons.injEq] at hevents
        obtain ⟨rfl, rfl⟩ := hevents
        right
        refine ⟨[.reapScan true true], tasksOf.idle due, ?_⟩
        constructor
        · rw [hqueue']
          exact hb.not_after
        · rw [hqueue']
          exact hb.later.spared hspares
        · rw [htodo']
          rfl
        · simp
        · cases due <;> simp [tasksOf.idle]
        · exact .inl ⟨true, by simp⟩
      | cons first before =>
        simp only [List.cons_append, List.cons.injEq] at hevents
        obtain ⟨rfl, rfl⟩ := hevents
        have hnot := hb.not_before
        simp only [List.mem_cons, not_or] at hnot
        left
        refine ⟨before, after, ?_⟩
        constructor
        · exact hqueue'
        · exact hnot.2
        · exact hb.not_after
        · exact hb.later.spared hspares
        · rw [htodo']
          exact fun hmem => hnot.1 (reply_mem_tasksOf hmem).symm
    · have htasks := hr.todo
      simp [htodo] at htasks
  | returned epoch =>
    simp only [Fence, hspares.captureEpoch, hworking] at hfence ⊢
    refine ⟨hfence.1, fun hw => ?_⟩
    obtain ⟨hclear, hnot, -⟩ := hfence.2 hw
    refine ⟨⟨hold hclear.queue, ?_⟩, hnever hnot⟩
    intro id hid
    rw [hspares.taps]
    rcases ht.keys id hid with hmem | ⟨identity, rfl⟩
    · exact hclear.connections id hmem
    · exact hclear.queue id identity (by simp [hqueue])

theorem take_fenced (h : Fenced s) {e : CaptureEvent η}
    {queue : List (CaptureEvent η)} (hqueue : s.queue = e :: queue)
    (htodo : s.todo = []) (now : Nat) (due : Bool) :
    Fenced ({ s with queue := queue, todo := tasksOf due e }.take c a now e) := by
  have ht := take_taken (c := c) (a := a)
    { s with queue := queue, todo := tasksOf due e } now e
  have hpop : Spares s { s with queue := queue, todo := tasksOf due e } :=
    .own rfl rfl rfl rfl rfl rfl rfl rfl
  have hspares : Spares s
      ({ s with queue := queue, todo := tasksOf due e }.take c a now e) :=
    hpop.trans (spares_take _ c a now e)
  refine ⟨?_, ?_, ?_⟩
  · intro call
    rw [ht.stops]
    exact Fence.taken hqueue htodo ht hspares (h.calls call)
  · intro id identity hmem
    rw [ht.queue] at hmem
    rw [hspares.next]
    exact h.queued id identity (by simp [hqueue, hmem])
  · intro id hid
    rw [hspares.next]
    rcases ht.keys id hid with hmem | ⟨identity, rfl⟩
    · exact h.connected id hmem
    · exact h.queued id identity (by simp [hqueue])

theorem idle_fenced (h : Fenced s) (htodo : s.todo = []) (due : Bool) :
    Fenced { s with todo := tasksOf.idle due } := by
  have hidle : ∀ call, Task.reply call ∉ tasksOf.idle due := by
    intro call
    cases due <;> simp [tasksOf.idle]
  refine ⟨?_, h.queued, h.connected⟩
  intro call
  have hfence := h.calls call
  change Fence { s with todo := tasksOf.idle due } call (s.stops call)
  cases hphase : s.stops call with
  | idle =>
    rw [hphase] at hfence
    exact ⟨hfence.1, hidle call⟩
  | closed epoch =>
    rw [hphase] at hfence
    exact ⟨hfence.1, hfence.2.1, hidle call⟩
  | waiting epoch =>
    rw [hphase] at hfence
    refine ⟨hfence.1, fun hw => ?_⟩
    rcases hfence.2 hw with ⟨before, after, hb⟩ | ⟨before, after, hr⟩
    · exact .inl ⟨before, after,
        ⟨hb.queue, hb.not_before, hb.not_after, hb.later, hidle call⟩⟩
    · have htasks := hr.todo
      simp [htodo] at htasks
  | returned epoch =>
    rw [hphase] at hfence
    refine ⟨hfence.1, fun hw => ?_⟩
    obtain ⟨hclear, hnot, -⟩ := hfence.2 hw
    exact ⟨⟨hclear.queue, hclear.connections⟩, hnot, hidle call⟩

theorem work_fenced (h : Fenced s) (now : Nat) (due : Bool) :
    Fenced (s.work c a now due) := by
  unfold work
  split
  case isTrue => exact h
  case isFalse hw =>
    have hw : s.working = true := by
      simpa using hw
    split
    case h_1 task todo htodo => exact perform_fenced h hw htodo now
    case h_2 htodo hqueue => exact idle_fenced h htodo due
    case h_3 e queue htodo hqueue => exact take_fenced h hqueue htodo now due

theorem work_published (s : Runtime η σ ρ) (now : Nat) (due : Bool)
    {origin : Origin}
    (hkeys : s.working = true → ∀ id ∈ s.connections.keys, origin ≠ .tap id)
    (hqueue : s.working = true → ∀ id identity, .opened id identity ∈ s.queue →
      origin ≠ .tap id) :
    (s.work c a now due).publishedFrom origin = s.publishedFrom origin := by
  unfold work
  split
  case isTrue => rfl
  case isFalse hw =>
    have hw : s.working = true := by
      simpa using hw
    split
    case h_1 task todo htodo =>
      obtain ⟨extra, hp⟩ := perform_performed (c := c) (a := a)
        { s with todo := todo } now task
      exact hp.published origin (hkeys hw)
    case h_2 => rfl
    case h_3 e queue htodo hevents =>
      have ht := take_taken (c := c) (a := a)
        { s with queue := queue, todo := tasksOf due e } now e
      apply ht.published origin (hkeys hw)
      rintro id identity rfl
      exact hqueue hw id identity (by simp [hevents])

end Worker

/-! ## Runs -/

section Runs

variable {c : CaptureConfig} {a : Analysis η σ ρ} {s : Runtime η σ ρ}

theorem step_ordinary (h : Orderly s) {e : CaptureStep η ρ}
    (hstop : ∀ call, e ≠ .stopCapture call) (hgoes : ∀ call, e ≠ .stopGoesOn call)
    (hwork : ∀ now due, e ≠ .work now due) : Ordinary s (s.step c a e) := by
  cases e with
  | startCapture => exact startCapture_ordinary
  | stopCapture call => exact absurd rfl (hstop call)
  | stopGoesOn call => exact absurd rfl (hgoes call)
  | tapAt epoch identity => exact tapAt_ordinary c epoch identity
  | hold => exact hold_ordinary h c
  | data id side bytes => exact (data_quiet id side bytes).ordinary
  | tryData id side bytes contended =>
    exact tryData_ordinary h c id side bytes contended
  | send id m => exact (send_quiet id m).ordinary
  | dataAsync id side bytes => exact (dataAsync_quiet id side bytes).ordinary
  | sendAsync id m => exact (sendAsync_quiet id m).ordinary
  | attempt id k contended => exact attempt_ordinary h c id k contended
  | cancel id k => exact (cancel_quiet c id k).ordinary
  | closeReason id reason => exact (quiet_ticket s id _).ordinary
  | transportClosed id side error => exact (quiet_ticket s id _).ordinary
  | dropTap id => exact (dropTap_quiet id).ordinary
  | lifecycle epoch record => exact lifecycle_ordinary epoch record
  | query => exact submit_ordinary c rfl (by simp)
  | shutdown =>
    apply Quiet.ordinary
    simp only [step, shutdown]
    split
    · exact .refl s
    · constructor <;> intros <;> rfl
  | sendShutdown =>
    simp only [step]
    split
    · exact submit_ordinary c rfl (by simp)
    · exact (Quiet.refl s).ordinary
  | work now due => exact absurd rfl (hwork now due)
  | failure =>
    apply Quiet.ordinary
    constructor <;> intros <;> rfl
  | panic => exact panic_ordinary

theorem stopGoesOn_produces (c : CaptureConfig) (call : Nat) :
    ∃ events, Produces s (s.stopGoesOn c call) events := by
  have hset : ∀ phase, Produces s (s.setStop call phase) [] := by
    intro phase
    constructor
    case working => exact fun hw => hw
    case published => exact fun origin _ => rfl
    all_goals simp [setStop]
  unfold stopGoesOn
  split
  · split
    · exact ⟨[], hset _⟩
    · split
      · refine ⟨[.stopCapture call], ?_⟩
        constructor
        case working => exact fun hw => hw
        case published => exact fun origin _ => rfl
        all_goals simp [setStop, push, ownerOf]
      · exact ⟨[], (Quiet.refl s).produces⟩
  · split
    · exact ⟨[], (Quiet.refl s).produces⟩
    · exact ⟨[], hset _⟩
  · exact ⟨[], (Quiet.refl s).produces⟩

private theorem stopCapture_produces (call : Nat) :
    Produces s (s.stopCapture call) [] := by
  unfold stopCapture
  split
  · exact (Quiet.refl s).produces
  · constructor
    case epoch_le =>
      simp only [setStop, closedEpoch]
      split <;> omega
    case working => exact fun hw => hw
    case published => exact fun origin _ => rfl
    all_goals simp [setStop]

theorem step_produces (h : Orderly s) {e : CaptureStep η ρ}
    (hwork : ∀ now due, e ≠ .work now due) :
    ∃ events, Produces s (s.step c a e) events := by
  by_cases hstop : ∃ call, e = .stopCapture call
  · obtain ⟨call, rfl⟩ := hstop
    exact ⟨[], stopCapture_produces call⟩
  · by_cases hgoes : ∃ call, e = .stopGoesOn call
    · obtain ⟨call, rfl⟩ := hgoes
      exact stopGoesOn_produces c call
    · obtain ⟨events, hp, -⟩ := (step_ordinary (c := c) (a := a) h
        (fun call he => hstop ⟨call, he⟩) (fun call he => hgoes ⟨call, he⟩)
        hwork).produces
      exact ⟨events, hp⟩

structure Capturing (s : Runtime η σ ρ) : Prop where
  orderly : Orderly s
  fenced : Fenced s

theorem step_capturing (s : Runtime η σ ρ) (e : CaptureStep η ρ)
    (h : Capturing s) : Capturing (s.step c a e) := by
  refine ⟨step_orderly s e h.orderly, ?_⟩
  cases e with
  | stopCapture call => exact stopCapture_fenced h.fenced call
  | stopGoesOn call => exact stopGoesOn_fenced h.fenced c call
  | work now due => exact work_fenced h.fenced now due
  | _ =>
    exact (step_ordinary h.orderly (by simp) (by simp) (by simp)).fenced h.fenced

theorem step_epochs (h : Orderly s) (e : CaptureStep η ρ) :
    s.next ≤ (s.step c a e).next ∧
    s.captureEpoch ≤ (s.step c a e).captureEpoch ∧
    ∀ id, id < s.next → ((s.step c a e).taps id).epoch = (s.taps id).epoch := by
  by_cases hwork : ∃ now due, e = .work now due
  · obtain ⟨now, due, rfl⟩ := hwork
    have hspares := spares_work s c a now due
    refine ⟨Nat.le_of_eq hspares.next.symm,
      Nat.le_of_eq hspares.captureEpoch.symm, fun id _ => ?_⟩
    simp only [step, hspares.taps]
  · obtain ⟨events, hp⟩ := step_produces (c := c) (a := a) h
      (fun now due he => hwork ⟨now, due, he⟩)
    exact ⟨hp.next_le, hp.epoch_le, hp.epochs⟩

variable {id : Nat}

theorem step_sentBy (h : Orderly s) (e : CaptureStep η ρ)
    (hpast : (s.taps id).epoch < s.captureEpoch) :
    (s.step c a e).sentBy id = s.sentBy id := by
  by_cases hwork : ∃ now due, e = .work now due
  · obtain ⟨now, due, rfl⟩ := hwork
    simp only [step, sentBy, (spares_work s c a now due).sent]
  · obtain ⟨events, hp⟩ := step_produces (c := c) (a := a) h
      (fun now due he => hwork ⟨now, due, he⟩)
    have hnone : events.filter (fun e => ownerOf e == some id) = [] := by
      simp only [List.filter_eq_nil_iff, beq_iff_eq]
      intro e he howner
      have hcurrent := (hp.current e he id howner).2
      omega
    rw [sentBy, hp.sent, List.filter_append, hnone, List.append_nil, sentBy]

theorem run_sentBy (h : Capturing s) (hid : id < s.next)
    (hpast : (s.taps id).epoch < s.captureEpoch) (steps : List (CaptureStep η ρ)) :
    (run (step c a) s steps).sentBy id = s.sentBy id := by
  induction steps generalizing s with
  | nil => rfl
  | cons e steps ih =>
    obtain ⟨hnext, hepoch, htap⟩ := step_epochs (c := c) (a := a) h.orderly e
    rw [run_cons, ih (step_capturing s e h) (by omega), step_sentBy h.orderly e
      hpast]
    rw [htap id hid]
    omega

variable {epoch call : Nat}

theorem step_published_tap (h : Capturing s) (e : CaptureStep η ρ)
    (hreturned : s.stops call = .returned epoch)
    (hpast : (s.taps id).epoch < epoch) :
    (s.step c a e).publishedFrom (.tap id) = s.publishedFrom (.tap id) := by
  by_cases hwork : ∃ now due, e = .work now due
  · obtain ⟨now, due, rfl⟩ := hwork
    have hfence := h.fenced.calls call
    rw [hreturned] at hfence
    apply work_published
    · intro hw j hj htap
      injection htap with htap
      subst htap
      have hlater := (hfence.2 hw).1.connections id hj
      omega
    · intro hw j identity hmem htap
      injection htap with htap
      subst htap
      have hlater := (hfence.2 hw).1.queue id identity hmem
      omega
  · obtain ⟨events, hp⟩ := step_produces (c := c) (a := a) h.orderly
      (fun now due he => hwork ⟨now, due, he⟩)
    exact hp.published (.tap id) (by simp)

theorem answer_returned (s : Runtime η σ ρ) (other : Nat)
    (h : s.stops call = .returned epoch) :
    (s.answer other).stops call = .returned epoch := by
  unfold answer
  split
  case h_1 hphase =>
    have hne : call ≠ other := by
      rintro rfl
      simp [h] at hphase
    simpa [setStop, alter_ne hne] using h
  case h_2 => exact h

theorem work_returned (s : Runtime η σ ρ) (now : Nat) (due : Bool)
    (h : s.stops call = .returned epoch) :
    (s.work c a now due).stops call = .returned epoch := by
  unfold work
  split
  case isTrue => exact h
  case isFalse =>
    split
    case h_1 task todo htodo =>
      by_cases hreply : task = .reply call
      · subst hreply
        exact answer_returned { s with todo := todo } call h
      · obtain ⟨extra, hp⟩ := perform_performed (c := c) (a := a)
          { s with todo := todo } now task
        rw [hp.stops call hreply]
        exact h
    case h_2 => exact h
    case h_3 e queue htodo hqueue =>
      rw [(take_taken (c := c) (a := a)
        { s with queue := queue, todo := tasksOf due e } now e).stops]
      exact h

theorem step_returned (h : Orderly s) (e : CaptureStep η ρ)
    (hreturned : s.stops call = .returned epoch) :
    (s.step c a e).stops call = .returned epoch := by
  have hset : ∀ {u : Runtime η σ ρ} {other : Nat} {phase : StopCall},
      u.stops = s.stops → s.stops other ≠ .returned epoch →
      (u.setStop other phase).stops call = .returned epoch := by
    intro u other phase hu hother
    have hne : call ≠ other := by
      rintro rfl
      exact hother hreturned
    simpa [setStop, alter_ne hne, hu] using hreturned
  cases e with
  | stopCapture other =>
    simp only [step, stopCapture]
    split
    case isTrue => exact hreturned
    case isFalse hidle =>
      simp only [not_or, not_not] at hidle
      exact hset rfl (by simp [hidle.2])
  | stopGoesOn other =>
    simp only [step, stopGoesOn]
    split
    case h_1 hphase =>
      split
      · exact hset rfl (by simp [hphase])
      · split
        · exact hset rfl (by simp [hphase])
        · exact hreturned
    case h_2 hphase =>
      split
      · exact hreturned
      · exact hset rfl (by simp [hphase])
    case h_3 => exact hreturned
  | work now due => exact work_returned s now due hreturned
  | _ =>
    rw [(step_ordinary h (by simp) (by simp) (by simp)).stops]
    exact hreturned

theorem run_published_tap (h : Capturing s)
    (hreturned : s.stops call = .returned epoch) (hid : id < s.next)
    (hpast : (s.taps id).epoch < epoch) (steps : List (CaptureStep η ρ)) :
    (run (step c a) s steps).publishedFrom (.tap id) = s.publishedFrom (.tap id) := by
  induction steps generalizing s with
  | nil => rfl
  | cons e steps ih =>
    obtain ⟨hnext, -, htap⟩ := step_epochs (c := c) (a := a) h.orderly e
    rw [run_cons, ih (step_capturing s e h) (step_returned h.orderly e hreturned)
      (by omega), step_published_tap h e hreturned hpast]
    rw [htap id hid]
    exact hpast

theorem run_published_lifecycle (h : Capturing s)
    (hpast : epoch < s.captureEpoch) (steps : List (CaptureStep η ρ)) :
    (run (step c a) s steps).publishedFrom (.lifecycle epoch) =
      s.publishedFrom (.lifecycle epoch) := by
  induction steps generalizing s with
  | nil => rfl
  | cons e steps ih =>
    obtain ⟨-, hepoch, -⟩ := step_epochs (c := c) (a := a) h.orderly e
    rw [run_cons, ih (step_capturing s e h) (by omega)]
    by_cases hwork : ∃ now due, e = .work now due
    · obtain ⟨now, due, rfl⟩ := hwork
      exact work_published s now due (by simp) (by simp)
    · obtain ⟨events, hp⟩ := step_produces (c := c) (a := a) h.orderly
        (fun now due he => hwork ⟨now, due, he⟩)
      apply hp.published
      simp
      omega

theorem run_capturing (c : CaptureConfig) (a : Analysis η σ ρ)
    (steps : List (CaptureStep η ρ)) : Capturing (run (step c a) initial steps) :=
  run_induction step_capturing ⟨initial_orderly, initial_fenced⟩ steps

/-- For any order of the steps of producers and worker: what a tap has sent on
a side is, chunk by chunk with its offsets, a prefix of what it was fed there.
A call of `stop_capture` that finds an epoch open closes it for all taps that
were opened; from then on none of them sends, and once the call has returned
nothing is published of them. -/
theorem taps_fenced_by_epochs (c : CaptureConfig) (a : Analysis η σ ρ)
    (before after : List (CaptureStep η ρ)) :
    (∀ id side,
      Contiguous 0 (chunksOn side ((run (step c a) initial before).chunksSent id)) ∧
      bytesOn side ((run (step c a) initial before).chunksSent id) <+:
        ((run (step c a) initial before).taps id).fed.get side) ∧
    (∀ call, (run (step c a) initial before).holder = none →
      (run (step c a) initial before).stops call = .idle →
      (run (step c a) initial before).captureEpoch % 2 = 1 →
      ((run (step c a) initial before).stopCapture call).stops call =
        .closed ((run (step c a) initial before).stopCapture call).captureEpoch ∧
      ∀ id, ((run (step c a) initial before).taps id).epoch <
        ((run (step c a) initial before).stopCapture call).captureEpoch) ∧
    (∀ id, id < (run (step c a) initial before).next →
      ((run (step c a) initial before).taps id).epoch <
        (run (step c a) initial before).captureEpoch →
      (run (step c a) initial (before ++ after)).sentBy id =
        (run (step c a) initial before).sentBy id) ∧
    (∀ call epoch,
      (run (step c a) initial before).stops call = .returned epoch →
      ∀ id, id < (run (step c a) initial before).next →
      ((run (step c a) initial before).taps id).epoch < epoch →
      (run (step c a) initial (before ++ after)).publishedFrom (.tap id) =
        (run (step c a) initial before).publishedFrom (.tap id)) ∧
    (∀ epoch, epoch < (run (step c a) initial before).captureEpoch →
      (run (step c a) initial (before ++ after)).publishedFrom
          (.lifecycle epoch) =
        (run (step c a) initial before).publishedFrom (.lifecycle epoch)) := by
  have hcapturing := run_capturing c a before
  rw [run_append]
  refine ⟨?_, ?_, ?_, ?_, ?_⟩
  · intro id side
    have hfaithful := (hcapturing.orderly.good id).faithful side
    exact ⟨hfaithful.contiguous, hfaithful.sent_from_fed⟩
  · intro call hfree hidle hodd
    have hclosed : (run (step c a) initial before).closedEpoch =
        (run (step c a) initial before).captureEpoch + 1 := by
      unfold closedEpoch
      rw [if_neg (by omega)]
    have hstop : (run (step c a) initial before).stopCapture call =
        { run (step c a) initial before with
          captureEpoch := (run (step c a) initial before).closedEpoch }.setStop
          call (.closed (run (step c a) initial before).closedEpoch) := by
      unfold stopCapture
      rw [if_neg]
      simp [hfree, hidle]
    rw [hstop]
    refine ⟨by simp [setStop], fun id => ?_⟩
    have hle := hcapturing.orderly.sane.epoch_le id
    change _ < (run (step c a) initial before).closedEpoch
    omega
  · intro id hid hpast
    exact run_sentBy hcapturing hid hpast after
  · intro call epoch hreturned id hid hpast
    exact run_published_tap hcapturing hreturned hid hpast after
  · intro epoch hpast
    exact run_published_lifecycle hcapturing hpast after

end Runs

end Runtime

end ProxyLane.Mitm
