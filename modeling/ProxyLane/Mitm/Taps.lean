import ProxyLane.Mitm.Capture

/-!
# What a tap sends

The chunks that a tap puts into the queue for one side are a prefix of what it
was fed on that side, each with its offset.  Closing an epoch ends its taps:
none of them sends again, and when the call that closed it has returned, the
worker publishes nothing of them any more.
-/

namespace ProxyLane.Mitm

open ProxyLane.Foundation ProxyLane.Protocol

variable {η σ ρ : Type}

/-! ## One tap -/

/-- A call that has bytes to send: the next chunk with its offset, and the
chunks behind it. -/
structure DataCall where
  side : Direction
  offset : Nat
  chunk : Bytes
  rest : List Bytes
  deriving DecidableEq, Repr

def leftOn (side : Direction) : Option DataCall → Bytes
  | some call => if call.side = side then call.chunk ++ call.rest.flatten else []
  | none => []

/-- A tap beside the chunks that it has sent.  It can send while it is
capturing or keeps the lock. -/
structure TapState where
  fed : Sides Bytes
  offsets : Sides Nat
  live : Bool
  current : Option DataCall
  sent : List (Direction × Nat × Bytes)
  canSend : Bool

def chunksOn (side : Direction) (sent : List (Direction × Nat × Bytes)) :
    List (Nat × Bytes) :=
  sent.filterMap fun e => if e.1 = side then some e.2 else none

def bytesOn (side : Direction) (sent : List (Direction × Nat × Bytes)) : Bytes :=
  ((chunksOn side sent).map Prod.snd).flatten

def Contiguous : Nat → List (Nat × Bytes) → Prop
  | _, [] => True
  | start, (offset, bytes) :: rest =>
    offset = start ∧ Contiguous (start + bytes.length) rest

theorem contiguous_append (start : Nat) (xs ys : List (Nat × Bytes)) :
    Contiguous start (xs ++ ys) ↔
      Contiguous start xs ∧
        Contiguous (start + (xs.map Prod.snd).flatten.length) ys := by
  induction xs generalizing start with
  | nil => simp [Contiguous]
  | cons x xs ih =>
    simp only [List.cons_append, Contiguous, ih, List.map_cons,
      List.flatten_cons, List.length_append, and_assoc, Nat.add_assoc]

theorem chunksOn_append_self (side : Direction) (offset : Nat) (bytes : Bytes)
    (sent : List (Direction × Nat × Bytes)) :
    chunksOn side (sent ++ [(side, offset, bytes)]) =
      chunksOn side sent ++ [(offset, bytes)] := by
  simp [chunksOn]

theorem chunksOn_append_other {side s : Direction} (h : s ≠ side) (offset : Nat)
    (bytes : Bytes) (sent : List (Direction × Nat × Bytes)) :
    chunksOn side (sent ++ [(s, offset, bytes)]) = chunksOn side sent := by
  simp [chunksOn, h]

theorem bytesOn_append_self (side : Direction) (offset : Nat) (bytes : Bytes)
    (sent : List (Direction × Nat × Bytes)) :
    bytesOn side (sent ++ [(side, offset, bytes)]) = bytesOn side sent ++ bytes := by
  simp [bytesOn, chunksOn_append_self]

theorem bytesOn_append_other {side s : Direction} (h : s ≠ side) (offset : Nat)
    (bytes : Bytes) (sent : List (Direction × Nat × Bytes)) :
    bytesOn side (sent ++ [(s, offset, bytes)]) = bytesOn side sent := by
  simp [bytesOn, chunksOn_append_other h]

namespace TapState

structure Faithful (t : TapState) (side : Direction) : Prop where
  contiguous : Contiguous 0 (chunksOn side t.sent)
  sent_from_fed : bytesOn side t.sent <+: t.fed.get side

structure Complete (t : TapState) (side : Direction) : Prop where
  offsets : t.live = true → t.offsets.get side = (bytesOn side t.sent).length
  call : ∀ call, t.current = some call → call.side = side →
    call.offset = (bytesOn side t.sent).length
  left_from_fed : bytesOn side t.sent ++ leftOn side t.current <+: t.fed.get side
  left_eq : t.live = true →
    bytesOn side t.sent ++ leftOn side t.current = t.fed.get side

structure Good (t : TapState) : Prop where
  faithful : ∀ side, t.Faithful side
  complete : t.canSend = true → ∀ side, t.Complete side

def advance (offsets : Sides Nat) (call : DataCall) : Option DataCall :=
  match call.rest with
  | [] => none
  | chunk :: rest => some ⟨call.side, offsets.get call.side, chunk, rest⟩

def counted (t : TapState) (call : DataCall) : Sides Nat :=
  t.offsets.modify call.side fun n => n + call.chunk.length

/-- What can happen to a tap. -/
inductive Step (t t' : TapState) : Prop where
  /-- A tap that is only watched, given up or fenced. -/
  | rest (hfed : t'.fed = t.fed) (hoffsets : t'.offsets = t.offsets)
      (hlive : t'.live = true → t.live = true) (hcurrent : t'.current = t.current)
      (hsent : t'.sent = t.sent) (hsend : t'.canSend = true → t.canSend = true)
  /-- A fenced tap takes no bytes and sends none. -/
  | fenced (hfed : ∀ side, t.fed.get side <+: t'.fed.get side)
      (hsent : t'.sent = t.sent) (hsend : t'.canSend = false)
  /-- A call begins. -/
  | begin (call : DataCall) (hfree : t.current = none) (hlive : t.live = true)
      (hfed : t'.fed = t.fed.modify call.side fun fed =>
        fed ++ (call.chunk ++ call.rest.flatten))
      (hoffset : call.offset = t.offsets.get call.side)
      (hoffsets : t'.offsets = t.offsets) (hcurrent : t'.current = some call)
      (hsent : t'.sent = t.sent) (hsend : t'.canSend = true → t.canSend = true)
  /-- Its chunk is sent, and it goes on. -/
  | chunk (call : DataCall) (hcurrent : t.current = some call)
      (hcan : t.canSend = true) (hfed : t'.fed = t.fed)
      (hoffsets : t'.offsets = t.counted call)
      (hnext : t'.current = advance t'.offsets call) (hlive : t.live = true)
      (hsent : t'.sent = t.sent ++ [(call.side, call.offset, call.chunk)])
  /-- The chunk of a cancelled call is sent. -/
  | last (call : DataCall) (hcurrent : t.current = some call)
      (hcan : t.canSend = true) (hfed : t'.fed = t.fed)
      (hnone : t'.current = none) (hdead : t'.live = false)
      (hsent : t'.sent = t.sent ++ [(call.side, call.offset, call.chunk)])
  /-- A call is cancelled: what is behind its chunk is left out. -/
  | cancel (call : DataCall) (hcurrent : t.current = some call)
      (hfed : t'.fed = t.fed)
      (hcancelled : t'.current = some { call with rest := [] })
      (hdead : t'.live = false) (hsent : t'.sent = t.sent)
      (hsend : t'.canSend = true → t.canSend = true)
  /-- A call that does not wait. -/
  | direct (side : Direction) (bytes : Bytes) (hfree : t.current = none)
      (hlive : t.live = true) (hcan : t.canSend = true)
      (hfed : t'.fed = t.fed.modify side fun fed => fed ++ bytes)
      (hoffsets : t'.offsets = t.offsets.modify side fun n => n + bytes.length)
      (hcurrent : t'.current = none)
      (hsent : t'.sent = t.sent ++ [(side, t.offsets.get side, bytes)])

/-! ## Steps of one tap -/

section Good

variable {t t' : TapState}

variable {side : Direction}

theorem Faithful.rest (h : t.Faithful side)
    (hfed : t.fed.get side <+: t'.fed.get side) (hsent : t'.sent = t.sent) :
    t'.Faithful side := by
  constructor
  · rw [hsent]
    exact h.contiguous
  · rw [hsent]
    exact h.sent_from_fed.trans hfed

theorem Faithful.append {s : Direction} {offset : Nat} {bytes : Bytes}
    (h : t.Faithful side) (hsent : t'.sent = t.sent ++ [(s, offset, bytes)])
    (hoffset : s = side → offset = (bytesOn side t.sent).length)
    (hfed : t.fed.get side <+: t'.fed.get side)
    (hnext : s = side → bytesOn side t.sent ++ bytes <+: t'.fed.get side) :
    t'.Faithful side := by
  by_cases hs : s = side
  · subst hs
    constructor
    · rw [hsent, chunksOn_append_self, contiguous_append]
      refine ⟨h.contiguous, ?_, trivial⟩
      rw [Nat.zero_add]
      exact hoffset rfl
    · rw [hsent, bytesOn_append_self]
      exact hnext rfl
  · constructor
    · rw [hsent, chunksOn_append_other hs]
      exact h.contiguous
    · rw [hsent, bytesOn_append_other hs]
      exact h.sent_from_fed.trans hfed

theorem leftOn_advance (offsets : Sides Nat) (call : DataCall) :
    leftOn call.side (advance offsets call) = call.rest.flatten := by
  unfold advance
  split
  case h_1 hrest => simp [leftOn, hrest]
  case h_2 chunk rest hrest => simp [leftOn, hrest]

theorem leftOn_other {current : Option DataCall}
    (h : ∀ call, current = some call → call.side ≠ side) :
    leftOn side current = [] := by
  cases current with
  | none => rfl
  | some call => simp [leftOn, h call rfl]

variable {call : DataCall}

theorem advance_side {offsets : Sides Nat} {next : DataCall}
    (h : advance offsets call = some next) :
    next.side = call.side ∧ next.offset = offsets.get call.side := by
  unfold advance at h
  split at h
  case h_1 => cases h
  case h_2 =>
    injection h with h
    subst h
    exact ⟨rfl, rfl⟩

theorem Good.begin (h : t.Good) (hfree : t.current = none)
    (hlive : t.live = true)
    (hfed : t'.fed = t.fed.modify call.side fun fed =>
      fed ++ (call.chunk ++ call.rest.flatten))
    (hoffset : call.offset = t.offsets.get call.side)
    (hoffsets : t'.offsets = t.offsets) (hcurrent : t'.current = some call)
    (hsent : t'.sent = t.sent) (hsend : t'.canSend = true → t.canSend = true) :
    t'.Good := by
  have hgrow : ∀ side, t.fed.get side <+: t'.fed.get side := by
    intro side
    rw [hfed, Sides.get_modify]
    split
    · exact List.prefix_append _ _
    · exact List.prefix_refl _
  refine ⟨fun side => (h.faithful side).rest (hgrow side) hsent, ?_⟩
  intro hcan side
  have hcomplete := h.complete (hsend hcan) side
  have hall : bytesOn side t.sent = t.fed.get side := by
    simpa [hfree, leftOn] using hcomplete.left_eq hlive
  have hleft : bytesOn side t'.sent ++ leftOn side t'.current =
      t'.fed.get side := by
    rw [hsent, hcurrent, hfed, Sides.get_modify, hall]
    by_cases hside : call.side = side
    · simp [leftOn, hside]
    · simp [leftOn, hside, Ne.symm hside]
  constructor
  · intro _
    rw [hoffsets, hsent]
    exact hcomplete.offsets hlive
  · intro other hother hside
    rw [hcurrent] at hother
    injection hother with hother
    subst hother hside
    rw [hsent, hoffset]
    exact hcomplete.offsets hlive
  · rw [hleft]
  · intro _
    exact hleft

theorem Good.sent_faithful (h : t.Good) {call : DataCall}
    (hcurrent : t.current = some call) (hcan : t.canSend = true)
    (hfed : t'.fed = t.fed)
    (hsent : t'.sent = t.sent ++ [(call.side, call.offset, call.chunk)])
    (side : Direction) : t'.Faithful side := by
  have hcomplete := h.complete hcan side
  apply (h.faithful side).append hsent
  · intro hside
    exact hcomplete.call call hcurrent hside
  · rw [hfed]
  · intro hside
    rw [hfed]
    have hprefix := hcomplete.left_from_fed
    rw [hcurrent, leftOn, if_pos hside, ← List.append_assoc] at hprefix
    exact (List.prefix_append _ _).trans hprefix

theorem Good.chunk (h : t.Good)
    (hcurrent : t.current = some call) (hcan : t.canSend = true)
    (hfed : t'.fed = t.fed) (hoffsets : t'.offsets = t.counted call)
    (hnext : t'.current = advance t'.offsets call) (hlive : t.live = true)
    (hsent : t'.sent = t.sent ++ [(call.side, call.offset, call.chunk)]) :
    t'.Good := by
  have hleft : ∀ side, bytesOn side t'.sent ++ leftOn side t'.current =
      bytesOn side t.sent ++ leftOn side t.current := by
    intro side
    rw [hsent, hnext, hcurrent]
    by_cases hside : call.side = side
    · subst hside
      rw [bytesOn_append_self, leftOn_advance, List.append_assoc]
      simp [leftOn]
    · have hother : leftOn side (advance t'.offsets call) = [] := by
        apply leftOn_other
        intro next hadvance
        rw [(advance_side hadvance).1]
        exact hside
      rw [bytesOn_append_other hside, hother]
      simp [leftOn, hside]
  refine ⟨h.sent_faithful hcurrent hcan hfed hsent, fun _ side => ?_⟩
  have hcomplete := h.complete hcan side
  have hcount : t'.offsets.get side = (bytesOn side t'.sent).length := by
    have hold := hcomplete.offsets hlive
    rw [hoffsets, counted, Sides.get_modify, hsent]
    by_cases hside : call.side = side
    · subst hside
      simp [bytesOn_append_self, hold]
    · simp [bytesOn_append_other hside, Ne.symm hside, hold]
  constructor
  · intro _
    exact hcount
  · intro next hadvance hside
    rw [hnext] at hadvance
    obtain ⟨hsame, hoffset⟩ := advance_side hadvance
    rw [hoffset, ← hsame, hside]
    exact hcount
  · rw [hleft, hfed]
    exact hcomplete.left_from_fed
  · intro _
    rw [hleft, hfed]
    exact hcomplete.left_eq hlive

theorem Good.last (h : t.Good) {call : DataCall}
    (hcurrent : t.current = some call) (hcan : t.canSend = true)
    (hfed : t'.fed = t.fed) (hnone : t'.current = none) (hdead : t'.live = false)
    (hsent : t'.sent = t.sent ++ [(call.side, call.offset, call.chunk)]) :
    t'.Good := by
  have hfaithful := h.sent_faithful hcurrent hcan hfed hsent
  refine ⟨hfaithful, fun _ side => ?_⟩
  constructor
  · simp [hdead]
  · simp [hnone]
  · simpa [hnone, leftOn] using (hfaithful side).sent_from_fed
  · simp [hdead]

theorem Good.cancel (h : t.Good)
    (hcurrent : t.current = some call) (hfed : t'.fed = t.fed)
    (hcancelled : t'.current = some { call with rest := [] })
    (hdead : t'.live = false) (hsent : t'.sent = t.sent)
    (hsend : t'.canSend = true → t.canSend = true) : t'.Good := by
  constructor
  · intro side
    exact (h.faithful side).rest (by rw [hfed]) hsent
  · intro hcan side
    have hcomplete := h.complete (hsend hcan) side
    constructor
    · simp [hdead]
    · intro next hnext hside
      rw [hcancelled] at hnext
      injection hnext with hnext
      subst hnext
      rw [hsent]
      exact hcomplete.call call hcurrent hside
    · have hprefix := hcomplete.left_from_fed
      have hshort : leftOn side t'.current <+: leftOn side t.current := by
        rw [hcancelled, hcurrent]
        by_cases hside : call.side = side
        · simp [leftOn, hside]
        · simp [leftOn, hside]
      rw [hsent, hfed]
      exact ((List.prefix_append_right_inj _).mpr hshort).trans hprefix
    · simp [hdead]

theorem Good.direct (h : t.Good) {bytes : Bytes}
    (hfree : t.current = none) (hlive : t.live = true) (hcan : t.canSend = true)
    (hfed : t'.fed = t.fed.modify side fun fed => fed ++ bytes)
    (hoffsets : t'.offsets = t.offsets.modify side fun n => n + bytes.length)
    (hcurrent : t'.current = none)
    (hsent : t'.sent = t.sent ++ [(side, t.offsets.get side, bytes)]) :
    t'.Good := by
  have hall : ∀ s, bytesOn s t.sent = t.fed.get s := by
    intro s
    simpa [hfree, leftOn] using (h.complete hcan s).left_eq hlive
  have hnow : ∀ s, bytesOn s t'.sent = t'.fed.get s := by
    intro s
    rw [hsent, hfed, Sides.get_modify]
    by_cases hs : s = side
    · subst hs
      simp [bytesOn_append_self, hall]
    · simp [bytesOn_append_other (Ne.symm hs), hs, hall]
  constructor
  · intro s
    apply (h.faithful s).append hsent
    · rintro rfl
      exact (h.complete hcan side).offsets hlive
    · rw [hfed, Sides.get_modify]
      split
      · exact List.prefix_append _ _
      · exact List.prefix_refl _
    · rintro rfl
      rw [← hnow, hsent, bytesOn_append_self]
  · intro _ s
    constructor
    · intro _
      have hold := (h.complete hcan s).offsets hlive
      rw [hoffsets, Sides.get_modify, hsent]
      by_cases hs : s = side
      · subst hs
        simp [bytesOn_append_self, hold]
      · simp [bytesOn_append_other (Ne.symm hs), hs, hold]
    · simp [hcurrent]
    · rw [hcurrent, hnow]
      simp [leftOn]
    · intro _
      rw [hcurrent, hnow]
      simp [leftOn]

theorem Good.step (h : t.Good) (hstep : Step t t') : t'.Good := by
  cases hstep with
  | rest hfed hoffsets hlive hcurrent hsent hsend =>
    constructor
    · intro side
      exact (h.faithful side).rest (by rw [hfed]) hsent
    · intro hcan side
      have hcomplete := h.complete (hsend hcan) side
      constructor
      · intro hlive'
        rw [hoffsets, hsent]
        exact hcomplete.offsets (hlive hlive')
      · rw [hcurrent, hsent]
        exact hcomplete.call
      · rw [hcurrent, hsent, hfed]
        exact hcomplete.left_from_fed
      · intro hlive'
        rw [hcurrent, hsent, hfed]
        exact hcomplete.left_eq (hlive hlive')
  | fenced hfed hsent hsend =>
    constructor
    · intro side
      exact (h.faithful side).rest (hfed side) hsent
    · simp [hsend]
  | begin call hfree hlive hfed hoffset hoffsets hcurrent hsent hsend =>
    exact h.begin hfree hlive hfed hoffset hoffsets hcurrent hsent hsend
  | chunk call hcurrent hcan hfed hoffsets hnext hlive hsent =>
    exact h.chunk hcurrent hcan hfed hoffsets hnext hlive hsent
  | last call hcurrent hcan hfed hnone hdead hsent =>
    exact h.last hcurrent hcan hfed hnone hdead hsent
  | cancel call hcurrent hfed hcancelled hdead hsent hsend =>
    exact h.cancel hcurrent hfed hcancelled hdead hsent hsend
  | direct side bytes hfree hlive hcan hfed hoffsets hcurrent hsent =>
    exact h.direct hfree hlive hcan hfed hoffsets hcurrent hsent

end Good

end TapState

theorem TapState.Good.blank {t : TapState} (hfed : t.fed = ⟨[], []⟩)
    (hoffsets : t.offsets = ⟨0, 0⟩) (hcurrent : t.current = none)
    (hsent : t.sent = []) : t.Good := by
  constructor
  · intro side
    constructor
    · simp [hsent, chunksOn, Contiguous]
    · simp [hsent, bytesOn, chunksOn]
  · intro _ side
    have hnone : t.fed.get side = [] ∧ t.offsets.get side = 0 := by
      cases side <;> simp [hfed, hoffsets, Sides.get]
    constructor
    · simp [hsent, bytesOn, chunksOn, hnone]
    · simp [hcurrent]
    · simp [hsent, hcurrent, bytesOn, chunksOn, leftOn]
    · simp [hsent, hcurrent, bytesOn, chunksOn, leftOn, hnone]

/-! ## The taps of a runtime -/

def callOf : Sending η → Option DataCall
  | .data side offset chunk rest => some ⟨side, offset, chunk, rest⟩
  | .message _ => none

def chunkOf (id : Nat) : CaptureEvent η → Option (Direction × Nat × Bytes)
  | .data owner side offset bytes =>
    if owner = id then some (side, offset, bytes) else none
  | _ => none

@[simp] theorem callOf_message (m : Message η) : callOf (.message m) = none := rfl

@[simp] theorem callOf_data (side : Direction) (offset : Nat) (chunk : Bytes)
    (rest : List Bytes) : callOf (.data side offset chunk rest : Sending η) =
      some ⟨side, offset, chunk, rest⟩ := rfl

namespace Runtime

def heldCall (id : Nat) : Option (Holder η) → Option DataCall
  | some (.send owner sending isCounted) =>
    if owner = id then
      (callOf sending).map fun call =>
        if isCounted then call else { call with rest := [] }
    else none
  | _ => none

def waitingCall (t : Tap η) : Option DataCall := t.waiting.findSome? callOf

def chunksSent (s : Runtime η σ ρ) (id : Nat) : List (Direction × Nat × Bytes) :=
  s.sent.filterMap (chunkOf id)

def tapState (s : Runtime η σ ρ) (id : Nat) : TapState where
  fed := (s.taps id).fed
  offsets := (s.taps id).offsets
  live := (s.taps id).live
  current := (heldCall id s.holder).or (waitingCall (s.taps id))
  sent := s.chunksSent id
  canSend := s.isCapturing id || (heldCall id s.holder).isSome

@[simp] theorem heldCall_none (id : Nat) :
    heldCall id (none : Option (Holder η)) = none := rfl

@[simp] theorem heldCall_admit (id owner : Nat) (identity : Identity) :
    heldCall id (some (.admission owner identity : Holder η)) = none := rfl

theorem heldCall_other {id owner : Nat} (h : owner ≠ id) (sending : Sending η)
    (isCounted : Bool) :
    heldCall id (some (.send owner sending isCounted)) = none := by
  simp [heldCall, h]

@[simp] theorem heldCall_message (id owner : Nat) (m : Message η)
    (isCounted : Bool) :
    heldCall id (some (.send owner (.message m) isCounted)) = none := by
  simp [heldCall]

structure Sane (s : Runtime η σ ρ) : Prop where
  epoch_le : ∀ id, (s.taps id).epoch ≤ s.captureEpoch
  fresh : ∀ id, s.next ≤ id → (s.taps id).live = false ∧
    (s.taps id).waiting = [] ∧ s.chunksSent id = []
  alone : ∀ id, waitingCall (s.taps id) = none ∨
    ((s.taps id).live = true ∧ ∃ w, (s.taps id).waiting = [w])
  admission : ∀ id identity, s.holder = some (.admission id identity) → id < s.next ∧
    s.taps id = newTap s.captureEpoch ∧ s.chunksSent id = []
  held : ∀ id sending isCounted, s.holder = some (.send id sending isCounted) →
    id < s.next ∧ (s.taps id).epoch = s.captureEpoch ∧
      (isData sending = true → waitingCall (s.taps id) = none ∧
        (s.taps id).live = isCounted)

private theorem initial_sane : Sane (initial : Runtime η σ ρ) := by
  constructor
  · simp [initial, newTap]
  · simp [initial, newTap, chunksSent]
  · simp [initial, newTap, waitingCall]
  · simp [initial]
  · simp [initial]

structure Orderly (s : Runtime η σ ρ) : Prop where
  sane : Sane s
  good : ∀ id, (s.tapState id).Good

theorem initial_orderly : Orderly (initial : Runtime η σ ρ) := by
  refine ⟨initial_sane, fun id => ?_⟩
  constructor
  · intro side
    constructor
    · simp [initial, tapState, chunksSent, chunksOn, Contiguous]
    · simp [initial, tapState, chunksSent, bytesOn, chunksOn]
  · simp [initial, tapState, isCapturing, newTap]

section Orderly

variable {s s' : Runtime η σ ρ}

theorem Orderly.watch (h : Orderly s) (htaps : s'.taps = s.taps)
    (hholder : s'.holder = s.holder)
    (hepoch : s'.captureEpoch = s.captureEpoch) (hnext : s'.next = s.next)
    (hchunks : ∀ id, s'.chunksSent id = s.chunksSent id)
    (hcapturing : ∀ id, s'.isCapturing id = true → s.isCapturing id = true) :
    Orderly s' := by
  have hsane := h.sane
  constructor
  · constructor
    · rw [htaps, hepoch]
      exact hsane.epoch_le
    · simp only [htaps, hnext, hchunks]
      exact hsane.fresh
    · rw [htaps]
      exact hsane.alone
    · simp only [htaps, hholder, hepoch, hnext, hchunks]
      exact hsane.admission
    · rw [htaps, hholder, hepoch, hnext]
      exact hsane.held
  · intro id
    apply (h.good id).step
    apply TapState.Step.rest
    case hsend =>
      simp only [tapState, hholder, Bool.or_eq_true]
      rintro (hcan | hheld)
      · exact .inl (hcapturing id hcan)
      · exact .inr hheld
    case hsent => exact hchunks id
    all_goals simp [tapState, htaps, hholder]

theorem Orderly.turn (h : Orderly s) (htaps : s'.taps = s.taps)
    (hfree : s.holder = none) (hholder : s'.holder = none)
    (hepoch : s.captureEpoch < s'.captureEpoch) (hnext : s'.next = s.next)
    (hsent : s'.sent = s.sent) : Orderly s' := by
  have hsane := h.sane
  have hchunks : ∀ id, s'.chunksSent id = s.chunksSent id := by
    intro id
    rw [chunksSent, chunksSent, hsent]
  constructor
  · constructor
    · intro id
      have hle := hsane.epoch_le id
      rw [htaps]
      omega
    · simp only [htaps, hnext, hchunks]
      exact hsane.fresh
    · rw [htaps]
      exact hsane.alone
    · simp [hholder]
    · simp [hholder]
  · intro id
    have hpast : s'.isCapturing id = false := by
      have hle := hsane.epoch_le id
      have hne : s'.captureEpoch ≠ (s.taps id).epoch := by omega
      simp [isCapturing, htaps, hne]
    apply (h.good id).step
    apply TapState.Step.rest
    case hsend => simp [tapState, hholder, hpast]
    case hsent => exact hchunks id
    all_goals simp [tapState, htaps, hholder, hfree]

inductive Locked (s s' : Runtime η σ ρ) (id : Nat) : Prop where
  | apart (hholder : s'.holder = s.holder) (hother : s.heldBy id = false)
  | free (hold : s.holder = none ∨ s.heldBy id = true) (hholder : s'.holder = none)
  | kept (hold : s.holder = none ∨ s.heldBy id = true) (sending : Sending η)
      (isCounted : Bool)
      (hholder : s'.holder = some (.send id sending isCounted))
      (hepoch : (s.taps id).epoch = s.captureEpoch)
      (hdata : isData sending = true →
        waitingCall (s'.taps id) = none ∧ (s'.taps id).live = isCounted)

theorem heldCall_of_old {id j : Nat} (hj : j ≠ id)
    (hold : s.holder = none ∨ s.heldBy id = true) : heldCall j s.holder = none := by
  rcases hold with hold | hold
  · simp [hold]
  · unfold heldBy at hold
    split at hold
    case h_1 hholder => simp [hholder]
    case h_2 owner sending isCounted hholder =>
      have howner : owner = id := by simpa using hold
      rw [hholder, heldCall_other]
      rw [howner]
      exact Ne.symm hj
    case h_3 => cases hold

theorem heldCall_of_apart {id : Nat} (h : s.heldBy id = false) :
    heldCall id s.holder = none := by
  unfold heldBy at h
  split at h
  case h_1 hholder => simp [hholder]
  case h_2 owner sending isCounted hholder =>
    rw [hholder, heldCall_other]
    simpa using h
  case h_3 hholder => simp [hholder]

theorem Locked.heldCall_eq {id j : Nat} (h : Locked s s' id) (hj : j ≠ id) :
    heldCall j s'.holder = heldCall j s.holder := by
  cases h with
  | apart hholder hother => rw [hholder]
  | free hold hholder => rw [heldCall_of_old hj hold, hholder, heldCall_none]
  | kept hold sending isCounted hholder hepoch hdata =>
    rw [heldCall_of_old hj hold, hholder, heldCall_other (Ne.symm hj)]

theorem Orderly.change (h : Orderly s) {id : Nat} (hid : id < s.next)
    (htaps : ∀ j, j ≠ id → s'.taps j = s.taps j)
    (hchunks : ∀ j, j ≠ id → s'.chunksSent j = s.chunksSent j)
    (hepoch : s'.captureEpoch = s.captureEpoch) (hnext : s'.next = s.next)
    (hcapturing : ∀ j, j ≠ id → s'.isCapturing j = true → s.isCapturing j = true)
    (htap : (s'.taps id).epoch = (s.taps id).epoch)
    (halone : waitingCall (s'.taps id) = none ∨
      ((s'.taps id).live = true ∧ ∃ w, (s'.taps id).waiting = [w]))
    (hlocked : Locked s s' id)
    (hgood : (s.tapState id).Good → (s'.tapState id).Good) : Orderly s' := by
  have hsane := h.sane
  constructor
  · constructor
    · intro j
      rw [hepoch]
      by_cases hj : j = id
      · subst hj
        rw [htap]
        exact hsane.epoch_le j
      · rw [htaps j hj]
        exact hsane.epoch_le j
    · intro j hfresh
      rw [hnext] at hfresh
      have hj : j ≠ id := by omega
      rw [htaps j hj, hchunks j hj]
      exact hsane.fresh j hfresh
    · intro j
      by_cases hj : j = id
      · subst hj
        exact halone
      · rw [htaps j hj]
        exact hsane.alone j
    · intro j identity hadmit
      cases hlocked with
      | apart hholder hother =>
        rw [hholder] at hadmit
        have hj : j ≠ id := by
          rintro rfl
          simp [heldBy, hadmit] at hother
        rw [hnext, htaps j hj, hepoch, hchunks j hj]
        exact hsane.admission j identity hadmit
      | free hold hholder => simp [hholder] at hadmit
      | kept hold sending isCounted hholder hepoch hdata =>
        simp [hholder] at hadmit
    · intro j sending isCounted hheld
      cases hlocked with
      | apart hholder hother =>
        rw [hholder] at hheld
        have hj : j ≠ id := by
          rintro rfl
          simp [heldBy, hheld] at hother
        rw [hnext, htaps j hj, hepoch]
        exact hsane.held j sending isCounted hheld
      | free hold hholder => simp [hholder] at hheld
      | kept hold sending' isCounted' hholder hkept hdata =>
        rw [hholder] at hheld
        injection hheld with hheld
        injection hheld with howner hsending hcount
        subst howner hsending hcount
        rw [hnext, hepoch, htap]
        exact ⟨hid, hkept, hdata⟩
  · intro j
    by_cases hj : j = id
    · subst hj
      exact hgood (h.good j)
    · apply (h.good j).step
      apply TapState.Step.rest
      case hsend =>
        simp only [tapState, hlocked.heldCall_eq hj, Bool.or_eq_true]
        rintro (hcan | hheld)
        · exact .inl (hcapturing j hj hcan)
        · exact .inr hheld
      case hsent => exact hchunks j hj
      all_goals simp [tapState, htaps j hj, hlocked.heldCall_eq hj]

/-! ## Calls -/

section Frame

variable (s) (id j : Nat)

@[simp] theorem isCapturing_pend (n : Int) :
    (s.pend id n).isCapturing j = s.isCapturing j := by
  by_cases hj : j = id
  · simp [isCapturing, accepting, pend, ticket, hj]
  · simp [isCapturing, accepting, pend, ticket, alter_ne hj]

theorem isCapturing_tap {f : Tap η → Tap η} (hf : ∀ t, (f t).epoch = t.epoch) :
    (s.tap id f).isCapturing j = s.isCapturing j := by
  by_cases hj : j = id
  · simp [isCapturing, accepting, tap, hj, hf]
  · simp [isCapturing, accepting, tap, alter_ne hj]

@[simp] theorem isCapturing_give (side : Direction) (bytes : Bytes) :
    (s.give id side bytes).isCapturing j = s.isCapturing j :=
  isCapturing_tap s id j (by simp)

theorem chunksSent_push (e : CaptureEvent η) :
    (s.push e).chunksSent id = s.chunksSent id ++ (chunkOf id e).toList := by
  cases he : chunkOf id e with
  | none => simp [chunksSent, push, he]
  | some chunk => simp [chunksSent, push, he]

end Frame

theorem capturing_epoch {id : Nat} (h : s.isCapturing id = true) :
    (s.taps id).epoch = s.captureEpoch := by
  simp only [isCapturing, Bool.and_eq_true, beq_iff_eq] at h
  exact h.1.1.symm

theorem lt_next_of_live (h : Orderly s) {id : Nat}
    (hlive : (s.taps id).live = true) : id < s.next := by
  by_contra hfresh
  have hdead := (h.sane.fresh id (by omega)).1
  simp [hdead] at hlive

theorem Orderly.allot (h : Orderly s) {identity : Identity}
    (hfree : s.holder = none)
    (htaps : s'.taps = alter s.taps s.next fun _ => newTap s.captureEpoch)
    (hholder : s'.holder = some (.admission s.next identity))
    (hepoch : s'.captureEpoch = s.captureEpoch) (hnext : s'.next = s.next + 1)
    (hsent : s'.sent = s.sent)
    (hcapturing : ∀ j, j ≠ s.next → s'.isCapturing j = s.isCapturing j) :
    Orderly s' := by
  have hsane := h.sane
  have hchunks : ∀ id, s'.chunksSent id = s.chunksSent id := by
    intro id
    rw [chunksSent, chunksSent, hsent]
  have hnew : s'.taps s.next = newTap s.captureEpoch := by
    simp [htaps]
  have hold : ∀ j, j ≠ s.next → s'.taps j = s.taps j := by
    intro j hj
    rw [htaps, alter_ne hj]
  constructor
  · constructor
    · intro j
      rw [hepoch]
      by_cases hj : j = s.next
      · simp [hj, hnew, newTap]
      · rw [hold j hj]
        exact hsane.epoch_le j
    · intro j hfresh
      rw [hnext] at hfresh
      rw [hold j (by omega), hchunks]
      exact hsane.fresh j (by omega)
    · intro j
      by_cases hj : j = s.next
      · simp [hj, hnew, newTap, waitingCall]
      · rw [hold j hj]
        exact hsane.alone j
    · intro j identity' hadmit
      rw [hholder] at hadmit
      injection hadmit with hadmit
      injection hadmit with hj
      subst hj
      rw [hnext, hnew, hepoch, hchunks]
      exact ⟨by omega, rfl, (hsane.fresh s.next (Nat.le_refl _)).2.2⟩
    · simp [hholder]
  · intro j
    by_cases hj : j = s.next
    · subst hj
      apply TapState.Good.blank
      case hcurrent => simp [tapState, hholder, hnew, newTap, waitingCall]
      case hsent =>
        simp only [tapState, hchunks]
        exact (hsane.fresh s.next (Nat.le_refl _)).2.2
      all_goals simp [tapState, hnew, newTap]
    · apply (h.good j).step
      apply TapState.Step.rest
      case hsent => exact hchunks j
      all_goals simp [tapState, hold j hj, hholder, hfree, hcapturing j hj]

theorem tapAt_orderly (h : Orderly s) (c : CaptureConfig) (epoch : Nat)
    (identity : Identity) : Orderly (s.tapAt c epoch identity) := by
  unfold tapAt
  dsimp only
  split
  case isTrue => exact h
  case isFalse hholder =>
    have hnone : s.holder = none := by
      simpa using hholder
    split
    case isTrue => exact h
    case isFalse hgate =>
      simp only [not_or, not_not] at hgate
      have hepoch := hgate.1
      split
      case isTrue => exact h.watch rfl rfl rfl rfl (fun _ => rfl) (fun _ hc => hc)
      case isFalse =>
        split
        case isTrue =>
          exact h.watch rfl rfl rfl rfl (fun _ => rfl) (fun _ hc => hc)
        case isFalse =>
          apply h.allot hnone
          case hcapturing =>
            intro j hj
            simp [isCapturing, accepting, alter_ne hj]
          case htaps => rw [hepoch]
          all_goals rfl

variable {sending : Sending η}

theorem seize_orderly (h : Orderly s) {id : Nat}
    {isCounted : Bool} (hfree : s.holder = none) (hid : id < s.next)
    (hdata : isData sending = true →
      waitingCall (s.taps id) = none ∧ (s.taps id).live = isCounted)
    (hgood : s.isCapturing id = true → (s.tapState id).Good →
      ({ s with holder := some (.send id sending isCounted) }.tapState id).Good) :
    Orderly (s.seize id sending isCounted) := by
  unfold seize
  split
  case isTrue hcan =>
    apply h.change hid
    case hlocked =>
      apply Locked.kept (.inl hfree) sending isCounted
      · rfl
      · exact capturing_epoch hcan
      · exact hdata
    case hgood =>
      intro hbefore
      have hafter := hgood hcan hbefore
      apply hafter.step
      apply TapState.Step.rest
      case hsend =>
        simp only [tapState, isCapturing_pend]
        exact fun hcan => hcan
      all_goals simp [tapState, pend, ticket, chunksSent]
    case halone => exact h.sane.alone id
    case hcapturing =>
      intro j _ hj
      rw [isCapturing_pend] at hj
      exact hj
    all_goals intros; rfl
  case isFalse => exact h

theorem give_orderly (h : Orderly s) {id : Nat} (hid : id < s.next)
    (hlate : s.isCapturing id = false) (hfree : s.holder = none)
    (side : Direction) (bytes : Bytes) : Orderly (s.give id side bytes) := by
  apply h.change hid
  case hgood =>
    intro hbefore
    apply hbefore.step
    apply TapState.Step.fenced
    case hfed =>
      intro side'
      simp only [tapState, give, tap, alter_self, Sides.get_modify]
      split
      · exact List.prefix_append _ _
      · exact List.prefix_refl _
    case hsent => rfl
    case hsend =>
      simp only [tapState, isCapturing_give, hlate]
      simp [give, tap, hfree]
  case hlocked => exact .free (.inl hfree) hfree
  case halone => simpa [give, tap, waitingCall] using h.sane.alone id
  case htaps =>
    intro j hj
    simp [give, tap, alter_ne hj]
  case hcapturing => simp
  case htap => simp [give, tap]
  all_goals intros; rfl

theorem data_orderly (h : Orderly s) (id : Nat) (side : Direction)
    (bytes : Bytes) : Orderly (s.data id side bytes) := by
  unfold data
  split
  case isTrue => exact h
  case isFalse hready =>
    simp only [Bool.or_eq_true, Bool.not_eq_true', not_or, Bool.not_eq_true,
      Bool.not_eq_false, Option.isSome_eq_false_iff, Option.isNone_iff_eq_none,
      List.isEmpty_iff] at hready
    obtain ⟨⟨hfree, hlive⟩, hwaiting⟩ := hready
    have hid := lt_next_of_live h hlive
    have hnone : waitingCall (s.taps id) = none := by
      simp [waitingCall, hwaiting]
    split
    case h_1 => exact h
    case h_2 chunk rest hchunks =>
      have hbytes : chunk ++ rest.flatten = bytes := by
        have hflatten := chunks_flatten (n := chunkSize) (by decide) bytes
        simpa [hchunks] using hflatten
      unfold seize
      rw [isCapturing_give]
      split
      case isTrue hcan =>
        apply h.change hid
        case hlocked =>
          apply Locked.kept (.inl hfree) _ true rfl (capturing_epoch hcan)
          intro _
          simp [pend, ticket, give, tap, waitingCall, hwaiting, hlive]
        case hgood =>
          intro hbefore
          apply hbefore.step
          apply TapState.Step.begin ⟨side, (s.taps id).offsets.get side, chunk, rest⟩
          case hfed => simp [tapState, pend, ticket, give, tap, hbytes]
          case hfree => simp [tapState, hfree, hnone]
          case hcurrent =>
            simp [tapState, pend, ticket, heldCall]
          all_goals simp [tapState, pend, ticket, give, tap, hlive, hcan, chunksSent]
        case halone => simpa [pend, ticket, give, tap, waitingCall] using h.sane.alone id
        case htaps =>
          intro j hj
          simp [pend, ticket, give, tap, alter_ne hj]
        case hcapturing =>
          intro j _ hj
          rw [isCapturing_pend] at hj
          exact (isCapturing_give s id j side bytes).symm.trans hj
        case htap => simp [pend, ticket, give, tap]
        all_goals intros; rfl
      case isFalse hlate =>
        exact give_orderly h hid (by simpa using hlate) hfree side bytes

theorem chunkOf_eventOf_other {id j : Nat} (h : j ≠ id) (sending : Sending η) :
    chunkOf j (eventOf id sending) = none := by
  cases sending with
  | data side offset chunk rest => simp [eventOf, chunkOf, Ne.symm h]
  | message m => rfl

theorem refuse_orderly (h : Orderly s) {id : Nat} {identity : Identity}
    (hholder : s.holder = some (.admission id identity)) : Orderly (s.refuse id) := by
  apply h.change (h.sane.admission id identity hholder).1
  case hlocked => exact .free (.inr (by simp [heldBy, hholder])) rfl
  case hgood =>
    intro hbefore
    apply hbefore.step
    apply TapState.Step.rest
    all_goals simp [tapState, refuse, free, hholder, chunksSent, isCapturing,
      accepting]
  case halone => exact h.sane.alone id
  case hcapturing => exact fun j _ hj => hj
  all_goals intros; rfl

theorem admit_orderly (h : Orderly s) {id : Nat} {identity : Identity}
    (hholder : s.holder = some (.admission id identity)) :
    Orderly ((s.push (.opened id identity)).tap id fun t =>
      { t with live := true }).free := by
  obtain ⟨hid, hnew, hchunks⟩ := h.sane.admission id identity hholder
  apply h.change hid
  case hlocked => exact .free (.inr (by simp [heldBy, hholder])) rfl
  case hgood =>
    intro _
    apply TapState.Good.blank
    case hsent =>
      change (s.push (.opened id identity)).chunksSent id = []
      rw [chunksSent_push, hchunks]
      rfl
    all_goals simp [tapState, free, tap, push, hnew, newTap, waitingCall]
  case halone => simp [free, tap, push, hnew, newTap, waitingCall]
  case htaps =>
    intro j hj
    simp [free, tap, push, alter_ne hj]
  case hchunks =>
    intro j _
    change (s.push (.opened id identity)).chunksSent j = _
    simp [chunksSent_push, chunkOf]
  case hcapturing =>
    intro j _ hj
    exact (isCapturing_tap (s.push (.opened id identity)) id j
      (f := fun t => { t with live := true }) (by simp)).symm.trans hj
  case htap => simp [free, tap, push]
  all_goals rfl

theorem proceed_orderly (h : Orderly s) {id : Nat}
    (hholder : s.holder = some (.send id sending true)) :
    Orderly (((s.push (eventOf id sending)).counted id sending).proceed id
      sending) := by
  obtain ⟨hid, hepoch, hdata⟩ := h.sane.held id sending true hholder
  have hheldBy : s.heldBy id = true := by
    simp [heldBy, hholder]
  have hothers : ∀ j, j ≠ id →
      (s.push (eventOf id sending)).chunksSent j = s.chunksSent j := by
    intro j hj
    rw [chunksSent_push, chunkOf_eventOf_other hj]
    simp
  have hcapturing : ∀ j, ((s.push (eventOf id sending)).counted id
      sending).isCapturing j = s.isCapturing j := by
    intro j
    cases sending with
    | data side offset chunk rest =>
      exact isCapturing_tap (s.push _) id j (by simp)
    | message m => rfl
  cases sending with
  | message m =>
    apply h.change hid
    case hlocked => exact .free (.inr hheldBy) rfl
    case hgood =>
      intro hbefore
      apply hbefore.step
      apply TapState.Step.rest
      case hsent =>
        change (s.push (eventOf id (.message m))).chunksSent id = _
        rw [chunksSent_push]
        simp [eventOf, chunkOf, tapState]
      all_goals simp [tapState, proceed, counted, free, push, hholder,
        isCapturing, accepting]
    case halone => exact h.sane.alone id
    case hchunks => exact hothers
    case hcapturing => exact fun j _ hj => hj
    all_goals intros; rfl
  | data side offset chunk rest =>
    obtain ⟨hnone, hlive⟩ := hdata rfl
    have hstate : TapState.Step (s.tapState id)
        ((((s.push (eventOf id (.data side offset chunk rest))).counted id
          (.data side offset chunk rest)).proceed id
            (.data side offset chunk rest)).tapState id) := by
      apply TapState.Step.chunk ⟨side, offset, chunk, rest⟩
      case hcurrent => simp [tapState, hholder, heldCall]
      case hcan => simp [tapState, hholder, heldCall]
      case hlive => exact hlive
      case hsent =>
        have hpush := chunksSent_push s id
          (eventOf id (.data side offset chunk rest))
        simp only [eventOf, chunkOf, if_true, Option.toList_some] at hpush
        cases rest with
        | nil => exact hpush
        | cons next rest => exact hpush
      case hfed =>
        cases rest <;> simp [tapState, proceed, counted, count, free, pend,
          ticket, tap, push]
      case hoffsets =>
        cases rest <;> simp [tapState, proceed, counted, count, free, pend,
          ticket, tap, push, TapState.counted]
      case hnext =>
        cases rest with
        | nil =>
          simpa [tapState, proceed, counted, count, free, tap, push,
            TapState.advance, waitingCall] using hnone
        | cons next rest =>
          simp [tapState, proceed, counted, count, pend, ticket, tap, push,
            TapState.advance, heldCall]
    apply h.change hid
    case hlocked =>
      cases rest with
      | nil => exact .free (.inr hheldBy) rfl
      | cons next rest =>
        apply Locked.kept (.inr hheldBy) _ true rfl hepoch
        intro _
        simpa [proceed, counted, count, pend, ticket, tap, push,
          waitingCall] using And.intro hnone hlive
    case hgood => exact fun hbefore => hbefore.step hstate
    case halone =>
      left
      cases rest <;> simpa [proceed, counted, count, free, pend, ticket, tap,
        push, waitingCall] using hnone
    case htaps =>
      intro j hj
      cases rest <;> simp [proceed, counted, count, free, pend, ticket, tap,
        push, alter_ne hj]
    case hchunks =>
      intro j hj
      cases rest <;> exact hothers j hj
    case hcapturing =>
      intro j _ hj
      rw [← hcapturing j]
      cases rest with
      | nil => exact hj
      | cons next rest =>
        simp only [proceed, isCapturing_pend] at hj
        exact hj
    case htap =>
      cases rest <;> simp [proceed, counted, count, free, pend, ticket, tap,
        push]
    all_goals cases rest <;> rfl

theorem cancelled_orderly (h : Orderly s) {id : Nat}
    (hholder : s.holder = some (.send id sending false)) :
    Orderly (s.push (eventOf id sending)).free := by
  obtain ⟨hid, -, hdata⟩ := h.sane.held id sending false hholder
  apply h.change hid
  case hlocked => exact .free (.inr (by simp [heldBy, hholder])) rfl
  case hgood =>
    intro hbefore
    apply hbefore.step
    cases sending with
    | message m =>
      apply TapState.Step.rest
      case hsent =>
        change (s.push (eventOf id (.message m))).chunksSent id = _
        rw [chunksSent_push]
        simp [eventOf, chunkOf, tapState]
      all_goals simp [tapState, free, push, hholder, isCapturing, accepting]
    | data side offset chunk rest =>
      obtain ⟨hnone, hdead⟩ := hdata rfl
      apply TapState.Step.last ⟨side, offset, chunk, []⟩
      case hsent =>
        change (s.push (eventOf id (.data side offset chunk rest))).chunksSent
          id = _
        rw [chunksSent_push]
        simp [eventOf, chunkOf, tapState]
      case hnone => simpa [tapState, free, push] using hnone
      case hdead => exact hdead
      all_goals simp [tapState, free, push, hholder, heldCall]
  case halone => exact h.sane.alone id
  case hchunks =>
    intro j hj
    change (s.push (eventOf id sending)).chunksSent j = _
    rw [chunksSent_push, chunkOf_eventOf_other hj]
    simp
  case hcapturing => exact fun j _ hj => hj
  all_goals intros; rfl

theorem isCapturing_lost {id : Nat} (h : (s.tickets id).lost = true) :
    s.isCapturing id = false := by
  simp [isCapturing, accepting, h]

theorem lost_orderly (h : Orderly s) {id : Nat} (hid : id < s.next)
    (htaps : ∀ j, j ≠ id → s'.taps j = s.taps j)
    (hlost : (s'.tickets id).lost = true) (hholder : s'.holder = none)
    (hold : s.holder = none ∨ s.heldBy id = true)
    (hepoch : s'.captureEpoch = s.captureEpoch) (hnext : s'.next = s.next)
    (hsent : s'.sent = s.sent)
    (htap : (s'.taps id).epoch = (s.taps id).epoch)
    (hfed : (s'.taps id).fed = (s.taps id).fed)
    (halone : waitingCall (s'.taps id) = none ∨
      ((s'.taps id).live = true ∧ ∃ w, (s'.taps id).waiting = [w]))
    (hcapturing : ∀ j, j ≠ id → s'.isCapturing j = true → s.isCapturing j = true) :
    Orderly s' := by
  have hchunks : ∀ j, s'.chunksSent j = s.chunksSent j := by
    intro j
    rw [chunksSent, chunksSent, hsent]
  apply h.change hid htaps (fun j _ => hchunks j) hepoch hnext hcapturing htap
    halone (.free hold hholder)
  intro hbefore
  apply hbefore.step
  apply TapState.Step.fenced
  case hfed =>
    intro side
    simp only [tapState, hfed]
    exact List.prefix_refl _
  case hsent => exact hchunks id
  case hsend => simp [tapState, hholder, isCapturing_lost hlost]

theorem lose_orderly (h : Orderly s) (c : CaptureConfig) {id : Nat}
    {isCounted : Bool} (hholder : s.holder = some (.send id sending isCounted)) :
    Orderly (s.lose c id sending isCounted) := by
  have halone := h.sane.alone id
  apply lost_orderly h (h.sane.held id sending isCounted hholder).1
  case htaps =>
    intro j hj
    cases isCounted <;> cases sending <;> simp [lose, counted, count, free, pend,
      ticket, tap, alter_ne hj]
  case hlost =>
    cases isCounted <;> cases sending <;> simp [lose, counted, count, free, pend,
      ticket, tap]
  case hold => exact .inr (by simp [heldBy, hholder])
  case halone =>
    cases isCounted <;> cases sending <;> simpa [lose, counted, count, free, pend,
      ticket, tap, waitingCall] using halone
  case hcapturing =>
    intro j hj
    cases isCounted <;> cases sending <;> simp +contextual [lose, counted, count,
      free, pend, ticket, tap, isCapturing, accepting, alter_ne hj]
  case htap =>
    cases isCounted <;> cases sending <;> simp [lose, counted, count, free, pend,
      ticket, tap]
  case hfed =>
    cases isCounted <;> cases sending <;> simp [lose, counted, count, free, pend,
      ticket, tap]
  all_goals cases isCounted <;> cases sending <;> rfl

theorem failRecording_orderly (h : Orderly s) (c : CaptureConfig) :
    Orderly (s.failRecording c) := by
  apply h.watch
  case hcapturing =>
    intro j
    simp +contextual [failRecording, isCapturing, accepting]
  all_goals intros; rfl

theorem hold_orderly (h : Orderly s) (c : CaptureConfig) :
    Orderly (s.hold c) := by
  unfold hold
  split
  case h_1 => exact h
  case h_2 id identity hholder =>
    split
    · exact admit_orderly h hholder
    · split
      · exact h
      · split
        · exact refuse_orderly h hholder
        · exact failRecording_orderly (refuse_orderly h hholder) c
  case h_3 id sending isCounted hholder =>
    split
    · dsimp only
      split
      case isTrue hcounted =>
        subst hcounted
        exact proceed_orderly h hholder
      case isFalse hcounted =>
        have hfalse : isCounted = false := by
          simpa using hcounted
        subst hfalse
        exact cancelled_orderly h hholder
    · split
      · exact h
      · exact lose_orderly h c hholder

theorem give_failed_orderly (h : Orderly s) {id : Nat} (hid : id < s.next)
    (hfree : s.holder = none) {c : CaptureConfig} (hrecording : c.recording = true)
    (side : Direction) (bytes : Bytes) :
    Orderly ((s.give id side bytes).failRecording c) := by
  have hfailed : ∀ j, ((s.give id side bytes).failRecording c).isCapturing j =
      false := by
    intro j
    simp [isCapturing, accepting, failRecording, hrecording]
  apply h.change hid
  case hgood =>
    intro hbefore
    apply hbefore.step
    apply TapState.Step.fenced
    case hfed =>
      intro side'
      simp only [tapState, failRecording, give, tap, alter_self, Sides.get_modify]
      split
      · exact List.prefix_append _ _
      · exact List.prefix_refl _
    case hsent => rfl
    case hsend =>
      simp only [tapState, hfailed]
      simp [failRecording, give, tap, hfree]
  case hlocked => exact .free (.inl hfree) hfree
  case halone =>
    simpa [failRecording, give, tap, waitingCall] using h.sane.alone id
  case htaps =>
    intro j hj
    simp [failRecording, give, tap, alter_ne hj]
  case hcapturing => simp [hfailed]
  case htap => simp [failRecording, give, tap]
  all_goals intros; rfl

theorem tryData_orderly (h : Orderly s) (c : CaptureConfig) (id : Nat)
    (side : Direction) (bytes : Bytes) (contended : Bool) :
    Orderly (s.tryData c id side bytes contended) := by
  unfold tryData
  split
  case isTrue => exact data_orderly h id side bytes
  case isFalse hrecording =>
    split
    case isTrue => exact h
    case isFalse hready =>
      simp only [Bool.or_eq_true, Bool.not_eq_true', not_or, Bool.not_eq_true,
        Bool.not_eq_false, List.isEmpty_iff] at hready
      obtain ⟨⟨hlive, hwaiting⟩, -⟩ := hready
      have hid := lt_next_of_live h hlive
      have hnone : waitingCall (s.taps id) = none := by
        simp [waitingCall, hwaiting]
      split
      case isTrue => exact h
      case isFalse hlock =>
        simp only [Bool.or_eq_true, not_or, Bool.not_eq_true,
          Option.isSome_eq_false_iff, Option.isNone_iff_eq_none] at hlock
        have hfree := hlock.2
        split
        case isTrue hlate =>
          exact give_orderly h hid (by simpa using hlate) hfree side bytes
        case isFalse hcan =>
          have hcan : s.isCapturing id = true := by
            simpa using hcan
          split
          case isTrue =>
            exact give_failed_orderly h hid hfree (by simpa using hrecording)
              side bytes
          case isFalse =>
            split
            case isTrue =>
              apply h.change hid
              case hlocked => exact .free (.inl hfree) hfree
              case hgood =>
                intro hbefore
                apply hbefore.step
                apply TapState.Step.direct side bytes
                case hfree => simp [tapState, hfree, hnone]
                case hlive => exact hlive
                case hcan => simp [tapState, hcan]
                case hcurrent =>
                  simpa [tapState, count, push, pend, ticket, give, tap, hfree,
                    waitingCall] using hnone
                case hsent =>
                  have hpush := chunksSent_push s id
                    (.data id side ((s.taps id).offsets.get side) bytes)
                  simp only [chunkOf, if_true, Option.toList_some] at hpush
                  exact hpush
                all_goals simp [tapState, count, push, pend, ticket, give, tap]
              case halone =>
                left
                simpa [count, push, pend, ticket, give, tap, waitingCall] using hnone
              case htaps =>
                intro j hj
                simp [count, push, pend, ticket, give, tap, alter_ne hj]
              case hchunks =>
                intro j hj
                have hpush := chunksSent_push s j
                  (.data id side ((s.taps id).offsets.get side) bytes)
                simp only [chunkOf, Ne.symm hj, if_false, Option.toList_none,
                  List.append_nil] at hpush
                exact hpush
              case hcapturing =>
                intro j hj hcap
                simpa [count, push, pend, ticket, give, tap, isCapturing,
                  accepting, alter_ne hj] using hcap
              case htap => simp [count, push, pend, ticket, give, tap]
              all_goals rfl
            case isFalse => exact h

theorem mark_orderly (h : Orderly s) {id : Nat} (hid : id < s.next)
    {f : Tap η → Tap η} (hepoch : (f (s.taps id)).epoch = (s.taps id).epoch)
    (hfed : (f (s.taps id)).fed = (s.taps id).fed)
    (hoffsets : (f (s.taps id)).offsets = (s.taps id).offsets)
    (hlive : (f (s.taps id)).live = true → (s.taps id).live = true)
    (hwaiting : waitingCall (f (s.taps id)) = waitingCall (s.taps id))
    (halone : waitingCall (s.taps id) = none ∨
      ((f (s.taps id)).live = true ∧ ∃ w, (f (s.taps id)).waiting = [w]))
    (hother : s.heldBy id = false) : Orderly (s.tap id f) := by
  have hcapturing : ∀ j, (s.tap id f).isCapturing j = s.isCapturing j := by
    intro j
    by_cases hj : j = id
    · simp [isCapturing, accepting, tap, hj, hepoch]
    · simp [isCapturing, accepting, tap, alter_ne hj]
  apply h.change hid
  case hlocked => exact .apart rfl hother
  case hgood =>
    intro hbefore
    apply hbefore.step
    apply TapState.Step.rest
    case hsend =>
      simp only [tapState, hcapturing]
      exact fun hcan => hcan
    case hsent => rfl
    all_goals simp [tapState, tap, hfed, hoffsets, hwaiting]
    exact hlive
  case halone => simpa [tap, hwaiting] using halone
  case htaps =>
    intro j hj
    simp [tap, alter_ne hj]
  case hcapturing => simp [hcapturing]
  case htap => simp [tap, hepoch]
  all_goals intros; rfl

theorem markEnded_orderly (h : Orderly s) {id : Nat} (hid : id < s.next)
    (hother : s.heldBy id = false) (m : Message η) :
    Orderly (s.markEnded id m) := by
  cases m with
  | eof side clean =>
    exact mark_orderly h hid rfl rfl rfl (fun hl => hl) rfl (h.sane.alone id) hother
  | _ => exact h

theorem available_live {id : Nat} {m : Message η}
    (h : s.available id m = true) : (s.taps id).live = true := by
  simp only [available, Bool.and_eq_true] at h
  exact h.1

theorem available_waiting {id : Nat} {m : Message η}
    (h : s.available id m = true) : waitingCall (s.taps id) = none := by
  simp only [available, Bool.and_eq_true] at h
  have hshared := h.2
  split at hshared
  · simp only [sharedOnly, List.all_eq_true] at hshared
    simp only [waitingCall, List.findSome?_eq_none_iff]
    intro w hw
    have hw' := hshared w hw
    cases w with
    | data side offset chunk rest => simp at hw'
    | message m => rfl
  · simp only [List.isEmpty_iff] at hshared
    simp [waitingCall, hshared]

theorem send_orderly (h : Orderly s) (id : Nat) (m : Message η) :
    Orderly (s.send id m) := by
  unfold send
  split
  case isTrue => exact h
  case isFalse hready =>
    simp only [Bool.or_eq_true, Bool.not_eq_true', not_or, Bool.not_eq_true,
      Bool.not_eq_false, Option.isSome_eq_false_iff,
      Option.isNone_iff_eq_none] at hready
    obtain ⟨⟨hfree, havailable⟩, -⟩ := hready
    have hid := lt_next_of_live h (available_live havailable)
    have hmarked := markEnded_orderly h hid (by simp [heldBy, hfree]) m
    have hfree' : (s.markEnded id m).holder = none := by
      cases m <;> exact hfree
    have hid' : id < (s.markEnded id m).next := by
      cases m <;> exact hid
    apply seize_orderly hmarked hfree' hid'
    · simp [isData]
    · intro hcan hbefore
      apply hbefore.step
      apply TapState.Step.rest
      all_goals simp [tapState, hfree', chunksSent, isCapturing, accepting]

theorem dataAsync_orderly (h : Orderly s) (id : Nat) (side : Direction)
    (bytes : Bytes) : Orderly (s.dataAsync id side bytes) := by
  unfold dataAsync
  split
  case isTrue => exact h
  case isFalse hready =>
    simp only [Bool.or_eq_true, Bool.not_eq_true', not_or, Bool.not_eq_true,
      Bool.not_eq_false, List.isEmpty_iff] at hready
    obtain ⟨⟨hother, hlive⟩, hwaiting⟩ := hready
    have hid := lt_next_of_live h hlive
    have hnone : waitingCall (s.taps id) = none := by
      simp [waitingCall, hwaiting]
    split
    case h_1 => exact h
    case h_2 chunk rest hchunks =>
      have hbytes : chunk ++ rest.flatten = bytes := by
        have hflatten := chunks_flatten (n := chunkSize) (by decide) bytes
        simpa [hchunks] using hflatten
      have hheld := heldCall_of_apart hother
      apply h.change hid
      case hlocked => exact .apart rfl hother
      case hgood =>
        intro hbefore
        apply hbefore.step
        apply TapState.Step.begin ⟨side, (s.taps id).offsets.get side, chunk, rest⟩
        case hfed => simp [tapState, give, tap, hbytes]
        case hfree => simp [tapState, hheld, hnone]
        case hlive => exact hlive
        case hcurrent =>
          simp [tapState, give, tap, hheld, waitingCall]
        case hsend =>
          simp [tapState, give, tap, hheld, isCapturing, accepting]
        all_goals simp [tapState, give, tap, chunksSent]
      case halone => simp [give, tap, hlive]
      case htaps =>
        intro j hj
        simp [give, tap, alter_ne hj]
      case hcapturing =>
        intro j hj hcap
        simpa [give, tap, isCapturing, accepting, alter_ne hj] using hcap
      case htap => simp [give, tap]
      all_goals intros; rfl

theorem sendAsync_orderly (h : Orderly s) (id : Nat) (m : Message η) :
    Orderly (s.sendAsync id m) := by
  unfold sendAsync
  split
  case isTrue => exact h
  case isFalse hready =>
    simp only [Bool.or_eq_true, Bool.not_eq_true', not_or, Bool.not_eq_true,
      Bool.not_eq_false] at hready
    obtain ⟨⟨hother, havailable⟩, -⟩ := hready
    have hid := lt_next_of_live h (available_live havailable)
    have hnone : waitingCall ((s.markEnded id m).taps id) = none := by
      have hbefore := available_waiting havailable
      cases m <;> simpa [markEnded, tap, waitingCall] using hbefore
    apply mark_orderly (markEnded_orderly h hid hother m)
    case hwaiting => simp [waitingCall, List.findSome?_append]
    case halone => exact .inl hnone
    case hlive => exact fun hl => hl
    case hid => cases m <;> exact hid
    case hother => cases m <;> exact hother
    all_goals rfl

variable {k : Nat}

theorem lt_next_of_waiting (h : Orderly s) {id : Nat}
    (hget : (s.taps id).waiting[k]? = some sending) : id < s.next := by
  by_contra hfresh
  have hwaiting := (h.sane.fresh id (by omega)).2.1
  simp [hwaiting] at hget

theorem waitingCall_of_message (h : Orderly s) {id : Nat} {m : Message η}
    (hget : (s.taps id).waiting[k]? = some (.message m)) :
    waitingCall (s.taps id) = none ∧
      ((s.taps id).waiting.eraseIdx k).findSome? callOf = none := by
  have hnone : waitingCall (s.taps id) = none := by
    rcases h.sane.alone id with hnone | ⟨-, w, hw⟩
    · exact hnone
    · have hmem := List.mem_of_getElem? hget
      simp only [hw, List.mem_singleton] at hmem
      simp [waitingCall, hw, ← hmem]
  refine ⟨hnone, ?_⟩
  simp only [waitingCall, List.findSome?_eq_none_iff] at hnone ⊢
  intro w hw
  exact hnone w (List.mem_of_mem_eraseIdx hw)

theorem waiting_of_data (h : Orderly s) {id : Nat} {side : Direction}
    {offset : Nat} {chunk : Bytes} {rest : List Bytes}
    (hget : (s.taps id).waiting[k]? = some (.data side offset chunk rest)) :
    k = 0 ∧ (s.taps id).live = true ∧
      (s.taps id).waiting = [.data side offset chunk rest] := by
  have hmem := List.mem_of_getElem? hget
  rcases h.sane.alone id with hnone | ⟨hlive, w, hw⟩
  · simp only [waitingCall, List.findSome?_eq_none_iff] at hnone
    have hdata := hnone _ hmem
    simp at hdata
  · simp only [hw, List.mem_singleton] at hmem
    have hlt := (List.getElem?_eq_some_iff.mp hget).1
    simp only [hw, List.length_singleton] at hlt
    exact ⟨by omega, hlive, by rw [hw, ← hmem]⟩

theorem settle_orderly (h : Orderly s) {id : Nat}
    (hget : (s.taps id).waiting[k]? = some sending) (hfree : s.holder = none)
    {u : Runtime η σ ρ} (htaps : u.taps = s.taps) (hholder : u.holder = none)
    (hepoch : u.captureEpoch = s.captureEpoch) (hnext : u.next = s.next)
    (hcapturing : ∀ j, u.isCapturing j = true → s.isCapturing j = true)
    (hsent : u.sent = s.sent ++ [eventOf id sending] ∧ s.isCapturing id = true ∨
      u.sent = s.sent ∧ u.isCapturing id = false) :
    Orderly (u.settle id k sending) := by
  have hid := lt_next_of_waiting h hget
  have hcap : ∀ j, (u.settle id k sending).isCapturing j = u.isCapturing j := by
    intro j
    cases sending with
    | message m => exact isCapturing_tap u id j (by simp)
    | data side offset chunk rest =>
      cases rest <;> simp [settle, counted, count, tap, isCapturing, accepting,
        alter] <;> split <;> rfl
  have hchunks : ∀ j, j ≠ id →
      (u.settle id k sending).chunksSent j = s.chunksSent j := by
    intro j hj
    have hbefore : u.chunksSent j = s.chunksSent j := by
      rcases hsent with ⟨hsent, -⟩ | ⟨hsent, -⟩
      · simp [chunksSent, hsent, chunkOf_eventOf_other hj]
      · simp [chunksSent, hsent]
    cases sending <;> exact hbefore
  cases sending with
  | message m =>
    obtain ⟨hnone, herase⟩ := waitingCall_of_message h hget
    apply h.change hid
    case hlocked => exact .free (.inl hfree) hholder
    case hgood =>
      intro hbefore
      apply hbefore.step
      apply TapState.Step.rest
      case hsend =>
        simp only [tapState, hcap, hfree]
        simpa [settle, counted, tap, hholder] using hcapturing id
      case hsent =>
        rcases hsent with ⟨hsent, -⟩ | ⟨hsent, -⟩
        · simp [tapState, chunksSent, settle, counted, tap, hsent, eventOf, chunkOf]
        · simp [tapState, chunksSent, settle, counted, tap, hsent]
      all_goals simp [tapState, settle, counted, tap, htaps, hholder, hfree,
        waitingCall, herase]
      exact hnone.symm
    case halone => simp [settle, counted, tap, htaps, waitingCall, herase]
    case htaps =>
      intro j hj
      simp [settle, counted, tap, htaps, alter_ne hj]
    case hchunks => exact hchunks
    case hepoch => exact hepoch
    case hnext => exact hnext
    case hcapturing =>
      intro j _
      rw [hcap]
      exact hcapturing j
    case htap => simp [settle, counted, tap, htaps]
  | data side offset chunk rest =>
    obtain ⟨rfl, hlive, hwaiting⟩ := waiting_of_data h hget
    apply h.change hid
    case hlocked => cases rest <;> exact .free (.inl hfree) hholder
    case hgood =>
      intro hbefore
      apply hbefore.step
      rcases hsent with ⟨hsent, hcan⟩ | ⟨hsent, hlate⟩
      · apply TapState.Step.chunk ⟨side, offset, chunk, rest⟩
        case hcurrent => simp [tapState, hfree, waitingCall, hwaiting]
        case hcan => simp [tapState, hcan]
        case hlive => exact hlive
        case hsent =>
          cases rest <;> simp [tapState, chunksSent, settle, counted, count,
            tap, hsent, eventOf, chunkOf]
        case hnext =>
          cases rest <;> simp [tapState, settle, counted, count, tap, htaps,
            hholder, hwaiting, waitingCall, TapState.advance]
        all_goals cases rest <;> simp [tapState, settle, counted, count, tap,
          htaps, TapState.counted]
      · apply TapState.Step.fenced
        case hfed =>
          intro side'
          cases rest <;> simp [tapState, settle, counted, count, tap, htaps]
        case hsent =>
          cases rest <;> simp [tapState, chunksSent, settle, counted, count,
            tap, hsent]
        case hsend =>
          simp only [tapState, hcap, hlate]
          cases rest <;> simp [settle, counted, count, tap, hholder]
    case halone =>
      cases rest <;> simp [settle, counted, count, tap, htaps, hwaiting, hlive,
        waitingCall]
    case htaps =>
      intro j hj
      cases rest <;> simp [settle, counted, count, tap, htaps, alter_ne hj]
    case hchunks => exact hchunks
    case hepoch => exact hepoch
    case hnext => exact hnext
    case hcapturing =>
      intro j _
      rw [hcap]
      exact hcapturing j
    case htap => cases rest <;> simp [settle, counted, count, tap, htaps]

theorem attempt_orderly (h : Orderly s) (c : CaptureConfig) (id k : Nat)
    (contended : Bool) : Orderly (s.attempt c id k contended) := by
  unfold attempt
  split
  case h_1 => exact h
  case h_2 sending hget =>
    split
    case isTrue => exact h
    case isFalse hlock =>
      simp only [Bool.or_eq_true, not_or, Bool.not_eq_true,
        Option.isSome_eq_false_iff, Option.isNone_iff_eq_none] at hlock
      have hfree := hlock.1
      split
      case isTrue hlate =>
        exact settle_orderly h hget hfree rfl hfree rfl rfl (fun _ hc => hc)
          (.inr ⟨rfl, by simpa using hlate⟩)
      case isFalse hcan =>
        have hcan : s.isCapturing id = true := by
          simpa using hcan
        split
        case isTrue =>
          apply settle_orderly h hget hfree
          case hholder => exact hfree
          case hcapturing =>
            intro j hj
            exact (isCapturing_pend s id j 1).symm.trans hj
          case hsent => exact .inl ⟨rfl, hcan⟩
          all_goals rfl
        case isFalse =>
          split
          case isTrue hrecording =>
            split
            case isTrue => exact h
            case isFalse =>
              have hfailed : ∀ j, (s.failRecording c).isCapturing j = false := by
                intro j
                simp [isCapturing, accepting, failRecording, hrecording]
              apply settle_orderly h hget hfree
              case hholder => exact hfree
              case hcapturing => simp [hfailed]
              case hsent => exact .inr ⟨rfl, hfailed id⟩
              all_goals rfl
          case isFalse =>
            apply settle_orderly h hget hfree
            case hholder => exact hfree
            case hcapturing =>
              intro j
              by_cases hj : j = id
              · simp [isCapturing, accepting, ticket, hj]
              · simp [isCapturing, accepting, ticket, alter_ne hj]
            case hsent =>
              refine .inr ⟨rfl, isCapturing_lost ?_⟩
              simp [ticket]
            all_goals rfl

theorem cancel_orderly (h : Orderly s) (c : CaptureConfig) (id k : Nat) :
    Orderly (s.cancel c id k) := by
  unfold cancel
  split
  case h_1 => exact h
  case h_2 sending hget =>
    split
    case isTrue => exact h
    case isFalse hlock =>
      simp only [Bool.or_eq_true, not_or, Bool.not_eq_true,
        Option.isSome_eq_false_iff, Option.isNone_iff_eq_none] at hlock
      have hfree := hlock.1
      have hid := lt_next_of_waiting h hget
      cases sending with
      | message m =>
        obtain ⟨hnone, herase⟩ := waitingCall_of_message h hget
        have hmarked : Orderly (s.tap id fun t => { t with
            waiting := t.waiting.eraseIdx k
            live := t.live && !isData (.message m : Sending η) }) := by
          apply mark_orderly h hid
          case hlive => simp [isData]
          case hwaiting => simp only [waitingCall, herase]; exact hnone.symm
          case halone => exact .inl hnone
          case hother => simp [heldBy, hfree]
          all_goals rfl
        apply seize_orderly hmarked
        case hfree => exact hfree
        case hid => exact hid
        case hdata => simp [isData]
        case hgood =>
          intro hcan hbefore
          apply hbefore.step
          apply TapState.Step.rest
          all_goals simp [tapState, tap, hfree, chunksSent, isCapturing, accepting]
      | data side offset chunk rest =>
        obtain ⟨rfl, hlive, hwaiting⟩ := waiting_of_data h hget
        have hcap : ∀ j, (s.tap id fun t => { t with
            waiting := t.waiting.eraseIdx 0
            live := t.live && !isData (.data side offset chunk rest :
              Sending η) }).isCapturing j = s.isCapturing j :=
          fun j => isCapturing_tap s id j (by simp)
        unfold seize
        rw [hcap]
        split
        case isTrue hcan =>
          apply h.change hid
          case hlocked =>
            apply Locked.kept (.inl hfree) _ false rfl (capturing_epoch hcan)
            intro _
            simp [pend, ticket, tap, waitingCall, hwaiting, isData]
          case hgood =>
            intro hbefore
            apply hbefore.step
            apply TapState.Step.cancel ⟨side, offset, chunk, rest⟩
            case hcurrent => simp [tapState, hfree, waitingCall, hwaiting]
            case hcancelled => simp [tapState, pend, ticket, tap, heldCall]
            case hsend =>
              intro _
              simp [tapState, hcan]
            all_goals simp [tapState, pend, ticket, tap, chunksSent, isData]
          case halone => simp [pend, ticket, tap, waitingCall, hwaiting]
          case htaps =>
            intro j hj
            simp [pend, ticket, tap, alter_ne hj]
          case hcapturing =>
            intro j _ hj
            rw [isCapturing_pend] at hj
            exact (hcap j).symm.trans hj
          case htap => simp [pend, ticket, tap]
          all_goals intros; rfl
        case isFalse hlate =>
          have hlate : s.isCapturing id = false := by
            simpa using hlate
          apply h.change hid
          case hlocked => exact .free (.inl hfree) hfree
          case hgood =>
            intro hbefore
            apply hbefore.step
            apply TapState.Step.fenced
            case hsend =>
              simp only [tapState, hcap, hlate]
              simp [tap, hfree]
            all_goals simp [tapState, tap, chunksSent]
          case halone => simp [tap, waitingCall, hwaiting]
          case htaps =>
            intro j hj
            simp [tap, alter_ne hj]
          case hcapturing => exact fun j _ hj => (hcap j).symm.trans hj
          case htap => simp [tap]
          all_goals intros; rfl

theorem ticket_orderly (h : Orderly s) (id : Nat) {f : Ticket → Ticket}
    (hlost : ∀ t, t.lost = true → (f t).lost = true)
    (hclosed : ∀ t, t.closed = true → (f t).closed = true) :
    Orderly (s.ticket id f) := by
  apply h.watch
  case hcapturing =>
    intro j
    by_cases hj : j = id
    · subst hj
      simp only [isCapturing, accepting, ticket, alter_self, Bool.and_eq_true,
        Bool.not_eq_true']
      rintro ⟨hepoch, ⟨⟨hl, hc⟩, hstopping⟩, hfailed⟩
      refine ⟨hepoch, ⟨⟨?_, ?_⟩, hstopping⟩, hfailed⟩
      · by_contra hne
        simp [hlost _ (by simpa using hne)] at hl
      · by_contra hne
        simp [hclosed _ (by simpa using hne)] at hc
    · simp [isCapturing, accepting, ticket, alter_ne hj]
  all_goals intros; rfl

theorem dropTap_orderly (h : Orderly s) (id : Nat) : Orderly (s.dropTap id) := by
  unfold dropTap
  split
  case isTrue => exact h
  case isFalse hready =>
    simp only [not_or, not_not, Nat.not_le, Bool.not_eq_true] at hready
    obtain ⟨hid, hother, hwaiting⟩ := hready
    have hclosed : Orderly ((s.closeReason id
        "capture owner released; transport close cause unavailable").ticket id
          fun t => { t with closed := true }) := by
      apply ticket_orderly
      · exact ticket_orderly h id (by simp) (by simp)
      · simp
      · simp
    apply mark_orderly hclosed hid
    case hlive => simp
    case halone => exact .inl (by simp [closeReason, ticket, waitingCall, hwaiting])
    case hother => exact hother
    all_goals rfl

/-! ## Epochs and the worker -/

theorem startCapture_orderly (h : Orderly s) : Orderly s.startCapture := by
  unfold startCapture
  split
  case isTrue => exact h
  case isFalse hlock =>
    have hfree : s.holder = none := by
      simpa using hlock
    split
    · exact h.turn rfl hfree hfree (Nat.lt_succ_self _) rfl rfl
    · exact h

theorem stopCapture_orderly (h : Orderly s) (call : Nat) :
    Orderly (s.stopCapture call) := by
  unfold stopCapture
  split
  case isTrue => exact h
  case isFalse hlock =>
    simp only [not_or, not_not, Bool.not_eq_true, Option.isSome_eq_false_iff,
      Option.isNone_iff_eq_none] at hlock
    have hfree := hlock.1
    by_cases heven : s.captureEpoch % 2 = 0
    · have hsame : s.closedEpoch = s.captureEpoch := by
        simp [closedEpoch, heven]
      rw [hsame]
      exact h.watch rfl rfl rfl rfl (fun _ => rfl) (fun _ hc => hc)
    · have hlater : s.captureEpoch < s.closedEpoch := by
        simp [closedEpoch, heven]
      exact h.turn rfl hfree hfree hlater rfl rfl

theorem push_orderly (h : Orderly s) {e : CaptureEvent η}
    (he : ∀ id, chunkOf id e = none) : Orderly (s.push e) := by
  apply h.watch
  case hchunks =>
    intro id
    rw [chunksSent_push, he]
    simp
  case hcapturing => exact fun _ hc => hc
  all_goals rfl

theorem stopGoesOn_orderly (h : Orderly s) (c : CaptureConfig) (call : Nat) :
    Orderly (s.stopGoesOn c call) := by
  have hset : ∀ {u : Runtime η σ ρ} (phase : StopCall), Orderly u →
      Orderly (u.setStop call phase) :=
    fun phase hu => hu.watch rfl rfl rfl rfl (fun _ => rfl) (fun _ hc => hc)
  unfold stopGoesOn
  split
  · split
    · exact hset _ h
    · split
      · exact hset _ (push_orderly h (by simp [chunkOf]))
      · exact h
  · split
    · exact h
    · exact hset _ h
  · exact h

structure Spares (s s' : Runtime η σ ρ) : Prop where
  taps : s'.taps = s.taps
  holder : s'.holder = s.holder
  captureEpoch : s'.captureEpoch = s.captureEpoch
  next : s'.next = s.next
  sent : s'.sent = s.sent
  capturing : ∀ id, s'.isCapturing id = true → s.isCapturing id = true

theorem Orderly.spared (h : Orderly s) (hs : Spares s s') : Orderly s' := by
  apply h.watch hs.taps hs.holder hs.captureEpoch hs.next
  · intro id
    rw [chunksSent, chunksSent, hs.sent]
  · exact hs.capturing

theorem Spares.refl (s : Runtime η σ ρ) : Spares s s :=
  ⟨rfl, rfl, rfl, rfl, rfl, fun _ hc => hc⟩

theorem Spares.trans {u : Runtime η σ ρ} (h : Spares s s') (h' : Spares s' u) :
    Spares s u where
  taps := h'.taps.trans h.taps
  holder := h'.holder.trans h.holder
  captureEpoch := h'.captureEpoch.trans h.captureEpoch
  next := h'.next.trans h.next
  sent := h'.sent.trans h.sent
  capturing id hc := h.capturing id (h'.capturing id hc)

theorem Spares.own (htaps : s'.taps = s.taps) (hholder : s'.holder = s.holder)
    (hepoch : s'.captureEpoch = s.captureEpoch) (hnext : s'.next = s.next)
    (hsent : s'.sent = s.sent) (htickets : s'.tickets = s.tickets)
    (hstopping : s'.stopping = s.stopping) (hfailed : s'.failed = s.failed) :
    Spares s s' := by
  refine ⟨htaps, hholder, hepoch, hnext, hsent, fun id hc => ?_⟩
  simpa [isCapturing, accepting, htaps, hepoch, htickets, hstopping, hfailed] using hc

theorem spares_pend (s : Runtime η σ ρ) (id : Nat) (n : Int) :
    Spares s (s.pend id n) :=
  ⟨rfl, rfl, rfl, rfl, rfl, fun j hc => (isCapturing_pend s id j n).symm.trans hc⟩

theorem spares_failRecording (s : Runtime η σ ρ) (c : CaptureConfig) :
    Spares s (s.failRecording c) := by
  refine ⟨rfl, rfl, rfl, rfl, rfl, fun j => ?_⟩
  simp +contextual [failRecording, isCapturing, accepting]

theorem spares_replayStream (s : Runtime η σ ρ) (c : CaptureConfig)
    (a : Analysis η σ ρ) (now id : Nat) (stream : CaptureStream σ) :
    Spares s (s.replayStream c a now id stream).1 := by
  unfold replayStream
  dsimp only
  split
  · exact .own rfl rfl rfl rfl rfl rfl rfl rfl
  · have hpublish : Spares s (s.publish (.tap id)
        (a.replay now stream.body (s.tickets id).closeReason).2.2) :=
      .own rfl rfl rfl rfl rfl rfl rfl rfl
    exact hpublish.trans (spares_failRecording _ c)

theorem spares_take (s : Runtime η σ ρ) (c : CaptureConfig) (a : Analysis η σ ρ)
    (now : Nat) (e : CaptureEvent η) : Spares s (s.take c a now e) := by
  cases e with
  | opened id identity => exact .own rfl rfl rfl rfl rfl rfl rfl rfl
  | data id side offset bytes =>
    apply Spares.trans _ (spares_pend _ id (-1))
    unfold takeData
    split
    · exact .refl s
    · exact .own rfl rfl rfl rfl rfl rfl rfl rfl
  | message id m =>
    apply Spares.trans _ (spares_pend _ id (-1))
    unfold takeMessage
    split
    · exact .refl s
    · exact .own rfl rfl rfl rfl rfl rfl rfl rfl
  | barrier => exact .refl s
  | stopCapture call =>
    refine ⟨rfl, rfl, rfl, rfl, rfl, fun id => ?_⟩
    by_cases hid : s.connections.contains id
    · simp [take, closeAll, isCapturing, accepting, hid]
    · simp [take, closeAll, isCapturing, accepting, hid]
  | shutdown => exact .refl s

theorem spares_perform (s : Runtime η σ ρ) (c : CaptureConfig)
    (a : Analysis η σ ρ) (now : Nat) (task : Task) :
    Spares s (s.perform c a now task) := by
  cases task with
  | reapScan all stopped => exact .own rfl rfl rfl rfl rfl rfl rfl rfl
  | reapOne id stopped =>
    simp only [perform, reapOne]
    split
    · exact .refl s
    · split
      · exact (spares_replayStream s c a now id _).trans
          (.own rfl rfl rfl rfl rfl rfl rfl rfl)
      · exact .own rfl rfl rfl rfl rfl rfl rfl rfl
  | progressScan => exact .own rfl rfl rfl rfl rfl rfl rfl rfl
  | progressOne id =>
    simp only [perform, progressOne]
    split
    · exact .refl s
    · split
      · have hpromote : Spares s (s.promote id) := by
          refine ⟨rfl, rfl, rfl, rfl, rfl, fun j => ?_⟩
          by_cases hj : j = id
          · simp [promote, ticket, isCapturing, accepting, hj]
          · simp [promote, ticket, isCapturing, accepting, alter_ne hj]
        exact hpromote.trans ((spares_replayStream _ c a now id _).trans
          (.own rfl rfl rfl rfl rfl rfl rfl rfl))
      · exact .own rfl rfl rfl rfl rfl rfl rfl rfl
  | reply call =>
    simp only [perform, answer]
    split
    · exact .own rfl rfl rfl rfl rfl rfl rfl rfl
    · exact .refl s
  | exit => exact .own rfl rfl rfl rfl rfl rfl rfl rfl

theorem spares_work (s : Runtime η σ ρ) (c : CaptureConfig) (a : Analysis η σ ρ)
    (now : Nat) (due : Bool) : Spares s (s.work c a now due) := by
  unfold work
  split
  · exact .refl s
  · split
    · rename_i task todo htodo
      have hdone : Spares s { s with todo := todo } :=
        .own rfl rfl rfl rfl rfl rfl rfl rfl
      exact hdone.trans (spares_perform _ c a now task)
    · exact .own rfl rfl rfl rfl rfl rfl rfl rfl
    · rename_i e queue _ hqueue
      have hpop : Spares s { s with queue := queue, todo := tasksOf due e } :=
        .own rfl rfl rfl rfl rfl rfl rfl rfl
      exact hpop.trans (spares_take _ c a now e)

theorem submit_orderly (h : Orderly s) (c : CaptureConfig) {e : CaptureEvent η}
    (he : ∀ id, chunkOf id e = none) : Orderly (s.submit c e) := by
  unfold submit
  split
  · exact push_orderly h he
  · exact h

theorem lifecycle_orderly (h : Orderly s) (epoch : Nat) (record : ρ) :
    Orderly (s.lifecycle epoch record) := by
  unfold lifecycle
  split
  · exact h
  · split
    · exact h
    · exact h.spared (.own rfl rfl rfl rfl rfl rfl rfl rfl)

theorem shutdown_orderly (h : Orderly s) : Orderly s.shutdown := by
  unfold shutdown
  split
  · exact h
  · apply h.spared
    exact ⟨rfl, rfl, rfl, rfl, rfl, fun j => by simp [isCapturing, accepting]⟩

theorem fail_orderly (h : Orderly s) (working : Bool) :
    Orderly { s with working := working, failed := true } := by
  apply h.spared
  exact ⟨rfl, rfl, rfl, rfl, rfl, fun j => by simp [isCapturing, accepting]⟩

theorem step_orderly {c : CaptureConfig} {a : Analysis η σ ρ}
    (s : Runtime η σ ρ) (e : CaptureStep η ρ) (h : Orderly s) :
    Orderly (s.step c a e) := by
  cases e with
  | startCapture => exact startCapture_orderly h
  | stopCapture call => exact stopCapture_orderly h call
  | stopGoesOn call => exact stopGoesOn_orderly h c call
  | tapAt epoch identity => exact tapAt_orderly h c epoch identity
  | hold => exact hold_orderly h c
  | data id side bytes => exact data_orderly h id side bytes
  | tryData id side bytes contended =>
    exact tryData_orderly h c id side bytes contended
  | send id m => exact send_orderly h id m
  | dataAsync id side bytes => exact dataAsync_orderly h id side bytes
  | sendAsync id m => exact sendAsync_orderly h id m
  | attempt id k contended => exact attempt_orderly h c id k contended
  | cancel id k => exact cancel_orderly h c id k
  | closeReason id reason => exact ticket_orderly h id (by simp) (by simp)
  | transportClosed id side error => exact ticket_orderly h id (by simp) (by simp)
  | dropTap id => exact dropTap_orderly h id
  | lifecycle epoch record => exact lifecycle_orderly h epoch record
  | query => exact submit_orderly h c (by simp [chunkOf])
  | shutdown => exact shutdown_orderly h
  | sendShutdown =>
    simp only [step]
    split
    · exact submit_orderly h c (by simp [chunkOf])
    · exact h
  | work now due => exact h.spared (spares_work s c a now due)
  | failure => exact fail_orderly h s.working
  | panic => exact fail_orderly h false

end Orderly

end Runtime

end ProxyLane.Mitm
