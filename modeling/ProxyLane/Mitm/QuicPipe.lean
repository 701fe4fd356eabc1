import Mathlib.Data.List.Sublists
import ProxyLane.Foundation.Bytes
import ProxyLane.Foundation.Run

/-!
# The pipes of a QUIC connection

The host feeds datagrams into one queue of a pipe and takes those of the other;
the endpoint of the runtime does the reverse.  Every call holds the lock of the
pipe's queue.
-/

namespace ProxyLane.Mitm.QuicPipe

open ProxyLane.Foundation

def queueBytes : Nat := 512 * 1024

/-- A waker is stored until it is woken.  The last five fields are history:
what was taken in and given out in each direction, and whether there was no
`consume` since the write waker was stored. -/
structure Pipe where
  input : List Bytes := []
  inputBytes : Nat := 0
  output : List Bytes := []
  outputBytes : Nat := 0
  read : Option Nat := none
  write : Option Nat := none
  closed : Bool := false
  detached : Bool := false
  fed : List Bytes := []
  received : List Bytes := []
  sent : List Bytes := []
  consumed : List Bytes := []
  quiet : Bool := true

inductive PipeError where
  | brokenPipe
  | invalidInput
  | wouldBlock
  deriving DecidableEq

inductive Poll (α : Type) where
  | ready (value : Except PipeError α)
  | pending

namespace Pipe

def feed (p : Pipe) (b : Bytes) : Pipe :=
  if p.closed = false ∧ p.inputBytes + b.length ≤ queueBytes then
    { p with
      inputBytes := p.inputBytes + b.length
      input := p.input ++ [b]
      read := none
      fed := p.fed ++ [b] }
  else p

def peek (p : Pipe) (room : Nat) : Option Bytes :=
  p.output.head?.filter fun b => b.length ≤ room

def consume (p : Pipe) : Pipe :=
  match p.output with
  | [] => { p with quiet := false }
  | b :: rest =>
    { p with
      output := rest
      outputBytes := p.outputBytes - b.length
      write := none
      consumed := p.consumed ++ [b]
      quiet := false }

def trySend (p : Pipe) (toRemote segmented : Bool) (contents : Bytes) :
    Except PipeError Unit × Bool × Pipe :=
  if p.closed then (.error .brokenPipe, false, p)
  else if !toRemote || segmented then (.error .invalidInput, false, p)
  else if queueBytes < p.outputBytes + contents.length then
    (.error .wouldBlock, false, p)
  else (.ok (), p.output.isEmpty,
    { p with
      outputBytes := p.outputBytes + contents.length
      output := p.output ++ [contents]
      sent := p.sent ++ [contents] })

def pollWritable (p : Pipe) (waker : Nat) : Poll Unit × Pipe :=
  if p.closed then (.ready (.error .brokenPipe), p)
  else if p.outputBytes + 65536 ≤ queueBytes then (.ready (.ok ()), p)
  else (.pending, { p with write := some waker, quiet := true })

/-- `bufs` are the lengths of the caller's buffers, `meta` the places for what
is said of a datagram. -/
def pollRecv (p : Pipe) (waker : Nat) (bufs : List Nat) (places : Nat) :
    Poll Bytes × Pipe :=
  if p.closed then (.ready (.error .brokenPipe), p)
  else match p.input with
    | [] => (.pending, { p with read := some waker })
    | b :: rest =>
      let p := { p with input := rest, inputBytes := p.inputBytes - b.length }
      if places = 0 ∨ bufs.headD 0 < b.length ∨ bufs = [] then
        (.ready (.error .invalidInput), p)
      else (.ready (.ok b), { p with received := p.received ++ [b] })

def finish (p : Pipe) : Pipe :=
  { p with closed := true, input := [], inputBytes := 0, read := none, write := none }

def drop (p : Pipe) : Pipe :=
  { p with detached := true, closed := true, read := none, write := none }

end Pipe

/-- `dropped` counts the pipes that `drop` has closed, `notified` the calls of
the host. -/
structure Live where
  pipe : Bool → Pipe := fun _ => {}
  dropped : Nat := 0
  notified : Nat := 0

inductive Event where
  | feed (side : Bool) (b : Bytes)
  | consume (side : Bool)
  | trySend (side : Bool) (toRemote segmented : Bool) (contents : Bytes)
  | pollWritable (side : Bool) (waker : Nat)
  | pollRecv (side : Bool) (waker : Nat) (bufs : List Nat) (places : Nat)
  | finishPipe (side : Bool)
  | taskEnd
  | dropPipe

def Live.set (s : Live) (side : Bool) (p : Pipe) : Live :=
  { s with pipe := Function.update s.pipe side p }

/-- One step of any thread.  `drop` takes the pipes in order. -/
def step (s : Live) : Event → Live
  | .feed side b => s.set side ((s.pipe side).feed b)
  | .consume side => s.set side (s.pipe side).consume
  | .trySend side toRemote segmented contents =>
    let (_, notify, p) := (s.pipe side).trySend toRemote segmented contents
    { s.set side p with notified := s.notified + notify.toNat }
  | .pollWritable side waker => s.set side ((s.pipe side).pollWritable waker).2
  | .pollRecv side waker bufs places =>
    s.set side ((s.pipe side).pollRecv waker bufs places).2
  | .finishPipe side => s.set side (s.pipe side).finish
  | .taskEnd => { s with notified := s.notified + (!(s.pipe false).detached).toNat }
  | .dropPipe =>
    if s.dropped < 2 then
      { s.set (s.dropped == 1) (s.pipe (s.dropped == 1)).drop with
        dropped := s.dropped + 1 }
    else s

def total (queue : List Bytes) : Nat := (queue.map List.length).sum

structure Pipe.Sound (p : Pipe) : Prop where
  inputBytes : p.inputBytes = total p.input
  inputFits : p.inputBytes ≤ queueBytes
  outputBytes : p.outputBytes = total p.output
  outputFits : p.outputBytes ≤ queueBytes
  inOrder : (p.received ++ p.input).Sublist p.fed
  outOrder : p.consumed ++ p.output = p.sent
  readEmpty : p.read ≠ none → p.input = []
  writeQuiet : p.write ≠ none → p.quiet = true ∧ queueBytes < p.outputBytes + 65536

variable {p : Pipe}

theorem feed_sound (hp : p.Sound) (b : Bytes) : (p.feed b).Sound := by
  rw [Pipe.feed]
  split_ifs with hroom
  · have hin := hp.inOrder.append_right [b]
    exact { hp with
      inputBytes := by simp [hp.inputBytes, total]
      inputFits := hroom.2
      inOrder := by simpa [List.append_assoc] using hin
      readEmpty := fun h => absurd rfl h }
  · exact hp

theorem peek_eq_some_iff {room : Nat} {b : Bytes} : p.peek room = some b ↔
    b.length ≤ room ∧ p.consume.consumed = p.consumed ++ [b] := by
  cases h : p.output with
  | nil => simp [Pipe.peek, Pipe.consume, h]
  | cons c rest =>
    simp only [Pipe.peek, Pipe.consume, h, List.head?_cons, Option.filter_eq_some_iff]
    simp [and_comm, eq_comm]

theorem consume_sound (hp : p.Sound) : p.consume.Sound := by
  have hout := hp.outputBytes
  have hfits := hp.outputFits
  rw [Pipe.consume]
  split
  · next houtput =>
      refine { hp with writeQuiet := fun h => ?_ }
      -- a stored write waker means a queue that is nearly full
      have hfull := (hp.writeQuiet h).2
      simp only [houtput, total, List.map_nil, List.sum_nil, queueBytes] at hout hfull
      omega
  · next b rest houtput =>
      have hsum : p.outputBytes = b.length + total rest := by
        simpa [houtput, total] using hout
      exact { hp with
        outputBytes := by simp [hsum]
        outputFits := by simp only; omega
        outOrder := by simpa [houtput] using hp.outOrder
        writeQuiet := fun h => absurd rfl h }

theorem trySend_sound (hp : p.Sound) (toRemote segmented : Bool)
    (contents : Bytes) : (p.trySend toRemote segmented contents).2.2.Sound := by
  rw [Pipe.trySend]
  split_ifs with hclosed hinvalid hfull
  · exact hp
  · exact hp
  · exact hp
  · exact { hp with
      outputBytes := by simp [hp.outputBytes, total]
      outputFits := Nat.le_of_not_lt hfull
      outOrder := by simp [← hp.outOrder]
      writeQuiet := fun h => by
        have := hp.writeQuiet h
        exact ⟨this.1, by simp only; omega⟩ }

theorem pollWritable_sound (hp : p.Sound) (waker : Nat) :
    (p.pollWritable waker).2.Sound := by
  rw [Pipe.pollWritable]
  split_ifs with hclosed hroom
  · exact hp
  · exact hp
  · exact { hp with writeQuiet := fun _ => ⟨rfl, Nat.lt_of_not_le hroom⟩ }

theorem pollRecv_sound (hp : p.Sound) (waker : Nat) (bufs : List Nat)
    (places : Nat) : (p.pollRecv waker bufs places).2.Sound := by
  have hin := hp.inputBytes
  have hfits := hp.inputFits
  have horder := hp.inOrder
  rw [Pipe.pollRecv]
  split_ifs with hclosed
  · exact hp
  · split
    · next hinput => exact { hp with readEmpty := fun _ => hinput }
    · next b rest hinput =>
        have hsum : p.inputBytes = b.length + total rest := by
          simpa [hinput, total] using hin
        have hnone : p.read = none := by
          by_contra h
          simp [hp.readEmpty h] at hinput
        rw [hinput] at horder
        simp only
        split_ifs
        · have hskip : (p.received ++ rest).Sublist (p.received ++ b :: rest) :=
            (List.sublist_cons_self b rest).append_left p.received
          exact { hp with
            inputBytes := by simp [hsum]
            inputFits := by simp only; omega
            inOrder := hskip.trans horder
            readEmpty := fun h => absurd hnone h }
        · exact { hp with
            inputBytes := by simp [hsum]
            inputFits := by simp only; omega
            inOrder := by simpa using horder
            readEmpty := fun h => absurd hnone h }

theorem finish_sound (hp : p.Sound) : p.finish.Sound :=
  { hp with
    inputBytes := rfl
    inputFits := Nat.zero_le _
    inOrder := by
      simpa [Pipe.finish] using (List.sublist_append_left _ _).trans hp.inOrder
    readEmpty := fun _ => rfl
    writeQuiet := fun h => absurd rfl h }

theorem drop_sound (hp : p.Sound) : p.drop.Sound :=
  { hp with readEmpty := fun h => absurd rfl h, writeQuiet := fun h => absurd rfl h }

/-- An error of `poll_recv` on an open pipe: the caller gave no room for the
datagram, which is gone. -/
theorem pollRecv_error (hopen : p.closed = false) {waker places : Nat}
    {bufs : List Nat} {e : PipeError}
    (h : (p.pollRecv waker bufs places).1 = .ready (.error e)) :
    ∃ b rest, p.input = b :: rest ∧
      (places = 0 ∨ bufs.headD 0 < b.length ∨ bufs = []) := by
  simp only [Pipe.pollRecv, hopen, Bool.false_eq_true, if_false] at h
  split at h
  · cases h
  · next b rest hinput =>
      refine ⟨b, rest, hinput, ?_⟩
      by_contra hroom
      rw [if_neg hroom] at h
      cases h

structure Sound (s : Live) : Prop where
  pipes : ∀ side, (s.pipe side).Sound
  detached : 0 < s.dropped →
    (s.pipe false).closed = true ∧ (s.pipe false).detached = true
  closed : 1 < s.dropped → (s.pipe true).closed = true

def Stays (p p' : Pipe) : Prop :=
  (p.closed = true → p'.closed = true) ∧ (p.detached = true → p'.detached = true)

variable {s : Live}

theorem set_sound (hs : Sound s) (side : Bool) (hp : p.Sound)
    (hstays : Stays (s.pipe side) p) (n : Nat) :
    Sound { s.set side p with notified := n } where
  pipes := fun other => by
    by_cases h : other = side
    · subst h
      simpa [Live.set] using hp
    · simpa [Live.set, h] using hs.pipes other
  detached := fun h => by
    have hold := hs.detached h
    cases side with
    | false => exact ⟨hstays.1 hold.1, hstays.2 hold.2⟩
    | true => exact hold
  closed := fun h => by
    cases side with
    | false => exact hs.closed h
    | true => exact hstays.1 (hs.closed h)

theorem step_sound (hs : Sound s) (e : Event) : Sound (step s e) := by
  cases e with
  | feed side b =>
    apply set_sound hs side (feed_sound (hs.pipes side) b)
    rw [Pipe.feed]
    split_ifs <;> exact ⟨id, id⟩
  | consume side =>
    apply set_sound hs side (consume_sound (hs.pipes side))
    rw [Pipe.consume]
    split <;> exact ⟨id, id⟩
  | trySend side toRemote segmented contents =>
    apply set_sound hs side (trySend_sound (hs.pipes side) toRemote segmented contents)
    rw [Pipe.trySend]
    split_ifs <;> exact ⟨id, id⟩
  | pollWritable side waker =>
    apply set_sound hs side (pollWritable_sound (hs.pipes side) waker)
    rw [Pipe.pollWritable]
    split_ifs <;> exact ⟨id, id⟩
  | pollRecv side waker bufs places =>
    apply set_sound hs side (pollRecv_sound (hs.pipes side) waker bufs places)
    rw [Pipe.pollRecv]
    split_ifs
    · exact ⟨id, id⟩
    · split
      · exact ⟨id, id⟩
      · simp only
        split_ifs <;> exact ⟨id, id⟩
  | finishPipe side =>
    exact set_sound hs side (finish_sound (hs.pipes side)) ⟨fun _ => rfl, id⟩ _
  | taskEnd => exact { hs with }
  | dropPipe =>
    rw [step]
    split_ifs with hmore
    · have hset := set_sound hs (s.dropped == 1)
        (drop_sound (hs.pipes (s.dropped == 1))) ⟨fun _ => rfl, fun _ => rfl⟩ s.notified
      refine { hset with detached := fun _ => ?_, closed := fun h => ?_ }
      · by_cases hone : s.dropped = 1
        · exact hset.detached (by simp [Live.set, hone])
        · have hzero : s.dropped = 0 := by omega
          simp [Live.set, hzero, Pipe.drop]
      · have hone : s.dropped = 1 := by
          simp only at h
          omega
        simp [Live.set, hone, Pipe.drop]
    · exact hs

theorem set_output {side other : Bool} {n : Nat}
    (hkeeps : (s.pipe side).output = [] → p.output = [])
    (hempty : (s.pipe other).output = []) :
    (({ s.set side p with notified := n } : Live).pipe other).output = [] := by
  by_cases h : other = side
  · subst h
    simpa [Live.set] using hkeeps hempty
  · simpa [Live.set, h] using hempty

/-- A step that fills an empty output queue notifies the host once; none does
after the drop. -/
theorem step_notified (hs : Sound s) (e : Event) :
    (∀ side, (s.pipe side).output = [] → ((step s e).pipe side).output ≠ [] →
      (step s e).notified = s.notified + 1) ∧
    (1 < s.dropped → (step s e).notified = s.notified) := by
  cases e with
  | feed side b =>
    refine ⟨fun other h hfull => absurd (set_output ?_ h) hfull, fun _ => rfl⟩
    rw [Pipe.feed]
    split_ifs <;> exact id
  | consume side =>
    refine ⟨fun other h hfull => absurd (set_output ?_ h) hfull, fun _ => rfl⟩
    intro hempty
    simp [Pipe.consume, hempty]
  | trySend side toRemote segmented contents =>
    constructor
    · intro other h hfull
      by_cases hside : other = side
      · subst hside
        simp only [step, Live.set, Function.update_self, Pipe.trySend] at hfull ⊢
        split_ifs at hfull ⊢ <;> simp_all
      · exact absurd (by simpa [step, Live.set, hside] using h) hfull
    · intro hdropped
      have hclosed : (s.pipe side).closed = true := by
        cases side with
        | false => exact (hs.detached (by omega)).1
        | true => exact hs.closed hdropped
      simp [step, Live.set, Pipe.trySend, hclosed]
  | pollWritable side waker =>
    refine ⟨fun other h hfull => absurd (set_output ?_ h) hfull, fun _ => rfl⟩
    rw [Pipe.pollWritable]
    split_ifs <;> exact id
  | pollRecv side waker bufs places =>
    refine ⟨fun other h hfull => absurd (set_output ?_ h) hfull, fun _ => rfl⟩
    rw [Pipe.pollRecv]
    split_ifs
    · exact id
    · split
      · exact id
      · simp only
        split_ifs <;> exact id
  | finishPipe side =>
    refine ⟨fun other h hfull => absurd (set_output ?_ h) hfull, fun _ => rfl⟩
    exact id
  | taskEnd =>
    refine ⟨fun other h hfull => absurd h hfull, fun hdropped => ?_⟩
    simp [step, (hs.detached (by omega)).2]
  | dropPipe =>
    rw [step]
    split_ifs with hmore
    · refine ⟨fun other h hfull => ?_, fun _ => rfl⟩
      refine absurd (set_output (n := s.notified) ?_ h) hfull
      exact id
    · exact ⟨fun other h hfull => absurd h hfull, fun _ => rfl⟩

theorem sound_empty : Sound {} :=
  ⟨fun _ => ⟨rfl, Nat.zero_le _, rfl, Nat.zero_le _, List.Sublist.refl _, rfl,
    fun h => absurd rfl h, fun h => absurd rfl h⟩, nofun, nofun⟩

/-- In every run the queues are counted and bounded, in order, and asleep only
while there is nothing to do; the host hears of every queue that fills, and of
nothing after the drop.  An error of `poll_recv` means a closed pipe or a caller
without room for the datagram. -/
theorem pipes_sound (events : List Event) :
    Sound (run step {} events) ∧
      (∀ e, (∀ side, ((run step {} events).pipe side).output = [] →
          ((step (run step {} events) e).pipe side).output ≠ [] →
            (step (run step {} events) e).notified = (run step {} events).notified + 1) ∧
        (1 < (run step {} events).dropped →
          (step (run step {} events) e).notified = (run step {} events).notified)) ∧
      ∀ side waker bufs places e,
        (((run step {} events).pipe side).pollRecv waker bufs places).1 =
            .ready (.error e) →
          ((run step {} events).pipe side).closed = true ∨
            ∃ b rest, ((run step {} events).pipe side).input = b :: rest ∧
              (places = 0 ∨ bufs.headD 0 < b.length ∨ bufs = []) := by
  have hs : Sound (run step {} events) :=
    @run_induction _ _ step Sound (fun s e hs => step_sound hs e) {} sound_empty events
  refine ⟨hs, step_notified hs, ?_⟩
  intro side waker bufs places e herror
  cases hclosed : ((run step {} events).pipe side).closed with
  | true => exact Or.inl rfl
  | false => exact Or.inr (pollRecv_error hclosed herror)

theorem small_buffer :
    (match (((step {} (.feed false [1, 2])).pipe false).pollRecv 0 [1] 1) with
      | (.ready (.error .invalidInput), p) => !p.closed && p.input.isEmpty
      | _ => false) = true := by
  decide

end ProxyLane.Mitm.QuicPipe
