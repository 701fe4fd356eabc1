import Mathlib.Data.List.TakeDrop
import ProxyLane.Foundation.Run

/-!
# The queue of log texts

Any thread pushes, the page takes batches.  A full queue loses its oldest entry
and counts it, and the first push into a queue nobody was told of asks for a
notification.  The page answers a notification with a timer and the timer with
a batch.
-/

namespace ProxyLane.App.BoundedLogQueue

open ProxyLane.Foundation

structure Limits where
  capacity : Nat
  batchSize : Nat
  capacity_pos : 0 < capacity
  batchSize_pos : 0 < batchSize

/-- The limits of the page. -/
def Limits.page : Limits := ⟨5000, 100, by decide, by decide⟩

structure Batch (α : Type) where
  entries : List α
  dropped : Nat
  hasMore : Bool
  deriving DecidableEq

structure Queue (α : Type) where
  entries : List α := []
  dropped : Nat := 0
  notificationPending : Bool := false
  deriving DecidableEq

section Queue

variable {α : Type} (lim : Limits)

namespace Queue

def push (q : Queue α) (value : α) : Queue α × Bool :=
  let full := lim.capacity ≤ q.entries.length
  ({ entries := (if full then q.entries.drop 1 else q.entries) ++ [value]
     dropped := if full then q.dropped + 1 else q.dropped
     notificationPending := true }, !q.notificationPending)

def takeBatch (q : Queue α) : Queue α × Batch α :=
  let rest := q.entries.drop lim.batchSize
  let hasMore := !rest.isEmpty
  (⟨rest, 0, q.notificationPending && hasMore⟩,
    ⟨q.entries.take lim.batchSize, q.dropped, hasMore⟩)

def onNotificationPostFailed (q : Queue α) : Queue α :=
  { q with notificationPending := false }

def clear (_ : Queue α) : Queue α := {}

end Queue

inductive Event (α : Type) where
  | push (value : α)
  | takeBatch
  | postFailed
  | clear

/-- The queue and what was seen of it since the last `clear`: the entries
pushed, the batches, whether a notification that was asked for is still to be
answered, and whether the last one failed. -/
structure Seen (α : Type) where
  queue : Queue α := {}
  pushed : List α := []
  batches : List (Batch α) := []
  told : Bool := false
  failed : Bool := false

def Seen.step (s : Seen α) : Event α → Seen α
  | .push value =>
    let (queue, due) := s.queue.push lim value
    { s with
      queue := queue
      pushed := s.pushed ++ [value]
      told := s.told || due
      failed := s.failed && !due }
  | .takeBatch =>
    let (queue, batch) := s.queue.takeBatch lim
    { s with
      queue := queue
      batches := s.batches ++ [batch]
      told := s.told && batch.hasMore
      failed := s.failed && batch.hasMore }
  | .postFailed =>
    { s with
      queue := s.queue.onNotificationPostFailed
      told := false
      failed := true }
  | .clear => { queue := s.queue.clear }

/-- The entries pushed, cut into batches: for each the entries it counts as
dropped, then the ones it holds; what is left is the queue, with the entries it
has dropped in front. -/
def Explains (q : Queue α) : List α → List (Batch α) → Prop
  | pushed, [] => ∃ lost, lost.length = q.dropped ∧ pushed = lost ++ q.entries
  | pushed, batch :: batches =>
    ∃ lost rest, lost.length = batch.dropped ∧
      pushed = lost ++ batch.entries ++ rest ∧ Explains q rest batches

theorem explains_push {q : Queue α} (value : α) {pushed : List α}
    {batches : List (Batch α)} (h : Explains q pushed batches) :
    Explains (q.push lim value).1 (pushed ++ [value]) batches := by
  induction batches generalizing pushed with
  | nil =>
    obtain ⟨lost, hlost, rfl⟩ := h
    by_cases hfull : lim.capacity ≤ q.entries.length
    · have hpos := lim.capacity_pos
      cases hentries : q.entries with
      | nil =>
        rw [hentries] at hfull
        exact absurd hfull (Nat.not_le.2 hpos)
      | cons first rest =>
        have hlen : lim.capacity ≤ rest.length + 1 := by simpa [hentries] using hfull
        exact ⟨lost ++ [first], by simp [Queue.push, hentries, hlen, hlost],
          by simp [Queue.push, hentries, hlen]⟩
    · exact ⟨lost, by simp [Queue.push, hfull, hlost], by simp [Queue.push, hfull]⟩
  | cons batch batches ih =>
    obtain ⟨lost, rest, hlost, rfl, hrest⟩ := h
    exact ⟨lost, rest ++ [value], hlost, by simp, ih hrest⟩

theorem explains_takeBatch {q : Queue α} {pushed : List α}
    {batches : List (Batch α)} (h : Explains q pushed batches) :
    Explains (q.takeBatch lim).1 pushed (batches ++ [(q.takeBatch lim).2]) := by
  induction batches generalizing pushed with
  | nil =>
    obtain ⟨lost, hlost, rfl⟩ := h
    refine ⟨lost, q.entries.drop lim.batchSize, hlost, ?_, [], rfl, rfl⟩
    simp [Queue.takeBatch]
  | cons batch batches ih =>
    obtain ⟨lost, rest, hlost, hpushed, hrest⟩ := h
    exact ⟨lost, rest, hlost, hpushed, ih hrest⟩

theorem explains_congr {q q' : Queue α} (hentries : q.entries = q'.entries)
    (hdropped : q.dropped = q'.dropped) {pushed : List α} {batches : List (Batch α)}
    (h : Explains q pushed batches) : Explains q' pushed batches := by
  induction batches generalizing pushed with
  | nil => simpa only [Explains, ← hentries, ← hdropped] using h
  | cons batch batches ih =>
    obtain ⟨lost, rest, hlost, hpushed, hrest⟩ := h
    exact ⟨lost, rest, hlost, hpushed, ih hrest⟩

structure Sound (s : Seen α) : Prop where
  explained : Explains s.queue s.pushed s.batches
  bounded : s.queue.entries.length ≤ lim.capacity
  pending : s.queue.notificationPending = s.told
  awake : s.queue.entries ≠ [] → s.told = true ∨ s.failed = true

theorem step_sound {s : Seen α} (hs : Sound lim s) (e : Event α) :
    Sound lim (s.step lim e) := by
  have hpos := lim.capacity_pos
  have hbounded := hs.bounded
  cases e with
  | push value =>
    refine ⟨explains_push lim value hs.explained, ?_, ?_, fun _ => Or.inl ?_⟩
    · simp only [Seen.step, Queue.push, List.length_append, List.length_singleton]
      split_ifs with hfull
      · rw [List.length_drop]
        omega
      · omega
    · simp [Seen.step, Queue.push, hs.pending]
    · simp [Seen.step, Queue.push, hs.pending]
  | takeBatch =>
    refine ⟨explains_takeBatch lim hs.explained, ?_, ?_, fun hmore => ?_⟩
    · simp only [Seen.step, Queue.takeBatch, List.length_drop]
      omega
    · simp [Seen.step, Queue.takeBatch, hs.pending]
    · have hrest : s.queue.entries.drop lim.batchSize ≠ [] := hmore
      have hsome : s.queue.entries ≠ [] := by
        intro h
        simp [h] at hrest
      simpa [Seen.step, Queue.takeBatch, hrest] using hs.awake hsome
  | postFailed =>
    have hentries : s.queue.entries = s.queue.onNotificationPostFailed.entries := rfl
    have hsame : Explains s.queue.onNotificationPostFailed s.pushed s.batches :=
      explains_congr hentries rfl hs.explained
    exact ⟨hsame, hbounded, rfl, fun _ => Or.inr rfl⟩
  | clear =>
    exact ⟨⟨[], rfl, rfl⟩, Nat.zero_le _, rfl, fun h => absurd rfl h⟩

theorem sound_empty : Sound lim ({} : Seen α) :=
  ⟨⟨[], rfl, rfl⟩, Nat.zero_le _, rfl, fun h => absurd rfl h⟩

end Queue

structure LogEntry where
  text : String
  time : Nat
  deriving DecidableEq

inductive Phase where
  | idle
  | scheduling
  | failing
  | flushing
  | clearing
  deriving DecidableEq

/-- `messages` counts the posted notifications that the page has not handled;
`failed` is that the last attempt to notify it was reported as failed. -/
structure Page where
  queue : Queue LogEntry := {}
  messages : Nat := 0
  timer : Bool := false
  phase : Phase := .idle
  failed : Bool := false

inductive PageEvent where
  | queueLogText (entry : LogEntry) (posted : Bool)
  | message
  | schedule (timerSet : Bool)
  | reportFailure
  | tick
  | takeBatch
  | clearQueue
  | killTimer

/-- A step of any thread; one that its thread cannot take changes nothing.
Producers push and post under one lock, the page's thread takes its steps in
the order of its handlers. -/
def Page.step (lim : Limits) (s : Page) : PageEvent → Page
  | .queueLogText entry posted =>
    if entry.text = "" then s
    else
      let queue := (s.queue.push lim entry).1
      if (s.queue.push lim entry).2 = false then { s with queue := queue }
      else if posted then
        { s with queue := queue, messages := s.messages + 1, failed := false }
      else { s with queue := queue.onNotificationPostFailed, failed := true }
  | .message =>
    if s.phase = .idle ∧ 0 < s.messages then
      { s with messages := s.messages - 1, phase := .scheduling }
    else s
  | .schedule timerSet =>
    -- `ScheduleLogFlush`: a failure of `SetTimer` is reported under the lock
    if s.phase = .scheduling then
      if s.timer then { s with phase := .idle }
      else if timerSet then { s with timer := true, phase := .idle }
      else { s with phase := .failing }
    else s
  | .reportFailure =>
    if s.phase = .failing then
      { s with
        queue := s.queue.onNotificationPostFailed
        failed := true
        phase := .idle }
    else s
  | .tick =>
    if s.phase = .idle ∧ s.timer = true then
      { s with timer := false, phase := .flushing }
    else s
  | .takeBatch =>
    if s.phase = .flushing then
      let batch := (s.queue.takeBatch lim).2
      { s with
        queue := (s.queue.takeBatch lim).1
        failed := s.failed && batch.hasMore
        phase :=
          if batch.entries = [] ∧ batch.dropped = 0 then .idle
          else if batch.hasMore then .scheduling
          else .idle }
    else s
  | .clearQueue =>
    if s.phase = .idle then
      { s with queue := s.queue.clear, failed := false, phase := .clearing }
    else s
  | .killTimer =>
    if s.phase = .clearing then { s with timer := false, phase := .idle } else s

/-- Something is under way that ends in a batch.  The timer does not count
while it is about to be killed. -/
def Page.Alive (s : Page) : Prop :=
  0 < s.messages ∨ (s.timer = true ∧ s.phase ≠ .clearing) ∨
    s.phase = .scheduling ∨ s.phase = .failing ∨ s.phase = .flushing

structure Page.Sound (s : Page) : Prop where
  pending : s.queue.notificationPending = true → s.Alive
  awake : s.queue.entries ≠ [] → s.queue.notificationPending = true ∨ s.failed = true

theorem takeBatch_more (lim : Limits) (q : Queue LogEntry)
    (hmore : (q.takeBatch lim).2.hasMore = true) :
    (q.takeBatch lim).2.entries ≠ [] := by
  intro h
  simp only [Queue.takeBatch, List.take_eq_nil_iff, Bool.not_eq_true',
    List.isEmpty_eq_false_iff] at h hmore
  rcases h with h | h
  · exact absurd h (Nat.ne_of_gt lim.batchSize_pos)
  · simp [h] at hmore

theorem page_step_sound (lim : Limits) {s : Page} (hs : s.Sound) (e : PageEvent) :
    (s.step lim e).Sound := by
  obtain ⟨hpending, hawake⟩ := hs
  cases e with
  | queueLogText entry posted =>
    rw [Page.step]
    split_ifs with hempty hdue
    · exact ⟨hpending, hawake⟩
    · have hold : s.queue.notificationPending = true := by
        simpa [Queue.push] using hdue
      exact ⟨fun _ => hpending hold, fun _ => Or.inl rfl⟩
    · exact ⟨fun _ => Or.inl (Nat.succ_pos _), fun _ => Or.inl rfl⟩
    · exact ⟨nofun, fun _ => Or.inr rfl⟩
  | message =>
    rw [Page.step]
    split_ifs with hidle
    · exact ⟨fun _ => Or.inr (Or.inr (Or.inl rfl)), hawake⟩
    · exact ⟨hpending, hawake⟩
  | schedule timerSet =>
    rw [Page.step]
    split_ifs with hphase htimer hset
    · exact ⟨fun _ => Or.inr (Or.inl ⟨htimer, by simp⟩), hawake⟩
    · exact ⟨fun _ => Or.inr (Or.inl ⟨rfl, by simp⟩), hawake⟩
    · exact ⟨fun _ => Or.inr (Or.inr (Or.inr (Or.inl rfl))), hawake⟩
    · exact ⟨hpending, hawake⟩
  | reportFailure =>
    rw [Page.step]
    split_ifs with hphase
    · exact ⟨nofun, fun _ => Or.inr rfl⟩
    · exact ⟨hpending, hawake⟩
  | tick =>
    rw [Page.step]
    split_ifs with hidle
    · exact ⟨fun _ => Or.inr (Or.inr (Or.inr (Or.inr rfl))), hawake⟩
    · exact ⟨hpending, hawake⟩
  | takeBatch =>
    rw [Page.step]
    split_ifs with hphase
    · have hentries := takeBatch_more lim s.queue
      cases hmore : (s.queue.takeBatch lim).2.hasMore with
      | true =>
        have hsome : s.queue.entries ≠ [] := by
          intro h
          simp [Queue.takeBatch, h] at hmore
        refine ⟨fun _ => Or.inr (Or.inr (Or.inl ?_)), fun _ => ?_⟩
        · simp [hmore, hentries hmore]
        · have hrest : s.queue.entries.drop lim.batchSize ≠ [] := by
            simpa [Queue.takeBatch] using hmore
          simpa [Queue.takeBatch, hrest] using hawake hsome
      | false =>
        have hnone : s.queue.entries.drop lim.batchSize = [] := by
          simpa [Queue.takeBatch] using hmore
        refine ⟨fun h => ?_, fun h => absurd hnone h⟩
        simp [Queue.takeBatch, hnone] at h
    · exact ⟨hpending, hawake⟩
  | clearQueue =>
    rw [Page.step]
    split_ifs with hidle
    · exact ⟨nofun, fun h => absurd rfl h⟩
    · exact ⟨hpending, hawake⟩
  | killTimer =>
    rw [Page.step]
    split_ifs with hphase
    · refine ⟨fun h => Or.inl ?_, hawake⟩
      simpa [Page.Alive, hphase] using hpending h
    · exact ⟨hpending, hawake⟩

private theorem page_sound_empty : Page.Sound {} :=
  ⟨nofun, fun h => absurd rfl h⟩

/-- Every entry is taken once in order or counted in front of the batch that it
is missing from, the queue keeps its capacity and is never silent, and the page
at rest holds no text without a message, a timer or a reported failure. -/
theorem nothing_lost_silently (lim : Limits) :
    (∀ (α : Type) (events : List (Event α)),
      Sound lim (run (Seen.step lim) {} events)) ∧
    ∀ events : List PageEvent,
      let s := run (Page.step lim) {} events
      s.phase = .idle → s.queue.entries ≠ [] →
        0 < s.messages ∨ s.timer = true ∨ s.failed = true := by
  refine ⟨fun α events => @run_induction _ _ (Seen.step lim) (Sound lim)
    (fun s e hs => step_sound lim hs e) {} (sound_empty lim) events, ?_⟩
  intro events s hidle hsome
  have hs : s.Sound := @run_induction _ _ (Page.step lim) Page.Sound
    (fun s e hs => page_step_sound lim hs e) {} page_sound_empty events
  rcases hs.awake hsome with hpending | hfailed
  · have halive := hs.pending hpending
    simp only [Page.Alive, hidle] at halive
    simp at halive
    tauto
  · exact Or.inr (Or.inr hfailed)

end ProxyLane.App.BoundedLogQueue
