import ProxyLane.Foundation.LittleEndian
import ProxyLane.Foundation.Table

/-!
# Process snapshots

The answer of `NtQuerySystemInformation` is a chain of entries, each with the
distance of the next and a pointer to its name.  Reads and differences are
checked here: a read outside the buffer and a difference below zero are faults,
and this file shows that no buffer causes one.
-/

namespace ProxyLane.Hook

open ProxyLane.Foundation

namespace ProcessSnapshot

inductive Platform where
  | x86
  | x64
  deriving DecidableEq, Repr

/-- The size of a pointer, and of `size_t`. -/
def Platform.pointer : Platform → Nat
  | .x86 => 4
  | .x64 => 8

/-- `sizeof(SystemProcessPrefix)`. -/
def Platform.prefixSize : Platform → Nat
  | .x86 => 88
  | .x64 => 104

/-- `FIELD_OFFSET` of `imageBuffer`, `processId`, `parentProcessId` and
`sessionId`. -/
def Platform.imageBuffer : Platform → Nat
  | .x86 => 60
  | .x64 => 64

def Platform.processId : Platform → Nat
  | .x86 => 68
  | .x64 => 80

def Platform.parentProcessId : Platform → Nat
  | .x86 => 72
  | .x64 => 88

def Platform.sessionId : Platform → Nat
  | .x86 => 80
  | .x64 => 100

/-- The fields of `SystemProcessPrefix` that are used. -/
structure Entry where
  nextEntryOffset : Nat
  createTime : Nat
  imageLength : Nat
  imageMaximumLength : Nat
  imageBuffer : Nat
  processId : Nat
  parentProcessId : Nat
  sessionId : Nat
  deriving DecidableEq, Repr

def field (bytes : Bytes) (offset width : Nat) : Nat :=
  leNat ((bytes.drop offset).take width)

def decodeEntry (p : Platform) (bytes : Bytes) : Entry where
  nextEntryOffset := field bytes 0 4
  createTime := field bytes 32 8
  imageLength := field bytes 56 2
  imageMaximumLength := field bytes 58 2
  imageBuffer := field bytes p.imageBuffer p.pointer
  processId := field bytes p.processId p.pointer
  parentProcessId := field bytes p.parentProcessId p.pointer
  sessionId := field bytes p.sessionId 4

/-- `createTime.QuadPart` where it is positive as a signed number, else zero. -/
def Entry.time (entry : Entry) : Nat :=
  if entry.createTime < 2 ^ 63 then entry.createTime else 0

structure Process where
  pid : Nat
  parentPid : Nat
  creationTime : Nat
  name : List Nat
  sessionId : Nat
  deriving DecidableEq, Repr

structure Snapshot where
  complete : Bool
  processes : List Process
  creationTimes : Table Nat
  deriving DecidableEq

def Snapshot.unknown : Snapshot := ⟨false, [], Table.empty⟩

inductive Fault where
  | outside
  | underflow
  deriving DecidableEq, Repr

/-- `CopyMemory` of a part of the buffer. -/
def copyMemory (buffer : Bytes) (offset width : Nat) : Except Fault Bytes :=
  if offset + width ≤ buffer.length then
    .ok ((buffer.drop offset).take width)
  else .error .outside

/-- A difference of two `size_t`. -/
def minus (left right : Nat) : Except Fault Nat :=
  if right ≤ left then .ok (left - right) else .error .underflow

def units : Bytes → List Nat
  | low :: high :: rest => (low.toNat + 256 * high.toNat) :: units rest
  | _ => []

/-- The name of an entry of a buffer at the address `base`; none where the
entry is refused. -/
def imageName (base : Nat) (buffer : Bytes) (entry : Entry) :
    Except Fault (Option (List Nat)) :=
  if entry.imageLength % 2 ≠ 0 ∨ entry.imageMaximumLength < entry.imageLength then
    .ok none
  else if entry.imageLength = 0 then .ok (some [])
  else if entry.imageBuffer < base then .ok none
  else do
    let start ← minus entry.imageBuffer base
    if buffer.length < start then return none
    let room ← minus buffer.length start
    if room < entry.imageLength then return none
    let bytes ← copyMemory buffer start entry.imageLength
    return some (units bytes)

def accept (base : Nat) (buffer : Bytes) (times : Table Nat) (entry : Entry) :
    Except Fault (Option Process) :=
  if 2 ^ 32 ≤ entry.processId ∨ 2 ^ 32 ≤ entry.parentProcessId then .ok none
  else if times.contains entry.processId then .ok none
  else do
    let name ← imageName base buffer entry
    return name.map fun name =>
      ⟨entry.processId, entry.parentProcessId, entry.time, name, entry.sessionId⟩

def readEntry (p : Platform) (buffer : Bytes) (offset : Nat) :
    Except Fault Entry :=
  (copyMemory buffer offset p.prefixSize).map (decodeEntry p)

/-- The loop of `ReadSnapshot` from an offset on. -/
def readFrom (p : Platform) (base : Nat) (buffer : Bytes) (offset : Nat)
    (times : Table Nat) (processes : List Process) :
    Except Fault (Option (Table Nat × List Process)) :=
  if _ : offset ≤ buffer.length then
    if buffer.length - offset < p.prefixSize then .ok none
    else
      match readEntry p buffer offset with
      | .error fault => .error fault
      | .ok entry =>
        match accept base buffer times entry with
        | .error fault => .error fault
        | .ok none => .ok none
        | .ok (some process) =>
          let times := times.insert process.pid process.creationTime
          let processes := processes ++ [process]
          if entry.nextEntryOffset = 0 then .ok (some (times, processes))
          else if _ : entry.nextEntryOffset < p.prefixSize ∨
              buffer.length - offset < entry.nextEntryOffset then .ok none
          else
            readFrom p base buffer (offset + entry.nextEntryOffset) times
              processes
  else .error .underflow
termination_by buffer.length - offset
decreasing_by
  have hsize : 0 < p.prefixSize := by cases p <;> decide
  omega

/-- `ReadSnapshot`: the result and the snapshot. -/
def readSnapshot (p : Platform) (base : Nat) (buffer : Option Bytes) :
    Except Fault (Bool × Snapshot) :=
  match buffer with
  | none => .ok (false, .unknown)
  | some buffer =>
    (readFrom p base buffer 0 Table.empty []).map fun
      | none => (false, .unknown)
      | some (times, processes) => (true, ⟨true, processes, times⟩)

def entryAt (p : Platform) (buffer : Bytes) (offset : Nat) : Option Entry :=
  if offset + p.prefixSize ≤ buffer.length then
    some (decodeEntry p ((buffer.drop offset).take p.prefixSize))
  else none

inductive Chain (p : Platform) (buffer : Bytes) : Nat → List Entry → Prop where
  | last {offset : Nat} {entry : Entry}
      (hentry : entryAt p buffer offset = some entry)
      (hlast : entry.nextEntryOffset = 0) : Chain p buffer offset [entry]
  | more {offset : Nat} {entry : Entry} {rest : List Entry}
      (hentry : entryAt p buffer offset = some entry)
      (hnext : p.prefixSize ≤ entry.nextEntryOffset)
      (hrest : Chain p buffer (offset + entry.nextEntryOffset) rest) :
      Chain p buffer offset (entry :: rest)

structure Entry.Sound (base : Nat) (buffer : Bytes) (entry : Entry) : Prop where
  pid : entry.processId < 2 ^ 32
  parentPid : entry.parentProcessId < 2 ^ 32
  even : entry.imageLength % 2 = 0
  maximum : entry.imageLength ≤ entry.imageMaximumLength
  name : entry.imageLength = 0 ∨ base ≤ entry.imageBuffer ∧
    entry.imageBuffer - base + entry.imageLength ≤ buffer.length

def processOf (base : Nat) (buffer : Bytes) (entry : Entry) : Process :=
  ⟨entry.processId, entry.parentProcessId, entry.time,
    units ((buffer.drop (entry.imageBuffer - base)).take entry.imageLength),
    entry.sessionId⟩

variable {buffer : Bytes} {offset : Nat}

theorem copyMemory_inside {width : Nat} (h : offset + width ≤ buffer.length) :
    copyMemory buffer offset width = .ok ((buffer.drop offset).take width) :=
  if_pos h

theorem minus_le {left right : Nat} (h : right ≤ left) :
    minus left right = .ok (left - right) := if_pos h

theorem imageName_eq (base : Nat) (buffer : Bytes) (entry : Entry) :
    imageName base buffer entry =
      .ok (if entry.imageLength % 2 = 0 ∧
          entry.imageLength ≤ entry.imageMaximumLength ∧
          (entry.imageLength = 0 ∨ base ≤ entry.imageBuffer ∧
            entry.imageBuffer - base + entry.imageLength ≤ buffer.length) then
        some (processOf base buffer entry).name else none) := by
  unfold imageName
  by_cases hlength : entry.imageLength % 2 ≠ 0 ∨
      entry.imageMaximumLength < entry.imageLength
  · rw [if_pos hlength, if_neg (by omega)]
  · rw [if_neg hlength]
    by_cases hzero : entry.imageLength = 0
    · rw [if_pos hzero, if_pos (by omega)]
      simp [processOf, hzero, units]
    · rw [if_neg hzero]
      by_cases hbase : entry.imageBuffer < base
      · rw [if_pos hbase, if_neg (by omega)]
      · rw [if_neg hbase, minus_le (by omega)]
        by_cases hstart : buffer.length < entry.imageBuffer - base
        · rw [if_neg (by omega)]
          simp [bind, Except.bind, hstart, pure, Except.pure]
        · have hroom := minus_le (Nat.not_lt.1 hstart)
          by_cases hfits : buffer.length - (entry.imageBuffer - base) <
              entry.imageLength
          · rw [if_neg (by omega)]
            simp [bind, Except.bind, hstart, hroom, hfits, pure, Except.pure]
          · have hcopy : copyMemory buffer (entry.imageBuffer - base)
                entry.imageLength = .ok _ := copyMemory_inside (by omega)
            rw [if_pos (by omega)]
            simp [bind, Except.bind, hstart, hroom, hfits, hcopy, pure,
              Except.pure, processOf]

variable {times : Table Nat} {base : Nat}

theorem accept_sound {entry : Entry} (hsound : entry.Sound base buffer)
    (hnew : times.get? entry.processId = none) :
    accept base buffer times entry = .ok (some (processOf base buffer entry)) := by
  have hpid := hsound.pid
  have hparent := hsound.parentPid
  rw [accept, if_neg (by omega)]
  have hcontains : ¬ times.contains entry.processId = true := by
    simp [Table.contains, hnew]
  rw [if_neg hcontains, imageName_eq,
    if_pos ⟨hsound.even, hsound.maximum, hsound.name⟩]
  rfl

theorem accept_cases (base : Nat) (buffer : Bytes) (times : Table Nat)
    (entry : Entry) :
    accept base buffer times entry = .ok none ∨
      (entry.Sound base buffer ∧ times.get? entry.processId = none ∧
        accept base buffer times entry =
          .ok (some (processOf base buffer entry))) := by
  by_cases hids : 2 ^ 32 ≤ entry.processId ∨ 2 ^ 32 ≤ entry.parentProcessId
  · exact .inl (if_pos hids)
  · by_cases hold : times.contains entry.processId = true
    · left
      rw [accept, if_neg hids, if_pos hold]
    · by_cases hname : entry.imageLength % 2 = 0 ∧
          entry.imageLength ≤ entry.imageMaximumLength ∧
          (entry.imageLength = 0 ∨ base ≤ entry.imageBuffer ∧
            entry.imageBuffer - base + entry.imageLength ≤ buffer.length)
      · have hsound : entry.Sound base buffer :=
          ⟨by omega, by omega, hname.1, hname.2.1, hname.2.2⟩
        have hnew : times.get? entry.processId = none := by
          simpa [Table.contains] using hold
        exact .inr ⟨hsound, hnew, accept_sound hsound hnew⟩
      · left
        rw [accept, if_neg hids, if_neg hold, imageName_eq, if_neg hname]
        rfl

variable {p : Platform}

theorem entryAt_inside {entry : Entry} (h : entryAt p buffer offset = some entry) :
    offset + p.prefixSize ≤ buffer.length ∧
      readEntry p buffer offset = .ok entry := by
  obtain ⟨hfits, hentry⟩ := Option.ite_none_right_eq_some.1 h
  refine ⟨hfits, ?_⟩
  rw [readEntry, copyMemory_inside hfits, ← Option.some.inj hentry]
  rfl

structure Indexed (times : Table Nat) (processes : List Process) : Prop where
  nodup : (processes.map Process.pid).Nodup
  get : ∀ pid time, times.get? pid = some time ↔
    ∃ process ∈ processes, process.pid = pid ∧ process.creationTime = time

theorem Indexed.empty : Indexed Table.empty [] :=
  ⟨List.nodup_nil, by simp⟩

variable {processes : List Process}

theorem Indexed.none_iff (h : Indexed times processes) (pid : Nat) :
    times.get? pid = none ↔ pid ∉ processes.map Process.pid := by
  rw [← not_iff_not, Classical.not_not, ← ne_eq, Option.ne_none_iff_exists']
  simp only [h.get, List.mem_map]
  constructor
  · rintro ⟨time, process, hmem, hpid, -⟩
    exact ⟨process, hmem, hpid⟩
  · rintro ⟨process, hmem, hpid⟩
    exact ⟨_, process, hmem, hpid, rfl⟩

theorem Indexed.insert (h : Indexed times processes) (process : Process)
    (hnew : times.get? process.pid = none) :
    Indexed (times.insert process.pid process.creationTime)
      (processes ++ [process]) where
  nodup := by
    rw [List.map_append, List.nodup_append]
    refine ⟨h.nodup, List.nodup_singleton _, ?_⟩
    intro pid hpid other hother heq
    simp only [List.map_cons, List.map_nil, List.mem_singleton] at hother
    exact (h.none_iff _).1 hnew (hother ▸ heq ▸ hpid)
  get := by
    intro pid time
    rw [Table.get?_insert]
    simp only [List.mem_append, List.mem_singleton]
    split
    case isTrue hpid =>
      subst hpid
      constructor
      · intro htime
        exact ⟨process, .inr rfl, rfl, Option.some.inj htime⟩
      · rintro ⟨other, hother | rfl, hpid, rfl⟩
        · exact absurd (List.mem_map.2 ⟨other, hother, hpid⟩) ((h.none_iff _).1 hnew)
        · rfl
    case isFalse hpid =>
      rw [h.get]
      constructor
      · rintro ⟨other, hother, hother'⟩
        exact ⟨other, .inl hother, hother'⟩
      · rintro ⟨other, hother | rfl, hother'⟩
        · exact ⟨other, hother, hother'⟩
        · exact absurd hother'.1.symm hpid

theorem readFrom_step
    {entry : Entry} (hentry : entryAt p buffer offset = some entry)
    (haccept : accept base buffer times entry =
      .ok (some (processOf base buffer entry))) :
    readFrom p base buffer offset times processes =
      if entry.nextEntryOffset = 0 then
        .ok (some (times.insert entry.processId entry.time,
          processes ++ [processOf base buffer entry]))
      else if entry.nextEntryOffset < p.prefixSize ∨
          buffer.length - offset < entry.nextEntryOffset then .ok none
      else readFrom p base buffer (offset + entry.nextEntryOffset)
        (times.insert entry.processId entry.time)
        (processes ++ [processOf base buffer entry]) := by
  obtain ⟨hfits, hread⟩ := entryAt_inside hentry
  have hinside : offset ≤ buffer.length := by omega
  have hroom : ¬ buffer.length - offset < p.prefixSize := by omega
  rw [readFrom]
  simp only [hinside, dif_pos, hroom, if_false, hread, haccept, dite_eq_ite]
  rfl

theorem readFrom_spec (p : Platform) (base : Nat) (buffer : Bytes) :
    ∀ (offset : Nat) (times : Table Nat) (processes : List Process),
      offset ≤ buffer.length → Indexed times processes →
      readFrom p base buffer offset times processes = .ok none ∨
        ∃ entries times', Chain p buffer offset entries ∧
          (∀ entry ∈ entries, entry.Sound base buffer) ∧
          Indexed times' (processes ++ entries.map (processOf base buffer)) ∧
          readFrom p base buffer offset times processes =
            .ok (some (times',
              processes ++ entries.map (processOf base buffer))) := by
  intro offset times processes
  -- each round leaves less of the buffer behind the offset
  induction hn : buffer.length - offset using Nat.strong_induction_on
    generalizing offset times processes with
  | _ n ih =>
    intro hinside hindexed
    by_cases hroom : buffer.length - offset < p.prefixSize
    · left
      rw [readFrom, dif_pos hinside, if_pos hroom]
    obtain ⟨entry, hentry⟩ : ∃ entry, entryAt p buffer offset = some entry :=
      ⟨_, if_pos (by omega)⟩
    rcases accept_cases base buffer times entry with
      hrefused | ⟨hsound, hnew, haccept⟩
    · left
      rw [readFrom]
      simp only [hinside, dif_pos, hroom, if_false,
        (entryAt_inside hentry).2, hrefused]
    rw [readFrom_step hentry haccept]
    have hmore := hindexed.insert (processOf base buffer entry) hnew
    by_cases hlast : entry.nextEntryOffset = 0
    · rw [if_pos hlast]
      exact .inr ⟨[entry], _, .last hentry hlast, by simpa using hsound, hmore, rfl⟩
    rw [if_neg hlast]
    by_cases hbad : entry.nextEntryOffset < p.prefixSize ∨
        buffer.length - offset < entry.nextEntryOffset
    · left
      rw [if_pos hbad]
    rw [if_neg hbad]
    have hsize : 0 < p.prefixSize := by cases p <;> decide
    rcases ih _ (by omega) (offset + entry.nextEntryOffset) _ _ rfl
      (by omega) hmore with hnone | ⟨rest, times', hchain, hall, hindex, hrest⟩
    · exact .inl hnone
    · rw [List.append_assoc] at hindex hrest
      exact .inr ⟨entry :: rest, times', .more hentry (by omega) hchain,
        List.forall_mem_cons.2 ⟨hsound, hall⟩, hindex, hrest⟩

theorem readFrom_accepts {entries : List Entry} (hchain : Chain p buffer offset entries)
    (hsound : ∀ entry ∈ entries, entry.Sound base buffer)
    (hindexed : Indexed times processes)
    (hpids : (processes.map Process.pid ++ entries.map Entry.processId).Nodup) :
    ∃ times', readFrom p base buffer offset times processes =
      .ok (some (times', processes ++ entries.map (processOf base buffer))) := by
  induction hchain generalizing times processes with
  | @last _ entry hentry hlast =>
    have hnew := (hindexed.none_iff entry.processId).2 fun h =>
      List.disjoint_of_nodup_append hpids h (by simp)
    rw [readFrom_step hentry (accept_sound (hsound entry (by simp)) hnew), if_pos hlast]
    exact ⟨_, rfl⟩
  | @more offset entry rest hentry hnext hrest ih =>
    have hnew := (hindexed.none_iff entry.processId).2 fun h =>
      List.disjoint_of_nodup_append hpids h (by simp)
    -- the entry behind this one lies in the buffer
    have hinside : offset + entry.nextEntryOffset ≤ buffer.length := by
      cases hrest with
      | last h _ | more h _ _ => exact (Nat.le_add_right _ _).trans (entryAt_inside h).1
    have hsize : 0 < p.prefixSize := by cases p <;> decide
    rw [readFrom_step hentry (accept_sound (hsound entry (by simp)) hnew),
      if_neg (by omega), if_neg (by omega), List.map_cons,
      List.append_cons _ _ (rest.map (processOf base buffer))]
    exact ih (fun e he => hsound e (List.mem_cons_of_mem _ he))
      (hindexed.insert (processOf base buffer entry) hnew)
      (by simpa [processOf] using hpids)

example : ∃ times, readFrom .x86 0
    (88 :: List.replicate 155 0 ++ 4 :: List.replicate 19 0) 0 Table.empty [] =
      .ok (some (times, [⟨0, 0, 0, [], 0⟩, ⟨4, 0, 0, [], 0⟩])) := by
  have hchain : Chain .x86 (88 :: List.replicate 155 0 ++ 4 :: List.replicate 19 0) 0
      [⟨88, 0, 0, 0, 0, 0, 0, 0⟩, ⟨0, 0, 0, 0, 0, 4, 0, 0⟩] :=
    .more (by decide +kernel) (by decide) (.last (by decide +kernel) rfl)
  refine readFrom_accepts hchain ?_ Indexed.empty (by decide)
  simp only [List.forall_mem_cons, List.not_mem_nil]
  exact ⟨⟨by decide, by decide, rfl, le_rfl, .inl rfl⟩,
    ⟨by decide, by decide, rfl, le_rfl, .inl rfl⟩, nofun⟩

structure Lists (p : Platform) (base : Nat) (buffer : Bytes)
    (snapshot : Snapshot) : Prop where
  complete : snapshot.complete = true
  chain : ∃ entries, Chain p buffer 0 entries ∧
    snapshot.processes = entries.map (processOf base buffer)
  indexed : Indexed snapshot.creationTimes snapshot.processes

/-- No buffer makes the parser read outside it or compute a difference below
zero; the snapshot lists the chain of the buffer, or it is unknown. -/
theorem readSnapshot_safe (p : Platform) (base : Nat) (buffer : Option Bytes) :
    ∃ result snapshot, readSnapshot p base buffer = .ok (result, snapshot) ∧
      (result = false → snapshot = Snapshot.unknown) ∧
      (result = true → ∃ bytes, buffer = some bytes ∧
        Lists p base bytes snapshot) ∧
      ∀ bytes entries, buffer = some bytes → Chain p bytes 0 entries →
        (∀ entry ∈ entries, entry.Sound base bytes) →
        (entries.map Entry.processId).Nodup → result = true := by
  cases buffer with
  | none => exact ⟨false, .unknown, rfl, fun _ => rfl, by simp⟩
  | some bytes =>
    rcases readFrom_spec p base bytes 0 Table.empty [] (Nat.zero_le _)
      Indexed.empty with hnone | ⟨entries, times, hchain, -, hindex, hsome⟩
    · refine ⟨false, .unknown, ?_, fun _ => rfl, by simp, ?_⟩
      · simp only [readSnapshot, hnone, Except.map]
      · rintro _ entries ⟨⟩ hchain hsound hpids
        obtain ⟨times', h⟩ := readFrom_accepts hchain hsound Indexed.empty
          (by simpa using hpids)
        rw [hnone] at h
        cases h
    · refine ⟨true, ⟨true, _, times⟩, ?_, by simp,
        fun _ => ⟨bytes, rfl, rfl, ⟨entries, hchain, rfl⟩, hindex⟩, by simp⟩
      simp only [readSnapshot, hsome, Except.map, List.nil_append]

end ProcessSnapshot

end ProxyLane.Hook
