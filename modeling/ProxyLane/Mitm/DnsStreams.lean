import ProxyLane.Foundation.Framing
import ProxyLane.Mitm.Dns

/-!
# DNS messages in TCP streams

A stream is a sequence of messages behind their lengths.  The buffer of a side
holds the part of its stream that is not a complete message yet; the
transactions never touch the buffers, so the messages that they are given
depend on the stream alone.
-/

namespace ProxyLane.Mitm

open Foundation Protocol

namespace Dns

variable {lib : DnsLib} {disk : Disk}

@[simp] theorem buffers_finish (s : Dns) (t : Transaction) :
    (s.finish t).buffers = s.buffers := by
  unfold finish
  split <;> rfl

@[simp] theorem buffers_failRecording (s : Dns) (cache : Option CacheHandle)
    (reason : String) : (s.failRecording cache reason).buffers = s.buffers := by
  unfold failRecording
  split <;> rfl

@[simp] theorem buffers_duplicate (s : Dns) (cache : Option CacheHandle)
    (side : Direction) (bytes : Bytes) :
    (s.duplicate cache side bytes).buffers = s.buffers := by
  unfold duplicate
  split <;> rfl

@[simp] theorem buffers_workingWrite (s : Dns) (name : String)
    (content : Option Transaction) :
    (s.workingWrite disk name content).1.buffers = s.buffers := by
  simp only [workingWrite]
  split <;> rfl

@[simp] theorem buffers_spillOldest (s : Dns) :
    (s.spillOldest lib disk).1.buffers = s.buffers := by
  unfold spillOldest
  split
  · simp [hold]
  · rfl

theorem buffers_takeBack (s : Dns) (clock : Clock) (name key : String)
    (value : Transaction) :
    (s.takeBack lib disk clock name key value).1.buffers = s.buffers := by
  unfold takeBack
  have hroom : (if pendingLimit ≤ s.pending.length then s.spillOldest lib disk
      else (s, none)).1.buffers = s.buffers := by
    split <;> simp
  generalize (if pendingLimit ≤ s.pending.length then s.spillOldest lib disk
      else (s, none)) = r at hroom
  obtain ⟨s₁, failed⟩ := r
  cases failed with
  | some e => exact hroom
  | none =>
    have hread : (if value.cache.isSome then
        (s₁.access, disk.fault s₁.accesses) else (s₁, none)).1.buffers =
          s₁.buffers := by
      split <;> rfl
    dsimp only at hroom ⊢
    generalize (if value.cache.isSome then
        (s₁.access, disk.fault s₁.accesses) else (s₁, none)) = r at hread
    obtain ⟨s₂, failed⟩ := r
    cases failed with
    | some e => exact hread.trans hroom
    | none =>
      have hwrite := @buffers_workingWrite disk s₂ name none
      dsimp only at hread ⊢
      generalize s₂.workingWrite disk name none = r at hwrite
      obtain ⟨s₃, failed⟩ := r
      cases failed with
      | some e => exact hwrite.trans (hread.trans hroom)
      | none => exact hwrite.trans (hread.trans hroom)

@[simp] theorem buffers_restoreQuery (s : Dns) (clock : Clock)
    (key : String) :
    (s.restoreQuery lib disk clock key).1.buffers = s.buffers := by
  unfold restoreQuery
  split
  · rfl
  split
  · rfl
  dsimp only
  split
  · split
    · rfl
    · exact buffers_takeBack _ _ _ _ _
  · rfl

@[simp] theorem buffers_popExpired (closing : Option String) (clock : Clock)
    (ts : List Transaction) (s : Dns) (out : List DnsRecord) :
    (popExpired closing clock ts s out).1.buffers = s.buffers := by
  induction ts generalizing s out with
  | nil => rfl
  | cons t ts ih =>
    simp only [popExpired]
    split
    · rw [ih]
      simp [report, hold]
    · rfl

@[simp] theorem buffers_expire_none (s : Dns) (clock : Clock) :
    (s.expire lib disk clock none).1.buffers = s.buffers := by
  unfold expire
  split
  · rfl
  · simp

@[simp] theorem buffers_startSpill (s : Dns) (cache : Option CacheHandle) :
    (s.startSpill cache).buffers = s.buffers := by
  unfold startSpill
  split
  · split <;> rfl
  · rfl

theorem buffers_feedKnown {s : Dns} {cache : Option CacheHandle}
    {clock : Clock} {side : Direction} {bytes : Bytes} {p : Packet}
    {result : Dns × List DnsRecord}
    (h : s.feedKnown cache clock side bytes p = some result) :
    result.1.buffers = s.buffers := by
  unfold feedKnown at h
  split at h
  · split at h
    · cases h
      simp [report, hold]
    · cases h
  split at h
  · split at h
    · cases h
      rename_i t _
      cases hcache : t.cache <;> simp [report, hold, call]
    · split at h
      · cases h
        simp
      · cases h
  · cases h

@[simp] theorem buffers_create (s : Dns) (cache : Option CacheHandle)
    (clock : Clock) (side : Direction) (bytes : Bytes)
    (packet : Except String Packet) :
    (s.create cache clock side bytes packet).1.buffers = s.buffers := by
  simp only [create]
  split <;> rfl

@[simp] theorem buffers_makeRoom (s : Dns) (cache : Option CacheHandle)
    (clock : Clock) :
    (s.makeRoom lib disk cache clock).1.buffers = s.buffers := by
  unfold makeRoom
  split
  · split
    · have hspill := @buffers_spillOldest lib disk s
      generalize s.spillOldest lib disk = r at hspill
      obtain ⟨s', failed⟩ := r
      cases failed with
      | some e => simpa using hspill
      | none => exact hspill
    · split
      · simp [report, hold]
      · rfl
  · rfl

@[simp] theorem buffers_feedNew (s : Dns) (cache : Option CacheHandle)
    (clock : Clock) (side : Direction) (bytes : Bytes)
    (packet : Except String Packet) :
    (s.feedNew lib disk cache clock side bytes packet).1.buffers = s.buffers := by
  have hcreate := buffers_create s cache clock side bytes packet
  unfold feedNew
  generalize s.create cache clock side bytes packet = r at hcreate
  obtain ⟨s', t⟩ := r
  dsimp only at hcreate ⊢
  split
  · split
    · simp [report, hold, hcreate]
    · simp [report, hcreate]
  · simp [report, hcreate]

@[simp] theorem buffers_recall (s : Dns) (cache : Option CacheHandle)
    (clock : Clock) (key : String) :
    (s.recallQuery lib disk cache clock key).buffers = s.buffers := by
  have hrestore := @buffers_restoreQuery lib disk
    { s with seen := s.seen ++ [key] } clock key
  unfold recallQuery
  generalize ({ s with seen := s.seen ++ [key] } : Dns).restoreQuery lib disk
    clock key = r at hrestore
  obtain ⟨s', failed⟩ := r
  cases failed with
  | some e => simpa using hrestore
  | none => exact hrestore

@[simp] theorem buffers_feed (s : Dns) (cache : Option CacheHandle)
    (clock : Clock) (side : Direction) (bytes : Bytes) :
    (s.feed lib disk cache clock side bytes).1.buffers = s.buffers := by
  have hexpire : ((s.startSpill cache).expire lib disk clock none).1.buffers =
      s.buffers := by simp
  unfold feed
  generalize (s.startSpill cache).expire lib disk clock none = r at hexpire
  obtain ⟨s', expired⟩ := r
  dsimp only at hexpire ⊢
  unfold feedPacket
  split
  · simpa using hexpire
  · rename_i p _
    dsimp only
    cases hknown : (s'.recallQuery lib disk cache clock p.key).feedKnown cache clock
        side bytes p with
    | some result =>
      rw [buffers_feedKnown hknown]
      simpa using hexpire
    | none => simpa using hexpire

section Streams

variable (lib : DnsLib) (disk : Disk)

/-- The loop of `tcp` together with the messages that it hands to the
transactions. -/
def handLoop (cache : Option CacheHandle) (clock : Clock) (side : Direction)
    (s : Dns) (out : List DnsRecord) (b : Bytes) :
    (Dns × List DnsRecord) × List Bytes :=
  let len := beNat (b.take 2)
  if b.length < 2 ∨ b.length < len + 2 then
    (({ s with buffers := s.buffers.set side b }, out), [])
  else
    let message := (b.drop 2).take len
    let rest := b.drop (len + 2)
    let (s, more) := ({ s with buffers := s.buffers.set side rest } : Dns).feed
      lib disk cache clock side message
    let (result, messages) := handLoop cache clock side s (out ++ more) rest
    (result, message :: messages)
termination_by b.length
decreasing_by simp only [List.length_drop]; omega

theorem handLoop_fst (cache : Option CacheHandle) (clock : Clock)
    (side : Direction) (s : Dns) (out : List DnsRecord) (b : Bytes) :
    (handLoop lib disk cache clock side s out b).1 =
      tcpLoop lib disk cache clock side s out b := by
  fun_induction tcpLoop lib disk cache clock side s out b with
  | case1 s out b len hwait => rw [handLoop, if_pos hwait]
  | case2 s out b len hcut message rest next more hfeed ih =>
    rw [handLoop]
    simp only [message, rest, len] at hfeed ih
    simp only [len] at hcut
    simp only [if_neg hcut, hfeed, ih]
    rfl

theorem handLoop_snd (cache : Option CacheHandle) (clock : Clock)
    (side : Direction) (s : Dns) (out : List DnsRecord) (b : Bytes) :
    (handLoop lib disk cache clock side s out b).2 = (lengthPrefixed.split b).1 := by
  fun_induction tcpLoop lib disk cache clock side s out b with
  | case1 s out b len hwait =>
    simp only [len] at hwait
    rw [handLoop, if_pos hwait, Framing.split_of_none]
    exact if_pos hwait
  | case2 s out b len hcut message rest next more hfeed ih =>
    rw [handLoop]
    simp only [len] at hcut
    simp only [rest, message, len] at hfeed ih
    have hsplit := @Framing.split_of_some _ lengthPrefixed b _ _ (if_neg hcut)
    simp only [if_neg hcut, hfeed, hsplit, ih]

/-- The buffer of the side holds what is left, that of the other side what it
held. -/
theorem buffers_tcpLoop (cache : Option CacheHandle) (clock : Clock)
    (side other : Direction) (s : Dns) (out : List DnsRecord) (b : Bytes) :
    (tcpLoop lib disk cache clock side s out b).1.buffers.get other =
      if other = side then (lengthPrefixed.split b).2
      else s.buffers.get other := by
  fun_induction tcpLoop lib disk cache clock side s out b with
  | case1 s out b len hwait =>
    simp only [len] at hwait
    rw [Framing.split_of_none _ (if_pos hwait)]
    cases side <;> cases other <;> rfl
  | case2 s out b len hcut message rest next more hfeed ih =>
    simp only [len] at hcut
    have hbuffers := @buffers_feed lib disk
      { s with buffers := s.buffers.set side rest } cache clock side message
    rw [hfeed] at hbuffers
    have hsplit := @Framing.split_of_some _ lengthPrefixed b _ _ (if_neg hcut)
    rw [ih, hsplit]
    split
    · rfl
    · rename_i hother
      rw [hbuffers]
      cases side <;> cases other <;> first | rfl | exact absurd rfl hother

structure TcpCall where
  cache : Option CacheHandle
  clock : Clock
  side : Direction
  bytes : Bytes

def TcpCall.event (c : TcpCall) : Event :=
  .tcp c.cache c.clock c.side c.bytes

def handed : Dns → List TcpCall → List (Direction × Bytes)
  | _, [] => []
  | s, c :: cs =>
    (handLoop lib disk c.cache c.clock c.side s []
        (s.buffers.get c.side ++ c.bytes)).2.map (fun m => (c.side, m)) ++
      handed (s.step lib disk c.event).1 cs

def streamOf (side : Direction) (calls : List TcpCall) : Bytes :=
  (calls.filter fun c => c.side == side).flatMap TcpCall.bytes

def messagesOf (side : Direction) (messages : List (Direction × Bytes)) :
    List Bytes :=
  (messages.filter fun m => m.1 == side).map Prod.snd

private theorem messagesOf_map (side other : Direction) (messages : List Bytes) :
    messagesOf side (messages.map fun m => (other, m)) =
      if other = side then messages else [] := by
  induction messages with
  | nil => simp [messagesOf]
  | cons m ms ih =>
    simp only [messagesOf, List.map_cons] at ih ⊢
    by_cases hside : other = side
    · simpa [hside] using ih
    · simp [hside]

theorem handed_run (side : Direction) (calls : List TcpCall) (s : Dns)
    (hs : lengthPrefixed.cut (s.buffers.get side) = none) :
    messagesOf side (handed lib disk s calls) =
        (lengthPrefixed.split (s.buffers.get side ++ streamOf side calls)).1 ∧
      (run lib disk s (calls.map TcpCall.event)).1.buffers.get side =
        (lengthPrefixed.split (s.buffers.get side ++ streamOf side calls)).2 := by
  induction calls generalizing s with
  | nil =>
    have hsplit := Framing.split_of_none _ hs
    simp [handed, messagesOf, streamOf, run, hsplit]
  | cons c cs ih =>
    have hbuffers := buffers_tcpLoop lib disk c.cache c.clock c.side side s []
      (s.buffers.get c.side ++ c.bytes)
    have hstep : (s.step lib disk c.event).1.buffers.get side =
        if side = c.side then
          (lengthPrefixed.split (s.buffers.get c.side ++ c.bytes)).2
        else s.buffers.get side := hbuffers
    have hmessages : messagesOf side (handed lib disk s (c :: cs)) =
        (if c.side = side then
          (lengthPrefixed.split (s.buffers.get c.side ++ c.bytes)).1
          else []) ++
        messagesOf side (handed lib disk (s.step lib disk c.event).1 cs) := by
      rw [handed, messagesOf, List.filter_append, List.map_append]
      congr 1
      rw [handLoop_snd]
      exact messagesOf_map side c.side _
    have hrun : (run lib disk s ((c :: cs).map TcpCall.event)).1 =
        (run lib disk (s.step lib disk c.event).1 (cs.map TcpCall.event)).1 := rfl
    by_cases hside : c.side = side
    · subst hside
      rw [if_pos rfl] at hstep hmessages
      have hstream : streamOf c.side (c :: cs) =
          c.bytes ++ streamOf c.side cs := by simp [streamOf]
      obtain ⟨hrest, hleft⟩ := ih _ (by
        rw [hstep]
        exact Framing.cut_split _ _)
      rw [hstep] at hrest hleft
      have hsplit := Framing.split_append lengthPrefixed
        (s.buffers.get c.side ++ c.bytes) (streamOf c.side cs)
      rw [hmessages, hrun, hrest, hleft, hstream, ← List.append_assoc, hsplit]
      exact ⟨rfl, rfl⟩
    · rw [if_neg (Ne.symm hside)] at hstep
      rw [if_neg hside, List.nil_append] at hmessages
      have hstream : streamOf side (c :: cs) = streamOf side cs := by
        simp [streamOf, hside]
      obtain ⟨hrest, hleft⟩ := ih _ (by rw [hstep]; exact hs)
      rw [hstep] at hrest hleft
      rw [hmessages, hrun, hrest, hleft, hstream]
      exact ⟨rfl, rfl⟩

end Streams

end Dns

end ProxyLane.Mitm
