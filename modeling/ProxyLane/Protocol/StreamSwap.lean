import ProxyLane.Protocol.Http2
import ProxyLane.Recording.Pending

/-!
# Streams do not disturb each other

DATA frames of different streams touch different entries of the stream table.
Swapping two of them that follow each other leads to the same state, with the
same exchanges put out.  In a recording only some of the entries are in memory,
and which they are decides what a bounded result leaves out.
-/

namespace ProxyLane.Protocol

open ProxyLane.Foundation

namespace Http2

section

variable {δ ι : Type} (lib : Library δ ι) (limits : Limits)

inductive StreamChange where
  | keep
  | replace (exchange : Exchange)
  | remove (exchange : Exchange)

def StreamChange.apply (h : Http2 δ) (stream : Nat) :
    StreamChange → Http2 δ
  | .keep => h
  | .replace exchange => h.modifyStream stream fun _ => exchange
  | .remove _ => { h with streams := h.streams.erase stream }

def StreamChange.out : StreamChange → List Exchange
  | .remove exchange => [exchange]
  | _ => []

structure SameStream (h h' : Http2 δ) (stream : Nat) : Prop where
  entry : h'.streams.get? stream = h.streams.get? stream
  resets : h'.resets = h.resets
  goaway : h'.goaway = h.goaway

variable {stream : Nat}

theorem SameStream.of_apply (h : Http2 δ) {other : Nat}
    (hne : stream ≠ other) (change : StreamChange) :
    SameStream h (change.apply h other) stream := by
  cases change with
  | keep => exact ⟨rfl, rfl, rfl⟩
  | replace exchange =>
    refine ⟨?_, rfl, rfl⟩
    simp [StreamChange.apply, modifyStream, Table.get?_modify, hne]
  | remove exchange =>
    refine ⟨?_, rfl, rfl⟩
    simp [StreamChange.apply, Table.get?_erase, hne]

theorem apply_comm (h : Http2 δ) {other : Nat} (hne : stream ≠ other)
    (c c' : StreamChange) :
    c'.apply (c.apply h stream) other = c.apply (c'.apply h other) stream := by
  cases c <;> cases c' <;>
    simp only [StreamChange.apply, modifyStream, Http2.mk.injEq, true_and, and_true]
  · exact Table.modify_comm _ hne _ _
  · exact Table.erase_modify_comm _ _ _ _
  · exact (Table.erase_modify_comm _ _ _ _).symm
  · exact Table.erase_comm _ _ _

def StreamChange.Overwrites : StreamChange → Prop
  | .keep => False
  | _ => True

theorem apply_modifyStream {c : StreamChange} (hc : c.Overwrites)
    (h : Http2 δ) (stream : Nat) (f : Exchange → Exchange) :
    c.apply (h.modifyStream stream f) stream = c.apply h stream := by
  cases c with
  | keep => exact absurd hc id
  | replace exchange =>
    simp [StreamChange.apply, modifyStream, Table.modify_modify, Function.comp_def]
  | remove exchange =>
    simp [StreamChange.apply, modifyStream, Table.erase_modify]

variable {h : Http2 δ}

theorem SameStream.modifyStream {h' : Http2 δ}
    (hs : SameStream h h' stream) (f : Exchange → Exchange) :
    SameStream (h.modifyStream stream f) (h'.modifyStream stream f) stream where
  entry := by simp [Http2.modifyStream, Table.get?_modify, hs.entry]
  resets := hs.resets
  goaway := hs.goaway

variable {side : Direction}

theorem endStream_local (hok : (h.endStream side stream).error = none) :
    ∃ c : StreamChange, c.Overwrites ∧ ∀ h', SameStream h h' stream →
      h'.endStream side stream = ⟨c.apply h' stream, c.out, none⟩ := by
  unfold endStream at hok
  cases hentry : h.streams.get? stream with
  | none =>
    rw [hentry] at hok
    cases hok
  | some exchange =>
    rw [hentry] at hok
    dsimp only at hok
    cases hmessage : exchange.message side with
    | none =>
      rw [hmessage] at hok
      cases hok
    | some message =>
      rw [hmessage] at hok
      dsimp only at hok
      split at hok
      case h_1 => cases hok
      case h_2 length hlength =>
        split at hok
        case isTrue => cases hok
        case isFalse hmatch =>
          let done := exchange.setMessage side
            { message with complete := true }
          let ends := done.ready || (side == .client && h.goaway.any (stream > ·))
          refine ⟨if ends then .remove done else .replace done, ?_, ?_⟩
          · split <;> trivial
          · intro h' hs
            unfold endStream
            rw [hs.entry, hentry]
            dsimp only
            rw [hmessage]
            dsimp only
            rw [hlength]
            dsimp only
            rw [if_neg hmatch,
              show (h'.modifyStream stream fun _ => done).goaway =
                h.goaway from hs.goaway]
            cases hends : ends with
            | true =>
              rw [if_pos hends]
              simp [removeStream, StreamChange.apply, StreamChange.out,
                Http2.modifyStream, Table.erase_modify, done]
            | false =>
              rw [if_neg (Bool.eq_false_iff.1 hends)]
              rfl

theorem dataFrame_local {f : Frame}
    (hok : (h.dataFrame limits side f).error = none) :
    ∃ c : StreamChange, ∀ h', SameStream h h' f.stream →
      h'.dataFrame limits side f = ⟨c.apply h' f.stream, c.out, none⟩ := by
  unfold dataFrame at hok
  cases hdata : unpad f.payload f.flags with
  | error e =>
    rw [hdata] at hok
    cases hok
  | ok data =>
    rw [hdata] at hok
    dsimp only at hok
    have hreset : ∀ h', SameStream h h' f.stream →
        h'.isReset side f.stream = h.isReset side f.stream := by
      intro h' hs
      rw [isReset, isReset, hs.resets]
    split at hok
    case isTrue hr =>
      refine ⟨.keep, fun h' hs => ?_⟩
      unfold dataFrame
      rw [hdata]
      dsimp only
      rw [hreset h' hs, if_pos hr]
      rfl
    case isFalse hr =>
      cases hentry : h.streams.get? f.stream with
      | none =>
        rw [hentry] at hok
        cases hok
      | some exchange =>
        rw [hentry] at hok
        dsimp only at hok
        cases hmessage : exchange.message side with
        | none =>
          rw [hmessage] at hok
          cases hok
        | some message =>
          rw [hmessage] at hok
          dsimp only at hok
          split at hok
          case isTrue => cases hok
          case isFalse hopen =>
            split at hok
            case isTrue => cases hok
            case isFalse hbody =>
              have hsame : ∀ h', SameStream h h' f.stream →
                  h'.dataFrame limits side f =
                    if f.flags &&& 1 ≠ 0 then
                      (h'.modifyStream f.stream fun exchange =>
                        exchange.setMessage side
                          (message.append data limits)).endStream side
                        f.stream
                    else .ok (h'.modifyStream f.stream fun exchange =>
                      exchange.setMessage side
                        (message.append data limits)) := by
                intro h' hs
                unfold dataFrame
                rw [hdata]
                dsimp only
                rw [hreset h' hs, if_neg hr, hs.entry, hentry]
                dsimp only
                rw [hmessage]
                dsimp only
                rw [if_neg hopen, if_neg hbody]
              split at hok
              case isTrue hend =>
                obtain ⟨c, hc, hlocal⟩ := endStream_local hok
                refine ⟨c, fun h' hs => ?_⟩
                rw [hsame h' hs, if_pos hend,
                  hlocal _ (hs.modifyStream _), apply_modifyStream hc]
              case isFalse hend =>
                refine ⟨.replace (exchange.setMessage side
                  (message.append data limits)), fun h' hs => ?_⟩
                rw [hsame h' hs, if_neg hend]
                have hmodify : (h'.modifyStream f.stream fun exchange =>
                    exchange.setMessage side (message.append data limits)) =
                    h'.modifyStream f.stream fun _ =>
                      exchange.setMessage side
                        (message.append data limits) := by
                  unfold Http2.modifyStream
                  rw [Table.modify_congr]
                  intro v hv
                  rw [hs.entry, hentry] at hv
                  cases hv
                  rfl
                rw [hmodify]
                rfl

theorem frame_data {f : Frame}
    (hkind : f.kind = 0) (hok : (frame lib limits h side f).error = none) :
    (h.sides.get side).block = none ∧
      frame lib limits h side f = h.dataFrame limits side f := by
  have hinter := frame_in_turn lib limits hok
  rw [frame, if_neg hinter, if_pos hkind]
  refine ⟨?_, rfl⟩
  cases hblock : (h.sides.get side).block with
  | none => rfl
  | some block =>
    simp [isInterleaved, hblock, hkind] at hinter

def runFrames : Http2 δ → List (Direction × Frame) →
    Outcome (Http2 δ) Exchange String
  | h, [] => .ok h
  | h, (side, f) :: frames =>
    (frame lib limits h side f).bind fun h => runFrames h frames

theorem runFrames_append (h : Http2 δ) (xs ys : List (Direction × Frame)) :
    runFrames lib limits h (xs ++ ys) =
      (runFrames lib limits h xs).bind fun h => runFrames lib limits h ys := by
  induction xs generalizing h with
  | nil => rw [List.nil_append, runFrames, Outcome.ok_bind]
  | cons x xs ih =>
    obtain ⟨side, f⟩ := x
    rw [List.cons_append, runFrames, runFrames, Outcome.bind_assoc]
    congr 1
    funext h'
    exact ih h'

theorem data_comm {f g : Frame} (hf : f.kind = 0) (hg : g.kind = 0)
    (hne : f.stream ≠ g.stream) (hfok : (frame lib limits h side f).error = none)
    (hgok : (frame lib limits h side g).error = none) :
    ∃ state out out', out.Perm out' ∧
      runFrames lib limits h [(side, f), (side, g)] = ⟨state, out, none⟩ ∧
      runFrames lib limits h [(side, g), (side, f)] = ⟨state, out', none⟩ := by
  obtain ⟨hblock, hfeq⟩ := frame_data lib limits hf hfok
  obtain ⟨-, hgeq⟩ := frame_data lib limits hg hgok
  rw [hfeq] at hfok
  rw [hgeq] at hgok
  obtain ⟨c, hc⟩ := dataFrame_local limits hfok
  obtain ⟨d, hd⟩ := dataFrame_local limits hgok
  have hrefl : ∀ stream, SameStream h h stream := fun _ => ⟨rfl, rfl, rfl⟩
  -- A change of the stream table never opens a header block.
  have hafter : ∀ (e : StreamChange) (stream : Nat) (x : Frame), x.kind = 0 →
      frame lib limits (e.apply h stream) side x =
        (e.apply h stream).dataFrame limits side x := by
    intro e stream x hx
    have hsides : (e.apply h stream).sides = h.sides := by cases e <;> rfl
    unfold frame
    rw [if_neg (by simp [isInterleaved, hsides, hblock]), if_pos hx]
  have hpair : ∀ (x y : Frame) (cx cy : StreamChange), y.kind = 0 →
      frame lib limits h side x = ⟨cx.apply h x.stream, cx.out, none⟩ →
      (cx.apply h x.stream).dataFrame limits side y =
        ⟨cy.apply (cx.apply h x.stream) y.stream, cy.out, none⟩ →
      runFrames lib limits h [(side, x), (side, y)] =
        ⟨cy.apply (cx.apply h x.stream) y.stream, cx.out ++ cy.out, none⟩ := by
    intro x y cx cy hy hx hxy
    rw [runFrames, hx, Outcome.bind_of_ok rfl, runFrames, hafter cx _ y hy, hxy,
      Outcome.bind_of_ok rfl]
    simp [runFrames, Outcome.ok, Outcome.after]
  have hfg := hpair f g c d hg (hfeq.trans (hc h (hrefl _)))
    (hd _ (SameStream.of_apply h hne.symm c))
  have hgf := hpair g f d c hf (hgeq.trans (hd h (hrefl _)))
    (hc _ (SameStream.of_apply h hne d))
  rw [apply_comm h hne.symm d c] at hgf
  exact ⟨_, _, _, List.perm_append_comm, hfg, hgf⟩

end

def openRequests : List (Direction × Frame) :=
  [(.client, ⟨1, 4, 1, [0x82, 0x86, 0x84]⟩), (.client, ⟨1, 4, 3, [0x82, 0x86, 0x84]⟩)]

/-- A parser of a recording: all its streams, the numbers of those in memory in
ascending order, and what the call has put out. -/
structure Recorded (δ : Type) where
  parser : Http2 δ
  resident : List Nat
  out : List Exchange

namespace Recorded

variable {δ ι : Type} (lib : Library δ ι) (limits : Limits)

/-- `Pending::load` and `Pending::insert`: the lowest number makes room. -/
def load (resident : List Nat) (id : Nat) : List Nat :=
  if id ∈ resident then resident
  else
    let rest := if resident.length < limits.pending then resident
      else resident.drop 1
    rest.orderedInsert (· ≤ ·) id

/-- The numbers in memory after the parser became `h` and used a stream. -/
def used (s : Recorded δ) (h : Http2 δ) (id : Nat) : List Nat :=
  if h.streams.contains id then load limits s.resident id
  else if s.parser.streams.contains id then (load limits s.resident id).erase id
  else s.resident

/-- `Pending::keys`, when the directory is listed in ascending order. -/
def keys (s : Recorded δ) : List Nat :=
  s.resident ++ s.parser.streams.keys.filter (· ∉ s.resident)

/-- A round of the loop of GOAWAY, which bounds what the call puts out. -/
def refuse (last code : Nat) (s : Recorded δ) (id : Nat) : Recorded δ :=
  let r := refuseStreams last code [id] s.parser
  { parser := r.state
    resident := if id ≤ last then s.resident else s.used limits r.state id
    out := r.out.foldl (Recording.Pending.pushTail limits.pending true) s.out }

/-- In a recording the number of streams is not limited. -/
def frame (s : Recorded δ) (side : Direction) (f : Frame) :
    Except String (Recorded δ) :=
  let r := Http2.frame lib { limits with pending := s.parser.streams.size + 1 }
    s.parser side f
  match r.error with
  | some e => .error e
  | none =>
    if f.kind = 7 ∧ side = .server then
      let last := beNat (f.payload.take 4) % 2 ^ 31
      let code := beNat ((f.payload.drop 4).take 4)
      .ok (s.keys.foldl (refuse limits last code) { s with parser :=
        { s.parser with
          goaway := r.state.goaway, goawayReason := r.state.goawayReason } })
    else if f.kind ∈ [0, 1, 3, 9] ∧ (r.state.sides.get side).block = none then
      .ok ⟨r.state, s.used limits r.state f.stream, s.out ++ r.out⟩
    else .ok ⟨r.state, s.resident, s.out ++ r.out⟩

/-- The numbers of the exchanges that the frames of each call put out. -/
def putOut (s : Recorded δ) :
    List (Direction × List Frame) → Except String (List (List Nat))
  | [] => .ok []
  | (side, frames) :: calls => do
      let s ← frames.foldlM (fun s f => frame lib limits s side f)
        { s with out := [] }
      let outs ← putOut s calls
      return s.out.map (·.id) :: outs

end Recorded

end Http2

end ProxyLane.Protocol
