import Mathlib.Tactic
import ProxyLane.Foundation.Bytes

/-!
# Stream coders

A coder takes its input byte by byte, and each byte gives some output.  A call
works on a piece of the input with limited room for output; what it cannot use
or put out is left for the next call.  However the input is cut into calls, the
output is that of the whole input.
-/

namespace ProxyLane.Foundation

structure Coder (σ ε : Type) where
  step : σ → UInt8 → Except ε (Bytes × σ)
  ended : σ → Bool

/-- What a call leaves: output that found no room waits in `pending`. -/
structure Call (σ : Type) where
  state : σ
  pending : Bytes
  written : Bytes
  rest : Bytes
  finished : Bool

namespace Coder

variable {σ ε : Type} (c : Coder σ ε)

def call : σ → Bytes → Nat → Bytes → Except ε (Call σ)
  | s, pending, room, [] =>
    if room < pending.length then
      .ok ⟨s, pending.drop room, pending.take room, [], false⟩
    else .ok ⟨s, [], pending, [], c.ended s⟩
  | s, pending, room, b :: rest =>
    if room < pending.length then
      .ok ⟨s, pending.drop room, pending.take room, b :: rest, false⟩
    else if c.ended s then .ok ⟨s, [], pending, b :: rest, true⟩
    else match c.step s b with
      | .error e => .error e
      | .ok (out, s') =>
        (call s' out (room - pending.length) rest).map fun r =>
          { r with written := pending ++ r.written }

def whole : σ → Bytes → Option Bytes
  | s, [] => if c.ended s then some [] else none
  | s, b :: rest =>
    if c.ended s then none
    else match c.step s b with
      | .error _ => none
      | .ok (out, s') => (whole s' rest).map (out ++ ·)

variable {c} {s : σ} {pending input : Bytes} {room : Nat} {r : Call σ}

theorem whole_ended (h : c.ended s = true) :
    c.whole s input = if input = [] then some [] else none := by
  cases input <;> simp [whole, h]

theorem whole_nil (h : c.ended s = false) : c.whole s [] = none := by
  simp [whole, h]

theorem call_cons {b : UInt8} {rest : Bytes}
    (h : c.call s pending room (b :: rest) = .ok r) :
    (room < pending.length ∧
      r = ⟨s, pending.drop room, pending.take room, b :: rest, false⟩) ∨
    (pending.length ≤ room ∧ c.ended s = true ∧
      r = ⟨s, [], pending, b :: rest, true⟩) ∨
    (pending.length ≤ room ∧ c.ended s = false ∧ ∃ out s' r',
      c.step s b = .ok (out, s') ∧
      c.call s' out (room - pending.length) rest = .ok r' ∧
      r = { r' with written := pending ++ r'.written }) := by
  simp only [call] at h
  split at h
  · rename_i hroom
    exact .inl ⟨hroom, (Except.ok.inj h).symm⟩
  · rename_i hroom
    have hroom := Nat.not_lt.mp hroom
    split at h
    · rename_i hended
      exact .inr (.inl ⟨hroom, hended, (Except.ok.inj h).symm⟩)
    · rename_i hended
      have hended : c.ended s = false := Bool.eq_false_iff.mpr hended
      split at h
      · cases h
      · rename_i out s' hstep
        cases hcall : c.call s' out (room - pending.length) rest with
        | error e => simp [hcall, Except.map] at h
        | ok r' =>
          simp only [hcall, Except.map, Except.ok.injEq] at h
          exact .inr (.inr ⟨hroom, hended, out, s', r', hstep, hcall, h.symm⟩)

theorem call_nil (h : c.call s pending room [] = .ok r) :
    (room < pending.length ∧
      r = ⟨s, pending.drop room, pending.take room, [], false⟩) ∨
    (pending.length ≤ room ∧ r = ⟨s, [], pending, [], c.ended s⟩) := by
  simp only [call] at h
  split at h
  · rename_i hroom
    exact .inl ⟨hroom, (Except.ok.inj h).symm⟩
  · rename_i hroom
    exact .inr ⟨Nat.not_lt.mp hroom, (Except.ok.inj h).symm⟩

/-- What a call puts out and leaves is what the whole input gives, whatever
input is behind. -/
theorem call_whole (h : c.call s pending room input = .ok r) (more : Bytes) :
    (c.whole s (input ++ more)).map (pending ++ ·) =
      (c.whole r.state (r.rest ++ more)).map (r.written ++ r.pending ++ ·) := by
  induction input generalizing s pending room r with
  | nil =>
    rcases call_nil h with ⟨-, rfl⟩ | ⟨-, rfl⟩
    · simp
    · simp
  | cons b rest ih =>
    rcases call_cons h with ⟨-, rfl⟩ | ⟨-, -, rfl⟩ |
      ⟨-, hended, out, s', r', hstep, hcall, rfl⟩
    · simp
    · simp
    · have hrest := ih hcall
      have hwhole : c.whole s (b :: rest ++ more) =
          (c.whole s' (rest ++ more)).map (out ++ ·) := by
        simp [whole, hended, hstep]
      simp only [hwhole, hrest, Option.map_map]
      congr 1
      funext tail
      simp

theorem call_error {e : ε} (h : c.call s pending room input = .error e)
    (more : Bytes) : c.whole s (input ++ more) = none := by
  induction input generalizing s pending room e with
  | nil =>
    simp only [call] at h
    split at h <;> cases h
  | cons b rest ih =>
    simp only [call] at h
    split at h
    · cases h
    · split at h
      · cases h
      · rename_i hended
        split at h
        · rename_i hstep
          simp [whole, hended, hstep]
        · rename_i out s' hstep
          cases hcall : c.call s' out (room - pending.length) rest with
          | error e => simp [whole, hended, hstep, ih hcall]
          | ok r => simp [hcall, Except.map] at h

theorem call_finished (h : c.call s pending room input = .ok r) :
    r.finished = true → c.ended r.state = true ∧ r.pending = [] := by
  induction input generalizing s pending room r with
  | nil =>
    rcases call_nil h with ⟨-, rfl⟩ | ⟨-, rfl⟩
    · simp
    · simp
  | cons b rest ih =>
    rcases call_cons h with ⟨-, rfl⟩ | ⟨-, hended, rfl⟩ |
      ⟨-, -, out, s', r', -, hcall, rfl⟩
    · simp
    · simp [hended]
    · have hfinished := ih hcall
      exact hfinished

theorem call_rest (h : c.call s pending room input = .ok r) :
    r.rest <:+ input := by
  induction input generalizing s pending room r with
  | nil =>
    rcases call_nil h with ⟨-, rfl⟩ | ⟨-, rfl⟩
    · exact List.suffix_refl _
    · exact List.suffix_refl _
  | cons b rest ih =>
    rcases call_cons h with ⟨-, rfl⟩ | ⟨-, -, rfl⟩ |
      ⟨-, -, out, s', r', -, hcall, rfl⟩
    · exact List.suffix_refl _
    · exact List.suffix_refl _
    · exact (ih hcall).trans (List.suffix_cons b rest)

/-- A call that puts nothing out has taken all of its input, unless the end of
the stream is reached. -/
theorem call_idle (h : c.call s pending room input = .ok r) (hroom : 0 < room)
    (hwritten : r.written = []) :
    pending = [] ∧ r.pending = [] ∧
      (r.finished = false → r.rest = [] ∧ c.ended r.state = false) := by
  induction input generalizing s pending room r with
  | nil =>
    rcases call_nil h with ⟨hlong, rfl⟩ | ⟨-, rfl⟩
    · simp only [List.take_eq_nil_iff] at hwritten
      rcases hwritten with rfl | rfl
      · omega
      · simp at hlong
    · simp_all
  | cons b rest ih =>
    rcases call_cons h with ⟨hlong, rfl⟩ | ⟨-, -, rfl⟩ |
      ⟨-, -, out, s', r', -, hcall, rfl⟩
    · simp only [List.take_eq_nil_iff] at hwritten
      rcases hwritten with rfl | rfl
      · omega
      · simp at hlong
    · simp_all
    · simp only [List.append_eq_nil_iff] at hwritten
      obtain ⟨rfl, hwritten⟩ := hwritten
      obtain ⟨-, hpending, hrest⟩ := ih hcall (by simpa using hroom) hwritten
      exact ⟨rfl, hpending, hrest⟩

theorem call_waiting (h : c.call s pending room input = .ok r)
    (hrest : r.rest.length = input.length) :
    r.written.length + r.pending.length = pending.length := by
  cases input with
  | nil =>
    rcases call_nil h with ⟨hlong, rfl⟩ | ⟨-, rfl⟩
    · simp only [List.length_take, List.length_drop]
      omega
    · simp
  | cons b rest =>
    rcases call_cons h with ⟨hlong, rfl⟩ | ⟨-, -, rfl⟩ |
      ⟨-, -, out, s', r', -, hcall, rfl⟩
    · simp only [List.length_take, List.length_drop]
      omega
    · simp
    · have hle := (call_rest hcall).length_le
      simp only [List.length_cons] at hrest
      omega

end Coder

end ProxyLane.Foundation
