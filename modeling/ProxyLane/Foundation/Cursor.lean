import ProxyLane.Foundation.LittleEndian

/-!
# Reading with a cursor

A reader looks at a buffer from a cursor on and moves the cursor behind what it
takes, or it refuses.  A read outside the buffer and a length that does not fit
its type are faults.  What a reader accepts is said of the bytes between the two
cursors.
-/

namespace ProxyLane.Foundation.Cursor

inductive Fault where
  | outside
  | overflow
  deriving DecidableEq, Repr

def Reader (α : Type) : Type := Bytes → Nat → Except Fault (Option (α × Nat))

instance : Monad Reader where
  pure a := fun _ cursor => .ok (some (a, cursor))
  bind r f := fun buffer cursor =>
    match r buffer cursor with
    | .error fault => .error fault
    | .ok none => .ok none
    | .ok (some (a, cursor)) => f a buffer cursor

def refuse {α : Type} : Reader α := fun _ _ => .ok none

/-- Refuses if less than `size` bytes are left. -/
def need (size : Nat) : Reader Unit := fun buffer cursor =>
  if buffer.length < cursor then .error .outside
  else if buffer.length - cursor < size then .ok none
  else .ok (some ((), cursor))

def peek (size : Nat) : Reader Bytes := fun buffer cursor =>
  if cursor + size ≤ buffer.length then
    .ok (some ((buffer.drop cursor).take size, cursor))
  else .error .outside

def skip (size : Nat) : Reader Unit := fun _ cursor => .ok (some ((), cursor + size))

def product (bits left right : Nat) : Reader Nat := fun _ cursor =>
  if left * right < 2 ^ bits then .ok (some (left * right, cursor))
  else .error .overflow

def many {α : Type} (r : Reader α) : Nat → Reader (List α)
  | 0 => pure []
  | count + 1 => do
      let a ← r
      let rest ← many r count
      return a :: rest

def fetch (size : Nat) : Reader Bytes :=
  if size ≠ 0 then peek size else pure []

variable {buffer : Bytes} {cursor : Nat}

theorem bind_of_none {α β : Type} {r : Reader α} {f : α → Reader β}
    (h : r buffer cursor = .ok none) :
    (r >>= f) buffer cursor = .ok none := by
  simp only [bind, h]

variable {next : Nat}

theorem bind_of_some {α β : Type} {r : Reader α} {f : α → Reader β}
    {a : α} (h : r buffer cursor = .ok (some (a, next))) :
    (r >>= f) buffer cursor = f a buffer next := by
  simp only [bind, h]

def Spans (buffer : Bytes) (cursor : Nat) (piece : Bytes) (next : Nat) : Prop :=
  next ≤ buffer.length ∧ buffer.drop cursor = piece ++ buffer.drop next

/-- The reader causes no fault, and it gives a value for a piece of a buffer if
and only if `R` holds of the two. -/
def Reads {α : Type} (r : Reader α) (R : α → Bytes → Prop) : Prop :=
  ∀ (buffer : Bytes) (cursor : Nat), cursor ≤ buffer.length →
    ∃ out, r buffer cursor = .ok out ∧ ∀ a next,
      out = some (a, next) ↔ ∃ piece, R a piece ∧ Spans buffer cursor piece next

theorem spans_nil (h : cursor ≤ buffer.length) :
    Spans buffer cursor [] next ↔ next = cursor := by
  constructor
  · rintro ⟨hnext, hdrop⟩
    have hlength := congrArg List.length hdrop
    simp only [List.nil_append, List.length_drop] at hlength
    omega
  · rintro rfl
    exact ⟨h, rfl⟩

theorem spans_append {first second : Bytes} (h : cursor ≤ buffer.length) :
    Spans buffer cursor (first ++ second) next ↔
      ∃ middle, Spans buffer cursor first middle ∧ Spans buffer middle second next := by
  constructor
  · rintro ⟨hnext, hdrop⟩
    have hlength := congrArg List.length hdrop
    simp only [List.length_append, List.length_drop] at hlength
    have hmiddle : buffer.drop (cursor + first.length) = second ++ buffer.drop next := by
      rw [← List.drop_drop, hdrop, List.append_assoc, List.drop_left]
    refine ⟨cursor + first.length, ⟨by omega, ?_⟩, hnext, hmiddle⟩
    rw [hdrop, hmiddle, List.append_assoc]
  · rintro ⟨middle, ⟨-, hfirst⟩, hnext, hsecond⟩
    refine ⟨hnext, ?_⟩
    rw [hfirst, hsecond, List.append_assoc]

theorem spans_iff {piece : Bytes} (h : cursor ≤ buffer.length) :
    Spans buffer cursor piece next ↔ cursor + piece.length ≤ buffer.length ∧
      next = cursor + piece.length ∧ (buffer.drop cursor).take piece.length = piece := by
  constructor
  · rintro ⟨hnext, hdrop⟩
    have hlength := congrArg List.length hdrop
    simp only [List.length_append, List.length_drop] at hlength
    refine ⟨by omega, by omega, ?_⟩
    rw [hdrop, List.take_left]
  · rintro ⟨hle, rfl, htake⟩
    refine ⟨hle, ?_⟩
    conv_lhs => rw [← List.take_append_drop piece.length (buffer.drop cursor), htake,
      List.drop_drop]

section Rules

variable {α β : Type}

theorem Reads.congr {r : Reader α} {R S : α → Bytes → Prop} (h : Reads r R)
    (hiff : ∀ a piece, R a piece ↔ S a piece) : Reads r S := by
  intro buffer cursor hcursor
  obtain ⟨out, hout, hvalue⟩ := h buffer cursor hcursor
  exact ⟨out, hout, fun a next => by simp only [hvalue, hiff]⟩

theorem reads_pure (a : α) :
    Reads (pure a) fun b piece => b = a ∧ piece = [] := by
  intro buffer cursor hcursor
  refine ⟨some (a, cursor), rfl, fun b next => ?_⟩
  simp only [Option.some.injEq, Prod.mk.injEq]
  constructor
  · rintro ⟨rfl, rfl⟩
    exact ⟨[], ⟨rfl, rfl⟩, (spans_nil hcursor).2 rfl⟩
  · rintro ⟨piece, ⟨rfl, rfl⟩, hspans⟩
    exact ⟨rfl, ((spans_nil hcursor).1 hspans).symm⟩

theorem reads_refuse : Reads (refuse : Reader α) fun _ _ => False := by
  intro buffer cursor _
  exact ⟨none, rfl, by simp⟩

theorem reads_bind {r : Reader α} {f : α → Reader β} {R : α → Bytes → Prop}
    {S : α → β → Bytes → Prop} (hr : Reads r R)
    (hf : ∀ a piece, R a piece → Reads (f a) (S a)) :
    Reads (r >>= f) fun b piece =>
      ∃ a first second, R a first ∧ S a b second ∧ piece = first ++ second := by
  intro buffer cursor hcursor
  obtain ⟨out, hout, hvalue⟩ := hr buffer cursor hcursor
  cases out with
  | none =>
    rw [bind_of_none hout]
    refine ⟨none, rfl, fun b next => ?_⟩
    simp only [reduceCtorEq, false_iff]
    rintro ⟨piece, ⟨a, first, second, ha, -, rfl⟩, hspans⟩
    obtain ⟨middle, hfirst, -⟩ := (spans_append hcursor).1 hspans
    simpa using (hvalue a middle).2 ⟨first, ha, hfirst⟩
  | some value =>
    obtain ⟨a, middle⟩ := value
    rw [bind_of_some hout]
    obtain ⟨first, ha, hfirst⟩ := (hvalue a middle).1 rfl
    obtain ⟨out, hout, hsecond⟩ := hf a first ha buffer middle hfirst.1
    refine ⟨out, hout, fun b next => ?_⟩
    rw [hsecond]
    constructor
    · rintro ⟨second, hb, hspans⟩
      exact ⟨first ++ second, ⟨a, first, second, ha, hb, rfl⟩,
        (spans_append hcursor).2 ⟨middle, hfirst, hspans⟩⟩
    · rintro ⟨piece, ⟨a', first', second, ha', hb, rfl⟩, hspans⟩
      obtain ⟨middle', hfirst', hspans⟩ := (spans_append hcursor).1 hspans
      obtain ⟨rfl, rfl⟩ : a = a' ∧ middle = middle' := by
        simpa using (hvalue a' middle').2 ⟨first', ha', hfirst'⟩
      exact ⟨second, hb, hspans⟩

theorem reads_many {r : Reader α} {good : α → Prop} {encode : α → Bytes}
    (hr : Reads r fun a piece => good a ∧ piece = encode a) (count : Nat) :
    Reads (many r count) fun values piece =>
      values.length = count ∧ (∀ a ∈ values, good a) ∧
        piece = values.flatMap encode := by
  induction count with
  | zero =>
    refine (reads_pure []).congr fun values piece => ?_
    constructor
    · rintro ⟨rfl, rfl⟩
      simp
    · rintro ⟨hlength, -, rfl⟩
      simp [List.length_eq_zero_iff.1 hlength]
  | succ count ih =>
    refine (reads_bind hr fun a _ _ => reads_bind ih fun rest _ _ =>
      reads_pure (a :: rest)).congr fun values piece => ?_
    constructor
    · rintro ⟨a, first, second, ⟨ha, rfl⟩, ⟨rest, third, fourth,
        ⟨hlength, hrest, rfl⟩, ⟨rfl, rfl⟩, rfl⟩, rfl⟩
      simpa [hlength, ha] using hrest
    · rintro ⟨hlength, hall, rfl⟩
      obtain ⟨a, rest, rfl⟩ := List.exists_of_length_succ values hlength
      rw [List.forall_mem_cons] at hall
      exact ⟨a, encode a, rest.flatMap encode, ⟨hall.1, rfl⟩,
        ⟨rest, rest.flatMap encode, [], ⟨by simpa using hlength, hall.2, rfl⟩,
          ⟨rfl, rfl⟩, by simp⟩, by simp⟩

theorem reads_block (size : Nat) (f : Bytes → α) :
    Reads (do
      need size
      let data ← fetch size
      skip size
      return f data) fun a piece => piece.length = size ∧ a = f piece := by
  intro buffer cursor hcursor
  by_cases hsize : buffer.length - cursor < size
  · have hneed : need size buffer cursor = .ok none := by
      simp [need, hsize, Nat.not_lt.2 hcursor]
    rw [bind_of_none hneed]
    refine ⟨none, rfl, fun a next => ?_⟩
    simp only [reduceCtorEq, false_iff]
    rintro ⟨piece, ⟨rfl, -⟩, hspans⟩
    have hle := ((spans_iff hcursor).1 hspans).1
    omega
  · have hneed : need size buffer cursor = .ok (some ((), cursor)) := by
      simp [need, hsize, Nat.not_lt.2 hcursor]
    have hfetch : fetch size buffer cursor =
        .ok (some ((buffer.drop cursor).take size, cursor)) := by
      by_cases hzero : size = 0
      · subst hzero
        rfl
      · rw [fetch, if_pos hzero]
        exact if_pos (by omega)
    rw [bind_of_some hneed, bind_of_some hfetch]
    refine ⟨some (f ((buffer.drop cursor).take size), cursor + size), rfl,
      fun a next => ?_⟩
    have htake : ((buffer.drop cursor).take size).length = size := by
      rw [List.length_take, List.length_drop]
      omega
    simp only [Option.some.injEq, Prod.mk.injEq]
    constructor
    · rintro ⟨rfl, rfl⟩
      refine ⟨_, ⟨htake, rfl⟩, (spans_iff hcursor).2 ⟨by omega, by omega, ?_⟩⟩
      rw [htake]
    · rintro ⟨piece, ⟨rfl, rfl⟩, hspans⟩
      obtain ⟨-, rfl, hpiece⟩ := (spans_iff hcursor).1 hspans
      exact ⟨by rw [hpiece], rfl⟩

theorem product_eq {bits left right : Nat} (h : left * right < 2 ^ bits) :
    product bits left right = pure (left * right) := by
  funext buffer cursor
  exact if_pos h

end Rules

end ProxyLane.Foundation.Cursor
