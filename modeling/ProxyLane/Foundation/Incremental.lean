import ProxyLane.Foundation.Bytes

/-!
# Incremental machines

A machine works on a state that holds its unread input.  One turn of its loop
goes on, waits for more input, or fails; a failure keeps the state and what
was put out before it.  If every turn would have gone the same way with more
input behind, then feeding the input in pieces makes no difference.
-/

namespace ProxyLane.Foundation

structure Outcome (σ ω ε : Type) where
  state : σ
  out : List ω
  error : Option ε
  deriving DecidableEq, Repr

namespace Outcome

variable {σ τ ω κ ε : Type}

def ok (s : σ) : Outcome σ ω ε := ⟨s, [], none⟩

def fail (s : σ) (e : ε) : Outcome σ ω ε := ⟨s, [], some e⟩

def after (out : List ω) (r : Outcome σ ω ε) : Outcome σ ω ε :=
  { r with out := out ++ r.out }

def bind (r : Outcome σ ω ε) (f : σ → Outcome σ ω ε) : Outcome σ ω ε :=
  match r.error with
  | none => (f r.state).after r.out
  | some _ => r

@[simp] theorem after_nil (r : Outcome σ ω ε) : after [] r = r := by
  simp [after]

@[simp] theorem after_after (xs ys : List ω) (r : Outcome σ ω ε) :
    after xs (after ys r) = after (xs ++ ys) r := by
  simp [after]

@[simp] theorem state_after (xs : List ω) (r : Outcome σ ω ε) :
    (after xs r).state = r.state := rfl

@[simp] theorem out_after (xs : List ω) (r : Outcome σ ω ε) :
    (after xs r).out = xs ++ r.out := rfl

@[simp] theorem error_after (xs : List ω) (r : Outcome σ ω ε) :
    (after xs r).error = r.error := rfl

@[simp] theorem ok_bind (s : σ) (f : σ → Outcome σ ω ε) :
    (ok s).bind f = f s := by
  simp [ok, bind]

theorem bind_of_ok {r : Outcome σ ω ε} (h : r.error = none)
    (f : σ → Outcome σ ω ε) : r.bind f = (f r.state).after r.out := by
  simp [bind, h]

theorem bind_of_error {r : Outcome σ ω ε} {e : ε} (h : r.error = some e)
    (f : σ → Outcome σ ω ε) : r.bind f = r := by
  simp [bind, h]

theorem bind_eq_ok {r : Outcome σ ω ε} {f : σ → Outcome σ ω ε}
    (h : (r.bind f).error = none) :
    r.error = none ∧ (f r.state).error = none ∧
      (r.bind f).state = (f r.state).state ∧
      (r.bind f).out = r.out ++ (f r.state).out := by
  cases hr : r.error with
  | none =>
    rw [bind_of_ok hr] at h ⊢
    exact ⟨rfl, h, rfl, rfl⟩
  | some e =>
    rw [bind_of_error hr, hr] at h
    cases h

private theorem after_bind (xs : List ω) (r : Outcome σ ω ε)
    (f : σ → Outcome σ ω ε) : (r.after xs).bind f = (r.bind f).after xs := by
  cases h : r.error with
  | none => simp [bind, h]
  | some e => simp [bind, h]

theorem bind_assoc (r : Outcome σ ω ε) (f g : σ → Outcome σ ω ε) :
    (r.bind f).bind g = r.bind fun s => (f s).bind g := by
  cases h : r.error with
  | none => rw [bind_of_ok h, bind_of_ok h, after_bind]
  | some e => rw [bind_of_error h, bind_of_error h, bind_of_error h]

end Outcome

inductive Turn (σ ω ε : Type) where
  | more (state : σ) (out : List ω)
  | wait (state : σ) (out : List ω)
  | fail (state : σ) (out : List ω) (error : ε)

section Loop

variable {σ ω ε : Type} (body : σ → Turn σ ω ε)

def loop : Nat → σ → Outcome σ ω ε
  | 0, s => .ok s
  | fuel + 1, s =>
    match body s with
    | .more s' out => (loop fuel s').after out
    | .wait s' out => ⟨s', out, none⟩
    | .fail s' out e => ⟨s', out, some e⟩

variable (size : σ → Nat)

def exhaust (s : σ) : Outcome σ ω ε := loop body (size s + 1) s

variable {body size}

section Shrinks

variable (hsize : ∀ {s s' out}, body s = .more s' out → size s' < size s)

include hsize

theorem loop_eq_exhaust {fuel : Nat} {s : σ} (h : size s < fuel) :
    loop body fuel s = exhaust body size s := by
  have hall : ∀ n m s, size s < n → size s < m →
      loop body n s = loop body m s := by
    intro n
    induction n with
    | zero => exact fun _ _ hn => absurd hn (Nat.not_lt_zero _)
    | succ n ih =>
      intro m s hn hm
      cases m with
      | zero => exact absurd hm (Nat.not_lt_zero _)
      | succ m =>
        unfold loop
        cases hbody : body s with
        | more s' out =>
          have := hsize hbody
          dsimp only
          rw [ih m s' (by omega) (by omega)]
        | wait s' out => rfl
        | fail s' out e => rfl
  exact hall _ _ s h (Nat.lt_succ_self _)

theorem exhaust_more {s s' : σ} {out : List ω} (h : body s = .more s' out) :
    exhaust body size s = (exhaust body size s').after out := by
  have hlt := hsize h
  rw [exhaust, loop, h]
  dsimp only
  rw [loop_eq_exhaust hsize hlt]

end Shrinks

theorem exhaust_wait {s s' : σ} {out : List ω} (h : body s = .wait s' out) :
    exhaust body size s = ⟨s', out, none⟩ := by
  rw [exhaust, loop, h]

theorem exhaust_fail {s s' : σ} {out : List ω} {e : ε}
    (h : body s = .fail s' out e) :
    exhaust body size s = ⟨s', out, some e⟩ := by
  rw [exhaust, loop, h]

theorem exhaust_induction
    (hsize : ∀ {s s' out}, body s = .more s' out → size s' < size s)
    {P : σ → Outcome σ ω ε → Prop}
    (hmore : ∀ {s s' out r}, body s = .more s' out → P s' r → P s (r.after out))
    (hwait : ∀ {s s' out}, body s = .wait s' out → P s ⟨s', out, none⟩)
    (hfail : ∀ {s s' out e}, body s = .fail s' out e → P s ⟨s', out, some e⟩)
    (s : σ) : P s (exhaust body size s) := by
  induction hn : size s using Nat.strong_induction_on generalizing s with
  | _ n ih =>
    cases hbody : body s with
    | more s' out =>
      rw [exhaust_more hsize hbody]
      exact hmore hbody (ih _ (hn ▸ hsize hbody) s' rfl)
    | wait s' out =>
      rw [exhaust_wait hbody]
      exact hwait hbody
    | fail s' out e =>
      rw [exhaust_fail hbody]
      exact hfail hbody

end Loop

inductive ParseResult (α : Type) where
  | complete (length : Nat) (value : α)
  | incomplete
  | error (text : String)
  deriving DecidableEq, Repr

structure PrefixStable {α : Type} (parse : Bytes → ParseResult α) : Prop where
  pos : ∀ {x n v}, parse x = .complete n v → 0 < n
  within : ∀ {x n v}, parse x = .complete n v → n ≤ x.length
  complete : ∀ {x n v} y, parse x = .complete n v → parse (x ++ y) = .complete n v
  error : ∀ {x e} y, parse x = .error e → ∃ e', parse (x ++ y) = .error e'
  beyond : ∀ {x y n v}, parse x = .incomplete →
    parse (x ++ y) = .complete n v → x.length < n

theorem PrefixStable.incomplete {α : Type} {parse : Bytes → ParseResult α}
    (h : PrefixStable parse) {x y : Bytes} {v : α}
    (hxy : parse (x ++ y) = .complete (x ++ y).length v) (hy : y ≠ []) :
    parse x = .incomplete := by
  cases hx : parse x with
  | incomplete => rfl
  | complete n w =>
    have heq := (h.complete y hx).symm.trans hxy
    have hlen := h.within hx
    have hpos : 0 < y.length := List.length_pos_iff.2 hy
    simp only [ParseResult.complete.injEq, List.length_append] at heq
    omega
  | error e =>
    obtain ⟨e', he'⟩ := h.error y hx
    rw [hxy] at he'
    cases he'

end ProxyLane.Foundation
