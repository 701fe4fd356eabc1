import Mathlib.Data.List.Basic

/-!
# Runs of a machine

A machine is a step function on a state, driven by a list of events.  A
condition on each step, read off the state before it, restricts the runs; an
invariant kept by every admissible step holds at the end of every admissible
run.
-/

namespace ProxyLane.Foundation

section Machine

variable {σ ε : Type} (step : σ → ε → σ)

def run (s : σ) (events : List ε) : σ := events.foldl step s

@[simp] theorem run_nil (s : σ) : run step s [] = s := rfl

@[simp] theorem run_cons (s : σ) (e : ε) (es : List ε) :
    run step s (e :: es) = run step (step s e) es := rfl

theorem run_append (s : σ) (xs ys : List ε) :
    run step s (xs ++ ys) = run step (run step s xs) ys := by
  simp [run]

def Admissible (ok : σ → ε → Prop) : σ → List ε → Prop
  | _, [] => True
  | s, e :: es => ok s e ∧ Admissible ok (step s e) es

instance decidableAdmissible {ok : σ → ε → Prop}
    [hok : ∀ s e, Decidable (ok s e)] :
    ∀ s es, Decidable (Admissible step ok s es)
  | _, [] => .isTrue trivial
  | s, e :: es => @instDecidableAnd _ _ (hok s e) (decidableAdmissible (step s e) es)

variable {step}

theorem admissible_of_forall {ok : σ → ε → Prop} (h : ∀ s e, ok s e) {s : σ}
    {es : List ε} : Admissible step ok s es := by
  induction es generalizing s with
  | nil => trivial
  | cons e es ih => exact ⟨h s e, ih⟩

theorem admissible_append {ok : σ → ε → Prop} {s : σ} {xs ys : List ε} :
    Admissible step ok s (xs ++ ys) ↔
      Admissible step ok s xs ∧ Admissible step ok (run step s xs) ys := by
  induction xs generalizing s with
  | nil => simp [Admissible]
  | cons e xs ih => simp only [List.cons_append, Admissible, ih, run_cons, and_assoc]

theorem exists_first_refusal {ok : σ → ε → Prop} {s : σ} {es : List ε}
    (h : ¬ Admissible step ok s es) :
    ∃ before e after, es = before ++ e :: after ∧
      Admissible step ok s before ∧ ¬ ok (run step s before) e := by
  induction es generalizing s with
  | nil => exact absurd trivial h
  | cons e es ih =>
    by_cases he : ok s e
    · have hrest : ¬ Admissible step ok (step s e) es :=
        fun hrest => h ⟨he, hrest⟩
      obtain ⟨before, e', after, rfl, hbefore, hrefused⟩ := ih hrest
      exact ⟨e :: before, e', after, rfl, ⟨he, hbefore⟩, hrefused⟩
    · exact ⟨[], e, es, rfl, trivial, he⟩

theorem run_invariant {ok : σ → ε → Prop} {Inv : σ → Prop}
    (hstep : ∀ s e, Inv s → ok s e → Inv (step s e)) {s : σ} {es : List ε}
    (hs : Inv s) (hok : Admissible step ok s es) : Inv (run step s es) := by
  induction es generalizing s with
  | nil => exact hs
  | cons e es ih => exact ih (hstep s e hs hok.1) hok.2

theorem run_induction {Inv : σ → Prop}
    (hstep : ∀ s e, Inv s → Inv (step s e)) {s : σ} (hs : Inv s)
    (es : List ε) : Inv (run step s es) := by
  induction es generalizing s with
  | nil => exact hs
  | cons e es ih => exact ih (hstep s e hs)

end Machine

section Answers

variable {σ τ ε ω : Type}

def answers (step : σ → ε → σ × ω) : σ → List ε → List ω
  | _, [] => []
  | s, e :: es => (step s e).2 :: answers step (step s e).1 es

/-- Two machines whose states stay related, and whose answers to each step
agree, answer alike along every admissible run of the two. -/
theorem answers_eq {step : σ → ε → σ × ω} {spec : τ → ε → τ × ω}
    {ok : σ × τ → ε → Prop} {R : σ → τ → Prop}
    (hstep : ∀ s t e, R s t → ok (s, t) e →
      R (step s e).1 (spec t e).1 ∧ (step s e).2 = (spec t e).2)
    {s : σ} {t : τ} {es : List ε} (hst : R s t)
    (hok : Admissible (fun p e => ((step p.1 e).1, (spec p.2 e).1)) ok (s, t) es) :
    answers step s es = answers spec t es := by
  induction es generalizing s t with
  | nil => rfl
  | cons e es ih =>
    obtain ⟨hnext, hanswer⟩ := hstep s t e hst hok.1
    simp only [answers, hanswer, ih hnext hok.2]

end Answers

end ProxyLane.Foundation
