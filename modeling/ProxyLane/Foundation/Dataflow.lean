import Mathlib.Algebra.Order.BigOperators.Group.Finset
import Mathlib.Algebra.Ring.Nat

/-!
# Forward analyses by a work list

A fact per node, from a semilattice whose meet keeps what two facts agree on.
A node that nothing reached yet has the fact `⊤`.  The loop takes a node off
the work list, passes its fact through it and meets the result into the nodes
behind it.  The outcome is the greatest solution, whatever order the nodes are
taken in, and it comes after a number of steps that the heights bound.
-/

namespace ProxyLane.Foundation

structure Dataflow (ι α : Type) [SemilatticeInf α] where
  entry : ι
  start : α
  next : ι → List ι
  pass : ι → α → α
  mono : ∀ n, Monotone (pass n)

namespace Dataflow

variable {ι α : Type} [SemilatticeInf α]

/-- A path from the entry ends in front of `n` with the fact `s`. -/
inductive Arrives (D : Dataflow ι α) : ι → α → Prop
  | entry : Arrives D D.entry D.start
  | edge {n m : ι} {s : α} : Arrives D n s → m ∈ D.next n → Arrives D m (D.pass n s)

structure Solution (D : Dataflow ι α) (facts : ι → WithTop α) : Prop where
  entry : facts D.entry ≤ D.start
  closed : ∀ n, ∀ m ∈ D.next n, facts m ≤ (facts n).map (D.pass n)

theorem map_mono {f : α → α} (h : Monotone f) {a b : WithTop α} (hab : a ≤ b) :
    a.map f ≤ b.map f := by
  cases b with
  | top => exact le_top
  | coe b =>
    cases a with
    | top => simp at hab
    | coe a => simpa using h (by simpa using hab)

variable {D : Dataflow ι α}

theorem Solution.le_of_arrives {facts : ι → WithTop α}
    (h : D.Solution facts) {n : ι} {s : α} (path : D.Arrives n s) :
    facts n ≤ s := by
  induction path with
  | entry => exact h.entry
  | @edge n m s _ edge ih =>
    have step := map_mono (D.mono n) ih
    exact (h.closed n m edge).trans (by simpa using step)

inductive Fault where
  | unreached
  | budget
  deriving DecidableEq, Repr

structure Progress (ι α : Type) where
  facts : ι → WithTop α
  work : List ι
  queued : ι → Bool

variable [DecidableEq ι] [DecidableEq α]

def merge (out : α) (p : Progress ι α) (m : ι) : Progress ι α :=
  let merged := p.facts m ⊓ (out : WithTop α)
  if p.facts m ≠ merged then
    { facts := Function.update p.facts m merged
      work := if p.queued m then p.work else p.work ++ [m]
      queued := Function.update p.queued m true }
  else p

/-- The progress after `n` was taken off the work list. -/
def take (p : Progress ι α) (n : ι) (rest : List ι) : Progress ι α :=
  { p with work := rest, queued := Function.update p.queued n false }

/-- Run the loop with at most `budget` nodes taken; `order` is the order in
which the work list is looked at before each of them. -/
def drain (D : Dataflow ι α) (order : Nat → List ι → List ι) :
    Nat → Progress ι α → Except Fault (ι → WithTop α)
  | 0, p => if p.work = [] then .ok p.facts else .error .budget
  | budget + 1, p =>
    match order budget p.work with
    | [] => .ok p.facts
    | n :: rest =>
      match p.facts n with
      | none => .error .unreached
      | some s =>
        drain D order budget
          ((D.next n).foldl (merge (D.pass n s)) (take p n rest))

def initial (D : Dataflow ι α) : Progress ι α where
  facts := Function.update (fun _ => ⊤) D.entry (D.start : WithTop α)
  work := [D.entry]
  queued := Function.update (fun _ => false) D.entry true

def solve (D : Dataflow ι α) (order : Nat → List ι → List ι) (budget : Nat) :
    Except Fault (ι → WithTop α) :=
  D.drain order budget D.initial

variable {p : Progress ι α} {out : α} {m : ι}

theorem merge_same
    (h : p.facts m = p.facts m ⊓ out) : merge out p m = p :=
  if_neg (not_not.2 h)

theorem merge_changed (h : p.facts m ≠ p.facts m ⊓ out) :
    merge out p m =
      { facts := Function.update p.facts m (p.facts m ⊓ out)
        work := if p.queued m then p.work else p.work ++ [m]
        queued := Function.update p.queued m true } :=
  if_pos h

theorem merge_facts (out : α) (p : Progress ι α) (m : ι) :
    (merge out p m).facts = Function.update p.facts m (p.facts m ⊓ out) := by
  by_cases h : p.facts m = p.facts m ⊓ out
  · rw [merge_same h, ← h, Function.update_eq_self]
  · rw [merge_changed h]

theorem merge_facts_self (out : α) (p : Progress ι α) (m : ι) :
    (merge out p m).facts m ≤ out := by
  simp [merge_facts]

theorem merge_facts_le (out : α) (p : Progress ι α) (m k : ι) :
    (merge out p m).facts k ≤ p.facts k := by
  rw [merge_facts]
  by_cases h : k = m
  · subst h
    simp
  · simp [h]

theorem merge_facts_ne_top (out : α) (p : Progress ι α) (m k : ι)
    (h : k = m ∨ p.facts k ≠ ⊤) : (merge out p m).facts k ≠ ⊤ := by
  by_cases hk : k = m
  · subst hk
    exact ne_top_of_le_ne_top WithTop.coe_ne_top (merge_facts_self out p k)
  · exact ne_top_of_le_ne_top (h.resolve_left hk) (merge_facts_le out p m k)

structure Marked (p : Progress ι α) : Prop where
  nodup : p.work.Nodup
  marks : ∀ n, p.queued n = true ↔ n ∈ p.work
  reached : ∀ n ∈ p.work, p.facts n ≠ ⊤

theorem mem_work_merge {k : ι}
    (h : k ∈ p.work) : k ∈ (merge out p m).work := by
  by_cases same : p.facts m = p.facts m ⊓ out
  · rwa [merge_same same]
  · rw [merge_changed same]
    dsimp only
    split
    · exact h
    · exact List.mem_append_left _ h

theorem facts_merge_of_idle {k : ι}
    (h : Marked p) (idle : k ∉ (merge out p m).work) :
    (merge out p m).facts k = p.facts k := by
  by_cases same : p.facts m = p.facts m ⊓ out
  · rw [merge_same same]
  · rw [merge_changed same] at idle ⊢
    have hk : k ≠ m := by
      rintro rfl
      have marks := h.marks k
      dsimp only at idle
      split at idle <;> simp_all
    simp [hk]

theorem marked_merge (h : Marked p) :
    Marked (merge out p m) := by
  have top : ∀ k, k = m ∨ p.facts k ≠ ⊤ → (merge out p m).facts k ≠ ⊤ :=
    merge_facts_ne_top out p m
  have marks := h.marks
  by_cases same : p.facts m = p.facts m ⊓ out
  · rwa [merge_same same]
  · rw [merge_changed same] at top ⊢
    by_cases queued : p.queued m = true
    · have hm : m ∈ p.work := (marks m).1 queued
      constructor
      · simpa [queued] using h.nodup
      · intro n
        by_cases hn : n = m <;> simp_all
      · intro n hn
        rw [if_pos queued] at hn
        exact top n (.inr (h.reached n hn))
    · have hm : m ∉ p.work := fun hm => queued ((marks m).2 hm)
      constructor
      · simpa [queued, List.nodup_append] using
          ⟨h.nodup, fun a ha hma => hm (hma ▸ ha)⟩
      · intro n
        by_cases hn : n = m <;> simp_all
      · intro n hn
        simp only [queued, Bool.false_eq_true, ite_false, List.mem_append,
          List.mem_singleton] at hn
        exact top n (hn.elim (fun hn => .inr (h.reached n hn)) .inl)

structure Merged (out : α) (todo : List ι) (p q : Progress ι α) : Prop where
  marked : Marked q
  work : ∀ k ∈ p.work, k ∈ q.work
  idle : ∀ k, k ∉ q.work → q.facts k = p.facts k
  le : ∀ k, q.facts k ≤ p.facts k
  into : ∀ m ∈ todo, q.facts m ≤ out
  from_facts : ∀ k, q.facts k ≠ p.facts k → k ∈ todo
  greatest : ∀ sol : ι → WithTop α, (∀ k, sol k ≤ p.facts k) →
    (∀ m ∈ todo, sol m ≤ out) → ∀ k, sol k ≤ q.facts k

theorem merged_foldl (out : α) (todo : List ι) (p : Progress ι α)
    (h : Marked p) : Merged out todo p (todo.foldl (merge out) p) := by
  induction todo generalizing p with
  | nil =>
    exact ⟨h, fun _ hk => hk, fun _ _ => rfl, fun _ => le_rfl, by simp,
      fun _ hk => absurd rfl hk, fun _ hsol _ => hsol⟩
  | cons m todo ih =>
    have step := ih (merge out p m) (marked_merge h)
    have later : ∀ k, k ∉ (todo.foldl (merge out) (merge out p m)).work →
        k ∉ (merge out p m).work := fun k hk hw => hk (step.work k hw)
    constructor
    · exact step.marked
    · exact fun k hk => step.work k (mem_work_merge hk)
    · intro k hk
      exact (step.idle k hk).trans (facts_merge_of_idle h (later k hk))
    · exact fun k => (step.le k).trans (merge_facts_le out p m k)
    · intro k hk
      rcases List.mem_cons.1 hk with rfl | hk
      · exact (step.le k).trans (merge_facts_self out p k)
      · exact step.into k hk
    · intro k hk
      by_cases hm : k = m
      · simp [hm]
      · have same : (merge out p m).facts k = p.facts k := by
          simp [merge_facts, hm]
        exact List.mem_cons_of_mem m (step.from_facts k (same ▸ hk))
    · intro sol below into
      apply step.greatest sol
      · intro k
        rw [merge_facts]
        by_cases hm : k = m
        · subst hm
          simpa using ⟨below k, into k (by simp)⟩
        · simpa [hm] using below k
      · exact fun k hk => into k (by simp [hk])

structure Inv (D : Dataflow ι α) (p : Progress ι α) : Prop where
  marked : Marked p
  entry : p.facts D.entry ≤ D.start
  closed : ∀ n, n ∉ p.work → ∀ m ∈ D.next n, p.facts m ≤ (p.facts n).map (D.pass n)
  above : ∀ sol, D.Solution sol → ∀ n, sol n ≤ p.facts n
  walked : ∀ n, p.facts n ≠ ⊤ → ∃ s, D.Arrives n s

omit [SemilatticeInf α] [DecidableEq α] in
theorem marked_take {n : ι} {rest : List ι}
    (h : Marked p) (perm : (n :: rest).Perm p.work) :
    Marked (take p n rest) := by
  have nodup : (n :: rest).Nodup := perm.nodup_iff.2 h.nodup
  have mem : ∀ k, k ∈ p.work ↔ k = n ∨ k ∈ rest := fun k => by
    rw [← perm.mem_iff, List.mem_cons]
  have hn : n ∉ rest := (List.nodup_cons.1 nodup).1
  constructor
  · exact (List.nodup_cons.1 nodup).2
  · intro k
    by_cases hk : k = n
    · subst hk
      simpa [take] using hn
    · simp [take, hk, h.marks k, mem k]
  · intro k hk
    exact h.reached k ((mem k).2 (.inr hk))

theorem inv_visit {n : ι} {rest : List ι} {s : α} (h : D.Inv p)
    (perm : (n :: rest).Perm p.work) (hs : p.facts n = s) :
    D.Inv ((D.next n).foldl (merge (D.pass n s)) (take p n rest)) := by
  have step := merged_foldl (D.pass n s) (D.next n) (take p n rest)
    (marked_take h.marked perm)
  have facts : (take p n rest).facts = p.facts := rfl
  generalize (D.next n).foldl (merge (D.pass n s)) (take p n rest) = q at step
  refine ⟨step.marked, (step.le _).trans h.entry, ?_, ?_, ?_⟩
  · intro k idle m edge
    rw [step.idle k idle, facts]
    by_cases hk : k = n
    · subst hk
      simpa [hs] using step.into m edge
    · have before : k ∉ p.work := fun hw => by
        rcases List.mem_cons.1 (perm.mem_iff.2 hw) with rfl | hw
        · exact hk rfl
        · exact idle (step.work k hw)
      exact (step.le m).trans (h.closed k before m edge)
  · intro sol solution
    apply step.greatest sol (h.above sol solution)
    intro m edge
    have through := map_mono (D.mono n) (h.above sol solution n)
    exact (solution.closed n m edge).trans (by simpa [hs] using through)
  · intro k hk
    by_cases old : p.facts k = ⊤
    · obtain ⟨t, path⟩ := h.walked n (by simp [hs])
      exact ⟨_, path.edge (step.from_facts k (by rwa [facts, old]))⟩
    · exact h.walked k old

omit [DecidableEq α] in
theorem inv_initial (D : Dataflow ι α) : D.Inv D.initial := by
  refine ⟨⟨by simp [initial], ?_, ?_⟩, by simp [initial], ?_, ?_, ?_⟩
  · intro n
    by_cases hn : n = D.entry <;> simp [initial, hn]
  · intro n hn
    have hn : n = D.entry := by simpa [initial] using hn
    simp [initial, hn]
  · intro n hn m _
    have hn : n ≠ D.entry := by simpa [initial] using hn
    simp [initial, hn]
  · intro sol solution n
    by_cases hn : n = D.entry
    · subst hn
      simpa [initial] using solution.entry
    · simp [initial, hn]
  · intro n hn
    by_cases he : n = D.entry
    · exact ⟨D.start, he ▸ .entry⟩
    · simp [initial, he] at hn

structure Outcome (D : Dataflow ι α) (facts : ι → WithTop α) : Prop where
  solution : D.Solution facts
  greatest : ∀ sol, D.Solution sol → ∀ n, sol n ≤ facts n
  walked : ∀ n, facts n ≠ ⊤ → ∃ s, D.Arrives n s

omit [DecidableEq ι] [DecidableEq α] in
theorem outcome_of_idle (h : D.Inv p)
    (idle : p.work = []) : D.Outcome p.facts :=
  ⟨⟨h.entry, fun n => h.closed n (by simp [idle])⟩, h.above, h.walked⟩

omit [DecidableEq ι] [DecidableEq α] in
theorem Outcome.unique {f g : ι → WithTop α}
    (hf : D.Outcome f) (hg : D.Outcome g) : f = g := by
  funext n
  exact le_antisymm (hg.greatest f hf.solution n) (hf.greatest g hg.solution n)

omit [DecidableEq ι] [DecidableEq α] in
theorem Outcome.reached_iff {facts : ι → WithTop α} (h : D.Outcome facts) (n : ι) :
    facts n ≠ ⊤ ↔ ∃ s, D.Arrives n s := by
  constructor
  · exact h.walked n
  · rintro ⟨s, path⟩
    exact ne_top_of_le_ne_top WithTop.coe_ne_top (h.solution.le_of_arrives path)

/-! ## The number of steps

A fact that changes gets a smaller height, so a node is put on the work list
at most as often as its height allows. -/

section Height

variable [Fintype ι] (height : α → Nat) (bound : Nat)

def rank : WithTop α → Nat
  | none => bound + 1
  | some s => height s

def load (p : Progress ι α) : Nat :=
  p.work.length + ∑ n, rank height bound (p.facts n)

variable {height bound}

omit [DecidableEq α] in
theorem rank_strictMono (mono : StrictMono height)
    (bounded : ∀ s, height s ≤ bound) :
    StrictMono (rank height bound) := by
  intro a b hab
  cases b with
  | top =>
    cases a with
    | top => exact absurd hab (lt_irrefl _)
    | coe a => exact Nat.lt_succ_of_le (bounded a)
  | coe b =>
    cases a with
    | top => exact absurd hab (not_lt_of_ge le_top)
    | coe a => exact mono (WithTop.coe_lt_coe.1 hab)

private theorem load_merge (mono : StrictMono height)
    (bounded : ∀ s, height s ≤ bound) (out : α) (p : Progress ι α) (m : ι) :
    load height bound (merge out p m) ≤ load height bound p := by
  by_cases same : p.facts m = p.facts m ⊓ out
  · rw [merge_same same]
  · have lower : p.facts m ⊓ out < p.facts m :=
      lt_of_le_of_ne inf_le_left (Ne.symm same)
    have drop := rank_strictMono mono bounded lower
    have before := Finset.add_sum_erase Finset.univ
      (fun n => rank height bound (p.facts n)) (Finset.mem_univ m)
    have after := Finset.add_sum_erase Finset.univ
      (fun n => rank height bound ((merge out p m).facts n))
      (Finset.mem_univ m)
    have rest : ∑ n ∈ Finset.univ.erase m,
          rank height bound ((merge out p m).facts n) =
        ∑ n ∈ Finset.univ.erase m, rank height bound (p.facts n) := by
      apply Finset.sum_congr rfl
      intro n hn
      rw [merge_facts, Function.update_of_ne (Finset.ne_of_mem_erase hn)]
    have here : (merge out p m).facts m = p.facts m ⊓ out := by
      simp [merge_facts]
    have work : (merge out p m).work.length ≤ p.work.length + 1 := by
      rw [merge_changed same]
      dsimp only
      split <;> simp
    simp only [here, rest] at after
    unfold load
    omega

theorem load_foldl (mono : StrictMono height)
    (bounded : ∀ s, height s ≤ bound) (out : α) (todo : List ι)
    (p : Progress ι α) :
    load height bound (todo.foldl (merge out) p) ≤ load height bound p := by
  induction todo generalizing p with
  | nil => exact le_rfl
  | cons m todo ih =>
    exact (ih (merge out p m)).trans (load_merge mono bounded out p m)

omit [DecidableEq α] in
theorem load_initial (D : Dataflow ι α) (bounded : ∀ s, height s ≤ bound) :
    load height bound D.initial ≤ 1 + Fintype.card ι * (bound + 1) := by
  have each : ∀ n, rank height bound (D.initial.facts n) ≤ bound + 1 := by
    intro n
    cases h : D.initial.facts n with
    | top => exact le_rfl
    | coe s => exact Nat.le_succ_of_le (bounded s)
  have total := Finset.sum_le_card_nsmul Finset.univ
    (fun n => rank height bound (D.initial.facts n)) (bound + 1)
    (fun n _ => each n)
  have work : D.initial.work.length = 1 := rfl
  unfold load
  simp only [Finset.card_univ, Nat.nsmul_eq_mul] at total
  omega

omit [Fintype ι] in
theorem drain_cons {D : Dataflow ι α} {order : Nat → List ι → List ι}
    {budget : Nat} {p : Progress ι α} {n : ι} {rest : List ι} {s : α}
    (looked : order budget p.work = n :: rest) (hs : p.facts n = s) :
    D.drain order (budget + 1) p =
      D.drain order budget
        ((D.next n).foldl (merge (D.pass n s)) (take p n rest)) := by
  simp only [drain, looked, hs]

theorem drain_outcome {D : Dataflow ι α} (mono : StrictMono height)
    (bounded : ∀ s, height s ≤ bound) {order : Nat → List ι → List ι}
    (perm : ∀ k work, (order k work).Perm work) (budget : Nat)
    (p : Progress ι α) (h : D.Inv p)
    (enough : load height bound p ≤ budget) :
    ∃ facts, D.drain order budget p = .ok facts ∧ D.Outcome facts := by
  induction budget generalizing p with
  | zero =>
    have idle : p.work = [] := by
      have : p.work.length = 0 := by
        unfold load at enough
        omega
      exact List.length_eq_zero_iff.1 this
    exact ⟨p.facts, by simp [drain, idle], outcome_of_idle h idle⟩
  | succ budget ih =>
    have looked := perm budget p.work
    rcases horder : order budget p.work with _ | ⟨n, rest⟩
    · have idle : p.work = [] := by
        rw [horder] at looked
        exact looked.nil_eq.symm
      exact ⟨p.facts, by simp [drain, horder], outcome_of_idle h idle⟩
    · rw [horder] at looked
      have hn : n ∈ p.work := looked.mem_iff.1 (by simp)
      obtain ⟨s, hs⟩ := WithTop.ne_top_iff_exists.1 (h.marked.reached n hn)
      rw [drain_cons horder hs.symm]
      apply ih _ (inv_visit h looked hs.symm)
      have less := load_foldl mono bounded (D.pass n s) (D.next n) (take p n rest)
      have taken : load height bound (take p n rest) + 1 =
          load height bound p := by
        simp only [load, take, ← looked.length_eq, List.length_cons]
        omega
      omega

/-- With a budget for every node to come down all its heights, the loop ends
with the greatest solution, in whatever order it takes the nodes. -/
theorem solve_outcome (D : Dataflow ι α) (mono : StrictMono height)
    (bounded : ∀ s, height s ≤ bound) {order : Nat → List ι → List ι}
    (perm : ∀ k work, (order k work).Perm work) {budget : Nat}
    (enough : 1 + Fintype.card ι * (bound + 1) ≤ budget) :
    ∃ facts, D.solve order budget = .ok facts ∧ D.Outcome facts :=
  drain_outcome mono bounded perm budget D.initial (inv_initial D)
    ((load_initial D bounded).trans enough)

end Height

end Dataflow

end ProxyLane.Foundation
