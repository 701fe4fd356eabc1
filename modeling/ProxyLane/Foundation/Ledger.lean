import Mathlib.Data.List.Nodup
import Mathlib.Data.List.Perm.Basic

/-!
# Ledgers

A component that hands out ascending numbers and reports on each of them
keeps, at any time, a list of the numbers it still owes an end for.  The log
is the list of its reports.  `Accounted` says that a number that is not owed
has been ended exactly once, and an owed one not at all; it is stable under
the four ways such a log grows.
-/

namespace ProxyLane.Foundation

/-- A report on the item `id`, filed under `key`. -/
structure Report (κ ρ : Type) where
  id : Nat
  key : κ
  finished : Bool
  about : ρ
  deriving DecidableEq, Repr

variable {κ ρ : Type}

/-- The number of ends reported for `id`. -/
def ends (log : List (Report κ ρ)) (id : Nat) : Nat :=
  log.countP fun e => e.finished && e.id == id

theorem ends_append (log more : List (Report κ ρ)) (id : Nat) :
    ends (log ++ more) id = ends log id + ends more id := by
  simp [ends]

theorem ends_open (e : Report κ ρ) (h : e.finished = false) (id : Nat) :
    ends [e] id = 0 := by
  simp [ends, h]

theorem ends_finished (e : Report κ ρ) (h : e.finished = true) (id : Nat) :
    ends [e] id = if e.id = id then 1 else 0 := by
  by_cases hid : e.id = id <;> simp [ends, h, hid]

theorem not_finished_of_ends {log : List (Report κ ρ)} {id : Nat}
    (h : ends log id = 0) {e : Report κ ρ} (he : e ∈ log) (hid : e.id = id) :
    e.finished = false := by
  have hall := List.countP_eq_zero.1 h e he
  simpa [hid] using hall

/-- `owed` lists the open items, `next` is the last number handed out. -/
structure Accounted (owed : List (Nat × κ)) (next : Nat)
    (log : List (Report κ ρ)) : Prop where
  distinct : (owed.map Prod.fst).Nodup
  issued : ∀ t ∈ owed, 1 ≤ t.1 ∧ t.1 ≤ next
  begun : ∀ t ∈ owed, ∃ e ∈ log, e.id = t.1 ∧ e.key = t.2 ∧ e.finished = false
  owing : ∀ t ∈ owed, ends log t.1 = 0
  ended : ∀ id, 1 ≤ id → id ≤ next → id ∉ owed.map Prod.fst → ends log id = 1
  future : ∀ e ∈ log, 1 ≤ e.id ∧ e.id ≤ next

namespace Accounted

variable {owed : List (Nat × κ)} {next : Nat} {log : List (Report κ ρ)}

theorem start : Accounted ([] : List (Nat × κ)) 0 ([] : List (Report κ ρ)) := by
  constructor <;> simp
  omega

theorem perm (h : Accounted owed next log) {owed' : List (Nat × κ)}
    (hp : owed'.Perm owed) : Accounted owed' next log where
  distinct := (hp.map Prod.fst).nodup_iff.2 h.distinct
  issued t ht := h.issued t (hp.subset ht)
  begun t ht := h.begun t (hp.subset ht)
  owing t ht := h.owing t (hp.subset ht)
  ended id hlow hhigh hid :=
    h.ended id hlow hhigh fun hmem => hid ((hp.map Prod.fst).mem_iff.2 hmem)
  future := h.future

theorem no_ends_above (h : Accounted owed next log) {id : Nat} (hid : next < id) :
    ends log id = 0 := by
  apply List.countP_eq_zero.2
  intro e he
  have := h.future e he
  simp only [Bool.and_eq_true, beq_iff_eq, not_and]
  omega

theorem note (h : Accounted owed next log) {e : Report κ ρ}
    (he : e.finished = false) (hid : 1 ≤ e.id ∧ e.id ≤ next) :
    Accounted owed next (log ++ [e]) where
  distinct := h.distinct
  issued := h.issued
  begun t ht := by
    obtain ⟨b, hb, hrest⟩ := h.begun t ht
    exact ⟨b, List.mem_append_left _ hb, hrest⟩
  owing t ht := by rw [ends_append, h.owing t ht, ends_open e he]
  ended id hlow hhigh hnot := by
    rw [ends_append, h.ended id hlow hhigh hnot, ends_open e he]
  future a ha := by
    rcases List.mem_append.1 ha with ha | ha
    · exact h.future a ha
    · rw [List.mem_singleton.1 ha]
      exact hid

theorem issue (h : Accounted owed next log) {e : Report κ ρ}
    (he : e.finished = false) (hid : e.id = next + 1) :
    Accounted ((next + 1, e.key) :: owed) (next + 1) (log ++ [e]) where
  distinct := by
    rw [List.map_cons, List.nodup_cons]
    refine ⟨fun hmem => ?_, h.distinct⟩
    obtain ⟨t, ht, heq⟩ := List.mem_map.1 hmem
    have := (h.issued t ht).2
    simp only at heq
    omega
  issued t ht := by
    rcases List.mem_cons.1 ht with rfl | ht
    · simp
    · have := h.issued t ht
      omega
  begun t ht := by
    rcases List.mem_cons.1 ht with rfl | ht
    · exact ⟨e, by simp, hid, rfl, he⟩
    · obtain ⟨b, hb, hrest⟩ := h.begun t ht
      exact ⟨b, List.mem_append_left _ hb, hrest⟩
  owing t ht := by
    rw [ends_append, ends_open e he]
    rcases List.mem_cons.1 ht with rfl | ht
    · exact h.no_ends_above (Nat.lt_succ_self next)
    · exact h.owing t ht
  ended id hlow hhigh hnot := by
    simp only [List.map_cons, List.mem_cons, not_or] at hnot
    rw [ends_append, ends_open e he, h.ended id hlow (by omega) hnot.2]
  future a ha := by
    rcases List.mem_append.1 ha with ha | ha
    · have := h.future a ha
      omega
    · rw [List.mem_singleton.1 ha]
      omega

theorem finish {t : Nat × κ} (h : Accounted (t :: owed) next log)
    {e : Report κ ρ} (he : e.finished = true) (hid : e.id = t.1) :
    Accounted owed next (log ++ [e]) where
  distinct := (List.nodup_cons.1 h.distinct).2
  issued s hs := h.issued s (List.mem_cons_of_mem _ hs)
  begun s hs := by
    obtain ⟨b, hb, hrest⟩ := h.begun s (List.mem_cons_of_mem _ hs)
    exact ⟨b, List.mem_append_left _ hb, hrest⟩
  owing s hs := by
    have hne : t.1 ≠ s.1 := by
      intro heq
      apply (List.nodup_cons.1 h.distinct).1
      rw [heq]
      exact List.mem_map_of_mem hs
    rw [ends_append, h.owing s (List.mem_cons_of_mem _ hs),
      ends_finished e he, hid, if_neg hne]
  ended id hlow hhigh hnot := by
    rw [ends_append, ends_finished e he, hid]
    by_cases heq : t.1 = id
    · rw [if_pos heq, ← heq, h.owing t List.mem_cons_self]
    · rw [if_neg heq, h.ended id hlow hhigh]
      simpa [List.map_cons, List.mem_cons, not_or] using
        ⟨fun h => heq h.symm, by simpa using hnot⟩
  future a ha := by
    rcases List.mem_append.1 ha with ha | ha
    · exact h.future a ha
    · rw [List.mem_singleton.1 ha, hid]
      exact h.issued t List.mem_cons_self

theorem instant (h : Accounted owed next log) {e : Report κ ρ}
    (he : e.finished = true) (hid : e.id = next + 1) :
    Accounted owed (next + 1) (log ++ [e]) where
  distinct := h.distinct
  issued t ht := by
    have := h.issued t ht
    omega
  begun t ht := by
    obtain ⟨b, hb, hrest⟩ := h.begun t ht
    exact ⟨b, List.mem_append_left _ hb, hrest⟩
  owing t ht := by
    have hle := (h.issued t ht).2
    rw [ends_append, h.owing t ht, ends_finished e he, if_neg (by omega)]
  ended id hlow hhigh hnot := by
    rw [ends_append, ends_finished e he, hid]
    by_cases heq : next + 1 = id
    · rw [if_pos heq, h.no_ends_above (by omega)]
    · rw [if_neg heq, h.ended id hlow (by omega) hnot]
  future a ha := by
    rcases List.mem_append.1 ha with ha | ha
    · have := h.future a ha
      omega
    · rw [List.mem_singleton.1 ha]
      omega

end Accounted

/-- Every report of the log satisfies `p` of the reports before it. -/
def Justified (p : List (Report κ ρ) → Report κ ρ → Prop)
    (log : List (Report κ ρ)) : Prop :=
  ∀ before e after, log = before ++ e :: after → p before e

theorem Justified.nil (p : List (Report κ ρ) → Report κ ρ → Prop) :
    Justified p [] := by
  intro before e after h
  simp at h

theorem Justified.snoc {p : List (Report κ ρ) → Report κ ρ → Prop}
    {log : List (Report κ ρ)} (h : Justified p log) {e : Report κ ρ}
    (he : p log e) : Justified p (log ++ [e]) := by
  intro before a after heq
  rcases List.eq_nil_or_concat after with rfl | ⟨rest, last, rfl⟩
  · obtain ⟨rfl, hlast⟩ := List.append_inj' heq rfl
    rw [← List.head_eq_of_cons_eq hlast]
    exact he
  · have hlong : log ++ [e] = (before ++ a :: rest) ++ [last] := by
      simpa using heq
    obtain ⟨hlog, -⟩ := List.append_inj' hlong rfl
    exact h before a rest hlog

end ProxyLane.Foundation
