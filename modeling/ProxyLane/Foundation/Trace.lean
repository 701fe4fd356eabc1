import Mathlib.Data.List.Infix

/-!
# Lawful traces

A trace is lawful when each of its actions was allowed by the actions before
it.  A machine that appends to its trace keeps it lawful one action at a time.
-/

namespace ProxyLane.Foundation

variable {α : Type}

def Lawful (allowed : List α → α → Prop) (trace : List α) : Prop :=
  ∀ past a, (past ++ [a]) <+: trace → allowed past a

variable {allowed : List α → α → Prop} {trace : List α}

theorem lawful_nil : Lawful allowed [] := by
  intro past a h
  have hlen := h.length_le
  simp at hlen

theorem Lawful.snoc {a : α} (h : Lawful allowed trace) (ha : allowed trace a) :
    Lawful allowed (trace ++ [a]) := by
  intro past b hpast
  rw [List.prefix_concat_iff] at hpast
  obtain hlast | hearlier := hpast
  · obtain ⟨rfl, rfl⟩ := List.append_singleton_inj.1 hlast
    exact ha
  · exact h past b hearlier

end ProxyLane.Foundation
