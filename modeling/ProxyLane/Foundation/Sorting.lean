import Mathlib.Data.List.Sort

/-!
# Sorting that need not be stable

What a sorting routine promises: the same elements, in the order of their
keys.  Nothing is said of the order of elements with the same key, so sorting
again may change it.
-/

namespace ProxyLane.Foundation

structure Sorting {α κ : Type} [LinearOrder κ] (key : α → κ) where
  run : List α → List α
  perm : ∀ l, (run l).Perm l
  sorted : ∀ l, (run l).Pairwise fun a b => key a ≤ key b

namespace Sorting

variable {α κ : Type} [LinearOrder κ] {key : α → κ}

def stable (key : α → κ) : Sorting key where
  run l := l.insertionSort fun a b => key a ≤ key b
  perm := List.perm_insertionSort _
  sorted l := by
    have total : Std.Total fun a b : α => key a ≤ key b :=
      ⟨fun a b => le_total (key a) (key b)⟩
    have trans : IsTrans α fun a b => key a ≤ key b :=
      ⟨fun a b c => le_trans⟩
    exact List.pairwise_insertionSort _ l

def backwards (key : α → κ) : Sorting key where
  run l := (stable key).run l.reverse
  perm l := ((stable key).perm _).trans l.reverse_perm
  sorted _ := (stable key).sorted _

theorem run_eq (s : Sorting key) {l sorted : List α} (hperm : sorted.Perm l)
    (hsorted : sorted.Pairwise fun a b => key a ≤ key b)
    (hkeys : ∀ a ∈ l, ∀ b ∈ l, key a = key b → a = b) : s.run l = sorted := by
  refine List.Perm.eq_of_pairwise (fun a b ha hb hab hba => ?_) (s.sorted l)
    hsorted ((s.perm l).trans hperm.symm)
  exact hkeys a ((s.perm l).mem_iff.1 ha) b (hperm.mem_iff.1 hb) (le_antisymm hab hba)

end Sorting

end ProxyLane.Foundation
