import Mathlib.Algebra.BigOperators.Group.List.Basic
import Mathlib.Algebra.GroupWithZero.Nat

/-!
# Charged queues

A queue bounded in entries and in bytes keeps the sum of its sizes in a 32 bit
counter, which is moved by every entry that comes or goes.  `Charged` says that
the counter is right and the bounds hold; the sizes of entries may be anything
the counter can hold.
-/

namespace ProxyLane.Foundation

structure Charged (entries limit : Nat) (sizes : List Nat) (bytes : UInt32) :
    Prop where
  sum : bytes.toNat = sizes.sum
  count : sizes.length ≤ entries
  bound : sizes.sum ≤ limit

namespace Charged

variable {entries limit n : Nat} {before sizes : List Nat} {bytes : UInt32}

theorem empty : Charged entries limit [] 0 := by
  constructor <;> simp

theorem erase (h : Charged entries limit (before ++ n :: sizes) bytes) :
    Charged entries limit (before ++ sizes) (bytes - UInt32.ofNat n) ∧
      ¬ bytes < UInt32.ofNat n := by
  have hsum := h.sum
  have hcount := h.count
  have hbound := h.bound
  have hlt : bytes.toNat < 2 ^ 32 := bytes.toNat_lt
  simp only [List.sum_append, List.sum_cons, List.length_append,
    List.length_cons] at hsum hcount hbound
  have hn : (UInt32.ofNat n).toNat = n := by
    rw [UInt32.toNat_ofNat']
    omega
  have hle : ¬ bytes < UInt32.ofNat n := by
    rw [UInt32.lt_iff_toNat_lt, hn]
    omega
  refine ⟨⟨?_, ?_, ?_⟩, hle⟩
  · rw [UInt32.toNat_sub_of_le _ _ (UInt32.not_lt.1 hle), hn]
    simp only [List.sum_append]
    omega
  · simp only [List.length_append]
    omega
  · simp only [List.sum_append]
    omega

theorem pop (h : Charged entries limit (n :: sizes) bytes) :
    Charged entries limit sizes (bytes - UInt32.ofNat n) ∧ ¬ bytes < UInt32.ofNat n :=
  @erase entries limit n [] sizes bytes h

/-- There is room for an entry of `n` bytes, by the test on the counter. -/
def Room (entries limit n : Nat) (sizes : List Nat) (bytes : UInt32) : Prop :=
  sizes = [] ∨ (sizes.length < entries ∧ (bytes + UInt32.ofNat n).toNat ≤ limit)

theorem push (h : Charged entries limit sizes bytes)
    (room : Room entries limit n sizes bytes) (hentries : 0 < entries)
    (hn : n ≤ limit) (hlimit : limit + limit < 2 ^ 32) :
    Charged entries limit (sizes ++ [n]) (bytes + UInt32.ofNat n) := by
  have hsum := h.sum
  have hbound := h.bound
  have hadd : (bytes + UInt32.ofNat n).toNat = sizes.sum + n := by
    rw [UInt32.toNat_add, UInt32.toNat_ofNat', hsum]
    omega
  obtain rfl | ⟨hcount, htotal⟩ := room
  · constructor
    · simp [hadd]
    · exact hentries
    · simpa using hn
  · rw [hadd] at htotal
    constructor
    · simpa using hadd
    · simp only [List.length_append, List.length_singleton]
      omega
    · simpa using htotal

end Charged

end ProxyLane.Foundation
