import ProxyLane.Foundation.LittleEndian

/-!
# Big-endian comparison

Byte strings of one length compare as the numbers they write.
-/

namespace ProxyLane.Foundation

theorem beNat_lt (bytes : Bytes) : beNat bytes < 256 ^ bytes.length := by
  have h := leNat_lt bytes.reverse
  rwa [leNat, List.reverse_reverse, List.length_reverse] at h

theorem beNat_cons (byte : UInt8) (bytes : Bytes) :
    beNat (byte :: bytes) = byte.toNat * 256 ^ bytes.length + beNat bytes := by
  induction bytes using List.reverseRecOn with
  | nil => simp [beNat]
  | append_singleton bytes last ih =>
    rw [← List.cons_append, beNat_append_singleton, ih, beNat_append_singleton,
      List.length_append, List.length_singleton, Nat.pow_succ]
    rw [Nat.add_mul, Nat.mul_assoc, Nat.add_assoc]

theorem beNat_lt_iff {left right : Bytes} (h : left.length = right.length) :
    beNat left < beNat right ↔ left < right := by
  induction left generalizing right with
  | nil => simp [List.length_eq_zero_iff.1 h.symm]
  | cons a left ih =>
    cases right with
    | nil => cases h
    | cons b right =>
      have hlength : left.length = right.length := Nat.succ.inj h
      have hleft := beNat_lt left
      have hright := beNat_lt right
      rw [beNat_cons, beNat_cons, List.cons_lt_cons_iff, ← ih hlength, ← hlength,
        UInt8.lt_iff_toNat_lt, ← UInt8.toNat_inj]
      rw [← hlength] at hright
      generalize 256 ^ left.length = weight at hleft hright
      -- the first bytes decide unless they are equal
      rcases Nat.lt_trichotomy a.toNat b.toNat with hlt | heq | hgt
      · have := Nat.mul_le_mul_right weight hlt
        rw [Nat.succ_mul] at this
        omega
      · rw [heq]
        omega
      · have := Nat.mul_le_mul_right weight hgt
        rw [Nat.succ_mul] at this
        omega

end ProxyLane.Foundation
