import ProxyLane.Foundation.Bytes

/-!
# Little-endian numbers

Numbers of a fixed width as x86 stores them, least significant byte first.
-/

namespace ProxyLane.Foundation

def leBytes (width value : Nat) : Bytes := (beBytes width value).reverse

def leNat (bytes : Bytes) : Nat := beNat bytes.reverse

theorem leNat_leBytes (width value : Nat) :
    leNat (leBytes width value) = value % 256 ^ width := by
  simp [leNat, leBytes, beNat_beBytes]

theorem leBytes_length (width value : Nat) :
    (leBytes width value).length = width := by
  simp [leBytes]

theorem beBytes_beNat (bytes : Bytes) : beBytes bytes.length (beNat bytes) = bytes := by
  induction bytes using List.reverseRecOn with
  | nil => rfl
  | append_singleton bytes byte ih =>
    have hbyte := byte.toNat_lt
    have hhigh : (beNat bytes * 256 + byte.toNat) / 256 = beNat bytes := by omega
    have hlow : UInt8.ofNat (beNat bytes * 256 + byte.toNat) = byte := by
      apply UInt8.toNat_inj.mp
      simp only [UInt8.toNat_ofNat']
      omega
    rw [List.length_append, List.length_singleton, beNat_append_singleton, beBytes,
      hhigh, ih, hlow]

theorem leBytes_leNat (bytes : Bytes) : leBytes bytes.length (leNat bytes) = bytes := by
  have h := beBytes_beNat bytes.reverse
  rw [List.length_reverse] at h
  rw [leBytes, leNat, h, List.reverse_reverse]

theorem leNat_lt (bytes : Bytes) : leNat bytes < 256 ^ bytes.length := by
  have h := leNat_leBytes bytes.length (leNat bytes)
  rw [leBytes_leNat] at h
  rw [h]
  exact Nat.mod_lt _ (Nat.pow_pos (by omega))

end ProxyLane.Foundation
