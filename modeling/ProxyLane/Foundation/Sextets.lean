import ProxyLane.Foundation.Bytes

/-!
# Bytes as numbers of six bits

Three bytes are four sextets.  One or two bytes at the end leave bits of the
last sextet empty, and only texts in which these are zero stand for bytes, so
bytes and their sextets determine each other.
-/

namespace ProxyLane.Foundation

def sextets : Bytes → List Nat
  | a :: b :: c :: rest =>
    a.toNat / 4 :: (a.toNat % 4 * 16 + b.toNat / 16) ::
      (b.toNat % 16 * 4 + c.toNat / 64) :: c.toNat % 64 :: sextets rest
  | [a, b] =>
    [a.toNat / 4, a.toNat % 4 * 16 + b.toNat / 16, b.toNat % 16 * 4]
  | [a] => [a.toNat / 4, a.toNat % 4 * 16]
  | [] => []

def octets : List Nat → Option Bytes
  | s :: t :: u :: v :: rest =>
    (octets rest).map fun bytes =>
      UInt8.ofNat (s * 4 + t / 16) :: UInt8.ofNat (t * 16 + u / 4) ::
        UInt8.ofNat (u * 64 + v) :: bytes
  | [s, t, u] =>
    if u % 4 = 0 then
      some [UInt8.ofNat (s * 4 + t / 16), UInt8.ofNat (t * 16 + u / 4)]
    else none
  | [s, t] => if t % 16 = 0 then some [UInt8.ofNat (s * 4 + t / 16)] else none
  | [_] => none
  | [] => some []

theorem ofNat_eq_of_mod {n : Nat} {byte : UInt8} (h : n % 256 = byte.toNat) :
    UInt8.ofNat n = byte := by
  apply UInt8.toNat_inj.mp
  rw [UInt8.toNat_ofNat']
  exact h

theorem octets_sextets (bytes : Bytes) : octets (sextets bytes) = some bytes := by
  induction bytes using sextets.induct with
  | case1 a b c rest ih =>
    have ha := a.toNat_lt
    have hb := b.toNat_lt
    have hc := c.toNat_lt
    simp only [sextets, octets, ih, Option.map_some, Option.some.injEq,
      List.cons.injEq, and_true]
    refine ⟨ofNat_eq_of_mod ?_, ofNat_eq_of_mod ?_, ofNat_eq_of_mod ?_⟩ <;> omega
  | case2 a b =>
    have ha := a.toNat_lt
    have hb := b.toNat_lt
    have hzero : b.toNat % 16 * 4 % 4 = 0 := by omega
    simp only [sextets, octets, hzero, if_true, Option.some.injEq,
      List.cons.injEq, and_true]
    refine ⟨ofNat_eq_of_mod ?_, ofNat_eq_of_mod ?_⟩ <;> omega
  | case3 a =>
    have ha := a.toNat_lt
    have hzero : a.toNat % 4 * 16 % 16 = 0 := by omega
    simp only [sextets, octets, hzero, if_true, Option.some.injEq,
      List.cons.injEq, and_true]
    exact ofNat_eq_of_mod (by omega)
  | case4 => rfl

theorem sextets_lt (bytes : Bytes) : ∀ s ∈ sextets bytes, s < 64 := by
  induction bytes using sextets.induct with
  | case1 a b c rest ih =>
    have ha := a.toNat_lt
    have hb := b.toNat_lt
    have hc := c.toNat_lt
    simp only [sextets, List.forall_mem_cons]
    refine ⟨?_, ?_, ?_, ?_, ih⟩ <;> omega
  | case2 a b =>
    have ha := a.toNat_lt
    have hb := b.toNat_lt
    simp only [sextets, List.forall_mem_cons]
    refine ⟨?_, ?_, ?_, by simp⟩ <;> omega
  | case3 a =>
    have ha := a.toNat_lt
    simp only [sextets, List.forall_mem_cons]
    refine ⟨?_, ?_, by simp⟩ <;> omega
  | case4 => simp [sextets]

theorem sextets_octets {text : List Nat} (h : ∀ s ∈ text, s < 64)
    {bytes : Bytes} (hbytes : octets text = some bytes) :
    sextets bytes = text := by
  induction text using octets.induct generalizing bytes with
  | case1 s t u v rest ih =>
    simp only [List.forall_mem_cons] at h
    obtain ⟨hs, ht, hu, hv, hrest⟩ := h
    simp only [octets, Option.map_eq_some_iff] at hbytes
    obtain ⟨more, hmore, rfl⟩ := hbytes
    simp only [sextets, ih hrest hmore, UInt8.toNat_ofNat', List.cons.injEq,
      and_true]
    refine ⟨?_, ?_, ?_, ?_⟩ <;> omega
  | case2 s t u hzero =>
    simp only [List.forall_mem_cons] at h
    obtain ⟨hs, ht, hu, -⟩ := h
    simp only [octets, hzero, if_true, Option.some.injEq] at hbytes
    subst hbytes
    simp only [sextets, UInt8.toNat_ofNat', List.cons.injEq, and_true]
    refine ⟨?_, ?_, ?_⟩ <;> omega
  | case3 s t u hzero => simp [octets, hzero] at hbytes
  | case4 s t hzero =>
    simp only [List.forall_mem_cons] at h
    obtain ⟨hs, ht, -⟩ := h
    simp only [octets, hzero, if_true, Option.some.injEq] at hbytes
    subst hbytes
    simp only [sextets, UInt8.toNat_ofNat', List.cons.injEq, and_true]
    refine ⟨?_, ?_⟩ <;> omega
  | case5 s t hzero => simp [octets, hzero] at hbytes
  | case6 s => cases hbytes
  | case7 =>
    cases hbytes
    rfl

def sextetCount (n : Nat) : Nat :=
  n / 3 * 4 + if n % 3 = 0 then 0 else n % 3 + 1

def octetCount (n : Nat) : Nat :=
  n / 4 * 3 + if n % 4 = 0 then 0 else n % 4 - 1

theorem sextets_length (bytes : Bytes) :
    (sextets bytes).length = sextetCount bytes.length := by
  induction bytes using sextets.induct with
  | case1 a b c rest ih =>
    simp only [sextets, List.length_cons, ih, sextetCount]
    have hmod : (rest.length + 1 + 1 + 1) % 3 = rest.length % 3 := by omega
    rw [hmod]
    omega
  | case2 a b => simp [sextets, sextetCount]
  | case3 a => simp [sextets, sextetCount]
  | case4 => rfl

theorem octetCount_sextetCount (n : Nat) : octetCount (sextetCount n) = n := by
  unfold octetCount sextetCount
  split <;> split <;> omega

theorem sextetCount_mod (n : Nat) : sextetCount n % 4 ≠ 1 := by
  unfold sextetCount
  split <;> omega

theorem shift_or {low : Nat} (high k : Nat) (h : low < 2 ^ k) :
    (high <<< k) ||| low = high * 2 ^ k + low := by
  rw [← Nat.shiftLeft_add_eq_or_of_lt h, Nat.shiftLeft_eq]

theorem and_three (n : Nat) : n &&& 0x03 = n % 4 :=
  Nat.and_two_pow_sub_one_eq_mod n 2

theorem and_fifteen (n : Nat) : n &&& 0x0F = n % 16 :=
  Nat.and_two_pow_sub_one_eq_mod n 4

theorem and_sixtyThree (n : Nat) : n &&& 0x3F = n % 64 :=
  Nat.and_two_pow_sub_one_eq_mod n 6

theorem shiftLeft_two (n : Nat) : n <<< 2 = n * 4 := Nat.shiftLeft_eq n 2

theorem shiftLeft_four (n : Nat) : n <<< 4 = n * 16 := Nat.shiftLeft_eq n 4

theorem shiftRight_two (n : Nat) : n >>> 2 = n / 4 :=
  Nat.shiftRight_eq_div_pow n 2

theorem shiftRight_four (n : Nat) : n >>> 4 = n / 16 :=
  Nat.shiftRight_eq_div_pow n 4

theorem shiftRight_six (n : Nat) : n >>> 6 = n / 64 :=
  Nat.shiftRight_eq_div_pow n 6

theorem join_sextet {first second : Nat} (h : second < 256) :
    ((first &&& 0x03) <<< 4) ||| (second >>> 4) = first % 4 * 16 + second / 16 := by
  rw [and_three, shiftRight_four, shift_or _ _ (by omega)]
  simp only [Nat.reducePow]

theorem join_sextet_third {second third : Nat} (h : third < 256) :
    ((second &&& 0x0F) <<< 2) ||| (third >>> 6) = second % 16 * 4 + third / 64 := by
  rw [and_fifteen, shiftRight_six, shift_or _ _ (by omega)]
  simp only [Nat.reducePow]

end ProxyLane.Foundation
