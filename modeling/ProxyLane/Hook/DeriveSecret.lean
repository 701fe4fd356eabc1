import ProxyLane.Foundation.BigEndian

/-!
# The secret of a pre-shared key

The keyed hash of a pre-shared key is read as a big-endian number and reduced
by the order of the P-256 group, byte by byte, before it becomes a secret key.
The hash and the key type are outside.
-/

namespace ProxyLane.Hook

open ProxyLane.Foundation

namespace DeriveSecret

abbrev Scalar := Vector UInt8 32

def order : Scalar :=
  ⟨#[0xff, 0xff, 0xff, 0xff, 0x00, 0x00, 0x00, 0x00, 0xff, 0xff, 0xff, 0xff, 0xff, 0xff, 0xff,
    0xff, 0xbc, 0xe6, 0xfa, 0xad, 0xa7, 0x17, 0x9e, 0x84, 0xf3, 0xb9, 0xca, 0xc2, 0xfc, 0x63,
    0x25, 0x51], rfl⟩

/-- The scalar in place and the borrow of the bytes below. -/
structure Subtraction where
  scalar : Scalar
  borrow : UInt16

def Subtraction.step (s : Subtraction) (index : Fin 32) : Subtraction :=
  let lhs := s.scalar[index].toUInt16
  let rhs := order[index].toUInt16 + s.borrow
  if lhs ≥ rhs then
    { scalar := s.scalar.set index (lhs - rhs).toUInt8, borrow := 0 }
  else
    { scalar := s.scalar.set index (lhs + 256 - rhs).toUInt8, borrow := 1 }

/-- The rounds of `for index in (0..32).rev()` below `count`. -/
def Subtraction.rounds : (count : Nat) → count ≤ 32 → Subtraction → Subtraction
  | 0, _, s => s
  | index + 1, h, s => rounds index (by omega) (s.step ⟨index, h⟩)

def reduce (scalar : Scalar) : Scalar :=
  if scalar.toList ≥ order.toList then
    (Subtraction.rounds 32 (Nat.le_refl 32) { scalar := scalar, borrow := 0 }).scalar
  else scalar

/-- The `hmac` and `p256` crates. -/
structure Library (μ κ : Type) where
  newFromSlice : Bytes → Except String μ
  update : μ → Bytes → μ
  finalize : μ → Scalar
  secretFromSlice : Scalar → Option κ

variable {μ κ : Type} (lib : Library μ κ)

def deriveSecret (psk : Bytes) : Except String κ := do
  let mac ← lib.newFromSlice psk
  let scalar := lib.finalize (lib.update mac (ascii "ecdsa-psk-derive"))
  match lib.secretFromSlice (reduce scalar) with
  | some secret => .ok secret
  | none => .error "derived invalid P-256 secret"

/-- What the bytes from `index` on have lost, with the borrow they asked for. -/
structure Subtracted (v : Scalar) (index : Nat) (s : Subtraction) : Prop where
  kept : ∀ i (h : i < 32), i < index → s.scalar[i] = v[i]
  flag : s.borrow.toNat ≤ 1
  value : beNat (s.scalar.toList.drop index) + beNat (order.toList.drop index) =
    beNat (v.toList.drop index) + s.borrow.toNat * 256 ^ (32 - index)

theorem drop_value (v : Scalar) {index : Nat} (h : index < 32) :
    beNat (v.toList.drop index) =
      v[index].toNat * 256 ^ (31 - index) + beNat (v.toList.drop (index + 1)) := by
  have hlong : index < v.toList.length := by simpa using h
  rw [List.drop_eq_getElem_cons hlong, beNat_cons, List.length_drop, Vector.length_toList,
    Vector.getElem_toList, show 32 - (index + 1) = 31 - index by omega]

theorem step_byte (s : Subtraction) (index : Fin 32) (hflag : s.borrow.toNat ≤ 1) :
    ∃ byte : UInt8, (s.step index).scalar = s.scalar.set index byte ∧
      (s.step index).borrow.toNat ≤ 1 ∧
      byte.toNat + order[index].toNat + s.borrow.toNat =
        s.scalar[index].toNat + (s.step index).borrow.toNat * 256 := by
  have hlhs := s.scalar[index].toNat_lt
  have horder := order[index].toNat_lt
  -- neither sum leaves sixteen bits
  have hrhs : (order[index].toUInt16 + s.borrow).toNat =
      order[index].toNat + s.borrow.toNat := by
    rw [UInt16.toNat_add, UInt8.toNat_toUInt16, Nat.mod_eq_of_lt (by omega)]
  unfold Subtraction.step
  by_cases hge : s.scalar[index].toUInt16 ≥ order[index].toUInt16 + s.borrow
  · simp only [if_pos hge]
    refine ⟨_, rfl, by decide, ?_⟩
    rw [ge_iff_le, UInt16.le_iff_toNat_le, hrhs, UInt8.toNat_toUInt16] at hge
    rw [UInt16.toNat_toUInt8, UInt16.toNat_sub_of_le _ _ (by
      rw [UInt16.le_iff_toNat_le, hrhs, UInt8.toNat_toUInt16]; exact hge), hrhs,
      UInt8.toNat_toUInt16]
    simp only [UInt16.toNat_zero]
    omega
  · simp only [if_neg hge]
    refine ⟨_, rfl, by decide, ?_⟩
    rw [ge_iff_le, UInt16.le_iff_toNat_le, hrhs, UInt8.toNat_toUInt16] at hge
    have hsum : (s.scalar[index].toUInt16 + 256).toNat = s.scalar[index].toNat + 256 := by
      rw [UInt16.toNat_add, UInt8.toNat_toUInt16, show (256 : UInt16).toNat = 256 from rfl,
        Nat.mod_eq_of_lt (by omega)]
    rw [UInt16.toNat_toUInt8, UInt16.toNat_sub_of_le _ _ (by
      rw [UInt16.le_iff_toNat_le, hrhs, hsum]; omega), hrhs, hsum]
    simp only [UInt16.toNat_one]
    omega

theorem step_subtracted {v : Scalar} {s : Subtraction} {index : Fin 32}
    (h : Subtracted v (index + 1) s) : Subtracted v index (s.step index) := by
  obtain ⟨byte, hscalar, hflag, hbyte⟩ := step_byte s index h.flag
  have hhere : s.scalar[index] = v[index] := h.kept index index.2 (Nat.lt_succ_self _)
  refine ⟨fun i hi hlt => ?_, hflag, ?_⟩
  · simp only [hscalar]
    rw [Vector.getElem_set_ne _ _ (Nat.ne_of_gt hlt)]
    exact h.kept i hi (Nat.lt_succ_of_lt hlt)
  · have hrest : (s.step index).scalar.toList.drop (index + 1) =
        s.scalar.toList.drop (index + 1) := by
      rw [hscalar, Vector.toList_set, List.drop_set_of_lt (Nat.lt_succ_self _)]
    have hnew : (s.step index).scalar[(index : Nat)] = byte := by
      simp only [hscalar, Vector.getElem_set_self]
    rw [drop_value _ index.2, drop_value order index.2, drop_value v index.2, hrest, hnew,
      show 32 - (index : Nat) = 31 - index + 1 by omega, Nat.pow_succ]
    have hvalue := h.value
    rw [show 32 - ((index : Nat) + 1) = 31 - index by omega] at hvalue
    -- the byte's equation, weighed with the byte's place
    have hplace := congrArg (· * 256 ^ (31 - (index : Nat))) hbyte
    rw [hhere] at hplace
    simp only [Nat.add_mul, Nat.mul_assoc, Fin.getElem_fin] at hplace
    rw [Nat.mul_comm (256 ^ _) 256]
    omega

theorem rounds_subtracted {v : Scalar} {s : Subtraction} {count : Nat} (hcount : count ≤ 32)
    (h : Subtracted v count s) : Subtracted v 0 (s.rounds count hcount) := by
  induction count generalizing s with
  | zero => exact h
  | succ index ih => exact ih (by omega) (@step_subtracted v s ⟨index, hcount⟩ h)

def groupOrder : Nat :=
  0xffffffff00000000ffffffffffffffffbce6faada7179e84f3b9cac2fc632551

theorem order_value : beNat order.toList = groupOrder := by decide

theorem order_bounds : 0 < groupOrder ∧ 256 ^ 32 < 2 * groupOrder := by decide

theorem scalar_lt (v : Scalar) : beNat v.toList < 256 ^ 32 := by
  simpa using beNat_lt v.toList

private theorem start_subtracted (v : Scalar) : Subtracted v 32 { scalar := v, borrow := 0 } where
  kept _ _ _ := rfl
  flag := by simp
  value := by
    have hnone (w : Scalar) : w.toList.drop 32 = [] :=
      List.drop_eq_nil_of_le (by simp)
    simp [hnone, beNat]

theorem reduce_value (v : Scalar) : beNat (reduce v).toList = beNat v.toList % groupOrder := by
  have hv := scalar_lt v
  have hcompare : v.toList ≥ order.toList ↔ groupOrder ≤ beNat v.toList := by
    rw [← order_value, ← Nat.not_lt, beNat_lt_iff (by simp)]
    rfl
  unfold reduce
  split
  · rename_i hge
    have hdone := rounds_subtracted (Nat.le_refl 32) (start_subtracted v)
    have hvalue := hdone.value
    simp only [List.drop_zero, order_value] at hvalue
    have hflag := hdone.flag
    have hbound := scalar_lt (Subtraction.rounds 32 (Nat.le_refl 32)
      { scalar := v, borrow := 0 }).scalar
    have horder := hcompare.1 hge
    have htwice := order_bounds.2
    rw [Nat.mod_eq_sub_mod horder, Nat.mod_eq_of_lt (by omega)]
    omega
  · rename_i hlt
    rw [hcompare, Nat.not_le] at hlt
    exact (Nat.mod_eq_of_lt hlt).symm

theorem reduce_zero (v : Scalar) : beNat (reduce v).toList = 0 ↔
    beNat v.toList = 0 ∨ beNat v.toList = groupOrder := by
  have hbound := scalar_lt v
  have horder := order_bounds
  rw [reduce_value]
  by_cases hlt : beNat v.toList < groupOrder
  · rw [Nat.mod_eq_of_lt hlt]
    omega
  · rw [Nat.mod_eq_sub_mod (by omega), Nat.mod_eq_of_lt (by omega)]
    omega

theorem derive_secret_reduces
    (hfrom : ∀ s : Scalar, (lib.secretFromSlice s).isSome = true ↔
      0 < beNat s.toList ∧ beNat s.toList < groupOrder) :
    (∀ v : Scalar, (reduce v).toList = beBytes 32 (beNat v.toList % groupOrder) ∧
      beNat (reduce v).toList < groupOrder) ∧
    ∀ psk mac v, lib.newFromSlice psk = .ok mac →
      lib.finalize (lib.update mac (ascii "ecdsa-psk-derive")) = v →
      (deriveSecret lib psk = .error "derived invalid P-256 secret" ↔
        beNat v.toList = 0 ∨ beNat v.toList = groupOrder) ∧
      ∀ secret, deriveSecret lib psk = .ok secret ↔
        lib.secretFromSlice (reduce v) = some secret := by
  have hsmall (v : Scalar) : beNat (reduce v).toList < groupOrder := by
    rw [reduce_value]
    exact Nat.mod_lt _ order_bounds.1
  refine ⟨fun v => ⟨?_, hsmall v⟩, fun psk mac v hmac hv => ?_⟩
  · have hbytes := beBytes_beNat (reduce v).toList
    rw [reduce_value, Vector.length_toList] at hbytes
    exact hbytes.symm
  · have hsome := hfrom (reduce v)
    unfold deriveSecret
    rw [hmac]
    simp only [bind, Except.bind, hv]
    rw [← reduce_zero]
    cases hsecret : lib.secretFromSlice (reduce v) with
    | none =>
      rw [hsecret] at hsome
      have hnot : ¬ 0 < beNat (reduce v).toList := fun h => by simp [h, hsmall v] at hsome
      exact ⟨⟨fun _ => by omega, fun _ => rfl⟩, by simp⟩
    | some key =>
      rw [hsecret] at hsome
      have hlarge := (hsome.1 rfl).1
      exact ⟨⟨fun h => by simp at h, fun h => by omega⟩, by simp⟩

/-- The hash of one key, and the range check of `SecretKey`. -/
def sample : Library Unit Scalar where
  newFromSlice _ := .ok ()
  update _ _ := ()
  finalize _ := ⟨#[0xc5, 0x46, 0x65, 0x9f, 0x1e, 0xd7, 0x25, 0xf1, 0x01, 0x56, 0xc5, 0x8d, 0x08, 0xd1,
    0x2e, 0x96, 0xb8, 0xf9, 0x34, 0x4e, 0x67, 0x91, 0xf7, 0x68, 0xb8, 0x62, 0x4c,
    0x2e, 0x9b, 0x85, 0xf8, 0x3e], rfl⟩
  secretFromSlice s :=
    if 0 < beNat s.toList ∧ beNat s.toList < groupOrder then some s else none

theorem derive_secret_sample :
    deriveSecret sample (ascii "proxylane") = .ok (sample.finalize ()) :=
  (((derive_secret_reduces sample (fun s => by simp [sample])).2
    (ascii "proxylane") () (sample.finalize ()) rfl rfl).2 _).2 (by decide)

end DeriveSecret

end ProxyLane.Hook
