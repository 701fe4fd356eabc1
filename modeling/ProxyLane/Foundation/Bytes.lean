import Mathlib.Data.UInt

/-!
# Byte strings

Narrow C strings and octet strings are lists of bytes; a C string is
represented by the bytes before its terminating NUL.  Case folding is the
ASCII folding of the C locale.  Fixed-width integers on the wire are
big-endian.
-/

namespace ProxyLane.Foundation

abbrev Bytes := List UInt8

def ascii (text : String) : Bytes :=
  text.toList.map fun c => UInt8.ofNat c.toNat

def toLowerAscii (byte : UInt8) : UInt8 :=
  if 65 ≤ byte ∧ byte ≤ 90 then byte + 32 else byte

def foldCase (text : Bytes) : Bytes := text.map toLowerAscii

@[simp] theorem foldCase_length (text : Bytes) :
    (foldCase text).length = text.length := by
  simp [foldCase]

/-- Equality up to ASCII case, the `== 0` test of `_stricmp`. -/
def sameText (left right : Bytes) : Bool := foldCase left == foldCase right

@[simp] theorem sameText_iff {left right : Bytes} :
    sameText left right = true ↔ foldCase left = foldCase right := by
  simp [sameText]

def beNat (bytes : Bytes) : Nat :=
  bytes.foldl (fun value byte => value * 256 + byte.toNat) 0

/-- The `width` low octets of a number, most significant first. -/
def beBytes : Nat → Nat → Bytes
  | 0, _ => []
  | width + 1, value => beBytes width (value / 256) ++ [UInt8.ofNat value]

@[simp] theorem beBytes_length (width value : Nat) :
    (beBytes width value).length = width := by
  induction width generalizing value with
  | zero => rfl
  | succ width ih => simp [beBytes, ih]

@[simp] theorem beNat_append_singleton (bytes : Bytes) (byte : UInt8) :
    beNat (bytes ++ [byte]) = beNat bytes * 256 + byte.toNat := by
  simp [beNat, List.foldl_append]

theorem beNat_beBytes (width value : Nat) :
    beNat (beBytes width value) = value % 256 ^ width := by
  induction width generalizing value with
  | zero => simp [beBytes, beNat, Nat.mod_one]
  | succ width ih =>
    rw [beBytes, beNat_append_singleton, ih, Nat.pow_succ']
    rw [Nat.mod_mul, UInt8.toNat_ofNat']
    omega

/-- `chunks`, with as many rounds as there are bytes. -/
def chunksFrom (n : Nat) : Nat → Bytes → List Bytes
  | 0, _ => []
  | _, [] => []
  | fuel + 1, bytes => bytes.take n :: chunksFrom n fuel (bytes.drop n)

def chunks (n : Nat) (bytes : Bytes) : List Bytes :=
  chunksFrom n bytes.length bytes

private theorem chunksFrom_flatten {n : Nat} (hn : 0 < n) {fuel : Nat}
    {bytes : Bytes} (h : bytes.length ≤ fuel) :
    (chunksFrom n fuel bytes).flatten = bytes := by
  induction fuel generalizing bytes with
  | zero =>
    rw [List.length_eq_zero_iff.1 (Nat.le_zero.1 h)]
    rfl
  | succ fuel ih =>
    cases bytes with
    | nil => rfl
    | cons b rest =>
      rw [chunksFrom, List.flatten_cons, ih]
      · exact List.take_append_drop n (b :: rest)
      · simp only [List.length_drop, List.length_cons] at h ⊢
        omega
      · simp

theorem ne_nil_of_mem_chunks {n : Nat} (hn : 0 < n) {bytes chunk : Bytes}
    (h : chunk ∈ chunks n bytes) : chunk ≠ [] := by
  unfold chunks at h
  generalize bytes.length = fuel at h
  induction fuel, bytes using chunksFrom.induct n with
  | case1 bytes => simp [chunksFrom] at h
  | case2 fuel => simp [chunksFrom] at h
  | case3 fuel bytes hbytes ih =>
    simp only [chunksFrom, List.mem_cons] at h
    obtain rfl | h := h
    · simpa [Nat.pos_iff_ne_zero.mp hn] using hbytes
    · exact ih h

theorem chunks_flatten {n : Nat} (hn : 0 < n) (bytes : Bytes) :
    (chunks n bytes).flatten = bytes :=
  chunksFrom_flatten hn (Nat.le_refl _)

end ProxyLane.Foundation
