import ProxyLane.App.ProfileShare

/-!
# The bits of a profile code

The loops over bits are the two directions of the six-bit form: the encoder
writes the sextets of the bytes, and a payload is taken if it is the text of
some bytes.
-/

namespace ProxyLane.App.ProfileShare

open ProxyLane.Foundation

/-- `bits` with one more byte. -/
def push (bits : Nat) (ch : UInt8) : Nat := (bits * 256 + ch.toNat) % 2 ^ 32

theorem push_eq (bits : Nat) (ch : UInt8) :
    ((bits <<< 8) ||| ch.toNat) % 2 ^ 32 = push bits ch := by
  rw [push, shift_or _ _ ch.toNat_lt]
  simp only [Nat.reducePow]

theorem shiftRight_and (bits count : Nat) :
    (bits >>> count) &&& 63 = bits / 2 ^ count % 64 := by
  rw [and_sixtyThree, Nat.shiftRight_eq_div_pow]

theorem shiftLeft_and (bits count : Nat) :
    (bits <<< count) &&& 63 = bits * 2 ^ count % 64 := by
  rw [and_sixtyThree, Nat.shiftLeft_eq]

theorem base64UrlFrom_first (bits : Nat) (a : UInt8) (rest : Bytes) :
    base64UrlFrom bits 0 (a :: rest) =
      Alphabet.url.char (a.toNat / 4) :: base64UrlFrom (push bits a) 2 rest := by
  have hvalue : push bits a / 2 ^ 2 % 64 = a.toNat / 4 := by
    have ha := a.toNat_lt
    unfold push
    omega
  rw [← hvalue, ← shiftRight_and, ← push_eq]
  rfl

theorem base64UrlFrom_second (bits : Nat) (a b : UInt8) (rest : Bytes) :
    base64UrlFrom (push bits a) 2 (b :: rest) =
      Alphabet.url.char (a.toNat % 4 * 16 + b.toNat / 16) ::
        base64UrlFrom (push (push bits a) b) 4 rest := by
  have hvalue : push (push bits a) b / 2 ^ 4 % 64 =
      a.toNat % 4 * 16 + b.toNat / 16 := by
    have ha := a.toNat_lt
    have hb := b.toNat_lt
    unfold push
    omega
  rw [← hvalue, ← shiftRight_and, ← push_eq (push bits a)]
  rfl

theorem base64UrlFrom_third (bits : Nat) (b c : UInt8) (rest : Bytes) :
    base64UrlFrom (push bits b) 4 (c :: rest) =
      Alphabet.url.char (b.toNat % 16 * 4 + c.toNat / 64) ::
        Alphabet.url.char (c.toNat % 64) ::
          base64UrlFrom (push (push bits b) c) 0 rest := by
  have hthird : push (push bits b) c / 2 ^ 6 % 64 =
      b.toNat % 16 * 4 + c.toNat / 64 := by
    have hb := b.toNat_lt
    have hc := c.toNat_lt
    unfold push
    omega
  have hfourth : push (push bits b) c / 2 ^ 0 % 64 = c.toNat % 64 := by
    unfold push
    omega
  rw [← hthird, ← hfourth, ← shiftRight_and, ← shiftRight_and,
    ← push_eq (push bits b)]
  rfl

theorem base64UrlFrom_eq (bits : Nat) (input : Bytes) :
    base64UrlFrom bits 0 input = Alphabet.url.encode input := by
  induction input using sextets.induct generalizing bits with
  | case1 a b c rest ih =>
    rw [base64UrlFrom_first, base64UrlFrom_second, base64UrlFrom_third, ih]
    rfl
  | case2 a b =>
    have hlast : push (push bits a) b * 4 % 64 = b.toNat % 16 * 4 := by
      unfold push
      omega
    rw [base64UrlFrom_first, base64UrlFrom_second]
    simp [base64UrlFrom, shiftLeft_and, hlast, Alphabet.encode, sextets]
  | case3 a =>
    have hlast : push bits a * 16 % 64 = a.toNat % 4 * 16 := by
      unfold push
      omega
    rw [base64UrlFrom_first]
    simp [base64UrlFrom, shiftLeft_and, hlast, Alphabet.encode, sextets]
  | case4 => rfl

theorem base64Url_eq (input : Bytes) :
    base64Url input = Alphabet.url.encode input :=
  base64UrlFrom_eq 0 input

theorem digit_eq (ch : UInt8) : digit ch = Alphabet.url.value ch := by
  have hall : ∀ n < 256, digit (UInt8.ofNat n) =
      Alphabet.url.value (UInt8.ofNat n) := by decide +kernel
  have hch := hall ch.toNat ch.toNat_lt
  rwa [UInt8.ofNat_toNat] at hch

/-- `bits` with one more digit. -/
def pull (bits n : Nat) : Nat := (bits * 64 + n) % 2 ^ 32

theorem pull_eq {n : Nat} (bits : Nat) (h : n < 64) :
    ((bits <<< 6) ||| n) % 2 ^ 32 = pull bits n := by
  rw [pull, shift_or _ _ (by omega)]
  simp only [Nat.reducePow]

theorem digit_lt {ch : UInt8} {n : Nat} (h : digit ch = some n) : n < 64 := by
  rw [digit_eq] at h
  exact (Alphabet.char_value h).1

theorem shiftRight_byte (bits count : Nat) :
    UInt8.ofNat ((bits >>> count) &&& 255) = UInt8.ofNat (bits / 2 ^ count) := by
  apply ofNat_eq_of_mod
  rw [Nat.shiftRight_eq_div_pow, UInt8.toNat_ofNat',
    show (255 : Nat) = 2 ^ 8 - 1 from rfl, Nat.and_two_pow_sub_one_eq_mod]
  omega

theorem decodeFrom_first {c : UInt8} {s : Nat} (bits : Nat) (rest : Bytes)
    (h : digit c = some s) :
    decodeFrom bits 0 (c :: rest) = decodeFrom (pull bits s) 6 rest := by
  simp only [decodeFrom, h, pull_eq bits (digit_lt h)]
  rfl

theorem decodeFrom_next {c : UInt8} {s : Nat} (bits count : Nat) (rest : Bytes)
    (h : digit c = some s) (hcount : 2 ≤ count) :
    decodeFrom bits count (c :: rest) =
      (decodeFrom (pull bits s) (count - 2) rest).map fun (json, final) =>
        (UInt8.ofNat (pull bits s / 2 ^ (count - 2)) :: json, final) := by
  have hle : 8 ≤ count + 6 := by omega
  have hsub : count + 6 - 8 = count - 2 := by omega
  simp only [decodeFrom, h, pull_eq bits (digit_lt h), hle, if_true, hsub,
    shiftRight_byte]

theorem byte_first {s t : Nat} (bits : Nat) :
    UInt8.ofNat (pull (pull bits s) t / 2 ^ 4) = UInt8.ofNat (s * 4 + t / 16) := by
  apply ofNat_eq_of_mod
  unfold pull
  rw [UInt8.toNat_ofNat']
  omega

theorem byte_second {t u : Nat} (bits : Nat) :
    UInt8.ofNat (pull (pull bits t) u / 2 ^ 2) = UInt8.ofNat (t * 16 + u / 4) := by
  apply ofNat_eq_of_mod
  unfold pull
  rw [UInt8.toNat_ofNat']
  omega

theorem byte_third {u v : Nat} (bits : Nat) :
    UInt8.ofNat (pull (pull bits u) v / 2 ^ 0) = UInt8.ofNat (u * 64 + v) := by
  apply ofNat_eq_of_mod
  unfold pull
  rw [UInt8.toNat_ofNat']
  omega

theorem decodeFrom_group {c d e f : UInt8} {s t u v : Nat} (bits : Nat)
    (rest : Bytes) (hc : digit c = some s) (hd : digit d = some t)
    (he : digit e = some u) (hf : digit f = some v) :
    decodeFrom bits 0 (c :: d :: e :: f :: rest) =
      (decodeFrom (pull (pull (pull (pull bits s) t) u) v) 0 rest).map
        fun (json, final) =>
          (UInt8.ofNat (s * 4 + t / 16) :: UInt8.ofNat (t * 16 + u / 4) ::
            UInt8.ofNat (u * 64 + v) :: json, final) := by
  rw [decodeFrom_first bits _ hc, decodeFrom_next _ 6 _ hd (by omega),
    decodeFrom_next _ 4 _ he (by omega), decodeFrom_next _ 2 _ hf (by omega),
    Option.map_map, Option.map_map, byte_first, byte_second, byte_third]
  rfl

def unpadded : Bytes × Nat × Nat → Option Bytes
  | (json, bits, count) =>
    if count ≠ 0 ∧ bits &&& (1 <<< count - 1) ≠ 0 then none else some json

theorem decodeFrom_none {c : UInt8} (bits count : Nat) {text : Bytes}
    (hc : digit c = none) (hmem : c ∈ text) : decodeFrom bits count text = none := by
  induction text generalizing bits count with
  | nil => cases hmem
  | cons ch rest ih =>
    cases hch : digit ch with
    | none => simp [decodeFrom, hch]
    | some n =>
      have hrest : c ∈ rest := by
        cases hmem with
        | head => simp [hc] at hch
        | tail _ h => exact h
      simp [decodeFrom, hch, ih _ _ hrest]

theorem decode_none {c : UInt8} {text : Bytes} (hc : digit c = none)
    (hmem : c ∈ text) : Alphabet.url.decode text = none := by
  cases hvalues : text.mapM Alphabet.url.value with
  | none => simp [Alphabet.decode, hvalues]
  | some values =>
    obtain ⟨hlt, htext⟩ := Alphabet.of_mapM_value hvalues
    rw [← htext, List.mem_map] at hmem
    obtain ⟨s, hs, rfl⟩ := hmem
    rw [digit_eq, Alphabet.value_char (hlt s hs)] at hc
    cases hc

theorem decode_group {c d e f : UInt8} {s t u v : Nat} {rest : Bytes}
    (hc : digit c = some s) (hd : digit d = some t) (he : digit e = some u)
    (hf : digit f = some v) :
    Alphabet.url.decode (c :: d :: e :: f :: rest) =
      (Alphabet.url.decode rest).map fun json =>
        UInt8.ofNat (s * 4 + t / 16) :: UInt8.ofNat (t * 16 + u / 4) ::
          UInt8.ofNat (u * 64 + v) :: json := by
  rw [digit_eq] at hc hd he hf
  simp only [Alphabet.decode, List.mapM_cons, hc, hd, he, hf]
  cases rest.mapM Alphabet.url.value <;> simp [octets]

private theorem pull_mod_four (bits u : Nat) : pull bits u % 4 = u % 4 := by
  unfold pull
  omega

theorem pull_mod_sixteen (bits t : Nat) : pull bits t % 16 = t % 16 := by
  unfold pull
  omega

theorem decodeFrom_three {c d e : UInt8} {s t u : Nat} (bits : Nat)
    (hc : digit c = some s) (hd : digit d = some t) (he : digit e = some u) :
    (decodeFrom bits 0 [c, d, e]).bind unpadded = Alphabet.url.decode [c, d, e] := by
  have hbits : pull (pull (pull bits s) t) u &&& 3 = u % 4 := by
    rw [and_three, pull_mod_four]
  rw [decodeFrom_first bits _ hc, decodeFrom_next _ 6 _ hd (by omega),
    decodeFrom_next _ 4 _ he (by omega), byte_first, byte_second]
  rw [digit_eq] at hc hd he
  by_cases hzero : u % 4 = 0 <;>
    simp [decodeFrom, unpadded, hbits, Alphabet.decode, List.mapM_cons, hc, hd, he,
      octets, hzero]

theorem decodeFrom_two {c d : UInt8} {s t : Nat} (bits : Nat)
    (hc : digit c = some s) (hd : digit d = some t) :
    (decodeFrom bits 0 [c, d]).bind unpadded = Alphabet.url.decode [c, d] := by
  have hbits : pull (pull bits s) t &&& 15 = t % 16 := by
    rw [and_fifteen, pull_mod_sixteen]
  rw [decodeFrom_first bits _ hc, decodeFrom_next _ 6 _ hd (by omega), byte_first]
  rw [digit_eq] at hc hd
  by_cases hzero : t % 16 = 0 <;>
    simp [decodeFrom, unpadded, hbits, Alphabet.decode, List.mapM_cons, hc, hd,
      octets, hzero]

theorem bind_unpadded_group (a b c : UInt8) (found : Option (Bytes × Nat × Nat)) :
    (found.map fun (json, final) => (a :: b :: c :: json, final)).bind unpadded =
      (found.bind unpadded).map fun json => a :: b :: c :: json := by
  rcases found with _ | ⟨json, bits, count⟩
  · rfl
  · by_cases hzero : count ≠ 0 ∧ bits &&& (1 <<< count - 1) ≠ 0 <;>
      simp [unpadded, hzero]

theorem exists_digits {text : Bytes} (h : ∀ c ∈ text, digit c ≠ none) :
    ∀ c ∈ text, ∃ n, digit c = some n :=
  fun c hc => Option.ne_none_iff_exists'.mp (h c hc)

/-- The loop, with the look at the bits behind it, decodes the form without
padding. -/
theorem decodeFrom_eq {text : Bytes} (bits : Nat) (h : text.length % 4 ≠ 1) :
    (decodeFrom bits 0 text).bind unpadded = Alphabet.url.decode text := by
  by_cases hdigits : ∃ c ∈ text, digit c = none
  case pos =>
    obtain ⟨c, hmem, hc⟩ := hdigits
    rw [decodeFrom_none bits 0 hc hmem, decode_none hc hmem, Option.bind_none]
  case neg =>
    simp only [not_exists, not_and] at hdigits
    have hall := exists_digits hdigits
    clear hdigits
    match text, h, hall with
    | [], _, _ => simp [decodeFrom, unpadded, Alphabet.decode, octets]
    | [_], h, _ => simp at h
    | [c, d], _, hall =>
      simp only [List.forall_mem_cons] at hall
      obtain ⟨⟨s, hc⟩, ⟨t, hd⟩, -⟩ := hall
      exact decodeFrom_two bits hc hd
    | [c, d, e], _, hall =>
      simp only [List.forall_mem_cons] at hall
      obtain ⟨⟨s, hc⟩, ⟨t, hd⟩, ⟨u, he⟩, -⟩ := hall
      exact decodeFrom_three bits hc hd he
    | c :: d :: e :: f :: rest, h, hall =>
      simp only [List.forall_mem_cons] at hall
      obtain ⟨⟨s, hc⟩, ⟨t, hd⟩, ⟨u, he⟩, ⟨v, hf⟩, hrest⟩ := hall
      have hlength : rest.length % 4 ≠ 1 := by
        simp only [List.length_cons] at h
        omega
      rw [decodeFrom_group bits rest hc hd he hf, decode_group hc hd he hf,
        bind_unpadded_group, decodeFrom_eq _ hlength]
termination_by text.length

theorem payload_eq_ok {encoded json : Bytes} :
    payload encoded = .ok json ↔
      encoded ≠ [] ∧ Alphabet.url.decode encoded = some json ∧
        json.length ≤ maxJsonBytes := by
  unfold payload
  split
  case isTrue hshape =>
    simp only [fail, reduceCtorEq, false_iff, not_and]
    intro hne hjson
    have hmod := sextetCount_mod json.length
    rw [← Alphabet.encode_length (a := Alphabet.url), Alphabet.encode_decode hjson]
      at hmod
    simp_all
  case isFalse hshape =>
    simp only [Bool.or_eq_true, List.isEmpty_iff, decide_eq_true_eq, not_or] at hshape
    obtain ⟨hne, hmod⟩ := hshape
    rw [← decodeFrom_eq 0 hmod]
    cases decodeFrom 0 0 encoded with
    | none => simp [fail]
    | some found =>
      obtain ⟨bytes, bits, count⟩ := found
      by_cases hzero : count ≠ 0 ∧ bits &&& (1 <<< count - 1) ≠ 0
      · simp [hzero, unpadded, fail]
      · have hun : unpadded (bytes, bits, count) = some bytes := if_neg hzero
        simp only [Option.bind_some, hun, Option.some.injEq]
        by_cases hmax : maxJsonBytes < bytes.length
        · simp only [hzero, hmax, or_true, if_true, fail, reduceCtorEq, false_iff,
            not_and, not_le]
          rintro - rfl
          exact hmax
        · simp only [hzero, hmax, or_self, if_false, Except.ok.injEq]
          constructor
          · rintro rfl
            exact ⟨hne, rfl, by omega⟩
          · exact fun h => h.2.1

end ProxyLane.App.ProfileShare
