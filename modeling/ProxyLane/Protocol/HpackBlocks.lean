import Mathlib.Data.List.Range
import Mathlib.Tactic.Ring
import ProxyLane.Protocol.Http2

/-!
# Header blocks that pass the structural check

The check in front of the HPACK decoder moves a position over a block.  It
passes exactly the blocks that are complete representations one after another,
the size updates first, and its position never leaves the block.
-/

namespace ProxyLane.Protocol

open ProxyLane.Foundation

namespace HpackGuard

/-! ## Representations -/

inductive Continued : Bytes → Nat → Prop where
  | last (octet : UInt8) (final : octet &&& 128 = 0) :
      Continued [octet] (octet &&& 127).toNat
  | more (octet : UInt8) {octets : Bytes} {value : Nat}
      (going : octet &&& 128 ≠ 0) (rest : Continued octets value) :
      Continued (octet :: octets) ((octet &&& 127).toNat + 128 * value)

/-- An integer with a prefix of `bits` bits, in at most five octets. -/
inductive EncodedInt (bits : Nat) : Bytes → Nat → Prop where
  | short (first : UInt8) (small : first.toNat % 2 ^ bits < 2 ^ bits - 1) :
      EncodedInt bits [first] (first.toNat % 2 ^ bits)
  | long (first : UInt8) {octets : Bytes} {value : Nat}
      (full : first.toNat % 2 ^ bits = 2 ^ bits - 1)
      (rest : Continued octets value) (permitted : octets.length ≤ 4) :
      EncodedInt bits (first :: octets) (2 ^ bits - 1 + value)

def EncodedString (bytes : Bytes) : Prop :=
  ∃ length octets, bytes = length ++ octets ∧ EncodedInt 7 length octets.length

def Starts (p : UInt8 → Bool) (bytes : Bytes) : Prop :=
  ∃ first rest, bytes = first :: rest ∧ p first = true

def SizeUpdate (bytes : Bytes) : Prop :=
  Starts (fun first => first &&& 0xe0 == 0x20) bytes ∧ ∃ size, EncodedInt 5 bytes size

inductive Literal where
  | incremental
  | withoutIndexing
  | neverIndexed

def Literal.starts : Literal → UInt8 → Bool
  | .incremental, first => first &&& 0xc0 == 0x40
  | .withoutIndexing, first => first &&& 0xf0 == 0
  | .neverIndexed, first => first &&& 0xf0 == 0x10

def Literal.bits : Literal → Nat
  | .incremental => 6
  | .withoutIndexing => 4
  | .neverIndexed => 4

inductive Field : Bytes → Prop where
  | indexed {bytes : Bytes} {index : Nat}
      (starts : Starts (fun first => first &&& 128 == 128) bytes)
      (number : EncodedInt 7 bytes index) : Field bytes
  | named (form : Literal) {name value : Bytes} {index : Nat}
      (starts : Starts form.starts name) (number : EncodedInt form.bits name index)
      (known : index ≠ 0) (text : EncodedString value) : Field (name ++ value)
  | literal (form : Literal) {zero name value : Bytes}
      (starts : Starts form.starts zero) (number : EncodedInt form.bits zero 0)
      (key : EncodedString name) (text : EncodedString value) :
      Field (zero ++ name ++ value)

def WellFormed (input : Bytes) : Prop :=
  ∃ updates fields : List Bytes, input = updates.flatten ++ fields.flatten ∧
    (∀ bytes ∈ updates, SizeUpdate bytes) ∧ ∀ bytes ∈ fields, Field bytes

/-! ## What the readers take -/

theorem forall_octet {p : UInt8 → Prop} (h : ∀ n < 256, p (UInt8.ofNat n))
    (octet : UInt8) : p octet := by
  have hoctet := h octet.toNat octet.toNat_lt
  rwa [UInt8.ofNat_toNat] at hoctet

theorem Continued.ne_nil {octets : Bytes} {value : Nat}
    (h : Continued octets value) : octets ≠ [] := by
  cases h <;> simp

variable {rest : Bytes}

theorem continuation_iff {k s value v : Nat} {input : Bytes} :
    continuation (List.range' s k 7) value input = .ok (v, rest) ↔
      ∃ octets w, input = octets ++ rest ∧ Continued octets w ∧
        octets.length ≤ k ∧ v = value + w * 2 ^ s := by
  induction k generalizing s value input with
  | zero =>
    simp only [List.range'_zero, continuation, reduceCtorEq, false_iff]
    rintro ⟨octets, w, -, hcontinued, hlength, -⟩
    exact hcontinued.ne_nil (by simpa using hlength)
  | succ k ih =>
    rw [List.range'_succ]
    cases input with
    | nil =>
      simp only [continuation, reduceCtorEq, false_iff]
      rintro ⟨octets, w, hnil, hcontinued, -, -⟩
      exact hcontinued.ne_nil (by simp_all)
    | cons next tail =>
      simp only [continuation]
      by_cases hfinal : next &&& 128 = 0
      · rw [if_pos hfinal]
        constructor
        · intro h
          simp only [Except.ok.injEq, Prod.mk.injEq] at h
          exact ⟨[next], _, by simp [h.2], .last next hfinal, by simp, h.1.symm⟩
        · rintro ⟨octets, w, hinput, hcontinued, -, rfl⟩
          cases hcontinued with
          | last octet final => simp_all
          | more octet going rest =>
            simp only [List.cons_append, List.cons.injEq] at hinput
            exact absurd (hinput.1 ▸ hfinal) going
      · rw [if_neg hfinal, ih]
        constructor
        · rintro ⟨octets, w, rfl, hcontinued, hlength, rfl⟩
          refine ⟨next :: octets, _, by simp, .more next hfinal hcontinued,
            by simpa using hlength, ?_⟩
          rw [Nat.pow_add]
          ring
        · rintro ⟨octets, w, hinput, hcontinued, hlength, rfl⟩
          cases hcontinued with
          | last octet final =>
            simp only [List.cons_append, List.cons.injEq] at hinput
            exact absurd final (hinput.1 ▸ hfinal)
          | @more octet octets value going rest =>
            simp only [List.cons_append, List.cons.injEq] at hinput
            obtain ⟨rfl, rfl⟩ := hinput
            refine ⟨octets, value, rfl, rest, by simpa using hlength, ?_⟩
            rw [Nat.pow_add]
            ring

theorem integer_iff {bits v : Nat} {input : Bytes} :
    integer bits input = .ok (v, rest) ↔
      ∃ bytes, input = bytes ++ rest ∧ EncodedInt bits bytes v := by
  cases input with
  | nil =>
    simp only [integer, reduceCtorEq, false_iff]
    rintro ⟨bytes, hnil, hint⟩
    cases hint <;> simp_all
  | cons first tail =>
    simp only [integer]
    have hmod := Nat.mod_lt first.toNat (Nat.two_pow_pos bits)
    have hrange : [0, 7, 14, 21] = List.range' 0 4 7 := rfl
    split
    · rename_i hsmall
      constructor
      · intro h
        simp only [Except.ok.injEq, Prod.mk.injEq] at h
        exact ⟨[first], by simp [h.2], h.1 ▸ .short first hsmall⟩
      · rintro ⟨bytes, hinput, hint⟩
        cases hint with
        | short other small => simp_all
        | long other full rest permitted =>
          simp only [List.cons_append, List.cons.injEq] at hinput
          rw [← hinput.1] at full
          omega
    · rename_i hfull
      rw [hrange, continuation_iff]
      constructor
      · rintro ⟨octets, w, rfl, hcontinued, hlength, rfl⟩
        refine ⟨first :: octets, by simp, ?_⟩
        have heq : first.toNat % 2 ^ bits = 2 ^ bits - 1 := by omega
        rw [heq]
        simpa using EncodedInt.long first heq hcontinued hlength
      · rintro ⟨bytes, hinput, hint⟩
        cases hint with
        | short other small =>
          simp only [List.cons_append, List.cons.injEq] at hinput
          rw [← hinput.1] at small
          exact absurd small hfull
        | @long other octets w full rest permitted =>
          simp only [List.cons_append, List.cons.injEq] at hinput
          obtain ⟨rfl, rfl⟩ := hinput
          exact ⟨octets, w, rfl, rest, permitted, by simp [full]⟩

theorem string_iff {input : Bytes} :
    string input = .ok rest ↔ ∃ bytes, input = bytes ++ rest ∧ EncodedString bytes := by
  constructor
  · intro h
    simp only [string] at h
    cases hint : integer 7 input with
    | error e => simp [hint] at h
    | ok result =>
      obtain ⟨length, tail⟩ := result
      rw [hint] at h
      obtain ⟨bytes, rfl, hencoded⟩ := integer_iff.1 hint
      simp only at h
      split at h
      · simp at h
      · rename_i hlength
        simp only [Except.ok.injEq] at h
        refine ⟨bytes ++ tail.take length, ?_, bytes, tail.take length, rfl, ?_⟩
        · rw [← h, List.append_assoc, List.take_append_drop]
        · rwa [List.length_take, Nat.min_eq_left (by omega)]
  · rintro ⟨bytes, rfl, length, octets, rfl, hint⟩
    have hread : integer 7 (length ++ octets ++ rest) =
        .ok (octets.length, octets ++ rest) :=
      integer_iff.2 ⟨length, by simp, hint⟩
    simp only [string, hread]
    simp

/-! ## Blocks -/

variable {bytes tail : Bytes} {first : UInt8}

theorem starts_cons {p : UInt8 → Bool}
    (h : first :: tail = bytes ++ rest) (hne : bytes ≠ []) :
    Starts p bytes ↔ p first = true := by
  cases bytes with
  | nil => exact absurd rfl hne
  | cons head bytes =>
    simp only [List.cons_append, List.cons.injEq] at h
    simp [Starts, h.1]

theorem EncodedInt.ne_nil {bits value : Nat}
    (h : EncodedInt bits bytes value) : bytes ≠ [] := by
  cases h <;> simp

structure FirstOctet (first : UInt8) : Prop where
  indexed : (first &&& 128 == 128) = !(first &&& 128 == 0)
  update : (first &&& 0xe0 == 0x20) = true → first &&& 128 = 0
  literal : (first &&& 128 = 0 ∧ (first &&& 0xe0 == 0x20) = false) ↔
    ∃ form : Literal, form.starts first = true
  bits : ∀ form : Literal, form.starts first = true →
    form.bits = if first &&& 64 ≠ 0 then 6 else 4

theorem firstOctet (first : UInt8) : FirstOctet first := by
  have hform : ∀ p : Literal → Prop, (∃ form, p form) ↔
      p .incremental ∨ p .withoutIndexing ∨ p .neverIndexed := by
    intro p
    constructor
    · rintro ⟨form, h⟩
      cases form <;> simp_all
    · rintro (h | h | h) <;> exact ⟨_, h⟩
  have hall : ∀ p : Literal → Prop, (∀ form, p form) ↔
      p .incremental ∧ p .withoutIndexing ∧ p .neverIndexed := by
    intro p
    exact ⟨fun h => ⟨h _, h _, h _⟩, fun h form => by cases form <;> simp_all⟩
  constructor
  · revert first
    apply forall_octet
    decide +kernel
  · revert first
    apply forall_octet
    decide +kernel
  · rw [hform]
    revert first
    apply forall_octet
    decide +kernel
  · rw [hall]
    revert first
    apply forall_octet
    decide +kernel

def Represents (seenHeader seenHeader' : Bool) (bytes : Bytes) : Prop :=
  SizeUpdate bytes ∧ seenHeader = false ∧ seenHeader' = false ∨
    Field bytes ∧ seenHeader' = true

theorem map_ok_iff {α β : Type} {f : α → β} {x : Except String α} {b : β} :
    x.map f = .ok b ↔ ∃ a, x = .ok a ∧ f a = b := by
  cases x <;> simp [Except.map]

theorem field_octet (h : Field bytes) :
    Starts (fun first => first &&& 128 == 128) bytes ∨
      ∃ form : Literal, Starts form.starts bytes := by
  have hlonger : ∀ {p : UInt8 → Bool} {left : Bytes} (right : Bytes),
      Starts p left → Starts p (left ++ right) := by
    rintro p left right ⟨first, rest, rfl, hfirst⟩
    exact ⟨first, rest ++ right, rfl, hfirst⟩
  cases h with
  | indexed starts number => exact Or.inl starts
  | named form starts number known text => exact Or.inr ⟨form, hlonger _ starts⟩
  | literal form starts number key text =>
    exact Or.inr ⟨form, hlonger _ (hlonger _ starts)⟩

theorem field_ne_nil (h : Field bytes) : bytes ≠ [] := by
  rcases field_octet h with ⟨first, rest, rfl, -⟩ | ⟨_, first, rest, rfl, -⟩ <;> simp

theorem sizeUpdate_ne_nil (h : SizeUpdate bytes) : bytes ≠ [] := by
  obtain ⟨⟨first, rest, rfl, -⟩, -⟩ := h
  simp

variable {seenHeader seenHeader' : Bool}

theorem indexed_iff (hfirst : first &&& 128 ≠ 0) :
    (∃ bytes, first :: tail = bytes ++ rest ∧
        Represents seenHeader seenHeader' bytes) ↔
      seenHeader' = true ∧ ∃ index bytes, first :: tail = bytes ++ rest ∧
        EncodedInt 7 bytes index := by
  have hoctet := firstOctet first
  constructor
  · rintro ⟨bytes, hinput, ⟨⟨hstarts, -⟩, -, -⟩ | ⟨hfield, rfl⟩⟩
    · obtain ⟨head, more, rfl, hhead⟩ := hstarts
      simp only [List.cons_append, List.cons.injEq] at hinput
      exact absurd (hoctet.update (by rw [hinput.1]; exact hhead)) hfirst
    · have hnot : ∀ (form : Literal) (left : Bytes), left ≠ [] →
          (∃ right, bytes = left ++ right) → ¬ Starts form.starts left := by
        rintro form left hleft ⟨right, rfl⟩ hstarts
        rw [starts_cons (by rw [hinput, List.append_assoc]) hleft] at hstarts
        exact hfirst (hoctet.literal.2 ⟨form, hstarts⟩).1
      cases hfield with
      | indexed starts number => exact ⟨rfl, _, _, hinput, number⟩
      | named form starts number known text =>
        exact absurd starts (hnot form _ number.ne_nil ⟨_, rfl⟩)
      | literal form starts number key text =>
        exact absurd starts (hnot form _ number.ne_nil ⟨_, List.append_assoc ..⟩)
  · rintro ⟨rfl, index, bytes, hinput, hint⟩
    refine ⟨bytes, hinput, Or.inr ⟨.indexed ?_ hint, rfl⟩⟩
    rw [starts_cons hinput hint.ne_nil, hoctet.indexed]
    simpa using hfirst

theorem sizeUpdate_iff (hfirst : (first &&& 0xe0 == 0x20) = true) :
    (∃ bytes, first :: tail = bytes ++ rest ∧
        Represents seenHeader seenHeader' bytes) ↔
      (seenHeader = false ∧ seenHeader' = false) ∧ ∃ size bytes,
        first :: tail = bytes ++ rest ∧ EncodedInt 5 bytes size := by
  have hoctet := firstOctet first
  have hclear := hoctet.update hfirst
  constructor
  · rintro ⟨bytes, hinput, ⟨⟨hstarts, size, hint⟩, hseen⟩ | ⟨hfield, -⟩⟩
    · exact ⟨hseen, size, bytes, hinput, hint⟩
    · rcases field_octet hfield with hstarts | ⟨form, hstarts⟩
      · rw [starts_cons hinput (field_ne_nil hfield), hoctet.indexed] at hstarts
        simp [hclear] at hstarts
      · rw [starts_cons hinput (field_ne_nil hfield)] at hstarts
        have hliteral := (hoctet.literal.2 ⟨form, hstarts⟩).2
        rw [hfirst] at hliteral
        exact absurd hliteral (by decide)
  · rintro ⟨hseen, size, bytes, hinput, hint⟩
    refine ⟨bytes, hinput, Or.inl ⟨⟨?_, size, hint⟩, hseen⟩⟩
    rwa [starts_cons hinput hint.ne_nil]

theorem literal_iff {form : Literal} (hfirst : form.starts first = true) :
    (∃ bytes, first :: tail = bytes ++ rest ∧
        Represents seenHeader seenHeader' bytes) ↔
      seenHeader' = true ∧ ∃ index bytes after, first :: tail = bytes ++ after ∧
        EncodedInt form.bits bytes index ∧
        ∃ name value, after = name ++ (value ++ rest) ∧ EncodedString value ∧
          if index = 0 then EncodedString name else name = [] := by
  have hoctet := firstOctet first
  obtain ⟨hclear, hupdate⟩ := hoctet.literal.2 ⟨form, hfirst⟩
  have hbits : ∀ (other : Literal) (left right : Bytes), left ≠ [] →
      first :: tail = left ++ right → Starts other.starts left →
      other.bits = form.bits := by
    intro other left right hleft heq hstarts
    rw [starts_cons heq hleft] at hstarts
    rw [hoctet.bits other hstarts, hoctet.bits form hfirst]
  constructor
  · rintro ⟨bytes, hinput, ⟨⟨hstarts, -⟩, -, -⟩ | ⟨hfield, rfl⟩⟩
    · obtain ⟨head, more, rfl, hhead⟩ := hstarts
      simp only [List.cons_append, List.cons.injEq] at hinput
      have hhead : (head &&& 0xe0 == 0x20) = true := hhead
      rw [← hinput.1, hupdate] at hhead
      exact absurd hhead (by decide)
    · cases hfield with
      | indexed starts number =>
        rw [starts_cons hinput number.ne_nil, hoctet.indexed] at starts
        simp [hclear] at starts
      | @named other name value index starts number known text =>
        rw [List.append_assoc] at hinput
        rw [hbits other _ _ number.ne_nil hinput starts] at number
        exact ⟨rfl, index, name, _, hinput, number, [], value, rfl, text,
          by simp [known]⟩
      | @literal other zero name value starts number key text =>
        simp only [List.append_assoc] at hinput
        rw [hbits other _ _ number.ne_nil hinput starts] at number
        exact ⟨rfl, 0, zero, _, hinput, number, name, value, rfl, text,
          by simpa using key⟩
  · rintro ⟨rfl, index, bytes, after, hinput, hint, name, value, rfl, htext, hname⟩
    have hstarts : Starts form.starts bytes := by
      rwa [starts_cons hinput hint.ne_nil]
    split at hname
    · rename_i hzero
      subst hzero
      exact ⟨bytes ++ name ++ value, by simpa using hinput,
        Or.inr ⟨.literal form hstarts hint hname htext, rfl⟩⟩
    · rename_i hknown
      subst hname
      exact ⟨bytes ++ value, by simpa using hinput,
        Or.inr ⟨.named form hstarts hint hknown htext, rfl⟩⟩

theorem representation_iff {input : Bytes} (hinput : input ≠ []) :
    representation seenHeader input = .ok (seenHeader', rest) ↔
      ∃ bytes, input = bytes ++ rest ∧ Represents seenHeader seenHeader' bytes := by
  cases input with
  | nil => exact absurd rfl hinput
  | cons first tail =>
    have hoctet := firstOctet first
    simp only [representation]
    by_cases hindexed : first &&& 128 = 0
    · rw [if_neg (by simpa using hindexed)]
      by_cases hupdate : first &&& 0xe0 = 0x20
      · rw [if_pos hupdate, sizeUpdate_iff (by simpa using hupdate)]
        cases seenHeader with
        | true => simp
        | false =>
          simp only [Bool.false_eq_true, if_false, map_ok_iff, Prod.exists,
            integer_iff, Prod.mk.injEq, true_and]
          constructor
          · rintro ⟨size, after, ⟨bytes, heq, hint⟩, hseen, rfl⟩
            exact ⟨hseen.symm, size, bytes, heq, hint⟩
          · rintro ⟨hseen, size, bytes, heq, hint⟩
            exact ⟨size, rest, ⟨bytes, heq, hint⟩, hseen.symm, rfl⟩
      · rw [if_neg hupdate]
        obtain ⟨form, hform⟩ := hoctet.literal.1 ⟨hindexed, by simpa using hupdate⟩
        rw [literal_iff hform, ← hoctet.bits form hform]
        constructor
        · intro h
          cases hint : integer form.bits (first :: tail) with
          | error e => simp [hint] at h
          | ok result =>
            obtain ⟨index, after⟩ := result
            obtain ⟨bytes, hbytes, hencoded⟩ := integer_iff.1 hint
            simp only [hint] at h
            cases hname : (if index = 0 then string after else .ok after) with
            | error e => simp [hname] at h
            | ok middle =>
              simp only [hname, map_ok_iff, Prod.mk.injEq, string_iff] at h
              obtain ⟨_, ⟨value, rfl, htext⟩, hseen, rfl⟩ := h
              refine ⟨hseen.symm, index, bytes, after, hbytes, hencoded, ?_⟩
              split at hname
              · obtain ⟨name, rfl, hkey⟩ := string_iff.1 hname
                exact ⟨name, value, rfl, htext, by simp [*]⟩
              · simp only [Except.ok.injEq] at hname
                exact ⟨[], value, by simp [hname], htext, by simp [*]⟩
        · rintro ⟨rfl, index, bytes, after, hbytes, hencoded, name, value, rfl,
            htext, hname⟩
          have hint := integer_iff.2 ⟨bytes, hbytes, hencoded⟩
          have hvalue : string (value ++ rest) = .ok rest :=
            string_iff.2 ⟨value, rfl, htext⟩
          have hmiddle : (if index = 0 then string (name ++ (value ++ rest))
              else .ok (name ++ (value ++ rest))) = .ok (value ++ rest) := by
            split at hname
            · rw [if_pos (by assumption), string_iff]
              exact ⟨name, rfl, hname⟩
            · rw [if_neg (by assumption), hname]
              rfl
          simp only [hint, hmiddle, hvalue, Except.map]
    · rw [if_pos hindexed, indexed_iff hindexed]
      simp only [map_ok_iff, Prod.exists, integer_iff, Prod.mk.injEq]
      constructor
      · rintro ⟨index, after, ⟨bytes, heq, hint⟩, hseen, rfl⟩
        exact ⟨hseen.symm, index, bytes, heq, hint⟩
      · rintro ⟨hseen, index, bytes, heq, hint⟩
        exact ⟨index, rest, ⟨bytes, heq, hint⟩, hseen.symm, rfl⟩

theorem representation_nonempty
    (h : Represents seenHeader seenHeader' bytes) : bytes ≠ [] := by
  rcases h with ⟨hupdate, -⟩ | ⟨hfield, -⟩
  · exact sizeUpdate_ne_nil hupdate
  · exact field_ne_nil hfield

def WellFormedAfter (seenHeader : Bool) (input : Bytes) : Prop :=
  ∃ updates fields : List Bytes, input = updates.flatten ++ fields.flatten ∧
    (∀ bytes ∈ updates, SizeUpdate bytes) ∧ (∀ bytes ∈ fields, Field bytes) ∧
    (seenHeader = true → updates = [])

theorem wellFormedAfter_iff {input : Bytes} (hinput : input ≠ []) :
    WellFormedAfter seenHeader input ↔ ∃ seenHeader' bytes rest,
      input = bytes ++ rest ∧ Represents seenHeader seenHeader' bytes ∧
        WellFormedAfter seenHeader' rest := by
  constructor
  · rintro ⟨updates, fields, rfl, hupdates, hfields, hseen⟩
    cases updates with
    | cons update updates =>
      simp only [List.mem_cons, forall_eq_or_imp] at hupdates
      have hfalse : seenHeader = false := by
        cases seenHeader <;> simp_all
      exact ⟨false, update, updates.flatten ++ fields.flatten, by simp,
        Or.inl ⟨hupdates.1, hfalse, rfl⟩, updates, fields, rfl, hupdates.2, hfields,
        by simp⟩
    | nil =>
      cases fields with
      | nil => simp at hinput
      | cons field fields =>
        simp only [List.mem_cons, forall_eq_or_imp] at hfields
        exact ⟨true, field, fields.flatten, by simp, Or.inr ⟨hfields.1, rfl⟩,
          [], fields, by simp, by simp, hfields.2, by simp⟩
  · rintro ⟨seenHeader', bytes, rest, rfl, hone, updates, fields, rfl, hupdates,
      hfields, hseen⟩
    rcases hone with ⟨hupdate, rfl, rfl⟩ | ⟨hfield, rfl⟩
    · exact ⟨bytes :: updates, fields, by simp, by simpa using ⟨hupdate, hupdates⟩,
        hfields, by simp⟩
    · obtain rfl := hseen rfl
      exact ⟨[], bytes :: fields, by simp, by simp, by simpa using ⟨hfield, hfields⟩,
        by simp⟩

theorem validateFrom_iff {fuel : Nat} {seenHeader : Bool} {input : Bytes}
    (hfuel : input.length ≤ fuel) :
    validateFrom fuel seenHeader input = .ok () ↔ WellFormedAfter seenHeader input := by
  induction fuel generalizing seenHeader input with
  | zero =>
    obtain rfl : input = [] := List.length_eq_zero_iff.1 (by omega)
    simp only [validateFrom, true_iff]
    exact ⟨[], [], rfl, by simp, by simp, by simp⟩
  | succ fuel ih =>
    by_cases hinput : input = []
    · subst hinput
      simp only [validateFrom, true_iff]
      exact ⟨[], [], rfl, by simp, by simp, by simp⟩
    · have hok : ∀ {seen' rest}, representation seenHeader input = .ok (seen', rest) →
          validateFrom (fuel + 1) seenHeader input = validateFrom fuel seen' rest := by
        intro seen' rest hone
        obtain ⟨first, tail, rfl⟩ := List.exists_cons_of_ne_nil hinput
        rw [validateFrom, hone]
        exact hinput
      rw [wellFormedAfter_iff hinput]
      constructor
      · intro h
        cases hone : representation seenHeader input with
        | error e =>
          obtain ⟨first, tail, rfl⟩ := List.exists_cons_of_ne_nil hinput
          rw [validateFrom, hone] at h
          · cases h
          · exact hinput
        | ok result =>
          obtain ⟨seenHeader', rest⟩ := result
          rw [hok hone] at h
          obtain ⟨bytes, rfl, hrepresents⟩ := (representation_iff hinput).1 hone
          have hne := List.length_pos_iff.2 (representation_nonempty hrepresents)
          rw [List.length_append] at hfuel
          exact ⟨seenHeader', bytes, rest, rfl, hrepresents, (ih (by omega)).1 h⟩
      · rintro ⟨seenHeader', bytes, rest, rfl, hrepresents, hrest⟩
        have hne := List.length_pos_iff.2 (representation_nonempty hrepresents)
        rw [hok ((representation_iff hinput).2 ⟨bytes, rfl, hrepresents⟩)]
        rw [List.length_append] at hfuel
        exact (ih (by omega)).2 hrest

/-! ## The position -/

/-- How a check can end; only the texts of `invalid` are in the source, the
others are where its arithmetic would leave `usize`, or its loop go on. -/
inductive Fault where
  | invalid (text : String)
  | overflow
  | underflow
  | unfinished
  deriving DecidableEq, Repr

structure Reader where
  position : Nat
  taken : List Nat
  deriving DecidableEq, Repr

def Reader.advance (reader : Reader) (count : Nat) : Reader :=
  ⟨reader.position + count, reader.position :: reader.taken⟩

/-- `usize` of the 32-bit build. -/
def usizeSize : Nat := 2 ^ 32

section Positions

variable (input : Bytes)

def continuationAt : List Nat → Nat → Reader → Except Fault Nat × Reader
  | [], _, reader => (.error (.invalid "HPACK integer limit"), reader)
  | shift :: shifts, value, reader =>
    match input[reader.position]? with
    | none => (.error (.invalid "incomplete HPACK integer"), reader)
    | some next =>
      let reader := reader.advance 1
      let value := value + (next &&& 127).toNat <<< shift
      if usizeSize ≤ value then (.error .overflow, reader)
      else if next &&& 128 = 0 then (.ok value, reader)
      else continuationAt shifts value reader

def integerAt (bits : Nat) (reader : Reader) : Except Fault Nat × Reader :=
  match input[reader.position]? with
  | none => (.error (.invalid "incomplete HPACK integer"), reader)
  | some first =>
    let reader := reader.advance 1
    let mask := 2 ^ bits - 1
    let value := first.toNat &&& mask
    if value < mask then (.ok value, reader)
    else continuationAt input [0, 7, 14, 21] value reader

def stringAt (reader : Reader) : Except Fault Unit × Reader :=
  match integerAt input 7 reader with
  | (.error e, reader) => (.error e, reader)
  | (.ok length, reader) =>
    if input.length < reader.position then (.error .underflow, reader)
    else if length > input.length - reader.position then
      (.error (.invalid "incomplete HPACK string"), reader)
    else (.ok (), reader.advance length)

def literalAt (bits : Nat) (reader : Reader) : Except Fault Bool × Reader :=
  match integerAt input bits reader with
  | (.error e, reader) => (.error e, reader)
  | (.ok index, reader) =>
    match if index = 0 then stringAt input reader else (.ok (), reader) with
    | (.error e, reader) => (.error e, reader)
    | (.ok (), reader) =>
      match stringAt input reader with
      | (.error e, reader) => (.error e, reader)
      | (.ok (), reader) => (.ok true, reader)

def representationAt (seenHeader : Bool) (first : UInt8) (reader : Reader) :
    Except Fault Bool × Reader :=
  if first &&& 128 ≠ 0 then
    match integerAt input 7 reader with
    | (.error e, reader) => (.error e, reader)
    | (.ok _, reader) => (.ok true, reader)
  else if first &&& 0xe0 = 0x20 then
    if seenHeader then
      (.error (.invalid "late HPACK table size update"), reader)
    else
      match integerAt input 5 reader with
      | (.error e, reader) => (.error e, reader)
      | (.ok _, reader) => (.ok seenHeader, reader)
  else literalAt input (if first &&& 64 ≠ 0 then 6 else 4) reader

def validateLoop : Nat → Bool → Reader → Except Fault Unit × Reader
  | 0, _, reader => (.error .unfinished, reader)
  | rounds + 1, seenHeader, reader =>
    match input[reader.position]? with
    | none => (.ok (), reader)
    | some first =>
      match representationAt input seenHeader first reader with
      | (.error e, reader) => (.error e, reader)
      | (.ok seenHeader, reader) => validateLoop rounds seenHeader reader

def validateAt : Except Fault Unit × Reader :=
  validateLoop input (input.length + 1) false ⟨0, []⟩

end Positions

def Reader.Inside (reader : Reader) (input : Bytes) : Prop :=
  ∀ position ∈ reader.position :: reader.taken, position ≤ input.length

variable {reader : Reader}

theorem Reader.Inside.advance {input : Bytes} {count : Nat}
    (h : reader.Inside input) (hcount : reader.position + count ≤ input.length) :
    (reader.advance count).Inside input := by
  intro position hposition
  simp only [Reader.advance, List.mem_cons] at hposition
  rcases hposition with rfl | rfl | hposition
  · exact hcount
  · exact h _ (by simp)
  · exact h _ (by simp [hposition])

structure Follows {α : Type} (input : Bytes) (left : Except String (α × Bytes))
    (right : Except Fault α × Reader) : Prop where
  inside : right.2.Inside input
  result : match left with
    | .ok (a, rest) => right.1 = .ok a ∧ input.drop right.2.position = rest
    | .error e => right.1 = .error (.invalid e)

theorem getElem_drop {input : Bytes} {position : Nat} :
    input[position]? = (input.drop position).head? := by
  simp [List.head?_drop]

theorem drop_advance {input tail : Bytes} {octet : UInt8}
    (hrest : input.drop reader.position = octet :: tail) :
    input.drop (reader.advance 1).position = tail ∧
      reader.position + 1 ≤ input.length := by
  constructor
  · rw [Reader.advance, ← List.drop_drop, hrest, List.drop_one, List.tail_cons]
  · have hlength := congrArg List.length hrest
    simp only [List.length_drop, List.length_cons] at hlength
    omega

variable {rest : Bytes}

theorem continuationAt_follows {input : Bytes} {k s value : Nat}
    (hinside : reader.Inside input) (hrest : input.drop reader.position = rest)
    (hvalue : value < 2 ^ 8 + 2 ^ s) (hs : s + 7 * k ≤ 28) :
    Follows input (continuation (List.range' s k 7) value rest)
      (continuationAt input (List.range' s k 7) value reader) := by
  induction k generalizing s value rest reader with
  | zero => exact ⟨hinside, rfl⟩
  | succ k ih =>
    rw [List.range'_succ]
    simp only [continuationAt, getElem_drop, hrest]
    cases rest with
    | nil => exact ⟨hinside, rfl⟩
    | cons next tail =>
      obtain ⟨htail, hlength⟩ := drop_advance hrest
      have hadvance := hinside.advance hlength
      have hdigit : (next &&& 127).toNat ≤ 127 := by
        rw [UInt8.toNat_and]
        exact Nat.and_le_right
      have hnext : value + (next &&& 127).toNat * 2 ^ s < 2 ^ 8 + 2 ^ (s + 7) := by
        have hmul := Nat.mul_le_mul_right (2 ^ s) hdigit
        rw [Nat.pow_add]
        omega
      have hpow : 2 ^ (s + 7) ≤ 2 ^ 28 := Nat.pow_le_pow_right (by omega) (by omega)
      simp only [List.head?_cons, Nat.shiftLeft_eq, continuation]
      have hfits : ¬ usizeSize ≤ value + (next &&& 127).toNat * 2 ^ s := by
        unfold usizeSize
        omega
      rw [if_neg hfits]
      split
      · exact ⟨hadvance, rfl, htail⟩
      · exact ih hadvance htail hnext (by omega)

theorem integerAt_follows {input : Bytes} {bits : Nat}
    (hinside : reader.Inside input) (hrest : input.drop reader.position = rest)
    (hbits : bits ≤ 7) :
    Follows input (integer bits rest) (integerAt input bits reader) := by
  simp only [integerAt, getElem_drop, hrest]
  cases rest with
  | nil => exact ⟨hinside, rfl⟩
  | cons first tail =>
    obtain ⟨htail, hlength⟩ := drop_advance hrest
    have hadvance := hinside.advance hlength
    have hrange : [0, 7, 14, 21] = List.range' 0 4 7 := rfl
    simp only [List.head?_cons, integer, Nat.and_two_pow_sub_one_eq_mod]
    split
    · exact ⟨hadvance, rfl, htail⟩
    · rw [hrange]
      refine continuationAt_follows hadvance htail ?_ (by omega)
      have hmod := Nat.mod_lt first.toNat (Nat.two_pow_pos bits)
      have hpow : 2 ^ bits ≤ 2 ^ 7 := Nat.pow_le_pow_right (by omega) hbits
      omega

theorem Follows.cases {α : Type} {input : Bytes} {left : Except String (α × Bytes)}
    {right : Except Fault α × Reader} (h : Follows input left right) :
    (∃ e reader, left = .error e ∧ right = (.error (.invalid e), reader) ∧
        reader.Inside input) ∨
      ∃ a rest reader, left = .ok (a, rest) ∧ right = (.ok a, reader) ∧
        reader.Inside input ∧ input.drop reader.position = rest := by
  obtain ⟨hinside, hresult⟩ := h
  obtain ⟨right, reader⟩ := right
  cases left with
  | error e =>
    have hright : right = .error (.invalid e) := hresult
    exact Or.inl ⟨e, reader, rfl, by rw [hright], hinside⟩
  | ok pair =>
    obtain ⟨a, rest⟩ := pair
    have hright : right = .ok a := hresult.1
    exact Or.inr ⟨a, rest, reader, rfl, by rw [hright], hinside, hresult.2⟩

theorem stringAt_cases {input : Bytes}
    (hinside : reader.Inside input) (hrest : input.drop reader.position = rest) :
    (∃ e reader', string rest = .error e ∧
        stringAt input reader = (.error (.invalid e), reader') ∧
        reader'.Inside input) ∨
      ∃ tail reader', string rest = .ok tail ∧
        stringAt input reader = (.ok (), reader') ∧ reader'.Inside input ∧
        input.drop reader'.position = tail := by
  simp only [stringAt, string]
  rcases (integerAt_follows hinside hrest (by omega : 7 ≤ 7)).cases with
    ⟨e, reader', hleft, hright, hinside'⟩ |
    ⟨length, tail, reader', hleft, hright, hinside', htail⟩
  · exact Or.inl ⟨e, reader', by rw [hleft], by rw [hright], hinside'⟩
  · have hposition : reader'.position ≤ input.length := hinside' _ (by simp)
    have hlength : tail.length = input.length - reader'.position := by
      rw [← htail, List.length_drop]
    have hnot : ¬ input.length < reader'.position := by omega
    simp only [hleft, hright]
    rw [if_neg hnot, ← hlength]
    by_cases hlong : length > tail.length
    · simp only [hlong, if_true]
      exact Or.inl ⟨_, reader', rfl, rfl, hinside'⟩
    · simp only [hlong, if_false]
      refine Or.inr ⟨_, _, rfl, rfl, hinside'.advance (by omega), ?_⟩
      simp only [Reader.advance]
      rw [← List.drop_drop, htail]

theorem literalAt_follows {input : Bytes} {bits : Nat}
    (hinside : reader.Inside input) (hrest : input.drop reader.position = rest)
    (hbits : bits ≤ 7) :
    Follows input
      (match integer bits rest with
        | .error e => .error e
        | .ok (index, rest) =>
          match if index = 0 then string rest else .ok rest with
          | .error e => .error e
          | .ok rest => (string rest).map fun rest => (true, rest))
      (literalAt input bits reader) := by
  simp only [literalAt]
  rcases (integerAt_follows hinside hrest hbits).cases with
    ⟨e, reader', hleft, hright, hinside'⟩ |
    ⟨index, tail, reader', hleft, hright, hinside', htail⟩
  · rw [hleft, hright]
    exact ⟨hinside', rfl⟩
  · simp only [hleft, hright]
    have hname : (∃ e reader'', (if index = 0 then string tail else .ok tail) = .error e ∧
          (if index = 0 then stringAt input reader' else (.ok (), reader')) =
            (.error (.invalid e), reader'') ∧ reader''.Inside input) ∨
        ∃ middle reader'', (if index = 0 then string tail else .ok tail) = .ok middle ∧
          (if index = 0 then stringAt input reader' else (.ok (), reader')) =
            (.ok (), reader'') ∧ reader''.Inside input ∧
          input.drop reader''.position = middle := by
      split
      · exact stringAt_cases hinside' htail
      · exact Or.inr ⟨tail, reader', rfl, rfl, hinside', htail⟩
    rcases hname with ⟨e, reader'', hleft, hright, hinside''⟩ |
      ⟨middle, reader'', hleft, hright, hinside'', hmiddle⟩
    · rw [hleft, hright]
      exact ⟨hinside'', rfl⟩
    · rw [hleft, hright]
      simp only
      rcases stringAt_cases hinside'' hmiddle with
        ⟨e, last, hleft, hright, hlast⟩ | ⟨rest, last, hleft, hright, hlast, hdrop⟩
      · rw [hleft, hright]
        exact ⟨hlast, rfl⟩
      · rw [hleft, hright]
        exact ⟨hlast, rfl, hdrop⟩

theorem representationAt_follows {input tail : Bytes} {first : UInt8}
    {seenHeader : Bool} {reader : Reader} (hinside : reader.Inside input)
    (hrest : input.drop reader.position = first :: tail) :
    Follows input (representation seenHeader (first :: tail))
      (representationAt input seenHeader first reader) := by
  simp only [representation, representationAt]
  split
  · rcases (integerAt_follows hinside hrest (by omega : 7 ≤ 7)).cases with
      ⟨e, reader', hleft, hright, hinside'⟩ |
      ⟨index, rest, reader', hleft, hright, hinside', hdrop⟩
    · rw [hleft, hright]
      exact ⟨hinside', rfl⟩
    · rw [hleft, hright]
      exact ⟨hinside', rfl, hdrop⟩
  · split
    · split
      · exact ⟨hinside, rfl⟩
      · rcases (integerAt_follows hinside hrest (by omega : 5 ≤ 7)).cases with
          ⟨e, reader', hleft, hright, hinside'⟩ |
          ⟨size, rest, reader', hleft, hright, hinside', hdrop⟩
        · rw [hleft, hright]
          exact ⟨hinside', rfl⟩
        · rw [hleft, hright]
          exact ⟨hinside', rfl, hdrop⟩
    · exact literalAt_follows hinside hrest (by split <;> omega)

theorem representation_shorter {seenHeader seenHeader' : Bool} {input : Bytes}
    (hinput : input ≠ []) (h : representation seenHeader input = .ok (seenHeader', rest)) :
    rest.length < input.length := by
  obtain ⟨bytes, rfl, hrepresents⟩ := (representation_iff hinput).1 h
  have hne := List.length_pos_iff.2 (representation_nonempty hrepresents)
  rw [List.length_append]
  omega

/-- The loop keeps its position inside, meets no fault of its arithmetic, and
ends as the check on what is left ends. -/
theorem validateLoop_follows {input rest : Bytes} {rounds fuel : Nat}
    {seenHeader : Bool} {reader : Reader} (hinside : reader.Inside input)
    (hrest : input.drop reader.position = rest) (hrounds : rest.length < rounds)
    (hfuel : rest.length ≤ fuel) :
    (validateLoop input rounds seenHeader reader).2.Inside input ∧
      (validateLoop input rounds seenHeader reader).1 =
        match validateFrom fuel seenHeader rest with
        | .ok () => .ok ()
        | .error e => .error (.invalid e) := by
  induction rounds generalizing rest fuel seenHeader reader with
  | zero => omega
  | succ rounds ih =>
    cases rest with
    | nil =>
      have hend : validateFrom fuel seenHeader [] = .ok () := by
        cases fuel <;> rfl
      simp only [validateLoop, getElem_drop, hrest, List.head?_nil, hend]
      exact ⟨hinside, trivial⟩
    | cons first tail =>
      simp only [validateLoop, getElem_drop, hrest, List.head?_cons]
      cases fuel with
      | zero => simp at hfuel
      | succ fuel =>
        simp only [validateFrom]
        rcases (@representationAt_follows input tail first seenHeader reader
          hinside hrest).cases with
          ⟨e, reader', hleft, hright, hinside'⟩ |
          ⟨seen, rest, reader', hleft, hright, hinside', hdrop⟩
        · rw [hleft, hright]
          exact ⟨hinside', rfl⟩
        · rw [hleft, hright]
          have hshorter := representation_shorter (by simp) hleft
          exact ih hinside' hdrop (by omega) (by omega)

private theorem validateAt_eq (input : Bytes) :
    (validateAt input).1 =
      match validate input with
      | .ok () => .ok ()
      | .error e => .error (.invalid e) := by
  have hinside : Reader.Inside ⟨0, []⟩ input := by simp [Reader.Inside]
  exact (@validateLoop_follows input input (input.length + 1) input.length false
    ⟨0, []⟩ hinside rfl (by omega) (by omega)).2

/--
The check accepts exactly the blocks of complete representations with their size
updates first; its position stays inside the block, and it fails with an error
of its own only.
-/
theorem validateAt_wellFormed (input : Bytes) :
    ((validateAt input).1 = .ok () ↔ WellFormed input) ∧
      (∀ position ∈ (validateAt input).2.position :: (validateAt input).2.taken,
        position ≤ input.length) ∧
      ∀ fault, (validateAt input).1 = .error fault → ∃ text, fault = .invalid text := by
  have hinside : Reader.Inside ⟨0, []⟩ input := by simp [Reader.Inside]
  have hfollows := @validateLoop_follows input input (input.length + 1) input.length
    false ⟨0, []⟩ hinside rfl (by omega) (by omega)
  have hvalid := @validateFrom_iff input.length false input le_rfl
  have heq := validateAt_eq input
  refine ⟨?_, hfollows.1, fun fault hfault => ?_⟩
  · have hafter : WellFormedAfter false input ↔ WellFormed input := by
      simp [WellFormedAfter, WellFormed]
    rw [heq, ← hafter, ← hvalid, validate]
    cases validateFrom input.length false input <;> simp
  · rw [heq] at hfault
    cases hlist : validate input with
    | ok a => simp [hlist] at hfault
    | error e =>
      simp only [hlist, Except.error.injEq] at hfault
      exact ⟨e, hfault.symm⟩

/-- A size update in front, an indexed field and a literal one. -/
example : (validateAt [0x20, 0x82, 0x40, 0x01, 0x61, 0x01, 0x62]).1 = .ok () := by
  decide

end HpackGuard

end ProxyLane.Protocol
