import ProxyLane.Foundation.Sextets
import Mathlib.Data.List.GetD

/-!
# Base64 texts

An alphabet has a character for every sextet.  Texts without padding and the
bytes they stand for determine each other; a standard text is filled up with
`=` to a multiple of four characters.
-/

namespace ProxyLane.Foundation

structure Alphabet where
  chars : Bytes
  length_eq : chars.length = 64
  nodup : chars.Nodup
  pad_notMem : 61 ∉ chars

namespace Alphabet

def standard : Alphabet where
  chars :=
    ascii "ABCDEFGHIJKLMNOPQRSTUVWXYZabcdefghijklmnopqrstuvwxyz0123456789+/"
  length_eq := by decide
  nodup := by decide +kernel
  pad_notMem := by decide

def url : Alphabet where
  chars :=
    ascii "ABCDEFGHIJKLMNOPQRSTUVWXYZabcdefghijklmnopqrstuvwxyz0123456789-_"
  length_eq := by decide
  nodup := by decide +kernel
  pad_notMem := by decide

variable (a : Alphabet)

def char (s : Nat) : UInt8 := a.chars.getD s 0

def value (c : UInt8) : Option Nat :=
  if a.chars.idxOf c < 64 then some (a.chars.idxOf c) else none

variable {a}

theorem char_mem {s : Nat} (h : s < 64) : a.char s ∈ a.chars := by
  have hs : s < a.chars.length := by simpa [a.length_eq] using h
  rw [char, List.getD_eq_getElem _ _ hs]
  exact List.getElem_mem hs

theorem value_char {s : Nat} (h : s < 64) : a.value (a.char s) = some s := by
  have hs : s < a.chars.length := by simpa [a.length_eq] using h
  have hidx : a.chars.idxOf (a.char s) = s := by
    rw [char, List.getD_eq_getElem _ _ hs]
    exact a.nodup.idxOf_getElem s hs
  simp [value, hidx, h]

theorem char_value {c : UInt8} {s : Nat} (h : a.value c = some s) :
    s < 64 ∧ a.char s = c := by
  unfold value at h
  split at h
  case isTrue hlt =>
    cases h
    have hs : a.chars.idxOf c < a.chars.length := by simpa [a.length_eq] using hlt
    refine ⟨hlt, ?_⟩
    rw [char, List.getD_eq_getElem _ _ hs]
    exact List.getElem_idxOf hs
  case isFalse => cases h

variable (a)

def encode (bytes : Bytes) : Bytes := (sextets bytes).map a.char

def decode (text : Bytes) : Option Bytes := (text.mapM a.value).bind octets

variable {a}

theorem mapM_value_map_char {values : List Nat} (h : ∀ s ∈ values, s < 64) :
    (values.map a.char).mapM a.value = some values := by
  induction values with
  | nil => rfl
  | cons s rest ih =>
    rw [List.forall_mem_cons] at h
    simp [List.mapM_cons, value_char h.1, ih h.2]

theorem of_mapM_value {text : Bytes} {values : List Nat}
    (h : text.mapM a.value = some values) :
    (∀ s ∈ values, s < 64) ∧ values.map a.char = text := by
  induction text generalizing values with
  | nil =>
    cases h
    simp
  | cons c rest ih =>
    simp only [List.mapM_cons, Option.pure_def, Option.bind_eq_bind,
      Option.bind_eq_some_iff, Option.some.injEq] at h
    obtain ⟨s, hs, more, hmore, rfl⟩ := h
    obtain ⟨hlt, hchar⟩ := char_value hs
    obtain ⟨hall, hrest⟩ := ih hmore
    exact ⟨List.forall_mem_cons.2 ⟨hlt, hall⟩, by simp [hchar, hrest]⟩

theorem decode_encode (bytes : Bytes) : a.decode (a.encode bytes) = some bytes := by
  rw [decode, encode, mapM_value_map_char (sextets_lt bytes), Option.bind_some,
    octets_sextets]

theorem encode_decode {text bytes : Bytes} (h : a.decode text = some bytes) :
    a.encode bytes = text := by
  simp only [decode, Option.bind_eq_some_iff] at h
  obtain ⟨values, hvalues, hbytes⟩ := h
  obtain ⟨hlt, htext⟩ := of_mapM_value hvalues
  rw [encode, sextets_octets hlt hbytes, htext]

theorem mem_of_mem_encode {bytes : Bytes} {c : UInt8} (h : c ∈ a.encode bytes) :
    c ∈ a.chars := by
  simp only [encode, List.mem_map] at h
  obtain ⟨s, hs, rfl⟩ := h
  exact char_mem (sextets_lt bytes s hs)

theorem encode_length (bytes : Bytes) :
    (a.encode bytes).length = sextetCount bytes.length := by
  rw [encode, List.length_map, sextets_length]

def padding (n : Nat) : Bytes := List.replicate ((3 - n % 3) % 3) 61

variable (a)

def encodePadded (bytes : Bytes) : Bytes := a.encode bytes ++ padding bytes.length

def decodePadded (text : Bytes) : Option Bytes :=
  (a.decode (text.takeWhile (· ≠ 61))).bind fun bytes =>
    if text.dropWhile (· ≠ 61) = padding bytes.length then some bytes else none

variable {a}

private theorem takeWhile_encode (bytes : Bytes) (n : Nat) :
    (a.encode bytes ++ List.replicate n 61).takeWhile (· ≠ 61) = a.encode bytes ∧
    (a.encode bytes ++ List.replicate n 61).dropWhile (· ≠ 61) =
      List.replicate n 61 := by
  have hall : ∀ c ∈ a.encode bytes, decide (c ≠ 61) = true := by
    intro c hc
    have hpad : c ≠ 61 := fun h => a.pad_notMem (h ▸ mem_of_mem_encode hc)
    simpa using hpad
  rw [List.takeWhile_append_of_pos hall, List.dropWhile_append_of_pos hall]
  cases n <;> simp [List.replicate_succ]

theorem decodePadded_eq_some {text bytes : Bytes} :
    a.decodePadded text = some bytes ↔ text = a.encodePadded bytes := by
  constructor
  · intro h
    simp only [decodePadded, Option.bind_eq_some_iff] at h
    obtain ⟨found, hfound, hif⟩ := h
    split at hif
    case isTrue hpad =>
      cases hif
      rw [encodePadded, encode_decode hfound, ← hpad, List.takeWhile_append_dropWhile]
    case isFalse => cases hif
  · rintro rfl
    obtain ⟨htake, hdrop⟩ := takeWhile_encode (a := a) bytes
      ((3 - bytes.length % 3) % 3)
    simp only [decodePadded, encodePadded, padding, htake, hdrop, decode_encode,
      Option.bind_some, if_true]

end Alphabet

end ProxyLane.Foundation
