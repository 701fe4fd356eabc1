import Mathlib.Tactic
import ProxyLane.Foundation.Json

/-!
# Compact text of JSON values

The text has no blanks and no line breaks: control characters in strings are
escaped.
-/

namespace ProxyLane.Foundation.Json

def hexDigit (n : Nat) : Char := Nat.digitChar n

def escape (c : Char) : List Char :=
  if c = '"' then ['\\', '"']
  else if c = '\\' then ['\\', '\\']
  else if c.toNat = 8 then ['\\', 'b']
  else if c.toNat = 9 then ['\\', 't']
  else if c.toNat = 10 then ['\\', 'n']
  else if c.toNat = 12 then ['\\', 'f']
  else if c.toNat = 13 then ['\\', 'r']
  else if c.toNat < 32 then
    ['\\', 'u', '0', '0', hexDigit (c.toNat / 16), hexDigit (c.toNat % 16)]
  else [c]

def quoted (s : String) : List Char := '"' :: (s.toList.flatMap escape ++ ['"'])

def signed : Int → List Char
  | .ofNat n => Nat.toDigits 10 n
  | .negSucc n => '-' :: Nat.toDigits 10 (n + 1)

mutual

def text : Json → List Char
  | null => ['n', 'u', 'l', 'l']
  | bool true => ['t', 'r', 'u', 'e']
  | bool false => ['f', 'a', 'l', 's', 'e']
  | num n => signed n
  | str s => quoted s
  | arr items => '[' :: (textItems items ++ [']'])
  | obj fields => '{' :: (textFields fields ++ ['}'])

def textItems : List Json → List Char
  | [] => []
  | v :: rest =>
    text v ++ (if rest.isEmpty then [] else ',' :: textItems rest)

def textFields : List (String × Json) → List Char
  | [] => []
  | (key, v) :: rest =>
    quoted key ++ ':' :: text v ++
      (if rest.isEmpty then [] else ',' :: textFields rest)

end

def compact (v : Json) : Bytes := v.text.flatMap String.utf8EncodeChar

theorem newline_notMem_escape (c : Char) : '\n' ∉ escape c := by
  have hdigit : ∀ n < 32, hexDigit (n / 16) ≠ '\n' ∧
      hexDigit (n % 16) ≠ '\n' := by decide
  simp only [escape]
  split_ifs with h1 h2 h3 h4 h5 h6 h7 h8
  · decide
  · decide
  · decide
  · decide
  · decide
  · decide
  · decide
  · have h := hdigit _ h8
    simp [Ne.symm h.1, Ne.symm h.2]
  · rw [List.mem_singleton]
    rintro rfl
    exact h5 rfl

theorem newline_notMem_quoted (s : String) : '\n' ∉ quoted s := by
  simp [quoted, newline_notMem_escape]

theorem newline_notMem_signed (n : Int) : '\n' ∉ signed n := by
  have hdigits : ∀ n, '\n' ∉ Nat.toDigits 10 n := fun n h =>
    absurd (Nat.isDigit_of_mem_toDigits (by decide) (by decide) h) (by decide)
  cases n with
  | ofNat n => exact hdigits n
  | negSucc n => simp [signed, hdigits]

mutual

theorem newline_notMem_text (v : Json) : '\n' ∉ text v := by
  cases v with
  | null => decide
  | bool b => cases b <;> decide
  | num n => exact newline_notMem_signed n
  | str s => exact newline_notMem_quoted s
  | arr items => simp [text, newline_notMem_textItems items]
  | obj fields => simp [text, newline_notMem_textFields fields]

theorem newline_notMem_textItems (items : List Json) :
    '\n' ∉ textItems items := by
  cases items with
  | nil => simp [textItems]
  | cons v rest =>
    rw [textItems, List.mem_append, not_or]
    refine ⟨newline_notMem_text v, ?_⟩
    split
    case isTrue => simp
    case isFalse => simp [newline_notMem_textItems rest]

theorem newline_notMem_textFields (fields : List (String × Json)) :
    '\n' ∉ textFields fields := by
  cases fields with
  | nil => simp [textFields]
  | cons field rest =>
    obtain ⟨key, v⟩ := field
    rw [textFields, List.mem_append, not_or]
    refine ⟨?_, ?_⟩
    · simp [newline_notMem_quoted, newline_notMem_text v]
    · split
      case isTrue => simp
      case isFalse => simp [newline_notMem_textFields rest]

end

theorem newline_mem_utf8EncodeChar {c : Char}
    (h : (10 : UInt8) ∈ String.utf8EncodeChar c) : c = '\n' := by
  have hbyte : ∀ n : Nat, n < 256 → (10 : UInt8) = UInt8.ofNat n → n = 10 := by
    intro n hn heq
    have h := congrArg UInt8.toNat heq
    rw [UInt8.toNat_ofNat_of_lt' hn] at h
    exact h.symm
  -- the bytes of a longer character have their highest bit set
  have hhigh : ∀ n : Nat, 128 ≤ n → n < 256 → (10 : UInt8) ≠ UInt8.ofNat n := by
    intro n hlow hn heq
    have := hbyte n hn heq
    omega
  rw [String.utf8EncodeChar] at h
  split_ifs at h
  · have hten := hbyte _ (by omega) (List.mem_singleton.1 h)
    exact Char.ext (UInt32.toNat_inj.1 hten)
  · simp only [List.mem_cons, List.not_mem_nil, or_false] at h
    rcases h with h | h <;>
      exact absurd h (hhigh _ (by omega) (by omega))
  · simp only [List.mem_cons, List.not_mem_nil, or_false] at h
    rcases h with h | h | h <;>
      exact absurd h (hhigh _ (by omega) (by omega))
  · simp only [List.mem_cons, List.not_mem_nil, or_false] at h
    rcases h with h | h | h | h <;>
      exact absurd h (hhigh _ (by omega) (by omega))

theorem newline_notMem_compact (v : Json) : (10 : UInt8) ∉ compact v := by
  intro h
  obtain ⟨c, hc, hbyte⟩ := List.mem_flatMap.1 h
  rw [newline_mem_utf8EncodeChar hbyte] at hc
  exact newline_notMem_text v hc

private theorem length_escape_le (c : Char) : (escape c).length ≤ 6 := by
  simp only [escape]
  split_ifs <;> simp

theorem length_quoted_le (s : String) :
    (quoted s).length ≤ 6 * s.toList.length + 2 := by
  have hchars : ∀ l : List Char, (l.flatMap escape).length ≤ 6 * l.length := by
    intro l
    induction l with
    | nil => exact Nat.le_refl 0
    | cons c l ih =>
      have := length_escape_le c
      rw [List.flatMap_cons, List.length_append, List.length_cons]
      omega
  have := hchars s.toList
  simp only [quoted, List.length_cons, List.length_append, List.length_nil]
  omega

theorem length_utf8_le (l : List Char) :
    (l.flatMap String.utf8EncodeChar).length ≤ 4 * l.length := by
  induction l with
  | nil => exact Nat.le_refl 0
  | cons c l ih =>
    have := Char.utf8Size_le_four c
    rw [List.flatMap_cons, List.length_append, List.length_cons,
      String.length_utf8EncodeChar]
    omega

theorem length_compact_le (v : Json) : v.compact.length ≤ 4 * v.text.length :=
  length_utf8_le v.text

theorem utf8ByteSize_le (s : String) :
    s.utf8ByteSize ≤ 4 * s.toList.length := by
  have hbytes : s.toByteArray =
      (s.toList.flatMap String.utf8EncodeChar).toByteArray := by
    change _ = s.toList.utf8Encode
    rw [← String.toByteArray_ofList, String.ofList_toList]
  rw [String.utf8ByteSize, hbytes, List.size_toByteArray]
  exact length_utf8_le s.toList

theorem text_of_compact {v w : Json} (h : v.compact = w.compact) :
    v.text = w.text := by
  have hstring : String.ofList v.text = String.ofList w.text := by
    refine String.toByteArray_inj.1 ?_
    rw [String.toByteArray_ofList, String.toByteArray_ofList]
    exact congrArg List.toByteArray h
  exact String.ofList_injective hstring

def lookup (values : List Json) (bytes : Bytes) : Option Json :=
  values.find? fun v => v.compact ++ [10] == bytes

theorem lookup_compact {values : List Json} {v : Json} (hmem : v ∈ values)
    (hinj : ∀ w ∈ values, w.text = v.text → w = v) :
    lookup values (v.compact ++ [10]) = some v := by
  cases hfind : lookup values (v.compact ++ [10]) with
  | none =>
    have := List.find?_eq_none.1 hfind v hmem
    simp at this
  | some w =>
    have hin := List.mem_of_find?_eq_some hfind
    have heq := List.find?_some hfind
    rw [beq_iff_eq, List.append_left_inj] at heq
    rw [hinj w hin (text_of_compact heq)]

end ProxyLane.Foundation.Json
