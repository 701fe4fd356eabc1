import ProxyLane.Foundation.JsonText

/-!
# Indented JSON text

One value to a line, two blanks for each level.  A number stands in the text
with its digits and nothing around it depends on them.
-/

namespace ProxyLane.Foundation.Json

def indent (depth : Nat) : List Char := List.replicate (2 * depth) ' '

mutual

def pretty (depth : Nat) : Json → List Char
  | null => text null
  | bool b => text (bool b)
  | num n => signed n
  | str s => quoted s
  | arr [] => ['[', ']']
  | arr (v :: rest) =>
    '[' :: (prettyItems depth ['\n'] (v :: rest) ++ '\n' :: (indent depth ++ [']']))
  | obj [] => ['{', '}']
  | obj (field :: rest) =>
    '{' :: (prettyFields depth ['\n'] (field :: rest) ++
      '\n' :: (indent depth ++ ['}']))

def prettyItems (depth : Nat) (lead : List Char) : List Json → List Char
  | [] => []
  | v :: rest =>
    lead ++ indent (depth + 1) ++ pretty (depth + 1) v ++
      prettyItems depth [',', '\n'] rest

def prettyFields (depth : Nat) (lead : List Char) :
    List (String × Json) → List Char
  | [] => []
  | (key, v) :: rest =>
    lead ++ indent (depth + 1) ++ quoted key ++ [':', ' '] ++
      pretty (depth + 1) v ++ prettyFields depth [',', '\n'] rest

end

def toVecPretty (v : Json) : Bytes :=
  (pretty 0 v).flatMap String.utf8EncodeChar

private theorem insertField_insertField (key : String) (x y : Json)
    (fields : List (String × Json)) :
    insertField key y (insertField key x fields) = insertField key y fields := by
  induction fields with
  | nil => simp [insertField]
  | cons field rest ih =>
    by_cases hlt : key < field.1
    · simp [insertField, hlt]
    · by_cases heq : key = field.1
      · simp [insertField, heq]
      · simp [insertField, hlt, heq, ih]

theorem set_set (fields : List (String × Json)) (key : String) (x y : Json) :
    ((obj fields).set key x).set key y = (obj fields).set key y := by
  simp [set, insertField_insertField]

theorem prettyFields_insertField (key : String) (depth : Nat)
    (fields : List (String × Json)) (lead : List Char) :
    ∃ before after : List Char, ∀ x : Json,
      prettyFields depth lead (insertField key x fields) =
        before ++ pretty (depth + 1) x ++ after := by
  induction fields generalizing lead with
  | nil =>
    refine ⟨lead ++ indent (depth + 1) ++ quoted key ++ [':', ' '], [], ?_⟩
    intro x
    simp [insertField, prettyFields]
  | cons field rest ih =>
    by_cases hlt : key < field.1
    · refine ⟨lead ++ indent (depth + 1) ++ quoted key ++ [':', ' '],
        prettyFields depth [',', '\n'] (field :: rest), ?_⟩
      intro x
      simp [insertField, hlt, prettyFields]
    · by_cases heq : key = field.1
      · refine ⟨lead ++ indent (depth + 1) ++ quoted key ++ [':', ' '],
          prettyFields depth [',', '\n'] rest, ?_⟩
        intro x
        simp [insertField, heq, prettyFields]
      · obtain ⟨before, after, h⟩ := ih [',', '\n']
        refine ⟨lead ++ indent (depth + 1) ++ quoted field.1 ++ [':', ' '] ++
          pretty (depth + 1) field.2 ++ before, after, ?_⟩
        intro x
        simp [insertField, hlt, heq, prettyFields, h]

theorem length_utf8_digits (n : Nat) :
    ((Nat.toDigits 10 n).flatMap String.utf8EncodeChar).length =
      (Nat.toDigits 10 n).length := by
  have hone : ∀ c ∈ Nat.toDigits 10 n, (String.utf8EncodeChar c).length = 1 := by
    intro c hc
    have hdigit := Nat.isDigit_of_mem_toDigits (by decide) (by decide) hc
    have hval : c.val ≤ 127 := by
      simp only [Char.isDigit, Bool.and_eq_true, decide_eq_true_eq] at hdigit
      exact UInt32.le_trans hdigit.2 (by decide)
    simp [String.length_utf8EncodeChar, Char.utf8Size, hval]
  rw [List.length_flatMap, List.map_congr_left hone]
  simp

/-- The length of an object's text is that of the digits of one of its numbers
and a part that does not depend on it. -/
theorem length_toVecPretty_set (fields : List (String × Json)) (key : String) :
    ∃ fixed, 0 < fixed ∧ ∀ n : Nat,
      (toVecPretty ((obj fields).set key (num n))).length =
        fixed + (Nat.toDigits 10 n).length := by
  obtain ⟨before, after, h⟩ := prettyFields_insertField key 0 fields ['\n']
  have htext : ∀ n : Nat, pretty 0 ((obj fields).set key (num n)) =
      '{' :: (before ++ Nat.toDigits 10 n ++ after ++
        '\n' :: (indent 0 ++ ['}'])) := by
    intro n
    rw [set]
    cases hf : insertField key (num n) fields with
    | nil =>
      cases fields with
      | nil => simp [insertField] at hf
      | cons field rest =>
        simp only [insertField] at hf
        split_ifs at hf
    | cons field rest =>
      rw [pretty, ← hf, h]
      simp [pretty, signed]
  refine ⟨1 + (before.flatMap String.utf8EncodeChar).length +
    ((after ++ '\n' :: (indent 0 ++ ['}'])).flatMap
      String.utf8EncodeChar).length, by omega, ?_⟩
  intro n
  have hbrace : (String.utf8EncodeChar '{').length = 1 := by decide
  simp only [toVecPretty, htext, List.flatMap_cons, List.flatMap_append,
    List.length_append, length_utf8_digits, hbrace]
  omega

end ProxyLane.Foundation.Json
