import Mathlib.Data.String.Basic
import ProxyLane.Foundation.Bytes

/-!
# JSON values

Values as a parser hands them out: objects keep their fields in the order of
the keys.  Reading a field of a value that has none gives `null`, and writing
one into `null` makes an object of it.
-/

namespace ProxyLane.Foundation

inductive Json where
  | null
  | bool (b : Bool)
  | num (n : Int)
  | str (s : String)
  | arr (items : List Json)
  | obj (fields : List (String × Json))
  deriving Repr

namespace Json

def fields : Json → List (String × Json)
  | obj fields => fields
  | _ => []

def get? (v : Json) (key : String) : Option Json :=
  (v.fields.find? fun field => field.1 == key).map Prod.snd

def get (v : Json) (key : String) : Json := (v.get? key).getD null

def asStr : Json → Option String
  | str s => some s
  | _ => none

def asNat : Json → Option Nat
  | num n => if 0 ≤ n ∧ n < 2 ^ 64 then some n.toNat else none
  | _ => none

def isStr (v : Json) (text : String) : Bool := v.asStr == some text

def isNum (v : Json) (n : Nat) : Bool :=
  match v with
  | num m => m == (n : Int)
  | _ => false

def isObject : Json → Bool
  | obj _ => true
  | _ => false

def isArray : Json → Bool
  | arr _ => true
  | _ => false

def isString : Json → Bool
  | str _ => true
  | _ => false

def isNull : Json → Bool
  | null => true
  | _ => false

def items : Json → List Json
  | arr items => items
  | _ => []

def insertField (key : String) (x : Json) :
    List (String × Json) → List (String × Json)
  | [] => [(key, x)]
  | field :: rest =>
    if key < field.1 then (key, x) :: field :: rest
    else if key = field.1 then (key, x) :: rest
    else field :: insertField key x rest

/-- `v[key] = x`.  A value that is neither an object nor `null` has no such
place. -/
def set (v : Json) (key : String) (x : Json) : Json :=
  match v with
  | null => obj [(key, x)]
  | obj fields => obj (insertField key x fields)
  | v => v

def remove (v : Json) (key : String) : Json :=
  match v with
  | obj fields => obj (fields.filter fun field => field.1 != key)
  | v => v

def object (fields : List (String × Json)) : Json :=
  obj (fields.foldl (fun fs field => insertField field.1 field.2 fs) [])

def Open : Json → Prop
  | null | obj _ => True
  | _ => False

theorem find?_insertField (key j : String) (x : Json)
    (fs : List (String × Json)) :
    (insertField key x fs).find? (fun field => field.1 == j) =
      if j = key then some (key, x)
      else fs.find? fun field => field.1 == j := by
  induction fs with
  | nil =>
    by_cases h : j = key
    · simp [insertField, h]
    · simp [insertField, h, Ne.symm h]
  | cons field rest ih =>
    simp only [insertField]
    split
    case isTrue hless =>
      by_cases h : j = key
      · simp [h]
      · simp [h, Ne.symm h]
    case isFalse =>
      split
      case isTrue heq =>
        by_cases h : j = key
        · simp [h]
        · simp [h, Ne.symm h, ← heq]
      case isFalse hne =>
        rw [List.find?_cons, ih]
        by_cases h : j = key
        · have hother : (field.1 == j) = false :=
            beq_eq_false_iff_ne.2 fun heq => hne (heq.trans h).symm
          rw [hother, if_pos h, if_pos h]
        · rw [if_neg h, if_neg h, List.find?_cons]

theorem get?_obj_nil (j : String) : (obj []).get? j = none := rfl

theorem get?_obj_cons (key j : String) (x : Json)
    (fs : List (String × Json)) :
    (obj ((key, x) :: fs)).get? j =
      if j = key then some x else (obj fs).get? j := by
  simp only [get?, fields, List.find?_cons]
  by_cases h : j = key
  · simp [h]
  · rw [if_neg h, beq_eq_false_iff_ne.2 (Ne.symm h)]

theorem get?_obj_insertField (key j : String) (x : Json)
    (fs : List (String × Json)) :
    (obj (insertField key x fs)).get? j =
      if j = key then some x else (obj fs).get? j := by
  simp only [get?, fields, find?_insertField]
  split <;> rfl

theorem set_open {v : Json} (h : v.Open) (key : String) (x : Json) :
    (v.set key x).Open := by
  cases v <;> trivial

theorem get?_set {v : Json} (h : v.Open) (key j : String) (x : Json) :
    (v.set key x).get? j = if j = key then some x else v.get? j := by
  cases v with
  | null => exact get?_obj_insertField key j x []
  | obj fs => exact get?_obj_insertField key j x fs
  | _ => exact h.elim

theorem get?_set_ne (v : Json) {key j : String} (x : Json) (h : j ≠ key) :
    (v.set key x).get? j = v.get? j := by
  cases v with
  | null => exact (get?_set (v := null) trivial key j x).trans (if_neg h)
  | obj fs => exact (get?_set (v := obj fs) trivial key j x).trans (if_neg h)
  | _ => rfl

@[simp] theorem get_set_ne (v : Json) {key j : String} (x : Json)
    (h : j ≠ key) : (v.set key x).get j = v.get j := by
  rw [get, get?_set_ne v x h, ← get]

theorem get_set_self {v : Json} (h : v.Open) (key : String) (x : Json) :
    (v.set key x).get key = x := by
  rw [get, get?_set h, if_pos rfl]
  rfl

theorem get?_remove_ne (v : Json) {key j : String} (h : j ≠ key) :
    (v.remove key).get? j = v.get? j := by
  cases v with
  | obj fs =>
    simp only [remove, get?, fields, List.find?_filter]
    congr 2
    funext field
    by_cases hj : field.1 = j
    · simp [hj, h]
    · simp [hj]
  | _ => rfl

@[simp] theorem get_remove_ne (v : Json) {key j : String} (h : j ≠ key) :
    (v.remove key).get j = v.get j := by
  rw [get, get?_remove_ne v h, ← get]

end Json

structure Serde where
  print : Json → Bytes
  pretty : Json → Bytes
  parse : Bytes → Option Json

end ProxyLane.Foundation
