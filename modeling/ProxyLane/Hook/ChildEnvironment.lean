import Mathlib.Data.List.Lex
import Mathlib.Data.UInt
import ProxyLane.Foundation.Sorting

/-!
# The environment of a child

A child is given the environment that its creator chose, with the hook's own
variables taken out and set anew.  The block is read, filtered, sorted and
written again, for wide and for narrow characters.
-/

namespace ProxyLane.Hook.ChildEnvironment

open ProxyLane.Foundation

structure CharType (χ : Type) where
  size : Nat
  ofCode : Nat → χ
  fold : χ → Nat
  size_pos : 0 < size
  ofCode_inj : ∀ a < 128, ∀ b < 128, ofCode a = ofCode b → a = b

/-- `WCHAR`, with the folding of `_wcsicmp`. -/
def wide (fold : UInt16 → Nat) : CharType UInt16 where
  size := 2
  ofCode := UInt16.ofNat
  fold := fold
  size_pos := by decide
  ofCode_inj a ha b hb h := by
    have hnat := congrArg UInt16.toNat h
    simp only [UInt16.toNat_ofNat'] at hnat
    omega

/-- `char`, with the folding of `_stricmp`. -/
def narrow (fold : UInt8 → Nat) : CharType UInt8 where
  size := 1
  ofCode := UInt8.ofNat
  fold := fold
  size_pos := by decide
  ofCode_inj a ha b hb h := by
    have hnat := congrArg UInt8.toNat h
    simp only [UInt8.toNat_ofNat'] at hnat
    omega

variable {χ : Type} [DecidableEq χ] (c : CharType χ)

def CharType.nul : χ := c.ofCode 0

def CharType.equals : χ := c.ofCode 61

def CharType.text (s : String) : List χ := s.toList.map fun x => c.ofCode x.toNat

def key (entry : List χ) : List Nat := entry.map c.fold

def maxBytes : Nat := 1024 * 1024

/-- The characters before the next NUL, with so many left to visit.  The
memory ends where it stops being readable. -/
def entryLength : Nat → List χ → Option Nat
  | 0, _ => none
  | _, [] => none
  | room + 1, x :: memory =>
    if x = c.nul then some 0 else (entryLength room memory).map (· + 1)

private theorem entryLength_lt {room : Nat} {memory : List χ} {n : Nat}
    (h : entryLength c room memory = some n) : n < room := by
  induction room generalizing memory n with
  | zero => cases h
  | succ room ih =>
    cases memory with
    | nil => cases h
    | cons x memory =>
      rw [entryLength] at h
      split at h
      · cases h
        omega
      · obtain ⟨m, hm, rfl⟩ := Option.map_eq_some_iff.1 h
        have := ih hm
        omega

/-- The loop of `ReadEnvironmentEntries`. -/
def readFrom (room : Nat) (memory : List χ) (entries : List (List χ)) :
    Option (List (List χ)) :=
  match _h : entryLength c room memory with
  | none => none
  | some 0 => some entries
  | some (n + 1) =>
    readFrom (room - (n + 2)) (memory.drop (n + 2))
      (entries ++ [memory.take (n + 1)])
termination_by room
decreasing_by
  have := entryLength_lt c _h
  omega

theorem readFrom_none {room : Nat} {memory : List χ}
    (h : entryLength c room memory = none) (entries : List (List χ)) :
    readFrom c room memory entries = none := by
  rw [readFrom]
  split
  · rfl
  · rename_i heq
    rw [h] at heq
    cases heq
  · rename_i heq
    rw [h] at heq
    cases heq

theorem readFrom_zero {room : Nat} {memory : List χ}
    (h : entryLength c room memory = some 0) (entries : List (List χ)) :
    readFrom c room memory entries = some entries := by
  rw [readFrom]
  split
  · rename_i heq
    rw [h] at heq
    cases heq
  · rfl
  · rename_i heq
    rw [h] at heq
    cases heq

theorem readFrom_succ {room n : Nat} {memory : List χ}
    (h : entryLength c room memory = some (n + 1)) (entries : List (List χ)) :
    readFrom c room memory entries =
      readFrom c (room - (n + 2)) (memory.drop (n + 2))
        (entries ++ [memory.take (n + 1)]) := by
  rw [readFrom]
  split
  · rename_i heq
    rw [h] at heq
    cases heq
  · rename_i heq
    rw [h] at heq
    cases heq
  · rename_i heq
    rw [h] at heq
    cases heq
    rfl

/-- `ReadEnvironmentEntries`; a null pointer is `none`. -/
def readEnvironmentEntries (environment : Option (List χ)) :
    Option (List (List χ)) :=
  environment.bind fun memory => readFrom c (maxBytes / c.size) memory []

def environmentEntryHasName (entry variableName : List χ) : Bool :=
  match entry with
  | [] => false
  | first :: _ =>
    if first = c.equals then false
    else
      match entry.findIdx? (· = c.equals) with
      | none => false
      | some separator =>
        separator == variableName.length &&
          (entry.take separator).map c.fold == variableName.map c.fold

/-- `SerializeEnvironmentEntries` of the sorted entries. -/
def serialize (entries : List (List χ)) : List χ :=
  entries.flatMap (fun entry => entry ++ [c.nul]) ++
    if entries.isEmpty then [c.nul, c.nul] else [c.nul]

def deferredCigEnv : List χ := c.text "_PL_DEFERRED_CIG"

/-- `_ultow` with radix 10. -/
def decimal (flags : UInt32) : List χ :=
  (Nat.toDigits 10 flags.toNat).map fun x => c.ofCode x.toNat

/-- What takes the place of the entries with the hook's names; `none` is no
variable name. -/
def addedEntries (addMarker : Bool) (variableName : Option (List χ))
    (deferredSignatureFlags : UInt32) : List (List χ) :=
  (match variableName with
  | some name => if addMarker then [name ++ c.text "=1"] else []
  | none => []) ++
  if deferredSignatureFlags ≠ 0 then
    [deferredCigEnv c ++ c.text "=" ++ decimal c deferredSignatureFlags]
  else []

def dropped (variableName : Option (List χ)) (entry : List χ) : Bool :=
  (match variableName with
  | some name => environmentEntryHasName c entry name
  | none => false) || environmentEntryHasName c entry (deferredCigEnv c)

/-- The common body of `BuildWideChildEnvironment` and
`BuildAnsiChildEnvironment`; `inherited` is what the system hands out where no
environment is supplied. -/
def buildChildEnvironment (sort : Sorting (key c))
    (suppliedEnvironment inherited : Option (List χ)) (addMarker : Bool)
    (variableName : Option (List χ)) (deferredSignatureFlags : UInt32) :
    Option (List χ) :=
  (readEnvironmentEntries c (suppliedEnvironment.or inherited)).map fun entries =>
    serialize c (sort.run
      (entries.filter (fun entry => !dropped c variableName entry) ++
        addedEntries c addMarker variableName deferredSignatureFlags))

def buildWideChildEnvironment (fold : UInt16 → Nat)
    (sort : Sorting (key (wide fold)))
    (suppliedEnvironment inherited : Option (List UInt16)) (addMarker : Bool)
    (variableName : List UInt16) (deferredSignatureFlags : UInt32) :
    Option (List UInt16) :=
  buildChildEnvironment (wide fold) sort suppliedEnvironment inherited addMarker
    (if variableName.isEmpty then none else some variableName)
    deferredSignatureFlags

/-- `toAnsi` is the conversion into a buffer of 64 characters, which fails if
the name does not fit. -/
def buildAnsiChildEnvironment (fold : UInt8 → Nat)
    (toAnsi : List UInt16 → Option (List UInt8))
    (sort : Sorting (key (narrow fold)))
    (suppliedEnvironment inherited : Option (List UInt8)) (addMarker : Bool)
    (variableName : List UInt16) (deferredSignatureFlags : UInt32) :
    Option (List UInt8) :=
  buildChildEnvironment (narrow fold) sort suppliedEnvironment inherited addMarker
    (if variableName.isEmpty then none else toAnsi variableName)
    deferredSignatureFlags

end ProxyLane.Hook.ChildEnvironment
