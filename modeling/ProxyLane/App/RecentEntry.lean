import Mathlib.Tactic
import ProxyLane.Foundation.Bytes

/-!
# Records of recent applications

An entry of the recent applications is kept as one section of the settings
file: numbers in decimal, texts in UTF-8 and Base64.  A record is read back only
if each of its texts is the one that writing it again would give.
-/

namespace ProxyLane.App.RecentApplications

open ProxyLane.Foundation

/-- A `CString`, by its 16-bit units. -/
abbrev Text := List UInt16

def unit (c : Char) : UInt16 := UInt16.ofNat c.toNat

def wide (text : String) : Text := text.toList.map unit

def hexDigit (c : UInt16) : Bool :=
  (48 ≤ c.toNat && c.toNat ≤ 57) || (97 ≤ c.toNat && c.toNat ≤ 102)

/-- What is asked of the system: lower case as `CompareNoCase` sees it, and
the conversions between UTF-16 and UTF-8. -/
structure Platform where
  lower : UInt16 → UInt16
  lower_hex : ∀ c, hexDigit c = true → lower c = c
  wideCharToMultiByte : Text → Bytes
  multiByteToWideChar : Bytes → Option Text

def table : Text :=
  wide "ABCDEFGHIJKLMNOPQRSTUVWXYZabcdefghijklmnopqrstuvwxyz0123456789+/"

def symbol (n : Nat) : UInt16 := table.getD n 0

def pad : UInt16 := unit '='

/-- `CBase64::Encode` without line breaks. -/
def encode64 : Bytes → Text
  | a :: b :: c :: rest =>
    let n := a.toNat * 65536 + b.toNat * 256 + c.toNat
    symbol (n / 262144) :: symbol (n / 4096 % 64) ::
      symbol (n / 64 % 64) :: symbol (n % 64) :: encode64 rest
  | [a, b] =>
    let n := a.toNat * 65536 + b.toNat * 256
    [symbol (n / 262144), symbol (n / 4096 % 64), symbol (n / 64 % 64), pad]
  | [a] =>
    let n := a.toNat * 65536
    [symbol (n / 262144), symbol (n / 4096 % 64), pad, pad]
  | [] => []

def decodeChar (c : UInt16) : Option Nat := table.findIdx? (· == c)

def byte (n : Nat) : UInt8 := UInt8.ofNat n

def decodeSymbols : List Nat → Bytes
  | a :: b :: c :: d :: rest =>
    let n := a * 262144 + b * 4096 + c * 64 + d
    byte (n / 65536) :: byte (n / 256) :: byte n :: decodeSymbols rest
  | [a, b, c] =>
    let n := a * 262144 + b * 4096 + c * 64
    [byte (n / 65536), byte (n / 256)]
  | [a, b] => [byte ((a * 262144 + b * 4096) / 65536)]
  | [_] => []
  | [] => []

/-- `CBase64::DecodeW` skips what is not in its table. -/
def decode64 (text : Text) : Bytes := decodeSymbols (text.filterMap decodeChar)

section Texts

variable (p : Platform)

def encodeText (text : Text) : Option Text :=
  if 32767 < text.length then none
  else if text = [] then some []
  else
    let utf8 := p.wideCharToMultiByte text
    if utf8 = [] then none else some (encode64 utf8)

def decodeText (encoded : Text) : Option Text :=
  if encoded = [] then some []
  else if 131072 < encoded.length ∨ encoded.length % 4 ≠ 0 then none
  else
    let decoded := decode64 encoded
    if decoded = [] then none
    else match p.multiByteToWideChar decoded with
      | none => none
      | some text =>
        if text = [] ∨ 32767 < text.length ∨ 0 ∈ text then none
        else if encodeText p text = some encoded then some text
        else none

variable {p}

private theorem encode64_ne_nil {bytes : Bytes} (h : bytes ≠ []) :
    encode64 bytes ≠ [] := by
  rcases bytes with _ | ⟨a, _ | ⟨b, _ | ⟨c, rest⟩⟩⟩ <;> simp_all [encode64]

theorem encodeText_eq_nil {text encoded : Text}
    (h : encodeText p text = some encoded) : encoded = [] ↔ text = [] := by
  simp only [encodeText] at h
  split_ifs at h with hlong hempty hutf8
  · simp only [Option.some.injEq] at h
    simp [hempty, ← h]
  · simp only [Option.some.injEq] at h
    simp [hempty, ← h, encode64_ne_nil hutf8]

theorem encodeText_of_decodeText {encoded text : Text}
    (h : decodeText p encoded = some text) :
    encodeText p text = some encoded := by
  simp only [decodeText] at h
  split_ifs at h with hempty hlength hdecoded
  · simp only [Option.some.injEq] at h
    subst h hempty
    simp [encodeText]
  · cases hwide : p.multiByteToWideChar (decode64 encoded) with
    | none => simp [hwide] at h
    | some wide =>
      simp only [hwide] at h
      split_ifs at h with hbad hcanonical
      simp only [Option.some.injEq] at h
      rwa [← h]

end Texts

/-- `%I64u`. -/
def decimal (n : Nat) : Text := (Nat.toDigits 10 n).map unit

def isDigit (c : UInt16) : Bool := 48 ≤ c.toNat && c.toNat ≤ 57

/-- The largest 64-bit number is refused. -/
@[irreducible] def counterLimit : Nat := 18446744073709551615

def decodeNumber (text : Text) : Option Nat :=
  if text = [] ∨ 20 < text.length ∨ text.all isDigit = false then none
  else
    let n := Nat.ofDigitChars 10 (text.map fun c => Char.ofNat c.toNat) 0
    if n < counterLimit then some n else none

theorem unit_digit {c : Char} (h : c.isDigit = true) :
    isDigit (unit c) = true ∧ Char.ofNat (unit c).toNat = c := by
  have hrange : 48 ≤ c.toNat ∧ c.toNat ≤ 57 := by
    simp only [Char.isDigit, ge_iff_le, Bool.and_eq_true, decide_eq_true_eq,
      UInt32.le_iff_toNat_le] at h
    exact h
  have hsmall : (unit c).toNat = c.toNat := by
    simp only [unit, UInt16.toNat_ofNat']
    omega
  simp [isDigit, hsmall, hrange]

theorem decodeNumber_decimal {n : Nat} (h : n < 2 ^ 64) :
    decodeNumber (decimal n) = if n < counterLimit then some n else none := by
  have hdigits : ∀ c ∈ Nat.toDigits 10 n, c.isDigit = true := fun c =>
    Nat.isDigit_of_mem_toDigits (by decide) (by decide)
  have hback : (decimal n).map (fun c => Char.ofNat c.toNat) =
      Nat.toDigits 10 n := by
    rw [decimal, List.map_map]
    calc (Nat.toDigits 10 n).map _ = (Nat.toDigits 10 n).map id :=
          List.map_congr_left fun c hc => (unit_digit (hdigits c hc)).2
      _ = Nat.toDigits 10 n := List.map_id _
  have hall : (decimal n).all isDigit = true := by
    simp only [decimal, List.all_map, List.all_eq_true]
    exact fun c hc => (unit_digit (hdigits c hc)).1
  have hlength : (decimal n).length ≤ 20 := by
    rw [decimal, List.length_map]
    apply (Nat.length_toDigits_le_iff (by decide) (by decide)).mpr
    omega
  have hne : decimal n ≠ [] := by
    simp [decimal, Nat.toDigits_ne_nil]
  have hgood : ¬ (decimal n = [] ∨ 20 < (decimal n).length ∨
      (decimal n).all isDigit = false) := by
    simp only [hall, not_or]
    exact ⟨hne, by omega, by simp⟩
  simp only [decodeNumber, hgood, if_false, hback, Nat.ofDigitChars_ten_toDigits]

/-- A section that was read, by its keys; `other` is whatever else tells it
from another one. -/
structure Section where
  version : Option Text := none
  profileId : Option Text := none
  pinned : Option Text := none
  elevated : Option Text := none
  lastUsed : Option Text := none
  displayOrder : Option Text := none
  name : Option Text := none
  path : Option Text := none
  aumid : Option Text := none
  arguments : Option Text := none
  workingDirectory : Option Text := none
  shortcut : Option Text := none
  other : List (Text × Text) := []
  deriving DecidableEq

structure Application where
  name : Text := []
  path : Text := []
  aumid : Text := []
  arguments : Text := []
  workingDirectory : Text := []
  deriving DecidableEq

structure Entry where
  id : Text := []
  profileId : Text := []
  app : Application := {}
  shortcut : Text := []
  elevated : Bool := false
  pinned : Bool := false
  lastUsed : Nat := 0
  displayOrder : Nat := 0
  deriving DecidableEq

def flag (b : Bool) : Text := if b then wide "1" else wide "0"

def Section.fields (s : Section) : List (String × Option Text) :=
  [("Version", s.version), ("ProfileId", s.profileId), ("Pinned", s.pinned),
    ("Elevated", s.elevated), ("LastUsed", s.lastUsed),
    ("DisplayOrder", s.displayOrder), ("NameUtf8Base64", s.name),
    ("PathUtf8Base64", s.path), ("AumidUtf8Base64", s.aumid),
    ("ArgumentsUtf8Base64", s.arguments),
    ("WorkingDirectoryUtf8Base64", s.workingDirectory),
    ("ShortcutUtf8Base64", s.shortcut)]

/-- What the section takes in the buffer of `WriteSection`. -/
def Section.characters (s : Section) : Nat :=
  1 + (s.fields.map fun (key, value) =>
    key.length + (value.getD []).length + 2).sum

section Codec

variable (p : Platform)

def encodeEntry (entry : Entry) : Option Section := do
  let name ← encodeText p entry.app.name
  let path ← encodeText p entry.app.path
  let aumid ← encodeText p entry.app.aumid
  let arguments ← encodeText p entry.app.arguments
  let workingDirectory ← encodeText p entry.app.workingDirectory
  let shortcut ← encodeText p entry.shortcut
  let fields : Section := {
    version := some (wide "1"), profileId := some entry.profileId
    pinned := some (flag entry.pinned), elevated := some (flag entry.elevated)
    lastUsed := some (decimal entry.lastUsed)
    displayOrder := some (decimal entry.displayOrder)
    name := some name, path := some path, aumid := some aumid
    arguments := some arguments, workingDirectory := some workingDirectory
    shortcut := some shortcut }
  if 32767 < fields.characters then none else some fields

def decodeFlag (text : Option Text) : Option Bool :=
  if text = some (wide "0") then some false
  else if text = some (wide "1") then some true
  else none

def decodeOrder (text : Option Text) : Option Nat :=
  if text.getD [] = [] then some 0 else decodeNumber (text.getD [])

def decodeEntry (identity id : Text) (fields : Section) : Option Entry := do
  let nameText ← fields.name
  let pathText ← fields.path
  let aumidText ← fields.aumid
  let argumentsText ← fields.arguments
  let workingDirectoryText ← fields.workingDirectory
  let shortcutText ← fields.shortcut
  guard (fields.version = some (wide "1"))
  guard (fields.profileId.getD [] = identity)
  let pinned ← decodeFlag fields.pinned
  let elevated ← decodeFlag fields.elevated
  let lastUsed ← decodeNumber (fields.lastUsed.getD [])
  let displayOrder ← decodeOrder fields.displayOrder
  let name ← decodeText p nameText
  let path ← decodeText p pathText
  let aumid ← decodeText p aumidText
  let arguments ← decodeText p argumentsText
  let workingDirectory ← decodeText p workingDirectoryText
  let shortcut ← decodeText p shortcutText
  guard (path ≠ [] ∨ aumid ≠ [])
  pure {
    id, profileId := identity, shortcut, elevated, pinned, lastUsed
    displayOrder, app := { name, path, aumid, arguments, workingDirectory } }

def reread (text : Text) : Option Text := (encodeText p text).bind (decodeText p)

def rereadEntry (entry : Entry) : Option Entry := do
  guard (entry.lastUsed < counterLimit)
  guard (entry.displayOrder < counterLimit)
  let name ← reread p entry.app.name
  let path ← reread p entry.app.path
  let aumid ← reread p entry.app.aumid
  let arguments ← reread p entry.app.arguments
  let workingDirectory ← reread p entry.app.workingDirectory
  let shortcut ← reread p entry.shortcut
  guard (path ≠ [] ∨ aumid ≠ [])
  pure { entry with
    shortcut, app := { name, path, aumid, arguments, workingDirectory } }

variable {p}

theorem reread_of_decodeText {encoded text : Text}
    (h : decodeText p encoded = some text) : reread p text = some text := by
  simp [reread, encodeText_of_decodeText h, h]

theorem decodeFlag_flag (b : Bool) : decodeFlag (some (flag b)) = some b := by
  cases b <;> decide

theorem decodeOrder_decimal {n : Nat} (h : n < 2 ^ 64) :
    decodeOrder (some (decimal n)) =
      if n < counterLimit then some n else none := by
  have hne : decimal n ≠ [] := by simp [decimal, Nat.toDigits_ne_nil]
  simp [decodeOrder, hne, decodeNumber_decimal h]

theorem decodeEntry_encodeEntry {entry : Entry} {fields : Section}
    (h : encodeEntry p entry = some fields) (hused : entry.lastUsed < 2 ^ 64)
    (horder : entry.displayOrder < 2 ^ 64) :
    decodeEntry p entry.profileId entry.id fields = rereadEntry p entry := by
  simp only [encodeEntry, bind, Option.bind_eq_some_iff] at h
  obtain ⟨name, hname, path, hpath, aumid, haumid, arguments, harguments,
    workingDirectory, hdirectory, shortcut, hshortcut, h⟩ := h
  split_ifs at h with hlong
  simp only [Option.some.injEq] at h
  subst h
  by_cases hu : entry.lastUsed < counterLimit
  · by_cases ho : entry.displayOrder < counterLimit
    · simp [decodeEntry, rereadEntry, reread, decodeFlag_flag,
        decodeNumber_decimal hused, decodeOrder_decimal horder, hu, ho, hname,
        hpath, haumid, harguments, hdirectory, hshortcut, guard]
    · simp [decodeEntry, rereadEntry, decodeFlag_flag,
        decodeNumber_decimal hused, decodeOrder_decimal horder, hu, ho, guard]
  · simp [decodeEntry, rereadEntry, decodeFlag_flag,
      decodeNumber_decimal hused, hu, guard]

def Entry.texts (entry : Entry) : List Text :=
  [entry.app.name, entry.app.path, entry.app.aumid, entry.app.arguments,
    entry.app.workingDirectory, entry.shortcut]

structure Presentable (p : Platform) (entry : Entry) : Prop where
  target : entry.app.path ≠ [] ∨ entry.app.aumid ≠ []
  texts : ∀ text ∈ entry.texts, (reread p text).isSome

structure Stored (p : Platform) (identity : Text) (entry : Entry) : Prop where
  profileId : entry.profileId = identity
  lastUsed : entry.lastUsed < counterLimit
  displayOrder : entry.displayOrder < counterLimit
  target : entry.app.path ≠ [] ∨ entry.app.aumid ≠ []
  texts : ∀ text ∈ entry.texts, reread p text = some text

theorem decodeNumber_lt {text : Text} {n : Nat}
    (h : decodeNumber text = some n) : n < counterLimit := by
  simp only [decodeNumber] at h
  split_ifs at h with hbad hlimit
  simp only [Option.some.injEq] at h
  rwa [← h]

theorem decodeOrder_lt {text : Option Text} {n : Nat}
    (h : decodeOrder text = some n) : n < counterLimit := by
  simp only [decodeOrder] at h
  split_ifs at h
  · simp only [Option.some.injEq] at h
    simp [← h, counterLimit]
  · exact decodeNumber_lt h

theorem of_bind_eq_some {α β : Type} {x : Option α} {f : α → Option β} {b : β}
    (h : (x >>= f) = some b) : ∃ a, x = some a ∧ f a = some b :=
  Option.bind_eq_some_iff.mp h

theorem of_guard_eq_some {P : Prop} [Decidable P] {u : Unit}
    (h : (guard P : Option Unit) = some u) : P := by
  by_contra hP
  simp [guard, hP] at h

theorem stored_of_decodeEntry {identity id : Text} {fields : Section}
    {entry : Entry} (h : decodeEntry p identity id fields = some entry) :
    entry.id = id ∧ Stored p identity entry := by
  unfold decodeEntry at h
  -- The six texts have to be there.
  iterate 6 obtain ⟨_, -, h⟩ := of_bind_eq_some h
  obtain ⟨-, -, h⟩ := of_bind_eq_some h
  obtain ⟨-, -, h⟩ := of_bind_eq_some h
  obtain ⟨pinned, -, h⟩ := of_bind_eq_some h
  obtain ⟨elevated, -, h⟩ := of_bind_eq_some h
  obtain ⟨lastUsed, hused, h⟩ := of_bind_eq_some h
  obtain ⟨displayOrder, horder, h⟩ := of_bind_eq_some h
  obtain ⟨name, hname, h⟩ := of_bind_eq_some h
  obtain ⟨path, hpath, h⟩ := of_bind_eq_some h
  obtain ⟨aumid, haumid, h⟩ := of_bind_eq_some h
  obtain ⟨arguments, harguments, h⟩ := of_bind_eq_some h
  obtain ⟨directory, hdirectory, h⟩ := of_bind_eq_some h
  obtain ⟨shortcut, hshortcut, h⟩ := of_bind_eq_some h
  obtain ⟨_, htarget, h⟩ := of_bind_eq_some h
  simp only [pure, Option.some.injEq] at h
  subst h
  refine ⟨rfl, rfl, decodeNumber_lt hused, decodeOrder_lt horder,
    of_guard_eq_some htarget, ?_⟩
  simp only [Entry.texts, List.forall_mem_cons, List.not_mem_nil,
    false_implies, implies_true, and_true]
  exact ⟨reread_of_decodeText hname, reread_of_decodeText hpath,
    reread_of_decodeText haumid, reread_of_decodeText harguments,
    reread_of_decodeText hdirectory, reread_of_decodeText hshortcut⟩

theorem rereadEntry_of_stored {identity : Text} {entry : Entry}
    (h : Stored p identity entry) : rereadEntry p entry = some entry := by
  obtain ⟨-, hused, horder, htarget, htexts⟩ := h
  simp only [Entry.texts, List.forall_mem_cons] at htexts
  obtain ⟨hname, hpath, haumid, harguments, hdirectory, hshortcut, -⟩ := htexts
  simp only [rereadEntry, hused, horder, hname, hpath, haumid, harguments,
    hdirectory, hshortcut, htarget, guard, if_true, bind, pure,
    Option.bind_some]

theorem reread_eq_nil {text text' : Text} (h : reread p text = some text') :
    text' = [] ↔ text = [] := by
  obtain ⟨encoded, hencoded, hdecoded⟩ := Option.bind_eq_some_iff.mp h
  rw [← encodeText_eq_nil hencoded,
    ← encodeText_eq_nil (encodeText_of_decodeText hdecoded)]

theorem rereadEntry_isSome {entry : Entry} :
    (rereadEntry p entry).isSome = true ↔ entry.lastUsed < counterLimit ∧
      entry.displayOrder < counterLimit ∧ Presentable p entry := by
  constructor
  · intro h
    obtain ⟨found, h⟩ := Option.isSome_iff_exists.mp h
    unfold rereadEntry at h
    obtain ⟨_, hused, h⟩ := of_bind_eq_some h
    obtain ⟨_, horder, h⟩ := of_bind_eq_some h
    obtain ⟨name, hname, h⟩ := of_bind_eq_some h
    obtain ⟨path, hpath, h⟩ := of_bind_eq_some h
    obtain ⟨aumid, haumid, h⟩ := of_bind_eq_some h
    obtain ⟨arguments, harguments, h⟩ := of_bind_eq_some h
    obtain ⟨directory, hdirectory, h⟩ := of_bind_eq_some h
    obtain ⟨shortcut, hshortcut, h⟩ := of_bind_eq_some h
    obtain ⟨_, htarget, h⟩ := of_bind_eq_some h
    have htarget := of_guard_eq_some htarget
    simp only [ne_eq, reread_eq_nil hpath, reread_eq_nil haumid] at htarget
    refine ⟨of_guard_eq_some hused, of_guard_eq_some horder, htarget, ?_⟩
    simp [Entry.texts, hname, hpath, haumid, harguments, hdirectory, hshortcut]
  · rintro ⟨hused, horder, htarget, htexts⟩
    simp only [Entry.texts, List.forall_mem_cons, Option.isSome_iff_exists]
      at htexts
    obtain ⟨⟨name, hname⟩, ⟨path, hpath⟩, ⟨aumid, haumid⟩,
      ⟨arguments, harguments⟩, ⟨directory, hdirectory⟩,
      ⟨shortcut, hshortcut⟩, -⟩ := htexts
    have htarget' : path ≠ [] ∨ aumid ≠ [] := by
      simpa only [ne_eq, reread_eq_nil hpath, reread_eq_nil haumid] using htarget
    simp only [rereadEntry, hused, horder, hname, hpath, haumid, harguments,
      hdirectory, hshortcut, htarget', guard, if_true, bind, pure,
      Option.bind_some, Option.isSome_some]

end Codec

end ProxyLane.App.RecentApplications
