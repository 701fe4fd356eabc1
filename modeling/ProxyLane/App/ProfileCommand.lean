import ProxyLane.App.Automation
import ProxyLane.Foundation.Cursor

/-!
# Profile commands

An automation run is handed to the instance that serves its profile as one
message of a pipe: a header, and the texts of the options, each behind its
length.  Runs without the newer options keep the first version of the format.
-/

namespace ProxyLane.App.ProfileCommand

open RecentApplications Automation ProxyLane.Foundation Cursor

def commandMagic : UInt32 := 0x434C5050
def commandVersion : UInt32 := 3
def maxCommandBytes : Nat := 60 * 1024
def maxProfileChars : Nat := 255
def maxTargetChars : Nat := 32767
def maxArguments : Nat := 128

def launchElevated : UInt32 := 1
def launchPackaged : UInt32 := 2
def launchFromShortcut : UInt32 := 4

inductive Platform
  | win32
  | x64
  deriving DecidableEq, Repr

/-- The bits of `size_t`. -/
def Platform.sizeT : Platform → Nat
  | .win32 => 32
  | .x64 => 64

structure CommandHeader where
  magic : UInt32
  version : UInt32
  totalBytes : UInt32
  profileChars : UInt32
  targetChars : UInt32
  argumentCount : UInt32
  deriving DecidableEq, Repr

/-- `sizeof(CommandHeader)`. -/
def headerSize : Nat := 24

def dword (value : UInt32) : Bytes := leBytes 4 value.toNat

def ofDword (bytes : Bytes) : UInt32 := UInt32.ofNat (leNat bytes)

def CommandHeader.bytes (header : CommandHeader) : Bytes :=
  dword header.magic ++ (dword header.version ++ (dword header.totalBytes ++
    (dword header.profileChars ++ (dword header.targetChars ++
      dword header.argumentCount))))

def CommandHeader.ofBytes (bytes : Bytes) : CommandHeader :=
  let field (index : Nat) := ofDword ((bytes.drop (4 * index)).take 4)
  ⟨field 0, field 1, field 2, field 3, field 4, field 5⟩

def textBytes (text : Text) : Bytes := text.flatMap fun c => leBytes 2 c.toNat

def textOf : Bytes → Text
  | low :: high :: rest => UInt16.ofNat (leNat [low, high]) :: textOf rest
  | _ => []

def appendDword (bytes : Bytes) (value : UInt32) : Bytes := bytes ++ dword value

def appendString (bytes : Bytes) (value : Text) (maxChars : Nat) : Option Bytes :=
  if maxChars < value.length then none
  else
    let bytes := appendDword bytes (UInt32.ofNat value.length) ++ textBytes value
    if bytes.length ≤ maxCommandBytes then some bytes else none

def launchFlags (elevated packaged shortcut : Bool) : UInt32 :=
  (if elevated then launchElevated else 0) |||
    (if packaged then launchPackaged else 0) |||
    (if shortcut then launchFromShortcut else 0)

def isExtended (options : AutomationOptions) : Bool :=
  options.shortcut || options.elevated || options.packaged ||
    options.applicationName ≠ [] || options.initialArguments ≠ [] ||
    options.workingDirectory ≠ []

def appendExtension (options : AutomationOptions) (bytes : Bytes) : Option Bytes :=
  if isExtended options then do
    let bytes ← appendString bytes options.initialArguments maxTargetChars
    let bytes ← appendString bytes options.workingDirectory maxTargetChars
    let bytes ← appendString bytes options.applicationName maxTargetChars
    some (appendDword bytes
      (launchFlags options.elevated options.packaged options.shortcut))
  else some bytes

def serializeCommand (options : AutomationOptions) : Option Bytes :=
  if maxArguments < options.targetArguments.length then none
  else do
    let bytes := List.replicate headerSize 0
    let bytes ← appendString bytes options.profileName maxProfileChars
    let bytes ← appendString bytes options.targetPath maxTargetChars
    let bytes ← options.targetArguments.foldlM
      (fun bytes argument => appendString bytes argument maxTargetChars) bytes
    let bytes ← appendExtension options bytes
    let header : CommandHeader :=
      { magic := commandMagic
        version := if isExtended options then commandVersion else 1
        totalBytes := UInt32.ofNat bytes.length
        profileChars := UInt32.ofNat options.profileName.length
        targetChars := UInt32.ofNat options.targetPath.length
        argumentCount := UInt32.ofNat options.targetArguments.length }
    let bytes := header.bytes ++ bytes.drop headerSize
    if bytes.length ≤ maxCommandBytes then some bytes else none

def readDword : Reader UInt32 := do
  need 4
  let data ← fetch 4
  skip 4
  return ofDword data

section Reading

variable (p : Platform)

def readString (maxChars : Nat) : Reader Text := do
  let chars ← readDword
  if maxChars < chars.toNat then refuse
  else do
    let size ← product 64 chars.toNat 2
    need size
    let data ← fetch (chars.toNat * 2)
    let size ← product p.sizeT chars.toNat 2
    skip size
    return textOf data

def readExtension (options : AutomationOptions) : Reader AutomationOptions := do
  let initialArguments ← readString p maxTargetChars
  let workingDirectory ← readString p maxTargetChars
  let applicationName ← readString p maxTargetChars
  let flags ← readDword
  if flags &&& ~~~(launchElevated ||| launchPackaged ||| launchFromShortcut) ≠ 0 then
    refuse
  else
    return { options with
      initialArguments := initialArguments
      workingDirectory := workingDirectory
      applicationName := applicationName
      elevated := flags &&& launchElevated ≠ 0
      packaged := flags &&& launchPackaged ≠ 0
      shortcut := flags &&& launchFromShortcut ≠ 0 }

def readBody (header : CommandHeader) : Reader AutomationOptions := do
  let profileName ← readString p maxProfileChars
  let targetPath ← readString p maxTargetChars
  if header.profileChars ≠ UInt32.ofNat profileName.length ∨
      header.targetChars ≠ UInt32.ofNat targetPath.length then
    refuse
  else do
    let targetArguments ←
      many (readString p maxTargetChars) header.argumentCount.toNat
    let options := { AutomationOptions.empty with
      profileName := profileName
      targetPath := targetPath
      targetArguments := targetArguments }
    if header.version = commandVersion then readExtension p options
    else return options

def isRefused (header : CommandHeader) (byteCount : Nat) : Prop :=
  header.magic ≠ commandMagic ∨
    (header.version ≠ 1 ∧ header.version ≠ commandVersion) ∨
    header.totalBytes.toNat ≠ byteCount ∨ maxCommandBytes < byteCount ∨
    maxArguments < header.argumentCount.toNat

instance (header : CommandHeader) (byteCount : Nat) :
    Decidable (isRefused header byteCount) := by
  unfold isRefused
  infer_instance

/-- The options of a message of `bytes.length` bytes; none where the result is
`FALSE`. -/
def parseCommand (bytes : Bytes) : Except Fault (Option AutomationOptions) :=
  if bytes.length < headerSize then .ok none
  else
    match peek headerSize bytes 0 with
    | .error fault => .error fault
    | .ok none => .ok none
    | .ok (some (data, _)) =>
      let header := CommandHeader.ofBytes data
      if isRefused header bytes.length then .ok none
      else
        match readBody p header bytes headerSize with
        | .error fault => .error fault
        | .ok none => .ok none
        | .ok (some (options, cursor)) =>
          if cursor = bytes.length then .ok (some { options with enabled := true })
          else .ok none

end Reading

structure Extension where
  initialArguments : Text
  workingDirectory : Text
  applicationName : Text
  elevated : Bool
  packaged : Bool
  shortcut : Bool

structure Content where
  profileName : Text
  targetPath : Text
  targetArguments : List Text
  extension : Option Extension

def encodeString (text : Text) : Bytes :=
  dword (UInt32.ofNat text.length) ++ textBytes text

def Extension.bytes (e : Extension) : Bytes :=
  encodeString e.initialArguments ++ (encodeString e.workingDirectory ++
    (encodeString e.applicationName ++
      dword (launchFlags e.elevated e.packaged e.shortcut)))

def Extension.fits (e : Extension) : Prop :=
  e.initialArguments.length ≤ maxTargetChars ∧
    e.workingDirectory.length ≤ maxTargetChars ∧
    e.applicationName.length ≤ maxTargetChars

def Content.body (c : Content) : Bytes :=
  encodeString c.profileName ++ (encodeString c.targetPath ++
    (c.targetArguments.flatMap encodeString ++ c.extension.elim [] Extension.bytes))

def Content.header (c : Content) : CommandHeader where
  magic := commandMagic
  version := if c.extension.isSome then commandVersion else 1
  totalBytes := UInt32.ofNat (headerSize + c.body.length)
  profileChars := UInt32.ofNat c.profileName.length
  targetChars := UInt32.ofNat c.targetPath.length
  argumentCount := UInt32.ofNat c.targetArguments.length

def Content.bytes (c : Content) : Bytes := c.header.bytes ++ c.body

structure Content.fits (c : Content) : Prop where
  profileName : c.profileName.length ≤ maxProfileChars
  targetPath : c.targetPath.length ≤ maxTargetChars
  targetArguments : ∀ argument ∈ c.targetArguments, argument.length ≤ maxTargetChars
  extension : ∀ e ∈ c.extension, e.fits

structure Message extends Content where
  fits : toContent.fits
  count_le : targetArguments.length ≤ maxArguments
  size_le : toContent.bytes.length ≤ maxCommandBytes

def Extension.apply (e : Extension) (options : AutomationOptions) : AutomationOptions :=
  { options with
    initialArguments := e.initialArguments
    workingDirectory := e.workingDirectory
    applicationName := e.applicationName
    elevated := e.elevated
    packaged := e.packaged
    shortcut := e.shortcut }

def Content.options (c : Content) : AutomationOptions :=
  let options := { AutomationOptions.empty with
    profileName := c.profileName
    targetPath := c.targetPath
    targetArguments := c.targetArguments }
  c.extension.elim options (Extension.apply · options)

end ProxyLane.App.ProfileCommand
