import ProxyLane.Foundation.LittleEndian
import ProxyLane.Foundation.Sextets

/-!
# The elevated launch request

The dialog hands its helper a request with a fixed header and four texts, as
unpadded Base64URL.  The helper has more rights than its caller, so it takes
nothing that the dialog would not have written.
-/

namespace ProxyLane.Hook.ElevatedLaunch

open ProxyLane.Foundation

inductive Platform where
  | x86
  | x64
  deriving DecidableEq, Repr

/-- One more than the largest `size_t`. -/
def Platform.sizes : Platform → Nat
  | .x86 => 2 ^ 32
  | .x64 => 2 ^ 64

def Fits (p : Platform) (bytes : Bytes) : Prop := bytes.length < p.sizes / 2

/-- Why there is no result: `FALSE`, or an access outside of a buffer or an
offset that wraps. -/
inductive Stop where
  | refused
  | fault
  deriving DecidableEq, Repr

structure Buffer where
  isNull : Bool
  size : Nat

def Buffer.capacity (buffer : Buffer) : Nat :=
  if buffer.isNull then 0 else buffer.size

/-- `destination[destinationOffset++] = byte`. -/
def put (capacity : Nat) (out : Bytes) (byte : UInt8) : Except Stop Bytes :=
  if out.length < capacity then .ok (out ++ [byte]) else .error .fault

def write (capacity : Nat) (out bytes : Bytes) : Except Stop Bytes :=
  bytes.foldlM (put capacity) out

def encodedLength (p : Platform) (sourceSize : Nat) : Nat :=
  let remainder := sourceSize % 3
  (sourceSize / 3 * 4 + if remainder = 0 then 0 else remainder + 1) % p.sizes

/-- `static_cast<size_t>(-1)`. -/
def noLength (p : Platform) : Nat := p.sizes - 1

def decodedLength (p : Platform) (sourceLength : Nat) : Nat :=
  let remainder := sourceLength % 4
  if remainder = 1 then noLength p
  else (sourceLength / 4 * 3 + if remainder = 0 then 0 else remainder - 1) % p.sizes

def alphabet : Bytes :=
  ascii "ABCDEFGHIJKLMNOPQRSTUVWXYZabcdefghijklmnopqrstuvwxyz0123456789-_"

/-- `alphabet[i]`, with the NUL behind the literal. -/
def digit (i : Nat) : UInt8 := alphabet.getD i 0

/-- `ProxyLaneBase64UrlDigitValue`; -1 is `none`. -/
def digitValue (value : UInt8) : Option Nat :=
  if 65 ≤ value ∧ value ≤ 90 then some (value.toNat - 65)
  else if 97 ≤ value ∧ value ≤ 122 then some (value.toNat - 97 + 26)
  else if 48 ≤ value ∧ value ≤ 57 then some (value.toNat - 48 + 52)
  else if value = 45 then some 62
  else if value = 95 then some 63
  else none

/-- The loop of `ProxyLaneBase64UrlEncode` and the bytes behind it. -/
def encodeFrom (capacity : Nat) : Bytes → Bytes → Except Stop Bytes
  | a :: b :: c :: rest, out =>
    let first := a.toNat
    let second := b.toNat
    let third := c.toNat
    (write capacity out [digit (first >>> 2),
      digit (((first &&& 0x03) <<< 4) ||| (second >>> 4)),
      digit (((second &&& 0x0F) <<< 2) ||| (third >>> 6)),
      digit (third &&& 0x3F)]).bind (encodeFrom capacity rest)
  | [a, b], out =>
    let first := a.toNat
    let second := b.toNat
    write capacity out [digit (first >>> 2),
      digit (((first &&& 0x03) <<< 4) ||| (second >>> 4)),
      digit ((second &&& 0x0F) <<< 2)]
  | [a], out =>
    let first := a.toNat
    write capacity out [digit (first >>> 2), digit ((first &&& 0x03) <<< 4)]
  | [], out => .ok out

/-- `ProxyLaneBase64UrlEncode`: the characters before the final NUL. -/
def encode (p : Platform) (source : Bytes) (destination : Buffer) :
    Except Stop Bytes :=
  let requiredLength := encodedLength p source.length
  if destination.isNull ∨ destination.size ≤ requiredLength then .error .refused
  else
    (encodeFrom destination.capacity source []).bind fun out =>
      (put destination.capacity out 0).map fun _ => out

/-- The loop of `ProxyLaneBase64UrlDecode` and the characters behind it. -/
def decodeFrom (capacity : Nat) : Bytes → Bytes → Except Stop Bytes
  | c₁ :: c₂ :: c₃ :: c₄ :: rest, out =>
    match digitValue c₁, digitValue c₂, digitValue c₃, digitValue c₄ with
    | some first, some second, some third, some fourth =>
      (write capacity out [UInt8.ofNat ((first <<< 2) ||| (second >>> 4)),
        UInt8.ofNat ((second <<< 4) ||| (third >>> 2)),
        UInt8.ofNat ((third <<< 6) ||| fourth)]).bind
        (decodeFrom capacity rest)
    | _, _, _, _ => .error .refused
  | [c₁, c₂, c₃], out =>
    match digitValue c₁, digitValue c₂ with
    | some first, some second =>
      (put capacity out (UInt8.ofNat ((first <<< 2) ||| (second >>> 4)))).bind
        fun out =>
          match digitValue c₃ with
          | some third =>
            if third &&& 0x03 ≠ 0 then .error .refused
            else put capacity out
              (UInt8.ofNat ((second <<< 4) ||| (third >>> 2)))
          | none => .error .refused
    | _, _ => .error .refused
  | [c₁, c₂], out =>
    match digitValue c₁, digitValue c₂ with
    | some first, some second =>
      if second &&& 0x0F ≠ 0 then .error .refused
      else put capacity out (UInt8.ofNat ((first <<< 2) ||| (second >>> 4)))
    | _, _ => .error .refused
  -- the second character would be read behind the source
  | [_], _ => .error .fault
  | [], out => .ok out

def decode (p : Platform) (source : Bytes) (destination : Buffer) :
    Except Stop Bytes :=
  let requiredLength := decodedLength p source.length
  if requiredLength = noLength p ∨ (destination.isNull ∧ requiredLength ≠ 0) ∨
      destination.size < requiredLength then .error .refused
  else
    (decodeFrom destination.capacity source []).bind fun out =>
      if out.length = requiredLength then .ok out else .error .refused

def requestMagic : Nat := 0x4C454C50

def requestVersion : Nat := 2

def maxPath : Nat := 260

def targetCch : Nat := maxPath + 1024

def commandCch : Nat := 4096

def directoryCch : Nat := maxPath

def pipeCch : Nat := 128

/-- `sizeof(ProxyLaneElevatedLaunchWireHeader)`. -/
def headerBytes : Nat := 32

def maxWireBytes : Nat :=
  headerBytes + (targetCch - 1) * 3 + (commandCch - 1) * 3 +
    (directoryCch - 1) * 3 + (pipeCch - 1)

structure WireHeader where
  magic : Nat
  version : Nat
  headerSize : Nat
  totalSize : Nat
  targetPathBytes : Nat
  commandLineBytes : Nat
  workingDirectoryBytes : Nat
  pipeNameBytes : Nat
  flags : Nat
  deriving DecidableEq, Repr

def field (data : Bytes) (offset width : Nat) : Nat :=
  leNat ((data.drop offset).take width)

/-- `memcpy(&header, data, sizeof(header))`. -/
def readHeader (data : Bytes) : WireHeader where
  magic := field data 0 4
  version := field data 4 2
  headerSize := field data 6 2
  totalSize := field data 8 4
  targetPathBytes := field data 12 4
  commandLineBytes := field data 16 4
  workingDirectoryBytes := field data 20 4
  pipeNameBytes := field data 24 4
  flags := field data 28 4

structure Slice where
  offset : Nat
  length : Nat
  deriving DecidableEq, Repr

structure RequestView where
  targetPath : Slice
  commandLine : Slice
  workingDirectory : Slice
  pipeName : Slice
  deriving DecidableEq, Repr

/-- `a - b` of sizes. -/
def subSize (a b : Nat) : Except Stop Nat :=
  if b ≤ a then .ok (a - b) else .error .fault

/-- `a + b` of sizes. -/
def addSize (p : Platform) (a b : Nat) : Except Stop Nat :=
  if a + b < p.sizes then .ok (a + b) else .error .fault

/-- `PROXYLANE_ASSIGN_WIRE_FIELD`: the field and the offset behind it. -/
def assignField (p : Platform) (dataSize offset headerLength : Nat) :
    Except Stop (Slice × Nat) :=
  (subSize dataSize offset).bind fun left =>
    if left < headerLength then .error .refused
    else (addSize p offset headerLength).map fun next =>
      (⟨offset, headerLength⟩, next)

def headerOk (header : WireHeader) (dataSize : Nat) : Bool :=
  !(header.magic != requestMagic || header.version != requestVersion ||
    header.headerSize != headerBytes || header.totalSize != dataSize ||
    header.flags != 0 || header.targetPathBytes == 0 ||
    header.commandLineBytes == 0 || header.pipeNameBytes == 0)

/-- `ProxyLaneParseElevatedRequest`. -/
def parse (p : Platform) (data : Bytes) : Except Stop RequestView :=
  if data.length < headerBytes ∨ maxWireBytes < data.length then .error .refused
  else
    let header := readHeader data
    if !headerOk header data.length then .error .refused
    else do
      let (targetPath, offset) ←
        assignField p data.length headerBytes header.targetPathBytes
      let (commandLine, offset) ←
        assignField p data.length offset header.commandLineBytes
      let (workingDirectory, offset) ←
        assignField p data.length offset header.workingDirectoryBytes
      let (pipeName, offset) ← assignField p data.length offset header.pipeNameBytes
      if offset = data.length then
        .ok ⟨targetPath, commandLine, workingDirectory, pipeName⟩
      else .error .refused

end ProxyLane.Hook.ElevatedLaunch
