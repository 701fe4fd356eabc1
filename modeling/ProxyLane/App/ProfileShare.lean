import ProxyLane.Foundation.Base64

/-!
# The portable profile code

A profile is shared as the Base64url text of its JSON text behind a fixed
beginning.  Strings and texts are byte strings.  The JSON library is a
parameter: it prints a value, and of a text it gives the events it reports on
the way and the tree it has read.
-/

namespace ProxyLane.App

open ProxyLane.Foundation

namespace ProfileShare

/-- A value of the library; `float` are the numbers that are no integers.  In
a tree that was read the fields stand as in the text, in a value they are a map
and stand in the order of the keys. -/
inductive Value (φ : Type) where
  | null
  | boolean (b : Bool)
  | integer (n : Int)
  | float (x : φ)
  | string (s : Bytes)
  | array (items : List (Value φ))
  | object (fields : List (Bytes × Value φ))

variable {φ : Type}

def Value.fields : Value φ → List (Bytes × Value φ)
  | .object fields => fields
  | _ => []

/-- `at` where `contains` holds. -/
def Value.find (v : Value φ) (key : Bytes) : Option (Value φ) :=
  (v.fields.find? fun field => field.1 == key).map Prod.snd

def setField (key : Bytes) (x : Value φ) :
    List (Bytes × Value φ) → List (Bytes × Value φ)
  | [] => []
  | field :: rest =>
    if field.1 = key then (key, x) :: rest else field :: setField key x rest

/-- `value[key] = x` for a key that the object has. -/
def Value.replace (v : Value φ) (key : Bytes) (x : Value φ) : Value φ :=
  match v with
  | .object fields => .object (setField key x fields)
  | _ => v

inductive Event where
  | objectStart (depth : Nat)
  | objectEnd (depth : Nat)
  | arrayStart (depth : Nat)
  | arrayEnd (depth : Nat)
  | key (depth : Nat) (key : Bytes)
  | value (depth : Nat)
  deriving DecidableEq, Repr

def Event.depth : Event → Nat
  | .objectStart depth | .objectEnd depth | .arrayStart depth
  | .arrayEnd depth | .key depth _ | .value depth => depth

mutual

def events (depth : Nat) : Value φ → List Event
  | .array items =>
    .arrayStart depth :: itemEvents (depth + 1) items ++ [.arrayEnd depth]
  | .object fields =>
    .objectStart depth :: fieldEvents (depth + 1) fields ++ [.objectEnd depth]
  | .null | .boolean _ | .integer _ | .float _ | .string _ => [.value depth]

def itemEvents (depth : Nat) : List (Value φ) → List Event
  | [] => []
  | v :: rest => events depth v ++ itemEvents depth rest

def fieldEvents (depth : Nat) : List (Bytes × Value φ) → List Event
  | [] => []
  | (key, v) :: rest =>
    .key depth key :: events depth v ++ fieldEvents depth rest

end

/-- Places a field that was read before the others; a later one of the same
key has replaced it. -/
def placeField (key : Bytes) (x : Value φ) :
    List (Bytes × Value φ) → List (Bytes × Value φ)
  | [] => [(key, x)]
  | field :: rest =>
    if key < field.1 then (key, x) :: field :: rest
    else if key = field.1 then field :: rest
    else field :: placeField key x rest

mutual

def build : Value φ → Value φ
  | .array items => .array (buildItems items)
  | .object fields => .object (buildFields fields)
  | .null => .null
  | .boolean b => .boolean b
  | .integer n => .integer n
  | .float x => .float x
  | .string s => .string s

def buildItems : List (Value φ) → List (Value φ)
  | [] => []
  | v :: rest => build v :: buildItems rest

def buildFields : List (Bytes × Value φ) → List (Bytes × Value φ)
  | [] => []
  | (key, v) :: rest => placeField key (build v) (buildFields rest)

end

/-- The JSON library: `dump`, which refuses strings that are no UTF-8, and what
`parse` reports and reads of a text. -/
structure Library (φ : Type) where
  dump : Value φ → Option Bytes
  report : Bytes → List Event
  tree : Bytes → Option (Value φ)

def maxCodeBytes : Nat := 256 * 1024
def maxJsonBytes : Nat := 192 * 1024
def codePrefix : Bytes := ascii "proxylane://profile/v1/"

/-- The message of an `Error`, or an exception of the library. -/
inductive Failure where
  | share (key : String)
  | library
  deriving DecidableEq, Repr

abbrev Checked (α : Type) := Except Failure α

def fail {α : Type} (key : String) : Checked α := .error (.share key)

def require (condition : Bool) (key : String) : Checked Unit :=
  if condition then .ok () else fail key

/-- `String`. -/
def stringField (object : Value φ) (key : String) (limit : Nat) : Checked Bytes :=
  match object.find (ascii key) with
  | some (.string value) => do
      require (value.length ≤ limit) "share.field_too_long"
      require (value.all fun c => c ≠ 0 && c ≠ 13 && c ≠ 10) "share.invalid_fields"
      return value
  | _ => fail "share.invalid_fields"

def isObject : Value φ → Bool
  | .object _ => true
  | _ => false

def integerField (value : Value φ) (key : String) : Option Int :=
  match value.find (ascii key) with
  | some (.integer n) => some n
  | _ => none

def booleanField (value : Value φ) (key : String) : Option Bool :=
  match value.find (ascii key) with
  | some (.boolean b) => some b
  | _ => none

def checkName (name : Bytes) : Checked Unit :=
  require (!name.isEmpty &&
    !name.any (fun c => c = 91 || c = 93 || c = 13 || c = 10) &&
    name.head? ≠ some 32 && name.getLast? ≠ some 32 && !name.contains 9)
    "share.invalid_name"

def checkPort (value : Value φ) (type host : Bytes) : Checked Unit :=
  match integerField value "port" with
  | some port =>
    require (0 ≤ port && port ≤ 65535 &&
      (type = ascii "NOPROXY" || (!host.isEmpty && port ≠ 0 &&
        !host.any fun c => c = 32 || c = 9)))
      "profile.invalid_endpoint"
  | none => fail "profile.invalid_endpoint"

def checkBooleans (value : Value φ) : List String → Checked Unit
  | [] => .ok ()
  | key :: rest => do
      require (booleanField value key).isSome "share.invalid_fields"
      checkBooleans value rest

def checkModes (value : Value φ) : List String → Checked Unit
  | [] => .ok ()
  | key :: rest => do
      require (integerField value key = some 0 || integerField value key = some 1)
        "share.invalid_fields"
      checkModes value rest

/-- The loop over the lines of one filter; `bytes` is their size so far. -/
def checkLines : Nat → List (Value φ) → Checked Unit
  | _, [] => .ok ()
  | bytes, line :: rest => do
      let text ← stringField (.object [(ascii "line", line)]) "line" 32767
      let bytes := bytes + text.length + 2
      require (bytes ≤ 32767) "share.invalid_rules"
      checkLines bytes rest

def checkFilters (value : Value φ) : List String → Checked Unit
  | [] => .ok ()
  | key :: rest =>
    match value.find (ascii key) with
    | some (.array items) => do
        require (items.length ≤ 4096) "share.invalid_rules"
        checkLines 0 items
        checkFilters value rest
    | _ => fail "share.invalid_rules"

def checkTransport (type psk transport : Bytes) : Checked Unit :=
  if transport = ascii "GONC_TLS_PSK" then do
    require (type = ascii "SOCKS5" || type = ascii "HTTP" ||
      type = ascii "HTTP10" || type = ascii "HTTP11")
      "profile.secure_transport_unsupported"
    require (!psk.isEmpty) "profile.psk_required"
  else .ok ()

def validate (value : Value φ) : Checked Unit := do
  require (isObject value) "share.invalid_fields"
  let name ← stringField value "name" 512
  checkName name
  let type ← stringField value "type" 16
  require (type = ascii "NOPROXY" || type = ascii "SOCKS5" ||
    type = ascii "HTTP" || type = ascii "HTTP10" || type = ascii "HTTP11")
    "share.invalid_type"
  let host ← stringField value "host" 127
  let _ ← stringField value "user" 127
  let _ ← stringField value "password" 127
  let psk ← stringField value "psk" 255
  let transport ← stringField value "transport" 32
  require (transport = ascii "PLAIN" || transport = ascii "GONC_TLS_PSK")
    "share.invalid_transport"
  checkPort value type host
  checkBooleans value ["hook_tcp", "hook_udp", "block_udp", "block_ipv6",
    "hook_children", "redirect_private_dns"]
  checkModes value ["dns_mode", "child_mode", "target_mode"]
  let _ ← stringField value "redirect_dns" 127
  checkFilters value ["child_rules", "target_rules"]
  checkTransport type psk transport
  require (type = ascii "SOCKS5" || type = ascii "NOPROXY" ||
    booleanField value "hook_udp" ≠ some true) "share.invalid_udp"

def canonical (value : Value φ) : Value φ :=
  match value.find (ascii "type") with
  | some (.string type) =>
    if type = ascii "HTTP10" ∨ type = ascii "HTTP11" then
      value.replace (ascii "type") (.string (ascii "HTTP"))
    else value
  | _ => value

/-- `while (count >= 6)`. -/
def drain (bits : Nat) : Nat → Bytes × Nat
  | count + 6 =>
    (Alphabet.url.char ((bits >>> count) &&& 63) :: (drain bits count).1,
      (drain bits count).2)
  | count => ([], count)

/-- The loop of `Base64Url`; `bits` is an `unsigned`. -/
def base64UrlFrom (bits count : Nat) : Bytes → Bytes
  | [] =>
    if count ≠ 0 then [Alphabet.url.char ((bits <<< (6 - count)) &&& 63)]
    else []
  | ch :: rest =>
    let bits := ((bits <<< 8) ||| ch.toNat) % 2 ^ 32
    (drain bits (count + 8)).1 ++ base64UrlFrom bits (drain bits (count + 8)).2 rest

def base64Url (input : Bytes) : Bytes := base64UrlFrom 0 0 input

def encode (lib : Library φ) (value : Value φ) : Checked Bytes := do
  validate value
  match lib.dump (canonical value) with
  | none => .error .library
  | some json => do
      require (json.length ≤ maxJsonBytes) "share.too_large"
      let result := codePrefix ++ base64Url json
      require (result.length ≤ maxCodeBytes) "share.too_large"
      return result

def isBlank (c : UInt8) : Bool := c = 32 || c = 9 || c = 13 || c = 10

def trim (code : Bytes) : Bytes :=
  ((code.dropWhile isBlank).reverse.dropWhile isBlank).reverse

/-- `code.compare(0, length, text) == 0`. -/
def comparesEqual (code : Bytes) (length : Nat) (text : Bytes) : Bool :=
  code.take length == text

def digit (ch : UInt8) : Option Nat :=
  if 65 ≤ ch && ch ≤ 90 then some (ch.toNat - 65)
  else if 97 ≤ ch && ch ≤ 122 then some (ch.toNat - 97 + 26)
  else if 48 ≤ ch && ch ≤ 57 then some (ch.toNat - 48 + 52)
  else if ch = 45 then some 62
  else if ch = 95 then some 63
  else none

/-- The loop over the characters: the bytes, and `bits` and `count` at its
end. -/
def decodeFrom (bits count : Nat) : Bytes → Option (Bytes × Nat × Nat)
  | [] => some ([], bits, count)
  | ch :: rest =>
    match digit ch with
    | none => none
    | some n =>
      let bits := ((bits <<< 6) ||| n) % 2 ^ 32
      if 8 ≤ count + 6 then
        (decodeFrom bits (count + 6 - 8) rest).map fun (json, final) =>
          (UInt8.ofNat ((bits >>> (count + 6 - 8)) &&& 255) :: json, final)
      else decodeFrom bits (count + 6) rest

def payload (encoded : Bytes) : Checked Bytes :=
  if encoded.isEmpty || encoded.length % 4 = 1 then fail "share.invalid_code"
  else
    match decodeFrom 0 0 encoded with
    | none => fail "share.invalid_code"
    | some (json, bits, count) =>
      if (count ≠ 0 ∧ bits &&& (1 <<< count - 1) ≠ 0) ∨
          maxJsonBytes < json.length then fail "share.invalid_code"
      else .ok json

/-- The callback over what the parser reports; `keys` are the keys of the
objects that are open, the innermost first. -/
def watch : List (List Bytes) → List Event → Checked Unit
  | _, [] => .ok ()
  | keys, event :: rest =>
    if 8 < event.depth then fail "share.invalid_fields"
    else
      match event with
      | .objectStart _ => watch ([] :: keys) rest
      | .objectEnd _ => watch keys.tail rest
      | .key _ key =>
        if (keys.headD []).contains key then fail "share.invalid_fields"
        else watch ((key :: keys.headD []) :: keys.tail) rest
      | .arrayStart _ | .arrayEnd _ | .value _ => watch keys rest

def parse (lib : Library φ) (json : Bytes) : Checked (Value φ) := do
  watch [] (lib.report json)
  match lib.tree json with
  | none => .error .library
  | some tree => return build tree

def encodedPart (code : Bytes) : Checked Bytes := do
  require (code.length ≤ maxCodeBytes) "share.too_large"
  let code := trim code
  require (!code.isEmpty) "share.invalid_code"
  if comparesEqual code codePrefix.length codePrefix then
    return code.drop codePrefix.length
  else if comparesEqual code 20 (ascii "proxylane://profile/v") then
    fail "share.unsupported_version"
  else fail "share.invalid_code"

def decode (lib : Library φ) (code : Bytes) : Checked (Value φ) := do
  let encoded ← encodedPart code
  let json ← payload encoded
  let value ← parse lib json
  validate value
  return canonical value

end ProfileShare

end ProxyLane.App
