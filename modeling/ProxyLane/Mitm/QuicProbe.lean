import ProxyLane.Foundation.Bytes
import ProxyLane.Foundation.Run

/-!
# The QUIC probe

The probe reads the Initial packets that a client sends: it recovers the packet
number, collects the CRYPTO frames of the decrypted payload and parses the
ClientHello once its bytes are there.  The packet protection stands outside:
a packet comes with its payload, or with none when it does not authenticate.
-/

namespace ProxyLane.Mitm.QuicProbe

open ProxyLane.Foundation

/-- Addition of `u64`; `none` is an overflow. -/
def checkedAdd (a b : Nat) : Option Nat :=
  if a + b < 2 ^ 64 then some (a + b) else none

def checkedSub (a b : Nat) : Option Nat :=
  if b ≤ a then some (a - b) else none

/-- `largest.map_or(0, |n| n + 1)`. -/
def afterLargest : Option Nat → Option Nat
  | none => some 0
  | some n => checkedAdd n 1

def packetNumber (truncated bits : Nat) (largest : Option Nat) : Option Nat := do
  let expected ← afterLargest largest
  let window := 2 ^ bits
  let half := window / 2
  let candidate := (expected &&& (2 ^ 64 - 1 - (window - 1))) ||| truncated
  let near ← checkedAdd candidate half
  if near ≤ expected ∧ candidate < 2 ^ 62 - window then
    checkedAdd candidate window
  else
    let far ← checkedAdd expected half
    if far < candidate ∧ window ≤ candidate then checkedSub candidate window
    else some candidate

def expectedNumber (largest : Option Nat) : Nat := largest.elim 0 (· + 1)

private theorem and_clear_low {n k : Nat} (hn : n < 2 ^ 64) (hk : k ≤ 64) :
    n &&& (2 ^ 64 - 1 - (2 ^ k - 1)) = n / 2 ^ k * 2 ^ k := by
  have hmask : 2 ^ 64 - 1 - (2 ^ k - 1) = (2 ^ (64 - k) - 1) * 2 ^ k := by
    have hpos : 0 < 2 ^ k := Nat.two_pow_pos k
    have hsplit : 2 ^ (64 - k) * 2 ^ k = 2 ^ 64 := by
      rw [← Nat.pow_add, Nat.sub_add_cancel hk]
    rw [Nat.sub_mul, hsplit]
    omega
  apply Nat.eq_of_testBit_eq
  intro i
  rw [hmask, Nat.testBit_and, Nat.testBit_mul_two_pow, Nat.testBit_mul_two_pow,
    Nat.testBit_div_two_pow, Nat.testBit_two_pow_sub_one]
  by_cases hi : k ≤ i
  · by_cases hbound : i < 64
    · simp [hi, show i - k < 64 - k by omega]
    · have hzero : n.testBit i = false :=
        Nat.testBit_lt_two_pow (Nat.lt_of_lt_of_le hn
          (Nat.pow_le_pow_right (by omega) (by omega)))
      simp [hi, hzero]
  · simp [hi]

theorem candidate_eq {expected bits pn : Nat} (hexpected : expected < 2 ^ 64)
    (hbits : bits ≤ 64) :
    (expected &&& (2 ^ 64 - 1 - (2 ^ bits - 1))) ||| pn % 2 ^ bits =
      expected / 2 ^ bits * 2 ^ bits + pn % 2 ^ bits := by
  rw [and_clear_low hexpected hbits, Nat.mul_comm]
  exact (Nat.two_pow_add_eq_or_of_lt (Nat.mod_lt _ (Nat.two_pow_pos bits)) _).symm

theorem candidate_moved {w expected pn : Nat}
    (hw : w = 256 ∨ w = 65536 ∨ w = 16777216 ∨ w = 4294967296)
    (hlow : expected < pn + w / 2) (hhigh : pn ≤ expected + w / 2) :
    let candidate := expected / w * w + pn % w
    (candidate + w / 2 ≤ expected ∧ pn = candidate + w) ∨
      (expected + w / 2 < candidate ∧ w ≤ candidate ∧ pn + w = candidate) ∨
      (expected < candidate + w / 2 ∧ candidate ≤ expected + w / 2 ∧
        pn = candidate) := by
  rcases hw with rfl | rfl | rfl | rfl <;> dsimp only <;> omega

/-- A number above the lower edge of the window and up to its upper edge comes
back from its low bits, and nothing overflows on the way. -/
theorem packetNumber_recovers {bits pn : Nat} {largest : Option Nat}
    (hbits : bits = 8 ∨ bits = 16 ∨ bits = 24 ∨ bits = 32)
    (hpn : pn < 2 ^ 62)
    (hlow : expectedNumber largest < pn + 2 ^ bits / 2)
    (hhigh : pn ≤ expectedNumber largest + 2 ^ bits / 2) :
    packetNumber (pn % 2 ^ bits) bits largest = some pn := by
  have hw : 2 ^ bits = 256 ∨ 2 ^ bits = 65536 ∨ 2 ^ bits = 16777216 ∨
      2 ^ bits = 4294967296 := by
    rcases hbits with rfl | rfl | rfl | rfl <;> simp
  have hexpected : expectedNumber largest < 2 ^ 63 := by omega
  have hstart : afterLargest largest = some (expectedNumber largest) := by
    cases largest with
    | none => rfl
    | some n =>
      have hn : n + 1 < 2 ^ 63 := hexpected
      exact if_pos (by omega)
  have hcandidate := @candidate_eq (expectedNumber largest) bits pn (by omega)
    (by omega)
  have hmoved := candidate_moved hw hlow hhigh
  unfold packetNumber
  simp only [hstart, hcandidate, Option.bind_eq_bind, Option.bind_some]
  generalize expectedNumber largest = expected at *
  generalize 2 ^ bits = w at *
  generalize expected / w * w + pn % w = candidate at *
  have hnear : checkedAdd candidate (w / 2) = some (candidate + w / 2) :=
    if_pos (by omega)
  have hfar : checkedAdd expected (w / 2) = some (expected + w / 2) :=
    if_pos (by omega)
  simp only [hnear, hfar, Option.bind_some]
  rcases hmoved with ⟨hdown, rfl⟩ | ⟨hup, hle, hsub⟩ | ⟨hdown, hup, rfl⟩
  · rw [if_pos ⟨hdown, by omega⟩]
    exact if_pos (by omega)
  · rw [if_neg (by omega), if_pos ⟨hup, hle⟩, checkedSub, if_pos hle]
    exact congrArg some (by omega)
  · rw [if_neg (by omega), if_neg (by omega)]

theorem packetNumber_recovers_edge :
    packetNumber (428 % 2 ^ 8) 8 (some 299) = some 428 :=
  packetNumber_recovers (Or.inl rfl) (by decide) (by decide) (by decide)

/-- The two edges of the window have the same low bits, and the upper one is
taken. -/
theorem packetNumber_lower_edge :
    ¬ ∀ (bits pn : Nat) (largest : Option Nat),
      bits = 8 ∨ bits = 16 ∨ bits = 24 ∨ bits = 32 → pn < 2 ^ 62 →
      expectedNumber largest ≤ pn + 2 ^ bits / 2 →
      pn ≤ expectedNumber largest + 2 ^ bits / 2 →
      packetNumber (pn % 2 ^ bits) bits largest = some pn := by
  intro h
  exact absurd (h 8 172 (some 299) (Or.inl rfl) (by decide) (by decide)
    (by decide)) (by decide)

/-! ## Reading

A reader is the bytes that are left of its text. -/

def take (n : Nat) (r : Bytes) : Option (Bytes × Bytes) :=
  if n ≤ r.length then some (r.take n, r.drop n) else none

def byte : Bytes → Option (Nat × Bytes)
  | [] => none
  | b :: r => some (b.toNat, r)

def u16 (r : Bytes) : Option (Nat × Bytes) := do
  let (b, r) ← take 2 r
  some (beNat b, r)

def more : Nat → Nat → Bytes → Option (Nat × Bytes)
  | 0, n, r => some (n, r)
  | count + 1, n, r => do
      let (b, r) ← byte r
      more count ((n <<< 8) ||| b) r

def var (r : Bytes) : Option (Nat × Bytes) := do
  let (first, r) ← byte r
  more ((1 <<< (first >>> 6)) - 1) (first &&& 63) r

def skip : Nat → Bytes → Option Bytes
  | 0, r => some r
  | count + 1, r => do
      let (_, r) ← var r
      skip count r

structure Hello where
  name : Bytes
  alpn : List Bytes
  rawAlpn : List Bytes
  ech : Bool
  deriving DecidableEq, Repr

def Hello.empty : Hello := ⟨[], [], [], false⟩

def isHostByte (b : UInt8) : Bool :=
  (48 ≤ b && b ≤ 57) || (65 ≤ b && b ≤ 90) || (97 ≤ b && b ≤ 122) ||
    b == 46 || b == 45 || b == 95

/-- `is_ascii_graphic`, or a dot. -/
def graphic (b : UInt8) : UInt8 := if 33 ≤ b && b ≤ 126 then b else 46

/-- The names of a `server_name` extension; the last host name stays. -/
def hosts : Nat → Bytes → Hello → Option Hello
  | 0, _, h => some h
  | _ + 1, [], h => some h
  | fuel + 1, d, h => do
      let (ty, d) ← byte d
      let (n, d) ← u16 d
      let (host, d) ← take n d
      if ty = 0 ∧ n ≤ 253 ∧ host ≠ [] ∧ host.all isHostByte = true then
        hosts fuel d { h with name := host }
      else hosts fuel d h

def protocols : Nat → Bytes → Hello → Option Hello
  | 0, _, h => some h
  | _ + 1, [], h => some h
  | fuel + 1, d, h => do
      let (n, d) ← byte d
      let (value, d) ← take n d
      if n = 0 ∨ 32 ≤ h.alpn.length then none
      else
        protocols fuel d { h with
          rawAlpn := h.rawAlpn ++ [value]
          alpn := h.alpn ++ [value.map graphic] }

def extension (kind : Nat) (data : Bytes) (h : Hello) : Option Hello :=
  match kind with
  | 0 => do
      let (total, d) ← u16 data
      if total ≠ data.length - 2 then none else hosts data.length d h
  | 16 => do
      let (total, d) ← u16 data
      if total ≠ data.length - 2 then none else protocols data.length d h
  | 0xfe0d => some { h with ech := true }
  | _ => some h

def extensions : Nat → Bytes → Hello → Option Hello
  | 0, _, h => some h
  | _ + 1, [], h => some h
  | fuel + 1, e, h => do
      let (kind, e) ← u16 e
      let (len, e) ← u16 e
      let (data, e) ← take len e
      let h ← extension kind data h
      extensions fuel e h

def hello (bytes : Bytes) : Option Hello := do
  let (_, r) ← take 34 bytes
  let (len, r) ← byte r
  let (_, r) ← take len r
  let (len, r) ← u16 r
  if len = 0 ∨ len % 2 ≠ 0 then none
  else do
    let (_, r) ← take len r
    let (len, r) ← byte r
    let (_, r) ← take len r
    let (len, r) ← u16 r
    let (ext, r) ← take len r
    if r ≠ [] then none else extensions ext.length ext .empty

def cryptoLimit : Nat := 65536

/-- `crypto` and `present` have one entry for each byte up to the last end. -/
structure Initial where
  crypto : Bytes
  present : List Bool
  done : Bool
  deriving DecidableEq, Repr

def Initial.new : Initial := ⟨[], [], false⟩

/-- `resize`, which also cuts. -/
def resize {α : Type} (xs : List α) (len : Nat) (value : α) : List α :=
  xs.take len ++ List.replicate (len - xs.length) value

/-- The bytes of a fragment from an offset on; `none` is a conflict. -/
def place (c : Initial) : Nat → Bytes → Option Initial
  | _, [] => some c
  | at_, b :: bytes =>
    if c.present.getD at_ false = true ∧ c.crypto.getD at_ 0 ≠ b then none
    else
      place { c with
        crypto := c.crypto.set at_ b
        present := c.present.set at_ true } (at_ + 1) bytes

def crypto (c : Initial) (offset : Nat) (bytes : Bytes) : Option Initial :=
  let size := max c.crypto.length (offset + bytes.length)
  place { c with
    crypto := resize c.crypto size 0
    present := resize c.present size false } offset bytes

inductive Frame where
  | ignored
  | crypto (offset : Nat) (bytes : Bytes)
  | close
  deriving DecidableEq, Repr

def orErr {α : Type} (text : String) (x : Option α) : Except String α :=
  match x with
  | none => .error text
  | some a => .ok a

def ack (ecn : Bool) (r : Bytes) : Except String Bytes := do
  let r ← orErr "Invalid ACK" (skip 2 r)
  let (ranges, r) ← orErr "Invalid ACK" (var r)
  if 256 < ranges then .error "QUIC ACK range limit"
  else do
    let r ← orErr "Invalid ACK" (skip (1 + 2 * ranges) r)
    if ecn then orErr "Invalid ACK ECN" (skip 3 r) else .ok r

def cryptoFrame (r : Bytes) : Except String (Frame × Bytes) := do
  let (offset, r) ← orErr "Invalid CRYPTO offset" (var r)
  let (len, r) ← orErr "Invalid CRYPTO length" (var r)
  if cryptoLimit < offset ∨ cryptoLimit - offset < len then
    .error "QUIC CRYPTO preview limit (64 KiB)"
  else do
    let (bytes, r) ← orErr "Incomplete CRYPTO frame" (take len r)
    .ok (.crypto offset bytes, r)

def frame (r : Bytes) : Except String (Frame × Bytes) := do
  let (kind, r) ← orErr "Incomplete QUIC Initial frame" (var r)
  match kind with
  | 0 => .ok (.ignored, r)
  | 1 => .ok (.ignored, r)
  | 2 => (ack false r).map fun r => (.ignored, r)
  | 3 => (ack true r).map fun r => (.ignored, r)
  | 6 => cryptoFrame r
  | 0x1c => .ok (.close, r)
  | _ => .error "Unsupported frame in QUIC Initial"

/-- The frames of a payload, and whether one closes the connection.  Each frame
takes a byte at least. -/
def framesFrom : Nat → Initial → Bytes → Except String (Initial × Bool)
  | 0, c, _ => .ok (c, false)
  | _ + 1, c, [] => .ok (c, false)
  | fuel + 1, c, r =>
    match frame r with
    | .error text => .error text
    | .ok (.ignored, r) => framesFrom fuel c r
    | .ok (.close, _) => .ok (c, true)
    | .ok (.crypto offset bytes, r) =>
      match crypto c offset bytes with
      | none => .error "Conflicting QUIC CRYPTO fragments"
      | some c => framesFrom fuel c r

def contiguous (present : List Bool) : Nat := (present.takeWhile id).length

def analyse (c : Initial) : Except String (Initial × Option Hello) :=
  let size := beNat ((c.crypto.drop 1).take 3)
  if contiguous c.present < 4 then .ok (c, none)
  else if cryptoLimit < size + 4 then
    .error "QUIC ClientHello preview limit (64 KiB)"
  else if contiguous c.present < size + 4 then .ok (c, none)
  else if c.crypto.head? ≠ some 1 then
    .error "QUIC CRYPTO is not a ClientHello"
  else
    match hello ((c.crypto.drop 4).take size) with
    | none => .error "Malformed QUIC ClientHello"
    | some hello => .ok (⟨[], [], true⟩, some hello)

def frames (c : Initial) (bytes : Bytes) :
    Except String (Initial × Option Hello) :=
  match framesFrom bytes.length c bytes with
  | .error text => .error text
  | .ok (c, true) => .ok (c, none)
  | .ok (c, false) => analyse c

/-- The probe with the context of one connection; `version` tells whether a
packet has authenticated. -/
structure Probe where
  context : Initial
  attempts : Nat
  version : Bool
  hello : Option Hello
  note : String
  deriving DecidableEq, Repr

def Probe.new : Probe := ⟨.new, 0, false, none, ""⟩

def payload (p : Probe) (plain : Bytes) : Probe :=
  let p := { p with version := true }
  if p.context.done then p
  else
    match frames p.context plain with
    | .ok (context, some hello) =>
      { p with context := context, hello := some hello, note := "" }
    | .ok (context, none) => { p with context := context }
    | .error note => { p with context := ⟨[], [], true⟩, note := note }

/-- The Initial packets of a datagram; one without a payload did not
authenticate. -/
def packets (p : Probe) : List (Option Bytes) → Probe
  | [] => p
  | packet :: rest =>
    let p := { p with attempts := p.attempts + 1 }
    if 128 < p.attempts then p
    else
      match packet with
      | none => packets p rest
      | some plain => packets (payload p plain) rest

def feed (p : Probe) (datagram : List (Option Bytes)) : Probe :=
  if 128 ≤ p.attempts then
    if p.version && !p.context.done then
      { p with note := "QUIC Initial inspection limit reached" }
    else p
  else packets p (datagram.take 16)

end ProxyLane.Mitm.QuicProbe
