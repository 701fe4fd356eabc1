import ProxyLane.Protocol.Model

/-!
# WebSocket

Messages of an upgraded connection, put together from frames.  Each direction
has its own buffer, frame and messages under way; the two share the numbers
given to messages and what was negotiated.
-/

namespace ProxyLane.Protocol

open ProxyLane.Foundation

structure WsConfig where
  deflate : Bool
  reset : Sides Bool
  target : Bytes
  deriving DecidableEq, Repr

/-- `parse::<u8>`: decimal digits, a plus sign in front allowed. -/
def parseU8 (text : Bytes) : Option Nat :=
  let digits := if text.head? = some 43 then text.tail else text
  if digits.isEmpty || !digits.all isAsciiDigit || decimal digits > 255 then
    none
  else some (decimal digits)

def windowBits (parameter : Bytes) : Except String Unit :=
  match ((splitOn 61 parameter)[1]?).bind parseU8 with
  | none => .error "invalid WebSocket window"
  | some n =>
    if 8 ≤ n ∧ n ≤ 15 then .ok () else .error "invalid WebSocket window"

def deflateParameters (config : WsConfig) :
    List Bytes → Except String WsConfig
  | [] => .ok config
  | p :: rest =>
    if p = ascii "client_no_context_takeover" then
      deflateParameters
        { config with reset := config.reset.set .client true } rest
    else if p = ascii "server_no_context_takeover" then
      deflateParameters
        { config with reset := config.reset.set .server true } rest
    else if (ascii "client_max_window_bits=").isPrefixOf p ||
        (ascii "server_max_window_bits=").isPrefixOf p then
      match windowBits p with
      | .error e => .error e
      | .ok () => deflateParameters config rest
    else .error "unsupported permessage-deflate parameter"

def extensions (config : WsConfig) : List Bytes → Except String WsConfig
  | [] => .ok config
  | extension :: rest =>
    match (splitOn 59 extension).map trim with
    | [] => .error "unsupported WebSocket extension"
    | name :: parameters =>
      if name ≠ ascii "permessage-deflate" then
        .error "unsupported WebSocket extension"
      else
        match deflateParameters { config with deflate := true } parameters with
        | .error e => .error e
        | .ok config => extensions config rest

def negotiated (request response : Message) :
    Except String (Option WsConfig) :=
  if response.status ≠ some 101 ||
      !(tokens response.headers (ascii "upgrade")).contains (ascii "websocket") then
    .ok none
  else if request.method ≠ some (ascii "GET") ||
      !(tokens request.headers (ascii "upgrade")).contains (ascii "websocket") then
    .error "WebSocket upgrade without matching request"
  else
    (extensions ⟨false, ⟨false, false⟩, request.target.getD []⟩
      ((values response.headers (ascii "sec-websocket-extensions")).flatMap
        (splitOn 44))).map some

structure WsFrame where
  remaining : Nat
  offset : Nat
  mask : Option Bytes
  fin : Bool
  control : Bool
  deriving DecidableEq, Repr

structure WsActive where
  exchange : Exchange
  compressed : Bool
  deriving DecidableEq, Repr

structure WsSide (ι : Type) where
  buffer : Bytes
  frame : Option WsFrame
  message : Option WsActive
  control : Option WsActive
  decoder : Option ι
  deriving DecidableEq, Repr

structure WebSocket (ι : Type) where
  config : WsConfig
  sides : Sides (WsSide ι)
  next : Nat
  deriving DecidableEq, Repr

def WsSide.fresh {ι : Type} : WsSide ι := ⟨[], none, none, none, none⟩

def WebSocket.new {ι : Type} (config : WsConfig) : WebSocket ι :=
  ⟨config, ⟨.fresh, .fresh⟩, 0⟩

def WsSide.active {ι : Type} (s : WsSide ι) (control : Bool) :
    Option WsActive :=
  if control then s.control else s.message

def WsSide.setActive {ι : Type} (s : WsSide ι) (control : Bool)
    (active : Option WsActive) : WsSide ι :=
  if control then { s with control := active } else { s with message := active }

section

variable {ι : Type}

@[simp] theorem WsSide.active_true (s : WsSide ι) : s.active true = s.control := rfl

@[simp] theorem WsSide.active_false (s : WsSide ι) : s.active false = s.message := rfl

@[simp] theorem WsSide.active_setActive (s : WsSide ι) (c : Bool)
    (a : Option WsActive) : (s.setActive c a).active c = a := by
  cases c <;> rfl

@[simp] theorem WsSide.active_setActive_not (s : WsSide ι) (c : Bool)
    (a : Option WsActive) : (s.setActive c a).active (!c) = s.active (!c) := by
  cases c <;> rfl

@[simp] theorem WsSide.frame_setActive (s : WsSide ι) (c : Bool)
    (a : Option WsActive) : (s.setActive c a).frame = s.frame := by
  cases c <;> rfl

@[simp] theorem WsSide.buffer_setActive (s : WsSide ι) (c : Bool)
    (a : Option WsActive) : (s.setActive c a).buffer = s.buffer := by
  cases c <;> rfl

end

structure WsHeader where
  fin : Bool
  compressed : Bool
  op : UInt8
  length : Nat
  mask : Option Bytes
  deriving DecidableEq, Repr

def extraLength (b1 : UInt8) : Nat :=
  if b1 &&& 127 = 126 then 2 else if b1 &&& 127 = 127 then 8 else 0

def headerLength (b1 : UInt8) : Nat :=
  extraLength b1 + if b1 &&& 128 ≠ 0 then 4 else 0

/-- The header a buffer begins with, and its length. -/
def parseWsHeader (side : Direction) : Bytes → ParseResult WsHeader
  | b0 :: b1 :: rest =>
    let masked := b1 &&& 128 ≠ 0
    if b0 &&& 48 ≠ 0 ∨ decide masked ≠ (side == .client) then
      .error "invalid WebSocket reserved bits or mask direction"
    else
      let extra := extraLength b1
      if rest.length < headerLength b1 then .incomplete
      else
        let n := if extra = 0 then (b1 &&& 127).toNat
          else beNat (rest.take extra)
        if 2 ^ 63 ≤ n ∨ (extra = 2 ∧ n < 126) ∨ (extra = 8 ∧ n < 65536) then
          .error "invalid WebSocket payload length"
        else
          .complete (2 + headerLength b1)
            { fin := b0 &&& 128 ≠ 0
              compressed := b0 &&& 64 ≠ 0
              op := b0 &&& 15
              length := n
              mask := if masked then some ((rest.drop extra).take 4)
                else none }
  | _ => .incomplete

theorem parseWsHeader_append (side : Direction) (b0 b1 : UInt8)
    (rest y : Bytes) (h : headerLength b1 ≤ rest.length) :
    parseWsHeader side (b0 :: b1 :: rest ++ y) =
      parseWsHeader side (b0 :: b1 :: rest) := by
  have hextra : extraLength b1 ≤ headerLength b1 := Nat.le_add_right _ _
  have hlong' : ¬ (rest ++ y).length < headerLength b1 := by
    rw [List.length_append]
    omega
  have htake : (rest ++ y).take (extraLength b1) =
      rest.take (extraLength b1) :=
    List.take_append_of_le_length (by omega)
  simp only [List.cons_append, parseWsHeader]
  rw [if_neg (Nat.not_lt.2 h), if_neg hlong', htake]
  by_cases hm : b1 &&& 128 ≠ 0
  · have hmask : ((rest ++ y).drop (extraLength b1)).take 4 =
        (rest.drop (extraLength b1)).take 4 := by
      rw [headerLength, if_pos hm] at h
      rw [List.drop_append_of_le_length (by omega),
        List.take_append_of_le_length (by rw [List.length_drop]; omega)]
    rw [hmask]
  · simp only [hm, if_false]

theorem parseWsHeader_short {side : Direction} (b0 : UInt8) {b1 : UInt8}
    {rest : Bytes} (h : rest.length < headerLength b1) :
    parseWsHeader side (b0 :: b1 :: rest) = .incomplete ∨
      ∃ e, ∀ rest', parseWsHeader side (b0 :: b1 :: rest') = .error e := by
  simp only [parseWsHeader, h, if_true]
  split
  · exact .inr ⟨_, fun _ => rfl⟩
  · exact .inl rfl

theorem parseWsHeader_complete {side : Direction} {x : Bytes} {n : Nat}
    {header : WsHeader} (h : parseWsHeader side x = .complete n header) :
    ∃ b0 b1 rest, x = b0 :: b1 :: rest ∧ headerLength b1 ≤ rest.length ∧
      n = 2 + headerLength b1 := by
  match x, h with
  | b0 :: b1 :: rest, h =>
    refine ⟨b0, b1, rest, rfl, ?_⟩
    by_cases hlen : rest.length < headerLength b1
    · obtain hs | ⟨e, hall⟩ := parseWsHeader_short b0 hlen
      · rw [hs] at h
        cases h
      · rw [hall] at h
        cases h
    · refine ⟨Nat.le_of_not_lt hlen, ?_⟩
      simp only [parseWsHeader] at h
      rw [if_neg hlen] at h
      split_ifs at h <;> simp_all

theorem parseWsHeader_stable (side : Direction) :
    PrefixStable (parseWsHeader side) where
  pos h := by
    obtain ⟨b0, b1, rest, rfl, hlen, rfl⟩ := parseWsHeader_complete h
    omega
  within h := by
    obtain ⟨b0, b1, rest, rfl, hlen, rfl⟩ := parseWsHeader_complete h
    simp only [List.length_cons]
    omega
  complete y h := by
    obtain ⟨b0, b1, rest, rfl, hlen, rfl⟩ := parseWsHeader_complete h
    rw [parseWsHeader_append side b0 b1 rest y hlen, h]
  error {x e} y h := by
    match x, h with
    | b0 :: b1 :: rest, h =>
      by_cases hlen : headerLength b1 ≤ rest.length
      · exact ⟨e, (parseWsHeader_append side b0 b1 rest y hlen).trans h⟩
      · obtain hs | ⟨e', hall⟩ := parseWsHeader_short b0
          (Nat.lt_of_not_le hlen)
        · rw [hs] at h
          cases h
        · exact ⟨e', hall (rest ++ y)⟩
  beyond {x y n header} hx hxy := by
    obtain ⟨b0, b1, rest, heq, hlen, rfl⟩ := parseWsHeader_complete hxy
    match x, hx, heq with
    | [], _, _ => exact Nat.lt_add_right _ Nat.zero_lt_two
    | [_], _, _ => exact Nat.lt_add_right _ Nat.one_lt_two
    | b0' :: b1' :: rest', hx, heq =>
      simp only [List.cons_append, List.cons.injEq] at heq
      obtain ⟨rfl, rfl, rfl⟩ := heq
      by_cases hlen' : headerLength b1' ≤ rest'.length
      · rw [parseWsHeader_append side b0' b1' rest' y hlen', hx] at hxy
        cases hxy
      · simp only [List.length_cons]
        omega

def unmask (mask : Bytes) : Nat → Bytes → Bytes
  | _, [] => []
  | offset, byte :: rest =>
    (byte ^^^ mask.getD (offset % 4) 0) :: unmask mask (offset + 1) rest

def applyMask (mask : Option Bytes) (offset : Nat) (bytes : Bytes) : Bytes :=
  match mask with
  | some mask => unmask mask offset bytes
  | none => bytes

@[simp] theorem unmask_length (mask : Bytes) (offset : Nat) (bytes : Bytes) :
    (unmask mask offset bytes).length = bytes.length := by
  induction bytes generalizing offset with
  | nil => rfl
  | cons byte rest ih => simp [unmask, ih]

theorem unmask_append (mask : Bytes) (offset : Nat) (x y : Bytes) :
    unmask mask offset (x ++ y) =
      unmask mask offset x ++ unmask mask (offset + x.length) y := by
  induction x generalizing offset with
  | nil => rfl
  | cons byte rest ih =>
    simp [unmask, ih, Nat.add_comm, Nat.add_left_comm]

theorem unmask_unmask (mask : Bytes) (offset : Nat) (bytes : Bytes) :
    unmask mask offset (unmask mask offset bytes) = bytes := by
  induction bytes generalizing offset with
  | nil => rfl
  | cons byte rest ih =>
    simp only [unmask, ih, UInt8.xor_assoc, UInt8.xor_self, UInt8.xor_zero]

@[simp] theorem applyMask_length (mask : Option Bytes) (offset : Nat)
    (bytes : Bytes) : (applyMask mask offset bytes).length = bytes.length := by
  cases mask <;> simp [applyMask]

theorem applyMask_append (mask : Option Bytes) (offset : Nat) (x y : Bytes) :
    applyMask mask offset (x ++ y) =
      applyMask mask offset x ++ applyMask mask (offset + x.length) y := by
  cases mask <;> simp [applyMask, unmask_append]

@[simp] theorem applyMask_applyMask (mask : Option Bytes) (offset : Nat)
    (bytes : Bytes) :
    applyMask mask offset (applyMask mask offset bytes) = bytes := by
  cases mask <;> simp [applyMask, unmask_unmask]

def opcodeName (op : UInt8) : Bytes :=
  if op = 1 then ascii "TEXT"
  else if op = 2 then ascii "BINARY"
  else if op = 8 then ascii "CLOSE"
  else if op = 9 then ascii "PING"
  else ascii "PONG"

section

variable {δ ι : Type} (lib : Library δ ι) (limits : Limits)

def startMessage (config : WsConfig) (side : Direction) (id : Nat)
    (header : WsHeader) : WsActive where
  exchange := (Exchange.new id).setMessage side { Message.default with
    method := some (opcodeName header.op)
    target := some config.target }
  compressed := header.compressed

/-- Takes a frame header: a continuation, or the start of a message. -/
def openFrame (config : WsConfig) (side : Direction) (header : WsHeader)
    (length : Nat) (s : WsSide ι) (next : Nat) :
    Except String (WsSide ι × Nat) :=
  let control := decide (8 ≤ header.op)
  let frame : WsFrame := ⟨header.length, 0, header.mask, header.fin, control⟩
  let ready := fun s : WsSide ι =>
    { s with frame := some frame, buffer := s.buffer.drop length }
  if control && (!header.fin || header.length > 125 || header.compressed ||
      !(header.op == 8 || header.op == 9 || header.op == 10)) then
    .error "invalid WebSocket control frame"
  else if header.op = 0 then
    if header.compressed || s.message.isNone then
      .error "unexpected WebSocket continuation"
    else .ok (ready s, next)
  else if !control &&
      (!(header.op == 1 || header.op == 2) || s.message.isSome) then
    .error "invalid WebSocket message sequence"
  else if header.compressed && !config.deflate then
    .error "unnegotiated WebSocket compression"
  else
    let decoder :=
      if header.compressed && (s.decoder.isNone || config.reset.get side) then
        some lib.inflateInit
      else s.decoder
    .ok (ready ({ s with decoder := decoder }.setActive control
      (some (startMessage config side (next + 1) header))), next + 1)

/-- `append`: payload goes to the message, through the inflater if need be. -/
def appendPayload (side : Direction) (control : Bool) (bytes : Bytes)
    (s : WsSide ι) : WsSide ι × Option String :=
  match s.active control with
  | none => (s, some "missing WebSocket message")
  | some active =>
    let add := fun (bytes : Bytes) (s : WsSide ι) =>
      s.setActive control (some { active with
        exchange := active.exchange.modifyMessage side
          fun m => m.append bytes limits })
    if !active.compressed then (add bytes s, none)
    else
      match s.decoder with
      | none => (s, some "missing WebSocket inflater")
      | some decoder =>
        let r := lib.inflate decoder bytes
        (add r.2.1 { s with decoder := some r.1 }, r.2.2)

def takePayload (side : Direction) (frame : WsFrame) (s : WsSide ι) :
    WsSide ι × Option String :=
  let count := min frame.remaining s.buffer.length
  if count = 0 then (s, none)
  else
    let bytes := applyMask frame.mask frame.offset (s.buffer.take count)
    appendPayload lib limits side frame.control bytes
      { s with
        buffer := s.buffer.drop count
        frame := some { frame with
          remaining := frame.remaining - count
          offset := frame.offset + count } }

def flushMessage (side : Direction) (control : Bool) (s : WsSide ι) :
    WsSide ι × Option String :=
  if !control && s.message.any WsActive.compressed then
    appendPayload lib limits side false [0, 0, 255, 255] s
  else (s, none)

def endFrame (side : Direction) (frame : WsFrame) (s : WsSide ι) :
    WsSide ι × List Exchange × Option String :=
  let s := { s with frame := none }
  if frame.fin then
    match flushMessage lib limits side frame.control s with
    | (s, some e) => (s, [], some e)
    | (s, none) =>
      match s.active frame.control with
      | none => (s, [], some "called `Option::unwrap()` on a `None` value")
      | some active =>
        (s.setActive frame.control none,
          [active.exchange.modifyMessage side
            fun m => { m with complete := true }], none)
  else (s, [], none)

/-- What follows the header in one turn of the loop of `feed`. -/
def frameTurn (side : Direction) (frame : WsFrame) (s : WsSide ι)
    (next : Nat) : Turn (WsSide ι × Nat) Exchange String :=
  match takePayload lib limits side frame s with
  | (s, some e) => .fail (s, next) [] e
  | (s, none) =>
    match s.frame with
    | none => .fail (s, next) [] "called `Option::unwrap()` on a `None` value"
    | some frame =>
      if frame.remaining ≠ 0 then .wait (s, next) []
      else
        match endFrame lib limits side frame s with
        | (s, out, some e) => .fail (s, next) out e
        | (s, out, none) =>
          if s.buffer.isEmpty then .wait (s, next) out
          else .more (s, next) out

/-- One turn of the loop of `feed`, on a side and the next number. -/
def wsTurn (config : WsConfig) (side : Direction) :
    WsSide ι × Nat → Turn (WsSide ι × Nat) Exchange String
  | (s, next) =>
    match s.frame with
    | some frame => frameTurn lib limits side frame s next
    | none =>
      match parseWsHeader side s.buffer with
      | .incomplete => .wait (s, next) []
      | .error e => .fail (s, next) [] e
      | .complete length header =>
        match openFrame lib config side header length s next with
        | .error e => .fail (s, next) [] e
        | .ok (s, next) =>
          match s.frame with
          | none => .fail (s, next) []
              "called `Option::unwrap()` on a `None` value"
          | some frame => frameTurn lib limits side frame s next

def wsSize (s : WsSide ι × Nat) : Nat :=
  2 * s.1.buffer.length + if s.1.frame.isSome then 1 else 0

def wsExtend (s : WsSide ι × Nat) (data : Bytes) : WsSide ι × Nat :=
  ({ s.1 with buffer := s.1.buffer ++ data }, s.2)

theorem appendPayload_buffer (side : Direction) (c : Bool) (bytes : Bytes)
    (s : WsSide ι) :
    (appendPayload lib limits side c bytes s).1.buffer = s.buffer := by
  unfold appendPayload
  repeat' split
  all_goals simp

theorem appendPayload_frame (side : Direction) (c : Bool) (bytes : Bytes)
    (s : WsSide ι) :
    (appendPayload lib limits side c bytes s).1.frame = s.frame := by
  unfold appendPayload
  repeat' split
  all_goals simp

theorem takePayload_buffer (side : Direction) (frame : WsFrame)
    (s : WsSide ι) :
    (takePayload lib limits side frame s).1.buffer =
      s.buffer.drop (min frame.remaining s.buffer.length) := by
  unfold takePayload
  dsimp only
  split
  · rename_i h
    rw [h, List.drop_zero]
  · rw [appendPayload_buffer]

private theorem flushMessage_buffer (side : Direction) (c : Bool) (s : WsSide ι) :
    (flushMessage lib limits side c s).1.buffer = s.buffer := by
  unfold flushMessage
  split
  · exact appendPayload_buffer lib limits side false _ s
  · rfl

theorem flushMessage_frame (side : Direction) (c : Bool) (s : WsSide ι) :
    (flushMessage lib limits side c s).1.frame = s.frame := by
  unfold flushMessage
  split
  · exact appendPayload_frame lib limits side false _ s
  · rfl

theorem endFrame_buffer (side : Direction) (frame : WsFrame) (s : WsSide ι) :
    (endFrame lib limits side frame s).1.buffer = s.buffer := by
  have hflush := flushMessage_buffer lib limits side frame.control
    { s with frame := none }
  unfold endFrame
  dsimp only
  repeat' split
  all_goals simp_all

theorem endFrame_frame (side : Direction) (frame : WsFrame) (s : WsSide ι) :
    (endFrame lib limits side frame s).1.frame = none := by
  have hflush := flushMessage_frame lib limits side frame.control
    { s with frame := none }
  unfold endFrame
  dsimp only
  repeat' split
  all_goals simp_all

theorem frameTurn_more {side : Direction} {frame : WsFrame} {s : WsSide ι}
    {next : Nat} {t : WsSide ι × Nat} {out : List Exchange}
    (h : frameTurn lib limits side frame s next = .more t out) :
    t.1.frame = none ∧ t.1.buffer.length ≤ s.buffer.length := by
  have htake := takePayload_buffer lib limits side frame s
  unfold frameTurn at h
  cases hs1 : takePayload lib limits side frame s with
  | mk s1 error =>
    rw [hs1] at h htake
    cases error with
    | some e => cases h
    | none =>
      dsimp only at h htake
      cases hframe : s1.frame with
      | none =>
        rw [hframe] at h
        cases h
      | some frame1 =>
        rw [hframe] at h
        dsimp only at h
        have hbuffer := endFrame_buffer lib limits side frame1 s1
        have hnone := endFrame_frame lib limits side frame1 s1
        split at h
        · cases h
        · generalize endFrame lib limits side frame1 s1 = ended at *
          obtain ⟨s2, out2, error2⟩ := ended
          cases error2 with
          | some e => cases h
          | none =>
            dsimp only at h
            split at h
            · cases h
            · cases h
              dsimp only at hbuffer
              refine ⟨hnone, ?_⟩
              rw [hbuffer, htake, List.length_drop]
              exact Nat.sub_le _ _

theorem openFrame_buffer {config : WsConfig} {side : Direction}
    {header : WsHeader} {n next : Nat} {s : WsSide ι} {t : WsSide ι × Nat}
    (h : openFrame lib config side header n s next = .ok t) :
    t.1.buffer = s.buffer.drop n := by
  unfold openFrame at h
  dsimp only at h
  split at h
  · cases h
  · split at h
    · split at h
      · cases h
      · cases h
        rfl
    · split at h
      · cases h
      · split at h
        · cases h
        · cases h
          simp

theorem wsTurn_shrinks (config : WsConfig) (side : Direction)
    {s t : WsSide ι × Nat} {out : List Exchange}
    (h : wsTurn lib limits config side s = .more t out) :
    wsSize t < wsSize s := by
  obtain ⟨s, next⟩ := s
  unfold wsTurn at h
  dsimp only at h
  cases hframe : s.frame with
  | some frame =>
    rw [hframe] at h
    obtain ⟨hnone, hle⟩ := frameTurn_more lib limits h
    simp only [wsSize, hnone, hframe, Option.isSome_none,
      Option.isSome_some, Bool.false_eq_true, if_true, if_false]
    omega
  | none =>
    rw [hframe] at h
    dsimp only at h
    cases hparse : parseWsHeader side s.buffer with
    | incomplete =>
      rw [hparse] at h
      cases h
    | error e =>
      rw [hparse] at h
      cases h
    | complete n header =>
      rw [hparse] at h
      dsimp only at h
      have hpos := (parseWsHeader_stable side).pos hparse
      have hwithin := (parseWsHeader_stable side).within hparse
      cases hopen : openFrame lib config side header n s next with
      | error e =>
        rw [hopen] at h
        cases h
      | ok s1 =>
        rw [hopen] at h
        obtain ⟨s1, next1⟩ := s1
        dsimp only at h
        have hbuffer := openFrame_buffer lib hopen
        cases hframe1 : s1.frame with
        | none =>
          rw [hframe1] at h
          cases h
        | some frame1 =>
          rw [hframe1] at h
          obtain ⟨hnone, hle⟩ := frameTurn_more lib limits h
          dsimp only at hbuffer
          rw [hbuffer, List.length_drop] at hle
          simp only [wsSize, hnone, Option.isSome_none,
            Bool.false_eq_true, if_false]
          omega

namespace WebSocket

def feed (w : WebSocket ι) (side : Direction) (data : Bytes) :
    Outcome (WebSocket ι) Exchange String :=
  let r := exhaust (wsTurn lib limits w.config side) wsSize
    (wsExtend (w.sides.get side, w.next) data)
  ⟨{ w with sides := w.sides.set side r.state.1, next := r.state.2 }, r.out, r.error⟩

/-- `drain`: what is under way, the client's first. -/
def drain (w : WebSocket ι) (reason : String) : List Exchange :=
  ([.client, .server].flatMap fun side =>
    (w.sides.get side).message.toList ++ (w.sides.get side).control.toList).map
    fun active => { active.exchange with problem := some reason }

end WebSocket

end

end ProxyLane.Protocol
