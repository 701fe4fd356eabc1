import ProxyLane.Protocol.WebSocket

/-!
# WebSocket round trip

A script is what one direction sends: control messages, and data messages cut
into fragments with control messages between them.  Every frame is written
with its shortest length form, and masked with a key of its own on the way to
the server.  Fed in any pieces, the frames give back the messages of the
script, each when the last byte of its final frame has arrived.
-/

namespace ProxyLane.Protocol

open ProxyLane.Foundation

/-! ## Scripts -/

inductive DataKind where
  | text
  | binary
  deriving DecidableEq, Repr

inductive ControlKind where
  | close
  | ping
  | pong
  deriving DecidableEq, Repr

abbrev MaskKey := { key : Bytes // key.length = 4 }

structure Fragment where
  payload : Bytes
  key : MaskKey
  short : payload.length < 2 ^ 63

structure ControlMessage where
  kind : ControlKind
  payload : Bytes
  key : MaskKey
  short : payload.length ≤ 125

structure DataMessage where
  kind : DataKind
  first : Fragment
  rest : List (List ControlMessage × Fragment)

inductive ScriptItem where
  | control (message : ControlMessage)
  | data (message : DataMessage)

def DataMessage.payload (m : DataMessage) : Bytes :=
  m.first.payload ++ m.rest.flatMap fun part => part.2.payload

inductive FrameKind where
  | continuation
  | data (kind : DataKind)
  | control (kind : ControlKind)
  deriving DecidableEq, Repr

def FrameKind.op : FrameKind → UInt8
  | .continuation => 0
  | .data .text => 1
  | .data .binary => 2
  | .control .close => 8
  | .control .ping => 9
  | .control .pong => 10

def FrameKind.isControl : FrameKind → Bool
  | .control _ => true
  | _ => false

structure WsRecord where
  op : UInt8
  payload : Bytes
  deriving DecidableEq, Repr

structure ScriptFrame where
  kind : FrameKind
  fin : Bool
  payload : Bytes
  key : MaskKey
  ends : Option WsRecord

def ControlMessage.record (m : ControlMessage) : WsRecord :=
  ⟨(FrameKind.control m.kind).op, m.payload⟩

def ControlMessage.frame (m : ControlMessage) : ScriptFrame :=
  ⟨.control m.kind, true, m.payload, m.key, some m.record⟩

def laterFrames (kind : DataKind) (sofar : Bytes) :
    List (List ControlMessage × Fragment) → List ScriptFrame
  | [] => []
  | (controls, fragment) :: rest =>
    let sofar := sofar ++ fragment.payload
    controls.map ControlMessage.frame ++
      ⟨.continuation, rest.isEmpty, fragment.payload, fragment.key,
        if rest.isEmpty then some ⟨(FrameKind.data kind).op, sofar⟩
        else none⟩ :: laterFrames kind sofar rest

def DataMessage.frames (m : DataMessage) : List ScriptFrame :=
  ⟨.data m.kind, m.rest.isEmpty, m.first.payload, m.first.key,
    if m.rest.isEmpty then some ⟨(FrameKind.data m.kind).op, m.first.payload⟩
    else none⟩ :: laterFrames m.kind m.first.payload m.rest

def ScriptItem.frames : ScriptItem → List ScriptFrame
  | .control m => [m.frame]
  | .data m => m.frames

def ScriptItem.records : ScriptItem → List WsRecord
  | .control m => [m.record]
  | .data m =>
    (m.rest.flatMap Prod.fst).map ControlMessage.record ++
      [⟨(FrameKind.data m.kind).op, m.payload⟩]

def lengthCode (n : Nat) : UInt8 :=
  if n ≤ 125 then UInt8.ofNat n else if n < 65536 then 126 else 127

def lengthOctets (n : Nat) : Bytes :=
  if n ≤ 125 then [] else if n < 65536 then beBytes 2 n else beBytes 8 n

def maskFor (side : Direction) (key : MaskKey) : Option Bytes :=
  match side with
  | .client => some key
  | .server => none

def frameHead (side : Direction) (f : ScriptFrame) : Bytes :=
  ((if f.fin then 128 else 0) ||| f.kind.op) ::
    ((if side = .client then 128 else 0) ||| lengthCode f.payload.length) ::
    (lengthOctets f.payload.length ++ (maskFor side f.key).getD [])

def encodeFrame (side : Direction) (f : ScriptFrame) : Bytes :=
  frameHead side f ++ applyMask (maskFor side f.key) 0 f.payload

def encodeFrames (side : Direction) (frames : List ScriptFrame) : Bytes :=
  frames.flatMap (encodeFrame side)

/-! ## Heads -/

theorem or_mask_bit : ∀ n : Fin 128,
    (128 ||| UInt8.ofNat n) &&& 127 = UInt8.ofNat n ∧
      (128 ||| UInt8.ofNat n) &&& 128 ≠ 0 ∧
      UInt8.ofNat n &&& 127 = UInt8.ofNat n ∧
      UInt8.ofNat n &&& 128 = 0 := by
  decide

theorem second_byte (side : Direction) (n : Nat) :
    let b := (if side = .client then 128 else 0) ||| lengthCode n
    b &&& 127 = lengthCode n ∧ (b &&& 128 ≠ 0 ↔ side = .client) := by
  have hcode : ∃ k : Fin 128, lengthCode n = UInt8.ofNat k := by
    unfold lengthCode
    by_cases hn : n ≤ 125
    · exact ⟨⟨n, by omega⟩, by rw [if_pos hn]⟩
    · rw [if_neg hn]
      split
      · exact ⟨126, rfl⟩
      · exact ⟨127, rfl⟩
  obtain ⟨k, hk⟩ := hcode
  obtain ⟨h1, h2, h3, h4⟩ := or_mask_bit k
  rw [hk]
  cases side <;> simp [h1, h2, h3, h4]

theorem first_byte (fin : Bool) (kind : FrameKind) :
    let b := (if fin then 128 else 0) ||| kind.op
    b &&& 48 = 0 ∧ (b &&& 128 ≠ 0 ↔ fin = true) ∧ b &&& 64 = 0 ∧
      b &&& 15 = kind.op := by
  cases fin <;> rcases kind with _ | (_ | _) | (_ | _ | _) <;> decide

theorem length_read {b : UInt8} {n : Nat} (hb : b &&& 127 = lengthCode n)
    (hn : n < 2 ^ 63) :
    extraLength b = (lengthOctets n).length ∧
      (if extraLength b = 0 then (b &&& 127).toNat
        else beNat (lengthOctets n)) = n ∧
      ¬ (2 ^ 63 ≤ n ∨ (extraLength b = 2 ∧ n < 126) ∨
        (extraLength b = 8 ∧ n < 65536)) := by
  unfold extraLength
  rw [hb]
  unfold lengthCode lengthOctets
  by_cases h1 : n ≤ 125
  · have hnat : (UInt8.ofNat n).toNat = n :=
      UInt8.toNat_ofNat_of_lt' (by simp [UInt8.size]; omega)
    have h126 : UInt8.ofNat n ≠ 126 := by
      intro h
      have := congrArg UInt8.toNat h
      rw [hnat] at this
      simp at this
      omega
    have h127 : UInt8.ofNat n ≠ 127 := by
      intro h
      have := congrArg UInt8.toNat h
      rw [hnat] at this
      simp at this
      omega
    simp only [h1, if_true, h126, h127, if_false, List.length_nil, hnat, true_and]
    omega
  · by_cases h2 : n < 65536
    · have hbe : beNat (beBytes 2 n) = n := by
        rw [beNat_beBytes]
        omega
      simp only [h1, h2, if_true, if_false, beBytes_length, hbe, true_and]
      simp
      omega
    · have hbe : beNat (beBytes 8 n) = n := by
        rw [beNat_beBytes]
        omega
      have h3 : ¬ (127 : UInt8) = 126 := by decide
      simp only [h1, h2, h3, if_true, if_false, beBytes_length, hbe, true_and]
      simp
      omega

def ScriptFrame.header (side : Direction) (f : ScriptFrame) : WsHeader :=
  ⟨f.fin, false, f.kind.op, f.payload.length, maskFor side f.key⟩

private theorem maskFor_length (side : Direction) (key : MaskKey) :
    ((maskFor side key).getD []).length = if side = .client then 4 else 0 := by
  cases side with
  | client => simpa [maskFor] using key.2
  | server => rfl

theorem parse_frameHead (side : Direction) (f : ScriptFrame)
    (hlen : f.payload.length < 2 ^ 63) (y : Bytes) :
    parseWsHeader side (frameHead side f ++ y) =
      .complete (frameHead side f).length (f.header side) := by
  obtain ⟨hr, hf, hz, hop⟩ := first_byte f.fin f.kind
  obtain ⟨hcode, hmask⟩ := second_byte side f.payload.length
  obtain ⟨hextra, hread, hform⟩ := length_read hcode hlen
  have hkey := maskFor_length side f.key
  unfold frameHead
  generalize (if f.fin then (128 : UInt8) else 0) ||| f.kind.op = b0 at *
  generalize (if side = .client then (128 : UInt8) else 0) |||
    lengthCode f.payload.length = b1 at *
  have hguard : ¬ (b0 &&& 48 ≠ 0 ∨ decide (b1 &&& 128 ≠ 0) ≠ (side == .client))
      := by
    cases side <;> simp_all
  have hlong : ¬ (lengthOctets f.payload.length ++
      (maskFor side f.key).getD [] ++ y).length < headerLength b1 := by
    simp only [headerLength, List.length_append, hkey, hextra, hmask]
    omega
  have htake : (lengthOctets f.payload.length ++
      (maskFor side f.key).getD [] ++ y).take (extraLength b1) =
        lengthOctets f.payload.length := by
    rw [hextra, List.append_assoc, List.take_left]
  have hdrop : (lengthOctets f.payload.length ++
      (maskFor side f.key).getD [] ++ y).drop (extraLength b1) =
        (maskFor side f.key).getD [] ++ y := by
    rw [hextra, List.append_assoc, List.drop_left]
  simp only [List.cons_append, parseWsHeader]
  rw [if_neg hguard, if_neg hlong, htake, hread, if_neg hform, hdrop]
  simp only [ScriptFrame.header, ParseResult.complete.injEq,
    WsHeader.mk.injEq, List.length_cons, List.length_append, hkey,
    headerLength, hextra]
  cases side with
  | client =>
    have hm := hmask.2 rfl
    simp_all [maskFor]
    omega
  | server =>
    have hm : ¬ b1 &&& 128 ≠ 0 := fun h => by cases hmask.1 h
    simp_all [maskFor]
    omega

def WsRecord.add (r : WsRecord) (bytes : Bytes) : WsRecord :=
  { r with payload := r.payload ++ bytes }

@[simp] theorem WsRecord.add_add (r : WsRecord) (x y : Bytes) :
    (r.add x).add y = r.add (x ++ y) := by
  simp [add]

@[simp] theorem WsRecord.add_nil (r : WsRecord) : r.add [] = r := by
  simp [add]

def wsMessage (config : WsConfig) (r : WsRecord) (complete : Bool) :
    Message :=
  { Message.default with
    method := some (opcodeName r.op)
    target := some config.target
    bodyBytes := r.payload.length
    body := r.payload
    complete := complete }

def wsExchange (config : WsConfig) (side : Direction) (id : Nat)
    (r : WsRecord) (complete : Bool) : Exchange :=
  (Exchange.new id).setMessage side (wsMessage config r complete)

def Exchange.unnumbered (exchange : Exchange) : Exchange :=
  { exchange with id := 0 }

@[simp] theorem wsExchange_unnumbered (config : WsConfig) (side : Direction)
    (id : Nat) (r : WsRecord) (complete : Bool) :
    (wsExchange config side id r complete).unnumbered =
      wsExchange config side 0 r complete := by
  cases side <;> rfl

theorem wsExchange_modify (config : WsConfig) (side : Direction) (id : Nat)
    (r r' : WsRecord) (complete complete' : Bool) (f : Message → Message)
    (h : f (wsMessage config r complete) = wsMessage config r' complete') :
    (wsExchange config side id r complete).modifyMessage side f =
      wsExchange config side id r' complete' := by
  cases side <;>
    simp [wsExchange, Exchange.setMessage, Exchange.modifyMessage, h]

theorem wsMessage_append (config : WsConfig) (r : WsRecord) (bytes : Bytes)
    (limits : Limits)
    (h : (r.payload ++ bytes).length ≤ limits.encodedBody) :
    (wsMessage config r false).append bytes limits =
      wsMessage config (r.add bytes) false := by
  rw [List.length_append] at h
  have hall : bytes.take (limits.encodedBody - r.payload.length) = bytes :=
    List.take_of_length_le (by omega)
  simp [wsMessage, Message.append, WsRecord.add, hall]

def Shows (config : WsConfig) (side : Direction) :
    Option WsActive → Option WsRecord → Prop
  | none, none => True
  | some active, some r =>
    active.compressed = false ∧
      ∃ id, active.exchange = wsExchange config side id r false
  | _, _ => False

theorem Shows.of_none {config : WsConfig} {side : Direction}
    {active : Option WsActive} (h : Shows config side active none) :
    active = none := by
  cases active with
  | none => rfl
  | some active => cases h

theorem Shows.of_some {config : WsConfig} {side : Direction}
    {active : Option WsActive} {r : WsRecord}
    (h : Shows config side active (some r)) :
    ∃ id, active = some ⟨wsExchange config side id r false, false⟩ := by
  cases active with
  | none => cases h
  | some active =>
    obtain ⟨hcompressed, id, hexchange⟩ := h
    exact ⟨id, by rw [← hexchange, ← hcompressed]⟩

def startOf : Option WsRecord → FrameKind → Option WsRecord
  | _, .control kind => some ⟨(FrameKind.control kind).op, []⟩
  | none, .data kind => some ⟨(FrameKind.data kind).op, []⟩
  | some r, .continuation => some r
  | _, _ => none

def underWay (current : Option WsRecord) (f : ScriptFrame) (r : WsRecord) :
    Option WsRecord :=
  if f.kind.isControl then current
  else if f.fin then none else some (r.add f.payload)

def Legal (limits : Limits) : Option WsRecord → List ScriptFrame → Prop
  | _, [] => True
  | current, f :: rest =>
    f.payload.length < 2 ^ 63 ∧
    (f.kind.isControl → f.fin = true ∧ f.payload.length ≤ 125) ∧
    ∃ r, startOf current f.kind = some r ∧
      (r.payload ++ f.payload).length ≤ limits.encodedBody ∧
      f.ends = (if f.fin then some (r.add f.payload) else none) ∧
      Legal limits (underWay current f r) rest

/-! ## One turn -/

section Turn

variable {δ ι : Type} (lib : Library δ ι) (limits : Limits)
  (config : WsConfig) (side : Direction)

/-- A side between two frames; `u` is still to come. -/
structure Between (current : Option WsRecord) (frames : List ScriptFrame)
    (u : Bytes) (s : WsSide ι) : Prop where
  frame : s.frame = none
  message : Shows config side s.message current
  control : Shows config side s.control none
  bytes : s.buffer ++ u = encodeFrames side frames

/-- A side within a frame whose payload is `sent` and `left`. -/
structure Inside (current : Option WsRecord) (f : ScriptFrame) (r : WsRecord)
    (sent left : Bytes) (rest : List ScriptFrame) (u : Bytes)
    (s : WsSide ι) : Prop where
  payload : f.payload = sent ++ left
  frame : s.frame = some ⟨left.length, sent.length, maskFor side f.key, f.fin,
    f.kind.isControl⟩
  active : Shows config side (s.active f.kind.isControl) (some (r.add sent))
  inactive : Shows config side (s.active !f.kind.isControl)
    (if f.kind.isControl then current else none)
  bytes : s.buffer ++ u =
    applyMask (maskFor side f.key) sent.length left ++ encodeFrames side rest

variable {limits config side}
  {current : Option WsRecord} {f : ScriptFrame} {r : WsRecord}
  {sent left : Bytes} {rest : List ScriptFrame} {u : Bytes} {s : WsSide ι}

theorem split_payload {mask : Option Bytes} {o k : Nat}
    {buffer left enc : Bytes} (h : buffer ++ u = applyMask mask o left ++ enc)
    (hleft : k ≤ left.length) (hbuffer : k ≤ buffer.length) :
    buffer.take k = applyMask mask o (left.take k) ∧
      buffer.drop k ++ u = applyMask mask (o + k) (left.drop k) ++ enc := by
  rw [← List.take_append_drop k left, applyMask_append, List.append_assoc,
    ← List.take_append_drop k buffer, List.append_assoc,
    List.length_take_of_le hleft] at h
  exact List.append_inj h (by simp [hleft, hbuffer])

theorem append_payload {c : Bool} {bytes : Bytes}
    (hshows : Shows config side (s.active c) (some r))
    (hlimit : (r.payload ++ bytes).length ≤ limits.encodedBody) :
    ∃ active, appendPayload lib limits side c bytes s =
        (s.setActive c (some active), none) ∧
      Shows config side (some active) (some (r.add bytes)) := by
  obtain ⟨id, hactive⟩ := hshows.of_some
  refine ⟨⟨wsExchange config side id (r.add bytes) false, false⟩, ?_, rfl, id,
    rfl⟩
  unfold appendPayload
  rw [hactive]
  simp only [Bool.not_false, if_true]
  rw [wsExchange_modify config side id r (r.add bytes) false false _
    (wsMessage_append config r bytes limits hlimit)]

theorem take_payload {k : Nat}
    (hin : Inside config side current f r sent left rest u s)
    (hlimit : (r.payload ++ f.payload).length ≤ limits.encodedBody)
    (hk : min left.length s.buffer.length = k) :
    ∃ s', takePayload lib limits side ⟨left.length, sent.length,
        maskFor side f.key, f.fin, f.kind.isControl⟩ s = (s', none) ∧
      s'.buffer = s.buffer.drop k ∧
      Inside config side current f r (sent ++ left.take k) (left.drop k) rest u
        s' := by
  obtain ⟨htake, hdrop⟩ := split_payload (k := k) hin.bytes (by omega) (by omega)
  have hpayload : f.payload = sent ++ left.take k ++ left.drop k := by
    rw [List.append_assoc, List.take_append_drop, hin.payload]
  unfold takePayload
  simp only [hk]
  by_cases hzero : k = 0
  · subst hzero
    exact ⟨s, if_pos rfl, rfl, by simpa using hin⟩
  · rw [if_neg hzero]
    have hbytes : applyMask (maskFor side f.key) sent.length
        (s.buffer.take k) = left.take k := by
      rw [htake, applyMask_applyMask]
    have hroom : ((r.add sent).payload ++ left.take k).length ≤
        limits.encodedBody := by
      rw [hpayload] at hlimit
      simp only [WsRecord.add, List.length_append] at hlimit ⊢
      omega
    let s1 : WsSide ι := { s with
      buffer := s.buffer.drop k
      frame := some ⟨left.length - k, sent.length + k, maskFor side f.key,
        f.fin, f.kind.isControl⟩ }
    have hsame : ∀ c, s1.active c = s.active c := fun c => by cases c <;> rfl
    have hactive : Shows config side (s1.active f.kind.isControl)
        (some (r.add sent)) := by
      rw [hsame]
      exact hin.active
    obtain ⟨active, happend, hshows⟩ := append_payload lib hactive hroom
    refine ⟨s1.setActive f.kind.isControl (some active), ?_,
      WsSide.buffer_setActive s1 _ _, ?_⟩
    · rw [← happend, ← hbytes]
    · refine ⟨hpayload, ?_, ?_, ?_, ?_⟩
      · rw [WsSide.frame_setActive]
        have hle : k ≤ left.length := by omega
        simp [s1, hle]
      · rw [WsSide.active_setActive, ← WsRecord.add_add]
        exact hshows
      · rw [WsSide.active_setActive_not, hsame]
        exact hin.inactive
      · rw [WsSide.buffer_setActive, List.length_append,
          List.length_take_of_le (by omega)]
        exact hdrop

def reported (config : WsConfig) (side : Direction) (records : List WsRecord) :
    List Exchange :=
  records.map fun r => wsExchange config side 0 r true

theorem not_flushed {c : Bool} (h : Shows config side (s.active c) (some r)) :
    flushMessage lib limits side c s = (s, none) := by
  obtain ⟨id, hactive⟩ := h.of_some
  cases c with
  | true => rfl
  | false =>
    rw [WsSide.active_false] at hactive
    simp [flushMessage, hactive]

theorem Inside.rest_bytes
    (hin : Inside config side current f r sent [] rest u s) :
    s.buffer ++ u = encodeFrames side rest := by
  have h := hin.bytes
  cases hm : maskFor side f.key <;> simpa [hm, applyMask, unmask] using h

variable (limits)

theorem end_final (hin : Inside config side current f r f.payload [] rest u s)
    (hfin : f.fin = true) :
    ∃ s' e, endFrame lib limits side ⟨0, f.payload.length,
        maskFor side f.key, f.fin, f.kind.isControl⟩ s = (s', [e], none) ∧
      s'.buffer = s.buffer ∧ e.unnumbered =
        wsExchange config side 0 (r.add f.payload) true ∧
      Between config side (underWay current f r) rest u s' := by
  obtain ⟨id, hactive⟩ := hin.active.of_some
  let s1 : WsSide ι := { s with frame := none }
  have hsame : ∀ c, s1.active c = s.active c := fun c => by cases c <;> rfl
  refine ⟨s1.setActive f.kind.isControl none,
    wsExchange config side id (r.add f.payload) true, ?_,
    WsSide.buffer_setActive s1 _ _, wsExchange_unnumbered _ _ _ _ _, ?_⟩
  · have hflush : flushMessage lib limits side f.kind.isControl s1 =
        (s1, none) :=
      not_flushed lib (by rw [hsame]; exact hin.active)
    unfold endFrame
    simp only [hfin, if_true]
    rw [hflush]
    dsimp only
    rw [hsame, hactive]
    dsimp only
    rw [wsExchange_modify config side id (r.add f.payload) (r.add f.payload)
      false true _ rfl]
  · have hinactive := hin.inactive
    cases hc : f.kind.isControl with
    | true =>
      rw [hc] at hinactive
      refine ⟨rfl, ?_, trivial, hin.rest_bytes⟩
      simpa [underWay, hc, WsSide.setActive] using hinactive
    | false =>
      rw [hc] at hinactive
      refine ⟨rfl, ?_, by simpa [WsSide.setActive] using hinactive, hin.rest_bytes⟩
      simp only [underWay, hc, hfin, Bool.false_eq_true, if_false, if_true]
      trivial

theorem end_fragment
    (hin : Inside config side current f r f.payload [] rest u s)
    (hfin : f.fin = false) (hc : f.kind.isControl = false) :
    ∃ s', endFrame lib limits side ⟨0, f.payload.length,
        maskFor side f.key, f.fin, f.kind.isControl⟩ s = (s', [], none) ∧
      s'.buffer = s.buffer ∧
      Between config side (underWay current f r) rest u s' := by
  refine ⟨{ s with frame := none }, ?_, rfl, rfl, ?_, ?_, hin.rest_bytes⟩
  · unfold endFrame
    simp only [hfin, Bool.false_eq_true, if_false]
  · have hactive := hin.active
    rw [hc] at hactive
    simpa [underWay, hc, hfin] using hactive
  · have hinactive := hin.inactive
    rw [hc] at hinactive
    simpa using hinactive

theorem end_frame (hin : Inside config side current f r f.payload [] rest u s)
    (hcontrol : f.kind.isControl → f.fin = true)
    (hends : f.ends = if f.fin then some (r.add f.payload) else none) :
    ∃ s' out, endFrame lib limits side ⟨0, f.payload.length,
        maskFor side f.key, f.fin, f.kind.isControl⟩ s = (s', out, none) ∧
      s'.buffer = s.buffer ∧
      out.map Exchange.unnumbered = reported config side f.ends.toList ∧
      Between config side (underWay current f r) rest u s' := by
  cases hfin : f.fin with
  | true =>
    obtain ⟨s', e, heq, hbuffer, he, hbetween⟩ :=
      end_final lib limits hin hfin
    rw [hfin] at heq
    exact ⟨s', [e], heq, hbuffer, by simp [hends, hfin, reported, he], hbetween⟩
  | false =>
    have hc : f.kind.isControl = false := by
      by_contra h
      rw [hcontrol (by simpa using h)] at hfin
      cases hfin
    obtain ⟨s', heq, hbuffer, hbetween⟩ :=
      end_fragment lib limits hin hfin hc
    rw [hfin] at heq
    exact ⟨s', [], heq, hbuffer, by simp [hends, hfin, reported], hbetween⟩

variable {limits}

theorem frame_turn (hin : Inside config side current f r sent left rest u s)
    (hlimit : (r.payload ++ f.payload).length ≤ limits.encodedBody)
    (hcontrol : f.kind.isControl → f.fin = true)
    (hends : f.ends = if f.fin then some (r.add f.payload) else none)
    (next : Nat) :
    (∃ s' sent' left', left' ≠ [] ∧ s'.buffer = [] ∧
      Inside config side current f r sent' left' rest u s' ∧
      frameTurn lib limits side ⟨left.length, sent.length,
        maskFor side f.key, f.fin, f.kind.isControl⟩ s next = .wait (s', next) []) ∨
    ∃ s' out, out.map Exchange.unnumbered =
        reported config side f.ends.toList ∧
      Between config side (underWay current f r) rest u s' ∧
      frameTurn lib limits side ⟨left.length, sent.length,
        maskFor side f.key, f.fin, f.kind.isControl⟩ s next =
          if s'.buffer.isEmpty then .wait (s', next) out
          else .more (s', next) out := by
  obtain ⟨s1, htake, hbuffer, hin1⟩ := take_payload lib hin hlimit rfl
  generalize hk : min left.length s.buffer.length = k at hin1 hbuffer
  unfold frameTurn
  rw [htake]
  dsimp only
  rw [hin1.frame]
  dsimp only
  by_cases hleft : left.drop k = []
  · right
    have hall : f.payload = sent ++ left.take k := by
      simpa [hleft] using hin1.payload
    rw [hleft, ← hall] at hin1
    obtain ⟨s2, out, heq, hbuffer2, hout, hbetween⟩ :=
      end_frame lib limits hin1 hcontrol hends
    refine ⟨s2, out, hout, hbetween, ?_⟩
    rw [hleft, ← hall, if_neg (by simp)]
    rw [show (([] : Bytes).length) = 0 from rfl, heq]
  · left
    have hne : (left.drop k).length ≠ 0 := fun h =>
      hleft (List.length_eq_zero_iff.1 h)
    have hempty : s.buffer.drop k = [] := by
      rw [List.length_drop] at hne
      exact List.drop_of_length_le (by omega)
    exact ⟨s1, _, _, hleft, hbuffer.trans hempty, hin1, if_pos hne⟩

theorem startMessage_shows (id : Nat) (f : ScriptFrame) :
    Shows config side (some (startMessage config side id (f.header side)))
      (some ⟨f.kind.op, []⟩) :=
  ⟨rfl, id, by cases side <;> rfl⟩

/-- A side at the start of a frame, behind a header of `n` bytes. -/
def atPayload (side : Direction) (f : ScriptFrame) (n : Nat) (s : WsSide ι) :
    WsSide ι :=
  { s with
    frame := some ⟨f.payload.length, 0, maskFor side f.key, f.fin, f.kind.isControl⟩
    buffer := s.buffer.drop n }

theorem openFrame_continuation (hkind : f.kind = .continuation)
    (hmessage : s.message.isSome) (n next : Nat) :
    openFrame lib config side (f.header side) n s next =
      .ok (atPayload side f n s, next) := by
  have hnone : s.message.isNone = false := by
    rw [← Option.not_isSome, hmessage, Bool.not_true]
  simp [openFrame, ScriptFrame.header, hkind, FrameKind.op, hnone, atPayload,
    FrameKind.isControl]

theorem openFrame_start (hkind : f.kind ≠ .continuation)
    (hfree : f.kind.isControl = false → s.message = none)
    (hcontrol : f.kind.isControl → f.fin = true ∧ f.payload.length ≤ 125)
    (n next : Nat) :
    openFrame lib config side (f.header side) n s next =
      .ok (atPayload side f n (s.setActive f.kind.isControl
        (some (startMessage config side (next + 1) (f.header side)))),
        next + 1) := by
  cases hk : f.kind with
  | continuation => exact absurd hk hkind
  | data kind =>
    have hmessage := hfree (by rw [hk]; rfl)
    cases kind <;>
      simp [openFrame, ScriptFrame.header, hk, FrameKind.op, hmessage,
        atPayload, FrameKind.isControl, WsSide.setActive]
  | control kind =>
    obtain ⟨hfin, hshort⟩ := hcontrol (by rw [hk]; rfl)
    have hshort' : ¬ 125 < f.payload.length := Nat.not_lt.2 hshort
    cases kind <;>
      simp [openFrame, ScriptFrame.header, hk, FrameKind.op, hfin, hshort',
        atPayload, FrameKind.isControl, WsSide.setActive]

theorem startOf_start {kind : FrameKind}
    (h : startOf current kind = some r) (hkind : kind ≠ .continuation) :
    r = ⟨kind.op, []⟩ ∧ (kind.isControl = false → current = none) := by
  cases kind with
  | continuation => exact absurd rfl hkind
  | data kind =>
    cases current with
    | none => exact ⟨(Option.some.inj h).symm, fun _ => rfl⟩
    | some r' => cases h
  | control kind =>
    refine ⟨?_, fun hc => by cases hc⟩
    cases current <;> exact (Option.some.inj h).symm

theorem open_frame (hb : Between config side current (f :: rest) u s)
    (hstart : startOf current f.kind = some r)
    (hcontrol : f.kind.isControl → f.fin = true ∧ f.payload.length ≤ 125)
    (hlen : (frameHead side f).length ≤ s.buffer.length) (next : Nat) :
    ∃ s' next', openFrame lib config side (f.header side)
        (frameHead side f).length s next = .ok (s', next') ∧
      Inside config side current f r [] f.payload rest u s' := by
  have hbytes : s.buffer.drop (frameHead side f).length ++ u =
      applyMask (maskFor side f.key) 0 f.payload ++ encodeFrames side rest := by
    have h := congrArg (List.drop (frameHead side f).length) hb.bytes
    rw [List.drop_append_of_le_length hlen] at h
    rw [h]
    simp [encodeFrames, encodeFrame]
  by_cases hkind : f.kind = .continuation
  · have hc : f.kind.isControl = false := by rw [hkind]; rfl
    rw [hkind] at hstart
    cases current with
    | none => cases hstart
    | some r' =>
      cases hstart
      obtain ⟨id, hmessage⟩ := hb.message.of_some
      refine ⟨_, _, openFrame_continuation lib hkind (by rw [hmessage]; rfl)
        _ _, rfl, rfl, ?_, ?_, hbytes⟩
      · simpa [hc, atPayload] using hb.message
      · simpa [hc, atPayload] using hb.control
  · obtain ⟨rfl, hnone⟩ := startOf_start hstart hkind
    have hfree : f.kind.isControl = false → s.message = none := by
      intro hc
      have hmessage := hb.message
      rw [hnone hc] at hmessage
      exact hmessage.of_none
    have hactive : ∀ (s : WsSide ι) c n,
        (atPayload side f n s).active c = s.active c := by
      intro s c n
      cases c <;> rfl
    refine ⟨_, _, openFrame_start lib hkind hfree hcontrol _ _, rfl, rfl, ?_, ?_, ?_⟩
    · rw [hactive, WsSide.active_setActive, WsRecord.add_nil]
      exact startMessage_shows _ f
    · rw [hactive, WsSide.active_setActive_not]
      cases hc : f.kind.isControl with
      | true => exact hb.message
      | false => exact hb.control
    · simpa [atPayload] using hbytes

/-- A side that has read some frames of a script; `frames` are the others, the
first of them perhaps in part. -/
def Follows (limits : Limits) (config : WsConfig) (side : Direction)
    (frames : List ScriptFrame) (u : Bytes) (s : WsSide ι) : Prop :=
  ∃ current, Legal limits current frames ∧
    (Between config side current frames u s ∨
      ∃ f r sent left rest, frames = f :: rest ∧
        startOf current f.kind = some r ∧
        Inside config side current f r sent left rest u s)

def Awaits (side : Direction) (frames : List ScriptFrame) (u : Bytes) : Prop :=
  ∀ f rest, frames = f :: rest → (encodeFrames side rest).length < u.length

theorem Inside.awaits
    (hin : Inside config side current f r sent left rest u s)
    (hleft : left ≠ []) (hempty : s.buffer = []) :
    Awaits side (f :: rest) u := by
  rintro f' rest' heq
  cases heq
  have hlen := congrArg List.length hin.bytes
  have hpos : 0 < left.length := List.length_pos_iff.2 hleft
  simp only [hempty, List.nil_append, List.length_append, applyMask_length] at hlen
  omega

theorem Between.awaits {frames : List ScriptFrame}
    (hb : Between config side current frames u s) (hempty : s.buffer = []) :
    Awaits side frames u := by
  rintro f rest rfl
  have hlen := congrArg List.length hb.bytes
  simp only [hempty, List.nil_append, encodeFrames, List.flatMap_cons,
    List.length_append, encodeFrame, frameHead, List.length_cons] at hlen ⊢
  omega

def ReadsOn (limits : Limits) (config : WsConfig) (side : Direction)
    (frames : List ScriptFrame) (u : Bytes)
    (turn : Turn (WsSide ι × Nat) Exchange String) : Prop :=
  ∃ read frames' s' next' out, frames = read ++ frames' ∧
    Follows limits config side frames' u s' ∧
    out.map Exchange.unnumbered =
      reported config side (read.filterMap ScriptFrame.ends) ∧
    (turn = .more (s', next') out ∨
      (turn = .wait (s', next') out ∧ Awaits side frames' u))

theorem frame_turn_reads (hlegal : Legal limits current (f :: rest))
    (hstart : startOf current f.kind = some r)
    (hin : Inside config side current f r sent left rest u s) (next : Nat) :
    ReadsOn limits config side (f :: rest) u
      (frameTurn lib limits side ⟨left.length, sent.length,
        maskFor side f.key, f.fin, f.kind.isControl⟩ s next) := by
  have hlegal' := hlegal
  obtain ⟨-, hcontrol, r', hr', hlimit, hends, hrest⟩ := hlegal'
  cases hstart.symm.trans hr'
  obtain ⟨s', sent', left', hleft, hempty, hin', heq⟩ |
      ⟨s', out, hout, hbetween, heq⟩ :=
    frame_turn lib hin hlimit (fun hc => (hcontrol hc).1) hends next
  · refine ⟨[], f :: rest, s', next, [], rfl, ?_, rfl,
      .inr ⟨heq, hin'.awaits hleft hempty⟩⟩
    exact ⟨current, hlegal, .inr ⟨f, r, sent', left', rest, rfl, hstart, hin'⟩⟩
  · refine ⟨[f], rest, s', next, out, rfl, ⟨_, hrest, .inl hbetween⟩, ?_, ?_⟩
    · rw [hout]
      cases hf : f.ends <;> simp [hf]
    · cases hempty : s'.buffer.isEmpty with
      | true =>
        rw [hempty, if_pos rfl] at heq
        exact .inr ⟨heq, hbetween.awaits (List.isEmpty_iff.1 hempty)⟩
      | false =>
        rw [hempty, if_neg (by simp)] at heq
        exact .inl heq

theorem parse_short (hb : Between config side current (f :: rest) u s)
    (hlen : f.payload.length < 2 ^ 63)
    (hshort : s.buffer.length < (frameHead side f).length) :
    parseWsHeader side s.buffer = .incomplete ∧ Awaits side (f :: rest) u := by
  have hbytes := hb.bytes
  simp only [encodeFrames, List.flatMap_cons, encodeFrame,
    List.append_assoc] at hbytes
  obtain ⟨z, hz⟩ : s.buffer <+: frameHead side f :=
    List.prefix_of_prefix_length_le ⟨u, hbytes⟩ ⟨_, rfl⟩ (by omega)
  constructor
  · refine (parseWsHeader_stable side).incomplete (y := z)
      (v := f.header side) ?_ ?_
    · have h := parse_frameHead side f hlen []
      rwa [List.append_nil, ← hz] at h
    · rintro rfl
      rw [← hz, List.append_nil] at hshort
      exact Nat.lt_irrefl _ hshort
  · rintro f' rest' heq
    cases heq
    have hall := congrArg List.length hbytes
    simp only [List.length_append, encodeFrames] at hall ⊢
    omega

theorem turn_follows {frames : List ScriptFrame}
    (h : Follows limits config side frames u s) (next : Nat) :
    ReadsOn limits config side frames u
      (wsTurn lib limits config side (s, next)) := by
  obtain ⟨current, hlegal, hb | ⟨f, r, sent, left, rest, rfl, hstart, hin⟩⟩ := h
  · unfold wsTurn
    dsimp only
    rw [hb.frame]
    dsimp only
    cases frames with
    | nil =>
      have hempty : s.buffer = [] := by
        have := hb.bytes
        simp [encodeFrames] at this
        exact this.1
      rw [hempty]
      exact ⟨[], [], s, next, [], rfl, ⟨current, hlegal, .inl hb⟩, rfl,
        .inr ⟨rfl, fun _ _ h => by cases h⟩⟩
    | cons f rest =>
      have hlegal' := hlegal
      obtain ⟨hlen, hcontrol, r, hstart, -⟩ := hlegal'
      by_cases hshort : s.buffer.length < (frameHead side f).length
      · obtain ⟨hparse, hawaits⟩ := parse_short hb hlen hshort
        rw [hparse]
        exact ⟨[], f :: rest, s, next, [], rfl,
          ⟨current, hlegal, .inl hb⟩, rfl, .inr ⟨rfl, hawaits⟩⟩
      · have hle := Nat.le_of_not_lt hshort
        obtain ⟨y, hy⟩ : frameHead side f <+: s.buffer := by
          have hbytes := hb.bytes
          simp only [encodeFrames, List.flatMap_cons, encodeFrame,
            List.append_assoc] at hbytes
          exact List.prefix_of_prefix_length_le ⟨_, hbytes.symm⟩ ⟨u, rfl⟩ hle
        obtain ⟨s', next', hopen, hin⟩ :=
          open_frame lib hb hstart hcontrol hle next
        have hparse := parse_frameHead side f hlen y
        rw [hy] at hparse
        rw [hparse]
        dsimp only
        rw [hopen]
        dsimp only
        rw [hin.frame]
        exact frame_turn_reads lib hlegal hstart hin next'
  · unfold wsTurn
    dsimp only
    rw [hin.frame]
    exact frame_turn_reads lib hlegal hstart hin next

theorem exhaust_follows {frames : List ScriptFrame}
    (h : Follows limits config side frames u s) (next : Nat) :
    let r := exhaust (wsTurn lib limits config side) wsSize (s, next)
    r.error = none ∧ ∃ read frames', frames = read ++ frames' ∧
      Follows limits config side frames' u r.state.1 ∧
      r.out.map Exchange.unnumbered =
        reported config side (read.filterMap ScriptFrame.ends) ∧
      Awaits side frames' u := by
  refine exhaust_induction
    (wsTurn_shrinks lib limits config side)
    (P := fun sn r => ∀ frames, Follows limits config side frames u sn.1 →
      r.error = none ∧ ∃ read frames', frames = read ++ frames' ∧
        Follows limits config side frames' u r.state.1 ∧
        r.out.map Exchange.unnumbered =
          reported config side (read.filterMap ScriptFrame.ends) ∧
        Awaits side frames' u) ?_ ?_ ?_ (s, next) frames h
  · intro sn sn' out r hbody ih frames hf
    obtain ⟨read, frames', s', next', out', rfl, hf', hout, hmore | hwait⟩ :=
      turn_follows lib hf sn.2
    · rw [hbody] at hmore
      cases hmore
      obtain ⟨herror, read', frames'', rfl, hf'', hout', hawaits⟩ :=
        ih frames' hf'
      refine ⟨herror, read ++ read', frames'', by simp, hf'', ?_, hawaits⟩
      simp [reported, hout, hout']
    · rw [hbody] at hwait
      cases hwait.1
  · intro sn sn' out hbody frames hf
    obtain ⟨read, frames', s', next', out', rfl, hf', hout, hmore | hwait⟩ :=
      turn_follows lib hf sn.2
    · rw [hbody] at hmore
      cases hmore
    · rw [hbody] at hwait
      cases hwait.1
      exact ⟨rfl, read, frames', rfl, hf', hout, hwait.2⟩
  · intro sn sn' out e hbody frames hf
    obtain ⟨read, frames', s', next', out', rfl, hf', hout, hmore | hwait⟩ :=
      turn_follows lib hf sn.2
    · rw [hbody] at hmore
      cases hmore
    · rw [hbody] at hwait
      cases hwait.1

theorem Follows.extend {frames : List ScriptFrame} {x : Bytes}
    (h : Follows limits config side frames (x ++ u) s) :
    Follows limits config side frames u
      { s with buffer := s.buffer ++ x } := by
  obtain ⟨current, hlegal, hb | ⟨f, r, sent, left, rest, hf, hstart, hin⟩⟩ := h
  · refine ⟨current, hlegal, .inl ⟨hb.frame, hb.message, hb.control, ?_⟩⟩
    rw [List.append_assoc]
    exact hb.bytes
  · refine ⟨current, hlegal, .inr ⟨f, r, sent, left, rest, hf, hstart,
      hin.payload, hin.frame, ?_, ?_, ?_⟩⟩
    · exact hin.active
    · exact hin.inactive
    · rw [List.append_assoc]
      exact hin.bytes

theorem Follows.length_le {frames : List ScriptFrame}
    (h : Follows limits config side frames u s) :
    u.length ≤ (encodeFrames side frames).length := by
  obtain ⟨current, -, hb | ⟨f, r, sent, left, rest, rfl, -, hin⟩⟩ := h
  · have := congrArg List.length hb.bytes
    rw [List.length_append] at this
    omega
  · have := congrArg List.length hin.bytes
    simp only [encodeFrames, List.flatMap_cons, encodeFrame,
      List.length_append, applyMask_length, hin.payload] at this ⊢
    omega

end Turn

/-- The frames whose encoding lies within the first `n` bytes. -/
def arrived (side : Direction) : List ScriptFrame → Nat → List ScriptFrame
  | [], _ => []
  | f :: rest, n =>
    if (encodeFrame side f).length ≤ n then
      f :: arrived side rest (n - (encodeFrame side f).length)
    else []

theorem arrived_eq {side : Direction} {read frames : List ScriptFrame}
    {x u : Bytes} (hx : x ++ u = encodeFrames side (read ++ frames))
    (hu : u.length ≤ (encodeFrames side frames).length)
    (hawaits : Awaits side frames u) :
    arrived side (read ++ frames) x.length = read := by
  have hlen := congrArg List.length hx
  rw [List.length_append] at hlen
  clear hx
  generalize x.length = n at *
  induction read generalizing n with
  | nil =>
    cases frames with
    | nil => rfl
    | cons f rest =>
      have hlate := hawaits f rest rfl
      simp only [encodeFrames, List.nil_append, List.flatMap_cons,
        List.length_append] at hlen hlate
      exact if_neg (by omega)
  | cons f read ih =>
    have hcons : (encodeFrames side (f :: read ++ frames)).length =
        (encodeFrame side f).length +
          (encodeFrames side (read ++ frames)).length := by
      simp [encodeFrames]
    have happend : (encodeFrames side (read ++ frames)).length =
        (encodeFrames side read).length + (encodeFrames side frames).length := by
      simp [encodeFrames]
    rw [List.cons_append, arrived, if_pos (by omega), ih _ (by omega)]

theorem arrived_all (side : Direction) (frames : List ScriptFrame) :
    arrived side frames (encodeFrames side frames).length = frames := by
  have h := @arrived_eq side frames [] (encodeFrames side frames) [] (by simp)
    (by simp) (fun _ _ h => by cases h)
  simpa using h

def ScriptItem.Fits (limits : Limits) : ScriptItem → Prop
  | .control m => m.payload.length ≤ limits.encodedBody
  | .data m => m.payload.length ≤ limits.encodedBody ∧
      ∀ part ∈ m.rest, ∀ c ∈ part.1, c.payload.length ≤ limits.encodedBody

theorem legal_controls {limits : Limits} {current : Option WsRecord}
    {tail : List ScriptFrame} (controls : List ControlMessage)
    (hfits : ∀ c ∈ controls, c.payload.length ≤ limits.encodedBody)
    (htail : Legal limits current tail) :
    Legal limits current (controls.map ControlMessage.frame ++ tail) := by
  induction controls with
  | nil => exact htail
  | cons c controls ih =>
    have hshort := c.short
    refine ⟨Nat.lt_of_le_of_lt hshort (by decide), fun _ => ⟨rfl, hshort⟩,
      ⟨(FrameKind.control c.kind).op, []⟩, by cases current <;> rfl, ?_, rfl,
      ih fun c hc => hfits c (List.mem_cons_of_mem _ hc)⟩
    exact hfits c List.mem_cons_self

theorem legal_laterFrames {limits : Limits} {kind : DataKind}
    {tail : List ScriptFrame} (htail : Legal limits none tail)
    (rest : List (List ControlMessage × Fragment)) (sofar : Bytes)
    (htotal : (sofar ++ rest.flatMap fun part => part.2.payload).length ≤
      limits.encodedBody)
    (hfits : ∀ part ∈ rest, ∀ c ∈ part.1, c.payload.length ≤ limits.encodedBody) :
    Legal limits
      (if rest.isEmpty then none else some ⟨(FrameKind.data kind).op, sofar⟩)
      (laterFrames kind sofar rest ++ tail) := by
  induction rest generalizing sofar with
  | nil => exact htail
  | cons part rest ih =>
    obtain ⟨controls, fragment⟩ := part
    simp only [laterFrames, List.append_assoc]
    refine legal_controls controls (hfits _ List.mem_cons_self) ?_
    simp only [List.flatMap_cons] at htotal
    refine ⟨fragment.short, fun h => (by cases h), ⟨_, sofar⟩, rfl, ?_, rfl, ?_⟩
    · simp only [List.length_append] at htotal ⊢
      omega
    · have h := ih (sofar ++ fragment.payload) (by simpa using htotal)
        fun part hpart => hfits part (List.mem_cons_of_mem _ hpart)
      exact h

theorem legal_item {limits : Limits} {tail : List ScriptFrame}
    (htail : Legal limits none tail) (item : ScriptItem)
    (hfits : item.Fits limits) : Legal limits none (item.frames ++ tail) := by
  cases item with
  | control m =>
    exact legal_controls [m] (by simpa [ScriptItem.Fits] using hfits) htail
  | data m =>
    obtain ⟨htotal, hcontrols⟩ := hfits
    refine ⟨m.first.short, fun h => (by cases h), ⟨_, []⟩, rfl, ?_, rfl, ?_⟩
    · simp only [DataMessage.payload, List.length_append] at htotal
      simp only [List.nil_append]
      omega
    · have h := @legal_laterFrames limits m.kind tail htail m.rest
        m.first.payload htotal hcontrols
      exact h

theorem legal_script {limits : Limits} (script : List ScriptItem)
    (hfits : ∀ item ∈ script, item.Fits limits) :
    Legal limits none (script.flatMap ScriptItem.frames) := by
  induction script with
  | nil => trivial
  | cons item script ih =>
    exact legal_item
      (ih fun item hitem => hfits item (List.mem_cons_of_mem _ hitem)) item
      (hfits item List.mem_cons_self)

theorem ends_controls (controls : List ControlMessage) :
    (controls.map ControlMessage.frame).filterMap ScriptFrame.ends =
      controls.map ControlMessage.record := by
  induction controls with
  | nil => rfl
  | cons c controls ih =>
    simp [ControlMessage.frame, ih]

theorem ends_laterFrames (kind : DataKind) (sofar : Bytes)
    (rest : List (List ControlMessage × Fragment)) (hrest : rest ≠ []) :
    (laterFrames kind sofar rest).filterMap ScriptFrame.ends =
      (rest.flatMap Prod.fst).map ControlMessage.record ++
        [⟨(FrameKind.data kind).op,
          sofar ++ rest.flatMap fun part => part.2.payload⟩] := by
  induction rest generalizing sofar with
  | nil => exact absurd rfl hrest
  | cons part rest ih =>
    obtain ⟨controls, fragment⟩ := part
    simp only [laterFrames, List.filterMap_append, ends_controls]
    cases rest with
    | nil => simp [laterFrames]
    | cons part rest =>
      have h := ih (sofar ++ fragment.payload) (List.cons_ne_nil _ _)
      simp only [List.isEmpty_cons, Bool.false_eq_true, if_false,
        List.filterMap_cons_none, h]
      simp

theorem ends_item (item : ScriptItem) :
    item.frames.filterMap ScriptFrame.ends = item.records := by
  cases item with
  | control m => rfl
  | data m =>
    simp only [ScriptItem.frames, DataMessage.frames]
    cases hrest : m.rest with
    | nil =>
      simp [laterFrames, ScriptItem.records, DataMessage.payload, hrest]
    | cons part rest =>
      have h := ends_laterFrames m.kind m.first.payload (part :: rest)
        (List.cons_ne_nil _ _)
      simp only [List.isEmpty_cons, Bool.false_eq_true, if_false,
        List.filterMap_cons_none, h]
      simp [ScriptItem.records, DataMessage.payload, hrest]

theorem ends_script (script : List ScriptItem) :
    (script.flatMap ScriptItem.frames).filterMap ScriptFrame.ends =
      script.flatMap ScriptItem.records := by
  induction script with
  | nil => rfl
  | cons item script ih => simp [ih, ends_item]

/-! ## Any calls -/

section Calls

variable {δ ι : Type} (lib : Library δ ι) (limits : Limits)

/-- A sequence of calls of `feed`; each output with the side it came from. -/
def WebSocket.feedAll (w : WebSocket ι) : List (Direction × Bytes) →
    Outcome (WebSocket ι) (Direction × Exchange) String
  | [] => .ok w
  | (side, data) :: rest =>
    let r := w.feed lib limits side data
    Outcome.bind ⟨r.state, r.out.map fun e => (side, e), r.error⟩
      fun w => w.feedAll rest

def delivered (side : Direction) (calls : List (Direction × Bytes)) : Bytes :=
  (calls.filter fun call => call.1 = side).flatMap Prod.snd

def putOut (side : Direction) (out : List (Direction × Exchange)) :
    List Exchange :=
  (out.filter fun e => e.1 = side).map fun e => e.2.unnumbered

def ReadTo (config : WsConfig) (frames : Direction → List ScriptFrame)
    (u : Direction → Bytes) (w : WebSocket ι) : Prop :=
  w.config = config ∧ ∀ side,
    Follows limits config side (frames side) (u side) (w.sides.get side) ∧
      Awaits side (frames side) (u side)

variable {limits} {config : WsConfig} {frames : Direction → List ScriptFrame}
  {u : Direction → Bytes} {w : WebSocket ι}

theorem feed_reads {side : Direction} {x y : Bytes}
    (h : ReadTo limits config frames u w) (hu : u side = x ++ y) :
    let r := w.feed lib limits side x
    r.error = none ∧ ∃ read left, frames side = read ++ left ∧
      ReadTo limits config (Function.update frames side left)
        (Function.update u side y) r.state ∧
      r.out.map Exchange.unnumbered =
        reported config side (read.filterMap ScriptFrame.ends) := by
  obtain ⟨rfl, hsides⟩ := h
  have hfollows := (hsides side).1
  rw [hu] at hfollows
  obtain ⟨herror, read, left, hframes, hleft, hout, hawaits⟩ :=
    exhaust_follows lib hfollows.extend w.next
  refine ⟨herror, read, left, hframes, ⟨rfl, fun d => ?_⟩, hout⟩
  by_cases hd : d = side
  · subst hd
    simp only [Function.update_self, WebSocket.feed, Sides.get_set_self]
    exact ⟨hleft, hawaits⟩
  · simp only [Function.update_of_ne hd, WebSocket.feed, Sides.get_set, hd,
      if_false]
    exact hsides d

theorem delivered_cons (d side : Direction) (data : Bytes)
    (calls : List (Direction × Bytes)) :
    delivered d ((side, data) :: calls) =
      (if side = d then data else []) ++ delivered d calls := by
  by_cases h : side = d <;> simp [delivered, h]

theorem putOut_append (d : Direction) (xs ys : List (Direction × Exchange)) :
    putOut d (xs ++ ys) = putOut d xs ++ putOut d ys := by
  simp [putOut]

theorem putOut_tagged (d side : Direction) (out : List Exchange) :
    putOut d (out.map fun e => (side, e)) =
      if side = d then out.map Exchange.unnumbered else [] := by
  by_cases h : side = d
  · simp [putOut, List.filter_map, Function.comp_def, h]
  · simp [putOut, List.filter_map, Function.comp_def, h]

theorem feedAll_cons {side : Direction} {data : Bytes}
    (calls : List (Direction × Bytes))
    (h : (w.feed lib limits side data).error = none) :
    w.feedAll lib limits ((side, data) :: calls) =
      ((w.feed lib limits side data).state.feedAll lib limits calls).after
        ((w.feed lib limits side data).out.map fun e => (side, e)) := by
  simp only [WebSocket.feedAll, Outcome.bind, h]

theorem feedAll_reads (calls : List (Direction × Bytes))
    (h : ReadTo limits config frames (fun d => delivered d calls ++ u d) w) :
    let r := w.feedAll lib limits calls
    r.error = none ∧ ∃ read left : Direction → List ScriptFrame,
      (∀ d, frames d = read d ++ left d) ∧
      ReadTo limits config left u r.state ∧
      ∀ d, putOut d r.out =
        reported config d ((read d).filterMap ScriptFrame.ends) := by
  induction calls generalizing w frames with
  | nil =>
    exact ⟨rfl, fun _ => [], frames, fun _ => rfl, h, fun _ => rfl⟩
  | cons call calls ih =>
    obtain ⟨side, data⟩ := call
    have hu : delivered side ((side, data) :: calls) ++ u side =
        data ++ (delivered side calls ++ u side) := by
      rw [delivered_cons, if_pos rfl, List.append_assoc]
    obtain ⟨herror, read, left, hframes, hread, hout⟩ := feed_reads lib h hu
    have hrest : Function.update
        (fun d => delivered d ((side, data) :: calls) ++ u d) side
          (delivered side calls ++ u side) =
        fun d => delivered d calls ++ u d := by
      funext d
      by_cases hd : d = side
      · subst hd
        rw [Function.update_self]
      · rw [Function.update_of_ne hd, delivered_cons,
          if_neg fun hs => hd hs.symm, List.nil_append]
    rw [hrest] at hread
    obtain ⟨herror', read', left', hframes', hread', hout'⟩ := ih hread
    rw [feedAll_cons lib calls herror]
    refine ⟨herror', fun d => (if side = d then read else []) ++ read' d,
      left', fun d => ?_, hread', fun d => ?_⟩
    · dsimp only
      by_cases hd : side = d
      · subst hd
        have := hframes' side
        rw [Function.update_self] at this
        rw [if_pos rfl, List.append_assoc, ← this, hframes]
      · have := hframes' d
        rw [Function.update_of_ne fun h => hd h.symm] at this
        rw [if_neg hd, List.nil_append, this]
    · rw [Outcome.out_after, putOut_append, putOut_tagged, hout', hout]
      by_cases hd : side = d
      · subst hd
        simp [reported]
      · simp [reported, hd]

variable (limits)

theorem new_readTo (config : WsConfig) (script : Direction → List ScriptItem)
    (hfits : ∀ d, ∀ item ∈ script d, item.Fits limits)
    (hu : ∀ d, u d = encodeFrames d ((script d).flatMap ScriptItem.frames)) :
    ReadTo limits config (fun d => (script d).flatMap ScriptItem.frames) u
      (WebSocket.new config : WebSocket ι) := by
  refine ⟨rfl, fun d => ?_⟩
  have hbetween : Between config d none
      ((script d).flatMap ScriptItem.frames) (u d)
      ((WebSocket.new config : WebSocket ι).sides.get d) := by
    rw [hu]
    cases d <;> exact ⟨rfl, trivial, trivial, rfl⟩
  exact ⟨⟨none, legal_script _ (hfits d), .inl hbetween⟩,
    hbetween.awaits (by cases d <;> rfl)⟩

/--
Fed in any pieces and with the two directions interleaved in any way, the
frames of the scripts give back the messages whose final frame has arrived, in
the order of these frames; at the end these are all the messages.
-/
theorem websocket_round_trip (config : WsConfig)
    (script : Direction → List ScriptItem) (calls : List (Direction × Bytes))
    (hfits : ∀ d, ∀ item ∈ script d, item.Fits limits)
    (hcalls : ∀ d, delivered d calls <+:
      encodeFrames d ((script d).flatMap ScriptItem.frames)) :
    let r := (WebSocket.new config : WebSocket ι).feedAll lib limits calls
    r.error = none ∧ ∀ d,
      putOut d r.out = reported config d
        ((arrived d ((script d).flatMap ScriptItem.frames)
          (delivered d calls).length).filterMap ScriptFrame.ends) ∧
      (delivered d calls = encodeFrames d
          ((script d).flatMap ScriptItem.frames) →
        putOut d r.out =
          reported config d ((script d).flatMap ScriptItem.records)) := by
  choose u hu using hcalls
  have hstart := new_readTo (ι := ι) limits config script hfits hu
  obtain ⟨herror, read, left, hframes, hread, hout⟩ :=
    feedAll_reads lib calls hstart
  refine ⟨herror, fun d => ?_⟩
  have hsplit : delivered d calls ++ u d =
      encodeFrames d (read d ++ left d) := by
    rw [hu d, hframes d]
  have harrived : arrived d ((script d).flatMap ScriptItem.frames)
      (delivered d calls).length = read d := by
    have := arrived_eq hsplit (hread.2 d).1.length_le (hread.2 d).2
    rwa [← hframes d] at this
  have hfirst := hout d
  rw [← harrived] at hfirst
  refine ⟨hfirst, fun hall => ?_⟩
  rw [hfirst, hall, arrived_all, ends_script]

end Calls

def sampleScript : Direction → List ScriptItem
  | .client => [.data ⟨.text, ⟨[104], ⟨[1, 2, 3, 4], rfl⟩, by decide⟩,
      [([⟨.ping, [33], ⟨[9, 8, 7, 6], rfl⟩, by decide⟩],
        ⟨[101, 121], ⟨[5, 6, 7, 8], rfl⟩, by decide⟩)]⟩]
  | .server => [.control ⟨.close, [], ⟨[0, 0, 0, 0], rfl⟩, by decide⟩]

def sampleCalls : List (Direction × Bytes) :=
  [(.client, [1, 129, 1]), (.server, [136]), (.client, [2, 3, 4, 105, 137]),
    (.client, [129, 9, 8, 7, 6, 40, 128, 130, 5, 6, 7, 8, 96]),
    (.server, [0]), (.client, [127])]

theorem websocket_round_trip_sample :
    putOut .client ((WebSocket.new ⟨false, ⟨false, false⟩, []⟩).feedAll
      staticLibrary smallLimits sampleCalls).out =
        reported ⟨false, ⟨false, false⟩, []⟩ .client
          [⟨9, [33]⟩, ⟨1, [104, 101, 121]⟩] :=
  ((websocket_round_trip staticLibrary smallLimits
    ⟨false, ⟨false, false⟩, []⟩ sampleScript sampleCalls
    (by intro d; cases d <;> simp [sampleScript, ScriptItem.Fits, smallLimits,
      DataMessage.payload])
    (by intro d; cases d <;> exact ⟨[], by decide⟩)).2 .client).2 (by decide)

end ProxyLane.Protocol
