import ProxyLane.Mitm.Worker

/-!
# Sniffing a protocol

The worker collects what the client sends until it can tell the protocol.
The test looks at all that has come so far, and a text without a line end is
given up for its length or for an octet that is no ASCII text; the line itself
is not tested so once it has ended.
-/

namespace ProxyLane.Mitm

open ProxyLane.Foundation ProxyLane.Protocol

/-! ## The first line -/

variable {a : Bytes} {i : Nat}

theorem lineEnd_append (h : lineEnd a = some i)
    (b : Bytes) : lineEnd (a ++ b) = some i := by
  fun_induction lineEnd a generalizing i with
  | case1 rest => simpa [lineEnd] using h
  | case2 x rest no_end ih =>
    obtain ⟨j, hj, rfl⟩ := Option.map_eq_some_iff.1 h
    have tail := ih hj
    rw [List.cons_append, lineEnd]
    · rw [tail]
      rfl
    · intro rest' hx heq
      cases rest with
      | nil => simp [lineEnd] at hj
      | cons y rest =>
        simp only [List.cons_append, List.cons.injEq] at heq
        exact no_end rest hx (by rw [heq.1])
  | case3 => cases h

theorem lineEnd_le (h : lineEnd a = some i) :
    i + 2 ≤ a.length := by
  fun_induction lineEnd a generalizing i with
  | case1 rest =>
    cases h
    simp
  | case2 x rest no_end ih =>
    obtain ⟨j, hj, rfl⟩ := Option.map_eq_some_iff.1 h
    have := ih hj
    simp only [List.length_cons]
    omega
  | case3 => cases h

theorem lineEnd_getElem (h : lineEnd a = some i) :
    a[i]? = some 13 := by
  fun_induction lineEnd a generalizing i with
  | case1 rest =>
    cases h
    rfl
  | case2 x rest no_end ih =>
    obtain ⟨j, hj, rfl⟩ := Option.map_eq_some_iff.1 h
    simpa using ih hj
  | case3 => cases h

def binary (b : UInt8) : Bool := b == 0 || 128 ≤ b

/-- The text begins with a request line that would be given up before it has
ended: it is too long, or has an octet that is no ASCII text. -/
def Torn (b : Bytes) : Prop :=
  ∃ i, lineEnd b = some i ∧ isRequestLine (b.take i) = true ∧
    (8192 ≤ i ∨ (b.take i).any binary = true)

theorem lineEnd_of_take {more : Bytes}
    (h : lineEnd (a ++ more) = some i) (inside : i + 2 ≤ a.length) :
    lineEnd a = some i := by
  fun_induction lineEnd a generalizing i with
  | case1 rest =>
    rw [List.cons_append, List.cons_append, lineEnd] at h
    exact h
  | case2 x rest no_end ih =>
    rw [List.cons_append, lineEnd] at h
    · obtain ⟨j, hj, rfl⟩ := Option.map_eq_some_iff.1 h
      rw [ih hj (by simp only [List.length_cons] at inside; omega)]
      rfl
    · intro rest' hx heq
      cases rest with
      | nil => simp at inside
      | cons y rest =>
        simp only [List.cons_append, List.cons.injEq] at heq
        exact no_end rest hx (by rw [heq.1])
  | case3 => simp at inside

/-- An octet that is no text, in a part that ends before the line does, lies
in the line. -/
theorem binary_before {more : Bytes}
    (h : lineEnd (a ++ more) = some i) (odd : a.any binary = true)
    (short : a.length < i + 2) : ((a ++ more).take i).any binary = true := by
  obtain ⟨x, hx, bad⟩ := List.any_eq_true.1 odd
  obtain ⟨k, hk, rfl⟩ := List.getElem_of_mem hx
  apply List.any_eq_true.2
  refine ⟨a[k], ?_, bad⟩
  have there : (a ++ more)[k]? = some a[k] := by
    rw [List.getElem?_append_left hk, List.getElem?_eq_getElem hk]
  by_cases hki : k < i
  · apply List.mem_of_getElem? (i := k)
    rw [List.getElem?_take_of_lt hki, there]
  · have hki : k = i := by omega
    subst hki
    rw [lineEnd_getElem h] at there
    injection there with there
    rw [← there] at bad
    exact absurd bad (by decide)

/-! ## The test of a longer text -/

theorem comparable_preface {b : Bytes} (hab : a <+: b)
    (h : prefaceBytes <+: b) : prefaceBytes <+: a ∨ a <+: prefaceBytes :=
  List.prefix_or_prefix_of_prefix h hab

theorem preface_lineEnd : lineEnd prefaceBytes = some 14 := by decide

theorem not_requestLine_preface
    (h : a <+: prefaceBytes ∨ prefaceBytes <+: a) (hi : lineEnd a = some i) :
    isRequestLine (a.take i) = false := by
  rcases h with ⟨more, hmore⟩ | ⟨more, rfl⟩
  · have whole := lineEnd_append hi more
    rw [hmore, preface_lineEnd] at whole
    cases whole
    have same : a.take 14 = prefaceBytes.take 14 := by
      rw [← hmore, List.take_append_of_le_length (by have := lineEnd_le hi; omega)]
    rw [same]
    decide
  · have whole := lineEnd_append preface_lineEnd more
    rw [hi] at whole
    cases whole
    rw [List.take_append_of_le_length (by decide)]
    decide

theorem detect_line {decrypted : Bool} (h1 : ¬ prefaceBytes <+: a)
    (h2 : ¬ a <+: prefaceBytes) (h3 : (!decrypted && a.head? == some 22) = false) :
    detect decrypted a =
      match lineEnd a with
      | some i =>
        if isRequestLine (a.take i) then .protocol .http1
        else .opaqueBytes none
      | none =>
        if 8192 < a.length || a.any binary then .opaqueBytes none
        else .undecided := by
  unfold detect
  rw [if_neg (by simpa using h1), if_neg (by simpa using h2), if_neg (by simp [h3])]
  rfl

/-- Unless a request line is torn, what is decided at a part of the text is
decided so for the text. -/
theorem detect_extends {decrypted : Bool} {a b : Bytes} (hab : a <+: b)
    (whole : ¬ Torn b) :
    detect decrypted a = .undecided ∨ detect decrypted a = detect decrypted b := by
  by_cases h1 : prefaceBytes <+: a
  · right
    have h1b := h1.trans hab
    unfold detect
    rw [if_pos (by simpa using h1), if_pos (by simpa using h1b)]
  by_cases h2 : a <+: prefaceBytes
  · left
    unfold detect
    rw [if_neg (by simpa using h1), if_pos (by simpa using h2)]
  have h1b : ¬ prefaceBytes <+: b := fun h =>
    (comparable_preface hab h).elim h1 h2
  have h2b : ¬ b <+: prefaceBytes := fun h => h2 (hab.trans h)
  obtain ⟨more, rfl⟩ := hab
  have some_octet : a ≠ [] := fun h => h2 (h ▸ List.nil_prefix)
  have head : (a ++ more).head? = a.head? := by
    cases a with
    | nil => exact absurd rfl some_octet
    | cons x a => rfl
  by_cases h3 : (!decrypted && a.head? == some 22) = true
  · unfold detect
    rw [if_neg (by simpa using h1), if_neg (by simpa using h2), if_pos h3,
      if_neg (by simpa using h1b), if_neg (by simpa using h2b),
      if_pos (by rw [head]; exact h3)]
    rcases a with _ | ⟨x, _ | ⟨y, _ | ⟨z, a⟩⟩⟩
    · exact .inl rfl
    · exact .inl rfl
    · exact .inl rfl
    · exact .inr rfl
  · have h3 : (!decrypted && a.head? == some 22) = false := by simpa using h3
    rw [detect_line h1 h2 h3, detect_line h1b h2b (by rw [head]; exact h3)]
    cases ha : lineEnd a with
    | some i =>
      have hle := lineEnd_le ha
      rw [lineEnd_append ha more]
      dsimp only
      rw [List.take_append_of_le_length (by omega)]
      exact .inr rfl
    | none =>
      dsimp only
      by_cases given : (8192 < a.length || a.any binary) = true
      · right
        rw [if_pos given]
        cases hb : lineEnd (a ++ more) with
        | none =>
          dsimp only
          rw [if_pos]
          simp only [Bool.or_eq_true, decide_eq_true_eq] at given ⊢
          rcases given with long | odd
          · exact .inl (by rw [List.length_append]; omega)
          · exact .inr (by rw [List.any_append, odd, Bool.true_or])
        | some i =>
          dsimp only
          rw [if_neg]
          intro line
          have short : a.length < i + 2 := by
            by_contra long
            have := lineEnd_of_take hb (by omega)
            rw [ha] at this
            cases this
          apply whole
          refine ⟨i, hb, line, ?_⟩
          simp only [Bool.or_eq_true, decide_eq_true_eq] at given
          rcases given with long | odd
          · exact .inl (by omega)
          · exact .inr (binary_before hb odd short)
      · rw [if_neg given]
        exact .inl rfl

/-! ## A torn request line -/

theorem not_part_of_preface
    (h : 8192 < a.length ∨ a.any binary = true) : ¬ a <+: prefaceBytes := by
  intro part
  rcases h with long | odd
  · have short := part.length_le
    have : prefaceBytes.length = 24 := by decide
    omega
  · obtain ⟨x, hx, bad⟩ := List.any_eq_true.1 odd
    have none_bad : prefaceBytes.any binary = false := by decide
    have := List.any_eq_false.1 none_bad x (part.subset hx)
    exact this bad

theorem head_of_requestLine
    (line : isRequestLine (a.take i) = true) : (a.head? == some 22) = false := by
  cases a with
  | nil => rfl
  | cons x a =>
    by_contra h
    have hx : x = 22 := by simpa using h
    subst hx
    cases i with
    | zero => simp [isRequestLine] at line
    | succ i =>
      rw [List.take_succ_cons] at line
      unfold isRequestLine at line
      have split : ∃ method rest, (22 :: a.take i).splitOn 32 =
          (22 :: method) :: rest := by
        obtain ⟨method, rest, hsplit⟩ := List.exists_cons_of_ne_nil
          (List.splitOnP_ne_nil (· == 32) (a.take i))
        refine ⟨method, rest, ?_⟩
        rw [List.splitOn_eq_splitOnP, List.splitOnP_cons_eq_if_modifyHead, hsplit]
        rfl
      obtain ⟨method, rest, hsplit⟩ := split
      rw [hsplit] at line
      split at line
      · rename_i heq
        simp only [List.cons.injEq] at heq
        obtain ⟨rfl, -⟩ := heq
        simp at line
      · cases line

theorem detect_torn {decrypted : Bool} {b : Bytes} (h : Torn b) :
    detect decrypted b = .protocol .http1 ∧
      ∃ a more, a ++ more = b ∧ detect decrypted a = .opaqueBytes none := by
  obtain ⟨i, hi, line, odd⟩ := h
  have hle := lineEnd_le hi
  have hhead := head_of_requestLine line
  have apart : ¬ prefaceBytes <+: b ∧ ¬ b <+: prefaceBytes := by
    constructor
    · intro h
      rw [not_requestLine_preface (.inr h) hi] at line
      cases line
    · intro h
      rw [not_requestLine_preface (.inl h) hi] at line
      cases line
  constructor
  · rw [detect_line apart.1 apart.2 (by simp [hhead]), hi]
    dsimp only
    rw [if_pos line]
  · refine ⟨b.take (i + 1), b.drop (i + 1), List.take_append_drop _ _, ?_⟩
    have length : (b.take (i + 1)).length = i + 1 := by
      rw [List.length_take]
      omega
    have odd' : 8192 < (b.take (i + 1)).length ∨
        (b.take (i + 1)).any binary = true := by
      rcases odd with long | odd
      · exact .inl (by omega)
      · right
        obtain ⟨x, hx, bad⟩ := List.any_eq_true.1 odd
        exact List.any_eq_true.2 ⟨x, List.take_subset_take_left b
          (Nat.le_succ i) hx, bad⟩
    have no_end : lineEnd (b.take (i + 1)) = none := by
      cases hb : lineEnd (b.take (i + 1)) with
      | none => rfl
      | some j =>
        have whole := lineEnd_append hb (b.drop (i + 1))
        rw [List.take_append_drop, hi] at whole
        cases whole
        have := lineEnd_le hb
        omega
    have head : ((b.take (i + 1)).head? == some 22) = false := by
      cases b with
      | nil => rfl
      | cons x b => exact hhead
    rw [detect_line (fun h => apart.1 (h.trans (List.take_prefix _ _)))
      (not_part_of_preface odd') (by simp [head]), no_end]
    dsimp only
    rw [if_pos (by simpa using odd')]

namespace Worker

variable {δ ι χ θ ρ : Type} (w : Worker δ ι χ θ ρ)

def decides (c : Connection) (s : Stream δ ι χ θ ρ) : Event → Detected
  | .data side bytes =>
    if s.dns.isNone && s.detect then
      match side with
      | .server => .opaqueBytes none
      | .client => Mitm.detect c.decrypted (s.sniff ++ bytes)
    else .undecided
  | _ => .undecided

def choose (c : Connection) :
    Capture δ ι χ θ ρ → List (Nat × Event) → Detected
  | _, [] => .undecided
  | s, e :: es =>
    match decides c s.stream e.2 with
    | .undecided => choose c (w.live c s e) es
    | decided => decided

def chunks (side : Direction) (pieces : List (Nat × Bytes)) :
    List (Nat × Event) :=
  pieces.map fun piece => (piece.1, .data side piece.2)

def text (pieces : List (Nat × Bytes)) : Bytes := (pieces.map (·.2)).flatten

structure Sniffed (c : Connection) : Prop where
  alpn : c.alpn = none
  tcp : c.udp = false
  notDns : c.serverPort ≠ 53

/-! ## What the stream shows -/

abbrev Push := Direction × Nat × Bytes

def pushed (a : Analyzer δ ι) (pushes : List Push) :
    Analyzer δ ι × List Output :=
  run (Analyzer.step w.lib) (a, []) (pushes.map fun p => .push p.1 p.2.1 p.2.2)

/-- The data of the client, if each piece begins where the last one ended; the
last push comes first. -/
def joined : List Push → Option Bytes
  | [] => some []
  | (.client, offset, bytes) :: rest =>
    (joined rest).bind fun got =>
      if offset = got.length then some (got ++ bytes) else none
  | (.server, _) :: rest => joined rest

def outputs (log : List (Entry ρ)) : List Output :=
  log.filterMap fun
    | .output _ output => some output
    | _ => none

/-- The outputs and the state are those of the parser chosen when it is given
what the client sent, from its first octet on, as far as it does not fail. -/
def Parsing (s : Stream δ ι χ θ ρ) (b : Bytes) (protocol : ProtocolKind) :
    Prop :=
  ∃ pushes got, joined pushes = some got ∧ got <+: b ∧
    outputs s.log = (w.pushed (w.parser protocol) pushes.reverse).2 ∧
    if s.fallback then s.analyzer = none
    else got = b ∧
      s.analyzer = some (w.pushed (w.parser protocol) pushes.reverse).1

/-- What the stream is when this has been chosen and the client has sent `b`. -/
def Shows (s : Stream δ ι χ θ ρ) (b : Bytes) : Detected → Prop
  | .undecided => s.detect = true ∧ s.sniff = b ∧ s.analyzer = none ∧
      s.fallback = false ∧ s.encrypted = false ∧ outputs s.log = []
  | .opaqueBytes encrypted => s.detect = false ∧ s.cache = true ∧
      s.analyzer = none ∧ s.fallback = false ∧
      s.encrypted = encrypted.getD false ∧ outputs s.log = []
  | .protocol protocol => s.detect = false ∧ w.Parsing s b protocol

variable {w} {c : Connection}

section Streams

variable (s : Stream δ ι χ θ ρ) (side : Direction) (bytes : Bytes)

theorem opaqueData_fields : (s.opaqueData side bytes).dns = s.dns ∧
    (s.opaqueData side bytes).detect = s.detect ∧
    (s.opaqueData side bytes).cache = s.cache ∧
    (s.opaqueData side bytes).analyzer = s.analyzer ∧
    (s.opaqueData side bytes).fallback = s.fallback ∧
    (s.opaqueData side bytes).encrypted = s.encrypted ∧
    outputs (s.opaqueData side bytes).log = outputs s.log := by
  unfold Stream.opaqueData
  dsimp only
  split
  · refine ⟨rfl, rfl, rfl, rfl, rfl, rfl, ?_⟩
    simp [Stream.emit, outputs]
  · exact ⟨rfl, rfl, rfl, rfl, rfl, rfl, rfl⟩

theorem opaqueCapture_fields : s.opaqueCapture.dns = s.dns ∧
    s.opaqueCapture.detect = false ∧ s.opaqueCapture.cache = true ∧
    s.opaqueCapture.analyzer = s.analyzer ∧
    s.opaqueCapture.fallback = s.fallback ∧
    s.opaqueCapture.encrypted = s.encrypted ∧
    outputs s.opaqueCapture.log = outputs s.log := by
  have opened : outputs (s.log ++ [.opened]) = outputs s.log := by
    simp [outputs]
  unfold Stream.opaqueCapture
  dsimp only
  split
  · exact ⟨rfl, rfl, rfl, rfl, rfl, rfl, opened⟩
  · obtain ⟨h1, h2, h3, h4, h5, h6, h7⟩ := opaqueData_fields
      ({ s.emit [.opened] with detect := false, cache := true, sniff := [] } :
        Stream δ ι χ θ ρ) .client s.sniff
    exact ⟨h1, h2, h3, h4, h5, h6, h7.trans opened⟩

theorem fallbackData_fields (now offset : Nat) :
    (s.fallbackData now side offset bytes).dns = s.dns ∧
      (s.fallbackData now side offset bytes).detect = s.detect ∧
      (s.fallbackData now side offset bytes).analyzer = s.analyzer ∧
      (s.fallbackData now side offset bytes).fallback = s.fallback ∧
      outputs (s.fallbackData now side offset bytes).log = outputs s.log := by
  unfold Stream.fallbackData
  dsimp only
  split
  · obtain ⟨h1, h2, -, h4, h5, -, h7⟩ := opaqueData_fields
      (s.emit [.chunk now side offset (s.counts.get side) bytes.length]) side bytes
    refine ⟨h1, h2, h4, h5, h7.trans ?_⟩
    simp [Stream.emit, outputs]
  · obtain ⟨h1, h2, -, h4, h5, -, h7⟩ := opaqueData_fields s side bytes
    exact ⟨h1, h2, h4, h5, h7⟩

end Streams

/-- What an event brings of the client's data. -/
def sent : Event → Bytes
  | .data .client bytes => bytes
  | _ => []

theorem outputs_put (now : Nat) (s : Stream δ ι χ θ ρ) (out : List Output) :
    outputs (put now s out).log = outputs s.log ++ out := by
  simp [put, Stream.emit, outputs, List.filterMap_append, List.filterMap_map]

private theorem pushed_last (a : Analyzer δ ι) (side : Direction) (offset : Nat)
    (bytes : Bytes) (pushes : List Push) :
    w.pushed a ((side, offset, bytes) :: pushes).reverse =
      let before := w.pushed a pushes.reverse
      let r := before.1.push w.lib side offset bytes
      (r.1, before.2 ++ r.2) := by
  simp only [pushed, List.reverse_cons, List.map_append, run_append]
  rfl

theorem parsing_parsed {s : Stream δ ι χ θ ρ} (protocol : ProtocolKind)
    (pushes : List Push) {got : Bytes} (side : Direction) (offset now : Nat)
    (bytes : Bytes) (hgot : joined pushes = some got)
    (hlog : outputs s.log = (w.pushed (w.parser protocol) pushes.reverse).2)
    (intact : s.fallback = false) (place : side = .client → offset = got.length) :
    let r := (w.pushed (w.parser protocol) pushes.reverse).1.push w.lib side
      offset bytes
    (parsed now s side offset bytes r).dns = s.dns ∧
      (s.detect = false → (parsed now s side offset bytes r).detect = false) ∧
      w.Parsing (parsed now s side offset bytes r)
        (got ++ sent (.data side bytes)) protocol := by
  intro r
  have more : joined ((side, offset, bytes) :: pushes) =
      some (got ++ sent (.data side bytes)) := by
    cases side with
    | client => simp [joined, hgot, place rfl, sent]
    | server => simp [joined, hgot, sent]
  have last := pushed_last (w := w) (w.parser protocol) side offset bytes pushes
  have log : outputs (put now s r.2).log =
      (w.pushed (w.parser protocol) ((side, offset, bytes) :: pushes).reverse).2 := by
    rw [outputs_put, hlog, last]
  unfold parsed
  dsimp only
  split
  case h_1 reason _ =>
    obtain ⟨h1, h2, h3, h4, h5⟩ := fallbackData_fields
      ((put now s r.2).startFallback now reason) side bytes now offset
    refine ⟨h1, fun _ => h2, _, _, more, List.prefix_rfl, ?_, ?_⟩
    · rw [h5, ← log]
      simp [Stream.startFallback, Stream.emit, outputs, intact, put]
    · rw [if_pos (by rw [h4]; rfl), h3]
      rfl
  case h_2 =>
    refine ⟨rfl, fun h => h, _, _, more, List.prefix_rfl, log, ?_⟩
    rw [if_neg (by simp [put, Stream.emit, intact]), last]
    exact ⟨rfl, rfl⟩

/-! ## Steps -/

structure Served (w : Worker δ ι χ θ ρ) (s : Capture δ ι χ θ ρ) (b : Bytes)
    (d : Detected) : Prop where
  dns : s.stream.dns = none
  offset : s.offsets.client = b.length
  shows : w.Shows s.stream b d

variable {s : Capture δ ι χ θ ρ} {b : Bytes} {d : Detected}

theorem offset_live (now : Nat) (side : Direction) (bytes : Bytes) :
    (w.live c s (now, .data side bytes)).offsets.client =
      s.offsets.client + (sent (.data side bytes)).length := by
  cases side <;> simp [live, Sides.modify, Sides.get, Sides.set, sent]

theorem decides_sniffing (h : Served w s b .undecided) (bytes : Bytes) :
    decides c s.stream (.data .client bytes) =
      Mitm.detect c.decrypted (b ++ bytes) := by
  simp [decides, h.dns, h.shows.1, h.shows.2.1]

/-- As long as nothing is chosen, the next data decide. -/
theorem served_choice (h : Served w s b .undecided) (now : Nat)
    (side : Direction) (bytes : Bytes) :
    Served w (w.live c s (now, .data side bytes))
      (b ++ sent (.data side bytes))
      (decides c s.stream (.data side bytes)) := by
  have length : (w.live c s (now, .data side bytes)).offsets.client =
      (b ++ sent (.data side bytes)).length := by
    rw [offset_live, h.offset, List.length_append]
  cases side with
  | server =>
    obtain ⟨hdns, hoffset, hdetect, hsniff, hnone, intact, hplain, hlog⟩ := h
    have stream : (w.live c s (now, .data .server bytes)).stream =
        s.stream.opaqueCapture.opaqueData .server bytes := by
      simp only [live, data, hdns, hdetect, if_true]
    have choice : decides c s.stream (.data .server bytes) = .opaqueBytes none := by
      simp [decides, hdns, hdetect]
    obtain ⟨h1, h2, h3, h4, h5, h6, h7⟩ :=
      opaqueData_fields s.stream.opaqueCapture .server bytes
    obtain ⟨k1, k2, k3, k4, k5, k6, k7⟩ := opaqueCapture_fields s.stream
    refine ⟨?_, length, ?_⟩
    · rw [stream, h1, k1, hdns]
    · rw [choice, stream]
      exact ⟨h2.trans k2, h3.trans k3, (h4.trans k4).trans hnone,
        (h5.trans k5).trans intact, (h6.trans k6).trans hplain,
        (h7.trans k7).trans hlog⟩
  | client =>
    rw [decides_sniffing h]
    obtain ⟨hdns, hoffset, hdetect, hsniff, hnone, intact, hplain, hlog⟩ := h
    cases found : Mitm.detect c.decrypted (b ++ bytes) with
    | undecided =>
      have stream : (w.live c s (now, .data .client bytes)).stream =
          { s.stream with sniff := b ++ bytes } := by
        simp only [live, data, hdns, hdetect, hsniff, if_true, found]
      refine ⟨by rw [stream]; exact hdns, length, ?_⟩
      rw [stream]
      exact ⟨hdetect, rfl, hnone, intact, hplain, hlog⟩
    | opaqueBytes encrypted =>
      have stream : (w.live c s (now, .data .client bytes)).stream =
          { s.stream with
            sniff := b ++ bytes
            encrypted := encrypted.getD s.stream.encrypted }.opaqueCapture := by
        simp only [live, data, hdns, hdetect, hsniff, if_true, found]
      obtain ⟨k1, k2, k3, k4, k5, k6, k7⟩ := opaqueCapture_fields
        { s.stream with
          sniff := b ++ bytes
          encrypted := encrypted.getD s.stream.encrypted }
      rw [← stream] at k1 k2 k3 k4 k5 k6 k7
      refine ⟨k1.trans hdns, length, k2, k3, k4.trans hnone, k5.trans intact,
        ?_, k7.trans hlog⟩
      rw [k6, hplain]
    | protocol p =>
      have stream : (w.live c s (now, .data .client bytes)).stream =
          { parsed now { s.stream with sniff := [] } .client 0 (b ++ bytes)
              ((w.parser p).push w.lib .client 0 (b ++ bytes)) with
            detect := false, sniff := [] } := by
        simp only [live, data, hdns, hdetect, hsniff, if_true, found]
      obtain ⟨dns, -, parsing⟩ := parsing_parsed (w := w)
        (s := { s.stream with sniff := [] }) p [] .client 0 now (b ++ bytes)
        rfl hlog intact fun _ => rfl
      refine ⟨by rw [stream]; exact dns.trans hdns, length, ?_⟩
      rw [stream]
      exact ⟨rfl, parsing⟩

/-- What was chosen stays, and the parser chosen is given what follows. -/
theorem served_chosen (h : Served w s b d) (chosen : d ≠ .undecided) (now : Nat)
    (side : Direction) (bytes : Bytes) :
    Served w (w.live c s (now, .data side bytes))
      (b ++ sent (.data side bytes)) d := by
  obtain ⟨hdns, hoffset, hshows⟩ := h
  have length : (w.live c s (now, .data side bytes)).offsets.client =
      (b ++ sent (.data side bytes)).length := by
    rw [offset_live, hoffset, List.length_append]
  cases d with
  | undecided => exact absurd rfl chosen
  | opaqueBytes encrypted =>
    obtain ⟨hdetect, hcache, hnone, intact, hencrypted, hlog⟩ := hshows
    have stream : (w.live c s (now, .data side bytes)).stream =
        s.stream.opaqueData side bytes := by
      simp only [live, data, hdns, hdetect, hnone, intact, Bool.false_eq_true,
        if_false]
    obtain ⟨h1, h2, h3, h4, h5, h6, h7⟩ := opaqueData_fields s.stream side bytes
    rw [← stream] at h1 h2 h3 h4 h5 h6 h7
    exact ⟨h1.trans hdns, length, h2.trans hdetect, h3.trans hcache,
      h4.trans hnone, h5.trans intact, h6.trans hencrypted, h7.trans hlog⟩
  | protocol p =>
    obtain ⟨hdetect, pushes, got, hgot, part, hlog, state⟩ := hshows
    cases failed : s.stream.fallback with
    | true =>
      rw [if_pos failed] at state
      have stream : (w.live c s (now, .data side bytes)).stream =
          s.stream.fallbackData now side (s.offsets.get side) bytes := by
        simp only [live, data, hdns, hdetect, state, failed,
          Bool.false_eq_true, if_false, if_true]
      obtain ⟨h1, h2, h3, h4, h5⟩ := fallbackData_fields s.stream side bytes now
        (s.offsets.get side)
      rw [← stream] at h1 h2 h3 h4 h5
      refine ⟨h1.trans hdns, length, h2.trans hdetect, pushes, got, hgot,
        part.trans (List.prefix_append _ _), h5.trans hlog, ?_⟩
      rw [if_pos (h4.trans failed)]
      exact h3.trans state
    | false =>
      rw [if_neg (by simp [failed])] at state
      obtain ⟨rfl, state⟩ := state
      have stream : (w.live c s (now, .data side bytes)).stream =
          parsed now s.stream side (s.offsets.get side) bytes
            ((w.pushed (w.parser p) pushes.reverse).1.push w.lib side
              (s.offsets.get side) bytes) := by
        simp only [live, data, hdns, hdetect, state, Bool.false_eq_true,
          if_false]
      obtain ⟨dns, still, parsing⟩ := parsing_parsed (w := w) p pushes side
        (s.offsets.get side) now bytes hgot hlog failed
        fun hside => by rw [hside]; exact hoffset
      refine ⟨by rw [stream]; exact dns.trans hdns, length, ?_⟩
      rw [stream]
      exact ⟨still hdetect, parsing⟩

/-! ## Runs -/

theorem served_rest {events : List (Nat × Event)}
    (data : ∀ e ∈ events, ∃ side bytes, e.2 = .data side bytes)
    (h : Served w s b d) (chosen : d ≠ .undecided) :
    Served w (run (w.live c) s events)
      (b ++ events.flatMap fun e => sent e.2) d := by
  induction events generalizing s b with
  | nil => simpa using h
  | cons e events ih =>
    obtain ⟨⟨now, e⟩, rfl⟩ : ∃ e', e' = e := ⟨e, rfl⟩
    obtain ⟨side, bytes, rfl⟩ := data _ List.mem_cons_self
    have rest := ih (fun e he => data e (List.mem_cons_of_mem _ he))
      (served_chosen (c := c) h chosen now side bytes)
    simpa [List.append_assoc] using rest

theorem served_run {events : List (Nat × Event)}
    (data : ∀ e ∈ events, ∃ side bytes, e.2 = .data side bytes)
    (h : Served w s b .undecided) :
    Served w (run (w.live c) s events)
      (b ++ events.flatMap fun e => sent e.2) (choose w c s events) := by
  induction events generalizing s b with
  | nil => simpa [choose] using h
  | cons e events ih =>
    obtain ⟨⟨now, e⟩, rfl⟩ : ∃ e', e' = e := ⟨e, rfl⟩
    obtain ⟨side, bytes, rfl⟩ := data _ List.mem_cons_self
    have later := fun e he => data e (List.mem_cons_of_mem _ he)
    have next := served_choice (c := c) h now side bytes
    rw [choose, run_cons, List.flatMap_cons, ← List.append_assoc]
    dsimp only
    cases hd : decides c s.stream (.data side bytes) with
    | undecided =>
      rw [hd] at next
      exact ih later next
    | _ =>
      rw [hd] at next
      exact served_rest later next nofun

theorem start_served (sniffed : Sniffed c) :
    Served w (start (w.openStream c)) [] .undecided := by
  obtain ⟨halpn, htcp, hport⟩ := sniffed
  have stream : w.openStream c = { w.blank with detect := true } := by
    simp [openStream, halpn, htcp, hport, protocolOf, blank]
  rw [stream]
  exact ⟨rfl, rfl, rfl, rfl, rfl, rfl, rfl, rfl⟩

/-- The first decision over data of the client, then of the server, is the
test of a part of the client's text, or of all of it. -/
theorem choose_chunks {pieces : List (Nat × Bytes)}
    (h : Served w s b .undecided) (whole : ¬ Torn (b ++ text pieces))
    (server : List (Nat × Bytes))
    (start_ : Mitm.detect c.decrypted b = .undecided) :
    choose w c s (chunks .client pieces ++ chunks .server server) =
      match Mitm.detect c.decrypted (b ++ text pieces) with
      | .undecided => if server = [] then .undecided else .opaqueBytes none
      | decided => decided := by
  induction pieces generalizing s b with
  | nil =>
    simp only [text, List.map_nil, List.flatten_nil, List.append_nil, start_]
    cases server with
    | nil => rfl
    | cons piece server =>
      simp [chunks, choose, decides, h.dns, h.shows.1]
  | cons piece pieces ih =>
    obtain ⟨now, bytes⟩ := piece
    have all : b ++ text ((now, bytes) :: pieces) =
        (b ++ bytes) ++ text pieces := by
      simp [text, List.append_assoc]
    rw [all] at whole ⊢
    have first := @detect_extends c.decrypted _ _
      (List.prefix_append (b ++ bytes) (text pieces)) whole
    have next := served_choice (c := c) h now .client bytes
    simp only [chunks, List.map_cons, List.cons_append, choose,
      decides_sniffing h] at next ⊢
    cases hd : Mitm.detect c.decrypted (b ++ bytes) with
    | undecided => exact ih (hd ▸ next) whole hd
    | protocol p =>
      rw [hd] at first
      rw [← first.resolve_left (by simp)]
    | opaqueBytes e =>
      rw [hd] at first
      rw [← first.resolve_left (by simp)]

theorem sent_chunks (x server : List (Nat × Bytes)) :
    (chunks .client x ++ chunks .server server).flatMap (fun e => sent e.2) =
      text x := by
  have nothing : (chunks .server server).flatMap (fun e => sent e.2) = [] := by
    rw [chunks, List.flatMap_map]
    exact List.flatMap_eq_nil_iff.2 fun _ _ => rfl
  rw [List.flatMap_append, nothing, List.append_nil, chunks, List.flatMap_map]
  rfl

/-- However the client's text is cut, the same is chosen, and the stream shows
what was chosen. -/
def Agrees (w : Worker δ ι χ θ ρ) (c : Connection) (b : Bytes) : Prop :=
  (∀ x y server, text x = b → text y = b →
    choose w c (start (w.openStream c))
        (chunks .client x ++ chunks .server server) =
      choose w c (start (w.openStream c))
        (chunks .client y ++ chunks .server server)) ∧
    ∀ x server, text x = b →
      let events := chunks .client x ++ chunks .server server
      w.Shows (w.runLive c events).stream b
        (choose w c (start (w.openStream c)) events)

def sniffWorker : Worker Nat Unit Unit Unit Unit where
  lib := staticLibrary
  limits := smallLimits
  udpPackets := 16
  dnsInit := ()
  dnsTcp state _ _ _ := (state, [])
  dnsFeed state _ _ _ := (state, [])
  dnsDecodes _ := false
  quicInit := ()
  quicFeed state _ _ := state

def plainConnection : Connection := ⟨false, 8080, none, false⟩

end Worker

end ProxyLane.Mitm
