import ProxyLane.Hook.ElevatedLaunch

/-!
# What the elevated helper accepts

The encoder and the decoder are the two directions of the six-bit form, for
every size that fits the platform.  The parser takes a request if its four
texts fill what is behind the header, and computes no offset that wraps.
-/

namespace ProxyLane.Hook.ElevatedLaunch

open ProxyLane.Foundation

/-! ## Characters -/

theorem digitValue_digit {i : Nat} (h : i < 64) :
    digitValue (digit i) = some i := by
  have hall : ∀ i < 64, digitValue (digit i) = some i := by decide +kernel
  exact hall i h

theorem digit_digitValue {c : UInt8} {v : Nat} (h : digitValue c = some v) :
    v < 64 ∧ digit v = c := by
  have hall : ∀ n < 256, (digitValue (UInt8.ofNat n)).all fun v =>
      v < 64 && digit v == UInt8.ofNat n := by decide +kernel
  have hc := hall c.toNat c.toNat_lt
  rw [UInt8.ofNat_toNat, h] at hc
  simpa using hc

def textOf (bytes : Bytes) : Bytes := (sextets bytes).map digit

def bytesOf (text : Bytes) : Option Bytes :=
  (text.mapM digitValue).bind octets

theorem mapM_digitValue {sextets : List Nat} (h : ∀ s ∈ sextets, s < 64) :
    (sextets.map digit).mapM digitValue = some sextets := by
  induction sextets with
  | nil => rfl
  | cons s rest ih =>
    rw [List.forall_mem_cons] at h
    simp [List.mapM_cons, digitValue_digit h.1, ih h.2]

variable {text : Bytes}

theorem of_mapM_digitValue {sextets : List Nat}
    (h : text.mapM digitValue = some sextets) :
    (∀ s ∈ sextets, s < 64) ∧ sextets.map digit = text := by
  induction text generalizing sextets with
  | nil =>
    cases h
    simp
  | cons c rest ih =>
    simp only [List.mapM_cons, Option.pure_def, Option.bind_eq_bind,
      Option.bind_eq_some_iff, Option.some.injEq] at h
    obtain ⟨v, hv, values, hvalues, rfl⟩ := h
    obtain ⟨hlt, hdigit⟩ := digit_digitValue hv
    obtain ⟨hall, hrest⟩ := ih hvalues
    exact ⟨List.forall_mem_cons.2 ⟨hlt, hall⟩, by simp [hdigit, hrest]⟩

theorem bytesOf_textOf (bytes : Bytes) : bytesOf (textOf bytes) = some bytes := by
  rw [bytesOf, textOf, mapM_digitValue (sextets_lt bytes), Option.bind_some,
    octets_sextets]

variable {bytes : Bytes}

theorem textOf_bytesOf (h : bytesOf text = some bytes) :
    textOf bytes = text := by
  simp only [bytesOf, Option.bind_eq_some_iff] at h
  obtain ⟨values, hvalues, hbytes⟩ := h
  obtain ⟨hlt, htext⟩ := of_mapM_digitValue hvalues
  rw [textOf, sextets_octets hlt hbytes, htext]

theorem textOf_length (bytes : Bytes) :
    (textOf bytes).length = sextetCount bytes.length := by
  rw [textOf, List.length_map, sextets_length]

theorem bytesOf_length (h : bytesOf text = some bytes) :
    bytes.length = octetCount text.length := by
  rw [← textOf_bytesOf h, textOf_length, octetCount_sextetCount]

theorem bytesOf_mod (h : bytesOf text = some bytes) :
    text.length % 4 ≠ 1 := by
  rw [← textOf_bytesOf h, textOf_length]
  exact sextetCount_mod _

variable {out : Bytes}

theorem put_ok {capacity : Nat} (byte : UInt8)
    (h : out.length < capacity) : put capacity out byte = .ok (out ++ [byte]) :=
  if_pos h

theorem write_ok {capacity : Nat} (h : out.length + bytes.length ≤ capacity) :
    write capacity out bytes = .ok (out ++ bytes) := by
  induction bytes generalizing out with
  | nil => simp [write, pure, Except.pure]
  | cons byte rest ih =>
    rw [List.length_cons] at h
    have hput := put_ok byte (show out.length < capacity by omega)
    have hroom : (out ++ [byte]).length + rest.length ≤ capacity := by
      rw [List.length_append, List.length_singleton]
      omega
    have hrest := ih hroom
    rw [write, List.foldlM_cons, hput, List.append_cons out byte rest]
    exact hrest

theorem encodeFrom_ok {capacity : Nat}
    (h : out.length + sextetCount bytes.length ≤ capacity) :
    encodeFrom capacity bytes out = .ok (out ++ textOf bytes) := by
  rw [← textOf_length] at h
  induction bytes using sextets.induct generalizing out with
  | case1 a b c rest ih =>
    have hgroup : textOf (a :: b :: c :: rest) =
        [digit (a.toNat / 4), digit (a.toNat % 4 * 16 + b.toNat / 16),
          digit (b.toNat % 16 * 4 + c.toNat / 64), digit (c.toNat % 64)] ++
          textOf rest := rfl
    rw [hgroup, List.length_append] at h
    simp only [encodeFrom, shiftRight_two, join_sextet b.toNat_lt,
      join_sextet_third c.toNat_lt, and_sixtyThree]
    rw [write_ok (by omega)]
    refine (ih ?_).trans ?_
    · rw [List.length_append]
      omega
    · rw [hgroup, List.append_assoc]
  | case2 a b =>
    have hgroup : textOf [a, b] = [digit (a.toNat / 4),
        digit (a.toNat % 4 * 16 + b.toNat / 16), digit (b.toNat % 16 * 4)] := rfl
    simp only [encodeFrom, shiftRight_two, join_sextet b.toNat_lt, and_fifteen,
      shiftLeft_two]
    rw [hgroup] at h ⊢
    exact write_ok h
  | case3 a =>
    have hgroup : textOf [a] =
        [digit (a.toNat / 4), digit (a.toNat % 4 * 16)] := rfl
    simp only [encodeFrom, shiftRight_two, and_three, shiftLeft_four]
    rw [hgroup] at h ⊢
    exact write_ok h
  | case4 => simp [encodeFrom, textOf, sextets]

theorem sizes_le (p : Platform) : 2 ^ 32 ≤ p.sizes := by
  cases p <;> simp [Platform.sizes]

variable {p : Platform} {n : Nat}

theorem encodedLength_eq (h : n < p.sizes / 2) :
    encodedLength p n = sextetCount n := by
  have hsizes := sizes_le p
  refine (Nat.mod_eq_of_lt ?_ : (sextetCount n) % p.sizes = sextetCount n)
  unfold sextetCount
  split <;> omega

theorem octetCount_lt (h : n < p.sizes) :
    octetCount n < noLength p := by
  have hsizes := sizes_le p
  unfold octetCount noLength
  split <;> omega

theorem decodedLength_eq (h : n < p.sizes)
    (hmod : n % 4 ≠ 1) : decodedLength p n = octetCount n := by
  have hlt := octetCount_lt h
  have hsizes := sizes_le p
  rw [decodedLength, if_neg hmod]
  refine (Nat.mod_eq_of_lt ?_ : (octetCount n) % p.sizes = octetCount n)
  rw [noLength] at hlt
  omega

theorem encode_eq {source : Bytes} (h : Fits p source)
    {destination : Buffer} (hnull : destination.isNull = false)
    (hroom : encodedLength p source.length < destination.size) :
    encode p source destination = .ok (textOf source) := by
  have hlength := encodedLength_eq h
  rw [hlength] at hroom
  simp only [encode, hnull, hlength, Bool.false_eq_true, false_or]
  have hcapacity : destination.capacity = destination.size := by
    simp [Buffer.capacity, hnull]
  rw [if_neg (by omega), hcapacity, encodeFrom_ok (by simp; omega)]
  have hput := put_ok 0 (show (textOf source).length < destination.size by
    rw [textOf_length]
    exact hroom)
  simp only [Except.bind, List.nil_append, hput, Except.map]

/-! ## The decoder -/

theorem join_first {first second : Nat} (h : second < 64) :
    (first <<< 2) ||| (second >>> 4) = first * 4 + second / 16 := by
  rw [shiftRight_four, shift_or _ _ (by omega)]
  simp only [Nat.reducePow]

theorem join_second {second third : Nat} (h : third < 64) :
    (second <<< 4) ||| (third >>> 2) = second * 16 + third / 4 := by
  rw [shiftRight_two, shift_or _ _ (by omega)]
  simp only [Nat.reducePow]

theorem join_third {third fourth : Nat} (h : fourth < 64) :
    (third <<< 6) ||| fourth = third * 64 + fourth := by
  rw [shift_or _ _ (by omega)]
  simp only [Nat.reducePow]

def answer (out : Bytes) : Option Bytes → Except Stop Bytes
  | some bytes => .ok (out ++ bytes)
  | none => .error .refused

theorem bytesOf_group (c₁ c₂ c₃ c₄ : UInt8) (rest : Bytes) :
    bytesOf (c₁ :: c₂ :: c₃ :: c₄ :: rest) =
      (digitValue c₁).bind fun first => (digitValue c₂).bind fun second =>
        (digitValue c₃).bind fun third => (digitValue c₄).bind fun fourth =>
          (bytesOf rest).map fun bytes =>
            UInt8.ofNat (first * 4 + second / 16) ::
              UInt8.ofNat (second * 16 + third / 4) ::
              UInt8.ofNat (third * 64 + fourth) :: bytes := by
  simp only [bytesOf, List.mapM_cons]
  cases digitValue c₁ <;> cases digitValue c₂ <;> cases digitValue c₃ <;>
    cases digitValue c₄ <;> cases rest.mapM digitValue <;> simp [octets]

theorem decodeFrom_group {capacity : Nat} {c₁ c₂ c₃ c₄ : UInt8}
    {rest : Bytes} (h : out.length + 3 ≤ capacity)
    (ih : ∀ group : Bytes, group.length = 3 →
      decodeFrom capacity rest (out ++ group) =
        answer (out ++ group) (bytesOf rest)) :
    decodeFrom capacity (c₁ :: c₂ :: c₃ :: c₄ :: rest) out =
      answer out (bytesOf (c₁ :: c₂ :: c₃ :: c₄ :: rest)) := by
  rw [bytesOf_group, decodeFrom]
  cases h₁ : digitValue c₁ with
  | none => rfl
  | some first =>
  cases h₂ : digitValue c₂ with
  | none => rfl
  | some second =>
  cases h₃ : digitValue c₃ with
  | none => rfl
  | some third =>
  cases h₄ : digitValue c₄ with
  | none => rfl
  | some fourth =>
  simp only [Option.bind_some, join_first (digit_digitValue h₂).1,
    join_second (digit_digitValue h₃).1, join_third (digit_digitValue h₄).1]
  rw [write_ok (by simpa using h)]
  refine (ih _ rfl).trans ?_
  cases bytesOf rest <;> simp [answer]

theorem decodeFrom_eq {capacity : Nat} : ∀ {text out : Bytes},
    out.length + octetCount text.length ≤ capacity → text.length % 4 ≠ 1 →
    decodeFrom capacity text out = answer out (bytesOf text)
  | c₁ :: c₂ :: c₃ :: c₄ :: rest, out, h, hmod => by
      have hcount : octetCount (rest.length + 1 + 1 + 1 + 1) =
          octetCount rest.length + 3 := by
        unfold octetCount
        have hsame : (rest.length + 1 + 1 + 1 + 1) % 4 = rest.length % 4 := by omega
        rw [hsame]
        omega
      simp only [List.length_cons, hcount] at h hmod
      refine decodeFrom_group (by omega) fun group hgroup => decodeFrom_eq ?_ ?_
      · rw [List.length_append]
        omega
      · omega
  | [c₁, c₂, c₃], out, h, _ => by
      have hroom : out.length + 2 ≤ capacity := by simpa [octetCount] using h
      simp only [decodeFrom, bytesOf, List.mapM_cons, List.mapM_nil]
      cases h₁ : digitValue c₁ with
      | none => rfl
      | some first =>
      cases h₂ : digitValue c₂ with
      | none => rfl
      | some second =>
      simp only [join_first (digit_digitValue h₂).1]
      rw [put_ok _ (by omega)]
      cases h₃ : digitValue c₃ with
      | none => rfl
      | some third =>
      simp only [Except.bind, and_three, join_second (digit_digitValue h₃).1]
      by_cases hzero : third % 4 = 0
      · rw [if_neg (not_not.2 hzero), put_ok _ (by simp; omega)]
        simp [octets, hzero, answer]
      · simp [octets, hzero, answer]
  | [c₁, c₂], out, h, _ => by
      have hroom : out.length + 1 ≤ capacity := by simpa [octetCount] using h
      simp only [decodeFrom, bytesOf, List.mapM_cons, List.mapM_nil]
      cases h₁ : digitValue c₁ with
      | none => rfl
      | some first =>
      cases h₂ : digitValue c₂ with
      | none => rfl
      | some second =>
      simp only [and_fifteen, join_first (digit_digitValue h₂).1]
      by_cases hzero : second % 16 = 0
      · rw [if_neg (not_not.2 hzero), put_ok _ (by omega)]
        simp [octets, hzero, answer]
      · simp [octets, hzero, answer]
  | [_], _, _, hmod => absurd rfl hmod
  | [], out, _, _ => by simp [decodeFrom, bytesOf, octets, answer]

def Buffer.Holds (buffer : Buffer) (n : Nat) : Prop :=
  (buffer.isNull → n = 0) ∧ n ≤ buffer.size

theorem Buffer.Holds.capacity {buffer : Buffer} (h : buffer.Holds n) :
    n ≤ buffer.capacity := by
  unfold Buffer.capacity
  split
  case isTrue hnull => exact Nat.le_of_eq (h.1 hnull)
  case isFalse => exact h.2

theorem decode_eq_ok {source : Bytes} (h : source.length < p.sizes)
    {destination : Buffer} :
    decode p source destination = .ok bytes ↔
      bytesOf source = some bytes ∧ destination.Holds (octetCount source.length) := by
  by_cases hmod : source.length % 4 = 1
  · have hlength : decodedLength p source.length = noLength p := if_pos hmod
    constructor
    · intro hdecode
      simp [decode, hlength] at hdecode
    · rintro ⟨hbytes, -⟩
      exact absurd hmod (bytesOf_mod hbytes)
  · have hlength := decodedLength_eq h hmod
    have hlt := octetCount_lt h
    simp only [decode, hlength]
    constructor
    · intro hdecode
      split at hdecode
      case isTrue => cases hdecode
      case isFalse hroom =>
        simp only [not_or, not_and, not_not, not_lt] at hroom
        obtain ⟨-, hnull, hsize⟩ := hroom
        have hholds : destination.Holds (octetCount source.length) := ⟨hnull, hsize⟩
        rw [decodeFrom_eq (by simpa using hholds.capacity) hmod] at hdecode
        cases hbytes : bytesOf source with
        | none =>
          rw [hbytes] at hdecode
          cases hdecode
        | some found =>
          have hsame : found.length = octetCount source.length :=
            bytesOf_length hbytes
          simp only [hbytes, answer, Except.bind, List.nil_append, hsame,
            if_true, Except.ok.injEq] at hdecode
          exact ⟨congrArg some hdecode, hholds⟩
    · rintro ⟨hbytes, hholds⟩
      have hsame := bytesOf_length hbytes
      rw [if_neg (by
        simp only [not_or, not_and, not_not, not_lt]
        exact ⟨by omega, hholds.1, hholds.2⟩),
        decodeFrom_eq (by simpa using hholds.capacity) hmod, hbytes]
      simp [answer, Except.bind, hsame]

/-! ## The parser -/

theorem assignField_eq {dataSize offset : Nat}
    (hsize : dataSize < p.sizes) (hoffset : offset ≤ dataSize) :
    assignField p dataSize offset n =
      if dataSize < offset + n then .error .refused
      else .ok (⟨offset, n⟩, offset + n) := by
  simp only [assignField, subSize, if_pos hoffset, Except.bind]
  by_cases hlong : dataSize < offset + n
  · rw [if_pos (by omega), if_pos hlong]
  · rw [if_neg (by omega), if_neg hlong, addSize, if_pos (by omega)]
    rfl

def viewOf (header : WireHeader) : RequestView :=
  let command := headerBytes + header.targetPathBytes
  let directory := command + header.commandLineBytes
  let pipe := directory + header.workingDirectoryBytes
  ⟨⟨headerBytes, header.targetPathBytes⟩, ⟨command, header.commandLineBytes⟩,
    ⟨directory, header.workingDirectoryBytes⟩, ⟨pipe, header.pipeNameBytes⟩⟩

def announced (header : WireHeader) : Nat :=
  headerBytes + header.targetPathBytes + header.commandLineBytes +
    header.workingDirectoryBytes + header.pipeNameBytes

variable {data : Bytes}

theorem parse_eq (h : data.length < p.sizes) :
    parse p data =
      if headerBytes ≤ data.length ∧ data.length ≤ maxWireBytes ∧
          headerOk (readHeader data) data.length ∧
          announced (readHeader data) = data.length
      then .ok (viewOf (readHeader data)) else .error .refused := by
  rw [parse]
  by_cases hlength : data.length < headerBytes ∨ maxWireBytes < data.length
  · rw [if_pos hlength, if_neg (by omega)]
  rw [not_or, not_lt, not_lt] at hlength
  obtain ⟨hmin, hmax⟩ := hlength
  rw [if_neg (by omega)]
  obtain ⟨header, hheader⟩ : ∃ header, readHeader data = header := ⟨_, rfl⟩
  simp only [hheader]
  cases hok : headerOk header data.length with
  | false => simp only [Bool.not_false, if_true, Bool.false_eq_true, false_and,
      and_false, if_false]
  | true =>
  obtain ⟨t, ht⟩ : ∃ t, header.targetPathBytes = t := ⟨_, rfl⟩
  obtain ⟨c, hc⟩ : ∃ c, header.commandLineBytes = c := ⟨_, rfl⟩
  obtain ⟨d, hd⟩ : ∃ d, header.workingDirectoryBytes = d := ⟨_, rfl⟩
  obtain ⟨q, hq⟩ : ∃ q, header.pipeNameBytes = q := ⟨_, rfl⟩
  simp only [Bool.not_true, Bool.false_eq_true, if_false, hmin, hmax, true_and,
    announced, viewOf, ht, hc, hd, hq]
  rw [assignField_eq h hmin]
  by_cases htarget : data.length < headerBytes + t
  · have hne : headerBytes + t + c + d + q ≠ data.length := by omega
    rw [if_pos htarget, if_neg hne]
    rfl
  rw [if_neg htarget]
  simp only [bind, Except.bind]
  rw [assignField_eq h (by omega)]
  by_cases hcommand : data.length < headerBytes + t + c
  · have hne : headerBytes + t + c + d + q ≠ data.length := by omega
    rw [if_pos hcommand, if_neg hne]
  rw [if_neg hcommand]
  simp only
  rw [assignField_eq h (by omega)]
  by_cases hdirectory : data.length < headerBytes + t + c + d
  · have hne : headerBytes + t + c + d + q ≠ data.length := by omega
    rw [if_pos hdirectory, if_neg hne]
  rw [if_neg hdirectory]
  simp only
  rw [assignField_eq h (by omega)]
  by_cases hpipe : data.length < headerBytes + t + c + d + q
  · have hne : headerBytes + t + c + d + q ≠ data.length := by omega
    rw [if_pos hpipe, if_neg hne]
  rw [if_neg hpipe]

def Slice.read (slice : Slice) (data : Bytes) : Bytes :=
  (data.drop slice.offset).take slice.length

/-- A header and four texts that fill what is behind it; only the directory
may be empty. -/
structure Request (data target command directory pipe : Bytes) : Prop where
  header : readHeader data =
    ⟨requestMagic, requestVersion, headerBytes, data.length, target.length,
      command.length, directory.length, pipe.length, 0⟩
  whole : headerBytes ≤ data.length
  texts : data.drop headerBytes = target ++ command ++ directory ++ pipe
  target : target ≠ []
  command : command ≠ []
  pipe : pipe ≠ []

structure Partition (view : RequestView) (data : Bytes) : Prop where
  target : view.targetPath.offset = headerBytes
  command : view.commandLine.offset = view.targetPath.offset + view.targetPath.length
  directory : view.workingDirectory.offset =
    view.commandLine.offset + view.commandLine.length
  pipe : view.pipeName.offset =
    view.workingDirectory.offset + view.workingDirectory.length
  last : data.length = view.pipeName.offset + view.pipeName.length

def Shows (view : RequestView) (data target command directory pipe : Bytes) :
    Prop :=
  Partition view data ∧ view.targetPath.read data = target ∧
    view.commandLine.read data = command ∧
    view.workingDirectory.read data = directory ∧ view.pipeName.read data = pipe

theorem headerOk_iff {header : WireHeader} :
    headerOk header n ↔ header.magic = requestMagic ∧
      header.version = requestVersion ∧ header.headerSize = headerBytes ∧
      header.totalSize = n ∧ header.flags = 0 ∧ header.targetPathBytes ≠ 0 ∧
      header.commandLineBytes ≠ 0 ∧ header.pipeNameBytes ≠ 0 := by
  simp [headerOk, and_assoc]

theorem read_texts {data before text after : Bytes} {n : Nat}
    (h : data.drop n = before ++ text ++ after) :
    Slice.read ⟨n + before.length, text.length⟩ data = text := by
  rw [Slice.read, ← List.drop_drop, h, List.append_assoc, List.drop_left,
    List.take_left]

theorem request_of_header {header : WireHeader}
    (hheader : readHeader data = header) (hmin : headerBytes ≤ data.length)
    (hok : headerOk header data.length) (hsum : announced header = data.length) :
    ∃ target command directory pipe, Request data target command directory pipe := by
  obtain ⟨hmagic, hversion, hsize, htotal, hflags, htarget, hcommand, hpipe⟩ :=
    headerOk_iff.1 hok
  obtain ⟨magic, version, size, total, t, c, d, q, flags⟩ := header
  simp only at hmagic hversion hsize htotal hflags htarget hcommand hpipe
  simp only [announced] at hsum
  obtain ⟨body, hbody⟩ : ∃ body, data.drop headerBytes = body := ⟨_, rfl⟩
  have hlength : body.length = t + c + d + q := by
    rw [← hbody, List.length_drop]
    omega
  have hsplit : data.drop headerBytes = body.take t ++ (body.drop t).take c ++
      (body.drop (t + c)).take d ++ body.drop (t + c + d) := by
    rw [hbody, ← List.drop_drop, ← List.drop_drop, ← List.drop_drop,
      List.append_assoc, List.append_assoc, List.take_append_drop,
      List.take_append_drop, List.take_append_drop]
  have hlt : (body.take t).length = t := by
    rw [List.length_take]
    omega
  have hlc : ((body.drop t).take c).length = c := by
    rw [List.length_take, List.length_drop]
    omega
  have hld : ((body.drop (t + c)).take d).length = d := by
    rw [List.length_take, List.length_drop]
    omega
  have hlq : (body.drop (t + c + d)).length = q := by
    rw [List.length_drop]
    omega
  refine ⟨body.take t, (body.drop t).take c, (body.drop (t + c)).take d,
    body.drop (t + c + d), ?_, hmin, hsplit, ?_, ?_, ?_⟩
  · rw [hheader, hlt, hlc, hld, hlq, hmagic, hversion, hsize, htotal, hflags]
  · rw [← List.length_pos_iff, hlt]
    omega
  · rw [← List.length_pos_iff, hlc]
    omega
  · rw [← List.length_pos_iff, hlq]
    omega

theorem shows_of_request {target command directory pipe : Bytes}
    (h : Request data target command directory pipe) :
    Shows (viewOf (readHeader data)) data target command directory pipe := by
  have hlength := congrArg List.length h.texts
  rw [List.length_drop] at hlength
  simp only [List.length_append] at hlength
  have hmin := h.whole
  rw [h.header]
  refine ⟨⟨rfl, rfl, rfl, rfl, ?_⟩, ?_, ?_, ?_, ?_⟩
  · simp only [viewOf]
    omega
  · exact @read_texts data [] target (command ++ directory ++ pipe) headerBytes
      (by simpa using h.texts)
  · exact @read_texts data target command (directory ++ pipe) headerBytes
      (by simpa using h.texts)
  · have hread := @read_texts data (target ++ command) directory pipe headerBytes
      (by simpa using h.texts)
    rwa [List.length_append, ← Nat.add_assoc] at hread
  · have hread := @read_texts data (target ++ command ++ directory) pipe []
      headerBytes (by simpa using h.texts)
    rwa [List.length_append, List.length_append, ← Nat.add_assoc,
      ← Nat.add_assoc] at hread

theorem read_length {slice : Slice}
    (h : slice.offset + slice.length ≤ data.length) :
    (slice.read data).length = slice.length := by
  rw [Slice.read, List.length_take, List.length_drop]
  omega

theorem eq_of_shows {view : RequestView} {target command directory pipe : Bytes}
    (h : Shows view data target command directory pipe) :
    view = ⟨⟨headerBytes, target.length⟩,
      ⟨headerBytes + target.length, command.length⟩,
      ⟨headerBytes + target.length + command.length, directory.length⟩,
      ⟨headerBytes + target.length + command.length + directory.length,
        pipe.length⟩⟩ := by
  obtain ⟨⟨htarget, hcommand, hdirectory, hpipe, hlast⟩, rfl, rfl, rfl, rfl⟩ := h
  obtain ⟨⟨t, tn⟩, ⟨c, cn⟩, ⟨d, dn⟩, ⟨q, qn⟩⟩ := view
  simp only at htarget hcommand hdirectory hpipe hlast
  simp only
  rw [read_length (show t + tn ≤ data.length by omega),
    read_length (show c + cn ≤ data.length by omega),
    read_length (show d + dn ≤ data.length by omega),
    read_length (show q + qn ≤ data.length by omega),
    hpipe, hdirectory, hcommand, htarget]

theorem parse_eq_ok (h : data.length < p.sizes) {view : RequestView} :
    parse p data = .ok view ↔
      data.length ≤ maxWireBytes ∧ ∃ target command directory pipe,
        Request data target command directory pipe ∧
          Shows view data target command directory pipe := by
  rw [parse_eq h]
  constructor
  · intro hparse
    split at hparse
    case isFalse => cases hparse
    case isTrue hgood =>
      obtain ⟨hmin, hmax, hok, hsum⟩ := hgood
      cases hparse
      obtain ⟨target, command, directory, pipe, hrequest⟩ :=
        request_of_header rfl hmin hok hsum
      exact ⟨hmax, target, command, directory, pipe, hrequest,
        shows_of_request hrequest⟩
  · rintro ⟨hmax, target, command, directory, pipe, hrequest, hshows⟩
    have hlength := congrArg List.length hrequest.texts
    rw [List.length_drop] at hlength
    simp only [List.length_append] at hlength
    have hmin := hrequest.whole
    have hok : headerOk (readHeader data) data.length := by
      rw [hrequest.header, headerOk_iff]
      simp [hrequest.target, hrequest.command, hrequest.pipe]
    have hsum : announced (readHeader data) = data.length := by
      rw [hrequest.header]
      simp only [announced]
      omega
    rw [if_pos ⟨hmin, hmax, hok, hsum⟩,
      eq_of_shows hshows, eq_of_shows (shows_of_request hrequest)]

theorem parse_ne_fault (h : data.length < p.sizes) :
    parse p data ≠ .error .fault := by
  rw [parse_eq h]
  split <;> simp

/-- The text of a request is read back as the request, only the text that the
encoder writes is read, and the parser takes the requests that are not longer
than the longest, without a fault. -/
theorem elevated_request (p : Platform) :
    (∀ source, Fits p source → ∀ destination : Buffer,
      destination.isNull = false →
      encodedLength p source.length < destination.size →
      ∃ text, encode p source destination = .ok text ∧
        text.length = encodedLength p source.length ∧
        decodedLength p text.length = source.length ∧
        ∀ back : Buffer, back.Holds source.length → decode p text back = .ok source) ∧
    (∀ text, Fits p text → ∀ destination source,
      decode p text destination = .ok source →
      source.length = decodedLength p text.length ∧
      text.length = encodedLength p source.length ∧
      ∀ back : Buffer, back.isNull = false → text.length < back.size →
        encode p source back = .ok text) ∧
    (∀ data, Fits p data → parse p data ≠ .error .fault ∧
      ∀ view, parse p data = .ok view ↔
        data.length ≤ maxWireBytes ∧ ∃ target command directory pipe,
          Request data target command directory pipe ∧
            Shows view data target command directory pipe) := by
  have hsizes := sizes_le p
  refine ⟨fun source hfits destination hnull hroom => ?_,
    fun text hfits destination source hdecode => ?_, fun data hfits => ?_⟩
  · have hlength := encodedLength_eq hfits
    have hsize : (textOf source).length < p.sizes := by
      rw [textOf_length, ← hlength]
      exact Nat.mod_lt _ (by omega)
    refine ⟨textOf source, encode_eq hfits hnull hroom, ?_, ?_, fun back hholds => ?_⟩
    · rw [textOf_length, hlength]
    · rw [decodedLength_eq hsize (bytesOf_mod (bytesOf_textOf source)),
        textOf_length, octetCount_sextetCount]
    · rw [decode_eq_ok hsize]
      refine ⟨bytesOf_textOf source, ?_⟩
      rwa [textOf_length, octetCount_sextetCount]
  · have hsize : text.length < p.sizes := by
      unfold Fits at hfits
      omega
    obtain ⟨hbytes, -⟩ := (decode_eq_ok hsize).1 hdecode
    have hcount := bytesOf_length hbytes
    have hsource : Fits p source := by
      unfold Fits octetCount at *
      split at hcount <;> omega
    have htext := textOf_bytesOf hbytes
    have hencoded : text.length = encodedLength p source.length := by
      rw [encodedLength_eq hsource, ← textOf_length, htext]
    refine ⟨?_, hencoded, fun back hnull hroom => ?_⟩
    · rw [hcount, decodedLength_eq hsize (bytesOf_mod hbytes)]
    · rw [encode_eq hsource hnull (hencoded ▸ hroom), htext]
  · have hsize : data.length < p.sizes := by
      unfold Fits at hfits
      omega
    exact ⟨parse_ne_fault hsize, fun view => parse_eq_ok hsize⟩

theorem elevated_request_sample :
    ∃ text, encode .x64 [104, 105, 33] ⟨false, 5⟩ = .ok text ∧
      decode .x64 text ⟨false, 3⟩ = .ok [104, 105, 33] := by
  obtain ⟨text, hencode, -, -, hdecode⟩ :=
    (elevated_request .x64).1 [104, 105, 33] (by simp [Fits, Platform.sizes])
      ⟨false, 5⟩ rfl (by decide)
  exact ⟨text, hencode, hdecode _ ⟨nofun, by decide⟩⟩

/-! ## A request that is too long -/

def wireHeader (header : WireHeader) : Bytes :=
  leBytes 4 header.magic ++ leBytes 2 header.version ++
    leBytes 2 header.headerSize ++ leBytes 4 header.totalSize ++
    leBytes 4 header.targetPathBytes ++ leBytes 4 header.commandLineBytes ++
    leBytes 4 header.workingDirectoryBytes ++ leBytes 4 header.pipeNameBytes ++
    leBytes 4 header.flags

theorem wireHeader_length (header : WireHeader) :
    (wireHeader header).length = headerBytes := by
  simp [wireHeader, leBytes_length, headerBytes]

private theorem field_append {head : Bytes} (rest : Bytes) {offset width : Nat}
    (h : offset + width ≤ head.length) :
    field (head ++ rest) offset width = field head offset width := by
  rw [field, field, List.drop_append_of_le_length (by omega),
    List.take_append_of_le_length (by rw [List.length_drop]; omega)]

theorem readHeader_append {head : Bytes} (rest : Bytes)
    (h : head.length = headerBytes) :
    readHeader (head ++ rest) = readHeader head := by
  have hfield : ∀ offset width, offset + width ≤ 32 →
      field (head ++ rest) offset width = field head offset width :=
    fun offset width hle => field_append rest (h.symm ▸ hle)
  simp only [readHeader, hfield _ _ (show 0 + 4 ≤ 32 by decide),
    hfield _ _ (show 4 + 2 ≤ 32 by decide), hfield _ _ (show 6 + 2 ≤ 32 by decide),
    hfield _ _ (show 8 + 4 ≤ 32 by decide), hfield _ _ (show 12 + 4 ≤ 32 by decide),
    hfield _ _ (show 16 + 4 ≤ 32 by decide), hfield _ _ (show 20 + 4 ≤ 32 by decide),
    hfield _ _ (show 24 + 4 ≤ 32 by decide), hfield _ _ (show 28 + 4 ≤ 32 by decide)]

def longTarget : Bytes := List.replicate 17037 65

theorem longTarget_length : longTarget.length = 17037 := List.length_replicate

def longHeader : WireHeader :=
  ⟨requestMagic, requestVersion, headerBytes, 17071, 17037, 1, 0, 1, 0⟩

def longRequest : Bytes :=
  wireHeader longHeader ++ (longTarget ++ [65] ++ [] ++ [65])

theorem longRequest_length : longRequest.length = 17071 := by
  simp only [longRequest, List.length_append, wireHeader_length, longTarget_length]
  rfl

theorem longRequest_request : Request longRequest longTarget [65] [] [65] where
  header := by
    have hread : readHeader (wireHeader longHeader) = longHeader := by
      decide
    rw [longRequest_length, longTarget_length, longRequest,
      readHeader_append _ (wireHeader_length _), hread]
    rfl
  whole := by
    rw [longRequest_length]
    decide
  texts := List.drop_left' (wireHeader_length _)
  target := by
    rw [← List.length_pos_iff, longTarget_length]
    decide
  command := by simp
  pipe := by simp

theorem long_request_refused :
    ¬ ∀ data, Fits .x64 data → ((∃ view, parse .x64 data = .ok view) ↔
      ∃ target command directory pipe,
        Request data target command directory pipe) := by
  intro hall
  have hlength := longRequest_length
  have hfits : Fits .x64 longRequest := by
    rw [Fits, hlength]
    decide
  obtain ⟨view, hview⟩ :=
    (hall longRequest hfits).2 ⟨_, _, _, _, longRequest_request⟩
  have hlong : maxWireBytes < longRequest.length := by
    rw [hlength]
    decide
  rw [parse, if_pos (.inr hlong)] at hview
  cases hview

end ProxyLane.Hook.ElevatedLaunch
