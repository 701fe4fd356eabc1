import ProxyLane.Protocol.Http1
import ProxyLane.Protocol.Http2

/-!
# Header files of a recording

A session is stored without the fields of its messages; they go into text
files, a line for each field.  A reader makes the fields from the lines again:
it cuts a line at a colon and takes the white space behind it away.
-/

namespace ProxyLane.Recording.HeaderText

open ProxyLane.Foundation ProxyLane.Protocol

def crlf : Bytes := [13, 10]

def protocolText (protocol : Bytes) : Bytes :=
  if protocol = ascii "h2" then ascii "HTTP/2"
  else if protocol = ascii "h3" then ascii "HTTP/3"
  else ascii "HTTP/1.1"

/-- A JSON number, or `null`. -/
def statusText : Option Nat → Bytes
  | none => ascii "null"
  | some status => (Nat.toDigits 10 status).map fun c => UInt8.ofNat c.toNat

def firstLine (m : Message) (side : Direction) (protocol : Bytes) : Bytes :=
  match side with
  | .client =>
    m.method.getD [] ++ ascii " " ++ m.target.getD [] ++ ascii " " ++
      protocolText protocol
  | .server => protocolText protocol ++ ascii " " ++ statusText m.status

def fieldText (field : Bytes × Bytes) : Bytes :=
  field.1 ++ ascii ": " ++ field.2

def fieldLines (fields : Headers) : Bytes :=
  fields.flatMap fun field => fieldText field ++ crlf

def headerText (m : Message) (side : Direction) (protocol : Bytes) : Bytes :=
  firstLine m side protocol ++ crlf ++ fieldLines m.headers ++ crlf

structure StoredFields where
  headersFile : Bytes
  trailersFile : Option Bytes
  deriving DecidableEq, Repr

def stripHeaders (m : Message) (side : Direction) (protocol : Bytes) :
    StoredFields where
  headersFile := headerText m side protocol
  trailersFile :=
    if m.trailers.isEmpty then none else some (fieldLines m.trailers)

def metaLimit : Nat := 8 * 1024 * 1024

def utf8Length (text : Bytes) : Nat :=
  text.length + (text.filter (128 ≤ ·)).length

def dropCr (line : Bytes) : Bytes :=
  if line.getLast? = some 13 then line.dropLast else line

/-- `str::lines` behind the beginning of a line. -/
def linesFrom : Bytes → Bytes → List Bytes
  | line, [] => if line.isEmpty then [] else [line]
  | line, b :: rest =>
    if b = 10 then dropCr line :: linesFrom [] rest
    else linesFrom (line ++ [b]) rest

def lines (text : Bytes) : List Bytes := linesFrom [] text

def trimStart (text : Bytes) : Bytes := text.dropWhile isTrimSpace

/-- The place of the colon behind the name; that of a pseudo header begins
with one. -/
def splitField (line : Bytes) : Option (Bytes × Bytes) :=
  let lead := if line.head? = some 58 then 1 else 0
  ((line.drop lead).findIdx? (· == 58)).map fun n =>
    (line.take (n + lead), trimStart (line.drop (n + lead + 1)))

/-- The loop of `hydrate_message` over the lines of a file; the headers have
a first line. -/
def fieldsOf (first : Bool) (text : Bytes) : Headers :=
  let all := if first then (lines text).drop 1 else lines text
  (all.filter (!·.isEmpty)).filterMap splitField

def readFields (first : Bool) (text : Bytes) : Except String Headers :=
  if metaLimit < utf8Length text then
    .error "recording metadata exceeds read limit"
  else .ok (fieldsOf first text)

def hydrateMessage (stored : StoredFields) :
    Except String (Headers × Headers) := do
  let headers ← readFields true stored.headersFile
  match stored.trailersFile with
  | none => .ok (headers, [])
  | some text => (readFields false text).map fun trailers => (headers, trailers)

theorem linesFrom_append {l : Bytes} (h : 10 ∉ l) (line rest : Bytes) :
    linesFrom line (l ++ 10 :: rest) = dropCr (line ++ l) :: linesFrom [] rest := by
  induction l generalizing line with
  | nil => simp [linesFrom]
  | cons b l ih =>
    have hb : b ≠ 10 := fun hb => h (by simp [hb])
    rw [List.cons_append, linesFrom, if_neg hb,
      ih (fun hl => h (List.mem_cons_of_mem b hl))]
    simp

theorem lines_append {l : Bytes} (h : 10 ∉ l) (rest : Bytes) :
    lines (l ++ crlf ++ rest) = l :: lines rest := by
  have whole : l ++ crlf ++ rest = (l ++ [13]) ++ 10 :: rest := by
    simp [crlf]
  have noLf : 10 ∉ l ++ [13] := by simpa using h
  rw [lines, whole, linesFrom_append noLf]
  simp [dropCr, lines]

theorem lines_fieldLines {fields : Headers}
    (h : ∀ field ∈ fields, 10 ∉ fieldText field) (rest : Bytes) :
    lines (fieldLines fields ++ rest) = fields.map fieldText ++ lines rest := by
  induction fields with
  | nil => rfl
  | cons field fields ih =>
    have tail := ih fun f hf => h f (List.mem_cons_of_mem field hf)
    have whole : fieldLines (field :: fields) ++ rest =
        fieldText field ++ crlf ++ (fieldLines fields ++ rest) := by
      simp [fieldLines]
    rw [whole, lines_append (h field (by simp)), tail]
    rfl

/-- The field comes back as it is: the name has no colon behind its first
octet, and the value does not begin with white space. -/
def KeptField (field : Bytes × Bytes) : Prop :=
  58 ∉ field.1.drop 1 ∧ trimStart field.2 = field.2

instance (field : Bytes × Bytes) : Decidable (KeptField field) :=
  inferInstanceAs (Decidable (_ ∧ _))

theorem splitField_of_colon {line before : Bytes} {rest : Bytes}
    (h : line = before ++ 58 :: rest) (first : before ≠ [])
    (inner : 58 ∉ before.drop 1) :
    splitField line = some (before, trimStart rest) := by
  cases before with
  | nil => exact absurd rfl first
  | cons b before =>
    have found : ∀ l : Bytes, 58 ∉ l →
        (l ++ 58 :: rest).findIdx? (· == 58) = some l.length := by
      intro l hl
      rw [List.findIdx?_append,
        List.findIdx?_eq_none_iff.2 fun x hx => by
          simpa using fun hx58 : x = 58 => hl (hx58 ▸ hx)]
      simp [List.findIdx?_cons]
    subst h
    unfold splitField
    by_cases lead : b = 58
    · subst lead
      simp [found before (by simpa using inner)]
    · have whole := found (b :: before) (by simp_all [Ne.symm lead])
      simp only [List.cons_append, List.length_cons] at whole
      simp [lead, whole]

theorem splitField_fieldText {field : Bytes × Bytes} (named : field.1 ≠ []) :
    ∃ name value, splitField (fieldText field) = some (name, value) ∧
      ((name, value) = field ↔ KeptField field) := by
  obtain ⟨name, value⟩ := field
  have colon : ascii ": " = [58, 32] := by decide
  by_cases inner : 58 ∈ name.drop 1
  · cases name with
    | nil => exact absurd rfl named
    | cons b name =>
      obtain ⟨before, rest, hsplit, hfirst⟩ : ∃ before rest,
          name = before ++ 58 :: rest ∧ 58 ∉ before := by
        obtain ⟨before, rest, hname, hbefore⟩ :=
          List.eq_append_cons_of_mem (by simpa using inner)
        exact ⟨before, rest, hname, hbefore⟩
      have text : fieldText (b :: name, value) =
          (b :: before) ++ 58 :: (rest ++ [58, 32] ++ value) := by
        simp [fieldText, colon, hsplit]
      have split := splitField_of_colon text (List.cons_ne_nil _ _)
        (by simpa using hfirst)
      refine ⟨_, _, split, ?_⟩
      constructor
      · intro same
        have := congrArg (fun f => f.1.length) same
        simp [hsplit] at this
      · exact fun kept => absurd inner kept.1
  · have text : fieldText (name, value) = name ++ 58 :: 32 :: value := by
      simp [fieldText, colon]
    have split := splitField_of_colon text named inner
    refine ⟨_, _, split, ?_⟩
    have blank : trimStart (32 :: value) = trimStart value := by
      simp [trimStart, isTrimSpace]
    simp only [blank, Prod.mk.injEq, true_and]
    exact ⟨fun same => ⟨inner, same⟩, fun kept => kept.2⟩

def Written (field : Bytes × Bytes) : Prop :=
  field.1 ≠ [] ∧ 10 ∉ field.1 ∧ 10 ∉ field.2

theorem written_fieldText {field : Bytes × Bytes} (h : Written field) :
    10 ∉ fieldText field ∧ (fieldText field).isEmpty = false := by
  obtain ⟨named, name, value⟩ := h
  have colon : 10 ∉ ascii ": " := by decide
  constructor
  · simp [fieldText, name, value, colon]
  · cases hname : field.1 with
    | nil => exact absurd hname named
    | cons b rest => simp [fieldText, hname]

theorem filterMap_split {fields : Headers} (h : ∀ f ∈ fields, Written f) :
    ∃ read, ((fields.map fieldText).filter (!·.isEmpty)).filterMap splitField =
        read ∧
      (read = fields ↔ ∀ f ∈ fields, KeptField f) := by
  induction fields with
  | nil => exact ⟨[], rfl, by simp⟩
  | cons field fields ih =>
    obtain ⟨read, hread, hiff⟩ := ih fun f hf => h f (List.mem_cons_of_mem _ hf)
    have here := h field (by simp)
    obtain ⟨name, value, split, kept⟩ := splitField_fieldText here.1
    refine ⟨(name, value) :: read, ?_, ?_⟩
    · rw [List.map_cons, List.filter_cons_of_pos
        (by simp [(written_fieldText here).2]), List.filterMap_cons, split,
        hread]
    · rw [List.cons.injEq, kept, hiff, List.forall_mem_cons]

theorem fieldsOf_iff {fields : Headers} (h : ∀ f ∈ fields, Written f) :
    fieldsOf false (fieldLines fields) = fields ↔ ∀ f ∈ fields, KeptField f := by
  have clean : ∀ f ∈ fields, 10 ∉ fieldText f := fun f hf =>
    (written_fieldText (h f hf)).1
  have all := lines_fieldLines clean []
  obtain ⟨read, hread, hiff⟩ := filterMap_split h
  have whole : lines [] = [] := rfl
  rw [List.append_nil, whole, List.append_nil] at all
  simp only [fieldsOf, all, Bool.false_eq_true, if_false, hread, hiff]

theorem fieldsOf_header_iff {m : Message} {side : Direction} {protocol : Bytes}
    (first : 10 ∉ firstLine m side protocol)
    (h : ∀ f ∈ m.headers, Written f) :
    fieldsOf true (headerText m side protocol) = m.headers ↔
      ∀ f ∈ m.headers, KeptField f := by
  have all : lines (headerText m side protocol) =
      firstLine m side protocol :: (m.headers.map fieldText ++ [[]]) := by
    unfold headerText
    rw [List.append_assoc, lines_append first,
      lines_fieldLines fun f hf => (written_fieldText (h f hf)).1]
    have last : lines crlf = [[]] := by decide
    rw [last]
  obtain ⟨read, hread, hiff⟩ := filterMap_split h
  simp only [fieldsOf, all, if_true, List.drop_succ_cons, List.drop_zero,
    List.filter_append, List.filterMap_append, hread]
  simpa using hiff

section Accepted

variable {δ ι : Type} (lib : Library δ ι)

/-- A field as the HTTP/1 head parser reports it: the name is a token, the
value has no line end. -/
def Reported (field : Bytes × Bytes) : Prop :=
  (field.1 ≠ [] ∧ ∀ b ∈ field.1, 32 < b ∧ b < 127) ∧
    ∀ b ∈ field.2, b ≠ 10 ∧ b ≠ 13 ∧ b ≠ 0

structure HeadParser : Prop where
  request : ∀ {n input length head},
    lib.parseRequest n input = .complete length head →
      (∀ f ∈ head.fields, Reported f) ∧
        10 ∉ head.method.getD [] ∧ 10 ∉ head.target.getD []
  response : ∀ {n input length head},
    lib.parseResponse n input = .complete length head → ∀ f ∈ head.fields, Reported f
  headers : ∀ {n input length fields},
    lib.parseHeaders n input = .complete length fields → ∀ f ∈ fields, Reported f

inductive AcceptedHead : Direction → Message → Prop
  | http1 {limits : Limits} {side : Direction} {input : Bytes} {length : Nat}
      {head : Message} :
      Protocol.headers lib limits side input = .ok (some (length, head)) →
        AcceptedHead side head
  | http2 {side : Direction} {fields : Headers} {head : Message} :
      Protocol.validate fields false (side = .client) = .ok () →
        makeMessage side fields = .ok head → AcceptedHead side head

inductive AcceptedTrailers : Headers → Prop
  | absent : AcceptedTrailers []
  | http1 {limits : Limits} {input : Bytes} {length : Nat} {fields : Headers} :
      lib.parseHeaders limits.headerCount input = .complete length fields →
        AcceptedTrailers (lowerNames fields)
  | http2 {client : Bool} {fields : Headers} :
      Protocol.validate fields true client = .ok () → AcceptedTrailers fields

structure Accepted (side : Direction) (m : Message) : Prop where
  head : ∃ head, AcceptedHead lib side head ∧ m.method = head.method ∧
    m.target = head.target ∧ m.headers = head.headers
  trailers : AcceptedTrailers lib m.trailers

variable {lib}

theorem written_lowerNames {fields : Headers} (h : ∀ f ∈ fields, Reported f) :
    ∀ f ∈ lowerNames fields, Written f := by
  intro f hf
  obtain ⟨g, hg, rfl⟩ := List.mem_map.1 hf
  obtain ⟨⟨named, token⟩, value⟩ := h g hg
  refine ⟨by simpa [foldCase] using named, ?_, fun h10 => (value 10 h10).1 rfl⟩
  intro h10
  obtain ⟨b, hb, hlower⟩ := List.mem_map.1 h10
  have printable := (token b hb).1
  unfold toLowerAscii at hlower
  split at hlower
  · rename_i upper
    have : b = 10 - 32 := by
      rw [← hlower]
      simp
    subst this
    exact absurd upper.2 (by decide)
  · subst hlower
    exact absurd printable (by decide)

theorem written_validateFields {trailers client : Bool} {fields : Headers} :
    ∀ {ordinary : Bool} {pseudo : List Bytes},
      validateFields trailers client ordinary pseudo fields = .ok () →
        ∀ f ∈ fields, Written f := by
  induction fields with
  | nil => simp
  | cons field fields ih =>
    intro ordinary pseudo ok
    obtain ⟨name, value⟩ := field
    unfold validateFields at ok
    split at ok
    · cases ok
    · rename_i valid
      have here : Written (name, value) := by
        simp only [isInvalidField, Bool.or_eq_true, not_or, List.isEmpty_iff,
          List.any_eq_true, not_exists, not_and] at valid
        obtain ⟨⟨named, token⟩, clean⟩ := valid
        refine ⟨named, fun h => ?_, fun h => ?_⟩
        · exact absurd (token 10 h).1.2 (by decide)
        · exact absurd (clean 10 h).1.2 (by decide)
      have rest : ∀ f ∈ fields, Written f := by
        split at ok
        · split at ok
          · cases ok
          · split at ok
            · cases ok
            · split at ok
              · cases ok
              · exact ih ok
        · split at ok
          · cases ok
          · exact ih ok
      exact List.forall_mem_cons.2 ⟨here, rest⟩

theorem written_validate {trailers client : Bool} {fields : Headers}
    (ok : Protocol.validate fields trailers client = .ok ()) :
    ∀ f ∈ fields, Written f := by
  unfold Protocol.validate at ok
  split at ok
  · cases ok
  · rename_i valid
    exact written_validateFields valid

theorem written_trailers (parser : HeadParser lib) {fields : Headers}
    (h : AcceptedTrailers lib fields) : ∀ f ∈ fields, Written f := by
  cases h with
  | absent => simp
  | http1 complete => exact written_lowerNames (parser.headers complete)
  | http2 valid => exact written_validate valid

theorem getField_noLf {fields : Headers} {name value : Bytes}
    (h : ∀ f ∈ fields, Written f) (found : getField fields name = some value) :
    10 ∉ value := by
  unfold getField at found
  obtain ⟨field, hfield, rfl⟩ := Option.map_eq_some_iff.1 found
  exact (h field (List.mem_of_find?_eq_some hfield)).2.2

theorem accepted_head (parser : HeadParser lib) {side : Direction}
    {head : Message} (h : AcceptedHead lib side head) :
    (∀ f ∈ head.headers, Written f) ∧ (side = .client →
      10 ∉ head.method.getD [] ∧ 10 ∉ head.target.getD []) := by
  cases h with
  | @http1 limits _ input length _ ok =>
    unfold Protocol.headers at ok
    split at ok
    · cases ok
    · rename_i complete
      split at ok
      · cases ok
      · cases ok
        cases side with
        | client =>
          obtain ⟨fields, method, target⟩ := parser.request complete
          exact ⟨written_lowerNames fields, fun _ => ⟨method, target⟩⟩
        | server =>
          exact ⟨written_lowerNames (parser.response complete),
            fun hs => by cases hs⟩
    · split at ok <;> cases ok
  | @http2 _ fields _ valid made =>
    have clean := written_validate valid
    cases side with
    | client =>
      unfold makeMessage at made
      dsimp only at made
      split at made
      · cases made
      · rename_i method hmethod
        split at made
        · cases made
        · split at made
          · cases made
          · rename_i target htarget
            split at made
            · cases made
            · cases made
              refine ⟨clean, fun _ => ⟨?_, ?_⟩⟩
              · exact getField_noLf clean
                  (Option.eq_some_of_filter_eq_some hmethod)
              · exact getField_noLf clean
                  (Option.eq_some_of_filter_eq_some htarget)
    | server =>
      unfold makeMessage at made
      dsimp only at made
      split at made
      · cases made
      · split at made
        · cases made
        · split at made
          · cases made
          · cases made
            exact ⟨clean, fun hs => by cases hs⟩

end Accepted

theorem statusText_noLf (status : Option Nat) : 10 ∉ statusText status := by
  cases status with
  | none => decide
  | some status =>
    intro h
    obtain ⟨c, hc, h10⟩ := List.mem_map.1 h
    have digit : c.isDigit = true :=
      Nat.isDigit_of_mem_toDigits (by decide) (by decide) hc
    have range : 48 ≤ c.toNat ∧ c.toNat ≤ 57 := by
      simpa [Char.isDigit, UInt32.le_iff_toNat_le] using digit
    have same := congrArg UInt8.toNat h10
    simp only [UInt8.toNat_ofNat', UInt8.reduceToNat] at same
    omega

private theorem protocolText_noLf (protocol : Bytes) : 10 ∉ protocolText protocol := by
  unfold protocolText
  split
  · decide
  · split <;> decide

theorem firstLine_noLf {m : Message} {side : Direction} (protocol : Bytes)
    (h : side = .client → 10 ∉ m.method.getD [] ∧ 10 ∉ m.target.getD []) :
    10 ∉ firstLine m side protocol := by
  have blank : 10 ∉ ascii " " := by decide
  have version := protocolText_noLf protocol
  cases side with
  | client =>
    obtain ⟨method, target⟩ := h rfl
    simp [firstLine, method, target, blank, version]
  | server => simp [firstLine, blank, version, statusText_noLf]

structure Kept (m : Message) (side : Direction) (protocol : Bytes) : Prop where
  fields : ∀ f ∈ m.headers ++ m.trailers, KeptField f
  headers : utf8Length (headerText m side protocol) ≤ metaLimit
  trailers : utf8Length (fieldLines m.trailers) ≤ metaLimit

theorem readFields_eq_iff {first : Bool} {text : Bytes} {fields : Headers} :
    readFields first text = .ok fields ↔
      utf8Length text ≤ metaLimit ∧ fieldsOf first text = fields := by
  unfold readFields
  split <;> simp <;> omega

theorem hydrateMessage_eq_iff {stored : StoredFields} {headers trailers : Headers} :
    hydrateMessage stored = .ok (headers, trailers) ↔
      readFields true stored.headersFile = .ok headers ∧
        match stored.trailersFile with
        | none => trailers = []
        | some text => readFields false text = .ok trailers := by
  unfold hydrateMessage
  cases readFields true stored.headersFile with
  | error e => simp [bind, Except.bind]
  | ok read =>
    cases stored.trailersFile with
    | none => simp [bind, Except.bind, eq_comm]
    | some text =>
      cases hread : readFields false text <;>
        simp [bind, Except.bind, Except.map, hread]

theorem hydrate_strip_iff {δ ι : Type} {lib : Library δ ι}
    (parser : HeadParser lib) {side : Direction} {m : Message}
    (accepted : Accepted lib side m) (protocol : Bytes) :
    hydrateMessage (stripHeaders m side protocol) =
        .ok (m.headers, m.trailers) ↔ Kept m side protocol := by
  obtain ⟨⟨head, hhead, hmethod, htarget, hheaders⟩, htrailers⟩ := accepted
  obtain ⟨clean, lead⟩ := accepted_head parser hhead
  rw [← hheaders] at clean
  rw [← hmethod, ← htarget] at lead
  have tail := written_trailers parser htrailers
  have header := fieldsOf_header_iff (firstLine_noLf protocol lead) clean
  have trailer := fieldsOf_iff tail
  rw [hydrateMessage_eq_iff]
  unfold stripHeaders
  dsimp only
  rw [readFields_eq_iff, header]
  by_cases empty : m.trailers = []
  · have short : utf8Length (fieldLines m.trailers) ≤ metaLimit := by
      rw [empty]
      decide
    rw [if_pos (by simp [empty])]
    constructor
    · rintro ⟨⟨length, kept⟩, -⟩
      exact ⟨by simpa [empty] using kept, length, short⟩
    · rintro ⟨kept, length, -⟩
      exact ⟨⟨length, by simpa [empty] using kept⟩, empty⟩
  · rw [if_neg (by simpa using empty)]
    dsimp only
    rw [readFields_eq_iff, trailer]
    constructor
    · rintro ⟨⟨length, kept⟩, trailerLength, trailerKept⟩
      refine ⟨fun f hf => ?_, length, trailerLength⟩
      exact (List.mem_append.1 hf).elim (kept f) (trailerKept f)
    · rintro ⟨kept, length, trailerLength⟩
      exact ⟨⟨length, fun f hf => kept f (List.mem_append_left _ hf)⟩,
        trailerLength, fun f hf => kept f (List.mem_append_right _ hf)⟩

def blankFields : Headers :=
  [(ascii ":method", ascii "GET"), (ascii ":scheme", ascii "https"),
    (ascii ":path", ascii "/"), (ascii "a", ascii " b"),
    (ascii "c:d", ascii "e")]

def requestMessage (fields : Headers) : Message :=
  { Message.default with
    method := some (ascii "GET")
    target := some (ascii "/")
    headers := fields }

def plainFields : Headers :=
  [(ascii ":method", ascii "GET"), (ascii ":scheme", ascii "https"),
    (ascii ":path", ascii "/"), (ascii "a", ascii "b"), (ascii "a", [])]

theorem hydrate_strip_iff_plain :
    hydrateMessage (stripHeaders (requestMessage plainFields) .client
        (ascii "h2")) =
        .ok ((requestMessage plainFields).headers,
          (requestMessage plainFields).trailers) ↔
      Kept (requestMessage plainFields) .client (ascii "h2") :=
  have parser : HeadParser staticLibrary := ⟨nofun, nofun, nofun⟩
  have head : AcceptedHead staticLibrary .client (requestMessage plainFields) :=
    .http2 (show Protocol.validate plainFields false true = .ok () by
      decide) (by decide)
  hydrate_strip_iff parser
    ⟨⟨requestMessage plainFields, head, rfl, rfl, rfl⟩, .absent⟩ (ascii "h2")

theorem hydrate_drops_blank :
    Protocol.validate blankFields false true = .ok () ∧
      makeMessage .client blankFields = .ok (requestMessage blankFields) ∧
      hydrateMessage (stripHeaders (requestMessage blankFields) .client
          (ascii "h2")) =
        .ok ([(ascii ":method", ascii "GET"), (ascii ":scheme", ascii "https"),
          (ascii ":path", ascii "/"), (ascii "a", ascii "b"),
          (ascii "c", ascii "d: e")], []) := by
  decide

end ProxyLane.Recording.HeaderText
