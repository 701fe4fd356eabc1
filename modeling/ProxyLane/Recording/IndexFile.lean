import ProxyLane.Foundation.JsonText
import ProxyLane.Foundation.Latest
import ProxyLane.Recording.Index

/-!
# Reading a sealed index

A sealed index file is a header, rows, and an end marker with their number.
Loading it keeps the last row of every key; no proper part of it from the
start is accepted.
-/

namespace ProxyLane.Recording

open ProxyLane.Foundation

/-! ## The file -/

def header : Json :=
  .object [("format", .str "ProxyLaneListIndex"), ("version", .num 1)]

def endMarker (sequence : Nat) : Json := .object [("end", .num sequence)]

def linesFrom (lib : Serde) : Nat → List Json → Except String (List Bytes)
  | _, [] => .ok []
  | sequence, v :: rest =>
    match line lib sequence v with
    | .error e => .error e
    | .ok bytes => (linesFrom lib (sequence + 1) rest).map (bytes :: ·)

def sealedIndex (rows : List Json) : List Json :=
  header :: (rows ++ [endMarker (rows.length + 1)])

def readAt (lib : Serde) (file : Bytes) (offset len sequence : Nat) :
    Except String Json :=
  if lineLimit < len then .error "invalid index offset length"
  else
    let bytes := (file.drop offset).take len
    if bytes.length < len then .error "failed to fill whole buffer"
    else decode lib bytes sequence

structure ReadsBack (lib : Serde) (v : Json) : Prop where
  flat : newline ∉ lib.print v
  parse : lib.parse (lib.print v ++ [newline]) = some v

/-! ## Lines of a file -/

structure Framed (bytes : Bytes) : Prop where
  split : ∃ body, newline ∉ body ∧ bytes = body ++ [newline]
  fits : bytes.length ≤ lineLimit

theorem upToNewline_body {body : Bytes} (h : newline ∉ body) (rest : Bytes) :
    upToNewline (body ++ newline :: rest) = body ++ [newline] := by
  induction body with
  | nil => rfl
  | cons b body ih =>
    rw [List.mem_cons, not_or] at h
    rw [List.cons_append, upToNewline, if_neg (Ne.symm h.1), ih h.2,
      List.cons_append]

theorem upToNewline_flat {body : Bytes} (h : newline ∉ body) :
    upToNewline body = body := by
  induction body with
  | nil => rfl
  | cons b body ih =>
    rw [List.mem_cons, not_or] at h
    rw [upToNewline, if_neg (Ne.symm h.1), ih h.2]

theorem Framed.ne_nil {bytes : Bytes} (h : Framed bytes) : bytes ≠ [] := by
  obtain ⟨body, -, rfl⟩ := h.split
  exact List.append_ne_nil_of_right_ne_nil _ (List.cons_ne_nil _ _)

theorem readLine_framed {bytes : Bytes} (h : Framed bytes) (rest : Bytes) :
    readLine (bytes ++ rest) = .ok (bytes, rest) := by
  obtain ⟨body, hflat, rfl⟩ := h.split
  have hfits := h.fits
  have htake : (body ++ [newline] ++ rest).take (lineLimit + 1) =
      body ++ newline :: rest.take (lineLimit + 1 - (body ++ [newline]).length) := by
    rw [List.take_append, List.take_of_length_le (by omega)]
    simp
  have hbytes : upToNewline ((body ++ [newline] ++ rest).take (lineLimit + 1)) =
      body ++ [newline] := by
    rw [htake, upToNewline_body hflat]
  rw [readLine]
  simp only [hbytes]
  rw [if_neg (by omega), List.drop_left]

theorem readLine_flat {bytes : Bytes} (hflat : newline ∉ bytes)
    (hfits : bytes.length ≤ lineLimit) :
    readLine bytes = .ok (bytes, []) := by
  have hbytes : upToNewline (bytes.take (lineLimit + 1)) = bytes := by
    rw [List.take_of_length_le (by omega), upToNewline_flat hflat]
  rw [readLine]
  simp only [hbytes]
  rw [if_neg (by omega), List.drop_length]

theorem loadLoop_framed (lib : Serde) {bytes : Bytes} (h : Framed bytes)
    (fuel : Nat) (s : Load) (rest : Bytes) :
    loadLoop lib (fuel + 1) s (bytes ++ rest) =
      (loadLine lib s bytes).bind fun s => loadLoop lib fuel s rest := by
  have hne := h.ne_nil
  rw [loadLoop, readLine_framed h]
  cases bytes with
  | nil => exact absurd rfl hne
  | cons b bytes =>
    dsimp only
    cases loadLine lib s (b :: bytes) <;> rfl

theorem loadLoop_cut (lib : Serde) {bytes part : Bytes} (h : Framed bytes)
    (hpart : part <+: bytes) (hcut : part ≠ bytes) (fuel : Nat) (s : Load) :
    loadLoop lib (fuel + 1) s part = .ok s ∨
      ∃ e, loadLoop lib (fuel + 1) s part = .error e := by
  obtain ⟨body, hflat, rfl⟩ := h.split
  have hbody : part <+: body := by
    rcases List.prefix_concat_iff.1 hpart with heq | hbody
    · exact absurd heq hcut
    · exact hbody
  have hnone : newline ∉ part := fun hmem => hflat (hbody.subset hmem)
  have hfits : part.length ≤ lineLimit := hpart.length_le.trans h.fits
  rw [loadLoop, readLine_flat hnone hfits]
  cases part with
  | nil => exact .inl rfl
  | cons b part =>
    right
    have hlast : (b :: part).getLast? ≠ some newline :=
      fun heq => hnone (List.mem_of_getLast? heq)
    dsimp only
    rw [loadLine, decode, if_pos hlast]
    cases s.ended with
    | true => exact ⟨_, rfl⟩
    | false => exact ⟨_, rfl⟩

theorem envelope_record (lib : Serde) (sequence : Nat) (v : Json) :
    (envelope lib sequence v).get? "record" = some v := by
  simp [envelope, Json.object, Json.get?_obj_insertField]

theorem envelope_sequence (lib : Serde) (sequence : Nat) (v : Json) :
    (envelope lib sequence v).get "sequence" = .num sequence := by
  simp [envelope, Json.object, Json.get, Json.get?_obj_insertField]

theorem envelope_checksum (lib : Serde) (sequence : Nat) (v : Json) :
    (envelope lib sequence v).get "checksum" = .str (checksum (lib.print v)) := by
  simp [envelope, Json.object, Json.get, Json.get?_obj_insertField]

theorem line_eq {lib : Serde} {sequence : Nat} {v : Json} {bytes : Bytes}
    (h : line lib sequence v = .ok bytes) :
    bytes = lib.print (envelope lib sequence v) ++ [newline] ∧
      bytes.length ≤ lineLimit := by
  rw [line] at h
  split at h
  case isTrue => cases h
  case isFalse hfits =>
    cases h
    exact ⟨rfl, Nat.le_of_not_lt hfits⟩

section Line

variable {lib : Serde} {sequence : Nat} {v : Json} {bytes : Bytes}

theorem line_framed (h : line lib sequence v = .ok bytes)
    (hlib : ReadsBack lib (envelope lib sequence v)) : Framed bytes :=
  ⟨⟨_, hlib.flat, (line_eq h).1⟩, (line_eq h).2⟩

theorem decode_line (h : line lib sequence v = .ok bytes)
    (hlib : ReadsBack lib (envelope lib sequence v)) :
    decode lib bytes sequence = .ok v := by
  obtain ⟨rfl, -⟩ := line_eq h
  rw [decode, if_neg (by simp), hlib.parse]
  dsimp only
  rw [envelope_record]
  dsimp only
  rw [envelope_sequence, envelope_checksum]
  simp [Json.isNum, Json.isStr, Json.asStr]

end Line

/-! ## A file that is cut -/

theorem loadLine_open {lib : Serde} {s s' : Load} {bytes : Bytes} {v : Json}
    (hdecode : decode lib bytes s.sequence = .ok v)
    (hend : v.get? "end" = none) (hload : loadLine lib s bytes = .ok s') :
    s'.ended = false ∧ s'.sequence = s.sequence + 1 := by
  have hopen : s.ended = false := by
    cases hended : s.ended with
    | true => simp [loadLine, hended] at hload
    | false => rfl
  rw [loadLine, if_neg (by simp [hopen]), hdecode] at hload
  dsimp only at hload
  rw [hend] at hload
  split at hload
  case isTrue =>
    split at hload
    case isTrue =>
      cases hload
      exact ⟨hopen, rfl⟩
    case isFalse => cases hload
  case isFalse =>
    rw [if_neg (by simp)] at hload
    split at hload
    case h_1 => cases hload
    case h_2 =>
      split at hload
      case isTrue => cases hload
      case isFalse =>
        cases hload
        exact ⟨hopen, rfl⟩

theorem linesFrom_cons {lib : Serde} {sequence : Nat} {v : Json}
    {values : List Json} {lines : List Bytes}
    (h : linesFrom lib sequence (v :: values) = .ok lines) :
    ∃ bytes rest, lines = bytes :: rest ∧ line lib sequence v = .ok bytes ∧
      linesFrom lib (sequence + 1) values = .ok rest := by
  rw [linesFrom] at h
  cases hline : line lib sequence v with
  | error e => rw [hline] at h; cases h
  | ok bytes =>
    rw [hline] at h
    cases hrest : linesFrom lib (sequence + 1) values with
    | error e => rw [hrest] at h; cases h
    | ok rest =>
      rw [hrest] at h
      cases h
      exact ⟨bytes, rest, rfl, rfl, rfl⟩

/-- The lines of these values, numbered from `sequence`, can be read back. -/
def AllReadBack (lib : Serde) : Nat → List Json → Prop
  | _, [] => True
  | sequence, v :: rest =>
    ReadsBack lib (envelope lib sequence v) ∧ AllReadBack lib (sequence + 1) rest

theorem loadLoop_prefix {lib : Serde} {values : List Json} {s : Load}
    {lines : List Bytes} (hlines : linesFrom lib s.sequence values = .ok lines)
    (hlib : AllReadBack lib s.sequence values)
    (hend : ∀ v ∈ values.dropLast, v.get? "end" = none)
    (hopen : s.ended = false) {part : Bytes} (hpart : part <+: lines.flatten)
    (hcut : part ≠ lines.flatten) {fuel : Nat} (hfuel : part.length < fuel) :
    (∃ s', loadLoop lib fuel s part = .ok s' ∧ s'.ended = false) ∨
      ∃ e, loadLoop lib fuel s part = .error e := by
  induction values generalizing s lines part fuel with
  | nil =>
    cases hlines
    exact absurd (List.prefix_nil.1 hpart) hcut
  | cons v values ih =>
    obtain ⟨bytes, rest, rfl, hline, hrest⟩ := linesFrom_cons hlines
    have hframed := line_framed hline hlib.1
    obtain ⟨fuel, rfl⟩ : ∃ n, fuel = n + 1 := ⟨fuel - 1, by omega⟩
    rw [List.flatten_cons] at hpart hcut
    by_cases hwhole : bytes <+: part
    · obtain ⟨more, rfl⟩ := hwhole
      have hmore : more <+: rest.flatten :=
        (List.prefix_append_right_inj bytes).1 hpart
      have hcut' : more ≠ rest.flatten := fun heq => hcut (by rw [heq])
      have hnext : v.get? "end" = none := by
        cases values with
        | nil =>
          cases hrest
          exact absurd (List.prefix_nil.1 hmore) hcut'
        | cons w values => exact hend v (List.mem_cons_self ..)
      rw [loadLoop_framed lib hframed]
      cases hload : loadLine lib s bytes with
      | error e => exact .inr ⟨e, rfl⟩
      | ok s' =>
        obtain ⟨hopen', hsequence⟩ :=
          loadLine_open (decode_line hline hlib.1) hnext hload
        have hlong : 0 < bytes.length :=
          List.length_pos_iff.2 hframed.ne_nil
        rw [List.length_append] at hfuel
        rw [← hsequence] at hrest
        refine ih hrest (hsequence ▸ hlib.2) (fun w hw => hend w ?_) hopen'
          hmore hcut' (by omega)
        have hne : values ≠ [] := by
          rintro rfl
          cases hw
        rw [List.dropLast_cons_of_ne_nil hne]
        exact List.mem_cons_of_mem _ hw
    · have hshort : part <+: bytes := by
        rcases List.prefix_or_prefix_of_prefix hpart
            (List.prefix_append bytes rest.flatten) with h | h
        · exact h
        · exact absurd h hwhole
      have hne : part ≠ bytes := fun heq => hwhole (heq ▸ List.prefix_rfl)
      rcases loadLoop_cut lib hframed hshort hne fuel s with h | h
      · exact .inl ⟨s, h, hopen⟩
      · exact .inr h

theorem loadIndex_prefix {lib : Serde} {values : List Json}
    {lines : List Bytes} (hlines : linesFrom lib 0 values = .ok lines)
    (hlib : AllReadBack lib 0 values)
    (hend : ∀ v ∈ values.dropLast, v.get? "end" = none) {part : Bytes}
    (hpart : part <+: lines.flatten) (hcut : part ≠ lines.flatten) :
    ∃ e, loadIndex lib part = .error e := by
  rw [loadIndex]
  rcases loadLoop_prefix (s := .start) hlines hlib hend rfl hpart hcut
      (Nat.lt_succ_self _) with ⟨s', heq, hopen⟩ | ⟨e, heq⟩
  · rw [heq]
    dsimp only
    rw [hopen]
    exact ⟨_, rfl⟩
  · rw [heq]
    exact ⟨e, rfl⟩

/-! ## Rows -/

/-- A row as `list_snapshot` writes it. -/
def IsRow (r : Json) : Prop :=
  (∃ v, summary v = some r) ∧ ∃ k, key r = .ok k

theorem find?_boundFields (fs : List (String × Json)) (name : String) :
    ((boundFields fs).find? fun field => field.1 == name).map Prod.snd =
      ((fs.find? fun field => field.1 == name).map Prod.snd).map bound := by
  induction fs with
  | nil => rfl
  | cons field rest ih =>
    obtain ⟨key, v⟩ := field
    rw [boundFields, List.find?_cons, List.find?_cons]
    cases hkey : key == name with
    | true => rfl
    | false => exact ih

theorem get?_bound (v : Json) (name : String) :
    (bound v).get? name = (v.get? name).map bound := by
  cases v with
  | obj fs => rw [bound]; exact find?_boundFields fs name
  | _ => simp [bound, Json.get?, Json.fields]

theorem get?_foldl_select {v : Json} {keys : List String} {name : String}
    (h : name ∉ keys) (out : Json) :
    (keys.foldl (fun out key =>
      match v.get? key with
      | some x => out.set key x
      | none => out) out).get? name = out.get? name := by
  induction keys generalizing out with
  | nil => rfl
  | cons key keys ih =>
    rw [List.mem_cons, not_or] at h
    rw [List.foldl_cons, ih h.2]
    cases v.get? key with
    | none => rfl
    | some x => exact Json.get?_set_ne out x h.1

theorem get?_select {v : Json} {keys : List String} {name : String}
    (h : name ∉ keys) : (select v keys).get? name = none := by
  rw [select]
  split
  case isTrue => rfl
  case isFalse => exact get?_foldl_select h _

theorem fullSummary_end (v : Json) : (fullSummary v).get? "end" = none := by
  have hset : ∀ (out : Json) (key : String) (x : Json), "end" ≠ key →
      out.get? "end" = none → (out.set key x).get? "end" = none :=
    fun out key x hne h => (Json.get?_set_ne out x hne).trans h
  have hout : (select v ["format", "version", "type", "cache_id",
      "first_observed_unix_ms", "protocol", "connection", "status"]).get?
        "end" = none :=
    get?_select (by decide)
  rw [fullSummary]
  have hstream := fun detail => hset _ "stream" (streamSummary v) (by decide)
    (hset _ "exchange" (exchangeSummary v) (by decide)
      (hset _ "summary" (v.get "summary") (by decide)
        (hset _ "detail_file" detail (by decide) hout)))
  split
  case isTrue =>
    refine hset _ _ _ (by decide) ?_
    split
    case isTrue => exact hset _ _ _ (by decide) (hstream _)
    case isFalse => exact hstream _
  case isFalse =>
    split
    case isTrue => exact hset _ _ _ (by decide) (hstream _)
    case isFalse => exact hstream _

theorem IsRow.no_end {r : Json} (h : IsRow r) : r.get? "end" = none := by
  obtain ⟨⟨v, hv⟩, -⟩ := h
  rw [summary] at hv
  split at hv
  case isTrue =>
    cases hv
    rw [get?_bound, fullSummary_end]
    rfl
  case isFalse => cases hv

/-! ## Loading rows -/

def rowKey (r : Json) : String := (key r).toOption.getD ""

theorem rowKey_of_key {r : Json} {k : String} (h : key r = .ok k) :
    rowKey r = k := by
  rw [rowKey, h]
  rfl

/-- What `latest` holds of a row. -/
def rowEntry (r : Json) (offset length sequence : Nat) :
    String × Item × String :=
  (rowKey r, itemOf r offset length sequence, connectionOf r)

def entriesFrom : Nat → Nat → List Json → List Bytes →
    List (String × Item × String)
  | offset, sequence, r :: rows, bytes :: lines =>
    rowEntry r offset bytes.length sequence ::
      entriesFrom (offset + bytes.length) (sequence + 1) rows lines
  | _, _, _, _ => []

def loadedAt (es : List (String × Item × String)) (offset sequence : Nat) :
    Load :=
  ⟨lastPerKey es, offset, sequence, false⟩

def tooMany : String :=
  "Recording index exceeds two million sessions; " ++
    "no entries were silently omitted."

theorem loadLine_row {lib : Serde} (es : List (String × Item × String))
    (offset : Nat) {sequence : Nat} {bytes : Bytes} {r : Json}
    (hrow : IsRow r) (hfirst : 0 < sequence) (hdecode : decode lib bytes sequence = .ok r) :
    loadLine lib (loadedAt es offset sequence) bytes =
      if maxSessions <
          (lastPerKey (es ++ [rowEntry r offset bytes.length sequence])).length
      then .error tooMany
      else .ok (loadedAt (es ++ [rowEntry r offset bytes.length sequence])
        (offset + bytes.length) (sequence + 1)) := by
  obtain ⟨k, hk⟩ := hrow.2
  have hkey := rowKey_of_key hk
  have hlatest : insertLatest (lastPerKey es) k
        (itemOf r offset bytes.length sequence, connectionOf r) =
      lastPerKey (es ++ [rowEntry r offset bytes.length sequence]) := by
    rw [lastPerKey_snoc, insertLatest, rowEntry, hkey]
  rw [loadLine, loadedAt, if_neg Bool.false_ne_true]
  dsimp only
  rw [hdecode]
  dsimp only
  rw [if_neg (by omega), hrow.no_end, if_neg (by simp), hk]
  dsimp only
  rw [hlatest]
  rfl

theorem loadLoop_rows {lib : Serde} {rows : List Json} {lines : List Bytes}
    {es : List (String × Item × String)} {offset sequence : Nat}
    (hlines : linesFrom lib sequence rows = .ok lines)
    (hlib : AllReadBack lib sequence rows) (hrows : ∀ r ∈ rows, IsRow r)
    (hfirst : 0 < sequence) (hes : (lastPerKey es).length ≤ maxSessions)
    (fuel : Nat) (tail : Bytes) :
    loadLoop lib (rows.length + fuel) (loadedAt es offset sequence)
        (lines.flatten ++ tail) =
      if maxSessions <
          (lastPerKey (es ++ entriesFrom offset sequence rows lines)).length
      then .error tooMany
      else loadLoop lib fuel
        (loadedAt (es ++ entriesFrom offset sequence rows lines)
          (offset + lines.flatten.length) (sequence + rows.length)) tail := by
  induction rows generalizing lines es offset sequence with
  | nil =>
    cases hlines
    rw [entriesFrom, List.append_nil, if_neg (by omega)]
    · simp
    · simp
  | cons r rows ih =>
    obtain ⟨bytes, rest, rfl, hline, hrest⟩ := linesFrom_cons hlines
    have hstep := loadLine_row es offset
      (hrows r (List.mem_cons_self ..)) hfirst (decode_line hline hlib.1)
    rw [List.length_cons, Nat.add_right_comm, List.flatten_cons,
      List.append_assoc, loadLoop_framed lib (line_framed hline hlib.1),
      hstep, entriesFrom]
    rw [List.append_cons es _ (entriesFrom ..)]
    by_cases hmany : maxSessions < (lastPerKey
        (es ++ [rowEntry r offset bytes.length sequence])).length
    · have hmore := length_lastPerKey_le
        (es ++ [rowEntry r offset bytes.length sequence])
        (entriesFrom (offset + bytes.length) (sequence + 1) rows rest)
      rw [if_pos hmany, if_pos (by omega)]
      rfl
    · rw [if_neg hmany]
      change loadLoop lib (rows.length + fuel) _ _ = _
      rw [ih hrest hlib.2 (fun r hr => hrows r (List.mem_cons_of_mem _ hr))
        (by omega) (by omega), List.length_append, Nat.add_assoc offset,
        Nat.add_assoc sequence, Nat.add_comm 1]

/-! ## Loading a sealed file -/

theorem linesFrom_append {lib : Serde} {sequence : Nat} {a b : List Json}
    {lines : List Bytes} (h : linesFrom lib sequence (a ++ b) = .ok lines) :
    ∃ first last, lines = first ++ last ∧
      linesFrom lib sequence a = .ok first ∧
      linesFrom lib (sequence + a.length) b = .ok last := by
  induction a generalizing sequence lines with
  | nil => exact ⟨[], lines, rfl, rfl, h⟩
  | cons v a ih =>
    obtain ⟨bytes, rest, rfl, hline, hrest⟩ := linesFrom_cons h
    obtain ⟨first, last, rfl, hfirst, hlast⟩ := ih hrest
    refine ⟨bytes :: first, last, rfl, ?_, ?_⟩
    · rw [linesFrom, hline, hfirst]
      rfl
    · rwa [List.length_cons, ← Nat.add_assoc, Nat.add_right_comm]

theorem AllReadBack.append {lib : Serde} {sequence : Nat} {a b : List Json}
    (h : AllReadBack lib sequence (a ++ b)) :
    AllReadBack lib sequence a ∧ AllReadBack lib (sequence + a.length) b := by
  induction a generalizing sequence with
  | nil => exact ⟨trivial, h⟩
  | cons v a ih =>
    obtain ⟨hfirst, hlast⟩ := ih h.2
    refine ⟨⟨h.1, hfirst⟩, ?_⟩
    rwa [List.length_cons, ← Nat.add_assoc, Nat.add_right_comm]

structure Sealed (lib : Serde) (rows : List Json) (first : Bytes)
    (lines : List Bytes) (last : Bytes) : Prop where
  headerLine : line lib 0 header = .ok first
  rowLines : linesFrom lib 1 rows = .ok lines
  lastLine : line lib (rows.length + 1) (endMarker (rows.length + 1)) = .ok last
  headerBack : ReadsBack lib (envelope lib 0 header)
  rowsBack : AllReadBack lib 1 rows
  lastBack : ReadsBack lib
    (envelope lib (rows.length + 1) (endMarker (rows.length + 1)))
  isRow : ∀ r ∈ rows, IsRow r

theorem sealed_lines {lib : Serde} {rows : List Json} {lines : List Bytes}
    (hlines : linesFrom lib 0 (sealedIndex rows) = .ok lines)
    (hlib : AllReadBack lib 0 (sealedIndex rows))
    (hrows : ∀ r ∈ rows, IsRow r) :
    ∃ first middle last, lines = first :: (middle ++ [last]) ∧
      Sealed lib rows first middle last := by
  obtain ⟨first, rest, rfl, hheader, hrest⟩ := linesFrom_cons hlines
  obtain ⟨middle, ends, rfl, hmiddle, hends⟩ := linesFrom_append hrest
  obtain ⟨last, none, rfl, hlast, hnone⟩ := linesFrom_cons hends
  cases hnone
  obtain ⟨hrowsBack, hlastBack⟩ := AllReadBack.append hlib.2
  rw [Nat.zero_add, Nat.add_comm 1] at hlast hlastBack
  exact ⟨first, middle, last, rfl,
    ⟨hheader, hmiddle, hlast, hlib.1, hrowsBack, hlastBack.1, hrows⟩⟩

section Load

variable {lib : Serde} {rows : List Json} {first last : Bytes}
  {lines : List Bytes}

/-- What `latest` has seen at the end of the file. -/
def fileEntries (rows : List Json) (first : Bytes) (lines : List Bytes) :
    List (String × Item × String) :=
  entriesFrom first.length 1 rows lines

theorem loadLine_header (h : Sealed lib rows first lines last) :
    loadLine lib .start first = .ok (loadedAt [] first.length 1) := by
  have hdecode : decode lib first Load.start.sequence = .ok header :=
    decode_line h.headerLine h.headerBack
  have hheader : isHeader header = true := by decide
  rw [loadLine, Load.start, if_neg Bool.false_ne_true]
  dsimp only
  rw [show decode lib first 0 = _ from hdecode]
  dsimp only
  rw [if_pos rfl, if_pos hheader, Nat.zero_add]
  rfl

theorem loadLine_end (h : Sealed lib rows first lines last)
    (es : List (String × Item × String)) (offset : Nat) :
    loadLine lib (loadedAt es offset (rows.length + 1)) last =
      .ok ⟨lastPerKey es, offset + last.length, rows.length + 2, true⟩ := by
  have hdecode := decode_line h.lastLine h.lastBack
  have hend : (endMarker (rows.length + 1)).get? "end" =
      some (.num (rows.length + 1 : Nat)) := by
    simp [endMarker, Json.object, Json.get?_obj_insertField]
  rw [loadLine, loadedAt, if_neg Bool.false_ne_true]
  dsimp only
  rw [hdecode]
  dsimp only
  rw [if_neg (Nat.succ_ne_zero _), Json.get, hend,
    if_pos Option.isSome_some, if_pos (by simp [Json.isNum])]

theorem length_linesFrom {sequence : Nat} {values : List Json}
    {out : List Bytes} (h : linesFrom lib sequence values = .ok out) :
    out.length = values.length := by
  induction values generalizing sequence out with
  | nil => cases h; rfl
  | cons v values ih =>
    obtain ⟨bytes, rest, rfl, -, hrest⟩ := linesFrom_cons h
    rw [List.length_cons, List.length_cons, ih hrest]

theorem linesFrom_framed {sequence : Nat} {values : List Json}
    {out : List Bytes} (h : linesFrom lib sequence values = .ok out)
    (hlib : AllReadBack lib sequence values) :
    ∀ bytes ∈ out, Framed bytes := by
  induction values generalizing sequence out with
  | nil => cases h; exact fun _ hmem => nomatch hmem
  | cons v values ih =>
    obtain ⟨bytes, rest, rfl, hline, hrest⟩ := linesFrom_cons h
    intro bytes' hmem
    rcases List.mem_cons.1 hmem with rfl | hmem
    · exact line_framed hline hlib.1
    · exact ih hrest hlib.2 bytes' hmem

theorem length_le_flatten {out : List Bytes} (h : ∀ bytes ∈ out, bytes ≠ []) :
    out.length ≤ out.flatten.length := by
  induction out with
  | nil => exact Nat.le_refl 0
  | cons bytes out ih =>
    have hrest := ih fun b hb => h b (List.mem_cons_of_mem _ hb)
    have hlong := List.length_pos_iff.2 (h bytes (List.mem_cons_self ..))
    rw [List.flatten_cons, List.length_append, List.length_cons]
    omega

theorem loadIndex_sealed (h : Sealed lib rows first lines last) :
    loadIndex lib (first :: (lines ++ [last])).flatten =
      if maxSessions < (lastPerKey (fileEntries rows first lines)).length
      then .error tooMany
      else .ok (loadedAt (fileEntries rows first lines) 0 0).items := by
  have hframed := linesFrom_framed h.rowLines h.rowsBack
  have hfirst := line_framed h.headerLine h.headerBack
  have hlast := line_framed h.lastLine h.lastBack
  have hlong : rows.length ≤ lines.flatten.length :=
    (length_linesFrom h.rowLines) ▸
      length_le_flatten fun b hb => (hframed b hb).ne_nil
  have hfile : (first :: (lines ++ [last])).flatten =
      first ++ (lines.flatten ++ (last ++ [])) := by simp
  obtain ⟨fuel, hfuel⟩ : ∃ n,
      (first ++ (lines.flatten ++ (last ++ []))).length + 1 =
        rows.length + (n + 1 + 1) + 1 := by
    have hfirst' := List.length_pos_iff.2 hfirst.ne_nil
    have hlast' := List.length_pos_iff.2 hlast.ne_nil
    refine ⟨first.length + lines.flatten.length + last.length - (rows.length + 2), ?_⟩
    simp only [List.length_append, List.length_nil]
    omega
  rw [loadIndex, hfile, hfuel, loadLoop_framed lib hfirst, loadLine_header h]
  dsimp only [Except.bind]
  rw [loadLoop_rows h.rowLines h.rowsBack h.isRow Nat.one_pos (Nat.zero_le _),
    List.nil_append, Nat.add_comm 1]
  by_cases hmany : maxSessions <
      (lastPerKey (entriesFrom first.length 1 rows lines)).length
  · rw [if_pos hmany, fileEntries, if_pos hmany]
  · rw [if_neg hmany, fileEntries, if_neg hmany,
      loadLoop_framed lib hlast, loadLine_end h]
    rfl

end Load

/-! ## What is listed -/

/-- Row `j` is `r`, and no later row has its key. -/
def Current (rows : List Json) (j : Nat) (r : Json) : Prop :=
  rows[j]? = some r ∧ ∀ k later, j < k → rows[k]? = some later → key later ≠ key r

/-- A session that counts belongs to the connection of `r`. -/
def Represented (rows : List Json) (r : Json) : Prop :=
  ∃ j session, Current rows j session ∧ isConnection session = false ∧
    connectionOf session = connectionOf r

def Shown (rows : List Json) (j : Nat) (r : Json) : Prop :=
  Current rows j r ∧ (isConnection r = true → ¬ Represented rows r)

theorem rowKey_ne_iff {a b : Json} (ha : IsRow a) (hb : IsRow b) :
    rowKey a ≠ rowKey b ↔ key a ≠ key b := by
  obtain ⟨k, hk⟩ := ha.2
  obtain ⟨l, hl⟩ := hb.2
  rw [rowKey, rowKey, hk, hl]
  simp [Except.toOption]

theorem getElem?_entriesFrom (offset sequence : Nat) (rows : List Json)
    (lines : List Bytes) (j : Nat) (e : String × Item × String) :
    (entriesFrom offset sequence rows lines)[j]? = some e ↔
      ∃ r bytes, rows[j]? = some r ∧ lines[j]? = some bytes ∧
        e = rowEntry r (offset + (lines.take j).flatten.length) bytes.length
          (sequence + j) := by
  induction rows generalizing offset sequence lines j with
  | nil => simp [entriesFrom]
  | cons r rows ih =>
    cases lines with
    | nil => simp [entriesFrom]
    | cons bytes lines =>
      rw [entriesFrom]
      cases j with
      | zero => simp [eq_comm]
      | succ j =>
        rw [List.getElem?_cons_succ, List.getElem?_cons_succ,
          List.getElem?_cons_succ, ih, List.take_succ_cons,
          List.flatten_cons, List.length_append, Nat.add_assoc offset,
          Nat.add_assoc sequence, Nat.add_comm 1 j]

theorem mem_current {rows : List Json} (hrows : ∀ r ∈ rows, IsRow r)
    {lines : List Bytes} (hlength : lines.length = rows.length)
    (offset sequence : Nat) (e : String × Item × String) :
    e ∈ lastPerKey (entriesFrom offset sequence rows lines) ↔
      ∃ j r bytes, Current rows j r ∧ lines[j]? = some bytes ∧
        e = rowEntry r (offset + (lines.take j).flatten.length) bytes.length
          (sequence + j) := by
  rw [mem_lastPerKey]
  constructor
  · rintro ⟨j, hj, hlast⟩
    obtain ⟨r, bytes, hr, hbytes, rfl⟩ := (getElem?_entriesFrom ..).1 hj
    refine ⟨j, r, bytes, ⟨hr, fun k later hlt hk => ?_⟩, hbytes, rfl⟩
    have hin : k < lines.length := by
      rw [hlength]
      exact (List.getElem?_eq_some_iff.1 hk).1
    rw [← rowKey_ne_iff (hrows later (List.mem_of_getElem? hk))
      (hrows r (List.mem_of_getElem? hr))]
    exact hlast k _ hlt ((getElem?_entriesFrom ..).2
      ⟨later, lines[k], hk, List.getElem?_eq_getElem hin, rfl⟩)
  · rintro ⟨j, r, bytes, ⟨hr, hlast⟩, hbytes, rfl⟩
    refine ⟨j, (getElem?_entriesFrom ..).2 ⟨r, bytes, hr, hbytes, rfl⟩, ?_⟩
    intro k later hlt hk
    obtain ⟨s, _, hs, -, rfl⟩ := (getElem?_entriesFrom ..).1 hk
    exact (rowKey_ne_iff (hrows s (List.mem_of_getElem? hs))
      (hrows r (List.mem_of_getElem? hr))).2 (hlast k s hlt hs)

theorem mem_items (s : Load) (item : Item) :
    item ∈ s.items ↔ ∃ e ∈ s.latest, e.2.1 = item ∧
      (e.2.1.connection = none ∨
        ∀ d ∈ s.latest, d.2.1.connection = none → d.2.2 ≠ e.2.2) := by
  rw [Load.items, List.mem_mergeSort, List.mem_map]
  constructor
  · rintro ⟨e, he, rfl⟩
    rw [List.mem_filter] at he
    refine ⟨e, he.1, rfl, ?_⟩
    have hshown := he.2
    rw [Bool.or_eq_true, Option.isNone_iff_eq_none] at hshown
    refine hshown.imp_right fun hnone d hd hsession heq => ?_
    rw [Bool.not_eq_true', List.contains_eq_mem,
      decide_eq_false_iff_not] at hnone
    refine hnone (List.mem_map.2 ⟨d, List.mem_filter.2 ⟨hd, ?_⟩, heq⟩)
    rw [hsession]
    rfl
  · rintro ⟨e, he, rfl, hshown⟩
    refine ⟨e, List.mem_filter.2 ⟨he, ?_⟩, rfl⟩
    rw [Bool.or_eq_true, Option.isNone_iff_eq_none]
    refine hshown.imp_right fun hnone => ?_
    rw [Bool.not_eq_true', List.contains_eq_mem, decide_eq_false_iff_not]
    intro hmem
    obtain ⟨d, hd, heq⟩ := List.mem_map.1 hmem
    rw [List.mem_filter, Option.isNone_iff_eq_none] at hd
    exact hnone d hd.1 hd.2 heq

theorem itemOf_connection (r : Json) (offset length sequence : Nat) :
    (itemOf r offset length sequence).connection = none ↔ isConnection r = false := by
  rw [itemOf]
  cases isConnection r <;> simp

theorem sequences_entriesFrom (offset sequence : Nat) (rows : List Json)
    (lines : List Bytes) :
    ((entriesFrom offset sequence rows lines).map fun e => e.2.1.sequence) =
      List.range' sequence (entriesFrom offset sequence rows lines).length := by
  induction rows generalizing offset sequence lines with
  | nil => simp [entriesFrom]
  | cons r rows ih =>
    cases lines with
    | nil => simp [entriesFrom]
    | cons bytes lines =>
      rw [entriesFrom, List.map_cons, ih, List.length_cons, List.range'_succ]
      rfl

theorem items_nodup (offset sequence : Nat) (rows : List Json)
    (lines : List Bytes) :
    (loadedAt (entriesFrom offset sequence rows lines) 0 0).items.Nodup := by
  have hsequences : ((lastPerKey (entriesFrom offset sequence rows lines)).map
      fun e => e.2.1.sequence).Nodup := by
    refine ((lastPerKey_sublist _).map _).nodup ?_
    rw [sequences_entriesFrom]
    exact List.nodup_range'
  rw [Load.items, (List.mergeSort_perm _ _).nodup_iff]
  refine List.Nodup.of_map Item.sequence ?_
  rw [List.map_map]
  exact (List.filter_sublist.map _).nodup hsequences

theorem items_sorted (s : Load) :
    s.items.Pairwise fun a b => a.rank ≤ b.rank := by
  refine (List.pairwise_mergeSort ?_ ?_ _).imp fun h => of_decide_eq_true h
  · intro a b c hab hbc
    exact decide_eq_true ((of_decide_eq_true hab).trans (of_decide_eq_true hbc))
  · intro a b
    rw [Bool.or_eq_true, decide_eq_true_iff, decide_eq_true_iff]
    exact le_total a.rank b.rank

variable {values : List Json}

theorem line_getElem {lib : Serde} {sequence : Nat} {lines : List Bytes}
    (h : linesFrom lib sequence values = .ok lines)
    (hlib : AllReadBack lib sequence values) {j : Nat} {v : Json} {bytes : Bytes}
    (hv : values[j]? = some v) (hbytes : lines[j]? = some bytes) :
    line lib (sequence + j) v = .ok bytes ∧
      ReadsBack lib (envelope lib (sequence + j) v) := by
  induction values generalizing sequence lines j with
  | nil => cases hv
  | cons w values ih =>
    obtain ⟨first, rest, rfl, hline, hrest⟩ := linesFrom_cons h
    cases j with
    | zero =>
      cases hv
      cases hbytes
      exact ⟨hline, hlib.1⟩
    | succ j =>
      rw [← Nat.add_assoc, Nat.add_right_comm]
      exact ih hrest hlib.2 hv hbytes

theorem readAt_line {lib : Serde} {lines : List Bytes}
    (h : linesFrom lib 0 values = .ok lines) (hlib : AllReadBack lib 0 values)
    {j : Nat} {v : Json} {bytes : Bytes} (hv : values[j]? = some v)
    (hbytes : lines[j]? = some bytes) :
    readAt lib lines.flatten (lines.take j).flatten.length bytes.length j =
      .ok v := by
  obtain ⟨hline, hback⟩ := line_getElem h hlib hv hbytes
  rw [Nat.zero_add] at hline hback
  obtain ⟨hlt, rfl⟩ := List.getElem?_eq_some_iff.1 hbytes
  have hfile : lines.flatten = (lines.take j).flatten ++
      (lines[j] ++ (lines.drop (j + 1)).flatten) := by
    rw [← List.flatten_cons, List.getElem_cons_drop, ← List.flatten_append,
      List.take_append_drop]
  have htaken : (lines.flatten.drop (lines.take j).flatten.length).take
      lines[j].length = lines[j] := by
    rw [hfile, List.drop_left, List.take_left]
  rw [readAt, if_neg (Nat.not_lt.2 (line_eq hline).2)]
  dsimp only
  rw [htaken, if_neg (Nat.lt_irrefl _)]
  exact decode_line hline hback

/-! ## The sealed file as a whole -/

/-- What the list holds for row `j`. -/
def itemAt (lines : List Bytes) (j : Nat) (r : Json) (bytes : Bytes) : Item :=
  itemOf r (lines.take (j + 1)).flatten.length bytes.length (j + 1)

/-- The list shows row `j`, which is `r`, as this item. -/
def Lists (rows : List Json) (lines : List Bytes) (item : Item) (r : Json) :
    Prop :=
  ∃ j bytes, Shown rows j r ∧ lines[j + 1]? = some bytes ∧
    item = itemAt lines j r bytes

theorem mem_entries {lib : Serde} {rows : List Json} {first last : Bytes}
    {middle : List Bytes} (h : Sealed lib rows first middle last)
    (e : String × Item × String) :
    e ∈ lastPerKey (fileEntries rows first middle) ↔
      ∃ j r bytes, Current rows j r ∧
        (first :: (middle ++ [last]))[j + 1]? = some bytes ∧
        e = (rowKey r, itemAt (first :: (middle ++ [last])) j r bytes,
          connectionOf r) := by
  have hlength := length_linesFrom h.rowLines
  rw [fileEntries, mem_current h.isRow hlength]
  refine exists_congr fun j => exists_congr fun r => exists_congr fun bytes =>
    and_congr_right fun hcurrent => ?_
  have hlt : j < middle.length := by
    rw [hlength]
    exact (List.getElem?_eq_some_iff.1 hcurrent.1).1
  rw [List.getElem?_cons_succ, List.getElem?_append_left hlt, itemAt,
    List.take_succ_cons, List.flatten_cons, List.length_append,
    List.take_append_of_le_length hlt.le, rowEntry, Nat.add_comm 1]

theorem mem_sealed_items {lib : Serde} {rows : List Json} {first last : Bytes}
    {middle : List Bytes} (h : Sealed lib rows first middle last)
    (item : Item) :
    item ∈ (loadedAt (fileEntries rows first middle) 0 0).items ↔
      ∃ r, Lists rows (first :: (middle ++ [last])) item r := by
  rw [mem_items]
  change (∃ e ∈ lastPerKey (fileEntries rows first middle), _ ∧ (_ ∨
    ∀ d ∈ lastPerKey (fileEntries rows first middle), _)) ↔ _
  constructor
  · rintro ⟨e, he, rfl, hshown⟩
    obtain ⟨j, r, bytes, hcurrent, hbytes, rfl⟩ := (mem_entries h e).1 he
    refine ⟨r, j, bytes, ⟨hcurrent, ?_⟩, hbytes, rfl⟩
    rintro hconnection ⟨k, session, hsession, hkind, hsame⟩
    rcases hshown with hnone | hnone
    · rw [itemAt, itemOf_connection, hconnection] at hnone
      cases hnone
    · obtain ⟨bytes', hbytes'⟩ : ∃ b,
          (first :: (middle ++ [last]))[k + 1]? = some b := by
        have hlt := (List.getElem?_eq_some_iff.1 hsession.1).1
        have hlength := length_linesFrom h.rowLines
        exact ⟨_, List.getElem?_eq_getElem (by simp; omega)⟩
      exact hnone _ ((mem_entries h _).2
        ⟨k, session, bytes', hsession, hbytes', rfl⟩)
        ((itemOf_connection ..).2 hkind) hsame
  · rintro ⟨r, j, bytes, ⟨hcurrent, hshown⟩, hbytes, rfl⟩
    refine ⟨_, (mem_entries h _).2 ⟨j, r, bytes, hcurrent, hbytes, rfl⟩, rfl, ?_⟩
    cases hconnection : isConnection r with
    | false => exact .inl ((itemOf_connection ..).2 hconnection)
    | true =>
      refine .inr fun d hd hkind hsame => hshown hconnection ?_
      obtain ⟨k, session, bytes', hsession, -, rfl⟩ := (mem_entries h d).1 hd
      exact ⟨k, session, hsession, (itemOf_connection ..).1 hkind, hsame⟩

theorem keys_fileEntries {lib : Serde} {rows : List Json} {first last : Bytes}
    {middle : List Bytes} (h : Sealed lib rows first middle last) :
    (fileEntries rows first middle).map Prod.fst = rows.map rowKey := by
  have hkeys : ∀ (rows : List Json) (lines : List Bytes) (offset sequence : Nat),
      lines.length = rows.length →
      (entriesFrom offset sequence rows lines).map Prod.fst = rows.map rowKey := by
    intro rows
    induction rows with
    | nil => intros; simp [entriesFrom]
    | cons r rows ih =>
      intro lines offset sequence hlength
      cases lines with
      | nil => cases hlength
      | cons bytes lines =>
        rw [entriesFrom, List.map_cons, List.map_cons,
          ih _ _ _ (Nat.succ.inj hlength)]
        rfl
  exact hkeys _ _ _ _ (length_linesFrom h.rowLines)

theorem lists_readAt {lib : Serde} {rows : List Json} {lines : List Bytes}
    (hlines : linesFrom lib 0 (sealedIndex rows) = .ok lines)
    (hlib : AllReadBack lib 0 (sealedIndex rows)) {item : Item} {r : Json}
    (h : Lists rows lines item r) :
    readAt lib lines.flatten item.offset item.length item.sequence = .ok r := by
  obtain ⟨j, bytes, ⟨⟨hr, -⟩, -⟩, hbytes, rfl⟩ := h
  refine readAt_line hlines hlib ?_ hbytes
  have hlt := (List.getElem?_eq_some_iff.1 hr).1
  rw [sealedIndex, List.getElem?_cons_succ, List.getElem?_append_left hlt, hr]

theorem loadIndex_many {lib : Serde} {rows : List Json} {lines : List Bytes}
    (hlines : linesFrom lib 0 (sealedIndex rows) = .ok lines)
    (hlib : AllReadBack lib 0 (sealedIndex rows))
    (hrows : ∀ r ∈ rows, IsRow r)
    (hmany : maxSessions < (rows.map rowKey).toFinset.card) :
    loadIndex lib lines.flatten = .error tooMany := by
  obtain ⟨first, middle, last, rfl, h⟩ := sealed_lines hlines hlib hrows
  rw [loadIndex_sealed h, length_lastPerKey, keys_fileEntries h, if_pos hmany]

/--
The lines of rows, behind the header and before the end marker, are loaded
when the rows have at most two million keys.  The list then shows, once each
and in order, the last row of every key without the connections for which a
session stands, and every item reads back its row.  With more keys the file is
refused, and so is every proper part of it from the start.
-/
theorem sealed_index_loads {lib : Serde} {rows : List Json}
    {lines : List Bytes}
    (hlines : linesFrom lib 0 (sealedIndex rows) = .ok lines)
    (hlib : AllReadBack lib 0 (sealedIndex rows))
    (hrows : ∀ r ∈ rows, IsRow r) :
    ((rows.map rowKey).toFinset.card ≤ maxSessions →
      ∃ items, loadIndex lib lines.flatten = .ok items ∧ items.Nodup ∧
        (items.Pairwise fun a b => a.rank ≤ b.rank) ∧
        (∀ item, item ∈ items ↔ ∃ r, Lists rows lines item r) ∧
        ∀ item r, Lists rows lines item r →
          readAt lib lines.flatten item.offset item.length item.sequence = .ok r) ∧
    (maxSessions < (rows.map rowKey).toFinset.card →
      loadIndex lib lines.flatten = .error tooMany) ∧
    ∀ part, part <+: lines.flatten → part ≠ lines.flatten →
      ∃ e, loadIndex lib part = .error e := by
  refine ⟨fun hfew => ?_, fun hmany => ?_, fun part hpart hcut => ?_⟩
  · have hread : ∀ item r, Lists rows lines item r → readAt lib lines.flatten
        item.offset item.length item.sequence = .ok r :=
      fun item r => lists_readAt hlines hlib
    obtain ⟨first, middle, last, rfl, h⟩ := sealed_lines hlines hlib hrows
    refine ⟨_, ?_, items_nodup first.length 1 rows middle, items_sorted _,
      mem_sealed_items h, hread⟩
    rw [loadIndex_sealed h, length_lastPerKey, keys_fileEntries h,
      if_neg (Nat.not_lt.2 hfew)]
    rfl
  · exact loadIndex_many hlines hlib hrows hmany
  · refine loadIndex_prefix hlines hlib (fun v hv => ?_) hpart hcut
    rw [sealedIndex, ← List.cons_append, List.dropLast_concat] at hv
    rcases List.mem_cons.1 hv with rfl | hv
    · rfl
    · exact (hrows v hv).no_end

/-! ## A library for given values -/

def textSerde (values : List Json) : Serde :=
  let print : Serde := ⟨Json.compact, Json.compact, fun _ => none⟩
  { print with
    parse := Json.lookup (values.zipIdx.map fun p => envelope print p.2 p.1) }

private theorem envelope_textSerde (values : List Json) (sequence : Nat) (v : Json) :
    envelope (textSerde values) sequence v =
      .obj [("checksum", .str (checksum v.compact)), ("record", v),
        ("sequence", .num sequence)] := by
  rw [envelope, Json.object]
  simp +decide only [List.foldl, Json.insertField, if_pos, if_neg]
  rfl

theorem text_envelope (values : List Json) (sequence : Nat) (v : Json) :
    (envelope (textSerde values) sequence v).text =
      ("\x7b\"checksum\":".toList ++ Json.quoted (checksum v.compact) ++
        ",\"record\":".toList ++ v.text ++ ",\"sequence\"".toList) ++
        ':' :: (Nat.toDigits 10 sequence ++ ['}']) := by
  rw [envelope_textSerde]
  simp [Json.text, Json.textFields, Json.quoted, Json.signed, Json.escape]

theorem digits_of_text {before before' : List Char} {m n : Nat}
    (h : before ++ ':' :: (Nat.toDigits 10 m ++ ['}']) =
      before' ++ ':' :: (Nat.toDigits 10 n ++ ['}'])) : m = n := by
  have hdigits : ∀ (before : List Char) (n : Nat),
      ((before ++ ':' :: (Nat.toDigits 10 n ++ ['}'])).reverse.drop 1).takeWhile
        Char.isDigit = (Nat.toDigits 10 n).reverse := by
    intro before n
    rw [show (before ++ ':' :: (Nat.toDigits 10 n ++ ['}'])).reverse.drop 1 =
      (Nat.toDigits 10 n).reverse ++ ':' :: before.reverse by simp,
      List.takeWhile_append_of_pos, List.takeWhile_cons_of_neg (by decide),
      List.append_nil]
    intro c hc
    exact Nat.isDigit_of_mem_toDigits (by decide) (by decide) (List.mem_reverse.1 hc)
  have hsame : (Nat.toDigits 10 m).reverse = (Nat.toDigits 10 n).reverse := by
    rw [← hdigits before m, h, hdigits]
  have hnumber := congrArg (Nat.ofDigitChars 10 · 0) (List.reverse_inj.1 hsame)
  rwa [Nat.ofDigitChars_ten_toDigits, Nat.ofDigitChars_ten_toDigits] at hnumber

theorem textSerde_readsBack {sequence : Nat} {v : Json}
    (hv : values[sequence]? = some v) :
    ReadsBack (textSerde values) (envelope (textSerde values) sequence v) := by
  refine ⟨Json.newline_notMem_compact _, Json.lookup_compact ?_ ?_⟩
  · refine List.mem_map.2 ⟨(v, sequence), ?_, rfl⟩
    rwa [List.mk_mem_zipIdx_iff_getElem?]
  · intro w hw htext
    obtain ⟨⟨x, n⟩, hx, rfl⟩ := List.mem_map.1 hw
    have hn : n = sequence := by
      refine digits_of_text
        (((text_envelope values n x).symm.trans htext).trans
          (text_envelope values sequence v))
    rw [List.mk_mem_zipIdx_iff_getElem?, hn, hv] at hx
    cases hx
    rw [hn]
    rfl

theorem allReadBack_of_getElem {lib : Serde}
    {sequence : Nat} (h : ∀ j v, values[j]? = some v →
      ReadsBack lib (envelope lib (sequence + j) v)) :
    AllReadBack lib sequence values := by
  induction values generalizing sequence with
  | nil => trivial
  | cons v values ih =>
    refine ⟨h 0 v rfl, ih fun j w hw => ?_⟩
    rw [Nat.add_assoc, Nat.add_comm 1]
    exact h (j + 1) w hw

theorem textSerde_allReadBack (values : List Json) :
    AllReadBack (textSerde values) 0 values :=
  allReadBack_of_getElem fun j v hv => by
    rw [Nat.zero_add]
    exact textSerde_readsBack hv

theorem linesFrom_of_fits {lib : Serde} {sequence : Nat}
    (h : ∀ j v, values[j]? = some v →
      (lib.print (envelope lib (sequence + j) v)).length < lineLimit) :
    ∃ lines, linesFrom lib sequence values = .ok lines := by
  induction values generalizing sequence with
  | nil => exact ⟨[], rfl⟩
  | cons v values ih =>
    have hv := h 0 v rfl
    obtain ⟨lines, hlines⟩ :
        ∃ lines, linesFrom lib (sequence + 1) values = .ok lines := by
      refine ih fun j w hw => ?_
      rw [Nat.add_assoc, Nat.add_comm 1]
      exact h (j + 1) w hw
    have hline : line lib sequence v =
        .ok (lib.print (envelope lib sequence v) ++ [newline]) := by
      rw [line, if_neg]
      rw [List.length_append, List.length_singleton]
      exact Nat.not_lt.2 hv
    exact ⟨_ :: lines, by rw [linesFrom, hline, hlines]; rfl⟩

theorem length_checksum (bytes : Bytes) : (checksum bytes).toList.length = 16 := by
  have hdigits : ∀ n : UInt64, (Nat.toDigits 16 n.toNat).length ≤ 16 := fun n =>
    Nat.toDigits_length 16 n.toNat 16 (by decide) n.toNat_lt
  simp only [checksum, hex16, String.toList_ofList, List.length_append,
    List.length_replicate]
  exact Nat.sub_add_cancel (hdigits _)

theorem length_line_le {sequence : Nat} (v : Json)
    (hsequence : sequence < 10 ^ 20) :
    ((textSerde values).print
      (envelope (textSerde values) sequence v)).length ≤
        4 * (v.text.length + 160) := by
  have hdigits := Nat.toDigits_length 10 sequence 20 (by decide) hsequence
  have hchecksum := Json.length_quoted_le (checksum v.compact)
  rw [length_checksum] at hchecksum
  refine (Json.length_compact_le _).trans (Nat.mul_le_mul_left 4 ?_)
  rw [text_envelope]
  simp only [List.length_append, List.length_cons, List.length_nil]
  have h1 : "\x7b\"checksum\":".toList.length = 12 := by decide
  have h2 : ",\"record\":".toList.length = 10 := by decide
  have h3 : ",\"sequence\"".toList.length = 11 := by decide
  omega

/-! ## More than two million sessions -/

def dnsRecord (id : Nat) : Json :=
  .object [("format", .str "ProxyLaneSession"), ("version", .num 2),
    ("type", .str "dns"), ("cache_id", .num id)]

def dnsRow (id : Nat) : Json :=
  .obj [("cache_id", .num id), ("detail_file", .str (sessionRelative id)),
    ("exchange", .null), ("format", .str "ProxyLaneSession"),
    ("stream", .null), ("summary", .null), ("type", .str "dns"),
    ("version", .num 2)]

theorem asNat_num {n : Nat} (h : n < 10 ^ 19) :
    (Json.num n).asNat = some n := by
  rw [Json.asNat, if_pos ⟨by omega, by omega⟩]
  rfl

variable {id : Nat}

theorem fullSummary_dnsRecord (h : id < 10 ^ 19) :
    fullSummary (dnsRecord id) = dnsRow id := by
  have hrecord : dnsRecord id = .obj [("cache_id", .num id),
      ("format", .str "ProxyLaneSession"), ("type", .str "dns"),
      ("version", .num 2)] := by
    rw [dnsRecord, Json.object]
    simp +decide only [List.foldl, Json.insertField, if_pos, if_neg]
  rw [hrecord, fullSummary, dnsRow]
  simp +decide [Json.get?_obj_cons, Json.get?_obj_nil, select, Json.get,
    Json.set, Json.isObject, Json.isStr, exchangeSummary, streamSummary,
    Json.asStr, asNat_num h]
  simp +decide only [Json.insertField, if_pos, if_neg]

theorem length_sessionRelative_le (h : id < 10 ^ 19) :
    (sessionRelative id).toList.length ≤ 76 := by
  have hpadded : ∀ width n : Nat, width ≤ 12 → n < 10 ^ 19 →
      (padded width n).toList.length ≤ 31 := by
    intro width n hwidth hn
    have hdigits := Nat.toDigits_length 10 n 19 (by decide) hn
    have hlength : (toString n).length = (Nat.toDigits 10 n).length := by
      rw [Nat.toString_eq_ofList_toDigits, String.length_ofList]
    simp only [padded, String.toList_append, String.toList_ofList,
      List.length_append, List.length_replicate, String.length_toList]
    omega
  have hbucket := hpadded 6 (id / 1000) (by omega) (by omega)
  have hid := hpadded 12 id (by omega) h
  have h1 : "payload/".toList.length = 8 := by decide
  have h2 : "/".toList.length = 1 := by decide
  have h3 : ".json".toList.length = 5 := by decide
  simp only [sessionRelative, String.toList_append, List.length_append]
  omega

theorem summary_dnsRecord (h : id < 10 ^ 19) :
    summary (dnsRecord id) = some (dnsRow id) := by
  have hlisted : listed (dnsRecord id) = true := by
    simp +decide [listed, dnsRecord, Json.object, Json.get,
      Json.get?_obj_insertField, Json.isStr, Json.asStr]
  have hsize := Json.utf8ByteSize_le (sessionRelative id)
  have hlength := length_sessionRelative_le h
  have hshort : ∀ s : String, s.utf8ByteSize ≤ 4096 → truncated s = s :=
    fun s hs => if_neg (Nat.not_lt.2 hs)
  rw [summary, if_pos hlisted, fullSummary_dnsRecord h, dnsRow]
  simp only [bound, boundFields]
  rw [hshort _ (by omega), hshort "ProxyLaneSession" (by decide),
    hshort "dns" (by decide)]

theorem key_dnsRow (hpos : 0 < id) (h : id < 10 ^ 19) :
    key (dnsRow id) = .ok ("s:" ++ toString id) := by
  have hget : ∀ name x, (dnsRow id).get? name = some x →
      (dnsRow id).get name = x := fun name x hx => by rw [Json.get, hx]; rfl
  have hformat := hget "format" (.str "ProxyLaneSession")
    (by simp +decide [dnsRow, Json.get?_obj_cons])
  have hversion := hget "version" (.num 2)
    (by simp +decide [dnsRow, Json.get?_obj_cons])
  have htype := hget "type" (.str "dns")
    (by simp +decide [dnsRow, Json.get?_obj_cons])
  have hcache := hget "cache_id" (.num id)
    (by simp +decide [dnsRow, Json.get?_obj_cons])
  rw [key, hformat, hversion, htype, hcache, if_neg (by decide),
    if_neg (by decide), if_pos (by decide), asNat_num h]
  cases id with
  | zero => omega
  | succ n => rfl

theorem dnsRow_isRow (hpos : 0 < id) (h : id < 10 ^ 19) :
    IsRow (dnsRow id) :=
  ⟨⟨_, summary_dnsRecord h⟩, _, key_dnsRow hpos h⟩

theorem length_dnsRow_le (h : id < 10 ^ 19) :
    (dnsRow id).text.length ≤ 640 := by
  have htwo : Nat.toDigits 10 2 = ['2'] := by decide
  have htext : (dnsRow id).text = "\x7b\"cache_id\":".toList ++
      Nat.toDigits 10 id ++ ",\"detail_file\":".toList ++
      Json.quoted (sessionRelative id) ++
      (",\"exchange\":null,\"format\":\"ProxyLaneSession\"," ++
        "\"stream\":null,\"summary\":null,\"type\":\"dns\"," ++
        "\"version\":2\x7d").toList := by
    simp [dnsRow, Json.text, Json.textFields, Json.quoted, Json.signed,
      Json.escape, htwo]
  have hdigits := Nat.toDigits_length 10 id 19 (by decide) h
  have hdetail := Json.length_quoted_le (sessionRelative id)
  have hrelative := length_sessionRelative_le h
  have h1 : "\x7b\"cache_id\":".toList.length = 12 := by decide
  have h2 : ",\"detail_file\":".toList.length = 15 := by decide
  have h3 : (",\"exchange\":null,\"format\":\"ProxyLaneSession\"," ++
      "\"stream\":null,\"summary\":null,\"type\":\"dns\"," ++
      "\"version\":2\x7d").toList.length = 99 := by decide
  rw [htext]
  simp only [List.length_append]
  omega

def dnsRows (count : Nat) : List Json :=
  (List.range count).map fun i => dnsRow (i + 1)

theorem dnsRows_isRow (count : Nat) (hcount : count < 10 ^ 19) :
    ∀ r ∈ dnsRows count, IsRow r := by
  intro r hr
  obtain ⟨i, hi, rfl⟩ := List.mem_map.1 hr
  rw [List.mem_range] at hi
  exact dnsRow_isRow (Nat.succ_pos i) (by omega)

theorem session_key_injective {i j : Nat}
    (h : "s:" ++ toString i = "s:" ++ toString j) : i = j := by
  have hdigits := congrArg String.toList h
  rw [String.toList_append, String.toList_append, List.append_right_inj,
    Nat.toString_eq_ofList_toDigits, Nat.toString_eq_ofList_toDigits,
    String.toList_ofList, String.toList_ofList] at hdigits
  rw [← Nat.ofDigitChars_ten_toDigits (n := i), hdigits,
    Nat.ofDigitChars_ten_toDigits]

theorem card_dnsRows {count : Nat} (hcount : count < 10 ^ 19) :
    ((dnsRows count).map rowKey).toFinset.card = count := by
  have hkey : ∀ i < count, rowKey (dnsRow (i + 1)) =
      "s:" ++ toString (i + 1) := fun i hi =>
    rowKey_of_key (key_dnsRow (Nat.succ_pos i) (by omega))
  have hnodup : ((dnsRows count).map rowKey).Nodup := by
    rw [dnsRows, List.map_map]
    refine List.Nodup.map_on (fun i hi j hj heq => ?_) List.nodup_range
    rw [List.mem_range] at hi hj
    rw [Function.comp_apply, Function.comp_apply, hkey i hi, hkey j hj] at heq
    exact Nat.succ.inj (session_key_injective heq)
  rw [List.toFinset_card_of_nodup hnodup, List.length_map, dnsRows,
    List.length_map, List.length_range]

theorem dnsRows_lines (count : Nat) (hcount : count < 10 ^ 18) :
    ∃ lines, linesFrom (textSerde (sealedIndex (dnsRows count))) 0
      (sealedIndex (dnsRows count)) = .ok lines := by
  refine linesFrom_of_fits fun j v hv => ?_
  have hlength : (sealedIndex (dnsRows count)).length = count + 2 := by
    simp [sealedIndex, dnsRows]
  have hj := (List.getElem?_eq_some_iff.1 hv).1
  have htext : v.text.length ≤ 640 := by
    have hv := List.mem_of_getElem? hv
    rw [sealedIndex, List.mem_cons, List.mem_append, List.mem_singleton] at hv
    rcases hv with rfl | hv | rfl
    · decide
    · obtain ⟨i, hi, rfl⟩ := List.mem_map.1 hv
      rw [List.mem_range] at hi
      exact length_dnsRow_le (by omega)
    · have hdigits := Nat.toDigits_length 10 ((dnsRows count).length + 1) 19
        (by decide) (by simp [dnsRows]; omega)
      simp only [endMarker, Json.object, List.foldl, Json.insertField,
        Json.text, Json.textFields, Json.signed]
      rw [if_pos List.isEmpty_nil]
      have hkey : (Json.quoted "end").length = 5 := by decide
      simp only [List.length_cons, List.length_append, List.length_nil, hkey]
      omega
  refine Nat.lt_of_le_of_lt (length_line_le v (by omega)) ?_
  rw [lineLimit]
  omega

theorem too_many_sessions_refused :
    ¬ ∀ (lib : Serde) (rows : List Json) (lines : List Bytes),
      linesFrom lib 0 (sealedIndex rows) = .ok lines →
      AllReadBack lib 0 (sealedIndex rows) → (∀ r ∈ rows, IsRow r) →
      ∃ items, loadIndex lib lines.flatten = .ok items := by
  intro h
  have hsmall : maxSessions + 1 < 10 ^ 18 := by decide
  obtain ⟨lines, hlines⟩ := dnsRows_lines _ hsmall
  have hlib := textSerde_allReadBack (sealedIndex (dnsRows (maxSessions + 1)))
  have hrows := dnsRows_isRow (maxSessions + 1) (by omega)
  have hmany : maxSessions <
      ((dnsRows (maxSessions + 1)).map rowKey).toFinset.card := by
    rw [card_dnsRows (by omega)]
    exact Nat.lt_succ_self _
  obtain ⟨items, hitems⟩ := h _ _ lines hlines hlib hrows
  rw [loadIndex_many hlines hlib hrows hmany] at hitems
  cases hitems

def recorded (type : String) (id : Nat) : Json :=
  .object [("cache_id", .num id), ("connection", .obj [("id", .str "a")]),
    ("format", .str "ProxyLaneSession"), ("type", .str type), ("version", .num 2)]

/-- A connection, a session that stands for it, and the session once more. -/
def repeatedRows : List Json :=
  [recorded "dns" 7, recorded "connection" 0, recorded "dns" 7].filterMap summary

theorem repeatedRows_isRow : ∀ r ∈ repeatedRows, IsRow r := by
  have hkeys : ∀ r ∈ repeatedRows, (key r).toOption.isSome = true := by
    decide +kernel
  intro r hr
  obtain ⟨v, -, hv⟩ := List.mem_filterMap.1 hr
  obtain ⟨k, hk⟩ := Option.isSome_iff_exists.1 (hkeys r hr)
  refine ⟨⟨v, hv⟩, k, ?_⟩
  cases h : key r <;> simp_all [Except.toOption]

def repeatedItems : Option (List Nat) :=
  let lib := textSerde (sealedIndex repeatedRows)
  (linesFrom lib 0 (sealedIndex repeatedRows)).toOption.bind fun lines =>
    (loadIndex lib lines.flatten).toOption.map (·.map Item.sequence)

theorem sealed_index_loads_sample :
    ∃ lines items, linesFrom (textSerde (sealedIndex repeatedRows)) 0
        (sealedIndex repeatedRows) = .ok lines ∧
      loadIndex (textSerde (sealedIndex repeatedRows)) lines.flatten =
        .ok items ∧ items.Nodup ∧ items.map Item.sequence = [3] := by
  have hloaded : repeatedItems = some [3] := by decide +kernel
  have hfew : (repeatedRows.map rowKey).toFinset.card ≤ maxSessions := by
    decide +kernel
  unfold repeatedItems at hloaded
  cases hlines : linesFrom (textSerde (sealedIndex repeatedRows)) 0
      (sealedIndex repeatedRows) with
  | error e => simp [hlines, Except.toOption] at hloaded
  | ok lines =>
    obtain ⟨items, hitems, hnodup, -⟩ := (sealed_index_loads hlines
      (textSerde_allReadBack _) repeatedRows_isRow).1 hfew
    refine ⟨lines, items, rfl, hitems, hnodup, ?_⟩
    simpa [hlines, hitems, Except.toOption] using hloaded

end ProxyLane.Recording
