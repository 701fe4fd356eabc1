import ProxyLane.Recording.BodyDecode

/-!
# The two ways of decoding a body

Both ways give what the engines make of the whole body, except that a reader
whose first slice is a single byte never takes its data for zlib.
-/

namespace ProxyLane.Recording

open ProxyLane.Foundation ProxyLane.Protocol

section Agreement

variable {e : Engines}

/-! ## Deflate at once -/

variable {room : Nat}

theorem call_output {s : e.State} {pending remaining : Bytes} {r : Call e.State}
    (h : e.inflate.call s pending room remaining = .ok r) (output : Bytes) :
    (e.inflate.whole s remaining).map (output ++ pending ++ ·) =
      (e.inflate.whole r.state r.rest).map
        (output ++ r.written ++ r.pending ++ ·) := by
  have hwhole := congrArg (Option.map (output ++ ·)) (Coder.call_whole h [])
  simpa [Option.map_map, Function.comp_def] using hwhole

def within (limit : Nat) (result : Option Bytes) : Option Bytes :=
  result.filter fun out => decide (out.length ≤ limit)

theorem within_some (limit : Nat) (out : Bytes) :
    within limit (some out) = if out.length ≤ limit then some out else none := by
  simp [within, Option.filter]

variable {limit : Nat}

theorem within_long {start : Bytes} (h : limit < start.length)
    (result : Option Bytes) (f : Bytes → Bytes) :
    within limit (result.map fun out => start ++ f out) = none := by
  cases result with
  | none => rfl
  | some out =>
    have hlong : ¬ (start ++ f out).length ≤ limit := by
      rw [List.length_append]
      omega
    rw [Option.map_some, within_some, if_neg hlong]

theorem deflateFrom_eq (limit : Nat) (s : e.State)
    (pending remaining output : Bytes) :
    (deflateFrom e limit s pending remaining output).toOption =
      within limit ((e.inflate.whole s remaining).map (output ++ pending ++ ·)) := by
  fun_induction deflateFrom e limit s pending remaining output with
  | case1 s pending remaining output message hcall =>
    have hwhole := Coder.call_error hcall []
    rw [List.append_nil] at hwhole
    simp [hwhole, Except.toOption, within]
  | case2 s pending remaining output r hcall hlong =>
    rw [call_output hcall]
    rw [← List.length_append] at hlong
    simp only [List.append_assoc _ r.pending]
    rw [within_long hlong]
    rfl
  | case3 s pending remaining output r hcall hfits hfinished hrest =>
    obtain ⟨hended, hpending⟩ := Coder.call_finished hcall hfinished
    rw [call_output hcall]
    have hlength : (output ++ r.written).length ≤ limit := by
      rw [List.length_append]
      omega
    simp only [hrest, Coder.whole_ended hended, if_true, hpending,
      Option.map_some, List.append_nil, within_some, hlength]
    rfl
  | case4 s pending remaining output r hcall hfits hfinished hrest =>
    obtain ⟨hended, hpending⟩ := Coder.call_finished hcall hfinished
    rw [call_output hcall]
    simp [Coder.whole_ended hended, hrest, Except.toOption, within]
  | case5 s pending remaining output r hcall hfits hfinished hidle =>
    obtain ⟨-, -, hend⟩ := Coder.call_idle hcall (by omega) hidle.2
    obtain ⟨hrest, hended⟩ := hend (Bool.eq_false_iff.mpr hfinished)
    rw [call_output hcall]
    simp [hrest, Coder.whole_nil hended, Except.toOption, within]
  | case6 s pending remaining output r hcall hfits hfinished hidle ih =>
    rw [ih, call_output hcall]

theorem deflate_eq (input : Bytes) (zlib : Bool) (limit : Nat) :
    (deflate e input zlib limit).toOption =
      within limit (e.inflate.whole (e.start zlib) input) := by
  simp [deflate, deflateFrom_eq]

/-! ## Deflate by slices -/

def Deflate.total (d : Deflate e) : Option Bytes :=
  if d.failure = none then
    (e.inflate.whole d.state d.slices.flatten).map (d.pending ++ ·)
  else none

variable {d : Deflate e}

theorem total_failed (h : d.failure ≠ none) : d.total = none := by
  simp [Deflate.total, h]

variable {bytes : Bytes}

theorem flatten_eq {slices : List Bytes} {failure : Option String}
    (h : fillBuf slices failure = .ok bytes) :
    slices.flatten = bytes ++ slices.tail.flatten := by
  cases slices with
  | nil =>
    cases failure with
    | none =>
      simp only [fillBuf, Except.ok.injEq] at h
      simp [← h]
    | some message => cases h
  | cons first rest =>
    simp only [fillBuf, Except.ok.injEq] at h
    simp [← h]

theorem flatten_consume {slices : List Bytes} {failure : Option String}
    (h : fillBuf slices failure = .ok bytes) (used : Nat) :
    (consume used slices).flatten = bytes.drop used ++ slices.tail.flatten := by
  cases slices with
  | nil =>
    cases failure with
    | none =>
      simp only [fillBuf, Except.ok.injEq] at h
      simp [consume, ← h]
    | some message => cases h
  | cons first rest =>
    simp only [fillBuf, Except.ok.injEq] at h
    subst h
    simp only [consume]
    split
    · rename_i hnil
      simp [hnil]
    · simp

theorem total_after
    {r : Call e.State} (hfill : fillBuf d.slices d.failure = .ok bytes)
    (hcall : e.inflate.call d.state d.pending room bytes = .ok r) :
    d.total = (d.after hcall).total.map (r.written ++ ·) := by
  have hrest : bytes.drop (bytes.length - r.rest.length) = r.rest :=
    List.suffix_iff_eq_drop.mp (Coder.call_rest hcall) |>.symm
  have hwhole := Coder.call_whole hcall d.slices.tail.flatten
  by_cases hfailure : d.failure = none
  · simp only [Deflate.total, Deflate.after, hfailure, if_true,
      flatten_consume hfill, hrest, flatten_eq hfill, hwhole, Option.map_map,
      Function.comp_def, List.append_assoc]
  · simp [Deflate.total, Deflate.after, hfailure]

theorem finish_total (h : d.ended = true) :
    d.total = if d.slices = [] ∧ d.failure = none then some [] else none := by
  obtain ⟨hended, hpending⟩ := d.settled h
  have hfilled := d.filled
  have hempty : d.slices.flatten = [] ↔ d.slices = [] := by
    constructor
    · intro hnil
      cases hslices : d.slices with
      | nil => rfl
      | cons first rest =>
        rw [hslices] at hnil hfilled
        simp_all
    · intro hnil
      simp [hnil]
  by_cases hfailure : d.failure = none
  · simp only [Deflate.total, hfailure, if_true, Coder.whole_ended hended,
      hempty, hpending, and_true]
    split <;> rfl
  · simp [total_failed hfailure, hfailure]

theorem finish_error {message : String} (hended : d.ended = true)
    (h : d.finish = .error message) : d.total = none := by
  rw [finish_total hended, if_neg]
  intro hend
  have hok := finish_eq_ok.mpr ⟨hend.1, hend.2, rfl, rfl⟩
  rw [h] at hok
  cases hok

theorem finish_ok {d' : Deflate e} (hended : d.ended = true)
    (h : d.finish = .ok (bytes, d')) : bytes = [] ∧ d.total = some [] := by
  obtain ⟨hslices, hfailure, hbytes, -⟩ := finish_eq_ok.mp h
  exact ⟨hbytes, by rw [finish_total hended, if_pos ⟨hslices, hfailure⟩]⟩

theorem read_error {message : String}
    (hroom : 0 < room) (h : d.read room = .error message) : d.total = none := by
  fun_induction Deflate.read d room with
  | case1 d hended => exact finish_error hended h
  | case2 d hended message' hfill =>
    apply total_failed
    intro hnone
    cases hslices : d.slices <;> simp [hslices, hnone, fillBuf] at hfill
  | case3 d hended input hfill message' hcall =>
    have hwhole := Coder.call_error hcall d.slices.tail.flatten
    simp [Deflate.total, flatten_eq hfill, hwhole]
  | case4 d hended input hfill r hcall hwritten => cases h
  | case5 d hended input hfill r hcall hwritten hfinished =>
    rw [total_after hfill hcall, finish_error hfinished h]
    rfl
  | case6 d hended input hfill r hcall hwritten hfinished hused =>
    -- Nothing was taken, so nothing was left to take.
    obtain ⟨-, -, hend⟩ := Coder.call_idle hcall hroom (not_not.mp hwritten)
    obtain ⟨hrest, hmore⟩ := hend (Bool.eq_false_iff.mpr hfinished)
    have hinput : input = [] := by
      rw [hrest, List.length_nil, Nat.sub_zero] at hused
      exact List.length_eq_zero_iff.mp hused
    have htail : d.slices.tail.flatten = [] := by
      cases hslices : d.slices with
      | nil => rfl
      | cons first rest =>
        have hfilled := d.filled
        simp only [hslices, fillBuf, Except.ok.injEq] at hfill
        simp [hslices, hfill, hinput] at hfilled
    rw [total_after hfill hcall]
    simp [Deflate.total, Deflate.after, flatten_consume hfill, hinput, htail,
      Coder.whole_nil hmore]
  | case7 d hended input hfill r hcall hwritten hfinished hused ih =>
    rw [total_after hfill hcall, ih h]
    rfl

theorem read_ok {d' : Deflate e} (h : d.read room = .ok (bytes, d')) :
    (bytes = [] → d.total = some []) ∧ d.total = d'.total.map (bytes ++ ·) := by
  fun_induction Deflate.read d room with
  | case1 d hended =>
    obtain ⟨rfl, htotal⟩ := finish_ok hended h
    obtain ⟨-, -, -, rfl⟩ := finish_eq_ok.mp h
    simp [htotal]
  | case2 d hended message' hfill => cases h
  | case3 d hended input hfill message' hcall => cases h
  | case4 d hended input hfill r hcall hwritten =>
    simp only [Except.ok.injEq, Prod.mk.injEq] at h
    obtain ⟨rfl, rfl⟩ := h
    exact ⟨fun hnil => absurd hnil hwritten, total_after hfill hcall⟩
  | case5 d hended input hfill r hcall hwritten hfinished =>
    obtain ⟨rfl, htotal⟩ := finish_ok hfinished h
    obtain ⟨-, -, -, rfl⟩ := finish_eq_ok.mp h
    rw [total_after hfill hcall, not_not.mp hwritten]
    simp [htotal]
  | case6 d hended input hfill r hcall hwritten hfinished hused => cases h
  | case7 d hended input hfill r hcall hwritten hfinished hused ih =>
    obtain ⟨hend, htotal⟩ := ih h
    have hsame : d.total = (d.after hcall).total := by
      rw [total_after hfill hcall, not_not.mp hwritten]
      simp
    rw [hsame]
    exact ⟨hend, htotal⟩

theorem readToEnd_toOption (r : Reader) : r.readToEnd.toOption =
    if r.failure = none then some r.slices.flatten else none := by
  cases hfailure : r.failure <;>
    simp [Reader.readToEnd, hfailure, Except.toOption]

theorem drain_total (d : Deflate e) (room : Nat → Nat) (n : Nat)
    (hroom : ∀ n, 0 < room n) :
    (d.drain room n).readToEnd.toOption = d.total := by
  fun_induction Deflate.drain d room n with
  | case1 d n message hread =>
    rw [read_error (hroom n) hread]
    rfl
  | case2 d n d' hread =>
    rw [(read_ok hread).1 rfl]
    rfl
  | case3 d n bytes d' hread hbytes r ih =>
    rw [(read_ok hread).2, ← ih]
    simp only [readToEnd_toOption]
    split
    · simp
      rfl
    · rfl

/-! ## One coding -/

/-- One coding of a whole body, without the limits of `body`. -/
def plain (e : Engines) (encoding data : Bytes) : Option Bytes :=
  if encoding = ascii "identity" then some data
  else if encoding = ascii "gzip" ∨ encoding = ascii "x-gzip" then
    (e.gunzip data).toOption
  else if encoding = ascii "deflate" then
    e.inflate.whole (e.start (signature data)) data
  else if encoding = ascii "br" then
    (e.unbrotli data).toOption.bind fun (out, rest) =>
      if rest = [] then some out else none
  else if encoding = ascii "zstd" then (e.unzstd 27 data).toOption
  else none

/-- No limit of `body` is met: neither its length of what is decoded, nor its
window of zstd. -/
def Fits (e : Engines) (limit : Nat) : List Bytes → Bytes → Prop
  | [], _ => True
  | encoding :: rest, data =>
    (encoding = ascii "zstd" →
      (e.unzstd 23 data).toOption = (e.unzstd 27 data).toOption) ∧
    ∀ out, plain e encoding data = some out →
      out.length ≤ limit ∧ Fits e limit rest out

def Reader.first (r : Reader) : Bytes :=
  match r.slices with
  | bytes :: _ => bytes
  | [] => []

/-- The first slice tells what the whole would: it is long enough, or there is
no zlib, or the data are the same without it. -/
def Recognised (e : Engines) (r : Reader) : Prop :=
  r.failure ≠ none ∨ 2 ≤ r.first.length ∨
    signature r.slices.flatten = false ∨
    e.inflate.whole (e.start false) r.slices.flatten =
      e.inflate.whole (e.start true) r.slices.flatten

/-- Every reader of `Deflate` in the stack tells zlib from its first slice. -/
def Fine (e : Engines) : List (Bytes × Serving) → Reader → Prop
  | [], _ => True
  | (encoding, v) :: rest, r =>
    (encoding = ascii "deflate" → Recognised e r) ∧
      ∀ r', readerLayer e v encoding r = .ok r' → Fine e rest r'

theorem signature_short {data : Bytes} (h : data.length < 2) :
    signature data = false := by
  rcases data with _ | ⟨a, _ | ⟨b, rest⟩⟩
  · rfl
  · rfl
  · simp at h

variable {r : Reader}

theorem signature_first (h : 2 ≤ r.first.length) :
    signature r.first = signature r.slices.flatten := by
  unfold Reader.first at *
  cases hslices : r.slices with
  | nil => simp [hslices] at h
  | cons first rest =>
    rcases first with _ | ⟨a, _ | ⟨b, first⟩⟩
    · simp [hslices] at h
    · simp [hslices] at h
    · rfl

theorem new_eq {first : Bytes} (h : fillBuf r.slices r.failure = .ok first) :
    ∃ d, Deflate.new e r = .ok d ∧ d.total =
      if r.failure = none then
        e.inflate.whole (e.start (signature r.first)) r.slices.flatten
      else none := by
  have hfirst : first = r.first := by
    unfold Reader.first
    cases hslices : r.slices with
    | nil =>
      cases hfailure : r.failure with
      | none => simpa [hslices, hfailure, fillBuf, eq_comm] using h
      | some message => simp [hslices, hfailure, fillBuf] at h
    | cons a rest => simpa [hslices, fillBuf, eq_comm] using h
  exact ⟨_, by simp [Deflate.new, h, Except.map]; rfl, by
    simp [Deflate.total, hfirst]⟩

variable {v : Serving}

theorem deflate_reader :
    (((Deflate.new e r).map fun d => d.drain v.room 0).bind
      Reader.readToEnd).toOption =
    if r.failure = none then
      e.inflate.whole (e.start (signature r.first)) r.slices.flatten
    else none := by
  cases hfill : fillBuf r.slices r.failure with
  | error message =>
    have hfailure : r.failure ≠ none := by
      intro hnone
      cases hslices : r.slices <;> simp [hslices, hnone, fillBuf] at hfill
    simp [Deflate.new, hfill, hfailure, Except.map, Except.bind, Except.toOption]
  | ok first =>
    obtain ⟨d, hnew, htotal⟩ := new_eq (e := e) hfill
    rw [hnew, ← htotal]
    exact drain_total d v.room 0 v.roomy

theorem recognised_iff (h : r.failure = none) :
    Recognised e r ↔
      e.inflate.whole (e.start (signature r.first))
          r.slices.flatten =
        e.inflate.whole (e.start (signature r.slices.flatten)) r.slices.flatten := by
  by_cases hlong : 2 ≤ r.first.length
  · simp [Recognised, hlong, signature_first hlong]
  · have hfirst : signature r.first = false := signature_short (by omega)
    cases hwhole : signature r.slices.flatten with
    | false => simp [Recognised, hfirst, hwhole]
    | true => simp [Recognised, h, hlong, hfirst, hwhole]

theorem toOption_bind {α β : Type} (x : Except String α)
    (f : α → Except String β) :
    (x.bind f).toOption = x.toOption.bind fun a => (f a).toOption := by
  cases x <;> rfl

theorem served (v : Serving) (result : Except String Bytes) :
    (Except.ok (ε := String) (v.serve result)).bind Reader.readToEnd = result :=
  readToEnd_serve v result

theorem rest_eq_nil (rest : Bytes) (n : Nat) :
    (rest.take n ≠ [] ∨ rest.drop n ≠ []) ↔ rest ≠ [] := by
  rw [← not_and_or, ← List.append_eq_nil_iff, List.take_append_drop]

theorem readerLayer_eq {encoding : Bytes}
    (h : encoding = ascii "deflate" → Recognised e r) :
    ((readerLayer e v encoding r).bind Reader.readToEnd).toOption =
      r.readToEnd.toOption.bind (plain e encoding) := by
  unfold readerLayer plain
  split_ifs with hidentity hgzip hdeflate hbrotli hzstd
  · simp [Except.bind]
  · rw [served, toOption_bind]
  · rw [deflate_reader, readToEnd_toOption]
    split
    · rename_i hfailure
      simpa using (recognised_iff hfailure).mp (h hdeflate)
    · rfl
  · rw [served, toOption_bind]
    congr 1
    funext data
    rw [toOption_bind]
    congr 1
    funext ⟨out, rest⟩
    simp only [rest_eq_nil]
    by_cases hrest : rest = []
    · simp [hrest, Except.toOption]
    · simp [hrest, Except.toOption]
  · rw [served, toOption_bind]
  · simp [Except.bind, Except.toOption]

theorem within_eq_self {result : Option Bytes}
    (h : ∀ out, result = some out → out.length ≤ limit) :
    within limit result = result := by
  cases result with
  | none => rfl
  | some out => rw [within_some, if_pos (h out rfl)]

theorem bounded_eq (result : Except String Bytes) (limit : Nat) :
    (bounded result limit).toOption = within limit result.toOption := by
  cases result with
  | error message => rfl
  | ok out =>
    simp only [bounded, Except.bind, Except.toOption, within_some]
    by_cases hlong : limit < out.length
    · simp [hlong, Nat.not_le.mpr hlong]
    · simp [hlong, Nat.not_lt.mp hlong]

theorem brotliBody_eq (data : Bytes) (limit : Nat) :
    (brotliBody e data limit).toOption = within limit
      ((e.unbrotli data).toOption.bind fun (out, rest) =>
        if rest = [] then some out else none) := by
  unfold brotliBody
  cases e.unbrotli data with
  | error message => rfl
  | ok decoded =>
    obtain ⟨out, rest⟩ := decoded
    simp only [Except.bind, Except.toOption, Option.bind_some]
    by_cases hlong : limit < out.length
    · by_cases hrest : rest = []
      · simp [hlong, hrest, within_some]
      · simp [hlong, hrest, within]
    · by_cases hrest : rest = []
      · simp [hlong, hrest, within_some, Nat.not_lt.mp hlong]
      · simp [hlong, hrest, within]

theorem bodyLayer_eq {encoding data : Bytes}
    (hzstd : encoding = ascii "zstd" →
      (e.unzstd 23 data).toOption = (e.unzstd 27 data).toOption)
    (hfits : ∀ out, plain e encoding data = some out → out.length ≤ limit) :
    (bodyLayer e limit encoding data).toOption = plain e encoding data := by
  rw [← within_eq_self hfits]
  unfold bodyLayer plain at *
  split_ifs at * with hidentity hgzip hdeflate hbrotli hz
  · exact (within_eq_self hfits).symm
  · exact bounded_eq _ _
  · exact deflate_eq _ _ _
  · exact brotliBody_eq _ _
  · rw [bounded_eq, hzstd hz]
  · rfl

/-! ## The stack -/

def plainLayers (e : Engines) : List Bytes → Bytes → Option Bytes
  | [], data => some data
  | encoding :: rest, data => (plain e encoding data).bind (plainLayers e rest)

theorem plainLayers_append (xs ys : List Bytes) (data : Bytes) :
    plainLayers e (xs ++ ys) data =
      (plainLayers e xs data).bind (plainLayers e ys) := by
  induction xs generalizing data with
  | nil => rfl
  | cons encoding rest ih =>
    simp only [List.cons_append, plainLayers, Option.bind_assoc]
    congr 1
    funext out
    exact ih out

theorem bodyLayers_eq {encodings : List Bytes} {data : Bytes}
    (h : Fits e limit encodings data) :
    (bodyLayers e limit encodings data).toOption = plainLayers e encodings data := by
  induction encodings generalizing data with
  | nil => rfl
  | cons encoding rest ih =>
    obtain ⟨hzstd, hfits⟩ := h
    simp only [bodyLayers, plainLayers, toOption_bind,
      bodyLayer_eq hzstd fun out hout => (hfits out hout).1]
    cases hplain : plain e encoding data with
    | none => rfl
    | some out => exact ih (hfits out hplain).2

theorem body_eq {headers : Headers} {input : Bytes}
    (hfour : (tokens headers (ascii "content-encoding")).length ≤ 4)
    (hlimit : input.length ≤ limit)
    (hfits : Fits e limit (tokens headers (ascii "content-encoding")).reverse input) :
    (body e headers input limit).toOption =
      plainLayers e (tokens headers (ascii "content-encoding")).reverse input := by
  simp only [body, Nat.not_lt.mpr hlimit, Nat.not_lt.mpr hfour, if_false]
  exact bodyLayers_eq hfits

theorem readerLayers_append (xs ys : List (Bytes × Serving)) (r : Reader) :
    readerLayers e (xs ++ ys) r = (readerLayers e xs r).bind (readerLayers e ys) := by
  induction xs generalizing r with
  | nil => rfl
  | cons layer rest ih =>
    obtain ⟨encoding, v⟩ := layer
    simp only [List.cons_append, readerLayers]
    cases readerLayer e v encoding r with
    | error message => rfl
    | ok r' => exact ih r'

theorem readerLayers_eq {encodings : List (Bytes × Serving)}
    (h : Fine e encodings r) :
    ((readerLayers e encodings r).bind Reader.readToEnd).toOption =
      r.readToEnd.toOption.bind (plainLayers e (encodings.map Prod.fst)) := by
  induction encodings generalizing r with
  | nil => simp [readerLayers, plainLayers, Except.bind]
  | cons layer rest ih =>
    obtain ⟨encoding, v⟩ := layer
    have hlayer := readerLayer_eq (v := v) h.1
    have hsplit : r.readToEnd.toOption.bind
        (plainLayers e (((encoding, v) :: rest).map Prod.fst)) =
        (r.readToEnd.toOption.bind (plain e encoding)).bind
          (plainLayers e (rest.map Prod.fst)) := by
      rw [Option.bind_assoc]
      rfl
    rw [hsplit, ← hlayer, readerLayers]
    cases hreader : readerLayer e v encoding r with
    | error message => rfl
    | ok r' => exact ih (h.2 r' hreader)

theorem agree_of_fine {headers : Headers} {input : Bytes}
    {source : Reader} {encodings : List (Bytes × Serving)}
    (hsource : source.readToEnd = .ok input)
    (hencodings : encodings.map Prod.fst = tokens headers (ascii "content-encoding"))
    (hfour : encodings.length ≤ 4) (hlimit : input.length ≤ limit)
    (hfits : Fits e limit (tokens headers (ascii "content-encoding")).reverse
      input) (hfine : Fine e encodings.reverse source) :
    ((reader e source encodings).bind Reader.readToEnd).toOption =
      (body e headers input limit).toOption := by
  have hlength : (tokens headers (ascii "content-encoding")).length ≤ 4 := by
    rw [← hencodings, List.length_map]
    exact hfour
  rw [reader, if_neg (Nat.not_lt.mpr hfour), readerLayers_eq hfine,
    body_eq hlength hlimit hfits, hsource, List.map_reverse, hencodings]
  rfl

theorem readerLayer_deflate (v : Serving) (r : Reader) :
    readerLayer e v (ascii "deflate") r =
      (Deflate.new e r).map fun d => d.drain v.room 0 := by
  unfold readerLayer
  rw [if_neg (by decide), if_neg (by decide), if_pos rfl]

theorem reader_deflate {source : Reader} {rest : List (Bytes × Serving)}
    (hfour : rest.length < 4) (hr : readerLayers e rest.reverse source = .ok r) :
    ((reader e source ((ascii "deflate", v) :: rest)).bind
        Reader.readToEnd).toOption =
      if r.failure = none then
        e.inflate.whole (e.start (signature r.first)) r.slices.flatten
      else none := by
  rw [reader, if_neg (by simpa using hfour), List.reverse_cons,
    readerLayers_append, hr, ← deflate_reader (v := v), ← readerLayer_deflate]
  simp only [Except.bind, readerLayers]
  cases readerLayer e v (ascii "deflate") r <;> rfl

theorem deflate_agree_iff {headers : Headers} {input : Bytes}
    {source : Reader} {rest : List (Bytes × Serving)}
    (hsource : source.readToEnd = .ok input)
    (hencodings : ascii "deflate" :: rest.map Prod.fst =
      tokens headers (ascii "content-encoding"))
    (hfour : rest.length < 4) (hlimit : input.length ≤ limit)
    (hfits : Fits e limit (tokens headers (ascii "content-encoding")).reverse
      input) (hfine : Fine e rest.reverse source)
    (hr : readerLayers e rest.reverse source = .ok r) :
    ((reader e source ((ascii "deflate", v) :: rest)).bind
        Reader.readToEnd).toOption = (body e headers input limit).toOption ↔
      Recognised e r := by
  have hlength : (tokens headers (ascii "content-encoding")).length ≤ 4 := by
    rw [← hencodings, List.length_cons, List.length_map]
    omega
  have hread : r.readToEnd.toOption =
      plainLayers e (rest.map Prod.fst).reverse input := by
    have hlayers := readerLayers_eq hfine
    rw [hr, hsource, List.map_reverse] at hlayers
    exact hlayers
  have hplain : plain e (ascii "deflate") =
      fun data => e.inflate.whole (e.start (signature data)) data := by
    funext data
    unfold plain
    rw [if_neg (by decide), if_neg (by decide), if_pos rfl]
  have hbody : (body e headers input limit).toOption =
      r.readToEnd.toOption.bind fun data =>
        e.inflate.whole (e.start (signature data)) data := by
    rw [body_eq hlength hlimit hfits, ← hencodings, List.reverse_cons,
      plainLayers_append, ← hread]
    congr 1
    funext data
    simp only [plainLayers, hplain]
    cases e.inflate.whole (e.start (signature data)) data <;> rfl
  rw [reader_deflate hfour hr, hbody, readToEnd_toOption]
  by_cases hfailure : r.failure = none
  · simpa [hfailure] using (recognised_iff hfailure).symm
  · simp [hfailure, Recognised]

/-- A stack of readers gives what decoding at once gives, within the limits of
the latter, where each reader of `Deflate` tells zlib from its first slice; and
where the last coding is deflate, only there. -/
theorem reader_agrees {headers : Headers} {input : Bytes} {limit : Nat}
    {source : Reader} {encodings : List (Bytes × Serving)}
    (hsource : source.readToEnd = .ok input)
    (hencodings : encodings.map Prod.fst = tokens headers (ascii "content-encoding"))
    (hfour : encodings.length ≤ 4) (hlimit : input.length ≤ limit)
    (hfits : Fits e limit (tokens headers (ascii "content-encoding")).reverse input) :
    (Fine e encodings.reverse source →
      ((reader e source encodings).bind Reader.readToEnd).toOption =
        (body e headers input limit).toOption) ∧
    ∀ v rest r, encodings = (ascii "deflate", v) :: rest →
      Fine e rest.reverse source → readerLayers e rest.reverse source = .ok r →
      (((reader e source encodings).bind Reader.readToEnd).toOption =
        (body e headers input limit).toOption ↔ Recognised e r) := by
  refine ⟨agree_of_fine hsource hencodings hfour hlimit hfits, ?_⟩
  rintro v rest r rfl hfine hr
  exact deflate_agree_iff hsource hencodings (by simpa using hfour) hlimit hfits
    hfine hr

end Agreement

/-! ## A zlib stream whose first byte comes alone -/

inductive StoredState where
  | method
  | flags
  | block (zlib : Bool)
  | length (zlib final : Bool) (seen : Bytes)
  | copy (zlib final : Bool) (left : Nat)
  | check (left : Nat)
  deriving DecidableEq

def StoredState.next (zlib final : Bool) : Nat → StoredState
  | 0 => if final then .check (if zlib then 4 else 0) else .block zlib
  | left => .copy zlib final left

def storedInflate : Coder StoredState String where
  step
    | .method, b =>
      if b = 120 then .ok ([], .flags) else .error "incorrect header check"
    | .flags, b =>
      if b = 1 then .ok ([], .block true) else .error "incorrect header check"
    | .block zlib, b =>
      if b.toNat / 2 % 4 = 0 then
        .ok ([], .length zlib (b.toNat % 2 == 1) [])
      else .error "invalid block type"
    | .length zlib final seen, b =>
      match seen with
      | [low, high, check] =>
        if check = ~~~low ∧ b = ~~~high then
          .ok ([], .next zlib final (low.toNat + 256 * high.toNat))
        else .error "invalid stored block lengths"
      | _ => .ok ([], .length zlib final (seen ++ [b]))
    | .copy zlib final left, b => .ok ([b], .next zlib final (left - 1))
    | .check left, _ => .ok ([], .check (left - 1))
  ended s := s = .check 0

def zlibSample : Bytes := [120, 1, 1, 1, 0, 254, 255, 65, 0, 66, 0, 66]

/-- The zlib stream in gzip: its first byte as one member, the others as the
next. -/
def gzipSample : Bytes :=
  [31, 139, 8, 0, 0, 0, 0, 0, 0, 255, 1, 1, 0, 254, 255, 120, 131, 22, 220, 140,
    1, 0, 0, 0, 31, 139, 8, 0, 0, 0, 0, 0, 0, 255, 1, 11, 0, 244, 255, 1, 1, 1,
    0, 254, 255, 65, 0, 66, 0, 66, 242, 243, 106, 12, 11, 0, 0, 0]

def sampleEngines : Engines where
  State := StoredState
  inflate := storedInflate
  start zlib := if zlib then .method else .block false
  gunzip input :=
    if input = gzipSample then .ok zlibSample else .error "invalid gzip header"
  unbrotli _ := .error "invalid Brotli stream"
  unzstd _ _ := .error "Unknown frame descriptor"

def sampleSlices (n : Nat) : Except String Bytes → List Bytes
  | .ok data => [data.take n, data.drop n].filter (· ≠ [])
  | .error _ => []

theorem sampleSlices_whole (n : Nat) (data : Bytes) :
    (sampleSlices n (.ok data)).flatten = data :=
  (List.flatten_filter_ne_nil).trans (by simp)

private theorem sampleSlices_filled (n : Nat) (result : Except String Bytes) :
    [] ∉ sampleSlices n result := by
  cases result <;> simp [sampleSlices]

/-- A reader that gives the first `n` bytes alone. -/
def sampleServing (n : Nat) : Serving where
  slices := sampleSlices n
  whole := sampleSlices_whole n
  filled := sampleSlices_filled n
  room _ := 16384
  roomy _ := Nat.succ_pos _
  held := 0

def sampleHeaders : Headers :=
  [(ascii "content-encoding", ascii "deflate, gzip")]

def sampleSource : Reader := ⟨[gzipSample], none, by decide⟩

/-- What gzip decodes comes with `n` bytes first. -/
def sampleEncodings (n : Nat) : List (Bytes × Serving) :=
  [(ascii "deflate", sampleServing 16), (ascii "gzip", sampleServing n)]

theorem fits_sample : Fits sampleEngines 100
    (tokens sampleHeaders (ascii "content-encoding")).reverse gzipSample := by
  have htokens : (tokens sampleHeaders (ascii "content-encoding")).reverse =
      [ascii "gzip", ascii "deflate"] := by decide
  have hgzip : plain sampleEngines (ascii "gzip") gzipSample =
      some zlibSample := by decide
  have hdeflate : plain sampleEngines (ascii "deflate") zlibSample =
      some [65] := by decide
  rw [htokens]
  refine ⟨by decide, fun out hout => ?_⟩
  obtain rfl := Option.some.inj (hgzip.symm.trans hout)
  refine ⟨by decide, by decide, fun out hout => ?_⟩
  obtain rfl := Option.some.inj (hdeflate.symm.trans hout)
  exact ⟨by decide, trivial⟩

theorem fine_sample : Fine sampleEngines (sampleEncodings 2).reverse sampleSource := by
  refine ⟨fun h => absurd h (by decide), fun r hr => ⟨fun _ => ?_, fun _ _ => trivial⟩⟩
  have hgzip : readerLayer sampleEngines (sampleServing 2) (ascii "gzip") sampleSource =
      .ok ((sampleServing 2).serve (.ok zlibSample)) := rfl
  obtain rfl := Except.ok.inj (hgzip.symm.trans hr)
  exact .inr (.inl (by decide))

theorem reader_agrees_sample :
    ((reader sampleEngines sampleSource (sampleEncodings 2)).bind
      Reader.readToEnd).toOption =
      (body sampleEngines sampleHeaders gzipSample 100).toOption :=
  (@reader_agrees sampleEngines sampleHeaders gzipSample 100 sampleSource
    (sampleEncodings 2) rfl (by decide) (by decide) (by decide)
    fits_sample).1 fine_sample

/-- The reader of `Deflate` gets one byte first, and does not take it for
zlib. -/
theorem reader_disagrees :
    (sampleEncodings 1).length ≤ 4 ∧ sampleSource.readToEnd = .ok gzipSample ∧
    Fits sampleEngines 100
      (tokens sampleHeaders (ascii "content-encoding")).reverse gzipSample ∧
    (body sampleEngines sampleHeaders gzipSample 100).toOption = some [65] ∧
    ((reader sampleEngines sampleSource (sampleEncodings 1)).bind
      Reader.readToEnd).toOption = none := by
  have hbody : (body sampleEngines sampleHeaders gzipSample 100).toOption =
      some [65] := by
    rw [body_eq (by decide) (by decide) fits_sample]
    decide
  have hgzip : readerLayers sampleEngines [(ascii "gzip", sampleServing 1)]
      sampleSource = .ok ((sampleServing 1).serve (.ok zlibSample)) := rfl
  refine ⟨by decide, rfl, fits_sample, hbody, ?_⟩
  rw [sampleEncodings, reader_deflate (by decide) hgzip]
  decide

end ProxyLane.Recording
