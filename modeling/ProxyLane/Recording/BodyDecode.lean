import ProxyLane.Foundation.Coder
import ProxyLane.Protocol.Model

/-!
# Decoding of recorded bodies

A body is decoded at once where it is shown, and through a stack of readers
where it is recorded.  The readers hand their bytes on in slices of their own
choosing.  Whether deflate data are wrapped in zlib is told from the whole body
by the one, and from the first slice by the other.
-/

namespace ProxyLane.Recording

open ProxyLane.Foundation ProxyLane.Protocol

/-- The engines: inflate byte by byte, the others by what they make of a whole
input.  Brotli also gives what is behind the end of its stream, and zstd has
the largest window it takes. -/
structure Engines where
  State : Type
  inflate : Coder State String
  start : Bool → State
  gunzip : Bytes → Except String Bytes
  unbrotli : Bytes → Except String (Bytes × Bytes)
  unzstd : Nat → Bytes → Except String Bytes

def signature : Bytes → Bool
  | a :: b :: _ => a.toNat % 16 == 8 && decide (a.toNat / 16 ≤ 7) &&
      (a.toNat * 256 + b.toNat) % 31 == 0
  | _ => false

def unsupported (encoding : Bytes) : String :=
  "unsupported Content-Encoding: " ++
    String.ofList (encoding.map fun b => Char.ofNat b.toNat)

section Decode

variable (e : Engines)

def bounded (result : Except String Bytes) (limit : Nat) : Except String Bytes :=
  result.bind fun out =>
    if limit < out.length then .error "decoded body limit" else .ok out

/-- The loop of `deflate`, with a chunk of 8192 bytes for each call. -/
def deflateFrom (limit : Nat) (s : e.State) (pending remaining output : Bytes) :
    Except String Bytes :=
  match _hcall : e.inflate.call s pending 8192 remaining with
  | .error message => .error message
  | .ok r =>
    if limit < output.length + r.written.length then
      .error "decoded body limit"
    else if r.finished then
      if r.rest = [] then .ok (output ++ r.written)
      else .error "trailing deflate data"
    else if _hidle : r.rest.length = remaining.length ∧ r.written = [] then
      .error "incomplete deflate stream"
    else deflateFrom limit r.state r.pending r.rest (output ++ r.written)
termination_by (remaining.length, pending.length)
decreasing_by
  have hle := (Coder.call_rest _hcall).length_le
  rcases Nat.lt_or_eq_of_le hle with hlt | heq
  · exact Prod.Lex.left _ _ hlt
  · rw [heq]
    have hwaiting := Coder.call_waiting _hcall heq
    have hwritten : 0 < r.written.length :=
      List.length_pos_iff.mpr fun hnil => _hidle ⟨heq, hnil⟩
    exact Prod.Lex.right _ (by omega)

def deflate (input : Bytes) (zlib : Bool) (limit : Nat) : Except String Bytes :=
  deflateFrom e limit (e.start zlib) [] input []

def brotliBody (input : Bytes) (limit : Nat) : Except String Bytes :=
  (e.unbrotli input).bind fun (out, rest) =>
    if limit < out.length then .error "decoded body limit"
    else if rest = [] then .ok out
    else .error "trailing Brotli data"

/-- One coding of `body`. -/
def bodyLayer (limit : Nat) (encoding data : Bytes) : Except String Bytes :=
  if encoding = ascii "identity" then .ok data
  else if encoding = ascii "gzip" ∨ encoding = ascii "x-gzip" then
    bounded (e.gunzip data) limit
  else if encoding = ascii "deflate" then deflate e data (signature data) limit
  else if encoding = ascii "br" then brotliBody e data limit
  else if encoding = ascii "zstd" then bounded (e.unzstd 23 data) limit
  else .error (unsupported encoding)

def bodyLayers (limit : Nat) : List Bytes → Bytes → Except String Bytes
  | [], data => .ok data
  | encoding :: rest, data =>
    (bodyLayer e limit encoding data).bind (bodyLayers limit rest)

def body (headers : Headers) (input : Bytes) (limit : Nat) :
    Except String Bytes :=
  if limit < input.length then .error "decoded body limit"
  else
    let encodings := tokens headers (ascii "content-encoding")
    if 4 < encodings.length then .error "too many Content-Encoding layers"
    else bodyLayers e limit encodings.reverse input

end Decode

structure Reader where
  slices : List Bytes
  failure : Option String
  filled : [] ∉ slices

def Reader.readToEnd (r : Reader) : Except String Bytes :=
  match r.failure with
  | some message => .error message
  | none => .ok r.slices.flatten

/-- How a decoder hands on what it has decoded, or had when it failed, and what
room it is given at each call. -/
structure Serving where
  slices : Except String Bytes → List Bytes
  whole : ∀ data, (slices (.ok data)).flatten = data
  filled : ∀ result, [] ∉ slices result
  room : Nat → Nat
  roomy : ∀ n, 0 < room n
  held : Nat

def Serving.serve (v : Serving) (result : Except String Bytes) : Reader where
  slices := v.slices result
  failure := match result with
    | .error message => some message
    | .ok _ => none
  filled := v.filled result

@[simp] theorem readToEnd_serve (v : Serving) (result : Except String Bytes) :
    (v.serve result).readToEnd = result := by
  cases result <;> simp [Reader.readToEnd, Serving.serve, v.whole]

/-- `Deflate`, with what its `BufReader` has not handed on. -/
structure Deflate (e : Engines) where
  slices : List Bytes
  failure : Option String
  filled : [] ∉ slices
  state : e.State
  pending : Bytes
  ended : Bool
  settled : ended = true → e.inflate.ended state = true ∧ pending = []

section Stream

variable {e : Engines}

def fillBuf (slices : List Bytes) (failure : Option String) :
    Except String Bytes :=
  match slices, failure with
  | bytes :: _, _ => .ok bytes
  | [], some message => .error message
  | [], none => .ok []

def consume (used : Nat) : List Bytes → List Bytes
  | [] => []
  | bytes :: rest =>
    if bytes.drop used = [] then rest else bytes.drop used :: rest

private theorem filled_consume {slices : List Bytes} {used : Nat}
    (h : [] ∉ slices) : [] ∉ consume used slices := by
  cases slices with
  | nil => exact h
  | cons first rest =>
    simp only [List.mem_cons, not_or] at h
    simp only [consume]
    split
    · exact h.2
    · rename_i hmore
      simp only [List.mem_cons, not_or]
      exact ⟨fun hnil => hmore hnil.symm, h.2⟩

theorem length_consume {slices : List Bytes} {failure : Option String}
    {bytes : Bytes} {used : Nat} (h : fillBuf slices failure = .ok bytes)
    (hused : used ≤ bytes.length) :
    (consume used slices).flatten.length + used = slices.flatten.length := by
  cases slices with
  | nil =>
    cases failure with
    | none =>
      simp only [fillBuf, Except.ok.injEq] at h
      subst h
      simp only [List.length_nil, Nat.le_zero] at hused
      simp [consume, hused]
    | some message => cases h
  | cons first rest =>
    simp only [fillBuf, Except.ok.injEq] at h
    subst h
    simp only [consume, List.flatten_cons, List.length_append]
    split
    · rename_i hnil
      have hlength := List.drop_eq_nil_iff.mp hnil
      omega
    · simp only [List.flatten_cons, List.length_append, List.length_drop]
      omega

def Deflate.finish (d : Deflate e) : Except String (Bytes × Deflate e) :=
  match fillBuf d.slices d.failure with
  | .error message => .error message
  | .ok [] => .ok ([], d)
  | .ok (_ :: _) => .error "trailing deflate data"

def Deflate.after (d : Deflate e) {room : Nat} {bytes : Bytes}
    {r : Call e.State} (h : e.inflate.call d.state d.pending room bytes = .ok r) :
    Deflate e where
  slices := consume (bytes.length - r.rest.length) d.slices
  failure := d.failure
  filled := filled_consume d.filled
  state := r.state
  pending := r.pending
  ended := r.finished
  settled := Coder.call_finished h

def Deflate.read (d : Deflate e) (room : Nat) :
    Except String (Bytes × Deflate e) :=
  if d.ended then d.finish
  else match _hfill : fillBuf d.slices d.failure with
    | .error message => .error message
    | .ok bytes =>
      match hcall : e.inflate.call d.state d.pending room bytes with
      | .error message => .error ("deflate: " ++ message)
      | .ok r =>
        if r.written ≠ [] then .ok (r.written, d.after hcall)
        else if r.finished then (d.after hcall).finish
        else if _hused : bytes.length - r.rest.length = 0 then
          .error "incomplete deflate stream"
        else (d.after hcall).read room
termination_by d.slices.flatten.length
decreasing_by
  have hlength := length_consume _hfill (Nat.sub_le bytes.length r.rest.length)
  simp only [Deflate.after]
  omega

theorem finish_eq_ok {d d' : Deflate e} {bytes : Bytes} :
    d.finish = .ok (bytes, d') ↔
      d.slices = [] ∧ d.failure = none ∧ bytes = [] ∧ d' = d := by
  have hfilled := d.filled
  unfold Deflate.finish
  cases hslices : d.slices with
  | nil =>
    cases hfailure : d.failure with
    | none => simp [fillBuf, eq_comm]
    | some message => simp [fillBuf]
  | cons first rest =>
    cases first with
    | nil => simp [hslices] at hfilled
    | cons b bytes => simp [fillBuf]

theorem length_after {d : Deflate e} {room : Nat} {bytes : Bytes}
    {r : Call e.State} (hfill : fillBuf d.slices d.failure = .ok bytes)
    (hcall : e.inflate.call d.state d.pending room bytes = .ok r) :
    (d.after hcall).slices.flatten.length +
      (bytes.length - r.rest.length) = d.slices.flatten.length :=
  length_consume hfill (Nat.sub_le _ _)

theorem read_smaller {d d' : Deflate e} {room : Nat} {bytes : Bytes}
    (h : d.read room = .ok (bytes, d')) (hbytes : bytes ≠ []) :
    d'.slices.flatten.length < d.slices.flatten.length ∨
      d'.slices.flatten.length = d.slices.flatten.length ∧
        d'.pending.length < d.pending.length := by
  fun_induction Deflate.read d room with
  | case1 d hended => exact absurd (finish_eq_ok.mp h).2.2.1 hbytes
  | case2 d hended message hfill => cases h
  | case3 d hended input hfill message hcall => cases h
  | case4 d hended input hfill r hcall hwritten =>
    simp only [Except.ok.injEq, Prod.mk.injEq] at h
    obtain ⟨rfl, rfl⟩ := h
    have hlength := length_after hfill hcall
    have hle := (Coder.call_rest hcall).length_le
    rcases Nat.lt_or_eq_of_le hle with hlt | heq
    · exact .inl (by omega)
    · have hwaiting := Coder.call_waiting hcall heq
      have hpositive := List.length_pos_iff.mpr hwritten
      refine .inr ⟨by omega, ?_⟩
      simp only [Deflate.after]
      omega
  | case5 d hended input hfill r hcall hwritten hfinished =>
    exact absurd (finish_eq_ok.mp h).2.2.1 hbytes
  | case6 d hended input hfill r hcall hwritten hfinished hused => cases h
  | case7 d hended input hfill r hcall hwritten hfinished hused ih =>
    have hlength := length_after hfill hcall
    rcases ih h with hless | ⟨heq, -⟩
    · exact .inl (by omega)
    · exact .inl (by omega)

/-- `Deflate::new` asks for the first slice. -/
def Deflate.new (e : Engines) (r : Reader) : Except String (Deflate e) :=
  (fillBuf r.slices r.failure).map fun b => {
    slices := r.slices, failure := r.failure, filled := r.filled
    state := e.start (signature b), pending := [], ended := false
    settled := nofun }

/-- All the calls of a reader of `Deflate`, from the nth on. -/
def Deflate.drain (d : Deflate e) (room : Nat → Nat) (n : Nat) : Reader :=
  match _hread : d.read (room n) with
  | .error message => ⟨[], some message, by simp⟩
  | .ok (bytes, d') =>
    if _hbytes : bytes = [] then ⟨[], none, by simp⟩
    else
      let r := d'.drain room (n + 1)
      ⟨bytes :: r.slices, r.failure, by
        simpa using ⟨_hbytes, r.filled⟩⟩
termination_by (d.slices.flatten.length, d.pending.length)
decreasing_by
  exact Prod.lex_def.mpr (read_smaller _hread _hbytes)

variable (e)

/-- One coding of `reader`; zstd takes larger windows here. -/
def readerLayer (v : Serving) (encoding : Bytes) (r : Reader) :
    Except String Reader :=
  if encoding = ascii "identity" then .ok r
  else if encoding = ascii "gzip" ∨ encoding = ascii "x-gzip" then
    .ok (v.serve (r.readToEnd.bind e.gunzip))
  else if encoding = ascii "deflate" then
    (Deflate.new e r).map fun d => d.drain v.room 0
  else if encoding = ascii "br" then
    .ok (v.serve (r.readToEnd.bind fun data =>
      (e.unbrotli data).bind fun (out, rest) =>
        -- what the decompressor holds of the rest, then what its reader has
        if rest.take v.held ≠ [] ∨ rest.drop v.held ≠ [] then
          .error "trailing Brotli data"
        else .ok out))
  else if encoding = ascii "zstd" then
    .ok (v.serve (r.readToEnd.bind (e.unzstd 27)))
  else .error (unsupported encoding)

def readerLayers : List (Bytes × Serving) → Reader → Except String Reader
  | [], r => .ok r
  | (encoding, v) :: rest, r =>
    (readerLayer e v encoding r).bind (readerLayers rest)

def reader (input : Reader) (encodings : List (Bytes × Serving)) :
    Except String Reader :=
  if 4 < encodings.length then
    .error "unsupported Content-Encoding nesting (more than four layers)"
  else readerLayers e encodings.reverse input

end Stream

end ProxyLane.Recording
