import ProxyLane.App.RecentEntry

/-!
# The filter texts of a profile

A filter is edited as lines and kept in one value of the settings file: bars
stand for the line breaks, and a bar of the text is written behind a backslash.
A backslash of the text is written as it is.  What white space is to `TrimLeft`
is a parameter.
-/

namespace ProxyLane.App.ProfileFilter

open RecentApplications

/-! ## The two forms -/

/-- `Replace` of CR LF by LF. -/
def replaceCrLf : Text → Text
  | [] => []
  | [c] => [c]
  | c :: d :: rest =>
    if c = 13 ∧ d = 10 then 10 :: replaceCrLf rest
    else c :: replaceCrLf (d :: rest)

/-- `Replace` of one unit. -/
def replaceUnit (old : UInt16) (new : Text) (value : Text) : Text :=
  value.flatMap fun c => if c = old then new else [c]

def encodeFilter (multiLine : Text) : Text :=
  let value := replaceCrLf multiLine
  let value := replaceUnit 13 [10] value
  let value := replaceUnit 124 [92, 124] value
  replaceUnit 10 [124] value

def decodeFilter : Text → Text
  | [] => []
  | [c] => if c = 124 then [13, 10] else [c]
  | c :: d :: rest =>
    if c = 92 ∧ d = 124 then 124 :: decodeFilter rest
    else if c = 124 then 13 :: 10 :: decodeFilter (d :: rest)
    else c :: decodeFilter (d :: rest)

def isBreak (c : UInt16) : Bool := c = 13 || c = 10

section Rules

variable (space : UInt16 → Bool)

/-- `TrimLeft` and `TrimRight`. -/
def trim (line : Text) : Text :=
  ((line.dropWhile space).reverse.dropWhile space).reverse

def pushLine (line : Text) : List Text :=
  if line = [] then []
  else if trim space line ≠ [] ∧ (trim space line).head? ≠ some 35 then
    [trim space line]
  else []

/-- The loop of `SplitFilterPatterns`; `line` is what lies between `start` and
`i`. -/
def splitFrom (line : Text) : Text → List Text
  | [] => pushLine space line
  | [c] =>
    if isBreak c then pushLine space line else pushLine space (line ++ [c])
  | c :: d :: rest =>
    if c = 13 ∧ d = 10 then pushLine space line ++ splitFrom [] rest
    else if isBreak c then pushLine space line ++ splitFrom [] (d :: rest)
    else splitFrom (line ++ [c]) (d :: rest)

def splitFilterPatterns (multi : Text) : List Text := splitFrom space [] multi

end Rules

def isProfileBlank (c : UInt16) : Bool := c = 32 || c = 9

def isQuoted (value : Text) : Bool :=
  2 ≤ value.length && value.head? = value.getLast? &&
    (value.head? = some 34 || value.head? = some 39)

def unquote (value : Text) : Text :=
  if isQuoted value then value.tail.dropLast else value

/-- What `GetPrivateProfileString` gives back of a value that was written. -/
def getPrivateProfileString (value : Text) : Text :=
  unquote (trim isProfileBlank value)

/-- The filter after `Save` and `Load`. -/
def savedAndLoaded (multi : Text) : Text :=
  decodeFilter (getPrivateProfileString (encodeFilter multi))

/-! ## Line breaks -/

def crlf : Text → Text
  | [] => []
  | [c] => if isBreak c then [13, 10] else [c]
  | c :: d :: rest =>
    if c = 13 ∧ d = 10 then 13 :: 10 :: crlf rest
    else if isBreak c then 13 :: 10 :: crlf (d :: rest)
    else c :: crlf (d :: rest)

def slashBreak : Text → Bool
  | [] => false
  | c :: rest => (c = 92 && rest.head?.any isBreak) || slashBreak rest

@[simp] theorem replaceCrLf_nil : replaceCrLf [] = [] := rfl

theorem replaceCrLf_pair (c d : UInt16) (rest : Text) :
    replaceCrLf (c :: d :: rest) =
      if c = 13 ∧ d = 10 then 10 :: replaceCrLf rest
      else c :: replaceCrLf (d :: rest) := rfl

theorem replaceCrLf_single (c : UInt16) : replaceCrLf [c] = [c] := rfl

@[simp] theorem decodeFilter_nil : decodeFilter [] = [] := rfl

theorem decodeFilter_single (c : UInt16) :
    decodeFilter [c] = if c = 124 then [13, 10] else [c] := rfl

theorem decodeFilter_pair (c d : UInt16) (rest : Text) :
    decodeFilter (c :: d :: rest) =
      if c = 92 ∧ d = 124 then 124 :: decodeFilter rest
      else if c = 124 then 13 :: 10 :: decodeFilter (d :: rest)
      else c :: decodeFilter (d :: rest) := rfl

def unified (text : Text) : Text := replaceUnit 13 [10] (replaceCrLf text)

@[simp] theorem unified_nil : unified [] = [] := rfl

theorem unified_crlf (rest : Text) :
    unified (13 :: 10 :: rest) = 10 :: unified rest := by
  simp [unified, replaceCrLf_pair, replaceUnit]

variable {c : UInt16}

theorem unified_plain (rest : Text) (h : isBreak c = false) :
    unified (c :: rest) = c :: unified rest := by
  simp only [isBreak, Bool.or_eq_false_iff, decide_eq_false_iff_not] at h
  cases rest <;>
    simp [unified, replaceCrLf_pair, replaceCrLf_single, replaceUnit, h.1]

theorem unified_break {rest : Text} (h : isBreak c = true)
    (hcrlf : ¬ (c = 13 ∧ rest.head? = some 10)) :
    unified (c :: rest) = 10 :: unified rest := by
  have hvalue : c = 13 ∨ c = 10 := by simpa [isBreak] using h
  cases rest with
  | nil =>
    rcases hvalue with rfl | rfl <;> simp [unified, replaceCrLf_single, replaceUnit]
  | cons d more =>
    have hpair : ¬ (c = 13 ∧ d = 10) := by simpa using hcrlf
    have hreplace :
        replaceCrLf (c :: d :: more) = c :: replaceCrLf (d :: more) := by
      rw [replaceCrLf_pair, if_neg hpair]
    rcases hvalue with rfl | rfl <;> simp [unified, hreplace, replaceUnit]

theorem breaks_induction {motive : Text → Prop} (nil : motive [])
    (pair : ∀ rest, motive rest → motive (13 :: 10 :: rest))
    (single : ∀ c rest, isBreak c = true → ¬ (c = 13 ∧ rest.head? = some 10) →
      motive rest → motive (c :: rest))
    (plain : ∀ c rest, isBreak c = false → motive rest → motive (c :: rest))
    (text : Text) : motive text := by
  induction text using crlf.induct with
  | case1 => exact nil
  | case2 c h => exact single c [] h (by simp) nil
  | case3 c h => exact plain c [] (by simpa using h) nil
  | case4 c d rest h ih =>
    obtain ⟨rfl, rfl⟩ := h
    exact pair rest ih
  | case5 c d rest hpair h ih => exact single c _ h (by simpa using hpair) ih
  | case6 c d rest hpair h ih => exact plain c _ (by simpa using h) ih

theorem crlf_crlf (rest : Text) :
    crlf (13 :: 10 :: rest) = 13 :: 10 :: crlf rest := by
  simp [crlf]

theorem crlf_break {rest : Text} (h : isBreak c = true)
    (hcrlf : ¬ (c = 13 ∧ rest.head? = some 10)) :
    crlf (c :: rest) = 13 :: 10 :: crlf rest := by
  cases rest with
  | nil => simp [crlf, h]
  | cons d more =>
    have hpair : ¬ (c = 13 ∧ d = 10) := by simpa using hcrlf
    simp [crlf, h, hpair]

theorem crlf_plain (rest : Text) (h : isBreak c = false) :
    crlf (c :: rest) = c :: crlf rest := by
  have hne : c ≠ 13 := by
    rintro rfl
    simp [isBreak] at h
  cases rest <;> simp [crlf, h, hne]

theorem crlf_eq (text : Text) :
    crlf text = replaceUnit 10 [13, 10] (unified text) := by
  induction text using breaks_induction with
  | nil => rfl
  | pair rest ih => simp [crlf_crlf, unified_crlf, ih, replaceUnit]
  | single c rest h hcrlf ih =>
    simp [crlf_break h hcrlf, unified_break h hcrlf, ih, replaceUnit]
  | plain c rest h ih =>
    have hne : c ≠ 10 := by
      rintro rfl
      simp [isBreak] at h
    simp [crlf_plain rest h, unified_plain rest h, ih, replaceUnit, hne]

theorem unified_head (text : Text) :
    (unified text).head?.any isBreak = text.head?.any isBreak := by
  induction text using breaks_induction with
  | nil => rfl
  | pair rest ih => simp [unified_crlf, isBreak]
  | single c rest h hcrlf ih =>
    have hlf : isBreak 10 = true := rfl
    simp [unified_break h hcrlf, h, hlf]
  | plain c rest h ih => simp [unified_plain rest h]

theorem slashBreak_unified (text : Text) :
    slashBreak (unified text) = slashBreak text := by
  induction text using breaks_induction with
  | nil => rfl
  | pair rest ih => simp [unified_crlf, slashBreak, ih]
  | single c rest h hcrlf ih =>
    have hne : c ≠ 92 := by
      rintro rfl
      simp [isBreak] at h
    simp [unified_break h hcrlf, slashBreak, ih, hne]
  | plain c rest h ih =>
    simp [unified_plain rest h, slashBreak, ih, unified_head]

theorem not_mem_unified (text : Text) : 13 ∉ unified text := by
  induction text using breaks_induction with
  | nil => simp
  | pair rest ih => simp [unified_crlf, ih]
  | single c rest h hcrlf ih => simp [unified_break h hcrlf, ih]
  | plain c rest h ih =>
    have hne : 13 ≠ c := by
      rintro rfl
      simp [isBreak] at h
    simp [unified_plain rest h, ih, hne]

/-! ## Encoding and decoding -/

def packed (c : UInt16) : Text :=
  if c = 124 then [92, 124] else if c = 10 then [124] else [c]

theorem encodeFilter_eq (text : Text) :
    encodeFilter text = (unified text).flatMap packed := by
  have hdef : encodeFilter text =
      replaceUnit 10 [124] (replaceUnit 124 [92, 124] (unified text)) := rfl
  rw [hdef, replaceUnit, replaceUnit, List.flatMap_assoc]
  refine List.flatMap_congr fun c _ => ?_
  by_cases hbar : c = 124
  · simp [hbar, packed]
  · by_cases hbreak : c = 10 <;> simp [hbar, hbreak, packed]

theorem decode_bar (rest : Text) :
    decodeFilter (124 :: rest) = 13 :: 10 :: decodeFilter rest := by
  cases rest
  · rfl
  · simp [decodeFilter_pair]

theorem decode_escaped (rest : Text) :
    decodeFilter (92 :: 124 :: rest) = 124 :: decodeFilter rest := rfl

theorem decode_plain {rest : Text} (hbar : c ≠ 124)
    (h : ¬ (c = 92 ∧ rest.head? = some 124)) :
    decodeFilter (c :: rest) = c :: decodeFilter rest := by
  cases rest with
  | nil => simp [decodeFilter_single, hbar]
  | cons d more =>
    have hpair : ¬ (c = 92 ∧ d = 124) := by simpa using h
    simp [decodeFilter_pair, hpair, hbar]

theorem packed_head (text : Text) :
    (text.flatMap packed).head? = some 124 ↔ text.head? = some 10 := by
  cases text with
  | nil => simp
  | cons c rest =>
    by_cases hbar : c = 124
    · simp [hbar, packed]
    · by_cases hbreak : c = 10 <;> simp [hbar, hbreak, packed]

theorem head_isBreak {text : Text} (hcr : 13 ∉ text) :
    text.head?.any isBreak = decide (text.head? = some 10) := by
  cases text with
  | nil => simp
  | cons c rest =>
    rw [List.mem_cons, not_or] at hcr
    simp [isBreak, Ne.symm hcr.1]

/-- What is read back of a text with LF as line break: a backslash takes the
break behind it. -/
theorem decode_packed_iff {text : Text} (hcr : 13 ∉ text) :
    decodeFilter (text.flatMap packed) = replaceUnit 10 [13, 10] text ↔
      slashBreak text = false := by
  induction text with
  | nil => simp [replaceUnit, slashBreak]
  | cons c rest ih =>
    rw [List.mem_cons, not_or] at hcr
    have ih := ih hcr.2
    by_cases hbreak : c = 10
    · subst hbreak
      simpa [packed, decode_bar, replaceUnit, slashBreak] using ih
    by_cases hbar : c = 124
    · subst hbar
      simpa [packed, decode_escaped, replaceUnit, slashBreak] using ih
    by_cases hslash : c = 92 ∧ rest.head? = some 10
    · obtain ⟨rfl, hhead⟩ := hslash
      cases rest with
      | nil => simp at hhead
      | cons d more =>
        obtain rfl : d = 10 := by simpa using hhead
        simp [packed, decode_escaped, replaceUnit, slashBreak, isBreak]
    · have hplain : ¬ (c = 92 ∧ (rest.flatMap packed).head? = some 124) := by
        rwa [packed_head]
      have hslashBreak : slashBreak (c :: rest) = slashBreak rest := by
        rw [slashBreak, head_isBreak hcr.2, ← Bool.decide_and, decide_eq_false hslash,
          Bool.false_or]
      rw [hslashBreak, ← ih]
      simp [packed, hbar, hbreak, decode_plain hbar hplain, replaceUnit]

theorem decode_encode_iff (text : Text) :
    decodeFilter (encodeFilter text) = crlf text ↔ slashBreak text = false := by
  rw [encodeFilter_eq, crlf_eq, decode_packed_iff (not_mem_unified text),
    slashBreak_unified]

/-- What counts as white space for `TrimLeft`. -/
structure Spaces where
  test : UInt16 → Bool
  blank : ∀ c, isProfileBlank c = true → test c = true
  double : test 34 = false
  single : test 39 = false

section Lines

variable (w : Spaces)

def linesFrom (line : Text) : Text → List Text
  | [] => pushLine w.test line
  | c :: rest =>
    if c = 10 then pushLine w.test line ++ linesFrom [] rest
    else linesFrom (line ++ [c]) rest

variable {w}

theorem splitFrom_eq (line text : Text) :
    splitFrom w.test line text = linesFrom w line (unified text) := by
  induction line, text using splitFrom.induct with
  | case1 line => rfl
  | case2 line c h =>
    have hcrlf : ¬ (c = 13 ∧ ([] : Text).head? = some 10) := by simp
    simp [splitFrom, h, unified_break h hcrlf, linesFrom, pushLine]
  | case3 line c h =>
    have hplain : isBreak c = false := by simpa using h
    have hne : c ≠ 10 := by
      rintro rfl
      simp [isBreak] at hplain
    simp [splitFrom, hplain, unified_plain [] hplain, linesFrom, hne]
  | case4 line c d rest h ih =>
    obtain ⟨rfl, rfl⟩ := h
    simp [splitFrom, unified_crlf, linesFrom, ih]
  | case5 line c d rest hpair h ih =>
    have hcrlf : ¬ (c = 13 ∧ (d :: rest).head? = some 10) := by simpa using hpair
    simp [splitFrom, hpair, h, unified_break h hcrlf, linesFrom, ih]
  | case6 line c d rest hpair h ih =>
    have hplain : isBreak c = false := by simpa using h
    have hne : c ≠ 10 := by
      rintro rfl
      simp [isBreak] at hplain
    simp [splitFrom, hpair, hplain, unified_plain _ hplain, linesFrom, hne, ih]

theorem splitFilterPatterns_eq (text : Text) :
    splitFilterPatterns w.test text = linesFrom w [] (unified text) :=
  splitFrom_eq [] text

theorem unified_replace (text : Text) (hcr : 13 ∉ text) :
    unified (replaceUnit 10 [13, 10] text) = text := by
  induction text with
  | nil => rfl
  | cons c rest ih =>
    rw [List.mem_cons, not_or] at hcr
    by_cases hbreak : c = 10
    · simpa [hbreak, replaceUnit, unified_crlf] using ih hcr.2
    · have hplain : isBreak c = false := by simp [isBreak, hbreak, Ne.symm hcr.1]
      simpa [hbreak, replaceUnit, unified_plain _ hplain] using ih hcr.2

theorem splitFilterPatterns_crlf (text : Text) :
    splitFilterPatterns w.test (crlf text) =
      splitFilterPatterns w.test text := by
  rw [splitFilterPatterns_eq, splitFilterPatterns_eq, crlf_eq,
    unified_replace _ (not_mem_unified text)]

/-! ## White space around a text -/

def isPlain (c : UInt16) : Bool := !isBreak c && c != 124

theorem unified_append (before text : Text) (h : ∀ c ∈ before, isPlain c = true) :
    unified (before ++ text) = before ++ unified text := by
  induction before with
  | nil => rfl
  | cons c rest ih =>
    rw [List.forall_mem_cons] at h
    have hplain : isBreak c = false := by
      have hc := h.1
      simp only [isPlain, Bool.and_eq_true, Bool.not_eq_true'] at hc
      exact hc.1
    simp [unified_plain _ hplain, ih h.2]

theorem unified_append_plain {text after : Text} (h : ∀ c ∈ after, isPlain c = true) :
    unified (text ++ after) = unified text ++ after := by
  have hafter : unified after = after := by
    simpa using unified_append after [] h
  induction text using breaks_induction with
  | nil => simpa using hafter
  | pair rest ih => simp [unified_crlf, ih]
  | single c rest hbreak hcrlf ih =>
    have hnext : ¬ (c = 13 ∧ (rest ++ after).head? = some 10) := by
      rintro ⟨rfl, hhead⟩
      cases rest with
      | nil =>
        cases after with
        | nil => simp at hhead
        | cons d more =>
          obtain rfl : d = 10 := by simpa using hhead
          have hplain := h 10 (by simp)
          simp [isPlain, isBreak] at hplain
      | cons d more => exact hcrlf ⟨rfl, by simpa using hhead⟩
    simp [unified_break hbreak hnext, unified_break hbreak hcrlf, ih]
  | plain c rest hc ih => simp [unified_plain _ hc, ih]

theorem flatMap_packed_plain {text : Text} (h : ∀ c ∈ text, isPlain c = true) :
    text.flatMap packed = text := by
  induction text with
  | nil => rfl
  | cons c rest ih =>
    rw [List.forall_mem_cons] at h
    have hc : c ≠ 124 ∧ c ≠ 10 := by
      have hc := h.1
      simp [isPlain, isBreak] at hc
      exact ⟨hc.2, hc.1.2⟩
    simp [packed, hc, ih h.2]

theorem encodeFilter_append {before after : Text} (text : Text)
    (hbefore : ∀ c ∈ before, isPlain c = true)
    (hafter : ∀ c ∈ after, isPlain c = true) :
    encodeFilter (before ++ text ++ after) =
      before ++ encodeFilter text ++ after := by
  rw [encodeFilter_eq, List.append_assoc, unified_append before _ hbefore,
    unified_append_plain hafter, List.flatMap_append, List.flatMap_append,
    flatMap_packed_plain hbefore, flatMap_packed_plain hafter, ← encodeFilter_eq,
    List.append_assoc]

end Lines

section Trim

variable {test : UInt16 → Bool}

theorem trim_append {before text after : Text} (hbefore : ∀ c ∈ before, test c = true)
    (hafter : ∀ c ∈ after, test c = true) (hhead : text.head?.any test = false)
    (hlast : text.getLast?.any test = false) :
    trim test (before ++ text ++ after) = text := by
  cases text with
  | nil =>
    have hall : ∀ c ∈ before ++ after, test c = true := by
      simpa [or_imp, forall_and] using ⟨hbefore, hafter⟩
    have hnil : (before ++ after ++ []).dropWhile test = [].dropWhile test :=
      List.dropWhile_append_of_pos hall
    rw [List.append_nil] at hnil
    simp [trim, hnil]
  | cons c rest =>
    have hc : test c = false := by simpa using hhead
    obtain ⟨d, hd⟩ : ∃ d, (c :: rest).getLast? = some d := by
      simp [List.getLast?_cons]
    have hdtest : test d = false := by simpa [hd] using hlast
    obtain ⟨init, hinit⟩ := List.getLast?_eq_some_iff.1 hd
    have hreverse : (c :: rest).reverse.dropWhile test = (c :: rest).reverse := by
      simp [hinit, hdtest]
    rw [trim, List.append_assoc, List.dropWhile_append_of_pos hbefore]
    simp only [List.cons_append, List.dropWhile_cons, hc, Bool.false_eq_true,
      if_false]
    rw [← List.cons_append, List.reverse_append,
      List.dropWhile_append_of_pos (by simpa using hafter), hreverse,
      List.reverse_reverse]

theorem dropWhile_head (test : UInt16 → Bool) (text : Text) :
    (text.dropWhile test).head?.any test = false := by
  have h := List.head?_dropWhile_not test text
  cases hhead : (text.dropWhile test).head? with
  | none => rfl
  | some c =>
    rw [hhead] at h
    exact h

theorem exists_trim (test : UInt16 → Bool) (text : Text) :
    ∃ before after, text = before ++ trim test text ++ after ∧
      (∀ c ∈ before, test c = true) ∧ (∀ c ∈ after, test c = true) ∧
      (trim test text).head?.any test = false ∧
      (trim test text).getLast?.any test = false := by
  have hfront := List.takeWhile_append_dropWhile (p := test) (l := text)
  have hback := List.takeWhile_append_dropWhile (p := test)
    (l := (text.dropWhile test).reverse)
  have hend := congrArg List.reverse hback
  rw [List.reverse_append, List.reverse_reverse, ← trim] at hend
  refine ⟨text.takeWhile test, ((text.dropWhile test).reverse.takeWhile test).reverse,
    ?_, fun c hc => List.all_eq_true.1 List.all_takeWhile c hc,
    fun c hc => List.all_eq_true.1 List.all_takeWhile c (List.mem_reverse.1 hc), ?_, ?_⟩
  · rw [List.append_assoc, hend, hfront]
  · cases htrim : trim test text with
    | nil => rfl
    | cons c rest =>
      rw [htrim] at hend
      have hhead := dropWhile_head test text
      rw [← hend] at hhead
      simpa using hhead
  · rw [trim, List.getLast?_reverse]
    exact dropWhile_head test _

end Trim

/-! ## The settings file -/

def firstUnit (c : UInt16) : UInt16 :=
  if isBreak c then 124 else if c = 124 then 92 else c

def lastUnit (c : UInt16) : UInt16 := if isBreak c then 124 else c

theorem encodeFilter_crlf (rest : Text) :
    encodeFilter (13 :: 10 :: rest) = 124 :: encodeFilter rest := by
  simp [encodeFilter_eq, unified_crlf, packed]

variable {c : UInt16}

theorem encodeFilter_break {rest : Text} (h : isBreak c = true)
    (hcrlf : ¬ (c = 13 ∧ rest.head? = some 10)) :
    encodeFilter (c :: rest) = 124 :: encodeFilter rest := by
  simp [encodeFilter_eq, unified_break h hcrlf, packed]

theorem encodeFilter_cons (rest : Text) (h : isBreak c = false) :
    encodeFilter (c :: rest) = packed c ++ encodeFilter rest := by
  simp [encodeFilter_eq, unified_plain rest h]

theorem packed_eq (h : isBreak c = false) :
    packed c = if c = 124 then [92, 124] else [c] := by
  have hne : c ≠ 10 := by
    rintro rfl
    simp [isBreak] at h
  simp [packed, hne]

theorem encodeFilter_head (text : Text) :
    (encodeFilter text).head? = text.head?.map firstUnit := by
  induction text using breaks_induction with
  | nil => rfl
  | pair rest ih => simp [encodeFilter_crlf, firstUnit, isBreak]
  | single c rest h hcrlf ih => simp [encodeFilter_break h hcrlf, firstUnit, h]
  | plain c rest h ih =>
    rw [encodeFilter_cons rest h, packed_eq h]
    have hbarBreak : isBreak 124 = false := rfl
    by_cases hbar : c = 124 <;> simp [firstUnit, h, hbar, hbarBreak]

theorem encodeFilter_getLast (text : Text) :
    (encodeFilter text).getLast? = text.getLast?.map lastUnit := by
  induction text using breaks_induction with
  | nil => rfl
  | pair rest ih =>
    cases hlast : rest.getLast? <;>
      simp [encodeFilter_crlf, List.getLast?_cons, ih, hlast, lastUnit, isBreak]
  | single c rest h hcrlf ih =>
    cases hlast : rest.getLast? <;>
      simp [encodeFilter_break h hcrlf, List.getLast?_cons, ih, hlast, lastUnit, h]
  | plain c rest h ih =>
    rw [encodeFilter_cons rest h, packed_eq h]
    by_cases hbar : c = 124 <;> cases hlast : rest.getLast? <;>
      simp [List.getLast?_cons, ih, hlast, lastUnit, h, hbar]

theorem isQuoted_iff {value : Text} :
    isQuoted value = true ↔
      ∃ q text, (q = 34 ∨ q = 39) ∧ value = [q] ++ text ++ [q] := by
  constructor
  · intro h
    simp only [isQuoted, Bool.and_eq_true, Bool.or_eq_true, decide_eq_true_eq] at h
    obtain ⟨⟨hlength, hlast⟩, hquote⟩ := h
    match value, hlength with
    | q :: d :: rest, _ =>
      rw [List.head?_cons, List.getLast?_cons_cons, eq_comm,
        List.getLast?_eq_some_iff] at hlast
      obtain ⟨text, htext⟩ := hlast
      exact ⟨q, text, by simpa using hquote, by simp [htext]⟩
  · rintro ⟨q, text, hquote, rfl⟩
    rcases hquote with rfl | rfl <;> simp [isQuoted, List.getLast?_cons]

variable {q : UInt16}

theorem unquote_quoted (hq : q = 34 ∨ q = 39) (text : Text) :
    unquote ([q] ++ text ++ [q]) = text := by
  have hquoted := isQuoted_iff.2 ⟨q, text, hq, rfl⟩
  rw [unquote, if_pos hquoted]
  simp

theorem isPlain_quote (hq : q = 34 ∨ q = 39) :
    ∀ c ∈ [q], isPlain c = true := by
  intro c hc
  obtain rfl := List.mem_singleton.1 hc
  rcases hq with rfl | rfl <;> rfl

theorem encodeFilter_quoted (hq : q = 34 ∨ q = 39) (text : Text) :
    encodeFilter ([q] ++ text ++ [q]) = [q] ++ encodeFilter text ++ [q] :=
  encodeFilter_append text (isPlain_quote hq) (isPlain_quote hq)

theorem firstUnit_quote (hq : q = 34 ∨ q = 39) (h : firstUnit c = q) :
    c = q := by
  unfold firstUnit at h
  split at h
  · rcases hq with rfl | rfl <;> simp at h
  · split at h
    · rcases hq with rfl | rfl <;> simp at h
    · exact h

theorem lastUnit_quote (hq : q = 34 ∨ q = 39) (h : lastUnit c = q) :
    c = q := by
  unfold lastUnit at h
  split at h
  · rcases hq with rfl | rfl <;> simp at h
  · exact h

theorem isQuoted_encodeFilter (text : Text) :
    isQuoted (encodeFilter text) = isQuoted text := by
  rw [Bool.eq_iff_iff]
  constructor
  · intro h
    obtain ⟨q, inner, hq, hinner⟩ := isQuoted_iff.1 h
    have hhead : text.head?.map firstUnit = some q := by
      rw [← encodeFilter_head, hinner]
      rfl
    have hlast : text.getLast?.map lastUnit = some q := by
      rw [← encodeFilter_getLast, hinner, List.getLast?_append]
      rfl
    rw [Option.map_eq_some_iff] at hhead hlast
    obtain ⟨c, hc, hfirst⟩ := hhead
    obtain ⟨d, hd, hend⟩ := hlast
    rw [firstUnit_quote hq hfirst] at hc
    rw [lastUnit_quote hq hend] at hd
    match text with
    | [] => simp at hc
    | [_] =>
      obtain rfl := Option.some.inj hc
      have hlength := congrArg List.length hinner
      rcases hq with rfl | rfl <;>
        simp [encodeFilter_eq, unified, replaceCrLf, replaceUnit, packed] at hlength
    | _ :: d :: more =>
      obtain rfl := Option.some.inj hc
      rw [List.getLast?_cons_cons, List.getLast?_eq_some_iff] at hd
      obtain ⟨init, hinit⟩ := hd
      exact isQuoted_iff.2 ⟨_, init, hq, by simp [hinit]⟩
  · intro h
    obtain ⟨q, inner, hq, rfl⟩ := isQuoted_iff.1 h
    rw [encodeFilter_quoted hq]
    exact isQuoted_iff.2 ⟨q, _, hq, rfl⟩

theorem isPlain_blank (h : isProfileBlank c = true) :
    isPlain c = true := by
  have hvalue : c = 32 ∨ c = 9 := by simpa [isProfileBlank] using h
  rcases hvalue with rfl | rfl <;> rfl

theorem firstUnit_blank (c : UInt16) :
    isProfileBlank (firstUnit c) = isProfileBlank c := by
  unfold firstUnit
  split
  case isTrue h =>
    have hvalue : c = 13 ∨ c = 10 := by simpa [isBreak] using h
    rcases hvalue with rfl | rfl <;> rfl
  case isFalse =>
    split
    case isTrue h => simp [h, isProfileBlank]
    case isFalse => rfl

theorem lastUnit_blank (c : UInt16) :
    isProfileBlank (lastUnit c) = isProfileBlank c := by
  unfold lastUnit
  split
  case isTrue h =>
    have hvalue : c = 13 ∨ c = 10 := by simpa [isBreak] using h
    rcases hvalue with rfl | rfl <;> rfl
  case isFalse => rfl

theorem unquote_encodeFilter (text : Text) :
    unquote (encodeFilter text) = encodeFilter (unquote text) := by
  cases hquoted : isQuoted text with
  | true =>
    obtain ⟨q, inner, hq, rfl⟩ := isQuoted_iff.1 hquoted
    rw [encodeFilter_quoted hq, unquote_quoted hq, unquote_quoted hq]
  | false => simp [unquote, isQuoted_encodeFilter, hquoted]

theorem trim_encodeFilter (text : Text) :
    trim isProfileBlank (encodeFilter text) =
      encodeFilter (trim isProfileBlank text) := by
  obtain ⟨before, after, htext, hbefore, hafter, hhead, hlast⟩ :=
    exists_trim isProfileBlank text
  generalize trim isProfileBlank text = core at htext hhead hlast
  rw [htext, encodeFilter_append core (fun c hc => isPlain_blank (hbefore c hc))
    fun c hc => isPlain_blank (hafter c hc)]
  refine trim_append hbefore hafter ?_ ?_
  · rw [encodeFilter_head, ← hhead]
    cases core.head? <;> simp [firstUnit_blank]
  · rw [encodeFilter_getLast, ← hlast]
    cases core.getLast? <;> simp [lastUnit_blank]

/-- The value that is read is the written form of what the file would keep of
the text itself. -/
theorem getPrivateProfileString_encodeFilter (text : Text) :
    getPrivateProfileString (encodeFilter text) =
      encodeFilter (getPrivateProfileString text) := by
  rw [getPrivateProfileString, trim_encodeFilter, unquote_encodeFilter,
    getPrivateProfileString]

/-! ## Rules and white space -/

section Weight

variable {w : Spaces}

theorem pushLine_eq (line : Text) :
    pushLine w.test line =
      if trim w.test line ≠ [] ∧ (trim w.test line).head? ≠ some 35 then
        [trim w.test line]
      else [] := by
  by_cases hline : line = []
  · simp [pushLine, hline, trim]
  · simp [pushLine, hline]

variable {before : Text}

theorem trim_left (line : Text) (h : ∀ c ∈ before, w.test c = true) :
    trim w.test (before ++ line) = trim w.test line := by
  rw [trim, List.dropWhile_append_of_pos h, trim]

theorem trim_right (line : Text) {after : Text}
    (h : ∀ c ∈ after, w.test c = true) :
    trim w.test (line ++ after) = trim w.test line := by
  have hreverse : ∀ c ∈ after.reverse, w.test c = true := by simpa using h
  rw [trim, List.dropWhile_append, trim]
  cases hline : line.dropWhile w.test with
  | nil =>
    have hnil : (after ++ []).dropWhile w.test = [].dropWhile w.test :=
      List.dropWhile_append_of_pos h
    rw [List.append_nil] at hnil
    simp [hnil]
  | cons c rest =>
    simp only [List.isEmpty_cons, Bool.false_eq_true, if_false]
    rw [List.reverse_append, List.dropWhile_append_of_pos hreverse]

theorem pushLine_left (line : Text) (h : ∀ c ∈ before, w.test c = true) :
    pushLine w.test (before ++ line) = pushLine w.test line := by
  rw [pushLine_eq, pushLine_eq, trim_left line h]

theorem pushLine_right (line : Text) {after : Text}
    (h : ∀ c ∈ after, w.test c = true) :
    pushLine w.test (line ++ after) = pushLine w.test line := by
  rw [pushLine_eq, pushLine_eq, trim_right line h]

theorem linesFrom_left (line text : Text) (h : ∀ c ∈ before, w.test c = true) :
    linesFrom w (before ++ line) text = linesFrom w line text := by
  induction text generalizing line with
  | nil => exact pushLine_left line h
  | cons c rest ih =>
    by_cases hbreak : c = 10
    · simp [linesFrom, hbreak, pushLine_left line h]
    · simp [linesFrom, hbreak, ih]

theorem linesFrom_plain (line text : Text) (h : 10 ∉ before) :
    linesFrom w line (before ++ text) = linesFrom w (line ++ before) text := by
  induction before generalizing line with
  | nil => simp
  | cons c rest ih =>
    rw [List.mem_cons, not_or] at h
    simp [linesFrom, Ne.symm h.1, ih _ h.2]

theorem linesFrom_right (line text : Text) {after : Text}
    (h : ∀ c ∈ after, w.test c = true) (hbreak : 10 ∉ after) :
    linesFrom w line (text ++ after) = linesFrom w line text := by
  induction text generalizing line with
  | nil =>
    have hafter := linesFrom_plain (w := w) line [] hbreak
    rw [List.append_nil] at hafter
    rw [List.nil_append, hafter]
    exact pushLine_right line h
  | cons c rest ih =>
    by_cases hc : c = 10 <;> simp [linesFrom, hc, ih]

def weight (rules : List Text) : Nat := (rules.map List.length).sum

@[simp] theorem weight_append (rules more : List Text) :
    weight (rules ++ more) = weight rules + weight more := by
  simp [weight]

theorem weight_pushLine_le (line : Text) :
    weight (pushLine w.test line) ≤ (trim w.test line).length := by
  rw [pushLine_eq]
  split <;> simp [weight]

def trimRight (test : UInt16 → Bool) (line : Text) : Text :=
  (line.reverse.dropWhile test).reverse

private theorem trimRight_length_le (test : UInt16 → Bool) (before line : Text) :
    (trimRight test line).length ≤ (trimRight test (before ++ line)).length := by
  simp only [trimRight, List.length_reverse, List.reverse_append,
    List.dropWhile_append]
  split
  case isTrue h => simp [List.isEmpty_iff.1 h]
  case isFalse => simp

theorem trim_length_le (line : Text) :
    (trim w.test line).length ≤ (trimRight w.test line).length := by
  have h := trimRight_length_le w.test (line.takeWhile w.test) (line.dropWhile w.test)
  rwa [List.takeWhile_append_dropWhile] at h

variable {q : UInt16}

theorem spaces_quote (hq : q = 34 ∨ q = 39) : w.test q = false := by
  rcases hq with rfl | rfl
  · exact w.double
  · exact w.single

theorem weight_pushLine_cons (hq : q = 34 ∨ q = 39) (line : Text) :
    weight (pushLine w.test line) < weight (pushLine w.test (q :: line)) := by
  have hspace := spaces_quote (w := w) hq
  have htrim : trim w.test (q :: line) = q :: trimRight w.test line := by
    simp only [trim, List.dropWhile_cons, hspace, Bool.false_eq_true, if_false,
      List.reverse_cons, List.dropWhile_append, trimRight]
    split
    case isTrue h => simp [List.isEmpty_iff.1 h]
    case isFalse => simp
  have hcomment : ¬ q = 35 := by
    rcases hq with rfl | rfl <;> decide
  have hpush : pushLine w.test (q :: line) =
      [q :: trimRight w.test line] := by
    simp [pushLine_eq, htrim, hcomment]
  have hline := weight_pushLine_le (w := w) line
  have hle := trim_length_le (w := w) line
  rw [hpush]
  simp only [weight, List.map_cons, List.map_nil, List.length_cons, List.sum_cons,
    List.sum_nil] at hline ⊢
  omega

theorem dropWhile_eq_trim (test : UInt16 → Bool) (line : Text) :
    ∃ after, line.dropWhile test = trim test line ++ after := by
  have hback := List.takeWhile_append_dropWhile (p := test)
    (l := (line.dropWhile test).reverse)
  have hend := congrArg List.reverse hback
  rw [List.reverse_append, List.reverse_reverse, ← trim] at hend
  exact ⟨_, hend.symm⟩

theorem weight_pushLine_concat (hq : q = 34 ∨ q = 39) (line : Text) :
    weight (pushLine w.test line) ≤ weight (pushLine w.test (line ++ [q])) := by
  have hspace := spaces_quote (w := w) hq
  have htrim : trim w.test (line ++ [q]) =
      line.dropWhile w.test ++ [q] := by
    rw [trim, List.dropWhile_append]
    split
    case isTrue h => simp [List.isEmpty_iff.1 h, hspace]
    case isFalse => simp [hspace]
  by_cases hrule : trim w.test line ≠ [] ∧ (trim w.test line).head? ≠ some 35
  · obtain ⟨after, hafter⟩ := dropWhile_eq_trim w.test line
    rw [hafter] at htrim
    obtain ⟨hne, hcomment⟩ := hrule
    have hnew : trim w.test (line ++ [q]) ≠ [] ∧
        (trim w.test (line ++ [q])).head? ≠ some 35 := by
      rw [htrim]
      cases hcore : trim w.test line with
      | nil => exact absurd hcore hne
      | cons c rest => simpa [hcore] using hcomment
    rw [pushLine_eq, if_pos ⟨hne, hcomment⟩, pushLine_eq, if_pos hnew, htrim]
    simp [weight]
  · rw [pushLine_eq line, if_neg hrule]
    simp [weight]

theorem weight_linesFrom_cons (hq : q = 34 ∨ q = 39) (line text : Text) :
    weight (linesFrom w line text) < weight (linesFrom w (q :: line) text) := by
  induction text generalizing line with
  | nil => exact weight_pushLine_cons hq line
  | cons c rest ih =>
    have hline := weight_pushLine_cons (w := w) hq line
    by_cases hc : c = 10
    · simpa [linesFrom, hc] using hline
    · simpa [linesFrom, hc] using ih (line ++ [c])

theorem weight_linesFrom_concat (hq : q = 34 ∨ q = 39) (line text : Text) :
    weight (linesFrom w line text) ≤ weight (linesFrom w line (text ++ [q])) := by
  induction text generalizing line with
  | nil =>
    have hbreak : ¬ q = 10 := by
      rcases hq with rfl | rfl <;> decide
    simpa [linesFrom, hbreak] using weight_pushLine_concat hq line
  | cons c rest ih =>
    by_cases hc : c = 10
    · simpa [linesFrom, hc] using ih []
    · simpa [linesFrom, hc] using ih (line ++ [c])

end Weight

/-! ## What is loaded -/

variable {w : Spaces}

theorem not_mem_blank {text : Text} (h : ∀ c ∈ text, isProfileBlank c = true) :
    10 ∉ text := by
  intro hmem
  have hblank := h 10 hmem
  simp [isProfileBlank] at hblank

theorem splitFilterPatterns_trim (text : Text) :
    splitFilterPatterns w.test (trim isProfileBlank text) =
      splitFilterPatterns w.test text := by
  obtain ⟨before, after, htext, hbefore, hafter, -⟩ := exists_trim isProfileBlank text
  generalize trim isProfileBlank text = core at htext
  rw [htext, splitFilterPatterns_eq, splitFilterPatterns_eq, List.append_assoc,
    unified_append before _ (fun c hc => isPlain_blank (hbefore c hc)),
    unified_append_plain (fun c hc => isPlain_blank (hafter c hc)),
    linesFrom_plain [] _ (not_mem_blank hbefore), List.nil_append]
  have hleft := linesFrom_left (w := w) [] (unified core ++ after)
    fun c hc => w.blank c (hbefore c hc)
  rw [List.append_nil] at hleft
  rw [hleft, linesFrom_right [] _ (fun c hc => w.blank c (hafter c hc))
    (not_mem_blank hafter)]

theorem splitFilterPatterns_quoted {q : UInt16} (hq : q = 34 ∨ q = 39) (text : Text) :
    splitFilterPatterns w.test text ≠
      splitFilterPatterns w.test ([q] ++ text ++ [q]) := by
  intro h
  have hbreak : 10 ∉ [q] := by
    rcases hq with rfl | rfl <;> decide
  rw [splitFilterPatterns_eq, splitFilterPatterns_eq, List.append_assoc,
    unified_append [q] _ (isPlain_quote hq), unified_append_plain (isPlain_quote hq),
    linesFrom_plain [] _ hbreak, List.nil_append] at h
  have hfirst := weight_linesFrom_cons (w := w) hq [] (unified text ++ [q])
  have hlast := weight_linesFrom_concat (w := w) hq [] (unified text)
  rw [← h] at hfirst
  omega

theorem slashBreak_inner {before text after : Text}
    (h : slashBreak (before ++ text ++ after) = false) : slashBreak text = false := by
  rw [List.append_assoc] at h
  induction before with
  | nil =>
    rw [List.nil_append] at h
    induction text with
    | nil => rfl
    | cons c rest ih =>
      rw [List.cons_append, slashBreak, Bool.or_eq_false_iff] at h
      rw [slashBreak, Bool.or_eq_false_iff]
      refine ⟨?_, ih h.2⟩
      cases rest with
      | nil => simp
      | cons d more => simpa using h.1
  | cons c rest ih =>
    rw [List.cons_append, slashBreak, Bool.or_eq_false_iff] at h
    exact ih h.2

theorem splitFilterPatterns_saved {text : Text} (h : slashBreak text = false) :
    splitFilterPatterns w.test (savedAndLoaded text) =
        splitFilterPatterns w.test text ↔
      isQuoted (trim isProfileBlank text) = false := by
  obtain ⟨before, after, htext, -⟩ := exists_trim isProfileBlank text
  have hcore : slashBreak (trim isProfileBlank text) = false := by
    rw [htext] at h
    exact slashBreak_inner h
  rw [← splitFilterPatterns_trim text, savedAndLoaded,
    getPrivateProfileString_encodeFilter, getPrivateProfileString]
  generalize trim isProfileBlank text = core at hcore
  cases hquoted : isQuoted core with
  | true =>
    obtain ⟨q, inner, hq, rfl⟩ := isQuoted_iff.1 hquoted
    rw [unquote_quoted hq, (decode_encode_iff inner).2 (slashBreak_inner hcore),
      splitFilterPatterns_crlf]
    simpa using splitFilterPatterns_quoted hq inner
  | false =>
    have hsame : unquote core = core := by simp [unquote, hquoted]
    rw [hsame, (decode_encode_iff core).2 hcore, splitFilterPatterns_crlf]
    simp

/-- A filter and its rules survive saving and loading unless a backslash stands
directly before a line break or the text is in quotation marks. -/
theorem filter_survives_iff (w : Spaces) (text : Text) :
    (decodeFilter (encodeFilter text) = crlf text ↔ slashBreak text = false) ∧
      (decodeFilter (encodeFilter text) = crlf text ∧
          splitFilterPatterns w.test (savedAndLoaded text) =
            splitFilterPatterns w.test text ↔
        slashBreak text = false ∧ isQuoted (trim isProfileBlank text) = false) := by
  have hcodec := decode_encode_iff text
  refine ⟨hcodec, ?_⟩
  rw [hcodec]
  exact and_congr_right fun h => splitFilterPatterns_saved h

def cSpaces : Spaces where
  test c := c = 32 || (9 ≤ c && c ≤ 13)
  blank := by
    intro c hc
    have hvalue : c = 32 ∨ c = 9 := by simpa [isProfileBlank] using hc
    rcases hvalue with rfl | rfl <;> rfl
  double := rfl
  single := rfl

theorem filter_merged :
    decodeFilter (encodeFilter (wide "C:\\Games\\\r\nupdate.exe")) ≠
        crlf (wide "C:\\Games\\\r\nupdate.exe") ∧
      splitFilterPatterns cSpaces.test (wide "C:\\Games\\\r\nupdate.exe") =
        [wide "C:\\Games\\", wide "update.exe"] ∧
      splitFilterPatterns cSpaces.test
          (savedAndLoaded (wide "C:\\Games\\\r\nupdate.exe")) =
        [wide "C:\\Games|update.exe"] := by
  decide

end ProxyLane.App.ProfileFilter
