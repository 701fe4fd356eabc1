import ProxyLane.App.Automation

/-!
# Where the arguments of the application begin

The boundary is found by cutting a command line before its blanks and putting a
word behind the cut.  The cut is the right one because the word becomes an
argument of its own, and it is the only one because every later cut has further
arguments before it.
-/

namespace ProxyLane.App.Automation

open RecentApplications ProxyLane.Foundation

theorem marker_plain : ∀ c ∈ marker, c ≠ windows.quote ∧ windows.blank c = false := by
  have hall : marker.all (fun c => c ≠ windows.quote && !windows.blank c) = true := by
    decide
  intro c hc
  simpa using List.all_eq_true.1 hall c hc

variable {commandLine : Text}

theorem commandLineToArgv_eq (modulePath : Text) {name rest : Text}
    (hne : commandLine ≠ [])
    (h : CommandLine.program windows commandLine = (name, rest)) :
    commandLineToArgv modulePath commandLine = name :: split rest := by
  simp [commandLineToArgv, hne, h]

/-- `first` ends outside quotation marks. -/
def closed (first : Text) : Prop :=
  (CommandLine.run windows (.clean []) first).quoted = false

structure Cut (name rest : Text) (argv : List Text) (argumentIndex : Nat)
    (first second : Text) : Prop where
  rest_eq : rest = first ++ second
  closed : closed first
  blank : second.head?.all isBlank = true
  argv_eq : argv = name :: (split first ++ split second)
  length_eq : (split first).length = argumentIndex

variable {argumentIndex : Nat}

theorem exists_cut (modulePath : Text)
    (hindex : 1 ≤ argumentIndex) (hne : commandLine ≠ []) :
    ∃ head name rest, commandLine = head ++ rest ∧ ∀ offset,
      offset ≤ commandLine.length → isCandidate commandLine offset = true →
      matched modulePath commandLine argumentIndex offset = true →
      head.length ≤ offset ∧
        Cut name rest (commandLineToArgv modulePath commandLine) argumentIndex
          (rest.take (offset - head.length)) (commandLine.drop offset) := by
  obtain ⟨head, name, rest, rfl, hprogram, hcut⟩ :=
    CommandLine.exists_program windows commandLine
  refine ⟨head, name, rest, rfl, fun offset hle hcandidate hmatched => ?_⟩
  have hargv := commandLineToArgv_eq modulePath hne hprogram
  have hblank : (head ++ rest)[offset]?.all isBlank = true := by
    simp only [isCandidate, Bool.and_eq_true] at hcandidate
    exact hcandidate.1
  have hprobe : ∀ p, CommandLine.program windows
      ((head ++ rest).take offset ++ 32 :: marker) = p →
      commandLineToArgv modulePath ((head ++ rest).take offset ++ [32] ++ marker) =
        p.1 :: split p.2 := by
    rintro p rfl
    exact commandLineToArgv_eq modulePath (by simp) (by simp)
  simp only [matched, Bool.and_eq_true, beq_iff_eq] at hmatched
  obtain ⟨⟨hlength, htake⟩, hlast⟩ := hmatched
  rcases hcut offset 32 marker hle hblank (by decide) (by decide) marker_plain with
    hone | ⟨hhead, hname⟩
  · rw [hprobe _ rfl, List.length_cons] at hlength
    have hshort : (split (CommandLine.program windows
      ((head ++ rest).take offset ++ 32 :: marker)).2).length ≤ 1 := hone
    omega
  · rw [hprobe _ hname] at hlength htake hlast
    simp only [List.length_cons, List.getElem?_cons_succ] at hlength hlast
    generalize hwords : split (rest.take (offset - head.length) ++ 32 :: marker) =
      words at hlength htake hlast
    rcases List.eq_nil_or_concat words with rfl | ⟨before, last, rfl⟩
    · simp at hlength
    · simp only [List.concat_eq_append, List.length_append, List.length_singleton]
        at hlength
      obtain rfl : argumentIndex = before.length := by omega
      obtain rfl : last = marker := by simpa using hlast
      rw [List.concat_eq_append] at hwords
      obtain ⟨hclosed, hbefore⟩ := CommandLine.split_probe windows (by decide)
        (by decide) marker_plain hwords
      have hdrop : (head ++ rest).drop offset = rest.drop (offset - head.length) := by
        rw [List.drop_append, List.drop_of_length_le hhead, List.nil_append]
      have hsecond : ((head ++ rest).drop offset).head?.all isBlank = true := by
        rwa [List.head?_drop]
      have hsplit : split rest = split (rest.take (offset - head.length)) ++
          split ((head ++ rest).drop offset) := by
        have happend := CommandLine.split_append windows hclosed hsecond
        rwa [hdrop, List.take_append_drop, ← hdrop] at happend
      refine ⟨hhead, ?_, hclosed, hsecond, ?_, congrArg List.length hbefore⟩
      · rw [hdrop, List.take_append_drop]
      · rw [hargv, hsplit]

variable {modulePath : Text}

theorem rawTail_cut {tail : Text}
    (h : rawTailAfterArgument modulePath commandLine argumentIndex = some tail) :
    1 ≤ argumentIndex ∧ commandLine ≠ [] ∧ ∃ offset,
      offset ≤ commandLine.length ∧ isCandidate commandLine offset = true ∧
      matched modulePath commandLine argumentIndex offset = true ∧
      tail = (commandLine.drop offset).dropWhile isBlank := by
  simp only [rawTailAfterArgument] at h
  split at h
  · simp at h
  split at h
  · simp at h
  obtain ⟨offset, hfind, rfl⟩ := Option.map_eq_some_iff.1 h
  have hmem := List.mem_of_find?_eq_some hfind
  have hfound := List.find?_some hfind
  simp only [List.mem_range, Bool.and_eq_true] at hmem hfound
  refine ⟨by omega, ?_, offset, by omega, hfound.1, hfound.2, rfl⟩
  rintro rfl
  rename_i hindex hargv
  simp [commandLineToArgv, show argumentIndex ≠ 0 by omega] at hargv

theorem split_rawTail {tail : Text}
    (h : rawTailAfterArgument modulePath commandLine argumentIndex = some tail) :
    split tail =
      (commandLineToArgv modulePath commandLine).drop (argumentIndex + 1) := by
  obtain ⟨hindex, hne, offset, hle, hcandidate, hmatched, rfl⟩ := rawTail_cut h
  obtain ⟨head, name, rest, -, hcut⟩ := exists_cut modulePath hindex hne
  obtain ⟨-, hcut⟩ := hcut offset hle hcandidate hmatched
  rw [hcut.argv_eq, List.drop_succ_cons, ← hcut.length_eq, List.drop_left]
  exact CommandLine.split_dropWhile windows _

theorem take_between {text : Text} {first second : Nat} (hlt : first < second)
    (hsecond : second ≤ text.length) (hblank : text[first]?.all isBlank = true)
    (hlast : text[second - 1]?.any isBlank = false) :
    ∃ c between, text.take second = text.take first ++ c :: between ∧
      isBlank c = true ∧ ∃ d ∈ between, isBlank d = false := by
  obtain ⟨k, rfl⟩ := Nat.exists_eq_add_of_lt hlt
  have hfirst : first < text.length := by omega
  rw [List.getElem?_eq_getElem hfirst] at hblank
  have hend : first + k + 1 - 1 = first + k := by omega
  rw [hend, List.getElem?_eq_getElem (by omega)] at hlast
  refine ⟨text[first], (text.drop (first + 1)).take k, ?_, by simpa using hblank,
    text[first + k], ?_, by simpa using hlast⟩
  · rw [Nat.add_assoc, List.take_add, List.drop_eq_getElem_cons hfirst,
      List.take_succ_cons]
  · cases k with
    | zero => simp_all
    | succ k =>
      refine List.mem_iff_getElem?.2 ⟨k, ?_⟩
      rw [List.getElem?_take_of_lt (by omega), List.getElem?_drop,
        List.getElem?_eq_getElem (by omega)]
      simp [show first + 1 + k = first + (k + 1) by omega]

theorem matched_unique {first second : Nat}
    (hindex : 1 ≤ argumentIndex) (hne : commandLine ≠ [])
    (hsecond : second ≤ commandLine.length)
    (hcandidates : isCandidate commandLine first = true ∧
      isCandidate commandLine second = true)
    (hmatched : matched modulePath commandLine argumentIndex first = true ∧
      matched modulePath commandLine argumentIndex second = true) : ¬ first < second := by
  intro hlt
  obtain ⟨head, name, rest, rfl, hcut⟩ := exists_cut modulePath hindex hne
  obtain ⟨hhead, hcutFirst⟩ := hcut first (by omega) hcandidates.1 hmatched.1
  obtain ⟨-, hcutSecond⟩ := hcut second hsecond hcandidates.2 hmatched.2
  simp only [isCandidate, Bool.and_eq_true] at hcandidates
  have hblank : rest[first - head.length]?.all isBlank = true := by
    have h := hcandidates.1.1
    rwa [List.getElem?_append_right hhead] at h
  have hlast : rest[second - head.length - 1]?.any isBlank = false := by
    have h := hcandidates.2.2
    rw [List.getElem?_append_right (by omega), Nat.sub_right_comm] at h
    simpa [show 0 < second by omega] using h
  obtain ⟨c, between, htake, hc, d, hd, hdblank⟩ := take_between
    (show first - head.length < second - head.length by omega)
    (by simp at hsecond; omega) hblank hlast
  have hlength := hcutSecond.length_eq
  rw [htake, show split (_ ++ c :: between) = _ from
    CommandLine.split_boundary windows between hcutFirst.closed hc,
    List.length_append, hcutFirst.length_eq] at hlength
  have hnone := List.length_pos_iff.2
    (CommandLine.split_ne_nil windows hd (hdblank : windows.blank d = false))
  omega

theorem rawTail_eq (offset : Nat)
    (hindex : 1 ≤ argumentIndex) (hne : commandLine ≠ [])
    (hargv : (commandLineToArgv modulePath commandLine)[argumentIndex]? =
      some (wide "--"))
    (hle : offset ≤ commandLine.length) (hcandidate : isCandidate commandLine offset = true)
    (hmatched : matched modulePath commandLine argumentIndex offset = true) :
    rawTailAfterArgument modulePath commandLine argumentIndex =
      some ((commandLine.drop offset).dropWhile isBlank) := by
  have hfind : ((List.range (commandLine.length + 1)).find? fun offset =>
      isCandidate commandLine offset &&
        matched modulePath commandLine argumentIndex offset) = some offset := by
    rw [List.find?_range_eq_some]
    refine ⟨by simp [hcandidate, hmatched], List.mem_range.2 (by omega), ?_⟩
    intro earlier hearlier
    simp only [Bool.not_eq_true', Bool.eq_false_iff, Ne, Bool.and_eq_true]
    intro hother
    exact matched_unique hindex hne hle ⟨hother.1, hcandidate⟩ ⟨hother.2, hmatched⟩
      hearlier
  simp [rawTailAfterArgument, hargv, hfind, show argumentIndex ≠ 0 by omega]

theorem run_backslashes (done : List Text) (word : Text) (n m : Nat) (quoted : Bool) :
    CommandLine.run windows ⟨done, some word, n, quoted⟩ (List.replicate m 92) =
      ⟨done, some word, n + m, quoted⟩ := by
  induction m generalizing n with
  | zero => rfl
  | succ m ih =>
    rw [List.replicate_succ, CommandLine.run_cons]
    have hstep : CommandLine.step windows ⟨done, some word, n, quoted⟩ 92 =
        ⟨done, some word, n + 1, quoted⟩ := by
      simp [CommandLine.step, windows]
    rw [hstep, ih, Nat.add_assoc, Nat.add_comm 1]

theorem step_quote_even (done : List Text) (word : Text) (n : Nat) (quoted : Bool) :
    CommandLine.step windows ⟨done, some word, n * 2, quoted⟩ 34 =
      ⟨done, some (word ++ List.replicate n 92), 0, !quoted⟩ := by
  simp [CommandLine.step, CommandLine.Scan.put, windows]

theorem step_quote_odd (done : List Text) (word : Text) (n : Nat) (quoted : Bool) :
    CommandLine.step windows ⟨done, some word, n * 2 + 1, quoted⟩ 34 =
      ⟨done, some (word ++ (List.replicate n 92 ++ [34])), 0, quoted⟩ := by
  have hhalf : (n * 2 + 1) / 2 = n := by omega
  simp [CommandLine.step, CommandLine.Scan.put, windows, hhalf, Nat.add_mod]

theorem step_quoted (done : List Text) (word : Text) (n : Nat) {c : UInt16}
    (hslash : c ≠ 92) (hquote : c ≠ 34) :
    CommandLine.step windows ⟨done, some word, n, true⟩ c =
      ⟨done, some (word ++ (List.replicate n 92 ++ [c])), 0, true⟩ := by
  simp [CommandLine.step, CommandLine.Scan.put, windows, hslash, hquote]

/-- By induction on the argument: the backslashes that are counted are those that
are held back. -/
theorem run_quoteFrom (done : List Text) (word : Text) (backslashes : Nat)
    (argument : Text) :
    CommandLine.run windows ⟨done, some word, 0, true⟩ (quoteFrom backslashes argument) =
      ⟨done, some (word ++ (List.replicate backslashes 92 ++ argument)), 0, false⟩ := by
  induction argument generalizing word backslashes with
  | nil =>
    rw [quoteFrom, CommandLine.run_append, run_backslashes, Nat.zero_add,
      CommandLine.run_cons, step_quote_even]
    simp
  | cons c rest ih =>
    by_cases hslash : c = 92
    · rw [quoteFrom, if_pos hslash, ih, hslash, List.replicate_succ', List.append_assoc]
      rfl
    by_cases hquote : c = 34
    · rw [quoteFrom, if_neg hslash, if_pos hquote, CommandLine.run_append,
        run_backslashes, Nat.zero_add, CommandLine.run_cons, step_quote_odd, ih, hquote]
      simp
    · rw [quoteFrom, if_neg hslash, if_neg hquote, CommandLine.run_append,
        run_backslashes, Nat.zero_add, CommandLine.run_cons,
        step_quoted done word backslashes hslash hquote, ih]
      simp

theorem isPlain_of_any (argument : Text)
    (h : (argument.any fun c => c = 32 || c = 9 || c = 34) = false) :
    ∀ c ∈ argument, c ≠ windows.quote ∧ windows.blank c = false := by
  intro c hc
  have hnot := List.any_eq_false.1 h c hc
  simp only [Bool.or_eq_true, decide_eq_true_eq, not_or] at hnot
  refine ⟨hnot.2, ?_⟩
  simp [windows, isBlank, hnot.1]

theorem run_quoteCommandLineArgument (done : List Text) (argument : Text) :
    (CommandLine.run windows (.clean done)
        (quoteCommandLineArgument argument)).quoted = false ∧
      (CommandLine.run windows (.clean done)
        (quoteCommandLineArgument argument)).arguments windows = done ++ [argument] := by
  rw [quoteCommandLineArgument]
  by_cases hempty : argument = []
  · subst hempty
    simp [CommandLine.step, CommandLine.Scan.clean, CommandLine.Scan.put,
      CommandLine.Scan.arguments, CommandLine.Scan.held, windows]
  rw [if_neg hempty]
  split
  · next hplain =>
      have hrun := CommandLine.run_held windows (s := .clean done) hempty fun c hc =>
        have h := isPlain_of_any argument (by simpa using hplain) c hc
        ⟨h.1, .inr h.2⟩
      exact ⟨hrun.2, hrun.1⟩
  · have hstart : CommandLine.step windows (.clean done) 34 =
        ⟨done, some [], 0, true⟩ := by
      simp [CommandLine.step, CommandLine.Scan.clean, CommandLine.Scan.put, windows]
    rw [CommandLine.run_cons, hstart, run_quoteFrom]
    simp [CommandLine.Scan.arguments, CommandLine.Scan.held]

def line (words : List Text) : Text :=
  words.flatMap fun word => 32 :: quoteCommandLineArgument word

@[simp] theorem line_nil : line [] = [] := rfl

@[simp] theorem line_cons (word : Text) (words : List Text) :
    line (word :: words) = 32 :: (quoteCommandLineArgument word ++ line words) := rfl

theorem line_append (first second : List Text) :
    line (first ++ second) = line first ++ line second :=
  List.flatMap_append

private theorem run_line {s : CommandLine.Scan UInt16} (hs : s.quoted = false)
    (words : List Text) :
    (CommandLine.run windows s (line words)).quoted = false ∧
      (CommandLine.run windows s (line words)).arguments windows =
        s.arguments windows ++ words := by
  induction words generalizing s with
  | nil => simp [hs]
  | cons word words ih =>
    rw [line_cons, CommandLine.run_cons, CommandLine.step_blank windows (by decide) hs,
      CommandLine.run_append]
    obtain ⟨hquoted, harguments⟩ :=
      run_quoteCommandLineArgument (s.arguments windows) word
    have htail := ih hquoted
    rw [harguments, List.append_assoc] at htail
    exact htail

theorem split_line (words : List Text) {rest : Text}
    (hrest : rest.head?.all isBlank = true) :
    split (line words ++ rest) = words ++ split rest := by
  obtain ⟨hquoted, harguments⟩ := run_line (s := .clean []) rfl words
  rw [split, CommandLine.split_append windows hquoted hrest]
  exact congrArg (· ++ split rest) harguments

structure ExecutablePath where
  text : Text
  noQuote : 34 ∉ text

def ExecutablePath.quoted (path : ExecutablePath) : List Text :=
  [quoteCommandLineArgument path.text, 34 :: (path.text ++ [34])]

theorem exists_quoteFrom (backslashes : Nat) {argument : Text} (h : 34 ∉ argument) :
    ∃ inner, quoteFrom backslashes argument = inner ++ [34] ∧ 34 ∉ inner := by
  induction argument generalizing backslashes with
  | nil => exact ⟨List.replicate (backslashes * 2) 92, rfl, by simp [List.mem_replicate]⟩
  | cons c rest ih =>
    have hrest : 34 ∉ rest := fun hmem => h (List.mem_cons_of_mem c hmem)
    have hquote : c ≠ 34 := fun hc => h (by simp [hc])
    by_cases hslash : c = 92
    · rw [quoteFrom, if_pos hslash]
      exact ih (backslashes + 1) hrest
    · obtain ⟨inner, hinner, hnot⟩ := ih 0 hrest
      rw [quoteFrom, if_neg hslash, if_neg hquote, hinner]
      refine ⟨List.replicate backslashes 92 ++ c :: inner, by simp, ?_⟩
      simp [List.mem_replicate, hnot, hquote.symm]

theorem exists_program_quoted {path : ExecutablePath} {program : Text}
    (h : program ∈ path.quoted) : ∃ name, ∀ rest : Text,
      CommandLine.program windows (program ++ 32 :: rest) = (name, 32 :: rest) := by
  have hquoted : ∀ inner : Text, 34 ∉ inner → ∀ rest : Text,
      CommandLine.program windows ((34 :: (inner ++ [34])) ++ 32 :: rest) =
        (inner, 32 :: rest) := by
    intro inner hinner rest
    rw [List.cons_append, List.append_assoc]
    exact CommandLine.program_quoted windows (32 :: rest) hinner
  simp only [ExecutablePath.quoted, List.mem_cons, List.not_mem_nil, or_false] at h
  rcases h with rfl | rfl
  · rw [quoteCommandLineArgument]
    split
    · exact ⟨[], hquoted [] (by simp)⟩
    split
    · next hempty hplain =>
        have hname := isPlain_of_any path.text (by simpa using hplain)
        refine ⟨path.text, fun rest => CommandLine.program_plain windows
          (fun c hc => (hname c hc).2) ?_ (by simp [windows, isBlank])⟩
        obtain ⟨c, tail, hc⟩ := List.exists_cons_of_ne_nil hempty
        rw [hc] at hname ⊢
        simpa using (hname c (by simp)).1
    · obtain ⟨inner, hinner, hnot⟩ := exists_quoteFrom 0 path.noQuote
      rw [hinner]
      exact ⟨inner, hquoted inner hnot⟩
  · exact ⟨path.text, hquoted path.text path.noQuote⟩

section Line

variable {path : ExecutablePath} {program : Text}

theorem commandLineToArgv_line (h : program ∈ path.quoted) (modulePath : Text) :
    ∃ name, ∀ (words : List Text) (rest : Text), words ≠ [] →
      rest.head?.all isBlank = true →
      commandLineToArgv modulePath (program ++ line words ++ rest) =
        name :: (words ++ split rest) := by
  obtain ⟨name, hname⟩ := exists_program_quoted h
  refine ⟨name, fun words rest hne hrest => ?_⟩
  rw [← split_line words hrest, List.append_assoc]
  obtain ⟨word, words, rfl⟩ := List.exists_cons_of_ne_nil hne
  exact commandLineToArgv_eq modulePath (by simp) (hname _)

theorem rawTail_line (h : program ∈ path.quoted) (modulePath : Text)
    (words : List Text) {rest : Text} (hrest : rest.head?.all isBlank = true) :
    rawTailAfterArgument modulePath
        (program ++ line (words ++ [wide "--"]) ++ rest) (words.length + 1) =
      some (rest.dropWhile isBlank) := by
  obtain ⟨name, hname⟩ := commandLineToArgv_line h modulePath
  have hne : words ++ [wide "--"] ≠ [] := by simp
  have hargv := hname _ rest hne hrest
  have hprobe := hname _ (32 :: marker) hne (by decide)
  have hmarker : split (32 :: marker) = [marker] := by decide
  rw [hmarker] at hprobe
  have hlast : ∃ before, program ++ line (words ++ [wide "--"]) = before ++ [45] := by
    refine ⟨program ++ line words ++ [32, 45], ?_⟩
    have hquote : quoteCommandLineArgument (wide "--") = [45, 45] := by decide
    simp [line_append, hquote]
  generalize program ++ line (words ++ [wide "--"]) = first at hargv hprobe hlast ⊢
  obtain ⟨before, rfl⟩ := hlast
  have hfirst : words ++ [wide "--"] ++ split rest =
      words ++ wide "--" :: split rest := by
    simp
  have hsecond : words ++ [wide "--"] ++ [marker] = words ++ [wide "--", marker] := by
    simp
  rw [hfirst] at hargv
  rw [hsecond] at hprobe
  rw [rawTail_eq (before ++ [45]).length (Nat.le_add_left 1 _) (by simp)
    ?_ (by simp) ?_ ?_, List.drop_left]
  · rw [hargv, List.getElem?_cons_succ]
    simp
  · rw [isCandidate, List.getElem?_append_right (Nat.le_refl _), Nat.sub_self,
      ← List.head?_eq_getElem?, hrest]
    simp [isBlank]
  · have hcut : before ++ [45] ++ [32] ++ marker = before ++ [45] ++ 32 :: marker := by
      simp
    rw [matched, List.take_left, hcut, hargv, hprobe]
    simp [List.take_append]

end Line

end ProxyLane.App.Automation
