import ProxyLane.App.AutomationBoundary

/-!
# The command line of an automation run

The options of a run are written as a command line and parsed again.  Each word
that is written takes the parser one step further; the options it has then are
those that were written so far.
-/

namespace ProxyLane.App.Automation

open RecentApplications ProxyLane.Foundation

def valueWords (option : ValueOption) (value : Text) : List Text :=
  if value ≠ [] then [option.text, value] else []

def flagWords (flag : Flag) (isSet : Bool) : List Text :=
  if isSet then [flag.text] else []

def optionWords (options : AutomationOptions) (bootstrapEventName : Option Text) :
    List Text :=
  [wide "--auto", wide "--profile", options.profileName, wide "--run",
    options.targetPath] ++
    (valueWords .appName options.applicationName ++
    (valueWords .workingDirectory options.workingDirectory ++
    (flagWords .elevated options.elevated ++
    (flagWords .packaged options.packaged ++
    (flagWords .shortcut options.shortcut ++
    valueWords .bootstrapEvent (bootstrapEventName.getD []))))))

def rawArguments (options : AutomationOptions) : Text :=
  (if options.initialArguments ≠ [] then 32 :: options.initialArguments else []) ++
    line options.targetArguments

def hasArguments (options : AutomationOptions) : Prop :=
  options.initialArguments ≠ [] ∨ options.targetArguments ≠ []

instance (options : AutomationOptions) : Decidable (hasArguments options) := by
  unfold hasArguments
  infer_instance

theorem quote_option (option : ValueOption) :
    quoteCommandLineArgument option.text = option.text := by
  cases option <;> decide

theorem quote_flag (flag : Flag) : quoteCommandLineArgument flag.text = flag.text := by
  cases flag <;> decide

theorem line_valueWords (option : ValueOption) (value : Text) :
    line (valueWords option value) =
      if value ≠ [] then 32 :: option.text ++ 32 :: quoteCommandLineArgument value
      else [] := by
  rw [valueWords]
  split <;> simp [quote_option]

theorem line_flagWords (flag : Flag) (isSet : Bool) :
    line (flagWords flag isSet) = if isSet then 32 :: flag.text else [] := by
  cases isSet <;> simp [flagWords, quote_flag]

theorem line_required (profileName targetPath : Text) :
    line [wide "--auto", wide "--profile", profileName, wide "--run", targetPath] =
      32 :: (wide "--auto --profile " ++ (quoteCommandLineArgument profileName ++
        (wide " --run " ++ quoteCommandLineArgument targetPath))) := by
  have hauto : quoteCommandLineArgument (wide "--auto") = wide "--auto" := by decide
  have hprofile : wide "--auto --profile " =
      wide "--auto" ++ 32 :: (ValueOption.text .profile ++ [32]) := by
    decide
  have hrun : wide " --run " = 32 :: (ValueOption.text .run ++ [32]) := by decide
  have hfirst := quote_option .profile
  have hsecond := quote_option .run
  change quoteCommandLineArgument (wide "--profile") = _ at hfirst
  change quoteCommandLineArgument (wide "--run") = _ at hsecond
  simp [hauto, hprofile, hrun, hfirst, hsecond]

theorem line_separator : line [wide "--"] = wide " --" := by decide

theorem buildAutomationCommandLine_eq (options : AutomationOptions)
    (bootstrapEventName : Option Text) :
    32 :: buildAutomationCommandLine options bootstrapEventName =
      if hasArguments options then
        line (optionWords options bootstrapEventName ++ [wide "--"]) ++
          rawArguments options
      else line (optionWords options bootstrapEventName) := by
  have hname : wide " --app-name " = 32 :: (ValueOption.text .appName ++ [32]) := by
    decide
  have hdirectory : wide " --working-directory " =
      32 :: (ValueOption.text .workingDirectory ++ [32]) := by
    decide
  have hevent : wide " --bootstrap-event " =
      32 :: (ValueOption.text .bootstrapEvent ++ [32]) := by
    decide
  have helevated : wide " --elevated" = 32 :: Flag.text .elevated := by decide
  have hpackaged : wide " --packaged" = 32 :: Flag.text .packaged := by decide
  have hshortcut : wide " --shortcut" = 32 :: Flag.text .shortcut := by decide
  have hblank : wide " " = [32] := by decide
  have hfield : ∀ (option : ValueOption) (value : Text),
      line (valueWords option value) =
        if value ≠ [] then
          32 :: (option.text ++ [32]) ++ quoteCommandLineArgument value
        else [] := by
    intro option value
    rw [line_valueWords]
    split <;> simp
  by_cases harguments : hasArguments options
  · rw [if_pos harguments]
    simp only [hasArguments] at harguments
    cases bootstrapEventName <;>
      simp only [buildAutomationCommandLine, optionWords, line_append, line_required,
        line_separator, hfield, line_flagWords, hname, hdirectory, hevent, helevated,
        hpackaged, hshortcut, hblank, rawArguments, harguments, if_true,
        Option.getD_none, Option.getD_some] <;>
      simp [line]
  · rw [if_neg harguments]
    simp only [hasArguments] at harguments
    cases bootstrapEventName <;>
      simp only [buildAutomationCommandLine, optionWords, line_append, line_required,
        hfield, line_flagWords, hname, hdirectory, hevent, helevated, hpackaged,
        hshortcut, harguments, if_false, Option.getD_none, Option.getD_some] <;>
      simp

def Parsing.value (s : Parsing) : ValueOption → Text
  | .profile => s.options.profileName
  | .run => s.options.targetPath
  | .arguments => s.options.initialArguments
  | .workingDirectory => s.options.workingDirectory
  | .appName => s.options.applicationName
  | .bootstrapEvent => s.options.bootstrapEventName

def Parsing.put (s : Parsing) (option : ValueOption) (value : Text) : Parsing :=
  { s.store option value with
    seen := fun other => (value ≠ [] && other = option) || s.seen other }

def Parsing.mark (s : Parsing) (flag : Flag) (isSet : Bool) : Parsing :=
  { s with
    options := match flag with
      | .elevated => { s.options with elevated := isSet }
      | .packaged => { s.options with packaged := isSet }
      | .shortcut => { s.options with shortcut := isSet } }

theorem put_of_ne_nil (s : Parsing) (option : ValueOption) {value : Text}
    (h : value ≠ []) : s.put option value = s.store option value := by
  simp [Parsing.put, Parsing.store, h]

theorem put_nil {s : Parsing} {option : ValueOption} (h : s.value option = []) :
    s.put option [] = s := by
  obtain ⟨⟨enabled, showHelp, profileName, targetPath, applicationName,
    initialArguments, workingDirectory, elevated, packaged, shortcut, targetArguments,
    bootstrapEventName⟩, seen, unknownOption⟩ := s
  cases option <;> simp_all [Parsing.put, Parsing.store, Parsing.value]

theorem mark_true (s : Parsing) (flag : Flag) : s.mark flag true = s.set flag := by
  cases flag <;> rfl

theorem mark_false {s : Parsing} {flag : Flag} (h : s.isSet flag = false) :
    s.mark flag false = s := by
  obtain ⟨⟨enabled, showHelp, profileName, targetPath, applicationName,
    initialArguments, workingDirectory, elevated, packaged, shortcut, targetArguments,
    bootstrapEventName⟩, seen, unknownOption⟩ := s
  cases flag <;> simp_all [Parsing.mark, Parsing.isSet]

def Parsing.written (options : AutomationOptions) (bootstrapEventName : Option Text) :
    Parsing :=
  (((((((({ Parsing.start with
      options := { AutomationOptions.empty with enabled := true } }.store .profile
      options.profileName).store .run options.targetPath).put .appName
      options.applicationName).put .workingDirectory options.workingDirectory).mark
      .elevated options.elevated).mark .packaged options.packaged).mark .shortcut
      options.shortcut).put .bootstrapEvent (bootstrapEventName.getD []))

theorem options_written (options : AutomationOptions) (bootstrapEventName : Option Text) :
    (Parsing.written options bootstrapEventName).options =
      { options with
        enabled := true
        showHelp := false
        initialArguments := []
        targetArguments := []
        bootstrapEventName := bootstrapEventName.getD [] } :=
  rfl

section Parse

variable (fold : UInt16 → UInt16)

theorem kind_option (option : ValueOption) :
    kind fold (makeLower fold option.text) = .value option := by
  cases option <;> rfl

theorem kind_flag (flag : Flag) :
    kind fold (makeLower fold flag.text) = .flag flag := by
  cases flag <;> rfl

private theorem kind_auto : kind fold (makeLower fold (wide "--auto")) = .auto := rfl

theorem kind_separator : kind fold (makeLower fold (wide "--")) = .separator := rfl

variable {fold} {modulePath commandLine : Text}

theorem parseFrom_auto (index : Nat) {s : Parsing} (hs : s.options.enabled = false)
    (rest : List Text) :
    parseFrom fold modulePath commandLine index s (wide "--auto" :: rest) =
      parseFrom fold modulePath commandLine (index + 1)
        { s with options := { s.options with enabled := true } } rest := by
  simp [parseFrom, kind_auto, hs]

theorem parseFrom_value (index : Nat) {s : Parsing} {option : ValueOption}
    {value : Text} (hs : s.seen option = false) (hvalue : value ≠ [])
    (rest : List Text) :
    parseFrom fold modulePath commandLine index s (option.text :: value :: rest) =
      parseFrom fold modulePath commandLine (index + 2) (s.store option value) rest := by
  simp [parseFrom, kind_option, hs, hvalue]

theorem parseFrom_valueWords (index : Nat) {s : Parsing} {option : ValueOption}
    (value : Text) (hseen : s.seen option = false) (hvalue : s.value option = [])
    (rest : List Text) :
    parseFrom fold modulePath commandLine index s (valueWords option value ++ rest) =
      parseFrom fold modulePath commandLine
        (index + (valueWords option value).length) (s.put option value) rest := by
  by_cases h : value = []
  · simp [h, valueWords, put_nil hvalue]
  · have hwords : valueWords option value = [option.text, value] := by
      simp [valueWords, h]
    rw [hwords, put_of_ne_nil s option h]
    exact parseFrom_value index hseen h rest

theorem parseFrom_flagWords (index : Nat) {s : Parsing} {flag : Flag} (isSet : Bool)
    (hs : s.isSet flag = false) (rest : List Text) :
    parseFrom fold modulePath commandLine index s (flagWords flag isSet ++ rest) =
      parseFrom fold modulePath commandLine
        (index + (flagWords flag isSet).length) (s.mark flag isSet) rest := by
  cases isSet
  · simp [flagWords, mark_false hs]
  · simp [flagWords, mark_true, parseFrom, kind_flag, hs]

theorem parseFrom_separator (index : Nat) {s : Parsing} {tail : Text}
    (hs : s.options.initialArguments = [])
    (htail : rawTailAfterArgument modulePath commandLine index = some tail)
    (rest : List Text) :
    parseFrom fold modulePath commandLine index s (wide "--" :: rest) =
      .ok { s with options := { s.options with initialArguments := tail } } := by
  simp [parseFrom, kind_separator, htail, hs]

theorem parseFrom_optionWords {options : AutomationOptions}
    (hprofile : options.profileName ≠ []) (htarget : options.targetPath ≠ [])
    (bootstrapEventName : Option Text) (rest : List Text) :
    parseFrom fold modulePath commandLine 1 .start
        (optionWords options bootstrapEventName ++ rest) =
      parseFrom fold modulePath commandLine
        ((optionWords options bootstrapEventName).length + 1)
        (.written options bootstrapEventName) rest := by
  simp only [optionWords, List.append_assoc, List.cons_append, List.nil_append]
  rw [parseFrom_auto 1 rfl, show wide "--profile" = ValueOption.text .profile from rfl,
    show wide "--run" = ValueOption.text .run from rfl, parseFrom_value _ rfl hprofile,
    parseFrom_value _ rfl htarget, parseFrom_valueWords _ _ rfl rfl,
    parseFrom_valueWords _ _ ?_ rfl, parseFrom_flagWords _ _ rfl,
    parseFrom_flagWords _ _ rfl, parseFrom_flagWords _ _ rfl,
    parseFrom_valueWords _ _ ?_ rfl]
  · have hindex : ∀ a b c d e f : Nat, 1 + 1 + 2 + 2 + a + b + c + d + e + f =
        a + (b + (c + (d + (e + f)))) + 1 + 1 + 1 + 1 + 1 + 1 := by
      omega
    simp only [List.length_cons, List.length_append, hindex]
    rfl
  · simp [Parsing.put, Parsing.mark, Parsing.store, Parsing.start]
  · simp [Parsing.put, Parsing.store, Parsing.start]

end Parse

section Help

variable (fold : UInt16 → UInt16)

theorem asksForHelp_value (option : ValueOption) (value : Text) (rest : List Text) :
    asksForHelp fold (option.text :: value :: rest) = asksForHelp fold rest := by
  cases option <;> rfl

theorem asksForHelp_flag (flag : Flag) (rest : List Text) :
    asksForHelp fold (flag.text :: rest) = asksForHelp fold rest := by
  cases flag <;> cases rest <;> rfl

theorem asksForHelp_valueWords (option : ValueOption) (value : Text)
    (rest : List Text) :
    asksForHelp fold (valueWords option value ++ rest) = asksForHelp fold rest := by
  by_cases h : value = []
  · simp [valueWords, h]
  · simpa [valueWords, h] using asksForHelp_value fold option value rest

theorem asksForHelp_flagWords (flag : Flag) (isSet : Bool) (rest : List Text) :
    asksForHelp fold (flagWords flag isSet ++ rest) = asksForHelp fold rest := by
  cases isSet
  · rfl
  · exact asksForHelp_flag fold flag rest

theorem asksForHelp_optionWords (options : AutomationOptions)
    (bootstrapEventName : Option Text) (rest : List Text) :
    asksForHelp fold (optionWords options bootstrapEventName ++ rest) =
      asksForHelp fold rest := by
  have hauto : ∀ words, asksForHelp fold (wide "--auto" :: words) =
      asksForHelp fold words := by
    intro words
    cases words <;> rfl
  simp only [optionWords, List.append_assoc, List.cons_append, List.nil_append]
  rw [hauto, show wide "--profile" = ValueOption.text .profile from rfl,
    show wide "--run" = ValueOption.text .run from rfl, asksForHelp_value,
    asksForHelp_value, asksForHelp_valueWords, asksForHelp_valueWords,
    asksForHelp_flagWords, asksForHelp_flagWords, asksForHelp_flagWords,
    asksForHelp_valueWords]

theorem asksForHelp_separator (rest : List Text) :
    asksForHelp fold (wide "--" :: rest) = false := by
  cases rest <;> rfl

end Help

theorem head_rawArguments (options : AutomationOptions) :
    (rawArguments options).head?.all isBlank = true := by
  rw [rawArguments]
  split
  · rfl
  · cases options.targetArguments <;> rfl

theorem dropWhile_rawArguments (options : AutomationOptions) :
    (rawArguments options).dropWhile isBlank =
      (options.initialArguments ++ line options.targetArguments).dropWhile isBlank := by
  rw [rawArguments]
  split
  · rfl
  · simp_all

theorem conclude_written (options : AutomationOptions)
    (bootstrapEventName : Option Text) (initialArguments : Text) :
    let s := Parsing.written options bootstrapEventName
    conclude { s with options := { s.options with initialArguments } } =
      .ok { s.options with initialArguments } := by
  intro s
  have hseen : s.seen .profile = true ∧ s.seen .run = true := by
    simp [s, Parsing.written, Parsing.put, Parsing.mark, Parsing.store]
  have henabled : s.options.enabled = true := by
    simp [s, options_written]
  have hunknown : s.unknownOption = [] := rfl
  simp [conclude, hseen, henabled, hunknown]

section Trip

variable (fold : UInt16 → UInt16) (modulePath : Text)

theorem parse_build {path : ExecutablePath} {program : Text}
    (hprogram : program ∈ path.quoted) {options : AutomationOptions}
    (henabled : options.enabled = true) (hprofile : options.profileName ≠ [])
    (htarget : options.targetPath ≠ []) (bootstrapEventName : Option Text) :
    parseAutomationOptions fold modulePath
        (program ++ 32 :: buildAutomationCommandLine options bootstrapEventName) =
      .ok { options with
        showHelp := false
        initialArguments :=
          (options.initialArguments ++ line options.targetArguments).dropWhile isBlank
        targetArguments := []
        bootstrapEventName := bootstrapEventName.getD [] } := by
  obtain ⟨name, hname⟩ := commandLineToArgv_line hprogram modulePath
  rw [buildAutomationCommandLine_eq]
  by_cases harguments : hasArguments options
  · rw [if_pos harguments, ← List.append_assoc, parseAutomationOptions,
      hname _ _ (by simp) (head_rawArguments options), List.tail_cons,
      List.append_assoc, List.singleton_append, asksForHelp_optionWords,
      asksForHelp_separator, parseFrom_optionWords hprofile htarget,
      parseFrom_separator _ rfl
        (rawTail_line hprogram modulePath _ (head_rawArguments options))]
    refine (conclude_written options bootstrapEventName
      ((rawArguments options).dropWhile isBlank)).trans ?_
    simp [options_written, henabled, dropWhile_rawArguments]
  · have hnone : options.initialArguments = [] ∧ options.targetArguments = [] := by
      simpa [hasArguments] using harguments
    have hargv := hname (optionWords options bootstrapEventName) []
      (by simp [optionWords]) rfl
    have hhelp := asksForHelp_optionWords fold options bootstrapEventName []
    rw [if_neg harguments, parseAutomationOptions,
      ← List.append_nil (program ++ line (optionWords options bootstrapEventName)),
      hargv, List.tail_cons, show split [] = [] from rfl, hhelp,
      parseFrom_optionWords hprofile htarget]
    refine (conclude_written options bootstrapEventName []).trans ?_
    simp [options_written, henabled, hnone]

def separatorIndex (index : Nat) : List Text → Option Nat
  | [] => none
  | word :: rest =>
    match kind fold (makeLower fold word) with
    | .separator => some index
    | .value _ =>
      match rest with
      | [] => none
      | _ :: rest => separatorIndex (index + 2) rest
    | .auto | .flag _ | .other => separatorIndex (index + 1) rest

section Separator

variable {fold} {modulePath} {commandLine : Text} (index : Nat) {word : Text}
  (rest : List Text)

theorem separatorIndex_separator
    (h : kind fold (makeLower fold word) = .separator) :
    separatorIndex fold index (word :: rest) = some index := by
  cases rest <;> simp [separatorIndex, h]

theorem separatorIndex_value {option : ValueOption} (value : Text)
    (h : kind fold (makeLower fold word) = .value option) :
    separatorIndex fold index (word :: value :: rest) =
      separatorIndex fold (index + 2) rest := by
  simp [separatorIndex, h]

theorem separatorIndex_next {k : Kind} (h : kind fold (makeLower fold word) = k)
    (hseparator : k ≠ .separator) (hvalue : ∀ option, k ≠ .value option) :
    separatorIndex fold index (word :: rest) =
      separatorIndex fold (index + 1) rest := by
  cases k with
  | separator => exact absurd rfl hseparator
  | value option => exact absurd rfl (hvalue option)
  | auto => cases rest <;> simp [separatorIndex, h]
  | flag flag => cases rest <;> simp [separatorIndex, h]
  | other => cases rest <;> simp [separatorIndex, h]

theorem rawTail_of_parseFrom {separator : Nat} {s result : Parsing}
    {words : List Text}
    (hparse : parseFrom fold modulePath commandLine index s words = .ok result)
    (hseparator : separatorIndex fold index words = some separator) :
    ∃ tail, rawTailAfterArgument modulePath commandLine separator = some tail := by
  fun_induction parseFrom fold modulePath commandLine index s words with
  | case1 => simp [separatorIndex] at hseparator
  | case2 => simp at hparse
  | case3 index s word rest argument hkind tail htail =>
    rw [separatorIndex_separator index rest hkind] at hseparator
    cases hseparator
    exact ⟨tail, htail⟩
  | case4 => simp at hparse
  | case5 index s word rest argument hkind _ ih =>
    rw [separatorIndex_next index rest hkind (by simp) (by simp)] at hseparator
    exact ih hparse hseparator
  | case6 => simp at hparse
  | case7 => simp at hparse
  | case8 => simp at hparse
  | case9 index s word argument option hkind _ value rest _ ih =>
    rw [separatorIndex_value index rest value hkind] at hseparator
    exact ih hparse hseparator
  | case10 => simp at hparse
  | case11 index s word rest argument flag hkind _ ih =>
    rw [separatorIndex_next index rest hkind (by simp) (by simp)] at hseparator
    exact ih hparse hseparator
  | case12 => simp at hparse
  | case13 index s word rest argument hkind _ _ ih =>
    rw [separatorIndex_next index rest hkind (by simp) (by simp)] at hseparator
    exact ih hparse hseparator

theorem parseFrom_of_parse {options : AutomationOptions}
    (h : parseAutomationOptions fold modulePath commandLine = .ok options)
    (hhelp : options.showHelp = false) :
    ∃ result, parseFrom fold modulePath commandLine 1 .start
      (commandLineToArgv modulePath commandLine).tail = .ok result := by
  simp only [parseAutomationOptions] at h
  split at h
  · cases h
    simp at hhelp
  · split at h
    · simp at h
    · next result hresult => exact ⟨result, hresult⟩

end Separator

theorem automation_round_trip :
    (∀ (path : ExecutablePath) (options : AutomationOptions)
        (bootstrapEventName : Option Text), ∀ program ∈ path.quoted,
      options.enabled = true → options.profileName ≠ [] → options.targetPath ≠ [] →
      parseAutomationOptions fold modulePath
          (program ++ 32 :: buildAutomationCommandLine options bootstrapEventName) =
        .ok { options with
          showHelp := false
          initialArguments :=
            (options.initialArguments ++ line options.targetArguments).dropWhile isBlank
          targetArguments := []
          bootstrapEventName := bootstrapEventName.getD [] }) ∧
    (∀ (commandLine : Text) (index : Nat) (tail : Text),
      rawTailAfterArgument modulePath commandLine index = some tail →
      split tail = (commandLineToArgv modulePath commandLine).drop (index + 1)) ∧
    ∀ (commandLine : Text) (options : AutomationOptions) (index : Nat),
      parseAutomationOptions fold modulePath commandLine = .ok options →
      options.showHelp = false →
      separatorIndex fold 1 (commandLineToArgv modulePath commandLine).tail =
        some index →
      ∃ tail, rawTailAfterArgument modulePath commandLine index = some tail ∧
        split tail = (commandLineToArgv modulePath commandLine).drop (index + 1) := by
  refine ⟨?_, fun _ _ _ => split_rawTail, ?_⟩
  · intro path options bootstrapEventName program hprogram henabled hprofile htarget
    exact parse_build fold modulePath hprogram henabled hprofile htarget
      bootstrapEventName
  · intro commandLine options index hparse hhelp hseparator
    obtain ⟨result, hresult⟩ := parseFrom_of_parse hparse hhelp
    obtain ⟨tail, htail⟩ := rawTail_of_parseFrom 1 hresult hseparator
    exact ⟨tail, htail, split_rawTail htail⟩

end Trip

def samplePath : ExecutablePath := ⟨wide "C:\\a b\\", by decide⟩

def sampleOptions : AutomationOptions :=
  { AutomationOptions.empty with
    enabled := true
    profileName := wide "--"
    targetPath := wide "C:\\x y\\"
    initialArguments := wide "\"a"
    targetArguments := [[], wide "b\"\\"] }

theorem automation_sample :
    parseAutomationOptions id [] (quoteCommandLineArgument samplePath.text ++
        32 :: buildAutomationCommandLine sampleOptions none) =
      .ok { sampleOptions with
        initialArguments := wide "\"a \"\" \"b\\\"\\\\\""
        targetArguments := [] } ∧
    split (wide "\"a b\" c") =
      (commandLineToArgv [] (wide "p \"--\"\t \"a b\" c")).drop 2 := by
  have hline : (sampleOptions.initialArguments ++
      line sampleOptions.targetArguments).dropWhile isBlank =
        wide "\"a \"\" \"b\\\"\\\\\"" := by
    decide
  have htrip := (automation_round_trip id []).1 samplePath sampleOptions none
    (quoteCommandLineArgument samplePath.text) (List.mem_cons_self ..) rfl (by decide)
    (by decide)
  rw [hline] at htrip
  exact ⟨htrip, (automation_round_trip id []).2.1 _ 1 _ (by decide)⟩

end ProxyLane.App.Automation
