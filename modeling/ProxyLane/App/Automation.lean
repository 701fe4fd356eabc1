import ProxyLane.App.RecentEntry
import ProxyLane.Foundation.CommandLine

/-!
# Automation options

The options with which the program is started to run an application, their
command line, and how they are found in it again.  A text ends at its zero, so
none of the texts holds one.
-/

namespace ProxyLane.App.Automation

open RecentApplications ProxyLane.Foundation

def isBlank (c : UInt16) : Bool := c = 32 || c = 9

def windows : CommandLine.Quoting UInt16 where
  blank := isBlank
  quote := 34
  escape := 92
  blank_quote := by decide
  blank_escape := by decide
  quote_ne_escape := by decide

abbrev split (text : Text) : List Text := CommandLine.split windows text

/-- `CommandLineToArgvW`; the empty text stands for the path of the running
program. -/
def commandLineToArgv (modulePath commandLine : Text) : List Text :=
  if commandLine = [] then [modulePath]
  else
    let (name, rest) := CommandLine.program windows commandLine
    name :: split rest

/-- The loop of `QuoteCommandLineArgument` and what follows it. -/
def quoteFrom (backslashes : Nat) : Text → Text
  | [] => List.replicate (backslashes * 2) 92 ++ [34]
  | c :: rest =>
    if c = 92 then quoteFrom (backslashes + 1) rest
    else if c = 34 then
      List.replicate (backslashes * 2 + 1) 92 ++ 34 :: quoteFrom 0 rest
    else List.replicate backslashes 92 ++ c :: quoteFrom 0 rest

def quoteCommandLineArgument (argument : Text) : Text :=
  if argument = [] then [34, 34]
  else if !argument.any fun c => c = 32 || c = 9 || c = 34 then argument
  else 34 :: quoteFrom 0 argument

def marker : Text := wide "PL_RAW_TAIL_MARKER"

def isCandidate (commandLine : Text) (offset : Nat) : Bool :=
  commandLine[offset]?.all isBlank &&
    !(0 < offset && commandLine[offset - 1]?.any isBlank)

/-- The text before `offset` and the marker make the arguments up to
`argumentIndex` and the marker. -/
def matched (modulePath commandLine : Text) (argumentIndex offset : Nat) : Bool :=
  let argv := commandLineToArgv modulePath commandLine
  let probe := commandLine.take offset ++ [32] ++ marker
  let probeArgv := commandLineToArgv modulePath probe
  probeArgv.length == argumentIndex + 2 &&
    probeArgv.take (argumentIndex + 1) == argv.take (argumentIndex + 1) &&
    probeArgv[argumentIndex + 1]? == some marker

def rawTailAfterArgument (modulePath commandLine : Text) (argumentIndex : Nat) :
    Option Text :=
  let argv := commandLineToArgv modulePath commandLine
  if argumentIndex < 1 then none
  else if argv[argumentIndex]? ≠ some (wide "--") then none
  else
    ((List.range (commandLine.length + 1)).find? fun offset =>
      isCandidate commandLine offset &&
        matched modulePath commandLine argumentIndex offset).map
      fun offset => (commandLine.drop offset).dropWhile isBlank

structure AutomationOptions where
  enabled : Bool
  showHelp : Bool
  profileName : Text
  targetPath : Text
  applicationName : Text
  initialArguments : Text
  workingDirectory : Text
  elevated : Bool
  packaged : Bool
  shortcut : Bool
  targetArguments : List Text
  bootstrapEventName : Text
  deriving DecidableEq, Repr

def AutomationOptions.empty : AutomationOptions :=
  ⟨false, false, [], [], [], [], [], false, false, false, [], []⟩

inductive ValueOption
  | profile
  | run
  | arguments
  | workingDirectory
  | appName
  | bootstrapEvent
  deriving DecidableEq, Repr

def ValueOption.text : ValueOption → Text
  | .profile => wide "--profile"
  | .run => wide "--run"
  | .arguments => wide "--arguments"
  | .workingDirectory => wide "--working-directory"
  | .appName => wide "--app-name"
  | .bootstrapEvent => wide "--bootstrap-event"

inductive Flag
  | elevated
  | packaged
  | shortcut
  deriving DecidableEq, Repr

def Flag.text : Flag → Text
  | .elevated => wide "--elevated"
  | .packaged => wide "--packaged"
  | .shortcut => wide "--shortcut"

/-- What the branches of `ParseAutomationOptions` tell apart. -/
inductive Kind
  | separator
  | auto
  | value (option : ValueOption)
  | flag (flag : Flag)
  | other
  deriving DecidableEq, Repr

/-- The options so far, those that were given a value, and the last one that is
not known. -/
structure Parsing where
  options : AutomationOptions
  seen : ValueOption → Bool
  unknownOption : Text

def Parsing.start : Parsing := ⟨.empty, fun _ => false, []⟩

def Parsing.store (s : Parsing) (option : ValueOption) (value : Text) : Parsing :=
  { s with
    options := match option with
      | .profile => { s.options with profileName := value }
      | .run => { s.options with targetPath := value }
      | .arguments => { s.options with initialArguments := value }
      | .workingDirectory => { s.options with workingDirectory := value }
      | .appName => { s.options with applicationName := value }
      | .bootstrapEvent => { s.options with bootstrapEventName := value }
    seen := fun other => other = option || s.seen other }

def Parsing.isSet (s : Parsing) : Flag → Bool
  | .elevated => s.options.elevated
  | .packaged => s.options.packaged
  | .shortcut => s.options.shortcut

def Parsing.set (s : Parsing) (flag : Flag) : Parsing :=
  { s with
    options := match flag with
      | .elevated => { s.options with elevated := true }
      | .packaged => { s.options with packaged := true }
      | .shortcut => { s.options with shortcut := true } }

def duplicateMessage (argument : Text) : ValueOption → Text
  | .profile => wide "--profile was specified more than once"
  | .run => wide "--run was specified more than once"
  | .bootstrapEvent => wide "--bootstrap-event was specified more than once"
  | .arguments | .workingDirectory | .appName => wide "Duplicate option: " ++ argument

section Parse

variable (fold : UInt16 → UInt16)

/-- Lower case; outside ASCII it is `fold`. -/
def lowerUnit (c : UInt16) : UInt16 :=
  if 65 ≤ c ∧ c ≤ 90 then c + 32 else if c < 128 then c else fold c

def makeLower (text : Text) : Text := text.map (lowerUnit fold)

/-- `CompareNoCase` gives zero. -/
def sameNoCase (left right : Text) : Bool := makeLower fold left == makeLower fold right

def kind (argument : Text) : Kind :=
  if argument = wide "--" then .separator
  else if sameNoCase fold argument (wide "--auto") then .auto
  else if sameNoCase fold argument (wide "--profile") then .value .profile
  else if sameNoCase fold argument (wide "--run") then .value .run
  else if argument = wide "--elevated" then .flag .elevated
  else if argument = wide "--packaged" then .flag .packaged
  else if argument = wide "--shortcut" then .flag .shortcut
  else if argument = wide "--arguments" then .value .arguments
  else if argument = wide "--app-name" then .value .appName
  else if argument = wide "--working-directory" then .value .workingDirectory
  else if sameNoCase fold argument (wide "--bootstrap-event") then
    .value .bootstrapEvent
  else .other

def asksForHelp : List Text → Bool
  | [] => false
  | word :: rest =>
    let argument := makeLower fold word
    if argument = wide "--" then false
    else if argument = wide "--profile" ∨ argument = wide "--run" ∨
        argument = wide "--arguments" ∨ argument = wide "--working-directory" ∨
        argument = wide "--app-name" ∨ argument = wide "--bootstrap-event" then
      match rest with
      | [] => false
      | _ :: rest => asksForHelp rest
    else
      sameNoCase fold argument (wide "/?") || sameNoCase fold argument (wide "-?") ||
        sameNoCase fold argument (wide "--help") || asksForHelp rest

/-- The main loop; `index` is the place of the next argument in `argv`. -/
def parseFrom (modulePath commandLine : Text) (index : Nat) (s : Parsing) :
    List Text → Except Text Parsing
  | [] => .ok s
  | word :: rest =>
    let argument := makeLower fold word
    match kind fold argument with
    | .separator =>
      match rawTailAfterArgument modulePath commandLine index with
      | none => .error (wide "Cannot locate the application argument boundary")
      | some tail =>
        let before := s.options.initialArguments
        let space := if before ≠ [] ∧ tail ≠ [] then [32] else []
        .ok { s with
          options := { s.options with
            initialArguments := before ++ space ++ tail } }
    | .auto =>
      if s.options.enabled then
        .error (wide "--auto was specified more than once")
      else
        parseFrom modulePath commandLine (index + 1)
          { s with options := { s.options with enabled := true } } rest
    | .value option =>
      if s.seen option then .error (duplicateMessage argument option)
      else
        match rest with
        | [] => .error (option.text ++ wide " requires a value")
        | value :: rest =>
          if value = [] then .error (option.text ++ wide " cannot be empty")
          else
            parseFrom modulePath commandLine (index + 2)
              (s.store option value) rest
    | .flag flag =>
      if s.isSet flag then .error (wide "Duplicate option: " ++ argument)
      else parseFrom modulePath commandLine (index + 1) (s.set flag) rest
    | .other =>
      if s.options.enabled then .error (wide "Unknown option: " ++ argument)
      else
        let s := if argument.take 2 = wide "--" then
          { s with unknownOption := argument } else s
        parseFrom modulePath commandLine (index + 1) s rest

def conclude (s : Parsing) : Except Text AutomationOptions :=
  if !s.options.enabled then .ok s.options
  else if s.unknownOption ≠ [] then
    .error (wide "Unknown option: " ++ s.unknownOption)
  else if !s.seen .profile || !s.seen .run then
    .error (wide "--auto requires --profile and --run")
  else .ok s.options

def parseAutomationOptions (modulePath commandLine : Text) :
    Except Text AutomationOptions :=
  let argv := commandLineToArgv modulePath commandLine
  if asksForHelp fold argv.tail then .ok { AutomationOptions.empty with showHelp := true }
  else
    match parseFrom fold modulePath commandLine 1 .start argv.tail with
    | .error errorMessage => .error errorMessage
    | .ok s => conclude s

end Parse

def buildAutomationCommandLine (options : AutomationOptions)
    (bootstrapEventName : Option Text) : Text :=
  let quoted := quoteCommandLineArgument
  wide "--auto --profile " ++ quoted options.profileName ++
    wide " --run " ++ quoted options.targetPath ++
    (if options.applicationName ≠ [] then
      wide " --app-name " ++ quoted options.applicationName else []) ++
    (if options.workingDirectory ≠ [] then
      wide " --working-directory " ++ quoted options.workingDirectory else []) ++
    (if options.elevated then wide " --elevated" else []) ++
    (if options.packaged then wide " --packaged" else []) ++
    (if options.shortcut then wide " --shortcut" else []) ++
    (match bootstrapEventName with
      | none => []
      | some event =>
        if event ≠ [] then wide " --bootstrap-event " ++ quoted event else []) ++
    (if options.initialArguments ≠ [] ∨ options.targetArguments ≠ [] then
      wide " --" ++
        (if options.initialArguments ≠ [] then wide " " ++ options.initialArguments
          else []) ++
        options.targetArguments.flatMap (fun argument => wide " " ++ quoted argument)
    else [])

end ProxyLane.App.Automation
