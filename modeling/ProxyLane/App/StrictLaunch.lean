import ProxyLane.App.Automation
import ProxyLane.Hook.ElevatedLaunch

/-!
# Starting an application behind the proxy

`LaunchAndProxyApp` of the process page with the packaged and the elevated
ways to start.  `System` answers every call the code makes, in any combination;
the result comes with what was done, in order.
-/

namespace ProxyLane.App.StrictLaunch

open RecentApplications Automation Hook.ElevatedLaunch

inductive AppLaunchResult where
  | success
  | invalidTarget
  | createProcessFailed
  | injectionFailed
  | uacCancelled
  | elevatedHelperFailed
  | packagedInjectionFailed
  deriving DecidableEq

inductive Effect where
  | redirectionDisabled
  | redirectionReverted
  | created (pid : Nat)
  | injected (pid : Nat)
  | resumed (pid : Nat)
  | terminated (pid : Nat) (ended : Bool)
  | activated (pid : Nat)
  | suspended (pid : Nat)
  | hooked (pid : Nat)
  | thawed (pid : Nat)
  | helper (exitCode : Option Nat)
  deriving DecidableEq

structure Application where
  aumid : Text
  path : Text
  arguments : Text
  workingDirectory : Text

/-- The answers while a packaged application is attached to. -/
structure Attachment where
  openProcess : Bool
  authorizeProcessPipeAccess : Bool
  suspend : Bool
  hookProcess : Nat → Bool
  resume : Bool
  resumeAgain : Bool

inductive Elevation where
  | failed
  | cancelled
  | exited (code : Option Nat)

inductive FilterMode where
  | includes
  | excludes
  deriving DecidableEq

structure ChildInjectFilter where
  enabled : Bool
  mode : FilterMode
  patterns : List Text

/-- The two attempts at a packaged start, whose answers may differ. -/
inductive Attempt where
  | first
  | fallback

structure System where
  tcsicmp : Text → Text → Bool
  resolveShortcut : Text → Option Application
  getAppFolderPath : Text → Option Text
  isProxyLaneExecutable : Text → Bool
  /-- Whether a path that exists is a directory. -/
  getFileAttributes : Text → Option Bool
  isPackagedAppPath : Text → Option Text
  findManifestDir : Text → Option Text
  resolvePackagedAppAumid : Attempt → Text → Text → Option Text
  expandLaunchEnvironment : Option Attempt → Text → Option Text
  getPRCPipeName : Option Attempt → Bool
  activatePackagedApp : Attempt → Text → Text → Option Nat
  activated : ∀ attempt aumid arguments,
    activatePackagedApp attempt aumid arguments ≠ some 0
  attachment : Attempt → Attachment
  createProcess : Text → Text → Option Text → Except Nat Nat
  resolveChildAppPath : Nat → Option Text
  openProcess : Nat → Bool
  filter : ChildInjectFilter
  pathMatchSpec : Text → Text → Bool
  injectDll : Nat → Bool
  resumeThread : Nat → Bool
  terminateProcess : Nat → Bool
  shellExecute : Text → Text → Option Text → Elevation

structure Launch where
  fileName : Text
  extraArguments : List Text
  strictInjection : Bool
  forceAdmin : Bool
  initialArguments : Text
  initialWorkingDirectory : Text

abbrev Outcome := AppLaunchResult × List Effect

variable (sys : System)

def shouldProxyChildProcess (appPath : Text) : Bool :=
  if sys.filter.enabled && sys.filter.patterns ≠ [] then
    let matched := appPath ≠ [] && sys.filter.patterns.any (sys.pathMatchSpec appPath)
    if sys.filter.mode = .includes then matched else !matched
  else true

def injectNewProcess (pid : Nat) (appPath : Text) : Bool :=
  sys.getPRCPipeName none && sys.openProcess pid && shouldProxyChildProcess sys appPath &&
    sys.injectDll pid

/-- `launchArguments` with the quoted arguments behind it. -/
def appendArguments (launchArguments : Text) (extra : List Text) : Text :=
  extra.foldl (fun text argument =>
    (if text = [] then [] else text ++ [32]) ++ quoteCommandLineArgument argument)
    launchArguments

def attach (a : Attachment) (pid : Nat) : Outcome :=
  if !a.openProcess then (.packagedInjectionFailed, [])
  else if !a.authorizeProcessPipeAccess then (.packagedInjectionFailed, [])
  else
    let injected := (List.range 15).any a.hookProcess
    let hooked := if injected then [.hooked pid] else []
    if !a.suspend then
      (if injected then .success else .packagedInjectionFailed, hooked)
    else if a.resume then
      (if injected then .success else .packagedInjectionFailed,
        .suspended pid :: hooked ++ [.thawed pid])
    else
      -- the destructor tries once more
      (.packagedInjectionFailed,
        .suspended pid :: hooked ++ if a.resumeAgain then [.thawed pid] else [])

def launchPackagedAppById (attempt : Attempt) (aumid arguments : Text) : Outcome :=
  if aumid = [] then (.invalidTarget, [])
  else match sys.expandLaunchEnvironment (some attempt) arguments with
  | none => (.createProcessFailed, [])
  | some expanded =>
    if !sys.getPRCPipeName (some attempt) then (.createProcessFailed, [])
    else match sys.activatePackagedApp attempt aumid expanded with
    | none => (.createProcessFailed, [])
    | some pid =>
      if pid = 0 then (.createProcessFailed, [.activated pid])
      else
        let (result, effects) := attach (sys.attachment attempt) pid
        (result, .activated pid :: effects)

def launchPackagedAppAndProxy (attempt : Attempt) (fileName manifestDir : Text)
    (extra : List Text) (initialArguments : Text) : Outcome :=
  match sys.resolvePackagedAppAumid attempt fileName manifestDir with
  | none => (.invalidTarget, [])
  | some aumid =>
    launchPackagedAppById sys attempt aumid (appendArguments initialArguments extra)

def helperResult : Option Nat → AppLaunchResult
  | some 0 => .success
  | some 12 => .invalidTarget
  | some 14 => .injectionFailed
  | some 13 => .createProcessFailed
  | _ => .elevatedHelperFailed

def launchElevatedAndProxy (targetPath commandLine : Text)
    (workingDirectory : Option Text) : Outcome :=
  if targetCch ≤ targetPath.length ∨ commandCch ≤ commandLine.length ∨
      workingDirectory.any (directoryCch ≤ ·.length) then (.invalidTarget, [])
  else if !sys.getPRCPipeName none then (.elevatedHelperFailed, [])
  else match sys.shellExecute targetPath commandLine workingDirectory with
  | .failed => (.elevatedHelperFailed, [])
  | .cancelled => (.uacCancelled, [])
  | .exited code => (helperResult code, [.helper code])

def resume (pid : Nat) (effects : List Effect) : Outcome :=
  if sys.resumeThread pid then (.success, effects ++ [.resumed pid])
  else (.createProcessFailed, effects ++ [.terminated pid (sys.terminateProcess pid)])

def childAppPath (l : Launch) (pid : Nat) : Text :=
  match sys.resolveChildAppPath pid with
  | none | some [] => l.fileName.take (maxPath - 1)
  | some path => path

/-- What follows `CreateProcess`, with the new process suspended. -/
def proxyCreated (l : Launch) (pid : Nat) : Outcome :=
  if injectNewProcess sys pid (childAppPath sys l pid) then resume sys pid [.injected pid]
  else if l.strictInjection then
    (.injectionFailed, [.terminated pid (sys.terminateProcess pid)])
  else resume sys pid []

def reverting (outcome : Outcome) : Outcome :=
  (outcome.1, .redirectionReverted :: outcome.2)

def create (l : Launch) (target : Text) (directory : Option Text)
    (launchArguments commandLine : Text) : Outcome :=
  if l.forceAdmin then reverting (launchElevatedAndProxy sys target commandLine directory)
  else match sys.createProcess target commandLine directory with
  | .ok pid =>
    let (result, effects) := reverting (proxyCreated sys l pid)
    (result, .created pid :: effects)
  | .error error =>
    if error = 740 then reverting (launchElevatedAndProxy sys target commandLine directory)
    else if error = 15700 then
      match sys.findManifestDir target with
      | none => reverting (.createProcessFailed, [])
      | some manifestDir =>
        let (result, effects) := launchPackagedAppAndProxy sys .fallback target
          manifestDir l.extraArguments launchArguments
        if result = .success ∨ result = .packagedInjectionFailed then
          reverting (result, effects)
        else reverting (.createProcessFailed, effects)
    else reverting (.createProcessFailed, [])

def createWith (l : Launch) (target baseDir launchArguments : Text) : Outcome :=
  let baseDir := if baseDir = [] then (sys.getAppFolderPath target).getD baseDir else baseDir
  let launchArguments := appendArguments launchArguments l.extraArguments
  match sys.expandLaunchEnvironment none launchArguments with
  | none => reverting (.createProcessFailed, [])
  | some expanded =>
    create sys l target (if baseDir = [] then none else some baseDir) launchArguments
      (quoteCommandLineArgument target ++ if expanded = [] then [] else 32 :: expanded)

def isLnk (fileName : Text) : Bool :=
  decide (3 < fileName.length) &&
    sys.tcsicmp (wide ".lnk") (fileName.drop (fileName.length - 4))

def launchTarget (l : Launch) (target baseDir launchArguments : Text) : Outcome :=
  if sys.isProxyLaneExecutable target || isLnk sys target then reverting (.invalidTarget, [])
  else if target = [] ∨ sys.getFileAttributes target ≠ some false then
    reverting (.invalidTarget, [])
  else match sys.isPackagedAppPath target with
  | none => createWith sys l target baseDir launchArguments
  | some manifestDir =>
    let (result, effects) := launchPackagedAppAndProxy sys .first target manifestDir
      l.extraArguments launchArguments
    if result = .success ∨ result = .packagedInjectionFailed then
      (result, effects ++ [.redirectionReverted])
    else
      let (result, later) := createWith sys l target baseDir launchArguments
      (result, effects ++ later)

def launchRedirected (l : Launch) : Outcome :=
  if isLnk sys l.fileName then
    match sys.resolveShortcut l.fileName with
    | none => reverting (.invalidTarget, [])
    | some shortcut =>
      let launchArguments := if l.initialArguments = [] then shortcut.arguments
        else (if shortcut.arguments = [] then [] else shortcut.arguments ++ [32]) ++
          l.initialArguments
      if shortcut.aumid ≠ [] then
        reverting (launchPackagedAppById sys .first shortcut.aumid
          (appendArguments launchArguments l.extraArguments))
      else if maxPath + 1024 ≤ shortcut.path.length ∨
          maxPath ≤ shortcut.workingDirectory.length then reverting (.invalidTarget, [])
      else launchTarget sys l shortcut.path shortcut.workingDirectory launchArguments
  else
    let target := l.fileName.take (maxPath + 1024 - 1)
    let baseDir := if l.initialWorkingDirectory = [] then
      (sys.getAppFolderPath target).getD [] else l.initialWorkingDirectory
    launchTarget sys l target baseDir l.initialArguments

def launchAndProxyApp (l : Launch) : Outcome :=
  if l.fileName = [] then (.invalidTarget, [])
  else if maxPath ≤ l.initialWorkingDirectory.length then (.invalidTarget, [])
  else
    let (result, effects) := launchRedirected sys l
    (result, .redirectionDisabled :: effects)

def Effect.starts : Effect → Bool
  | .created _ | .activated _ | .helper _ => true
  | _ => false

def Effect.redirection : Effect → Bool
  | .redirectionDisabled | .redirectionReverted => true
  | _ => false

/-- The process that was started is behind the proxy and runs. -/
def Proxied (effects : List Effect) : Prop :=
  (∃ pid, .created pid ∈ effects ∧ .injected pid ∈ effects ∧ .resumed pid ∈ effects) ∨
  (∃ pid, .activated pid ∈ effects ∧ .hooked pid ∈ effects ∧
    (.suspended pid ∈ effects → .thawed pid ∈ effects)) ∨
  .helper (some 0) ∈ effects

/-- A process of `CreateProcess` that is left running or suspended. -/
def Left (effects : List Effect) (pid : Nat) : Prop :=
  .created pid ∈ effects ∧ .terminated pid true ∉ effects

structure Sound (l : Launch) (redirections : List Effect) (o : Outcome) : Prop where
  once : (o.2.filter Effect.starts).length ≤ 1
  redirected : o.2.filter Effect.redirection = redirections
  success : o.1 = .success → l.strictInjection = true → Proxied o.2
  ended : o.1 ≠ .success → ∀ pid, .created pid ∈ o.2 →
    .terminated pid (sys.terminateProcess pid) ∈ o.2

variable {sys} {l : Launch}

theorem Sound.failed {result : AppLaunchResult} (h : result ≠ .success) :
    Sound sys l [] (result, []) :=
  ⟨by simp, rfl, fun hs => absurd hs h, by simp⟩

theorem Proxied.mono {before after : List Effect} (h : Proxied before)
    (hsub : before ⊆ after)
    (hframe : ∀ pid, .suspended pid ∈ after → .suspended pid ∈ before) : Proxied after := by
  obtain ⟨pid, hc, hi, hr⟩ | ⟨pid, ha, hh, ht⟩ | hhelper := h
  · exact .inl ⟨pid, hsub hc, hsub hi, hsub hr⟩
  · exact .inr (.inl ⟨pid, hsub ha, hsub hh, fun hs => hsub (ht (hframe pid hs))⟩)
  · exact .inr (.inr (hsub hhelper))

theorem Sound.reverting {o : Outcome} (h : Sound sys l [] o) :
    Sound sys l [.redirectionReverted] (reverting o) where
  once := h.once
  redirected := by
    simp [StrictLaunch.reverting, List.filter_cons, Effect.redirection, h.redirected]
  success hs hstrict := (h.success hs hstrict).mono (by simp [StrictLaunch.reverting])
    (by simp [StrictLaunch.reverting])
  ended hs pid hc := by
    have hended := h.ended hs pid (by simpa [StrictLaunch.reverting] using hc)
    simpa [StrictLaunch.reverting] using hended

theorem Sound.reverted {result : AppLaunchResult} {effects : List Effect}
    (h : Sound sys l [] (result, effects)) :
    Sound sys l [.redirectionReverted] (result, effects ++ [.redirectionReverted]) where
  once := by simpa [List.filter_cons, Effect.starts] using h.once
  redirected := by simp [List.filter_cons, Effect.redirection, show _ = _ from h.redirected]
  success hs hstrict := (h.success hs hstrict).mono (by simp) (by simp)
  ended hs pid hc := by simpa using h.ended hs pid (by simpa using hc)

theorem Sound.refused {result : AppLaunchResult} (h : result ≠ .success) :
    Sound sys l [.redirectionReverted] (StrictLaunch.reverting (result, [])) :=
  (Sound.failed h).reverting

/-- Where a packaged start gives up so that another is tried, it did nothing. -/
theorem packaged_sound (attempt : Attempt) (aumid arguments : Text) :
    Sound sys l [] (launchPackagedAppById sys attempt aumid arguments) ∧
    ((launchPackagedAppById sys attempt aumid arguments).2 = [] ∨
      (launchPackagedAppById sys attempt aumid arguments).1 = .success ∨
      (launchPackagedAppById sys attempt aumid arguments).1 =
        .packagedInjectionFailed) := by
  unfold launchPackagedAppById
  split
  · exact ⟨.failed nofun, .inl rfl⟩
  split
  · exact ⟨.failed nofun, .inl rfl⟩
  split
  · exact ⟨.failed nofun, .inl rfl⟩
  split
  · exact ⟨.failed nofun, .inl rfl⟩
  next pid hpid =>
    have hzero : pid ≠ 0 := by
      rintro rfl
      exact sys.activated _ _ _ hpid
    rw [if_neg hzero]
    unfold attach
    generalize (List.range 15).any _ = injected
    split_ifs <;> refine ⟨⟨?_, ?_, ?_, ?_⟩, ?_⟩ <;>
      simp_all [List.filter_cons, Effect.starts, Effect.redirection, Proxied]

theorem packagedPath_sound (attempt : Attempt) (fileName manifestDir : Text)
    (extra : List Text) (initialArguments : Text) {o : Outcome}
    (ho : launchPackagedAppAndProxy sys attempt fileName manifestDir extra
      initialArguments = o) :
    Sound sys l [] o ∧
      (o.2 = [] ∨ o.1 = .success ∨ o.1 = .packagedInjectionFailed) := by
  subst ho
  unfold launchPackagedAppAndProxy
  split
  · exact ⟨.failed nofun, .inl rfl⟩
  · exact packaged_sound ..

theorem elevated_sound (target commandLine : Text) (directory : Option Text) :
    Sound sys l [] (launchElevatedAndProxy sys target commandLine directory) := by
  unfold launchElevatedAndProxy
  split_ifs
  · exact .failed nofun
  · exact .failed nofun
  split
  · exact .failed nofun
  · exact .failed nofun
  next code _ =>
    refine ⟨by simp [List.filter_cons, Effect.starts],
      by simp [Effect.redirection], fun hs _ => ?_, by simp⟩
    have hcode : code = some 0 := by
      simp only [helperResult] at hs
      split at hs <;> simp_all
    simp [Proxied, hcode]

private theorem created_sound (pid : Nat) :
    Sound sys l [.redirectionReverted]
      ((reverting (proxyCreated sys l pid)).1,
        .created pid :: (reverting (proxyCreated sys l pid)).2) := by
  unfold proxyCreated resume reverting
  refine ⟨?_, ?_, ?_, ?_⟩ <;> split_ifs <;>
    simp_all [List.filter_cons, Effect.starts, Effect.redirection, Proxied]

theorem create_sound (target : Text) (directory : Option Text)
    (launchArguments commandLine : Text) :
    Sound sys l [.redirectionReverted]
      (create sys l target directory launchArguments commandLine) := by
  unfold create
  split
  · exact (elevated_sound ..).reverting
  split
  · exact created_sound _
  split
  · exact (elevated_sound ..).reverting
  split
  · split
    · exact .refused nofun
    · generalize ho : launchPackagedAppAndProxy .. = o
      obtain ⟨hsound, hnothing⟩ := packagedPath_sound _ _ _ _ _ ho
      obtain ⟨result, effects⟩ := o
      dsimp only at hnothing ⊢
      split
      · exact hsound.reverting
      next hnot =>
        obtain rfl : effects = [] := hnothing.resolve_right hnot
        exact .refused nofun
  · exact .refused nofun

theorem createWith_sound (target baseDir launchArguments : Text) :
    Sound sys l [.redirectionReverted]
      (createWith sys l target baseDir launchArguments) := by
  unfold createWith
  dsimp only
  split
  · exact .refused nofun
  · exact create_sound ..

theorem launchTarget_sound (target baseDir launchArguments : Text) :
    Sound sys l [.redirectionReverted]
      (launchTarget sys l target baseDir launchArguments) := by
  unfold launchTarget
  split
  · exact .refused nofun
  split
  · exact .refused nofun
  split
  · exact createWith_sound ..
  · generalize ho : launchPackagedAppAndProxy .. = o
    obtain ⟨hsound, hnothing⟩ := packagedPath_sound _ _ _ _ _ ho
    obtain ⟨result, effects⟩ := o
    dsimp only at hnothing ⊢
    split
    · exact hsound.reverted
    next hnot =>
      obtain rfl : effects = [] := hnothing.resolve_right hnot
      exact createWith_sound ..

theorem launchRedirected_sound (l : Launch) :
    Sound sys l [.redirectionReverted] (launchRedirected sys l) := by
  unfold launchRedirected
  dsimp only
  split
  · split
    · exact .refused nofun
    split
    · exact (packaged_sound ..).1.reverting
    split
    · exact .refused nofun
    · exact launchTarget_sound ..
  · exact launchTarget_sound ..

/-- A launch starts at most one process and restores the redirection it
disabled.  A strict launch that succeeds has proxied the process, and one that
does not succeed terminates what it created, as far as the system does so. -/
theorem strict_launch_sound (sys : System) (l : Launch) :
    ((launchAndProxyApp sys l).2.filter Effect.starts).length ≤ 1 ∧
    (launchAndProxyApp sys l).2.filter Effect.redirection ∈
      [[], [.redirectionDisabled, .redirectionReverted]] ∧
    ((launchAndProxyApp sys l).1 = .success → l.strictInjection = true →
      Proxied (launchAndProxyApp sys l).2) ∧
    ((launchAndProxyApp sys l).1 ≠ .success →
      ∀ pid, .created pid ∈ (launchAndProxyApp sys l).2 →
      .terminated pid (sys.terminateProcess pid) ∈ (launchAndProxyApp sys l).2 ∧
      (sys.terminateProcess pid = true → ¬Left (launchAndProxyApp sys l).2 pid)) := by
  unfold launchAndProxyApp
  split
  · simp
  split
  · simp
  · have h : Sound sys l _ _ := launchRedirected_sound l
    refine ⟨?_, ?_, ?_, ?_⟩
    · simpa [List.filter_cons, Effect.starts] using h.once
    · simp [List.filter_cons, Effect.redirection, h.redirected]
    · exact fun hs hstrict => (h.success hs hstrict).mono (by simp) (by simp)
    · intro hs pid hc
      have hended := h.ended hs pid (by simpa using hc)
      exact ⟨by simpa using hended, fun ht hleft => hleft.2 (by simpa [ht] using hended)⟩

/-- The hook is not injected, and then `TerminateProcess` fails. -/
def stubborn : System where
  tcsicmp _ _ := false
  resolveShortcut _ := none
  getAppFolderPath _ := none
  isProxyLaneExecutable _ := false
  getFileAttributes _ := some false
  isPackagedAppPath _ := none
  findManifestDir _ := none
  resolvePackagedAppAumid _ _ _ := none
  expandLaunchEnvironment _ := some
  getPRCPipeName _ := true
  activatePackagedApp _ _ _ := none
  activated := nofun
  attachment _ := ⟨false, false, false, fun _ => false, false, false⟩
  createProcess _ _ _ := .ok 7
  resolveChildAppPath _ := none
  openProcess _ := true
  filter := ⟨false, .includes, []⟩
  pathMatchSpec _ _ := false
  injectDll _ := false
  resumeThread _ := true
  terminateProcess _ := false
  shellExecute _ _ _ := .failed

theorem process_left :
    (launchAndProxyApp stubborn ⟨[97], [], true, false, [], []⟩).1 = .injectionFailed ∧
      Left (launchAndProxyApp stubborn ⟨[97], [], true, false, [], []⟩).2 7 :=
  ⟨by decide, by decide, by decide⟩

end ProxyLane.App.StrictLaunch
