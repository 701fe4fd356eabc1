import ProxyLane.Foundation.Run
import ProxyLane.Hook.StructInfo

/-!
# The runtime policy of the settings page

Connection threads ask the settings page for the proxy of a destination, while
the user starts, changes and stops the proxy on another thread.  Each section
under the runtime lock is one step.  `PathMatchSpec` and the text of an IPv6
address are parameters.
-/

namespace ProxyLane.App

open ProxyLane.Foundation ProxyLane.Hook

inductive TargetFilterMode where
  | bypass
  | proxy
  deriving DecidableEq, Repr

structure TargetInjectFilterSnapshot where
  nMode : TargetFilterMode
  patterns : List Bytes
  deriving DecidableEq, Repr

def isBlank (byte : UInt8) : Bool :=
  byte == 32 || (9 ≤ byte && byte ≤ 13)

def trim (line : Bytes) : Bytes :=
  ((line.dropWhile isBlank).reverse.dropWhile isBlank).reverse

def filterLines (multi : Bytes) : List Bytes :=
  (multi.splitOnP fun c => c == 13 || c == 10).filter (· ≠ [])

def splitFilterPatterns (multi : Bytes) : List Bytes :=
  ((filterLines multi).map trim).filter fun line =>
    line ≠ [] && line.head? ≠ some 35

structure Profile where
  proxyInfo : ProxyInfo
  settings : ProxySettingsInfo
  strTargetFilter : Bytes
  nTargetFilterMode : TargetFilterMode
  deriving DecidableEq, Repr

def Profile.filter (profile : Profile) : TargetInjectFilterSnapshot :=
  ⟨profile.nTargetFilterMode, splitFilterPatterns profile.strTargetFilter⟩

def useDirectConnection (info : ProxyInfo) : ProxyInfo :=
  { info with strProxyType := [], reserved := 0, strTransportPsk := [] }

def decimal (n : Nat) : Bytes := ascii (toString n)

section Decisions

variable (inetNtop : In6Addr → Bytes) (pathMatchSpec : Bytes → Bytes → Bool)

/-- `host:port`, `[ipv6]:port` or `ip:port`. -/
def matchKey (client : PrcClient) : Bytes :=
  let port := ascii ":" ++ decimal client.dstAddr.getPort.toNat
  if client.isDNValid then client.szDomainName ++ port
  else
    match client.dstAddr.getAddr6 with
    | some addr => ascii "[" ++ inetNtop addr ++ ascii "]" ++ port
    | none =>
      let ip := client.dstAddr.getdwIP
      decimal ip.net.toNat ++ ascii "." ++ decimal ip.host.toNat ++ ascii "." ++
        decimal ip.lh.toNat ++ ascii "." ++ decimal ip.impno.toNat ++ port

def isMatched (filter : TargetInjectFilterSnapshot) (client : PrcClient) : Bool :=
  filter.patterns.any (pathMatchSpec (matchKey inetNtop client))

def relayEndpoint (client : PrcClient) (info : ProxyInfo) : PrcClient :=
  if client.sType == .dgram && info.getProxyType == .socks5 then
    { client with udpAddr := .inet .any 0 }
  else client

/-- The decision of `GetProxyInfo` for a proxy and a filter. -/
def decideProxy (info : ProxyInfo) (filter : TargetInjectFilterSnapshot)
    (client : PrcClient) : ProxyInfo :=
  if filter.patterns.isEmpty then info
  else
    let matched := isMatched inetNtop pathMatchSpec filter client
    let goProxy := if filter.nMode = .proxy then matched else !matched
    if goProxy then info else useDirectConnection info

/-- Where the user's thread is: between the two publications of a profile that
is started or changed, before the proxy is started, before the settings are
withdrawn. -/
inductive Ui where
  | idle
  | starting (profile : Profile)
  | applying (profile : Profile) (before : TargetInjectFilterSnapshot)
  | launching
  | stopping
  deriving DecidableEq, Repr

structure Decision where
  client : PrcClient
  info : ProxyInfo
  filter : TargetInjectFilterSnapshot
  answer : ProxyInfo
  deriving DecidableEq, Repr

structure Page1 where
  proxyInfo : ProxyInfo
  runtimeSettings : ProxySettingsInfo
  runtimeSettingsValid : Bool
  targetFilter : TargetInjectFilterSnapshot
  running : Bool
  ui : Ui
  profiles : List Profile
  decisions : List Decision

inductive Event where
  | startProxy (profile : Profile)
  | applyRuntimeSettings (profile : Profile)
  | publish
  | started (ok : Bool)
  | stopProxy (ok : Bool)
  | withdraw
  | getProxyInfo (client : PrcClient)

/-- `m_ProxyInfo = proxyInfo` and its neighbours. -/
def Page1.publish (page : Page1) (profile : Profile) : Page1 :=
  { page with
    proxyInfo := profile.proxyInfo
    runtimeSettings := profile.settings
    runtimeSettingsValid := true }

/-- `PublishTargetFilterSnapshot`. -/
def Page1.publishTargetFilter (page : Page1) (profile : Profile) : Page1 :=
  { page with
    targetFilter := profile.filter
    profiles := profile :: page.profiles }

def Page1.getProxyInfo (page : Page1) (client : PrcClient) :
    Option (PrcClient × ProxyInfo) :=
  if page.runtimeSettingsValid then
    some (relayEndpoint client page.proxyInfo,
      decideProxy inetNtop pathMatchSpec page.proxyInfo page.targetFilter client)
  else none

/-- The user's thread does one thing after the other. -/
def step (page : Page1) : Event → Page1
  | .startProxy profile =>
    if page.ui = .idle ∧ page.running = false then
      { page.publishTargetFilter profile with ui := .starting profile }
    else page
  | .applyRuntimeSettings profile =>
    if page.ui = .idle ∧ page.running = true then
      { page.publishTargetFilter profile with
        ui := .applying profile page.targetFilter }
    else page
  | .publish =>
    match page.ui with
    | .starting profile => { page.publish profile with ui := .launching }
    | .applying profile _ => { page.publish profile with ui := .idle }
    | _ => page
  | .started ok =>
    if page.ui = .launching then
      { page with
        running := ok
        runtimeSettingsValid := ok && page.runtimeSettingsValid
        ui := .idle }
    else page
  | .stopProxy ok =>
    if page.ui = .idle ∧ page.running = true ∧ ok = true then
      { page with running := false, ui := .stopping }
    else page
  | .withdraw =>
    if page.ui = .stopping then
      { page with runtimeSettingsValid := false, ui := .idle }
    else page
  | .getProxyInfo client =>
    match page.getProxyInfo inetNtop pathMatchSpec client with
    | none => page
    | some (_, answer) =>
      { page with decisions :=
        ⟨client, page.proxyInfo, page.targetFilter, answer⟩ :: page.decisions }

end Decisions

/-- No destination is asked for between the two publications of a change of
both the filter and the proxy. -/
def Whole (page : Page1) : Event → Prop
  | .getProxyInfo _ =>
    match page.ui with
    | .applying profile before =>
      profile.filter = before ∨ profile.proxyInfo = page.proxyInfo
    | _ => True
  | _ => True

def Coherent (profiles : List Profile) (d : Decision) : Prop :=
  ∃ profile ∈ profiles, d.info = profile.proxyInfo ∧ d.filter = profile.filter

structure Sound (page : Page1) : Prop where
  idle : page.ui = .idle → page.runtimeSettingsValid = page.running
  starting : ∀ profile, page.ui = .starting profile →
    page.runtimeSettingsValid = false ∧ page.targetFilter = profile.filter ∧
      profile ∈ page.profiles
  applying : ∀ profile before, page.ui = .applying profile before →
    page.running = true ∧ page.targetFilter = profile.filter ∧
      profile ∈ page.profiles ∧
      ∃ old ∈ page.profiles, page.proxyInfo = old.proxyInfo ∧ before = old.filter
  settled : page.runtimeSettingsValid = true →
    (∀ profile before, page.ui ≠ .applying profile before) →
      ∃ profile ∈ page.profiles, page.proxyInfo = profile.proxyInfo ∧
        page.targetFilter = profile.filter
  launching : page.ui = .launching → page.runtimeSettingsValid = true
  stopping : page.ui = .stopping → page.running = false
  decisions : ∀ d ∈ page.decisions, Coherent page.profiles d

def Page1.initial : Page1 where
  proxyInfo := ⟨[], [], 0, [], [], 0, []⟩
  runtimeSettings := ⟨false, false, .localResolver, false, false, false, .unspec⟩
  runtimeSettingsValid := false
  targetFilter := ⟨.bypass, []⟩
  running := false
  ui := .idle
  profiles := []
  decisions := []

theorem initial_sound : Sound .initial := by
  constructor <;> simp [Page1.initial]

variable {inetNtop : In6Addr → Bytes} {pathMatchSpec : Bytes → Bytes → Bool}
  {page : Page1}

theorem Coherent.later {profiles : List Profile} {d : Decision}
    (profile : Profile) (h : Coherent profiles d) :
    Coherent (profile :: profiles) d := by
  obtain ⟨old, hold, hrest⟩ := h
  exact ⟨old, List.mem_cons_of_mem _ hold, hrest⟩

theorem startProxy_sound (profile : Profile) (h : Sound page) :
    Sound (step inetNtop pathMatchSpec page (.startProxy profile)) := by
  simp only [step]
  split
  · rename_i hstart
    have hinvalid : page.runtimeSettingsValid = false := by
      rw [h.idle hstart.1]
      exact hstart.2
    constructor
    · simp
    · rintro p ⟨⟩
      exact ⟨hinvalid, rfl, List.mem_cons_self⟩
    · simp
    · intro hvalid
      simp [Page1.publishTargetFilter, hinvalid] at hvalid
    · simp
    · simp
    · exact fun d hd => (h.decisions d hd).later profile
  · exact h

theorem applyRuntimeSettings_sound (profile : Profile) (h : Sound page) :
    Sound (step inetNtop pathMatchSpec page (.applyRuntimeSettings profile)) := by
  simp only [step]
  split
  · rename_i happly
    have hvalid : page.runtimeSettingsValid = true := by
      rw [h.idle happly.1]
      exact happly.2
    obtain ⟨old, hold, hinfo, hfilter⟩ :=
      h.settled hvalid (by simp [happly.1])
    constructor
    · simp
    · simp
    · rintro p before ⟨⟩
      exact ⟨happly.2, rfl, List.mem_cons_self, old,
        List.mem_cons_of_mem _ hold, hinfo, hfilter⟩
    · intro _ hn
      exact absurd rfl (hn profile page.targetFilter)
    · simp
    · simp
    · exact fun d hd => (h.decisions d hd).later profile
  · exact h

theorem publish_sound (h : Sound page) :
    Sound (step inetNtop pathMatchSpec page .publish) := by
  simp only [step]
  split
  · rename_i profile hui
    obtain ⟨-, hfilter, hmem⟩ := h.starting profile hui
    constructor
    · simp
    · simp
    · simp
    · exact fun _ _ => ⟨profile, hmem, rfl, hfilter⟩
    · exact fun _ => rfl
    · simp
    · exact h.decisions
  · rename_i profile before hui
    obtain ⟨hrunning, hfilter, hmem, -⟩ := h.applying profile before hui
    constructor
    · exact fun _ => hrunning.symm
    · simp
    · simp
    · exact fun _ _ => ⟨profile, hmem, rfl, hfilter⟩
    · simp
    · simp
    · exact h.decisions
  · exact h

theorem started_sound (ok : Bool) (h : Sound page) :
    Sound (step inetNtop pathMatchSpec page (.started ok)) := by
  simp only [step]
  split
  · rename_i hui
    have hvalid := h.launching hui
    constructor
    · simp [hvalid]
    · simp
    · simp
    · exact fun _ _ => h.settled hvalid (by simp [hui])
    · simp
    · simp
    · exact h.decisions
  · exact h

theorem stopProxy_sound (ok : Bool) (h : Sound page) :
    Sound (step inetNtop pathMatchSpec page (.stopProxy ok)) := by
  simp only [step]
  split
  · rename_i hstop
    constructor
    · simp
    · simp
    · simp
    · exact fun hvalid _ => h.settled hvalid (by simp [hstop.1])
    · simp
    · exact fun _ => rfl
    · exact h.decisions
  · exact h

theorem withdraw_sound (h : Sound page) :
    Sound (step inetNtop pathMatchSpec page .withdraw) := by
  simp only [step]
  split
  · rename_i hui
    constructor
    · exact fun _ => (h.stopping hui).symm
    · simp
    · simp
    · simp
    · simp
    · simp
    · exact h.decisions
  · exact h

private theorem getProxyInfo_sound (client : PrcClient) (h : Sound page)
    (hwhole : Whole page (.getProxyInfo client)) :
    Sound (step inetNtop pathMatchSpec page (.getProxyInfo client)) := by
  simp only [step]
  split
  · exact h
  · rename_i caller answer hanswer
    have hvalid : page.runtimeSettingsValid = true := by
      by_contra hn
      simp [Page1.getProxyInfo, hn] at hanswer
    have hview : Coherent page.profiles
        ⟨client, page.proxyInfo, page.targetFilter, answer⟩ := by
      cases hui : page.ui with
      | applying profile before =>
        obtain ⟨-, hfilter, hmem, old, hold, hinfo, hbefore⟩ :=
          h.applying profile before hui
        simp only [Whole, hui] at hwhole
        obtain hsame | hsame := hwhole
        · exact ⟨old, hold, hinfo, by rw [hfilter, hsame, hbefore]⟩
        · exact ⟨profile, hmem, hsame.symm, hfilter⟩
      | idle => exact h.settled hvalid (by simp [hui])
      | starting profile => exact h.settled hvalid (by simp [hui])
      | launching => exact h.settled hvalid (by simp [hui])
      | stopping => exact h.settled hvalid (by simp [hui])
    refine { h with decisions := ?_ }
    intro d hd
    obtain rfl | hd := List.mem_cons.1 hd
    · exact hview
    · exact h.decisions d hd

theorem step_sound (e : Event) (h : Sound page) (hwhole : Whole page e) :
    Sound (step inetNtop pathMatchSpec page e) := by
  cases e with
  | startProxy profile => exact startProxy_sound profile h
  | applyRuntimeSettings profile => exact applyRuntimeSettings_sound profile h
  | publish => exact publish_sound h
  | started ok => exact started_sound ok h
  | stopProxy ok => exact stopProxy_sound ok h
  | withdraw => exact withdraw_sound h
  | getProxyInfo client => exact getProxyInfo_sound client h hwhole

def GoesThroughProxy (inetNtop : In6Addr → Bytes)
    (pathMatchSpec : Bytes → Bytes → Bool) (filter : TargetInjectFilterSnapshot)
    (client : PrcClient) : Prop :=
  filter.patterns = [] ∨
    (filter.nMode = .proxy ∧ ∃ pattern ∈ filter.patterns,
      pathMatchSpec (matchKey inetNtop client) pattern = true) ∨
    (filter.nMode = .bypass ∧ ∀ pattern ∈ filter.patterns,
      pathMatchSpec (matchKey inetNtop client) pattern = false)

theorem decideProxy_cases (info : ProxyInfo) (filter : TargetInjectFilterSnapshot)
    (client : PrcClient) :
    (GoesThroughProxy inetNtop pathMatchSpec filter client ∧
        decideProxy inetNtop pathMatchSpec info filter client = info) ∨
      (¬GoesThroughProxy inetNtop pathMatchSpec filter client ∧
        decideProxy inetNtop pathMatchSpec info filter client =
          useDirectConnection info) := by
  obtain ⟨mode, patterns⟩ := filter
  unfold decideProxy GoesThroughProxy
  cases patterns with
  | nil => simp
  | cons pattern rest =>
    cases mode with
    | proxy =>
      by_cases hmatch : isMatched inetNtop pathMatchSpec
          ⟨.proxy, pattern :: rest⟩ client = true
      · left
        refine ⟨Or.inr (Or.inl ⟨rfl, ?_⟩), by simp [hmatch]⟩
        exact List.any_eq_true.1 hmatch
      · right
        have hn : ¬∃ x ∈ pattern :: rest,
            pathMatchSpec (matchKey inetNtop client) x = true :=
          fun hx => hmatch (List.any_eq_true.2 hx)
        refine ⟨?_, by simp [hmatch]⟩
        rintro (h | ⟨-, h⟩ | ⟨h, -⟩)
        · simp at h
        · exact hn h
        · simp at h
    | bypass =>
      by_cases hmatch : isMatched inetNtop pathMatchSpec
          ⟨.bypass, pattern :: rest⟩ client = true
      · right
        obtain ⟨x, hx, hspec⟩ := List.any_eq_true.1 hmatch
        refine ⟨?_, by simp [hmatch]⟩
        rintro (h | ⟨h, -⟩ | ⟨-, h⟩)
        · simp at h
        · simp at h
        · simp [h x hx] at hspec
      · left
        have hmatch' : isMatched inetNtop pathMatchSpec
            ⟨.bypass, pattern :: rest⟩ client = false := by
          simpa using hmatch
        refine ⟨Or.inr (Or.inr ⟨rfl, ?_⟩), by simp [hmatch']⟩
        intro x hx
        simpa using List.any_eq_false.1 hmatch' x hx

def Answered (inetNtop : In6Addr → Bytes) (pathMatchSpec : Bytes → Bytes → Bool)
    (page : Page1) : Prop :=
  ∀ d ∈ page.decisions, d.answer =
    decideProxy inetNtop pathMatchSpec d.info d.filter d.client

theorem step_answers (e : Event) (h : Answered inetNtop pathMatchSpec page) :
    Answered inetNtop pathMatchSpec (step inetNtop pathMatchSpec page e) := by
  cases e with
  | getProxyInfo client =>
    simp only [step]
    split
    · exact h
    · rename_i caller answer hanswer
      intro d hd
      obtain rfl | hd := List.mem_cons.1 hd
      · simp only [Page1.getProxyInfo] at hanswer
        split at hanswer
        · exact (congrArg Prod.snd (Option.some.inj hanswer)).symm
        · simp at hanswer
      · exact h d hd
  | publish =>
    simp only [step]
    split <;> exact h
  | startProxy profile | applyRuntimeSettings profile | started ok
  | stopProxy ok | withdraw =>
    simp only [step]
    split <;> exact h

/-- In every run in which no destination is asked for halfway through a change
of both the filter and the proxy, every answer is made with the proxy and the
filter of one profile: the proxy, or a direct connection where the filter says
so. -/
theorem decisions_coherent (inetNtop : In6Addr → Bytes)
    (pathMatchSpec : Bytes → Bytes → Bool) (events : List Event)
    (hwhole : Admissible (step inetNtop pathMatchSpec) Whole .initial events) :
    let page := run (step inetNtop pathMatchSpec) .initial events
    ∀ d ∈ page.decisions,
      (∃ profile ∈ page.profiles,
        d.info = profile.proxyInfo ∧ d.filter = profile.filter) ∧
      ((GoesThroughProxy inetNtop pathMatchSpec d.filter d.client ∧
          d.answer = d.info) ∨
        (¬GoesThroughProxy inetNtop pathMatchSpec d.filter d.client ∧
          d.answer = useDirectConnection d.info)) := by
  intro page d hd
  have hs : Sound page :=
    run_invariant (fun _ e ht hok => step_sound e ht hok) initial_sound hwhole
  have hanswers : Answered inetNtop pathMatchSpec page :=
    run_induction (fun _ e ht => step_answers e ht)
      (by simp [Answered, Page1.initial]) events
  refine ⟨hs.decisions d hd, ?_⟩
  rw [hanswers d hd]
  exact decideProxy_cases d.info d.filter d.client

def sampleProfile (proxyType host filter : String) (mode : TargetFilterMode) :
    Profile :=
  ⟨⟨ascii proxyType, ascii host, 1080, [], [], 0, []⟩,
    Page1.initial.runtimeSettings, ascii filter, mode⟩

def sampleClient : PrcClient :=
  { PrcClient.zero with
    sType := .stream
    dstAddr := .inet ⟨1, 2, 3, 4⟩ 443 }

def sampleChange : List Event :=
  [.startProxy (sampleProfile "SOCKS5" "10.0.0.1" "" .bypass), .publish,
    .started true,
    .applyRuntimeSettings (sampleProfile "HTTP" "10.0.0.2" "5.6.7.8:80" .proxy)]

def sameKey (key pattern : Bytes) : Bool := key == pattern

theorem decisions_coherent_change :
    let events := sampleChange ++ [.publish, .getProxyInfo sampleClient]
    let page := run (step (fun _ => []) sameKey) .initial events
    Admissible (step (fun _ => []) sameKey) Whole .initial events ∧
      page.decisions ≠ [] ∧
      ∀ d ∈ page.decisions, ∃ profile ∈ page.profiles,
        d.info = profile.proxyInfo ∧ d.filter = profile.filter := by
  intro events page
  have hwhole : Admissible (step (fun _ => []) sameKey) Whole .initial events :=
    ⟨trivial, trivial, trivial, trivial, trivial, trivial, trivial⟩
  refine ⟨hwhole, ?_, ?_⟩
  · decide
  · intro d hd
    exact (decisions_coherent (fun _ => []) sameKey events hwhole d hd).1

theorem halfway_decision_mixed :
    let page := run (step (fun _ => []) sameKey) .initial
      (sampleChange ++ [.getProxyInfo sampleClient])
    ∃ d ∈ page.decisions,
      d.info.strProxyHost = ascii "10.0.0.1" ∧
      d.filter.patterns = [ascii "5.6.7.8:80"] ∧
      d.answer = useDirectConnection d.info ∧
      ¬∃ profile ∈ page.profiles,
        d.info = profile.proxyInfo ∧ d.filter = profile.filter := by
  decide

end ProxyLane.App
