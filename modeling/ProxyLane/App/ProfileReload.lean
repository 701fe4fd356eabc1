import ProxyLane.App.ProfileSettings

/-!
# A profile before and after loading

What a draft publishes is compared with what it publishes when it was saved and
loaded.  Saving trims the text of the resolver, which publishing does not, and
an empty one is loaded as the default; the other texts go through the code page.
-/

namespace ProxyLane.App.ProfileSettings

open ProxyLane.Foundation ProxyLane.Hook RecentApplications ProfileFilter

variable {p : Platform} {options : Options} {draft : Draft}

/-! ## Fixed texts -/

def isAscii (text : Text) : Bool := text.all fun c => c.toNat < 128

def lowerAscii (c : UInt16) : UInt16 := if 65 ≤ c ∧ c ≤ 90 then c + 32 else c

theorem sameNoCase_ascii {left right : Text} (hleft : isAscii left = true)
    (hright : isAscii right = true) :
    sameNoCase p left right = (left.map lowerAscii == right.map lowerAscii) := by
  simp only [isAscii, List.all_eq_true, decide_eq_true_eq] at hleft hright
  rw [sameNoCase, List.map_congr_left fun c hc => p.lower_ascii c (hleft c hc),
    List.map_congr_left fun c hc => p.lower_ascii c (hright c hc)]
  rfl

variable {text : Text}

private theorem fromAnsi_narrow (n : Nat) (h : (narrow n text).all fun b => b.toNat < 128) :
    p.fromAnsi (narrow n text) = (narrow n text).map UInt8.toUInt16 := by
  simp only [List.all_eq_true, decide_eq_true_eq] at h
  exact p.fromAnsi_ascii _ h

@[simp] theorem fromAnsi_nil : p.fromAnsi [] = [] := p.fromAnsi_ascii [] (by simp)

theorem typeText_fromAnsi (index : Fin 3) :
    p.fromAnsi (narrow 32 (proxyTypes.get index)) = proxyTypes.get index := by
  match index with
  | 0 | 1 | 2 => exact (fromAnsi_narrow 32 (by decide)).trans (by decide)

theorem isAscii_get (index : Fin 3) : isAscii (proxyTypes.get index) = true := by
  revert index
  decide

theorem sameNoCase_get (index : Fin 3) (h : isAscii text = true) :
    sameNoCase p (proxyTypes.get index) text =
      ((proxyTypes.get index).map lowerAscii == text.map lowerAscii) :=
  sameNoCase_ascii (isAscii_get index) h

theorem findStringExact_get (index : Fin 3) :
    findStringExact p (proxyTypes.get index) = some index := by
  have hsame : ∀ other : Fin 3, sameNoCase p (proxyTypes.get other)
      (proxyTypes.get index) = decide (other = index) := by
    intro other
    rw [sameNoCase_get other (isAscii_get index)]
    revert index other
    decide
  simp only [findStringExact, hsame]
  clear hsame
  revert index
  decide

theorem sameNoCase_direct (index : Fin 3) :
    sameNoCase p (proxyTypes.get index) (wide "NOPROXY") = decide (index = 0) := by
  rw [sameNoCase_get index (by decide)]
  revert index
  decide

theorem sameNoCase_old (index : Fin 3) :
    sameNoCase p (proxyTypes.get index) (wide "HTTP10") = false ∧
      sameNoCase p (proxyTypes.get index) (wide "HTTP11") = false := by
  rw [sameNoCase_get index (by decide), sameNoCase_get index (by decide)]
  revert index
  decide

/-! ## The resolver -/

theorem trim_trim (test : UInt16 → Bool) (text : Text) :
    ProfileFilter.trim test (ProfileFilter.trim test text) =
      ProfileFilter.trim test text := by
  obtain ⟨-, -, -, -, -, hhead, hlast⟩ := exists_trim test text
  have h : ProfileFilter.trim test ([] ++ ProfileFilter.trim test text ++ []) =
      ProfileFilter.trim test text :=
    trim_append (by simp) (by simp) hhead hlast
  simpa using h

theorem trim_eq_self {test : UInt16 → Bool}
    (h : ∀ c ∈ text, test c = false) : ProfileFilter.trim test text = text := by
  obtain ⟨before, after, htext, hbefore, hafter, -⟩ := exists_trim test text
  have hnone : ∀ c ∈ before ++ after, False := by
    intro c hc
    have hspace : test c = true := by
      rcases List.mem_append.1 hc with hc | hc
      · exact hbefore c hc
      · exact hafter c hc
    have hmem : c ∈ text := by
      rw [htext]
      rcases List.mem_append.1 hc with hc | hc <;> simp [hc]
    simp [h c hmem] at hspace
  have hnil : before = [] ∧ after = [] := by
    simpa using List.eq_nil_iff_forall_not_mem.2 hnone
  rw [hnil.1, hnil.2] at htext
  simpa using htext.symm

theorem resolver_space {c : UInt16} (hmem : c ∈ text)
    (hspace : p.space c = true) : resolver p text = none := by
  obtain ⟨b, hb, hchar⟩ := p.toAnsi_space text c hmem hspace
  have hsix : isNumericAddressText .inet6 (p.toAnsi text) = false := by
    simp only [isNumericAddressText, Bool.and_eq_false_iff, List.all_eq_false]
    exact .inr ⟨b, hb, by simpa using hchar⟩
  have hfour : isNumericAddressText .inet (p.toAnsi text) = false := by
    simp only [isNumericAddressText, Bool.and_eq_false_iff, List.all_eq_false]
    refine .inr ⟨b, hb, ?_⟩
    simp only [isAddressChar, Bool.or_eq_false_iff] at hchar
    simp [isAddressChar, hchar]
  simp [resolver, setIP, inetPton4, inetPton6, hfour, hsix]

theorem resolver_nil : resolver p [] = none := by
  have hnil : p.toAnsi [] = [] := p.toAnsi_ascii [] (by simp)
  simp [resolver, setIP, inetPton4, inetPton6, hnil, isNumericAddressText]

theorem resolver_of_trim_ne (h : ProfileFilter.trim p.space text ≠ text) :
    resolver p text = none := by
  by_cases hspace : ∃ c ∈ text, p.space c = true
  · obtain ⟨c, hmem, hc⟩ := hspace
    exact resolver_space hmem hc
  · simp only [not_exists, not_and, Bool.not_eq_true] at hspace
    exact absurd (trim_eq_self hspace) h

theorem resolver_google :
    resolver p (wide "8.8.8.8") = some (.inet ⟨8, 8, 8, 8⟩ 0) := by
  have hascii : ∀ c ∈ wide "8.8.8.8", c.toNat < 128 := by
    have h : isAscii (wide "8.8.8.8") = true := by decide
    simpa [isAscii] using h
  have htext : p.toAnsi (wide "8.8.8.8") = ascii "8.8.8.8" :=
    (p.toAnsi_ascii _ hascii).trans (by decide)
  have hnumeric : (!isNumericAddressText .inet (ascii "8.8.8.8") ||
      64 ≤ (ascii "8.8.8.8").length) = false := by decide
  have hpublic : DnsRedirectPolicy.isValidPublicResolver (.inet ⟨8, 8, 8, 8⟩ 0) = true := by
    decide
  simp [resolver, setIP, inetPton4, htext, hnumeric, p.address4_google, hpublic]

def storedResolver (p : Platform) (text : Text) : Text :=
  if (ProfileFilter.trim p.space text).isEmpty then wide "8.8.8.8"
  else ProfileFilter.trim p.space text

/-- A text names the same resolver after loading unless it is blank, or has
white space around a public resolver. -/
theorem resolver_stored (text : Text) :
    resolver p (storedResolver p text) = resolver p text ↔
      ProfileFilter.trim p.space text ≠ [] ∧
        (ProfileFilter.trim p.space text = text ∨
          resolver p (ProfileFilter.trim p.space text) = none) := by
  by_cases hblank : ProfileFilter.trim p.space text = []
  case pos =>
    have hnone : resolver p text = none := by
      by_cases htext : text = []
      · rw [htext, resolver_nil]
      · exact resolver_of_trim_ne (by simpa [hblank] using Ne.symm htext)
    simp [storedResolver, hblank, resolver_google, hnone]
  case neg =>
    have hstored : storedResolver p text = ProfileFilter.trim p.space text := by
      simp [storedResolver, hblank]
    by_cases htrim : ProfileFilter.trim p.space text = text
    · have htext : text ≠ [] := htrim ▸ hblank
      simp [hstored, htrim, htext]
    · rw [hstored, resolver_of_trim_ne htrim]
      simp [hblank, htrim]

/-! ## What a draft is checked for -/

def baseInfo (p : Platform) (draft : Draft) (index : Fin 3) : ProxyInfo where
  strProxyType := narrow 32 (proxyTypes.get index)
  strProxyHost := narrow 128 draft.hostName
  nProxyPort := p.toInt draft.port
  strProxyUser := narrow 128 draft.user
  strProxyPass := narrow 128 draft.pass
  reserved := if draft.transport then proxyTransportGoncTlsPsk else proxyTransportPlain
  strTransportPsk := []

def directInfo : ProxyInfo :=
  ⟨narrow 32 (wide "NOPROXY"), [], 0, [], [], proxyTransportPlain, []⟩

theorem known_get (index : Fin 3) :
    ¬ (proxyTypes.get index ≠ wide "NOPROXY" ∧ proxyTypes.get index ≠ wide "SOCKS5" ∧
      proxyTypes.get index ≠ wide "HTTP") := by
  revert index
  decide

theorem getSettings_direct (h : draft.proxyType = some 0) :
    getSettings p draft = some directInfo := by
  have hdirect : sameNoCase p (proxyTypes.get 0) (wide "NOPROXY") = true := by
    simp [sameNoCase_direct]
  simp only [getSettings, typeText, h, Option.map_some, if_neg (known_get 0), hdirect,
    if_true]
  rfl

variable {index : Fin 3}

theorem getSettings_proxied (h : draft.proxyType = some index)
    (hindex : index ≠ 0) :
    getSettings p draft =
      if draft.hostName.isEmpty ∨ draft.port.isEmpty ∨ p.toInt draft.port = 0 then none
      else transportPsk p draft (baseInfo p draft index) := by
  have hdirect : sameNoCase p (proxyTypes.get index) (wide "NOPROXY") = false := by
    simp [sameNoCase_direct, hindex]
  simp only [getSettings, typeText, h, Option.map_some, if_neg (known_get index), hdirect,
    Bool.false_eq_true, if_false]
  rfl

theorem getSettings_none (h : draft.proxyType = none) : getSettings p draft = none := by
  simp [getSettings, typeText, h]

def typeOf (index : Fin 3) : ProxyType :=
  if index = 0 then .noProxy else if index = 1 then .socks5 else .http11

theorem typeOf_ne (h : index ≠ 0) : typeOf index ≠ .noProxy := by
  revert index
  decide

theorem supportsUdp_typeOf (hindex : index ≠ 0) :
    supportsUdpProxy (typeOf index) = decide (index = 1) := by
  revert index
  decide

theorem getProxyType_get (index : Fin 3) (info : ProxyInfo)
    (h : info.strProxyType = narrow 32 (proxyTypes.get index)) :
    info.getProxyType = typeOf index := by
  simp only [ProxyInfo.getProxyType, h]
  clear h
  revert index
  decide

theorem supportsGonc_get (hindex : index ≠ 0) (info : ProxyInfo)
    (h : info.strProxyType = narrow 32 (proxyTypes.get index)) :
    supportsGoncTlsPsk info.getProxyType = true := by
  rw [getProxyType_get index info h]
  clear h
  revert index
  decide

def secret (p : Platform) (draft : Draft) : Option Bytes :=
  if draft.transport then
    if !p.supportsModules || draft.transportPsk.isEmpty ||
        (p.utf8 draft.transportPsk).length = 0 || 256 ≤ (p.utf8 draft.transportPsk).length
    then none
    else some (p.utf8 draft.transportPsk)
  else some []

variable {info : ProxyInfo}

theorem transportPsk_eq (hsupports : supportsGoncTlsPsk info.getProxyType = true)
    (hempty : info.strTransportPsk = []) :
    transportPsk p draft info =
      (secret p draft).map fun bytes => { info with strTransportPsk := bytes } := by
  have hsame : { info with strTransportPsk := [] } = info := by
    rw [← hempty]
  unfold transportPsk secret
  split
  case isTrue =>
    simp only [hsupports, Bool.not_true, Bool.false_eq_true, if_false]
    cases p.supportsModules <;> cases draft.transportPsk.isEmpty <;>
      by_cases hzero : (p.utf8 draft.transportPsk).length = 0 <;>
      by_cases hlong : 256 ≤ (p.utf8 draft.transportPsk).length <;>
      simp [hzero, hlong]
  case isFalse => simp [hsame]

theorem getSettings_eq_some
    (h : draft.proxyType = some index) (hindex : index ≠ 0) :
    getSettings p draft = some info ↔
      draft.hostName ≠ [] ∧ draft.port ≠ [] ∧ p.toInt draft.port ≠ 0 ∧
        ∃ bytes, secret p draft = some bytes ∧
          { baseInfo p draft index with strTransportPsk := bytes } = info := by
  have hsupports : supportsGoncTlsPsk (baseInfo p draft index).getProxyType = true :=
    supportsGonc_get hindex _ rfl
  rw [getSettings_proxied h hindex, transportPsk_eq hsupports rfl]
  split
  case isTrue hmissing =>
    simp only [List.isEmpty_iff] at hmissing
    simp only [reduceCtorEq, false_iff]
    rintro ⟨hhost, hport, hzero, -⟩
    rcases hmissing with h | h | h
    · exact hhost h
    · exact hport h
    · exact hzero h
  case isFalse hpresent =>
    simp only [List.isEmpty_iff, not_or] at hpresent
    simp [hpresent]

/-! ## After loading -/

def renarrow (p : Platform) (bytes : Bytes) : Bytes := narrow 128 (p.fromAnsi bytes)

def reloadedDraft (p : Platform) (draft : Draft) (index : Fin 3) : Draft :=
  { draft with
    hostName := p.fromAnsi (renarrow p (narrow 128 draft.hostName))
    port := formatInt (p.toInt draft.port)
    user := p.fromAnsi (renarrow p (narrow 128 draft.user))
    pass := p.fromAnsi (renarrow p (narrow 128 draft.pass))
    hookUDP := if index = 1 then draft.hookUDP else false
    redirectDNS := storedResolver p draft.redirectDNS }

def savedSection (p : Platform) (draft : Draft) (index : Fin 3) : Section where
  hookChildProcess := draft.hookChildProcess
  hookTCP := draft.hookTCP
  hookUDP := draft.hookUDP
  blockUDP := draft.blockUDP
  blockIPv6 := draft.blockIPv6
  dnsOpt := if draft.dnsLocal then .localResolver else .remoteResolver
  redirectPrivateDNS := draft.redirectPrivateDNS
  redirectDNS := ProfileFilter.trim p.space draft.redirectDNS
  type := proxyTypes.get index
  host := p.fromAnsi (narrow 128 draft.hostName)
  port := p.toInt draft.port
  user := p.fromAnsi (narrow 128 draft.user)
  pass := p.fromAnsi (narrow 128 draft.pass)
  transport := if draft.transport then wide "GONC_TLS_PSK" else wide "PLAIN"
  psk := draft.transportPsk

theorem saved_type (index : Fin 3) :
    (if typeOf index = .http10 ∨ typeOf index = .http11 then wide "HTTP"
      else proxyTypes.get index) = proxyTypes.get index := by
  revert index
  decide

theorem save_proxied (hindex : index ≠ 0) (bytes : Bytes) :
    save p (uiGetCfg p draft
        { baseInfo p draft index with strTransportPsk := bytes }) =
      savedSection p draft index := by
  have htype := getProxyType_get index
    { baseInfo p draft index with strTransportPsk := bytes } rfl
  simp only [save, uiGetCfg, htype, typeOf_ne hindex, if_false]
  simp only [baseInfo, typeText_fromAnsi, saved_type, savedSection]
  cases draft.transport <;> rfl

theorem loaded_type (index : Fin 3) :
    (if typeOf index = .http10 ∨ typeOf index = .http11 then narrow 32 (wide "HTTP")
      else narrow 32 (proxyTypes.get index)) = narrow 32 (proxyTypes.get index) := by
  revert index
  decide

theorem loadProxyInfo_proxied (index : Fin 3) :
    loadProxyInfo (savedSection p draft index) =
      { strProxyType := narrow 32 (proxyTypes.get index)
        strProxyHost := renarrow p (narrow 128 draft.hostName)
        nProxyPort := p.toInt draft.port
        strProxyUser := renarrow p (narrow 128 draft.user)
        strProxyPass := renarrow p (narrow 128 draft.pass)
        reserved := proxyTransportPlain
        strTransportPsk := [] } := by
  have htype := getProxyType_get index
    ⟨narrow 32 (savedSection p draft index).type, [], 0, [], [], proxyTransportPlain, []⟩
    rfl
  simp only [loadProxyInfo, htype]
  simp only [savedSection, loaded_type, renarrow]

theorem sameNoCase_transport (transport : Bool) :
    sameNoCase p (if transport then wide "GONC_TLS_PSK" else wide "PLAIN")
      (wide "GONC_TLS_PSK") = transport := by
  cases transport with
  | true =>
    exact (sameNoCase_ascii (by decide) (by decide)).trans
      (by decide)
  | false =>
    exact (sameNoCase_ascii (by decide) (by decide)).trans
      (by decide)

def loadedItem (p : Platform) (draft : Draft) (index : Fin 3) : CfgProxyItem where
  pi := loadProxyInfo (savedSection p draft index)
  bHookTCP := draft.hookTCP
  bHookUDP := draft.hookUDP
  bBlockUDP := draft.blockUDP
  bBlockIPv6 := draft.blockIPv6
  bHookChildProcess := draft.hookChildProcess
  dnsOpt := if draft.dnsLocal then .localResolver else .remoteResolver
  bRedirectPrivateDNS := draft.redirectPrivateDNS
  strRedirectDNS := storedResolver p draft.redirectDNS
  nTransportMode :=
    if draft.transport then proxyTransportGoncTlsPsk else proxyTransportPlain
  strTransportPsk := draft.transportPsk

theorem name_ne_nil (index : Fin 3) : narrow 32 (proxyTypes.get index) ≠ [] := by
  revert index
  decide

theorem load_proxied (hindex : index ≠ 0) (hport : p.toInt draft.port ≠ 0) :
    load p (savedSection p draft index) =
      if renarrow p (narrow 128 draft.hostName) = [] then none
      else some (loadedItem p draft index) := by
  have htype : (loadProxyInfo (savedSection p draft index)).getProxyType = typeOf index :=
    getProxyType_get index _ (by rw [loadProxyInfo_proxied])
  have hdirect : sameNoCase p
      (p.fromAnsi (loadProxyInfo (savedSection p draft index)).strProxyType)
      (wide "NOPROXY") = false := by
    rw [loadProxyInfo_proxied, typeText_fromAnsi, sameNoCase_direct]
    simpa using hindex
  have htransport : sameNoCase p (savedSection p draft index).transport
      (wide "GONC_TLS_PSK") = draft.transport := sameNoCase_transport draft.transport
  have hkept : ((typeOf index ≠ .noProxy ∧
      (loadProxyInfo (savedSection p draft index)).nProxyPort ≠ 0 ∧
      (loadProxyInfo (savedSection p draft index)).strProxyHost ≠ [] ∧
      (loadProxyInfo (savedSection p draft index)).strProxyType ≠ []) ↔
        renarrow p (narrow 128 draft.hostName) ≠ []) := by
    simp [loadProxyInfo_proxied, typeOf_ne hindex, hport, name_ne_nil]
  simp only [load, hdirect, htype, htransport, hkept, Bool.false_eq_true, if_false]
  by_cases hhost : renarrow p (narrow 128 draft.hostName) = [] <;>
    simp [hhost, loadedItem, savedSection, storedResolver]

theorem updateTransportEnable_proxied {d : Draft}
    (h : d.proxyType = some index) (hindex : index ≠ 0) :
    updateTransportEnable p d =
      { d with hookUDP := if index = 1 then d.hookUDP else false } := by
  have hdirect : sameNoCase p (proxyTypes.get index) (wide "NOPROXY") = false := by
    rw [sameNoCase_direct]
    simpa using hindex
  have hselected := getProxyType_get index
    ⟨narrow 32 (proxyTypes.get index), [], 0, [], [], 0, []⟩ rfl
  have hgonc : supportsGoncTlsPsk (typeOf index) = true := by
    rw [← hselected]
    exact supportsGonc_get hindex _ rfl
  have hudp := supportsUdp_typeOf hindex
  simp only [updateTransportEnable, typeText, h, Option.map_some, Option.getD_some,
    hdirect, hselected, hgonc, hudp]
  cases d
  by_cases hone : index = 1 <;> simp_all

theorem uiLoadCfg_proxied (hindex : index ≠ 0) :
    uiLoadCfg p (loadedItem p draft index) =
      { reloadedDraft p draft index with proxyType := some index } := by
  have hpi : (loadedItem p draft index).pi = _ := loadProxyInfo_proxied index
  have hdirect : sameNoCase p (proxyTypes.get index) (wide "NOPROXY") = false := by
    rw [sameNoCase_direct]
    simpa using hindex
  have hmode : decide ((loadedItem p draft index).nTransportMode =
      proxyTransportGoncTlsPsk) = draft.transport := by
    simp only [loadedItem]
    by_cases htransport : draft.transport = true <;>
      simp [htransport, proxyTransportPlain, proxyTransportGoncTlsPsk]
  have hdns : decide ((loadedItem p draft index).dnsOpt = .localResolver) =
      draft.dnsLocal := by
    simp only [loadedItem]
    by_cases hlocal : draft.dnsLocal = true <;> simp [hlocal]
  simp only [uiLoadCfg, hpi, typeText_fromAnsi, hdirect, sameNoCase_old index, hmode,
    hdns, Bool.false_eq_true, or_self, if_false, false_and, findStringExact_get]
  rw [updateTransportEnable_proxied rfl hindex]
  rfl

theorem reloaded_proxied (h : draft.proxyType = some index) (hindex : index ≠ 0)
    (hinfo : getSettings p draft = some info)
    (hvalid : validateDnsRedirectSettings p draft = true) :
    reloaded p draft =
      if renarrow p (narrow 128 draft.hostName) = [] then none
      else some (reloadedDraft p draft index) := by
  obtain ⟨-, -, hport, bytes, -, rfl⟩ := (getSettings_eq_some h hindex).1 hinfo
  have hdraft : { reloadedDraft p draft index with proxyType := some index } =
      reloadedDraft p draft index := by
    simp [reloadedDraft, h]
  simp only [reloaded, saveCurrentProfile, hinfo, hvalid, if_true,
    save_proxied hindex bytes, load_proxied hindex hport]
  split <;> simp [uiLoadCfg_proxied hindex, hdraft]

def reloadedDirect (p : Platform) (draft : Draft) : Draft :=
  { draft with
    hostName := []
    port := []
    user := []
    pass := []
    transport := false
    transportPsk := []
    redirectDNS := storedResolver p draft.redirectDNS }

def directItem (p : Platform) (draft : Draft) : CfgProxyItem :=
  { loadedItem p draft 0 with
    pi := directInfo
    nTransportMode := proxyTransportPlain
    strTransportPsk := [] }

theorem directInfo_type : directInfo.getProxyType = .noProxy :=
  getProxyType_get 0 directInfo rfl

theorem directInfo_fromAnsi :
    p.fromAnsi directInfo.strProxyType = proxyTypes.get 0 := typeText_fromAnsi 0

theorem load_direct :
    load p (save p (uiGetCfg p draft directInfo)) = some (directItem p draft) := by
  have hsection : loadProxyInfo (save p (uiGetCfg p draft directInfo)) = directInfo := by
    have htype : (save p (uiGetCfg p draft directInfo)).type = proxyTypes.get 0 := by
      simp [save, uiGetCfg, directInfo_type, directInfo_fromAnsi]
    have hold := getProxyType_get 0
      ⟨narrow 32 (proxyTypes.get 0), [], 0, [], [], proxyTransportPlain, []⟩ rfl
    simp only [loadProxyInfo, htype, hold, loaded_type]
    simp only [save, uiGetCfg, directInfo, fromAnsi_nil]
    rfl
  have hdirect : sameNoCase p (p.fromAnsi directInfo.strProxyType) (wide "NOPROXY") =
      true := by
    rw [directInfo_fromAnsi, sameNoCase_direct]
    rfl
  have hmode : sameNoCase p (save p (uiGetCfg p draft directInfo)).transport
      (wide "GONC_TLS_PSK") = false := by
    have hplain : (save p (uiGetCfg p draft directInfo)).transport = wide "PLAIN" := by
      simp [save, uiGetCfg, directInfo_type, proxyTransportPlain,
        proxyTransportGoncTlsPsk]
    rw [hplain]
    exact sameNoCase_transport false
  simp only [load, hsection, hdirect, if_true, hmode, Bool.false_eq_true, if_false]
  simp [directItem, loadedItem, save, uiGetCfg, directInfo_type, storedResolver]

theorem updateTransportEnable_direct {d : Draft} (h : d.proxyType = some 0) :
    updateTransportEnable p d = { d with transport := false } := by
  have hdirect : sameNoCase p (proxyTypes.get 0) (wide "NOPROXY") = true := by
    rw [sameNoCase_direct]
    rfl
  have hselected := getProxyType_get 0
    ⟨narrow 32 (proxyTypes.get 0), [], 0, [], [], 0, []⟩ rfl
  have hudp : supportsUdpProxy (typeOf 0) = true := rfl
  simp only [updateTransportEnable, typeText, h, Option.map_some, Option.getD_some,
    hdirect, hselected, hudp]
  cases d
  simp_all

theorem uiLoadCfg_direct :
    uiLoadCfg p (directItem p draft) =
      { reloadedDirect p draft with proxyType := some 0 } := by
  have hdirect : sameNoCase p (proxyTypes.get 0) (wide "NOPROXY") = true := by
    rw [sameNoCase_direct]
    rfl
  have hport : directInfo.nProxyPort = 0 := rfl
  have hdns : decide ((directItem p draft).dnsOpt = .localResolver) =
      draft.dnsLocal := by
    simp only [directItem, loadedItem]
    by_cases hlocal : draft.dnsLocal = true <;> simp [hlocal]
  have hpi : (directItem p draft).pi = directInfo := rfl
  simp only [uiLoadCfg, hpi, directInfo_fromAnsi, hdirect, hport, and_self, if_true,
    sameNoCase_old 0, Bool.false_eq_true, or_self, if_false, findStringExact_get, hdns]
  rw [updateTransportEnable_direct rfl]
  simp [reloadedDirect, directInfo, directItem, loadedItem]

theorem reloaded_direct (h : draft.proxyType = some 0)
    (hvalid : validateDnsRedirectSettings p draft = true) :
    reloaded p draft = some (reloadedDirect p draft) := by
  have hdraft : { reloadedDirect p draft with proxyType := some 0 } =
      reloadedDirect p draft := by
    simp [reloadedDirect, h]
  simp [reloaded, saveCurrentProfile, getSettings_direct h, hvalid, load_direct,
    uiLoadCfg_direct, hdraft]

/-! ## What is published -/

def settingsFor (p : Platform) (options : Options) (draft : Draft) (info : ProxyInfo) :
    RuntimeSettings :=
  { getProxySettingsFromUi p options draft with
    bHookUDP := draft.hookUDP && supportsUdpProxy info.getProxyType }

variable {settings : RuntimeSettings}

theorem published_eq_some :
    published p options draft = some (info, settings) ↔
      getSettings p draft = some info ∧ validateDnsRedirectSettings p draft = true ∧
        settingsFor p options draft info = settings := by
  unfold published
  cases getSettings p draft with
  | none => simp
  | some found =>
    by_cases hvalid : validateDnsRedirectSettings p draft = true
    · simp only [hvalid, if_true]
      cases hudp : supportsUdpProxy found.getProxyType <;>
        simp [settingsFor, getProxySettingsFromUi] <;>
        rintro rfl <;> simp [hudp]
    · simp [hvalid]

theorem resolver_ne_unspec (text : Text) : resolver p text ≠ some .unspec := by
  rw [resolver, Ne, Option.filter_eq_some_iff]
  rintro ⟨-, hpublic⟩
  exact absurd hpublic (by decide)

def settingsWith (options : Options) (draft : Draft) (info : ProxyInfo)
    (address : Option SockAddr) : RuntimeSettings where
  bHookTCP := draft.hookTCP
  bHookUDP := draft.hookUDP && supportsUdpProxy info.getProxyType
  bBlockUDP := draft.blockUDP
  bBlockIPv6 := draft.blockIPv6
  bHookCreateProcess := draft.hookChildProcess
  nDNSOption := if draft.dnsLocal then .localResolver else .remoteResolver
  bHookLanIP := options.hookLanIP
  bDisableLLMNR := options.disableLLMNR
  bDisableMDNS := options.disableMDNS
  bRedirectPrivateDNS :=
    !draft.dnsLocal && draft.redirectPrivateDNS && address.isSome
  redirectDNSAddr := address.getD .unspec

theorem settingsFor_eq (info : ProxyInfo) :
    settingsFor p options draft info =
      settingsWith options draft info (resolver p draft.redirectDNS) := rfl

theorem settingsWith_inj (info : ProxyInfo) {left right : Option SockAddr}
    (hleft : left ≠ some .unspec) (hright : right ≠ some .unspec) :
    settingsWith options draft info left = settingsWith options draft info right ↔
      left = right := by
  constructor
  · intro h
    have haddress : left.getD .unspec = right.getD .unspec :=
      congrArg (fun settings => settings.redirectDNSAddr) h
    cases left with
    | none =>
      cases right with
      | none => rfl
      | some b => exact absurd (congrArg some haddress.symm) hright
    | some a =>
      cases right with
      | none => exact absurd (congrArg some haddress) hleft
      | some b => exact congrArg some haddress
  · rintro rfl
    rfl

theorem validate_stored {d : Draft} (h : validateDnsRedirectSettings p draft = true)
    (hlocal : d.dnsLocal = draft.dnsLocal)
    (hredirect : d.redirectPrivateDNS = draft.redirectPrivateDNS)
    (htext : d.redirectDNS = storedResolver p draft.redirectDNS) :
    validateDnsRedirectSettings p d = true := by
  unfold validateDnsRedirectSettings at h ⊢
  rw [hlocal, hredirect, htext]
  split at h
  case isTrue hoff => simp [hoff]
  case isFalse hon =>
    have hblank : ProfileFilter.trim p.space draft.redirectDNS ≠ [] := by
      intro hblank
      simp [hblank, resolver_nil] at h
    have hstored : storedResolver p draft.redirectDNS =
        ProfileFilter.trim p.space draft.redirectDNS := by
      simp [storedResolver, hblank]
    simp [hon, hstored, trim_trim, h]

def Survives (p : Platform) (text : Text) : Prop :=
  renarrow p (renarrow p (narrow 128 text)) = narrow 128 text

/-- The resolver's text is neither blank nor a public resolver with white space
around it, and the texts of a proxy, of which the host is not empty, survive
the code page. -/
structure Faithful (p : Platform) (draft : Draft) : Prop where
  not_blank : ProfileFilter.trim p.space draft.redirectDNS ≠ []
  trimmed : ProfileFilter.trim p.space draft.redirectDNS = draft.redirectDNS ∨
    resolver p (ProfileFilter.trim p.space draft.redirectDNS) = none
  proxied : draft.proxyType ≠ some 0 → narrow 128 draft.hostName ≠ [] ∧
    Survives p draft.hostName ∧ Survives p draft.user ∧ Survives p draft.pass

theorem renarrow_nil : renarrow p [] = [] := by
  simp [renarrow, narrow]

theorem formatInt_ne_nil (n : Int) : formatInt n ≠ [] := by
  unfold formatInt
  split
  · simp
  · simp [RecentApplications.decimal, Nat.toDigits_ne_nil]

theorem fromAnsi_ne_nil {bytes : Bytes} (h : renarrow p bytes ≠ []) :
    p.fromAnsi bytes ≠ [] := by
  intro hnil
  simp [renarrow, hnil, narrow] at h

theorem reload_direct_iff (htype : draft.proxyType = some 0)
    (h : published p options draft = some (info, settings)) :
    (reloaded p draft).bind (published p options) = some (info, settings) ↔
      resolver p (storedResolver p draft.redirectDNS) =
        resolver p draft.redirectDNS := by
  obtain ⟨hinfo, hvalid, rfl⟩ := published_eq_some.1 h
  have hreloaded := reloaded_direct htype hvalid
  have hdirect : getSettings p (reloadedDirect p draft) = some directInfo :=
    getSettings_direct htype
  rw [getSettings_direct htype] at hinfo
  cases hinfo
  have hstill : validateDnsRedirectSettings p (reloadedDirect p draft) = true :=
    validate_stored hvalid rfl rfl rfl
  rw [hreloaded, Option.bind_some, published_eq_some]
  simp only [hdirect, hstill, true_and]
  exact settingsWith_inj directInfo (resolver_ne_unspec _) (resolver_ne_unspec _)

theorem settings_reloaded (hindex : index ≠ 0) (bytes : Bytes) :
    settingsFor p options (reloadedDraft p draft index)
          { baseInfo p draft index with strTransportPsk := bytes } =
        settingsFor p options draft
          { baseInfo p draft index with strTransportPsk := bytes } ↔
      resolver p (storedResolver p draft.redirectDNS) =
        resolver p draft.redirectDNS := by
  have hudp : supportsUdpProxy
      { baseInfo p draft index with strTransportPsk := bytes }.getProxyType =
        decide (index = 1) := by
    rw [getProxyType_get index _ rfl, supportsUdp_typeOf hindex]
  have hwith : settingsFor p options (reloadedDraft p draft index)
      { baseInfo p draft index with strTransportPsk := bytes } =
        settingsWith options draft
          { baseInfo p draft index with strTransportPsk := bytes }
          (resolver p (storedResolver p draft.redirectDNS)) := by
    simp only [settingsFor_eq, settingsWith, hudp]
    by_cases hone : index = 1 <;> simp [reloadedDraft, hone]
  rw [hwith, settingsFor_eq]
  exact settingsWith_inj _ (resolver_ne_unspec _) (resolver_ne_unspec _)

theorem reload_proxied_iff (htype : draft.proxyType = some index)
    (hindex : index ≠ 0) (h : published p options draft = some (info, settings)) :
    (reloaded p draft).bind (published p options) = some (info, settings) ↔
      resolver p (storedResolver p draft.redirectDNS) =
          resolver p draft.redirectDNS ∧
        narrow 128 draft.hostName ≠ [] ∧ Survives p draft.hostName ∧
          Survives p draft.user ∧ Survives p draft.pass := by
  obtain ⟨hinfo, hvalid, rfl⟩ := published_eq_some.1 h
  have hreloaded := reloaded_proxied htype hindex hinfo hvalid
  obtain ⟨-, -, hport, bytes, hsecret, rfl⟩ := (getSettings_eq_some htype hindex).1 hinfo
  have hstill : validateDnsRedirectSettings p (reloadedDraft p draft index) = true :=
    validate_stored hvalid rfl rfl rfl
  have htype' : (reloadedDraft p draft index).proxyType = some index := htype
  have hsecret' : secret p (reloadedDraft p draft index) = some bytes := hsecret
  have hrange := p.toInt_range draft.port
  have hformat : p.toInt (formatInt (p.toInt draft.port)) = p.toInt draft.port :=
    p.toInt_format _ hrange.1 hrange.2
  rw [hreloaded]
  by_cases hhost : renarrow p (narrow 128 draft.hostName) = []
  case pos =>
    simp only [hhost, if_true, Option.bind_none, reduceCtorEq, false_iff]
    rintro ⟨-, hne, hsurvives, -⟩
    rw [Survives, hhost, renarrow_nil] at hsurvives
    exact hne hsurvives.symm
  case neg =>
    rw [if_neg hhost, Option.bind_some, published_eq_some,
      getSettings_eq_some htype' hindex, hsecret']
    simp only [hstill, true_and]
    rw [settings_reloaded hindex bytes]
    have hport' : (reloadedDraft p draft index).port = formatInt (p.toInt draft.port) := rfl
    have hfields :
        (∃ found, some bytes = some found ∧
          { baseInfo p (reloadedDraft p draft index) index with
              strTransportPsk := found } =
            { baseInfo p draft index with strTransportPsk := bytes }) ↔
          Survives p draft.hostName ∧ Survives p draft.user ∧ Survives p draft.pass := by
      simp [baseInfo, reloadedDraft, hformat, Survives, renarrow]
    rw [hfields, hport', hformat]
    constructor
    · rintro ⟨⟨-, -, -, hhost', hrest⟩, hresolver⟩
      exact ⟨hresolver, fun hnil => hhost (by rw [hnil, renarrow_nil]), hhost', hrest⟩
    · rintro ⟨hresolver, hne, hhost', hrest⟩
      have hname : renarrow p (renarrow p (narrow 128 draft.hostName)) ≠ [] := by
        rw [hhost']
        exact hne
      exact ⟨⟨fromAnsi_ne_nil hname, formatInt_ne_nil _, hport, hhost', hrest⟩,
        hresolver⟩

theorem reload_iff (h : published p options draft = some (info, settings)) :
    (reloaded p draft).bind (published p options) = some (info, settings) ↔
      Faithful p draft := by
  cases htype : draft.proxyType with
  | none =>
    have hnone := getSettings_none (p := p) htype
    rw [published_eq_some, hnone] at h
    cases h.1
  | some index =>
    by_cases hindex : index = 0
    · subst hindex
      rw [reload_direct_iff htype h, resolver_stored]
      constructor
      · exact fun hfaithful => ⟨hfaithful.1, hfaithful.2, fun hne => absurd htype hne⟩
      · exact fun hfaithful => ⟨hfaithful.not_blank, hfaithful.trimmed⟩
    · rw [reload_proxied_iff htype hindex h, resolver_stored]
      have hne : draft.proxyType ≠ some 0 := by
        rw [htype]
        simpa using hindex
      constructor
      · exact fun hfaithful => ⟨hfaithful.1.1, hfaithful.1.2, fun _ => hfaithful.2⟩
      · exact fun hfaithful =>
          ⟨⟨hfaithful.not_blank, hfaithful.trimmed⟩, hfaithful.proxied hne⟩

theorem redirection_published
    (h : published p options draft = some (info, settings)) (hfaithful : Faithful p draft)
    (hlocal : draft.dnsLocal = false) (hredirect : draft.redirectPrivateDNS = true) :
    settings.bRedirectPrivateDNS = true ∧
      resolver p (ProfileFilter.trim p.space draft.redirectDNS) = some settings.redirectDNSAddr := by
  obtain ⟨-, hvalid, rfl⟩ := published_eq_some.1 h
  have hsome : (resolver p (ProfileFilter.trim p.space draft.redirectDNS)).isSome = true := by
    simpa [validateDnsRedirectSettings, hlocal, hredirect] using hvalid
  have htrim : ProfileFilter.trim p.space draft.redirectDNS = draft.redirectDNS := by
    rcases hfaithful.trimmed with htrim | hnone
    · exact htrim
    · simp [hnone] at hsome
  rw [htrim] at hsome ⊢
  obtain ⟨address, haddress⟩ := Option.isSome_iff_exists.1 hsome
  simp [settingsFor_eq, settingsWith, hlocal, hredirect, haddress]

/-- What a draft publishes is what it publishes after saving and loading, and a
redirection that was accepted is published with its resolver, exactly if the
draft is faithful. -/
theorem published_iff {info : ProxyInfo} {settings : RuntimeSettings}
    (h : published p options draft = some (info, settings)) :
    (reloaded p draft).bind (published p options) = some (info, settings) ∧
        (draft.dnsLocal = false → draft.redirectPrivateDNS = true →
          settings.bRedirectPrivateDNS = true ∧
            resolver p (ProfileFilter.trim p.space draft.redirectDNS) =
              some settings.redirectDNSAddr) ↔
      Faithful p draft := by
  rw [reload_iff h]
  exact and_iff_left_of_imp (redirection_published h)

/-! ## A page -/

def sampleInt (text : Text) : Int :=
  let n : Int :=
    if text.head? = some 45 then -((decodeNumber text.tail).getD 0 : Nat)
    else ((decodeNumber text).getD 0 : Nat)
  max (-2 ^ 31) (min n (2 ^ 31 - 1))

theorem decodeNumber_small {n : Nat} (h : n ≤ 2 ^ 31) :
    decodeNumber (RecentApplications.decimal n) = some n := by
  have hlimit : n < counterLimit := by
    unfold counterLimit
    omega
  rw [decodeNumber_decimal (by omega), if_pos hlimit]

theorem decimal_head (n : Nat) : (RecentApplications.decimal n).head? ≠ some 45 := by
  intro h
  obtain ⟨c, hc, hunit⟩ : ∃ c ∈ Nat.toDigits 10 n, unit c = 45 := by
    have hmem := List.mem_of_mem_head? h
    simpa [RecentApplications.decimal] using hmem
  have hdigit := (unit_digit (Nat.isDigit_of_mem_toDigits (by decide) (by decide) hc)).1
  rw [hunit] at hdigit
  exact absurd hdigit (by decide)

theorem sampleInt_format (n : Int) (hlow : -2 ^ 31 ≤ n) (hhigh : n < 2 ^ 31) :
    sampleInt (formatInt n) = n := by
  have hsmall : n.natAbs ≤ 2 ^ 31 := by omega
  by_cases hneg : n < 0
  · simp only [sampleInt, formatInt, hneg, if_true, List.head?_cons, List.tail_cons,
      decodeNumber_small hsmall, Option.getD_some]
    omega
  · simp only [sampleInt, formatInt, hneg, if_false, decimal_head,
      decodeNumber_small hsmall, Option.getD_some]
    omega

/-- A system with the Latin code page that knows one resolver. -/
def samplePlatform : Platform where
  space c := c = 32 || (9 ≤ c && c ≤ 13)
  lower := lowerAscii
  fromAnsi bytes := bytes.map UInt8.toUInt16
  toAnsi text := text.map fun c => if c < 256 then c.toUInt8 else 63
  utf8 text := text.map UInt16.toUInt8
  toInt := sampleInt
  address4 text := if text = ascii "8.8.8.8" then some ⟨8, 8, 8, 8⟩ else none
  address6 _ := none
  supportsModules := true
  lower_ascii _ _ := rfl
  fromAnsi_ascii _ _ := rfl
  toAnsi_ascii := by
    intro text h
    refine List.map_congr_left fun c hc => ?_
    have hlt : c < 256 := by
      rw [UInt16.lt_iff_toNat_lt]
      exact Nat.lt_trans (h c hc) (by decide)
    simp [hlt]
  toAnsi_space := by
    intro text c hmem hspace
    have hall : ∀ n < 33, n = 32 ∨ 9 ≤ n ∧ n ≤ 13 →
        isAddressChar .inet6 (if UInt16.ofNat n < 256 then (UInt16.ofNat n).toUInt8
          else 63) = false := by decide
    have hvalue : c.toNat = 32 ∨ 9 ≤ c.toNat ∧ c.toNat ≤ 13 := by
      simpa [UInt16.le_iff_toNat_le, ← UInt16.toNat_inj] using hspace
    have hc := hall c.toNat (by omega) hvalue
    rw [UInt16.ofNat_toNat] at hc
    exact ⟨_, List.mem_map_of_mem hmem, hc⟩
  toInt_range := by
    intro text
    simp only [sampleInt]
    omega
  toInt_format := sampleInt_format
  address4_google := by simp

def sampleOptions : Options := ⟨false, false, false⟩

def sampleDraft (redirectDNS : Text) : Draft where
  proxyType := some 1
  hostName := wide "proxy.example"
  port := wide "1080"
  user := []
  pass := []
  transport := false
  transportPsk := []
  hookTCP := true
  hookUDP := true
  blockUDP := false
  blockIPv6 := true
  hookChildProcess := true
  dnsLocal := false
  redirectPrivateDNS := true
  redirectDNS := redirectDNS

def sampleSettings (redirected : Bool) (address : SockAddr) : RuntimeSettings where
  bHookTCP := true
  bHookUDP := true
  nDNSOption := .remoteResolver
  bHookLanIP := false
  bDisableMDNS := false
  bRedirectPrivateDNS := redirected
  redirectDNSAddr := address
  bHookCreateProcess := true
  bDisableLLMNR := false
  bBlockUDP := false
  bBlockIPv6 := true

def sampleInfo : ProxyInfo :=
  ⟨ascii "SOCKS5", ascii "proxy.example", 1080, [], [], 0, []⟩

theorem published_sample :
    (reloaded samplePlatform (sampleDraft (wide "8.8.8.8"))).bind
            (published samplePlatform sampleOptions) =
          some (sampleInfo, sampleSettings true (.inet ⟨8, 8, 8, 8⟩ 0)) ∧
        ((sampleDraft (wide "8.8.8.8")).dnsLocal = false →
          (sampleDraft (wide "8.8.8.8")).redirectPrivateDNS = true →
          (sampleSettings true (.inet ⟨8, 8, 8, 8⟩ 0)).bRedirectPrivateDNS = true ∧
            resolver samplePlatform (ProfileFilter.trim samplePlatform.space
                (sampleDraft (wide "8.8.8.8")).redirectDNS) =
              some (sampleSettings true (.inet ⟨8, 8, 8, 8⟩ 0)).redirectDNSAddr) ↔
      Faithful samplePlatform (sampleDraft (wide "8.8.8.8")) :=
  published_iff (by decide +kernel)

theorem redirection_lost :
    validateDnsRedirectSettings samplePlatform (sampleDraft (wide " 8.8.8.8")) = true ∧
      published samplePlatform sampleOptions (sampleDraft (wide " 8.8.8.8")) =
        some (sampleInfo, sampleSettings false .unspec) ∧
      (reloaded samplePlatform (sampleDraft (wide " 8.8.8.8"))).bind
          (published samplePlatform sampleOptions) =
        some (sampleInfo, sampleSettings true (.inet ⟨8, 8, 8, 8⟩ 0)) := by
  decide +kernel

end ProxyLane.App.ProfileSettings
