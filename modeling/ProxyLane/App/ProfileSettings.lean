import ProxyLane.App.ProfileFilter
import ProxyLane.Hook.Policy

/-!
# The settings of a profile on the page, in use and in the file

The fields of the page are read by three routines: one checks them, one makes
the settings that are published, one makes the record that is saved.  The file
gives each value back as it was written; filters are left aside.  The code page,
UTF-8, the reading of numbers and of addresses are the system's.
-/

namespace ProxyLane.App.ProfileSettings

open ProxyLane.Foundation ProxyLane.Hook RecentApplications ProfileFilter

/-- `%d`. -/
def formatInt (n : Int) : Text :=
  if n < 0 then 45 :: RecentApplications.decimal n.natAbs else RecentApplications.decimal n.natAbs

/-- A character that `ProxyIsNumericAddressTextA` lets pass. -/
def isAddressChar (family : Family) (ch : UInt8) : Bool :=
  match family with
  | .inet => (48 ≤ ch && ch ≤ 57) || ch = 46
  | .inet6 =>
    (48 ≤ ch && ch ≤ 57) || (97 ≤ ch && ch ≤ 102) || (65 ≤ ch && ch ≤ 70) ||
      ch = 58 || ch = 46
  | .unspec => false

/-- What the page asks of the system: white space, lower case, `CString` from
and to the code page, UTF-8, `_ttoi`, and the addresses of texts. -/
structure Platform where
  space : UInt16 → Bool
  lower : UInt16 → UInt16
  fromAnsi : Bytes → Text
  toAnsi : Text → Bytes
  utf8 : Text → Bytes
  toInt : Text → Int
  address4 : Bytes → Option InAddr
  address6 : Bytes → Option In6Addr
  supportsModules : Bool
  lower_ascii : ∀ c : UInt16, c.toNat < 128 →
    lower c = if 65 ≤ c ∧ c ≤ 90 then c + 32 else c
  fromAnsi_ascii : ∀ bytes, (∀ b ∈ bytes, b.toNat < 128) →
    fromAnsi bytes = bytes.map UInt8.toUInt16
  toAnsi_ascii : ∀ text : Text, (∀ c ∈ text, c.toNat < 128) →
    toAnsi text = text.map UInt16.toUInt8
  toAnsi_space : ∀ (text : Text) (c : UInt16), c ∈ text → space c = true →
    ∃ b ∈ toAnsi text, isAddressChar .inet6 b = false
  toInt_range : ∀ text, -2 ^ 31 ≤ toInt text ∧ toInt text < 2 ^ 31
  toInt_format : ∀ n, -2 ^ 31 ≤ n → n < 2 ^ 31 → toInt (formatInt n) = n
  address4_google : address4 (ascii "8.8.8.8") = some ⟨8, 8, 8, 8⟩

/-- The entries of `m_cbProxyType`. -/
def proxyTypes : Vector Text 3 := #v[wide "NOPROXY", wide "SOCKS5", wide "HTTP"]

/-- The fields of the page.  One of the two buttons for DNS is checked;
`transport` says that the second entry of its list is selected. -/
structure Draft where
  proxyType : Option (Fin 3)
  hostName : Text
  port : Text
  user : Text
  pass : Text
  transport : Bool
  transportPsk : Text
  hookTCP : Bool
  hookUDP : Bool
  blockUDP : Bool
  blockIPv6 : Bool
  hookChildProcess : Bool
  dnsLocal : Bool
  redirectPrivateDNS : Bool
  redirectDNS : Text
  deriving DecidableEq, Repr

structure Options where
  hookLanIP : Bool
  disableLLMNR : Bool
  disableMDNS : Bool
  deriving DecidableEq, Repr

/-- `ProxySettingsInfo` with the fields that only the hook reads. -/
structure RuntimeSettings extends ProxySettingsInfo where
  bHookCreateProcess : Bool
  bDisableLLMNR : Bool
  bBlockUDP : Bool
  bBlockIPv6 : Bool
  deriving DecidableEq, Repr

def proxyTransportPlain : Nat := 0
def proxyTransportGoncTlsPsk : Nat := 1

section Page

variable (p : Platform)

/-- `CompareNoCase` gives zero. -/
def sameNoCase (left right : Text) : Bool := left.map p.lower == right.map p.lower

/-- `string<N>::operator =`, up to the first zero. -/
def narrow (n : Nat) (text : Text) : Bytes :=
  ((text.take (n - 1)).map UInt16.toUInt8).takeWhile (· ≠ 0)

def supportsGoncTlsPsk (proxyType : ProxyType) : Bool :=
  proxyType = .socks5 || proxyType = .http10 || proxyType = .http11

def supportsUdpProxy (proxyType : ProxyType) : Bool :=
  proxyType = .noProxy || proxyType = .socks5

def typeText (draft : Draft) : Option Text :=
  draft.proxyType.map fun index => proxyTypes.get index

def transportPsk (draft : Draft) (info : ProxyInfo) : Option ProxyInfo :=
  if draft.transport then
    if !p.supportsModules then none
    else if !supportsGoncTlsPsk info.getProxyType then none
    else if draft.transportPsk.isEmpty then none
    else
      let bytes := p.utf8 draft.transportPsk
      if bytes.length = 0 ∨ 256 ≤ bytes.length then none
      else some { info with strTransportPsk := bytes }
  else some info

def getSettings (draft : Draft) : Option ProxyInfo :=
  match typeText draft with
  | none => none
  | some szType =>
    if szType ≠ wide "NOPROXY" ∧ szType ≠ wide "SOCKS5" ∧ szType ≠ wide "HTTP" then none
    else if sameNoCase p szType (wide "NOPROXY") then
      some ⟨narrow 32 szType, [], 0, [], [], proxyTransportPlain, []⟩
    else if draft.hostName.isEmpty ∨ draft.port.isEmpty ∨ p.toInt draft.port = 0 then
      none
    else
      transportPsk p draft
        { strProxyType := narrow 32 szType
          strProxyHost := narrow 128 draft.hostName
          nProxyPort := p.toInt draft.port
          strProxyUser := narrow 128 draft.user
          strProxyPass := narrow 128 draft.pass
          reserved :=
            if draft.transport then proxyTransportGoncTlsPsk else proxyTransportPlain
          strTransportPsk := [] }

def isNumericAddressText (family : Family) (text : Bytes) : Bool :=
  !text.isEmpty && text.all (isAddressChar family)

def inetPton4 (text : Bytes) : Option InAddr :=
  if !isNumericAddressText .inet text || 64 ≤ text.length then none
  else p.address4 text

def inetPton6 (text : Bytes) : Option In6Addr :=
  if !isNumericAddressText .inet6 text || 64 ≤ text.length then none
  else p.address6 text

/-- `SetIP` on a cleared address. -/
def setIP (text : Bytes) : Option SockAddr :=
  match inetPton4 p text with
  | some address => some (.inet address 0)
  | none => (inetPton6 p text).map fun address => .inet6 address 0

def resolver (text : Text) : Option SockAddr :=
  (setIP p (p.toAnsi text)).filter DnsRedirectPolicy.isValidPublicResolver

def validateDnsRedirectSettings (draft : Draft) : Bool :=
  if draft.dnsLocal || !draft.redirectPrivateDNS then true
  else (resolver p (ProfileFilter.trim p.space draft.redirectDNS)).isSome

def getProxySettingsFromUi (options : Options) (draft : Draft) : RuntimeSettings :=
  let address := resolver p draft.redirectDNS
  { bHookTCP := draft.hookTCP
    bHookUDP := draft.hookUDP
    bBlockUDP := draft.blockUDP
    bBlockIPv6 := draft.blockIPv6
    bHookCreateProcess := draft.hookChildProcess
    nDNSOption := if draft.dnsLocal then .localResolver else .remoteResolver
    bHookLanIP := options.hookLanIP
    bDisableLLMNR := options.disableLLMNR
    bDisableMDNS := options.disableMDNS
    bRedirectPrivateDNS :=
      !draft.dnsLocal && draft.redirectPrivateDNS && address.isSome
    redirectDNSAddr := address.getD .unspec }

/-- What `StartProxy` and `ApplyRuntimeSettings` publish. -/
def published (options : Options) (draft : Draft) :
    Option (ProxyInfo × RuntimeSettings) :=
  match getSettings p draft with
  | none => none
  | some info =>
    if validateDnsRedirectSettings p draft then
      let settings := getProxySettingsFromUi p options draft
      if supportsUdpProxy info.getProxyType then some (info, settings)
      else some (info, { settings with bHookUDP := false })
    else none

structure CfgProxyItem where
  pi : ProxyInfo
  bHookTCP : Bool
  bHookUDP : Bool
  bBlockUDP : Bool
  bBlockIPv6 : Bool
  bHookChildProcess : Bool
  dnsOpt : DnsOption
  bRedirectPrivateDNS : Bool
  strRedirectDNS : Text
  nTransportMode : Nat
  strTransportPsk : Text
  deriving DecidableEq, Repr

structure Section where
  hookChildProcess : Bool
  hookTCP : Bool
  hookUDP : Bool
  blockUDP : Bool
  blockIPv6 : Bool
  dnsOpt : DnsOption
  redirectPrivateDNS : Bool
  redirectDNS : Text
  type : Text
  host : Text
  port : Int
  user : Text
  pass : Text
  transport : Text
  psk : Text
  deriving DecidableEq, Repr

/-- `UIGetCfg` after a `GetSettings` that succeeded. -/
def uiGetCfg (draft : Draft) (info : ProxyInfo) : CfgProxyItem :=
  let direct := info.getProxyType = .noProxy
  { pi := info
    nTransportMode :=
      if direct then proxyTransportPlain
      else if draft.transport then proxyTransportGoncTlsPsk
      else proxyTransportPlain
    strTransportPsk := if direct then [] else draft.transportPsk
    bHookTCP := draft.hookTCP
    bHookUDP := draft.hookUDP
    bBlockUDP := draft.blockUDP
    bBlockIPv6 := draft.blockIPv6
    bHookChildProcess := draft.hookChildProcess
    dnsOpt := if draft.dnsLocal then .localResolver else .remoteResolver
    bRedirectPrivateDNS := draft.redirectPrivateDNS
    strRedirectDNS := ProfileFilter.trim p.space draft.redirectDNS }

/-- `Save`; an old name of HTTP is not written. -/
def save (item : CfgProxyItem) : Section where
  hookChildProcess := item.bHookChildProcess
  hookTCP := item.bHookTCP
  hookUDP := item.bHookUDP
  blockUDP := item.bBlockUDP
  blockIPv6 := item.bBlockIPv6
  dnsOpt := item.dnsOpt
  redirectPrivateDNS := item.bRedirectPrivateDNS
  redirectDNS := item.strRedirectDNS
  type :=
    if item.pi.getProxyType = .http10 ∨ item.pi.getProxyType = .http11 then wide "HTTP"
    else p.fromAnsi item.pi.strProxyType
  host := p.fromAnsi item.pi.strProxyHost
  port := item.pi.nProxyPort
  user := p.fromAnsi item.pi.strProxyUser
  pass := p.fromAnsi item.pi.strProxyPass
  transport :=
    if item.nTransportMode = proxyTransportGoncTlsPsk then wide "GONC_TLS_PSK"
    else wide "PLAIN"
  psk := item.strTransportPsk

def saveCurrentProfile (draft : Draft) : Option Section :=
  match getSettings p draft with
  | none => none
  | some info =>
    if validateDnsRedirectSettings p draft then some (save p (uiGetCfg p draft info))
    else none

def loadProxyInfo (s : Section) : ProxyInfo :=
  let info : ProxyInfo := ⟨narrow 32 s.type, [], 0, [], [], proxyTransportPlain, []⟩
  let type :=
    if info.getProxyType = .http10 ∨ info.getProxyType = .http11 then
      narrow 32 (wide "HTTP")
    else narrow 32 s.type
  { strProxyType := type
    strProxyHost := narrow 128 s.host
    nProxyPort := s.port
    strProxyUser := narrow 128 s.user
    strProxyPass := narrow 128 s.pass
    reserved := proxyTransportPlain
    strTransportPsk := [] }

def load (s : Section) : Option CfgProxyItem :=
  let info := loadProxyInfo s
  let item : CfgProxyItem :=
    { pi := info
      bHookTCP := s.hookTCP
      bHookUDP := s.hookUDP
      bBlockUDP := s.blockUDP
      bBlockIPv6 := s.blockIPv6
      bHookChildProcess := s.hookChildProcess
      dnsOpt := s.dnsOpt
      bRedirectPrivateDNS := s.redirectPrivateDNS
      strRedirectDNS := if s.redirectDNS.isEmpty then wide "8.8.8.8" else s.redirectDNS
      nTransportMode :=
        if sameNoCase p s.transport (wide "GONC_TLS_PSK") then proxyTransportGoncTlsPsk
        else proxyTransportPlain
      strTransportPsk := s.psk }
  if sameNoCase p (p.fromAnsi info.strProxyType) (wide "NOPROXY") then some item
  else if info.getProxyType ≠ .noProxy ∧ info.nProxyPort ≠ 0 ∧
      info.strProxyHost ≠ [] ∧ info.strProxyType ≠ [] then
    some item
  else none

def findStringExact (text : Text) : Option (Fin 3) :=
  (List.finRange 3).find? fun index => sameNoCase p (proxyTypes.get index) text

def updateTransportEnable (draft : Draft) : Draft :=
  let proxyType := (typeText draft).getD []
  let selected : ProxyInfo := ⟨narrow 32 proxyType, [], 0, [], [], 0, []⟩
  let direct := sameNoCase p proxyType (wide "NOPROXY")
  let draft :=
    if direct || (draft.proxyType.isSome && p.supportsModules &&
        !supportsGoncTlsPsk selected.getProxyType) then
      { draft with transport := false }
    else draft
  if draft.proxyType.isSome && !supportsUdpProxy selected.getProxyType then
    { draft with hookUDP := false }
  else draft

def uiLoadCfg (item : CfgProxyItem) : Draft :=
  let type := p.fromAnsi item.pi.strProxyType
  let port :=
    if sameNoCase p type (wide "NOPROXY") ∧ item.pi.nProxyPort = 0 then []
    else formatInt item.pi.nProxyPort
  let type :=
    if sameNoCase p type (wide "HTTP10") ∨ sameNoCase p type (wide "HTTP11") then
      wide "HTTP"
    else type
  updateTransportEnable p
    { proxyType := findStringExact p type
      hostName := p.fromAnsi item.pi.strProxyHost
      port := port
      user := p.fromAnsi item.pi.strProxyUser
      pass := p.fromAnsi item.pi.strProxyPass
      transport := item.nTransportMode = proxyTransportGoncTlsPsk
      transportPsk := item.strTransportPsk
      hookTCP := item.bHookTCP
      hookUDP := item.bHookUDP
      blockUDP := item.bBlockUDP
      blockIPv6 := item.bBlockIPv6
      hookChildProcess := item.bHookChildProcess
      dnsLocal := item.dnsOpt = .localResolver
      redirectPrivateDNS := item.bRedirectPrivateDNS
      redirectDNS := item.strRedirectDNS }

def reloaded (draft : Draft) : Option Draft :=
  match saveCurrentProfile p draft with
  | none => none
  | some s => (load p s).map (uiLoadCfg p)

end Page

end ProxyLane.App.ProfileSettings
