import ProxyLane.Foundation.Run
import ProxyLane.Hook.UdpProxyTask

/-!
# Replies find the route they belong to

A reply carries the address it came from and nothing else.  The routes of a
task are told apart by their effective destinations; the peer of a route has
its own copy of the target.  This file shows that the two agree, and that
replies are unambiguous, along every run in which no registration changes the
redirection of a route that is still in use.
-/

namespace ProxyLane.Hook

open ProxyLane.Foundation

/-! ## Identity of a destination -/

namespace UdpAssociationPolicy

/-- What `IsSameDestination` compares. -/
def Destination.identity (destination : Destination) :
    (Bytes × UInt16) ⊕ (Family × (In6Addr ⊕ InAddr) × UInt16) :=
  if destination.hasDomain then
    .inl (foldCase destination.domain, destination.port)
  else
    .inr (destination.family,
      if destination.family = .inet6 then .inl destination.ipv6
      else .inr destination.ipv4,
      destination.port)

theorem isSameDestination_iff {left right : Destination} :
    isSameDestination left right = true ↔ left.identity = right.identity := by
  cases hleft : left.hasDomain <;> cases hright : right.hasDomain
  case true.true =>
    by_cases hport : left.port = right.port <;>
      simp [isSameDestination, Destination.identity, sameText_iff, hleft,
        hright, hport]
  case false.false =>
    by_cases hfamily : left.family = right.family
    · by_cases hport : left.port = right.port <;>
        by_cases hsix : right.family = .inet6 <;>
        simp [isSameDestination, Destination.identity, hleft, hright, hport,
          hfamily, hsix]
    · simp [isSameDestination, Destination.identity, hleft, hright, hfamily]
  all_goals simp [isSameDestination, Destination.identity, hleft, hright]

theorem port_eq_of_identity_eq {left right : Destination}
    (h : left.identity = right.identity) : left.port = right.port := by
  cases hleft : left.hasDomain <;> cases hright : right.hasDomain <;>
    simp_all [Destination.identity]

theorem hasDomain_eq_of_identity_eq {left right : Destination}
    (h : left.identity = right.identity) : left.hasDomain = right.hasDomain := by
  cases hleft : left.hasDomain <;> cases hright : right.hasDomain <;>
    simp_all [Destination.identity]

end UdpAssociationPolicy

open UdpAssociationPolicy UdpProxyTask

/-! ## Effective destinations -/

inductive Endpoint where
  | domain (name : Bytes) (port : UInt16)
  | address (addr : SockAddr)
  deriving DecidableEq, Repr

def PrcClient.effective (client : PrcClient) : Endpoint :=
  if client.hasProxyDestination then .address client.proxyDstAddr
  else if client.isDNValid then
    .domain (foldCase client.szDomainName) client.dstAddr.getPort
  else .address client.dstAddr

/-- Where `ForwardUpstreamDatagram` sends what the peer received. -/
def CSAddrInfo.endpoint (target : CSAddrInfo) : Endpoint :=
  if target.szDomainName.isEmpty then .address target.dstAddr
  else .domain (foldCase target.szDomainName) target.dstAddr.getPort

/--
A datagram from `source` may be a reply on this route.  The address behind a
name is not known here, so any address will do for a domain route.
-/
def UdpRoute.Claims (route : UdpRoute) (source : SockAddr) : Prop :=
  match route.client.effective with
  | .domain _ port => port = source.getPort
  | .address addr => addr.sameEndpoint source = true

instance (route : UdpRoute) (source : SockAddr) :
    Decidable (route.Claims source) := by
  unfold UdpRoute.Claims
  split <;> infer_instance

structure ClientOk (client : PrcClient) : Prop where
  dstAddr_ne : client.dstAddr ≠ .unspec
  name_length : client.szDomainName.length ≤ 255
  redirect_ne : client.hasProxyDestination = true → client.proxyDstAddr ≠ .unspec
  redirect_name : client.hasProxyDestination = true → client.isDNValid = false

theorem dstAddr_eq_of_identity_eq {left right : PrcClient}
    (hleft : left.dstAddr ≠ .unspec) (hdomain : left.isDNValid = false)
    (h : (getUdpDestination left).identity = (getUdpDestination right).identity) :
    left.dstAddr = right.dstAddr := by
  have hright : right.isDNValid = false := by
    rw [← hdomain]
    exact (hasDomain_eq_of_identity_eq h).symm
  revert h hleft
  cases hl : left.dstAddr <;> cases hr : right.dstAddr <;>
    simp [Destination.identity, getUdpDestination, hdomain, hright, hl, hr,
      SockAddr.family, SockAddr.getdwIP, SockAddr.getAddr6, SockAddr.getPort]

theorem effective_eq_of_identity_eq {left right : PrcClient}
    (hleft : ClientOk left)
    (h : (getUdpDestination left).identity = (getUdpDestination right).identity)
    (hflag : left.dnsRedirect = right.dnsRedirect)
    (hproxy : left.proxyDstAddr = right.proxyDstAddr) :
    left.effective = right.effective := by
  have hdomain : left.isDNValid = right.isDNValid :=
    hasDomain_eq_of_identity_eq h
  have hport : left.dstAddr.getPort = right.dstAddr.getPort :=
    port_eq_of_identity_eq h
  unfold PrcClient.effective PrcClient.hasProxyDestination
  rw [← hflag, ← hproxy, ← hdomain]
  cases hdn : left.isDNValid with
  | true =>
    have hname : foldCase left.szDomainName = foldCase right.szDomainName := by
      have hdn' := hdomain.symm.trans hdn
      simp [Destination.identity, getUdpDestination, hdn, hdn'] at h
      exact h.1
    simp [hname, hport]
  | false =>
    simp [dstAddr_eq_of_identity_eq hleft.dstAddr_ne hdn h]

theorem makeTarget_endpoint {client : PrcClient} (hclient : ClientOk client) :
    (makeTarget client).endpoint = client.effective := by
  unfold makeTarget CSAddrInfo.normalize CSAddrInfo.endpoint
    PrcClient.effective PrcClient.getProxyDestination
  cases hflag : client.hasProxyDestination with
  | true => simp [hclient.redirect_ne hflag]
  | false =>
    simp [hclient.dstAddr_ne, PrcClient.isDNValid,
      List.take_of_length_le hclient.name_length]

structure Apart (left right : PrcClient) : Prop where
  identity_ne : (getUdpDestination left).identity ≠ (getUdpDestination right).identity
  no_domain : left.dstAddr.getPort = right.dstAddr.getPort →
    left.isDNValid = false ∧ right.isDNValid = false
  left_direct : left.hasProxyDestination = false
  right_direct : right.hasProxyDestination = false

theorem Apart.symm {left right : PrcClient} (h : Apart left right) :
    Apart right left where
  identity_ne := h.identity_ne.symm
  no_domain hport := (h.no_domain hport.symm).symm
  left_direct := h.right_direct
  right_direct := h.left_direct

theorem Apart.congr_left {left left' right : PrcClient}
    (hsame : (getUdpDestination left).identity = (getUdpDestination left').identity)
    (hflag : left.dnsRedirect = left'.dnsRedirect)
    (h : Apart left right) : Apart left' right where
  identity_ne := hsame ▸ h.identity_ne
  no_domain hport := by
    have hport' : left.dstAddr.getPort = left'.dstAddr.getPort :=
      port_eq_of_identity_eq hsame
    have hdomain : left.isDNValid = left'.isDNValid :=
      hasDomain_eq_of_identity_eq hsame
    rw [← hdomain]
    exact h.no_domain (hport'.trans hport)
  left_direct := hflag.symm.trans h.left_direct
  right_direct := h.right_direct

theorem Apart.congr_right {left right right' : PrcClient}
    (hsame : (getUdpDestination right).identity = (getUdpDestination right').identity)
    (hflag : right.dnsRedirect = right'.dnsRedirect)
    (h : Apart left right) : Apart left right' :=
  (h.symm.congr_left hsame hflag).symm

structure TaskInv (task : UdpProxyTask) : Prop where
  apart : task.routes.Pairwise fun left right => Apart left.client right.client
  clients : ∀ route ∈ task.routes, ClientOk route.client
  targets : ∀ route ∈ task.routes, route.target.endpoint = route.client.effective
  together : (∀ route ∈ task.routes, route.peerOpen = true) ∨
    ((∀ route ∈ task.routes, route.peerOpen = false) ∧ task.serverOpen = false)

theorem TaskInv.all_open {task : UdpProxyTask} (h : TaskInv task)
    (hclosed : task.isClosed = false) :
    ∀ route ∈ task.routes, route.peerOpen = true := by
  rcases h.together with hopen | ⟨hshut, hserver⟩
  · exact hopen
  · have : task.isClosed = true := by
      simpa [isClosed, hserver] using hshut
    simp [this] at hclosed

section Select

variable {source : SockAddr}

theorem claims_iff {route : UdpRoute} (hclient : ClientOk route.client) :
    route.Claims source ↔
      route.client.getProxyDestination.getPort = source.getPort ∧
        (route.client.isDNValid = true ∨
          route.client.getProxyDestination.sameAddress source = true) := by
  unfold UdpRoute.Claims PrcClient.effective PrcClient.getProxyDestination
  cases hflag : route.client.hasProxyDestination with
  | true => simp [SockAddr.sameEndpoint, hclient.redirect_name hflag, and_comm]
  | false =>
    cases hdn : route.client.isDNValid <;>
      simp [SockAddr.sameEndpoint, and_comm]

theorem scanRoutes_skip {route : UdpRoute} (hclient : ClientOk route.client)
    (h : ¬ route.Claims source) (candidates rest : List UdpRoute) :
    scanRoutes source candidates (route :: rest) =
      scanRoutes source candidates rest := by
  rw [claims_iff hclient] at h
  rw [scanRoutes]
  grind

theorem scanRoutes_skip_all {skipped : List UdpRoute}
    (hclients : ∀ route ∈ skipped, ClientOk route.client)
    (h : ∀ route ∈ skipped, ¬ route.Claims source)
    (candidates rest : List UdpRoute) :
    scanRoutes source candidates (skipped ++ rest) =
      scanRoutes source candidates rest := by
  induction skipped with
  | nil => rfl
  | cons route skipped ih =>
    rw [List.cons_append, scanRoutes_skip (hclients route List.mem_cons_self)
      (h route List.mem_cons_self)]
    exact ih (fun r hr => hclients r (List.mem_cons_of_mem _ hr))
      (fun r hr => h r (List.mem_cons_of_mem _ hr))

theorem selectRoute_eq {task : UdpProxyTask} {route : UdpRoute}
    {before after : List UdpRoute}
    (hroutes : task.routes = before ++ route :: after)
    (hclients : ∀ r ∈ task.routes, ClientOk r.client)
    (hopen : route.peerOpen = true) (hclaims : route.Claims source)
    (hbefore : ∀ r ∈ before, ¬ r.Claims source)
    (hafter : ∀ r ∈ after, ¬ r.Claims source) :
    task.selectRoute source = some route := by
  have hbeforeOk : ∀ r ∈ before, ClientOk r.client := fun r hr =>
    hclients r (by simp [hroutes, hr])
  have hafterOk : ∀ r ∈ after, ClientOk r.client := fun r hr =>
    hclients r (by simp [hroutes, hr])
  have hroute : ClientOk route.client := hclients route (by simp [hroutes])
  obtain ⟨hport, hmatch⟩ := (claims_iff hroute).1 hclaims
  unfold selectRoute
  rw [hroutes, scanRoutes_skip_all hbeforeOk hbefore]
  cases hdn : route.client.isDNValid with
  | false =>
    have haddress : route.client.getProxyDestination.sameAddress source = true := by
      simpa [hdn] using hmatch
    simp [scanRoutes, hopen, hport, hdn, haddress]
  | true =>
    have hrest : scanRoutes source [route] after = .inr [route] := by
      rw [← List.append_nil after, scanRoutes_skip_all hafterOk hafter]
      rfl
    simp [scanRoutes, hopen, hport, hdn, hrest]

end Select

def Unambiguous (left right : UdpRoute) : Prop :=
  ∀ source, ¬ (left.Claims source ∧ right.Claims source)

/--
The routes of the task are unambiguous; a datagram from the effective
destination of exactly one open route is delivered to that route's application
end and nowhere else; and that destination is the target of the route's peer.
-/
structure RepliesRouted (task : UdpProxyTask) : Prop where
  unambiguous : task.routes.Pairwise Unambiguous
  delivered : ∀ route ∈ task.routes, ∀ source,
    route.peerOpen = true → route.Claims source →
    (∀ other ∈ task.routes, other.Claims source → other = route) →
    (∀ chosen delivery, task.forwardServerDatagram source =
      some (chosen, delivery) → chosen = route) ∧
    (route.quic = .none → task.forwardServerDatagram source =
      some (route, .application (applicationOf route)))
  target : ∀ route ∈ task.routes, route.target.endpoint = route.client.effective

theorem Apart.unambiguous {left right : UdpRoute}
    (hleft : ClientOk left.client) (hright : ClientOk right.client)
    (h : Apart left.client right.client) : Unambiguous left right := by
  rintro source ⟨hl, hr⟩
  obtain ⟨hlport, hlmatch⟩ := (claims_iff hleft).1 hl
  obtain ⟨hrport, hrmatch⟩ := (claims_iff hright).1 hr
  simp only [PrcClient.getProxyDestination, h.left_direct, h.right_direct,
    Bool.false_eq_true, if_false] at hlport hlmatch hrport hrmatch
  obtain ⟨hldn, hrdn⟩ := h.no_domain (hlport.trans hrport.symm)
  simp only [hldn, hrdn, Bool.false_eq_true, false_or] at hlmatch hrmatch
  have hlsame := SockAddr.sameEndpoint_iff.1
    (show left.client.dstAddr.sameEndpoint source = true by
      simp [SockAddr.sameEndpoint, hlmatch, hlport])
  have hrsame := SockAddr.sameEndpoint_iff.1
    (show right.client.dstAddr.sameEndpoint source = true by
      simp [SockAddr.sameEndpoint, hrmatch, hrport])
  apply h.identity_ne
  unfold PrcClient.isDNValid at hldn hrdn
  simp [Destination.identity, getUdpDestination, PrcClient.isDNValid, hldn,
    hrdn, hlsame.1, hrsame.1]

theorem TaskInv.repliesRouted {task : UdpProxyTask} (h : TaskInv task) :
    RepliesRouted task where
  unambiguous := by
    refine h.apart.imp_of_mem ?_
    intro left right hleft hright hapart
    exact hapart.unambiguous (h.clients left hleft) (h.clients right hright)
  delivered := by
    intro route hroute source hopen hclaims honly
    obtain ⟨before, after, hsplit⟩ := List.append_of_mem hroute
    have hpair := h.apart
    rw [hsplit, List.pairwise_append, List.pairwise_cons] at hpair
    obtain ⟨-, ⟨hrouteAfter, -⟩, hbeforeRoute⟩ := hpair
    -- A second claimant would be the route itself, which is not apart from it.
    have hbefore : ∀ r ∈ before, ¬ r.Claims source := by
      intro r hr hrclaims
      have heq : r = route := honly r (by simp [hsplit, hr]) hrclaims
      exact (hbeforeRoute r hr route List.mem_cons_self).identity_ne (by rw [heq])
    have hafter : ∀ r ∈ after, ¬ r.Claims source := by
      intro r hr hrclaims
      have heq : r = route := honly r (by simp [hsplit, hr]) hrclaims
      exact (hrouteAfter r hr).identity_ne (by rw [heq])
    have hselect : task.selectRoute source = some route :=
      selectRoute_eq hsplit h.clients hopen hclaims hbefore hafter
    constructor
    · intro chosen delivery hforward
      simp only [forwardServerDatagram, hselect, Option.map_some,
        Option.some.injEq, Prod.mk.injEq] at hforward
      exact hforward.1.symm
    · intro hquic
      simp [forwardServerDatagram, hselect, deliver, hquic]
  target := h.targets

/-! ## Adding a route -/

theorem splitRoute_some {requested : Destination} {routes : List UdpRoute}
    {before after : List UdpRoute} {it : UdpRoute}
    (h : splitRoute requested routes = some (before, it, after)) :
    routes = before ++ it :: after ∧
      isSameDestination (getUdpDestination it.client) requested = true := by
  induction routes generalizing before it after with
  | nil => simp [splitRoute] at h
  | cons route rest ih =>
    unfold splitRoute at h
    split at h
    case isTrue hsame =>
      cases h
      exact ⟨rfl, hsame⟩
    case isFalse =>
      obtain ⟨⟨before', it', after'⟩, hrest, heq⟩ := Option.map_eq_some_iff.1 h
      cases heq
      obtain ⟨hroutes, hsame⟩ := ih hrest
      exact ⟨by rw [hroutes]; rfl, hsame⟩

theorem splitRoute_none {requested : Destination} {routes : List UdpRoute}
    (h : splitRoute requested routes = none) :
    ∀ route ∈ routes,
      isSameDestination (getUdpDestination route.client) requested = false := by
  induction routes with
  | nil => simp
  | cons route rest ih =>
    unfold splitRoute at h
    split at h
    case isTrue => simp at h
    case isFalse hsame =>
      intro r hr
      rcases List.mem_cons.1 hr with rfl | hr
      · simpa using hsame
      · exact ih (by simpa using h) r hr

theorem ClientOk.withUdpAddr {client : PrcClient} (h : ClientOk client)
    (addr : SockAddr) : ClientOk { client with udpAddr := addr } where
  dstAddr_ne := h.dstAddr_ne
  name_length := h.name_length
  redirect_ne := h.redirect_ne
  redirect_name := h.redirect_name

section AddRoute

variable {task : UdpProxyTask} {client : PrcClient}

def KeepsRedirection (task : UdpProxyTask) (client : PrcClient) : Prop :=
  ∀ route ∈ task.routes,
    isSameDestination (getUdpDestination route.client)
      (getUdpDestination client) = true →
    route.client.dnsRedirect = client.dnsRedirect ∧
      route.client.proxyDstAddr = client.proxyDstAddr

instance (task : UdpProxyTask) (client : PrcClient) :
    Decidable (KeepsRedirection task client) :=
  inferInstanceAs (Decidable (∀ route ∈ task.routes, _ → _))

theorem TaskInv.appendRoute (h : TaskInv task) (hclient : ClientOk client)
    (hopen : ∀ route ∈ task.routes, route.peerOpen = true)
    (hapart : ∀ route ∈ task.routes, Apart route.client client)
    (socket : Option SockAddr) : TaskInv (task.appendRoute client socket).2 := by
  cases socket with
  | none => exact h
  | some addr =>
    refine ⟨?_, ?_, ?_, Or.inl ?_⟩
    · refine List.pairwise_append.2 ⟨h.apart, by simp, ?_⟩
      intro left hleft right hright
      obtain rfl := List.mem_singleton.1 hright
      have hsame : (getUdpDestination client).identity =
          (getUdpDestination { client with udpAddr := addr }).identity := rfl
      exact (hapart left hleft).congr_right hsame rfl
    all_goals
      intro route hroute
      rcases List.mem_append.1 hroute with hroute | hroute
    · exact h.clients route hroute
    · obtain rfl := List.mem_singleton.1 hroute
      exact hclient.withUdpAddr addr
    · exact h.targets route hroute
    · obtain rfl := List.mem_singleton.1 hroute
      exact makeTarget_endpoint hclient
    · exact hopen route hroute
    · obtain rfl := List.mem_singleton.1 hroute
      rfl

theorem TaskInv.replaceClient (h : TaskInv task) (hclient : ClientOk client)
    (hopen : ∀ route ∈ task.routes, route.peerOpen = true)
    (hkeeps : KeepsRedirection task client)
    {before after : List UdpRoute} {it : UdpRoute}
    (hroutes : task.routes = before ++ it :: after)
    (hsame : isSameDestination (getUdpDestination it.client)
      (getUdpDestination client) = true) (addr : SockAddr) :
    TaskInv { task with routes := before ++
      { it with client := { client with udpAddr := addr } } :: after } := by
  have hit : it ∈ task.routes := by simp [hroutes]
  obtain ⟨hflag, hproxy⟩ := hkeeps it hit hsame
  have hidentity := isSameDestination_iff.1 hsame
  have hmem : ∀ route ∈ before ++ after, route ∈ task.routes := by
    intro route hroute
    rw [hroutes]
    simp only [List.mem_append, List.mem_cons] at hroute ⊢
    tauto
  have hsplit : ∀ {P : UdpRoute → Prop}, (∀ route ∈ task.routes, P route) →
      P { it with client := { client with udpAddr := addr } } →
      ∀ route ∈ before ++
        { it with client := { client with udpAddr := addr } } :: after,
        P route := by
    intro P hall hnew route hroute
    simp only [List.mem_append, List.mem_cons] at hroute
    rcases hroute with hroute | rfl | hroute
    · exact hall route (hmem route (by simp [hroute]))
    · exact hnew
    · exact hall route (hmem route (by simp [hroute]))
  refine ⟨?_, ?_, ?_, Or.inl ?_⟩
  · have hpair := h.apart
    rw [hroutes, List.pairwise_append, List.pairwise_cons] at hpair
    obtain ⟨hbefore, ⟨hitAfter, hafter⟩, hcross⟩ := hpair
    refine List.pairwise_append.2 ⟨hbefore, List.pairwise_cons.2
      ⟨fun r hr => (hitAfter r hr).congr_left hidentity hflag, hafter⟩, ?_⟩
    intro left hleft right hright
    rcases List.mem_cons.1 hright with rfl | hright
    · exact Apart.congr_right hidentity hflag
        (hcross left hleft it List.mem_cons_self)
    · exact hcross left hleft right (List.mem_cons_of_mem _ hright)
  · exact hsplit h.clients (hclient.withUdpAddr addr)
  · refine hsplit h.targets ?_
    exact (h.targets it hit).trans
      (effective_eq_of_identity_eq (h.clients it hit) hidentity hflag hproxy)
  · exact hsplit hopen (hopen it hit)

theorem TaskInv.addRoute_of_hasRoute (h : TaskInv task)
    (hclient : ClientOk client) (hclosed : task.isClosed = false)
    (hroute : task.hasRoute client = true)
    (hkeeps : KeepsRedirection task client) (socket : Option SockAddr) :
    TaskInv (task.addRoute client socket).2 := by
  have hopen := h.all_open hclosed
  unfold addRoute
  cases hsplit : splitRoute (getUdpDestination client) task.routes with
  | none =>
    obtain ⟨route, hmem, hsame⟩ := List.any_eq_true.1 hroute
    simp [splitRoute_none hsplit route hmem] at hsame
  | some found =>
    obtain ⟨before, it, after⟩ := found
    obtain ⟨hroutes, hsame⟩ := splitRoute_some hsplit
    have hit : it.peerOpen = true := hopen it (by simp [hroutes])
    dsimp only
    rw [if_pos hit]
    exact h.replaceClient hclient hopen hkeeps hroutes hsame _

theorem apart_of_canAcceptRoute (hroute : task.hasRoute client = false)
    (haccept : task.canAcceptRoute client = true) :
    ∀ route ∈ task.routes, Apart route.client client := by
  intro route hmem
  have hdifferent : isSameDestination (getUdpDestination route.client)
      (getUdpDestination client) = false := by
    simpa using List.any_eq_false.1 hroute route hmem
  have hshare := List.all_eq_true.1 haccept route hmem
  simp only [canShareAssociation, hdifferent, Bool.and_eq_true,
    Bool.not_eq_true', Bool.or_eq_false_iff, Bool.false_eq_true, if_false,
    Bool.and_eq_false_iff, beq_eq_false_iff_ne] at hshare
  obtain ⟨⟨hleft, hright⟩, hports⟩ := hshare
  refine ⟨?_, ?_, hleft, hright⟩
  · intro hsame
    simp [isSameDestination_iff.2 hsame] at hdifferent
  · intro hport
    exact hports.resolve_left (fun hne => hne hport)

theorem TaskInv.addRoute_of_canAccept (h : TaskInv task)
    (hclient : ClientOk client) (hclosed : task.isClosed = false)
    (hroute : task.hasRoute client = false)
    (haccept : task.canAcceptRoute client = true) (socket : Option SockAddr) :
    TaskInv (task.addRoute client socket).2 := by
  unfold addRoute
  cases hsplit : splitRoute (getUdpDestination client) task.routes with
  | none =>
    exact h.appendRoute hclient (h.all_open hclosed)
      (apart_of_canAcceptRoute hroute haccept) socket
  | some found =>
    obtain ⟨before, it, after⟩ := found
    obtain ⟨hroutes, hsame⟩ := splitRoute_some hsplit
    have : task.hasRoute client = true :=
      List.any_eq_true.2 ⟨it, by simp [hroutes], hsame⟩
    simp [this] at hroute

theorem taskInv_setTaskInfo {proxyInfo : ProxyInfo} {socket : Option SockAddr}
    (hclient : ClientOk client)
    (h : setTaskInfo client proxyInfo socket = some task) : TaskInv task := by
  have hempty : TaskInv ⟨client, proxyInfo, [], false, 0⟩ :=
    ⟨by simp, by simp, by simp, Or.inl (by simp)⟩
  have hadd := hempty.appendRoute hclient (by simp) (by simp) socket
  cases socket with
  | none => simp [setTaskInfo, addRoute, splitRoute, UdpProxyTask.appendRoute] at h
  | some addr =>
    simp only [setTaskInfo, addRoute, splitRoute, UdpProxyTask.appendRoute,
      Option.some.injEq] at h
    rw [← h]
    exact hadd

end AddRoute

/-! ## The manager over a whole run -/

namespace UDPTaskMgr

theorem updateFirst_some {p : UdpProxyTask → Bool}
    {f : UdpProxyTask → Bool × UdpProxyTask} {tasks tasks' : List UdpProxyTask}
    {ok : Bool} (h : updateFirst p f tasks = some (ok, tasks')) :
    ∀ task' ∈ tasks', task' ∈ tasks ∨
      ∃ task ∈ tasks, p task = true ∧ task' = (f task).2 := by
  induction tasks generalizing ok tasks' with
  | nil => simp [updateFirst] at h
  | cons task tasks ih =>
    unfold updateFirst at h
    split at h
    case isTrue hp =>
      cases h
      intro task' hmem
      rcases List.mem_cons.1 hmem with rfl | hmem
      · exact Or.inr ⟨task, List.mem_cons_self, hp, rfl⟩
      · exact Or.inl (List.mem_cons_of_mem _ hmem)
    case isFalse =>
      obtain ⟨⟨ok', rest⟩, hrest, heq⟩ := Option.map_eq_some_iff.1 h
      cases heq
      intro task' hmem
      rcases List.mem_cons.1 hmem with rfl | hmem
      · exact Or.inl List.mem_cons_self
      · rcases ih hrest task' hmem with hold | ⟨t, ht, hp, heq⟩
        · exact Or.inl (List.mem_cons_of_mem _ hold)
        · exact Or.inr ⟨t, List.mem_cons_of_mem _ ht, hp, heq⟩

theorem updateFirst_none {p : UdpProxyTask → Bool}
    {f : UdpProxyTask → Bool × UdpProxyTask} {tasks : List UdpProxyTask}
    (h : updateFirst p f tasks = none) : ∀ task ∈ tasks, p task = false := by
  induction tasks with
  | nil => simp
  | cons task tasks ih =>
    unfold updateFirst at h
    split at h
    case isTrue => simp at h
    case isFalse hp =>
      intro t ht
      rcases List.mem_cons.1 ht with rfl | ht
      · simpa using hp
      · exact ih (by simpa using h) t ht

theorem mem_onNewTask {mgr : UDPTaskMgr} {client : PrcClient}
    {proxyInfo : ProxyInfo} {canStart : Bool} {socket : Option SockAddr}
    {task' : UdpProxyTask}
    (h : task' ∈ (mgr.onNewTask client proxyInfo canStart socket).2.tasklist) :
    task' ∈ mgr.tasklist ∨
      (∃ task ∈ mgr.tasklist,
        task.matchesAssociation client proxyInfo = true ∧
        task.isClosed = false ∧
        (task.hasRoute client = true ∨
          (task.hasRoute client = false ∧ task.canAcceptRoute client = true)) ∧
        task' = (task.addRoute client socket).2) ∨
      setTaskInfo client proxyInfo socket = some task' := by
  unfold onNewTask at h
  split at h
  · exact Or.inl h
  generalize hfilter : mgr.tasklist.filter (fun task =>
    !(task.matchesAssociation client proxyInfo && task.isClosed)) = tasks at h
  have hold : ∀ task ∈ tasks, task ∈ mgr.tasklist := by
    intro task ht
    rw [← hfilter] at ht
    exact (List.mem_filter.1 ht).1
  have hlive : ∀ task ∈ tasks,
      task.matchesAssociation client proxyInfo = true →
      task.isClosed = false := by
    intro task ht hmatch
    rw [← hfilter] at ht
    simpa [hmatch] using (List.mem_filter.1 ht).2
  dsimp only at h
  split at h
  case h_1 ok tasks' hfirst =>
    rcases updateFirst_some hfirst task' h with hmem | ⟨task, ht, hp, heq⟩
    · exact Or.inl (hold task' hmem)
    · rw [Bool.and_eq_true] at hp
      exact Or.inr (Or.inl ⟨task, hold task ht, hp.1, hlive task ht hp.1,
        Or.inl hp.2, heq⟩)
  case h_2 hfirst =>
    split at h
    case h_1 ok tasks' hsecond =>
      rcases updateFirst_some hsecond task' h with hmem | ⟨task, ht, hp, heq⟩
      · exact Or.inl (hold task' hmem)
      · rw [Bool.and_eq_true] at hp
        have hno := updateFirst_none hfirst task ht
        simp only [hp.1, Bool.true_and] at hno
        exact Or.inr (Or.inl ⟨task, hold task ht, hp.1, hlive task ht hp.1,
          Or.inr ⟨hno, hp.2⟩, heq⟩)
    case h_2 =>
      split at h
      case h_1 task hnew =>
        rcases List.mem_append.1 h with hmem | hmem
        · exact Or.inl (hold task' hmem)
        · rw [List.mem_singleton.1 hmem]
          exact Or.inr (Or.inr hnew)
      case h_2 => exact Or.inl (hold task' h)

end UDPTaskMgr

/--
One call of the UDP server: a registration with a real destination, the
settings in force, and what the system answers.
-/
structure Registration where
  client : PrcClient
  settings : ProxySettingsInfo
  proxyInfo : ProxyInfo
  canStart : Bool
  socket : Option SockAddr
  dstAddr_ne : client.dstAddr ≠ .unspec
  name_length : client.szDomainName.length ≤ 255

/-- The client as `OnNewTask` receives it. -/
def Registration.redirected (r : Registration) : PrcClient :=
  DnsRedirectPolicy.apply r.client r.settings r.proxyInfo

inductive UdpEvent where
  | register (r : Registration)
  | close (i : Nat)
  | remove (i : Nat)
  | server (i : Nat) (isOpen : Bool)
  | clientDatagram (i j : Nat) (application : SockAddr)
  | quic (i j : Nat) (state : QuicState)

namespace UdpProxyTask

def setServer (isOpen : Bool) (task : UdpProxyTask) : UdpProxyTask :=
  if task.routes.all (fun it => it.peerOpen) then
    { task with serverOpen := isOpen }
  else task

def modifyRoute (j : Nat) (f : UdpRoute → UdpRoute) (task : UdpProxyTask) :
    UdpProxyTask :=
  { task with routes := task.routes.modify j f }

end UdpProxyTask

def UDPTaskMgr.step (mgr : UDPTaskMgr) : UdpEvent → UDPTaskMgr
  | .register r =>
    (mgr.onNewTask r.redirected r.proxyInfo r.canStart r.socket).2
  | .close i => ⟨mgr.tasklist.modify i closeTask⟩
  | .remove i => ⟨mgr.tasklist.eraseIdx i⟩
  | .server i isOpen => ⟨mgr.tasklist.modify i (setServer isOpen)⟩
  | .clientDatagram i j application =>
    ⟨mgr.tasklist.modify i (modifyRoute j fun it =>
      { it with applicationEndpoint := some application })⟩
  | .quic i j state =>
    ⟨mgr.tasklist.modify i (modifyRoute j fun it =>
      { it with quic := state })⟩

/--
A registration that may start an association repeats the redirection of every
live route of its own destination in its own association.
-/
def KeepsRoutes (mgr : UDPTaskMgr) : UdpEvent → Prop
  | .register r => r.canStart = true → ∀ task ∈ mgr.tasklist,
      task.matchesAssociation r.redirected r.proxyInfo = true →
      task.isClosed = false → KeepsRedirection task r.redirected
  | _ => True

instance (mgr : UDPTaskMgr) : ∀ event, Decidable (KeepsRoutes mgr event)
  | .register r => inferInstanceAs (Decidable (r.canStart = true →
      ∀ task ∈ mgr.tasklist,
      task.matchesAssociation r.redirected r.proxyInfo = true →
      task.isClosed = false → KeepsRedirection task r.redirected))
  | .close _ | .remove _ | .server _ _ | .clientDatagram _ _ _ | .quic _ _ _ =>
    .isTrue trivial

private theorem isValidPublicResolver_ne_unspec {address : SockAddr}
    (h : DnsRedirectPolicy.isValidPublicResolver address = true) :
    address ≠ .unspec := by
  rintro rfl
  simp [DnsRedirectPolicy.isValidPublicResolver, SockAddr.isAny,
    SockAddr.isLoopback, SockAddr.isIPv4Mapped, SockAddr.isIPv4,
    SockAddr.family, DnsRedirectPolicy.isPrivateDnsAddress,
    SockAddr.getAddr6] at h

theorem Registration.clientOk (r : Registration) : ClientOk r.redirected := by
  unfold redirected DnsRedirectPolicy.apply
  split
  case isTrue hredirect =>
    simp only [DnsRedirectPolicy.shouldRedirect, Bool.and_eq_true] at hredirect
    have hname : r.client.szDomainName.isEmpty = true := hredirect.1.1.2
    refine ⟨r.dstAddr_ne, r.name_length, fun _ => ?_, fun _ => ?_⟩
    · have hresolver := isValidPublicResolver_ne_unspec hredirect.2
      dsimp only
      cases haddr : r.settings.redirectDNSAddr <;>
        simp_all [SockAddr.setPort]
    · simp only [PrcClient.isDNValid, hname, Bool.not_true]
  case isFalse =>
    exact ⟨r.dstAddr_ne, r.name_length, by simp [PrcClient.hasProxyDestination],
      by simp [PrcClient.hasProxyDestination]⟩

theorem mem_modify {α : Type} {f : α → α} {l : List α} {i : Nat} {a : α}
    (h : a ∈ l.modify i f) : a ∈ l ∨ ∃ b ∈ l, a = f b := by
  induction l generalizing i with
  | nil => simp at h
  | cons x xs ih =>
    cases i with
    | zero =>
      rw [List.modify_zero_cons] at h
      rcases List.mem_cons.1 h with rfl | h
      · exact Or.inr ⟨x, List.mem_cons_self, rfl⟩
      · exact Or.inl (List.mem_cons_of_mem _ h)
    | succ i =>
      rw [List.modify_succ_cons] at h
      rcases List.mem_cons.1 h with rfl | h
      · exact Or.inl List.mem_cons_self
      · rcases ih h with h | ⟨b, hb, heq⟩
        · exact Or.inl (List.mem_cons_of_mem _ h)
        · exact Or.inr ⟨b, List.mem_cons_of_mem _ hb, heq⟩

theorem map_modify_of_eq {α β : Type} {f : α → α} {g : α → β}
    (hfg : ∀ a, g (f a) = g a) (l : List α) (i : Nat) :
    (l.modify i f).map g = l.map g := by
  induction l generalizing i with
  | nil => simp
  | cons x xs ih => cases i <;> simp [hfg, ih]

theorem TaskInv.closeTask {task : UdpProxyTask} (h : TaskInv task) :
    TaskInv task.closeTask where
  apart := List.pairwise_map.2 h.apart
  clients := by simpa [UdpProxyTask.closeTask] using h.clients
  targets := by simpa [UdpProxyTask.closeTask] using h.targets
  together := Or.inr ⟨by simp [UdpProxyTask.closeTask], rfl⟩

theorem TaskInv.setServer {task : UdpProxyTask} (h : TaskInv task)
    (isOpen : Bool) : TaskInv (setServer isOpen task) := by
  unfold UdpProxyTask.setServer
  split
  case isTrue hall =>
    exact ⟨h.apart, h.clients, h.targets, Or.inl (List.all_eq_true.1 hall)⟩
  case isFalse => exact h

theorem TaskInv.modifyRoute {task : UdpProxyTask} (h : TaskInv task) {j : Nat}
    {f : UdpRoute → UdpRoute} (hclient : ∀ it, (f it).client = it.client)
    (htarget : ∀ it, (f it).target = it.target)
    (hopen : ∀ it, (f it).peerOpen = it.peerOpen) :
    TaskInv (modifyRoute j f task) := by
  have hall : ∀ {P : UdpRoute → Prop}, (∀ it, P it → P (f it)) →
      (∀ it ∈ task.routes, P it) → ∀ it ∈ task.routes.modify j f, P it := by
    intro P hf hP it hit
    rcases mem_modify hit with hit | ⟨old, hold, rfl⟩
    · exact hP it hit
    · exact hf old (hP old hold)
  refine ⟨?_, ?_, ?_, ?_⟩
  · have hpair : (task.routes.map UdpRoute.client).Pairwise Apart :=
      List.pairwise_map.2 h.apart
    rw [← map_modify_of_eq hclient task.routes j] at hpair
    exact List.pairwise_map.1 hpair
  · exact hall (fun it hit => by rw [hclient]; exact hit) h.clients
  · exact hall (fun it hit => by rw [hclient, htarget]; exact hit) h.targets
  · rcases h.together with hup | ⟨hdown, hserver⟩
    · exact Or.inl (hall (fun it hit => by rw [hopen]; exact hit) hup)
    · exact Or.inr ⟨hall (fun it hit => by rw [hopen]; exact hit) hdown, hserver⟩

def MgrInv (mgr : UDPTaskMgr) : Prop := ∀ task ∈ mgr.tasklist, TaskInv task

theorem MgrInv.modify {mgr : UDPTaskMgr} (h : MgrInv mgr) {i : Nat}
    {f : UdpProxyTask → UdpProxyTask}
    (hf : ∀ task, TaskInv task → TaskInv (f task)) :
    MgrInv ⟨mgr.tasklist.modify i f⟩ := by
  intro task htask
  rcases mem_modify htask with htask | ⟨old, hold, rfl⟩
  · exact h task htask
  · exact hf old (h old hold)

theorem MgrInv.step {mgr : UDPTaskMgr} (h : MgrInv mgr) {event : UdpEvent}
    (hkeeps : KeepsRoutes mgr event) : MgrInv (mgr.step event) := by
  cases event with
  | register r =>
    intro task' htask'
    by_cases hstart : r.canStart = true
    case neg =>
      simp only [UDPTaskMgr.step, UDPTaskMgr.onNewTask, hstart] at htask'
      exact h task' htask'
    rcases UDPTaskMgr.mem_onNewTask htask' with
      hold | ⟨task, hmem, hmatch, hlive, hadmit, rfl⟩ | hnew
    · exact h task' hold
    · rcases hadmit with hroute | ⟨hroute, haccept⟩
      · exact (h task hmem).addRoute_of_hasRoute r.clientOk hlive hroute
          (hkeeps hstart task hmem hmatch hlive) r.socket
      · exact (h task hmem).addRoute_of_canAccept r.clientOk hlive hroute
          haccept r.socket
    · exact taskInv_setTaskInfo r.clientOk hnew
  | close i => exact h.modify fun _ htask => htask.closeTask
  | remove i => exact fun task htask => h task (List.mem_of_mem_eraseIdx htask)
  | server i isOpen => exact h.modify fun _ htask => htask.setServer isOpen
  | clientDatagram i j application =>
    exact h.modify fun _ htask =>
      htask.modifyRoute (fun _ => rfl) (fun _ => rfl) (fun _ => rfl)
  | quic i j state =>
    exact h.modify fun _ htask =>
      htask.modifyRoute (fun _ => rfl) (fun _ => rfl) (fun _ => rfl)

/-- Replies are routed in every state of a run in which no registration
changes the redirection of a route in use. -/
theorem replies_routed (events : List UdpEvent)
    (hkeeps : Admissible UDPTaskMgr.step KeepsRoutes ⟨[]⟩ events) :
    ∀ task ∈ (run UDPTaskMgr.step ⟨[]⟩ events).tasklist, RepliesRouted task := by
  have hinv : MgrInv (run UDPTaskMgr.step ⟨[]⟩ events) :=
    run_invariant (fun _ _ hs hok => hs.step hok)
      (fun _ htask => absurd htask List.not_mem_nil) hkeeps
  exact fun task htask => (hinv task htask).repliesRouted

def resolverSettings (resolver : InAddr) : ProxySettingsInfo where
  bHookTCP := true
  bHookUDP := true
  nDNSOption := .remoteResolver
  bHookLanIP := false
  bDisableMDNS := false
  bRedirectPrivateDNS := true
  redirectDNSAddr := .inet resolver 53

def resolverProxy : ProxyInfo :=
  ⟨ascii "SOCKS5", ascii "203.0.113.9", 1080, [], [], 0, []⟩

/-- A query to `192.168.1.1:53` under the given public resolver. -/
def resolverQuery (resolver : InAddr) (port : UInt16) : Registration where
  client := { PrcClient.zero with
    dwPid := 7
    sType := .dgram
    s := 3
    srcAddr := .inet .loopback 5000
    dstAddr := .inet ⟨192, 168, 1, 1⟩ 53 }
  settings := resolverSettings resolver
  proxyInfo := resolverProxy
  canStart := true
  socket := some (.inet .loopback port)
  dstAddr_ne := by decide
  name_length := by decide

theorem replies_routed_same_resolver :
    (run UDPTaskMgr.step ⟨[]⟩
      [.register (resolverQuery ⟨8, 8, 8, 8⟩ 4001),
        .register (resolverQuery ⟨8, 8, 8, 8⟩ 4002)]).tasklist.length = 1 ∧
      ∀ task ∈ (run UDPTaskMgr.step ⟨[]⟩
        [.register (resolverQuery ⟨8, 8, 8, 8⟩ 4001),
          .register (resolverQuery ⟨8, 8, 8, 8⟩ 4002)]).tasklist,
        RepliesRouted task :=
  ⟨by decide, replies_routed _ (by decide)⟩

theorem changed_resolver_not_routed :
    ¬ ∀ events : List UdpEvent,
      ∀ task ∈ (run UDPTaskMgr.step ⟨[]⟩ events).tasklist, RepliesRouted task := by
  intro h
  have hall := h [.register (resolverQuery ⟨8, 8, 8, 8⟩ 4001),
    .register (resolverQuery ⟨1, 1, 1, 1⟩ 4002)]
  have htarget : ∀ task ∈ (run UDPTaskMgr.step ⟨[]⟩
      [.register (resolverQuery ⟨8, 8, 8, 8⟩ 4001),
        .register (resolverQuery ⟨1, 1, 1, 1⟩ 4002)]).tasklist,
      ∀ route ∈ task.routes, route.target.endpoint = route.client.effective :=
    fun task htask => (hall task htask).target
  revert htarget
  decide

end ProxyLane.Hook
