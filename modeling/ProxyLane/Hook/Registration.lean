import Mathlib.Data.List.Pairwise
import ProxyLane.Foundation.Run
import ProxyLane.Hook.HookWinsock

/-!
# Registrations of TCP clients

A hooked process registers a socket with the reception centre before it
connects to the loopback listener; the accepted connection is matched with a
registration by its source endpoint.  A registration is known by its process
and socket, matched by family, port and address, and kept for up to a minute
where its process ends without taking it back.
-/

namespace ProxyLane.Hook

open ProxyLane.Foundation

namespace Registration

def sameSocket (left right : PrcClient) : Bool :=
  left.dwPid == right.dwPid && left.processCreateTime == right.processCreateTime &&
    left.socketGeneration == right.socketGeneration && left.s == right.s

def isFrom (peer : SockAddr) (it : PrcClient) : Bool :=
  peer.family == it.srcAddr.family && peer.getPort == it.srcAddr.getPort &&
    (it.srcAddr.isAny || peer.sameAddress it.srcAddr)

/-- The last two fields are history: the registrations made, the latest first,
and the sockets that have registered and not ended. -/
structure Centre where
  registeredClient : List PrcClient
  tick : Nat
  registered : List PrcClient
  live : List PrcClient

def Centre.start : Centre := ⟨[], 0, [], []⟩

/-- `refused` is the answer of the filter and of the IPv6 route query. -/
def registerTCPClient (s : Centre) (client : PrcClient) (refused : Bool) :
    Centre :=
  if refused then s
  else
    let client := { client with reserved := s.tick }
    { s with
      registeredClient :=
        (HackedSocket.replaceFirst (sameSocket client) client
          s.registeredClient).getD (s.registeredClient ++ [client])
      registered := client :: s.registered }

def unregisterClient (s : Centre) (client : PrcClient) : Centre :=
  if client.sType = .stream then
    { s with registeredClient :=
      s.registeredClient.filter fun it => !sameSocket client it }
  else s

def getClientInfo (s : Centre) (peer : SockAddr) : Option PrcClient :=
  s.registeredClient.find? (isFrom peer)

/-- `GetClientInfo` with `bpop`. -/
def popClientInfo (s : Centre) (peer : SockAddr) : Centre :=
  { s with registeredClient := s.registeredClient.eraseP (isFrom peer) }

def isStale (tick : Nat) (it : PrcClient) : Bool :=
  60 * 1000 < (tick + 2 ^ 32 - it.reserved) % 2 ^ 32

def checkRegisteredClient (s : Centre) : Centre :=
  { s with registeredClient :=
    s.registeredClient.filter fun it => !isStale s.tick it }

/-- A socket ends when it is closed or when its process crashes; the centre is
not told. -/
inductive Event where
  | time (milliseconds : Nat)
  | register (client : PrcClient) (refused : Bool)
  | unregister (client : PrcClient)
  | ended (client : PrcClient)
  | accepted (peer : SockAddr)
  | timer

def others (client : PrcClient) (sockets : List PrcClient) : List PrcClient :=
  sockets.filter fun it => !sameSocket client it

def step (s : Centre) : Event → Centre
  | .time milliseconds => { s with tick := (s.tick + milliseconds) % 2 ^ 32 }
  | .register client refused =>
    { registerTCPClient s client refused with
      live := client :: others client s.live }
  | .unregister client => unregisterClient s client
  | .ended client => { s with live := others client s.live }
  | .accepted peer => popClientInfo s peer
  | .timer => checkRegisteredClient s

def mostRecent (s : Centre) (peer : SockAddr) : Option PrcClient :=
  s.registered.find? (isFrom peer)

def overlaps (left right : PrcClient) : Bool :=
  left.srcAddr.family == right.srcAddr.family &&
    left.srcAddr.getPort == right.srcAddr.getPort &&
    (left.srcAddr.isAny || right.srcAddr.isAny ||
      left.srcAddr.sameAddress right.srcAddr)

theorem overlaps_comm (left right : PrcClient) :
    overlaps left right = overlaps right left := by
  have hsame : left.srcAddr.sameAddress right.srcAddr =
      right.srcAddr.sameAddress left.srcAddr := by
    cases left.srcAddr <;> cases right.srcAddr <;>
      simp [SockAddr.sameAddress, Bool.beq_comm]
  simp only [overlaps, hsame, Bool.beq_comm, Bool.or_comm right.srcAddr.isAny]

theorem overlaps_of_isFrom {peer : SockAddr} {left right : PrcClient}
    (hl : isFrom peer left = true) (hr : isFrom peer right = true) :
    overlaps left right = true := by
  simp only [isFrom, Bool.and_eq_true, Bool.or_eq_true, beq_iff_eq] at hl hr
  obtain ⟨⟨hlf, hlp⟩, hla⟩ := hl
  obtain ⟨⟨hrf, hrp⟩, hra⟩ := hr
  simp only [overlaps, Bool.and_eq_true, Bool.or_eq_true, beq_iff_eq]
  refine ⟨⟨hlf.symm.trans hrf, hlp.symm.trans hrp⟩, ?_⟩
  obtain hany | hsame := hla
  · exact Or.inl (Or.inl hany)
  · obtain hany | hsame' := hra
    · exact Or.inl (Or.inr hany)
    · right
      revert hsame hsame'
      cases peer <;> cases left.srcAddr <;> cases right.srcAddr <;>
        simp [SockAddr.sameAddress]
      · rintro rfl rfl
        rfl
      · rintro rfl rfl
        rfl

def OwnsAlone (s : Centre) : Event → Prop
  | .register client _ => ∀ it ∈ others client s.live, overlaps client it = false
  | _ => True

/-- A socket is registered when no registration of another one is left for its
source endpoint. -/
def Fresh (s : Centre) : Event → Prop
  | .register client false => ∀ it ∈ others client s.registeredClient,
      overlaps client it = false
  | _ => True

instance (s : Centre) (e : Event) : Decidable (OwnsAlone s e) :=
  match e with
  | .register client _ => inferInstanceAs (Decidable
      (∀ it ∈ others client s.live, overlaps client it = false))
  | .time _ | .unregister _ | .ended _ | .accepted _ | .timer =>
    inferInstanceAs (Decidable True)

instance (s : Centre) (e : Event) : Decidable (Fresh s e) :=
  match e with
  | .register client false => inferInstanceAs (Decidable
      (∀ it ∈ others client s.registeredClient, overlaps client it = false))
  | .register _ true | .time _ | .unregister _ | .ended _ | .accepted _ | .timer =>
    inferInstanceAs (Decidable True)

def endsRegistration (s : Centre) (it : PrcClient) : Event → Bool
  | .register client refused => !refused && sameSocket client it
  | .unregister client => client.sType == .stream && sameSocket client it
  | .accepted peer => isFrom peer it
  | .timer => isStale s.tick it
  | _ => false

theorem sameSocket_comm (left right : PrcClient) :
    sameSocket left right = sameSocket right left := by
  simp only [sameSocket, Bool.beq_comm]

theorem sameSocket_trans {left middle right : PrcClient}
    (hl : sameSocket left middle = true) (hr : sameSocket left right = true) :
    sameSocket middle right = true := by
  simp only [sameSocket, Bool.and_eq_true, beq_iff_eq] at *
  omega

theorem replaceFirst_perm {α : Type} {p : α → Bool} {item : α} {l : List α}
    (h : l.Pairwise fun a b => p a = true → p b = false) :
    ((HackedSocket.replaceFirst p item l).getD (l ++ [item])).Perm
      (item :: l.filter fun a => !p a) := by
  induction l with
  | nil => simp [HackedSocket.replaceFirst]
  | cons a l ih =>
    obtain ⟨ha, hl⟩ := List.pairwise_cons.1 h
    by_cases hp : p a = true
    · have hrest : l.filter (fun b => !p b) = l := by
        apply List.filter_eq_self.2
        intro b hb
        simp [ha b hb hp]
      simp [HackedSocket.replaceFirst, hp, hrest]
    · have hcons : (HackedSocket.replaceFirst p item (a :: l)).getD
          ((a :: l) ++ [item]) = a ::
            (HackedSocket.replaceFirst p item l).getD (l ++ [item]) := by
        cases hrest : HackedSocket.replaceFirst p item l <;>
          simp [HackedSocket.replaceFirst, hp, hrest]
      simp only [hcons, List.filter_cons, hp, Bool.not_false, if_true]
      exact ((ih hl).cons a).trans (List.Perm.swap item a _)

/-- The held registrations are of different sockets, no connection is from two
of them, and each is the latest one made for its source endpoint. -/
structure Matched (s : Centre) : Prop where
  sockets : s.registeredClient.Pairwise fun a b => sameSocket a b = false
  apart : s.registeredClient.Pairwise fun a b => overlaps a b = false
  latest : ∀ it ∈ s.registeredClient, ∃ newer older,
    s.registered = newer ++ it :: older ∧ ∀ n ∈ newer, overlaps n it = false

variable {s : Centre}

theorem Matched.sublist (h : Matched s) {l : List PrcClient}
    (hl : l.Sublist s.registeredClient) {tick : Nat} {live : List PrcClient} :
    Matched { s with registeredClient := l, tick := tick, live := live } where
  sockets := h.sockets.sublist hl
  apart := h.apart.sublist hl
  latest it hit := h.latest it (hl.subset hit)

def stamped (s : Centre) (client : PrcClient) : PrcClient :=
  { client with reserved := s.tick }

theorem Matched.register_perm (h : Matched s) (client : PrcClient) :
    (step s (.register client false)).registeredClient.Perm
      (stamped s client :: others client s.registeredClient) := by
  apply replaceFirst_perm
  apply h.sockets.imp
  intro a b hab ha
  by_contra hb
  have hsame := sameSocket_trans ha (by simpa using hb)
  simp [hsame] at hab

theorem Matched.register (h : Matched s) {client : PrcClient}
    (hfresh : Fresh s (.register client false)) :
    Matched (step s (.register client false)) := by
  have hperm := h.register_perm client
  have hothers : (others client s.registeredClient).Sublist s.registeredClient :=
    List.filter_sublist
  constructor
  · apply (hperm.pairwise_iff ?_).2
    · apply List.pairwise_cons.2
      constructor
      · intro it hit
        have hdiffers : sameSocket client it = false := by
          simpa using (List.mem_filter.1 hit).2
        exact hdiffers
      · exact h.sockets.sublist hothers
    · intro a b hab
      rwa [sameSocket_comm]
  · apply (hperm.pairwise_iff ?_).2
    · apply List.pairwise_cons.2
      exact ⟨hfresh, h.apart.sublist hothers⟩
    · intro a b hab
      rwa [overlaps_comm]
  · intro it hit
    obtain rfl | hit := List.mem_cons.1 (hperm.subset hit)
    · exact ⟨[], s.registered, rfl, by simp⟩
    · obtain ⟨newer, older, hsplit, hnewer⟩ :=
        h.latest it (hothers.subset hit)
      refine ⟨stamped s client :: newer, older, ?_, ?_⟩
      · change stamped s client :: s.registered = _
        simp [hsplit]
      · intro n hn
        obtain rfl | hn := List.mem_cons.1 hn
        · exact hfresh it hit
        · exact hnewer n hn

theorem Matched.step (h : Matched s) {e : Event} (hfresh : Fresh s e) :
    Matched (step s e) := by
  cases e with
  | time => exact h.sublist (List.Sublist.refl _)
  | ended => exact h.sublist (List.Sublist.refl _)
  | register client refused =>
    cases refused with
    | true => exact h.sublist (List.Sublist.refl _)
    | false => exact h.register hfresh
  | unregister client =>
    simp only [Registration.step, unregisterClient]
    split
    · exact h.sublist List.filter_sublist
    · exact h
  | accepted peer => exact h.sublist List.eraseP_sublist
  | timer => exact h.sublist List.filter_sublist

theorem Matched.getClientInfo_iff (h : Matched s) (peer : SockAddr)
    (r : PrcClient) :
    getClientInfo s peer = some r ↔
      r ∈ s.registeredClient ∧ isFrom peer r = true := by
  constructor
  · intro hfind
    exact ⟨List.mem_of_find?_eq_some hfind, List.find?_some hfind⟩
  · rintro ⟨hr, hfrom⟩
    have hsome : (getClientInfo s peer).isSome = true :=
      List.find?_isSome.2 ⟨r, hr, hfrom⟩
    obtain ⟨r', hfind⟩ := Option.isSome_iff_exists.1 hsome
    have hr' := List.mem_of_find?_eq_some hfind
    have hoverlaps := overlaps_of_isFrom hfrom (List.find?_some hfind)
    by_cases heq : r = r'
    · rwa [heq]
    · have hsymm : Std.Symm fun a b => overlaps a b = false :=
        ⟨fun a b hab => by rwa [overlaps_comm]⟩
      have hapart := h.apart.forall hr hr' heq
      simp [hoverlaps] at hapart

theorem Matched.mostRecent_of_mem (h : Matched s) {peer : SockAddr}
    {r : PrcClient} (hr : r ∈ s.registeredClient)
    (hfrom : isFrom peer r = true) : mostRecent s peer = some r := by
  obtain ⟨newer, older, hsplit, hnewer⟩ := h.latest r hr
  have hnone : newer.find? (isFrom peer) = none := by
    apply List.find?_eq_none.2
    intro n hn hfrom'
    have hoverlaps := overlaps_of_isFrom hfrom' hfrom
    simp [hnewer n hn] at hoverlaps
  simp [mostRecent, hsplit, List.find?_append, hnone, hfrom]

theorem Matched.kept (h : Matched s) (e : Event) {r : PrcClient}
    (hr : r ∈ s.registeredClient) (hends : endsRegistration s r e = false) :
    r ∈ (Registration.step s e).registeredClient := by
  cases e with
  | time => exact hr
  | ended => exact hr
  | register client refused =>
    cases refused with
    | true => exact hr
    | false =>
      apply (h.register_perm client).symm.subset
      apply List.mem_cons_of_mem
      exact List.mem_filter.2 ⟨hr, by simpa [endsRegistration] using hends⟩
  | unregister client =>
    simp only [Registration.step, unregisterClient]
    split
    · rename_i hstream
      exact List.mem_filter.2 ⟨hr, by simpa [endsRegistration, hstream] using hends⟩
    · exact hr
  | accepted peer =>
    have hfrom : isFrom peer r = false := hends
    exact (List.mem_eraseP_of_neg (Bool.not_eq_true _ ▸ hfrom)).2 hr
  | timer =>
    have hstale : isStale s.tick r = false := hends
    exact List.mem_filter.2 ⟨hr, by simp [hstale]⟩

private theorem matched_run {events : List Event}
    (hfresh : Admissible step Fresh .start events) :
    Matched (run step .start events) := by
  apply run_invariant (fun _ _ h hok => Matched.step h hok) _ hfresh
  exact ⟨List.Pairwise.nil, List.Pairwise.nil, by simp [Centre.start]⟩

/-- Where every registration is fresh, an accepted connection gets the latest
registration made for its source endpoint, as long as that one is held: from
when it is made until it is accepted, taken back, made again or expired. -/
theorem accepted_gets_most_recent {events : List Event}
    (hfresh : Admissible step Fresh .start events) :
    (∀ peer r, getClientInfo (run step .start events) peer = some r ↔
      mostRecent (run step .start events) peer = some r ∧
        r ∈ (run step .start events).registeredClient) ∧
    (∀ client, stamped (run step .start events) client ∈
      (step (run step .start events) (.register client false)).registeredClient) ∧
    (∀ r ∈ (run step .start events).registeredClient, ∀ e,
      endsRegistration (run step .start events) r e = false →
        r ∈ (step (run step .start events) e).registeredClient) := by
  have h := matched_run hfresh
  refine ⟨?_, ?_, fun r hr e hends => h.kept e hr hends⟩
  · intro peer r
    constructor
    · intro hfind
      obtain ⟨hr, hfrom⟩ := (h.getClientInfo_iff peer r).1 hfind
      exact ⟨h.mostRecent_of_mem hr hfrom, hr⟩
    · rintro ⟨hrecent, hr⟩
      exact (h.getClientInfo_iff peer r).2 ⟨hr, List.find?_some hrecent⟩
  · intro client
    exact (h.register_perm client).symm.subset (List.mem_cons_self ..)

def clientOf (pid port : Nat) (domain : Bytes) : PrcClient :=
  { PrcClient.zero with
    dwPid := pid
    processCreateTime := pid
    socketGeneration := 1
    sType := .stream
    s := 100
    szDomainName := domain
    srcAddr := .inet .any (UInt16.ofNat port) }

def loopbackPeer (port : Nat) : SockAddr :=
  .inet .loopback (UInt16.ofNat port)

theorem accepted_gets_most_recent_reused_port :
    getClientInfo (run step .start
      [.register (clientOf 1 50000 [97]) false, .accepted (loopbackPeer 50000),
        .ended (clientOf 1 50000 [97]),
        .register (clientOf 2 50000 [98]) false]) (loopbackPeer 50000) =
      some (clientOf 2 50000 [98]) :=
  ((accepted_gets_most_recent (by decide)).1 _ _).2 (by decide)

/-- A process registers a socket and crashes, and another process is given the
port: the connection of the second gets the registration of the first. -/
theorem crashed_owner_matched :
    let events : List Event :=
      [.register (clientOf 1 50000 [97]) false, .ended (clientOf 1 50000 [97]),
        .register (clientOf 2 50000 [98]) false]
    Admissible step OwnsAlone .start events ∧
      (run step .start events).live = [clientOf 2 50000 [98]] ∧
      mostRecent (run step .start events) (loopbackPeer 50000) =
        some (clientOf 2 50000 [98]) ∧
      getClientInfo (run step .start events) (loopbackPeer 50000) =
        some (clientOf 1 50000 [97]) := by
  decide

end Registration

end ProxyLane.Hook
