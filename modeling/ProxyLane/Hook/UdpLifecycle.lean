import ProxyLane.Hook.UdpUpstream

/-!
# The states of a UDP task

Every assignment of the state and every server peer leaves a mark, so what is
said of the marks holds in the middle of a call as well.  `Lifecycle` is kept
by every function of a task; its last three fields suppose that the socket
library posts its events, so that no callback arrives from within
`ConnectProxy`.
-/

namespace ProxyLane.Hook

/-- The state becomes `CLOSING`. -/
def Mark.closing : Mark → Bool
  | .state .closing _ => true
  | _ => false

/-- May stand behind `CLOSING`. -/
def Mark.final : Mark → Bool
  | .state .closing _ => true
  | .closed _ => true
  | _ => false

def UdpEnv.Posted (env : UdpEnv) : Prop :=
  ∀ n, (env.connect n).closed = none

def UdpEnv.Unsupported (env : UdpEnv) (accesses : Nat) : Prop :=
  ∃ n < accesses, env.report n = .unsupported

theorem UdpEnv.Unsupported.mono {env : UdpEnv} {m n : Nat}
    (h : env.Unsupported m) (hle : m ≤ n) : env.Unsupported n := by
  obtain ⟨k, hk, hr⟩ := h
  exact ⟨k, by omega, hr⟩

namespace UdpUpstream

def openFlags (s : UdpUpstream) : List Bool :=
  s.routes.map fun it => it.route.peerOpen

/-- `flags` are those of the routes as they were added, `excused` that the
task was closed by a route or from outside. -/
structure Lifecycle (env : UdpEnv) (excused : Prop) (flags : List Bool)
    (s : UdpUpstream) : Prop where
  reserved : s.state = .routeReserved ∨ s.state = .dormant → s.server = none
  idle : ∀ q, .state .dormant q ∈ s.marks → q = 0
  published : s.state = .ready → s.server ≠ none
  final : env.Posted → s.marks.Pairwise fun a b => a.closing → b.final
  closing : env.Posted → (s.state = .closing ↔ ∃ m ∈ s.marks, m.closing)
  routesOpen : env.Posted → excused ∨ env.Unsupported s.accesses ∨ s.openFlags = flags

variable {env : UdpEnv} {excused : Prop} {flags : List Bool}
  {s t u : UdpUpstream}

theorem start_lifecycle (noProxy : Bool) :
    Lifecycle env excused [] (start noProxy) := by
  constructor <;> simp [start, openFlags]

/-! ## What leaves the states alone -/

/-- From `s` to `t` the state, the peers and the marks stand still. -/
structure Quiet (s t : UdpUpstream) : Prop where
  state : t.state = s.state
  server : t.server = s.server
  marks : t.marks = s.marks
  flags : t.openFlags = s.openFlags
  accesses : s.accesses ≤ t.accesses

theorem Quiet.refl (s : UdpUpstream) : Quiet s s :=
  ⟨rfl, rfl, rfl, rfl, Nat.le_refl _⟩

theorem Quiet.trans (h : Quiet s t) (k : Quiet t u) : Quiet s u :=
  ⟨k.state.trans h.state, k.server.trans h.server, k.marks.trans h.marks,
    k.flags.trans h.flags, h.accesses.trans k.accesses⟩

theorem Quiet.assign {v : UdpUpstream} (h : Quiet s t)
    (same : v.state = t.state ∧ v.server = t.server ∧ v.marks = t.marks ∧
      v.routes = t.routes ∧ v.accesses = t.accesses) : Quiet s v := by
  obtain ⟨h1, h2, h3, h4, h5⟩ := same
  refine h.trans ⟨h1, h2, h3, ?_, h5 ▸ Nat.le_refl _⟩
  simp only [openFlags, h4]

theorem Lifecycle.quiet (h : Lifecycle env excused flags s) (k : Quiet s t) :
    Lifecycle env excused flags t := by
  constructor
  · rw [k.state, k.server]
    exact h.reserved
  · rw [k.marks]
    exact h.idle
  · rw [k.state, k.server]
    exact h.published
  · rw [k.marks]
    exact h.final
  · rw [k.marks, k.state]
    exact h.closing
  · intro hp
    rw [k.flags]
    have hr := h.routesOpen hp
    exact hr.imp_right (Or.imp_left fun hu => hu.mono k.accesses)

theorem quiet_access (s : UdpUpstream) : Quiet s s.access :=
  ⟨rfl, rfl, rfl, rfl, Nat.le_succ _⟩

theorem quiet_popPending (s : UdpUpstream) : Quiet s s.popPending := by
  unfold popPending
  split
  · exact Quiet.refl s
  · exact (Quiet.refl s).assign (by simp)

theorem quiet_popReply (s : UdpUpstream) : Quiet s s.popReply := by
  unfold popReply
  split
  · exact Quiet.refl s
  · exact (Quiet.refl s).assign (by simp)

theorem quiet_expirePending (now : UInt32) (q : List PendingDatagram) :
    ∀ s : UdpUpstream, Quiet s (expirePending now q s) := by
  induction q with
  | nil => intro s; exact Quiet.refl s
  | cons p rest ih =>
    intro s
    simp only [expirePending]
    split
    · exact (quiet_popPending s).trans (ih _)
    · exact Quiet.refl s

theorem quiet_trimPending (length : UInt32) (q : List PendingDatagram) :
    ∀ s : UdpUpstream, Quiet s (trimPending length q s) := by
  induction q with
  | nil => intro s; exact Quiet.refl s
  | cons p rest ih =>
    intro s
    simp only [trimPending]
    split
    · exact (quiet_popPending s).trans (ih _)
    · exact Quiet.refl s

private theorem quiet_trimReplies (length : UInt32) (q : List PendingReply) :
    ∀ s : UdpUpstream, Quiet s (trimReplies length q s) := by
  induction q with
  | nil => intro s; exact Quiet.refl s
  | cons p rest ih =>
    intro s
    simp only [trimReplies]
    split
    · exact (quiet_popReply s).trans (ih _)
    · exact Quiet.refl s

theorem quiet_queueDatagram (s : UdpUpstream) (d : Datagram) :
    Quiet s (s.queueDatagram env d).2 := by
  have ht := quiet_trimPending d.data.size s.pending s
  unfold queueDatagram
  simp only
  split
  · exact ht
  · exact (ht.trans (quiet_access _)).assign (by simp)

theorem quiet_queueReply (s : UdpUpstream) (r : Reply) :
    Quiet s (s.queueReply env r).2 := by
  have ht := quiet_trimReplies r.data.size s.pendingReplies s
  unfold queueReply
  simp only
  split
  · exact ht
  · exact (ht.trans (quiet_access _)).assign (by simp)

theorem quiet_flushLoop (now : UInt32) (only : Option Nat)
    (q : List PendingReply) :
    ∀ (kept : List PendingReply) (s : UdpUpstream),
      Quiet s (flushLoop env now only kept q s) := by
  induction q with
  | nil =>
    intro kept s
    exact (Quiet.refl s).assign (by simp [flushLoop])
  | cons p rest ih =>
    intro kept s
    simp only [flushLoop]
    split
    · refine Quiet.trans ?_ (ih _ _)
      exact (Quiet.refl s).assign (by simp)
    · split
      · exact ih _ _
      · split
        · exact (quiet_access s).trans (ih _ _)
        · refine Quiet.trans ?_ (ih _ _)
          exact (quiet_access s).assign (by simp [access])

theorem quiet_flushPendingReplies (s : UdpUpstream) (only : Option Nat) :
    Quiet s (s.flushPendingReplies env only) :=
  (quiet_access s).trans (quiet_flushLoop _ only _ _ _)

theorem quiet_deliverServerDatagram (s : UdpUpstream) (id : Nat)
    (data : Payload) : Quiet s (s.deliverServerDatagram env id data).2 := by
  unfold deliverServerDatagram
  split
  · exact Quiet.refl s
  · rename_i it _
    simp only
    split
    · exact (quiet_access s).assign (by simp [access])
    · refine Quiet.trans ?_ (quiet_queueReply _ _)
      exact (quiet_access s).assign (by simp [access])

theorem quiet_pumpClient (id : Nat) (datagrams : List Payload) :
    ∀ s : UdpUpstream, Quiet s (pumpClient env id datagrams s) := by
  induction datagrams with
  | nil => intro s; exact Quiet.refl s
  | cons data rest ih =>
    intro s
    have hd : Quiet s (s.deliverServerDatagram env id data).2 :=
      quiet_deliverServerDatagram s id data
    simp only [pumpClient]
    split
    · rename_i heq
      rw [heq] at hd
      exact hd
    · rename_i heq
      rw [heq] at hd
      refine Quiet.trans ?_ (ih _)
      exact (hd.trans (quiet_access _)).assign (by simp)

theorem quiet_setApplication (s : UdpUpstream) (id : Nat)
    (application : SockAddr) : Quiet s (s.setApplication id application) := by
  refine ⟨rfl, rfl, rfl, ?_, Nat.le_refl _⟩
  simp only [setApplication, openFlags, List.map_map]
  apply List.map_congr_left
  intro it _
  simp only [Function.comp_apply]
  split <;> rfl

/-! ## Assignments of the state -/

/-- The state becomes `next`.  Where it is not `CLOSING`, it was not so before
either. -/
theorem Lifecycle.assign (h : Lifecycle env excused flags s)
    (next : UpstreamState) {q : Nat} (hstate : t.state = next)
    (hmarks : t.marks = s.marks ++ [.state next q])
    (hflags : t.openFlags = s.openFlags) (haccess : s.accesses ≤ t.accesses)
    (hopen : env.Posted → next ≠ .closing → s.state ≠ .closing)
    (hreserved : next = .routeReserved ∨ next = .dormant → t.server = none)
    (hidle : next = .dormant → q = 0)
    (hready : next = .ready → t.server ≠ none) :
    Lifecycle env excused flags t := by
  subst hstate
  have hbefore : env.Posted → t.state ≠ .closing →
      ∀ m ∈ s.marks, m.closing = false := by
    intro hp hn m hm
    by_contra hc
    exact hopen hp hn ((h.closing hp).2 ⟨m, hm, by simpa using hc⟩)
  constructor
  · exact hreserved
  · intro n hn
    rw [hmarks] at hn
    simp only [List.mem_append, List.mem_singleton, Mark.state.injEq] at hn
    obtain hn | ⟨hn, rfl⟩ := hn
    · exact h.idle n hn
    · exact hidle hn.symm
  · exact hready
  · intro hp
    rw [hmarks, List.pairwise_append]
    refine ⟨h.final hp, by simp, ?_⟩
    intro a ha b hb hclosing
    rw [List.mem_singleton] at hb
    by_cases hn : t.state = .closing
    · simp [hb, hn, Mark.final]
    · simp [hbefore hp hn a ha] at hclosing
  · intro hp
    rw [hmarks]
    constructor
    · intro hc
      exact ⟨.state t.state q, by simp, by simp [hc, Mark.closing]⟩
    · rintro ⟨m, hm, hc⟩
      by_contra hn
      rw [List.mem_append, List.mem_singleton] at hm
      obtain hm | rfl := hm
      · simp [hbefore hp hn m hm] at hc
      · simp [Mark.closing, hn] at hc
  · intro hp
    rw [hflags]
    exact (h.routesOpen hp).imp_right (Or.imp_left fun hu => hu.mono haccess)

theorem closeTask_lifecycle (cause : CloseCause)
    (h : Lifecycle env excused flags s)
    (hcause : env.Posted → excused ∨ env.Unsupported s.accesses) :
    Lifecycle env excused flags (s.closeTask cause) := by
  have hs : Lifecycle env excused flags (s.setState .closing) :=
    h.assign .closing rfl rfl rfl (Nat.le_refl _) (by simp) (by simp) (by simp)
      (by simp)
  constructor
  · simp [closeTask, setState]
  · intro q hq
    exact hs.idle q (by simpa [closeTask] using hq)
  · simp [closeTask, setState]
  · intro hp
    have hf := hs.final hp
    simp only [closeTask]
    rw [List.pairwise_append]
    refine ⟨hf, by simp, ?_⟩
    intro a _ b hb _
    rw [List.mem_singleton] at hb
    simp [hb, Mark.final]
  · intro hp
    have hc := hs.closing hp
    simp only [closeTask]
    simp only [List.mem_append, List.mem_singleton, or_and_right, exists_or,
      exists_eq_left, Mark.closing, Bool.false_eq_true, or_false]
    exact hc
  · intro hp
    exact (hcause hp).imp_right Or.inl

theorem endTask_lifecycle (h : Lifecycle env excused flags s)
    (hcause : excused) : Lifecycle env excused flags s.endTask := by
  have hs := closeTask_lifecycle .requested h fun _ => Or.inl hcause
  constructor
  · simp [endTask]
  · exact hs.idle
  · simp [endTask, setState]
  · exact hs.final
  · exact hs.closing
  · intro _
    exact Or.inl hcause

theorem publish_lifecycle (h : Lifecycle env excused flags s) (b : Bool)
    (hs : env.Posted → s.state ≠ .closing) :
    let published := if s.noProxy then
        (none, { ({ s with server := some s.peers, serverOpen := b }
          : UdpUpstream).setState .ready with
            serverReconnectDelay := 250, lastServerError := 0 })
      else ((none : Option Int), ({ s with
        server := some s.peers, serverOpen := b } : UdpUpstream).setState
          .associating)
    Lifecycle env excused flags published.2 ∧ published.2.state ≠ .closing := by
  intro published
  simp only [published]
  split
  · refine ⟨h.assign .ready rfl rfl rfl (Nat.le_refl _) ?_ ?_ ?_ ?_, ?_⟩
    · exact fun hp _ => hs hp
    · simp
    · simp
    · simp [setState]
    · simp [setState]
  · refine ⟨h.assign .associating rfl rfl rfl (Nat.le_refl _) ?_ ?_ ?_ ?_, ?_⟩
    · exact fun hp _ => hs hp
    · simp
    · simp
    · simp
    · simp [setState]

/-- A peer is made in a task that is not closing; without an early callback
that stays so. -/
theorem createServerPeer_lifecycle (h : Lifecycle env excused flags s)
    (hs : s.state ≠ .closing) :
    Lifecycle env excused flags (s.createServerPeer env).2 ∧
      (env.Posted → (s.createServerPeer env).2.state ≠ .closing) := by
  have hnew : Lifecycle env excused flags { s.access with
      peers := s.peers + 1, marks := s.marks ++ [.created] } := by
    constructor
    · exact h.reserved
    · intro q hq
      exact h.idle q (by simpa using hq)
    · exact h.published
    · intro hp
      rw [List.pairwise_append]
      refine ⟨h.final hp, by simp, ?_⟩
      intro a ha b _ hclosing
      exact absurd ((h.closing hp).2 ⟨a, ha, hclosing⟩) hs
    · intro hp
      simp only [List.mem_append, List.mem_singleton, or_and_right, exists_or,
        exists_eq_left, Mark.closing, Bool.false_eq_true, or_false]
      exact h.closing hp
    · intro hp
      exact (h.routesOpen hp).imp_right
        (Or.imp_left fun hu => hu.mono (Nat.le_succ _))
  unfold createServerPeer
  simp only
  cases hclosed : (env.connect s.accesses).closed with
  | none =>
    split
    · exact ⟨hnew, fun _ => hs⟩
    · have hpub := publish_lifecycle hnew true fun _ => hs
      exact ⟨hpub.1, fun _ => hpub.2⟩
  | some e =>
    have early : ¬ env.Posted := by
      intro hp
      simp [hp s.accesses] at hclosed
    have hc := closeTask_lifecycle .serverFailed hnew
      fun hp => absurd hp early
    split
    · exact ⟨hc, fun hp => absurd hp early⟩
    · have hpub := publish_lifecycle hc false fun hp => absurd hp early
      exact ⟨hpub.1, fun _ => hpub.2⟩

theorem scheduleServerReconnect_lifecycle (errorCode : Int)
    (h : Lifecycle env excused flags s) :
    Lifecycle env excused flags (s.scheduleServerReconnect env errorCode) := by
  unfold scheduleServerReconnect
  split
  · exact h
  · rename_i hs
    simp only
    split
    · exact h.assign .reconnectWait rfl rfl rfl (Nat.le_succ _)
        (fun _ _ => hs) (by simp) (by simp) (by simp)
    · exact h.quiet ((Quiet.refl s).assign (by simp))

theorem reportFailure_lifecycle (errorCode : Int)
    (h : Lifecycle env excused flags s) :
    Lifecycle env excused flags (s.reportFailure env errorCode) := by
  have ha := h.quiet (quiet_access s)
  unfold reportFailure
  split
  · rename_i hr
    apply closeTask_lifecycle _ ha
    exact fun _ => Or.inr ⟨s.accesses, Nat.lt_succ_self _, hr⟩
  · have hs : Lifecycle env excused flags (s.access.scheduleServerReconnect env
        errorCode) := scheduleServerReconnect_lifecycle errorCode ha
    exact hs.quiet ((quiet_access _).assign (by simp))
  · exact scheduleServerReconnect_lifecycle errorCode ha

/-! ## Sending -/

theorem drain_lifecycle (now : UInt32) (q : List PendingDatagram) :
    ∀ {s : UdpUpstream}, Lifecycle env excused flags s →
      Lifecycle env excused flags (drain env now q s) := by
  induction q with
  | nil => intro s h; exact h
  | cons p rest ih =>
    intro s h
    have ha := h.quiet (quiet_access s)
    simp only [drain]
    split
    · exact ih (h.quiet (quiet_popPending s))
    · split
      · split
        · exact scheduleServerReconnect_lifecycle _ ha
        · exact ha
      · apply ih
        exact ha.quiet ((quiet_popPending _).assign (by simp))

theorem sendPending_lifecycle (now : UInt32)
    (h : Lifecycle env excused flags s) :
    Lifecycle env excused flags (s.sendPending env now) := by
  unfold sendPending
  split
  · exact h
  · exact (drain_lifecycle now _ h).quiet (quiet_flushPendingReplies _ _)

theorem waitAgain_lifecycle (h : Lifecycle env excused flags s)
    (hs : env.Posted → s.state ≠ .closing) (delay next : UInt32) :
    Lifecycle env excused flags { s.access.setState .reconnectWait with
      serverReconnectDelay := delay, nextServerReconnect := next } :=
  h.assign .reconnectWait rfl rfl rfl (Nat.le_succ _) (fun hp _ => hs hp)
    (by simp) (by simp) (by simp)

theorem reconnect_lifecycle (now : UInt32) (h : Lifecycle env excused flags s)
    (hs : s.state = .reconnectWait) :
    Lifecycle env excused flags (s.reconnect env now) := by
  have hnone : Lifecycle env excused flags { s with
      server := none, serverOpen := false } := by
    refine ⟨fun _ => rfl, h.idle, ?_, h.final, h.closing, h.routesOpen⟩
    simp [hs]
  have hc : Lifecycle env excused flags (({ s with
        server := none, serverOpen := false } : UdpUpstream).createServerPeer
          env).2 ∧ (env.Posted → (({ s with
        server := none, serverOpen := false } : UdpUpstream).createServerPeer
          env).2.state ≠ .closing) :=
    createServerPeer_lifecycle hnone (by simp [hs])
  unfold reconnect
  split
  · rename_i heq
    rw [heq] at hc
    exact sendPending_lifecycle now hc.1
  · rename_i t heq
    rw [heq] at hc
    split
    · rename_i hr
      apply closeTask_lifecycle _ (hc.1.quiet (quiet_access _))
      exact fun _ => Or.inr ⟨_, Nat.lt_succ_self _, hr⟩
    · exact waitAgain_lifecycle hc.1 hc.2 _ _
    · exact waitAgain_lifecycle hc.1 hc.2 _ _

theorem tidied_lifecycle (now : UInt32) (h : Lifecycle env excused flags s) :
    Lifecycle env excused flags
      ((s.access.expirePendingDatagrams now).flushPendingReplies env none) :=
  h.quiet ((quiet_access s).trans ((quiet_expirePending _ _ _).trans
    (quiet_flushPendingReplies _ _)))

theorem onServerWritable_lifecycle (h : Lifecycle env excused flags s) :
    Lifecycle env excused flags (s.onServerWritable env) := by
  have hf := tidied_lifecycle (env.tick s.accesses) h
  unfold onServerWritable
  split
  · exact h
  · simp only
    split
    · rename_i hwait
      split
      · exact reconnect_lifecycle _ hf hwait
      · exact hf
    · exact sendPending_lifecycle _ hf

theorem enterServerDormant_lifecycle (h : Lifecycle env excused flags s) :
    Lifecycle env excused flags s.enterServerDormant := by
  unfold enterServerDormant
  split
  · exact h
  · rename_i hn
    simp only [ne_eq, not_or, not_not] at hn
    refine h.assign .dormant rfl rfl rfl (Nat.le_refl _) (fun _ _ => hn.1) ?_ ?_ ?_
    · simp
    · simp [queued, hn.2.2.2]
    · simp

theorem onMaintenanceTimer_lifecycle (h : Lifecycle env excused flags s) :
    Lifecycle env excused flags (s.onMaintenanceTimer env) := by
  have hf := tidied_lifecycle (env.tick s.accesses) h
  unfold onMaintenanceTimer
  split
  · exact h
  · simp only
    split
    · exact hf
    · split
      · exact enterServerDormant_lifecycle hf
      · exact onServerWritable_lifecycle hf

theorem wakeServerAssociation_lifecycle (h : Lifecycle env excused flags s) :
    Lifecycle env excused flags (s.wakeServerAssociation env) := by
  unfold wakeServerAssociation
  split
  · exact h
  · rename_i hs
    rw [not_or] at hs
    have hassoc : Lifecycle env excused flags { s.setState .associating with
        serverReconnectDelay := 250 } :=
      h.assign .associating rfl rfl rfl (Nat.le_refl _) (fun _ _ => hs.1)
        (by simp) (by simp) (by simp)
    have hc : Lifecycle env excused flags (({ s.setState .associating with
        serverReconnectDelay := 250 } : UdpUpstream).createServerPeer env).2 :=
      (createServerPeer_lifecycle hassoc (by simp [setState])).1
    split
    · rename_i heq
      rw [heq] at hc
      exact reportFailure_lifecycle _ hc
    · rename_i heq
      rw [heq] at hc
      split
      · exact onServerWritable_lifecycle hc
      · exact hc

theorem forward_lifecycle (d : Datagram) (h : Lifecycle env excused flags s) :
    Lifecycle env excused flags (s.forward env d).2 := by
  have ha := h.quiet (quiet_access s)
  unfold forward
  split
  · have hq : Lifecycle env excused flags (s.queueDatagram env d).2 :=
      h.quiet (quiet_queueDatagram s d)
    split
    · rename_i heq
      rw [heq] at hq
      exact wakeServerAssociation_lifecycle hq
    · rename_i heq
      rw [heq] at hq
      exact hq
  · split
    · split
      · exact ha.quiet ((Quiet.refl _).assign (by simp))
      · split
        · exact (scheduleServerReconnect_lifecycle _ ha).quiet
            (quiet_queueDatagram _ d)
        · exact ha.quiet (quiet_queueDatagram _ d)
    · exact h.quiet (quiet_queueDatagram s d)

theorem forwardUpstreamDatagram_lifecycle (target : CSAddrInfo)
    (data : Payload) (h : Lifecycle env excused flags s) :
    Lifecycle env excused flags (s.forwardUpstreamDatagram env target data).2 := by
  apply forward_lifecycle
  exact h.quiet ((Quiet.refl s).assign (by simp))

/-! ## Callbacks and runs -/

theorem pumpServer_lifecycle (target : CSAddrInfo) (datagrams : List Payload) :
    ∀ {s : UdpUpstream}, Lifecycle env excused flags s →
      Lifecycle env excused flags (pumpServer env target datagrams s) := by
  induction datagrams with
  | nil => intro s h; exact h
  | cons data rest ih =>
    intro s h
    have hd : Lifecycle env excused flags
        (s.forwardUpstreamDatagram env target data).2 :=
      forwardUpstreamDatagram_lifecycle target data h
    simp only [pumpServer]
    split
    · rename_i heq
      rw [heq] at hd
      exact hd
    · rename_i heq
      rw [heq] at hd
      exact ih (hd.quiet ((quiet_access _).assign (by simp)))

theorem pumpQuic_lifecycle (id : Nat) (target : CSAddrInfo) (pump : QuicPump)
    (h : Lifecycle env excused flags s) :
    Lifecycle env excused flags (s.pumpQuic env id target pump) :=
  pumpServer_lifecycle target _ (h.quiet (quiet_pumpClient id _ s))

theorem forwardClientDatagram_lifecycle (id : Nat) (first : QuicPump)
    (course : ClientCourse) (target : CSAddrInfo) (application : SockAddr)
    (data : Payload) (h : Lifecycle env excused flags s) :
    Lifecycle env excused flags
      (s.forwardClientDatagram env id first course target application data) := by
  have hf : Lifecycle env excused flags ((({ s.access with
      lastActivity := env.tick s.accesses } : UdpUpstream).setApplication id
        application).pumpQuic env id target first) := by
    apply pumpQuic_lifecycle id target first
    refine h.quiet (Quiet.trans ?_ (quiet_setApplication _ id application))
    exact (quiet_access s).assign (by simp)
  unfold forwardClientDatagram
  cases course with
  | plain => exact forwardUpstreamDatagram_lifecycle target data hf
  | retired => exact hf
  | opened pump => exact pumpQuic_lifecycle id target pump hf
  | bridged pump retained =>
    simp only
    split
    · exact pumpQuic_lifecycle id target pump hf
    · exact forwardUpstreamDatagram_lifecycle target data
        (pumpQuic_lifecycle id target pump hf)

theorem forwardServerDatagram_lifecycle (id : Nat) (course : ServerCourse)
    (target : CSAddrInfo) (data : Payload)
    (h : Lifecycle env excused flags s) :
    Lifecycle env excused flags
      (s.forwardServerDatagram env id course target data) := by
  have hf : Lifecycle env excused flags { s.access with
      lastActivity := env.tick s.accesses } :=
    h.quiet ((quiet_access s).assign (by simp))
  unfold forwardServerDatagram
  cases course with
  | plain => exact hf.quiet (quiet_deliverServerDatagram _ id data)
  | retired => exact hf
  | bridged pump => exact pumpQuic_lifecycle id target pump hf

def Event.added : Event → List Bool
  | .addRoute route => [route.peerOpen]
  | _ => []

def Event.closes : Event → Bool
  | .routeClosed => true
  | .closeTask => true
  | .endTask => true
  | _ => false

theorem step_lifecycle (e : Event) (hcloses : e.closes → excused)
    (h : Lifecycle env excused flags s) :
    Lifecycle env excused (flags ++ e.added) (s.step env e) := by
  cases e with
  | addRoute route =>
    refine ⟨h.reserved, h.idle, h.published, h.final, h.closing, ?_⟩
    intro hp
    refine (h.routesOpen hp).imp_right (Or.imp_right fun hf => ?_)
    simpa [step, openFlags, Event.added] using hf
  | clientDatagram id first course target application data =>
    simp only [Event.added, List.append_nil]
    exact forwardClientDatagram_lifecycle id first course target application data h
  | serverDatagram id course target data =>
    simp only [Event.added, List.append_nil]
    exact forwardServerDatagram_lifecycle id course target data h
  | serverWritable =>
    simp only [Event.added, List.append_nil]
    exact onServerWritable_lifecycle h
  | routeWritable id target pump =>
    simp only [Event.added, List.append_nil]
    exact pumpQuic_lifecycle id target pump
      (h.quiet (quiet_flushPendingReplies s (some id)))
  | timer =>
    simp only [Event.added, List.append_nil]
    exact onMaintenanceTimer_lifecycle h
  | serverReady =>
    simp only [Event.added, List.append_nil]
    simp only [step, onServerReady]
    split
    · exact h
    · rename_i hn
      simp only [ne_eq, not_or, not_not] at hn
      apply onServerWritable_lifecycle
      exact h.assign .ready rfl rfl rfl (Nat.le_refl _) (by simp [hn.1])
        (by simp) (by simp) (fun _ => hn.2)
  | serverClosed errorCode =>
    simp only [Event.added, List.append_nil]
    have hopen : Lifecycle env excused flags { s with serverOpen := false } :=
      h.quiet ((Quiet.refl s).assign (by simp))
    simp only [step, onServerClosed]
    split
    · exact h
    · split
      · exact hopen
      · exact reportFailure_lifecycle errorCode hopen
  | routeClosed =>
    simp only [Event.added, List.append_nil]
    exact closeTask_lifecycle _ h fun _ => Or.inl (hcloses rfl)
  | closeTask =>
    simp only [Event.added, List.append_nil]
    exact closeTask_lifecycle _ h fun _ => Or.inl (hcloses rfl)
  | endTask =>
    simp only [Event.added, List.append_nil]
    exact endTask_lifecycle h (hcloses rfl)

theorem run_lifecycle (es : List Event) (hcloses : ∀ e ∈ es, e.closes → excused) :
    ∀ {flags : List Bool} {s : UdpUpstream}, Lifecycle env excused flags s →
      Lifecycle env excused (flags ++ es.flatMap Event.added) (s.run env es) := by
  induction es with
  | nil =>
    intro flags s h
    simpa [run] using h
  | cons e es ih =>
    intro flags s h
    have hstep := step_lifecycle e (hcloses e (by simp)) h
    have hrest := ih (fun e' he' => hcloses e' (by simp [he'])) hstep
    simpa [run, List.append_assoc] using hrest

theorem upstream_lawful (env : UdpEnv) (noProxy : Bool) (es : List Event) :
    let s := (start noProxy).run env es
    (s.state = .routeReserved ∨ s.state = .dormant → s.server = none) ∧
    (∀ q, .state .dormant q ∈ s.marks → q = 0) ∧
    (s.state = .ready → s.server ≠ none) ∧
    (env.Posted →
      (s.marks.Pairwise fun a b => a.closing → b.final) ∧
      (s.state = .closing ↔ ∃ m ∈ s.marks, m.closing) ∧
      ((∃ e ∈ es, e.closes) ∨ env.Unsupported s.accesses ∨
        s.openFlags = es.flatMap Event.added)) := by
  intro s
  have h : Lifecycle env (∃ e ∈ es, e.closes) (es.flatMap Event.added) s :=
    run_lifecycle es (fun e he hc => ⟨e, he, hc⟩) (start_lifecycle noProxy)
  exact ⟨h.reserved, h.idle, h.published,
    fun hp => ⟨h.final hp, h.closing hp, h.routesOpen hp⟩⟩

def sampleRoute : UdpRoute :=
  ⟨.zero, true, ⟨.unspec, [], .unspec⟩, none, .none⟩

def sampleDatagram : Event :=
  .clientDatagram 0 ⟨[], []⟩ .plain ⟨.unspec, [], .unspec⟩ .unspec ⟨[1], by decide⟩

def sampleUdpEnv (closed : Option Int) : UdpEnv where
  tick n := UInt32.ofNat n
  connect _ := ⟨true, closed, 0⟩
  send _ := none
  report _ := .retry

theorem upstream_lawful_sample :
    let s := (start false).run (sampleUdpEnv none)
      [.addRoute sampleRoute, sampleDatagram, .serverReady, .serverClosed 10054]
    (sampleUdpEnv none).Posted ∧ s.state = .reconnectWait ∧ s.openFlags = [true] := by
  intro s
  have hposted : (sampleUdpEnv none).Posted := fun _ => rfl
  have hopen := ((upstream_lawful (sampleUdpEnv none) false
    [.addRoute sampleRoute, sampleDatagram, .serverReady,
      .serverClosed 10054]).2.2.2 hposted).2.2
  refine ⟨hposted, by decide, ?_⟩
  obtain hcloses | ⟨_, _, hr⟩ | hflags := hopen
  · simp [sampleDatagram, Event.closes] at hcloses
  · simp [sampleUdpEnv] at hr
  · exact hflags

/-- A close callback from within `ConnectProxy` closes the route, and the task
then leaves `CLOSING`. -/
theorem early_close_reopens :
    let env := sampleUdpEnv (some 10054)
    let s := (start false).run env [.addRoute sampleRoute, sampleDatagram]
    ¬ (s.marks.Pairwise fun a b => a.closing → b.final) ∧
      s.state = .associating ∧ s.openFlags = [false] ∧
      ∀ n, env.report n ≠ .unsupported := by
  refine ⟨by decide, by decide, by decide, ?_⟩
  simp [sampleUdpEnv]

end UdpUpstream

end ProxyLane.Hook
