import ProxyLane.Foundation.Charged
import ProxyLane.Hook.UdpUpstream

/-!
# The queues of a UDP task

`Queues` is kept by every function of a task.  It charges both queues and
places every datagram that was sent or is waiting in the order in which it was
handed over.  `new` and `fresh` are the datagram and the reply that are being
handed over and are in no queue yet: whatever the functions called on the way
do, there is still room for them behind all the others.
-/

namespace ProxyLane.Hook

open Foundation

namespace UdpUpstream

def sizes (q : List PendingDatagram) : List Nat :=
  q.map fun p => p.datagram.data.bytes.length

def replySizes (q : List PendingReply) : List Nat :=
  q.map fun p => p.reply.data.bytes.length

structure Queues (new : List Datagram) (fresh : List Reply)
    (s : UdpUpstream) : Prop where
  datagrams : Charged maxPackets maxBytes.toNat (sizes s.pending) s.pendingBytes
  replies : Charged maxPackets maxBytes.toNat (replySizes s.pendingReplies)
    s.pendingReplyBytes
  unwrapped : s.wrapped = false
  numbered : s.passed.map Datagram.serial = List.range s.passed.length
  servedNumbered : s.served.map Reply.serial = List.range s.served.length
  order : (s.accepted ++ s.pending.map PendingDatagram.datagram ++ new).Sublist
    s.passed
  once : (s.delivered ++ s.pendingReplies.map PendingReply.reply ++ fresh).Subperm
    s.served

variable {env : UdpEnv} {s : UdpUpstream} {new : List Datagram}
  {fresh : List Reply}

/-- All of the state that `Queues` is about. -/
def queueView (s : UdpUpstream) :=
  (s.pending, s.pendingBytes, s.pendingReplies, s.pendingReplyBytes, s.wrapped,
    s.passed, s.accepted, s.served, s.delivered)

theorem Queues.frame {t : UdpUpstream} (h : Queues new fresh s)
    (same : t.queueView = s.queueView) : Queues new fresh t := by
  simp only [queueView, Prod.mk.injEq] at same
  obtain ⟨h1, h2, h3, h4, h5, h6, h7, h8, h9⟩ := same
  constructor
  · simpa only [h1, h2] using h.datagrams
  · simpa only [h3, h4] using h.replies
  · simpa only [h5] using h.unwrapped
  · simpa only [h6] using h.numbered
  · simpa only [h8] using h.servedNumbered
  · simpa only [h1, h6, h7] using h.order
  · simpa only [h3, h8, h9] using h.once

theorem access_queues (h : Queues new fresh s) : Queues new fresh s.access :=
  h.frame rfl

theorem start_queues (noProxy : Bool) : Queues [] [] (start noProxy) := by
  constructor <;> simp [start, sizes, replySizes, Charged.empty]

theorem popPending_queues (h : Queues new fresh s) :
    Queues new fresh s.popPending := by
  unfold popPending
  split
  · exact h
  · rename_i p rest hq
    have hd := h.datagrams
    have ho := h.order
    rw [hq] at hd ho
    obtain ⟨hcharged, hle⟩ := Charged.pop hd
    refine ⟨hcharged, h.replies, ?_, h.numbered, h.servedNumbered, ?_, h.once⟩
    · simp only [h.unwrapped, Bool.false_or, decide_eq_false_iff_not]
      exact hle
    · refine List.Sublist.trans ?_ ho
      simp

theorem popReply_queues (h : Queues new fresh s) :
    Queues new fresh s.popReply := by
  unfold popReply
  split
  · exact h
  · rename_i p rest hq
    have hr := h.replies
    have ho := h.once
    rw [hq] at hr ho
    obtain ⟨hcharged, hle⟩ := Charged.pop hr
    refine ⟨h.datagrams, hcharged, ?_, h.numbered, h.servedNumbered, h.order, ?_⟩
    · simp only [h.unwrapped, Bool.false_or, decide_eq_false_iff_not]
      exact hle
    · refine List.Subperm.trans (List.Sublist.subperm ?_) ho
      simp

theorem acceptPending_queues {p : PendingDatagram} {rest : List PendingDatagram}
    (hq : s.pending = p :: rest) (h : Queues new fresh s) :
    Queues new fresh { s.access.popPending with
      accepted := s.accepted ++ [p.datagram] } := by
  have hpop := popPending_queues (access_queues h)
  have hpending : s.access.popPending.pending = rest := by
    simp [popPending, access, hq]
  have hpassed : s.access.popPending.passed = s.passed := by
    simp [popPending, access, hq]
  refine ⟨hpop.datagrams, hpop.replies, hpop.unwrapped, hpop.numbered,
    hpop.servedNumbered, ?_, hpop.once⟩
  have ho := h.order
  rw [hq] at ho
  simpa [hpending, hpassed] using ho

theorem pending_popPending {p : PendingDatagram} {rest : List PendingDatagram}
    (h : s.pending = p :: rest) : s.popPending.pending = rest := by
  simp [popPending, h]

theorem pendingReplies_popReply {p : PendingReply} {rest : List PendingReply}
    (h : s.pendingReplies = p :: rest) : s.popReply.pendingReplies = rest := by
  simp [popReply, h]

theorem expirePending_queues (now : UInt32) (q : List PendingDatagram) :
    ∀ {s : UdpUpstream}, Queues new fresh s →
      Queues new fresh (expirePending now q s) := by
  induction q with
  | nil => intro s h; exact h
  | cons p rest ih =>
    intro s h
    simp only [expirePending]
    split
    · exact ih (popPending_queues h)
    · exact h

theorem trimPending_queues (length : UInt32) (q : List PendingDatagram) :
    ∀ {s : UdpUpstream}, Queues new fresh s →
      Queues new fresh (trimPending length q s) := by
  induction q with
  | nil => intro s h; exact h
  | cons p rest ih =>
    intro s h
    simp only [trimPending]
    split
    · exact ih (popPending_queues h)
    · exact h

theorem trimReplies_queues (length : UInt32) (q : List PendingReply) :
    ∀ {s : UdpUpstream}, Queues new fresh s →
      Queues new fresh (trimReplies length q s) := by
  induction q with
  | nil => intro s h; exact h
  | cons p rest ih =>
    intro s h
    simp only [trimReplies]
    split
    · exact ih (popReply_queues h)
    · exact h

theorem trimPending_room (n : Nat) (q : List PendingDatagram) :
    ∀ {s : UdpUpstream}, s.pending = q →
      Charged.Room maxPackets maxBytes.toNat n
        (sizes (trimPending (UInt32.ofNat n) q s).pending)
        (trimPending (UInt32.ofNat n) q s).pendingBytes := by
  induction q with
  | nil =>
    intro s hs
    exact Or.inl (by simp [trimPending, sizes, hs])
  | cons p rest ih =>
    intro s hs
    simp only [trimPending]
    split
    · exact ih (pending_popPending hs)
    · rename_i hroom
      simp only [not_or, Nat.not_le, UInt32.not_lt, UInt32.le_iff_toNat_le] at hroom
      exact Or.inr ⟨by simpa [sizes] using hroom.1, hroom.2⟩

theorem trimReplies_room (n : Nat) (q : List PendingReply) :
    ∀ {s : UdpUpstream}, s.pendingReplies = q →
      Charged.Room maxPackets maxBytes.toNat n
        (replySizes (trimReplies (UInt32.ofNat n) q s).pendingReplies)
        (trimReplies (UInt32.ofNat n) q s).pendingReplyBytes := by
  induction q with
  | nil =>
    intro s hs
    exact Or.inl (by simp [trimReplies, replySizes, hs])
  | cons p rest ih =>
    intro s hs
    simp only [trimReplies]
    split
    · exact ih (pendingReplies_popReply hs)
    · rename_i hroom
      simp only [not_or, Nat.not_le, UInt32.not_lt, UInt32.le_iff_toNat_le] at hroom
      exact Or.inr ⟨by simpa [replySizes] using hroom.1, hroom.2⟩

theorem size_le {p : Payload} (h : ¬ maxBytes < p.size) :
    p.bytes.length ≤ maxBytes.toNat := by
  have hsmall := p.small
  rw [UInt32.not_lt, UInt32.le_iff_toNat_le, Payload.size, UInt32.toNat_ofNat'] at h
  omega

theorem queueDatagram_queues {d : Datagram} (h : Queues [d] fresh s) :
    Queues [] fresh (s.queueDatagram env d).2 := by
  have ht := trimPending_queues d.data.size s.pending h
  have hroom := trimPending_room d.data.bytes.length s.pending rfl
  unfold queueDatagram
  simp only
  split
  · exact ⟨ht.datagrams, ht.replies, ht.unwrapped, ht.numbered,
      ht.servedNumbered, by
        rw [List.append_nil]
        exact (List.sublist_append_left _ _).trans ht.order, ht.once⟩
  · rename_i hsize
    have hcharged := ht.datagrams.push hroom (by decide) (size_le hsize) (by decide)
    refine ⟨?_, ht.replies, ht.unwrapped, ht.numbered, ht.servedNumbered, ?_, ht.once⟩
    · simpa [sizes, Payload.size] using hcharged
    · simpa [access] using ht.order

theorem queueReply_queues {r : Reply} (h : Queues new [r] s) :
    Queues new [] (s.queueReply env r).2 := by
  have ht := trimReplies_queues r.data.size s.pendingReplies h
  have hroom := trimReplies_room r.data.bytes.length s.pendingReplies rfl
  unfold queueReply
  simp only
  split
  · exact ⟨ht.datagrams, ht.replies, ht.unwrapped, ht.numbered,
      ht.servedNumbered, ht.order, by
        rw [List.append_nil]
        exact (List.sublist_append_left _ _).subperm.trans ht.once⟩
  · rename_i hsize
    have hcharged := ht.replies.push hroom (by decide) (size_le hsize) (by decide)
    refine ⟨ht.datagrams, ?_, ht.unwrapped, ht.numbered, ht.servedNumbered,
      ht.order, ?_⟩
    · simpa [replySizes, Payload.size] using hcharged
    · simpa [access] using ht.once

theorem eraseReply_queues {kept rest : List PendingReply} {p : PendingReply}
    (h : Queues new fresh { s with pendingReplies := kept ++ p :: rest }) :
    Queues new fresh { s with
      pendingReplies := kept ++ rest
      pendingReplyBytes := s.pendingReplyBytes - p.reply.data.size
      wrapped := s.wrapped || s.pendingReplyBytes < p.reply.data.size } := by
  have hr : Charged maxPackets maxBytes.toNat
      (replySizes kept ++ p.reply.data.bytes.length :: replySizes rest)
      s.pendingReplyBytes := by
    simpa [replySizes] using h.replies
  have hwrapped : s.wrapped = false := h.unwrapped
  obtain ⟨hcharged, hle⟩ := Charged.erase hr
  refine ⟨h.datagrams, ?_, ?_, h.numbered, h.servedNumbered, h.order, ?_⟩
  · simpa [replySizes, Payload.size] using hcharged
  · simp only [hwrapped, Bool.false_or, decide_eq_false_iff_not]
    exact hle
  · refine List.Subperm.trans (List.Sublist.subperm ?_) h.once
    simp

theorem sendReply_queues {kept rest : List PendingReply} {p : PendingReply}
    (h : Queues new fresh { s with pendingReplies := kept ++ p :: rest }) :
    Queues new fresh { s with
      pendingReplies := kept ++ rest
      pendingReplyBytes := s.pendingReplyBytes - p.reply.data.size
      wrapped := s.wrapped || s.pendingReplyBytes < p.reply.data.size
      delivered := s.delivered ++ [p.reply] } := by
  have he := eraseReply_queues h
  refine ⟨he.datagrams, he.replies, he.unwrapped, he.numbered,
    he.servedNumbered, he.order, ?_⟩
  -- The sent reply moves from the queue to the end of those delivered.
  have hperm : ((s.delivered ++ [p.reply]) ++
        (kept ++ rest).map PendingReply.reply ++ fresh).Perm
      (s.delivered ++ (kept ++ p :: rest).map PendingReply.reply ++ fresh) := by
    simp only [List.map_append, List.map_cons, List.append_assoc,
      List.nil_append, List.cons_append]
    exact List.Perm.append_left _ List.perm_middle.symm
  exact hperm.subperm.trans h.once

theorem flushLoop_queues (now : UInt32) (only : Option Nat)
    (q : List PendingReply) :
    ∀ {kept : List PendingReply} {s : UdpUpstream},
      Queues new fresh { s with pendingReplies := kept ++ q } →
      Queues new fresh (flushLoop env now only kept q s) := by
  induction q with
  | nil =>
    intro kept s h
    simpa [flushLoop] using h
  | cons p rest ih =>
    intro kept s h
    have passOver : Queues new fresh { s with
        pendingReplies := (kept ++ [p]) ++ rest } := by
      simpa using h
    simp only [flushLoop]
    split
    · exact ih (eraseReply_queues h)
    · split
      · exact ih passOver
      · split
        · exact ih (passOver.frame rfl)
        · exact ih ((sendReply_queues h).frame rfl)

theorem flushPendingReplies_queues (only : Option Nat)
    (h : Queues new fresh s) :
    Queues new fresh (s.flushPendingReplies env only) :=
  flushLoop_queues _ only s.pendingReplies (h.frame rfl)

theorem closeTask_queues (cause : CloseCause) (h : Queues new fresh s) :
    Queues new fresh (s.closeTask cause) := by
  refine ⟨h.datagrams, Charged.empty, h.unwrapped, h.numbered,
    h.servedNumbered, h.order, ?_⟩
  refine List.Subperm.trans (List.Sublist.subperm ?_) h.once
  simp [closeTask, setState]

theorem endTask_queues (h : Queues new fresh s) : Queues new fresh s.endTask := by
  refine ⟨Charged.empty, Charged.empty, h.unwrapped, h.numbered,
    h.servedNumbered, ?_, ?_⟩
  · refine List.Sublist.trans ?_ h.order
    simp [endTask, setState]
  · refine List.Subperm.trans (List.Sublist.subperm ?_) h.once
    simp [endTask, setState]

theorem createServerPeer_queues (h : Queues new fresh s) :
    Queues new fresh (s.createServerPeer env).2 := by
  have hnew : Queues new fresh { s.access with
      peers := s.peers + 1, marks := s.marks ++ [.created] } := h.frame rfl
  have published : ∀ {t : UdpUpstream}, Queues new fresh t →
      ∀ b, Queues new fresh (if t.noProxy then
        (none, { ({ t with server := some t.peers, serverOpen := b }
          : UdpUpstream).setState .ready with
            serverReconnectDelay := 250, lastServerError := 0 })
      else ((none : Option Int), ({ t with
        server := some t.peers, serverOpen := b } : UdpUpstream).setState
          .associating)).2 := by
    intro t ht b
    split
    · exact ht.frame rfl
    · exact ht.frame rfl
  unfold createServerPeer
  simp only
  cases (env.connect s.accesses).closed with
  | none =>
    split
    · exact hnew
    · exact published hnew _
  | some e =>
    split
    · exact closeTask_queues .serverFailed hnew
    · exact published (closeTask_queues .serverFailed hnew) _

theorem scheduleServerReconnect_queues (errorCode : Int)
    (h : Queues new fresh s) :
    Queues new fresh (s.scheduleServerReconnect env errorCode) := by
  unfold scheduleServerReconnect
  split
  · exact h
  · simp only
    split
    · exact h.frame rfl
    · exact h.frame rfl

theorem reportFailure_queues (errorCode : Int) (h : Queues new fresh s) :
    Queues new fresh (s.reportFailure env errorCode) := by
  unfold reportFailure
  split
  · exact closeTask_queues _ (access_queues h)
  · have hs : Queues new fresh (s.access.scheduleServerReconnect env
        errorCode) := scheduleServerReconnect_queues errorCode (access_queues h)
    refine hs.frame ?_
    simp only [queueView, access]
  · exact scheduleServerReconnect_queues errorCode (access_queues h)

theorem drain_queues (now : UInt32) (q : List PendingDatagram) :
    ∀ {s : UdpUpstream}, s.pending = q → Queues new fresh s →
      Queues new fresh (drain env now q s) := by
  induction q with
  | nil => intro s _ h; exact h
  | cons p rest ih =>
    intro s hs h
    simp only [drain]
    split
    · exact ih (pending_popPending hs) (popPending_queues h)
    · split
      · split
        · exact scheduleServerReconnect_queues _ (access_queues h)
        · exact access_queues h
      · exact ih (pending_popPending hs) (acceptPending_queues hs h)

theorem sendPending_queues (now : UInt32) (h : Queues new fresh s) :
    Queues new fresh (s.sendPending env now) := by
  unfold sendPending
  split
  · exact h
  · exact flushPendingReplies_queues none (drain_queues now _ rfl h)

theorem reconnect_queues (now : UInt32) (h : Queues new fresh s) :
    Queues new fresh (s.reconnect env now) := by
  have hc : Queues new fresh (({ s with
      server := none, serverOpen := false } : UdpUpstream).createServerPeer
        env).2 := createServerPeer_queues (h.frame rfl)
  unfold reconnect
  split
  · rename_i heq
    rw [heq] at hc
    exact sendPending_queues now hc
  · rename_i heq
    rw [heq] at hc
    split
    · exact closeTask_queues _ (access_queues hc)
    · exact hc.frame rfl
    · exact hc.frame rfl

theorem onServerWritable_queues (h : Queues new fresh s) :
    Queues new fresh (s.onServerWritable env) := by
  have hf : Queues new fresh ((s.access.expirePendingDatagrams
      (env.tick s.accesses)).flushPendingReplies env none) :=
    flushPendingReplies_queues none (expirePending_queues _ _ (access_queues h))
  unfold onServerWritable
  split
  · exact h
  · simp only
    split
    · split
      · exact reconnect_queues _ hf
      · exact hf
    · exact sendPending_queues _ hf

theorem enterServerDormant_queues (h : Queues new fresh s) :
    Queues new fresh s.enterServerDormant := by
  unfold enterServerDormant
  split
  · exact h
  · exact h.frame rfl

theorem onMaintenanceTimer_queues (h : Queues new fresh s) :
    Queues new fresh (s.onMaintenanceTimer env) := by
  have hf : Queues new fresh ((s.access.expirePendingDatagrams
      (env.tick s.accesses)).flushPendingReplies env none) :=
    flushPendingReplies_queues none (expirePending_queues _ _ (access_queues h))
  unfold onMaintenanceTimer
  split
  · exact h
  · simp only
    split
    · exact hf
    · split
      · exact enterServerDormant_queues hf
      · exact onServerWritable_queues hf

theorem wakeServerAssociation_queues (h : Queues new fresh s) :
    Queues new fresh (s.wakeServerAssociation env) := by
  have hc : Queues new fresh (({ s.setState .associating with
      serverReconnectDelay := 250 } : UdpUpstream).createServerPeer env).2 :=
    createServerPeer_queues (h.frame rfl)
  unfold wakeServerAssociation
  split
  · exact h
  · split
    · rename_i heq
      rw [heq] at hc
      exact reportFailure_queues _ hc
    · rename_i heq
      rw [heq] at hc
      split
      · exact onServerWritable_queues hc
      · exact hc

theorem forward_queues {d : Datagram} (h : Queues [d] fresh s) :
    Queues [] fresh (s.forward env d).2 := by
  unfold forward
  split
  · have hq : Queues [] fresh (s.queueDatagram env d).2 :=
      queueDatagram_queues h
    split
    · rename_i heq
      rw [heq] at hq
      exact wakeServerAssociation_queues hq
    · rename_i heq
      rw [heq] at hq
      exact hq
  · split
    · rename_i hdirect
      split
      · -- Nothing waits, so the datagram follows those already accepted.
        refine ⟨h.datagrams, h.replies, h.unwrapped, h.numbered,
          h.servedNumbered, ?_, h.once⟩
        have ho := h.order
        rw [hdirect.2.2.2] at ho
        simpa [access, hdirect.2.2.2] using ho
      · split
        · exact queueDatagram_queues
            (scheduleServerReconnect_queues _ (access_queues h))
        · exact queueDatagram_queues (access_queues h)
    · exact queueDatagram_queues h

theorem forwardUpstreamDatagram_queues (target : CSAddrInfo) (data : Payload)
    (h : Queues [] fresh s) :
    Queues [] fresh (s.forwardUpstreamDatagram env target data).2 := by
  apply forward_queues
  refine ⟨h.datagrams, h.replies, h.unwrapped, ?_, h.servedNumbered, ?_, h.once⟩
  · simp [h.numbered, List.range_succ]
  · have ho := h.order
    rw [List.append_nil] at ho
    exact ho.append (List.Sublist.refl _)

theorem deliverServerDatagram_queues (id : Nat) (data : Payload)
    (h : Queues new [] s) :
    Queues new [] (s.deliverServerDatagram env id data).2 := by
  unfold deliverServerDatagram
  split
  · exact h
  · rename_i it _
    have hr : Queues new
        [⟨s.served.length, id, UdpProxyTask.applicationOf it.route, data⟩]
        { s with served := s.served ++
          [⟨s.served.length, id, UdpProxyTask.applicationOf it.route, data⟩] } := by
      refine ⟨h.datagrams, h.replies, h.unwrapped, h.numbered, ?_, h.order, ?_⟩
      · simp [h.servedNumbered, List.range_succ]
      · have ho := h.once
        rw [List.append_nil] at ho
        exact ho.append (List.Subperm.refl _)
    simp only
    split
    · refine ⟨hr.datagrams, hr.replies, hr.unwrapped, hr.numbered,
        hr.servedNumbered, hr.order, ?_⟩
      -- The reply passes those waiting in the queue.
      refine List.Subperm.trans (List.Perm.subperm ?_) hr.once
      simp only [access, List.append_assoc, List.append_nil]
      exact List.Perm.append_left _ List.perm_append_comm
    · exact queueReply_queues (access_queues hr)

theorem pumpClient_queues (id : Nat) (datagrams : List Payload) :
    ∀ {s : UdpUpstream}, Queues new [] s →
      Queues new [] (pumpClient env id datagrams s) := by
  induction datagrams with
  | nil => intro s h; exact h
  | cons data rest ih =>
    intro s h
    have hd : Queues new [] (s.deliverServerDatagram env id data).2 :=
      deliverServerDatagram_queues id data h
    simp only [pumpClient]
    split
    · rename_i heq
      rw [heq] at hd
      exact hd
    · rename_i heq
      rw [heq] at hd
      exact ih (hd.frame rfl)

theorem pumpServer_queues (target : CSAddrInfo) (datagrams : List Payload) :
    ∀ {s : UdpUpstream}, Queues [] fresh s →
      Queues [] fresh (pumpServer env target datagrams s) := by
  induction datagrams with
  | nil => intro s h; exact h
  | cons data rest ih =>
    intro s h
    have hd : Queues [] fresh (s.forwardUpstreamDatagram env target data).2 :=
      forwardUpstreamDatagram_queues target data h
    simp only [pumpServer]
    split
    · rename_i heq
      rw [heq] at hd
      exact hd
    · rename_i heq
      rw [heq] at hd
      exact ih (hd.frame rfl)

theorem pumpQuic_queues (id : Nat) (target : CSAddrInfo) (pump : QuicPump)
    (h : Queues [] [] s) : Queues [] [] (s.pumpQuic env id target pump) :=
  pumpServer_queues target _ (pumpClient_queues id _ h)

theorem forwardClientDatagram_queues (id : Nat) (first : QuicPump)
    (course : ClientCourse) (target : CSAddrInfo) (application : SockAddr)
    (data : Payload) (h : Queues [] [] s) :
    Queues [] [] (s.forwardClientDatagram env id first course target application
      data) := by
  have hf : Queues [] [] ((({ s.access with
      lastActivity := env.tick s.accesses } : UdpUpstream).setApplication id
        application).pumpQuic env id target first) :=
    pumpQuic_queues id target first (h.frame rfl)
  unfold forwardClientDatagram
  cases course with
  | plain => exact forwardUpstreamDatagram_queues target data hf
  | retired => exact hf
  | opened pump => exact pumpQuic_queues id target pump hf
  | bridged pump retained =>
    simp only
    split
    · exact pumpQuic_queues id target pump hf
    · exact forwardUpstreamDatagram_queues target data
        (pumpQuic_queues id target pump hf)

private theorem forwardServerDatagram_queues (id : Nat) (course : ServerCourse)
    (target : CSAddrInfo) (data : Payload) (h : Queues [] [] s) :
    Queues [] [] (s.forwardServerDatagram env id course target data) := by
  have hf : Queues [] [] { s.access with
      lastActivity := env.tick s.accesses } := h.frame rfl
  unfold forwardServerDatagram
  cases course with
  | plain => exact deliverServerDatagram_queues id data hf
  | retired => exact hf
  | bridged pump => exact pumpQuic_queues id target pump hf

theorem step_queues (e : Event) (h : Queues [] [] s) :
    Queues [] [] (s.step env e) := by
  cases e with
  | addRoute route => exact h.frame rfl
  | clientDatagram id first course target application data =>
    exact forwardClientDatagram_queues id first course target application data h
  | serverDatagram id course target data =>
    exact forwardServerDatagram_queues id course target data h
  | serverWritable => exact onServerWritable_queues h
  | routeWritable id target pump =>
    exact pumpQuic_queues id target pump (flushPendingReplies_queues _ h)
  | timer => exact onMaintenanceTimer_queues h
  | serverReady =>
    simp only [step, onServerReady]
    split
    · exact h
    · exact onServerWritable_queues (h.frame rfl)
  | serverClosed errorCode =>
    simp only [step, onServerClosed]
    split
    · exact h
    · split
      · exact h.frame rfl
      · exact reportFailure_queues errorCode (h.frame rfl)
  | routeClosed => exact closeTask_queues _ h
  | closeTask => exact closeTask_queues _ h
  | endTask => exact endTask_queues h

theorem run_queues (es : List Event) :
    ∀ {s : UdpUpstream}, Queues [] [] s → Queues [] [] (s.run env es) := by
  induction es with
  | nil => intro s h; exact h
  | cons e es ih => intro s h; exact ih (step_queues e h)

/-- The calls are numbered in order, so a subsequence of them takes each at
most once; so does a part of the replies. -/
theorem queues_sound (env : UdpEnv) (noProxy : Bool) (es : List Event) :
    let s := (start noProxy).run env es
    s.pendingBytes.toNat = (sizes s.pending).sum ∧
    s.pendingReplyBytes.toNat = (replySizes s.pendingReplies).sum ∧
    s.wrapped = false ∧
    s.pending.length ≤ 128 ∧ (sizes s.pending).sum ≤ 1024 * 1024 ∧
    s.pendingReplies.length ≤ 128 ∧
    (replySizes s.pendingReplies).sum ≤ 1024 * 1024 ∧
    s.passed.map Datagram.serial = List.range s.passed.length ∧
    s.accepted.Sublist s.passed ∧ (s.accepted.map Datagram.serial).Nodup ∧
    s.served.map Reply.serial = List.range s.served.length ∧
    (∀ r ∈ s.delivered, r ∈ s.served) ∧
    (s.delivered.map Reply.serial).Nodup := by
  intro s
  have h : Queues [] [] s := run_queues es (start_queues noProxy)
  have haccepted : s.accepted.Sublist s.passed := by
    refine List.Sublist.trans ?_ h.order
    simp
  have hdelivered : s.delivered.Subperm s.served := by
    refine List.Subperm.trans (List.Sublist.subperm ?_) h.once
    simp
  have hserials : (s.delivered.map Reply.serial).Nodup := by
    obtain ⟨replies, hperm, hsub⟩ := hdelivered
    have hnodup : (replies.map Reply.serial).Nodup := by
      refine (hsub.map _).nodup ?_
      rw [h.servedNumbered]
      exact List.nodup_range
    exact (hperm.map _).nodup_iff.1 hnodup
  refine ⟨h.datagrams.sum, h.replies.sum, h.unwrapped, ?_, h.datagrams.bound,
    ?_, h.replies.bound, h.numbered, haccepted, ?_, h.servedNumbered,
    fun r hr => hdelivered.subset hr, hserials⟩
  · simpa [sizes, maxPackets] using h.datagrams.count
  · simpa [replySizes, maxPackets] using h.replies.count
  · refine (haccepted.map _).nodup ?_
    rw [h.numbered]
    exact List.nodup_range

end UdpUpstream

end ProxyLane.Hook
