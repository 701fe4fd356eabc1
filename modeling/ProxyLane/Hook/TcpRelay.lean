import ProxyLane.Foundation.Run
import ProxyLane.Hook.PRCTcpPeer

/-!
# A forwarded stream has no gaps

What an observer of the two sockets sees is the trace of a run.  As long as no
send fails for good while bytes are waiting, each side's bytes reach the other
in order and complete, and an end of stream is passed on only behind them.
-/

namespace ProxyLane.Hook

open ProxyLane.Foundation

/-- All bytes that `Receive` returned on a side. -/
def received (side : Side) (trace : List Action) : Bytes :=
  trace.flatMap fun
    | .received s bytes => if s = side then bytes else []
    | _ => []

/-- All bytes that `Send` accepted on a side. -/
def accepted (side : Side) (trace : List Action) : Bytes :=
  trace.flatMap fun
    | .accepted s bytes => if s = side then bytes else []
    | _ => []

/-- `Receive` returned 0 on the side and its partner took every byte. -/
def Drained (side : Side) (trace : List Action) : Prop :=
  .receivedEof side ∈ trace ∧ accepted side.other trace = received side trace

/--
At every moment the accepted bytes are an initial part of the received ones;
a half-close is passed on only behind the whole stream; and the pair is closed
without an error only when both streams have ended and are drained.
-/
structure Faithful (trace : List Action) : Prop where
  ordered : ∀ t, t <+: trace → ∀ side, accepted side.other t <+: received side t
  halfClose : ∀ t side, t ++ [.shutDown side.other] <+: trace → Drained side t
  finish : ∀ t, t ++ [.finished] <+: trace → ∀ side, Drained side t

@[simp] theorem Side.other_other (side : Side) : side.other.other = side := by
  cases side <;> rfl

@[simp] theorem Side.other_ne (side : Side) : side.other ≠ side := by
  cases side <;> decide

theorem Side.eq_or_eq_other (side s : Side) : s = side ∨ s = side.other := by
  cases side <;> cases s <;> decide

@[simp] theorem received_append (side : Side) (xs ys : List Action) :
    received side (xs ++ ys) = received side xs ++ received side ys := by
  simp [received]

@[simp] theorem accepted_append (side : Side) (xs ys : List Action) :
    accepted side (xs ++ ys) = accepted side xs ++ accepted side ys := by
  simp [accepted]

def Action.Still : Action → Prop
  | .received _ _ | .accepted _ _ => False
  | _ => True

theorem received_still {action : Action} (h : action.Still)
    (side : Side) : received side [action] = [] := by
  cases action <;> simp [received, Action.Still] at h ⊢

theorem accepted_still {action : Action} (h : action.Still)
    (side : Side) : accepted side [action] = [] := by
  cases action <;> simp [accepted, Action.Still] at h ⊢

theorem faithful_snoc {trace : List Action} {action : Action}
    (h : Faithful trace)
    (hordered : ∀ side, accepted side.other (trace ++ [action]) <+:
      received side (trace ++ [action]))
    (hhalf : ∀ side, action = .shutDown side.other → Drained side trace)
    (hfinish : action = .finished → ∀ side, Drained side trace) :
    Faithful (trace ++ [action]) where
  ordered t ht := by
    rcases List.prefix_concat_iff.1 ht with rfl | ht
    · exact hordered
    · exact h.ordered t ht
  halfClose t side ht := by
    rcases List.prefix_concat_iff.1 ht with heq | ht
    · obtain ⟨rfl, hlast⟩ := List.append_inj' heq rfl
      exact hhalf side (List.singleton_inj.1 hlast).symm
    · exact h.halfClose t side ht
  finish t ht := by
    rcases List.prefix_concat_iff.1 ht with heq | ht
    · obtain ⟨rfl, hlast⟩ := List.append_inj' heq rfl
      exact hfinish (List.singleton_inj.1 hlast).symm
    · exact h.finish t ht

namespace TcpPair

structure Link (pair : TcpPair) (side : Side) : Prop where
  bytes : received side pair.trace =
    accepted side.other pair.trace ++ (pair.peer side).pending
  bound : (pair.peer side).sentpos ≤ (pair.peer side).recvbuf.length
  eof : (pair.peer side).readClosed = true → .receivedEof side ∈ pair.trace

structure Inv (pair : TcpPair) : Prop where
  faithful : Faithful pair.trace
  link : ∀ side, pair.Link side

theorem peer_modifyPeer (pair : TcpPair) (side s : Side)
    (f : TcpPeer → TcpPeer) :
    (pair.modifyPeer side f).peer s =
      if s = side then f (pair.peer s) else pair.peer s := by
  cases side <;> cases s <;> rfl

@[simp] theorem trace_modifyPeer (pair : TcpPair) (side : Side)
    (f : TcpPeer → TcpPeer) : (pair.modifyPeer side f).trace = pair.trace := by
  cases side <;> rfl

@[simp] theorem peer_log (pair : TcpPair) (actions : List Action) (s : Side) :
    (pair.log actions).peer s = pair.peer s := by
  cases s <;> rfl

@[simp] theorem trace_log (pair : TcpPair) (actions : List Action) :
    (pair.log actions).trace = pair.trace ++ actions := rfl

theorem pending_eq_nil {peer : TcpPeer} (h : peer.getValidDataLen = 0) :
    peer.pending = [] := by
  unfold TcpPeer.getValidDataLen at h
  exact List.drop_eq_nil_of_le (by omega)

variable {pair : TcpPair} {side : Side}

theorem Link.drained (h : pair.Link side)
    (hread : (pair.peer side).readClosed = true)
    (hlen : (pair.peer side).getValidDataLen = 0) :
    Drained side pair.trace := by
  refine ⟨h.eof hread, ?_⟩
  rw [h.bytes, pending_eq_nil hlen, List.append_nil]

theorem Inv.flags (h : pair.Inv) (side : Side) {f : TcpPeer → TcpPeer}
    (hbuf : ∀ p, (f p).recvbuf = p.recvbuf) (hsent : ∀ p, (f p).sentpos = p.sentpos)
    (hread : ∀ p, (f p).readClosed = p.readClosed) :
    (pair.modifyPeer side f).Inv := by
  refine ⟨by simpa using h.faithful, fun s => ?_⟩
  have hlink := h.link s
  have hsame : ((pair.modifyPeer side f).peer s).recvbuf =
        (pair.peer s).recvbuf ∧
      ((pair.modifyPeer side f).peer s).sentpos = (pair.peer s).sentpos ∧
      ((pair.modifyPeer side f).peer s).readClosed = (pair.peer s).readClosed := by
    rw [peer_modifyPeer]
    split <;> simp [hbuf, hsent, hread]
  obtain ⟨h1, h2, h3⟩ := hsame
  constructor
  · simpa [TcpPeer.pending, h1, h2] using hlink.bytes
  · simpa [h1, h2] using hlink.bound
  · simpa [h3] using hlink.eof

/-- An action that moves no bytes may be added to the trace once what it
promises is true. -/
theorem Inv.log (h : pair.Inv) {action : Action} (hstill : action.Still)
    (hhalf : ∀ side, action = .shutDown side.other → Drained side pair.trace)
    (hfinish : action = .finished → ∀ side, Drained side pair.trace) :
    (pair.log [action]).Inv := by
  constructor
  · refine faithful_snoc h.faithful ?_ hhalf hfinish
    intro s
    simpa [received_still hstill, accepted_still hstill] using
      h.faithful.ordered _ (List.prefix_refl _) s
  · intro s
    have hlink := h.link s
    constructor
    · simpa [received_still hstill, accepted_still hstill] using hlink.bytes
    · simpa using hlink.bound
    · intro hread
      exact List.mem_append_left _ (hlink.eof (by simpa using hread))

theorem Inv.triggerEvent (h : pair.Inv) (side : Side)
    (event : FdEvent) (code : Nat) :
    (pair.triggerEvent side event code).Inv := by
  unfold TcpPair.triggerEvent
  split
  · exact h.log trivial (by simp) (by simp)
  · exact h

theorem Inv.clearBuffer (h : pair.Inv)
    (hempty : (pair.peer side).getValidDataLen = 0) :
    (pair.modifyPeer side .clearBuffer).Inv := by
  refine ⟨by simpa using h.faithful, fun s => ?_⟩
  have hlink := h.link s
  rcases eq_or_ne s side with rfl | hne
  · have hbytes := hlink.bytes
    rw [pending_eq_nil hempty] at hbytes
    constructor
    · simpa [peer_modifyPeer, TcpPeer.clearBuffer, TcpPeer.pending] using hbytes
    · simp [peer_modifyPeer, TcpPeer.clearBuffer]
    · simpa [peer_modifyPeer, TcpPeer.clearBuffer] using hlink.eof
  · constructor
    · simpa [peer_modifyPeer, hne] using hlink.bytes
    · simpa [peer_modifyPeer, hne] using hlink.bound
    · simpa [peer_modifyPeer, hne] using hlink.eof

theorem Inv.receive (h : pair.Inv) (side : Side) (bytes : Bytes) :
    ((pair.modifyPeer side fun self =>
      { self with recvbuf := self.recvbuf ++ bytes }).log
      [.received side bytes]).Inv := by
  have hrec : ∀ s, received s [.received side bytes] =
      if side = s then bytes else [] := by
    intro s
    simp [received]
  have hacc : ∀ s, accepted s [.received side bytes] = [] := by
    intro s
    simp [accepted]
  constructor
  · refine faithful_snoc (by simpa using h.faithful) ?_ (by simp) (by simp)
    intro s
    have hprefix := h.faithful.ordered _ (List.prefix_refl _) s
    simp only [trace_modifyPeer, accepted_append, received_append, hacc, hrec,
      List.append_nil]
    exact hprefix.trans (List.prefix_append _ _)
  · intro s
    have hlink := h.link s
    have hbound := hlink.bound
    rcases eq_or_ne s side with rfl | hne
    · constructor
      · simp only [trace_log, trace_modifyPeer, received_append,
          accepted_append, hrec, hacc, if_true, List.append_nil, peer_log,
          peer_modifyPeer, TcpPeer.pending]
        rw [List.drop_append_of_le_length hbound, hlink.bytes,
          List.append_assoc, TcpPeer.pending]
      · simp only [peer_log, peer_modifyPeer, if_true, List.length_append]
        omega
      · intro hread
        have hmem := hlink.eof (by simpa [peer_modifyPeer] using hread)
        simp [hmem]
    · constructor
      · simpa [hrec, hacc, hne, hne.symm, peer_modifyPeer] using hlink.bytes
      · simpa [hne, peer_modifyPeer] using hbound
      · simpa [hne, peer_modifyPeer] using hlink.eof

theorem Inv.receiveEof (h : pair.Inv) (side : Side) :
    ((pair.modifyPeer side fun self =>
      { self with connShutted := true, readClosed := true }).log
      [.receivedEof side]).Inv := by
  constructor
  · have hlog : (pair.log [.receivedEof side]).Inv :=
      h.log trivial (by simp) (by simp)
    simpa using hlog.faithful
  · intro s
    have hlink := h.link s
    rcases eq_or_ne s side with rfl | hne
    · constructor
      · simpa [received, accepted, peer_modifyPeer, TcpPeer.pending] using hlink.bytes
      · simpa [peer_modifyPeer] using hlink.bound
      · simp
    · constructor
      · simpa [received, accepted, peer_modifyPeer, hne] using hlink.bytes
      · simpa [peer_modifyPeer, hne] using hlink.bound
      · simpa [peer_modifyPeer, hne] using hlink.eof

theorem sendLoop_prefix (sends : List SendResult) (left : Bytes) :
    (sendLoop sends left).1.flatten <+: left := by
  induction sends, left using sendLoop.induct with
  | case1 => simp [sendLoop]
  | case2 => simp [sendLoop]
  | case3 => simp [sendLoop]
  | case4 => simp [sendLoop]
  | case5 n sends left _ pieces failed _ ih =>
    obtain ⟨rest, hrest⟩ := ih
    refine ⟨rest, ?_⟩
    simp only [sendLoop, List.flatten_cons, List.append_assoc, hrest]
    exact List.take_append_drop n left

theorem accepted_pieces (side s : Side) (pieces : List Bytes) :
    accepted s (pieces.map (.accepted side)) =
      if side = s then pieces.flatten else [] := by
  induction pieces with
  | nil => simp [accepted]
  | cons piece pieces ih =>
    have hcons : accepted s (Action.accepted side piece ::
        pieces.map (.accepted side)) =
        (if side = s then piece else []) ++
          accepted s (pieces.map (.accepted side)) := rfl
    rw [List.map_cons, hcons, ih]
    split <;> simp

@[simp] theorem received_pieces (side s : Side) (pieces : List Bytes) :
    received s (pieces.map (.accepted side)) = [] := by
  induction pieces with
  | nil => rfl
  | cons piece pieces ih => exact ih

theorem faithful_pieces {trace : List Action} {left : Bytes}
    {pieces : List Bytes} (h : Faithful trace)
    (hbytes : received side trace = accepted side.other trace ++ left)
    (hpieces : pieces.flatten <+: left) :
    Faithful (trace ++ pieces.map (.accepted side.other)) := by
  induction pieces generalizing trace left with
  | nil => simpa using h
  | cons piece pieces ih =>
    obtain ⟨rest, rfl⟩ := hpieces
    rw [List.map_cons, List.append_cons]
    have hbytes' : received side (trace ++ [.accepted side.other piece]) =
        accepted side.other (trace ++ [.accepted side.other piece]) ++
          (pieces.flatten ++ rest) := by
      simp [received, accepted] at hbytes ⊢
      exact hbytes
    refine ih (faithful_snoc h ?_ (by simp) (by simp)) hbytes'
      (List.prefix_append _ _)
    intro s
    rcases Side.eq_or_eq_other side s with rfl | rfl
    · exact ⟨_, hbytes'.symm⟩
    · simpa [received, accepted] using h.ordered _ (List.prefix_refl _) side.other

theorem Inv.transferSend (h : pair.Inv) (side : Side)
    (sends : List SendResult) : (pair.transferSend side sends).2.Inv := by
  obtain ⟨rest, hrest⟩ := sendLoop_prefix sends (pair.peer side).pending
  have hlink := h.link side
  unfold TcpPair.transferSend
  dsimp only
  generalize sendLoop sends (pair.peer side).pending = out at hrest ⊢
  obtain ⟨pieces, failed⟩ := out
  dsimp only at hrest ⊢
  have hbytes : received side pair.trace =
      accepted side.other pair.trace ++ (pieces.flatten ++ rest) := by
    rw [hrest]
    exact hlink.bytes
  have hlength : (pair.peer side).pending.length =
      pieces.flatten.length + rest.length := by
    rw [← hrest, List.length_append]
  constructor
  · simp only [trace_log, trace_modifyPeer]
    exact faithful_pieces h.faithful hbytes (List.prefix_append _ _)
  · intro s
    rcases Side.eq_or_eq_other side s with rfl | rfl
    · constructor
      · simp only [trace_log, trace_modifyPeer, received_append,
          accepted_append, received_pieces, accepted_pieces, if_true,
          List.append_nil, peer_log, peer_modifyPeer, hbytes,
          List.append_assoc]
        congr 2
        split
        case isTrue =>
          simp only [TcpPeer.pending] at hrest ⊢
          rw [← List.drop_drop, ← hrest, List.drop_left]
        case isFalse hall =>
          have hnil : rest = [] := List.length_eq_zero_iff.1 (by omega)
          simp [TcpPeer.pending, hnil]
      · simp only [peer_log, peer_modifyPeer, if_true]
        split
        case isTrue hlt =>
          simp only [TcpPeer.pending, List.length_drop] at hlength hlt ⊢
          omega
        case isFalse => simp
      · intro hread
        have hmem := hlink.eof (by
          revert hread
          simp only [peer_log, peer_modifyPeer, if_true]
          split <;> simp)
        simp [hmem]
    · have hother := h.link side.other
      constructor
      · simpa [peer_modifyPeer, accepted_pieces] using hother.bytes
      · simpa [peer_modifyPeer] using hother.bound
      · simpa [peer_modifyPeer] using hother.eof

variable {sends : List SendResult}

theorem transferSend_all {nSent : Nat} {pair' : TcpPair}
    (h : pair.transferSend side sends = (some nSent, pair'))
    (hall : (pair.peer side).getValidDataLen ≤ nSent) :
    (pair'.peer side).recvbuf = [] := by
  unfold TcpPair.transferSend at h
  dsimp only at h
  generalize sendLoop sends (pair.peer side).pending = out at h
  obtain ⟨pieces, failed⟩ := out
  simp only [Prod.mk.injEq] at h
  obtain ⟨hsent, rfl⟩ := h
  split at hsent
  · simp at hsent
  · have hlength : nSent = pieces.flatten.length := by simpa using hsent.symm
    have hnot : ¬ pieces.flatten.length < (pair.peer side).pending.length := by
      simp only [TcpPeer.pending, TcpPeer.getValidDataLen, List.length_drop] at hall ⊢
      omega
    simp only [peer_log, peer_modifyPeer, if_true, if_neg hnot]

@[simp] theorem transferSend_other (pair : TcpPair) (side : Side)
    (sends : List SendResult) :
    (pair.transferSend side sends).2.peer side.other = pair.peer side.other := by
  simp [TcpPair.transferSend, peer_modifyPeer]

private theorem sendLoop_ok (h : ∀ code, .error code ∉ sends) (left : Bytes) :
    (sendLoop sends left).2 = false := by
  induction sends, left using sendLoop.induct with
  | case1 => simp [sendLoop]
  | case2 => simp [sendLoop]
  | case3 => simp [sendLoop]
  | case4 code => exact absurd List.mem_cons_self (h code)
  | case5 n sends left _ pieces failed _ ih =>
    simp only [sendLoop]
    exact ih fun code hcode => h code (List.mem_cons_of_mem _ hcode)

theorem transferSend_ok
    (h : ∀ code, .error code ∉ sends) (pair : TcpPair) (side : Side) :
    (pair.transferSend side sends).1 ≠ none := by
  simp [TcpPair.transferSend, sendLoop_ok h]

theorem Inv.propagateHalfClose (h : pair.Inv) (side : Side)
    (pendingBytes : Bool) : (pair.propagateHalfClose side pendingBytes).Inv := by
  unfold TcpPair.propagateHalfClose
  dsimp only
  split
  case isTrue => exact h
  case isFalse hguard =>
    split
    case isTrue => exact h.triggerEvent side .read 0
    case isFalse =>
      simp only [Bool.or_eq_true, not_or, Bool.not_eq_true,
        Bool.not_eq_false', bne_eq_false_iff_eq] at hguard
      obtain ⟨⟨⟨⟨hread, hlen⟩, -⟩, -⟩, -⟩ := hguard
      apply Inv.log
      · exact h.flags side.other (fun _ => rfl) (fun _ => rfl) (fun _ => rfl)
      · trivial
      · intro s hs
        obtain rfl : side = s := by
          cases side <;> cases s <;> simp_all [Side.other]
        simpa using (h.link side).drained hread hlen
      · simp

theorem Inv.tryFinishConnection (h : pair.Inv)
    (side : Side) : (pair.tryFinishConnection side).Inv := by
  unfold TcpPair.tryFinishConnection
  dsimp only
  split
  case isTrue => exact h
  case isFalse hguard =>
    simp only [Bool.or_eq_true, not_or, Bool.not_eq_true,
      Bool.not_eq_false', bne_eq_false_iff_eq] at hguard
    obtain ⟨⟨⟨⟨-, hread⟩, hread'⟩, hlen⟩, hlen'⟩ := hguard
    have hself := (h.link side).drained hread hlen
    have hpartner := (h.link side.other).drained hread' hlen'
    apply Inv.log
    · refine Inv.flags ?_ side.other (fun _ => rfl) (fun _ => rfl)
        (fun _ => rfl)
      exact h.flags side (fun _ => rfl) (fun _ => rfl) (fun _ => rfl)
    · trivial
    · simp
    · intro _ s
      rcases Side.eq_or_eq_other side s with rfl | rfl
      · simpa using hself
      · simpa using hpartner

/-- No `Send` of the list fails for good. -/
def SendsOk (sends : List SendResult) : Prop := ∀ code, .error code ∉ sends

theorem receiveLoop_spec {rounds : List ReceiveRound}
    (hok : ∀ round ∈ rounds, SendsOk round.sends) (nRecvd : Nat) (h : pair.Inv)
    (hempty : (pair.peer side).recvbuf = []) :
    (receiveLoop side rounds nRecvd pair).2.Inv ∧
      ∀ code, (receiveLoop side rounds nRecvd pair).1 = .failed code →
        ((receiveLoop side rounds nRecvd pair).2.peer side).getValidDataLen = 0 := by
  induction rounds generalizing nRecvd pair with
  | nil => exact ⟨h, by simp [receiveLoop]⟩
  | cons round rounds ih =>
    have hlen0 : (pair.peer side).getValidDataLen = 0 := by
      simp [TcpPeer.getValidDataLen, hempty]
    have hsends := hok round List.mem_cons_self
    have hrounds := fun r hr => hok r (List.mem_cons_of_mem _ hr)
    unfold receiveLoop
    dsimp only
    split
    case isFalse => exact ⟨h, by simp⟩
    case isTrue =>
      split
      case h_1 => exact ⟨h, by simp⟩
      case h_2 => exact ⟨h, fun _ _ => hlen0⟩
      case h_3 bytes hdata =>
        generalize bytes.take _ = chunk
        split
        case isTrue => exact ⟨h.receiveEof side, by simp⟩
        case isFalse =>
          have hrecv := h.receive side chunk
          generalize hpair : ((pair.modifyPeer side fun self =>
            { self with recvbuf := self.recvbuf ++ chunk }).log
            [.received side chunk]) = mid at hrecv ⊢
          have hinv := hrecv.transferSend side round.sends
          cases hsend : mid.transferSend side round.sends with
          | mk result next =>
          have hresult := transferSend_ok hsends mid side
          rw [hsend] at hinv hresult
          cases result with
          | none => exact absurd rfl hresult
          | some nSent =>
            dsimp only
            split
            case isTrue => exact ⟨hinv, by simp⟩
            case isFalse hall =>
              have hdone := transferSend_all hsend (by
                unfold TcpPeer.getValidDataLen
                omega)
              split
              case isTrue =>
                exact ⟨hinv, fun _ _ => by
                  simp [TcpPeer.getValidDataLen, hdone]⟩
              case isFalse =>
                split
                case isTrue => exact ⟨hinv, by simp⟩
                case isFalse =>
                  exact ih hrounds _ hinv hdone

theorem Inv.wind (h : pair.Inv) (side : Side) (pendingBytes : Bool) :
    ((pair.propagateHalfClose side pendingBytes).tryFinishConnection side).Inv :=
  (h.propagateHalfClose side pendingBytes).tryFinishConnection side

theorem Inv.onReceive (h : pair.Inv) (side : Side) (nErrorCode : Nat)
    {rounds : List ReceiveRound} (hok : ∀ round ∈ rounds, SendsOk round.sends)
    (more : Int) (pendingBytes : Bool) :
    (pair.onReceive side nErrorCode rounds more pendingBytes).Inv := by
  unfold TcpPair.onReceive
  split
  case isTrue => exact h
  split
  case isTrue => exact h
  case isFalse hlength =>
    have hempty : (pair.peer side).recvbuf = [] :=
      List.length_eq_zero_iff.1 (by omega)
    obtain ⟨hinv, hfailed⟩ := receiveLoop_spec hok 0 h hempty
    cases hloop : receiveLoop side rounds 0 pair with
    | mk result next =>
    rw [hloop] at hinv hfailed
    cases result with
    | failed code =>
      exact (hinv.clearBuffer (hfailed code rfl)).triggerEvent side .close code
    | ok nRecvd =>
      refine Inv.wind ?_ side pendingBytes
      split
      · exact hinv.triggerEvent side .read 0
      · exact hinv

theorem Inv.onSend (h : pair.Inv) (side : Side) (nErrorCode : Nat)
    (hok : SendsOk sends) {readable : Int}
    (hselect : readable < 0 → (pair.peer side).getValidDataLen = 0)
    (hasPendingRead pendingBytes : Bool) :
    (pair.onSend side nErrorCode sends readable hasPendingRead pendingBytes).Inv := by
  unfold TcpPair.onSend
  dsimp only
  split
  case isTrue => exact h
  split
  case isFalse => exact h.wind side.other pendingBytes
  case isTrue =>
    have hinv := h.transferSend side.other sends
    have hresult := transferSend_ok hok pair side.other
    have hself := transferSend_other pair side.other sends
    rw [Side.other_other] at hself
    cases hsend : pair.transferSend side.other sends with
    | mk result next =>
    rw [hsend] at hinv hresult hself
    cases result with
    | none => exact absurd rfl hresult
    | some nSent =>
      dsimp only
      split
      case isTrue => exact hinv.wind side.other pendingBytes
      case isFalse hall =>
        have hdone := transferSend_all hsend (by omega)
        split
        case isTrue hneg =>
          -- Both buffers are cleared, but neither holds anything.
          refine Inv.wind (Inv.triggerEvent (Inv.clearBuffer
            (hinv.clearBuffer ?_) ?_) side .close 0) side.other pendingBytes
          · rw [show next.peer side = pair.peer side from hself]
            exact hselect hneg
          · simp [peer_modifyPeer, TcpPeer.getValidDataLen, hdone]
        case isFalse =>
          split
          · exact (hinv.triggerEvent side.other .read 0).wind side.other
              pendingBytes
          · exact hinv.wind side.other pendingBytes

theorem Inv.onClose (h : pair.Inv) (side : Side)
    (nErrorCode : Nat) (pendingBytes : Bool) :
    (pair.onClose side nErrorCode pendingBytes).Inv := by
  have hshut : (pair.modifyPeer side fun self =>
      { self with connShutted := true }).Inv :=
    h.flags side (fun _ => rfl) (fun _ => rfl) (fun _ => rfl)
  unfold TcpPair.onClose
  dsimp only
  split
  case isTrue =>
    split
    · exact hshut
    · split
      · exact hshut.wind side pendingBytes
      · exact hshut.triggerEvent side .read 0
  case isFalse =>
    apply Inv.log
    · refine Inv.flags ?_ side.other (fun _ => rfl) (fun _ => rfl)
        (fun _ => rfl)
      exact hshut.flags side (fun _ => rfl) (fun _ => rfl) (fun _ => rfl)
    · trivial
    · simp
    · simp

theorem Inv.onConnect (h : pair.Inv) (side : Side)
    (nErrorCode : Nat) (writable readable : Int) (pendingBytes : Bool) :
    (pair.onConnect side nErrorCode writable readable pendingBytes).Inv := by
  have hpost : ∀ {p : Prop} [Decidable p] {q : TcpPair}, q.Inv →
      ∀ s event, (if p then q.triggerEvent s event 0 else q).Inv := by
    intro p _ q hq s event
    split
    · exact hq.triggerEvent s event 0
    · exact hq
  unfold TcpPair.onConnect
  dsimp only
  split
  case isTrue => exact h.onClose side nErrorCode pendingBytes
  case isFalse =>
    refine Inv.propagateHalfClose ?_ side.other pendingBytes
    refine hpost (hpost (hpost ?_ _ _) _ _) _ _
    exact h.flags side (fun _ => rfl) (fun _ => rfl) (fun _ => rfl)

/--
No `Send` of the event fails for good, and a failing `select` in `OnSend`
meets no bytes waiting on the side it is called for.
-/
def Sound (pair : TcpPair) : TcpEvent → Prop
  | .onReceive _ _ rounds _ _ => ∀ round ∈ rounds, SendsOk round.sends
  | .onSend side _ sends readable _ _ =>
    SendsOk sends ∧ (readable < 0 → (pair.peer side).getValidDataLen = 0)
  | _ => True

theorem Inv.step (h : pair.Inv) {event : TcpEvent}
    (hsound : pair.Sound event) : (pair.step event).Inv := by
  unfold TcpPair.step
  split
  case isFalse => exact h
  case isTrue =>
    cases event with
    | onConnect side code writable readable pendingBytes =>
      exact h.onConnect side code writable readable pendingBytes
    | onReceive side code rounds more pendingBytes =>
      exact h.onReceive side code hsound more pendingBytes
    | onSend side code sends readable hasPendingRead pendingBytes =>
      exact h.onSend side code hsound.1 hsound.2 hasPendingRead pendingBytes
    | onClose side code pendingBytes => exact h.onClose side code pendingBytes

theorem inv_start : start.Inv where
  faithful := by
    constructor
    · intro t ht side
      simp [List.prefix_nil.1 ht, accepted]
    · intro t side ht
      simp [start] at ht
    · intro t ht
      simp [start] at ht
  link side := by cases side <;> constructor <;> decide

end TcpPair

theorem relay_faithful (events : List TcpEvent)
    (hsound : Admissible TcpPair.step TcpPair.Sound .start events) :
    Faithful (run TcpPair.step .start events).trace :=
  (run_invariant (fun _ _ hs hok => hs.step hok) TcpPair.inv_start hsound).faithful

def shortRequest : List TcpEvent :=
  [.onConnect .server 0 0 0 false,
    .onReceive .client 0 [⟨.data [1, 2], [.accepted 1, .wouldBlock], 0⟩] 0 false,
    .onSend .server 0 [.accepted 5] 1 false false,
    .onReceive .client 0 [⟨.data [], [], 0⟩] 0 false]

theorem relay_faithful_shortRequest :
    Action.shutDown .server ∈ (run TcpPair.step .start shortRequest).trace ∧
      Faithful (run TcpPair.step .start shortRequest).trace :=
  ⟨by decide, relay_faithful _
    (by simp [shortRequest, Admissible, TcpPair.Sound, TcpPair.SendsOk])⟩

def failedSend : List TcpEvent :=
  [.onConnect .server 0 0 0 false,
    .onReceive .client 0 [⟨.data [1, 2], [.error 10055], 0⟩] 0 false,
    .onClose .client 0 false,
    .onReceive .client 0 [⟨.data [3], [.accepted 1], 0⟩] 0 false]

theorem failed_send_leaves_gap :
    ¬ ∀ events : List TcpEvent, Faithful (run TcpPair.step .start events).trace := by
  intro h
  have hordered := (h failedSend).ordered _ (List.prefix_refl _) .client
  revert hordered
  decide

end ProxyLane.Hook
