import ProxyLane.Hook.ProxyReplies

/-!
# The handshake and the segments of the stream

However the bytes of the proxy arrive and are read, the handshake comes to the
same, and the user receives the same bytes after it; unless a read goes beyond
the end of an HTTP header and the limit of its buffer at once, the status has to
be looked for behind the header, or a reply overtakes the request before.
-/

namespace ProxyLane.Hook

open ProxyLane.Foundation

namespace ProxyHandshake

variable {cfg : Config} {op : Op} {p start : Progress} {s : Layer} {env : Env}
  {sends : List SendAnswer}

/-! ## Requests -/

def calm (sends : List SendAnswer) : Bool :=
  sends.all fun
    | .sent count => count != 0
    | .wouldBlock => true
    | .failed _ => false

theorem flushProxyRequest_calm (h : calm sends = true) (s : Layer) :
    ∃ buffer pos sent, flushProxyRequest sends s =
        (none, { s with
          sendBuffer := buffer, sendBufferPos := pos, sent := sent }) ∧
      sent ++ (buffer.getD []).drop pos = s.sent ++ pendingRequest s := by
  induction sends generalizing s with
  | nil =>
    simp only [flushProxyRequest]
    split
    · rename_i hnone
      refine ⟨none, 0, s.sent, rfl, ?_⟩
      simp [hnone]
    · exact ⟨s.sendBuffer, s.sendBufferPos, s.sent, rfl, rfl⟩
  | cons answer rest ih =>
    simp only [calm, List.all_cons, Bool.and_eq_true] at h
    simp only [flushProxyRequest]
    split
    · rename_i hnone
      refine ⟨none, 0, s.sent, rfl, ?_⟩
      simp [hnone]
    · cases answer with
      | wouldBlock => exact ⟨s.sendBuffer, s.sendBufferPos, s.sent, rfl, rfl⟩
      | failed code => simp at h
      | sent count =>
        cases count with
        | zero => simp at h
        | succ count =>
          obtain ⟨buffer, pos, sent, hresult, htext⟩ :=
            ih h.2 (sendRequest (count + 1) s)
          refine ⟨buffer, pos, sent, hresult, ?_⟩
          rw [htext]
          simp [sendRequest, pendingRequest, ← List.drop_drop]

theorem queueProxyRequest_calm (h : calm sends = true) {data : Bytes}
    (hdata : data ≠ []) (hfree : s.sendBuffer = none) :
    ∃ buffer pos sent, queueProxyRequest (some data) sends s =
        (none, { s with
          sendBuffer := buffer, sendBufferPos := pos, sent := sent,
          queued := s.queued ++ data }) ∧
      sent ++ (buffer.getD []).drop pos = s.sent ++ data := by
  obtain ⟨buffer, pos, sent, hresult, htext⟩ := flushProxyRequest_calm h
    { s with sendBuffer := some data, sendBufferPos := 0, queued := s.queued ++ data }
  refine ⟨buffer, pos, sent, ?_, ?_⟩
  · simp only [queueProxyRequest, hdata, hfree, Option.isSome_none,
      Bool.false_eq_true, or_self, if_false, hresult]
  · simpa [pendingRequest] using htext

def view (s : Layer) : Progress :=
  ⟨s.op, s.opState, s.reply, s.queued, s.result, s.udpsrvAddr, none⟩

/-- The handshake goes on, and has taken the bytes `taken`. -/
structure Pending (cfg : Config) (start : Progress) (taken : Bytes) (s : Layer) :
    Prop where
  arrived : s.arrived = taken ++ s.socket
  progress : start.feed cfg taken = view s
  succeeded : s.succeeded = false
  appRecvBuffer : s.appRecvBuffer = []
  received : s.received = []

def after (s : Layer) : Bytes :=
  s.received ++ s.appRecvBuffer.drop s.appRecvBufferPos ++ s.socket

structure Over (p : Progress) (s : Layer) : Prop where
  op : p.op = none
  queued : p.queued = s.queued
  result : p.result = s.result
  relay : p.relay = s.udpsrvAddr
  rest : p.rest = if s.succeeded then some (after s) else none

structure Tracks (cfg : Config) (start : Progress) (s : Layer) : Prop where
  sending : s.sent ++ pendingRequest s <+: s.queued
  kept : s.op ≠ none ∨ s.succeeded = true → s.queued = s.sent ++ pendingRequest s
  pending : s.op ≠ none → ∃ taken, Pending cfg start taken s
  finished : s.op = none → Over (outcome s.fin (start.feed cfg s.arrived)) s

theorem start_tracks (cfg : Config) (op : Op) (request : Bytes) :
    Tracks cfg (.start op request) (.start op request) := by
  refine ⟨?_, ?_, ?_, ?_⟩
  · simp [Layer.start, pendingRequest]
  · simp [Layer.start, pendingRequest]
  · intro _
    exact ⟨[], by simp [Layer.start], rfl, rfl, rfl, rfl⟩
  · simp [Layer.start]

theorem Over.of_feed {taken more : Bytes} (harrived : s.arrived = taken ++ more)
    (hop : (start.feed cfg taken).op = none)
    (hqueued : (start.feed cfg taken).queued = s.queued)
    (hresult : (start.feed cfg taken).result = s.result)
    (hrelay : (start.feed cfg taken).relay = s.udpsrvAddr)
    (hrest : (start.feed cfg taken).rest.map (· ++ more) =
      if s.succeeded then some (after s) else none) :
    Over (outcome s.fin (start.feed cfg s.arrived)) s := by
  rw [harrived, feed_append, feed_over hop, outcome_over]
  · exact ⟨hop, hqueued, hresult, hrelay, hrest⟩
  · exact hop

/-! ## Carrying out a verdict -/

def allowed (sends : List SendAnswer) (s : Layer) : Verdict → Bool
  | .request _ _ => s.sendBuffer.isNone && calm sends
  | _ => true

structure Fresh (s : Layer) : Prop where
  succeeded : s.succeeded = false
  appRecvBuffer : s.appRecvBuffer = []
  received : s.received = []
  sending : s.queued = s.sent ++ pendingRequest s

theorem Tracks.of_pending {taken : Bytes}
    (hsending : s.queued = s.sent ++ pendingRequest s) (hop : s.op ≠ none)
    (h : Pending cfg start taken s) : Tracks cfg start s :=
  ⟨⟨[], by rw [hsending, List.append_nil]⟩, fun _ => hsending,
    fun _ => ⟨taken, h⟩, fun hnone => absurd hnone hop⟩

theorem Tracks.of_over (hsending : s.queued = s.sent ++ pendingRequest s)
    (hop : s.op = none)
    (h : Over (outcome s.fin (start.feed cfg s.arrived)) s) : Tracks cfg start s :=
  ⟨⟨[], by rw [hsending, List.append_nil]⟩, fun _ => hsending,
    fun hsome => absurd hop hsome, fun _ => h⟩

theorem reset_tracks {taken : Bytes} {notices : List Notice} (h : Fresh s)
    (harrived : s.arrived = taken ++ s.socket)
    (hfeed : start.feed cfg taken = (view s).over notices) :
    Tracks cfg start (reset notices s) := by
  refine Tracks.of_over h.sending rfl
    (@Over.of_feed cfg start (reset notices s) taken s.socket harrived ?_ ?_ ?_ ?_ ?_)
  · rw [hfeed]
    rfl
  · rw [hfeed]
    rfl
  · rw [hfeed]
    rfl
  · rw [hfeed]
    rfl
  · rw [hfeed]
    simp [view, Progress.over, reset, h.succeeded]

theorem carryOut_tracks {v : Verdict} {taken : Bytes} (hop : s.op = some op)
    (h : Fresh s) (harrived : s.arrived = taken ++ s.socket)
    (hallowed : allowed sends s v = true)
    (hfeed : start.feed cfg taken = Progress.carryOut op v (view s)) :
    Tracks cfg start (carryOut op sends v s) := by
  have hpending : s.op ≠ none := by simp [hop]
  cases v with
  | wait =>
    exact Tracks.of_pending h.sending hpending
      ⟨harrived, hfeed, h.succeeded, h.appRecvBuffer, h.received⟩
  | failed notices clear =>
    cases clear with
    | false => exact reset_tracks h harrived hfeed
    | true =>
      apply @reset_tracks cfg start (clearBuffer s) taken
      · exact ⟨h.succeeded, h.appRecvBuffer, h.received, h.sending⟩
      · exact harrived
      · exact hfeed
  | goOn notices next =>
    exact Tracks.of_pending h.sending hpending
      ⟨harrived, hfeed, h.succeeded, h.appRecvBuffer, h.received⟩
  | succeeded notices relay =>
    refine Tracks.of_over h.sending rfl (@Over.of_feed cfg start
      (carryOut op sends (.succeeded notices relay) s) taken s.socket harrived
      ?_ ?_ ?_ ?_ ?_) <;> rw [hfeed]
    · rfl
    · rfl
    · rfl
    · rfl
    · simp [Progress.carryOut, carryOut, reset, clearBuffer, after,
        h.appRecvBuffer, h.received]
  | request data next =>
    simp only [allowed, Bool.and_eq_true, Option.isNone_iff_eq_none] at hallowed
    cases data with
    | none => exact reset_tracks h harrived hfeed
    | some data =>
      cases data with
      | nil => exact reset_tracks h harrived hfeed
      | cons byte data =>
        obtain ⟨buffer, pos, sent, hqueue, htext⟩ :=
          @queueProxyRequest_calm s sends hallowed.2 (byte :: data) (by simp)
            hallowed.1
        have hnothing : pendingRequest s = [] := by
          simp [pendingRequest, hallowed.1]
        have hsending : s.queued = s.sent := by
          simpa [hnothing] using h.sending
        simp only [carryOut, hqueue]
        refine Tracks.of_pending ?_ hpending
          ⟨harrived, hfeed, h.succeeded, h.appRecvBuffer, h.received⟩
        simp only [clearBuffer, pendingRequest]
        rw [htext, hsending]

/-! ## Reading -/

theorem receiveNext_cases {nBufLen : Nat} (hlength : 0 < nBufLen) (read : Read)
    (s : Layer) :
    (∃ code, receiveNext nBufLen read s = (.failed code, s)) ∨
      (receiveNext nBufLen read s = (.ended, s) ∧ s.socket = [] ∧ s.fin = true) ∨
      (receiveNext nBufLen read s = (.wouldBlock, s) ∧ s.socket = []) ∨
      ∃ chunk rest, chunk ≠ [] ∧ chunk.length ≤ nBufLen ∧
        s.socket = chunk ++ rest ∧
        receiveNext nBufLen read s = (.data chunk, { s with socket := rest }) := by
  cases read with
  | failed code => exact Or.inl ⟨code, rfl⟩
  | grant count =>
    right
    by_cases hempty : s.socket = []
    · cases hfin : s.fin with
      | true => simp [receiveNext, hempty, hfin]
      | false => simp [receiveNext, hempty, hfin]
    · right
      right
      refine ⟨s.socket.take (min (max 1 count) nBufLen),
        s.socket.drop (min (max 1 count) nBufLen), ?_, ?_, ?_, ?_⟩
      · intro hnil
        have hlengths := congrArg List.length hnil
        have hpos := List.length_pos_of_ne_nil hempty
        simp only [List.length_take, List.length_nil] at hlengths
        omega
      · rw [List.length_take]
        omega
      · rw [List.take_append_drop]
      · simp [receiveNext, hempty]

theorem Pending.fresh {taken : Bytes} (h : Pending cfg start taken s)
    (hs : Tracks cfg start s) (hop : s.op = some op) : Fresh s :=
  ⟨h.succeeded, h.appRecvBuffer, h.received, hs.kept (Or.inl (by simp [hop]))⟩

theorem failPending_tracks {taken : Bytes} (h : Pending cfg start taken s)
    (hs : Tracks cfg start s) (hop : s.op = some op) (hempty : s.socket = [])
    (hfin : s.fin = true) :
    Tracks cfg start (failPendingProxyOperation op wsaeConnAborted s) := by
  have hsucceeded : (failPendingProxyOperation op wsaeConnAborted s).succeeded =
      false := h.succeeded
  have hsent : s.sent <+: s.queued :=
    (List.prefix_append _ _).trans hs.sending
  refine ⟨by simpa [failPendingProxyOperation, clearSendBuffer, clearBuffer, reset,
    pendingRequest] using hsent, ?_, ?_, ?_⟩
  · simp [failPendingProxyOperation, clearSendBuffer, clearBuffer, reset, h.succeeded]
  · simp [failPendingProxyOperation, clearSendBuffer, clearBuffer, reset]
  · intro _
    have harrived : s.arrived = taken := by simpa [hempty] using h.arrived
    have houtcome : outcome s.fin (start.feed cfg s.arrived) =
        (view s).over (failure op .requestFailed wsaeConnAborted wsaeConnAborted
          []) := by
      rw [harrived, h.progress, hfin]
      simp [outcome, view, hop]
    have hsame : (failPendingProxyOperation op wsaeConnAborted s).arrived =
        s.arrived ∧ (failPendingProxyOperation op wsaeConnAborted s).fin = s.fin :=
      ⟨rfl, rfl⟩
    rw [hsame.1, hsame.2, houtcome]
    refine ⟨rfl, rfl, ?_, rfl, ?_⟩
    · simp [Progress.over, view, failPendingProxyOperation, clearSendBuffer,
        clearBuffer, reset, wsaeConnAborted]
    · rw [hsucceeded]
      rfl

def fineSocks (cfg : Config) (op : Op) (env : Env) (s : Layer) : Bool :=
  match env.reads with
  | [] => true
  | read :: _ =>
    match receiveNext (replyLength cfg s.opState s.reply - s.reply.length) read s
      with
    | (.failed _, _) => false
    | (.data chunk, _) =>
      allowed env.sends s (socksReply cfg op s.opState (s.reply ++ chunk))
    | _ => true

theorem Pending.waiting {taken : Bytes} (h : Pending cfg start taken s)
    (hop : s.op = some op) (hstart : Waiting cfg start) : Waiting cfg (view s) := by
  rw [← h.progress]
  apply feed_waiting _ hstart
  rw [h.progress]
  simp [view, hop]

theorem socksReceive_tracks (hstart : Waiting cfg start)
    (hs : Tracks cfg start s) (hop : s.op = some op) (hhttp : isHttp cfg = false)
    (hfine : fineSocks cfg op env s = true) :
    Tracks cfg start (socksReceive cfg op env s) := by
  obtain ⟨taken, h⟩ := hs.pending (by simp [hop])
  have hfresh := h.fresh hs hop
  have hwaiting := h.waiting hop hstart
  simp only [Waiting, hhttp, Bool.false_eq_true, if_false, view] at hwaiting
  unfold socksReceive
  simp only
  rw [if_neg (by omega)]
  unfold fineSocks at hfine
  split
  · exact hs
  · rename_i read rest hreads
    rw [hreads] at hfine
    simp only at hfine
    obtain ⟨code, hread⟩ | ⟨hread, hempty, hfin⟩ | ⟨hread, -⟩ |
      ⟨chunk, socket, hchunk, hlength, hsocket, hread⟩ :=
      @receiveNext_cases (replyLength cfg s.opState s.reply - s.reply.length)
        (by omega) read s
    · simp [hread] at hfine
    · rw [hread]
      exact failPending_tracks h hs hop hempty hfin
    · rw [hread]
      exact hs
    · rw [hread] at hfine ⊢
      simp only at hfine ⊢
      apply @carryOut_tracks cfg op start _ env.sends _ (taken ++ chunk)
      · exact hop
      · exact ⟨hfresh.succeeded, hfresh.appRecvBuffer, hfresh.received,
          hfresh.sending⟩
      · simp [h.arrived, hsocket]
      · exact hfine
      · rw [feed_append, h.progress]
        apply feed_socks hhttp hop hchunk
        simp only [view]
        omega

/-! ## Reading a header -/

/-- A read does not go beyond the limit and the end of the header, and the
status is found in the header. -/
def fineChunk (env : Env) (chunk : Bytes) (s : Layer) : Bool :=
  let buffer := s.reply ++ chunk
  if headerLimit < buffer.length then
    (findEnd (buffer.take headerLimit)).isNone
  else
    match findEnd buffer with
    | none => true
    | some headerEnd => decided env.stack (buffer.take headerEnd)

theorem httpLong_tracks {taken chunk : Bytes} (hhttp : isHttp cfg = true)
    (hop : s.op = some op) (h : Fresh s)
    (harrived : s.arrived = taken ++ chunk ++ s.socket)
    (hfeed : start.feed cfg taken = view s)
    (hreply : s.reply.length ≤ headerLimit)
    (hlimit : headerLimit < (s.reply ++ chunk).length)
    (hend : findEnd ((s.reply ++ chunk).take headerLimit) = none) :
    Tracks cfg start (carryOut op [] headerTooLong s) := by
  obtain ⟨reply, bytes, hchunk⟩ := @feed_http_long cfg op (view s) chunk hhttp hop
    hreply hlimit hend
  have hover : start.feed cfg (taken ++ chunk) =
      Progress.carryOut op headerTooLong { view s with reply := reply } := by
    rw [feed_append, hfeed, hchunk, feed_over rfl]
    rfl
  refine Tracks.of_over h.sending rfl (@Over.of_feed cfg start
    (carryOut op [] headerTooLong s) (taken ++ chunk) s.socket harrived
    ?_ ?_ ?_ ?_ ?_) <;> rw [hover]
  · rfl
  · rfl
  · rfl
  · rfl
  · simp [headerTooLong, Progress.carryOut, Progress.over, view, carryOut, reset,
      clearBuffer, h.succeeded]

theorem httpEnd_tracks {taken chunk : Bytes} {headerEnd : Nat}
    (hhttp : isHttp cfg = true) (hop : s.op = some op) (h : Fresh s)
    (harrived : s.arrived = taken ++ chunk ++ s.socket)
    (hfeed : start.feed cfg taken = view s) (hnone : findEnd s.reply = none)
    (hlimit : (s.reply ++ chunk).length ≤ headerLimit)
    (hend : findEnd (s.reply ++ chunk) = some headerEnd)
    (hdecided : decided env.stack ((s.reply ++ chunk).take headerEnd) = true) :
    Tracks cfg start (keepSurplus headerEnd (s.reply ++ chunk)
      (carryOut op [] (httpReply env.stack env.heap (s.reply ++ chunk))
        { s with reply := s.reply ++ chunk })) := by
  have hchunk : start.feed cfg (taken ++ chunk) = (Progress.carryOut op
      (httpReply 0 [] ((s.reply ++ chunk).take headerEnd))
      { view s with reply := (s.reply ++ chunk).take headerEnd }).feed cfg
        ((s.reply ++ chunk).drop headerEnd) := by
    rw [feed_append, hfeed]
    exact feed_http_end hhttp hop hnone hlimit hend
  rw [httpReply_header hend hdecided]
  obtain ⟨hnext, hwait⟩ := httpReply_next 0 [] ((s.reply ++ chunk).take headerEnd)
  generalize httpReply 0 [] ((s.reply ++ chunk).take headerEnd) = v
    at hnext hwait hchunk ⊢
  cases v with
  | wait => exact absurd rfl hwait
  | request data next => simp [Verdict.next?] at hnext
  | goOn notices next => simp [Verdict.next?] at hnext
  | failed notices clear =>
    have hkeep : keepSurplus headerEnd (s.reply ++ chunk)
        (carryOut op [] (.failed notices clear)
          { s with reply := s.reply ++ chunk }) =
        reset notices { s with reply := if clear then [] else s.reply ++ chunk } := by
      cases clear <;>
        simp [keepSurplus, carryOut, reset, clearBuffer, h.succeeded]
    rw [hkeep]
    apply @reset_tracks cfg start _ (taken ++ chunk)
    · exact ⟨h.succeeded, h.appRecvBuffer, h.received, h.sending⟩
    · exact harrived
    · rw [hchunk, feed_over rfl]
      rfl
  | succeeded notices relay =>
    obtain ⟨s', hs'⟩ : ∃ s', s' = keepSurplus headerEnd (s.reply ++ chunk)
        (carryOut op [] (.succeeded notices relay)
          { s with reply := s.reply ++ chunk }) := ⟨_, rfl⟩
    have hafter : s'.op = none ∧ s'.queued = s.queued ∧ s'.sent = s.sent ∧
        pendingRequest s' = pendingRequest s ∧ s'.arrived = s.arrived ∧
        s'.result = s.result ++ notices ∧ s'.udpsrvAddr = relay ∧
        s'.succeeded = true ∧
        after s' = (s.reply ++ chunk).drop headerEnd ++ s.socket := by
      rw [hs']
      simp only [keepSurplus, carryOut, reset, clearBuffer, Bool.true_and,
        decide_eq_true_eq]
      split
      · simp [pendingRequest, after, h.received]
      · rename_i hlast
        have hnil : (s.reply ++ chunk).drop headerEnd = [] :=
          List.drop_eq_nil_of_le (by omega)
        simp [pendingRequest, after, h.received, h.appRecvBuffer, hnil]
    obtain ⟨hop', hqueued, hsent, hpending, harrived', hresult, hrelay,
      hsucceeded, hrest⟩ := hafter
    rw [← hs']
    refine Tracks.of_over (by rw [hqueued, hsent, hpending]; exact h.sending) hop'
      (@Over.of_feed cfg start s' (taken ++ chunk) s.socket
        (harrived'.trans harrived) ?_ ?_ ?_ ?_ ?_) <;>
      rw [hchunk, feed_over rfl]
    · rfl
    · rw [hqueued]
      rfl
    · rw [hresult]
      rfl
    · rw [hrelay]
      rfl
    · rw [hsucceeded, hrest]
      simp [Progress.carryOut]

theorem httpChunk_tracks {taken chunk : Bytes} (hhttp : isHttp cfg = true)
    (hop : s.op = some op) (h : Fresh s)
    (harrived : s.arrived = taken ++ chunk ++ s.socket)
    (hfeed : start.feed cfg taken = view s) (hwaiting : Waiting cfg (view s))
    (hfine : fineChunk env chunk s = true) :
    Tracks cfg start (httpChunk env op chunk s) := by
  simp only [Waiting, hhttp, if_true, view] at hwaiting
  unfold httpChunk
  simp only [fineChunk] at hfine
  simp only [← List.length_append]
  split
  · rename_i hlong
    rw [if_pos hlong] at hfine
    exact httpLong_tracks hhttp hop h harrived hfeed hwaiting.2.1 hlong
      (by simpa using hfine)
  · rename_i hshort
    rw [if_neg hshort] at hfine
    cases hend : findEnd (s.reply ++ chunk) with
    | none =>
      refine @Tracks.of_pending cfg start _ (taken ++ chunk) h.sending
        (by simp [hop]) ⟨harrived, ?_, h.succeeded, h.appRecvBuffer, h.received⟩
      rw [feed_append, hfeed]
      exact feed_http_none hhttp hop (by simpa [view] using hshort) hend
    | some headerEnd =>
      rw [hend] at hfine
      exact httpEnd_tracks hhttp hop h harrived hfeed hwaiting.1 (by omega) hend
        hfine

def fineHttp (op : Op) (env : Env) : List Read → Layer → Bool
  | [], _ => true
  | read :: rest, s =>
    match receiveNext headerLimit read s with
    | (.failed _, _) => false
    | (.data chunk, s) =>
      fineChunk env chunk s &&
        ((httpChunk env op chunk s).op.isNone ||
          fineHttp op env rest (httpChunk env op chunk s))
    | _ => true

theorem keepSurplus_op (headerEnd : Nat) (buffer : Bytes) (s : Layer) :
    (keepSurplus headerEnd buffer s).op = s.op := by
  unfold keepSurplus
  split <;> rfl

private theorem httpReply_over {stack : Nat} {heap buffer : Bytes} :
    (carryOut op sends (httpReply stack heap buffer) s).op = none := by
  obtain ⟨hnext, hwait⟩ := httpReply_next stack heap buffer
  generalize httpReply stack heap buffer = v at hnext hwait
  cases v with
  | wait => exact absurd rfl hwait
  | failed notices clear => rfl
  | request data next => simp [Verdict.next?] at hnext
  | goOn notices next => simp [Verdict.next?] at hnext
  | succeeded notices relay => rfl

theorem httpChunk_op {chunk : Bytes} (hop : s.op = some op) :
    (httpChunk env op chunk s).op = none ∨
      (httpChunk env op chunk s).op = some op := by
  unfold httpChunk
  split
  · exact Or.inl rfl
  · simp only
    split
    · exact Or.inr hop
    · left
      rw [keepSurplus_op]
      exact httpReply_over

theorem httpReceive_tracks {reads : List Read} (hstart : Waiting cfg start)
    (hs : Tracks cfg start s) (hop : s.op = some op) (hhttp : isHttp cfg = true)
    (hfine : fineHttp op env reads s = true) :
    Tracks cfg start (httpReceive op env reads s) := by
  induction reads generalizing s with
  | nil => exact hs
  | cons read rest ih =>
    obtain ⟨taken, h⟩ := hs.pending (by simp [hop])
    have hfresh := h.fresh hs hop
    have hwaiting := h.waiting hop hstart
    simp only [fineHttp] at hfine
    simp only [httpReceive]
    obtain ⟨code, hread⟩ | ⟨hread, hempty, hfin⟩ | ⟨hread, -⟩ |
      ⟨chunk, socket, hchunk, hlength, hsocket, hread⟩ :=
      @receiveNext_cases headerLimit (by simp [headerLimit]) read s
    · simp [hread] at hfine
    · rw [hread]
      exact failPending_tracks h hs hop hempty hfin
    · rw [hread]
      exact hs
    · rw [hread] at hfine ⊢
      simp only [Bool.and_eq_true, Bool.or_eq_true] at hfine ⊢
      have hnext : Tracks cfg start
          (httpChunk env op chunk { s with socket := socket }) :=
        @httpChunk_tracks cfg op start { s with socket := socket } env taken chunk
          hhttp hop ⟨hfresh.succeeded, hfresh.appRecvBuffer, hfresh.received,
            hfresh.sending⟩ (by simp [h.arrived, hsocket]) h.progress hwaiting
          hfine.1
      split
      · exact hnext
      · rename_i hgoing
        have hop' : (httpChunk env op chunk { s with socket := socket }).op =
            some op :=
          (@httpChunk_op op { s with socket := socket } env chunk hop).resolve_left
            hgoing
        apply ih hnext hop'
        exact hfine.2.resolve_left (by simpa using hgoing)

/-! ## Events -/

/-- An event without a failure of the socket, in which no read goes beyond the
limit and the end of a header at once, the status is found in the header, and no
reply overtakes a request. -/
def fine (cfg : Config) (s : Layer) : Event → Bool
  | .onReceive nErrorCode env =>
    match s.op with
    | none => true
    | some op => nErrorCode == 0 &&
        (if isHttp cfg then fineHttp op env env.reads s
          else fineSocks cfg op env s)
  | .onSend nErrorCode sends =>
    s.sendBuffer.isNone || (nErrorCode == 0 && calm sends)
  | _ => true

theorem arrive_tracks (hs : Tracks cfg start s) (bytes : Bytes) :
    Tracks cfg start (step cfg s (.arrive bytes)) := by
  simp only [step]
  split
  · exact hs
  · rename_i hfin
    have hfin : s.fin = false := by simpa using hfin
    refine ⟨hs.sending, hs.kept, ?_, ?_⟩
    · intro hop
      obtain ⟨taken, h⟩ := hs.pending hop
      exact ⟨taken, by simp [h.arrived], h.progress, h.succeeded, h.appRecvBuffer,
        h.received⟩
    · intro hop
      have h := hs.finished hop
      simp only [hfin, outcome] at h ⊢
      rw [feed_append, feed_over h.op]
      refine ⟨h.op, h.queued, h.result, h.relay, ?_⟩
      simp only [h.rest]
      split <;> simp [after]

theorem finish_tracks (hs : Tracks cfg start s) :
    Tracks cfg start (step cfg s .finish) := by
  refine ⟨hs.sending, hs.kept, ?_, ?_⟩
  · intro hop
    obtain ⟨taken, h⟩ := hs.pending hop
    exact ⟨taken, h.arrived, h.progress, h.succeeded, h.appRecvBuffer, h.received⟩
  · intro hop
    have h := hs.finished hop
    have hsame : outcome true (start.feed cfg s.arrived) =
        outcome s.fin (start.feed cfg s.arrived) := by
      cases hfin : s.fin with
      | true => rfl
      | false =>
        have hover := h.op
        simp only [hfin, outcome] at hover
        rw [outcome_over hover, outcome_over hover]
    simp only [step]
    rw [hsame]
    exact ⟨h.op, h.queued, h.result, h.relay, h.rest⟩

theorem passOn_tracks (hs : Tracks cfg start s) (notice : Notice) :
    Tracks cfg start (passOn notice s) := by
  refine ⟨hs.sending, hs.kept, ?_, ?_⟩
  · intro hop
    obtain ⟨taken, h⟩ := hs.pending hop
    exact ⟨taken, h.arrived, h.progress, h.succeeded, h.appRecvBuffer, h.received⟩
  · intro hop
    have h := hs.finished hop
    exact ⟨h.op, h.queued, h.result, h.relay, h.rest⟩

theorem onReceive_tracks {nErrorCode : Nat} (hstart : Waiting cfg start)
    (hs : Tracks cfg start s)
    (hfine : fine cfg s (.onReceive nErrorCode env) = true) :
    Tracks cfg start (onReceive cfg nErrorCode env s) := by
  unfold onReceive
  simp only [fine] at hfine
  cases hop : s.op with
  | none => exact passOn_tracks hs .read
  | some op =>
    rw [hop] at hfine
    simp only [Bool.and_eq_true, beq_iff_eq] at hfine ⊢
    rw [if_neg (by simp [hfine.1])]
    split
    · exact hs
    · split
      · rename_i hhttp
        rw [if_pos hhttp] at hfine
        exact httpReceive_tracks hstart hs hop hhttp hfine.2
      · rename_i hhttp
        rw [if_neg hhttp] at hfine
        exact socksReceive_tracks hstart hs hop (by simpa using hhttp) hfine.2

theorem Tracks.flushed {buffer : Option Bytes} {pos : Nat} {sent : Bytes}
    (hs : Tracks cfg start s)
    (htext : sent ++ (buffer.getD []).drop pos = s.sent ++ pendingRequest s) :
    Tracks cfg start { s with
      sendBuffer := buffer, sendBufferPos := pos, sent := sent } := by
  refine ⟨?_, ?_, ?_, ?_⟩
  · have hsending := hs.sending
    rw [← htext] at hsending
    exact hsending
  · intro hkept
    exact (hs.kept hkept).trans htext.symm
  · intro hop
    obtain ⟨taken, h⟩ := hs.pending hop
    exact ⟨taken, h.arrived, h.progress, h.succeeded, h.appRecvBuffer, h.received⟩
  · intro hop
    have h := hs.finished hop
    exact ⟨h.op, h.queued, h.result, h.relay, h.rest⟩

theorem onSend_tracks {nErrorCode : Nat} (hs : Tracks cfg start s)
    (hfine : fine cfg s (.onSend nErrorCode sends) = true) :
    Tracks cfg start (onSend nErrorCode sends s) := by
  unfold onSend
  split
  · rename_i hbuffer
    simp only [fine, Bool.or_eq_true, Bool.and_eq_true, beq_iff_eq] at hfine
    obtain ⟨herror, hcalm⟩ := hfine.resolve_left (by
      cases hsend : s.sendBuffer <;> simp_all)
    obtain ⟨buffer, pos, sent, hflush, htext⟩ := flushProxyRequest_calm hcalm s
    simp only [herror, ne_eq, not_true_eq_false, if_false, hflush]
    exact hs.flushed htext
  · split
    · exact hs
    · exact passOn_tracks hs .write

theorem Tracks.delivers {received appRecvBuffer socket : Bytes}
    {appRecvBufferPos : Nat} (hs : Tracks cfg start s) (hop : s.op = none)
    (hafter : received ++ appRecvBuffer.drop appRecvBufferPos ++ socket = after s) :
    Tracks cfg start { s with
      received := received, appRecvBuffer := appRecvBuffer,
      appRecvBufferPos := appRecvBufferPos, socket := socket } := by
  have h := hs.finished hop
  refine ⟨hs.sending, hs.kept, fun hsome => absurd hop hsome, fun _ =>
    ⟨h.op, h.queued, h.result, h.relay, ?_⟩⟩
  rw [h.rest, ← hafter]
  rfl

theorem receive_tracks (hs : Tracks cfg start s) (nBufLen : Nat) (read : Read) :
    Tracks cfg start (receive nBufLen read s).2 := by
  unfold receive
  split
  · exact hs
  · rename_i hlength
    split
    · exact hs
    · rename_i hop
      have hop : s.op = none := by simpa using hop
      split
      · simp only
        split
        · rename_i hlast
          refine hs.delivers hop ?_
          have htake : min nBufLen (s.appRecvBuffer.length - s.appRecvBufferPos) =
              (s.appRecvBuffer.drop s.appRecvBufferPos).length := by
            rw [List.length_drop]
            omega
          rw [htake, List.take_length]
          simp [after]
        · refine hs.delivers hop ?_
          simp [after, ← List.drop_drop]
      · rename_i hempty
        have hnone : s.appRecvBuffer.drop s.appRecvBufferPos = [] :=
          List.drop_eq_nil_of_le (by omega)
        obtain ⟨code, hread⟩ | ⟨hread, -, -⟩ | ⟨hread, -⟩ |
          ⟨chunk, socket, hchunk, hshort, hsocket, hread⟩ :=
          @receiveNext_cases nBufLen (by omega) read s <;> rw [hread]
        · exact hs
        · exact hs
        · exact hs
        · refine hs.delivers hop ?_
          simp [after, hnone, hsocket]

theorem step_tracks (hstart : Waiting cfg start) (hs : Tracks cfg start s)
    {e : Event} (hfine : fine cfg s e = true) : Tracks cfg start (step cfg s e) := by
  cases e with
  | arrive bytes => exact arrive_tracks hs bytes
  | finish => exact finish_tracks hs
  | onReceive nErrorCode env => exact onReceive_tracks hstart hs hfine
  | onSend nErrorCode sends => exact onSend_tracks hs hfine
  | receive nBufLen read => exact receive_tracks hs nBufLen read

theorem start_waiting (cfg : Config) (op : Op) (request : Bytes) :
    Waiting cfg (.start op request) := by
  unfold Waiting
  split
  · simp [Progress.start, findEnd]
  · simp only [Progress.start, replyLength]
    split <;> simp

def Fine (cfg : Config) (s : Layer) (e : Event) : Prop := fine cfg s e = true

instance decidableFine (cfg : Config) (s : Layer) (e : Event) :
    Decidable (Fine cfg s e) :=
  inferInstanceAs (Decidable (fine cfg s e = true))

theorem tracks_run {request : Bytes} {events : List Event}
    (h : Admissible (step cfg) (Fine cfg) (.start op request) events) :
    Tracks cfg (.start op request) (run (step cfg) (.start op request) events) :=
  @run_invariant _ _ (step cfg) (Fine cfg) (Tracks cfg (.start op request))
    (fun _ _ hs hfine => step_tracks (start_waiting cfg op request) hs hfine) _ _
    (start_tracks cfg op request) h

/-! ## Segmentation -/

def Complete (s : Layer) : Prop := s.op = none ∨ (s.socket = [] ∧ s.fin = false)

instance decidableComplete (s : Layer) : Decidable (Complete s) :=
  inferInstanceAs (Decidable (s.op = none ∨ (s.socket = [] ∧ s.fin = false)))

theorem Tracks.outcome (hs : Tracks cfg start s) (h : Complete s) :
    (ProxyHandshake.outcome s.fin (start.feed cfg s.arrived)).op = s.op ∧
      (ProxyHandshake.outcome s.fin (start.feed cfg s.arrived)).result = s.result ∧
      (ProxyHandshake.outcome s.fin (start.feed cfg s.arrived)).queued = s.queued ∧
      (ProxyHandshake.outcome s.fin (start.feed cfg s.arrived)).relay = s.udpsrvAddr ∧
      (ProxyHandshake.outcome s.fin (start.feed cfg s.arrived)).rest =
        if s.succeeded then some (after s) else none := by
  by_cases hop : s.op = none
  · have hover := hs.finished hop
    exact ⟨hover.op.trans hop.symm, hover.result, hover.queued, hover.relay,
      hover.rest⟩
  · obtain ⟨hsocket, hfin⟩ := h.resolve_left hop
    obtain ⟨taken, hpending⟩ := hs.pending hop
    have harrived : s.arrived = taken := by simpa [hsocket] using hpending.arrived
    rw [harrived, hpending.progress, hfin]
    simp [ProxyHandshake.outcome, view, hpending.succeeded]

theorem carryOut_rest (v : Verdict) (hrest : p.rest = none) :
    (Progress.carryOut op v p).rest = none ∨
      ((Progress.carryOut op v p).op = none ∧
        (Progress.carryOut op v p).rest = some []) := by
  cases v with
  | wait => exact Or.inl hrest
  | failed notices clear => exact Or.inl hrest
  | request data next =>
    left
    unfold Progress.carryOut
    simp only
    split <;> exact hrest
  | goOn notices next => exact Or.inl hrest
  | succeeded notices relay => exact Or.inr ⟨rfl, rfl⟩

theorem feed_rest (hrest : p.rest = none) (bytes : Bytes) :
    (p.feed cfg bytes).rest = none ∨ ((p.feed cfg bytes).op = none ∧
      ∃ reply rest, bytes = reply ++ rest ∧ (p.feed cfg bytes).rest = some rest) := by
  induction bytes using List.reverseRecOn with
  | nil => exact Or.inl hrest
  | append_singleton bytes byte ih =>
    rw [feed_append, feed_cons, feed_nil]
    obtain hnone | ⟨hop, reply, rest, hbytes, hsome⟩ := ih
    · cases hop : (p.feed cfg bytes).op with
      | none => exact Or.inl (by simp [onByte, hop, hnone])
      | some op =>
        have hbyte : onByte cfg (p.feed cfg bytes) byte = Progress.carryOut op
            (verdict cfg op (p.feed cfg bytes).opState
              ((p.feed cfg bytes).reply ++ [byte]))
            { p.feed cfg bytes with
              reply := (p.feed cfg bytes).reply ++ [byte] } := by
          simp [onByte, hop]
        rw [hbyte]
        obtain hnone' | ⟨hover, hempty⟩ := @carryOut_rest op
          { p.feed cfg bytes with reply := (p.feed cfg bytes).reply ++ [byte] }
          (verdict cfg op (p.feed cfg bytes).opState
            ((p.feed cfg bytes).reply ++ [byte])) hnone
        · exact Or.inl hnone'
        · exact Or.inr ⟨hover, bytes ++ [byte], [], by simp, hempty⟩
    · right
      refine ⟨by simp [onByte, hop], reply, rest ++ [byte], by simp [hbytes], ?_⟩
      simp [onByte, hop, hsome]

theorem Tracks.reply (hrest : start.rest = none) (hs : Tracks cfg start s)
    (h : s.succeeded = true) : ∃ reply, s.arrived = reply ++ after s := by
  have hop : s.op = none := by
    by_contra hop
    obtain ⟨taken, hpending⟩ := hs.pending hop
    simp [hpending.succeeded] at h
  have hover := (hs.finished hop).rest
  rw [h, if_pos rfl] at hover
  obtain hnone | ⟨hfeed, reply, rest, hbytes, hsome⟩ :=
    @feed_rest cfg start hrest s.arrived
  · have hnone' : (ProxyHandshake.outcome s.fin (start.feed cfg s.arrived)).rest =
        none := by
      unfold ProxyHandshake.outcome
      split <;> exact hnone
    simp [hnone'] at hover
  · rw [outcome_over hfeed, hsome, Option.some.injEq] at hover
    exact ⟨reply, by rw [← hover]; exact hbytes⟩

/-! ## Progress -/

theorem flushProxyRequest_socket (sends : List SendAnswer) (s : Layer) :
    (flushProxyRequest sends s).2.socket = s.socket := by
  induction sends generalizing s with
  | nil =>
    simp only [flushProxyRequest]
    split <;> rfl
  | cons answer rest ih =>
    simp only [flushProxyRequest]
    split
    · rfl
    · split
      · rfl
      · rfl
      · rfl
      · exact ih _

theorem carryOut_socket (v : Verdict) (s : Layer) :
    (carryOut op sends v s).socket = s.socket := by
  cases v with
  | wait => rfl
  | failed notices clear => cases clear <;> rfl
  | goOn notices next => rfl
  | succeeded notices relay => rfl
  | request data next =>
    have hqueue : (queueProxyRequest data sends s).2.socket = s.socket := by
      unfold queueProxyRequest
      split
      · rfl
      · split
        · rfl
        · rw [flushProxyRequest_socket]
    simp only [carryOut]
    split
    · rename_i hresult
      rw [hresult] at hqueue
      exact hqueue
    · rename_i hresult
      rw [hresult] at hqueue
      exact hqueue

theorem httpChunk_socket (chunk : Bytes) (s : Layer) :
    (httpChunk env op chunk s).socket = s.socket := by
  unfold httpChunk
  split
  · rw [carryOut_socket]
  · simp only
    split
    · rfl
    · unfold keepSurplus
      split
      · rw [carryOut_socket]
      · rw [carryOut_socket]

theorem httpReceive_socket (reads : List Read) (s : Layer) :
    (httpReceive op env reads s).socket.length ≤ s.socket.length := by
  induction reads generalizing s with
  | nil => exact Nat.le_refl _
  | cons read rest ih =>
    simp only [httpReceive]
    obtain ⟨code, hread⟩ | ⟨hread, -, -⟩ | ⟨hread, -⟩ |
      ⟨chunk, socket, hchunk, hshort, hsocket, hread⟩ :=
      @receiveNext_cases headerLimit (by simp [headerLimit]) read s
    · simp [hread, reset, clearBuffer]
    · simp [hread, failPendingProxyOperation, clearSendBuffer, reset, clearBuffer]
    · simp [hread]
    · have hrest : socket.length ≤ s.socket.length := by simp [hsocket]
      rw [hread]
      simp only
      split
      · rw [httpChunk_socket]
        exact hrest
      · have hless := ih (httpChunk env op chunk { s with socket := socket })
        rw [httpChunk_socket] at hless
        exact hless.trans hrest

theorem receiveNext_grant {nBufLen count : Nat} (hlength : 0 < nBufLen)
    (hsome : s.socket ≠ []) :
    ∃ chunk rest, rest.length < s.socket.length ∧
      receiveNext nBufLen (.grant count) s =
        (.data chunk, { s with socket := rest }) := by
  obtain ⟨code, hread⟩ | ⟨-, hempty, -⟩ | ⟨-, hempty⟩ |
    ⟨chunk, rest, hchunk, -, hsocket, hread⟩ :=
    receiveNext_cases hlength (.grant count) s
  · simp [receiveNext, hsome] at hread
  · exact absurd hempty hsome
  · exact absurd hempty hsome
  · refine ⟨chunk, rest, ?_, hread⟩
    have hpos := List.length_pos_of_ne_nil hchunk
    rw [hsocket, List.length_append]
    omega

theorem onReceive_reads (hstart : Waiting cfg start) (hs : Tracks cfg start s)
    (hop : s.op ≠ none) (hsome : s.socket ≠ []) {count : Nat} {rest : List Read}
    (hreads : env.reads = .grant count :: rest) :
    (onReceive cfg 0 env s).socket.length < s.socket.length := by
  obtain ⟨taken, h⟩ := hs.pending hop
  obtain ⟨op, hop⟩ := Option.ne_none_iff_exists'.1 hop
  have hwaiting := h.waiting hop hstart
  unfold onReceive
  rw [hop]
  simp only [ne_eq, not_true_eq_false, if_false]
  cases hhttp : isHttp cfg with
  | true =>
    simp only [Waiting, hhttp, if_true, view] at hwaiting
    rw [if_neg hwaiting.2.2, if_pos rfl, hreads]
    obtain ⟨chunk, socket, hless, hread⟩ :=
      @receiveNext_grant s headerLimit count (by simp [headerLimit]) hsome
    simp only [httpReceive, hread]
    split
    · rw [httpChunk_socket]
      exact hless
    · have hle := @httpReceive_socket op env rest
        (httpChunk env op chunk { s with socket := socket })
      rw [httpChunk_socket] at hle
      exact Nat.lt_of_le_of_lt hle hless
  | false =>
    simp only [Waiting, hhttp, Bool.false_eq_true, if_false, view] at hwaiting
    have hstate : s.opState ≠ 0 := by
      intro hzero
      simp [replyLength, hzero] at hwaiting
    obtain ⟨chunk, socket, hless, hread⟩ := @receiveNext_grant s
      (replyLength cfg s.opState s.reply - s.reply.length) count (by omega) hsome
    simp only [hstate, Bool.false_eq_true, if_false, socksReceive, hreads, hread]
    rw [if_neg (by omega), carryOut_socket]
    exact hless

/-! ## The handshake -/

/-- Two ways in which the bytes of the proxy arrive and are read: the handshake
comes to the same, and so does what the user receives after it.  In each, what
is received after a success is what arrived after the reply, requests are sent
once and in order, and a read takes the handshake on. -/
theorem handshake_segmentation {request : Bytes} {events events' : List Event}
    (h : Admissible (step cfg) (Fine cfg) (.start op request) events)
    (h' : Admissible (step cfg) (Fine cfg) (.start op request) events') :
    let s := run (step cfg) (.start op request) events
    let s' := run (step cfg) (.start op request) events'
    (s.arrived = s'.arrived → s.fin = s'.fin → Complete s → Complete s' →
      s.op = s'.op ∧ s.succeeded = s'.succeeded ∧ s.result = s'.result ∧
        s.queued = s'.queued ∧ s.udpsrvAddr = s'.udpsrvAddr ∧
        (s.succeeded = true → after s = after s')) ∧
    (s.succeeded = true → ∃ reply, s.arrived = reply ++ (s.received ++
      s.appRecvBuffer.drop s.appRecvBufferPos ++ s.socket)) ∧
    s.sent <+: s.queued ∧
    (s.op ≠ none ∨ s.succeeded = true → s.queued = s.sent ++ pendingRequest s) ∧
    ∀ env count rest, s.op ≠ none → s.socket ≠ [] →
      env.reads = .grant count :: rest →
      (step cfg s (.onReceive 0 env)).socket.length < s.socket.length := by
  intro s s'
  have hs : Tracks cfg (.start op request) s := tracks_run h
  have hs' : Tracks cfg (.start op request) s' := tracks_run h'
  refine ⟨?_, ?_, ?_, hs.kept, ?_⟩
  · intro harrived hfin hcomplete hcomplete'
    obtain ⟨hop, hresult, hqueued, hrelay, hrest⟩ := hs.outcome hcomplete
    obtain ⟨hop', hresult', hqueued', hrelay', hrest'⟩ := hs'.outcome hcomplete'
    rw [harrived, hfin] at hop hresult hqueued hrelay hrest
    rw [hrest'] at hrest
    refine ⟨hop.symm.trans hop', ?_, hresult.symm.trans hresult',
      hqueued.symm.trans hqueued', hrelay.symm.trans hrelay', ?_⟩
    · cases hsucceeded : s.succeeded <;> cases hsucceeded' : s'.succeeded <;>
        simp_all
    · intro hsucceeded
      cases hsucceeded' : s'.succeeded <;> simp_all
  · intro hsucceeded
    exact hs.reply rfl hsucceeded
  · exact (List.prefix_append _ _).trans hs.sending
  · intro env count rest hop hsome hreads
    exact onReceive_reads (start_waiting cfg op request) hs hop hsome hreads

def plainConfig (proxyType : ProxyType) : Config :=
  ⟨proxyType, false, [], [], none, none, some [10, 0, 0, 1], [0, 80], [], none,
    fun _ => none⟩

def readAll (count : Nat) : Event :=
  .onReceive 0 ⟨List.replicate count (.grant headerLimit), [.sent headerLimit], 0, []⟩

def onePiece : List Event :=
  [.onSend 0 [.sent 3], .arrive [5, 0, 5, 0, 0, 1, 0, 0, 0, 0, 0, 0, 7, 8],
    readAll 1, readAll 1, readAll 1]

def manyPieces : List Event :=
  [.onSend 0 [.sent 1], .arrive [5], readAll 1, .onSend 0 [.sent 2], .arrive [0, 5],
    readAll 1, readAll 1, .arrive [0, 0, 1, 0], readAll 1, readAll 1,
    .arrive [0, 0, 0, 0, 0, 7, 8], readAll 1, .receive 1 (.grant 1)]

theorem handshake_segmentation_socks5 :
    (run (step (plainConfig .socks5)) (.start .connect [5, 1, 0]) onePiece).result =
      (run (step (plainConfig .socks5)) (.start .connect [5, 1, 0])
        manyPieces).result ∧
    after (run (step (plainConfig .socks5)) (.start .connect [5, 1, 0]) onePiece) =
      after (run (step (plainConfig .socks5)) (.start .connect [5, 1, 0])
        manyPieces) := by
  have h := (@handshake_segmentation (plainConfig .socks5) .connect [5, 1, 0]
    onePiece manyPieces (by decide) (by decide)).1
    (by decide) (by decide) (by decide) (by decide)
  exact ⟨h.2.2.1, h.2.2.2.2.2 (by decide)⟩

theorem readAll_http (hop : s.op = some .connect) (hstate : s.opState = 1)
    (hsome : s.socket ≠ []) :
    step (plainConfig .http11) s (readAll 1) =
      httpChunk ⟨[.grant headerLimit], [.sent headerLimit], 0, []⟩ .connect
        (s.socket.take headerLimit)
        { s with socket := s.socket.drop headerLimit } := by
  simp [step, readAll, onReceive, hop, hstate, isHttp, plainConfig, httpReceive,
    receiveNext, hsome, headerLimit]

def grantedHeader : Bytes := ascii "HTTP/1.1 200 OK\r\n\r\n"

def grantedHttp : Bytes := grantedHeader ++ List.replicate 4090 0

def awaitingHttp (reply socket arrived : Bytes) : Layer :=
  { Layer.start .connect [67] with
    sendBuffer := none, sent := [67], reply := reply, socket := socket,
    arrived := arrived }

theorem granted_http {data : Bytes}
    (hlimit : grantedHeader.length + data.length ≤ headerLimit)
    {socket arrived : Bytes} :
    let s := httpChunk ⟨[.grant headerLimit], [.sent headerLimit], 0, []⟩ .connect
      (grantedHeader ++ data) (awaitingHttp [] socket arrived)
    s.op = none ∧ s.succeeded = true ∧ s.arrived = arrived ∧ s.fin = false := by
  have hend : findEnd (grantedHeader ++ data) = some 19 :=
    findEnd_append (by decide) data
  have hscan : scanStatus (grantedHeader ++ data ++ []) =
      .got 200 (ascii " OK\r\n\r\n" ++ (data ++ [])) := by
    rw [List.append_assoc]
    exact scanStatus_extends.got (data ++ []) (by decide)
  simp only [httpChunk, awaitingHttp, Layer.start, List.length_nil, Nat.zero_add,
    List.length_append, List.nil_append, hend]
  rw [if_neg (by omega)]
  simp only [httpReply, hscan, if_true, connected, carryOut, keepSurplus]
  split <;> exact ⟨rfl, rfl, rfl, rfl⟩

theorem onSend_http :
    step (plainConfig .http11) (.start .connect [67]) (.onSend 0 [.sent 1]) =
      awaitingHttp [] [] [] := by
  decide

theorem arrive_http (reply socket arrived bytes : Bytes) :
    step (plainConfig .http11) (awaitingHttp reply socket arrived) (.arrive bytes) =
      awaitingHttp reply (socket ++ bytes) (arrived ++ bytes) := rfl

theorem httpChunk_overrun {chunk : Bytes}
    (h : headerLimit < s.reply.length + chunk.length) :
    httpChunk env op chunk s = carryOut op [] headerTooLong s :=
  if_pos h

theorem whole_http {data : Bytes} (hlong : 4077 ≤ data.length) :
    let s := run (step (plainConfig .http11)) (.start .connect [67])
      [.onSend 0 [.sent 1], .arrive (grantedHeader ++ data), readAll 1]
    s.op = none ∧ s.succeeded = true ∧ s.arrived = grantedHeader ++ data ∧
      s.fin = false := by
  have hheader : grantedHeader.length = 19 := by decide
  have htake : (grantedHeader ++ data).take headerLimit =
      grantedHeader ++ data.take 4077 := by
    rw [List.take_append, hheader, List.take_of_length_le (by simp [hheader,
      headerLimit])]
    rfl
  have hsome : grantedHeader ++ data ≠ [] := by
    intro hnil
    have hlengths := congrArg List.length hnil
    rw [List.length_append, hheader, List.length_nil] at hlengths
    omega
  simp only [run_cons, run_nil, onSend_http, arrive_http, List.nil_append]
  rw [readAll_http rfl rfl hsome]
  have hgranted := @granted_http (data.take 4077)
    (by rw [hheader, List.length_take]; simp only [headerLimit]; omega)
    ((grantedHeader ++ data).drop headerLimit) (grantedHeader ++ data)
  rw [← htake] at hgranted
  exact hgranted

theorem pieces_http {data : Bytes} (hlong : 4087 ≤ data.length) :
    let s := run (step (plainConfig .http11)) (.start .connect [67])
      [.onSend 0 [.sent 1], .arrive ((grantedHeader ++ data).take 10), readAll 1,
        .arrive ((grantedHeader ++ data).drop 10), readAll 1]
    s.op = none ∧ s.succeeded = false ∧ s.arrived = grantedHeader ++ data ∧
      s.fin = false ∧ s.result = [.callback .requestFailed 0
        (ascii "Invalid HTTP response - Header size exceeds limit"),
        .connect wsaeConnAborted] := by
  have hheader : grantedHeader.length = 19 := by decide
  have htake : (grantedHeader ++ data).take 10 = grantedHeader.take 10 :=
    List.take_append_of_le_length (by omega)
  have hdrop : (grantedHeader ++ data).drop 10 = grantedHeader.drop 10 ++ data :=
    List.drop_append_of_le_length (by omega)
  have hfirst : step (plainConfig .http11)
      (awaitingHttp [] (grantedHeader.take 10) (grantedHeader.take 10)) (readAll 1) =
      awaitingHttp (grantedHeader.take 10) [] (grantedHeader.take 10) := by
    decide
  have hsome : grantedHeader.drop 10 ++ data ≠ [] := by
    intro hnil
    have hlengths := congrArg List.length hnil
    simp only [List.length_append, List.length_nil] at hlengths
    omega
  simp only [run_cons, run_nil, onSend_http, arrive_http, List.nil_append, htake,
    hdrop, hfirst]
  rw [readAll_http rfl rfl hsome]
  have hover : headerLimit < (grantedHeader.take 10).length +
      ((grantedHeader.drop 10 ++ data).take headerLimit).length := by
    simp only [List.length_take, List.length_append, List.length_drop, hheader,
      headerLimit]
    omega
  rw [httpChunk_overrun hover]
  refine ⟨rfl, rfl, ?_, rfl, rfl⟩
  rw [← htake, ← hdrop]
  exact List.take_append_drop 10 (grantedHeader ++ data)

/-- The reply comes in one piece, or its first ten bytes come ahead.  Then the
next read fills the buffer beyond its limit, and a short header is refused as too
long. -/
theorem short_header_refused :
    ∃ s s' : Layer,
      s = run (step (plainConfig .http11)) (.start .connect [67])
        [.onSend 0 [.sent 1], .arrive grantedHttp, readAll 1] ∧
      s' = run (step (plainConfig .http11)) (.start .connect [67])
        [.onSend 0 [.sent 1], .arrive (grantedHttp.take 10), readAll 1,
          .arrive (grantedHttp.drop 10), readAll 1] ∧
      Complete s ∧ Complete s' ∧ s.arrived = s'.arrived ∧ s.fin = s'.fin ∧
      s.succeeded = true ∧ s'.succeeded = false ∧
      s'.result = [.callback .requestFailed 0
        (ascii "Invalid HTTP response - Header size exceeds limit"),
        .connect wsaeConnAborted] := by
  unfold grantedHttp
  have hlength : (List.replicate 4090 (0 : UInt8)).length = 4090 :=
    List.length_replicate
  generalize List.replicate 4090 (0 : UInt8) = data at hlength
  obtain ⟨hop, hsucceeded, harrived, hfin⟩ := @whole_http data (by omega)
  obtain ⟨hop', hfailed, harrived', hfin', hresult⟩ := @pieces_http data (by omega)
  exact ⟨_, _, rfl, rfl, Or.inl hop, Or.inl hop',
    harrived.trans harrived'.symm, hfin.trans hfin'.symm, hsucceeded, hfailed,
    hresult⟩

end ProxyHandshake

end ProxyLane.Hook
