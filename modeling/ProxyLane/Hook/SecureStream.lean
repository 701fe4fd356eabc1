import ProxyLane.Hook.SecureLayer

/-!
# The decrypted stream

Whole runs of the secure layer: the user receives what was decrypted, in order
and once, and the end of the stream after all of it.  Where the peer ends its
stream and the layer notes it, the user is told until it has all.
-/

namespace ProxyLane.Hook

open ProxyLane.Foundation

namespace SecureLayer

variable {l : Layer} {w : Work} {io : Io}

instance decidableSending (sends : List SendAnswer) : Decidable (Sending sends) :=
  inferInstanceAs (Decidable (∀ a ∈ sends, a ≠ .failed ∧ a ≠ .sent 0))

theorem untroubled_iff (w : Work) :
    Untroubled w ↔ w.io.broken = false ∧ Sending w.io.sends ∧
      (∀ e ∈ w.io.feeds, e.ok = true ∧ 0 < e.consumed) ∧
      (buffered w.layer).length + w.layer.session.plain.length +
        (w.io.feeds.map fun e => e.plain.length).sum < maxBufferedData :=
  ⟨fun h => ⟨h.broken, h.sends, h.feeds, h.room⟩,
    fun ⟨hbroken, hsends, hfeeds, hroom⟩ => ⟨hbroken, hsends, hfeeds, hroom⟩⟩

instance decidableUntroubled (w : Work) : Decidable (Untroubled w) :=
  decidable_of_iff _ (untroubled_iff w).symm

/-- The end of the stream is not met by a receive within `OnReceive`; where it
is met by `OnClose`, the handshake is finished, nothing fails and there is
room. -/
def Fine (l : Layer) : Event → Prop
  | .onReceive false io => l.state = .connected → .data [] ∉ io.receives
  | .onClose false io => l.state = .connected →
      l.handshakeReady = true ∧ Untroubled ⟨l, io⟩
  | _ => True

instance decidableFine (l : Layer) : ∀ e, Decidable (Fine l e)
  | .onReceive false io => inferInstanceAs
      (Decidable (l.state = .connected → .data [] ∉ io.receives))
  | .onReceive true _ => .isTrue trivial
  | .onSend _ _ => .isTrue trivial
  | .onClose false io => inferInstanceAs (Decidable (l.state = .connected →
      l.handshakeReady = true ∧ Untroubled ⟨l, io⟩))
  | .onClose true _ => .isTrue trivial
  | .send _ _ => .isTrue trivial
  | .receive _ _ => .isTrue trivial
  | .shutDown _ _ _ => .isTrue trivial

theorem Safe.step (h : Safe l) {e : Event} (hfine : Fine l e) : Safe (step l e) := by
  cases e with
  | onReceive failed io =>
    simp only [SecureLayer.step]
    split
    · exact h
    · rename_i hstate
      split
      · exact reportFailure_safe h
      · exact onReceive_safe h (by simpa using hstate)
  | onSend failed io =>
    simp only [SecureLayer.step]
    split
    · exact h
    · split
      · exact reportFailure_safe h
      · exact onSend_safe h
  | onClose failed io =>
    simp only [SecureLayer.step]
    split
    · exact h
    · rename_i hstate
      have hstate : l.state = .connected := by simpa using hstate
      cases failed with
      | true => exact aborted_safe (post_safe _ h)
      | false =>
        apply onClose_safe h hstate
        have huntroubled := (hfine hstate).2
        exact (@closeDrain_advances { l with state := .closed } io).2.2
          ⟨huntroubled.broken, huntroubled.sends, huntroubled.feeds,
            huntroubled.room⟩
  | send io write => exact send_safe h
  | receive nBufLen posts => exact receive_safe h
  | shutDown how io write => exact shutDown_safe h

private theorem start_safe (hello : Bytes) : Safe (.start hello) := by
  refine ⟨⟨?_, ?_, ?_, ?_, ?_, ?_⟩, ?_⟩ <;>
    simp [Layer.start, buffered, pendingBytes]

theorem safe_run {hello : Bytes} {events : List Event}
    (h : Admissible step Fine (.start hello) events) :
    Safe (run step (.start hello) events) :=
  run_invariant (fun _ _ hsafe hfine => hsafe.step hfine) (start_safe hello) h

def receiveAll : List (Nat × Bool) → Layer → List Got × Layer
  | [], l => ([], l)
  | (nBufLen, posts) :: rest, l =>
    let (got, l) := receive nBufLen posts l
    let (gots, l) := receiveAll rest l
    (got :: gots, l)

structure Ending (l : Layer) : Prop where
  safe : Safe l
  ready : l.handshakeReady = true
  peerReadClosed : l.peerReadClosed = true
  told : hasPendingRead l = true → l.notices.getLast? = some .read

theorem repostRead_told (l : Layer) (hclosed : l.peerReadClosed = true) :
    hasPendingRead (repostRead l) = true →
      (repostRead l).notices.getLast? = some .read := by
  unfold repostRead
  split
  · simp only [hclosed, Bool.true_and]
    split
    · simp [post]
    · rename_i hdelivered
      simp [hasPendingRead, bufferedPlaintext, hdelivered]
  · simp [post]

theorem repostRead_buffered (l : Layer) :
    buffered (repostRead l) = buffered l := by
  unfold repostRead
  split
  · rename_i hall
    simp only
    split <;> simp [post, buffered, hall]
  · rfl

theorem repostRead_keeps (l : Layer) :
    (repostRead l).handshakeReady = l.handshakeReady ∧
      (repostRead l).peerReadClosed = l.peerReadClosed ∧
      (repostRead l).session = l.session ∧
      (repostRead l).received = l.received := by
  unfold repostRead
  split
  · simp only
    split <;> simp [post]
  · simp [post]

/-- A receive with room in its buffer returns the next bytes, and the end of the
stream when there are none. -/
theorem receive_ending {nBufLen : Nat} (posts : Bool) (h : Ending l)
    (hlength : 0 < nBufLen) :
    Ending (receive nBufLen posts l).2 ∧
      ((buffered l = [] ∧ (receive nBufLen posts l).1 = .eof ∧
          buffered (receive nBufLen posts l).2 = []) ∨
        ∃ chunk, chunk ≠ [] ∧ (receive nBufLen posts l).1 = .data chunk ∧
          buffered l = chunk ++ buffered (receive nBufLen posts l).2) := by
  have hsafe := @receive_safe l nBufLen posts h.safe
  by_cases hempty : l.plaintext.length ≤ l.plaintextOffset
  · have hnone : buffered l = [] := by simpa [buffered] using hempty
    have hresult : receive nBufLen posts l =
        (.eof, { l with peerEofDelivered := true }) := by
      simp [receive, h.ready, hempty, h.peerReadClosed]
    rw [hresult] at hsafe ⊢
    refine ⟨⟨hsafe, h.ready, h.peerReadClosed, ?_⟩, Or.inl ⟨hnone, rfl, hnone⟩⟩
    simp [hasPendingRead, bufferedPlaintext_eq, buffered, hempty]
  · obtain ⟨count, hcount⟩ : ∃ count,
        count = min nBufLen (l.plaintext.length - l.plaintextOffset) := ⟨_, rfl⟩
    obtain ⟨hready, hclosed, -, -⟩ := repostRead_keeps (takePlaintext count l)
    have hclosed : (repostRead (takePlaintext count l)).peerReadClosed = true :=
      hclosed.trans h.peerReadClosed
    have hresult : receive nBufLen posts l =
        (.data ((buffered l).take count), repostRead (takePlaintext count l)) := by
      simp [receive, h.ready, hempty, ← hcount, resumeTlsReceive, hclosed]
    rw [hresult] at hsafe ⊢
    refine ⟨⟨hsafe, hready.trans h.ready, hclosed,
      repostRead_told _ h.peerReadClosed⟩,
      Or.inr ⟨(buffered l).take count, ?_, rfl, ?_⟩⟩
    · intro hnone
      have hlengths := congrArg List.length hnone
      simp only [buffered, List.length_take, List.length_drop,
        List.length_nil] at hlengths
      omega
    · rw [repostRead_buffered]
      simp [takePlaintext, buffered, ← List.drop_drop]

theorem receiveAll_ending {sizes : List (Nat × Bool)} (h : Ending l)
    (hsizes : ∀ size ∈ sizes, 0 < size.1) :
    Ending (receiveAll sizes l).2 ∧
      ∃ (chunks : List Bytes) (ends : Nat), (receiveAll sizes l).1 =
          chunks.map .data ++ List.replicate ends .eof ∧
        buffered l = chunks.flatten ++ buffered (receiveAll sizes l).2 ∧
        (0 < ends → buffered (receiveAll sizes l).2 = []) ∧
        chunks.length ≤ chunks.flatten.length ∧
        chunks.length + ends = sizes.length := by
  induction sizes generalizing l with
  | nil => exact ⟨h, [], 0, by simp [receiveAll]⟩
  | cons size rest ih =>
    obtain ⟨nBufLen, posts⟩ := size
    obtain ⟨hnext, hfirst⟩ := receive_ending posts h
      (hsizes _ (List.mem_cons_self ..))
    obtain ⟨hend, chunks, ends, hgots, hbuffered, hempty, hlength, htotal⟩ :=
      ih hnext fun size hsize => hsizes size (List.mem_cons_of_mem _ hsize)
    simp only [receiveAll]
    refine ⟨hend, ?_⟩
    rcases hfirst with ⟨hnone, heof, hnone'⟩ | ⟨chunk, hchunk, hdata, hrest⟩
    · rw [hnone'] at hbuffered
      obtain ⟨hflat, hnone''⟩ := List.append_eq_nil_iff.1 hbuffered.symm
      have hchunks : chunks = [] := by
        apply List.length_eq_zero_iff.1
        simpa [hflat] using hlength
      subst hchunks
      refine ⟨[], ends + 1, ?_, ?_, fun _ => hnone'', by simp, ?_⟩
      · simp [heof, hgots, List.replicate_succ]
      · simp [hnone, hnone'']
      · simp only [List.length_nil, List.length_cons] at htotal ⊢
        omega
    · have hpos := List.length_pos_of_ne_nil hchunk
      refine ⟨chunk :: chunks, ends, ?_, ?_, hempty, ?_, ?_⟩
      · simp [hdata, hgots]
      · rw [hrest, hbuffered]
        simp
      · simp only [List.length_cons, List.flatten_cons, List.length_append]
        omega
      · simp only [List.length_cons]
        omega

/-- The user is told while it has not received all, and however it receives it
obtains the rest of what was decrypted and then the end of the stream. -/
structure Delivers (l : Layer) : Prop where
  told : ∀ sizes : List (Nat × Bool), (∀ size ∈ sizes, 0 < size.1) →
    hasPendingRead (receiveAll sizes l).2 = true →
    (receiveAll sizes l).2.notices.getLast? = some .read
  received : ∀ sizes : List (Nat × Bool), (∀ size ∈ sizes, 0 < size.1) →
    (buffered l).length < sizes.length →
    ∃ (chunks : List Bytes) (ends : Nat), 0 < ends ∧
      (receiveAll sizes l).1 = chunks.map .data ++ List.replicate ends .eof ∧
      l.received ++ chunks.flatten = l.decrypted

theorem Ending.delivers (h : Ending l) : Delivers l where
  told sizes hsizes := (receiveAll_ending h hsizes).1.told
  received sizes hsizes hmany := by
    obtain ⟨-, chunks, ends, hgots, hbuffered, hempty, hlength, htotal⟩ :=
      receiveAll_ending h hsizes
    have hends : 0 < ends := by
      have hlengths := congrArg List.length hbuffered
      simp only [List.length_append] at hlengths
      omega
    refine ⟨chunks, ends, hends, hgots, ?_⟩
    have hplain := h.safe.conserves.plain
    rw [(h.safe.ended h.peerReadClosed).1, hbuffered, hempty hends] at hplain
    simpa using hplain.symm

def Marked (l : Layer) : Prop :=
  l.session.ready = true → l.handshakeReady = true

theorem finishHandshake_marked (hok : (finishHandshake io l).1 = true) :
    Marked (finishHandshake io l).2 := by
  unfold finishHandshake at hok ⊢
  split
  · rename_i hready
    exact fun _ => hready
  · split
    · simp_all
    · split
      · rename_i hunready
        intro hready
        have hready : l.session.ready = true := hready
        rw [hready] at hunready
        simp at hunready
      · simp only
        split <;> exact fun _ => rfl

theorem settle_marked (hok : (settle w).1 = true) : Marked (settle w).2.layer := by
  unfold settle at hok ⊢
  split
  · simp_all
  · rename_i l hdrain
    rw [hdrain] at hok
    simp only at hok ⊢
    split
    · simp_all
    · rename_i sends l' hflush
      rw [hflush] at hok
      exact finishHandshake_marked hok

theorem feedTls_marked {fuel : Nat} {chunk : Bytes} (h : Marked w.layer)
    (hok : (feedTls fuel chunk w).1 = true) :
    Marked (feedTls fuel chunk w).2.layer := by
  induction fuel generalizing w chunk with
  | zero => exact h
  | succ fuel ih =>
    simp only [feedTls] at hok ⊢
    split
    · exact h
    · rename_i hchunk
      simp only [hchunk, if_false] at hok
      split
      · simp_all
      · rename_i hgood
        simp only [hgood, Bool.false_eq_true, if_false] at hok
        have hsettled := @settle_marked (nextFeed chunk w).2
        cases hresult : settle (nextFeed chunk w).2 with
        | mk ok w' =>
          rw [hresult] at hok hsettled
          cases ok with
          | false => simp at hok
          | true => exact ih (hsettled rfl) hok

theorem receiveLoop_marked {receives : List RawRead} (h : Marked w.layer)
    (hok : (receiveLoop receives w).1 = true) :
    Marked (receiveLoop receives w).2.layer := by
  induction receives generalizing w with
  | nil => exact h
  | cons r rest ih =>
    cases r with
    | wouldBlock => exact h
    | failed => exact h
    | data chunk =>
      simp only [receiveLoop] at hok ⊢
      split
      · exact h
      · rename_i hchunk
        simp only [hchunk, if_false] at hok
        have hfed := @feedTls_marked w chunk.length chunk h
        cases hresult : feedTls chunk.length chunk w with
        | mk ok w' =>
          rw [hresult] at hok hfed
          cases ok with
          | false => simp at hok
          | true =>
            simp only at hok ⊢
            split
            · exact hfed rfl
            · rename_i hgoing
              simp only [hgoing] at hok
              exact ih (hfed rfl) hok

theorem pumpTls_marked (hok : (pumpTls w).1 = true) :
    Marked (pumpTls w).2.layer := by
  have hsettled := @settle_marked w
  unfold pumpTls at hok ⊢
  cases hresult : settle w with
  | mk ok w' =>
    rw [hresult] at hok hsettled
    cases ok with
    | false => simp at hok
    | true =>
      simp only at hok ⊢
      split
      · exact hsettled rfl
      · rename_i hgoing
        simp only [hgoing] at hok
        exact receiveLoop_marked (hsettled rfl) hok

/-- An event with which the peer's stream ends, while nothing fails and all
that is decrypted fits in: a receive comes to `close_notify`, or to the end of
the connection, or the connection is reported closed. -/
def EndsCleanly (l : Layer) : Event → Prop
  | .onReceive false io => l.state = .connected ∧ Untroubled ⟨l, io⟩ ∧
      .failed ∉ io.receives ∧
      (step l (.onReceive false io)).session.ready = true ∧
      ((step l (.onReceive false io)).session.closed = true ∨
        (.data [] ∈ io.receives ∧ .wouldBlock ∉ io.receives ∧
          (step l (.onReceive false io)).receivePaused = false))
  | .onClose false io => l.state = .connected ∧ Untroubled ⟨l, io⟩
  | _ => False

instance decidableEndsCleanly (l : Layer) : ∀ e, Decidable (EndsCleanly l e)
  | .onReceive false io => inferInstanceAs (Decidable (l.state = .connected ∧
      Untroubled ⟨l, io⟩ ∧ .failed ∉ io.receives ∧
      (step l (.onReceive false io)).session.ready = true ∧
      ((step l (.onReceive false io)).session.closed = true ∨
        (.data [] ∈ io.receives ∧ .wouldBlock ∉ io.receives ∧
          (step l (.onReceive false io)).receivePaused = false))))
  | .onReceive true _ => .isFalse id
  | .onSend _ _ => .isFalse id
  | .onClose false io => inferInstanceAs
      (Decidable (l.state = .connected ∧ Untroubled ⟨l, io⟩))
  | .onClose true _ => .isFalse id
  | .send _ _ => .isFalse id
  | .receive _ _ => .isFalse id
  | .shutDown _ _ _ => .isFalse id

theorem onReceive_ending (h : Safe l) (hstate : l.state = .connected)
    (huntroubled : Untroubled ⟨l, io⟩) (hreceiving : Receiving io.receives)
    (hready : (onReceive io l).session.ready = true)
    (hclosed : (onReceive io l).session.closed = true) :
    Ending (onReceive io l) := by
  have hsafe := @onReceive_safe l io h hstate
  obtain ⟨-, hempties, hsucceeds⟩ := @pumpTls_advances ⟨l, io⟩
  have hok := hsucceeds huntroubled hreceiving
  have hmarked := pumpTls_marked hok
  have hdrained := hempties hok
  unfold onReceive at hready hclosed hsafe ⊢
  generalize pumpTls ⟨l, io⟩ = result at *
  obtain ⟨ok, w⟩ := result
  simp only at hok hmarked hdrained
  subst hok
  simp only at hready hclosed hsafe ⊢
  split
  · rename_i hpending
    rw [if_pos hpending] at hready hclosed hsafe
    exact ⟨hsafe, hmarked hready, hdrained.2 hclosed, fun _ => by simp [post]⟩
  · rename_i hnone
    rw [if_neg hnone] at hready hclosed hsafe
    have hnone : hasPendingRead w.layer = false := by
      simpa [hmarked hready] using hnone
    exact ⟨hsafe, hmarked hready, hdrained.2 hclosed, by simp [hnone]⟩

theorem onClose_ending (h : Safe l) (hstate : l.state = .connected)
    (hready : l.handshakeReady = true) (huntroubled : Untroubled ⟨l, io⟩) :
    Ending (onClose false io l) := by
  obtain ⟨hadvances, -, hsucceeds⟩ :=
    @closeDrain_advances { l with state := .closed } io
  have hok := hsucceeds ⟨huntroubled.broken, huntroubled.sends,
    huntroubled.feeds, huntroubled.room⟩
  have hsafe := onClose_safe h hstate hok
  have hready' := hadvances.handshakeReady hready
  unfold onClose at hsafe ⊢
  simp only [Bool.false_eq_true, if_false] at hsafe ⊢
  generalize closeDrain io { l with state := .closed } = result at *
  obtain ⟨ok, l'⟩ := result
  simp only at hok hready'
  subst hok
  simp only [hready', Bool.not_true, Bool.false_eq_true, if_false] at hsafe ⊢
  split
  · rename_i hpending
    rw [if_pos hpending] at hsafe
    exact ⟨hsafe, rfl, rfl, fun _ => by simp [post]⟩
  · rename_i hnone
    rw [if_neg hnone] at hsafe
    exact ⟨hsafe, rfl, rfl, fun hpending => absurd hpending hnone⟩

theorem endsCleanly_delivers (h : Safe l) {e : Event} (hends : EndsCleanly l e)
    (hfine : Fine l e) : Delivers (step l e) := by
  cases e with
  | onReceive failed io =>
    cases failed with
    | true => exact absurd hends id
    | false =>
      obtain ⟨hstate, huntroubled, hfailed, hready, hend⟩ := hends
      have hdata := hfine hstate
      have hclosed := hend.resolve_right fun hfin => hdata hfin.1
      have hstep : step l (.onReceive false io) = onReceive io l := by
        simp [SecureLayer.step, hstate]
      rw [hstep] at hready hclosed ⊢
      apply (onReceive_ending h hstate huntroubled _ hready hclosed).delivers
      intro r hr
      exact ⟨fun hr' => hfailed (hr' ▸ hr), fun hr' => hdata (hr' ▸ hr)⟩
  | onClose failed io =>
    cases failed with
    | true => exact absurd hends id
    | false =>
      obtain ⟨hstate, huntroubled⟩ := hends
      have hstep : step l (.onClose false io) = onClose false io l := by
        simp [SecureLayer.step, hstate]
      rw [hstep]
      exact (onClose_ending h hstate (hfine hstate).1 huntroubled).delivers
  | onSend failed io => exact absurd hends id
  | send io write => exact absurd hends id
  | receive nBufLen posts => exact absurd hends id
  | shutDown how io write => exact absurd hends id

theorem receive_zero (h : Safe l) {nBufLen : Nat} {posts : Bool}
    (hlength : 0 < nBufLen)
    (hzero : (receive nBufLen posts l).1 = .eof ∨
      (receive nBufLen posts l).1 = .data []) : l.received = l.decrypted := by
  have hplain := h.conserves.plain
  simp only [receive] at hzero
  split at hzero
  · simp at hzero
  · split at hzero
    · rename_i hempty
      split at hzero
      · rename_i hclosed
        have hnone : buffered l = [] := by simpa [buffered] using hempty
        rw [(h.ended hclosed).1, hnone] at hplain
        simpa using hplain.symm
      · simp at hzero
    · rename_i hsome
      simp only [reduceCtorEq, Got.data.injEq, false_or] at hzero
      have hlengths := congrArg List.length hzero
      simp only [buffered, List.length_take, List.length_drop,
        List.length_nil] at hlengths
      omega

theorem resumeTlsReceive_received (posts : Bool) (l : Layer) :
    (resumeTlsReceive posts l).received = l.received := by
  unfold resumeTlsReceive
  split
  · rfl
  · split <;> rfl

theorem receive_data {nBufLen : Nat} {posts : Bool} {bytes : Bytes}
    (hdata : (receive nBufLen posts l).1 = .data bytes) :
    (receive nBufLen posts l).2.received = l.received ++ bytes := by
  by_cases hready : l.handshakeReady = true
  · by_cases hempty : l.plaintext.length ≤ l.plaintextOffset
    · simp only [receive, hready, Bool.not_true, Bool.false_eq_true, hempty,
        if_true, if_false] at hdata
      split at hdata <;> simp at hdata
    · simp only [receive, hready, Bool.not_true, Bool.false_eq_true, hempty,
        if_false, Got.data.injEq] at hdata ⊢
      rw [resumeTlsReceive_received, (repostRead_keeps _).2.2.2, ← hdata]
      rfl
  · simp [receive, hready] at hdata

/-- Every run in which the end of the stream is met by `OnClose` or by
`close_notify`. -/
theorem stream_conserved {hello : Bytes} {events : List Event}
    (h : Admissible step Fine (.start hello) events) :
    let l := run step (.start hello) events
    l.decrypted = l.received ++ buffered l ++ l.session.plain ∧
      l.produced = l.sent ++ pendingBytes l ++ l.session.tls ∧
      (∀ x ∈ l.shutDowns,
        x.how = .receives ∨ (x.closeNotified = true ∧ x.unsent = 0)) ∧
      bufferedPlaintext l ≤ maxBufferedData ∧
      (∀ nBufLen posts bytes, (receive nBufLen posts l).1 = .data bytes →
        (receive nBufLen posts l).2.received = l.received ++ bytes) ∧
      (∀ nBufLen posts, 0 < nBufLen →
        (receive nBufLen posts l).1 = .eof ∨
          (receive nBufLen posts l).1 = .data [] → l.received = l.decrypted) ∧
      ∀ e, EndsCleanly l e → Fine l e → Delivers (step l e) := by
  have hsafe := safe_run h
  have hc := hsafe.conserves
  refine ⟨hc.plain, hc.tls, hc.shutDowns, ?_, ?_, ?_, ?_⟩
  · rw [bufferedPlaintext_eq]
    have hroom := hc.room
    simp only [buffered, List.length_drop]
    omega
  · intro nBufLen posts bytes hdata
    exact receive_data hdata
  · intro nBufLen posts hlength hzero
    exact receive_zero hsafe hlength hzero
  · intro e hends hfine
    exact endsCleanly_delivers hsafe hends hfine

/-- A socket that has `receives` for the layer, fed to the session as `feeds`. -/
def quietIo (receives : List RawRead) (feeds : List Feed) : Io :=
  ⟨[], receives, feeds, false, id, true⟩

def lastRecord : Feed := ⟨true, 1, [1, 2, 3], [], false, true⟩

theorem stream_conserved_closed :
    Admissible step Fine (.start [])
        [.onReceive false (quietIo [.data [0]] [lastRecord])] ∧
      Delivers (step (run step (.start [])
        [.onReceive false (quietIo [.data [0]] [lastRecord])])
        (.onClose false (quietIo [.data []] []))) :=
  ⟨by decide,
    (@stream_conserved [] [.onReceive false (quietIo [.data [0]] [lastRecord])]
      (by decide)).2.2.2.2.2.2
      (.onClose false (quietIo [.data []] [])) (by decide)
      (by decide)⟩

theorem fin_in_receive_aborts :
    EndsCleanly (.start [])
        (.onReceive false (quietIo [.data [0], .data []] [lastRecord])) ∧
      ¬ Delivers (step (.start [])
        (.onReceive false (quietIo [.data [0], .data []] [lastRecord]))) := by
  refine ⟨by decide, ?_⟩
  intro h
  have htold := h.told [] (by simp) (by decide)
  revert htold
  decide

end SecureLayer

end ProxyLane.Hook
