import ProxyLane.Mitm.Session

/-!
# The relay of a session

`Allowed` says, in terms of the trace alone, what a relay may do: forward what
was decoded, in order and once; write what was forwarded, in order and once;
close a leg behind an authenticated close of the other, with everything
written.  `Conserved` is the state's account of the plaintext that is on its
way; it holds wherever a call returns without an error, and the trace is lawful
wherever it returns.
-/

namespace ProxyLane.Mitm

open Foundation Protocol

/-! ## What a trace says -/

namespace Act

def decodedOn (side : Direction) : Act → Bytes
  | .decoded s bytes => if s = side then bytes else []
  | _ => []

def forwardedFrom (side : Direction) : Act → Bytes
  | .forwarded s bytes => if s = side then bytes else []
  | _ => []

def writtenTo (side : Direction) : Act → Bytes
  | .written s bytes => if s = side then bytes else []
  | _ => []

def takenFrom (side : Direction) : Act → Bytes
  | .offered s bytes true => if s = side then bytes else []
  | _ => []

end Act

def decodedOn (trace : List Act) (side : Direction) : Bytes :=
  trace.flatMap (Act.decodedOn side)

def forwardedFrom (trace : List Act) (side : Direction) : Bytes :=
  trace.flatMap (Act.forwardedFrom side)

def writtenTo (trace : List Act) (side : Direction) : Bytes :=
  trace.flatMap (Act.writtenTo side)

def takenFrom (trace : List Act) (side : Direction) : Bytes :=
  trace.flatMap (Act.takenFrom side)

/-- What the actions `past` let a relay do. -/
def Allowed (past : List Act) : Act → Prop
  | .decoded side bytes => .peerClosed side ∈ past → bytes = []
  | .forwarded side bytes =>
    (forwardedFrom past side ++ bytes) <+: decodedOn past side
  | .written side bytes =>
    (writtenTo past side ++ bytes) <+: forwardedFrom past side.other
  | .closeNotify side =>
    .peerClosed side.other ∈ past ∧ writtenTo past side = decodedOn past side.other
  | _ => True

section Append

variable (trace : List Act) (a : Act) (side : Direction)

@[simp] theorem decodedOn_append :
    decodedOn (trace ++ [a]) side = decodedOn trace side ++ a.decodedOn side := by
  simp [decodedOn]

@[simp] theorem forwardedFrom_append :
    forwardedFrom (trace ++ [a]) side =
      forwardedFrom trace side ++ a.forwardedFrom side := by
  simp [forwardedFrom]

@[simp] theorem writtenTo_append :
    writtenTo (trace ++ [a]) side = writtenTo trace side ++ a.writtenTo side := by
  simp [writtenTo]

@[simp] theorem takenFrom_append :
    takenFrom (trace ++ [a]) side = takenFrom trace side ++ a.takenFrom side := by
  simp [takenFrom]

end Append

@[simp] theorem other_other (side : Direction) : side.other.other = side := by
  cases side <;> rfl

namespace Session

/-! ## The account of the plaintext -/

def chunkOf (hand : Option (Direction × Bytes)) (side : Direction) : Bytes :=
  match hand with
  | some (s, bytes) => if s = side then bytes else []
  | none => []

def undrained (s : Session) : Direction → Bytes
  | .client => s.unread .client
  | .server =>
    s.unread .server ++ ((s.handshake.map fun job => job.leg.plain).getD [])

/-- `hand` is the chunk that is between a leg and the queue of the other. -/
structure Conserved (hand : Option (Direction × Bytes)) (s : Session) :
    Prop where
  moved : ∀ side, decodedOn s.trace side =
    forwardedFrom s.trace side ++ chunkOf hand side ++ s.undrained side
  queued : ∀ side, forwardedFrom s.trace side =
    writtenTo s.trace side.other ++ s.plaintext.get side.other
  ended : ∀ side, s.eof.get side = true → s.drainError = none →
    s.phase ≠ .passthrough → .peerClosed side ∈ s.trace
  closed : ∀ side leg, s.connections.get side = some leg →
    .peerClosed side ∈ s.trace → leg.closed = true
  jobClosed : ∀ job, s.handshake = some job → .peerClosed .server ∈ s.trace →
    job.leg.closed = true
  downstream : s.connections.client ≠ none → s.phase = .active
  upstream : s.connections.server ≠ none →
    s.handshake = none ∧ (s.phase = .upstream ∨ s.phase = .active)
  job : s.handshake ≠ none → s.phase = .upstream
  sent : ∀ side, s.closeSent.get side = true → .closeNotify side ∈ s.trace
  seen : ∀ side, .peerClosed side ∈ s.trace → s.connections.get side ≠ none ∨
    (side = .server ∧ s.handshake ≠ none)

/-- A call has left the trace lawful, and the account right if it has no
error. -/
structure Good (r : Outcome) : Prop where
  lawful : Lawful Allowed r.2.trace
  conserved : r.1 = none → Conserved r.2.capturePending r.2

theorem Good.andThen {r : Outcome} {f : Session → Outcome} (h : Good r)
    (hf : ∀ s, Lawful Allowed s.trace → Conserved s.capturePending s →
      Good (f s)) : Good (r.andThen f) := by
  obtain ⟨e, s⟩ := r
  cases e with
  | none => exact hf s h.lawful (h.conserved rfl)
  | some e => exact ⟨h.lawful, by simp [Outcome.andThen]⟩

theorem good_error {s : Session} (h : Lawful Allowed s.trace) (e : String) :
    Good (some e, s) :=
  ⟨h, by simp⟩

theorem start_conserved (asyncHandshake protocolSource : Bool) :
    Conserved none (start asyncHandshake protocolSource) := by
  constructor
  · intro side
    cases side <;> rfl
  · intro side
    cases side <;> rfl
  · intro side h
    cases side <;> simp [start, Sides.get] at h
  · intro side leg h
    cases side <;> simp [start, Sides.get] at h
  · simp [start]
  · simp [start]
  · simp [start]
  · simp [start]
  · intro side h
    cases side <;> simp [start, Sides.get] at h
  · simp [start]

theorem Conserved.frame {hand : Option (Direction × Bytes)} {s t : Session}
    (h : Conserved hand s)
    (same : t.trace = s.trace ∧ t.connections = s.connections ∧
      t.handshake = s.handshake ∧ t.plaintext = s.plaintext ∧ t.eof = s.eof ∧
      t.drainError = s.drainError ∧ t.phase = s.phase ∧
      t.closeSent = s.closeSent) : Conserved hand t := by
  obtain ⟨h1, h2, h3, h4, h5, h6, h7, h8⟩ := same
  have hun : ∀ side, t.undrained side = s.undrained side := by
    intro side
    cases side <;> simp only [undrained, unread, h2, h3]
  constructor
  · intro side
    rw [h1, hun]
    exact h.moved side
  · rw [h1, h4]
    exact h.queued
  · rw [h1, h5, h6, h7]
    exact h.ended
  · rw [h1, h2]
    exact h.closed
  · rw [h1, h3]
    exact h.jobClosed
  · rw [h2, h7]
    exact h.downstream
  · rw [h2, h3, h7]
    exact h.upstream
  · rw [h3, h7]
    exact h.job
  · rw [h1, h8]
    exact h.sent
  · rw [h1, h2, h3]
    exact h.seen

variable {env : TlsEnv} {hand : Option (Direction × Bytes)} {s : Session}

theorem access_conserved (h : Conserved hand s) : Conserved hand s.access :=
  h.frame (by simp [access])

theorem act_conserved (h : Conserved hand s) (a : Act)
    (hd : ∀ side, a.decodedOn side = []) (hf : ∀ side, a.forwardedFrom side = [])
    (hw : ∀ side, a.writtenTo side = []) (hp : ∀ side, a ≠ .peerClosed side) :
    Conserved hand (s.act a) := by
  have hmem : ∀ side, .peerClosed side ∈ (s.act a).trace ↔
      .peerClosed side ∈ s.trace := by
    intro side
    simp only [act, List.mem_append, List.mem_singleton, or_iff_left_iff_imp]
    exact fun he => absurd he.symm (hp side)
  constructor
  · intro side
    have hm := h.moved side
    cases side <;> simpa [act, hd, hf, undrained, unread] using hm
  · intro side
    simpa [act, hf, hw] using h.queued side
  · intro side he hn hphase
    exact (hmem side).2 (h.ended side he hn hphase)
  · intro side leg hl hc
    exact h.closed side leg hl ((hmem side).1 hc)
  · intro job hj hc
    exact h.jobClosed job hj ((hmem .server).1 hc)
  · exact h.downstream
  · exact h.upstream
  · exact h.job
  · intro side hs
    exact List.mem_append_left _ (h.sent side hs)
  · intro side hc
    exact h.seen side ((hmem side).1 hc)

/-! ## Legs -/

theorem unread_setLeg (side x : Direction) (leg : Leg) :
    (s.setLeg side leg).unread x = if x = side then leg.plain else s.unread x := by
  simp only [unread, setLeg, Sides.get_set]
  split <;> simp

variable {leg : Leg}

theorem handshake_of_leg (h : Conserved hand s)
    (hl : s.connections.get .server = some leg) : s.handshake = none := by
  apply (h.upstream ?_).1
  intro hn
  simp [Sides.get, hn] at hl

theorem undrained_setLeg (h : Conserved hand s) {side : Direction} {old : Leg}
    (hl : s.connections.get side = some old) (leg : Leg) (x : Direction) :
    (s.setLeg side leg).undrained x =
      if x = side then leg.plain else s.undrained x := by
  cases x with
  | client =>
    simp only [undrained, unread_setLeg]
  | server =>
    have hu := unread_setLeg (s := s) side .server leg
    simp only [undrained, hu]
    split
    · rename_i hside
      subst hside
      have hn := handshake_of_leg h hl
      simp [setLeg, hn]
    · rfl

theorem undrained_of_leg (h : Conserved hand s) {side : Direction}
    (hl : s.connections.get side = some leg) : s.undrained side = leg.plain := by
  cases side with
  | client => simp [undrained, unread, hl]
  | server => simp [undrained, unread, hl, handshake_of_leg h hl]

theorem setLeg_conserved (h : Conserved hand s) {side : Direction}
    {old : Leg} (hl : s.connections.get side = some old) (leg : Leg)
    (hclosed : leg.closed = old.closed) (taken : Bytes)
    (hplain : old.plain = taken ++ leg.plain)
    {hand' : Option (Direction × Bytes)}
    (hhand : ∀ x, chunkOf hand' x =
      chunkOf hand x ++ if x = side then taken else []) :
    Conserved hand' (s.setLeg side leg) := by
  have hne : ∀ x, (s.setLeg side leg).connections.get x ≠ none →
      s.connections.get x ≠ none := by
    intro x hx
    simp only [setLeg, Sides.get_set] at hx
    split at hx
    · rename_i hxs
      rw [hxs, hl]
      simp
    · exact hx
  constructor
  · intro x
    have hm := h.moved x
    rw [undrained_setLeg h hl, hhand]
    by_cases hx : x = side
    · subst hx
      rw [undrained_of_leg h hl, hplain] at hm
      simpa [setLeg] using hm
    · simpa [setLeg, hx] using hm
  · exact h.queued
  · exact h.ended
  · intro x leg' hleg hp
    simp only [setLeg, Sides.get_set] at hleg
    split at hleg
    · rename_i hx
      cases hleg
      rw [hclosed]
      exact h.closed side old hl (hx ▸ hp)
    · exact h.closed x leg' hleg hp
  · exact h.jobClosed
  · exact fun hc => h.downstream (hne .client hc)
  · exact fun hc => h.upstream (hne .server hc)
  · exact h.job
  · exact h.sent
  · intro x hx
    refine (h.seen x hx).imp_left fun hn => ?_
    simp only [setLeg, Sides.get_set]
    split
    · simp
    · exact hn

/-! ## Delivering a chunk -/

theorem offer_capturePending (side : Direction) (bytes : Bytes) :
    (s.offer env side bytes).2.capturePending = s.capturePending := by
  unfold offer
  split <;> rfl

theorem offer_conserved (h : Conserved hand s) (side : Direction)
    (bytes : Bytes) : Conserved hand (s.offer env side bytes).2 := by
  unfold offer
  split
  · apply act_conserved (access_conserved h) <;>
      simp [Act.decodedOn, Act.forwardedFrom, Act.writtenTo]
  · exact h

theorem offer_lawful (h : Lawful Allowed s.trace) (side : Direction)
    (bytes : Bytes) : Lawful Allowed (s.offer env side bytes).2.trace := by
  unfold offer
  split
  · exact h.snoc trivial
  · exact h

theorem forward_good (side : Direction) (bytes : Bytes)
    (hlaw : Lawful Allowed s.trace) (hnone : s.capturePending = none)
    (h : Conserved (some (side, bytes)) s) :
    Good (s.forward env side bytes) := by
  unfold forward event Outcome.andThen
  split
  · rename_i t heq
    obtain ⟨-, rfl⟩ := Prod.mk.inj heq
    have hallowed : Allowed s.trace (.forwarded side bytes) := by
      have hm := h.moved side
      simp only [chunkOf, if_true] at hm
      simp only [Allowed]
      rw [hm]
      exact List.prefix_append _ _
    refine ⟨hlaw.snoc hallowed, fun _ => ?_⟩
    simp only [access, hnone]
    constructor
    · intro x
      have hm := h.moved x
      cases x <;>
        simpa [Act.decodedOn, Act.forwardedFrom, chunkOf, undrained, unread] using hm
    · intro x
      have hq := h.queued x
      simp only [forwardedFrom_append, writtenTo_append, Act.forwardedFrom,
        Act.writtenTo, Sides.get_modify, hq, List.append_nil]
      cases x <;> cases side <;> simp [Direction.other]
    · intro x he hn hp
      exact List.mem_append_left _ (h.ended x he hn hp)
    · intro x leg hl hp
      exact h.closed x leg hl (by simpa using hp)
    · intro job hj hp
      exact h.jobClosed job hj (by simpa using hp)
    · exact h.downstream
    · exact h.upstream
    · exact h.job
    · intro x hx
      exact List.mem_append_left _ (h.sent x hx)
    · intro x hx
      exact h.seen x (by simpa using hx)
  · rename_i e t heq
    obtain ⟨-, rfl⟩ := Prod.mk.inj heq
    exact good_error (s := s.access) hlaw e

theorem deliver_good (side : Direction) (bytes : Bytes)
    (hlaw : Lawful Allowed s.trace) (hnone : s.capturePending = none)
    (h : Conserved (some (side, bytes)) s) :
    Good (s.deliver env side bytes) := by
  have hc : Conserved (some (side, bytes)) (s.offer env side bytes).2 :=
    offer_conserved h side bytes
  have hl : Lawful Allowed (s.offer env side bytes).2.trace :=
    offer_lawful hlaw side bytes
  have hp : (s.offer env side bytes).2.capturePending = none := by
    rw [offer_capturePending, hnone]
  unfold deliver
  split
  · rename_i t heq
    rw [heq] at hc hl
    exact ⟨hl, fun _ => hc.frame (by simp)⟩
  · rename_i t heq
    rw [heq] at hc hl hp
    exact forward_good side bytes hl hp hc

theorem retryCapture_good (hlaw : Lawful Allowed s.trace)
    (h : Conserved s.capturePending s) : Good (s.retryCapture env) := by
  unfold retryCapture
  split
  · exact ⟨hlaw, fun _ => h⟩
  · rename_i side bytes heq
    rw [heq] at h
    exact deliver_good side bytes hlaw rfl (h.frame (by simp))

theorem drainLoop_good (side : Direction) (fuel : Nat) :
    ∀ {s : Session}, Lawful Allowed s.trace → s.capturePending = none →
      Conserved none s → Good (drainLoop env side fuel s) := by
  induction fuel with
  | zero =>
    intro s hlaw _ _
    exact good_error hlaw stalled
  | succ fuel ih =>
    intro s hlaw hnone h
    have stay : Good (none, s.access) :=
      ⟨hlaw, fun _ => by
        simpa only [access, hnone] using access_conserved h⟩
    simp only [drainLoop]
    split
    · refine ⟨hlaw, fun _ => ?_⟩
      rw [hnone]
      exact h
    · rename_i leg hleg
      split
      · exact good_error (s := s.access) hlaw _
      · rename_i n _
        split
        · exact stay
        · have hchunk : Conserved
              (some (side, leg.plain.take (max 1 (min n 16384))))
              (s.access.setLeg side
                { leg with plain := leg.plain.drop (max 1 (min n 16384)) }) := by
            refine setLeg_conserved (access_conserved h) hleg _ ?_
              (leg.plain.take (max 1 (min n 16384))) ?_ ?_
            · rfl
            · exact (List.take_append_drop _ _).symm
            · intro x
              simp [chunkOf, eq_comm]
          refine Good.andThen (deliver_good side _ hlaw hnone hchunk)
            fun t htl htc => ?_
          split
          · exact ⟨htl, fun _ => htc⟩
          · rename_i hpend
            have htn : t.capturePending = none := by
              simpa [pending] using hpend
            rw [htn] at htc
            exact ih htl htn htc

theorem drainLeg_good (side : Direction) (hlaw : Lawful Allowed s.trace)
    (h : Conserved s.capturePending s) : Good (s.drainLeg env side) := by
  unfold drainLeg
  split
  · exact ⟨hlaw, fun _ => h⟩
  · rename_i hpend
    have hnone : s.capturePending = none := by
      simpa [pending] using hpend
    rw [hnone] at h
    exact drainLoop_good side _ hlaw hnone h

/-! ## Drained legs -/

def Drained (s : Session) : Prop :=
  s.pending = true ∨ ∀ side, s.unread side = []

theorem deliver_frame (side : Direction) (bytes : Bytes) :
    (s.deliver env side bytes).2.connections = s.connections ∧
      (s.deliver env side bytes).2.phase = s.phase := by
  have ho : (s.offer env side bytes).2.connections = s.connections ∧
      (s.offer env side bytes).2.phase = s.phase := by
    unfold offer
    split <;> exact ⟨rfl, rfl⟩
  unfold deliver
  split
  · rename_i t heq
    rw [heq] at ho
    exact ho
  · rename_i t heq
    rw [heq] at ho
    unfold forward event Outcome.andThen
    split
    · rename_i u hu
      obtain ⟨-, rfl⟩ := Prod.mk.inj hu
      exact ho
    · rename_i u hu
      obtain ⟨-, rfl⟩ := Prod.mk.inj hu
      exact ho

private theorem deliver_connections (side : Direction) (bytes : Bytes) :
    (s.deliver env side bytes).2.connections = s.connections :=
  (deliver_frame side bytes).1

theorem deliver_unread (side x : Direction) (bytes : Bytes) :
    (s.deliver env side bytes).2.unread x = s.unread x := by
  simp only [unread, deliver_connections]

theorem drainLoop_drained (side : Direction) (fuel : Nat) :
    ∀ {s : Session}, (drainLoop env side fuel s).1 = none →
      ((drainLoop env side fuel s).2.pending = true ∨
        (drainLoop env side fuel s).2.unread side = []) ∧
      ∀ x, x ≠ side → (drainLoop env side fuel s).2.unread x = s.unread x := by
  induction fuel with
  | zero => intro s h; simp [drainLoop] at h
  | succ fuel ih =>
    intro s
    simp only [drainLoop]
    split
    · rename_i hleg
      intro _
      exact ⟨Or.inr (by simp [unread, hleg]), fun _ _ => rfl⟩
    · rename_i leg hleg
      split
      · intro h
        simp at h
      · rename_i n _
        split
        · rename_i hempty
          intro _
          exact ⟨Or.inr (by simp [unread, access, hleg, hempty]),
            fun _ _ => rfl⟩
        · generalize hr : Session.deliver env (s.access.setLeg side _) side _ = r
          have hu : ∀ x, x ≠ side → r.2.unread x = s.unread x := by
            intro x hx
            rw [← hr, deliver_unread, unread_setLeg]
            simp [hx, unread, access]
          obtain ⟨e, t⟩ := r
          cases e with
          | some e =>
            intro h
            simp [Outcome.andThen] at h
          | none =>
            simp only [Outcome.andThen]
            split
            · rename_i hpend
              exact fun _ => ⟨Or.inl hpend, hu⟩
            · intro h
              obtain ⟨hdone, hrest⟩ := ih h
              exact ⟨hdone, fun x hx => (hrest x hx).trans (hu x hx)⟩

theorem drainLeg_drained {side : Direction}
    (h : (s.drainLeg env side).1 = none) :
    ((s.drainLeg env side).2.pending = true ∨
        (s.drainLeg env side).2.unread side = []) ∧
      (s.pending = true → (s.drainLeg env side).2.pending = true) ∧
      ∀ x, x ≠ side → (s.drainLeg env side).2.unread x = s.unread x := by
  unfold drainLeg at h ⊢
  split at h
  · rename_i hpend
    simp only [hpend, if_true, true_or, implies_true, and_self]
  · rename_i hpend
    simp only [hpend, Bool.false_eq_true, if_false]
    obtain ⟨hdone, hrest⟩ := drainLoop_drained side _ h
    exact ⟨hdone, fun hp => by simp at hp, hrest⟩

structure Settled (r : Outcome) : Prop where
  good : Good r
  drained : r.1 = none → Drained r.2

theorem Settled.andThen {r : Outcome} {f : Session → Outcome} (h : Settled r)
    (hf : ∀ s, Lawful Allowed s.trace → Conserved s.capturePending s →
      Drained s → Settled (f s)) : Settled (r.andThen f) := by
  obtain ⟨e, s⟩ := r
  cases e with
  | none => exact hf s h.good.lawful (h.good.conserved rfl) (h.drained rfl)
  | some e => exact ⟨good_error h.good.lawful e, by simp [Outcome.andThen]⟩

theorem settled_error {s : Session} (h : Lawful Allowed s.trace) (e : String) :
    Settled (some e, s) :=
  ⟨good_error h e, by simp⟩

theorem drainLegs_settled (hlaw : Lawful Allowed s.trace)
    (h : Conserved s.capturePending s) :
    Settled ((s.drainLeg env .client).andThen fun s => s.drainLeg env .server) := by
  have hc : Good (s.drainLeg env .client) := drainLeg_good .client hlaw h
  refine ⟨hc.andThen fun t htl htc => drainLeg_good .server htl htc, ?_⟩
  generalize hr : s.drainLeg env .client = r
  obtain ⟨e, t⟩ := r
  cases e with
  | some e =>
    intro hn
    simp [Outcome.andThen] at hn
  | none =>
    simp only [Outcome.andThen]
    intro hn
    have hfirst := @drainLeg_drained env s .client (by rw [hr])
    rw [hr] at hfirst
    obtain ⟨hdone, hkeep, hrest⟩ := drainLeg_drained hn
    obtain hp | hclient := hfirst.1
    · exact Or.inl (hkeep hp)
    · obtain hp | hserver := hdone
      · exact Or.inl hp
      · refine Or.inr fun side => ?_
        cases side with
        | client => rw [hrest .client (by simp), hclient]
        | server => exact hserver

/-! ## Writing -/

theorem drained_setLeg {side : Direction} {old : Leg}
    (hl : s.connections.get side = some old) (hplain : leg.plain = old.plain)
    (h : Drained s) : Drained (s.setLeg side leg) := by
  refine h.imp_right fun hu x => ?_
  rw [unread_setLeg]
  split
  · rename_i hx
    have hside := hu side
    simp only [unread, hl, Option.map_some, Option.getD_some] at hside
    rw [hplain, hside]
  · exact hu x

theorem encrypted_conserved (h : Conserved hand s) {side : Direction}
    (hl : s.connections.get side = some leg) (wire : Bytes) :
    Conserved hand (s.access.setLeg side { leg with wire := wire }) := by
  refine setLeg_conserved (access_conserved h) hl _ ?_ [] ?_ ?_
  · rfl
  · rfl
  · intro x
    split <;> simp

theorem written_conserved (h : Conserved hand s) (side : Direction) (n : Nat)
    {t : Session} (same : t.connections = s.connections ∧
      t.handshake = s.handshake ∧ t.eof = s.eof ∧
      t.drainError = s.drainError ∧ t.phase = s.phase ∧
      t.closeSent = s.closeSent)
    (hp : t.plaintext = s.plaintext.modify side (·.drop n))
    (ht : t.trace = s.trace ++ [.written side ((s.plaintext.get side).take n)]) :
    Conserved hand t := by
  obtain ⟨h1, h2, h3, h4, h5, h6⟩ := same
  have hun : ∀ x, t.undrained x = s.undrained x := by
    intro x
    cases x <;> simp only [undrained, unread, h1, h2]
  constructor
  · intro x
    rw [hun, ht]
    simpa [Act.decodedOn, Act.forwardedFrom] using h.moved x
  · intro x
    have hq := h.queued x
    rw [ht, hp]
    simp only [forwardedFrom_append, writtenTo_append, Act.forwardedFrom,
      Act.writtenTo, Sides.get_modify, hq, List.append_nil, List.append_assoc]
    by_cases hx : x.other = side
    · simp [hx]
    · have hx' : ¬ side = x.other := fun h => hx h.symm
      simp [hx, hx']
  · intro x
    rw [h3, h4, h5, ht]
    intro he hn hphase
    exact List.mem_append_left _ (h.ended x he hn hphase)
  · intro x leg hl hc
    rw [h1] at hl
    rw [ht] at hc
    exact h.closed x leg hl (by simpa using hc)
  · intro job hj hc
    rw [h2] at hj
    rw [ht] at hc
    exact h.jobClosed job hj (by simpa using hc)
  · rw [h1, h5]
    exact h.downstream
  · rw [h1, h2, h5]
    exact h.upstream
  · rw [h2, h5]
    exact h.job
  · intro x hx
    rw [h6] at hx
    rw [ht]
    exact List.mem_append_left _ (h.sent x hx)
  · intro x hx
    rw [ht] at hx
    rw [h1, h2]
    exact h.seen x (by simpa using hx)

theorem writeLoop_settled (side : Direction) (fuel : Nat) :
    ∀ {s : Session}, Lawful Allowed s.trace → Conserved s.capturePending s →
      Drained s → Settled (writeLoop env side fuel s) := by
  induction fuel with
  | zero =>
    intro s hlaw _ _
    exact settled_error hlaw stalled
  | succ fuel ih =>
    intro s hlaw h hd
    simp only [writeLoop]
    split
    · exact ⟨⟨hlaw, fun _ => h⟩, fun _ => hd⟩
    · rename_i leg hleg
      split
      · exact ⟨⟨hlaw, fun _ => h⟩, fun _ => hd⟩
      · split
        · exact settled_error (s := s.access) hlaw _
        · rename_i out _
          split
          · exact ⟨⟨hlaw, fun _ => access_conserved h⟩, fun _ => hd⟩
          · have hc := encrypted_conserved h hleg (leg.wire ++ out.wire)
            have hdr : Drained (s.access.setLeg side
                { leg with wire := leg.wire ++ out.wire }) :=
              drained_setLeg (s := s.access) hleg rfl hd
            apply ih
            · apply hlaw.snoc
              have hq := h.queued side.other
              rw [other_other] at hq
              simp only [Allowed]
              rw [hq]
              exact (List.prefix_append_right_inj _).2 (List.take_prefix _ _)
            · exact written_conserved hc side out.taken (by simp) rfl rfl
            · exact hdr

theorem phase_of_leg (h : Conserved hand s) {side : Direction}
    (hl : s.connections.get side = some leg) :
    s.phase = .upstream ∨ s.phase = .active := by
  cases side with
  | client =>
    right
    apply h.downstream
    intro hn
    simp [Sides.get, hn] at hl
  | server =>
    refine (h.upstream ?_).2
    intro hn
    simp [Sides.get, hn] at hl

/-- Where the leg of a side is there and nothing is left to read, nothing of
the other leg is missing. -/
theorem undrained_other (h : Conserved hand s) {side : Direction}
    (hl : s.connections.get side = some leg)
    (hu : ∀ x, s.unread x = []) : s.undrained side.other = [] := by
  cases side with
  | client =>
    have hactive : s.phase = .active := by
      apply h.downstream
      intro hn
      simp [Sides.get, hn] at hl
    have hjob : s.handshake = none := by
      by_contra hj
      simp [h.job hj] at hactive
    simp [undrained, Direction.other, hu, hjob]
  | server => simp [undrained, Direction.other, hu]

theorem sendClose_settled (side : Direction) (hlaw : Lawful Allowed s.trace)
    (h : Conserved s.capturePending s) (hd : Drained s) :
    Settled (s.sendClose env side) := by
  unfold sendClose
  split
  · exact ⟨⟨hlaw, fun _ => h⟩, fun _ => hd⟩
  · rename_i leg hleg
    split
    · rename_i hcond
      simp only [Bool.and_eq_true, Option.isNone_iff_eq_none, Bool.not_eq_true',
        List.isEmpty_iff] at hcond
      obtain ⟨⟨⟨⟨⟨heof, hdrain⟩, hpend⟩, -⟩, hempty⟩, -⟩ := hcond
      have hnone : s.capturePending = none := by
        simpa [pending] using hpend
      have hphase : s.phase ≠ .passthrough := by
        obtain hp | hp := phase_of_leg h hleg <;> simp [hp]
      have hunread : ∀ x, s.unread x = [] := by
        obtain hp | hu := hd
        · simp [hp] at hpend
        · exact hu
      have hallowed : Allowed s.trace (.closeNotify side) := by
        refine ⟨h.ended side.other heof hdrain hphase, ?_⟩
        have hm := h.moved side.other
        have hq := h.queued side.other
        simp only [other_other, hempty, List.append_nil] at hq
        simp only [hnone, chunkOf, undrained_other h hleg hunread,
          List.append_nil] at hm
        rw [hm, hq]
      have hc := encrypted_conserved h hleg (leg.wire ++ env.closeNotify s.accesses)
      have hdr : Drained (s.access.setLeg side { leg with
          wire := leg.wire ++ env.closeNotify s.accesses }) :=
        drained_setLeg (s := s.access) hleg rfl hd
      have ha := act_conserved hc (.closeNotify side) (by simp [Act.decodedOn])
        (by simp [Act.forwardedFrom]) (by simp [Act.writtenTo]) (by simp)
      refine ⟨⟨hlaw.snoc hallowed, fun _ => ?_⟩, fun _ => hdr⟩
      refine ⟨ha.moved, ha.queued, ha.ended, ha.closed, ha.jobClosed,
        ha.downstream, ha.upstream, ha.job, ?_, ha.seen⟩
      intro x hx
      simp only [Sides.get_set] at hx
      split at hx
      · rename_i hxs
        simp [hxs]
      · exact List.mem_append_left _ (h.sent x hx)
    · exact ⟨⟨hlaw, fun _ => h⟩, fun _ => hd⟩

theorem flushLoop_settled (side : Direction) (fuel : Nat) :
    ∀ {s : Session}, Lawful Allowed s.trace → Conserved s.capturePending s →
      Drained s → Settled (flushLoop env side fuel s) := by
  induction fuel with
  | zero =>
    intro s hlaw _ _
    exact settled_error hlaw stalled
  | succ fuel ih =>
    intro s hlaw h hd
    simp only [flushLoop]
    split
    · exact ⟨⟨hlaw, fun _ => h⟩, fun _ => hd⟩
    · rename_i leg hleg
      split
      · exact ⟨⟨hlaw, fun _ => h⟩, fun _ => hd⟩
      · split
        · exact settled_error (s := s.access) hlaw _
        · rename_i n _
          split
          · exact ⟨⟨hlaw, fun _ => access_conserved h⟩, fun _ => hd⟩
          · have hc := encrypted_conserved h hleg (leg.wire.drop n)
            have hdr : Drained (s.access.setLeg side
                { leg with wire := leg.wire.drop n }) :=
              drained_setLeg (s := s.access) hleg rfl hd
            exact ih hlaw (hc.frame (by simp)) hdr

theorem writeLeg_settled (side : Direction) (hlaw : Lawful Allowed s.trace)
    (h : Conserved s.capturePending s) (hd : Drained s) :
    Settled (s.writeLeg env side) := by
  have hwritten : Settled (if s.established side then
      (writeLoop env side ((s.plaintext.get side).length + 1) s).andThen
        fun s => s.sendClose env side
      else (none, s)) := by
    split
    · exact (writeLoop_settled side _ hlaw h hd).andThen
        fun t htl htc htd => sendClose_settled side htl htc htd
    · exact ⟨⟨hlaw, fun _ => h⟩, fun _ => hd⟩
  exact hwritten.andThen fun t htl htc htd =>
    flushLoop_settled side _ htl htc htd

/-! ## Reading -/

theorem absorb_ok {leg' : Leg} {data fresh rest : Bytes}
    (h : s.absorb env leg data = .ok (leg', fresh, rest)) :
    ∃ flight, leg' = leg.process flight ∧ fresh = leg.fresh flight := by
  unfold absorb at h
  split at h
  · simp at h
  · split at h
    · simp at h
    · split at h
      · simp at h
      · rename_i flight _
        simp only [Except.ok.injEq, Prod.mk.injEq] at h
        exact ⟨flight, h.1.symm, h.2.1.symm⟩

theorem decoded_conserved {side : Direction} (flight : Flight)
    (h : Conserved hand s) (hl : s.connections.get side = some leg) :
    Conserved hand ((s.access.setLeg side (leg.process flight)).act
      (.decoded side (leg.fresh flight))) := by
  have hset : ∀ x, (s.access.setLeg side (leg.process flight)).connections.get x ≠
      none → s.connections.get x ≠ none := by
    intro x hx
    simp only [setLeg, Sides.get_set] at hx
    split at hx
    · rename_i hxs
      simp [hxs, hl]
    · exact hx
  constructor
  · intro x
    have hm := h.moved x
    have hu := undrained_setLeg (access_conserved h) hl (leg.process flight) x
    have hact : ((s.access.setLeg side (leg.process flight)).act
        (.decoded side (leg.fresh flight))).undrained x =
          (s.access.setLeg side (leg.process flight)).undrained x := by
      cases x <;> rfl
    have hsame : s.access.undrained x = s.undrained x := by
      cases x <;> rfl
    have htrace : ((s.access.setLeg side (leg.process flight)).act
        (.decoded side (leg.fresh flight))).trace =
          s.trace ++ [.decoded side (leg.fresh flight)] := rfl
    rw [hact, hu, hsame, htrace, decodedOn_append, forwardedFrom_append]
    simp only [Act.decodedOn, Act.forwardedFrom, List.append_nil]
    by_cases hx : x = side
    · subst hx
      rw [hm, undrained_of_leg h hl]
      simp [Leg.process]
    · have hx' : ¬ side = x := fun h => hx h.symm
      simpa [hx, hx'] using hm
  · intro x
    simpa [act, setLeg, access, Act.forwardedFrom, Act.writtenTo] using h.queued x
  · intro x he hn hp
    exact List.mem_append_left _ (h.ended x he hn hp)
  · intro x leg' hleg hp
    simp only [act, setLeg, access, List.mem_append, List.mem_singleton,
      reduceCtorEq, or_false] at hp
    simp only [act, setLeg, access, Sides.get_set] at hleg
    split at hleg
    · rename_i hx
      cases hleg
      simp [Leg.process, h.closed side leg hl (hx ▸ hp)]
    · exact h.closed x leg' hleg hp
  · intro job hj hp
    exact h.jobClosed job hj (by simpa [act, setLeg, access] using hp)
  · exact fun hc => h.downstream (hset .client hc)
  · exact fun hc => h.upstream (hset .server hc)
  · exact h.job
  · intro x hx
    exact List.mem_append_left _ (h.sent x hx)
  · intro x hx
    have hold := h.seen x (by simpa [act, setLeg, access] using hx)
    refine hold.imp_left fun hn => ?_
    simp only [act, setLeg, Sides.get_set]
    split
    · simp
    · exact hn

theorem peerClosed_conserved {side : Direction} (h : Conserved hand s)
    (hl : s.connections.get side = some leg) (hclosed : leg.closed = true) :
    Conserved hand { s.act (.peerClosed side) with
      eof := s.eof.set side true } := by
  constructor
  · intro x
    have hm := h.moved x
    cases x <;>
      simpa [act, Act.decodedOn, Act.forwardedFrom, undrained, unread] using hm
  · intro x
    simpa [act, Act.forwardedFrom, Act.writtenTo] using h.queued x
  · intro x he hn hp
    simp only [Sides.get_set] at he
    split at he
    · rename_i hx
      simp [act, hx]
    · exact List.mem_append_left _ (h.ended x he hn hp)
  · intro x leg' hleg hp
    by_cases hx : x = side
    · subst hx
      rw [show s.connections.get x = some leg' from hleg] at hl
      cases hl
      exact hclosed
    · apply h.closed x leg' hleg
      simpa [act, hx] using hp
  · intro job hj hp
    by_cases hx : side = .server
    · subst hx
      have hn := handshake_of_leg h hl
      simp [act, hn] at hj
    · apply h.jobClosed job hj
      have hx' : ¬ Direction.server = side := fun h => hx h.symm
      simpa [act, hx'] using hp
  · exact h.downstream
  · exact h.upstream
  · exact h.job
  · intro x hx
    exact List.mem_append_left _ (h.sent x hx)
  · intro x hx
    by_cases hxs : x = side
    · left
      rw [hxs]
      simp [act, hl]
    · exact h.seen x (by simpa [act, hxs] using hx)

theorem absorbed_good {side : Direction} (flight : Flight)
    (hlaw : Lawful Allowed s.trace) (h : Conserved s.capturePending s)
    (hl : s.connections.get side = some leg) :
    Good (none, s.absorbed side (leg.process flight) (leg.fresh flight)) := by
  have hallowed : Allowed s.trace (.decoded side (leg.fresh flight)) := by
    intro hp
    simp [Leg.fresh, h.closed side leg hl hp]
  have hdec := decoded_conserved flight h hl
  have hdlaw := hlaw.snoc hallowed
  simp only [absorbed]
  split
  · rename_i hclosed
    refine ⟨hdlaw.snoc trivial, fun _ => ?_⟩
    exact peerClosed_conserved hdec (by simp [act, setLeg]) hclosed
  · exact ⟨hdlaw, fun _ => hdec⟩

/-! ## The pump -/

def Keeps (f : Session → Outcome) : Prop :=
  ∀ s, Lawful Allowed s.trace → Conserved s.capturePending s → Settled (f s)

structure KeepsFeed (feed : Direction → Bytes → Session → Outcome) : Prop where
  good : ∀ side data s, Lawful Allowed s.trace →
    Conserved s.capturePending s → Good (feed side data s)
  settled : ∀ side data s, Lawful Allowed s.trace →
    Conserved s.capturePending s → data ≠ [] ∨ Drained s →
    Settled (feed side data s)

variable {feed : Direction → Bytes → Session → Outcome}
  {again : Session → Outcome}

theorem feedStep_settled (hpump : Keeps again) (hloop : KeepsFeed feed)
    (side : Direction) {data : Bytes} (hdata : data ≠ [])
    (hlaw : Lawful Allowed s.trace) (h : Conserved s.capturePending s) :
    Settled (feedStep env again feed side data s) := by
  unfold feedStep
  rw [if_neg hdata]
  split
  · exact settled_error hlaw _
  · rename_i leg hleg
    split
    · exact settled_error (s := s.access) hlaw _
    · rename_i leg' fresh rest habsorb
      obtain ⟨flight, rfl, rfl⟩ := absorb_ok habsorb
      have hg := absorbed_good flight hlaw h hleg
      refine Settled.andThen (hpump _ hg.lawful (hg.conserved rfl))
        fun t htl htc htd => ?_
      split
      · rename_i hpend
        exact ⟨⟨htl, fun _ => htc.frame (by simp)⟩, fun _ => Or.inl hpend⟩
      · exact hloop.settled side rest t htl htc (Or.inr htd)

theorem feedStep_keeps (hpump : Keeps again) (hloop : KeepsFeed feed) :
    KeepsFeed (feedStep env again feed) := by
  constructor
  · intro side data s hlaw h
    by_cases hdata : data = []
    · simp only [feedStep, hdata, if_true]
      exact ⟨hlaw, fun _ => h⟩
    · exact (feedStep_settled hpump hloop side hdata hlaw h).good
  · intro side data s hlaw h hd
    by_cases hdata : data = []
    · simp only [feedStep, hdata, if_true]
      exact ⟨⟨hlaw, fun _ => h⟩, fun _ => hd.resolve_left (by simp [hdata])⟩
    · exact feedStep_settled hpump hloop side hdata hlaw h

theorem unread_client (h : Conserved hand s) (hphase : s.phase ≠ .active) :
    s.unread .client = [] := by
  have hclient : s.connections.client = none := by
    by_contra hn
    exact hphase (h.downstream hn)
  simp [unread, Sides.get, hclient]

theorem jobStart_conserved (data : Bytes) (h : Conserved hand s)
    (hl : s.connections.server = some leg) (hphase : s.phase = .upstream) :
    Conserved hand { s.access with
      connections := s.connections.set .server none
      handshake := some ⟨leg, data⟩ } := by
  have hget : s.connections.get .server = some leg := hl
  constructor
  · intro x
    have hm := h.moved x
    cases x with
    | client => exact hm
    | server =>
      rw [undrained_of_leg h hget] at hm
      simpa [undrained, unread, access] using hm
  · exact h.queued
  · exact h.ended
  · intro x leg' hleg hp
    cases x with
    | client => exact h.closed .client leg' hleg hp
    | server => simp [Sides.get, Sides.set] at hleg
  · intro job hj hp
    cases hj
    exact h.closed .server leg hget hp
  · exact h.downstream
  · simp [Sides.set]
  · exact fun _ => hphase
  · exact h.sent
  · intro x hx
    cases x with
    | client => exact Or.inl ((h.seen .client hx).resolve_right (by simp))
    | server => exact Or.inr ⟨rfl, by simp⟩

theorem jobStart_drained (data : Bytes) (h : Conserved hand s)
    (hphase : s.phase = .upstream) :
    Drained { s.access with
      connections := s.connections.set .server none
      handshake := some ⟨leg, data⟩ } := by
  have hclient : s.unread .client = [] := unread_client h (by simp [hphase])
  refine Or.inr fun side => ?_
  cases side with
  | client => exact hclient
  | server => simp [unread]

theorem feedTls_keeps (hloop : KeepsFeed feed) : KeepsFeed (feedTls env feed) := by
  have keeps : ∀ (side : Direction) (data : Bytes) (s : Session),
      Lawful Allowed s.trace → Conserved s.capturePending s →
      Good (feedTls env feed side data s) ∧
        (data ≠ [] ∨ Drained s → Settled (feedTls env feed side data s)) := by
    intro side data s hlaw h
    unfold feedTls
    split
    · rename_i hpend
      suffices hs : Settled _ from ⟨hs.good, fun _ => hs⟩
      split
      · exact settled_error hlaw _
      · exact ⟨⟨hlaw, fun _ => h.frame (by simp)⟩, fun _ => Or.inl hpend⟩
    · split
      · rename_i hjob
        suffices hs : Settled _ from ⟨hs.good, fun _ => hs⟩
        split
        · exact settled_error hlaw _
        · rename_i leg hleg
          simp only
          split
          · exact ⟨⟨hlaw, fun _ => jobStart_conserved data h hleg hjob.2.1⟩,
              fun _ => jobStart_drained data h hjob.2.1⟩
          · exact ⟨⟨hlaw, by simp⟩, by simp⟩
      · exact ⟨hloop.good side data s hlaw h, hloop.settled side data s hlaw h⟩
  exact ⟨fun side data s hlaw h => (keeps side data s hlaw h).1,
    fun side data s hlaw h => (keeps side data s hlaw h).2⟩

theorem feedPending_good (hfeed : KeepsFeed feed) (side : Direction)
    (hlaw : Lawful Allowed s.trace) (h : Conserved s.capturePending s) :
    Good (feedPending feed side s) := by
  unfold feedPending
  split
  · exact ⟨hlaw, fun _ => h⟩
  · exact hfeed.good side _ _ hlaw (h.frame (by simp))

theorem newClient_conserved (wire : Bytes) (h : Conserved hand s)
    (hphase : s.phase = .upstream) (hjob : s.handshake = none) :
    Conserved hand { s.access.setLeg .client { wire := wire } with
      phase := .active } := by
  have hclient : s.connections.client = none := by
    by_contra hn
    simp [h.downstream hn] at hphase
  constructor
  · intro x
    have hm := h.moved x
    cases x with
    | client =>
      simpa [undrained, unread, Sides.get, hclient, setLeg, access, Sides.set]
        using hm
    | server => exact hm
  · exact h.queued
  · intro x he hn _
    exact h.ended x he hn (by simp [hphase])
  · intro x leg hleg hp
    cases x with
    | client =>
      have hseen := h.seen .client hp
      simp [Sides.get, hclient] at hseen
    | server => exact h.closed .server leg hleg hp
  · exact h.jobClosed
  · exact fun _ => rfl
  · exact fun _ => ⟨hjob, Or.inr rfl⟩
  · exact fun hn => absurd hjob hn
  · exact h.sent
  · intro x hx
    cases x with
    | client => exact Or.inl (by simp [setLeg, Sides.get, Sides.set])
    | server => exact h.seen .server hx

theorem event_good (hlaw : Lawful Allowed s.trace)
    (h : Conserved s.capturePending s) : Good (s.event env) :=
  ⟨hlaw, fun _ => access_conserved h⟩

theorem joinCapture_lawful (hlaw : Lawful Allowed s.trace) (wire : Bytes) :
    Lawful Allowed (s.joinCapture env wire).trace := by
  simp only [joinCapture]
  split
  · exact hlaw.snoc trivial
  · exact hlaw

theorem joinCapture_conserved (wire : Bytes) (h : Conserved s.capturePending s)
    (hphase : s.phase = .upstream) (hjob : s.handshake = none) :
    Conserved (s.joinCapture env wire).capturePending (s.joinCapture env wire) := by
  have hc := newClient_conserved wire h hphase hjob
  simp only [joinCapture]
  split
  · have ha := act_conserved (access_conserved hc) .tapped
      (by simp [Act.decodedOn]) (by simp [Act.forwardedFrom])
      (by simp [Act.writtenTo]) (by simp)
    exact ha.frame (by simp)
  · exact (access_conserved hc).frame (by simp)

theorem finishUpstream_good (hfeed : KeepsFeed feed)
    (hlaw : Lawful Allowed s.trace) (h : Conserved s.capturePending s)
    (hphase : s.phase = .upstream) (hjob : s.handshake = none) :
    Good (s.finishUpstream env feed) := by
  unfold finishUpstream
  split
  · exact good_error (s := s.access) hlaw _
  · rename_i wire _
    refine Good.andThen (event_good (joinCapture_lawful hlaw wire)
      (joinCapture_conserved wire h hphase hjob)) fun u hul huc => ?_
    split
    · exact ⟨hul, fun _ => huc⟩
    · exact hfeed.good .client _ _ hul (huc.frame (by simp))

theorem jobEnd_conserved {job : HandshakeJob} (h : Conserved hand s)
    (hj : s.handshake = some job) :
    Conserved hand { s with
      handshake := none
      connections := s.connections.set .server (some job.leg) } := by
  have hphase : s.phase = .upstream := h.job (by simp [hj])
  have hserver : s.connections.server = none := by
    by_contra hn
    simp [(h.upstream hn).1] at hj
  constructor
  · intro x
    have hm := h.moved x
    cases x with
    | client => exact hm
    | server =>
      simpa [undrained, unread, Sides.get, Sides.set, hserver, hj] using hm
  · exact h.queued
  · exact h.ended
  · intro x leg hleg hp
    cases x with
    | client => exact h.closed .client leg hleg hp
    | server =>
      cases hleg
      exact h.jobClosed job hj hp
  · simp
  · exact h.downstream
  · exact fun _ => ⟨rfl, Or.inl hphase⟩
  · simp
  · exact h.sent
  · intro x hx
    cases x with
    | client => exact Or.inl ((h.seen .client hx).resolve_right (by simp))
    | server => exact Or.inl (by simp [Sides.get, Sides.set])

theorem pollHandshake_settled (hfeed : KeepsFeed feed) (hagain : Keeps again)
    (hlaw : Lawful Allowed s.trace) (h : Conserved s.capturePending s)
    {job : HandshakeJob} (hj : s.handshake = some job) :
    Settled (s.pollHandshake env feed again job) := by
  unfold pollHandshake
  split
  · exact settled_error (s := s.access) hlaw _
  · refine ⟨⟨hlaw, fun _ => access_conserved h⟩, fun _ => Or.inr fun side => ?_⟩
    have hphase := h.job (by simp [hj])
    have hclient : s.unread .client = [] := unread_client h (by simp [hphase])
    cases side with
    | client => exact hclient
    | server =>
      have hserver : s.connections.server = none := by
        by_contra hn
        simp [(h.upstream hn).1] at hj
      simp [unread, access, Sides.get, hserver]
  · split
    · exact settled_error (s := s.access) hlaw _
    · rename_i leg' fresh rest habsorb
      obtain ⟨flight, rfl, rfl⟩ := absorb_ok habsorb
      have hback := jobEnd_conserved h hj
      have hget : (s.connections.set .server (some job.leg)).get .server =
          some job.leg := rfl
      have hg : Good (none, ({ s with handshake := none } : Session).absorbed
          .server (job.leg.process flight) (job.leg.fresh flight)) :=
        absorbed_good (s := { s with
          handshake := none
          connections := s.connections.set .server (some job.leg) })
          flight hlaw hback hget
      refine Settled.andThen (hagain _ hg.lawful (hg.conserved rfl))
        fun t htl htc htd => ?_
      split
      · exact ⟨⟨htl, fun _ => htc⟩, fun _ => htd⟩
      · exact hfeed.settled .server rest t htl htc (Or.inr htd)

theorem beginDownstream_good (hfeed : KeepsFeed feed)
    (hlaw : Lawful Allowed s.trace) (h : Conserved s.capturePending s) :
    Good (s.beginDownstream env feed) := by
  unfold beginDownstream
  split
  · rename_i hphase
    split
    · exact good_error hlaw _
    · rename_i leg hleg
      split
      · exact ⟨hlaw, fun _ => h⟩
      · have hget : s.connections.get .server = some leg := hleg
        exact finishUpstream_good hfeed hlaw h hphase (handshake_of_leg h hget)
  · exact ⟨hlaw, fun _ => h⟩

theorem andThen_assoc (r : Outcome) (f g : Session → Outcome) :
    (r.andThen f).andThen g = r.andThen fun s => (f s).andThen g := by
  obtain ⟨e, s⟩ := r
  cases e <;> rfl

theorem drained_of_phase (h : Conserved hand s)
    (hphase : ¬ (s.phase = .upstream ∨ s.phase = .active)) : Drained s := by
  refine Or.inr fun side => ?_
  unfold unread
  cases hl : s.connections.get side with
  | none => rfl
  | some leg => exact absurd (phase_of_leg h hl) hphase

theorem pumpLegs_settled (hfeed : KeepsFeed feed)
    (hlaw : Lawful Allowed s.trace) (h : Conserved s.capturePending s) :
    Settled (s.pumpLegs env feed) := by
  have hwritten : ∀ u : Session, Lawful Allowed u.trace →
      Conserved u.capturePending u → Drained u →
      Settled ((u.writeLeg env .client).andThen fun v =>
        v.writeLeg env .server) := by
    intro u hul huc hud
    exact (writeLeg_settled .client hul huc hud).andThen
      fun v hvl hvc hvd => writeLeg_settled .server hvl hvc hvd
  have hlegs : ∀ t : Session, Lawful Allowed t.trace →
      Conserved t.capturePending t →
      Settled ((t.drainLeg env .client).andThen fun t =>
        (t.drainLeg env .server).andThen fun u =>
          (u.writeLeg env .client).andThen fun v => v.writeLeg env .server) := by
    intro t htl htc
    have hdrained : Settled ((t.drainLeg env .client).andThen fun u =>
        u.drainLeg env .server) := drainLegs_settled htl htc
    have hall := hdrained.andThen hwritten
    rw [andThen_assoc] at hall
    exact hall
  unfold pumpLegs
  split
  · have hbegin : Good (s.beginDownstream env feed) :=
      beginDownstream_good hfeed hlaw h
    generalize s.beginDownstream env feed = r at hbegin
    obtain ⟨e, t⟩ := r
    cases e with
    | none => exact hlegs t hbegin.lawful (hbegin.conserved rfl)
    | some e => exact settled_error hbegin.lawful e
  · rename_i hphase
    exact ⟨⟨hlaw, fun _ => h⟩, fun _ => drained_of_phase h hphase⟩

theorem pumpWith_keeps (hfeed : KeepsFeed feed) (hagain : Keeps again) :
    Keeps (pumpWith env feed again) := by
  intro s hlaw h
  have held : Good (((s.retryCapture env).andThen fun s =>
      s.feedPending feed .client).andThen fun s => s.feedPending feed .server) := by
    refine Good.andThen ?_ fun u hul huc => feedPending_good hfeed .server hul huc
    exact (retryCapture_good hlaw h).andThen
      fun t htl htc => feedPending_good hfeed .client htl htc
  unfold pumpWith
  rw [← andThen_assoc, ← andThen_assoc]
  generalize ((s.retryCapture env).andThen fun s =>
    s.feedPending feed .client).andThen (fun s => s.feedPending feed .server) =
      r at held
  obtain ⟨e, v⟩ := r
  cases e with
  | some e => exact settled_error held.lawful e
  | none =>
    have hvl := held.lawful
    have hvc := held.conserved rfl
    simp only [Outcome.andThen]
    split
    · rename_i hpend
      exact ⟨⟨hvl, fun _ => hvc⟩, fun _ => Or.inl hpend⟩
    · split
      · rename_i job hj
        exact pollHandshake_settled hfeed hagain hvl hvc hj
      · exact pumpLegs_settled hfeed hvl hvc

theorem machine_keeps (depth : Nat) :
    KeepsFeed (machine env depth).1 ∧ Keeps (machine env depth).2 := by
  induction depth with
  | zero =>
    refine ⟨⟨?_, ?_⟩, fun s hlaw _ => settled_error hlaw stalled⟩
    · exact fun _ _ s hlaw _ => good_error hlaw stalled
    · exact fun _ _ s hlaw _ _ => settled_error hlaw stalled
  | succ depth ih =>
    exact ⟨feedStep_keeps ih.2 ih.1, pumpWith_keeps (feedTls_keeps ih.1) ih.2⟩

theorem pump_settled (depth : Nat) : Keeps (pump env depth) :=
  (machine_keeps depth).2

/-! ## Calls -/

theorem rephase_conserved (h : Conserved hand s) (phase : Phase)
    (hold : s.phase ≠ .upstream ∧ s.phase ≠ .active)
    (hpass : phase ≠ .passthrough → s.phase ≠ .passthrough) {t : Session}
    (same : t.trace = s.trace ∧ t.connections = s.connections ∧
      t.handshake = s.handshake ∧ t.plaintext = s.plaintext ∧ t.eof = s.eof ∧
      t.drainError = s.drainError ∧ t.closeSent = s.closeSent)
    (ht : t.phase = phase) : Conserved hand t := by
  have hclient : s.connections.client = none := by
    by_contra hn
    exact hold.2 (h.downstream hn)
  have hserver : s.connections.server = none := by
    by_contra hn
    obtain hp | hp := (h.upstream hn).2
    · exact hold.1 hp
    · exact hold.2 hp
  have hjob : s.handshake = none := by
    by_contra hn
    exact hold.1 (h.job hn)
  obtain ⟨h1, h2, h3, h4, h5, h6, h7⟩ := same
  have hf : Conserved hand { t with phase := s.phase } :=
    h.frame ⟨h1, h2, h3, h4, h5, h6, rfl, h7⟩
  refine ⟨hf.moved, hf.queued, ?_, hf.closed, hf.jobClosed, ?_, ?_, ?_, hf.sent,
    hf.seen⟩
  · intro x he hn hp
    rw [ht] at hp
    exact hf.ended x he hn (hpass hp)
  · rw [h2, hclient]
    simp
  · rw [h2, hserver]
    simp
  · rw [h3, hjob]
    simp

theorem newServer_conserved (wire : Bytes) (h : Conserved hand s)
    (hphase : s.phase = .hello) :
    Conserved hand { s.access.setLeg .server { wire := wire } with
      phase := .upstream } := by
  have hclient : s.connections.client = none := by
    by_contra hn
    simp [h.downstream hn] at hphase
  have hserver : s.connections.server = none := by
    by_contra hn
    obtain hp | hp := (h.upstream hn).2 <;> simp [hp] at hphase
  have hjob : s.handshake = none := by
    by_contra hn
    simp [h.job hn] at hphase
  constructor
  · intro x
    have hm := h.moved x
    cases x with
    | client => exact hm
    | server =>
      simpa [undrained, unread, Sides.get, hserver, setLeg, access, Sides.set]
        using hm
  · exact h.queued
  · intro x he hn _
    exact h.ended x he hn (by simp [hphase])
  · intro x leg hleg hp
    cases x with
    | client => exact h.closed .client leg hleg hp
    | server =>
      have hseen := h.seen .server hp
      simp [Sides.get, hserver, hjob] at hseen
  · exact h.jobClosed
  · exact fun hn => absurd hclient hn
  · exact fun _ => ⟨hjob, Or.inl rfl⟩
  · exact fun hn => absurd hjob hn
  · exact h.sent
  · intro x hx
    cases x with
    | client => exact h.seen .client hx
    | server => exact Or.inl (by simp [setLeg, Sides.get, Sides.set])

theorem settled_ok (hlaw : Lawful Allowed s.trace)
    (h : Conserved s.capturePending s) (hd : Drained s) : Settled (none, s) :=
  ⟨⟨hlaw, fun _ => h⟩, fun _ => hd⟩

theorem hello_settled (depth : Nat) (data : Bytes)
    (hlaw : Lawful Allowed s.trace) (h : Conserved s.capturePending s)
    (hphase : s.phase = .hello) : Settled (hello env depth data s) := by
  have hn : Conserved s.capturePending { s with
      helloBytes := s.helloBytes + data.length } := h.frame (by simp)
  have hd : Drained { s with helloBytes := s.helloBytes + data.length } :=
    drained_of_phase hn (by simp [hphase])
  simp only [hello]
  split
  · exact settled_error (s := { s with
      helloBytes := s.helloBytes + data.length }) hlaw _
  · split
    · exact settled_error (s := Session.access { s with
        helloBytes := s.helloBytes + data.length }) hlaw _
    · exact settled_ok hlaw (access_conserved hn) hd
    · rename_i wire _
      have hc := newServer_conserved wire hn hphase
      generalize hs : ({ Session.setLeg (Session.access { s with
        helloBytes := s.helloBytes + data.length }) .server { wire := wire } with
          phase := .upstream } : Session) = t
      have htl : Lawful Allowed t.trace := by
        rw [← hs]
        exact hlaw
      have htc : Conserved t.capturePending t := by
        rw [← hs]
        exact hc
      simp only [event, Outcome.andThen]
      split
      · rename_i heq
        obtain ⟨-, rfl⟩ := Prod.mk.inj heq
        exact pump_settled depth _ htl (access_conserved htc)
      · rename_i heq
        obtain ⟨-, rfl⟩ := Prod.mk.inj heq
        exact settled_error (s := t.access) htl _

theorem passthroughData_conserved (h : Conserved hand s) (side : Direction)
    (bytes : Bytes) : Conserved hand (s.passthroughData env side bytes) :=
  h.frame (by simp [passthroughData, access])

theorem feedSniffing_settled (depth : Nat) (side : Direction) (data : Bytes)
    (hlaw : Lawful Allowed s.trace) (h : Conserved s.capturePending s)
    (hphase : s.phase = .sniffing) :
    Settled (feedSniffing env depth side data s) := by
  have hold : s.phase ≠ .upstream ∧ s.phase ≠ .active := by simp [hphase]
  have hd : Drained s := drained_of_phase h (by simp [hphase])
  unfold feedSniffing
  split
  · split
    · exact settled_error hlaw _
    · refine settled_ok hlaw (passthroughData_conserved ?_ _ _) hd
      exact rephase_conserved h .passthrough hold (by simp) (by simp) rfl
  · simp only
    split
    · exact settled_error hlaw _
    · split
      · have hc : Conserved s.capturePending (Session.passthroughData env { s with
            phase := .passthrough, sniff := [] } .client (s.sniff ++ data)) := by
          apply passthroughData_conserved
          exact rephase_conserved h .passthrough hold (by simp) (by simp) rfl
        exact ⟨⟨hlaw, fun _ => access_conserved hc⟩, fun _ => hd⟩
      · split
        · exact settled_ok hlaw (h.frame (by simp)) hd
        · refine hello_settled depth _ hlaw ?_ rfl
          exact rephase_conserved h .hello hold (by simp [hphase]) (by simp) rfl

theorem feedReady_settled (depth : Nat) (side : Direction) (data : Bytes)
    (hlaw : Lawful Allowed s.trace) (h : Conserved s.capturePending s)
    (hd : Drained s) : Settled (feedReady env depth side data s) := by
  unfold feedReady
  split
  · rename_i hphase
    exact feedSniffing_settled depth side data hlaw h hphase
  · exact settled_ok hlaw (passthroughData_conserved h side data) hd
  · rename_i hphase
    split
    · exact settled_error hlaw _
    · exact hello_settled depth data hlaw h hphase
  all_goals
    split
    · split
      · exact settled_error hlaw _
      · exact settled_ok hlaw (h.frame (by simp)) hd
    · have hf : Good (feedTls env (machine env depth).1 side data s) :=
        (feedTls_keeps (machine_keeps depth).1).good side data s hlaw h
      split
      · rename_i e t heq
        rw [heq] at hf
        exact settled_error hf.lawful _
      · rename_i t heq
        rw [heq] at hf
        exact pump_settled depth t hf.lawful (hf.conserved rfl)

theorem tick_settled (hlaw : Lawful Allowed s.trace)
    (h : Conserved s.capturePending s) (hd : Drained s) :
    Settled (s.tick env) := by
  unfold tick
  split
  · exact ⟨⟨hlaw, fun _ => h⟩, fun _ => hd⟩
  · split
    · exact ⟨⟨hlaw, fun _ => h⟩, fun _ => hd⟩
    · split
      · exact ⟨⟨hlaw, by simp⟩, by simp⟩
      · exact settled_ok hlaw (access_conserved h) hd

theorem feed_settled (depth : Nat) (side : Direction) (data : Bytes)
    (hlaw : Lawful Allowed s.trace) (h : Conserved s.capturePending s)
    (hd : Drained s) : Settled (Session.feed env depth side data s) := by
  refine (tick_settled hlaw h hd).andThen fun t htl htc htd => ?_
  split
  · exact settled_error htl _
  · split
    · exact settled_error htl _
    · exact feedReady_settled depth side data htl htc htd

theorem eof_conserved {side : Direction} (h : Conserved hand s)
    (hend : ¬(s.phase ≠ .passthrough ∧ s.eof.get side = false)) :
    Conserved hand { s with eof := s.eof.set side true } := by
  refine ⟨h.moved, h.queued, ?_, h.closed, h.jobClosed, h.downstream, h.upstream,
    h.job, h.sent, h.seen⟩
  intro x he hn hp
  simp only [Sides.get_set] at he
  split at he
  · rename_i hx
    have hside : s.eof.get side = true := by
      by_contra hne
      exact hend ⟨hp, by simpa using hne⟩
    rw [hx]
    exact h.ended side hside hn hp
  · exact h.ended x he hn hp

theorem inputEof_settled (depth : Nat) (side : Direction)
    (hlaw : Lawful Allowed s.trace) (h : Conserved s.capturePending s) :
    Settled (inputEof env depth side s) := by
  have tls : ∀ t : Session, Lawful Allowed t.trace →
      Conserved t.capturePending t →
      Settled (if t.phase ≠ .passthrough ∧ t.eof.get side = false then
        if t.ready then
          (pump env depth t).andThen fun u =>
            (none, u.unclean side (t.truncated side))
        else (some (t.truncated side), t)
      else pump env depth { t with eof := t.eof.set side true }) := by
    intro t htl htc
    split
    · split
      · refine (pump_settled depth t htl htc).andThen fun u hul huc hud => ?_
        refine settled_ok hul ?_ hud
        refine ⟨huc.moved, huc.queued, ?_, huc.closed, huc.jobClosed,
          huc.downstream, huc.upstream, huc.job, huc.sent, huc.seen⟩
        intro x _ hn
        simp [unclean] at hn
      · exact settled_error htl _
    · rename_i hend
      exact pump_settled depth _ htl (eof_conserved htc hend)
  unfold inputEof
  split
  · exact settled_error hlaw _
  · apply tls
    · split
      · exact hlaw
      · exact hlaw
    · split
      · rename_i hphase
        exact rephase_conserved h .passthrough (by simp [hphase]) (by simp)
          (by simp) rfl
      · exact h

/-! ## Runs -/

structure Sound (s : Session) : Prop where
  lawful : Lawful Allowed s.trace
  conserved : s.error = none → Conserved s.capturePending s
  drained : s.error = none → Drained s

theorem releasePending_lawful (h : Lawful Allowed s.trace) :
    Lawful Allowed s.releasePending.trace := by
  unfold releasePending
  split
  · exact h
  · simp only
    split
    · exact h.snoc trivial
    · exact h

theorem readOut_lawful (side : Direction) (h : Lawful Allowed s.trace) :
    Lawful Allowed (s.readOut side).trace := by
  unfold readOut
  split
  · exact h
  · exact h.snoc trivial

theorem finishPendingCapture_lawful (h : Lawful Allowed s.trace) :
    Lawful Allowed s.finishPendingCapture.trace := by
  have hr := releasePending_lawful h
  simp only [finishPendingCapture]
  split
  · exact readOut_lawful .server (readOut_lawful .client hr)
  · exact hr

theorem fail_sound (h : Lawful Allowed s.trace) (e : String) :
    Sound (s.fail e) := by
  unfold fail
  split
  · rename_i hsome
    exact ⟨h, fun hn => by simp [hn] at hsome, fun hn => by simp [hn] at hsome⟩
  · exact ⟨finishPendingCapture_lawful h, by simp, by simp⟩

theorem settled_sound {r : Outcome} (h : Settled r) : Sound (conclude r) := by
  obtain ⟨e, s⟩ := r
  cases e with
  | none =>
    exact ⟨h.good.lawful, fun _ => h.good.conserved rfl, fun _ => h.drained rfl⟩
  | some e => exact fail_sound h.good.lawful e

theorem step_sound (depth : Nat) (op : Op) (h : Sound s) :
    Sound (s.step env depth op) := by
  unfold step
  split
  · exact h
  · rename_i hsome
    have hnone : s.error = none := by simpa using hsome
    have hlaw := h.lawful
    have hc := h.conserved hnone
    have hd := h.drained hnone
    cases op with
    | feed side data =>
      apply settled_sound
      simp only [perform]
      split
      · exact settled_error hlaw _
      · exact feed_settled depth side data hlaw hc hd
    | peek side length =>
      apply settled_sound
      simp only [perform]
      split
      · exact settled_error hlaw _
      · exact pump_settled depth s hlaw hc
    | consume side length =>
      apply settled_sound
      simp only [perform, consume]
      split
      · exact settled_error hlaw _
      · exact pump_settled depth _ hlaw (hc.frame (by simp))
    | eof side =>
      apply settled_sound
      exact inputEof_settled depth side hlaw hc
    | status =>
      apply settled_sound
      exact (tick_settled hlaw hc hd).andThen
        fun t htl htc _ => pump_settled depth t htl htc
    | connected error =>
      simp only [perform]
      split
      · exact h
      · exact fail_sound hlaw _

theorem run_sound (depth : Nat) (ops : List Op) :
    ∀ {s : Session}, Sound s → Sound (s.run env depth ops) := by
  induction ops with
  | nil => intro s h; exact h
  | cons op ops ih => intro s h; exact ih (step_sound depth op h)

theorem start_sound (asyncHandshake protocolSource : Bool) :
    Sound (start asyncHandshake protocolSource) := by
  have h := start_conserved asyncHandshake protocolSource
  exact ⟨lawful_nil, fun _ => h, fun _ => drained_of_phase h (by simp [start])⟩

end Session

end ProxyLane.Mitm
