import ProxyLane.Mitm.SessionRelay

/-!
# The capture of a session

`Captured` says of a trace that plaintext is forwarded only behind the
capture's taking it.  `Live` keeps it while the capture is attached; a session
that has given its capture up at an unclean end is `Over`, with nothing left
that could be forwarded.
-/

namespace ProxyLane.Mitm

open Foundation Protocol

def Captured (past : List Act) : Act → Prop
  | .forwarded side bytes => .tapped ∈ past →
      (forwardedFrom past side ++ bytes) <+: takenFrom past side
  | _ => True

namespace Session

structure Blank (s : Session) : Prop where
  untapped : .tapped ∉ s.trace
  forwarded : ∀ side, forwardedFrom s.trace side = []
  taken : ∀ side, takenFrom s.trace side = []
  pending : s.capturePending = none

structure Live (s : Session) : Prop where
  law : Lawful Captured s.trace
  legs : ∀ side leg, s.connections.get side = some leg →
    leg.handshaking = true → leg.plain = []
  jobLeg : ∀ job, s.handshake = some job → job.leg.handshaking = true →
    job.leg.plain = []
  early : s.phase ≠ .active → s.Blank
  same : .tapped ∈ s.trace → ∀ side,
    forwardedFrom s.trace side = takenFrom s.trace side
  tape : .tapped ∈ s.trace → s.protocol = true

/-- A call that keeps the capture's law, and the session live if it has no
error. -/
structure Recorded (r : Outcome) : Prop where
  law : Lawful Captured r.2.trace
  live : r.1 = none → Live r.2

theorem recorded_error {s : Session} (h : Lawful Captured s.trace) (e : String) :
    Recorded (some e, s) :=
  ⟨h, by simp⟩

theorem Live.recorded {s : Session} (h : Live s) : Recorded (none, s) :=
  ⟨h.law, fun _ => h⟩

theorem Recorded.andThen {r : Outcome} {f : Session → Outcome}
    (hg : Good r) (hr : Recorded r)
    (hf : ∀ s, Lawful Allowed s.trace → Conserved s.capturePending s → Live s →
      Recorded (f s)) : Recorded (r.andThen f) := by
  obtain ⟨e, s⟩ := r
  cases e with
  | none => exact hf s hg.lawful (hg.conserved rfl) (hr.live rfl)
  | some e => exact recorded_error hr.law e

theorem start_live (asyncHandshake protocolSource : Bool) :
    Live (start asyncHandshake protocolSource) := by
  constructor
  · exact lawful_nil
  · intro side leg h
    cases side <;> simp [start, Sides.get] at h
  · simp [start]
  · intro _
    exact ⟨by simp [start], fun _ => rfl, fun _ => rfl, rfl⟩
  · simp [start]
  · simp [start]

/-! ## What leaves the capture alone -/

/-- What `Live` reads of a leg. -/
def legView (s : Session) (side : Direction) : Option (Bool × Bytes) :=
  (s.connections.get side).map fun leg => (leg.handshaking, leg.plain)

/-- From `s` to `t` nothing is read, offered or forwarded. -/
structure Still (s t : Session) : Prop where
  law : Lawful Captured s.trace → Lawful Captured t.trace
  tapped : .tapped ∈ t.trace ↔ .tapped ∈ s.trace
  forwarded : ∀ side, forwardedFrom t.trace side = forwardedFrom s.trace side
  taken : ∀ side, takenFrom t.trace side = takenFrom s.trace side
  legs : ∀ side, t.legView side = s.legView side
  handshake : t.handshake = s.handshake
  phase : t.phase = s.phase
  pending : t.capturePending = s.capturePending
  encrypted : t.encryptedPending = s.encryptedPending
  protocol : t.protocol = s.protocol
  drainError : t.drainError = s.drainError
  error : t.error = s.error

variable {env : TlsEnv} {hand : Option (Direction × Bytes)} {s t u : Session}

theorem Still.refl (s : Session) : Still s s where
  law := id
  tapped := Iff.rfl
  forwarded _ := rfl
  taken _ := rfl
  legs _ := rfl
  handshake := rfl
  phase := rfl
  pending := rfl
  encrypted := rfl
  protocol := rfl
  drainError := rfl
  error := rfl

theorem Still.trans (h : Still s t) (k : Still t u) : Still s u where
  law hl := k.law (h.law hl)
  tapped := k.tapped.trans h.tapped
  forwarded side := (k.forwarded side).trans (h.forwarded side)
  taken side := (k.taken side).trans (h.taken side)
  legs side := (k.legs side).trans (h.legs side)
  handshake := k.handshake.trans h.handshake
  phase := k.phase.trans h.phase
  pending := k.pending.trans h.pending
  encrypted := k.encrypted.trans h.encrypted
  protocol := k.protocol.trans h.protocol
  drainError := k.drainError.trans h.drainError
  error := k.error.trans h.error

theorem still_access (s : Session) : Still s s.access :=
  { Still.refl s with }

/-- A leg that has only encrypted, and an action that is none of those the
capture's law is about. -/
theorem still_encrypted {side : Direction} {leg : Leg}
    (hl : s.connections.get side = some leg) (wire : Bytes) :
    Still s (s.access.setLeg side { leg with wire := wire }) := by
  refine { Still.refl s with legs := ?_ }
  intro x
  simp only [legView, setLeg, access, Sides.get_set]
  split
  · rename_i hx
    simp [hx, hl]
  · rfl

theorem still_act (a : Act) (hc : ∀ past, Captured past a) (ht : a ≠ .tapped)
    (hf : ∀ side, a.forwardedFrom side = []) (hk : ∀ side, a.takenFrom side = []) :
    Still s (s.act a) := by
  refine { Still.refl s with law := ?_, tapped := ?_, forwarded := ?_, taken := ?_ }
  · exact fun h => h.snoc (hc _)
  · simp [act, ht.symm]
  · intro side
    simp [act, hf]
  · intro side
    simp [act, hk]

theorem unread_of_legView (h : ∀ side, t.legView side = s.legView side)
    (side : Direction) : t.unread side = s.unread side := by
  have hv := congrArg (Option.map Prod.snd) (h side)
  simp only [legView, Option.map_map, Function.comp_def] at hv
  simp only [unread]
  exact congrArg (·.getD []) hv

theorem Live.still (h : Live s) (k : Still s t) : Live t := by
  constructor
  · exact k.law h.law
  · intro side leg hl hh
    have hv := k.legs side
    simp only [legView, hl, Option.map_some] at hv
    obtain ⟨old, hold, heq⟩ := Option.map_eq_some_iff.1 hv.symm
    simp only [Prod.mk.injEq] at heq
    rw [← heq.2]
    exact h.legs side old hold (heq.1.trans hh)
  · intro job hj
    rw [k.handshake] at hj
    exact h.jobLeg job hj
  · intro hp
    rw [k.phase] at hp
    have hb := h.early hp
    refine ⟨?_, ?_, ?_, ?_⟩
    · rw [k.tapped]
      exact hb.untapped
    · intro side
      rw [k.forwarded]
      exact hb.forwarded side
    · intro side
      rw [k.taken]
      exact hb.taken side
    · rw [k.pending]
      exact hb.pending
  · rw [k.tapped]
    intro ht side
    rw [k.forwarded, k.taken]
    exact h.same ht side
  · rw [k.tapped, k.protocol]
    exact h.tape

theorem still_andThen {r : Outcome} {f : Session → Outcome}
    (h : Still s r.2) (hf : ∀ u, Still u (f u).2) : Still s (r.andThen f).2 := by
  obtain ⟨e, u⟩ := r
  cases e with
  | none => exact h.trans (hf u)
  | some e => exact h

theorem still_writeLoop (side : Direction) (fuel : Nat) :
    ∀ s : Session, Still s (writeLoop env side fuel s).2 := by
  induction fuel with
  | zero => intro s; exact Still.refl s
  | succ fuel ih =>
    intro s
    simp only [writeLoop]
    split
    · exact Still.refl s
    · rename_i leg hleg
      split
      · exact Still.refl s
      · split
        · exact still_access s
        · rename_i out _
          split
          · exact still_access s
          · have hl := still_encrypted hleg (leg.wire ++ out.wire)
            have ha := hl.trans (still_act
              (.written side ((s.plaintext.get side).take out.taken))
              (fun _ => trivial) (by simp) (fun _ => rfl) (fun _ => rfl))
            refine Still.trans ?_ (ih _)
            exact { ha with }

theorem still_sendClose (side : Direction) (s : Session) :
    Still s (s.sendClose env side).2 := by
  unfold sendClose
  split
  · exact Still.refl s
  · rename_i leg hleg
    split
    · have hl := still_encrypted hleg (leg.wire ++ env.closeNotify s.accesses)
      have ha := hl.trans (still_act (.closeNotify side) (fun _ => trivial)
        (by simp) (fun _ => rfl) (fun _ => rfl))
      exact { ha with }
    · exact Still.refl s

theorem still_flushLoop (side : Direction) (fuel : Nat) :
    ∀ s : Session, Still s (flushLoop env side fuel s).2 := by
  induction fuel with
  | zero => intro s; exact Still.refl s
  | succ fuel ih =>
    intro s
    simp only [flushLoop]
    split
    · exact Still.refl s
    · rename_i leg hleg
      split
      · exact Still.refl s
      · split
        · exact still_access s
        · rename_i n _
          split
          · exact still_access s
          · have hl := still_encrypted hleg (leg.wire.drop n)
            refine Still.trans ?_ (ih _)
            exact { hl with }

theorem still_writeLeg (side : Direction) (s : Session) :
    Still s (s.writeLeg env side).2 := by
  unfold writeLeg
  simp only
  apply still_andThen
  · split
    · exact still_andThen (still_writeLoop side _ s) (fun u => still_sendClose side u)
    · exact Still.refl s
  · exact fun u => still_flushLoop side _ u

theorem still_recorded {r : Outcome} (h : Live s) (k : Still s r.2) :
    Recorded r :=
  ⟨k.law h.law, fun _ => h.still k⟩

/-! ## Delivering a chunk -/

theorem Live.frame (h : Live s) (same : t.trace = s.trace ∧
    t.connections = s.connections ∧ t.handshake = s.handshake ∧
    t.phase = s.phase ∧ t.protocol = s.protocol)
    (hp : s.phase ≠ .active → t.capturePending = none) : Live t := by
  obtain ⟨h1, h2, h3, h4, h5⟩ := same
  constructor
  · rw [h1]
    exact h.law
  · rw [h2]
    exact h.legs
  · rw [h3]
    exact h.jobLeg
  · rw [h4]
    intro hn
    have hb := h.early hn
    refine ⟨?_, ?_, ?_, hp hn⟩
    · rw [h1]
      exact hb.untapped
    · rw [h1]
      exact hb.forwarded
    · rw [h1]
      exact hb.taken
  · rw [h1]
    exact h.same
  · rw [h1, h5]
    exact h.tape

theorem forward_recorded (side : Direction) (bytes : Bytes)
    (hlaw : Lawful Captured s.trace)
    (hlegs : ∀ x leg, s.connections.get x = some leg →
      leg.handshaking = true → leg.plain = [])
    (hjob : ∀ job, s.handshake = some job → job.leg.handshaking = true →
      job.leg.plain = [])
    (hactive : s.phase = .active)
    (htaken : .tapped ∈ s.trace → s.protocol = true ∧
      ∀ x, takenFrom s.trace x =
        forwardedFrom s.trace x ++ if side = x then bytes else []) :
    Recorded (s.forward env side bytes) := by
  unfold forward event Outcome.andThen
  split
  · rename_i t heq
    obtain ⟨-, rfl⟩ := Prod.mk.inj heq
    have hallowed : Captured s.trace (.forwarded side bytes) := by
      intro ht
      rw [(htaken ht).2 side, if_pos rfl]
    have htapped : ∀ {p : Prop}, (.tapped ∈ s.trace → p) →
        .tapped ∈ s.trace ++ [.forwarded side bytes] → p := by
      intro p hp ht
      exact hp (by simpa using ht)
    refine ⟨hlaw.snoc hallowed, fun _ => ?_⟩
    refine ⟨hlaw.snoc hallowed, hlegs, hjob, ?_, ?_, ?_⟩
    · intro hn
      exact absurd hactive hn
    · refine htapped fun ht x => ?_
      simp [access, Act.forwardedFrom, Act.takenFrom, (htaken ht).2 x]
    · exact htapped fun ht => (htaken ht).1
  · rename_i e t heq
    obtain ⟨-, rfl⟩ := Prod.mk.inj heq
    exact recorded_error (s := s.access) hlaw e

theorem deliver_recorded (h : Live s) (side : Direction) (bytes : Bytes)
    (hactive : s.phase = .active) : Recorded (s.deliver env side bytes) := by
  unfold deliver offer
  cases hprotocol : s.protocol with
  | false =>
    simp only [Bool.false_eq_true, if_false]
    apply forward_recorded side bytes h.law h.legs h.jobLeg hactive
    intro ht
    simp [h.tape ht] at hprotocol
  | true =>
    simp only [if_true]
    cases env.takes s.accesses with
    | false =>
      have hstill : Still s (s.access.act (.offered side bytes false)) :=
        (still_access s).trans (still_act _ (fun _ => trivial) (by simp)
          (fun _ => rfl) (fun _ => rfl))
      refine ⟨hstill.law h.law, fun _ => ?_⟩
      exact (h.still hstill).frame (by simp)
        fun hn => absurd (show s.phase = .active from hactive) hn
    | true =>
      apply forward_recorded (s := s.access.act (.offered side bytes true))
        side bytes (h.law.snoc trivial) h.legs h.jobLeg hactive
      intro ht
      have ht' : .tapped ∈ s.trace := by
        simpa [act, access] using ht
      refine ⟨hprotocol, fun x => ?_⟩
      simp [act, access, Act.takenFrom, Act.forwardedFrom, h.same ht' x]

theorem retryCapture_recorded (h : Live s) : Recorded (s.retryCapture env) := by
  unfold retryCapture
  split
  · exact h.recorded
  · rename_i side bytes heq
    have hactive : s.phase = .active := by
      by_contra hn
      simp [(h.early hn).pending] at heq
    exact deliver_recorded (h.frame (by simp) fun _ => rfl) side bytes hactive

theorem deliver_phase (side : Direction) (bytes : Bytes) :
    (s.deliver env side bytes).2.phase = s.phase :=
  (deliver_frame side bytes).2

private theorem still_drainLoop {side : Direction} (hempty : s.unread side = [])
    (fuel : Nat) : Still s (drainLoop env side fuel s).2 := by
  cases fuel with
  | zero => exact Still.refl s
  | succ fuel =>
    simp only [drainLoop]
    split
    · exact Still.refl s
    · rename_i leg hleg
      have hplain : leg.plain = [] := by
        simpa [unread, hleg] using hempty
      split
      · exact still_access s
      · simp only [hplain, if_true]
        exact still_access s

theorem still_drainLeg {side : Direction} (hempty : s.unread side = []) :
    Still s (s.drainLeg env side).2 := by
  unfold drainLeg
  split
  · exact Still.refl s
  · exact still_drainLoop hempty _

theorem drainLoop_recorded (side : Direction) (fuel : Nat) :
    ∀ {s : Session}, Live s → s.phase = .active →
      Recorded (drainLoop env side fuel s) := by
  induction fuel with
  | zero => intro s h _; exact recorded_error h.law stalled
  | succ fuel ih =>
    intro s h hactive
    simp only [drainLoop]
    split
    · exact h.recorded
    · rename_i leg hleg
      split
      · exact recorded_error (s := s.access) h.law _
      · rename_i n _
        split
        · exact (h.still (still_access s)).recorded
        · rename_i hplain
          have hchunk : Live (s.access.setLeg side { leg with
              plain := leg.plain.drop (max 1 (min n 16384)) }) := by
            refine ⟨h.law, ?_, h.jobLeg, ?_, h.same, h.tape⟩
            · intro x leg' hl hh
              simp only [setLeg, access, Sides.get_set] at hl
              split at hl
              · cases hl
                exact absurd (h.legs side leg hleg hh) hplain
              · exact h.legs x leg' hl hh
            · intro hn
              exact absurd hactive hn
          generalize hr : Session.deliver env (s.access.setLeg side _) side _ = r
          have hrec : Recorded r := by
            rw [← hr]
            exact deliver_recorded hchunk side _ hactive
          have hphase : r.2.phase = .active := by
            rw [← hr, deliver_phase]
            exact hactive
          obtain ⟨e, t⟩ := r
          cases e with
          | some e => exact recorded_error hrec.law e
          | none =>
            simp only [Outcome.andThen]
            split
            · exact (hrec.live rfl).recorded
            · exact ih (hrec.live rfl) hphase

theorem drainLoop_phase (side : Direction) (fuel : Nat) :
    ∀ s : Session, (drainLoop env side fuel s).2.phase = s.phase := by
  induction fuel with
  | zero => intro s; rfl
  | succ fuel ih =>
    intro s
    simp only [drainLoop]
    split
    · rfl
    · rename_i leg hleg
      split
      · rfl
      · rename_i n _
        split
        · rfl
        · generalize hr : Session.deliver env (s.access.setLeg side _) side _ = r
          have hphase : r.2.phase = s.phase := by
            rw [← hr, deliver_phase]
            rfl
          obtain ⟨e, t⟩ := r
          cases e with
          | some e => exact hphase
          | none =>
            simp only [Outcome.andThen]
            split
            · exact hphase
            · exact (ih t).trans hphase

theorem drainLeg_recorded (side : Direction) (h : Live s)
    (hd : s.phase = .active ∨ s.unread side = []) :
    Recorded (s.drainLeg env side) := by
  obtain hactive | hempty := hd
  · unfold drainLeg
    split
    · exact h.recorded
    · exact drainLoop_recorded side _ h hactive
  · exact still_recorded h (still_drainLeg hempty)

/-! ## The pump -/

theorem setLeg_live (h : Live s) (side : Direction) (leg : Leg)
    (hleg : leg.handshaking = true → leg.plain = []) :
    Live (s.setLeg side leg) := by
  refine ⟨h.law, ?_, h.jobLeg, ?_, h.same, h.tape⟩
  · intro x leg' hl hh
    simp only [setLeg, Sides.get_set] at hl
    split at hl
    · cases hl
      exact hleg hh
    · exact h.legs x leg' hl hh
  · intro hn
    have hb := h.early hn
    exact ⟨hb.untapped, hb.forwarded, hb.taken, hb.pending⟩

theorem absorbed_live {side : Direction} {leg : Leg} (flight : Flight)
    (h : Live s) (hold : leg.handshaking = true → leg.plain = []) :
    Live (s.absorbed side (leg.process flight) (leg.fresh flight)) := by
  have hset : Live (s.access.setLeg side (leg.process flight)) := by
    apply setLeg_live (h.still (still_access s))
    intro hh
    simp only [Leg.process, Bool.and_eq_true] at hh
    simp [Leg.process, Leg.fresh, hold hh.1, hh]
  have hdec : Live ((s.access.setLeg side (leg.process flight)).act
      (.decoded side (leg.fresh flight))) :=
    hset.still (still_act _ (fun _ => trivial) (by simp) (fun _ => rfl)
      (fun _ => rfl))
  simp only [absorbed]
  split
  · have hclosed := still_act (s := (s.access.setLeg side
      (leg.process flight)).act (.decoded side (leg.fresh flight)))
        (.peerClosed side) (fun _ => trivial) (by simp) (fun _ => rfl)
        (fun _ => rfl)
    exact hdec.still { hclosed with }
  · exact hdec

def Tapes (f : Session → Outcome) : Prop :=
  ∀ s, Lawful Allowed s.trace → Conserved s.capturePending s → Live s → Recorded (f s)

def TapesFeed (feed : Direction → Bytes → Session → Outcome) : Prop :=
  ∀ side data, Tapes (feed side data)

variable {feed : Direction → Bytes → Session → Outcome}
  {again : Session → Outcome}

theorem feedStep_tapes (hkeeps : Keeps again) (hpump : Tapes again)
    (hloop : TapesFeed feed) : TapesFeed (feedStep env again feed) := by
  intro side data s hlaw hc h
  unfold feedStep
  split
  · exact h.recorded
  · split
    · exact recorded_error h.law _
    · rename_i leg hleg
      split
      · exact recorded_error (s := s.access) h.law _
      · rename_i leg' fresh rest habsorb
        obtain ⟨flight, rfl, rfl⟩ := absorb_ok habsorb
        have hg := absorbed_good flight hlaw hc hleg
        have hl : Live (s.absorbed side (leg.process flight)
            (leg.fresh flight)) :=
          absorbed_live flight h (h.legs side leg hleg)
        refine Recorded.andThen (hkeeps _ hg.lawful (hg.conserved rfl)).good
          (hpump _ hg.lawful (hg.conserved rfl) hl) fun t htl htc ht => ?_
        split
        · refine Live.recorded (ht.frame ?_ ?_)
          · simp
          · exact fun hn => (ht.early hn).pending
        · exact hloop side rest t htl htc ht

theorem feedTls_tapes (hloop : TapesFeed feed) : TapesFeed (feedTls env feed) := by
  intro side data s hlaw hc h
  unfold feedTls
  split
  · split
    · exact recorded_error h.law _
    · refine Live.recorded (h.frame ?_ ?_)
      · simp
      · exact fun hn => (h.early hn).pending
  · split
    · rename_i hjob
      split
      · exact recorded_error h.law _
      · rename_i leg hleg
        simp only
        split
        · refine ⟨h.law, fun _ => ⟨h.law, ?_, ?_, ?_, h.same, h.tape⟩⟩
          · intro x leg' hl hh
            simp only [Sides.get_set] at hl
            split at hl
            · simp at hl
            · exact h.legs x leg' hl hh
          · intro job hj hh
            cases hj
            exact h.legs .server leg hleg hh
          · intro hn
            have hb := h.early hn
            exact ⟨hb.untapped, hb.forwarded, hb.taken, hb.pending⟩
        · exact ⟨h.law, by simp⟩
    · exact hloop side data s hlaw hc h

theorem feedPending_recorded (hfeed : TapesFeed feed) (side : Direction)
    (hlaw : Lawful Allowed s.trace) (hc : Conserved s.capturePending s)
    (h : Live s) : Recorded (feedPending feed side s) := by
  unfold feedPending
  split
  · exact h.recorded
  · refine hfeed side _ _ hlaw (hc.frame ?_) (h.frame ?_ ?_)
    · simp
    · simp
    · exact fun hn => (h.early hn).pending

theorem joinCapture_live (wire : Bytes) (h : Live s)
    (hphase : s.phase = .upstream) : Live (s.joinCapture env wire) := by
  have hb := h.early (by simp [hphase])
  have hjoined : Live { s.access.setLeg .client { wire := wire } with
      phase := .active } := by
    have hset := setLeg_live (h.still (still_access s)) .client { wire := wire }
      (fun _ => rfl)
    exact ⟨hset.law, hset.legs, hset.jobLeg, by simp, hset.same, hset.tape⟩
  simp only [joinCapture]
  split
  · refine ⟨hjoined.law.snoc trivial, hjoined.legs, hjoined.jobLeg, ?_, ?_,
      fun _ => rfl⟩
    · intro hn
      exact absurd rfl hn
    · intro _ side
      simp [act, access, setLeg, Act.forwardedFrom, Act.takenFrom,
        hb.forwarded side, hb.taken side]
  · exact hjoined.frame (by simp [access]) fun hn => absurd rfl hn

theorem joinCapture_phase (wire : Bytes) :
    (s.joinCapture env wire).phase = .active := by
  simp only [joinCapture]
  split <;> rfl

theorem finishUpstream_recorded (hfeed : TapesFeed feed)
    (hlaw : Lawful Allowed s.trace)
    (hc : Conserved s.capturePending s) (h : Live s)
    (hphase : s.phase = .upstream) (hjob : s.handshake = none) :
    Recorded (s.finishUpstream env feed) := by
  unfold finishUpstream
  split
  · exact recorded_error (s := s.access) h.law _
  · rename_i wire _
    have hlive : Live (s.joinCapture env wire) := joinCapture_live wire h hphase
    refine Recorded.andThen (event_good (joinCapture_lawful hlaw wire)
      (joinCapture_conserved wire hc hphase hjob))
      (still_recorded hlive (still_access _)) fun u hul huc hu => ?_
    split
    · exact hu.recorded
    · refine hfeed .client _ _ hul (huc.frame ?_) (hu.frame ?_ ?_)
      · simp
      · simp
      · exact fun hn => (hu.early hn).pending

theorem finishUpstream_drained (hkeeps : KeepsFeed feed)
    (hlaw : Lawful Allowed s.trace) (hc : Conserved s.capturePending s)
    (hphase : s.phase = .upstream) (hjob : s.handshake = none)
    (hok : (s.finishUpstream env feed).1 = none) :
    (s.finishUpstream env feed).2.phase = .active ∨
      Drained (s.finishUpstream env feed).2 := by
  cases haccept : env.accept s.accesses with
  | error e => simp [finishUpstream, haccept] at hok
  | ok wire =>
    have hjl : Lawful Allowed (s.joinCapture env wire).trace :=
      joinCapture_lawful hlaw wire
    have hjc : Conserved (s.joinCapture env wire).capturePending
        (s.joinCapture env wire) := joinCapture_conserved wire hc hphase hjob
    simp only [finishUpstream, haccept, event] at hok ⊢
    cases hlog : env.log (s.joinCapture env wire).accesses with
    | some e => simp [hlog, Outcome.andThen] at hok
    | none =>
      simp only [hlog, Outcome.andThen] at hok ⊢
      by_cases hdeferred : (s.joinCapture env wire).access.deferred = []
      · left
        rw [if_pos hdeferred]
        exact joinCapture_phase wire
      · right
        rw [if_neg hdeferred] at hok ⊢
        have hfed := hkeeps.settled .client
          (s.joinCapture env wire).access.deferred
          { (s.joinCapture env wire).access with deferred := [] } hjl
          ((access_conserved hjc).frame (by simp)) (Or.inl hdeferred)
        exact hfed.drained hok

theorem beginDownstream_recorded (hfeed : TapesFeed feed)
    (hlaw : Lawful Allowed s.trace) (hc : Conserved s.capturePending s)
    (h : Live s) :
    Recorded (s.beginDownstream env feed) := by
  unfold beginDownstream
  split
  · rename_i hphase
    split
    · exact recorded_error h.law _
    · rename_i leg hleg
      split
      · exact h.recorded
      · have hget : s.connections.get .server = some leg := hleg
        exact finishUpstream_recorded hfeed hlaw hc h hphase
          (handshake_of_leg hc hget)
  · exact h.recorded

theorem beginDownstream_begun (hkeeps : KeepsFeed feed) (hfeed : TapesFeed feed)
    (hlaw : Lawful Allowed s.trace) (hc : Conserved s.capturePending s)
    (h : Live s) (hphase : s.phase = .upstream ∨ s.phase = .active)
    (hok : (s.beginDownstream env feed).1 = none) :
    (s.beginDownstream env feed).2.phase = .active ∨
      ∀ side, (s.beginDownstream env feed).2.unread side = [] := by
  have hrec : Recorded (s.beginDownstream env feed) :=
    beginDownstream_recorded hfeed hlaw hc h
  have hlive := hrec.live hok
  suffices hd : (s.beginDownstream env feed).2.phase = .active ∨
      Drained (s.beginDownstream env feed).2 by
    obtain hp | hp | hu := hd
    · exact Or.inl hp
    · left
      by_contra hn
      have hb := (hlive.early hn).pending
      simp [pending, hb] at hp
    · exact Or.inr hu
  obtain hup | hactive := hphase
  · cases hl : s.connections.server with
    | none => simp [beginDownstream, hup, hl] at hok
    | some leg =>
      have hget : s.connections.get .server = some leg := hl
      cases hh : leg.handshaking with
      | true =>
        right
        simp only [beginDownstream, hup, hl, hh, if_true]
        refine Or.inr fun side => ?_
        cases side with
        | client => exact unread_client hc (by simp [hup])
        | server => simp [unread, hget, h.legs .server leg hget hh]
      | false =>
        simp only [beginDownstream, hup, hl, hh, if_true, Bool.false_eq_true,
          if_false] at hok ⊢
        exact finishUpstream_drained hkeeps hlaw hc hup
          (handshake_of_leg hc hget) hok
  · left
    simp [beginDownstream, hactive]

theorem moveLegs_recorded (hlaw : Lawful Allowed s.trace)
    (hc : Conserved s.capturePending s) (h : Live s)
    (hbegun : s.phase = .active ∨ ∀ side, s.unread side = []) :
    Recorded ((s.drainLeg env .client).andThen fun t =>
      (t.drainLeg env .server).andThen fun u =>
        (u.writeLeg env .client).andThen fun v => v.writeLeg env .server) := by
  have hfirst : Recorded (s.drainLeg env .client) :=
    drainLeg_recorded .client h (hbegun.imp_right fun hu => hu .client)
  have hsecond : (s.drainLeg env .client).2.phase = .active ∨
      (s.drainLeg env .client).2.unread .server = [] := by
    obtain hactive | hu := hbegun
    · left
      unfold drainLeg
      split
      · exact hactive
      · rw [drainLoop_phase]
        exact hactive
    · right
      have hstill : Still s (s.drainLeg env .client).2 :=
        still_drainLeg (hu .client)
      rw [unread_of_legView hstill.legs, hu]
  have hwrite : ∀ u : Session, Live u →
      Recorded ((u.writeLeg env .client).andThen fun v =>
        v.writeLeg env .server) := by
    intro u hu
    apply still_recorded hu
    exact still_andThen (still_writeLeg .client u) (fun v => still_writeLeg .server v)
  have hgood : Good (s.drainLeg env .client) := drainLeg_good .client hlaw hc
  generalize s.drainLeg env .client = r at hfirst hsecond hgood
  obtain ⟨e, t⟩ := r
  cases e with
  | some e => exact recorded_error hfirst.law e
  | none =>
    have ht := hfirst.live rfl
    have hgood' : Good (t.drainLeg env .server) :=
      drainLeg_good .server hgood.lawful (hgood.conserved rfl)
    have hrec' : Recorded (t.drainLeg env .server) :=
      drainLeg_recorded .server ht hsecond
    change Recorded ((t.drainLeg env .server).andThen fun u =>
      (u.writeLeg env .client).andThen fun v => v.writeLeg env .server)
    exact Recorded.andThen hgood' hrec' fun u _ _ hu => hwrite u hu

theorem pumpLegs_recorded (hkeeps : KeepsFeed feed) (hfeed : TapesFeed feed)
    (hlaw : Lawful Allowed s.trace) (hc : Conserved s.capturePending s)
    (h : Live s) : Recorded (s.pumpLegs env feed) := by
  unfold pumpLegs
  split
  · rename_i hphase
    have hgood : Good (s.beginDownstream env feed) :=
      beginDownstream_good hkeeps hlaw hc
    have hrec : Recorded (s.beginDownstream env feed) :=
      beginDownstream_recorded hfeed hlaw hc h
    have hbegun : (s.beginDownstream env feed).1 = none →
        (s.beginDownstream env feed).2.phase = .active ∨
          ∀ side, (s.beginDownstream env feed).2.unread side = [] :=
      beginDownstream_begun hkeeps hfeed hlaw hc h hphase
    generalize s.beginDownstream env feed = r at hgood hrec hbegun
    obtain ⟨e, t⟩ := r
    cases e with
    | some e => exact recorded_error hrec.law e
    | none =>
      exact moveLegs_recorded hgood.lawful (hgood.conserved rfl)
        (hrec.live rfl) (hbegun rfl)
  · exact h.recorded

theorem pollHandshake_recorded (hkeeps : Keeps again) (hfeed : TapesFeed feed)
    (hagain : Tapes again) (hlaw : Lawful Allowed s.trace)
    (hc : Conserved s.capturePending s) (h : Live s) {job : HandshakeJob}
    (hj : s.handshake = some job) :
    Recorded (s.pollHandshake env feed again job) := by
  unfold pollHandshake
  split
  · exact recorded_error (s := s.access) h.law _
  · exact (h.still (still_access s)).recorded
  · split
    · exact recorded_error (s := s.access) h.law _
    · rename_i leg' fresh rest habsorb
      obtain ⟨flight, rfl, rfl⟩ := absorb_ok habsorb
      have hget : (s.connections.set .server (some job.leg)).get .server =
          some job.leg := rfl
      have hg : Good (none, ({ s with handshake := none } : Session).absorbed
          .server (job.leg.process flight) (job.leg.fresh flight)) :=
        absorbed_good (s := { s with
          handshake := none
          connections := s.connections.set .server (some job.leg) })
          flight hlaw (jobEnd_conserved hc hj) hget
      have hfree : Live { s with handshake := none } := by
        refine ⟨h.law, h.legs, by simp, ?_, h.same, h.tape⟩
        intro hn
        have hb := h.early hn
        exact ⟨hb.untapped, hb.forwarded, hb.taken, hb.pending⟩
      have hl : Live (({ s with handshake := none } : Session).absorbed
          .server (job.leg.process flight) (job.leg.fresh flight)) :=
        absorbed_live flight hfree (h.jobLeg job hj)
      refine Recorded.andThen (hkeeps _ hg.lawful (hg.conserved rfl)).good
        (hagain _ hg.lawful (hg.conserved rfl) hl) fun t htl htc ht => ?_
      split
      · exact ht.recorded
      · exact hfeed .server rest t htl htc ht

theorem pumpWith_tapes (hkeeps : KeepsFeed feed) (hkeepsAgain : Keeps again)
    (hfeed : TapesFeed feed) (hagain : Tapes again) :
    Tapes (pumpWith env feed again) := by
  intro s hlaw hc h
  refine Recorded.andThen (retryCapture_good hlaw hc) (retryCapture_recorded h)
    fun t htl htc ht => ?_
  refine Recorded.andThen (feedPending_good hkeeps .client htl htc)
    (feedPending_recorded hfeed .client htl htc ht) fun u hul huc hu => ?_
  refine Recorded.andThen (feedPending_good hkeeps .server hul huc)
    (feedPending_recorded hfeed .server hul huc hu) fun v hvl hvc hv => ?_
  split
  · exact hv.recorded
  · split
    · rename_i job hj
      exact pollHandshake_recorded hkeepsAgain hfeed hagain hvl hvc hv hj
    · exact pumpLegs_recorded hkeeps hfeed hvl hvc hv

theorem machine_tapes (depth : Nat) :
    TapesFeed (machine env depth).1 ∧ Tapes (machine env depth).2 := by
  induction depth with
  | zero =>
    exact ⟨fun _ _ s _ _ h => recorded_error h.law stalled,
      fun s _ _ h => recorded_error h.law stalled⟩
  | succ depth ih =>
    have hkeeps : KeepsFeed (machine env depth).1 ∧
        Keeps (machine env depth).2 := machine_keeps depth
    exact ⟨feedStep_tapes hkeeps.2 ih.2 ih.1,
      pumpWith_tapes (feedTls_keeps hkeeps.1) hkeeps.2 (feedTls_tapes ih.1) ih.2⟩

end Session

end ProxyLane.Mitm
