import ProxyLane.Mitm.SessionCapture

/-!
# The calls of a session

A session whose capture is attached stays `Live` from call to call.  A bare
TCP end gives the capture up; where nothing waits for it then, nothing can be
forwarded any more, and the session is `Over`.
-/

namespace ProxyLane.Mitm

open Foundation Protocol

namespace Session

variable {env : TlsEnv} {s t : Session}

structure Calm (s : Session) : Prop where
  phase : s.phase = .active
  handshake : s.handshake = none
  pending : s.capturePending = none
  encrypted : s.encryptedPending = ⟨[], []⟩
  unread : ∀ side, s.unread side = []

theorem Calm.still (h : Calm s) (k : Still s t) : Calm t := by
  constructor
  · rw [k.phase, h.phase]
  · rw [k.handshake, h.handshake]
  · rw [k.pending, h.pending]
  · rw [k.encrypted, h.encrypted]
  · intro side
    rw [unread_of_legView k.legs, h.unread]

theorem still_then {r : Outcome} {f : Session → Outcome} (hs : Calm s)
    (h : Still s r.2) (hf : ∀ u, Calm u → Still u (f u).2) :
    Still s (r.andThen f).2 := by
  obtain ⟨e, u⟩ := r
  cases e with
  | none => exact h.trans (hf u (hs.still h))
  | some e => exact h

theorem still_pump (depth : Nat) (h : Calm s) :
    Still s (pump env depth s).2 := by
  cases depth with
  | zero => exact Still.refl s
  | succ depth =>
    have hlegs : Still s (s.pumpLegs env
        (feedTls env (machine env depth).1)).2 := by
      simp only [pumpLegs, beginDownstream, h.phase]
      simp only [reduceCtorEq, false_or, if_true, if_false]
      refine still_then h (Still.refl s) fun t ht => ?_
      refine still_then ht (still_drainLeg (ht.unread .client)) fun t ht => ?_
      refine still_then ht (still_drainLeg (ht.unread .server)) fun u _ => ?_
      exact still_andThen (still_writeLeg .client u)
        fun v => still_writeLeg .server v
    have hclient : s.encryptedPending.get .client = [] := by
      rw [h.encrypted]
      rfl
    have hserver : s.encryptedPending.get .server = [] := by
      rw [h.encrypted]
      rfl
    simpa [pump, machine, pumpWith, retryCapture, h.pending, Outcome.andThen,
      feedPending, hclient, hserver, pending, h.handshake] using hlegs

structure Over (s : Session) : Prop where
  calm : Calm s
  drainError : s.drainError ≠ none

theorem Live.early_frame (h : Live s) (hphase : s.phase ≠ .active)
    (same : t.trace = s.trace ∧ t.connections = s.connections ∧
      t.handshake = s.handshake ∧ t.capturePending = s.capturePending) :
    Live t := by
  obtain ⟨h1, h2, h3, h4⟩ := same
  have hb := h.early hphase
  have huntapped : .tapped ∉ t.trace := by
    rw [h1]
    exact hb.untapped
  constructor
  · rw [h1]
    exact h.law
  · rw [h2]
    exact h.legs
  · rw [h3]
    exact h.jobLeg
  · intro _
    refine ⟨huntapped, ?_, ?_, ?_⟩
    · rw [h1]
      exact hb.forwarded
    · rw [h1]
      exact hb.taken
    · rw [h4]
      exact hb.pending
  · exact fun ht => absurd ht huntapped
  · exact fun ht => absurd ht huntapped

theorem still_tick (s : Session) : Still s (s.tick env).2 := by
  unfold tick
  split
  · exact Still.refl s
  · split
    · exact Still.refl s
    · split
      · exact still_access s
      · exact still_access s

theorem pump_tapes (depth : Nat) : Tapes (pump env depth) :=
  (machine_tapes depth).2

theorem hello_recorded (depth : Nat) (data : Bytes)
    (hlaw : Lawful Allowed s.trace) (hc : Conserved s.capturePending s)
    (h : Live s) (hphase : s.phase = .hello) :
    Recorded (hello env depth data s) := by
  have hearly : s.phase ≠ .active := by simp [hphase]
  have hn : Conserved s.capturePending { s with
      helloBytes := s.helloBytes + data.length } := hc.frame (by simp)
  simp only [hello]
  split
  · exact recorded_error (s := { s with
      helloBytes := s.helloBytes + data.length }) h.law _
  · split
    · exact recorded_error (s := Session.access { s with
        helloBytes := s.helloBytes + data.length }) h.law _
    · exact (h.early_frame hearly (by simp [access])).recorded
    · rename_i wire _
      have hcs := newServer_conserved wire hn hphase
      have hls : Live { Session.setLeg (Session.access { s with
          helloBytes := s.helloBytes + data.length }) .server { wire := wire }
          with phase := .upstream } := by
        have hset := setLeg_live h .server { wire := wire } fun _ => rfl
        exact hset.early_frame hearly (by simp [setLeg, access])
      generalize hs : ({ Session.setLeg (Session.access { s with
        helloBytes := s.helloBytes + data.length }) .server { wire := wire } with
          phase := .upstream } : Session) = t at hls hcs
      have htl : Lawful Allowed t.trace := by
        rw [← hs]
        exact hlaw
      have htc : Conserved t.capturePending t := by
        rw [← hs]
        rw [← hs] at hcs
        exact hcs
      exact Recorded.andThen (event_good htl htc)
        (still_recorded hls (still_access t)) (pump_tapes depth)

theorem feedSniffing_recorded (depth : Nat) (side : Direction) (data : Bytes)
    (hlaw : Lawful Allowed s.trace) (hc : Conserved s.capturePending s)
    (h : Live s) (hphase : s.phase = .sniffing) :
    Recorded (feedSniffing env depth side data s) := by
  have hearly : s.phase ≠ .active := by simp [hphase]
  have hold : s.phase ≠ .upstream ∧ s.phase ≠ .active := by simp [hphase]
  unfold feedSniffing
  split
  · split
    · exact recorded_error h.law _
    · exact (h.early_frame hearly (by simp [passthroughData, access])).recorded
  · simp only
    split
    · exact recorded_error h.law _
    · split
      · refine ⟨h.law, fun _ => h.early_frame hearly ?_⟩
        simp [event, passthroughData, access]
      · split
        · exact (h.early_frame hearly (by simp)).recorded
        · refine hello_recorded depth _ hlaw ?_ (h.early_frame hearly ?_) rfl
          · exact rephase_conserved hc .hello hold (by simp [hphase]) (by simp)
              rfl
          · simp

theorem feedReady_recorded (depth : Nat) (side : Direction) (data : Bytes)
    (hlaw : Lawful Allowed s.trace) (hc : Conserved s.capturePending s)
    (h : Live s) : Recorded (feedReady env depth side data s) := by
  unfold feedReady
  split
  · rename_i hphase
    exact feedSniffing_recorded depth side data hlaw hc h hphase
  · rename_i hphase
    refine Live.recorded (h.early_frame (by simp [hphase]) ?_)
    simp [passthroughData, access]
  · rename_i hphase
    split
    · exact recorded_error h.law _
    · exact hello_recorded depth data hlaw hc h hphase
  all_goals
    split
    · split
      · exact recorded_error h.law _
      · refine Live.recorded (h.frame ?_ ?_)
        · simp
        · exact fun hn => (h.early hn).pending
    · have hg : Good (feedTls env (machine env depth).1 side data s) :=
        (feedTls_keeps (machine_keeps depth).1).good side data s hlaw hc
      have hr : Recorded (feedTls env (machine env depth).1 side data s) :=
        feedTls_tapes (machine_tapes depth).1 side data s hlaw hc h
      split
      · rename_i e t heq
        rw [heq] at hr
        exact recorded_error hr.law _
      · rename_i t heq
        rw [heq] at hr hg
        exact pump_tapes depth t hg.lawful (hg.conserved rfl) (hr.live rfl)

theorem feed_recorded (depth : Nat) (side : Direction) (data : Bytes)
    (hlaw : Lawful Allowed s.trace) (hc : Conserved s.capturePending s)
    (hd : Drained s) (h : Live s) :
    Recorded (Session.feed env depth side data s) := by
  refine Recorded.andThen (tick_settled hlaw hc hd).good
    (still_recorded h (still_tick s)) fun t htl htc ht => ?_
  split
  · exact recorded_error ht.law _
  · split
    · exact recorded_error ht.law _
    · exact feedReady_recorded depth side data htl htc ht

structure Taped (r : Outcome) : Prop where
  law : Lawful Captured r.2.trace
  kept : r.1 = none → Live r.2 ∨ Over r.2

theorem Recorded.taped {r : Outcome} (h : Recorded r) : Taped r :=
  ⟨h.law, fun hn => Or.inl (h.live hn)⟩

theorem taped_error (h : Lawful Captured s.trace) (e : String) :
    Taped (some e, s) :=
  ⟨h, by simp⟩

def abrupt (s : Session) (side : Direction) : Bool :=
  s.error.isNone && s.phase != .passthrough && !s.eof.get side && s.recordingPending

theorem calm_of_ready (hc : Conserved s.capturePending s) (hd : Drained s)
    (hready : s.ready = true) (hphase : s.phase ≠ .passthrough)
    (hquiet : s.recordingPending = false) : Calm s := by
  have hparts : s.phase = .active ∧ s.established .client = true ∧
      s.established .server = true := by
    simpa [ready, hphase, and_assoc] using hready
  have hserver : s.connections.server ≠ none := by
    intro hn
    simp [established, Sides.get, hn] at hparts
  have hpend : s.pending = false ∧ s.encryptedEmpty = true := by
    simpa [recordingPending] using hquiet
  constructor
  · exact hparts.1
  · exact (hc.upstream hserver).1
  · simpa [pending] using hpend.1
  · have hempty := hpend.2
    simp only [encryptedEmpty, Bool.and_eq_true, List.isEmpty_iff] at hempty
    cases hs : s.encryptedPending
    simp only [hs] at hempty
    rw [hempty.1, hempty.2]
  · obtain hp | hu := hd
    · simp [hpend.1] at hp
    · exact hu

theorem unclean_over (side : Direction) (e : String) (h : Calm s) :
    Over (s.unclean side e) :=
  ⟨⟨h.phase, h.handshake, h.pending, h.encrypted, h.unread⟩, by simp [unclean]⟩

theorem inputEof_taped (depth : Nat) (side : Direction)
    (hlaw : Lawful Allowed s.trace) (hc : Conserved s.capturePending s)
    (hd : Drained s) (h : Live s) (herror : s.error = none)
    (hgate : s.abrupt side = false) : Taped (inputEof env depth side s) := by
  have tls : ∀ t : Session, Lawful Allowed t.trace →
      Conserved t.capturePending t → Drained t → Live t → t.error = none →
      t.abrupt side = false →
      Taped (if t.phase ≠ .passthrough ∧ t.eof.get side = false then
        if t.ready then
          (pump env depth t).andThen fun u =>
            (none, u.unclean side (t.truncated side))
        else (some (t.truncated side), t)
      else pump env depth { t with eof := t.eof.set side true }) := by
    intro t htl htc htd ht hterror htgate
    split
    · rename_i hbare
      split
      · rename_i hready
        have hquiet : t.recordingPending = false := by
          simpa [abrupt, hterror, hbare.1, hbare.2] using htgate
        have hcalm : Calm t := calm_of_ready htc htd hready hbare.1 hquiet
        have hpump : Still t (pump env depth t).2 := still_pump depth hcalm
        generalize pump env depth t = r at hpump
        obtain ⟨e, u⟩ := r
        cases e with
        | some e => exact taped_error (hpump.law ht.law) e
        | none =>
          refine ⟨hpump.law ht.law, fun _ => Or.inr ?_⟩
          exact unclean_over side _ (hcalm.still hpump)
      · exact taped_error ht.law _
    · rename_i hend
      apply Recorded.taped
      refine pump_tapes depth _ htl (eof_conserved htc hend) (ht.frame ?_ ?_)
      · simp
      · exact fun hn => (ht.early hn).pending
  unfold inputEof
  split
  · exact taped_error h.law _
  · by_cases hphase : s.phase = .sniffing
    · simp only [hphase, if_true]
      have hcp : Conserved s.capturePending { s with phase := .passthrough } :=
        rephase_conserved hc .passthrough (by simp [hphase]) (by simp) (by simp)
          rfl
      exact tls { s with phase := .passthrough } hlaw hcp hd
        (h.early_frame (by simp [hphase]) (by simp)) herror (by simp [abrupt])
    · simp only [hphase, if_false]
      exact tls s hlaw hc hd h herror hgate

theorem Over.still (h : Over s) (k : Still s t) : Over t := by
  refine ⟨h.calm.still k, ?_⟩
  rw [k.drainError]
  exact h.drainError

theorem over_taped {r : Outcome} (hlaw : Lawful Captured s.trace) (h : Over s)
    (k : Still s r.2) : Taped r :=
  ⟨k.law hlaw, fun _ => Or.inr (h.still k)⟩

theorem over_feed (depth : Nat) (side : Direction) (data : Bytes)
    (hlaw : Lawful Captured s.trace) (h : Over s) :
    Taped (Session.feed env depth side data s) := by
  have hstill : Still s (s.tick env).2 := still_tick s
  unfold Session.feed
  generalize s.tick env = r at hstill
  obtain ⟨e, t⟩ := r
  have ht : Over t := h.still hstill
  have hdrain : t.drainError.isNone = false := by
    simpa [Option.isSome_iff_ne_none] using ht.drainError
  cases e with
  | some e => exact taped_error (hstill.law hlaw) e
  | none =>
    simp only [Outcome.andThen]
    split
    · exact taped_error (hstill.law hlaw) _
    · rw [if_pos (by simp [canReadSide, hdrain])]
      exact taped_error (hstill.law hlaw) _

theorem over_inputEof (depth : Nat) (side : Direction)
    (hlaw : Lawful Captured s.trace) (h : Over s) :
    Taped (inputEof env depth side s) := by
  have hsniff : s.phase ≠ .sniffing := by simp [h.calm.phase]
  simp only [inputEof, hsniff, false_and, if_false]
  split
  · split
    · have hpump : Still s (pump env depth s).2 := still_pump depth h.calm
      generalize pump env depth s = r at hpump
      obtain ⟨e, t⟩ := r
      cases e with
      | some e => exact taped_error (hpump.law hlaw) e
      | none =>
        refine ⟨hpump.law hlaw, fun _ => Or.inr ?_⟩
        exact unclean_over side _ (h.calm.still hpump)
    · exact taped_error hlaw _
  · have heof : Still s { s with eof := s.eof.set side true } :=
      { Still.refl s with }
    refine over_taped hlaw h (heof.trans ?_)
    exact still_pump depth (h.calm.still heof)

structure Heard (s : Session) : Prop where
  law : Lawful Captured s.trace
  kept : s.error = none → Live s ∨ Over s

private theorem releasePending_law (h : Lawful Captured s.trace) :
    Lawful Captured s.releasePending.trace := by
  unfold releasePending
  split
  · exact h
  · simp only
    split
    · exact h.snoc trivial
    · exact h

theorem readOut_law (side : Direction) (h : Lawful Captured s.trace) :
    Lawful Captured (s.readOut side).trace := by
  unfold readOut
  split
  · exact h
  · exact h.snoc trivial

theorem fail_heard (h : Lawful Captured s.trace) (e : String) :
    Heard (s.fail e) := by
  unfold fail
  split
  · rename_i hsome
    exact ⟨h, fun hn => by simp [hn] at hsome⟩
  · refine ⟨?_, by simp⟩
    have hr := releasePending_law h
    simp only [finishPendingCapture]
    split
    · exact readOut_law .server (readOut_law .client hr)
    · exact hr

theorem taped_heard {r : Outcome} (h : Taped r) : Heard (conclude r) := by
  obtain ⟨e, s⟩ := r
  cases e with
  | none => exact ⟨h.law, fun _ => h.kept rfl⟩
  | some e => exact fail_heard h.law e

def gatedOp (s : Session) : Op → Bool
  | .eof side => !s.abrupt side
  | _ => true

theorem live_step (depth : Nat) (op : Op) (hs : Sound s)
    (herror : s.error = none) (h : Live s) (hgate : s.gatedOp op = true) :
    Heard (conclude (s.perform env depth op)) := by
  have hlaw := hs.lawful
  have hc := hs.conserved herror
  have hd := hs.drained herror
  cases op with
  | feed side data =>
    apply taped_heard
    simp only [perform]
    split
    · exact taped_error h.law _
    · exact (feed_recorded depth side data hlaw hc hd h).taped
  | peek side length =>
    apply taped_heard
    simp only [perform]
    split
    · exact taped_error h.law _
    · exact (pump_tapes depth s hlaw hc h).taped
  | consume side length =>
    apply taped_heard
    simp only [perform, consume]
    split
    · exact taped_error h.law _
    · apply Recorded.taped
      refine pump_tapes depth _ hlaw (hc.frame (by simp)) (h.frame ?_ ?_)
      · simp
      · exact fun hn => (h.early hn).pending
  | eof side =>
    apply taped_heard
    have hg : s.abrupt side = false := by simpa [gatedOp] using hgate
    exact inputEof_taped depth side hlaw hc hd h herror hg
  | status =>
    apply taped_heard
    apply Recorded.taped
    exact Recorded.andThen (tick_settled hlaw hc hd).good
      (still_recorded h (still_tick s)) (pump_tapes depth)
  | connected error =>
    simp only [perform]
    split
    · exact taped_heard h.recorded.taped
    · exact fail_heard h.law _

theorem over_step (depth : Nat) (op : Op) (hlaw : Lawful Captured s.trace)
    (h : Over s) : Heard (conclude (s.perform env depth op)) := by
  have hpump : Still s (pump env depth s).2 := still_pump depth h.calm
  cases op with
  | feed side data =>
    apply taped_heard
    simp only [perform]
    split
    · exact taped_error hlaw _
    · exact over_feed depth side data hlaw h
  | peek side length =>
    apply taped_heard
    simp only [perform]
    split
    · exact taped_error hlaw _
    · exact over_taped hlaw h hpump
  | consume side length =>
    apply taped_heard
    simp only [perform, consume]
    split
    · exact taped_error hlaw _
    · have hout : Still s { s with
          output := s.output.modify side (·.drop length) } :=
        { Still.refl s with }
      exact over_taped hlaw h (hout.trans (still_pump depth (h.calm.still hout)))
  | eof side =>
    apply taped_heard
    exact over_inputEof depth side hlaw h
  | status =>
    apply taped_heard
    exact over_taped hlaw h (still_then h.calm (still_tick s)
      fun u hu => still_pump depth hu)
  | connected error =>
    simp only [perform]
    split
    · exact taped_heard (over_taped hlaw h (Still.refl s))
    · exact fail_heard hlaw _

theorem step_heard (depth : Nat) (op : Op) (hs : Sound s) (h : Heard s)
    (hgate : s.gatedOp op = true) : Heard (s.step env depth op) := by
  unfold step
  split
  · exact h
  · rename_i hsome
    have herror : s.error = none := by simpa using hsome
    obtain hl | ho := h.kept herror
    · exact live_step depth op hs herror hl hgate
    · exact over_step depth op h.law ho

variable (env) in
def gated (depth : Nat) : Session → List Op → Bool
  | _, [] => true
  | s, op :: ops => s.gatedOp op && gated depth (s.step env depth op) ops

theorem run_heard (depth : Nat) (ops : List Op) :
    ∀ {s : Session}, Sound s → Heard s → gated env depth s ops = true →
      Heard (s.run env depth ops) := by
  induction ops with
  | nil => intro s _ h _; exact h
  | cons op ops ih =>
    intro s hs h hgate
    simp only [gated, Bool.and_eq_true] at hgate
    exact ih (step_sound depth op hs) (step_heard depth op hs h hgate.1) hgate.2

theorem start_heard (asyncHandshake protocolSource : Bool) :
    Heard (start asyncHandshake protocolSource) :=
  ⟨lawful_nil, fun _ => Or.inl (start_live asyncHandshake protocolSource)⟩

theorem shutdownOutput_closed {side : Direction}
    (h : Conserved s.capturePending s) (hphase : s.phase ≠ .passthrough)
    (hshut : s.shutdownOutput side = true) :
    .peerClosed side.other ∈ s.trace ∧ .closeNotify side ∈ s.trace := by
  simp only [shutdownOutput, Bool.and_eq_true, Bool.or_eq_true, beq_iff_eq,
    hphase, false_or, Option.isNone_iff_eq_none] at hshut
  obtain ⟨⟨⟨⟨⟨hdrain, heof⟩, _⟩, _⟩, _⟩, hsent, _⟩ := hshut
  exact ⟨h.ended side.other heof hdrain hphase, h.sent side hsent⟩

/-- For every sequence of calls: what a relay does is allowed by what it has
done; plaintext that is decoded and not written is on its way, in order; an
output ends behind an authenticated close of the other leg, and a close sent;
and, unless an input ends bare while something is being recorded, plaintext is
forwarded behind the capture. -/
theorem relay_conserves (env : TlsEnv) (depth : Nat)
    (asyncHandshake protocolSource : Bool) (ops : List Op) :
    let s := (start asyncHandshake protocolSource).run env depth ops
    Lawful Allowed s.trace ∧
      (s.error = none → ∀ side, decodedOn s.trace side =
        writtenTo s.trace side.other ++ s.plaintext.get side.other ++
          chunkOf s.capturePending side ++ s.undrained side) ∧
      (s.error = none → s.phase ≠ .passthrough → ∀ side,
        s.shutdownOutput side = true →
          .peerClosed side.other ∈ s.trace ∧ .closeNotify side ∈ s.trace) ∧
      (gated env depth (start asyncHandshake protocolSource) ops = true →
        Lawful Captured s.trace) := by
  intro s
  have hstart := start_sound asyncHandshake protocolSource
  have hsound : Sound s := run_sound depth ops hstart
  refine ⟨hsound.lawful, ?_, ?_, ?_⟩
  · intro herror side
    have hc := hsound.conserved herror
    rw [hc.moved side, hc.queued side]
  · intro herror hphase side hshut
    exact shutdownOutput_closed (hsound.conserved herror) hphase hshut
  · intro hgate
    have hheard : Heard s :=
      run_heard depth ops hstart (start_heard asyncHandshake protocolSource) hgate
    exact hheard.law

def refusingEnv : TlsEnv where
  readTls _ := .ok 1
  process n := .ok
    { plain := if n < 12 then [] else [n.toUInt8], closed := false,
      handshaking := false, wire := [] }
  read _ := .ok 16
  write _ := .ok ⟨1, []⟩
  writeTls _ := .ok 16
  closeNotify _ := [21]
  hello _ := .ok (some [1])
  accept _ := .ok []
  jobStart _ := true
  jobPoll _ := .ok true
  takes _ := false
  tap _ := true
  log _ := none
  late _ := false
  handshakeSeconds := 30

def waveringEnv : TlsEnv :=
  { refusingEnv with takes := fun n => n % 2 == 0 }

def waveringCalls : List Op :=
  [.feed .client [22, 3, 3], .feed .server [1], .feed .client [1, 1, 1],
    .status, .eof .server, .peek .server 1]

theorem relay_conserves_wavering :
    gated waveringEnv 8 (start false true) waveringCalls = true ∧
      forwardedFrom ((start false true).run waveringEnv 8 waveringCalls).trace
        .client ≠ [] ∧
      Lawful Captured ((start false true).run waveringEnv 8 waveringCalls).trace :=
  ⟨by decide, by decide,
    (relay_conserves waveringEnv 8 false true waveringCalls).2.2.2
      (by decide)⟩

def abruptCalls : List Op :=
  [.feed .client [22, 3, 3], .feed .server [1], .feed .client [1, 1, 1],
    .eof .client, .peek .server 1]

theorem abrupt_end_unheard :
    let s := (start false true).run refusingEnv 8 abruptCalls
    s.error = none ∧ .tapped ∈ s.trace ∧ .forwarded .client [28] ∈ s.trace ∧
      .written .server [28] ∈ s.trace ∧
      (∀ taken, .offered .client [28] taken ∉ s.trace) ∧
      takenFrom s.trace .client = [] ∧ ¬Lawful Captured s.trace := by
  intro s
  have htrace : s.trace = [.decoded .server [], .tapped, .decoded .client [15],
      .offered .client [15] false, .offered .client [15] false,
      .offered .client [15] false, .forwarded .client [15],
      .decoded .client [21], .forwarded .client [21], .written .server [15],
      .written .server [21], .decoded .client [28], .forwarded .client [28],
      .written .server [28]] := by
    decide
  refine ⟨by decide, ?_⟩
  rw [htrace]
  refine ⟨by simp, by simp, by simp, by simp, by decide, fun hl => ?_⟩
  have hfirst := hl [.decoded .server [], .tapped, .decoded .client [15],
      .offered .client [15] false, .offered .client [15] false,
      .offered .client [15] false] (.forwarded .client [15])
    (by simp [List.prefix_iff_eq_take]) (by simp)
  revert hfirst
  decide

end Session

end ProxyLane.Mitm
