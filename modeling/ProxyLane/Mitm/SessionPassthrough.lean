import ProxyLane.Mitm.Session

/-!
# The choice between TLS and passthrough

The first octets of the client decide whether a session opens its TLS
connection or hands everything on as it is.  Octets kept until then go first.
A server that speaks before the client, or an input that ends before, makes
the session hand on as well.
-/

namespace ProxyLane.Mitm

open Foundation Protocol

namespace Session

variable {env : TlsEnv} {s t : Session}

/-! ## What goes in and comes out -/

def fedBy (side : Direction) : Op → Bytes
  | .feed sender data => if sender = side then data else []
  | _ => []

def fed (ops : List Op) (side : Direction) : Bytes := ops.flatMap (fedBy side)

def takenBy (s : Session) (side : Direction) : Op → Bytes
  | .consume receiver n =>
    if receiver = side then (s.output.get side).take n else []
  | _ => []

def sent (env : TlsEnv) (depth : Nat) (side : Direction) :
    Session → List Op → Bytes
  | _, [] => []
  | s, op :: ops => s.takenBy side op ++ sent env depth side (step env depth s op) ops

def firstMove : Op → Option Bool
  | .feed sender _ => some (sender = .client)
  | .eof _ => some false
  | _ => none

def opening (ops : List Op) : Option Bool := ops.findSome? firstMove

inductive Choice where
  | undecided
  | passthrough
  | tls
  deriving DecidableEq, Repr

def choiceOf : Phase → Choice
  | .sniffing => .undecided
  | .passthrough => .passthrough
  | .hello => .tls
  | .upstream => .tls
  | .active => .tls

def choice (opening : Option Bool) (client : Bytes) : Choice :=
  if opening = some false ∨ plausibleHello client = false then .passthrough
  else if client.length < 3 then .undecided
  else .tls

theorem plausibleHello_take (b : Bytes) :
    plausibleHello (b.take 3) = plausibleHello b := by
  rcases b with _ | ⟨x, _ | ⟨y, _ | ⟨z, b⟩⟩⟩ <;> rfl

theorem not_plausible_append {a : Bytes} (h : plausibleHello a = false)
    (b : Bytes) : plausibleHello (a ++ b) = false := by
  rcases a with _ | ⟨x, _ | ⟨y, _ | ⟨z, a⟩⟩⟩
  · simp [plausibleHello] at h
  · have hx : (x == 0x16) = false := by simpa [plausibleHello] using h
    simp [plausibleHello, hx]
  · have hxy : ((x == 0x16) && (y == 3)) = false := by
      simpa [plausibleHello] using h
    simp only [plausibleHello, List.cons_append, List.nil_append,
      List.getElem?_cons_zero, List.getElem?_cons_succ, Option.all_some, hxy,
      Bool.false_and]
  · exact h

theorem plausible_append {a : Bytes} (h : 3 ≤ a.length) (b : Bytes) :
    plausibleHello (a ++ b) = plausibleHello a := by
  rw [← plausibleHello_take (a ++ b), List.take_append_of_le_length h,
    plausibleHello_take]

variable {o : Option Bool}

theorem choice_append {p : Option Bool} {a : Bytes}
    (opened : o = none → a = []) (h : choice o a ≠ .undecided) (b : Bytes) :
    choice (o.or p) (a ++ b) = choice o a := by
  cases o with
  | none => exact absurd (by simp [opened rfl, choice, plausibleHello]) h
  | some o =>
    simp only [Option.some_or, choice] at h ⊢
    by_cases served : some o = some false
    · simp [served]
    · by_cases plain : plausibleHello a = false
      · simp [plain, not_plausible_append plain b]
      · have long : 3 ≤ a.length := by
          by_contra short
          rw [if_neg (by tauto), if_pos (by omega)] at h
          exact h rfl
        rw [plausible_append long]
        simp only [List.length_append]
        rw [if_neg (by tauto), if_neg (by omega), if_neg (by tauto),
          if_neg (by omega)]

structure Quiet (s : Session) : Prop where
  pending : s.capturePending = none
  encrypted : s.encryptedPending = ⟨[], []⟩
  handshake : s.handshake = none

theorem pump_quiet (h : Quiet s) (early : choiceOf s.phase ≠ .tls)
    (depth : Nat) : (pump env depth s).2 = s := by
  cases depth with
  | zero => rfl
  | succ depth =>
    have hclient : s.encryptedPending.get .client = [] := by
      rw [h.encrypted]
      rfl
    have hserver : s.encryptedPending.get .server = [] := by
      rw [h.encrypted]
      rfl
    have hphase : ¬(s.phase = .upstream ∨ s.phase = .active) := by
      rintro (hp | hp) <;> exact early (by rw [hp]; rfl)
    simp [pump, machine, pumpWith, retryCapture, h.pending, Outcome.andThen,
      feedPending, hclient, hserver, pending, h.handshake, pumpLegs, hphase]

theorem conclude_ok {r : Outcome} (h : (conclude r).error = none) :
    r.1 = none ∧ conclude r = r.2 := by
  obtain ⟨e, s⟩ := r
  cases e with
  | none => exact ⟨rfl, rfl⟩
  | some e =>
    exfalso
    simp only [conclude, fail] at h
    split at h
    · simp_all
    · simp at h

theorem andThen_ok {r : Outcome} {f : Session → Outcome}
    (h : (r.andThen f).1 = none) :
    r.1 = none ∧ (f r.2).1 = none ∧ r.andThen f = f r.2 := by
  obtain ⟨e, s⟩ := r
  cases e with
  | none => exact ⟨rfl, h, rfl⟩
  | some e => exact absurd h (by simp [Outcome.andThen])

theorem tick_ok (h : (s.tick env).1 = none) : (s.tick env).2 = s.access := by
  unfold tick at h ⊢
  split
  · simp_all
  · split
    · simp_all
    · split
      · rfl
      · rfl

/-! ## A TLS session stays one -/

def Tls (s : Session) : Prop := choiceOf s.phase = .tls

def StaysTls (f : Session → Outcome) : Prop := ∀ s, s.Tls → (f s).2.Tls

def FeedStaysTls (feed : Direction → Bytes → Session → Outcome) : Prop :=
  ∀ side data, StaysTls (feed side data)

theorem tls_andThen {r : Outcome} {f : Session → Outcome} (h : r.2.Tls)
    (hf : StaysTls f) : (r.andThen f).2.Tls := by
  obtain ⟨e, s⟩ := r
  cases e with
  | none => exact hf s h
  | some e => exact h

theorem deliver_tls (side : Direction) (bytes : Bytes) :
    StaysTls fun s => s.deliver env side bytes := by
  intro s h
  have offered : (s.offer env side bytes).2.phase = s.phase := by
    unfold offer
    split <;> rfl
  unfold deliver
  dsimp only
  split
  · rename_i t heq
    rw [heq] at offered
    exact (congrArg choiceOf offered).trans h
  · rename_i t heq
    rw [heq] at offered
    have ht : t.Tls := (congrArg choiceOf offered).trans h
    exact tls_andThen (r := t.event env) ht fun u hu => hu

theorem retryCapture_tls : StaysTls fun s => s.retryCapture env := by
  intro s h
  unfold retryCapture
  dsimp only
  split
  · exact h
  · exact deliver_tls _ _ _ h

theorem drainLoop_tls (side : Direction) (fuel : Nat) :
    StaysTls (drainLoop env side fuel) := by
  induction fuel with
  | zero => exact fun s h => h
  | succ fuel ih =>
    intro s h
    unfold drainLoop
    split
    · exact h
    · split
      · exact h
      · split
        · exact h
        · refine tls_andThen (deliver_tls side _ _ h) fun t ht => ?_
          split
          · exact ht
          · exact ih t ht

theorem drainLeg_tls (side : Direction) :
    StaysTls fun s => s.drainLeg env side := by
  intro s h
  unfold drainLeg
  dsimp only
  split
  · exact h
  · exact drainLoop_tls side _ s h

theorem writeLoop_tls (side : Direction) (fuel : Nat) :
    StaysTls (writeLoop env side fuel) := by
  induction fuel with
  | zero => exact fun s h => h
  | succ fuel ih =>
    intro s h
    unfold writeLoop
    split
    · exact h
    · split
      · exact h
      · split
        · exact h
        · dsimp only
          split
          · exact h
          · exact ih _ h

theorem sendClose_tls (side : Direction) :
    StaysTls fun s => s.sendClose env side := by
  intro s h
  unfold sendClose
  dsimp only
  split
  · exact h
  · split <;> exact h

theorem flushLoop_tls (side : Direction) (fuel : Nat) :
    StaysTls (flushLoop env side fuel) := by
  induction fuel with
  | zero => exact fun s h => h
  | succ fuel ih =>
    intro s h
    unfold flushLoop
    split
    · exact h
    · split
      · exact h
      · split
        · exact h
        · dsimp only
          split
          · exact h
          · exact ih _ h

theorem writeLeg_tls (side : Direction) :
    StaysTls fun s => s.writeLeg env side := by
  intro s h
  unfold writeLeg
  refine tls_andThen ?_ fun t ht => flushLoop_tls side _ t ht
  split
  · exact tls_andThen (writeLoop_tls side _ s h) (sendClose_tls side)
  · exact h

theorem absorbed_tls (side : Direction) (leg : Leg) (fresh : Bytes)
    (h : s.Tls) : (s.absorbed side leg fresh).Tls := by
  unfold absorbed
  dsimp only
  split <;> exact h

variable {feed : Direction → Bytes → Session → Outcome}

theorem feedStep_tls {again : Session → Outcome}
    (hagain : StaysTls again)
    (hfeed : FeedStaysTls feed) : FeedStaysTls (feedStep env again feed) := by
  intro side data s h
  unfold feedStep
  split
  · exact h
  · split
    · exact h
    · split
      · exact h
      · refine tls_andThen (hagain _ (absorbed_tls side _ _ h)) fun t ht => ?_
        split
        · exact ht
        · exact hfeed side _ t ht

theorem feedTls_tls
    (hfeed : FeedStaysTls feed) : FeedStaysTls (feedTls env feed) := by
  intro side data s h
  unfold feedTls
  split
  · split <;> exact h
  · split
    · split
      · exact h
      · dsimp only
        split <;> exact h
    · exact hfeed side data s h

theorem feedPending_tls (hfeed : FeedStaysTls feed) (side : Direction) :
    StaysTls (feedPending feed side) := by
  intro s h
  unfold feedPending
  split
  · exact h
  · exact hfeed side _ _ h

theorem finishUpstream_tls (hfeed : FeedStaysTls feed) :
    StaysTls fun s => s.finishUpstream env feed := by
  intro s h
  unfold finishUpstream
  dsimp only
  split
  · exact h
  · rename_i wire _
    have joined : (s.joinCapture env wire).Tls := by
      unfold joinCapture
      dsimp only
      split <;> rfl
    refine tls_andThen (r := (s.joinCapture env wire).event env) joined
      fun t ht => ?_
    split
    · exact ht
    · exact hfeed .client _ _ ht

private theorem beginDownstream_tls (hfeed : FeedStaysTls feed) :
    StaysTls fun s => s.beginDownstream env feed := by
  intro s h
  unfold beginDownstream
  dsimp only
  split
  · split
    · exact h
    · split
      · exact h
      · exact finishUpstream_tls hfeed s h
  · exact h

theorem pumpLegs_tls
    (hfeed : FeedStaysTls feed) : StaysTls fun s => s.pumpLegs env feed := by
  intro s h
  unfold pumpLegs
  dsimp only
  split
  · refine tls_andThen (beginDownstream_tls hfeed s h) fun s h => ?_
    refine tls_andThen (drainLeg_tls .client s h) fun s h => ?_
    refine tls_andThen (drainLeg_tls .server s h) fun s h => ?_
    exact tls_andThen (writeLeg_tls .client s h) (writeLeg_tls .server)
  · exact h

theorem pollHandshake_tls {again : Session → Outcome} (hfeed : FeedStaysTls feed)
    (hagain : StaysTls again) (job : HandshakeJob) :
    StaysTls (pollHandshake env feed again job) := by
  intro s h
  unfold pollHandshake
  split
  · exact h
  · exact h
  · split
    · exact h
    · refine tls_andThen (hagain _ (absorbed_tls .server _ _ h)) fun t ht => ?_
      split
      · exact ht
      · exact hfeed .server _ t ht

theorem pumpWith_tls
    {again : Session → Outcome} (hfeed : FeedStaysTls feed)
    (hagain : StaysTls again) : StaysTls (pumpWith env feed again) := by
  intro s h
  unfold pumpWith
  refine tls_andThen (retryCapture_tls s h) fun s h => ?_
  refine tls_andThen (feedPending_tls hfeed .client s h) fun s h => ?_
  refine tls_andThen (feedPending_tls hfeed .server s h) fun s h => ?_
  split
  · exact h
  · split
    · exact pollHandshake_tls hfeed hagain _ s h
    · exact pumpLegs_tls hfeed s h

theorem machine_tls (depth : Nat) :
    FeedStaysTls (machine env depth).1 ∧ StaysTls (machine env depth).2 := by
  induction depth with
  | zero => exact ⟨fun _ _ _ h => h, fun _ h => h⟩
  | succ depth ih =>
    exact ⟨feedStep_tls ih.2 ih.1, pumpWith_tls (feedTls_tls ih.1) ih.2⟩

theorem pump_tls (depth : Nat) : StaysTls (pump env depth) :=
  (machine_tls depth).2

theorem hello_tls (depth : Nat) (data : Bytes) :
    StaysTls (hello env depth data) := by
  intro s h
  unfold hello
  dsimp only
  split
  · exact h
  · split
    · exact h
    · exact h
    · exact tls_andThen (r := Session.event env _) rfl (pump_tls depth)

theorem feedReady_tls (depth : Nat) (side : Direction) (data : Bytes) :
    StaysTls (feedReady env depth side data) := by
  intro s h
  unfold feedReady
  split
  · rename_i hphase
    simp [Tls, hphase, choiceOf] at h
  · rename_i hphase
    simp [Tls, hphase, choiceOf] at h
  · split
    · exact h
    · exact hello_tls depth data s h
  all_goals
    split
    · split <;> exact h
    · have fed : (feedTls env (machine env depth).1 side data s).2.Tls :=
        feedTls_tls (machine_tls depth).1 side data s h
      split
      · rename_i heq
        rwa [heq] at fed
      · rename_i heq
        rw [heq] at fed
        exact pump_tls depth _ fed

/-! ## Runs -/

/-- `before` goes in, `gone` came out, and `o` is who opened: before the
choice the octets of the client are kept, in passthrough all of them are out
or queued. -/
structure Forwarded (s : Session) (before gone : Direction → Bytes)
    (o : Option Bool) : Prop where
  chosen : choiceOf s.phase = choice o (before .client)
  opened : o = none → before .client = []
  kept : s.phase = .sniffing →
    s.sniff = before .client ∧ (before .client = [] → o = none) ∧
      before .server = [] ∧ ∀ side, s.output.get side = [] ∧ gone side = []
  through : s.phase = .passthrough →
    ∀ side, gone side.other ++ s.output.get side.other = before side
  quiet : choiceOf s.phase ≠ .tls → Quiet s

variable {before gone : Direction → Bytes}

theorem Forwarded.frame
    (h : Forwarded s before gone o)
    (same : t.phase = s.phase ∧ t.sniff = s.sniff ∧ t.output = s.output ∧
      t.capturePending = s.capturePending ∧
      t.encryptedPending = s.encryptedPending ∧ t.handshake = s.handshake) :
    Forwarded t before gone o := by
  obtain ⟨h1, h2, h3, h4, h5, h6⟩ := same
  constructor
  · rw [h1]
    exact h.chosen
  · exact h.opened
  · rw [h1, h2, h3]
    exact h.kept
  · rw [h1, h3]
    exact h.through
  · rw [h1]
    intro early
    obtain ⟨hp, he, hh⟩ := h.quiet early
    exact ⟨by rw [h4, hp], by rw [h5, he], by rw [h6, hh]⟩

theorem forwarded_of_tls (h : s.Tls) (chosen : choice o (before .client) = .tls)
    (opened : o = none → before .client = []) :
    Forwarded s before gone o := by
  have hs : choiceOf s.phase = .tls := h
  refine ⟨hs.trans chosen.symm, opened, fun hp => ?_, fun hp => ?_,
    fun early => absurd hs early⟩
  · rw [hp] at hs
    cases hs
  · rw [hp] at hs
    cases hs

def grown (before : Direction → Bytes) (op : Op) (side : Direction) : Bytes :=
  before side ++ fedBy side op

def drawn (gone : Direction → Bytes) (s : Session) (op : Op)
    (side : Direction) : Bytes :=
  gone side ++ s.takenBy side op

theorem early_cases (h : choiceOf s.phase ≠ .tls) :
    s.phase = .sniffing ∨ s.phase = .passthrough := by
  revert h
  cases s.phase <;> simp [choiceOf]

theorem pump_forwarded (depth : Nat) (h : Forwarded s before gone o) :
    Forwarded (pump env depth s).2 before gone o := by
  by_cases early : choiceOf s.phase ≠ .tls
  · rw [pump_quiet (h.quiet early) early]
    exact h
  · have tls : s.Tls := not_not.1 early
    exact forwarded_of_tls (pump_tls depth s tls) (h.chosen.symm.trans tls) h.opened

variable {depth : Nat} {data : Bytes}

theorem forwarded_sniffing_client (some_data : data ≠ [])
    (h : Forwarded s before gone o) (hp : s.phase = .sniffing) :
    Forwarded (feedSniffing env depth .client data s).2
      (grown before (.feed .client data)) gone (o.or (some true)) := by
  obtain ⟨hsniff, -, hserver, hout⟩ := h.kept hp
  have unserved : o ≠ some false := by
    rintro rfl
    have := h.chosen
    simp [hp, choiceOf, choice] at this
  have unserved' : o.or (some true) ≠ some false := by
    cases o <;> simp_all
  have some_sniff : s.sniff ++ data ≠ [] := by simp [some_data]
  have hclient : grown before (.feed .client data) .client =
      s.sniff ++ data := by
    simp [grown, fedBy, hsniff]
  have hquiet := h.quiet (by simp [hp, choiceOf])
  have opened : o.or (some true) = none →
      grown before (.feed .client data) .client = [] := by
    cases o <;> simp
  unfold feedSniffing
  dsimp only
  rw [if_neg some_sniff]
  by_cases plain : plausibleHello (s.sniff ++ data) = false
  · rw [if_pos (by simp [plain])]
    constructor
    · simp [event, access, passthroughData, choiceOf, choice, hclient, plain]
    · exact opened
    · intro hs
      cases hs
    · intro _ side
      cases side with
      | client =>
        have hempty := hout .server
        simp only [Sides.get] at hempty
        simp [event, access, passthroughData, Direction.other, Sides.modify,
          Sides.get, Sides.set, hempty, hclient]
      | server =>
        have hempty := hout .client
        simp only [Sides.get] at hempty
        simp [event, access, passthroughData, Direction.other, Sides.modify,
          Sides.get, Sides.set, hempty, grown, fedBy, hserver]
    · exact fun _ => ⟨hquiet.pending, hquiet.encrypted, hquiet.handshake⟩
  · rw [if_neg (by simpa using plain)]
    by_cases short : (s.sniff ++ data).length < 3
    · rw [if_pos short]
      constructor
      · simp only [hp, hclient, choice, choiceOf]
        rw [if_neg (by tauto), if_pos short]
      · exact opened
      · intro _
        refine ⟨hclient.symm, fun hc => ?_, ?_, hout⟩
        · rw [hclient] at hc
          exact absurd hc some_sniff
        · simp [grown, fedBy, hserver]
      · intro hs
        rw [hp] at hs
        cases hs
      · exact fun _ => ⟨hquiet.pending, hquiet.encrypted, hquiet.handshake⟩
    · rw [if_neg short]
      apply forwarded_of_tls
      · exact hello_tls depth _ _ rfl
      · rw [hclient]
        unfold choice
        rw [if_neg (by tauto), if_neg short]
      · exact opened

theorem forwarded_sniffing_server
    (h : Forwarded s before gone o) (hp : s.phase = .sniffing)
    (ok : (feedSniffing env depth .server data s).1 = none) :
    Forwarded (feedSniffing env depth .server data s).2
      (grown before (.feed .server data)) gone (o.or (some false)) := by
  obtain ⟨hsniff, hnone, hserver, hout⟩ := h.kept hp
  have hquiet := h.quiet (by simp [hp, choiceOf])
  unfold feedSniffing at ok ⊢
  dsimp only at ok ⊢
  by_cases empty : s.sniff = []
  · rw [if_neg (by simp [empty])]
    have hc : before .client = [] := by rw [← hsniff, empty]
    have ho : o = none := hnone hc
    constructor
    · simp [access, passthroughData, choiceOf, choice, ho]
    · simp [ho]
    · intro hs
      cases hs
    · intro _ side
      cases side with
      | client =>
        have hempty := hout .server
        simp only [Sides.get] at hempty
        simp [access, passthroughData, Direction.other, Sides.modify,
          Sides.get, Sides.set, hempty, grown, fedBy, hc]
      | server =>
        have hempty := hout .client
        simp only [Sides.get] at hempty
        simp [access, passthroughData, Direction.other, Sides.modify,
          Sides.get, Sides.set, hempty, grown, fedBy, hserver]
    · exact fun _ => ⟨hquiet.pending, hquiet.encrypted, hquiet.handshake⟩
  · rw [if_pos empty] at ok
    cases ok

variable {side : Direction}

theorem forwarded_passthrough
    (h : Forwarded s before gone o) (hp : s.phase = .passthrough) :
    Forwarded (s.passthroughData env side data)
      (grown before (.feed side data)) gone
      (o.or (firstMove (.feed side data))) := by
  have hquiet := h.quiet (by simp [hp, choiceOf])
  have decided : choice o (before .client) ≠ .undecided := by
    rw [← h.chosen, hp]
    decide
  have opened : o ≠ none := by
    rintro rfl
    simp [h.opened rfl, choice, plausibleHello] at decided
  constructor
  · have same := choice_append (p := firstMove (.feed side data)) h.opened
      decided (fedBy .client (.feed side data))
    exact h.chosen.trans same.symm
  · intro hn
    cases o with
    | none => exact absurd rfl opened
    | some o => cases hn
  · intro hs
    exact absurd (hp.symm.trans hs) (by decide)
  · intro _ x
    have through := h.through hp x
    by_cases hx : x = side
    · subst hx
      simp [passthroughData, access, grown, fedBy, ← through]
    · have hother : x = side.other := by
        cases x <;> cases side <;> simp_all [Direction.other]
      subst hother
      have there : (s.output.modify side.other (· ++ data)).get
          side.other.other = s.output.get side.other.other := by
        cases side <;> rfl
      simp only [passthroughData, access, there, through]
      cases side <;> simp [grown, fedBy, Direction.other]
  · exact fun _ => ⟨hquiet.pending, hquiet.encrypted, hquiet.handshake⟩

theorem feed_forwarded (some_data : data ≠ []) (h : Forwarded s before gone o)
    (ok : (Session.feed env depth side data s).1 = none) :
    Forwarded (Session.feed env depth side data s).2
      (grown before (.feed side data)) gone
      (o.or (firstMove (.feed side data))) := by
  obtain ⟨tick, fed, same⟩ := andThen_ok ok
  unfold Session.feed
  rw [same, tick_ok tick]
  rw [tick_ok tick] at fed
  have here : Forwarded s.access before gone o := h.frame (by simp [access])
  generalize s.access = s at here fed ⊢
  split at fed
  · cases fed
  · rename_i open_end
    split at fed
    · cases fed
    · rename_i room
      rw [if_neg open_end, if_neg room]
      cases hp : s.phase with
      | sniffing =>
        unfold feedReady at fed ⊢
        simp only [hp] at fed ⊢
        cases side with
        | client => exact forwarded_sniffing_client some_data here hp
        | server => exact forwarded_sniffing_server here hp fed
      | passthrough =>
        unfold feedReady
        simp only [hp]
        exact forwarded_passthrough here hp
      | hello | upstream | active =>
        have tls : s.Tls := by
          unfold Tls
          rw [hp]
          rfl
        have chosen := here.chosen.symm.trans tls
        have grows := choice_append (p := firstMove (.feed side data))
          here.opened (by rw [chosen]; decide)
          (fedBy .client (.feed side data))
        refine forwarded_of_tls (feedReady_tls depth side data s tls)
          (grows.trans chosen) fun hn => ?_
        cases o with
        | none => cases hn
        | some o => cases hn

theorem inputEof_forwarded (h : Forwarded s before gone o)
    (ok : (inputEof env depth side s).1 = none) :
    Forwarded (inputEof env depth side s).2 before gone (o.or (some false)) := by
  cases hp : s.phase with
  | sniffing =>
    obtain ⟨hsniff, hnone, hserver, hout⟩ := h.kept hp
    have hquiet := h.quiet (by simp [hp, choiceOf])
    unfold inputEof at ok ⊢
    by_cases empty : s.sniff = []
    · rw [if_neg (by simp [empty])]
      simp only [hp, if_true, ne_eq, not_true_eq_false, false_and, if_false]
      have hc : before .client = [] := by rw [← hsniff, empty]
      apply pump_forwarded
      constructor
      · simp [choiceOf, choice, hnone hc]
      · simp [hnone hc]
      · intro hs
        cases hs
      · intro _ x
        rw [(hout x.other).1, (hout x.other).2]
        cases x with
        | client => simp [hc]
        | server => simp [hserver]
      · exact fun _ => ⟨hquiet.pending, hquiet.encrypted, hquiet.handshake⟩
    · rw [if_pos ⟨hp, empty⟩] at ok
      cases ok
  | passthrough =>
    have opened : o ≠ none := by
      rintro rfl
      have := h.chosen
      simp [hp, h.opened rfl, choice, choiceOf, plausibleHello] at this
    have same : o.or (some false) = o := by
      cases o with
      | none => exact absurd rfl opened
      | some o => rfl
    unfold inputEof
    rw [if_neg (by simp [hp]), same]
    simp only [hp, reduceCtorEq, if_false, ne_eq, not_true_eq_false, false_and]
    exact pump_forwarded depth (h.frame (by simp [hp]))
  | hello | upstream | active =>
    have tls : s.Tls := by
      unfold Tls
      rw [hp]
      rfl
    have chosen := h.chosen.symm.trans tls
    have grows := choice_append (p := some false) h.opened
      (by rw [chosen]; decide) []
    rw [List.append_nil, chosen] at grows
    refine forwarded_of_tls ?_ grows fun hn => ?_
    · unfold inputEof
      rw [if_neg (by simp [hp])]
      simp only [hp, reduceCtorEq, if_false]
      split
      · split
        · exact tls_andThen (pump_tls depth s tls) fun t ht => ht
        · exact tls
      · exact pump_tls depth _ rfl
    · cases o with
      | none => cases hn
      | some o => cases hn

theorem consume_forwarded {n : Nat} (h : Forwarded s before gone o)
    (ok : (consume env depth side n s).1 = none) :
    Forwarded (consume env depth side n s).2 before
      (drawn gone s (.consume side n)) o := by
  unfold consume at ok ⊢
  split at ok
  · cases ok
  · rename_i enough
    rw [if_neg enough]
    apply pump_forwarded
    constructor
    · exact h.chosen
    · exact h.opened
    · intro hp
      obtain ⟨hsniff, hnone, hserver, hout⟩ := h.kept hp
      refine ⟨hsniff, hnone, hserver, fun x => ⟨?_, ?_⟩⟩
      · rw [Sides.get_modify]
        split <;> simp [hout]
      · unfold drawn takenBy
        dsimp only
        split <;> simp [hout]
    · intro hp x
      rw [← h.through hp x, Sides.get_modify]
      unfold drawn takenBy
      dsimp only
      by_cases hx : x.other = side
      · subst hx
        simp [List.append_assoc]
      · simp [hx, Ne.symm hx]
    · intro early
      obtain ⟨hpending, hencrypted, hjob⟩ := h.quiet early
      exact ⟨hpending, hencrypted, hjob⟩

theorem grown_other {op : Op}
    (h : ∀ side, fedBy side op = []) : grown before op = before := by
  funext side
  simp [grown, h]

theorem drawn_other {op : Op}
    (h : ∀ side, s.takenBy side op = []) : drawn gone s op = gone := by
  funext side
  simp [drawn, h]

theorem step_forwarded {op : Op} (h : Forwarded s before gone o)
    (ok : (step env depth s op).error = none) :
    Forwarded (step env depth s op) (grown before op) (drawn gone s op)
      (o.or (firstMove op)) := by
  unfold step at ok ⊢
  split at ok
  · rename_i failed
    rw [ok] at failed
    cases failed
  · rename_i failed
    rw [if_neg failed]
    obtain ⟨done, same⟩ := conclude_ok ok
    rw [same]
    cases op with
    | feed side data =>
      rw [drawn_other fun _ => rfl]
      unfold perform at done ⊢
      dsimp only at done ⊢
      split at done
      · cases done
      · rename_i some_data
        rw [if_neg some_data]
        exact feed_forwarded some_data h done
    | peek side n =>
      rw [grown_other fun _ => rfl, drawn_other fun _ => rfl]
      simp only [firstMove, Option.or_none]
      unfold perform
      dsimp only
      split
      · exact h
      · exact pump_forwarded depth h
    | consume side n =>
      rw [grown_other fun _ => rfl]
      simp only [firstMove, Option.or_none]
      exact consume_forwarded h done
    | eof side =>
      rw [grown_other fun _ => rfl, drawn_other fun _ => rfl]
      exact inputEof_forwarded h done
    | status =>
      rw [grown_other fun _ => rfl, drawn_other fun _ => rfl]
      simp only [firstMove, Option.or_none]
      obtain ⟨tick, pumped, next⟩ := andThen_ok done
      unfold perform
      rw [next, tick_ok tick]
      exact pump_forwarded depth (h.frame (by simp [access]))
    | connected e =>
      rw [grown_other fun _ => rfl, drawn_other fun _ => rfl]
      simp only [firstMove, Option.or_none]
      unfold perform at ok ⊢
      dsimp only at ok ⊢
      split at ok
      · rename_i zero
        rw [if_pos zero]
        exact h
      · exfalso
        simp only [conclude, fail] at ok
        split at ok
        · rename_i set
          rw [ok] at set
          cases set
        · cases ok

theorem start_forwarded (asyncHandshake protocolSource : Bool) :
    Forwarded (start asyncHandshake protocolSource) (fed []) (fun _ => []) none := by
  constructor
  · rfl
  · exact fun _ => rfl
  · intro _
    refine ⟨rfl, fun _ => rfl, rfl, fun side => ⟨?_, rfl⟩⟩
    cases side <;> rfl
  · intro hp
    cases hp
  · exact fun _ => ⟨rfl, rfl, rfl⟩

theorem run_error {ops : List Op}
    (ok : (run env depth s ops).error = none) : s.error = none := by
  induction ops generalizing s with
  | nil => exact ok
  | cons op ops ih =>
    have next := ih ok
    unfold step at next
    split at next
    · exact next
    · rename_i unfailed
      simpa using unfailed

theorem run_forwarded (ops : List Op) (h : Forwarded s before gone o)
    (ok : (run env depth s ops).error = none) :
    Forwarded (run env depth s ops) (fun side => before side ++ fed ops side)
      (fun side => gone side ++ sent env depth side s ops)
      (o.or (opening ops)) := by
  induction ops generalizing s before gone o with
  | nil => simpa [run, fed, sent, opening] using h
  | cons op ops ih =>
    have unfailed : (step env depth s op).error = none := run_error ok
    have one := step_forwarded h unfailed
    have all := ih one ok
    have hfed : (fun side => grown before op side ++ fed ops side) =
        fun side => before side ++ fed (op :: ops) side := by
      funext side
      simp [grown, fed, List.append_assoc]
    have hsent : (fun side => drawn gone s op side ++
          sent env depth side (step env depth s op) ops) =
        fun side => gone side ++ sent env depth side s (op :: ops) := by
      funext side
      simp [drawn, sent, List.append_assoc]
    have hopen : (o.or (firstMove op)).or (opening ops) =
        o.or (opening (op :: ops)) := by
      rw [Option.or_assoc]
      congr 1
      unfold opening
      rw [List.findSome?_cons]
      cases firstMove op <;> rfl
    rw [hfed, hsent, hopen] at all
    exact all

/-! ## Which calls fail -/

/-- The server does not speak, and the handshake is not late, behind a part
of what decides; the log can be written. -/
structure Undisturbed (env : TlsEnv) (s : Session) (side : Direction) :
    Prop where
  silent : s.sniff ≠ [] → side = .client
  inTime : s.sniff ≠ [] → ∀ n, env.late n = false
  logged : ∀ n, env.log n = none

theorem feed_accepted
    (room : s.canReadSide side = true) (length : data.length ≤ 16384)
    (some_data : data ≠ []) (early : choiceOf s.phase ≠ .tls)
    (undisturbed : Undisturbed env s side)
    (plain : side = .client → s.phase = .sniffing →
      3 ≤ (s.sniff ++ data).length → plausibleHello (s.sniff ++ data) = false) :
    (step env depth s (.feed side data)).error = none := by
  have unfailed : s.error = none ∧ s.drainError = none ∧
      s.eof.get side = false := by
    simp only [canReadSide, Bool.and_eq_true, Option.isNone_iff_eq_none,
      Bool.not_eq_true'] at room
    exact ⟨room.1.1.1.1.1.1.1, room.1.1.1.1.1.1.2, room.1.1.1.1.1.2⟩
  obtain ⟨herror, hdrain, heof⟩ := unfailed
  have tick : s.tick env = (none, s.access) := by
    unfold tick
    rw [if_neg (by simp [herror]), if_neg (by simp [hdrain])]
    split
    · rename_i waits
      exfalso
      simp only [Bool.and_eq_true, Bool.not_eq_true', Bool.or_eq_true,
        bne_iff_ne, List.isEmpty_eq_false_iff] at waits
      obtain ⟨⟨unready, begun⟩, late⟩ := waits
      rcases early_cases early with hp | hp
      · have some_sniff : s.sniff ≠ [] :=
          begun.elim (fun h => absurd hp h) id
        rw [undisturbed.inTime some_sniff] at late
        cases late
      · simp [ready, hp] at unready
    · rfl
  have accepted : (feedReady env depth side data s.access).1 = none ∧
      (feedReady env depth side data s.access).2.error = none := by
    rcases early_cases early with hp | hp
    · have hpa : s.access.phase = .sniffing := hp
      unfold feedReady
      simp only [hpa]
      unfold feedSniffing
      cases side with
      | server =>
        have empty : s.sniff = [] := by
          by_contra some_sniff
          have := undisturbed.silent some_sniff
          cases this
        rw [if_neg (by simp [access, empty])]
        simpa [passthroughData, access] using herror
      | client =>
        dsimp only
        rw [if_neg (by simp [some_data])]
        split
        · exact ⟨undisturbed.logged _, herror⟩
        · rename_i hello
          split
          · exact ⟨rfl, herror⟩
          · rename_i long
            have := plain rfl hp (by simpa [access] using long)
            simp [access, this] at hello
    · have hpa : s.access.phase = .passthrough := hp
      unfold feedReady
      simp only [hpa]
      exact ⟨trivial, herror⟩
  have fed : Session.feed env depth side data s =
      feedReady env depth side data s.access := by
    unfold Session.feed
    rw [tick]
    unfold Outcome.andThen
    dsimp only
    have room' : s.access.canReadSide side = true := room
    rw [if_neg (by simp [access, heof]), if_neg (by simp [room', length])]
  unfold step
  rw [if_neg (by simp [herror])]
  unfold perform
  dsimp only
  rw [if_neg some_data, fed]
  generalize feedReady env depth side data s.access = r at accepted
  obtain ⟨e, t⟩ := r
  obtain ⟨he, ht⟩ := accepted
  dsimp only at he ht
  rw [he]
  exact ht

/-- In every run without a failed call the choice is that of the first octets,
and a session that hands on has handed on or queued what was fed, in order.
While no TLS session is chosen, data that there is room for is accepted. -/
theorem passthrough_transparent (env : TlsEnv) (depth : Nat)
    (asyncHandshake protocolSource : Bool) (ops : List Op)
    (ok : (run env depth (start asyncHandshake protocolSource) ops).error = none) :
    let s := run env depth (start asyncHandshake protocolSource) ops
    let gone := fun side =>
      sent env depth side (start asyncHandshake protocolSource) ops
    choiceOf s.phase = choice (opening ops) ((fed ops .client).take 3) ∧
      (choiceOf s.phase = .passthrough →
        ∀ side, gone side.other ++ s.output.get side.other = fed ops side) ∧
      (choiceOf s.phase = .undecided →
        s.sniff = fed ops .client ∧ fed ops .server = [] ∧ ∀ side, gone side = []) ∧
      ∀ side data, data ≠ [] → data.length ≤ 16384 →
        s.canReadSide side = true → Undisturbed env s side →
        choiceOf s.phase ≠ .tls →
        choice (opening (ops ++ [.feed side data]))
          ((fed (ops ++ [.feed side data]) .client).take 3) ≠ .tls →
        (step env depth s (.feed side data)).error = none := by
  intro s gone
  have whole : ∀ o client, choice o (client.take 3) = choice o client := by
    intro o client
    unfold choice
    rw [plausibleHello_take]
    simp only [List.length_take]
    split
    · rfl
    · split <;> split <;> first | rfl | omega
  have h : Forwarded s (fed ops) gone (opening ops) := by
    have all := run_forwarded ops (start_forwarded asyncHandshake protocolSource) ok
    have hfed : (fun side => fed [] side ++ fed ops side) = fed ops := rfl
    have hsent : (fun side => [] ++ sent env depth side
        (start asyncHandshake protocolSource) ops) = gone := rfl
    rw [hfed, hsent, Option.none_or] at all
    exact all
  refine ⟨(h.chosen).trans (whole _ _).symm, fun hp => ?_, fun hp => ?_, ?_⟩
  · apply h.through
    revert hp
    cases s.phase <;> simp [choiceOf]
  · have hs : s.phase = .sniffing := by
      revert hp
      cases s.phase <;> simp [choiceOf]
    obtain ⟨hsniff, -, hserver, hout⟩ := h.kept hs
    exact ⟨hsniff, hserver, fun side => (hout side).2⟩
  · intro side data some_data length room undisturbed early after
    refine feed_accepted room length some_data early undisturbed ?_
    rintro rfl hp long
    obtain ⟨hsniff, -, -, -⟩ := h.kept hp
    by_contra hello
    have unserved : opening ops ≠ some false := by
      intro served
      have := h.chosen
      simp [hp, choiceOf, choice, served] at this
    have unserved' : opening (ops ++ [.feed .client data]) ≠ some false := by
      unfold opening at unserved ⊢
      rw [List.findSome?_append]
      cases hops : ops.findSome? firstMove with
      | none => simp [firstMove]
      | some o => simpa [hops] using unserved
    have hfed : fed (ops ++ [.feed .client data]) .client =
        s.sniff ++ data := by
      simp [fed, fedBy, hsniff]
    rw [whole, hfed] at after
    unfold choice at after
    rw [if_neg (by tauto), if_neg (by omega)] at after
    exact after rfl

def plainEnv : TlsEnv where
  readTls _ := .ok 1
  process _ := .ok ⟨[], false, true, []⟩
  read _ := .ok 1
  write _ := .ok ⟨0, []⟩
  writeTls _ := .ok 1
  closeNotify _ := []
  hello _ := .ok none
  accept _ := .ok []
  jobStart _ := false
  jobPoll _ := .ok false
  takes _ := true
  tap _ := false
  log _ := none
  late _ := false
  handshakeSeconds := 15

def splitCalls : List Op :=
  [.feed .client [0x16], .feed .client [0x02], .consume .server 1,
    .feed .server [0x68]]

theorem passthrough_transparent_split :
    let s := run plainEnv 1 (start false false) splitCalls
    let gone := fun side => sent plainEnv 1 side (start false false) splitCalls
    choiceOf s.phase =
        choice (opening splitCalls) ((fed splitCalls .client).take 3) ∧
      (choiceOf s.phase = .passthrough →
        ∀ side, gone side.other ++ s.output.get side.other = fed splitCalls side) ∧
      (choiceOf s.phase = .undecided →
        s.sniff = fed splitCalls .client ∧ fed splitCalls .server = [] ∧
          ∀ side, gone side = []) ∧
      ∀ side data, data ≠ [] → data.length ≤ 16384 →
        s.canReadSide side = true → Undisturbed plainEnv s side →
        choiceOf s.phase ≠ .tls →
        choice (opening (splitCalls ++ [.feed side data]))
          ((fed (splitCalls ++ [.feed side data]) .client).take 3) ≠ .tls →
        (step plainEnv 1 s (.feed side data)).error = none :=
  passthrough_transparent plainEnv 1 false false splitCalls (by decide)

theorem passthrough_disturbed :
    (run plainEnv 1 (start false false)
        [.feed .client [0x16, 0x02], .feed .server [0x68]]).error = none ∧
      (run plainEnv 1 (start false false) [.feed .client [0x16],
        .feed .server [0x68], .feed .client [0x02]]).error =
          some "upstream spoke during partial TLS detection" ∧
      (run plainEnv 1 (start false false)
        [.feed .client [0x16, 0x03, 0x01]]).phase = .hello ∧
      (run plainEnv 1 (start false false)
        [.feed .server [0x68], .feed .client [0x16, 0x03, 0x01]]).phase =
          .passthrough := by
  decide

end Session

end ProxyLane.Mitm
