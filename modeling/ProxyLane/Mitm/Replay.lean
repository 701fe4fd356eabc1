import Mathlib.Tactic
import ProxyLane.Mitm.Worker

/-!
# Replaying a backlog

A backlog is read back as the events it was written from, and replaying it
puts out what the worker would have put out had it taken the events as they
came, unless an EOF among them makes the parser fail: the worker then goes
over to an opaque capture, and the replay does not.
-/

namespace ProxyLane.Mitm

open ProxyLane.Foundation ProxyLane.Protocol

variable {δ ι χ θ ρ : Type}

namespace Worker

/-! ## Frames -/

def Fits : Nat × Event → Prop
  | (now, .data _ bytes) => now < 2 ^ 64 ∧ bytes.length ≤ 16384
  | (now, .datagram _ bytes) => now < 2 ^ 64 ∧ bytes.length ≤ 65535
  | (now, .eof _ _) => now < 2 ^ 64
  | (_, .closing _) => True

theorem frame_length (now : Nat) (kind : UInt8) (side : Direction)
    (bytes : Bytes) : (frame now kind side bytes).length = 14 + bytes.length := by
  simp [frame, leBytes_length]
  omega

theorem readFrame_frame {now : Nat} (hnow : now < 2 ^ 64) (kind : UInt8)
    (side : Direction) {bytes : Bytes} (hfits : bytes.length ≤ 65535)
    (rest : Bytes) :
    readFrame (frame now kind side bytes ++ rest) =
      .ok (now, kind, side, bytes, rest) := by
  have htime : (frame now kind side bytes ++ rest).take 8 = leBytes 8 now := by
    rw [frame, List.append_assoc, List.append_assoc, List.append_assoc,
      List.take_left' (leBytes_length 8 now)]
  have hheader : ((frame now kind side bytes ++ rest).drop 8).take 6 =
      kind :: sideByte side :: leBytes 4 bytes.length := by
    rw [frame, List.append_assoc, List.append_assoc, List.append_assoc,
      List.drop_left' (leBytes_length 8 now)]
    simp [leBytes_length]
  have hbody : (frame now kind side bytes ++ rest).drop 14 = bytes ++ rest := by
    have hhead : (leBytes 8 now ++ [kind, sideByte side] ++
        leBytes 4 bytes.length).length = 14 := by simp [leBytes_length]
    rw [frame, List.append_assoc, List.drop_left' hhead]
  have hlength : (frame now kind side bytes ++ rest).length =
      14 + bytes.length + rest.length := by
    rw [List.length_append, frame_length]
  have hn : leNat (leBytes 4 bytes.length) = bytes.length := by
    rw [leNat_leBytes, Nat.mod_eq_of_lt (by omega)]
  have hnow' : leNat (leBytes 8 now) = now := by
    rw [leNat_leBytes, Nat.mod_eq_of_lt (by omega)]
  have hside : (if sideByte side = 0 then Direction.client else .server) =
      side := by
    cases side <;> rfl
  have hsmall : ¬ 1 < sideByte side := by
    cases side <;> decide
  rw [readFrame, if_neg (by omega)]
  simp only [hheader, List.drop_succ_cons, List.drop_zero, hn]
  rw [if_neg (by simp [hsmall, hlength]; omega), htime, hnow', hside, hbody,
    List.take_left, ← List.drop_drop, hbody, List.drop_left]

def frameOf : Nat × Event → Bytes
  | (now, .data side bytes) => frame now 1 side bytes
  | (now, .datagram side bytes) => frame now 3 side bytes
  | (now, .eof side clean) => frame now 2 side [if clean then 1 else 0]
  | (_, .closing _) => []

def closeReasonOf (events : List (Nat × Event)) : Option String :=
  events.foldl (fun reason e =>
    match e.2 with
    | .closing r => some r
    | _ => reason) none

def advance (offsets : Sides Nat) (e : Nat × Event) : Sides Nat :=
  match e.2 with
  | .data side bytes => offsets.modify side fun n => n + bytes.length
  | _ => offsets

def replayStep (w : Worker δ ι χ θ ρ) (c : Connection)
    (reason : Option String) (p : Stream δ ι χ θ ρ × Sides Nat)
    (e : Nat × Event) : Stream δ ι χ θ ρ × Sides Nat :=
  (match e with
    | (now, .data side bytes) =>
      w.data c.decrypted now p.1 side (p.2.get side) bytes
    | (now, .datagram side bytes) => w.datagram c.decrypted now p.1 side bytes
    | (now, .eof side clean) =>
      w.eofReplayed now p.1 side clean (eofReason reason side clean)
    | (_, .closing _) => p.1,
    advance p.2 e)

theorem run_defer (s : Capture δ ι χ θ ρ) (events : List (Nat × Event)) :
    (run defer s events).stream = s.stream ∧
      (run defer s events).deferred = s.deferred ++ events.flatMap frameOf ∧
      (run defer s events).offsets = events.foldl advance s.offsets := by
  induction events generalizing s with
  | nil => simp
  | cons e events ih =>
    obtain ⟨hstream, hdeferred, hoffsets⟩ := ih (defer s e)
    rw [run_cons, hstream, hdeferred, hoffsets]
    obtain ⟨now, e⟩ := e
    cases e <;> simp [defer, frameOf, advance]

theorem run_defer_reason (s : Capture δ ι χ θ ρ) (events : List (Nat × Event)) :
    (run defer s events).closeReason =
      events.foldl (fun reason e =>
        match e.2 with
        | .closing r => some r
        | _ => reason) s.closeReason := by
  induction events generalizing s with
  | nil => rfl
  | cons e events ih =>
    rw [run_cons, ih, List.foldl_cons]
    obtain ⟨now, e⟩ := e
    cases e <;> rfl

theorem replayLoop_frames (w : Worker δ ι χ θ ρ) (c : Connection)
    (reason : Option String) {events : List (Nat × Event)}
    (hfits : ∀ e ∈ events, Fits e) (offsets : Sides Nat)
    (s : Stream δ ι χ θ ρ) {fuel : Nat}
    (hfuel : (events.flatMap frameOf).length < fuel) :
    replayLoop w c reason fuel (events.flatMap frameOf) offsets s =
      .ok (run (w.replayStep c reason) (s, offsets) events).1 := by
  induction events generalizing offsets s fuel with
  | nil =>
    obtain ⟨n, rfl⟩ : ∃ n, fuel = n + 1 := ⟨fuel - 1, by simp at hfuel; omega⟩
    simp [replayLoop]
  | cons e events ih =>
    have hrest : ∀ e ∈ events, Fits e :=
      fun e he => hfits e (List.mem_cons_of_mem _ he)
    have he := hfits e (List.mem_cons_self ..)
    rw [List.flatMap_cons, List.length_append] at hfuel
    rw [List.flatMap_cons, run_cons]
    obtain ⟨now, e⟩ := e
    -- the frames that are not empty, by their kind
    have hround : ∀ kind side bytes, now < 2 ^ 64 → bytes.length ≤ 65535 →
        frameOf (now, e) = frame now kind side bytes →
        ∃ n, fuel = n + 1 ∧ (events.flatMap frameOf).length < n ∧
          (frameOf (now, e) ++ events.flatMap frameOf).isEmpty = false ∧
          readFrame (frameOf (now, e) ++ events.flatMap frameOf) =
            .ok (now, kind, side, bytes, events.flatMap frameOf) := by
      intro kind side bytes hnow hbytes heq
      have hlength := frame_length now kind side bytes
      rw [heq] at hfuel ⊢
      refine ⟨fuel - 1, by omega, by omega, ?_,
        readFrame_frame hnow kind side hbytes _⟩
      rw [← Bool.not_eq_true, List.isEmpty_iff_length_eq_zero, List.length_append]
      omega
    cases e with
    | data side bytes =>
      obtain ⟨n, rfl, hn, hsome, hread⟩ :=
        hround 1 side bytes he.1 (by have := he.2; omega) rfl
      rw [replayLoop, hsome, if_neg Bool.false_ne_true, hread]
      exact ih hrest _ _ hn
    | datagram side bytes =>
      obtain ⟨n, rfl, hn, hsome, hread⟩ := hround 3 side bytes he.1 he.2 rfl
      rw [replayLoop, hsome, if_neg Bool.false_ne_true, hread]
      exact ih hrest _ _ hn
    | eof side clean =>
      obtain ⟨n, rfl, hn, hsome, hread⟩ :=
        hround 2 side [if clean then 1 else 0] he (by simp) rfl
      have hclean : (([if clean then 1 else 0] : Bytes) == [1]) = clean := by
        cases clean <;> rfl
      rw [replayLoop, hsome, if_neg Bool.false_ne_true, hread]
      dsimp only
      rw [hclean]
      exact ih hrest _ _ hn
    | closing r => exact ih hrest offsets s (by omega)

/-! ## The end of a direction -/

def EofFails (a : Analyzer δ ι) (side : Direction) (clean : Bool) : Prop :=
  a.ended.get side = false ∧
    match a.parser with
    | some (.http1 h) => (h.eof side clean).error.isSome = true
    | some (.h2 h) => (h.eof side).error.isSome = true
    | _ => False

instance (a : Analyzer δ ι) (side : Direction) (clean : Bool) :
    Decidable (EofFails a side clean) :=
  match h : a.parser with
  | some (.http1 p) =>
    decidable_of_iff (a.ended.get side = false ∧
      (p.eof side clean).error.isSome = true) (by rw [EofFails, h])
  | some (.h2 p) =>
    decidable_of_iff (a.ended.get side = false ∧
      (p.eof side).error.isSome = true) (by rw [EofFails, h])
  | some (.webSocket _) => .isFalse (by rw [EofFails, h]; exact fun h => h.2)
  | none => .isFalse (by rw [EofFails, h]; exact fun h => h.2)

theorem failure_append (xs ys : List Output) :
    failure (xs ++ ys) = (failure ys).or (failure xs) := by
  have hfold : ∀ (ys : List Output) (error : Option String),
      ys.foldl (fun error o => (diagnostic o).or error) error =
        (failure ys).or error := by
    intro ys
    induction ys with
    | nil => intro error; simp [failure]
    | cons o ys ih =>
      intro error
      rw [failure, List.foldl_cons, List.foldl_cons, ih, ih,
        Option.or_none, Option.or_assoc]
  rw [failure, List.foldl_append, hfold]
  rfl

theorem failure_wrap (lib : Library δ ι) (a : Analyzer δ ι)
    (exchanges : List Exchange) : failure (a.wrap lib exchanges) = none := by
  induction exchanges with
  | nil => rfl
  | cons e exchanges ih =>
    have hsplit : a.wrap lib (e :: exchanges) =
        a.wrap lib [e] ++ a.wrap lib exchanges := rfl
    rw [hsplit, failure_append, ih]
    rfl

theorem failure_fail (lib : Library δ ι) (a : Analyzer δ ι) (error : String)
    (out : List Output) :
    failure (out ++ (a.fail lib error []).2) = some error := by
  simp [Analyzer.fail, ← List.append_assoc, failure, diagnostic]

theorem drain_length (a : Analyzer δ ι) (reason reason' : String) :
    (a.drain reason).1 = (a.drain reason').1 ∧
      (a.drain reason).2.length = (a.drain reason').2.length := by
  refine ⟨rfl, ?_⟩
  cases hparser : a.parser with
  | none => simp [Analyzer.drain, hparser]
  | some parser =>
    cases parser <;>
      simp [Analyzer.drain, hparser, Http1.drain, Http2.drain, WebSocket.drain]

/-- What `eof` makes of the answer of the parser. -/
def eofEnd (lib : Library δ ι) (reason : String)
    (r : Foundation.Outcome (Analyzer δ ι) Output String) :
    Analyzer δ ι × List Output :=
  match r.error with
  | some error =>
    ((r.state.fail lib error []).1, r.out ++ (r.state.fail lib error []).2)
  | none =>
    if r.state.ended = ⟨true, true⟩ then
      ((r.state.close lib reason).1, r.out ++ (r.state.close lib reason).2)
    else (r.state, r.out)

/-- A failing end leaves no parser; any other puts out no failure, and its
reason changes neither the state nor the number of exchanges. -/
theorem eof_cases (lib : Library δ ι) (a : Analyzer δ ι) (side : Direction)
    (clean : Bool) :
    (EofFails a side clean ∧ ∃ a' out detail, failure out = some detail ∧
      a'.parser = none ∧
      ∀ reason, a.eof lib side clean reason = (a', out)) ∨
    (¬ EofFails a side clean ∧ ∀ reason,
      failure (a.eof lib side clean reason).2 = none ∧
      ∀ reason', (a.eof lib side clean reason).1 =
          (a.eof lib side clean reason').1 ∧
        (a.eof lib side clean reason).2.length =
          (a.eof lib side clean reason').2.length) := by
  by_cases hdone : (a.parser.isNone || a.ended.get side) = true
  · have heof : ∀ reason, a.eof lib side clean reason = (a, []) :=
      fun reason => if_pos hdone
    refine .inr ⟨?_, fun reason => ?_⟩
    · rintro ⟨hended, hfails⟩
      rw [hended, Bool.or_false, Option.isNone_iff_eq_none] at hdone
      rw [hdone] at hfails
      exact hfails
    · simp [heof, failure]
  · have hopen : a.parser.isNone = false ∧ a.ended.get side = false := by
      rwa [Bool.not_eq_true, Bool.or_eq_false_iff] at hdone
    -- what the parser does with the end, before the reason is used
    obtain ⟨r, hr, hfails, hwrap⟩ :
        ∃ r : Foundation.Outcome (Analyzer δ ι) Output String,
        (∀ reason, a.eof lib side clean reason = eofEnd lib reason r) ∧
        (EofFails a side clean ↔ r.error.isSome = true) ∧
        failure r.out = none := by
      cases hparser : a.parser with
      | none => simp [hparser] at hopen
      | some parser =>
        cases parser with
        | http1 h =>
          refine ⟨{ a with ended := a.ended.set side true }.adopt lib
            .http1 (h.eof side clean), fun reason => ?_, ?_,
            failure_wrap ..⟩
          · rw [Analyzer.eof, if_neg hdone, hparser]
            rfl
          · simp [EofFails, hopen, hparser, Analyzer.adopt]
        | h2 h =>
          refine ⟨{ a with ended := a.ended.set side true }.adopt lib
            .h2 (h.eof side), fun reason => ?_, ?_, failure_wrap ..⟩
          · rw [Analyzer.eof, if_neg hdone, hparser]
            rfl
          · simp [EofFails, hopen, hparser, Analyzer.adopt]
        | webSocket ws =>
          refine ⟨.ok { a with ended := a.ended.set side true },
            fun reason => ?_, ?_, rfl⟩
          · rw [Analyzer.eof, if_neg hdone, hparser]
            rfl
          · simp [EofFails, hopen, hparser, Foundation.Outcome.ok]
    cases herror : r.error with
    | some error =>
      exact .inl ⟨hfails.2 (by simp [herror]),
        (r.state.fail lib error []).1, _, error,
        failure_fail lib r.state error r.out, rfl,
        fun reason => by rw [hr reason, eofEnd, herror]⟩
    | none =>
      have hnot : ¬ EofFails a side clean := by simp [hfails, herror]
      refine .inr ⟨hnot, fun reason => ?_⟩
      by_cases hboth : r.state.ended = ⟨true, true⟩
      · have hclose : ∀ reason, a.eof lib side clean reason =
            ((r.state.close lib reason).1,
              r.out ++ (r.state.close lib reason).2) := by
          intro reason
          rw [hr reason, eofEnd, herror]
          exact if_pos hboth
        refine ⟨?_, fun reason' => ?_⟩
        · rw [hclose, failure_append, hwrap]
          exact (Option.or_none ..).trans (failure_wrap lib r.state _)
        · rw [hclose, hclose]
          refine ⟨rfl, ?_⟩
          have hlength := (drain_length r.state reason reason').2
          simp [Analyzer.close, Analyzer.wrap, hlength]
      · have hstay : ∀ reason, a.eof lib side clean reason =
            (r.state, r.out) := by
          intro reason
          rw [hr reason, eofEnd, herror]
          exact if_neg hboth
        simp [hstay, hwrap]

/-! ## The log only grows -/

section Log

variable (w : Worker δ ι χ θ ρ) (s : Stream δ ι χ θ ρ)

theorem opaqueData_log (side : Direction) (bytes : Bytes) :
    s.log <+: (s.opaqueData side bytes).log := by
  simp only [Stream.opaqueData]
  split
  · exact List.prefix_append ..
  · exact List.prefix_rfl

theorem opaqueCapture_log : s.log <+: s.opaqueCapture.log := by
  simp only [Stream.opaqueCapture]
  split
  · exact List.prefix_append ..
  · refine .trans ?_ (opaqueData_log ..)
    exact List.prefix_append ..

theorem startFallback_log (now : Nat) (reason : String) :
    s.log <+: (s.startFallback now reason).log :=
  List.prefix_append ..

theorem fallbackData_log (now : Nat) (side : Direction) (offset : Nat)
    (bytes : Bytes) : s.log <+: (s.fallbackData now side offset bytes).log := by
  simp only [Stream.fallbackData]
  refine .trans ?_ (opaqueData_log ..)
  split
  · exact List.prefix_append ..
  · exact List.prefix_rfl

theorem parsed_log (now : Nat) (side : Direction) (offset : Nat)
    (bytes : Bytes) (r : Analyzer δ ι × List Output) :
    s.log <+: (parsed now s side offset bytes r).log := by
  simp only [parsed]
  split
  · refine .trans (.trans ?_ (startFallback_log ..)) (fallbackData_log ..)
    exact List.prefix_append ..
  · exact List.prefix_append ..

theorem data_log (decrypted : Bool) (now : Nat) (side : Direction)
    (offset : Nat) (bytes : Bytes) :
    s.log <+: (w.data decrypted now s side offset bytes).log := by
  simp only [data]
  split
  · exact List.prefix_append ..
  · split
    · split
      · exact (opaqueCapture_log s).trans (opaqueData_log ..)
      · split
        · exact parsed_log { s with sniff := [] } ..
        · refine .trans ?_ (opaqueCapture_log _)
          exact List.prefix_rfl
        · exact List.prefix_rfl
    · split
      · exact parsed_log ..
      · split
        · exact fallbackData_log ..
        · exact opaqueData_log ..

private theorem probe_log (decrypted : Bool) (bytes : Bytes) :
    s.log <+: (w.probe decrypted s bytes).log := by
  simp only [probe]
  split
  · split
    · exact List.prefix_append ..
    · exact List.prefix_rfl
  · exact List.prefix_rfl

theorem datagram_log (decrypted : Bool) (now : Nat) (side : Direction)
    (bytes : Bytes) : s.log <+: (w.datagram decrypted now s side bytes).log := by
  refine (probe_log w s decrypted bytes).trans ?_
  simp only [datagram]
  split
  · exact List.prefix_append ..
  · refine .trans ?_ (opaqueData_log ..)
    split <;> split <;> split <;>
      first
      | exact List.prefix_append ..
      | exact List.prefix_rfl

theorem eof_log (now : Nat) (side : Direction) (clean : Bool)
    (reason : String) : s.log <+: (w.eof now s side clean reason).log := by
  simp only [eof]
  split
  · exact List.prefix_rfl
  · split
    · refine .trans ?_ (startFallback_log ..)
      exact List.prefix_append ..
    · exact List.prefix_append ..

theorem eofReplayed_log (now : Nat) (side : Direction) (clean : Bool)
    (reason : String) :
    s.log <+: (w.eofReplayed now s side clean reason).log := by
  simp only [eofReplayed]
  split
  · exact List.prefix_rfl
  · exact List.prefix_append ..

end Log

theorem live_log (w : Worker δ ι χ θ ρ) (c : Connection)
    (s : Capture δ ι χ θ ρ) (e : Nat × Event) :
    s.stream.log <+: (w.live c s e).stream.log := by
  obtain ⟨now, e⟩ := e
  cases e with
  | data side bytes => exact data_log ..
  | datagram side bytes => exact datagram_log ..
  | eof side clean => exact eof_log ..
  | closing r => exact List.prefix_rfl

theorem run_live_log (w : Worker δ ι χ θ ρ) (c : Connection)
    (s : Capture δ ι χ θ ρ) (events : List (Nat × Event)) :
    s.stream.log <+: (run (w.live c) s events).stream.log := by
  induction events generalizing s with
  | nil => exact List.prefix_rfl
  | cons e events ih => exact (live_log w c s e).trans (ih _)

theorem run_replay_log (w : Worker δ ι χ θ ρ) (c : Connection)
    (reason : Option String) (p : Stream δ ι χ θ ρ × Sides Nat)
    (events : List (Nat × Event)) :
    p.1.log <+: (run (w.replayStep c reason) p events).1.log := by
  induction events generalizing p with
  | nil => exact List.prefix_rfl
  | cons e events ih =>
    refine .trans ?_ (ih _)
    obtain ⟨now, e⟩ := e
    cases e with
    | data side bytes => exact data_log ..
    | datagram side bytes => exact datagram_log ..
    | eof side clean => exact eofReplayed_log ..
    | closing r => exact List.prefix_rfl

/-! ## Live and replayed in step -/

def Idle (lib : Library δ ι) (a : Analyzer δ ι) : Prop :=
  a.parser = none ∨ a.parser = some (.http1 .new) ∨ a.parser = some (.h2 (.new lib))

theorem eof_idle {lib : Library δ ι} {a : Analyzer δ ι} (h : Idle lib a)
    (side : Direction) (clean : Bool) (reason : String) :
    (a.eof lib side clean reason).2 = [] ∧
      Idle lib (a.eof lib side clean reason).1 ∧ ¬ EofFails a side clean := by
  have hhttp1 : Http1.new.eof side clean = .ok .new := by cases side <;> rfl
  have hh2 : (Http2.new lib).eof side = .ok (.new lib) := by cases side <;> rfl
  refine ⟨?_, ?_, ?_⟩
  · rcases h with h | h | h
    · simp [Analyzer.eof, h]
    · simp only [Analyzer.eof, h, hhttp1, Analyzer.adopt, Analyzer.wrap,
        Foundation.Outcome.ok, Analyzer.close, Analyzer.drain]
      split_ifs <;> rfl
    · simp only [Analyzer.eof, h, hh2, Analyzer.adopt, Analyzer.wrap,
        Foundation.Outcome.ok, Analyzer.close, Analyzer.drain]
      split_ifs <;> rfl
  · rcases h with h | h | h
    · simp [Analyzer.eof, h, Idle]
    · simp only [Analyzer.eof, h, hhttp1, Analyzer.adopt, Analyzer.wrap,
        Foundation.Outcome.ok, Analyzer.close, Analyzer.drain]
      split_ifs <;> simp [Idle, h]
    · simp only [Analyzer.eof, h, hh2, Analyzer.adopt, Analyzer.wrap,
        Foundation.Outcome.ok, Analyzer.close, Analyzer.drain]
      split_ifs <;> simp [Idle, h]
  · rintro ⟨-, hparser⟩
    rcases h with h | h | h <;> rw [h] at hparser
    · exact hparser
    · simp [hhttp1, Foundation.Outcome.ok] at hparser
    · simp [hh2, Foundation.Outcome.ok] at hparser

theorem parser_idle (w : Worker δ ι χ θ ρ) (protocol : ProtocolKind) :
    Idle w.lib (w.parser protocol) := by
  simp only [parser, Analyzer.new]
  split
  case h_1 a h =>
    split at h
    · cases h
    · cases protocol with
      | http1 => cases h; exact .inr (.inl rfl)
      | h2 => cases h; exact .inr (.inr rfl)
      | webSocket => cases h
  case h_2 => exact .inl rfl

/-- The streams of the two runs are the same, but for a parser that a DNS
connection has only when it is live, and that never reads anything. -/
inductive Similar (lib : Library δ ι) :
    Stream δ ι χ θ ρ → Stream δ ι χ θ ρ → Prop
  | same (s : Stream δ ι χ θ ρ) : Similar lib s s
  | dns (s : Stream δ ι χ θ ρ) (dns : χ) (a : Analyzer δ ι)
      (hdns : s.dns = some dns) (ha : s.analyzer = some a)
      (hidle : Idle lib a) : Similar lib s { s with analyzer := none }

theorem Similar.log_eq {lib : Library δ ι} {s s' : Stream δ ι χ θ ρ}
    (h : Similar lib s s') : s.log = s'.log := by
  cases h <;> rfl

theorem Similar.eq_or_idle {lib : Library δ ι} {s s' : Stream δ ι χ θ ρ}
    (h : Similar lib s s') :
    s' = s ∨ ∀ a, s.analyzer = some a → Idle lib a := by
  cases h with
  | same => exact .inl rfl
  | dns dns a hdns ha hidle =>
    refine .inr fun b hb => ?_
    obtain rfl : a = b := Option.some.inj (ha.symm.trans hb)
    exact hidle

theorem data_similar (w : Worker δ ι χ θ ρ) {s s' : Stream δ ι χ θ ρ}
    (h : Similar w.lib s s') (decrypted : Bool) (now : Nat) (side : Direction)
    (offset : Nat) (bytes : Bytes) :
    Similar w.lib (w.data decrypted now s side offset bytes)
      (w.data decrypted now s' side offset bytes) := by
  cases h with
  | same => exact .same _
  | dns dns a hdns ha hidle =>
    have hlive : w.data decrypted now s side offset bytes =
        { s.emit ((w.dnsTcp dns now side bytes).2.map (.dns now)) with
          dns := some (w.dnsTcp dns now side bytes).1 } := by
      simp [data, hdns]
    have hlater : w.data decrypted now { s with analyzer := none } side
          offset bytes =
        { s.emit ((w.dnsTcp dns now side bytes).2.map (.dns now)) with
          dns := some (w.dnsTcp dns now side bytes).1
          analyzer := none } := by
      simp [data, hdns, Stream.emit]
    rw [hlive, hlater]
    exact .dns _ _ a rfl ha hidle

theorem datagram_similar (w : Worker δ ι χ θ ρ) {s s' : Stream δ ι χ θ ρ}
    (h : Similar w.lib s s') (decrypted : Bool) (now : Nat) (side : Direction)
    (bytes : Bytes) :
    Similar w.lib (w.datagram decrypted now s side bytes)
      (w.datagram decrypted now s' side bytes) := by
  cases h with
  | same => exact .same _
  | dns dns a hdns ha hidle =>
    have hlive : w.datagram decrypted now s side bytes =
        { s.emit ((w.dnsFeed dns now side bytes).2.map (.dns now)) with
          dns := some (w.dnsFeed dns now side bytes).1 } := by
      simp [datagram, probe, hdns]
    have hlater : w.datagram decrypted now { s with analyzer := none } side
          bytes =
        { s.emit ((w.dnsFeed dns now side bytes).2.map (.dns now)) with
          dns := some (w.dnsFeed dns now side bytes).1
          analyzer := none } := by
      simp [datagram, probe, hdns, Stream.emit]
    rw [hlive, hlater]
    exact .dns _ _ a rfl ha hidle

/-- The end of a direction puts out the same with both reasons, and the
parser does not fail. -/
def Harmless (w : Worker δ ι χ θ ρ) (s : Stream δ ι χ θ ρ) (side : Direction)
    (clean : Bool) (reason reason' : String) : Prop :=
  ∀ a, s.analyzer = some a → ¬ EofFails a side clean ∧
    (a.eof w.lib side clean reason).2 = (a.eof w.lib side clean reason').2

theorem eof_of_idle (w : Worker δ ι χ θ ρ) {s : Stream δ ι χ θ ρ}
    {a : Analyzer δ ι} (ha : s.analyzer = some a) (hidle : Idle w.lib a)
    (now : Nat) (side : Direction) (clean : Bool) (reason : String) :
    w.eof now s side clean reason =
      { s with analyzer := some (a.eof w.lib side clean reason).1 } := by
  have hnothing := (eof_idle hidle side clean reason).1
  simp [eof, ha, hnothing, put, Stream.emit, failure]

theorem eof_similar (w : Worker δ ι χ θ ρ) {s s' : Stream δ ι χ θ ρ}
    (h : Similar w.lib s s') (now : Nat) {side : Direction} {clean : Bool}
    {reason reason' : String} (hharmless : Harmless w s side clean reason reason') :
    Similar w.lib (w.eof now s side clean reason)
      (w.eofReplayed now s' side clean reason') := by
  cases h with
  | same =>
    cases ha : s.analyzer with
    | none =>
      simp only [eof, eofReplayed, ha]
      exact .same s
    | some a =>
      obtain ⟨hok, hsame⟩ := hharmless a ha
      rcases eof_cases w.lib a side clean with ⟨hfails, -⟩ | ⟨-, heof⟩
      · exact absurd hfails hok
      · obtain ⟨hnone, hreason⟩ := heof reason
        have hstate := (hreason reason').1
        have hlive : w.eof now s side clean reason =
            w.eofReplayed now s side clean reason' := by
          simp only [eof, eofReplayed, ha, hnone, ← hstate, ← hsame]
        rw [hlive]
        exact .same _
  | dns dns a hdns ha hidle =>
    rw [eof_of_idle w ha hidle]
    exact .dns { s with analyzer := some (a.eof w.lib side clean reason).1 }
      dns _ hdns rfl (eof_idle hidle side clean reason).2.1

theorem eof_similar_live (w : Worker δ ι χ θ ρ) {s s' : Stream δ ι χ θ ρ}
    (h : Similar w.lib s s') (now : Nat) (side : Direction) (clean : Bool)
    (reason : String) :
    Similar w.lib (w.eof now s side clean reason)
      (w.eof now s' side clean reason) := by
  cases h with
  | same => exact .same _
  | dns dns a hdns ha hidle =>
    rw [eof_of_idle w ha hidle]
    exact .dns { s with analyzer := some (a.eof w.lib side clean reason).1 }
      dns _ hdns rfl (eof_idle hidle side clean reason).2.1

def QuietAt (w : Worker δ ι χ θ ρ) (reason : Option String)
    (s : Capture δ ι χ θ ρ) : Nat × Event → Prop
  | (_, .eof side clean) =>
    Harmless w s.stream side clean (eofReason s.closeReason side clean)
      (eofReason reason side clean)
  | _ => True

theorem quiet_step (w : Worker δ ι χ θ ρ) (c : Connection)
    {reason : Option String} {s : Capture δ ι χ θ ρ}
    {p : Stream δ ι χ θ ρ × Sides Nat} {e : Nat × Event}
    (hquiet : QuietAt w reason s e) (h : Similar w.lib s.stream p.1)
    (hoffsets : s.offsets = p.2) :
    Similar w.lib (w.live c s e).stream (w.replayStep c reason p e).1 ∧
      (w.live c s e).offsets = (w.replayStep c reason p e).2 := by
  obtain ⟨now, e⟩ := e
  cases e with
  | data side bytes =>
    simp only [live, replayStep, advance, ← hoffsets]
    exact ⟨data_similar w h .., trivial⟩
  | datagram side bytes => exact ⟨datagram_similar w h .., hoffsets⟩
  | eof side clean => exact ⟨eof_similar w h now hquiet, hoffsets⟩
  | closing r => exact ⟨h, hoffsets⟩

theorem quiet_run (w : Worker δ ι χ θ ρ) (c : Connection)
    {reason : Option String} {events : List (Nat × Event)}
    {s : Capture δ ι χ θ ρ} {p : Stream δ ι χ θ ρ × Sides Nat}
    (hquiet : Admissible (w.live c) (QuietAt w reason) s events)
    (h : Similar w.lib s.stream p.1) (hoffsets : s.offsets = p.2) :
    Similar w.lib (run (w.live c) s events).stream
        (run (w.replayStep c reason) p events).1 ∧
      (run (w.live c) s events).offsets =
        (run (w.replayStep c reason) p events).2 := by
  induction events generalizing s p with
  | nil => exact ⟨h, hoffsets⟩
  | cons e events ih =>
    obtain ⟨h', hoffsets'⟩ := quiet_step w c hquiet.1 h hoffsets
    exact ih hquiet.2 h' hoffsets'

theorem live_similar (w : Worker δ ι χ θ ρ) (c : Connection)
    {s s' : Capture δ ι χ θ ρ} (h : Similar w.lib s.stream s'.stream)
    (hoffsets : s.offsets = s'.offsets)
    (hreason : s.closeReason = s'.closeReason) (e : Nat × Event) :
    Similar w.lib (w.live c s e).stream (w.live c s' e).stream ∧
      (w.live c s e).offsets = (w.live c s' e).offsets ∧
      (w.live c s e).closeReason = (w.live c s' e).closeReason := by
  obtain ⟨now, e⟩ := e
  cases e with
  | data side bytes =>
    simp only [live, hoffsets, hreason, and_true]
    exact data_similar w h ..
  | datagram side bytes => exact ⟨datagram_similar w h .., hoffsets, hreason⟩
  | eof side clean =>
    simp only [live, hoffsets, hreason, and_true]
    exact eof_similar_live w h ..
  | closing r => exact ⟨h, hoffsets, rfl⟩

theorem run_live_similar (w : Worker δ ι χ θ ρ) (c : Connection)
    {s s' : Capture δ ι χ θ ρ} (h : Similar w.lib s.stream s'.stream)
    (hoffsets : s.offsets = s'.offsets)
    (hreason : s.closeReason = s'.closeReason) (events : List (Nat × Event)) :
    Similar w.lib (run (w.live c) s events).stream
      (run (w.live c) s' events).stream := by
  induction events generalizing s s' with
  | nil => exact h
  | cons e events ih =>
    obtain ⟨h', hoffsets', hreason'⟩ := live_similar w c h hoffsets hreason e
    exact ih h' hoffsets' hreason'

theorem open_similar (w : Worker δ ι χ θ ρ) (c : Connection) :
    Similar w.lib (w.openStream c) (w.resume c w.blank) := by
  by_cases hport : c.serverPort = 53
  · cases hprotocol : protocolOf c.alpn with
    | none =>
      have heq : w.openStream c = w.resume c w.blank := by
        simp [openStream, resume, hport, hprotocol]
      rw [heq]
      exact .same _
    | some protocol =>
      have hopen : w.openStream c = { w.blank with
          dns := some w.dnsInit
          analyzer := some (w.parser protocol) } := by
        simp [openStream, hport, hprotocol, blank]
      have hresume : w.resume c w.blank = { w.blank with
          dns := some w.dnsInit
          analyzer := none } := by
        simp [resume, hport, blank]
      rw [hopen, hresume]
      exact .dns _ w.dnsInit _ rfl rfl (parser_idle w protocol)
  · have heq : w.openStream c = w.resume c w.blank := by
      cases halpn : c.alpn <;> cases hudp : c.udp <;>
        simp [openStream, resume, hport, halpn, hudp, blank, protocolOf]
    rw [heq]
    exact .same _

/-! ## What the worker keeps -/

@[simp] theorem opaqueData_detect (s : Stream δ ι χ θ ρ) (side : Direction)
    (bytes : Bytes) : (s.opaqueData side bytes).detect = s.detect := by
  simp only [Stream.opaqueData]
  split <;> rfl

@[simp] theorem opaqueData_analyzer (s : Stream δ ι χ θ ρ) (side : Direction)
    (bytes : Bytes) : (s.opaqueData side bytes).analyzer = s.analyzer := by
  simp only [Stream.opaqueData]
  split <;> rfl

@[simp] theorem opaqueCapture_detect (s : Stream δ ι χ θ ρ) :
    s.opaqueCapture.detect = false := by
  simp only [Stream.opaqueCapture]
  split
  · rfl
  · rw [opaqueData_detect]

@[simp] theorem opaqueCapture_analyzer (s : Stream δ ι χ θ ρ) :
    s.opaqueCapture.analyzer = s.analyzer := by
  simp only [Stream.opaqueCapture]
  split
  · rfl
  · rw [opaqueData_analyzer]
    rfl

@[simp] theorem fallbackData_detect (s : Stream δ ι χ θ ρ) (now : Nat)
    (side : Direction) (offset : Nat) (bytes : Bytes) :
    (s.fallbackData now side offset bytes).detect = s.detect := by
  simp only [Stream.fallbackData, opaqueData_detect]
  split <;> rfl

theorem parsed_detect (s : Stream δ ι χ θ ρ) (now : Nat) (side : Direction)
    (offset : Nat) (bytes : Bytes) (r : Analyzer δ ι × List Output)
    (h : s.detect = false) :
    (parsed now s side offset bytes r).detect = false := by
  simp only [parsed]
  split
  · rw [fallbackData_detect]
    rfl
  · exact h

@[simp] theorem datagram_detect (w : Worker δ ι χ θ ρ) (decrypted : Bool)
    (now : Nat) (s : Stream δ ι χ θ ρ) (side : Direction) (bytes : Bytes) :
    (w.datagram decrypted now s side bytes).detect = s.detect := by
  have hprobe : (w.probe decrypted s bytes).detect = s.detect := by
    simp only [probe]
    split <;> [split; skip] <;> rfl
  rw [← hprobe]
  simp only [datagram]
  split
  · rfl
  · rw [opaqueData_detect]
    split <;> split <;> split <;> rfl

@[simp] theorem datagram_analyzer (w : Worker δ ι χ θ ρ) (decrypted : Bool)
    (now : Nat) (s : Stream δ ι χ θ ρ) (side : Direction) (bytes : Bytes) :
    (w.datagram decrypted now s side bytes).analyzer = s.analyzer := by
  have hprobe : (w.probe decrypted s bytes).analyzer = s.analyzer := by
    simp only [probe]
    split <;> [split; skip] <;> rfl
  rw [← hprobe]
  simp only [datagram]
  split
  · rfl
  · rw [opaqueData_analyzer]
    split <;> split <;> split <;> rfl

def Decided (s : Stream δ ι χ θ ρ) : Prop :=
  s.analyzer.isSome = true → s.detect = false

theorem data_decided (w : Worker δ ι χ θ ρ) {s : Stream δ ι χ θ ρ}
    (h : Decided s) (decrypted : Bool) (now : Nat) (side : Direction)
    (offset : Nat) (bytes : Bytes) :
    Decided (w.data decrypted now s side offset bytes) := by
  simp only [data]
  split
  · exact h
  · split
    case isTrue =>
      split
      · intro _
        rw [opaqueData_detect, opaqueCapture_detect]
      · split
        · exact fun _ => rfl
        · exact fun _ => opaqueCapture_detect _
        · exact h
    case isFalse hdetect =>
      rw [Bool.not_eq_true] at hdetect
      split
      · exact fun _ => parsed_detect _ _ _ _ _ _ hdetect
      · split
        · intro _
          rw [fallbackData_detect, hdetect]
        · intro _
          rw [opaqueData_detect, hdetect]

theorem live_decided (w : Worker δ ι χ θ ρ) (c : Connection)
    {s : Capture δ ι χ θ ρ} (h : Decided s.stream) (e : Nat × Event) :
    Decided (w.live c s e).stream := by
  obtain ⟨now, e⟩ := e
  cases e with
  | data side bytes => exact data_decided w h c.decrypted now side _ bytes
  | datagram side bytes =>
    intro hsome
    simp only [live, datagram_detect, datagram_analyzer] at hsome ⊢
    exact h hsome
  | eof side clean =>
    simp only [live, eof]
    split
    · exact h
    case h_2 a ha =>
      have hdetect := h (by rw [ha]; rfl)
      split
      · exact fun _ => rfl
      · exact fun _ => hdetect
  | closing r => exact h

theorem run_live_decided (w : Worker δ ι χ θ ρ) (c : Connection)
    (events : List (Nat × Event)) {s : Stream δ ι χ θ ρ} (h : Decided s) :
    Decided (run (w.live c) (start s) events).stream := by
  have hstep : ∀ (s : Capture δ ι χ θ ρ) (e : Nat × Event),
      Decided s.stream → Decided (w.live c s e).stream :=
    fun s e h => live_decided w c h e
  exact run_induction hstep h events

theorem open_decided (w : Worker δ ι χ θ ρ) (c : Connection) :
    Decided (w.openStream c) := by
  intro hsome
  cases halpn : c.alpn with
  | none =>
    simp only [openStream, halpn, protocolOf, Option.map_none] at hsome
    split_ifs at hsome <;> simp at hsome
  | some alpn =>
    simp only [openStream, halpn]
    split_ifs <;> simp

/-! ## A parser that has failed -/

def isFallback : Entry ρ → Bool
  | .fallbackOpened _ => true
  | _ => false

def fallbacks (s : Stream δ ι χ θ ρ) : Nat := s.log.countP isFallback

def Dead (s : Stream δ ι χ θ ρ) : Prop :=
  s.detect = false ∧ ∃ a, s.analyzer = some a ∧ a.parser = none

@[simp] theorem opaqueData_fallbacks (s : Stream δ ι χ θ ρ)
    (side : Direction) (bytes : Bytes) :
    fallbacks (s.opaqueData side bytes) = fallbacks s := by
  simp only [Stream.opaqueData]
  split <;> simp [fallbacks, Stream.emit, isFallback]

theorem dead_data (w : Worker δ ι χ θ ρ) {s : Stream δ ι χ θ ρ} (h : Dead s)
    (decrypted : Bool) (now : Nat) (side : Direction) (offset : Nat)
    (bytes : Bytes) :
    Dead (w.data decrypted now s side offset bytes) ∧
      fallbacks (w.data decrypted now s side offset bytes) = fallbacks s := by
  obtain ⟨hdetect, a, ha, hparser⟩ := h
  cases hdns : s.dns with
  | some dns =>
    simp only [data, hdns]
    refine ⟨⟨hdetect, a, ha, hparser⟩, ?_⟩
    simp [fallbacks, Stream.emit, isFallback]
  | none =>
    have hpush : a.push w.lib side offset bytes = (a, []) := by
      simp [Analyzer.push, hparser]
    simp only [data, hdns, hdetect, ha, hpush, parsed, put, failure,
      List.foldl_nil, List.map_nil, Stream.emit, List.append_nil]
    exact ⟨⟨rfl, a, rfl, hparser⟩, rfl⟩

theorem dead_datagram (w : Worker δ ι χ θ ρ) {s : Stream δ ι χ θ ρ}
    (h : Dead s) (decrypted : Bool) (now : Nat) (side : Direction)
    (bytes : Bytes) :
    Dead (w.datagram decrypted now s side bytes) ∧
      fallbacks (w.datagram decrypted now s side bytes) = fallbacks s := by
  refine ⟨by simpa [Dead] using h, ?_⟩
  have hprobe : fallbacks (w.probe decrypted s bytes) = fallbacks s := by
    simp only [probe]
    split <;> [split; skip] <;> simp [fallbacks, Stream.emit, isFallback]
  rw [← hprobe]
  simp only [datagram]
  split
  · simp [fallbacks, Stream.emit, isFallback]
  · rw [opaqueData_fallbacks]
    split <;> split <;> split <;> simp [fallbacks, Stream.emit, isFallback]

theorem dead_eof (w : Worker δ ι χ θ ρ) {s : Stream δ ι χ θ ρ} (h : Dead s)
    (now : Nat) (side : Direction) (clean : Bool) (reason : String) :
    w.eof now s side clean reason = s ∧
      w.eofReplayed now s side clean reason = s := by
  obtain ⟨hdetect, a, ha, hparser⟩ := h
  have heof : a.eof w.lib side clean reason = (a, []) := by
    simp [Analyzer.eof, hparser]
  have hstream : { s with analyzer := some a, log := s.log } = s := by
    rw [← ha]
  constructor
  · simp only [eof, ha, heof, put, failure, List.foldl_nil, List.map_nil,
      Stream.emit, List.append_nil]
    exact hstream
  · simp only [eofReplayed, ha, heof, put, List.map_nil, Stream.emit,
      List.append_nil]
    exact hstream

theorem dead_run_replay (w : Worker δ ι χ θ ρ) (c : Connection)
    (reason : Option String) {p : Stream δ ι χ θ ρ × Sides Nat} (h : Dead p.1)
    (events : List (Nat × Event)) :
    Dead (run (w.replayStep c reason) p events).1 ∧
      fallbacks (run (w.replayStep c reason) p events).1 = fallbacks p.1 := by
  induction events generalizing p with
  | nil => exact ⟨h, rfl⟩
  | cons e events ih =>
    have hstep : Dead (w.replayStep c reason p e).1 ∧
        fallbacks (w.replayStep c reason p e).1 = fallbacks p.1 := by
      obtain ⟨now, e⟩ := e
      cases e with
      | data side bytes => exact dead_data w h ..
      | datagram side bytes => exact dead_datagram w h ..
      | eof side clean =>
        simp only [replayStep, (dead_eof w h now side clean _).2]
        exact ⟨h, trivial⟩
      | closing r => exact ⟨h, rfl⟩
    rw [← hstep.2]
    exact ih hstep.1

theorem dead_run_live (w : Worker δ ι χ θ ρ) (c : Connection)
    {s : Capture δ ι χ θ ρ} (h : Dead s.stream) (events : List (Nat × Event)) :
    fallbacks (run (w.live c) s events).stream = fallbacks s.stream := by
  induction events generalizing s with
  | nil => rfl
  | cons e events ih =>
    have hstep : Dead (w.live c s e).stream ∧
        fallbacks (w.live c s e).stream = fallbacks s.stream := by
      obtain ⟨now, e⟩ := e
      cases e with
      | data side bytes => exact dead_data w h ..
      | datagram side bytes => exact dead_datagram w h ..
      | eof side clean =>
        simp only [live, (dead_eof w h now side clean _).1]
        exact ⟨h, trivial⟩
      | closing r => exact ⟨h, rfl⟩
    rw [← hstep.2]
    exact ih hstep.1

/-! ## Deferred and live runs -/

/-- No EOF of the backlog makes its parser fail, or puts out something else
with the close reason that the ticket has when the backlog is replayed. -/
def Quiet (w : Worker δ ι χ θ ρ) (c : Connection)
    (backlog : List (Nat × Event)) : Prop :=
  Admissible (w.live c) (QuietAt w (closeReasonOf backlog))
    (start (w.openStream c)) backlog

theorem run_live_reason (w : Worker δ ι χ θ ρ) (c : Connection)
    (s : Capture δ ι χ θ ρ) (events : List (Nat × Event)) :
    (run (w.live c) s events).closeReason = (run defer s events).closeReason := by
  rw [run_defer_reason]
  induction events generalizing s with
  | nil => rfl
  | cons e events ih =>
    rw [run_cons, ih, List.foldl_cons]
    obtain ⟨now, e⟩ := e
    cases e <;> rfl

theorem run_replay_offsets (w : Worker δ ι χ θ ρ) (c : Connection)
    (reason : Option String) (p : Stream δ ι χ θ ρ × Sides Nat)
    (events : List (Nat × Event)) :
    (run (w.replayStep c reason) p events).2 = events.foldl advance p.2 := by
  induction events generalizing p with
  | nil => rfl
  | cons e events ih =>
    rw [run_cons, ih, List.foldl_cons]
    rfl

def replayed (w : Worker δ ι χ θ ρ) (c : Connection)
    (backlog : List (Nat × Event)) : Stream δ ι χ θ ρ × Sides Nat :=
  run (w.replayStep c (closeReasonOf backlog)) (w.resume c w.blank, ⟨0, 0⟩) backlog

theorem runDeferred_eq (w : Worker δ ι χ θ ρ) (c : Connection)
    {backlog : List (Nat × Event)} (hfits : ∀ e ∈ backlog, Fits e)
    (later : List (Nat × Event)) :
    ∃ s : Capture δ ι χ θ ρ, s.stream = (w.replayed c backlog).1 ∧
      s.offsets = (w.replayed c backlog).2 ∧
      s.closeReason = closeReasonOf backlog ∧
      w.runDeferred c backlog later = .ok (run (w.live c) s later) := by
  obtain ⟨hstream, hdeferred, hoffsets⟩ :=
    run_defer (start w.blank : Capture δ ι χ θ ρ) backlog
  have hreason := run_defer_reason (start w.blank : Capture δ ι χ θ ρ) backlog
  refine ⟨{ run defer (start w.blank) backlog with
    stream := (w.replayed c backlog).1
    closeReason := closeReasonOf backlog
    deferred := [] }, rfl, ?_, rfl, ?_⟩
  · rw [replayed, run_replay_offsets]
    exact hoffsets
  · have hspool : (run defer (start w.blank : Capture δ ι χ θ ρ)
        backlog).deferred = backlog.flatMap frameOf := hdeferred
    rw [runDeferred, replay, hspool, hstream, hreason,
      replayLoop_frames w c _ hfits _ _ (Nat.lt_succ_self _)]
    rfl

theorem fallbacks_differ (w : Worker δ ι χ θ ρ) (c : Connection)
    {s : Capture δ ι χ θ ρ} (hdecided : Decided s.stream)
    {p : Stream δ ι χ θ ρ × Sides Nat} (hsame : p.1 = s.stream) (now : Nat)
    {side : Direction} {clean : Bool} (reason : Option String)
    {a : Analyzer δ ι} (ha : s.stream.analyzer = some a)
    (hfails : EofFails a side clean) (after later : List (Nat × Event))
    {s' : Capture δ ι χ θ ρ}
    (hs' : s'.stream = (run (w.replayStep c reason) p
      ((now, .eof side clean) :: after)).1) :
    fallbacks (run (w.live c) s' later).stream <
      fallbacks (run (w.live c) s
        ((now, .eof side clean) :: after ++ later)).stream := by
  rcases eof_cases w.lib a side clean with
    ⟨-, a', out, detail, hdetail, hnone, heof⟩ | ⟨hnot, -⟩
  · have hdead : Dead (w.replayStep c reason p (now, .eof side clean)).1 := by
      simp only [replayStep, eofReplayed, hsame, ha, heof, put, Stream.emit]
      exact ⟨hdecided (by rw [ha]; rfl), a', rfl, hnone⟩
    have hreplay : fallbacks (w.replayStep c reason p (now, .eof side clean)).1 =
        fallbacks (put now s.stream out) := by
      simp only [replayStep, eofReplayed, hsame, ha, heof]
      rfl
    have hlive : fallbacks (put now s.stream out) <
        fallbacks (w.live c s (now, .eof side clean)).stream := by
      simp only [live, eof, ha, heof, hdetail]
      simp [fallbacks, put, Stream.startFallback, Stream.emit, isFallback]
    obtain ⟨hdead', hcount⟩ := dead_run_replay w c reason hdead after
    have hlater := dead_run_live w c (s := s') (by rw [hs']; exact hdead') later
    have hgrows := (run_live_log w c (w.live c s (now, .eof side clean))
      (after ++ later)).sublist.countP_le (p := isFallback)
    rw [hlater, hs']
    rw [run_cons, hcount, hreplay, List.cons_append, run_cons]
    exact hlive.trans_le hgrows
  · exact absurd hfails hnot

theorem log_differs (w : Worker δ ι χ θ ρ) (c : Connection)
    {s : Capture δ ι χ θ ρ} {p : Stream δ ι χ θ ρ × Sides Nat}
    (hsame : p.1 = s.stream) (now : Nat) {side : Direction} {clean : Bool}
    {reason : Option String} {a : Analyzer δ ι}
    (ha : s.stream.analyzer = some a) (hok : ¬ EofFails a side clean)
    (hout : (a.eof w.lib side clean (eofReason s.closeReason side clean)).2 ≠
      (a.eof w.lib side clean (eofReason reason side clean)).2)
    (after later : List (Nat × Event)) {s' : Capture δ ι χ θ ρ}
    (hs' : s'.stream = (run (w.replayStep c reason) p
      ((now, .eof side clean) :: after)).1) :
    (run (w.live c) s' later).stream.log ≠
      (run (w.live c) s ((now, .eof side clean) :: after ++ later)).stream.log := by
  rcases eof_cases w.lib a side clean with ⟨hfails, -⟩ | ⟨-, heof⟩
  · exact absurd hfails hok
  · obtain ⟨hnone, hboth⟩ := heof (eofReason s.closeReason side clean)
    have hlength := (hboth (eofReason reason side clean)).2
    have hlive : (w.live c s (now, .eof side clean)).stream.log =
        s.stream.log ++ (a.eof w.lib side clean
          (eofReason s.closeReason side clean)).2.map (.output now) := by
      simp only [live, eof, ha, hnone]
      rfl
    have hreplay : (w.replayStep c reason p (now, .eof side clean)).1.log =
        s.stream.log ++ (a.eof w.lib side clean
          (eofReason reason side clean)).2.map (.output now) := by
      simp only [replayStep, eofReplayed, hsame, ha]
      rfl
    have hlivePrefix := run_live_log w c (w.live c s (now, .eof side clean))
      (after ++ later)
    have hreplayPrefix := (run_replay_log w c reason
      (w.replayStep c reason p (now, .eof side clean)) after).trans
      ((hs' ▸ List.prefix_rfl : _ <+: s'.stream.log).trans
        (run_live_log w c s' later))
    intro heq
    rw [List.cons_append, run_cons] at heq
    rw [heq, hreplay] at hreplayPrefix
    rw [hlive] at hlivePrefix
    have hsplit := List.prefix_of_prefix_length_le hlivePrefix hreplayPrefix
      (by simp [hlength])
    have hall := hsplit.eq_of_length (by simp [hlength])
    rw [List.append_right_inj] at hall
    refine hout (List.map_injective_iff.2 (fun o o' h => ?_) hall)
    cases h
    rfl

/--
Whatever is deferred, and whenever the backlog is replayed, the parsers, the
DNS transactions and the opaque captures put out what they would have put out
live, if and only if no EOF of the backlog makes its parser fail or is
replayed with a close reason that changes what it puts out.
-/
theorem replay_like_live_iff (w : Worker δ ι χ θ ρ) (c : Connection)
    {backlog : List (Nat × Event)} (hfits : ∀ e ∈ backlog, Fits e)
    (later : List (Nat × Event)) :
    (∃ s, w.runDeferred c backlog later = .ok s ∧
      s.stream.log = (w.runLive c (backlog ++ later)).stream.log) ↔
      Quiet w c backlog := by
  obtain ⟨s', hstream, hoffsets, hreason, hrun⟩ :=
    runDeferred_eq w c hfits later
  constructor
  · rintro ⟨s, hs, hlog⟩
    rw [hrun] at hs
    cases hs
    by_contra hquiet
    obtain ⟨before, ⟨now, e⟩, after, hsplit, hbefore, hrefused⟩ :=
      exists_first_refusal hquiet
    have hlive : w.runLive c (backlog ++ later) =
        run (w.live c) (run (w.live c) (start (w.openStream c)) before)
          ((now, e) :: after ++ later) := by
      rw [runLive, hsplit, ← run_append, List.append_assoc]
    have hstream' : s'.stream =
        (run (w.replayStep c (closeReasonOf backlog))
          (run (w.replayStep c (closeReasonOf backlog))
            (w.resume c w.blank, ⟨0, 0⟩) before) ((now, e) :: after)).1 := by
      rw [hstream, replayed, ← run_append, ← hsplit]
    obtain ⟨hsimilar, -⟩ := quiet_run w c hbefore
      (p := (w.resume c w.blank, ⟨0, 0⟩)) (open_similar w c) rfl
    have hdecided := run_live_decided w c before (open_decided w c)
    cases e with
    | data side bytes => exact hrefused trivial
    | datagram side bytes => exact hrefused trivial
    | closing r => exact hrefused trivial
    | eof side clean =>
      rw [QuietAt, Harmless] at hrefused
      push Not at hrefused
      obtain ⟨a, ha, hharm⟩ := hrefused
      rw [hlive] at hlog
      rcases hsimilar.eq_or_idle with hsame | hidle
      · by_cases hfails : EofFails a side clean
        · have hcount := fallbacks_differ w c hdecided hsame now _ ha hfails
            after later hstream'
          rw [fallbacks, fallbacks, hlog] at hcount
          exact Nat.lt_irrefl _ hcount
        · exact log_differs w c hsame now ha hfails (hharm hfails) after later
            hstream' hlog
      · obtain ⟨hnothing, -, hok⟩ := eof_idle (hidle a ha) side clean
          (eofReason (run (w.live c) (start (w.openStream c))
            before).closeReason side clean)
        refine hharm hok (hnothing.trans ?_)
        exact (eof_idle (hidle a ha) side clean _).1.symm
  · intro hquiet
    obtain ⟨hsimilar, hsame⟩ := quiet_run w c hquiet
      (p := (w.resume c w.blank, ⟨0, 0⟩)) (open_similar w c) rfl
    refine ⟨_, hrun, ?_⟩
    rw [runLive, run_append]
    refine (run_live_similar w c ?_ ?_ ?_ later).log_eq.symm
    · rw [hstream]
      exact hsimilar
    · rw [hoffsets]
      exact hsame
    · rw [hreason, run_live_reason]
      exact run_defer_reason _ _

def partialLibrary : Library Unit Unit where
  parseRequest _ _ := .incomplete
  parseResponse _ _ := .incomplete
  parseHeaders _ _ := .incomplete
  parseChunkSize _ := .incomplete
  hpackInit := ()
  decodeExact _ _ := .error "no header block"
  setMaxDynamicSize table _ := table
  inflateInit := ()
  inflate state _ := (state, [], none)
  decodeBody _ body _ := .ok body

def partialWorker : Worker Unit Unit Unit Unit Unit where
  lib := partialLibrary
  limits := ⟨65536, 256, 65536, 65536, 64, 1048576, 65536⟩
  udpPackets := 16
  dnsInit := ()
  dnsTcp state _ _ _ := (state, [])
  dnsFeed state _ _ _ := (state, [])
  dnsDecodes _ := false
  quicInit := ()
  quicFeed state _ _ := state

def webConnection : Connection := ⟨false, 443, some (ascii "http/1.1"), true⟩

def cutRequest : List (Nat × Event) :=
  [(1, .data .client (ascii "GET / HT")), (2, .eof .client true),
    (3, .data .server (ascii "HTTP"))]

theorem replay_drops_bytes_after_eof :
    (∀ e ∈ cutRequest, Fits e) ∧
    (partialWorker.runDeferred webConnection cutRequest []).toOption.map
        (fun s => s.stream.log) =
      some [.output 2 (.diagnostic .http1 "incomplete HTTP/1 headers at EOF")] ∧
    (partialWorker.runLive webConnection cutRequest).stream.log =
      [.output 2 (.diagnostic .http1 "incomplete HTTP/1 headers at EOF"),
        .failed 2 "incomplete HTTP/1 headers at EOF",
        .fallbackOpened "incomplete HTTP/1 headers at EOF",
        .chunk 3 .server 0 0 4, .bytes .server (ascii "HTTP")] := by
  refine ⟨?_, by decide, by decide⟩
  simp [cutRequest, Fits, ascii]

theorem replay_like_live_sample :
    Quiet partialWorker webConnection
        [(1, .data .client (ascii "GET / HT")), (2, .eof .server true)] ∧
      ∃ s, partialWorker.runDeferred webConnection
          [(1, .data .client (ascii "GET / HT")), (2, .eof .server true)]
          [(3, .data .client (ascii "TP"))] = .ok s ∧
        s.stream.log = (partialWorker.runLive webConnection
          ([(1, .data .client (ascii "GET / HT")), (2, .eof .server true)] ++
            [(3, .data .client (ascii "TP"))])).stream.log := by
  have hfits : ∀ e ∈ [(1, Event.data .client (ascii "GET / HT")),
      (2, .eof .server true)], Fits e := by
    simp [Fits, ascii]
  have hquiet : Quiet partialWorker webConnection
      [(1, .data .client (ascii "GET / HT")), (2, .eof .server true)] := by
    have hopen : ∀ a ∈ (partialWorker.live webConnection
        (start (partialWorker.openStream webConnection))
        (1, .data .client (ascii "GET / HT"))).stream.analyzer,
        ¬ EofFails a .server true := by
      decide
    exact ⟨trivial, fun a ha => ⟨hopen a ha, rfl⟩, trivial⟩
  exact ⟨hquiet, (replay_like_live_iff partialWorker webConnection hfits
    [(3, .data .client (ascii "TP"))]).2 hquiet⟩

end Worker

end ProxyLane.Mitm
