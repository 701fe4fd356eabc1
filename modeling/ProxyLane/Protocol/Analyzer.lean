import ProxyLane.Foundation.Run
import ProxyLane.Protocol.Http1
import ProxyLane.Protocol.Http2

/-!
# The analyzer

One analyzer watches one connection, without a payload cache.  Bytes must
come in order; any failure is final, puts out what is still pending and leaves
no parser behind.  A WebSocket parser takes over from HTTP/1 with the bytes
that HTTP/1 has not read.
-/

namespace ProxyLane.Protocol

open ProxyLane.Foundation

inductive Output where
  | exchange (protocol : ProtocolKind) (exchange : Exchange)
  | diagnostic (protocol : ProtocolKind) (detail : String)
  deriving DecidableEq, Repr

inductive Parser (δ ι : Type) where
  | http1 (parser : Http1)
  | h2 (parser : Http2 δ)
  | webSocket (parser : WebSocket ι)
  deriving DecidableEq

/-- `earlier` is not in the source: it remembers what the parsers that are
gone have opened. -/
structure Analyzer (δ ι : Type) where
  protocol : ProtocolKind
  limits : Limits
  parser : Option (Parser δ ι)
  offsets : Sides Nat
  ended : Sides Bool
  earlier : List (ProtocolKind × Nat)
  deriving DecidableEq

def Parser.opened {δ ι : Type} : Parser δ ι → List (ProtocolKind × Nat)
  | .http1 h => (List.range' 1 h.requests).map fun id => (.http1, id)
  | .h2 h => h.opened.map fun id => (.h2, id)
  | .webSocket w => (List.range' 1 w.next).map fun id => (.webSocket, id)

def directionName : Direction → String
  | .client => "Client"
  | .server => "Server"

namespace Analyzer

variable {δ ι : Type} (lib : Library δ ι)

def new (protocol : ProtocolKind) (limits : Limits) :
    Except String (Analyzer δ ι) :=
  if limits.headers = 0 ∨ limits.headerCount = 0 ∨ limits.pending = 0 ∨
      limits.frame < 16384 ∨ limits.hpackTable < 4096 then
    .error "invalid analyzer limits"
  else
    let make := fun parser : Parser δ ι => (Except.ok
      ⟨protocol, limits, some parser, ⟨0, 0⟩, ⟨false, false⟩, []⟩ :
        Except String (Analyzer δ ι))
    match protocol with
    | .http1 => make (.http1 .new)
    | .h2 => make (.h2 (.new lib))
    | .webSocket => .error "WebSocket requires a captured HTTP Upgrade"

def opened (a : Analyzer δ ι) : List (ProtocolKind × Nat) :=
  a.earlier ++ (a.parser.map Parser.opened).getD []

def wrap (a : Analyzer δ ι) (exchanges : List Exchange) : List Output :=
  exchanges.map fun e => .exchange a.protocol (e.finish lib a.limits)

def drain (a : Analyzer δ ι) (reason : String) :
    Analyzer δ ι × List Exchange :=
  ({ a with parser := none, earlier := a.opened },
    match a.parser with
    | some (.http1 h) => h.drain reason
    | some (.h2 h) => h.drain reason
    | some (.webSocket w) => w.drain reason
    | none => [])

def fail (a : Analyzer δ ι) (error : String) (exchanges : List Exchange) :
    Analyzer δ ι × List Output :=
  let (a', drained) := a.drain error
  (a', a.wrap lib (exchanges ++ drained) ++ [.diagnostic a.protocol error])

def adopt {σ : Type} (a : Analyzer δ ι) (parser : σ → Parser δ ι)
    (r : Outcome σ Exchange String) : Outcome (Analyzer δ ι) Output String :=
  ⟨{ a with parser := some (parser r.state) }, a.wrap lib r.out, r.error⟩

def upgrade (a : Analyzer δ ι) (config : WsConfig) (buffers : Sides Bytes) :
    Outcome (Analyzer δ ι) Output String :=
  let a := { a with protocol := .webSocket, earlier := a.opened }
  a.adopt lib .webSocket
    (((WebSocket.new config).feed lib a.limits .client buffers.client).bind
      fun w => w.feed lib a.limits .server buffers.server)

def takeUpgrade (a : Analyzer δ ι) : Outcome (Analyzer δ ι) Output String :=
  match a.parser with
  | some (.http1 h) =>
    match h.takeUpgrade with
    | some (config, buffers) => a.upgrade lib config buffers
    | none => .ok a
  | _ => .ok a

/-- One round of the loop of `push`. -/
def feedChunk (a : Analyzer δ ι) (side : Direction) (chunk : Bytes) :
    Outcome (Analyzer δ ι) Output String :=
  let fed : Outcome (Analyzer δ ι) Output String :=
    match a.parser with
    | none => .fail a unwrapNone
    | some (.http1 h) => a.adopt lib .http1 (h.feed lib a.limits side chunk)
    | some (.h2 h) => a.adopt lib .h2 (h.feed lib a.limits side chunk)
    | some (.webSocket w) =>
      a.adopt lib .webSocket (w.feed lib a.limits side chunk)
  fed.bind (takeUpgrade lib)

def feedChunks (side : Direction) : List Bytes → Analyzer δ ι →
    Outcome (Analyzer δ ι) Output String
  | [], a => .ok a
  | chunk :: rest, a => (a.feedChunk lib side chunk).bind (feedChunks side rest)

/-- What `push` does before any failure, on bytes at the right offset. -/
def feedBytes (a : Analyzer δ ι) (side : Direction) (bytes : Bytes) :
    Outcome (Analyzer δ ι) Output String :=
  feedChunks lib side (chunks 16384 bytes) { a with
    offsets := a.offsets.modify side fun offset => offset + bytes.length }

def push (a : Analyzer δ ι) (side : Direction) (offset : Nat)
    (bytes : Bytes) : Analyzer δ ι × List Output :=
  if a.parser.isNone then (a, [])
  else if a.ended.get side then a.fail lib "data after EOF" []
  else if offset ≠ a.offsets.get side then
    a.fail lib ("capture gap/overlap on " ++ directionName side ++
      ": expected " ++ toString (a.offsets.get side) ++
      ", got " ++ toString offset) []
  else if 2 ^ 64 ≤ offset + bytes.length then a.fail lib "offset overflow" []
  else
    match a.feedBytes lib side bytes with
    | ⟨a, out, none⟩ => (a, out)
    | ⟨a, out, some error⟩ =>
      let (a, rest) := a.fail lib error []
      (a, out ++ rest)

def close (a : Analyzer δ ι) (reason : String) : Analyzer δ ι × List Output :=
  let (a', exchanges) := a.drain reason
  (a', a.wrap lib exchanges)

def eof (a : Analyzer δ ι) (side : Direction) (clean : Bool)
    (reason : String) : Analyzer δ ι × List Output :=
  if a.parser.isNone || a.ended.get side then (a, [])
  else
    let a := { a with ended := a.ended.set side true }
    let r : Outcome (Analyzer δ ι) Output String :=
      match a.parser with
      | some (.http1 h) => a.adopt lib .http1 (h.eof side clean)
      | some (.h2 h) => a.adopt lib .h2 (h.eof side)
      | _ => .ok a
    match r.error with
    | some error =>
      let (a, rest) := r.state.fail lib error []
      (a, r.out ++ rest)
    | none =>
      if r.state.ended = ⟨true, true⟩ then
        let (a, rest) := r.state.close lib reason
        (a, r.out ++ rest)
      else (r.state, r.out)

inductive Call where
  | push (side : Direction) (offset : Nat) (bytes : Bytes)
  | eof (side : Direction) (clean : Bool) (reason : String)
  | close (reason : String)
  deriving DecidableEq, Repr

def call (a : Analyzer δ ι) : Call → Analyzer δ ι × List Output
  | .push side offset bytes => a.push lib side offset bytes
  | .eof side clean reason => a.eof lib side clean reason
  | .close reason => a.close lib reason

def step (s : Analyzer δ ι × List Output) (c : Call) :
    Analyzer δ ι × List Output :=
  ((s.1.call lib c).1, s.2 ++ (s.1.call lib c).2)

/-- A capture in order: no gap, no overlap, nothing after an end, and one end
still to come. -/
def follows (p : Sides Nat × Sides Bool) : Call → Option (Sides Nat × Sides Bool)
  | .push side offset bytes =>
    if p.2.get side = false ∧ offset = p.1.get side ∧
        offset + bytes.length < 2 ^ 64 then
      some (p.1.modify side fun n => n + bytes.length, p.2)
    else none
  | .eof side _ _ =>
    if p.2.set side true = ⟨true, true⟩ then none
    else some (p.1, p.2.set side true)
  | .close _ => none

def place (a : Analyzer δ ι) : Sides Nat × Sides Bool := (a.offsets, a.ended)

/-- A parser that is still there has read a capture in order, and without one
nothing more happens. -/
def Orderly (a : Analyzer δ ι) (calls : List Call) : Prop :=
  let s := run (step lib) (a, []) calls
  (s.1.parser = none → ∀ more, run (step lib) s more = s) ∧
    (s.1.parser ≠ none → s.1.ended ≠ ⟨true, true⟩ ∧
      calls.foldlM follows (⟨0, 0⟩, ⟨false, false⟩) = some s.1.place)

variable {lib}

theorem place_bind {a : Analyzer δ ι} {r : Outcome (Analyzer δ ι) Output String}
    {f : Analyzer δ ι → Outcome (Analyzer δ ι) Output String}
    (h : r.state.place = a.place) (hf : ∀ b, (f b).state.place = b.place) :
    (r.bind f).state.place = a.place := by
  cases he : r.error with
  | none =>
    rw [Outcome.bind_of_ok he]
    exact (hf _).trans h
  | some e => rwa [Outcome.bind_of_error he]

private theorem place_takeUpgrade (a : Analyzer δ ι) :
    (a.takeUpgrade lib).state.place = a.place := by
  unfold takeUpgrade
  split
  · split <;> rfl
  · rfl

theorem place_feedChunks (side : Direction) (chunks : List Bytes)
    (a : Analyzer δ ι) : (feedChunks lib side chunks a).state.place = a.place := by
  induction chunks generalizing a with
  | nil => rfl
  | cons chunk rest ih =>
    refine place_bind (place_bind ?_ place_takeUpgrade) ih
    split <;> rfl

theorem call_dead {a : Analyzer δ ι} (h : a.parser = none) (c : Call) :
    a.call lib c = (a, []) := by
  obtain ⟨_, _, _, _, _, _⟩ := a
  cases h
  cases c <;> simp [call, push, eof, close, drain, wrap, opened]

theorem call_live {a : Analyzer δ ι} (hopen : a.ended ≠ ⟨true, true⟩) (c : Call)
    (h : a.parser ≠ none) : (a.call lib c).1.parser ≠ none →
      (a.call lib c).1.ended ≠ ⟨true, true⟩ ∧
        follows a.place c = some (a.call lib c).1.place := by
  have hsome : a.parser.isNone = false := by
    rwa [Option.isNone_eq_false_iff, Option.isSome_iff_ne_none]
  cases c with
  | close reason => exact fun hlive => (hlive rfl).elim
  | push side offset bytes =>
    have hplace : (a.feedBytes lib side bytes).state.place = _ :=
      place_feedChunks side _ _
    simp only [call, push, hsome, Bool.false_eq_true, if_false]
    split_ifs with hended hoffset hroom
    any_goals exact fun hlive => (hlive rfl).elim
    split
    case h_1 heq =>
      rw [heq] at hplace
      refine fun _ => ⟨(congrArg Prod.snd hplace).trans_ne hopen, ?_⟩
      rw [hplace]
      exact if_pos ⟨eq_false_of_ne_true hended, not_not.1 hoffset, not_le.1 hroom⟩
    case h_2 => exact fun hlive => (hlive rfl).elim
  | eof side clean reason =>
    simp only [call, eof, hsome, Bool.false_or]
    by_cases hended : a.ended.get side = true
    · have hset : a.ended.set side true = a.ended := by rw [← hended, Sides.set_get]
      rw [if_pos hended]
      exact fun _ => ⟨hopen, by simp [follows, place, hset, hopen]⟩
    rw [if_neg hended]
    rcases a.parser with _ | _ | _ | _
    all_goals
      dsimp only
      split
      · exact fun hlive => (hlive rfl).elim
      split_ifs with hboth
      · exact fun hlive => (hlive rfl).elim
      · exact fun _ => ⟨hboth, if_neg hboth⟩

theorem orderly {protocol : ProtocolKind} {limits : Limits} {a : Analyzer δ ι}
    (hnew : new lib protocol limits = .ok a) (calls : List Call) :
    Orderly lib a calls := by
  refine ⟨fun hdead more => ?_, ?_⟩
  · induction more with
    | nil => rfl
    | cons c more ih => rwa [run_cons, step, call_dead hdead, List.append_nil]
  induction calls using List.reverseRecOn with
  | nil =>
    unfold new at hnew
    split_ifs at hnew
    cases protocol <;> cases hnew <;> exact fun _ => ⟨by simp, rfl⟩
  | append_singleton calls c ih =>
    rw [run_append, run_cons, run_nil, List.foldlM_append]
    intro hlive
    have hbefore : (run (step lib) (a, []) calls).1.parser ≠ none :=
      fun hdead => hlive (by rw [step, call_dead hdead, hdead])
    obtain ⟨hopen, hplace⟩ := ih hbefore
    rw [hplace]
    simpa [step] using call_live hopen c hbefore hlive

theorem orderly_sample : Orderly staticLibrary
    ⟨.h2, smallLimits, some (.h2 (.new staticLibrary)), ⟨0, 0⟩, ⟨false, false⟩, []⟩
    [.push .client 0 [80], .eof .server true "closed"] :=
  orderly (show new staticLibrary .h2 smallLimits = _ from rfl) _

end Analyzer

end ProxyLane.Protocol
