import ProxyLane.Foundation.Run
import ProxyLane.Hook.Policy

/-!
# The UDP capability circuit

The task manager has one circuit for the proxy it uses.  Every call names a
profile; a call for another profile than the last one starts the circuit
afresh.  So a profile is answered as by a circuit breaker of its own, with
unbounded time, only while no call for another profile comes between its
failures and what they lead to; and the tick count of the code wraps.
-/

namespace ProxyLane.Hook

open ProxyLane.Foundation

namespace UdpAssociationPolicy

inductive CapabilityState where
  | unknown
  | supported
  | unsupported
  | temporarilyUnavailable
  deriving DecidableEq, Repr

structure CapabilityCircuit where
  state : CapabilityState
  consecutiveFailures : UInt32
  blockedUntil : UInt32
  suppressedAttempts : UInt32
  deriving DecidableEq, Repr

namespace CapabilityCircuit

def reset : CapabilityCircuit := ⟨.unknown, 0, 0, 0⟩

/-- `(LONG)(now - then) >= 0`. -/
def reached (now target : UInt32) : Bool := (now - target).toNat < 2 ^ 31

def canAttempt (c : CapabilityCircuit) (now : UInt32) :
    Bool × CapabilityCircuit :=
  let c := if c.state = .temporarilyUnavailable ∧ reached now c.blockedUntil then
    { c with state := .unknown, consecutiveFailures := 0, blockedUntil := 0 }
  else c
  (c.state != .unsupported && c.state != .temporarilyUnavailable, c)

def reportFailure (c : CapabilityCircuit) (now : UInt32) (permanent : Bool)
    (threshold cooldown : UInt32) : Bool × CapabilityCircuit :=
  if permanent then (true, { c with state := .unsupported, blockedUntil := 0 })
  else if c.state = .unsupported then (true, c)
  else
    let c := { c with consecutiveFailures := c.consecutiveFailures + 1 }
    if c.consecutiveFailures < threshold then
      (false, { c with state := .unknown })
    else
      (true, { c with
        state := .temporarilyUnavailable, blockedUntil := now + cooldown })

def reportSuccess (c : CapabilityCircuit) : CapabilityCircuit :=
  { c with state := .supported, consecutiveFailures := 0, blockedUntil := 0 }

end CapabilityCircuit

def threshold : UInt32 := 3

def cooldown : UInt32 := 60 * 1000

end UdpAssociationPolicy

open UdpAssociationPolicy

def ProxyType.code : ProxyType → Nat
  | .noProxy => 0
  | .socks4 => 1
  | .socks4a => 2
  | .socks5 => 3
  | .http10 => 4
  | .http11 => 5

def hashUdpCapabilityCredential (value : Bytes) : UInt32 :=
  value.foldl (fun hash byte => (hash ^^^ byte.toUInt32) * 16777619) 2166136261

/-- `%08lx`. -/
def hex8 (value : UInt32) : Bytes :=
  (List.range 8).reverse.map fun digit =>
    UInt8.ofNat (Nat.digitChar (value.toNat / 16 ^ digit % 16)).toNat

def udpCapabilityKey : Option ProxyInfo → Bytes
  | none => []
  | some info =>
    List.intercalate (ascii "|")
      [ascii (toString info.getProxyType.code),
        ascii (toString info.nProxyPort), ascii (toString info.reserved),
        info.strProxyHost, info.strProxyUser,
        hex8 (hashUdpCapabilityCredential info.strProxyPass),
        hex8 (hashUdpCapabilityCredential info.strTransportPsk)]

structure UdpCapability where
  key : Bytes
  circuit : CapabilityCircuit
  deriving DecidableEq, Repr

inductive CapabilityCall where
  | canStart (info : Option ProxyInfo)
  | failure (info : ProxyInfo) (errorCode : Int)
  | ready (info : ProxyInfo)
  | removeAllTasks
  deriving DecidableEq, Repr

abbrev TimedCall := Nat × CapabilityCall

def CapabilityCall.profile : CapabilityCall → Option (Option ProxyInfo)
  | .canStart info => some info
  | .failure info _ | .ready info => some (some info)
  | .removeAllTasks => none

def wsaeopnotsupp : Int := 10045

namespace UdpCapability

def initial : UdpCapability := ⟨[], .reset⟩

/-- `EnsureUdpCapabilityProfile`. -/
def ensureProfile (m : UdpCapability) (info : Option ProxyInfo) :
    UdpCapability :=
  if udpCapabilityKey info = m.key then m
  else ⟨udpCapabilityKey info, .reset⟩

/-- The circuit after `CanStartUdpAssociation` has made it the profile's. -/
def canStart (c : CapabilityCircuit) (now : UInt32) (info : Option ProxyInfo) :
    Bool × CapabilityCircuit :=
  match info.map ProxyInfo.getProxyType with
  | none | some .noProxy => (true, c)
  | some .socks5 =>
    let (ok, c) := c.canAttempt now
    if ok then (true, c)
    else (false, { c with suppressedAttempts := c.suppressedAttempts + 1 })
  | some _ => (false, (c.reportFailure now true threshold cooldown).2)

def reportFailure (c : CapabilityCircuit) (now : UInt32) (errorCode : Int) :
    Bool × CapabilityCircuit :=
  c.reportFailure now (errorCode == wsaeopnotsupp) threshold cooldown

def reportReady (c : CapabilityCircuit) : CapabilityCircuit :=
  { c with suppressedAttempts := 0 }.reportSuccess

def serve (c : CapabilityCircuit) (now : UInt32) :
    CapabilityCall → Option Bool × CapabilityCircuit
  | .canStart info => (canStart c now info).map some id
  | .failure _ errorCode => (reportFailure c now errorCode).map some id
  | .ready _ => (none, reportReady c)
  | .removeAllTasks => (none, .reset)

def step (m : UdpCapability) (call : TimedCall) : UdpCapability × Option Bool :=
  let now := UInt32.ofNat call.1
  match call.2.profile with
  | some info =>
    let m := m.ensureProfile info
    let (answer, c) := serve m.circuit now call.2
    (⟨m.key, c⟩, answer)
  | none => (initial, none)

def after (calls : List TimedCall) : UdpCapability :=
  run (fun m call => (step m call).1) initial calls

end UdpCapability

def OfProfile (key : Bytes) (call : TimedCall) : Prop :=
  call.2.profile.map udpCapabilityKey = some key

instance (key : Bytes) : DecidablePred (OfProfile key) := fun _ =>
  inferInstanceAs (Decidable (_ = _))

/-- The calls that a circuit of the profile alone would be given. -/
def ownCalls (key : Bytes) (calls : List TimedCall) : List TimedCall :=
  calls.filter fun call => OfProfile key call ∨ call.2 = .removeAllTasks

namespace UdpCapability

def seenBy (key : Bytes) (m : UdpCapability) : UdpCapability :=
  if key = m.key then m else ⟨key, .reset⟩

@[simp] theorem seenBy_key (key : Bytes) (m : UdpCapability) :
    (m.seenBy key).key = key := by
  unfold seenBy
  split
  · next h => exact h.symm
  · rfl

variable {key : Bytes} {call : TimedCall}

theorem step_key (h : OfProfile key call)
    (m : UdpCapability) : (step m call).1.key = key := by
  obtain ⟨info, hinfo, rfl⟩ := Option.map_eq_some_iff.mp h
  have hensure : m.ensureProfile info = m.seenBy (udpCapabilityKey info) := rfl
  simp only [step, hinfo, hensure, seenBy_key]

theorem step_other (h : ¬ OfProfile key call)
    (m : UdpCapability) : (step m call).1.seenBy key = ⟨key, .reset⟩ := by
  cases hinfo : call.2.profile with
  | none =>
    simp only [step, hinfo, seenBy, initial]
    split
    · next hkey => rw [hkey]
    · rfl
  | some info =>
    have hother : OfProfile (udpCapabilityKey info) call := by
      simp [OfProfile, hinfo]
    have hne : key ≠ (step m call).1.key := by
      rw [step_key hother]
      rintro rfl
      exact h hother
    rw [seenBy, if_neg hne]

theorem seenBy_of_key {m : UdpCapability} (h : m.key = key) :
    m.seenBy key = m := by
  rw [seenBy, if_pos h.symm]

theorem seenBy_initial (key : Bytes) : initial.seenBy key = ⟨key, .reset⟩ := by
  unfold seenBy initial
  split
  · next h => rw [h]
  · rfl

end UdpCapability

/-- What is known of one profile: that it does not support UDP at all, its
consecutive failures, and the end of the pause they have led to. -/
structure Breaker where
  unsupported : Bool
  failures : Nat
  blockedUntil : Option Nat
  deriving DecidableEq, Repr

namespace Breaker

def fresh : Breaker := ⟨false, 0, none⟩

def attempt (b : Breaker) (now : Nat) : Bool × Breaker :=
  if b.unsupported then (false, b)
  else
    match b.blockedUntil with
    | none => (true, b)
    | some t => if t ≤ now then (true, fresh) else (false, b)

/-- The third failure in a row, and each one after it, starts a pause of 60
seconds. -/
def fail (b : Breaker) (now : Nat) (permanent : Bool) : Bool × Breaker :=
  if permanent then (true, { b with unsupported := true, blockedUntil := none })
  else if b.unsupported then (true, b)
  else if b.failures + 1 < 3 then (false, ⟨false, b.failures + 1, none⟩)
  else (true, ⟨false, b.failures + 1, some (now + 60000)⟩)

def serve (b : Breaker) (now : Nat) : CapabilityCall → Option Bool × Breaker
  | .canStart info =>
    match info.map ProxyInfo.getProxyType with
    | none | some .noProxy => (some true, b)
    | some .socks5 => (b.attempt now).map some id
    | some _ => (some false, (b.fail now true).2)
  | .failure _ errorCode => (b.fail now (errorCode == wsaeopnotsupp)).map some id
  | .ready _ => (none, fresh)
  | .removeAllTasks => (none, fresh)

def after (calls : List TimedCall) : Breaker :=
  run (fun b call => (b.serve call.1 call.2).2) fresh calls

/-- The tick count and the counter have not wrapped between a pause, or a
failure, and the call. -/
def Prompt (b : Breaker) (call : TimedCall) : Prop :=
  b.failures + 1 < 2 ^ 32 ∧ ∀ t ∈ b.blockedUntil, call.1 < t + 2 ^ 31

instance (b : Breaker) (call : TimedCall) : Decidable (b.Prompt call) :=
  inferInstanceAs (Decidable (_ ∧ _))

structure Agrees (c : CapabilityCircuit) (b : Breaker) (now : Nat) : Prop where
  unsupported : c.state = .unsupported ↔ b.unsupported = true
  failures : c.consecutiveFailures = UInt32.ofNat b.failures
  paused : b.unsupported = false →
    (c.state = .temporarilyUnavailable ↔ b.blockedUntil.isSome = true)
  until_eq : ∀ t, b.blockedUntil = some t →
    c.blockedUntil = UInt32.ofNat t ∧ t ≤ now + 60000

theorem reached_iff {now t : Nat} (hsoon : t ≤ now + 60000)
    (hlate : now < t + 2 ^ 31) :
    CapabilityCircuit.reached (UInt32.ofNat now) (UInt32.ofNat t) = true ↔
      t ≤ now := by
  unfold CapabilityCircuit.reached
  simp only [decide_eq_true_eq, UInt32.toNat_sub, UInt32.toNat_ofNat']
  omega

variable {c : CapabilityCircuit} {b : Breaker} {last now : Nat}

theorem Agrees.later (h : Agrees c b last) (hle : last ≤ now) :
    Agrees c b now where
  unsupported := h.unsupported
  failures := h.failures
  paused := h.paused
  until_eq t ht := by
    obtain ⟨heq, hbound⟩ := h.until_eq t ht
    exact ⟨heq, by omega⟩

theorem fresh_agrees {state : CapabilityState} {suppressed : UInt32}
    (hstate : state = .unknown ∨ state = .supported) :
    Agrees ⟨state, 0, 0, suppressed⟩ fresh now := by
  obtain rfl | rfl := hstate <;>
    exact ⟨by simp [fresh], rfl, by simp [fresh], by simp [fresh]⟩

theorem attempt_agrees (h : Agrees c b now)
    (hprompt : ∀ t, b.blockedUntil = some t → now < t + 2 ^ 31) :
    (c.canAttempt (UInt32.ofNat now)).1 = (b.attempt now).1 ∧
      Agrees (c.canAttempt (UInt32.ofNat now)).2 (b.attempt now).2 now := by
  unfold CapabilityCircuit.canAttempt attempt
  cases hun : b.unsupported with
  | true =>
    have hstate := h.unsupported.mpr hun
    simpa [hstate] using h
  | false =>
    have hstate : c.state ≠ .unsupported := by
      rw [ne_eq, h.unsupported, hun]
      simp
    have hpaused := h.paused hun
    cases hblocked : b.blockedUntil with
    | none =>
      have hopen : c.state ≠ .temporarilyUnavailable := by
        rw [ne_eq, hpaused, hblocked]
        simp
      simpa [hopen, hstate] using h
    | some t =>
      have hclosed : c.state = .temporarilyUnavailable := by
        rw [hpaused, hblocked]
        rfl
      obtain ⟨huntil, hsoon⟩ := h.until_eq t hblocked
      have hreached := reached_iff hsoon (hprompt t hblocked)
      by_cases hover : t ≤ now
      · have hfresh : Agrees
            ⟨.unknown, 0, 0, c.suppressedAttempts⟩ fresh now :=
          fresh_agrees (.inl rfl)
        simpa [hclosed, huntil, hreached.mpr hover, hover] using hfresh
      · have hnot : CapabilityCircuit.reached (UInt32.ofNat now)
            (UInt32.ofNat t) = false := by
          simpa [hover] using hreached
        simpa [hclosed, huntil, hnot, hover] using h

theorem fail_agrees (h : Agrees c b now) (hcount : b.failures + 1 < 2 ^ 32)
    (permanent : Bool) :
    (c.reportFailure (UInt32.ofNat now) permanent threshold cooldown).1 =
        (b.fail now permanent).1 ∧
      Agrees (c.reportFailure (UInt32.ofNat now) permanent threshold cooldown).2
        (b.fail now permanent).2 now := by
  unfold CapabilityCircuit.reportFailure fail
  cases permanent with
  | true =>
    simp only [if_true, true_and]
    exact ⟨by simp, h.failures, by simp, by simp⟩
  | false =>
    simp only [Bool.false_eq_true, if_false]
    cases hun : b.unsupported with
    | true =>
      have hstate := h.unsupported.mpr hun
      simpa [hstate] using h
    | false =>
      have hstate : c.state ≠ .unsupported := by
        rw [ne_eq, h.unsupported, hun]
        simp
      have hnext : c.consecutiveFailures + 1 =
          UInt32.ofNat (b.failures + 1) := by
        rw [h.failures]
        simp
      have hfew : c.consecutiveFailures + 1 < threshold ↔
          b.failures + 1 < 3 := by
        rw [hnext, UInt32.lt_iff_toNat_lt, UInt32.toNat_ofNat_of_lt' hcount]
        rfl
      simp only [hstate, if_false, Bool.false_eq_true, hfew]
      by_cases hthird : b.failures + 1 < 3
      · simp only [hthird, if_true, true_and]
        exact ⟨by simp, hnext, by simp, by simp⟩
      · simp only [hthird, if_false, true_and]
        refine ⟨by simp, hnext, by simp, ?_⟩
        intro t ht
        obtain rfl : now + 60000 = t := Option.some.inj ht
        exact ⟨by simp [cooldown], le_rfl⟩

theorem serve_agrees (h : Agrees c b last) {call : TimedCall}
    (hle : last ≤ call.1) (hprompt : Prompt b call) :
    (UdpCapability.serve c (UInt32.ofNat call.1) call.2).1 =
        (b.serve call.1 call.2).1 ∧
      Agrees (UdpCapability.serve c (UInt32.ofNat call.1) call.2).2
        (b.serve call.1 call.2).2 call.1 := by
  obtain ⟨now, call⟩ := call
  have hnow := h.later hle
  obtain ⟨hcount, hsoon⟩ := hprompt
  cases call with
  | canStart info =>
    obtain ⟨hanswer, hnext⟩ := attempt_agrees hnow hsoon
    obtain ⟨-, hfail⟩ := fail_agrees hnow hcount true
    simp only [UdpCapability.serve, UdpCapability.canStart, serve]
    cases htype : info.map ProxyInfo.getProxyType with
    | none => exact ⟨rfl, hnow⟩
    | some proxyType =>
      cases proxyType with
      | noProxy => exact ⟨rfl, hnow⟩
      | socks5 =>
        cases hok : (c.canAttempt (UInt32.ofNat now)).1 with
        | true =>
          rw [hok] at hanswer
          simpa [hok, ← hanswer] using hnext
        | false =>
          rw [hok] at hanswer
          obtain ⟨h₁, h₂, h₃, h₄⟩ := hnext
          simp only [Bool.false_eq_true, if_false, Prod.map_fst,
            Prod.map_snd, id_eq, ← hanswer, true_and]
          exact ⟨h₁, h₂, h₃, h₄⟩
      | socks4 => exact ⟨rfl, hfail⟩
      | socks4a => exact ⟨rfl, hfail⟩
      | http10 => exact ⟨rfl, hfail⟩
      | http11 => exact ⟨rfl, hfail⟩
  | failure info errorCode =>
    obtain ⟨hanswer, hnext⟩ :=
      fail_agrees hnow hcount (errorCode == wsaeopnotsupp)
    exact ⟨congrArg some hanswer, hnext⟩
  | ready info => exact ⟨rfl, fresh_agrees (.inr rfl)⟩
  | removeAllTasks => exact ⟨rfl, fresh_agrees (.inl rfl)⟩

theorem step_serve {key : Bytes} {call : TimedCall} (h : OfProfile key call)
    (m : UdpCapability) :
    (m.step call).2 =
        (UdpCapability.serve (m.seenBy key).circuit (UInt32.ofNat call.1) call.2).1 ∧
      ((m.step call).1.seenBy key).circuit =
        (UdpCapability.serve (m.seenBy key).circuit (UInt32.ofNat call.1)
          call.2).2 := by
  obtain ⟨info, hinfo, rfl⟩ := Option.map_eq_some_iff.mp h
  have hensure : m.ensureProfile info = m.seenBy (udpCapabilityKey info) := rfl
  rw [UdpCapability.seenBy_of_key (UdpCapability.step_key h m)]
  simp [UdpCapability.step, hinfo, hensure]

/-- What a breaker of the profile alone makes of a call. -/
def heard (key : Bytes) (b : Breaker) (call : TimedCall) : Breaker :=
  if OfProfile key call ∨ call.2 = .removeAllTasks then
    (b.serve call.1 call.2).2
  else b

/-- A call for another profile comes only when nothing is held against this
one. -/
def Undisturbed (key : Bytes) (b : Breaker) (call : TimedCall) : Prop :=
  if OfProfile key call ∨ call.2 = .removeAllTasks then b.Prompt call
  else b = fresh

instance (key : Bytes) (b : Breaker) (call : TimedCall) :
    Decidable (b.Undisturbed key call) :=
  inferInstanceAs (Decidable (if OfProfile key call ∨ call.2 = .removeAllTasks
    then b.Prompt call else b = fresh))

theorem run_agrees {key : Bytes} {m : UdpCapability} {calls : List TimedCall}
    {call : TimedCall} (h : Agrees (m.seenBy key).circuit b last)
    (hkey : OfProfile key call)
    (hclock : (last :: (calls ++ [call]).map Prod.fst).Pairwise (· ≤ ·))
    (hcalls : Admissible (heard key) (Undisturbed key) b (calls ++ [call])) :
    ((run (fun m call => (UdpCapability.step m call).1) m calls).step call).2 =
      ((run (fun b call => (b.serve call.1 call.2).2) b
        (ownCalls key calls)).serve call.1 call.2).1 := by
  induction calls generalizing m b last with
  | nil =>
    have hle : last ≤ call.1 := by simpa using hclock
    have hprompt : Prompt b call := by
      simpa [Undisturbed, hkey] using hcalls.1
    rw [ownCalls, List.filter_nil, run_nil, run_nil, (step_serve hkey m).1]
    exact (serve_agrees h hle hprompt).1
  | cons first rest ih =>
    obtain ⟨hfirst, hrest⟩ := hcalls
    simp only [List.cons_append, List.map_cons, List.pairwise_cons,
      List.mem_cons, forall_eq_or_imp] at hclock
    have hclock' : (first.1 :: (rest ++ [call]).map Prod.fst).Pairwise (· ≤ ·) :=
      List.pairwise_cons.mpr hclock.2
    rw [run_cons]
    by_cases hown : OfProfile key first
    · have hnext := (serve_agrees h hclock.1.1 (by
        simpa [Undisturbed, hown] using hfirst)).2
      rw [← (step_serve hown m).2] at hnext
      rw [heard, if_pos (.inl hown)] at hrest
      rw [ownCalls, List.filter_cons_of_pos (by simp [hown]), run_cons]
      exact ih hnext hclock' hrest
    · -- the circuit is started afresh, by `RemoveAllTasks` or the other profile
      have hreset : ∀ now, Agrees ((UdpCapability.step m first).1.seenBy
          key).circuit fresh now := fun now => by
        rw [UdpCapability.step_other hown]
        exact fresh_agrees (.inl rfl)
      by_cases hremove : first.2 = .removeAllTasks
      · rw [heard, if_pos (.inr hremove), hremove] at hrest
        rw [ownCalls, List.filter_cons_of_pos (by simp [hremove]), run_cons,
          hremove]
        exact ih (hreset _) hclock' hrest
      · have hneither : ¬ (OfProfile key first ∨ first.2 = .removeAllTasks) :=
          fun hor => hor.elim hown hremove
        rw [heard, if_neg hneither] at hrest
        rw [Undisturbed, if_neg hneither] at hfirst
        rw [ownCalls, List.filter_cons_of_neg (by simpa using hneither)]
        exact ih (hfirst ▸ hreset _) hclock' hrest

end Breaker

/-- On a clock that does not go back, a call is answered as by a breaker that
is given the calls for its own profile alone, as long as a call for another
profile comes only when that breaker holds no failure and no pause. -/
theorem udp_answer_of_own_calls (calls : List TimedCall) (call : TimedCall)
    (key : Bytes) (hkey : OfProfile key call)
    (hclock : ((calls ++ [call]).map Prod.fst).Pairwise (· ≤ ·))
    (hcalls : Admissible (Breaker.heard key) (Breaker.Undisturbed key) .fresh
      (calls ++ [call])) :
    ((UdpCapability.after calls).step call).2 =
      ((Breaker.after (ownCalls key calls)).serve call.1 call.2).1 := by
  have hfresh : Breaker.Agrees (UdpCapability.initial.seenBy key).circuit .fresh
      0 := by
    rw [UdpCapability.seenBy_initial]
    exact Breaker.fresh_agrees (.inl rfl)
  exact Breaker.run_agrees hfresh hkey
    (List.pairwise_cons.mpr ⟨fun _ _ => Nat.zero_le _, hclock⟩) hcalls

def socks5Profile : ProxyInfo :=
  ⟨ascii "SOCKS5", ascii "p", 1080, [], [], 0, []⟩

def directProfile : ProxyInfo := ⟨[], [], 0, [], [], 0, []⟩

def threeFailures : List TimedCall :=
  [(0, .failure socks5Profile 10061), (1, .failure socks5Profile 10061),
    (2, .failure socks5Profile 10061)]

theorem blocked_after_three_failures :
    ((UdpCapability.after ((0, .canStart (some directProfile)) ::
        threeFailures)).step (60001, .canStart (some socks5Profile))).2 =
      some false := by
  rw [udp_answer_of_own_calls
    ((0, .canStart (some directProfile)) :: threeFailures)
    (60001, .canStart (some socks5Profile)) (udpCapabilityKey socks5Profile)
    (by decide) (by decide) (by decide)]
  decide

theorem direct_route_lifts_block :
    ¬ ∀ (calls : List TimedCall) (call : TimedCall) (key : Bytes),
      ((calls ++ [call]).map Prod.fst).Pairwise (· ≤ ·) → OfProfile key call →
      ((UdpCapability.after calls).step call).2 =
        ((Breaker.after (ownCalls key calls)).serve call.1 call.2).1 := by
  intro h
  have hcall := h (threeFailures ++ [(3, .canStart (some directProfile))])
    (1000, .canStart (some socks5Profile)) (udpCapabilityKey socks5Profile)
    (by decide) (by decide)
  revert hcall
  decide

end ProxyLane.Hook
