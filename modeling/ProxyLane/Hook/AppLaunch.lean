import Mathlib.Algebra.Group.Nat.Defs
import Mathlib.Data.List.Nodup
import ProxyLane.Foundation.Run

/-!
# Launch requests

A helper asks over the pipe for an application to be launched, and asks again
with the same identifier and time stamp until it has an answer.  The history
survives restarts of the pipe server, so that a retry does not launch twice.

The clock is read before the history is locked.  Reading it, the two sections
under the lock and the launch are the steps of a call; calls of any number of
threads interleave.
-/

namespace ProxyLane.Hook

open ProxyLane.Foundation

structure AppLauncherRequest where
  id : List UInt16
  aumid : List UInt16
  hostPid : Nat
  hostCreationTime : Nat
  parentPid : Nat
  parentCreationTime : Nat
  submittedTime : Nat
  deriving DecidableEq, Repr

structure AppLauncherResult where
  error : Nat
  processId : Nat
  hookError : Nat
  deriving DecidableEq, Repr

namespace AppLaunch

def errorInvalidParameter : Nat := 87
def errorBusy : Nat := 170
def errorUnhandledException : Nat := 574
def errorOperationAborted : Nat := 995
def errorIoPending : Nat := 997

/-! ## Validation -/

def wide (c : Char) : UInt16 := UInt16.ofNat c.toNat

def wideString (size : Nat) (buffer : List UInt16) : List UInt16 :=
  (buffer.take size).takeWhile (· != 0)

def isDigit (c : UInt16) : Bool := wide '0' ≤ c && c ≤ wide '9'

def inRange (low high : Char) (c : UInt16) : Bool :=
  wide low ≤ c && c ≤ wide high

def validIdAt (i : Nat) (c : UInt16) : Bool :=
  if i = 0 then c == wide '\x7b'
  else if i = 37 then c == wide '\x7d'
  else if i = 9 ∨ i = 14 ∨ i = 19 ∨ i = 24 then c == wide '-'
  else isDigit c || inRange 'a' 'f' c || inRange 'A' 'F' c

def validId (text : List UInt16) : Bool :=
  let name := wideString 40 text
  name.length == 38 && (name.zipIdx.all fun (c, i) => validIdAt i c)

/-- A family and an application, parted by the only `!`. -/
def validAumid (text : List UInt16) : Bool :=
  let name := wideString 256 text
  name.length < 256 && name.head? != some (wide '!') &&
    (match name.dropWhile (· != wide '!') with
      | [] => false
      | _ :: rest => !rest.isEmpty && !rest.contains (wide '!')) &&
    name.all fun c => inRange 'a' 'z' c || inRange 'A' 'Z' c || isDigit c ||
      c == wide '.' || c == wide '_' || c == wide '-' || c == wide '!'

def sub64 (a b : Nat) : Nat := (a + 2 ^ 64 - b) % 2 ^ 64

def second : Nat := 10000000

structure Host where
  pid : Nat
  creationTime : Nat

def admissible (host : Host) (request : AppLauncherRequest) (now : Nat)
    (sameLaunchUser : Bool) : Bool :=
  validId request.id && validAumid request.aumid && request.hostPid == host.pid &&
    request.hostCreationTime == host.creationTime &&
    request.submittedTime ≤ now &&
    sub64 now request.submittedTime ≤ 120 * second && sameLaunchUser

structure LaunchRecord where
  request : AppLauncherRequest
  result : AppLauncherResult
  deriving DecidableEq, Repr

abbrev LaunchHistory := List (List UInt16 × LaunchRecord)

def keyOf (request : AppLauncherRequest) : List UInt16 :=
  wideString 40 request.id

def pendingResult : AppLauncherResult := ⟨errorIoPending, 0, 0⟩

def isExpired (now : Nat) (record : LaunchRecord) : Bool :=
  record.result.error != errorIoPending &&
    300 * second < sub64 now record.request.submittedTime

def expire (history : LaunchHistory) (now : Nat) : LaunchHistory :=
  history.filter fun it => !isExpired now it.2

def lookUp (history : LaunchHistory) (request : AppLauncherRequest)
    (now : Nat) : Option AppLauncherResult × LaunchHistory :=
  let history := expire history now
  match history.find? (·.1 == keyOf request) with
  | some it =>
    (some (if it.2.request = request then it.2.result
      else ⟨errorInvalidParameter, 0, 0⟩), history)
  | none =>
    if 128 ≤ history.length then (some ⟨errorBusy, 0, 0⟩, history)
    else (none, history ++ [(keyOf request, ⟨request, pendingResult⟩)])

def zeroRequest : AppLauncherRequest := ⟨[], [], 0, 0, 0, 0, 0⟩

/-- The second section; `operator []` makes a record where there is none. -/
def store (history : LaunchHistory) (key : List UInt16)
    (result : AppLauncherResult) : LaunchHistory :=
  if history.any (·.1 == key) then
    history.map fun it =>
      if it.1 = key then (it.1, { it.2 with result := result }) else it
  else history ++ [(key, ⟨zeroRequest, result⟩)]

/-! ## Calls -/

inductive Call where
  | sampled (request : AppLauncherRequest) (now : Nat)
  | launching (request : AppLauncherRequest)
  | finishing (request : AppLauncherRequest) (result : AppLauncherResult)
  deriving DecidableEq, Repr

/-- The last four fields are history: the keys recorded, those launched, what
was completed, and the latest clock value of a first section. -/
structure State where
  clock : Nat
  requests : LaunchHistory
  calls : Nat → Option Call
  accepted : List (List UInt16)
  launched : List (List UInt16)
  completed : List (AppLauncherRequest × AppLauncherResult)
  latest : Nat

def State.start : State := ⟨0, [], fun _ => none, [], [], [], 0⟩

/-- `exiting` is the flag of the thread's pipe server, `answer` and `threw`
are what `LaunchAppFromShell` does. -/
inductive Event where
  | time (now : Nat)
  | call (thread : Nat) (request : AppLauncherRequest) (sameLaunchUser : Bool)
  | enter (thread : Nat)
  | launch (thread : Nat) (exiting : Bool) (answer : AppLauncherResult) (threw : Bool)
  | finish (thread : Nat)

def setCall (s : State) (thread : Nat) (call : Option Call) : State :=
  { s with calls := fun t => if t = thread then call else s.calls t }

variable (host : Host)

/-- Events of a thread that is elsewhere do nothing. -/
def step (s : State) : Event → State
  | .time now => if s.clock ≤ now ∧ now < 2 ^ 64 then { s with clock := now } else s
  | .call thread request sameLaunchUser =>
    match s.calls thread with
    | some _ => s
    | none =>
      if admissible host request s.clock sameLaunchUser then
        setCall s thread (some (.sampled request s.clock))
      else s
  | .enter thread =>
    match s.calls thread with
    | some (.sampled request now) =>
      let s := { s with latest := max s.latest now }
      match lookUp s.requests request now with
      | (some _, requests) => { setCall s thread none with requests }
      | (none, requests) =>
        { setCall s thread (some (.launching request)) with
          requests
          accepted := keyOf request :: s.accepted }
    | _ => s
  | .launch thread exiting answer threw =>
    match s.calls thread with
    | some (.launching request) =>
      if exiting then
        setCall s thread (some (.finishing request ⟨errorOperationAborted, 0, 0⟩))
      else
        let result := if threw then
          { answer with error := errorUnhandledException } else answer
        { setCall s thread (some (.finishing request result)) with
          launched := keyOf request :: s.launched }
    | _ => s
  | .finish thread =>
    match s.calls thread with
    | some (.finishing request result) =>
      { setCall s thread none with
        requests := store s.requests (keyOf request) result
        completed := (request, result) :: s.completed }
    | _ => s

/-- The clock value of a section is not earlier than the time stamp of a
completed record, and at most 180 seconds earlier than that of a section before
it. -/
def TimelySection (s : State) : Option Call → Prop
  | some (.sampled _ now) =>
    (∀ it ∈ s.requests, it.2.result.error ≠ errorIoPending →
      it.2.request.submittedTime ≤ now) ∧
    s.latest ≤ now + 180 * second
  | _ => True

instance (s : State) (call : Option Call) : Decidable (TimelySection s call) :=
  match call with
  | some (.sampled _ now) =>
    inferInstanceAs (Decidable ((∀ it ∈ s.requests,
      it.2.result.error ≠ errorIoPending → it.2.request.submittedTime ≤ now) ∧
        s.latest ≤ now + 180 * second))
  | some (.launching _) | some (.finishing _ _) | none => inferInstanceAs (Decidable True)

/-- A request carries the time stamp of its identifier on every retry, and
sections are timely. -/
def Timely (stamp : List UInt16 → Nat) (s : State) : Event → Prop
  | .call _ request _ => request.submittedTime = stamp (keyOf request)
  | .enter thread => TimelySection s (s.calls thread)
  | _ => True

instance (stamp : List UInt16 → Nat) (s : State) (e : Event) :
    Decidable (Timely stamp s e) :=
  match e with
  | .call _ request _ =>
    inferInstanceAs (Decidable (request.submittedTime = stamp (keyOf request)))
  | .enter thread => inferInstanceAs (Decidable (TimelySection s (s.calls thread)))
  | .time _ | .launch _ _ _ _ | .finish _ => inferInstanceAs (Decidable True)

/-! ## The sections -/

variable {host} {stamp : List UInt16 → Nat} {s : State}

theorem sub64_of_le {a b : Nat} (hle : b ≤ a) (ha : a < 2 ^ 64) :
    sub64 a b = a - b := by
  unfold sub64
  omega

variable {history : LaunchHistory} {it : List UInt16 × LaunchRecord}

theorem mem_of_expire {now : Nat} (h : it ∈ expire history now) :
    it ∈ history :=
  List.mem_of_mem_filter h

theorem expire_keeps {now : Nat}
    (hnow : now < 2 ^ 64)
    (hit : it ∈ history)
    (htimely : it.2.result.error ≠ errorIoPending →
      it.2.request.submittedTime ≤ now) :
    it ∈ expire history now ∨
      (it.2.result.error ≠ errorIoPending ∧
        it.2.request.submittedTime + 300 * second < now) := by
  by_cases hexp : isExpired now it.2 = true
  · right
    simp only [isExpired, Bool.and_eq_true, bne_iff_ne, decide_eq_true_eq] at hexp
    have hle := htimely hexp.1
    rw [sub64_of_le hle hnow] at hexp
    exact ⟨hexp.1, by omega⟩
  · left
    exact List.mem_filter.2 ⟨hit, by simpa using hexp⟩

theorem expire_nodup {now : Nat} (h : (history.map Prod.fst).Nodup) :
    ((expire history now).map Prod.fst).Nodup :=
  h.sublist (List.filter_sublist.map _)

theorem expire_length (history : LaunchHistory) (now : Nat) :
    (expire history now).length ≤ history.length :=
  List.length_filter_le _ _

private theorem eq_of_key (h : (history.map Prod.fst).Nodup)
    {it' : List UInt16 × LaunchRecord} (hit : it ∈ history)
    (hit' : it' ∈ history) (hkey : it.1 = it'.1) : it = it' :=
  List.inj_on_of_nodup_map h hit hit' hkey

theorem lookUp_cases (history : LaunchHistory) (request : AppLauncherRequest)
    (now : Nat) :
    (∃ answer, lookUp history request now = (some answer, expire history now)) ∨
      (lookUp history request now = (none, expire history now ++
          [(keyOf request, ⟨request, pendingResult⟩)]) ∧
        keyOf request ∉ (expire history now).map Prod.fst ∧
        (expire history now).length < 128) := by
  simp only [lookUp]
  split
  · exact Or.inl ⟨_, rfl⟩
  · rename_i hfind
    split
    · exact Or.inl ⟨_, rfl⟩
    · rename_i hroom
      refine Or.inr ⟨rfl, ?_, by omega⟩
      intro hmem
      obtain ⟨it, hit, hkey⟩ := List.mem_map.1 hmem
      have hnone := List.find?_eq_none.1 hfind it hit
      simp [hkey] at hnone

theorem lookUp_stored {request : AppLauncherRequest} {result : AppLauncherResult}
    {now : Nat} (hnodup : ((expire history now).map Prod.fst).Nodup)
    (h : (keyOf request, ⟨request, result⟩) ∈ expire history now) :
    (lookUp history request now).1 = some result := by
  simp only [lookUp]
  split
  · rename_i it hfind
    have hit := List.mem_of_find?_eq_some hfind
    have hkey : it.1 = keyOf request := by simpa using List.find?_some hfind
    have heq := eq_of_key hnodup hit h hkey
    simp [heq]
  · rename_i hfind
    have hnone := List.find?_eq_none.1 hfind _ h
    simp at hnone

theorem mem_store (key : List UInt16) (result : AppLauncherResult)
    (hit : it ∈ history) :
    (if it.1 = key then (it.1, { it.2 with result := result }) else it) ∈
      store history key result := by
  unfold store
  split
  · exact List.mem_map.2 ⟨it, hit, rfl⟩
  · rename_i hnone
    have hne : it.1 ≠ key := by
      rintro rfl
      simp only [List.any_eq_true, beq_iff_eq, not_exists, not_and] at hnone
      exact hnone it hit rfl
    rw [if_neg hne]
    exact List.mem_append_left _ hit

theorem store_present {key : List UInt16}
    (result : AppLauncherResult) (h : key ∈ history.map Prod.fst) :
    store history key result = history.map fun it =>
      if it.1 = key then (it.1, { it.2 with result := result }) else it := by
  unfold store
  rw [if_pos]
  obtain ⟨it, hit, rfl⟩ := List.mem_map.1 h
  exact List.any_eq_true.2 ⟨it, hit, by simp⟩

theorem store_keys {key : List UInt16}
    (result : AppLauncherResult) (h : key ∈ history.map Prod.fst) :
    (store history key result).map Prod.fst = history.map Prod.fst := by
  rw [store_present result h, List.map_map]
  apply List.map_congr_left
  intro it _
  simp only [Function.comp_apply]
  split <;> rfl

/-! ## What a run keeps -/

def Call.flight : Call → Option AppLauncherRequest
  | .sampled _ _ => none
  | .launching request => some request
  | .finishing request _ => some request

structure Sound (stamp : List UInt16 → Nat) (s : State) : Prop where
  clock : s.clock < 2 ^ 64
  latest : s.latest ≤ s.clock
  nodup : (s.requests.map Prod.fst).Nodup
  bounded : s.requests.length ≤ 128
  stamped : ∀ it ∈ s.requests, it.2.request.submittedTime = stamp it.1
  sampled : ∀ t request now, s.calls t = some (.sampled request now) →
    now ≤ s.clock ∧ request.submittedTime ≤ now ∧
      now ≤ request.submittedTime + 120 * second ∧
      request.submittedTime = stamp (keyOf request)
  flight : ∀ t call request, s.calls t = some call →
    call.flight = some request →
      (keyOf request, ⟨request, pendingResult⟩) ∈ s.requests ∧
      keyOf request ∈ s.accepted ∧
      ∀ c ∈ s.completed, keyOf c.1 ≠ keyOf request
  single : ∀ t t' c c' r r', s.calls t = some c → s.calls t' = some c' →
    c.flight = some r → c'.flight = some r' → keyOf r = keyOf r' → t = t'
  unlaunched : ∀ t request, s.calls t = some (.launching request) →
    keyOf request ∉ s.launched
  once : s.launched.Nodup
  known : ∀ k ∈ s.launched, k ∈ s.accepted
  finished : ∀ c ∈ s.completed, keyOf c.1 ∈ s.accepted ∧
    ((keyOf c.1, ⟨c.1, c.2⟩) ∈ s.requests ∨
      stamp (keyOf c.1) + 300 * second < s.latest)
  remembered : ∀ k ∈ s.accepted, k ∈ s.requests.map Prod.fst ∨
    stamp k + 300 * second < s.latest

theorem start_sound : Sound stamp State.start := by
  constructor <;> simp [State.start]

theorem time_sound (now : Nat) (h : Sound stamp s) :
    Sound stamp (step host s (.time now)) := by
  simp only [step]
  split
  · rename_i hnow
    refine { h with clock := hnow.2, latest := Nat.le_trans h.latest hnow.1, sampled := ?_ }
    intro t request now' ht
    obtain ⟨hle, hrest⟩ := h.sampled t request now' ht
    exact ⟨Nat.le_trans hle hnow.1, hrest⟩
  · exact h

theorem call_sound (thread : Nat) (request : AppLauncherRequest)
    (sameLaunchUser : Bool) (h : Sound stamp s)
    (hstamp : request.submittedTime = stamp (keyOf request)) :
    Sound stamp (step host s (.call thread request sameLaunchUser)) := by
  simp only [step]
  split
  · exact h
  · split
    · rename_i hadm
      simp only [admissible, Bool.and_eq_true, decide_eq_true_eq] at hadm
      obtain ⟨⟨⟨_, hsub⟩, hage⟩, _⟩ := hadm
      rw [sub64_of_le hsub h.clock] at hage
      refine { h with sampled := ?_, flight := ?_, single := ?_, unlaunched := ?_ }
      · intro t r now ht
        simp only [setCall] at ht
        split at ht
        · cases ht
          exact ⟨Nat.le_refl _, hsub, by omega, hstamp⟩
        · exact h.sampled t r now ht
      · intro t c r ht hr
        simp only [setCall] at ht
        split at ht
        · cases ht
          simp [Call.flight] at hr
        · exact h.flight t c r ht hr
      · intro t t' c c' r r' ht ht' hr hr' hkey
        simp only [setCall] at ht ht'
        split at ht
        · cases ht
          simp [Call.flight] at hr
        · split at ht'
          · cases ht'
            simp [Call.flight] at hr'
          · exact h.single t t' c c' r r' ht ht' hr hr' hkey
      · intro t r ht
        simp only [setCall] at ht
        split at ht
        · simp at ht
        · exact h.unlaunched t r ht
    · exact h

section Enter

variable {thread : Nat} {request : AppLauncherRequest} {now : Nat}

def swept (s : State) (thread now : Nat) : State :=
  { setCall { s with latest := max s.latest now } thread none with
    requests := expire s.requests now }

theorem setCall_swept (call : Option Call) :
    setCall (swept s thread now) thread call =
      { setCall { s with latest := max s.latest now } thread call with
        requests := expire s.requests now } := by
  simp only [swept, setCall, State.mk.injEq, true_and, and_true]
  funext t
  split <;> rfl

theorem swept_sound (h : Sound stamp s)
    (hcall : s.calls thread = some (.sampled request now))
    (htimely : ∀ it ∈ s.requests, it.2.result.error ≠ errorIoPending →
      it.2.request.submittedTime ≤ now) :
    Sound stamp (swept s thread now) := by
  obtain ⟨hclock, -, -, -⟩ := h.sampled thread request now hcall
  have hnow : now < 2 ^ 64 := Nat.lt_of_le_of_lt hclock h.clock
  have hother : ∀ {t c}, (swept s thread now).calls t = some c →
      s.calls t = some c := by
    intro t c ht
    simp only [swept, setCall] at ht
    split at ht
    · simp at ht
    · exact ht
  have hold : s.latest ≤ max s.latest now := Nat.le_max_left _ _
  have hnew : now ≤ max s.latest now := Nat.le_max_right _ _
  have hkept : ∀ it ∈ s.requests, it ∈ expire s.requests now ∨
      stamp it.1 + 300 * second < max s.latest now := by
    intro it hit
    obtain hin | ⟨-, hage⟩ := expire_keeps hnow hit (htimely it hit)
    · exact Or.inl hin
    · right
      rw [← h.stamped it hit]
      omega
  constructor
  · exact h.clock
  · exact Nat.max_le.2 ⟨h.latest, hclock⟩
  · exact expire_nodup h.nodup
  · exact Nat.le_trans (expire_length _ _) h.bounded
  · exact fun it hit => h.stamped it (mem_of_expire hit)
  · exact fun t r n ht => h.sampled t r n (hother ht)
  · intro t c r ht hr
    obtain ⟨hrec, hacc, hcomp⟩ := h.flight t c r (hother ht) hr
    refine ⟨?_, hacc, hcomp⟩
    exact List.mem_filter.2 ⟨hrec, by simp [isExpired, pendingResult]⟩
  · exact fun t t' c c' r r' ht ht' => h.single t t' c c' r r' (hother ht) (hother ht')
  · exact fun t r ht => h.unlaunched t r (hother ht)
  · exact h.once
  · exact h.known
  · intro c hc
    obtain ⟨hacc, hin | hage⟩ := h.finished c hc
    · exact ⟨hacc, hkept _ hin⟩
    · exact ⟨hacc, Or.inr (Nat.lt_of_lt_of_le hage hold)⟩
  · intro k hk
    obtain hin | hage := h.remembered k hk
    · obtain ⟨it, hit, rfl⟩ := List.mem_map.1 hin
      obtain hkeep | hage := hkept it hit
      · exact Or.inl (List.mem_map.2 ⟨it, hkeep, rfl⟩)
      · exact Or.inr hage
    · exact Or.inr (Nat.lt_of_lt_of_le hage hold)

/-- A key that is not in the history was never recorded: a record that is gone
is too old for a request to be valid. -/
theorem fresh_key (h : Sound stamp s)
    (hcall : s.calls thread = some (.sampled request now))
    (htimely : ∀ it ∈ s.requests, it.2.result.error ≠ errorIoPending →
      it.2.request.submittedTime ≤ now)
    (hlag : s.latest ≤ now + 180 * second)
    (hgone : keyOf request ∉ (expire s.requests now).map Prod.fst) :
    keyOf request ∉ s.accepted := by
  obtain ⟨hclock, hsub, hage, hstamp⟩ := h.sampled thread request now hcall
  have hnow : now < 2 ^ 64 := Nat.lt_of_le_of_lt hclock h.clock
  intro hacc
  obtain hin | hold := h.remembered _ hacc
  · obtain ⟨it, hit, hkey⟩ := List.mem_map.1 hin
    obtain hkeep | ⟨-, hexp⟩ := expire_keeps hnow hit (htimely it hit)
    · exact hgone (List.mem_map.2 ⟨it, hkeep, hkey⟩)
    · have hsame := h.stamped it hit
      rw [hkey, ← hstamp] at hsame
      have hs : second = 10000000 := rfl
      omega
  · rw [← hstamp] at hold
    have hs : second = 10000000 := rfl
    omega

theorem recorded_sound (thread : Nat) (h : Sound stamp s)
    (hstamp : request.submittedTime = stamp (keyOf request))
    (hnew : keyOf request ∉ s.requests.map Prod.fst)
    (hfresh : keyOf request ∉ s.accepted) (hroom : s.requests.length < 128) :
    Sound stamp { setCall s thread (some (.launching request)) with
      requests := s.requests ++ [(keyOf request, ⟨request, pendingResult⟩)]
      accepted := keyOf request :: s.accepted } := by
  have hcases : ∀ {t c}, (setCall s thread (some (.launching request))).calls t =
      some c → (t = thread ∧ c = .launching request) ∨ s.calls t = some c := by
    intro t c ht
    simp only [setCall] at ht
    split at ht
    · rename_i hthread
      exact Or.inl ⟨hthread, (Option.some.inj ht).symm⟩
    · exact Or.inr ht
  have hflight : ∀ {t c r}, s.calls t = some c → c.flight = some r →
      keyOf r ≠ keyOf request := by
    intro t c r ht hr heq
    obtain ⟨-, hacc, -⟩ := h.flight t c r ht hr
    rw [heq] at hacc
    exact hfresh hacc
  constructor
  · exact h.clock
  · exact h.latest
  · rw [List.map_append, List.nodup_append]
    refine ⟨h.nodup, by simp, ?_⟩
    intro a ha b hb heq
    simp only [List.map_cons, List.map_nil, List.mem_singleton] at hb
    rw [heq, hb] at ha
    exact hnew ha
  · simp only [List.length_append, List.length_singleton]
    omega
  · intro it hit
    obtain hit | hit := List.mem_append.1 hit
    · exact h.stamped it hit
    · rw [List.mem_singleton.1 hit]
      exact hstamp
  · intro t r n ht
    obtain ⟨-, hc⟩ | ht := hcases ht
    · simp at hc
    · exact h.sampled t r n ht
  · intro t c r ht hr
    obtain ⟨-, rfl⟩ | ht := hcases ht
    · cases hr
      refine ⟨by simp, by simp, ?_⟩
      intro c hc heq
      have hacc := (h.finished c hc).1
      rw [heq] at hacc
      exact hfresh hacc
    · obtain ⟨hrec, hacc, hcomp⟩ := h.flight t c r ht hr
      exact ⟨List.mem_append_left _ hrec, List.mem_cons_of_mem _ hacc, hcomp⟩
  · intro t t' c c' r r' ht ht' hr hr' hkey
    obtain ⟨hself, hc⟩ | hold := hcases ht
    · obtain ⟨hself', -⟩ | hold' := hcases ht'
      · exact hself.trans hself'.symm
      · rw [hc] at hr
        cases hr
        exact absurd hkey.symm (hflight hold' hr')
    · obtain ⟨-, hc'⟩ | hold' := hcases ht'
      · rw [hc'] at hr'
        cases hr'
        exact absurd hkey (hflight hold hr)
      · exact h.single t t' c c' r r' hold hold' hr hr' hkey
  · intro t r ht
    obtain ⟨-, hc⟩ | ht := hcases ht
    · cases hc
      exact fun hl => hfresh (h.known _ hl)
    · exact h.unlaunched t r ht
  · exact h.once
  · exact fun k hk => List.mem_cons_of_mem _ (h.known k hk)
  · intro c hc
    obtain ⟨hacc, hin⟩ := h.finished c hc
    exact ⟨List.mem_cons_of_mem _ hacc, hin.imp_left (List.mem_append_left _)⟩
  · intro k hk
    rw [List.map_append, List.mem_append]
    obtain rfl | hk := List.mem_cons.1 hk
    · exact Or.inl (Or.inr (by simp))
    · exact (h.remembered k hk).imp_left Or.inl

theorem enter_sound (h : Sound stamp s)
    (hok : Timely stamp s (.enter thread)) :
    Sound stamp (step host s (.enter thread)) := by
  simp only [step]
  split
  · rename_i request now hcall
    simp only [Timely, TimelySection, hcall] at hok
    have hswept : Sound stamp (swept s thread now) := swept_sound h hcall hok.1
    obtain ⟨hclock, -, -, hstamp⟩ := h.sampled thread request now hcall
    obtain ⟨answer, hlook⟩ | ⟨hlook, hnew, hroom⟩ :=
      lookUp_cases s.requests request now
    · rw [hlook]
      exact hswept
    · rw [hlook]
      have hfresh := fresh_key h hcall hok.1 hok.2 hnew
      have hrec := recorded_sound thread hswept hstamp hnew hfresh hroom
      rw [setCall_swept] at hrec
      exact hrec
  · exact h

end Enter

theorem advance_sound {thread : Nat} {request : AppLauncherRequest}
    {result : AppLauncherResult} (h : Sound stamp s)
    (hcall : s.calls thread = some (.launching request)) :
    Sound stamp (setCall s thread (some (.finishing request result))) := by
  have hcases : ∀ {t c}, (setCall s thread
      (some (.finishing request result))).calls t = some c →
      (t = thread ∧ c = .finishing request result) ∨ s.calls t = some c := by
    intro t c ht
    simp only [setCall] at ht
    split at ht
    · rename_i hthread
      exact Or.inl ⟨hthread, (Option.some.inj ht).symm⟩
    · exact Or.inr ht
  have hback : ∀ {t c r}, (setCall s thread
      (some (.finishing request result))).calls t = some c → c.flight = some r →
      ∃ c', s.calls t = some c' ∧ c'.flight = some r := by
    intro t c r ht hr
    obtain ⟨rfl, rfl⟩ | ht := hcases ht
    · exact ⟨_, hcall, hr⟩
    · exact ⟨c, ht, hr⟩
  refine { h with sampled := ?_, flight := ?_, single := ?_, unlaunched := ?_ }
  · intro t r n ht
    obtain ⟨-, hc⟩ | ht := hcases ht
    · simp at hc
    · exact h.sampled t r n ht
  · intro t c r ht hr
    obtain ⟨c', ht', hr'⟩ := hback ht hr
    exact h.flight t c' r ht' hr'
  · intro t t' c c' r r' ht ht' hr hr' hkey
    obtain ⟨d, hd, hdr⟩ := hback ht hr
    obtain ⟨d', hd', hdr'⟩ := hback ht' hr'
    exact h.single t t' d d' r r' hd hd' hdr hdr' hkey
  · intro t r ht
    obtain ⟨-, hc⟩ | ht := hcases ht
    · simp at hc
    · exact h.unlaunched t r ht

theorem launch_sound (thread : Nat) (exiting threw : Bool)
    (answer : AppLauncherResult) (h : Sound stamp s) :
    Sound stamp (step host s (.launch thread exiting answer threw)) := by
  simp only [step]
  split
  · rename_i request hcall
    split
    · exact advance_sound h hcall
    · have hnext : Sound stamp (setCall s thread (some (.finishing request
          (if threw then { answer with error := errorUnhandledException }
            else answer)))) := advance_sound h hcall
      have hnew := h.unlaunched thread request hcall
      refine { hnext with unlaunched := ?_, once := ?_, known := ?_ }
      · intro t r ht hmem
        have hold : s.calls t = some (.launching r) ∧ t ≠ thread := by
          simp only [setCall] at ht
          split at ht
          · simp at ht
          · rename_i hne
            exact ⟨ht, hne⟩
        obtain heq | hmem := List.mem_cons.1 hmem
        · exact hold.2 (h.single t thread _ _ r request hold.1 hcall rfl rfl heq)
        · exact h.unlaunched t r hold.1 hmem
      · exact List.nodup_cons.2 ⟨hnew, h.once⟩
      · intro k hk
        obtain rfl | hk := List.mem_cons.1 hk
        · exact (h.flight thread _ request hcall rfl).2.1
        · exact h.known k hk
  · exact h

theorem finish_sound (thread : Nat) (h : Sound stamp s) :
    Sound stamp (step host s (.finish thread)) := by
  simp only [step]
  split
  · rename_i request result hcall
    obtain ⟨hrec, hacc, hcomp⟩ := h.flight thread _ request hcall rfl
    have hkey : keyOf request ∈ s.requests.map Prod.fst :=
      List.mem_map.2 ⟨_, hrec, rfl⟩
    have hkeys := store_keys result hkey
    have hother : ∀ {t c}, (setCall s thread none).calls t = some c →
        s.calls t = some c ∧ t ≠ thread := by
      intro t c ht
      simp only [setCall] at ht
      split at ht
      · simp at ht
      · rename_i hne
        exact ⟨ht, hne⟩
    have hkept : ∀ {k record}, k ≠ keyOf request → (k, record) ∈ s.requests →
        (k, record) ∈ store s.requests (keyOf request) result := by
      intro k record hne hin
      have hmem := mem_store (keyOf request) result hin
      rwa [if_neg hne] at hmem
    constructor
    · exact h.clock
    · exact h.latest
    · rw [hkeys]
      exact h.nodup
    · have hlen := congrArg List.length hkeys
      simp only [List.length_map] at hlen
      rw [hlen]
      exact h.bounded
    · intro it hit
      rw [store_present result hkey] at hit
      obtain ⟨old, hold, rfl⟩ := List.mem_map.1 hit
      split
      · exact h.stamped old hold
      · exact h.stamped old hold
    · exact fun t r n ht => h.sampled t r n (hother ht).1
    · intro t c r ht hr
      obtain ⟨hold, hne⟩ := hother ht
      obtain ⟨hrec', hacc', hcomp'⟩ := h.flight t c r hold hr
      have hdiff : keyOf r ≠ keyOf request := fun heq =>
        hne (h.single t thread _ _ r request hold hcall hr rfl heq)
      refine ⟨hkept hdiff hrec', hacc', ?_⟩
      intro x hx
      obtain rfl | hx := List.mem_cons.1 hx
      · exact hdiff.symm
      · exact hcomp' x hx
    · exact fun t t' c c' r r' ht ht' =>
        h.single t t' c c' r r' (hother ht).1 (hother ht').1
    · exact fun t r ht => h.unlaunched t r (hother ht).1
    · exact h.once
    · exact h.known
    · intro c hc
      obtain rfl | hc := List.mem_cons.1 hc
      · refine ⟨hacc, Or.inl ?_⟩
        have hmem := mem_store (keyOf request) result hrec
        rwa [if_pos rfl] at hmem
      · obtain ⟨hacc', hin⟩ := h.finished c hc
        exact ⟨hacc', hin.imp_left (hkept (hcomp c hc))⟩
    · intro k hk
      rw [hkeys]
      exact h.remembered k hk
  · exact h

theorem step_sound (e : Event) (h : Sound stamp s) (hok : Timely stamp s e) :
    Sound stamp (step host s e) := by
  cases e with
  | time now => exact time_sound now h
  | call thread request sameLaunchUser =>
    exact call_sound thread request sameLaunchUser h hok
  | enter thread => exact enter_sound h hok
  | launch thread exiting answer threw =>
    exact launch_sound thread exiting threw answer h
  | finish thread => exact finish_sound thread h

/-! ## At most once -/

theorem enter_forgets {thread : Nat} (h : Sound stamp s)
    (hok : Timely stamp s (.enter thread))
    {it : List UInt16 × LaunchRecord} (hit : it ∈ s.requests)
    (hgone : it.1 ∉ (step host s (.enter thread)).requests.map Prod.fst) :
    it.2.result.error ≠ errorIoPending ∧
      it.2.request.submittedTime + 300 * second < s.clock := by
  have stays : ∀ t : State, it ∈ t.requests → it.1 ∈ t.requests.map Prod.fst :=
    fun t ht => List.mem_map.2 ⟨it, ht, rfl⟩
  simp only [step] at hgone
  split at hgone
  · rename_i request now hcall
    simp only [Timely, TimelySection, hcall] at hok
    obtain ⟨hclock, -, -, -⟩ := h.sampled thread request now hcall
    have hnow : now < 2 ^ 64 := Nat.lt_of_le_of_lt hclock h.clock
    obtain hin | ⟨herror, hage⟩ := expire_keeps hnow hit (hok.1 it hit)
    · exfalso
      apply hgone
      apply stays
      obtain ⟨answer, hlook⟩ | ⟨hlook, -, -⟩ :=
        lookUp_cases s.requests request now
      · rw [hlook]
        exact hin
      · rw [hlook]
        exact List.mem_append_left _ hin
    · exact ⟨herror, by omega⟩
  · exact absurd (stays s hit) hgone

theorem step_forgets (e : Event) (h : Sound stamp s) (hok : Timely stamp s e)
    {it : List UInt16 × LaunchRecord} (hit : it ∈ s.requests)
    (hgone : it.1 ∉ (step host s e).requests.map Prod.fst) :
    it.2.result.error ≠ errorIoPending ∧
      it.2.request.submittedTime + 300 * second < s.clock := by
  have stays : it.1 ∈ s.requests.map Prod.fst := List.mem_map.2 ⟨it, hit, rfl⟩
  cases e with
  | enter thread => exact enter_forgets h hok hit hgone
  | time now =>
    simp only [step] at hgone
    split at hgone <;> exact absurd stays hgone
  | call thread request sameLaunchUser =>
    simp only [step] at hgone
    split at hgone
    · exact absurd stays hgone
    · split at hgone <;> exact absurd stays hgone
  | launch thread exiting answer threw =>
    simp only [step] at hgone
    split at hgone
    · split at hgone <;> exact absurd stays hgone
    · exact absurd stays hgone
  | finish thread =>
    simp only [step] at hgone
    split at hgone
    · rename_i request result hcall
      have hrec := (h.flight thread _ request hcall rfl).1
      have hkey : keyOf request ∈ s.requests.map Prod.fst :=
        List.mem_map.2 ⟨_, hrec, rfl⟩
      simp only [store_keys result hkey] at hgone
      exact absurd stays hgone
    · exact absurd stays hgone

theorem retry_answered {thread : Nat} {request : AppLauncherRequest}
    {result : AppLauncherResult} {now : Nat} (h : Sound stamp s)
    (hcall : s.calls thread = some (.sampled request now))
    (hok : Timely stamp s (.enter thread))
    (hdone : (request, result) ∈ s.completed) :
    (lookUp s.requests request now).1 = some result := by
  simp only [Timely, TimelySection, hcall] at hok
  obtain ⟨hclock, hsub, hage, hstamp⟩ := h.sampled thread request now hcall
  have hnow : now < 2 ^ 64 := Nat.lt_of_le_of_lt hclock h.clock
  have hs : second = 10000000 := rfl
  obtain ⟨-, hin | hold⟩ := h.finished _ hdone
  · obtain hkeep | ⟨-, hexp⟩ := expire_keeps hnow hin (hok.1 _ hin)
    · exact lookUp_stored (expire_nodup h.nodup) hkeep
    · simp only at hexp
      omega
  · rw [← hstamp] at hold
    omega

/-- In every run whose sections are timely: a request is launched at most once,
at most 128 records are kept, only completed records of more than 300 seconds
are forgotten, and a retry of a completed request is given its result. -/
theorem launched_at_most_once (host : Host) (stamp : List UInt16 → Nat)
    (events : List Event)
    (htimely : Admissible (step host) (Timely stamp) .start events) :
    let s := run (step host) .start events
    (∀ key, s.launched.count key ≤ 1) ∧ s.requests.length ≤ 128 ∧
      (∀ e it, Timely stamp s e → it ∈ s.requests →
        it.1 ∉ (step host s e).requests.map Prod.fst →
          it.2.result.error ≠ errorIoPending ∧
            it.2.request.submittedTime + 300 * second < s.clock) ∧
      (∀ thread request now result, Timely stamp s (.enter thread) →
        s.calls thread = some (.sampled request now) →
        (request, result) ∈ s.completed →
          (lookUp s.requests request now).1 = some result) := by
  intro s
  have hs : Sound stamp s :=
    run_invariant (fun t e ht hok => step_sound e ht hok) start_sound htimely
  refine ⟨List.nodup_iff_count_le_one.1 hs.once, hs.bounded, ?_, ?_⟩
  · intro e it hok hit hgone
    exact step_forgets e hs hok hit hgone
  · intro thread request now result hok hcall hdone
    exact retry_answered hs hcall hok hdone

def wideText (text : String) : List UInt16 := text.toList.map wide

def sampleHost : Host := ⟨7, 9⟩

def sampleRequest (id : String) (submitted : Nat) : AppLauncherRequest :=
  ⟨wideText id, wideText "family_1!App", 7, 9, 3, 4, submitted * second⟩

def earlyId : String := "\x7b11111111-2222-3333-4444-555555555555\x7d"

def lateId : String := "\x7b66666666-7777-8888-9999-aaaaaaaaaaaa\x7d"

def retriedLaunch : List Event :=
  [.time (200 * second), .call 2 (sampleRequest lateId 150) true, .enter 2,
    .launch 2 false ⟨0, 44, 0⟩ false, .finish 2, .time (210 * second),
    .call 3 (sampleRequest lateId 150) true, .enter 3]

theorem launched_at_most_once_retried :
    Admissible (step sampleHost) (Timely fun _ => 150 * second) .start
        retriedLaunch ∧
      (run (step sampleHost) .start retriedLaunch).launched.count
        (wideText lateId) ≤ 1 :=
  ⟨by decide,
    (launched_at_most_once sampleHost (fun _ => 150 * second) retriedLaunch
      (by decide)).1 (wideText lateId)⟩

/-- A thread reads the clock at 100 seconds and goes on when a request of 150
seconds has been launched; its section takes that record away. -/
def delayedSection : List Event :=
  [.time (100 * second), .call 1 (sampleRequest earlyId 50) true,
    .time (200 * second), .call 2 (sampleRequest lateId 150) true, .enter 2,
    .launch 2 false ⟨0, 44, 0⟩ false, .finish 2, .enter 1,
    .time (210 * second), .call 3 (sampleRequest lateId 150) true, .enter 3,
    .launch 3 false ⟨0, 45, 0⟩ false]

theorem delayed_section_launches_twice :
    (run (step sampleHost) .start delayedSection).launched =
      [wideText lateId, wideText lateId] := by
  decide

end AppLaunch

end ProxyLane.Hook
