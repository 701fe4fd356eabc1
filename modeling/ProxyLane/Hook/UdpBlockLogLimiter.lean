import ProxyLane.Hook.StructInfo

/-!
# The limit on messages about blocked datagrams

A table of 64 destinations and a budget of ten messages for every window of
five seconds.  The clock is the tick count of the system, which starts again
after 2^32 milliseconds; this file shows that the limits hold all the same for
calls in the order of their real times.
-/

namespace ProxyLane.Hook

open ProxyLane.Foundation

namespace UdpBlockLogLimiter

def intervalMs : UInt32 := 5000
def maxPerInterval : Nat := 10
def capacity : Nat := 64

structure Entry where
  used : Bool
  destination : SockAddr
  lastLogged : UInt32
  deriving DecidableEq, Repr

structure Limiter where
  entries : List Entry
  windowStart : UInt32
  windowCount : Nat
  deriving DecidableEq, Repr

def initial : Limiter :=
  ⟨List.replicate capacity ⟨false, .unspec, 0⟩, 0, 0⟩

def sameDestination (left right : SockAddr) : Bool :=
  left.sameEndpoint right || (left.family == .unspec && right.family == .unspec)

/-- The loop over the entries, from the index `i` on: the slot to be written,
or none where the call is refused. -/
def findSlot (destination : SockAddr) (now : UInt32) :
    List Entry → Nat → Option Nat → Option Nat
  | [], _, slot => slot
  | entry :: rest, i, slot =>
    if entry.used && sameDestination entry.destination destination then
      if now - entry.lastLogged < intervalMs then none else some i
    else if slot.isNone &&
        (!entry.used || intervalMs ≤ now - entry.lastLogged) then
      findSlot destination now rest (i + 1) (some i)
    else findSlot destination now rest (i + 1) slot

def resets (lim : Limiter) (now : UInt32) : Bool :=
  intervalMs ≤ now - lim.windowStart

def openWindow (lim : Limiter) (now : UInt32) : Limiter :=
  if resets lim now then { lim with windowStart := now, windowCount := 0 }
  else lim

def admits (lim : Limiter) (destination : SockAddr) (now : UInt32) :
    Option Nat :=
  if maxPerInterval ≤ (openWindow lim now).windowCount then none
  else findSlot destination now lim.entries 0 none

def allowLocked (lim : Limiter) (destination : SockAddr) (now : UInt32) :
    Bool × Limiter :=
  let opened := openWindow lim now
  match admits lim destination now with
  | none => (false, opened)
  | some slot =>
    (true, { opened with
      entries := opened.entries.set slot ⟨true, destination, now⟩
      windowCount := opened.windowCount + 1 })

structure Call where
  destination : SockAddr
  time : Nat
  deriving DecidableEq, Repr

/-- `GetTickCount`. -/
def Call.now (call : Call) : UInt32 := UInt32.ofNat call.time

/-- What a call did: the slot it wrote if it was allowed, and whether it began
a window. -/
structure Outcome where
  call : Call
  slot : Option Nat
  reset : Bool
  deriving DecidableEq, Repr

def Outcome.allowed (o : Outcome) : Bool := o.slot.isSome

def outcome (lim : Limiter) (call : Call) : Outcome :=
  ⟨call, admits lim call.destination call.now, resets lim call.now⟩

def run (lim : Limiter) : List Call → List Outcome × Limiter
  | [] => ([], lim)
  | call :: calls =>
    let (outcomes, final) :=
      run (allowLocked lim call.destination call.now).2 calls
    (outcome lim call :: outcomes, final)

theorem run_append_singleton (lim : Limiter) (calls : List Call) (call : Call) :
    run lim (calls ++ [call]) =
      ((run lim calls).1 ++ [outcome (run lim calls).2 call],
        (allowLocked (run lim calls).2 call.destination call.now).2) := by
  induction calls generalizing lim with
  | nil => rfl
  | cons first rest ih => simp [run, ih]

theorem run_calls (lim : Limiter) (calls : List Call) :
    (run lim calls).1.map Outcome.call = calls := by
  induction calls generalizing lim with
  | nil => rfl
  | cons first rest ih => simp [run, ih, outcome]

theorem sameDestination_iff {left right : SockAddr} :
    sameDestination left right = true ↔ left = right := by
  cases left <;> cases right <;>
    simp [sameDestination, SockAddr.sameEndpoint, SockAddr.sameAddress,
      SockAddr.getPort, SockAddr.family]

theorem age_le {earlier later : Nat} (horder : earlier ≤ later)
    (h : intervalMs ≤ UInt32.ofNat later - UInt32.ofNat earlier) :
    earlier + 5000 ≤ later := by
  have hnat : 5000 ≤ (UInt32.ofNat later - UInt32.ofNat earlier).toNat := by
    simpa [intervalMs] using UInt32.le_iff_toNat_le.1 h
  rw [UInt32.toNat_sub, UInt32.toNat_ofNat', UInt32.toNat_ofNat'] at hnat
  omega

def Entry.Free (entry : Entry) (now : UInt32) : Prop :=
  entry.used = true → intervalMs ≤ now - entry.lastLogged

theorem findSlot_some {destination : SockAddr} {now : UInt32}
    {entries : List Entry} {i : Nat} {slot : Option Nat} {k : Nat}
    (h : findSlot destination now entries i slot = some k) :
    (∃ j entry, entries[j]? = some entry ∧ k = i + j ∧ entry.Free now ∧
        entry.used = true ∧ entry.destination = destination) ∨
      (∀ entry ∈ entries, entry.used = true → entry.destination ≠ destination) ∧
      (slot = some k ∨ ∃ j entry, entries[j]? = some entry ∧ k = i + j ∧
        entry.Free now) := by
  induction entries generalizing i slot with
  | nil => exact .inr ⟨by simp, .inl h⟩
  | cons entry rest ih =>
    unfold findSlot at h
    by_cases hsame : (entry.used && sameDestination entry.destination
        destination) = true
    · rw [if_pos hsame] at h
      simp only [Bool.and_eq_true, sameDestination_iff] at hsame
      split at h
      case isTrue => cases h
      case isFalse hage =>
        cases h
        exact .inl ⟨0, entry, rfl, rfl, fun _ => UInt32.not_lt.1 hage, hsame⟩
    · rw [if_neg hsame] at h
      have hother : entry.used = true → entry.destination ≠ destination := by
        simpa [sameDestination_iff] using hsame
      -- what the rest of the table gives, one index further
      have hrest : ∀ slot', findSlot destination now rest (i + 1) slot' =
            some k →
          (slot' = some k → slot = some k ∨ k = i ∧ entry.Free now) →
          (∃ j entry', (entry :: rest)[j]? = some entry' ∧ k = i + j ∧
              entry'.Free now ∧ entry'.used = true ∧
              entry'.destination = destination) ∨
            (∀ entry' ∈ entry :: rest, entry'.used = true →
              entry'.destination ≠ destination) ∧
            (slot = some k ∨ ∃ j entry', (entry :: rest)[j]? = some entry' ∧
              k = i + j ∧ entry'.Free now) := by
        intro slot' hfound hslot
        rcases ih hfound with ⟨j, entry', hj, hk, hfree⟩ | ⟨hnone, hk⟩
        · exact .inl ⟨j + 1, entry', by simpa using hj, by omega, hfree⟩
        · refine .inr ⟨List.forall_mem_cons.2 ⟨hother, hnone⟩, ?_⟩
          rcases hk with hk | ⟨j, entry', hj, hk, hfree⟩
          · rcases hslot hk with hold | ⟨hi, hfree⟩
            · exact .inl hold
            · exact .inr ⟨0, entry, rfl, hi, hfree⟩
          · exact .inr ⟨j + 1, entry', by simpa using hj, by omega, hfree⟩
      split at h
      case isTrue hfree =>
        simp only [Bool.and_eq_true, Bool.or_eq_true, Bool.not_eq_true',
          decide_eq_true_eq] at hfree
        refine hrest _ h fun hi => .inr ⟨(Option.some.inj hi).symm, ?_⟩
        intro hused
        exact hfree.2.resolve_left (by simp [hused])
      case isFalse => exact hrest _ h .inl

def UsedOnce (entries : List Entry) : Prop :=
  ∀ (i j : Nat) (left right : Entry), entries[i]? = some left →
    entries[j]? = some right → left.used = true →
    right.used = true →
    sameDestination left.destination right.destination = true → i = j

def Outcome.Apart (earlier later : Outcome) : Prop :=
  earlier.call.time + 5000 ≤ later.call.time

structure Lawful (outcomes : List Outcome) : Prop where
  resets : outcomes.Pairwise fun a b =>
    a.reset = true → b.reset = true → a.Apart b
  budget : ∀ window, window <:+: outcomes →
    (∀ o ∈ window.tail, o.reset = false) →
    window.countP Outcome.allowed ≤ maxPerInterval
  destinations : outcomes.Pairwise fun a b =>
    a.allowed = true → b.allowed = true →
    sameDestination a.call.destination b.call.destination = true → a.Apart b
  slots : outcomes.Pairwise fun a b =>
    ∀ slot, a.slot = some slot → b.slot = some slot → a.Apart b

structure Remembers (outcomes : List Outcome) (lim : Limiter) : Prop where
  once : UsedOnce lim.entries
  count_le : lim.windowCount ≤ maxPerInterval
  count : ∀ window, window <:+ outcomes →
    (∀ o ∈ window.tail, o.reset = false) →
    window.countP Outcome.allowed ≤ lim.windowCount
  start : ∀ o ∈ outcomes, o.reset = true → ∃ last ∈ outcomes,
    (last = o ∨ o.Apart last) ∧ lim.windowStart = last.call.now
  entry : ∀ o ∈ outcomes, ∀ slot, o.slot = some slot → ∃ last ∈ outcomes,
    (last = o ∨ o.Apart last) ∧ lim.entries[slot]? =
      some ⟨true, last.call.destination, last.call.now⟩

theorem remembers_initial : Remembers [] initial where
  once := by
    intro i j left right hi hj hleft
    have hmem := List.mem_of_getElem? hi
    simp only [initial, List.mem_replicate] at hmem
    simp [hmem.2] at hleft
  count_le := Nat.zero_le _
  count := by
    intro window hwindow _
    rw [List.suffix_nil.1 hwindow]
    exact Nat.zero_le _
  start := by simp
  entry := by simp

theorem lawful_nil : Lawful [] where
  resets := .nil
  budget := by
    intro window hwindow _
    rw [List.infix_nil.1 hwindow]
    exact Nat.zero_le _
  destinations := .nil
  slots := .nil

theorem UsedOnce.set {entries : List Entry} (h : UsedOnce entries)
    {destination : SockAddr} {slot : Nat}
    (honly : ∀ j entry, entries[j]? = some entry → entry.used = true →
      entry.destination = destination → j = slot) (now : UInt32) :
    UsedOnce (entries.set slot ⟨true, destination, now⟩) := by
  intro i j left right hi hj hleft hright hsame
  have hequal := sameDestination_iff.1 hsame
  rw [List.getElem?_set] at hi hj
  split at hi
  case isTrue hslot =>
    split at hj
    case isTrue hslot' => exact hslot.symm.trans hslot'
    case isFalse =>
      simp only [Option.ite_none_right_eq_some, Option.some.injEq] at hi
      rw [← hi.2] at hequal
      exact (hslot.symm.trans (honly j right hj hright hequal.symm).symm)
  case isFalse =>
    split at hj
    case isTrue hslot' =>
      simp only [Option.ite_none_right_eq_some, Option.some.injEq] at hj
      rw [← hj.2] at hequal
      exact (honly i left hi hleft hequal).trans hslot'
    case isFalse => exact h i j left right hi hj hleft hright hsame

section Step

variable {outcomes : List Outcome} {lim : Limiter} {call : Call}

theorem allowLocked_snd (lim : Limiter) (call : Call) :
    (allowLocked lim call.destination call.now).2 =
      { entries :=
          match (outcome lim call).slot with
          | none => lim.entries
          | some slot =>
            lim.entries.set slot ⟨true, call.destination, call.now⟩
        windowStart :=
          if (outcome lim call).reset then call.now else lim.windowStart
        windowCount :=
          (if (outcome lim call).reset then 0 else lim.windowCount) +
            if (outcome lim call).allowed then 1 else 0 } := by
  cases hadmits : admits lim call.destination call.now <;>
    cases hresets : resets lim call.now <;>
    simp [allowLocked, outcome, Outcome.allowed, openWindow, hadmits, hresets]

theorem outcome_slot (honce : UsedOnce lim.entries) {slot : Nat}
    (h : (outcome lim call).slot = some slot) :
    (if (outcome lim call).reset then 0 else lim.windowCount) <
        maxPerInterval ∧
      (∃ entry, lim.entries[slot]? = some entry ∧ entry.Free call.now) ∧
      ∀ j entry, lim.entries[j]? = some entry → entry.used = true →
        entry.destination = call.destination → j = slot := by
  simp only [outcome, admits] at h ⊢
  split at h
  case isTrue => cases h
  case isFalse hbudget =>
    refine ⟨?_, ?_⟩
    · rw [Nat.not_le] at hbudget
      by_cases hresets : resets lim call.now = true <;>
        simpa [openWindow, hresets] using hbudget
    · rcases findSlot_some h with
        ⟨j, entry, hj, hslot, hfree, hused, hdestination⟩ | ⟨hnone, hslot⟩
      · obtain rfl : slot = j := by omega
        refine ⟨⟨entry, hj, hfree⟩, fun i other hi hother hsame => ?_⟩
        exact honce i slot other entry hi hj hother hused
          (sameDestination_iff.2 (hsame.trans hdestination.symm))
      · refine ⟨?_, fun i other hi hother hsame => ?_⟩
        · rcases hslot with hslot | ⟨j, entry, hj, hslot, hfree⟩
          · cases hslot
          · obtain rfl : slot = j := by omega
            exact ⟨entry, hj, hfree⟩
        · exact absurd hsame (hnone other (List.mem_of_getElem? hi) hother)

theorem Remembers.apart_of_last {o last : Outcome} (hlast : last ∈ outcomes)
    (hapart : last = o ∨ o.Apart last)
    (hage : intervalMs ≤ call.now - last.call.now)
    (hlate : ∀ o ∈ outcomes, o.call.time ≤ call.time) :
    o.Apart (outcome lim call) := by
  have hfive := age_le (hlate last hlast) hage
  simp only [Outcome.Apart, outcome] at hapart ⊢
  rcases hapart with rfl | hapart
  · exact hfive
  · omega

theorem Remembers.reset_apart (h : Remembers outcomes lim)
    (hlate : ∀ o ∈ outcomes, o.call.time ≤ call.time) {o : Outcome}
    (ho : o ∈ outcomes) (hreset : o.reset = true)
    (hnow : (outcome lim call).reset = true) : o.Apart (outcome lim call) := by
  obtain ⟨last, hlast, hapart, hstart⟩ := h.start o ho hreset
  have hage : intervalMs ≤ call.now - lim.windowStart := by
    simpa [outcome, resets] using hnow
  exact apart_of_last hlast hapart (hstart ▸ hage) hlate

theorem Remembers.slot_apart (h : Remembers outcomes lim)
    (hlate : ∀ o ∈ outcomes, o.call.time ≤ call.time) {o : Outcome}
    (ho : o ∈ outcomes) {slot : Nat} (hslot : o.slot = some slot)
    (hnow : (outcome lim call).slot = some slot) :
    o.Apart (outcome lim call) := by
  obtain ⟨last, hlast, hapart, hentry⟩ := h.entry o ho slot hslot
  obtain ⟨-, ⟨entry, hfound, hfree⟩, -⟩ := outcome_slot h.once hnow
  rw [hentry, Option.some.injEq] at hfound
  subst hfound
  exact apart_of_last hlast hapart (hfree rfl) hlate

theorem Remembers.destination_apart (h : Remembers outcomes lim)
    (hlate : ∀ o ∈ outcomes, o.call.time ≤ call.time) {o : Outcome}
    (ho : o ∈ outcomes) (hallowed : o.allowed = true)
    (hnow : (outcome lim call).allowed = true)
    (hsame : o.call.destination = call.destination) :
    o.Apart (outcome lim call) := by
  obtain ⟨slot, hslot⟩ := Option.isSome_iff_exists.1 hallowed
  obtain ⟨k, hk⟩ := Option.isSome_iff_exists.1 hnow
  obtain ⟨last, hlast, hapart, hentry⟩ := h.entry o ho slot hslot
  rcases hapart with rfl | hapart
  · -- the entry is still that of this call, so it is the slot found
    have hwhere := (outcome_slot h.once hk).2.2 slot _ hentry rfl hsame
    exact h.slot_apart hlate ho (hwhere ▸ hslot) hk
  · have hlater := hlate last hlast
    simp only [Outcome.Apart, outcome] at hapart ⊢
    omega

theorem Remembers.count_step (h : Remembers outcomes lim)
    {window : List Outcome}
    (hwindow : window <:+ outcomes ++ [outcome lim call])
    (hopen : ∀ o ∈ window.tail, o.reset = false) :
    window.countP Outcome.allowed ≤
      (if (outcome lim call).reset then 0 else lim.windowCount) +
        if (outcome lim call).allowed then 1 else 0 := by
  rcases List.suffix_concat_iff.1 hwindow with rfl | ⟨before, rfl, hbefore⟩
  · exact Nat.zero_le _
  · rw [List.countP_append, List.countP_singleton]
    cases before with
    | nil =>
      rw [List.countP_nil]
      omega
    | cons first rest =>
      simp only [List.cons_append, List.tail_cons, List.forall_mem_append]
        at hopen
      have hnot := hopen.2 _ List.mem_cons_self
      have hcount := h.count _ hbefore hopen.1
      rw [hnot]
      simp only [Bool.false_eq_true, if_false]
      omega

theorem Remembers.step (h : Remembers outcomes lim)
    (hlate : ∀ o ∈ outcomes, o.call.time ≤ call.time) :
    Remembers (outcomes ++ [outcome lim call])
      (allowLocked lim call.destination call.now).2 := by
  rw [allowLocked_snd]
  constructor
  case once =>
    cases hslot : (outcome lim call).slot with
    | none => exact h.once
    | some slot => exact h.once.set (outcome_slot h.once hslot).2.2 _
  case count_le =>
    cases hallowed : (outcome lim call).allowed with
    | false =>
      have hcount := h.count_le
      simp only [Bool.false_eq_true, if_false]
      split <;> omega
    | true =>
      obtain ⟨slot, hslot⟩ := Option.isSome_iff_exists.1 hallowed
      have hbudget := (outcome_slot h.once hslot).1
      simp only [if_true]
      omega
  case count => exact fun window hwindow hopen => h.count_step hwindow hopen
  case start =>
    intro o ho hreset
    by_cases hnow : (outcome lim call).reset = true
    · refine ⟨outcome lim call, by simp, ?_, if_pos hnow⟩
      rcases List.mem_append.1 ho with ho | ho
      · exact .inr (h.reset_apart hlate ho hreset hnow)
      · exact .inl (List.mem_singleton.1 ho).symm
    · rcases List.mem_append.1 ho with ho | ho
      · obtain ⟨last, hlast, hapart, hstart⟩ := h.start o ho hreset
        exact ⟨last, List.mem_append_left _ hlast, hapart, by simpa [hnow]⟩
      · exact absurd (List.mem_singleton.1 ho ▸ hreset) hnow
  case entry =>
    intro o ho slot hslot
    by_cases hnow : (outcome lim call).slot = some slot
    · obtain ⟨-, ⟨entry, hfound, -⟩, -⟩ := outcome_slot h.once hnow
      refine ⟨outcome lim call, by simp, ?_, ?_⟩
      · rcases List.mem_append.1 ho with ho | ho
        · exact .inr (h.slot_apart hlate ho hslot hnow)
        · exact .inl (List.mem_singleton.1 ho).symm
      · simp only [hnow]
        exact List.getElem?_set_self (List.getElem?_eq_some_iff.1 hfound).1
    · rcases List.mem_append.1 ho with ho | ho
      · obtain ⟨last, hlast, hapart, hentry⟩ := h.entry o ho slot hslot
        refine ⟨last, List.mem_append_left _ hlast, hapart, ?_⟩
        cases hother : (outcome lim call).slot with
        | none => exact hentry
        | some k =>
          have hne : k ≠ slot := fun heq => hnow (heq ▸ hother)
          simpa [List.getElem?_set_ne hne] using hentry
      · exact absurd (List.mem_singleton.1 ho ▸ hslot) hnow

theorem Lawful.step (hlaw : Lawful outcomes) (h : Remembers outcomes lim)
    (hlate : ∀ o ∈ outcomes, o.call.time ≤ call.time) :
    Lawful (outcomes ++ [outcome lim call]) where
  resets := List.pairwise_append.2 ⟨hlaw.resets, List.pairwise_singleton _ _,
    fun _ ho _ hlast hreset hnow => by
      rw [List.mem_singleton] at hlast
      subst hlast
      exact h.reset_apart hlate ho hreset hnow⟩
  budget := by
    intro window hwindow hopen
    rcases List.infix_concat_iff.1 hwindow with hsuffix | hinside
    · have hcount := (h.step hlate).count window hsuffix hopen
      exact hcount.trans (h.step hlate).count_le
    · exact hlaw.budget window hinside hopen
  destinations := List.pairwise_append.2 ⟨hlaw.destinations,
    List.pairwise_singleton _ _, fun _ ho _ hlast hallowed hnow hsame => by
      rw [List.mem_singleton] at hlast
      subst hlast
      exact h.destination_apart hlate ho hallowed hnow (sameDestination_iff.1 hsame)⟩
  slots := List.pairwise_append.2 ⟨hlaw.slots, List.pairwise_singleton _ _,
    fun _ ho _ hlast slot hslot hnow => by
      rw [List.mem_singleton] at hlast
      subst hlast
      exact h.slot_apart hlate ho hslot hnow⟩

end Step

theorem run_lawful {calls : List Call}
    (horder : (calls.map Call.time).Pairwise (· ≤ ·)) :
    Lawful (run initial calls).1 ∧
      Remembers (run initial calls).1 (run initial calls).2 := by
  induction calls using List.reverseRecOn with
  | nil => exact ⟨lawful_nil, remembers_initial⟩
  | append_singleton calls call ih =>
    rw [List.map_append, List.pairwise_append] at horder
    obtain ⟨hbefore, -, hlast⟩ := horder
    obtain ⟨hlaw, hremembers⟩ := ih hbefore
    have hlate : ∀ o ∈ (run initial calls).1, o.call.time ≤ call.time := by
      intro o ho
      have hmem : o.call ∈ calls := by
        rw [← run_calls initial calls]
        exact List.mem_map_of_mem ho
      exact hlast _ (List.mem_map_of_mem hmem) _ (by simp)
    rw [run_append_singleton]
    exact ⟨hlaw.step hremembers hlate, hremembers.step hlate⟩

/-- Calls in the order of their times keep the budget and the five seconds
between windows, between messages about one destination and between writes of
one entry; no destination is in the table twice. -/
theorem limits_hold {calls : List Call}
    (horder : (calls.map Call.time).Pairwise (· ≤ ·)) :
    Lawful (run initial calls).1 ∧ UsedOnce (run initial calls).2.entries :=
  ⟨(run_lawful horder).1, (run_lawful horder).2.once⟩

theorem limits_hold_wrap :
    [(2 ^ 32 - 100), 2 ^ 32 + 100].Pairwise (· ≤ ·) ∧
      (run initial [⟨.inet .loopback 443, 2 ^ 32 - 100⟩,
        ⟨.inet .loopback 443, 2 ^ 32 + 100⟩]).1.map Outcome.allowed =
        [true, false] ∧
      Lawful (run initial [⟨.inet .loopback 443, 2 ^ 32 - 100⟩,
        ⟨.inet .loopback 443, 2 ^ 32 + 100⟩]).1 ∧
      UsedOnce (run initial [⟨.inet .loopback 443, 2 ^ 32 - 100⟩,
        ⟨.inet .loopback 443, 2 ^ 32 + 100⟩]).2.entries :=
  ⟨by decide, by decide, limits_hold (by decide)⟩

end UdpBlockLogLimiter

end ProxyLane.Hook
