import Mathlib.Data.List.MinMax
import ProxyLane.Foundation.Run

/-!
# The cache of recent applications

Background threads read the history of a profile; the cache keeps the load it
started last and the one that is shown.  A write of this program publishes its
entries while it holds the lock of the history.  How old a snapshot is, is the
number of writes its file had seen.
-/

namespace ProxyLane.App.RecentCache

open ProxyLane.Foundation

/-! ## The source -/

/-- `version` is the number of writes the file had seen when it was read; a load
that failed to start, or has no profile or identity to read, never reads. -/
structure Load (κ : Type) where
  key : κ
  profile : String
  version : Option Nat := none
  total : Nat := 0
  validated : Nat := 0
  success : Bool := true
  cancelled : Bool := false
  done : Bool := false
  succeeded : Bool := false

structure CachedProfile (σ : Type) where
  latest : Option Nat := none
  ready : Option Nat := none
  stamp : σ
  used : Nat := 0
  dirty : Bool := false

/-- The profiles under their file and identity, the loads by number, and the
writes of the files with the locks held.  `floor` is history: the newest version
of a profile that was published or shown. -/
structure State (π σ : Type) where
  profiles : List ((π × String) × CachedProfile σ) := []
  clock : Nat := 0
  heap : Nat → Option (Load (π × String)) := fun _ => none
  next : Nat := 0
  version : π → Nat := fun _ => 0
  writing : π → Bool := fun _ => false
  floor : π × String → Nat := fun _ => 0

section Source

variable {π σ : Type} [DecidableEq π] [DecidableEq σ]

def Load.blank (l : Load (π × String)) : Bool := l.profile.isEmpty || l.key.2.isEmpty

/-- `BeginLoad`: without a profile or an identity there is nothing to read. -/
def beginLoad (k : π × String) (profile : String) (started : Bool) :
    Load (π × String) :=
  let l : Load (π × String) := { key := k, profile := profile }
  if l.blank then { l with done := true, succeeded := true }
  else { l with done := !started }

def CachedProfile.remember (e : CachedProfile σ) (heap : Nat → Option (Load (π × String))) :
    CachedProfile σ :=
  match e.latest.bind heap with
  | none => e
  | some l =>
    if e.latest = e.ready ∨ e.dirty = true then e
    else if l.done && l.succeeded then { e with ready := e.latest }
    else e

namespace State

def find? (s : State π σ) (k : π × String) : Option (CachedProfile σ) :=
  (s.profiles.find? fun p => p.1 = k).map Prod.snd

def erase (s : State π σ) (k : π × String) : State π σ :=
  { s with profiles := s.profiles.filter fun p => p.1 ≠ k }

def put (s : State π σ) (k : π × String) (e : CachedProfile σ) : State π σ :=
  { s with profiles := (k, e) :: s.profiles }

def modify (s : State π σ) (i : Nat) (f : Load (π × String) → Load (π × String)) :
    State π σ :=
  { s with heap := Function.update s.heap i ((s.heap i).map f) }

def allocate (s : State π σ) (l : Load (π × String)) : State π σ :=
  { s with heap := Function.update s.heap s.next (some l), next := s.next + 1 }

def cancel (s : State π σ) : Option Nat → State π σ
  | none => s
  | some i => s.modify i fun l => { l with cancelled := true }

def room (s : State π σ) : State π σ :=
  if s.profiles.length < 4 then s
  else match s.profiles.argmin fun p => p.2.used with
    | none => s
    | some (k, e) => (s.cancel e.latest).erase k

/-- `Acquire` on a profile that was taken out of the others. -/
def acquireIn (s : State π σ) (k : π × String) (e : CachedProfile σ) (profile : String)
    (stamp : σ) (refresh started : Bool) : State π σ :=
  let latest := e.latest.bind s.heap
  let changed := e.dirty || e.stamp ≠ stamp ||
    (latest.map fun l => decide (l.profile ≠ profile)).getD false
  let e := { e.remember s.heap with used := s.clock + 1 }
  let done := (latest.map Load.done).getD true
  let s := { s with clock := s.clock + 1 }
  if latest.isNone || changed || (refresh && done) then
    let s := if done then s else s.cancel e.latest
    (s.allocate (beginLoad k profile started)).put k
      { e with latest := some s.next, stamp := stamp, dirty := false }
  else s.put k e

/-- `Acquire`; `created` is the stamp a new profile is made with. -/
def acquire (s : State π σ) (k : π × String) (profile : String) (created stamp : σ)
    (refresh started : Bool) : State π σ :=
  match s.find? k with
  | some e => (s.erase k).acquireIn k e profile stamp refresh started
  | none => s.room.acquireIn k { stamp := created } profile stamp refresh started

def ready (s : State π σ) (k : π × String) (stamp : σ) : State π σ × Option Nat :=
  match s.find? k with
  | none => (s, none)
  | some e =>
    let e := if e.stamp = stamp then e.remember s.heap else e
    ((s.erase k).put k e, e.ready)

def current (s : State π σ) (i : Nat) (stamp : σ) : Bool :=
  match (s.heap i).bind fun l => s.find? l.key with
  | none => false
  | some e => e.latest = some i && !e.dirty && e.stamp = stamp

def invalidate (s : State π σ) (k : π × String) (forget saved : Bool) : State π σ :=
  match s.find? k with
  | none => s
  | some e =>
    if forget then (s.cancel e.latest).erase k
    else if saved then
      ((s.erase k).allocate
        { key := k
          profile := ((e.latest.bind s.heap).map Load.profile).getD ""
          version := some (s.version k.1)
          done := true
          succeeded := true }).put k { e with dirty := true, ready := some s.next }
    else (s.erase k).put k { e with dirty := true }

end State

/-- `read`, `validate`, `fail` and `finish` are the steps of a background load;
a write begins, and is published or given up, under the lock of the history. -/
inductive Event (π σ : Type) where
  | acquire (k : π × String) (profile : String) (created stamp : σ) (refresh started : Bool)
  | ready (k : π × String) (stamp : σ)
  | beginWrite (path : π)
  | publish (k : π × String) (forget : Bool)
  | abandonWrite (path : π)
  | read (i : Nat) (success : Bool) (total : Nat)
  | validate (i : Nat)
  | fail (i : Nat)
  | finish (i : Nat)

def versionOf (s : State π σ) (i : Nat) : Nat :=
  (((s.heap i).bind Load.version)).getD 0

def Load.work (l : Load (π × String)) (s : State π σ) : Event π σ → Load (π × String)
  | .read _ success total =>
    if l.version = none && !s.writing l.key.1 then
      { l with version := some (s.version l.key.1), success := success, total := total }
    else l
  | .validate _ =>
    if l.version.isSome && l.success && !l.cancelled && l.validated < l.total then
      { l with validated := l.validated + 1 }
    else l
  | .fail _ => { l with success := false }
  | .finish _ =>
    -- the loop ends after the last entry, with a failure, or when cancelled
    if l.version.isSome && (!l.success || l.cancelled || l.validated == l.total) then
      { l with done := true, succeeded := l.success }
    else l
  | _ => l

def step (s : State π σ) (event : Event π σ) : State π σ :=
  match event with
  | .acquire k profile created stamp refresh started =>
    s.acquire k profile created stamp refresh started
  | .ready k stamp =>
    let (s, answer) := s.ready k stamp
    match answer with
    | none => s
    | some i =>
      { s with floor := Function.update s.floor k (max (s.floor k) (versionOf s i)) }
  | .beginWrite path =>
    if s.writing path then s
    else
      { s with
        version := Function.update s.version path (s.version path + 1)
        writing := Function.update s.writing path true }
  | .publish k forget =>
    if s.writing k.1 then
      { s.invalidate k forget true with
        writing := Function.update s.writing k.1 false
        floor := Function.update s.floor k (s.version k.1) }
    else s
  | .abandonWrite path => { s with writing := Function.update s.writing path false }
  | .read i _ _ | .validate i | .fail i | .finish i =>
    s.modify i fun l => if l.done then l else l.work s event

end Source

/-! ## What is known of the loads -/

section Laws

variable {π σ : Type}

def Load.Complete (l : Load (π × String)) : Prop :=
  l.done = true ∧ l.succeeded = true ∧ l.validated = l.total

/-- The load has seen these writes, or there was nothing to read. -/
def Load.Seen (l : Load (π × String)) (writes : Nat) : Prop :=
  (l.blank = true ∧ l.version = none) ∨ ∃ v, l.version = some v ∧ writes ≤ v

/-- No version is ahead of its file, and only a cancelled load ends well before
its last entry. -/
def LoadOk (s : State π σ) (l : Load (π × String)) : Prop :=
  (∀ v, l.version = some v → v ≤ s.version l.key.1) ∧
    (l.succeeded = true → l.cancelled = false →
      l.validated = l.total ∧ l.Seen 0) ∧
    (l.done = false → l.succeeded = false)

def bar (s : State π σ) (k : π × String) (e : CachedProfile σ) : Nat :=
  max (s.floor k) ((e.ready.map (versionOf s)).getD 0)

def LatestOk (s : State π σ) (k : π × String) (e : CachedProfile σ) : Prop :=
  ∀ i, e.latest = some i → ∃ l, s.heap i = some l ∧ l.key = k ∧ l.cancelled = false ∧
    (e.dirty = false → ∀ v, l.version = some v → bar s k e ≤ v)

def ReadyOk (s : State π σ) (k : π × String) (e : CachedProfile σ) : Prop :=
  ∀ i, e.ready = some i → ∃ l, s.heap i = some l ∧ l.key = k ∧ l.Complete ∧
    l.Seen (s.floor k)

structure Ok (s : State π σ) : Prop where
  nodup : (s.profiles.map Prod.fst).Nodup
  latest : ∀ p ∈ s.profiles, LatestOk s p.1 p.2
  ready : ∀ p ∈ s.profiles, ReadyOk s p.1 p.2
  fresh : ∀ i, s.next ≤ i → s.heap i = none
  loads : ∀ i l, s.heap i = some l → LoadOk s l
  floor : ∀ k, s.floor k ≤ s.version k.1

def Load.result (l : Load (π × String)) :
    Bool × Bool × Nat × Nat × Option Nat × Bool :=
  (l.done, l.succeeded, l.validated, l.total, l.version, l.blank)

/-- What any step leaves of a load: its key, what it has read, and everything
once it is done; a version is the one of the file at the time. -/
def Heaped (s s' : State π σ) : Prop :=
  ∀ i l, s.heap i = some l → ∃ l', s'.heap i = some l' ∧ l'.key = l.key ∧
    (∀ v, l'.version = some v → l.version = some v ∨ v = s.version l.key.1) ∧
    (l.done = true → l'.result = l.result)

variable {s s' : State π σ} {k : π × String} {e : CachedProfile σ}

theorem ready_transfer (h : ReadyOk s k e) (hheap : Heaped s s')
    (hfloor : s'.floor k = s.floor k) :
    ReadyOk s' k e ∧ bar s' k e = bar s k e := by
  cases hready : e.ready with
  | none => exact ⟨fun i hi => by simp [hready] at hi, by simp [bar, hready, hfloor]⟩
  | some i =>
    obtain ⟨l, hl, hkey, hdone, hseen⟩ := h i hready
    obtain ⟨l', hl', hkey', -, hfixed⟩ := hheap i l hl
    have hresult := hfixed hdone.1
    simp only [Load.result, Prod.mk.injEq] at hresult
    obtain ⟨h₁, h₂, h₃, h₄, h₅, h₆⟩ := hresult
    constructor
    · intro j hj
      obtain rfl : i = j := Option.some.inj (hready.symm.trans hj)
      refine ⟨l', hl', hkey'.trans hkey, ?_, ?_⟩
      · exact ⟨h₁.trans hdone.1, h₂.trans hdone.2.1, by rw [h₃, h₄, hdone.2.2]⟩
      · rwa [Load.Seen, h₅, h₆, hfloor, ← Load.Seen]
    · simp [bar, hready, hfloor, versionOf, hl, hl', h₅]

theorem bar_le (hs : Ok s) (h : ReadyOk s k e) : bar s k e ≤ s.version k.1 := by
  apply max_le (hs.floor k)
  cases hready : e.ready with
  | none => exact Nat.zero_le _
  | some i =>
    obtain ⟨l, hl, rfl, -, ⟨-, hnone⟩ | ⟨v, hv, -⟩⟩ := h i hready
    · simp [versionOf, hl, hnone]
    · simpa [versionOf, hl, hv] using (hs.loads i l hl).1 v hv

theorem latest_transfer (hs : Ok s) (h : LatestOk s k e) (hready : ReadyOk s k e)
    (hheap : Heaped s s') (hfloor : s'.floor k = s.floor k)
    (hspared : ∀ i l l', s.heap i = some l → s'.heap i = some l' → l.key = k →
      l'.cancelled = l.cancelled) : LatestOk s' k e := by
  intro i hi
  obtain ⟨l, hl, hkey, hlive, hbar⟩ := h i hi
  obtain ⟨l', hl', hkey', hversion, -⟩ := hheap i l hl
  refine ⟨l', hl', hkey'.trans hkey, (hspared i l l' hl hl' hkey).trans hlive, ?_⟩
  intro hclean v hv
  rw [(ready_transfer hready hheap hfloor).2]
  rcases hversion v hv with hold | rfl
  · exact hbar hclean v hold
  · rw [hkey]
    exact bar_le hs hready

theorem remember_ok (hs : Ok s) (hlatest : LatestOk s k e) (hready : ReadyOk s k e) :
    LatestOk s k (e.remember s.heap) ∧ ReadyOk s k (e.remember s.heap) := by
  unfold CachedProfile.remember
  split
  · exact ⟨hlatest, hready⟩
  · next l hl =>
      split_ifs with hkeep hdone
      · exact ⟨hlatest, hready⟩
      · obtain ⟨i, hi, hil⟩ := Option.bind_eq_some_iff.1 hl
        obtain ⟨l₀, hl₀, hkey, hlive, hbar⟩ := hlatest i hi
        obtain rfl : l₀ = l := Option.some.inj (hl₀.symm.trans hil)
        simp only [not_or, Bool.not_eq_true, Bool.and_eq_true] at hkeep hdone
        obtain ⟨hall, hread⟩ := (hs.loads i l₀ hl₀).2.1 hdone.2 hlive
        have hfloor : ∀ v, l₀.version = some v → s.floor k ≤ v := fun v hv =>
          (le_max_left _ _).trans (hbar hkeep.2 v hv)
        constructor
        · intro j hj
          obtain rfl : i = j := Option.some.inj (hi.symm.trans hj)
          refine ⟨l₀, hl₀, hkey, hlive, fun _ w hw => ?_⟩
          simpa [bar, hi, versionOf, hl₀, hw] using hfloor w hw
        · intro j hj
          obtain rfl : i = j := Option.some.inj (hi.symm.trans hj)
          exact ⟨l₀, hl₀, hkey, ⟨hdone.1, hdone.2, hall⟩,
            hread.imp_right fun ⟨v, hv, _⟩ => ⟨v, hv, hfloor v hv⟩⟩
      · exact ⟨hlatest, hready⟩

/-! ## One step on the profiles -/

theorem put_ok (hs : Ok s) (hk : k ∉ s.profiles.map Prod.fst)
    (hlatest : LatestOk s k e) (hready : ReadyOk s k e) : Ok (s.put k e) where
  nodup := List.nodup_cons.2 ⟨hk, hs.nodup⟩
  latest := fun p hp => by
    rcases List.mem_cons.1 hp with rfl | hp
    · exact hlatest
    · exact hs.latest p hp
  ready := fun p hp => by
    rcases List.mem_cons.1 hp with rfl | hp
    · exact hready
    · exact hs.ready p hp
  fresh := hs.fresh
  loads := hs.loads
  floor := hs.floor

theorem heaped_ok (hs : Ok s) (hheap : Heaped s s') (hprofiles : s'.profiles = s.profiles)
    (hfloor : s'.floor = s.floor) (hversion : s'.version = s.version)
    (hfresh : ∀ i, s'.next ≤ i → s'.heap i = none)
    (hloads : ∀ i l, s'.heap i = some l → LoadOk s l)
    (hspared : ∀ i l l', s.heap i = some l → s'.heap i = some l' →
      l.key ∈ s.profiles.map Prod.fst → l'.cancelled = l.cancelled) : Ok s' where
  nodup := hprofiles ▸ hs.nodup
  latest := fun p hp => by
    rw [hprofiles] at hp
    exact latest_transfer hs (hs.latest p hp) (hs.ready p hp) hheap (by rw [hfloor])
      fun i l l' hl hl' hkey => hspared i l l' hl hl' (hkey ▸ List.mem_map_of_mem hp)
  ready := fun p hp => by
    rw [hprofiles] at hp
    exact (ready_transfer (hs.ready p hp) hheap (by rw [hfloor])).1
  fresh := hfresh
  loads := fun i l hl => by simpa only [LoadOk, hversion] using hloads i l hl
  floor := fun k => by rw [hfloor, hversion]; exact hs.floor k

theorem modify_heaped (i : Nat) (f : Load (π × String) → Load (π × String))
    (hf : ∀ l, s.heap i = some l → (f l).key = l.key ∧
      (∀ v, (f l).version = some v → l.version = some v ∨ v = s.version l.key.1) ∧
      (l.done = true → (f l).result = l.result)) : Heaped s (s.modify i f) := by
  intro j l hl
  by_cases hj : j = i
  · subst hj
    exact ⟨f l, by simp [State.modify, hl], hf l hl⟩
  · exact ⟨l, by simp [State.modify, hj, hl], rfl, fun v hv => Or.inl hv, fun _ => rfl⟩

theorem cancel_heaped (o : Option Nat) : Heaped s (s.cancel o) := by
  cases o with
  | none => exact fun i l hl => ⟨l, hl, rfl, fun v hv => Or.inl hv, fun _ => rfl⟩
  | some i => exact modify_heaped i _ fun l _ =>
    ⟨rfl, fun v hv => Or.inl hv, fun _ => rfl⟩

theorem cancel_ok (hs : Ok s) (hk : k ∉ s.profiles.map Prod.fst)
    (hlatest : LatestOk s k e) : Ok (s.cancel e.latest) := by
  cases hi : e.latest with
  | none => exact hs
  | some i =>
    obtain ⟨l, hl, hkey, -⟩ := hlatest i hi
    refine heaped_ok hs (cancel_heaped (some i)) rfl rfl rfl ?_ ?_ ?_
    · intro j hj
      simp [State.cancel, State.modify, Function.update_apply, hs.fresh j hj]
      rintro rfl
      exact hs.fresh j hj
    · intro j m hm
      by_cases hj : j = i
      · subst hj
        simp only [State.cancel, State.modify, Function.update_self, hl,
          Option.map_some, Option.some.injEq] at hm
        rw [← hm]
        exact ⟨(hs.loads j l hl).1, nofun, (hs.loads j l hl).2.2⟩
      · simp only [State.cancel, State.modify, ne_eq, hj, not_false_eq_true,
          Function.update_of_ne] at hm
        exact hs.loads j m hm
    · intro j m m' hm hm' hmem
      by_cases hj : j = i
      · subst hj
        rw [hl] at hm
        cases hm
        exact absurd (hkey ▸ hmem) hk
      · simp only [State.cancel, State.modify, ne_eq, hj, not_false_eq_true,
          Function.update_of_ne] at hm'
        rw [hm] at hm'
        cases hm'
        rfl

theorem allocate_heaped (hs : Ok s) (l : Load (π × String)) : Heaped s (s.allocate l) := by
  intro i m hm
  have hi : i ≠ s.next := by
    rintro rfl
    simp [hs.fresh _ (Nat.le_refl _)] at hm
  exact ⟨m, by simp [State.allocate, hi, hm], rfl, fun v hv => Or.inl hv, fun _ => rfl⟩

theorem allocate_ok (hs : Ok s) {l : Load (π × String)} (hl : LoadOk s l) :
    Ok (s.allocate l) := by
  refine heaped_ok hs (allocate_heaped hs l) rfl rfl rfl ?_ ?_ ?_
  · intro i hi
    have hne : i ≠ s.next := Nat.ne_of_gt hi
    simpa [State.allocate, hne] using hs.fresh i (Nat.le_of_succ_le hi)
  · intro i m hm
    by_cases hi : i = s.next
    · subst hi
      simp only [State.allocate, Function.update_self, Option.some.injEq] at hm
      exact hm ▸ hl
    · simp only [State.allocate, ne_eq, hi, not_false_eq_true,
        Function.update_of_ne] at hm
      exact hs.loads i m hm
  · intro i m m' hm hm' _
    obtain ⟨m₁, hm₁, -⟩ := allocate_heaped hs l i m hm
    have hi : i ≠ s.next := by
      rintro rfl
      simp [hs.fresh _ (Nat.le_refl _)] at hm
    simp only [State.allocate, ne_eq, hi, not_false_eq_true,
      Function.update_of_ne] at hm'
    rw [hm] at hm'
    cases hm'
    rfl

theorem work_sound {l : Load (π × String)} {event : Event π σ}
    (hfailed : l.succeeded = false) :
    ((l.work s event).succeeded = true → (l.work s event).cancelled = false →
      (l.work s event).validated = (l.work s event).total ∧
        (l.work s event).Seen 0) ∧
    ((l.work s event).done = false → (l.work s event).succeeded = false) := by
  cases event with
  | finish i =>
    simp only [Load.work]
    split_ifs with hend
    · simp only [Bool.and_eq_true, Bool.or_eq_true, Bool.not_eq_true',
        beq_iff_eq] at hend
      refine ⟨fun hsuccess hlive => ⟨?_, Or.inr ?_⟩, nofun⟩
      · simp only at hsuccess hlive
        simpa [hsuccess, hlive] using hend.2
      · exact (Option.isSome_iff_exists.1 hend.1).imp fun v hv => ⟨hv, Nat.zero_le v⟩
    · simp [hfailed]
  | read i success total => simp only [Load.work]; split_ifs <;> simp [hfailed]
  | validate i => simp only [Load.work]; split_ifs <;> simp [hfailed]
  | _ => simp [Load.work, hfailed]

theorem work_ok (hs : Ok s) (i : Nat) (event : Event π σ) :
    Ok (s.modify i fun l => if l.done then l else l.work s event) := by
  have hwork : ∀ l : Load (π × String), (l.work s event).key = l.key ∧
      (l.work s event).cancelled = l.cancelled ∧
      (∀ v, (l.work s event).version = some v →
        l.version = some v ∨ v = s.version l.key.1) := by
    intro l
    unfold Load.work
    split <;> (try split_ifs) <;> simp_all
  refine heaped_ok hs (modify_heaped i _ ?_) rfl rfl rfl ?_ ?_ ?_
  · intro l _
    cases hdone : l.done with
    | true => exact ⟨rfl, fun v hv => Or.inl hv, fun _ => rfl⟩
    | false => exact ⟨(hwork l).1, (hwork l).2.2, nofun⟩
  · intro j hj
    by_cases hji : j = i
    · subst hji
      simp [State.modify, hs.fresh j hj]
    · simpa [State.modify, hji] using hs.fresh j hj
  · intro j m hm
    by_cases hji : j = i
    · subst hji
      obtain ⟨l, hl, rfl⟩ : ∃ l, s.heap j = some l ∧
          (if l.done then l else l.work s event) = m := by
        simpa [State.modify] using hm
      have hold := hs.loads j l hl
      cases hdone : l.done with
      | true => simpa [hdone] using hold
      | false =>
        simp only [Bool.false_eq_true, if_false]
        refine ⟨?_, work_sound (hold.2.2 hdone)⟩
        intro v hv
        rw [(hwork l).1]
        rcases (hwork l).2.2 v hv with h | rfl
        · exact hold.1 v h
        · exact Nat.le_refl _
    · simp only [State.modify, ne_eq, hji, not_false_eq_true,
        Function.update_of_ne] at hm
      exact hs.loads j m hm
  · intro j l m hl hm _
    by_cases hji : j = i
    · subst hji
      simp only [State.modify, Function.update_self, hl, Option.map_some,
        Option.some.injEq] at hm
      rw [← hm]
      split_ifs
      · rfl
      · exact (hwork l).2.1
    · simp only [State.modify, ne_eq, hji, not_false_eq_true,
        Function.update_of_ne] at hm
      rw [hl] at hm
      cases hm
      rfl

theorem beginLoad_ok (k : π × String) (profile : String) (started : Bool) :
    LoadOk s (beginLoad k profile started) ∧
      (beginLoad k profile started).key = k ∧
      (beginLoad k profile started).cancelled = false ∧
      (beginLoad k profile started).version = none := by
  unfold beginLoad
  dsimp only
  split_ifs with hblank
  · exact ⟨⟨nofun, fun _ _ => ⟨rfl, Or.inl ⟨hblank, rfl⟩⟩, nofun⟩, rfl, rfl, rfl⟩
  · exact ⟨⟨nofun, nofun, fun _ => rfl⟩, rfl, rfl, rfl⟩

theorem acquireIn_ok [DecidableEq σ] (hs : Ok s) (hk : k ∉ s.profiles.map Prod.fst)
    (hlatest : LatestOk s k e) (hready : ReadyOk s k e) (profile : String) (stamp : σ)
    (refresh started : Bool) :
    Ok (s.acquireIn k e profile stamp refresh started) ∧
      (s.acquireIn k e profile stamp refresh started).floor = s.floor := by
  obtain ⟨hlatest₁, hready₁⟩ := remember_ok hs hlatest hready
  obtain ⟨hload, hkey, hlive, hunread⟩ := beginLoad_ok (s := s) k profile started
  have hs₁ : Ok { s with clock := s.clock + 1 } := { hs with }
  simp only [State.acquireIn]
  split_ifs
  · have hs₂ := allocate_ok hs₁ hload
    refine ⟨put_ok hs₂ hk ?_ ?_, rfl⟩
    · intro i hi
      cases hi
      exact ⟨_, Function.update_self .., hkey, hlive, fun _ v hv => by
        simp [hunread] at hv⟩
    · exact (ready_transfer (s := { s with clock := s.clock + 1 }) hready₁
        (allocate_heaped hs₁ _) rfl).1
  · have hs₂ := cancel_ok hs₁ hk hlatest₁
    have hs₃ := allocate_ok hs₂ (beginLoad_ok k profile started).1
    have hsame : ∀ o, (State.cancel { s with clock := s.clock + 1 } o).profiles =
          s.profiles ∧
        (State.cancel { s with clock := s.clock + 1 } o).floor = s.floor := by
      intro o
      cases o <;> exact ⟨rfl, rfl⟩
    refine ⟨put_ok hs₃ (by simpa only [State.allocate, hsame] using hk) ?_ ?_,
      (hsame _).2⟩
    · intro i hi
      cases hi
      exact ⟨_, Function.update_self .., hkey, hlive, fun _ v hv => by
        simp [hunread] at hv⟩
    · have hmiddle := ready_transfer (s := { s with clock := s.clock + 1 }) hready₁
        (cancel_heaped (e.remember s.heap).latest) (by rw [(hsame _).2])
      exact (ready_transfer hmiddle.1 (allocate_heaped hs₂ _) rfl).1
  · exact ⟨put_ok hs₁ hk hlatest₁ hready₁, rfl⟩

theorem ok_empty : Ok ({} : State π σ) :=
  ⟨List.nodup_nil, nofun, nofun, fun _ _ => rfl, nofun, fun _ => Nat.le_refl _⟩

variable [DecidableEq π]

theorem find?_mem (h : s.find? k = some e) : (k, e) ∈ s.profiles := by
  obtain ⟨p, hp, rfl⟩ := Option.map_eq_some_iff.1 h
  have hkey : p.1 = k := by simpa using List.find?_some hp
  exact hkey ▸ List.mem_of_find?_eq_some hp

theorem find?_none (h : s.find? k = none) : k ∉ s.profiles.map Prod.fst := by
  intro hmem
  obtain ⟨p, hp, rfl⟩ := List.mem_map.1 hmem
  simp only [State.find?, Option.map_eq_none_iff, List.find?_eq_none] at h
  exact h p hp (by simp)

theorem erase_ok (hs : Ok s) (k : π × String) :
    Ok (s.erase k) ∧ k ∉ (s.erase k).profiles.map Prod.fst :=
  ⟨{ nodup := hs.nodup.sublist (List.filter_sublist.map _)
     latest := fun p hp => hs.latest p (List.mem_of_mem_filter hp)
     ready := fun p hp => hs.ready p (List.mem_of_mem_filter hp)
     fresh := hs.fresh
     loads := hs.loads
     floor := hs.floor }, by simp [State.erase]⟩

theorem raise_ok (hs : Ok s) (hk : k ∉ s.profiles.map Prod.fst) {w : Nat}
    (hw : w ≤ s.version k.1) : Ok { s with floor := Function.update s.floor k w } := by
  have hheap : Heaped s { s with floor := Function.update s.floor k w } :=
    fun i l hl => ⟨l, hl, rfl, fun v hv => Or.inl hv, fun _ => rfl⟩
  have hfloor : ∀ p ∈ s.profiles, Function.update s.floor k w p.1 = s.floor p.1 :=
    fun p hp => Function.update_of_ne
      (fun heq => hk (by rw [← heq]; exact List.mem_map_of_mem hp)) _ _
  refine { hs with latest := ?_, ready := ?_, floor := ?_ }
  · intro p hp
    refine latest_transfer hs (hs.latest p hp) (hs.ready p hp) hheap (hfloor p hp) ?_
    intro i l l' hl hl' _
    rw [hl] at hl'
    cases hl'
    rfl
  · exact fun p hp => (ready_transfer (hs.ready p hp) hheap (hfloor p hp)).1
  · intro k'
    by_cases hk' : k' = k
    · subst hk'
      simpa using hw
    · simpa [hk'] using hs.floor k'

theorem room_ok (hs : Ok s) (hk : k ∉ s.profiles.map Prod.fst) :
    Ok s.room ∧ k ∉ s.room.profiles.map Prod.fst ∧ s.room.floor = s.floor := by
  unfold State.room
  split_ifs
  · exact ⟨hs, hk, rfl⟩
  · split
    · exact ⟨hs, hk, rfl⟩
    · next k' e' hmin =>
        have hmem := List.argmin_mem hmin
        have heq : (s.cancel e'.latest).erase k' = (s.erase k').cancel e'.latest := by
          cases e'.latest <;> rfl
        have herase := erase_ok hs k'
        rw [heq]
        refine ⟨cancel_ok herase.1 herase.2 (hs.latest _ hmem), ?_, ?_⟩
        · have hsub : List.Sublist ((s.erase k').profiles.map Prod.fst)
              (s.profiles.map Prod.fst) := List.filter_sublist.map _
          cases e'.latest <;> exact fun h => hk (hsub.subset h)
        · cases e'.latest <;> rfl

theorem publish_ok (hs : Ok s) (k : π × String) (forget : Bool) :
    Ok { s.invalidate k forget true with
      writing := Function.update s.writing k.1 false
      floor := Function.update s.floor k (s.version k.1) } := by
  unfold State.invalidate
  cases hfind : s.find? k with
  | none =>
    have hk := find?_none hfind
    exact { raise_ok hs hk (Nat.le_refl _) with }
  | some e =>
    have hlatest := hs.latest _ (find?_mem hfind)
    have herase := erase_ok hs k
    cases forget with
    | true =>
      have hcancel := cancel_ok herase.1 herase.2 hlatest
      have heq : (s.cancel e.latest).erase k = (s.erase k).cancel e.latest := by
        cases e.latest <;> rfl
      have hk : k ∉ ((s.erase k).cancel e.latest).profiles.map Prod.fst := by
        cases e.latest <;> exact herase.2
      have hraise := raise_ok (w := s.version k.1) hcancel hk
        (by cases e.latest <;> exact Nat.le_refl _)
      have hfloor : ((s.erase k).cancel e.latest).floor = s.floor := by
        cases e.latest <;> rfl
      simp only [heq, if_true]
      rw [hfloor] at hraise
      exact { hraise with }
    | false =>
      have hall := allocate_ok herase.1
        (show LoadOk (s.erase k)
          { key := k
            profile := ((e.latest.bind s.heap).map Load.profile).getD ""
            version := some (s.version k.1)
            done := true
            succeeded := true } from
          ⟨fun v hv => by cases hv; exact Nat.le_refl _,
            fun _ _ => ⟨rfl, Or.inr ⟨_, rfl, Nat.zero_le _⟩⟩, nofun⟩)
      have hraise := raise_ok (w := s.version k.1) hall herase.2 (Nat.le_refl _)
      have hput := put_ok (e := { e with dirty := true, ready := some s.next }) hraise
        herase.2 ?_ ?_
      · exact { hput with }
      · intro i hi
        obtain ⟨l, hl, hkey, hlive, -⟩ := hlatest i hi
        refine ⟨l, ?_, hkey, hlive, nofun⟩
        have hne : i ≠ s.next := by
          rintro rfl
          simp [hs.fresh _ (Nat.le_refl _)] at hl
        simp [State.allocate, State.erase, hne, hl]
      · intro i hi
        cases hi
        exact ⟨_, Function.update_self .., rfl, ⟨rfl, rfl, rfl⟩,
          Or.inr ⟨_, rfl, by simp⟩⟩

variable [DecidableEq σ]

private theorem acquire_ok (hs : Ok s) (k : π × String) (profile : String) (created stamp : σ)
    (refresh started : Bool) :
    Ok (s.acquire k profile created stamp refresh started) ∧
      (s.acquire k profile created stamp refresh started).floor = s.floor := by
  unfold State.acquire
  split
  · next e he =>
      have herase := erase_ok hs k
      exact acquireIn_ok herase.1 herase.2 (hs.latest _ (find?_mem he))
        (hs.ready _ (find?_mem he)) profile stamp refresh started
  · next hnone =>
      have hk := find?_none hnone
      obtain ⟨hroom, hk', hfloor⟩ := room_ok hs hk
      have := acquireIn_ok (e := { stamp := created }) hroom hk' nofun nofun profile
        stamp refresh started
      exact ⟨this.1, this.2.trans hfloor⟩

/-! ## Every step -/

theorem step_ok (hs : Ok s) (event : Event π σ) :
    Ok (step s event) ∧ ∀ k, s.floor k ≤ (step s event).floor k := by
  cases event with
  | acquire k profile created stamp refresh started =>
    obtain ⟨hok, hfloor⟩ := acquire_ok hs k profile created stamp refresh started
    exact ⟨hok, fun k' => by rw [step, hfloor]⟩
  | ready k stamp =>
    simp only [step, State.ready]
    cases hfind : s.find? k with
    | none => exact ⟨hs, fun _ => Nat.le_refl _⟩
    | some e =>
      have hmem := find?_mem hfind
      have herase := erase_ok hs k
      obtain ⟨hlatest, hready⟩ : LatestOk s k
          (if e.stamp = stamp then e.remember s.heap else e) ∧
          ReadyOk s k (if e.stamp = stamp then e.remember s.heap else e) := by
        split_ifs
        · exact remember_ok hs (hs.latest _ hmem) (hs.ready _ hmem)
        · exact ⟨hs.latest _ hmem, hs.ready _ hmem⟩
      simp only
      generalize (if e.stamp = stamp then e.remember s.heap else e) = e'
        at hlatest hready ⊢
      cases hanswer : e'.ready with
      | none => exact ⟨put_ok herase.1 herase.2 hlatest hready, fun _ => Nat.le_refl _⟩
      | some i =>
        obtain ⟨l, hl, hkey, hdone, hseen⟩ := hready i hanswer
        have hraise := raise_ok herase.1 herase.2
          (show max (s.floor k) (versionOf s i) ≤ s.version k.1 by
            simpa [bar, hanswer] using bar_le hs hready)
        constructor
        · refine put_ok hraise herase.2 ?_ ?_
          · intro j hj
            obtain ⟨m, hm, hmkey, hlive, hbar⟩ := hlatest j hj
            refine ⟨m, hm, hmkey, hlive, fun hclean w hw => ?_⟩
            have := hbar hclean w hw
            simp only [bar, hanswer, Option.map_some, Option.getD_some,
              Function.update_self, sup_le_iff] at this ⊢
            exact ⟨this, this.2⟩
          · intro j hj
            obtain rfl : i = j := Option.some.inj (hanswer.symm.trans hj)
            refine ⟨l, hl, hkey, hdone, hseen.imp_right ?_⟩
            rintro ⟨v, hv, hle⟩
            exact ⟨v, hv, by simp [versionOf, hl, hv, hle]⟩
        · intro k'
          by_cases hk' : k' = k
          · subst hk'
            simp [State.put, State.erase]
          · simp [hk', State.put, State.erase]
  | beginWrite path =>
    simp only [step]
    split_ifs
    · exact ⟨hs, fun _ => Nat.le_refl _⟩
    · have hgrows : ∀ p, s.version p ≤
          Function.update s.version path (s.version path + 1) p := by
        intro p
        by_cases hp : p = path
        · subst hp
          simp
        · simp [hp]
      refine ⟨{ hs with loads := ?_, floor := ?_ }, fun _ => Nat.le_refl _⟩
      · intro i l hl
        have hold := hs.loads i l hl
        exact ⟨fun v hv => (hold.1 v hv).trans (hgrows _), hold.2⟩
      · exact fun k => (hs.floor k).trans (hgrows _)
  | publish k forget =>
    simp only [step]
    split_ifs
    · refine ⟨publish_ok hs k forget, fun k' => ?_⟩
      by_cases hk' : k' = k
      · subst hk'
        simpa using hs.floor k'
      · simp [hk']
    · exact ⟨hs, fun _ => Nat.le_refl _⟩
  | abandonWrite path => exact ⟨{ hs with }, fun _ => Nat.le_refl _⟩
  | read i success total => exact ⟨work_ok hs i _, fun _ => Nat.le_refl _⟩
  | validate i => exact ⟨work_ok hs i _, fun _ => Nat.le_refl _⟩
  | fail i => exact ⟨work_ok hs i _, fun _ => Nat.le_refl _⟩
  | finish i => exact ⟨work_ok hs i _, fun _ => Nat.le_refl _⟩

theorem run_ok (hs : Ok s) (events : List (Event π σ)) :
    Ok (run step s events) ∧ ∀ k, s.floor k ≤ (run step s events).floor k := by
  induction events generalizing s with
  | nil => exact ⟨hs, fun _ => Nat.le_refl _⟩
  | cons event events ih =>
    have hone := step_ok hs event
    have hrest := ih hone.1
    exact ⟨hrest.1, fun k => (hone.2 k).trans (hrest.2 k)⟩

/-- The latest load that is current is not cancelled, and what it has read is
not older than any snapshot published or shown. -/
theorem current_sees (events : List (Event π σ)) (i : Nat) (stamp : σ)
    (h : (run step {} events).current i stamp = true) :
    ∃ l, (run step {} events).heap i = some l ∧ l.cancelled = false ∧
      ∀ v, l.version = some v → (run step {} events).floor l.key ≤ v := by
  have hok := (run_ok (ok_empty (π := π) (σ := σ)) events).1
  unfold State.current at h
  split at h
  · cases h
  · next e he =>
      obtain ⟨l, hl, hfind⟩ := Option.bind_eq_some_iff.1 he
      simp only [Bool.and_eq_true, decide_eq_true_eq, Bool.not_eq_true'] at h
      obtain ⟨m, hm, -, hlive, hbar⟩ := hok.latest _ (find?_mem hfind) i h.1.1
      obtain rfl : m = l := Option.some.inj (hm.symm.trans hl)
      exact ⟨m, hm, hlive, fun v hv => (le_max_left _ _).trans (hbar h.1.2 v hv)⟩

/-- A ready snapshot is complete.  Unless it has nothing to read, it has seen
every write published before and is not older than one that was shown before. -/
theorem cache_never_goes_back (before after : List (Event π σ))
    (event : Event π σ) (k : π × String) (i : Nat)
    (hready : ((run step {} (before ++ event :: after)).find? k).bind
      CachedProfile.ready = some i) :
    ∃ l, (run step {} (before ++ event :: after)).heap i = some l ∧ l.Complete ∧
      ((l.blank = true ∧ l.version = none) ∨ ∃ v, l.version = some v ∧
      (∀ forget, event = .publish k forget →
        (run step {} before).writing k.1 = true →
          (run step {} before).version k.1 ≤ v) ∧
      ∀ stamp j, event = .ready k stamp →
        ((run step {} before).ready k stamp).2 = some j →
          versionOf ((run step {} before).ready k stamp).1 j ≤ v) := by
  obtain ⟨hbefore, -⟩ := run_ok (ok_empty (π := π) (σ := σ)) before
  have hafter := run_ok (step_ok hbefore event).1 after
  rw [run_append, run_cons] at hready ⊢
  obtain ⟨e, he, hi⟩ := Option.bind_eq_some_iff.1 hready
  obtain ⟨l, hl, -, hdone, hseen⟩ := hafter.1.ready _ (find?_mem he) i hi
  refine ⟨l, hl, hdone, hseen.imp_right fun ⟨v, hv, hle⟩ => ?_⟩
  have hfloor := (hafter.2 k).trans hle
  refine ⟨v, hv, ?_, ?_⟩
  · rintro forget rfl hwriting
    simpa [step, hwriting] using hfloor
  · rintro stamp j rfl hshown
    generalize hanswer : (run step {} before).ready k stamp = answer at *
    simp only [step, hanswer, hshown, Function.update_self, sup_le_iff] at hfloor
    exact hfloor.2

end Laws

def sampleBefore : List (Event Nat Nat) :=
  [.acquire (0, "a") "p" 0 0 false true, .read 0 true 0, .finish 0, .beginWrite 0]

theorem cache_sample :
    ∃ l v, (run step {} (sampleBefore ++ .publish (0, "a") false :: [])).heap 1 =
        some l ∧ l.Complete ∧ l.version = some v ∧ 1 ≤ v := by
  obtain ⟨l, hl, hdone, ⟨hblank, -⟩ | ⟨v, hv, hpublished, -⟩⟩ :=
    cache_never_goes_back sampleBefore [] (.publish (0, "a") false) (0, "a") 1
      (by decide)
  · cases hl
    cases hblank
  · exact ⟨l, v, hl, hdone, hv, hpublished false rfl (by decide)⟩

end ProxyLane.App.RecentCache
