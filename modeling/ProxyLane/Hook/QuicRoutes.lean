import ProxyLane.Hook.QuicBridge

/-!
# Datagrams of QUIC routes

A client's datagrams leave a route once each and in order: to the engine, to
the upstream server out of the queue of a rejected bridge, or directly.  A
datagram that the bridge refuses is passed on at once, ahead of what the server
has not yet taken.  The counters of the process are the sums over the bridges.
-/

namespace ProxyLane.Hook

open ProxyLane.Foundation

namespace QuicBridge

variable {env : Env}

/-! ## The order of a route's datagrams -/

def Before (x y : Sent) : Prop :=
  x.number < y.number ∨ (x.way = .ahead ∧ y.way = .queued)

/-- What has left and what is queued; `strict` where nothing has overtaken the
queue. -/
structure Lined (strict : Prop) (out : List Sent) (queue : List Nat) : Prop where
  order : out.Pairwise Before
  sorted : queue.Pairwise (· < ·)
  after : ∀ n ∈ queue, ∀ x ∈ out, x.number < n ∨ x.way = .ahead
  inOrder : strict → ∀ n ∈ queue, ∀ x ∈ out, x.number < n

namespace Lined

variable {strict strict' : Prop} {out : List Sent} {xs ys queue : List Nat}

theorem imp (h : Lined strict out queue) (himp : strict' → strict) :
    Lined strict' out queue :=
  ⟨h.order, h.sorted, h.after, fun hs => h.inOrder (himp hs)⟩

theorem leave {way : Way} (h : Lined strict out (xs ++ ys))
    (hway : way = .queued ∨ strict) :
    Lined strict (out ++ xs.map fun n => ⟨n, way⟩) ys := by
  obtain ⟨hxs, hys, hxy⟩ := List.pairwise_append.1 h.sorted
  have hmem : ∀ n ∈ ys, n ∈ xs ++ ys := fun n hn => List.mem_append_right _ hn
  constructor
  · apply List.pairwise_append.2
    refine ⟨h.order, ?_, ?_⟩
    · apply List.pairwise_map.2
      exact hxs.imp fun hab => Or.inl hab
    · intro x hx y hy
      obtain ⟨n, hn, rfl⟩ := List.mem_map.1 hy
      obtain hqueued | hs := hway
      · obtain hlt | hahead := h.after n (List.mem_append_left _ hn) x hx
        · exact Or.inl hlt
        · exact Or.inr ⟨hahead, hqueued⟩
      · exact Or.inl (h.inOrder hs n (List.mem_append_left _ hn) x hx)
  · exact hys
  · intro n hn x hx
    obtain hx | hx := List.mem_append.1 hx
    · exact h.after n (hmem n hn) x hx
    · obtain ⟨m, hm, rfl⟩ := List.mem_map.1 hx
      exact Or.inl (hxy m hm n hn)
  · intro hs n hn x hx
    obtain hx | hx := List.mem_append.1 hx
    · exact h.inOrder hs n (hmem n hn) x hx
    · obtain ⟨m, hm, rfl⟩ := List.mem_map.1 hx
      exact hxy m hm n hn

theorem push {n : Nat} (h : Lined strict out queue)
    (hout : ∀ x ∈ out, x.number < n) (hqueue : ∀ m ∈ queue, m < n) :
    Lined strict out (queue ++ [n]) := by
  constructor
  · exact h.order
  · apply List.pairwise_append.2
    refine ⟨h.sorted, List.pairwise_singleton _ _, ?_⟩
    intro m hm k hk
    rw [List.mem_singleton.1 hk]
    exact hqueue m hm
  · intro m hm x hx
    obtain hm | hm := List.mem_append.1 hm
    · exact h.after m hm x hx
    · rw [List.mem_singleton.1 hm]
      exact Or.inl (hout x hx)
  · intro hs m hm x hx
    obtain hm | hm := List.mem_append.1 hm
    · exact h.inOrder hs m hm x hx
    · rw [List.mem_singleton.1 hm]
      exact hout x hx

theorem pass {n : Nat} (h : Lined strict out queue)
    (hout : ∀ x ∈ out, x.number < n) (hahead : queue ≠ [] → ¬ strict) :
    Lined strict (out ++ [⟨n, if queue.isEmpty then .direct else .ahead⟩]) queue := by
  constructor
  · apply List.pairwise_append.2
    refine ⟨h.order, List.pairwise_singleton _ _, ?_⟩
    intro x hx y hy
    rw [List.mem_singleton.1 hy]
    exact Or.inl (hout x hx)
  · exact h.sorted
  · intro m hm x hx
    obtain hx | hx := List.mem_append.1 hx
    · exact h.after m hm x hx
    · rw [List.mem_singleton.1 hx]
      right
      cases queue with
      | nil => simp at hm
      | cons _ _ => rfl
  · intro hs m hm
    exact absurd hs (hahead (List.ne_nil_of_mem hm))

theorem of_nil (h : Lined strict out []) : Lined strict' out [] :=
  ⟨h.order, h.sorted, h.after, by simp⟩

end Lined

def Admitting (route : Route) : Prop :=
  ∀ b, route.quic = some b → b.rejected = false

/-- Every datagram that has come has left once, is queued once, was late, or is
in hand. -/
structure Ordered (hand : List Nat) (route : Route) : Prop where
  bridge : ∀ b, route.quic = some b → Sound b ∧ Settled b
  lined : Lined (Admitting route) route.out ((pending route).map Datagram.number)
  once : (route.out.map Sent.number ++ (pending route).map Datagram.number ++
    route.late ++ hand).Perm (List.range route.arrived)

def without (route : Route) (c : Counters) : Counters :=
  match route.quic with
  | some b => others b c
  | none => c

structure Balanced (route : Route) (c : Counters) (result : Route × Counters) :
    Prop where
  without : without result.1 result.2 = without route c
  limit : c.initialBytes ≤ initialByteLimit → result.2.initialBytes ≤ initialByteLimit

theorem Balanced.trans {route : Route} {c : Counters}
    {middle result : Route × Counters} (h : Balanced route c middle)
    (k : Balanced middle.1 middle.2 result) : Balanced route c result :=
  ⟨k.without.trans h.without, fun hc => k.limit (h.limit hc)⟩

variable {hand : List Nat} {route : Route} {b : Bridge} {c : Counters}

theorem drained_empty (h : Sound b) (hdrained : isDrained b = true) :
    b.initial = [] := by
  unfold isDrained at hdrained
  split at hdrained
  · rename_i hopen
    exact (h.opened hopen).1
  · simp only [Bool.and_eq_true, List.isEmpty_iff] at hdrained
    exact hdrained.2

theorem Ordered.mem_lt (h : Ordered hand route) {n : Nat}
    (hn : n ∈ route.out.map Sent.number ++ (pending route).map Datagram.number ++
      route.late ++ hand) : n < route.arrived :=
  List.mem_range.1 (h.once.subset hn)

theorem pumpBridge_spec (h : Ordered hand route) (hquic : route.quic = some b) :
    Ordered hand (pumpBridge env route b c).1 ∧
      Balanced route c (pumpBridge env route b c) ∧
      (b.rejected = true → ∀ b', (pumpBridge env route b c).1.quic = some b' →
        b'.rejected = true) := by
  obtain ⟨hsound, hsettled⟩ := h.bridge b hquic
  have hclient : Drains ⟨b, c, []⟩ (drain .client env.delivers 64 ⟨b, c, []⟩) :=
    drain_drains hsound hsettled
  have hdrains := hclient.trans
    (@drain_drains _ .server env.takes 64 hclient.sound hclient.settled)
  unfold pumpBridge
  simp only
  generalize drain .server env.takes 64 (drain .client env.delivers 64 ⟨b, c, []⟩) =
    w at hdrains
  have hpending : pending route = b.initial := by simp [pending, hquic]
  have hqueue : w.passed ++ w.bridge.initial = b.initial := by
    simpa using hdrains.queue
  have hlined := h.lined
  rw [hpending, ← hqueue, List.map_append] at hlined
  have hleft : Lined (Admitting route)
      (route.out ++ sent .queued w.passed) (w.bridge.initial.map Datagram.number) := by
    have hleave := hlined.leave (Or.inl rfl)
    rw [List.map_map] at hleave
    exact hleave
  have honce : ((route.out ++ sent .queued w.passed).map Sent.number ++
      w.bridge.initial.map Datagram.number ++ route.late ++ hand).Perm
        (List.range route.arrived) := by
    have hnumbers : (sent .queued w.passed).map Sent.number =
        w.passed.map Datagram.number := by
      simp [sent]
    have hold := h.once
    rw [hpending, ← hqueue] at hold
    simpa [hnumbers] using hold
  have hbalance : others w.bridge w.counters = without route c := by
    simp [without, hquic, hdrains.others]
  split
  · rename_i hdrained
    have hempty := drained_empty hdrains.sound hdrained
    rw [hempty] at hleft honce
    refine ⟨⟨by simp, hleft.of_nil, by simpa [pending] using honce⟩, ⟨?_, ?_⟩,
      by simp⟩
    · simp only [without, destroy_eq_others]
      exact hbalance
    · intro hc
      have hlimit := hdrains.limit
      simp only [destroy] at hlimit ⊢
      omega
  · refine ⟨⟨?_, ?_, honce⟩, ⟨?_, ?_⟩, ?_⟩
    · rintro b' ⟨⟩
      exact ⟨hdrains.sound, hdrains.settled⟩
    · apply hleft.imp
      intro hadmitting b' hb'
      rw [hquic] at hb'
      cases hb'
      exact hdrains.rejected.symm.trans (hadmitting w.bridge rfl)
    · exact hbalance
    · intro hc
      exact hdrains.limit.trans hc
    · rintro hrejected b' ⟨⟩
      exact hdrains.rejected.trans hrejected

theorem pumpQuic_spec (h : Ordered hand route) :
    Ordered hand (pumpQuic env route c).1 ∧
      Balanced route c (pumpQuic env route c) := by
  unfold pumpQuic
  split
  · rename_i b hquic
    obtain ⟨hordered, hbalanced, -⟩ := @pumpBridge_spec env _ _ b c h hquic
    exact ⟨hordered, hbalanced⟩
  · exact ⟨h, rfl, id⟩

@[simp] theorem pumpQuic_arrived :
    (pumpQuic env route c).1.arrived = route.arrived := by
  unfold pumpQuic
  split
  · simp only [pumpBridge]
    split <;> rfl
  · rfl

/-! ## A datagram in hand -/

variable {n : Nat}

theorem Ordered.hand_last (h : Ordered [n] route) (hn : route.arrived = n + 1) :
    (∀ x ∈ route.out, x.number < n) ∧
      ∀ m ∈ (pending route).map Datagram.number, m < n := by
  have hnodup := h.once.symm.nodup List.nodup_range
  obtain ⟨-, -, hdisjoint⟩ := List.nodup_append.1 hnodup
  have hlt : ∀ m ∈ route.out.map Sent.number ++
      (pending route).map Datagram.number ++ route.late, m < n := by
    intro m hm
    have hle := h.mem_lt (List.mem_append_left _ hm)
    have hne := hdisjoint m hm n (List.mem_singleton.2 rfl)
    omega
  constructor
  · intro x hx
    apply hlt
    simp only [List.mem_append, List.mem_map]
    exact Or.inl (Or.inl ⟨x, hx, rfl⟩)
  · intro m hm
    apply hlt
    simp only [List.mem_append]
    exact Or.inl (Or.inr hm)

theorem passOn_ordered {d : Datagram} (h : Ordered [d.number] route)
    (hn : route.arrived = d.number + 1)
    (hahead : pending route ≠ [] → ¬ Admitting route) :
    Ordered [] (passOn route d) := by
  refine ⟨h.bridge, ?_, ?_⟩
  · have hpass := h.lined.pass (h.hand_last hn).1 (by simpa using hahead)
    have hempty : ((pending route).map Datagram.number).isEmpty =
        (pending route).isEmpty := by
      simp
    rw [hempty] at hpass
    exact hpass
  · apply List.Perm.trans _ h.once
    simp only [passOn, pending, List.map_append, List.map_cons, List.map_nil,
      List.append_nil, List.append_assoc]
    apply List.Perm.append_left
    simp only [← List.append_assoc]
    exact (List.perm_append_singleton d.number _).symm

theorem late_ordered {d : Datagram} (h : Ordered [d.number] route) :
    Ordered [] { route with late := route.late ++ [d.number] } := by
  refine ⟨h.bridge, h.lined, ?_⟩
  simpa [pending] using h.once

theorem handOver_ordered {queue handed : List Datagram} {b' : Bridge}
    (hlined : Lined (Admitting route) route.out (queue.map Datagram.number))
    (honce : (route.out.map Sent.number ++ queue.map Datagram.number ++
      route.late ++ hand).Perm (List.range route.arrived))
    (hsound : Sound b') (hsettled : Settled b')
    (hqueue : handed ++ b'.initial = queue)
    (hengine : Admitting route ∨ (handed = [] ∧ b'.rejected = true)) :
    Ordered hand { route with
      quic := some b'
      out := route.out ++ sent .engine handed } := by
  rw [← hqueue, List.map_append] at hlined honce
  refine ⟨?_, ?_, ?_⟩
  · rintro b'' ⟨⟩
    exact ⟨hsound, hsettled⟩
  · obtain hadmitting | ⟨hnone, hrejected⟩ := hengine
    · have hleave : Lined (Admitting route) (route.out ++
          (handed.map Datagram.number).map fun n => ⟨n, .engine⟩)
          (b'.initial.map Datagram.number) :=
        hlined.leave (Or.inr hadmitting)
      rw [List.map_map] at hleave
      exact hleave.imp fun _ => hadmitting
    · rw [hnone] at hlined ⊢
      simp only [sent, List.map_nil, List.append_nil, List.nil_append] at hlined ⊢
      apply hlined.imp
      intro hadmitting
      simp [hadmitting b' rfl] at hrejected
  · have hsent : (sent .engine handed).map Sent.number =
        handed.map Datagram.number := by
      simp [sent]
    simpa only [List.map_append, hsent, List.append_assoc, pending] using honce

theorem join_ordered {d : Datagram} {b' : Bridge} {handed : List Datagram}
    (h : Ordered [d.number] route) (hn : route.arrived = d.number + 1)
    (hsound : Sound b') (hsettled : Settled b')
    (hkept : handed ++ b'.initial = pending route ++ [d])
    (hengine : Admitting route ∨ (handed = [] ∧ b'.rejected = true)) :
    Ordered [] { route with
      quic := some b'
      out := route.out ++ sent .engine handed } := by
  obtain ⟨hout, hqueue⟩ := h.hand_last hn
  apply handOver_ordered _ _ hsound hsettled hkept hengine
  · rw [List.map_append]
    exact h.lined.push hout hqueue
  · apply List.Perm.trans _ h.once
    simp only [List.map_append, List.map_cons, List.map_nil, List.append_nil,
      List.append_assoc]
    apply List.Perm.append_left
    apply List.Perm.append_left
    exact (List.perm_append_singleton d.number _).symm

theorem feed_ordered {d : Datagram} {w : Work} (h : Ordered [d.number] route)
    (hn : route.arrived = d.number + 1) (hquic : route.quic = some b)
    (hfeeds : Feeds d b c true w) :
    Ordered [] { route with
      quic := some w.bridge
      out := route.out ++ sent .engine w.handed } := by
  have hpending : pending route = b.initial := by simp [pending, hquic]
  apply join_ordered h hn hfeeds.sound hfeeds.settled
  · rw [hpending]
    exact hfeeds.keeps rfl
  · cases hrejected : b.rejected with
    | true => exact Or.inr (hfeeds.rejected hrejected)
    | false =>
      left
      intro b' hb'
      cases hquic.symm.trans hb'
      exact hrejected

theorem refuse_ordered {d : Datagram} {w : Work} (h : Ordered [d.number] route)
    (hquic : route.quic = some b) (hfeeds : Feeds d b c false w) :
    Ordered [d.number] { route with
      quic := some w.bridge
      out := route.out ++ sent .engine w.handed } := by
  have hpending : pending route = b.initial := by simp [pending, hquic]
  obtain ⟨hnone, hinitial, hrejected⟩ := hfeeds.refuses rfl
  have hlined := h.lined
  have honce := h.once
  rw [hpending] at hlined honce
  refine ⟨?_, ?_, ?_⟩
  · rintro b' ⟨⟩
    exact ⟨hfeeds.sound, hfeeds.settled⟩
  · simp only [hnone, sent, List.map_nil, List.append_nil, pending, hinitial]
    apply hlined.imp
    intro hadmitting
    simp [hadmitting w.bridge rfl] at hrejected
  · simpa [hnone, sent, pending, hinitial] using honce

theorem feed_balanced {d : Datagram} {kept : Bool} {w : Work} {out : List Sent}
    (hquic : route.quic = some b) (hfeeds : Feeds d b c kept w) :
    Balanced route c
      ({ route with quic := some w.bridge, out := out }, w.counters) := by
  refine ⟨?_, hfeeds.limit⟩
  simp [without, hquic, hfeeds.others]

theorem feedRoute_spec {d : Datagram} (h : Ordered [d.number] route)
    (hn : route.arrived = d.number + 1) (hquic : route.quic = some b)
    (hlength : d.data.length ≤ maxDatagram) :
    Ordered [] (feedRoute env route b c d).1 ∧
      Balanced route c (feedRoute env route b c d) := by
  have hfeeds : Feeds d b c (feed env d ⟨b, c, []⟩).1 (feed env d ⟨b, c, []⟩).2 :=
    feed_feeds (h.bridge b hquic).1 hlength
  unfold feedRoute
  generalize feed env d ⟨b, c, []⟩ = result at hfeeds
  obtain ⟨kept, w⟩ := result
  simp only at hfeeds ⊢
  have hfed := @feed_balanced route b c d kept w
    (route.out ++ sent .engine w.handed) hquic hfeeds
  cases kept with
  | true =>
    have hordered := feed_ordered h hn hquic hfeeds
    obtain ⟨hpumped, hbalanced⟩ := @pumpQuic_spec env _ _ w.counters hordered
    exact ⟨hpumped, hfed.trans hbalanced⟩
  | false =>
    have hordered := refuse_ordered h hquic hfeeds
    obtain ⟨hpumped, hbalanced, hrejects⟩ :=
      @pumpBridge_spec env _ _ w.bridge w.counters hordered rfl
    have hrejected := hrejects (hfeeds.refuses rfl).2.2
    have harrived := @pumpQuic_arrived env { route with
      quic := some w.bridge
      out := route.out ++ sent .engine w.handed } w.counters
    simp only [pumpQuic] at harrived ⊢
    refine ⟨passOn_ordered hpumped (harrived.trans hn) ?_, ?_⟩
    · intro hsome hadmitting
      cases hquic' : (pumpBridge env { route with
          quic := some w.bridge
          out := route.out ++ sent .engine w.handed } w.bridge
            w.counters).1.quic with
      | none => simp [pending, hquic'] at hsome
      | some b' =>
        have hr := hrejected b' hquic'
        simp [hadmitting b' hquic'] at hr
    · exact ⟨hbalanced.without.trans hfed.without,
        fun hc => hbalanced.limit (hfed.limit hc)⟩

theorem fresh_sound (compat : Compatibility) : Sound (fresh compat) :=
  ⟨rfl, by simp [fresh], by simp [fresh], by simp [fresh]⟩

theorem openBridge_spec {opening : Opening} {d : Datagram}
    (hlength : d.data.length ≤ maxDatagram) :
    (∃ w : Work, openBridge env opening d c = (some w.bridge, w.counters, w.handed) ∧
      Sound w.bridge ∧ Settled w.bridge ∧ w.bridge.rejected = false ∧
      others w.bridge w.counters = c ∧
      (c.initialBytes ≤ initialByteLimit →
        w.counters.initialBytes ≤ initialByteLimit) ∧
      w.handed ++ w.bridge.initial = [d]) ∨
    ∃ handed, openBridge env opening d c = (none, c, handed) := by
  unfold openBridge
  split
  · exact Or.inr ⟨_, rfl⟩
  · split
    · exact Or.inr ⟨_, rfl⟩
    · split
      · exact Or.inr ⟨_, rfl⟩
      · split
        · exact Or.inr ⟨_, rfl⟩
        · simp only
          generalize hc : ({ c with
            quicBridges := c.quicBridges + 1
            admissions := c.admissions + 1 } : Counters) = c'
          have hothers : others (fresh opening.lookup) c' = c := by
            rw [← hc]
            simp [others, slot, fresh]
          have hlimit : c'.initialBytes = c.initialBytes := by rw [← hc]
          split
          · exact Or.inr ⟨_, by rw [destroy_eq_others, hothers]⟩
          · have hfeeds : Feeds d (fresh opening.lookup) c'
                (feed env d ⟨fresh opening.lookup, c', []⟩).1
                (feed env d ⟨fresh opening.lookup, c', []⟩).2 :=
              feed_feeds (fresh_sound _) hlength
            generalize feed env d ⟨fresh opening.lookup, c', []⟩ = result at hfeeds
            obtain ⟨kept, w⟩ := result
            simp only at hfeeds ⊢
            split
            · exact Or.inr ⟨_, by
                rw [destroy_eq_others, hfeeds.others, hothers]⟩
            · rename_i hopened
              simp only [Bool.or_eq_true, not_or, Bool.not_eq_true] at hopened
              have hkept : kept = true := by
                by_contra hkept
                have hr := (hfeeds.refuses (by simpa using hkept)).2.2
                simp [hopened.1] at hr
              exact Or.inl ⟨w, rfl, hfeeds.sound, hfeeds.settled, hopened.1,
                hfeeds.others.trans hothers, by rw [← hlimit]; exact hfeeds.limit,
                hfeeds.keeps hkept⟩

theorem Ordered.of_fields {route' : Route} (h : Ordered hand route)
    (hquic : route'.quic = route.quic) (hout : route'.out = route.out)
    (hlate : route'.late = route.late) (harrived : route'.arrived = route.arrived) :
    Ordered hand route' := by
  cases route'
  cases hquic
  cases hout
  cases hlate
  cases harrived
  exact ⟨h.bridge, h.lined, h.once⟩

theorem openRoute_spec {opening : Opening} {d : Datagram}
    (h : Ordered [d.number] route) (hn : route.arrived = d.number + 1)
    (hquic : route.quic = none) (hlength : d.data.length ≤ maxDatagram) :
    Ordered [] (openRoute env opening route c d).1 ∧
      Balanced route c (openRoute env opening route c d) := by
  have hpending : pending route = [] := by simp [pending, hquic]
  unfold openRoute
  obtain ⟨w, hopen, hsound, hsettled, hadmitting, hothers, hlimit, hkept⟩ |
    ⟨handed, hopen⟩ := @openBridge_spec env c opening d hlength
  · simp only [hopen]
    have hordered : Ordered [] { route with
        firstDatagramLogged := true
        quic := some w.bridge
        out := route.out ++ sent .engine w.handed } := by
      have hlogged : Ordered [d.number] { route with firstDatagramLogged := true } :=
        h.of_fields rfl rfl rfl rfl
      apply join_ordered hlogged hn hsound hsettled
      · rw [hkept]
        simp [pending, hquic]
      · left
        intro b hb
        simp [hquic] at hb
    obtain ⟨hpumped, hbalanced⟩ := @pumpQuic_spec env _ _ w.counters hordered
    refine ⟨hpumped, hbalanced.without.trans ?_, fun hc => hbalanced.limit (hlimit hc)⟩
    simp [without, hquic, hothers]
  · simp only [hopen]
    have hordered : Ordered [d.number] { route with firstDatagramLogged := true } :=
      h.of_fields rfl rfl rfl rfl
    refine ⟨passOn_ordered hordered hn ?_, ?_, id⟩
    · intro hsome
      exact absurd hpending hsome
    · simp [without, passOn, hquic]

theorem admitDatagram_spec {opening : Opening} {d : Datagram}
    (h : Ordered [d.number] route) (hn : route.arrived = d.number + 1)
    (hlength : d.data.length ≤ maxDatagram) :
    Ordered [] (admitDatagram env opening route c d).1 ∧
      Balanced route c (admitDatagram env opening route c d) := by
  unfold admitDatagram
  split
  · exact ⟨late_ordered h, rfl, id⟩
  · simp only
    generalize hroute : (if route.quicRetired then
      { route with quicRetired := false, firstDatagramLogged := false }
      else route) = route'
    have hsame : route'.quic = route.quic ∧ route'.arrived = route.arrived ∧
        Ordered [d.number] route' := by
      rw [← hroute]
      split
      · exact ⟨rfl, rfl, h.of_fields rfl rfl rfl rfl⟩
      · exact ⟨rfl, rfl, h⟩
    obtain ⟨hquic, harrived, hordered⟩ := hsame
    have hwithout : without route' c = without route c := by
      simp only [without, hquic]
    have hn' : route'.arrived = d.number + 1 := harrived.trans hn
    split
    · rename_i b hb
      obtain ⟨hfed, hbalanced⟩ := @feedRoute_spec env route' b c d hordered hn' hb hlength
      exact ⟨hfed, hbalanced.without.trans hwithout, hbalanced.limit⟩
    · rename_i hnone
      split
      · refine ⟨passOn_ordered hordered hn' ?_, hwithout, id⟩
        intro hsome
        exact absurd (by simp [pending, hnone]) hsome
      · obtain ⟨hopened, hbalanced⟩ :=
          @openRoute_spec env route' c opening d hordered hn' hnone hlength
        exact ⟨hopened, hbalanced.without.trans hwithout, hbalanced.limit⟩

private theorem arrival_ordered (h : Ordered [] route) :
    Ordered [route.arrived] { route with arrived := route.arrived + 1 } := by
  refine ⟨h.bridge, h.lined, ?_⟩
  have honce := h.once
  rw [List.append_nil] at honce
  rw [List.range_succ]
  exact honce.append_right _

theorem forwardClientDatagram_spec {first : Env} {opening : Opening}
    {data : Bytes} (h : Ordered [] route) (hlength : data.length ≤ maxDatagram) :
    Ordered [] (forwardClientDatagram env first opening route c data).1 ∧
      Balanced route c (forwardClientDatagram env first opening route c data) := by
  obtain ⟨hpumped, hbalanced⟩ := @pumpQuic_spec first _ _ c (arrival_ordered h)
  have harrived := @pumpQuic_arrived first
    { route with arrived := route.arrived + 1 } c
  obtain ⟨hadmitted, hbalanced'⟩ := @admitDatagram_spec env _
    (pumpQuic first { route with arrived := route.arrived + 1 } c).2 opening
    ⟨route.arrived, data⟩ hpumped harrived hlength
  exact ⟨hadmitted, hbalanced'.without.trans hbalanced.without,
    fun hc => hbalanced'.limit (hbalanced.limit hc)⟩

theorem onWake_spec (h : Ordered [] route) :
    Ordered [] (onWake env route c).1 ∧ Balanced route c (onWake env route c) := by
  unfold onWake
  split
  · rename_i b hquic
    obtain ⟨hsound, -⟩ := h.bridge b hquic
    obtain ⟨hopens, hsettled⟩ := @tryOpen_opens env ⟨b, c, []⟩ hsound
    simp only
    generalize tryOpen env ⟨b, c, []⟩ = w at hopens hsettled
    have hpending : pending route = b.initial := by simp [pending, hquic]
    have hqueue : w.handed ++ w.bridge.initial = b.initial := by
      simpa using hopens.queue
    have hordered : Ordered [] { route with
        quic := some w.bridge
        out := route.out ++ sent .engine w.handed } := by
      have hlined := h.lined
      have honce := h.once
      rw [hpending] at hlined honce
      apply handOver_ordered hlined honce hopens.sound hsettled hqueue
      cases hrejected : b.rejected with
      | true =>
        obtain ⟨hrejected', hnone, -⟩ := hopens.rejected hrejected
        exact Or.inr ⟨hnone, hrejected'⟩
      | false =>
        left
        intro b' hb'
        cases hquic.symm.trans hb'
        exact hrejected
    obtain ⟨hpumped, hbalanced⟩ := @pumpQuic_spec env _ _ w.counters hordered
    refine ⟨hpumped, hbalanced.without.trans ?_,
      fun hc => hbalanced.limit (hopens.limit.trans hc)⟩
    simp [without, hquic, hopens.others]
  · exact ⟨h, rfl, id⟩

theorem setEngine_spec (toClient toServer : List Bytes) (closed : Bool)
    (h : Ordered [] route) :
    Ordered [] (setEngine toClient toServer closed route c).1 ∧
      Balanced route c (setEngine toClient toServer closed route c) := by
  unfold setEngine
  split
  · rename_i b hquic
    split
    · obtain ⟨hsound, hsettled⟩ := h.bridge b hquic
      have hlined := h.lined
      have honce := h.once
      have hpending : pending route = b.initial := by simp [pending, hquic]
      rw [hpending] at hlined honce
      refine ⟨⟨?_, ?_, honce⟩, by simp [without, hquic, others, slot], id⟩
      · rintro b' ⟨⟩
        exact ⟨⟨hsound.bytes, hsound.opened, hsound.slot, hsound.lengths⟩, hsettled⟩
      · apply hlined.imp
        intro hadmitting b' hb'
        cases hquic.symm.trans hb'
        exact hadmitting { b with toClient, toServer, closed } rfl
    · exact ⟨h, rfl, id⟩
  · exact ⟨h, rfl, id⟩

/-! ## The process -/

def routeBytes (route : Route) : Nat :=
  match route.quic with
  | some b => b.bytes
  | none => 0

def routeBridges (route : Route) : Nat :=
  match route.quic with
  | some _ => 1
  | none => 0

def routeSlots (route : Route) : Nat :=
  match route.quic with
  | some b => if b.admissionSlot then 1 else 0
  | none => 0

structure Conserved (s : State) : Prop where
  bytes : s.counters.initialBytes = s.routes.total routeBytes
  bridges : s.counters.quicBridges = s.routes.total routeBridges
  slots : s.counters.admissions = s.routes.total routeSlots
  limit : s.counters.initialBytes ≤ initialByteLimit
  routes : ∀ id route, s.routes.get? id = some route → Ordered [] route

theorem without_eq (route : Route) (c : Counters) :
    without route c = ⟨c.initialBytes - routeBytes route,
      c.quicBridges - routeBridges route, c.admissions - routeSlots route⟩ := by
  cases hquic : route.quic with
  | none => simp [without, routeBytes, routeBridges, routeSlots, hquic]
  | some b =>
    simp only [without, routeBytes, routeBridges, routeSlots, hquic, others, slot]
    split <;> simp

variable {s : State}

theorem Conserved.atRoute (h : Conserved s) {id : Nat}
    {f : Route → Counters → Route × Counters}
    (hf : ∀ route, Ordered [] route → Ordered [] (f route s.counters).1 ∧
      Balanced route s.counters (f route s.counters)) :
    Conserved (atRoute s id f) := by
  unfold QuicBridge.atRoute
  split
  · rename_i route hroute
    obtain ⟨hordered, hbalanced⟩ := hf route (h.routes id route hroute)
    simp only
    generalize f route s.counters = result at hordered hbalanced
    have hwithout := hbalanced.without
    rw [without_eq, without_eq, Counters.mk.injEq] at hwithout
    obtain ⟨hbytes, hbridges, hslots⟩ := hwithout
    have htotal : ∀ measure : Route → Nat,
        (s.routes.modify id fun _ => result.1).total measure + measure route =
          s.routes.total measure + measure result.1 :=
      fun measure => Table.total_modify measure (fun _ => result.1) hroute
    have hb := htotal routeBytes
    have hq := htotal routeBridges
    have ha := htotal routeSlots
    have hbytes' := h.bytes
    have hbridges' := h.bridges
    have hslots' := h.slots
    refine ⟨by simp only; omega, by simp only; omega, by simp only; omega,
      hbalanced.limit h.limit, ?_⟩
    intro id' route' hroute'
    simp only [Table.get?_modify] at hroute'
    split at hroute'
    · rename_i hid
      rw [hid, hroute] at hroute'
      cases hroute'
      exact hordered
    · exact h.routes id' route' hroute'
  · exact h

theorem start_ordered : Ordered [] .start := by
  refine ⟨by simp [Route.start], ⟨by simp [Route.start], by simp [pending, Route.start],
    by simp [Route.start], by simp [Route.start]⟩, by simp [Route.start, pending]⟩

theorem Conserved.add (h : Conserved s) (id : Nat) :
    Conserved (step s (.add id)) := by
  simp only [step]
  split
  · rename_i hnew
    have hkey := Table.get?_eq_none_iff.1 hnew
    have htotal : ∀ measure : Route → Nat, measure .start = 0 →
        (s.routes.insert id .start).total measure = s.routes.total measure := by
      intro measure hzero
      rw [Table.total_insert measure _ hkey, hzero, Nat.zero_add]
    refine ⟨?_, ?_, ?_, h.limit, ?_⟩
    · simp only [htotal routeBytes rfl, h.bytes]
    · simp only [htotal routeBridges rfl, h.bridges]
    · simp only [htotal routeSlots rfl, h.slots]
    · intro id' route' hroute'
      simp only [Table.get?_insert] at hroute'
      split at hroute'
      · cases hroute'
        exact start_ordered
      · exact h.routes id' route' hroute'
  · exact h

theorem Conserved.remove (h : Conserved s) (id : Nat) :
    Conserved (step s (.remove id)) := by
  simp only [step]
  split
  · rename_i route hroute
    have hcounters : closeRoute route s.counters = without route s.counters := by
      cases hquic : route.quic with
      | none => simp [closeRoute, without, hquic]
      | some b => simp [closeRoute, without, hquic, destroy_eq_others]
    rw [hcounters, without_eq]
    have hb := Table.total_erase routeBytes hroute
    have hq := Table.total_erase routeBridges hroute
    have ha := Table.total_erase routeSlots hroute
    have hbytes := h.bytes
    have hbridges := h.bridges
    have hslots := h.slots
    have hlimit := h.limit
    refine ⟨by simp only; omega, by simp only; omega, by simp only; omega,
      by simp only; omega, ?_⟩
    intro id' route' hroute'
    simp only [Table.get?_erase] at hroute'
    split at hroute'
    · cases hroute'
    · exact h.routes id' route' hroute'
  · exact h

theorem Conserved.step (h : Conserved s) (e : Event) : Conserved (step s e) := by
  cases e with
  | add id => exact h.add id
  | remove id => exact h.remove id
  | client id data first second opening =>
    simp only [QuicBridge.step]
    split
    · rename_i hlength
      apply h.atRoute
      intro route hroute
      exact forwardClientDatagram_spec hroute hlength
    · exact h
  | server id env => exact h.atRoute fun _ hroute => pumpQuic_spec hroute
  | writable id env => exact h.atRoute fun _ hroute => pumpQuic_spec hroute
  | wake id env => exact h.atRoute fun _ hroute => onWake_spec hroute
  | engine id toClient toServer closed =>
    exact h.atRoute fun _ hroute => setEngine_spec toClient toServer closed hroute

theorem conserved_run (events : List Event) :
    Conserved (run step .start events) := by
  have hstep : ∀ s e, Conserved s → Conserved (step s e) := fun _ e h => h.step e
  have hstart : Conserved .start :=
    ⟨rfl, rfl, rfl, by decide, by simp [State.start]⟩
  exact run_induction hstep hstart events

/-! ## Rejected bridges -/

theorem drain_client_closed {takes : Nat → Bool} {w : Drain}
    (hclosed : w.bridge.handle = false) :
    drain .client takes n w = w := by
  cases n with
  | zero => rfl
  | succ n => simp [drain, peek, hclosed]

theorem drain_server_willing {takes : Nat → Bool} {w : Drain}
    (hclosed : w.bridge.handle = false) (hrejected : w.bridge.rejected = true)
    (hdata : ∀ d ∈ w.bridge.initial, d.data ≠ [] ∧ d.data.length ≤ 65536)
    (htakes : ∀ i, takes i = true) :
    (drain .server takes n w).passed = w.passed ++ w.bridge.initial.take n ∧
      (drain .server takes n w).bridge.initial = w.bridge.initial.drop n ∧
      (drain .server takes n w).bridge.handle = false ∧
      (drain .server takes n w).bridge.rejected = true := by
  induction n generalizing w with
  | zero => simp [drain, hclosed, hrejected]
  | succ n ih =>
    cases hinitial : w.bridge.initial with
    | nil => simp [drain, peek, hclosed, hinitial, hrejected]
    | cons d rest =>
      have hd := hdata d (by simp [hinitial])
      have hpeek : peek w.bridge .server ≠ [] := by
        simp [peek, hclosed, hinitial, hrejected, hd.1, hd.2]
      have hrest : ∀ x ∈ rest, x.data ≠ [] ∧ x.data.length ≤ 65536 :=
        fun x hx => hdata x (by simp [hinitial, hx])
      simp only [drain, hpeek, if_false, htakes, if_true]
      have hnext : consume .server w =
          { bridge := { w.bridge with
              bytes := w.bridge.bytes - d.data.length
              initial := rest }
            counters := { w.counters with
              initialBytes := w.counters.initialBytes - d.data.length }
            passed := w.passed ++ [d] } := by
        simp [consume, hclosed, hinitial]
      rw [hnext]
      obtain ⟨hpassed, hleft, hclosed', hrejected'⟩ := @ih
        { bridge := { w.bridge with
            bytes := w.bridge.bytes - d.data.length
            initial := rest }
          counters := { w.counters with
            initialBytes := w.counters.initialBytes - d.data.length }
          passed := w.passed ++ [d] } hclosed hrejected hrest
      exact ⟨by simp [hpassed], by simp [hleft], hclosed', hrejected'⟩

theorem pumpQuic_willing (hquic : route.quic = some b)
    (hclosed : b.handle = false) (hrejected : b.rejected = true)
    (hdata : ∀ d ∈ b.initial, d.data ≠ [] ∧ d.data.length ≤ 65536)
    (htakes : ∀ i, env.takes i = true) :
    if b.initial.length ≤ 64 then
      (pumpQuic env route c).1 = { route with
        quic := none, quicRetired := false,
        out := route.out ++ sent .queued b.initial }
    else
      ∃ b', (pumpQuic env route c).1 = { route with
          quic := some b', out := route.out ++ sent .queued (b.initial.take 64) } ∧
        b'.initial = b.initial.drop 64 ∧ b'.handle = false ∧
        b'.rejected = true := by
  have hclient : drain .client env.delivers 64 ⟨b, c, []⟩ = ⟨b, c, []⟩ :=
    drain_client_closed hclosed
  obtain ⟨hpassed, hleft, hclosed', hrejected'⟩ :=
    @drain_server_willing 64 env.takes ⟨b, c, []⟩ hclosed hrejected hdata htakes
  simp only [pumpQuic, hquic, pumpBridge, hclient]
  generalize drain .server env.takes 64 ⟨b, c, []⟩ = w at *
  simp only [List.nil_append] at hpassed
  split
  · rename_i hlength
    have hempty : w.bridge.initial = [] := by
      simp [hleft, hlength]
    have hall : w.passed = b.initial := by
      simp [hpassed, List.take_of_length_le hlength]
    simp [isDrained, hclosed', hrejected', hempty, hall]
  · rename_i hlength
    have hsome : w.bridge.initial ≠ [] := by
      simp only [hleft, ne_eq, List.drop_eq_nil_iff]
      omega
    have hnot : isDrained w.bridge = false := by
      simp [isDrained, hclosed', hsome]
    simp only [hnot, Bool.false_eq_true, if_false, hpassed]
    exact ⟨w.bridge, rfl, hleft, hclosed', hrejected'⟩

theorem writable_none {id : Nat} {envs : List Env}
    (hroute : s.routes.get? id = some route) (hquic : route.quic = none) :
    (run step s (envs.map (.writable id))).routes.get? id = some route := by
  induction envs generalizing s with
  | nil => exact hroute
  | cons e envs ih =>
    apply ih
    simp [step, atRoute, hroute, pumpQuic, hquic, Table.get?_modify]

theorem writable_drains {id : Nat} {envs : List Env}
    (hroute : s.routes.get? id = some route) (hquic : route.quic = some b)
    (hclosed : b.handle = false) (hrejected : b.rejected = true)
    (hdata : ∀ d ∈ b.initial, d.data ≠ [] ∧ d.data.length ≤ 65536)
    (hwilling : ∀ e ∈ envs, ∀ i, e.takes i = true) (hsome : envs ≠ [])
    (hlength : b.initial.length ≤ 64 * envs.length) :
    (run step s (envs.map (.writable id))).routes.get? id =
      some { route with
        quic := none, quicRetired := false,
        out := route.out ++ sent .queued b.initial } := by
  induction envs generalizing s route b with
  | nil => exact absurd rfl hsome
  | cons e envs ih =>
    have hpump := @pumpQuic_willing e route b s.counters hquic hclosed hrejected
      hdata (hwilling e (List.mem_cons_self ..))
    have hnext : (step s (.writable id e)).routes.get? id =
        some (pumpQuic e route s.counters).1 := by
      simp [step, atRoute, hroute, Table.get?_modify]
    simp only [List.map_cons, run_cons]
    split at hpump
    · rw [hpump] at hnext
      exact writable_none hnext rfl
    · rename_i hmany
      obtain ⟨b', hresult, hleft, hclosed', hrejected'⟩ := hpump
      rw [hresult] at hnext
      have hmore : envs ≠ [] := by
        rintro rfl
        simp at hlength
        omega
      have hrest := ih hnext rfl hclosed' hrejected'
        (fun d hd => hdata d (List.mem_of_mem_drop (hleft ▸ hd)))
        (fun e' he' => hwilling e' (List.mem_cons_of_mem _ he')) hmore (by
          simp only [hleft, List.length_drop, List.length_cons] at *
          omega)
      rw [hrest, hleft]
      simp only [sent, List.append_assoc, ← List.map_append, List.take_append_drop]

/-! ## Exceptions -/

theorem pumpQuic_fields :
    (pumpQuic env route c).1.late = route.late ∧
      ∀ x ∈ (pumpQuic env route c).1.out, x.way = .ahead → x ∈ route.out := by
  unfold pumpQuic
  split
  · unfold pumpBridge
    simp only
    split <;>
    · refine ⟨rfl, ?_⟩
      intro x hx hahead
      obtain hx | hx := List.mem_append.1 hx
      · exact hx
      · obtain ⟨d, -, rfl⟩ := List.mem_map.1 hx
        simp at hahead
  · exact ⟨rfl, fun x hx _ => hx⟩

theorem engine_not_ahead {out : List Sent} {ds : List Datagram} {x : Sent}
    (hx : x ∈ out ++ sent .engine ds) (hahead : x.way = .ahead) : x ∈ out := by
  obtain hx | hx := List.mem_append.1 hx
  · exact hx
  · obtain ⟨d, -, rfl⟩ := List.mem_map.1 hx
    simp at hahead

theorem passOn_direct {d : Datagram} (hquic : route.quic = none) {x : Sent}
    (hx : x ∈ (passOn route d).out) (hahead : x.way = .ahead) :
    x ∈ route.out := by
  obtain hx | hx := List.mem_append.1 hx
  · exact hx
  · rw [List.mem_singleton.1 hx] at hahead
    simp [pending, hquic] at hahead

theorem admitDatagram_exceptions {opening : Opening} {d : Datagram} :
    ((admitDatagram env opening route c d).1.late = route.late ∨
      (route.quicRetired = true ∧ isInitial d.data = false)) ∧
    ∀ x ∈ (admitDatagram env opening route c d).1.out, x.way = .ahead →
      x ∈ route.out ∨ ∃ b, route.quic = some b ∧
        (feed env d ⟨b, c, []⟩).1 = false := by
  unfold admitDatagram
  split
  · rename_i hlate
    simp only [Bool.and_eq_true, Bool.not_eq_true'] at hlate
    exact ⟨Or.inr hlate, fun x hx _ => Or.inl hx⟩
  · simp only
    generalize hroute : (if route.quicRetired then
      { route with quicRetired := false, firstDatagramLogged := false }
      else route) = route'
    have hsame : route'.quic = route.quic ∧ route'.late = route.late ∧
        route'.out = route.out := by
      rw [← hroute]
      split <;> exact ⟨rfl, rfl, rfl⟩
    obtain ⟨hquic, hlate, hout⟩ := hsame
    rw [← hquic, ← hlate, ← hout]
    split
    · rename_i b hb
      unfold feedRoute
      generalize hfeed : feed env d ⟨b, c, []⟩ = result
      obtain ⟨kept, w⟩ := result
      simp only
      obtain ⟨hlate', hout'⟩ := @pumpQuic_fields env
        { route' with
          quic := some w.bridge
          out := route'.out ++ sent .engine w.handed } w.counters
      cases kept with
      | true =>
        refine ⟨Or.inl hlate', ?_⟩
        intro x hx hahead
        exact Or.inl (engine_not_ahead (hout' x hx hahead) hahead)
      | false => exact ⟨Or.inl hlate', fun _ _ _ => Or.inr ⟨b, hb, by rw [hfeed]⟩⟩
    · rename_i hnone
      split
      · exact ⟨Or.inl rfl, fun x hx hahead => Or.inl (passOn_direct hnone hx hahead)⟩
      · unfold openRoute
        simp only
        split
        · rename_i b c' handed hopen
          obtain ⟨hlate', hout'⟩ := @pumpQuic_fields env
            { route' with
              firstDatagramLogged := true
              quic := some b
              out := route'.out ++ sent .engine handed } c'
          refine ⟨Or.inl hlate', ?_⟩
          intro x hx hahead
          exact Or.inl (engine_not_ahead (hout' x hx hahead) hahead)
        · exact ⟨Or.inl rfl,
            fun x hx hahead => Or.inl (passOn_direct hnone hx hahead)⟩

/-- A client's datagram is late only on the route of a retired bridge, and is
passed on ahead of others only where the bridge refuses it. -/
theorem forwardClientDatagram_exceptions {first : Env} {opening : Opening}
    {data : Bytes} :
    let middle := pumpQuic first { route with arrived := route.arrived + 1 } c
    let result := (forwardClientDatagram env first opening route c data).1
    (result.late = route.late ∨
      (middle.1.quicRetired = true ∧ isInitial data = false)) ∧
    ∀ x ∈ result.out, x.way = .ahead → x ∈ route.out ∨
      ∃ b, middle.1.quic = some b ∧
        (feed env ⟨route.arrived, data⟩ ⟨b, middle.2, []⟩).1 = false := by
  obtain ⟨hlate, hout⟩ := @pumpQuic_fields first
    { route with arrived := route.arrived + 1 } c
  obtain ⟨hlate', hout'⟩ := @admitDatagram_exceptions env
    (pumpQuic first { route with arrived := route.arrived + 1 } c).1
    (pumpQuic first { route with arrived := route.arrived + 1 } c).2 opening
    ⟨route.arrived, data⟩
  constructor
  · exact hlate'.imp_left fun h => h.trans hlate
  · intro x hx hahead
    exact (hout' x hx hahead).imp_left fun hx => hout x hx hahead

/-! ## Runs -/

/-- In every state: the counters are the sums over the bridges, within the
limit, and a bridge has its slot while it is neither opened nor rejected; every
datagram of a route has left once, waits in the queue, or was late on a retired
bridge's route; they leave in order, apart from those the bridge refuses; and
repeated drains with a willing server end a rejected bridge that keeps no empty
datagram. -/
theorem admission_conserves (events : List Event) :
    let s := run step .start events
    (s.counters.initialBytes = s.routes.total routeBytes ∧
      s.counters.initialBytes ≤ initialByteLimit ∧
      s.counters.quicBridges = s.routes.total routeBridges ∧
      s.counters.admissions = s.routes.total routeSlots) ∧
    ∀ id route, s.routes.get? id = some route →
      (∀ b, route.quic = some b → b.bytes = size b.initial ∧
        b.admissionSlot = (!b.handle && !b.rejected)) ∧
      (route.out.map Sent.number ++ (pending route).map Datagram.number ++
        route.late).Perm (List.range route.arrived) ∧
      (route.out.Pairwise Before ∧
        ((pending route).map Datagram.number).Pairwise (· < ·) ∧
        ∀ d ∈ pending route, ∀ x ∈ route.out, x.number < d.number ∨ x.way = .ahead) ∧
      (∀ first second opening data,
        let middle := pumpQuic first { route with arrived := route.arrived + 1 }
          s.counters
        let result := (forwardClientDatagram second first opening route s.counters
          data).1
        (result.late = route.late ∨
          (middle.1.quicRetired = true ∧ isInitial data = false)) ∧
        ∀ x ∈ result.out, x.way = .ahead → x ∈ route.out ∨
          ∃ b, middle.1.quic = some b ∧
            (feed second ⟨route.arrived, data⟩ ⟨b, middle.2, []⟩).1 = false) ∧
      ∀ b envs, route.quic = some b → b.rejected = true →
        (∀ d ∈ b.initial, d.data ≠ []) →
        (∀ e ∈ envs, ∀ i, e.takes i = true) → envs ≠ [] →
        b.initial.length ≤ 64 * envs.length →
        (run step s (envs.map (.writable id))).routes.get? id =
          some { route with
            quic := none, quicRetired := false,
            out := route.out ++ sent .queued b.initial } := by
  have h := conserved_run events
  refine ⟨⟨h.bytes, h.limit, h.bridges, h.slots⟩, ?_⟩
  intro id route hroute
  have hordered := h.routes id route hroute
  refine ⟨?_, ?_, ⟨hordered.lined.order, hordered.lined.sorted, ?_⟩, ?_, ?_⟩
  · intro b hquic
    obtain ⟨hsound, hsettled⟩ := hordered.bridge b hquic
    exact ⟨hsound.bytes, hsettled⟩
  · simpa using hordered.once
  · intro d hd
    exact hordered.lined.after d.number (List.mem_map_of_mem hd)
  · intro first second opening data
    exact forwardClientDatagram_exceptions
  · intro b envs hquic hrejected hdata hwilling hsome hlength
    obtain ⟨hsound, -⟩ := hordered.bridge b hquic
    have hclosed : b.handle = false := by
      by_contra hopen
      have hadmitting := (hsound.opened (by simpa using hopen)).2.1
      simp [hrejected] at hadmitting
    apply writable_drains hroute hquic hclosed hrejected _ hwilling hsome hlength
    intro d hd
    have hmax := hsound.lengths d hd
    simp only [maxDatagram] at hmax
    exact ⟨hdata d hd, by omega⟩

def willingEnv : Env :=
  ⟨true, 0, 0, .ready, 1, 1, true, fun _ => true, fun _ => true⟩

def readyOpening : Opening := ⟨.ready, true, true, true⟩

def firstInitial : Bytes := [0xc0, 0, 0, 0, 1, 0, 0]

theorem late_datagram_dropped :
    (run step .start
      [.add 0, .client 0 firstInitial willingEnv willingEnv readyOpening,
        .engine 0 [] [] true, .writable 0 willingEnv,
        .client 0 [1, 2, 3] willingEnv willingEnv readyOpening]).routes.get? 0 =
      some ⟨none, true, true, 2, [⟨0, .engine⟩], [1]⟩ := by
  decide

end QuicBridge

end ProxyLane.Hook
