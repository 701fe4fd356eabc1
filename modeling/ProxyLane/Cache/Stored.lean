import ProxyLane.Cache.Prefix

/-!
# The owners' side of the flow, and whole runs

The steps of the producers keep the order of the bytes as the worker's do.
Over a whole run, what is stored is an initial part of what was offered, and it
never passes the first byte that was lost.
-/

namespace ProxyLane.Cache

open ProxyLane.Foundation ProxyLane.Protocol

section Producers

variable {config : CacheConfig} {s s' : State} {id : Nat} {side : Direction}

/-! ## Steps of one owner -/

structure Moves (s s' : State) (id : Nat) (side : Direction)
    (chunk : Bytes) : Prop where
  known : id < s.next
  same : SameWorker s s'
  next : s'.next = s.next
  line : s'.line = s.line ∨ s'.line = s.line ++ [.append id side chunk]
  tickets : ∀ j, j ≠ id → s'.tickets j = s.tickets j
  producers : ∀ j, j ≠ id → s'.producers j = s.producers j
  evicted : (s'.tickets id).state.evicted = (s.tickets id).state.evicted

namespace Moves

variable {chunk : Bytes}

theorem mem (hm : Moves s s' id side chunk) {c : Command} (hc : c ∈ s'.line) :
    c ∈ s.line ∨ c = .append id side chunk := by
  rcases hm.line with hline | hline
  · exact Or.inl (hline ▸ hc)
  · simpa [hline] using hc

theorem evicted_eq (hm : Moves s s' id side chunk) (j : Nat) :
    (s'.tickets j).state.evicted = (s.tickets j).state.evicted := by
  by_cases hj : j = id
  · exact hj ▸ hm.evicted
  · rw [hm.tickets j hj]

theorem live (hm : Moves s s' id side chunk) {j : Nat} (hl : s'.Live j) :
    s.Live j := by
  obtain ⟨hnot, w, hw, hrecord⟩ := hl
  refine ⟨hm.evicted_eq j ▸ hnot, w, hm.same.worker ▸ hw,
    hrecord.imp_right fun hmem => ?_⟩
  rcases hm.mem hmem with hmem | heq
  · exact hmem
  · cases heq

theorem file (hm : Moves s s' id side chunk) (j : Nat) (sd : Direction) :
    s'.file j sd = s.file j sd := by
  rw [State.file, hm.same.disk, ← State.file]

theorem waiting (hm : Moves s s' id side chunk) {j : Nat} {sd : Direction}
    (hne : ¬(j = id ∧ sd = side)) : s'.waiting j sd = s.waiting j sd := by
  rcases hm.line with hline | hline
  · exact waiting_congr hline j sd
  · have hnil : Command.bytes j sd (.append id side chunk) = [] :=
      if_neg fun hand => hne ⟨hand.1.symm, hand.2.symm⟩
    rw [State.waiting, hline, List.flatMap_append, ← State.waiting]
    simp [hnil]

theorem lineInv (hm : Moves s s' id side chunk) (h : LineInv s)
    (hunready : ¬(s.tickets id).Ready) : LineInv s' where
  known c hc j hj := by
    rw [hm.next]
    rcases hm.mem hc with hold | rfl
    · exact h.known c hold j hj
    · cases hj
      exact hm.known
  order := by
    rcases hm.line with hline | hline
    · exact hline ▸ h.order
    · rw [hline, List.pairwise_append]
      refine ⟨h.order, List.pairwise_singleton _ _, fun a _ b hb i _ => ?_⟩
      rw [List.mem_singleton] at hb
      simp [hb]
  callers j hj := by
    have := hm.known
    rw [hm.next] at hj
    rw [hm.producers j (by omega)]
    exact h.callers j hj
  fresh j hj := by
    have hold : s.next ≤ j ∨ .register j ∈ s.line := by
      rcases hj with hj | hj
      · exact Or.inl (hm.next ▸ hj)
      · exact Or.inr ((hm.mem hj).resolve_right nofun)
    rw [hm.same.disk, hm.same.worker]
    exact h.fresh j hold
  evicted j hj := by
    rw [hm.evicted_eq] at hj
    have hready := h.evicted j hj
    have hne : j ≠ id := fun heq => hunready (heq ▸ hready)
    rwa [hm.tickets j hne]
  busy w hw := h.busy w (hm.same.worker ▸ hw)

theorem other (hm : Moves s s' id side chunk) {j : Nat} (hj : j ≠ id)
    (sd : Direction) : SameSide s s' j sd where
  call := by rw [State.call, hm.producers j hj, ← State.call]
  offered := by rw [State.offered, hm.producers j hj, ← State.offered]
  accepted := by rw [State.accepted, hm.producers j hj, ← State.accepted]
  phase := by rw [hm.producers j hj]
  info := by rw [hm.tickets j hj]
  accepting hacc := hm.tickets j hj ▸ hacc

theorem flow (hm : Moves s s' id side chunk) (h : FlowInv s)
    (hunready : ¬(s.tickets id).Ready)
    (hother : SameSide s s' id side.other)
    (hlost : s'.lost id side.other = s.lost id side.other)
    (hside : SideInv s' id side) : FlowInv s' := by
  refine ⟨hm.lineInv h.line hunready, fun j sd => ?_⟩
  by_cases hhere : j = id ∧ sd = side
  · exact hhere.1 ▸ hhere.2 ▸ hside
  · refine (h.side j sd).frame ?_ (hm.waiting hhere) (Or.inl (hm.file j sd))
      hm.live ?_
    · by_cases hj : j = id
      · have hsd : sd = side.other := by
          cases sd <;> cases side <;> simp_all [Direction.other]
        exact hj ▸ hsd ▸ hother
      · exact hm.other hj sd
    · by_cases hj : j = id
      · have hsd : sd = side.other := by
          cases sd <;> cases side <;> simp_all [Direction.other]
        exact hj ▸ hsd ▸ hlost
      · rw [State.lost, hm.producers j hj, ← State.lost]

end Moves

theorem SideInv.file_le (h : SideInv s id side) :
    (s.file id side).length ≤ (s.accepted id side).length := by
  obtain ⟨done, hdone, hfile⟩ := h.queue
  rw [hdone, List.length_append]
  exact Nat.le_add_right_of_le hfile.length_le

theorem SideInv.move (h : SideInv s id side) (chunk : Bytes)
    (hfile : s'.file id side = s.file id side)
    (hlive : s'.Live id → s.Live id)
    (haccepted : s'.accepted id side = s.accepted id side ++ chunk)
    (hwaiting : s'.waiting id side = s.waiting id side ++ chunk)
    (hpre : s'.accepted id side <+: s'.offered id side)
    (hflow : s'.Flows id side)
    (hlost : ∀ k, s'.lost id side = some k →
      s.lost id side = some k ∧ (s'.Live id → chunk = [] ∧
        (s'.call id side).Stuck (s'.tickets id).accepting) ∨
      k = (s'.accepted id side).length ∧
        (s'.call id side).Stuck (s'.tickets id).accepting)
    (hinfo : (s'.producers id).phase ≠ .writing →
      ((s'.tickets id).info.get side).bytes = (s'.offered id side).length) :
    SideInv s' id side := by
  refine ⟨hpre, hflow, ?_, fun hl => ?_, fun k hk => ?_, hinfo⟩
  · obtain ⟨done, hdone, hpre⟩ := h.queue
    refine ⟨done, ?_, hfile ▸ hpre⟩
    rw [haccepted, hwaiting, hdone, List.append_assoc]
  · rw [haccepted, hfile, hwaiting, h.live (hlive hl), List.append_assoc]
  · rcases hlost k hk with ⟨hold, hstuck⟩ | ⟨rfl, hstuck⟩
    · obtain ⟨hle, hmax⟩ := h.lost k hold
      refine ⟨hfile ▸ hle, fun hl => ?_⟩
      obtain ⟨rfl, hstays⟩ := hstuck hl
      rw [haccepted, List.append_nil]
      exact ⟨(hmax (hlive hl)).1, hstays⟩
    · refine ⟨?_, fun _ => ⟨Nat.le_refl _, hstuck⟩⟩
      rw [hfile, haccepted, List.length_append]
      exact Nat.le_add_right_of_le h.file_le

theorem LineInv.known_of_call (h : LineInv s) (side : Direction)
    (hcall : (s.producers id).calls.get side ≠ .idle) : id < s.next := by
  by_contra hle
  rw [h.callers id (by omega)] at hcall
  cases side <;> exact hcall rfl

theorem EvictInv.unready (h : EvictInv config s)
    (hphase : (s.producers id).phase ≠ .finished) :
    ¬(s.tickets id).Ready :=
  fun hready => hready.1 (h.unfinished hphase)

@[simp] theorem call_setCall (s : State) (id : Nat) (side sd : Direction)
    (call : Call) : (s.setCall id side call).call id sd =
      if sd = side then call else s.call id sd := by
  simp [State.setCall, State.call, State.modifyProducer, Sides.get_set]

@[simp] theorem offered_setCall (s : State) (id : Nat) (side sd : Direction)
    (call : Call) :
    (s.setCall id side call).offered id sd = s.offered id sd := by
  simp [State.setCall, State.offered, State.modifyProducer]

@[simp] theorem accepted_setCall (s : State) (id : Nat) (side sd : Direction)
    (call : Call) :
    (s.setCall id side call).accepted id sd = s.accepted id sd := by
  simp [State.setCall, State.accepted, State.modifyProducer]

@[simp] theorem lost_setCall (s : State) (id : Nat) (side sd : Direction)
    (call : Call) : (s.setCall id side call).lost id sd = s.lost id sd := by
  simp [State.setCall, State.lost, State.modifyProducer]

@[simp] theorem tickets_setCall (s : State) (id : Nat) (side : Direction)
    (call : Call) : (s.setCall id side call).tickets = s.tickets := rfl

@[simp] theorem tickets_lose (s : State) (id : Nat) (side : Direction)
    (place : Nat) : (s.lose id side place).tickets = s.tickets := rfl

@[simp] theorem offered_modifyTicket (s : State) (id j : Nat)
    (f : Ticket → Ticket) (sd : Direction) :
    (s.modifyTicket id f).offered j sd = s.offered j sd := rfl

@[simp] theorem accepted_modifyTicket (s : State) (id j : Nat)
    (f : Ticket → Ticket) (sd : Direction) :
    (s.modifyTicket id f).accepted j sd = s.accepted j sd := rfl

@[simp] theorem lost_modifyTicket (s : State) (id j : Nat) (f : Ticket → Ticket)
    (sd : Direction) : (s.modifyTicket id f).lost j sd = s.lost j sd := rfl

@[simp] theorem tickets_modifyProducer (s : State) (id : Nat)
    (f : Producer → Producer) :
    (s.modifyProducer id f).tickets = s.tickets := rfl

theorem modifyTicket_ne (s : State) (f : Ticket → Ticket) {j : Nat}
    (hj : j ≠ id) : (s.modifyTicket id f).tickets j = s.tickets j := by
  simp [State.modifyTicket, alter, hj]

theorem modifyProducer_ne (s : State) (f : Producer → Producer) {j : Nat}
    (hj : j ≠ id) : (s.modifyProducer id f).producers j = s.producers j := by
  simp [State.modifyProducer, alter, hj]

theorem lose_onSide (s : State) (id : Nat) (side sd : Direction)
    (place : Nat) : SameSide s (s.lose id side place) id sd :=
  (SameOwner.lose s id side place id).onSide sd

theorem setCall_onSide (s : State) (id : Nat) (side : Direction)
    (call : Call) : SameSide s (s.setCall id side call) id side.other where
  call := by
    rw [call_setCall, if_neg]
    cases side <;> nofun
  offered := offered_setCall s id side _ call
  accepted := accepted_setCall s id side _ call
  phase := setCall_phase s id id side call
  info := rfl
  accepting h := h

theorem SameSide.trans {s'' : State} (h : SameSide s s' id side)
    (h' : SameSide s' s'' id side) : SameSide s s'' id side where
  call := h'.call.trans h.call
  offered := h'.offered.trans h.offered
  accepted := h'.accepted.trans h.accepted
  phase := h'.phase.trans h.phase
  info := h'.info.trans h.info
  accepting hacc := h.accepting (h'.accepting hacc)

/-! ## The calls of an owner -/

theorem SideInv.gaveUp (h : SideInv s id side)
    (hfile : s'.file id side = s.file id side)
    (hlive : s'.Live id → s.Live id)
    (haccepted : s'.accepted id side = s.accepted id side)
    (hwaiting : s'.waiting id side = s.waiting id side)
    (hoffered : s.offered id side <+: s'.offered id side)
    (hstuck : (s'.call id side).Stuck (s'.tickets id).accepting)
    (hlost : ∀ k, s'.lost id side = some k → s.lost id side = some k ∨
      k = (s.accepted id side).length)
    (hphase : (s'.producers id).phase = .writing) : SideInv s' id side := by
  refine h.move [] hfile hlive (by rw [haccepted, List.append_nil])
    (by rw [hwaiting, List.append_nil])
    (haccepted ▸ h.accepted.trans hoffered) ?_ (fun k hk => ?_)
    fun hne => absurd hphase hne
  · unfold State.Flows
    cases hcall : s'.call id side with
    | refused reason => exact Or.inl ⟨reason, rfl⟩
    | sending chunk rest =>
      rw [hcall] at hstuck
      exact hstuck.elim
    | idle =>
      rw [hcall] at hstuck
      exact Or.inr (Or.inl ⟨rfl, hstuck⟩)
    | chunks rest =>
      rw [hcall] at hstuck
      exact Or.inr (Or.inl ⟨rfl, hstuck⟩)
  · rcases hlost k hk with hold | hnew
    · exact Or.inl ⟨hold, fun _ => ⟨rfl, hstuck⟩⟩
    · exact Or.inr ⟨haccepted ▸ hnew, hstuck⟩

theorem refuse_flow (h : FlowInv s) (hevict : EvictInv config s) (id : Nat)
    (side : Direction) : FlowInv (s.refuse id side) := by
  have hsame := refuse_sameWorker s id side
  unfold State.refuse at hsame ⊢
  split
  case h_2 => exact h
  case h_1 reason hcall =>
    simp only [hcall] at hsame
    have hphase : (s.producers id).phase = .writing :=
      hevict.writing side (by simp [hcall])
    have hm : Moves s ((s.stopTicket id reason).setCall id side .idle) id side
        [] := by
      refine ⟨h.line.known_of_call side (by simp [hcall]), hsame,
        rfl, Or.inl rfl, fun j hj => ?_, fun j hj => ?_, ?_⟩
      · rw [tickets_setCall, State.stopTicket, modifyTicket_ne s _ hj]
      · exact modifyProducer_ne _ _ hj
      · simp [State.stopTicket, State.setCall, State.modifyTicket,
          State.modifyProducer, Ticket.stop]
    refine hm.flow h (hevict.unready (by simp [hphase]))
      (((SameOwner.stopTicket s id reason id).onSide _).trans
        (setCall_onSide _ id side .idle)) (by simp [State.stopTicket]) ?_
    refine (h.side id side).gaveUp (hm.file id side) hm.live
      (by simp [State.stopTicket]) rfl (by simp [State.stopTicket]) ?_
      (fun k hk => Or.inl ?_) ?_
    · rw [call_setCall, if_pos rfl]
      simp [Call.Stuck, State.stopTicket, State.setCall, State.modifyTicket,
        State.modifyProducer, Ticket.stop]
    · simpa [State.stopTicket] using hk
    · rw [setCall_phase]
      exact hphase

theorem lost_of_lose {t : State} {place k : Nat}
    (hsame : t.lost id side = s.lost id side)
    (hk : (t.lose id side place).lost id side = some k) :
    s.lost id side = some k ∨ k = place := by
  rw [lose_lost, hsame] at hk
  cases hprev : s.lost id side with
  | none =>
    rw [hprev] at hk
    exact Or.inr (Option.some.inj hk).symm
  | some k' =>
    rw [hprev] at hk
    exact Or.inl hk

theorem poll_flow (h : FlowInv s) (hevict : EvictInv config s) (id : Nat)
    (side : Direction) : FlowInv (s.poll id side) := by
  have hsame := poll_sameWorker s id side
  unfold State.poll at hsame ⊢
  split
  case h_3 => exact h
  case h_1 hcall =>
    simp only [hcall] at hsame
    have hphase : (s.producers id).phase = .writing :=
      hevict.writing side (by simp [hcall])
    have hm : Moves s (s.setCall id side .idle) id side [] :=
      ⟨h.line.known_of_call side (by simp [hcall]), hsame, rfl, Or.inl rfl,
        fun _ _ => rfl, fun j hj => modifyProducer_ne s _ hj, rfl⟩
    have hold := h.side id side
    refine hm.flow h (hevict.unready (by simp [hphase]))
      (setCall_onSide s id side .idle) (by simp) ?_
    refine hold.move [] (hm.file id side) hm.live (by simp)
      (by rw [List.append_nil]; rfl) (by simpa using hold.accepted) ?_
      (fun k hk => Or.inl ⟨by simpa using hk, fun hl => ⟨rfl, ?_⟩⟩)
      (fun hne => absurd ((setCall_phase s id id side _).trans hphase) hne)
    · have hflow := hold.flow
      unfold State.Flows at hflow ⊢
      change s.call id side = .chunks [] at hcall
      simpa [hcall, Call.owes, Call.rest] using hflow
    · obtain ⟨-, hstuck⟩ := (hold.lost k (by simpa using hk)).2 (hm.live hl)
      change s.call id side = .chunks [] at hcall
      rw [hcall] at hstuck
      rw [call_setCall, if_pos rfl]
      exact hstuck
  case h_2 chunk rest hcall =>
    simp only [hcall] at hsame
    have hphase : (s.producers id).phase = .writing :=
      hevict.writing side (by simp [hcall])
    have hknown : id < s.next := h.line.known_of_call side (by simp [hcall])
    have hunready : ¬(s.tickets id).Ready := hevict.unready (by simp [hphase])
    have hold := h.side id side
    change s.call id side = .chunks (chunk :: rest) at hcall
    split
    case isTrue hacc =>
      rw [if_pos hacc] at hsame
      have hm : Moves s ((s.modifyTicket id fun t =>
          { t with pending := t.pending + 1 }).setCall id side
            (.sending chunk rest)) id side [] := by
        refine ⟨hknown, hsame, rfl, Or.inl rfl, fun j hj => ?_,
          fun j hj => modifyProducer_ne _ _ hj, ?_⟩
        · rw [tickets_setCall, modifyTicket_ne s _ hj]
        · simp [State.modifyTicket]
      refine hm.flow h hunready (((SameOwner.modifyTicket s id
        (by intro _; rfl) (by intro _ h; exact h) id).onSide _).trans
        (setCall_onSide _ id side _)) (by simp) ?_
      refine hold.move [] (hm.file id side) hm.live (by simp)
        (by rw [List.append_nil]; rfl) (by simpa using hold.accepted) ?_
        (fun k hk => Or.inl ⟨by simpa using hk, fun hl => ?_⟩)
        (fun hne => absurd ((setCall_phase _ id id side _).trans hphase) hne)
      · -- an owner that is accepting is not behind
        refine Or.inr (Or.inr ?_)
        rcases hold.flow with ⟨reason, hrefused⟩ | ⟨-, hstop⟩ | hflow
        · simp [hcall] at hrefused
        · simp [hacc] at hstop
        · simpa [hcall, Call.rest] using hflow
      · obtain ⟨-, hstuck⟩ := (hold.lost k (by simpa using hk)).2 (hm.live hl)
        rw [hcall, hacc] at hstuck
        cases hstuck
    case isFalse hacc =>
      rw [if_neg hacc] at hsame
      have hm : Moves s ((s.setCall id side .idle).lose id side
          ((s.producers id).accepted.get side).length) id side [] := by
        refine ⟨hknown, hsame, rfl, Or.inl rfl, fun _ _ => rfl,
          fun j hj => ?_, rfl⟩
        rw [lose_producers_ne _ _ _ hj]
        exact modifyProducer_ne s _ hj
      have hlose := lose_onSide (s.setCall id side .idle) id side side
        ((s.producers id).accepted.get side).length
      refine hm.flow h hunready ((setCall_onSide s id side .idle).trans
        (lose_onSide _ id side _ _)) ?_ ?_
      · rw [lose_lost_other, lost_setCall]
      refine hold.gaveUp (hm.file id side) hm.live ?_ rfl ?_ ?_
        (fun k hk => lost_of_lose (lost_setCall s id side side _) hk) ?_
      · rw [hlose.accepted, accepted_setCall]
      · rw [hlose.offered, offered_setCall]
      · rw [hlose.call, call_setCall, if_pos rfl]
        exact (Bool.not_eq_true _).mp hacc
      · rw [hlose.phase, setCall_phase]
        exact hphase

def State.takeChunk (s : State) (id : Nat) (side : Direction) (chunk : Bytes)
    (rest : List Bytes) : State :=
  let s := { s with queue := s.queue ++ [Command.append id side chunk] }
  (s.modifyProducer id fun p =>
    { p with accepted := p.accepted.modify side (· ++ chunk) }).setCall id side
      (.chunks rest)

theorem send_flow (h : FlowInv s) (hevict : EvictInv config s) (id : Nat)
    (side : Direction) : FlowInv (s.send config id side) := by
  have hsame := send_sameWorker config s id side
  unfold State.send at hsame ⊢
  split
  case h_2 => exact h
  case h_1 chunk rest hcall =>
    simp only [hcall] at hsame
    have hphase : (s.producers id).phase = .writing :=
      hevict.writing side (by simp [hcall])
    have hknown : id < s.next := h.line.known_of_call side (by simp [hcall])
    have hunready : ¬(s.tickets id).Ready := hevict.unready (by simp [hphase])
    have hold := h.side id side
    change s.call id side = .sending chunk rest at hcall
    have hflow : s.accepted id side ++ (chunk ++ rest.flatten) =
        s.offered id side := by
      rcases hold.flow with ⟨reason, hrefused⟩ | ⟨howes, -⟩ | hflow
      · simp [hcall] at hrefused
      · simp [hcall, Call.owes] at howes
      · rwa [hcall] at hflow
    split
    case h_1 s₁ hsend =>
      simp only [hsend] at hsame
      rw [State.trySend_eq hsend] at hsame ⊢
      change FlowInv (s.takeChunk id side chunk rest)
      have hline : (s.takeChunk id side chunk rest).line =
          s.line ++ [.append id side chunk] := (List.append_assoc _ _ _).symm
      have hm : Moves s (s.takeChunk id side chunk rest) id side chunk := by
        refine ⟨hknown, hsame, rfl, Or.inr hline, fun _ _ => rfl,
          fun j hj => ?_, rfl⟩
        exact (modifyProducer_ne _ _ hj).trans (modifyProducer_ne _ _ hj)
      have hphase' : ((s.takeChunk id side chunk rest).producers id).phase =
          (s.producers id).phase := by
        rw [State.takeChunk, setCall_phase]
        simp [State.modifyProducer]
      have haccepted : (s.takeChunk id side chunk rest).accepted id side =
          s.accepted id side ++ chunk := by
        simp [State.takeChunk, State.accepted, State.setCall, State.modifyProducer]
      have hoffered : ∀ sd, (s.takeChunk id side chunk rest).offered id sd =
          s.offered id sd := fun sd => by
        simp [State.takeChunk, State.offered, State.setCall, State.modifyProducer]
      have hlost : ∀ sd, (s.takeChunk id side chunk rest).lost id sd =
          s.lost id sd := fun sd => by
        simp [State.takeChunk, State.lost, State.setCall, State.modifyProducer]
      refine hm.flow h hunready
        ⟨?_, hoffered _, ?_, hphase', rfl, fun h => h⟩ (hlost _) ?_
      · rw [State.takeChunk, call_setCall, if_neg (by cases side <;> rintro ⟨⟩)]
        simp [State.call, State.modifyProducer]
      · simp [State.takeChunk, State.accepted, State.setCall, State.modifyProducer]
      have hrest : (s.takeChunk id side chunk rest).accepted id side ++
          ((s.takeChunk id side chunk rest).call id side).rest =
            (s.takeChunk id side chunk rest).offered id side := by
        rw [haccepted, hoffered, State.takeChunk, call_setCall, if_pos rfl,
          List.append_assoc]
        exact hflow
      refine hold.move chunk (hm.file id side) hm.live haccepted ?_ ?_
        (Or.inr (Or.inr hrest))
        (fun k hk => Or.inl ⟨hlost side ▸ hk, fun hl => ?_⟩)
        (fun hne => absurd (hphase'.trans hphase) hne)
      · rw [State.waiting, hline, List.flatMap_append, ← State.waiting]
        simp [Command.bytes]
      · rw [haccepted, hoffered, ← hflow, ← List.append_assoc]
        exact List.prefix_append _ _
      · -- a side that has lost a byte is not sending
        obtain ⟨-, hstuck⟩ := (hold.lost k (hlost side ▸ hk)).2 (hm.live hl)
        rw [hcall] at hstuck
        exact hstuck.elim
    case h_2 reason hsend =>
      simp only [hsend] at hsame
      have hm : Moves s (((s.modifyTicket id fun t =>
          { t with pending := t.pending - 1 }).setCall id side
            (.refused reason)).lose id side
              ((s.producers id).accepted.get side).length) id side [] := by
        refine ⟨hknown, hsame, rfl, Or.inl rfl, fun j hj => ?_, fun j hj => ?_, ?_⟩
        · rw [tickets_lose, tickets_setCall, modifyTicket_ne s _ hj]
        · rw [lose_producers_ne _ _ _ hj]
          exact modifyProducer_ne _ _ hj
        · simp [State.lose, State.setCall, State.modifyTicket, State.modifyProducer]
      have hlose := lose_onSide ((s.modifyTicket id fun t =>
          { t with pending := t.pending - 1 }).setCall id side
            (.refused reason)) id side side
              ((s.producers id).accepted.get side).length
      refine hm.flow h hunready (.trans ((SameOwner.modifyTicket s id
        (by intro _; rfl) (by intro _ h; exact h) id).onSide _)
        ((setCall_onSide _ id side _).trans (lose_onSide _ id side _ _))) ?_ ?_
      · rw [lose_lost_other, lost_setCall, lost_modifyTicket]
      refine hold.gaveUp (hm.file id side) hm.live ?_ rfl ?_ ?_
        (fun k hk => lost_of_lose (by simp) hk) ?_
      · rw [hlose.accepted, accepted_setCall, accepted_modifyTicket]
      · rw [hlose.offered, offered_setCall, offered_modifyTicket]
      · rw [hlose.call, call_setCall, if_pos rfl]
        trivial
      · rw [hlose.phase, setCall_phase]
        exact hphase

/-- The bytes that a call of `append` brings. -/
def State.offer (s : State) (id : Nat) (side : Direction) (bytes : Bytes) :
    State :=
  s.modifyProducer id fun p =>
    { p with offered := p.offered.modify side (· ++ bytes) }

theorem offer_onSide (s : State) (id : Nat) (side : Direction)
    (bytes : Bytes) : SameSide s (s.offer id side bytes) id side.other := by
  refine ⟨?_, ?_, ?_, ?_, rfl, fun h => h⟩ <;>
    simp [State.offer, State.call, State.offered, State.accepted,
      State.modifyProducer]

theorem append_flow (h : FlowInv s) (hevict : EvictInv config s)
    {bytes : Bytes} (hknown : id < s.next)
    (hidle : (s.producers id).calls.get side = .idle)
    (hphase : (s.producers id).phase = .writing) :
    FlowInv (s.append id side bytes) := by
  have hsame := append_sameWorker s id side bytes
  have hunready : ¬(s.tickets id).Ready := hevict.unready (by simp [hphase])
  have hold := h.side id side
  change s.call id side = .idle at hidle
  have hoffered : (s.offer id side bytes).offered id side =
      s.offered id side ++ bytes := by
    simp [State.offer, State.offered, State.modifyProducer]
  have haccepted : (s.offer id side bytes).accepted id side =
      s.accepted id side := by
    simp [State.offer, State.accepted, State.modifyProducer]
  have hlost : ∀ sd, (s.offer id side bytes).lost id sd = s.lost id sd :=
    fun sd => by simp [State.offer, State.lost, State.modifyProducer]
  have hphase' : ((s.offer id side bytes).producers id).phase = .writing := by
    simpa [State.offer, State.modifyProducer] using hphase
  have hgrows : s.offered id side <+: s.offered id side ++ bytes :=
    List.prefix_append _ _
  unfold State.append at hsame ⊢
  dsimp only at hsame ⊢
  split
  case isTrue howned =>
    rw [if_pos howned] at hsame
    change FlowInv ((s.offer id side bytes).setCall id side _)
    have hm : Moves s ((s.offer id side bytes).setCall id side
        (.chunks (chunks chunkSize bytes))) id side [] := by
      refine ⟨hknown, hsame, rfl, Or.inl rfl, fun _ _ => rfl, fun j hj => ?_,
        rfl⟩
      exact (modifyProducer_ne _ _ hj).trans (modifyProducer_ne _ _ hj)
    refine hm.flow h hunready ((offer_onSide s id side bytes).trans
      (setCall_onSide _ id side _)) (by rw [lost_setCall, hlost]) ?_
    refine hold.move [] (hm.file id side) hm.live ?_ ?_ ?_ ?_
      (fun k hk => Or.inl ⟨?_, fun hl => ⟨rfl, ?_⟩⟩)
      (fun hne => absurd ?_ hne)
    · rw [accepted_setCall, haccepted, List.append_nil]
    · rw [List.append_nil]
      rfl
    · rw [accepted_setCall, haccepted, offered_setCall, hoffered]
      exact hold.accepted.trans hgrows
    · have hflow := hold.flow
      unfold State.Flows at hflow ⊢
      rw [call_setCall, if_pos rfl, accepted_setCall, haccepted,
        offered_setCall, hoffered]
      rw [hidle] at hflow
      rcases hflow with ⟨_, hrefused⟩ | ⟨-, hstop⟩ | hflow
      · cases hrefused
      · exact Or.inr (Or.inl ⟨rfl, hstop⟩)
      · refine Or.inr (Or.inr ?_)
        rw [← hflow, Call.rest, chunks_flatten (by decide)]
        simp [Call.rest]
    · rwa [lost_setCall, hlost] at hk
    · rw [lost_setCall, hlost] at hk
      obtain ⟨-, hstuck⟩ := (hold.lost k hk).2 (hm.live hl)
      rw [hidle] at hstuck
      rw [call_setCall, if_pos rfl]
      exact hstuck
    · rw [setCall_phase]
      exact hphase'
  case isFalse howned =>
    rw [if_neg howned] at hsame
    change FlowInv (((s.offer id side bytes).stopTicket id "cache closed").lose
      id side _)
    have hm : Moves s (((s.offer id side bytes).stopTicket id
        "cache closed").lose id side
          (((s.offer id side bytes).producers id).accepted.get side).length) id
          side [] := by
      refine ⟨hknown, hsame, rfl, Or.inl rfl, fun j hj => ?_, fun j hj => ?_, ?_⟩
      · rw [tickets_lose, State.stopTicket, modifyTicket_ne _ _ hj]
        rfl
      · rw [lose_producers_ne _ _ _ hj]
        change (s.offer id side bytes).producers j = _
        exact modifyProducer_ne s _ hj
      · simp [State.lose, State.stopTicket, State.modifyTicket,
          State.modifyProducer, Ticket.stop, State.offer]
    have hstop : ∀ sd, SameSide (s.offer id side bytes)
        (((s.offer id side bytes).stopTicket id "cache closed").lose id side
          (((s.offer id side bytes).producers id).accepted.get side).length) id
          sd := fun sd =>
      ((SameOwner.stopTicket _ id _ id).onSide sd).trans (lose_onSide _ id side sd _)
    refine hm.flow h hunready ((offer_onSide s id side bytes).trans (hstop _)) ?_ ?_
    · rw [lose_lost_other]
      exact hlost _
    refine hold.gaveUp (hm.file id side) hm.live ?_ rfl ?_ ?_
      (fun k hk => ?_) ?_
    · rw [(hstop side).accepted, haccepted]
    · rw [(hstop side).offered, hoffered]
      exact hgrows
    · rw [(hstop side).call]
      have hcall : (s.offer id side bytes).call id side = .idle := by
        rw [← hidle]
        simp [State.offer, State.call, State.modifyProducer]
      rw [hcall]
      simp [Call.Stuck, State.lose, State.stopTicket, State.modifyTicket,
        State.modifyProducer, Ticket.stop]
    · refine (lost_of_lose (hlost side) hk).imp_right fun heq => ?_
      rw [heq, ← haccepted]
      rfl
    · rw [(hstop side).phase]
      exact hphase'

/-! ## The end of an entry -/

theorem SideInv.advance (h : SideInv s id side)
    (hfile : s'.file id side = s.file id side)
    (hlive : s'.Live id → s.Live id)
    (hwaiting : s'.waiting id side = s.waiting id side)
    (hcall : s'.call id side = s.call id side)
    (haccepted : s'.accepted id side = s.accepted id side)
    (hoffered : s'.offered id side = s.offered id side)
    (hlost : s'.lost id side = s.lost id side)
    (haccepting : (s'.tickets id).accepting = (s.tickets id).accepting)
    (hinfo : ((s'.tickets id).info.get side).bytes =
      (s.offered id side).length) : SideInv s' id side := by
  refine ⟨?_, ?_, ?_, fun hl => ?_, fun k hk => ?_, fun _ => ?_⟩
  · rw [haccepted, hoffered]
    exact h.accepted
  · unfold State.Flows
    rw [hcall, haccepting, haccepted, hoffered]
    exact h.flow
  · rw [haccepted, hwaiting, hfile]
    exact h.queue
  · rw [haccepted, hwaiting, hfile]
    exact h.live (hlive hl)
  · rw [hlost] at hk
    rw [hfile, haccepted, hcall, haccepting]
    exact ⟨(h.lost k hk).1, fun hl => (h.lost k hk).2 (hlive hl)⟩
  · rw [hinfo, hoffered]

theorem FlowInv.advance (h : FlowInv s) (hm : Moves s s' id .client [])
    (hunready : ¬(s.tickets id).Ready) (hline : s'.line = s.line)
    (hcalls : (s'.producers id).calls = (s.producers id).calls)
    (haccepted : (s'.producers id).accepted = (s.producers id).accepted)
    (hoffered : (s'.producers id).offered = (s.producers id).offered)
    (hlost : (s'.producers id).lost = (s.producers id).lost)
    (haccepting : (s'.tickets id).accepting = (s.tickets id).accepting)
    (hinfo : ∀ sd, ((s'.tickets id).info.get sd).bytes =
      (s.offered id sd).length) : FlowInv s' := by
  refine ⟨hm.lineInv h.line hunready, fun j sd => ?_⟩
  by_cases hj : j = id
  · subst hj
    exact (h.side j sd).advance (hm.file j sd) hm.live
      (waiting_congr hline j sd) (by rw [State.call, hcalls, ← State.call])
      (by rw [State.accepted, haccepted, ← State.accepted])
      (by rw [State.offered, hoffered, ← State.offered])
      (by rw [State.lost, hlost, ← State.lost]) haccepting (hinfo sd)
  · refine (h.side j sd).frame (hm.other hj sd) (waiting_congr hline j sd)
      (Or.inl (hm.file j sd)) hm.live ?_
    rw [State.lost, hm.producers j hj, ← State.lost]

theorem finish_flow (h : FlowInv s) (hevict : EvictInv config s)
    {info : Sides BodyInfo} (hknown : id < s.next)
    (hinfo : ∀ sd, (info.get sd).bytes = (s.offered id sd).length) :
    FlowInv (s.finish id info) := by
  have hsame := finish_sameWorker s id info
  unfold State.finish at hsame ⊢
  split
  case isFalse => exact h
  case isTrue hphase =>
    rw [if_pos hphase] at hsame
    have hm : Moves s ((s.modifyTicket id fun t =>
        { t with info }).modifyProducer id fun p =>
          { p with phase := .ordering }) id .client [] := by
      refine ⟨hknown, hsame, rfl, Or.inl rfl, fun j hj => ?_,
        fun j hj => modifyProducer_ne _ _ hj, ?_⟩
      · rw [tickets_modifyProducer, modifyTicket_ne s _ hj]
      · simp [State.modifyTicket]
    refine h.advance hm (hevict.unready (by simp [hphase.1])) rfl ?_ ?_ ?_ ?_ ?_
      fun sd => ?_
    all_goals simp [State.modifyProducer, State.modifyTicket]
    exact hinfo sd

theorem LineInv.known_of_phase (h : LineInv s)
    (hphase : (s.producers id).phase ≠ .writing) : id < s.next := by
  by_contra hle
  rw [h.callers id (by omega)] at hphase
  exact hphase rfl

theorem FlowInv.number (h : FlowInv s) (hevict : EvictInv config s)
    (hsame : SameWorker s s') (hnext : s'.next = s.next)
    (hline : s'.line = s.line)
    (hphase : (s.producers id).phase ≠ .writing)
    (hopen : (s.producers id).phase ≠ .finished) {phase : Phase}
    {finished : Nat}
    (hproducers : s'.producers = alter s.producers id fun p => { p with phase })
    (htickets : s'.tickets = alter s.tickets id fun t => { t with finished }) :
    FlowInv s' := by
  have hm : Moves s s' id .client [] := by
    refine ⟨h.line.known_of_phase hphase, hsame, hnext, Or.inl hline,
      fun j hj => ?_, fun j hj => ?_, ?_⟩
    · rw [htickets, alter_ne hj]
    · rw [hproducers, alter_ne hj]
    · rw [htickets, alter_self]
  refine h.advance hm (hevict.unready hopen) hline ?_ ?_ ?_ ?_ ?_ fun sd => ?_
  · rw [hproducers, alter_self]
  · rw [hproducers, alter_self]
  · rw [hproducers, alter_self]
  · rw [hproducers, alter_self]
  · rw [htickets, alter_self]
  · rw [htickets, alter_self]
    exact (h.side id sd).info hphase

theorem order_flow (h : FlowInv s) (hevict : EvictInv config s) (id : Nat) :
    FlowInv (s.order id) := by
  have hsame := order_sameWorker s id
  unfold State.order at hsame ⊢
  split
  case isFalse => exact h
  case isTrue hphase =>
    rw [if_pos hphase] at hsame
    have hkept : s.tickets = alter s.tickets id fun t =>
        { t with finished := (s.tickets id).finished } := by
      funext j
      unfold alter
      split
      case isTrue hj => exact hj ▸ rfl
      case isFalse => rfl
    split
    case isTrue howned =>
      rw [if_pos howned] at hsame
      exact h.number hevict hsame rfl rfl (by simp [hphase]) (by simp [hphase])
        rfl hkept
    case isFalse howned =>
      rw [if_neg howned] at hsame
      exact h.number hevict hsame rfl rfl (by simp [hphase]) (by simp [hphase])
        rfl hkept

theorem publish_flow (h : FlowInv s) (hevict : EvictInv config s) (id : Nat) :
    FlowInv (s.publish id) := by
  have hsame := publish_sameWorker s id
  unfold State.publish at hsame ⊢
  split
  case h_2 => exact h
  case h_1 order hphase =>
    simp only [hphase] at hsame
    exact h.number hevict hsame rfl rfl (by simp [hphase]) (by simp [hphase])
      rfl rfl

/-! ## New entries and queries -/

theorem stopTicket_flow (h : FlowInv s) (id : Nat) (reason : String) :
    FlowInv (s.stopTicket id reason) := by
  have hevicted : ∀ j, ((s.stopTicket id reason).tickets j).state.evicted =
      (s.tickets j).state.evicted := fun j => by
    simp only [State.stopTicket, State.modifyTicket, alter]
    split <;> rfl
  refine ⟨⟨h.line.known, h.line.order, h.line.callers, h.line.fresh,
    fun j hj => ?_, h.line.busy⟩, fun j sd => ?_⟩
  · rw [hevicted] at hj
    exact ((Quiet.stopTicket s id reason).ready j).2 (h.line.evicted j hj)
  · refine (h.side j sd).frame ((SameOwner.stopTicket s id reason j).onSide sd)
      rfl (Or.inl rfl) (fun hl => ?_) rfl
    exact ⟨hevicted j ▸ hl.1, hl.2⟩

theorem push_flow (h : FlowInv s) {c : Command}
    (hbytes : ∀ j sd, c.bytes j sd = [])
    (hknown : ∀ j, c.entryId = some j → j < s.next)
    (hbehind : ∀ a ∈ s.line, Behind a c)
    (hfresh : ∀ j, c = .register j → (s.disk j = ⟨none, none⟩ ∧
      ∀ w, s.worker = some w → j ∉ w.records.keys) ∧ s.producers j = .new) :
    FlowInv { s with queue := s.queue ++ [c] } := by
  have hline : State.line { s with queue := s.queue ++ [c] } =
      s.line ++ [c] := (List.append_assoc _ _ _).symm
  have hwaiting : ∀ j sd, State.waiting { s with queue := s.queue ++ [c] } j
      sd = s.waiting j sd := fun j sd => by
    rw [State.waiting, hline, List.flatMap_append, ← State.waiting]
    simp [hbytes]
  refine ⟨⟨fun b hb j hj => ?_, ?_, h.line.callers, fun j hj => ?_,
    h.line.evicted, h.line.busy⟩, fun j sd => ?_⟩
  · rw [hline, List.mem_append, List.mem_singleton] at hb
    rcases hb with hb | rfl
    · exact h.line.known b hb j hj
    · exact hknown j hj
  · rw [hline, List.pairwise_append]
    refine ⟨h.line.order, List.pairwise_singleton _ _, fun a ha b hb => ?_⟩
    rw [List.mem_singleton] at hb
    exact hb ▸ hbehind a ha
  · rw [hline, List.mem_append, List.mem_singleton, ← or_assoc] at hj
    rcases hj with hj | hj
    · exact h.line.fresh j hj
    · exact (hfresh j hj.symm).1
  · have hold := h.side j sd
    by_cases hc : c = .register j
    · -- nothing was ever offered for a new entry
      obtain ⟨⟨hdisk, -⟩, hproducer⟩ := hfresh j hc
      have hwait : s.waiting j sd = [] := by
        obtain ⟨done, hdone, -⟩ := hold.queue
        rw [State.accepted, hproducer] at hdone
        cases sd <;> exact (List.append_eq_nil_iff.1 hdone.symm).2
      refine ⟨hold.accepted, hold.flow, ?_, fun _ => ?_, fun k hk => ?_,
        hold.info⟩
      · rw [hwaiting]
        exact hold.queue
      · rw [hwaiting, hwait]
        simp only [State.accepted, State.file, hproducer, hdisk]
        cases sd <;> rfl
      · simp only [State.lost, hproducer] at hk
        cases sd <;> cases hk
    · refine hold.frame ⟨rfl, rfl, rfl, rfl, rfl, fun h => h⟩ (hwaiting j sd)
        (Or.inl rfl) (fun hl => ?_) rfl
      obtain ⟨hnot, w, hw, hrecord⟩ := hl
      refine ⟨hnot, w, hw, hrecord.imp_right fun hmem => ?_⟩
      rw [hline, List.mem_append, List.mem_singleton] at hmem
      exact hmem.resolve_right fun heq => hc heq.symm

theorem entry_flow (h : FlowInv s) : FlowInv (s.entry config) := by
  have hnext : FlowInv { s with next := s.next + 1 } :=
    ⟨⟨fun c hc j hj => Nat.lt_succ_of_lt (h.line.known c hc j hj),
      h.line.order, fun j hj => h.line.callers j (Nat.le_of_succ_le hj),
      fun j hj => h.line.fresh j (hj.imp_left Nat.le_of_succ_le),
      h.line.evicted, h.line.busy⟩,
      fun j sd => (h.side j sd).frame ⟨rfl, rfl, rfl, rfl, rfl, fun h => h⟩ rfl
        (Or.inl rfl) (fun hl => hl) rfl⟩
  unfold State.entry
  dsimp only
  split
  case h_1 s' hsend =>
    rw [State.trySend_eq hsend]
    refine push_flow hnext (fun _ _ => rfl) (fun j hj => ?_) (fun a ha j hj => ?_)
      fun j hj => ?_
    · cases hj
      exact Nat.lt_succ_self _
    · rintro ⟨⟩
      exact absurd (h.line.known a ha _ hj) (Nat.lt_irrefl _)
    · cases hj
      exact ⟨h.line.fresh _ (Or.inl (Nat.le_refl _)),
        h.line.callers _ (Nat.le_refl _)⟩
  case h_2 reason _ => exact stopTicket_flow hnext _ reason

theorem ask_flow (h : FlowInv s) (q : Query) : FlowInv (s.ask config q) := by
  unfold State.ask
  split
  case h_1 s' hsend =>
    rw [State.trySend_eq hsend]
    exact push_flow h (fun _ _ => rfl) nofun (fun _ _ _ _ => nofun) nofun
  case h_2 => exact h

end Producers

theorem step_flow {config : CacheConfig} {s : State}
    (h : FlowInv s) (hevict : EvictInv config s) {e : Event}
    (hok : Honest s e) : FlowInv (step config s e) := by
  cases e with
  | entry =>
    rw [step]
    split
    · exact entry_flow h
    · exact h
  | append id side bytes =>
    rw [step]
    split
    case isTrue hid => exact append_flow h hevict hid.1 hid.2 hok
    case isFalse => exact h
  | poll id side => exact poll_flow h hevict id side
  | send id side => exact send_flow h hevict id side
  | refuse id side => exact refuse_flow h hevict id side
  | endEarly id =>
    rw [step]
    split
    · exact stopTicket_flow h id _
    · exact h
  | finish id info =>
    rw [step]
    split
    case isTrue hid => exact finish_flow h hevict hid fun sd => (hok sd).2
    case isFalse => exact h
  | order id => exact order_flow h hevict id
  | publish id => exact publish_flow h hevict id
  | query q => exact ask_flow h q
  | receive => exact receive_flow h
  | work io => exact work_flow h hevict io
  | shutdown => exact ⟨⟨h.line.known, h.line.order, h.line.callers,
      h.line.fresh, h.line.evicted, h.line.busy⟩, fun j sd =>
        (h.side j sd).frame ⟨rfl, rfl, rfl, rfl, rfl, fun h => h⟩ rfl
          (Or.inl rfl) (fun hl => hl) rfl⟩
  | drop => exact ⟨⟨h.line.known, h.line.order, h.line.callers,
      h.line.fresh, h.line.evicted, h.line.busy⟩, fun j sd =>
        (h.side j sd).frame ⟨rfl, rfl, rfl, rfl, rfl, fun h => h⟩ rfl
          (Or.inl rfl) (fun hl => hl) rfl⟩
  | exit io => exact exit_flow h io

private theorem initial_flow : FlowInv State.initial := by
  have hnew : ∀ sd, (⟨none, none⟩ : Sides (Option Bytes)).get sd = none :=
    fun sd => by cases sd <;> rfl
  refine ⟨⟨nofun, List.Pairwise.nil, fun _ _ => rfl, fun j hj => ?_, nofun,
    fun w hw j hj => ?_⟩, fun j sd => ?_⟩
  · refine ⟨rfl, fun w hw => ?_⟩
    cases hw
    nofun
  · cases hw
    cases hj
  · refine ⟨?_, Or.inr (Or.inr ?_), ⟨[], ?_, ?_⟩, fun _ => ?_, fun k hk => ?_,
      fun hne => absurd rfl hne⟩
    all_goals cases sd
    all_goals first | rfl | exact List.nil_prefix | cases hk

theorem run_flow {config : CacheConfig} {events : List Event}
    (hok : Admissible (step config) Honest .initial events) :
    EvictInv config (run (step config) .initial events) ∧
      FlowInv (run (step config) .initial events) := by
  have hstep : ∀ s e, EvictInv config s ∧ FlowInv s → Honest s e →
      EvictInv config (step config s e) ∧ FlowInv (step config s e) :=
    fun _ _ h hok => ⟨step_evict h.1 hok, step_flow h.2 h.1 hok⟩
  exact run_invariant hstep ⟨initial_evict config, initial_flow⟩ hok

end ProxyLane.Cache
