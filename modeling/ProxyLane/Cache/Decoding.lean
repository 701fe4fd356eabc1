import ProxyLane.Cache.Stored

/-!
# Only complete bodies are decoded

A decode query compares what is stored for a side with what its owner has
announced when it finished.  The stored bytes being an initial part of the
offered ones, equal lengths mean equal bytes.
-/

namespace ProxyLane.Cache

open ProxyLane.Foundation ProxyLane.Protocol

section Read

variable {config : CacheConfig} {s : State} {w : Worker} {id offset length : Nat}
  {side : Direction} {io : Io}

theorem readBytes_cases {record : Record} {ticket : Ticket} {bytes : Bytes}
    (h : s.readBytes config w id side offset length true io =
      .ok (record, ticket, bytes)) :
    (s.tickets id).state.evicted = false ∧ (s.tickets id).finished ≠ 0 ∧
      (s.tickets id).pending = 0 ∧
      ((s.tickets id).info.get side).complete = true ∧
      (((s.tickets id).info.get side).bytes = 0 ∧ bytes = [] ∨
        offset + ((s.tickets id).info.get side).bytes ≤
            (s.file id side).length ∧
          bytes = ((s.file id side).drop offset).take
            ((s.tickets id).info.get side).bytes) := by
  unfold State.readBytes at h
  cases hget : w.records.get? id with
  | none => simp [hget] at h
  | some r =>
    simp only [hget, Bool.true_and] at h
    split at h
    case isTrue => cases h
    case isFalse hkept =>
      split at h
      case isTrue => cases h
      case isFalse hcomplete =>
        simp only [Ticket.snapshot, Bool.or_eq_true, Bool.not_eq_true',
          bne_iff_ne, bne_eq_false_iff_eq, not_or, not_not,
          Bool.not_eq_false] at hcomplete hkept
        obtain ⟨⟨⟨hfinished, hpending⟩, hwhole⟩, hbytes⟩ := hcomplete
        refine ⟨by simpa using hkept, hfinished, hpending, hwhole, ?_⟩
        rw [hbytes]
        split at h
        case isTrue => cases h
        case isFalse =>
          simp only [if_true] at h
          split at h
          case isTrue hzero =>
            cases h
            exact Or.inl ⟨hzero, rfl⟩
          case isFalse =>
            split at h
            case isTrue => cases h
            case isFalse =>
              split at h
              case isTrue => cases h
              case isFalse hlong =>
                cases h
                refine Or.inr ⟨?_, rfl⟩
                simp only [Bool.or_eq_true, decide_eq_true_eq, not_or] at hlong
                exact Nat.not_lt.1 hlong.2

theorem read_ok {decoder : Decoder} {limit : Nat} {payload : CachedPayload}
    (h : s.read config decoder w id side offset length true limit io = .ok payload) :
    ∃ record ticket bytes,
      s.readBytes config w id side offset length true io =
        .ok (record, ticket, bytes) := by
  unfold State.read at h
  split at h
  case h_1 => cases h
  case h_2 record ticket bytes hread => exact ⟨record, ticket, bytes, hread⟩

end Read

/-- A side that no decode query may answer for: it is not finished, its
message did not end normally, it was evicted, or one of its bytes was refused
or cut. -/
def State.Incomplete (s : State) (id : Nat) (side : Direction) : Prop :=
  (s.tickets id).finished = 0 ∨
    ((s.tickets id).info.get side).complete = false ∨
    (s.tickets id).state.evicted = true ∨
    ∃ k, s.lost id side = some k ∧ k < (s.offered id side).length

/--
The bytes handed to the decoder are all that was offered for the side, of a
message that ended normally; a side that is incomplete in any way gives an
error.
-/
theorem decode_takes_complete_side {config : CacheConfig} {start : State}
    (hnew : newCache config = .ok start) {events : List Event}
    (hok : Admissible (step config) Honest start events) :
    let s := run (step config) start events
    ∀ w, s.worker = some w → ∀ decoder id side offset length limit io,
      (∀ payload,
        s.read config decoder w id side offset length true limit io =
            .ok payload →
          ¬s.Incomplete id side ∧ ∃ record ticket,
            s.readBytes config w id side offset length true io =
              .ok (record, ticket, s.offered id side)) ∧
      (s.Incomplete id side →
        ∃ e, s.read config decoder w id side offset length true limit io =
          .error e) := by
  intro s w _ decoder id side offset length limit io
  obtain ⟨rfl, -⟩ := newCache_eq hnew
  obtain ⟨hevict, hflow⟩ := run_flow hok
  have hside := hflow.side id side
  have hread : ∀ record ticket bytes,
      s.readBytes config w id side offset length true io =
          .ok (record, ticket, bytes) →
        bytes = s.offered id side ∧ ¬s.Incomplete id side := by
    intro record ticket bytes h
    obtain ⟨hkept, hfinished, -, hcomplete, hbytes⟩ := readBytes_cases h
    have hphase : (s.producers id).phase ≠ .writing := by
      rw [hevict.finished id hfinished]
      nofun
    rw [hside.info hphase] at hbytes
    have hprefix : s.file id side <+: s.offered id side := by
      obtain ⟨done, hdone, hfile⟩ := hside.queue
      exact (hfile.trans ⟨_, hdone.symm⟩).trans hside.accepted
    have hle := hprefix.length_le
    -- the file is as long as the offered bytes, so it is all of them
    have hall : bytes = s.offered id side ∧
        (s.offered id side).length = (s.file id side).length := by
      rcases hbytes with ⟨hzero, rfl⟩ | ⟨hlong, rfl⟩
      · have hnil := List.length_eq_zero_iff.1 hzero
        refine ⟨hnil.symm, ?_⟩
        change (s.offered id side).length = 0 at hzero
        omega
      · change offset + (s.offered id side).length ≤ (s.file id side).length
          at hlong
        have hlength : (s.offered id side).length =
            (s.file id side).length := by
          omega
        have hzero : offset = 0 := by omega
        refine ⟨?_, hlength⟩
        rw [hzero, List.drop_zero, ← hprefix.eq_of_length hlength.symm,
          List.take_length]
    refine ⟨hall.1, ?_⟩
    rintro (hopen | hcut | hgone | ⟨k, hlost, hk⟩)
    · exact hfinished hopen
    · simp [hcomplete] at hcut
    · simp [hkept] at hgone
    · have hstored := (hside.lost k hlost).1
      change (s.file id side).length ≤ k at hstored
      omega
  refine ⟨fun payload h => ?_, fun hincomplete => ?_⟩
  · obtain ⟨record, ticket, bytes, hbytes⟩ := read_ok h
    obtain ⟨rfl, hcomplete⟩ := hread record ticket bytes hbytes
    exact ⟨hcomplete, record, ticket, hbytes⟩
  cases hresult : s.read config decoder w id side offset length true limit io with
  | error e => exact ⟨e, rfl⟩
  | ok payload =>
    obtain ⟨record, ticket, bytes, hok⟩ := read_ok hresult
    exact absurd hincomplete (hread record ticket bytes hok).2

def plainDecoder : Decoder where
  body _ bytes limit :=
    if limit < bytes.length then .error "decoded body limit" else .ok bytes
  preview _ bytes limit := .ok (bytes.take limit, none)

def halfConfig : CacheConfig := ⟨3, 10, 4, 4, 10, 10⟩

def halfEvents : List Event :=
  entryEvents ++ appendEvents 1 .client [1, 2] ++
    appendEvents 1 .server [3, 4] ++ finishEvents 1 (bodyInfo ⟨2, 2⟩)

theorem cut_entry_decodes_request :
    newCache halfConfig = .ok .initial ∧
      Admissible (step halfConfig) Honest .initial halfEvents ∧
      let s := run (step halfConfig) .initial halfEvents
      s.lost 1 .server = some 1 ∧
        (s.tickets 1).state.reason = some "per-exchange payload limit" ∧
        s.worker.map (fun w => ((s.read halfConfig plainDecoder w 1 .client 0 0
          true 10 .fine).toOption.map fun p => p.data)) = some (some [1, 2]) := by
  refine ⟨rfl, ?_⟩
  decide

theorem decode_takes_complete_side_sample :
    let s := run (step halfConfig) .initial halfEvents
    Admissible (step halfConfig) Honest .initial halfEvents ∧
      s.offered 1 .server = [3, 4] ∧ s.file 1 .server = [3] ∧
      ∀ w, s.worker = some w → ∃ e, s.read halfConfig plainDecoder w 1 .server 0
        0 true 10 .fine = .error e := by
  have hok : Admissible (step halfConfig) Honest .initial halfEvents := by
    decide
  have h := @decode_takes_complete_side halfConfig _ rfl _ hok
  have hlost : (run (step halfConfig) .initial halfEvents).lost 1 .server =
      some 1 := by
    decide
  have hoffered : (run (step halfConfig) .initial halfEvents).offered 1 .server =
      [3, 4] := by
    decide
  refine ⟨hok, hoffered, by decide, fun w hw => ?_⟩
  refine (h w hw plainDecoder 1 .server 0 0 10 .fine).2 ?_
  exact Or.inr (Or.inr (Or.inr ⟨1, hlost, by rw [hoffered]; decide⟩))

end ProxyLane.Cache
