import Mathlib.Data.List.ReduceOption
import ProxyLane.Recording.SessionView

/-!
# Snapshots and the order of events

Whatever the order in which the events of a session arrive, its snapshot
holds the earliest time that they told, and the cache of the last checkpoint
wherever it names one.
-/

namespace ProxyLane.Recording.SessionView

open ProxyLane.Foundation

/-! ## The earliest time -/

variable {times : List Nat}

theorem earliest_eq_some {t : Nat} :
    earliest times = some t ↔ (t ∈ times ∧ t ≠ 0) ∧ ∀ u ∈ times, u ≠ 0 → t ≤ u := by
  simp [earliest, List.min?_eq_some_iff]

theorem earliest_eq_none :
    earliest times = none ↔ ∀ t ∈ times, t = 0 := by
  simp [earliest]

def Covers (xs ys : List Nat) : Prop :=
  ∀ y ∈ ys, y ≠ 0 → ∃ x ∈ xs, x ≠ 0 ∧ x ≤ y

theorem earliest_congr {xs ys : List Nat} (hxy : Covers xs ys)
    (hyx : Covers ys xs) : earliest xs = earliest ys := by
  cases hx : earliest xs with
  | none =>
    symm
    rw [earliest_eq_none] at hx ⊢
    intro y hy
    by_contra h
    obtain ⟨x, hmem, hne, -⟩ := hxy y hy h
    exact hne (hx x hmem)
  | some t =>
    symm
    rw [earliest_eq_some] at hx ⊢
    obtain ⟨⟨ht, hne⟩, hle⟩ := hx
    obtain ⟨y, hy, hy0, hyt⟩ := hyx t ht hne
    obtain ⟨x, hmem, hx0, hxle⟩ := hxy y hy hy0
    have hty : t = y := by have := hle x hmem hx0; omega
    refine ⟨⟨hty ▸ hy, hne⟩, fun u hu hu0 => ?_⟩
    obtain ⟨z, hz, hz0, hzu⟩ := hxy u hu hu0
    exact (hle z hz hz0).trans hzu

def soonest (times : List Nat) : Nat := (earliest times).getD 0

theorem soonest_mem (h : soonest times ≠ 0) :
    soonest times ∈ times := by
  cases ht : earliest times with
  | none => simp [soonest, ht] at h
  | some t =>
    simp only [soonest, ht, Option.getD_some]
    exact (earliest_eq_some.1 ht).1.1

theorem soonest_le {u : Nat} (hu : u ∈ times)
    (hu0 : u ≠ 0) : soonest times ≠ 0 ∧ soonest times ≤ u := by
  cases ht : earliest times with
  | none => exact absurd (earliest_eq_none.1 ht u hu) hu0
  | some t =>
    simp only [soonest, ht, Option.getD_some]
    exact ⟨(earliest_eq_some.1 ht).1.2, (earliest_eq_some.1 ht).2 u hu hu0⟩

theorem soonest_lt (h : ∀ t ∈ times, t < 2 ^ 64) :
    soonest times < 2 ^ 64 := by
  by_cases h0 : soonest times = 0
  · simp [h0]
  · exact h _ (soonest_mem h0)

def start (saved : Json) (side : String) : Option Nat :=
  startOf ((saved.get "exchange").get side)

def starts (saved : Json) : List Nat :=
  [start saved "request", start saved "response"].reduceOption

def startsOf (event : Json) : List Nat :=
  if typeOf event = "observation" then starts (event.get "record")
  else if typeOf event = "message_head" then (startOf (event.get "message")).toList
  else if typeOf event = "exchange_end" then
    [startOf (event.get "request"), startOf (event.get "response")].reduceOption
  else []

def timesOf (a : Arrival) : List Nat :=
  observedOf a.clock a.event :: startsOf a.event

variable {v : Json}

theorem asNat_lt {n : Nat} (h : v.asNat = some n) : n < 2 ^ 64 := by
  cases v with
  | num m =>
    simp only [Json.asNat, Option.ite_none_right_eq_some, Option.some.injEq] at h
    omega
  | _ => simp [Json.asNat] at h

theorem asNat_num {n : Nat} (h : n < 2 ^ 64) :
    (Json.num (n : Int)).asNat = some n := by
  simp [Json.asNat]
  omega

variable {saved : Json}

theorem mem_starts {s : Nat} :
    s ∈ starts saved ↔
      start saved "request" = some s ∨ start saved "response" = some s := by
  simp [starts, List.reduceOption_mem_iff, eq_comm]

theorem observedOf_lt (clock : UInt64) (event : Json) :
    observedOf clock event < 2 ^ 64 := by
  rw [observedOf]
  cases h : (event.get "observed_unix_ms").asNat with
  | none => exact clock.toNat_lt
  | some n => exact asNat_lt h

theorem timesOf_lt (a : Arrival) : ∀ t ∈ timesOf a, t < 2 ^ 64 := by
  intro t ht
  rcases List.mem_cons.1 ht with rfl | ht
  · exact observedOf_lt _ _
  · have hstart : ∃ v : Json, v.asNat = some t := by
      simp only [startsOf] at ht
      split at ht
      · rcases mem_starts.1 ht with h | h <;> exact ⟨_, h⟩
      · split at ht
        · exact ⟨_, Option.mem_toList.1 ht⟩
        · split at ht
          · simp only [List.reduceOption_mem_iff, List.mem_cons, List.not_mem_nil,
              or_false] at ht
            rcases ht with h | h <;> exact ⟨_, h.symm⟩
          · cases ht
    exact asNat_lt hstart.choose_spec

theorem open_of_isObject (h : v.isObject) : v.Open := by
  cases v <;> trivial

theorem isObject_set (h : v.Open) (key : String) (x : Json) :
    (v.set key x).isObject := by
  cases v <;> first | rfl | exact h.elim

variable {key : String}

theorem isObject_of_get (h : v.get key ≠ .null) :
    v.isObject := by
  cases v <;> first | rfl | exact absurd rfl h

theorem get?_setAll {fields : List (String × Json)}
    (hnodup : (fields.map Prod.fst).Nodup) (hv : v.Open) (key : String) :
    (setAll v fields).get? key = ((Json.obj fields).get? key).or (v.get? key) := by
  induction fields generalizing v with
  | nil => rfl
  | cons field rest ih =>
    rw [List.map_cons, List.nodup_cons] at hnodup
    simp only [setAll, List.foldl_cons]
    rw [← setAll, ih hnodup.2 (Json.set_open hv _ _), Json.get?_set hv,
      Json.get?_obj_cons]
    by_cases hkey : key = field.1
    · have hrest : (Json.obj rest).get? key = none := by
        simp only [Json.get?, Json.fields, Option.map_eq_none_iff,
          List.find?_eq_none, beq_iff_eq]
        intro other hother heq
        exact hnodup.1 (List.mem_map.2 ⟨other, hother, heq.trans hkey⟩)
      rw [if_pos hkey, if_pos hkey, hrest]
      rfl
    · rw [if_neg hkey, if_neg hkey]

theorem setAll_open (hv : v.Open) (fields : List (String × Json)) :
    (setAll v fields).Open := by
  induction fields generalizing v with
  | nil => exact hv
  | cons field rest ih => exact ih (Json.set_open hv _ _)

def OnlyIn (keys : List String) (saved saved' : Json) : Prop :=
  (saved.Open → saved'.Open) ∧ ∀ key, key ∉ keys → saved'.get key = saved.get key

theorem OnlyIn.refl (keys : List String) (saved : Json) :
    OnlyIn keys saved saved := ⟨id, fun _ _ => rfl⟩

variable {keys : List String}

theorem OnlyIn.trans {a b c : Json} (h : OnlyIn keys a b)
    (h' : OnlyIn keys b c) : OnlyIn keys a c :=
  ⟨h'.1 ∘ h.1, fun key hkey => (h'.2 key hkey).trans (h.2 key hkey)⟩

theorem onlyIn_set (saved : Json) (x : Json)
    (h : key ∈ keys) : OnlyIn keys saved (saved.set key x) :=
  ⟨fun hopen => Json.set_open hopen key x, fun _ hother =>
    Json.get_set_ne saved x fun heq => hother (heq ▸ h)⟩

theorem onlyIn_ite {w : Json} {p : Prop} [Decidable p]
    (hv : OnlyIn keys saved v) (hw : OnlyIn keys saved w) :
    OnlyIn keys saved (if p then v else w) := by
  split
  · exact hv
  · exact hw

theorem mergeContext_onlyIn (event saved : Json) :
    OnlyIn ["connection", "protocol", "kind"] saved (mergeContext event saved) := by
  have hstep : ∀ (v : Json) (p : Bool) (key : String) (x : Json),
      key ∈ ["connection", "protocol", "kind"] →
      OnlyIn ["connection", "protocol", "kind"] v (if p then v.set key x else v) :=
    fun v _ _ x hkey => onlyIn_ite (onlyIn_set v x hkey) (.refl _ v)
  simp only [mergeContext]
  exact ((hstep _ _ _ _ (by simp)).trans (hstep _ _ _ _ (by simp))).trans
    (hstep _ _ _ _ (by simp))

abbrev sections : List String := ["exchange", "stream"]

/-- The shape of the events of sessions: an observation carries a record with
its exchange or stream and leaves the writer's fields alone, a checkpoint
carries a cache. -/
structure Shaped (event : Json) : Prop where
  record : typeOf event = "observation" → (event.get "record").isObject
  distinct : ((event.get "record").fields.map Prod.fst).Nodup
  noCache : (event.get "record").get? "cache" = none
  noFirst : (event.get "record").get? "first_observed_unix_ms" = none
  parts : ∀ name ∈ sections, ∀ x, (event.get "record").get? name = some x → x.isObject
  typed : ∀ name ∈ sections, ((event.get "record").get "type").isStr name →
    ((event.get "record").get name).isObject
  checkpoint : typeOf event = "payload_checkpoint" → (event.get "cache").isObject

structure Formed (saved : Json) : Prop where
  isOpen : saved.Open
  parts : ∀ name ∈ sections, (saved.get name).Open
  typed : ∀ name ∈ sections, (saved.get "type").isStr name → (saved.get name).isObject

structure Merged (event saved saved' : Json) : Prop where
  formed : Formed saved'
  first : saved'.get "first_observed_unix_ms" = saved.get "first_observed_unix_ms"
  cache : saved'.get "cache" =
    if typeOf event = "payload_checkpoint" then event.get "cache"
    else saved.get "cache"
  kept : ∀ s ∈ starts saved', s ∈ startsOf event ∨ s ∈ starts saved
  brings : ∀ s ∈ startsOf event, s ∈ starts saved'

variable {saved' : Json}

theorem Formed.onlyIn
    (h : Formed saved) (honly : OnlyIn keys saved saved')
    (hkeys : ∀ key ∈ "type" :: sections, key ∉ keys) : Formed saved' := by
  have htype := honly.2 "type" (hkeys _ (by simp))
  have hpart : ∀ name ∈ sections, saved'.get name = saved.get name :=
    fun name hname => honly.2 name (hkeys _ (List.mem_cons_of_mem _ hname))
  refine ⟨honly.1 h.isOpen, fun name hname => ?_, fun name hname => ?_⟩
  · rw [hpart name hname]
    exact h.parts name hname
  · rw [hpart name hname, htype]
    exact h.typed name hname

theorem starts_onlyIn
    (honly : OnlyIn keys saved saved') (hkeys : "exchange" ∉ keys) :
    starts saved' = starts saved := by
  simp only [starts, start, honly.2 _ hkeys]

variable {event : Json}

theorem merged_onlyIn
    (h : Formed saved) (honly : OnlyIn keys saved saved')
    (hkeys : ∀ key ∈ ["first_observed_unix_ms", "cache", "type", "exchange",
      "stream"], key ∉ keys)
    (htype : typeOf event ≠ "payload_checkpoint") (hstarts : startsOf event = []) :
    Merged event saved saved' where
  formed := h.onlyIn honly fun key hkey => hkeys key (by simp at hkey ⊢; tauto)
  first := honly.2 _ (hkeys _ (by simp))
  cache := by rw [if_neg htype, honly.2 _ (hkeys _ (by simp))]
  kept := fun s hs =>
    .inr (by rwa [starts_onlyIn honly (hkeys _ (by simp))] at hs)
  brings := by simp [hstarts]

/-! ## One event into a snapshot -/

theorem OnlyIn.mono {others : List String}
    (h : OnlyIn keys saved saved') (hsub : keys ⊆ others) :
    OnlyIn others saved saved' :=
  ⟨h.1, fun key hkey => h.2 key fun hmem => hkey (hsub hmem)⟩

theorem set2_same (a b : String) (x : Json)
    (h : key ≠ a) : (set2 v a b x).get key = v.get key :=
  Json.get_set_ne v _ h

theorem merged_observation {fields : List (String × Json)}
    (hrecord : event.get "record" = .obj fields) (h : Formed saved)
    (hshape : Shaped event) (htype : typeOf event = "observation") :
    Merged event saved (setAll saved fields) := by
  have hnodup : (fields.map Prod.fst).Nodup := by
    have := hshape.distinct
    rwa [hrecord] at this
  have hget : ∀ key, (setAll saved fields).get key =
      (((event.get "record").get? key).or (saved.get? key)).getD .null := by
    intro key
    rw [Json.get, get?_setAll hnodup h.isOpen, hrecord]
  have hnew : ∀ key x, (event.get "record").get? key = some x →
      (setAll saved fields).get key = x := by
    intro key x hx
    rw [hget, hx]
    rfl
  have hold : ∀ key, (event.get "record").get? key = none →
      (setAll saved fields).get key = saved.get key := by
    intro key hx
    rw [hget, hx]
    rfl
  have hpart : ∀ name ∈ sections, ((setAll saved fields).get name).Open := by
    intro name hname
    cases hx : (event.get "record").get? name with
    | none => exact hold name hx ▸ h.parts name hname
    | some x =>
      rw [hnew name x hx]
      exact open_of_isObject (hshape.parts name hname x hx)
  have hstarts : ∀ s, s ∈ starts (setAll saved fields) ↔
      if (event.get "record").get? "exchange" = none then s ∈ starts saved
      else s ∈ starts (event.get "record") := by
    intro s
    cases hx : (event.get "record").get? "exchange" with
    | none => simp only [mem_starts, start, hold _ hx, if_true]
    | some x =>
      have hrec : (event.get "record").get "exchange" = x := by
        rw [Json.get, hx]
        rfl
      simp only [mem_starts, start, hnew _ x hx, hrec, reduceCtorEq, if_false]
  have hevent : startsOf event = starts (event.get "record") := if_pos htype
  refine ⟨⟨setAll_open h.isOpen fields, hpart, fun name hname htyped => ?_⟩,
    hold _ hshape.noFirst, ?_, fun s hs => ?_, fun s hs => ?_⟩
  · have hobject : ((setAll saved fields).get name).isObject ∨
        (event.get "record").get? name = none := by
      cases hx : (event.get "record").get? name with
      | none => exact .inr rfl
      | some x => exact .inl (hnew name x hx ▸ hshape.parts name hname x hx)
    rcases hobject with hobject | hnone
    · exact hobject
    · cases ht : (event.get "record").get? "type" with
      | none =>
        rw [hold _ hnone]
        exact h.typed name hname (by rwa [hold _ ht] at htyped)
      | some x =>
        -- a record of this type carries the section
        have hrec := hshape.typed name hname (by
          rw [Json.get, ht, Option.getD_some, ← hnew _ x ht]
          exact htyped)
        rw [Json.get, hnone] at hrec
        cases hrec
  · rw [if_neg (by simp [htype]), hold _ hshape.noCache]
  · rw [hstarts] at hs
    split at hs
    · exact .inr hs
    · exact .inl (hevent ▸ hs)
  · rw [hevent] at hs
    rw [hstarts, if_neg]
    · exact hs
    · intro hnone
      have hnull : (event.get "record").get "exchange" = .null := by
        rw [Json.get, hnone]
        rfl
      simp only [mem_starts, start, hnull] at hs
      rcases hs with hs | hs <;> cases hs

theorem merged_exchange (h : Formed saved)
    (honly : OnlyIn ["connection", "protocol", "kind", "type", "exchange"]
      saved saved')
    (htype : saved'.get "type" = .str "exchange")
    (hobject : (saved'.get "exchange").isObject)
    (hne : typeOf event ≠ "payload_checkpoint")
    (hkept : ∀ s ∈ starts saved', s ∈ startsOf event ∨ s ∈ starts saved)
    (hbrings : ∀ s ∈ startsOf event, s ∈ starts saved') :
    Merged event saved saved' where
  formed := by
    refine ⟨honly.1 h.isOpen, fun name hname => ?_, fun name hname hstr => ?_⟩
    · rcases List.mem_pair.1 hname with rfl | rfl
      · exact open_of_isObject hobject
      · rw [honly.2 "stream" (by simp)]
        exact h.parts _ hname
    · rcases List.mem_pair.1 hname with rfl | rfl
      · exact hobject
      · simp [htype, Json.isStr, Json.asStr] at hstr
  first := honly.2 _ (by simp)
  cache := by rw [if_neg hne, honly.2 _ (by simp)]
  kept := hkept
  brings := hbrings

theorem startsOf_head (htype : typeOf event = "message_head") :
    startsOf event = (startOf (event.get "message")).toList := by
  simp [startsOf, htype]

theorem startsOf_end (htype : typeOf event = "exchange_end") :
    startsOf event =
      [startOf (event.get "request"), startOf (event.get "response")].reduceOption := by
  simp [startsOf, htype]

theorem sideName_cases (side : Nat) :
    sideName side = "request" ∨ sideName side = "response" := by
  simp only [sideName]
  split <;> simp

theorem withExchange_isObject (id : Nat) (event : Json) (h : saved.Open) :
    ((withExchange id event saved).get "exchange").isObject := by
  rw [withExchange]
  by_cases hobject : (saved.get "exchange").isObject
  · simp [hobject]
  · simp only [hobject, Bool.not_false, if_true, Json.get_set_self h]
    rfl

theorem withExchange_start (id : Nat) (event : Json) (h : saved.Open)
    {side : String} {s : Nat} (hside : side = "request" ∨ side = "response")
    (hs : start (withExchange id event saved) side = some s) :
    start saved side = some s := by
  by_cases hobject : (saved.get "exchange").isObject
  · simpa [withExchange, hobject] using hs
  · -- a new exchange has no messages
    simp only [withExchange, hobject, Bool.not_false, if_true, start,
      Json.get_set_self h] at hs
    have hnull : (newExchange id event).get side = .null := by
      rcases hside with rfl | rfl <;>
        simp [newExchange, Json.object, Json.get, Json.get?_obj_insertField]
    rw [hnull] at hs
    cases hs

theorem withExchange_onlyIn (id : Nat) (event saved : Json) :
    OnlyIn ["exchange"] saved (withExchange id event saved) :=
  onlyIn_ite (onlyIn_set _ _ (by simp)) (.refl _ _)

theorem merged_messageHead (id : Nat) (h : Formed saved)
    (htype : typeOf event = "message_head") :
    Merged event saved (messageHead id event saved) := by
  have htypedOpen := Json.set_open h.isOpen "type" (.str "exchange")
  obtain ⟨base, hbase⟩ : ∃ base,
      withExchange id event (saved.set "type" (.str "exchange")) = base := ⟨_, rfl⟩
  have honly := withExchange_onlyIn id event (saved.set "type" (.str "exchange"))
  have hobject := withExchange_isObject id event htypedOpen
  have hstart : ∀ side s, side = "request" ∨ side = "response" →
      start (withExchange id event (saved.set "type" (.str "exchange"))) side =
        some s → start (saved.set "type" (.str "exchange")) side = some s :=
    fun side s => withExchange_start id event htypedOpen
  rw [hbase] at honly hobject
  simp only [hbase] at hstart
  have hopen : base.Open := honly.1 htypedOpen
  obtain ⟨exchange, hexchange⟩ : ∃ exchange,
      set2 ((base.get "exchange").set "id" (event.get "exchange_id"))
        "cache" "id" (.num id) = exchange := ⟨_, rfl⟩
  have hexopen : exchange.Open := by
    rw [← hexchange]
    exact Json.set_open (Json.set_open (open_of_isObject hobject) _ _) _ _
  have hside : ∀ side, side = "request" ∨ side = "response" →
      exchange.get side = (base.get "exchange").get side := by
    intro side hside
    rw [← hexchange, set2_same _ _ _ (by rcases hside with rfl | rfl <;> decide),
      Json.get_set_ne _ _ (by rcases hside with rfl | rfl <;> decide)]
  have heq : messageHead id event saved = base.set "exchange"
      (exchange.set (sideName (sideOf event)) (event.get "message")) := by
    simp only [messageHead, hbase, hexchange]
  have hnew : ∀ side, start (messageHead id event saved) side =
      if side = sideName (sideOf event) then startOf (event.get "message")
      else startOf (exchange.get side) := by
    intro side
    rw [heq, start, Json.get_set_self hopen]
    split
    case isTrue h => rw [h, Json.get_set_self hexopen]
    case isFalse h => rw [Json.get_set_ne _ _ h]
  refine merged_exchange h ?_ ?_ ?_ (by simp [htype]) (fun s hs => ?_)
    (fun s hs => ?_)
  · rw [heq]
    exact ((onlyIn_set _ _ (by simp)).trans (honly.mono (by simp))).trans
      (onlyIn_set _ _ (by simp))
  · rw [heq, Json.get_set_ne _ _ (by decide), honly.2 _ (by simp),
      Json.get_set_self h.isOpen]
  · rw [heq, Json.get_set_self hopen]
    exact isObject_set hexopen _ _
  · have hone : ∀ side, side = "request" ∨ side = "response" →
        start (messageHead id event saved) side = some s →
        s ∈ startsOf event ∨ start saved side = some s := by
      intro side hs' hstarts
      rw [hnew] at hstarts
      split at hstarts
      · exact .inl (by rw [startsOf_head htype]; simpa using hstarts)
      · right
        rw [hside side hs'] at hstarts
        have := hstart side s hs' hstarts
        rwa [start, Json.get_set_ne _ _ (by decide)] at this
    rw [mem_starts] at hs ⊢
    rcases hs with hs | hs
    · exact (hone _ (.inl rfl) hs).imp_right .inl
    · exact (hone _ (.inr rfl) hs).imp_right .inr
  · rw [startsOf_head htype, Option.mem_toList] at hs
    rw [mem_starts]
    rcases sideName_cases (sideOf event) with hname | hname
    · left
      rw [hnew, if_pos hname.symm]
      exact hs
    · right
      rw [hnew, if_pos hname.symm]
      exact hs

theorem merged_exchangeEnd (h : Formed saved)
    (htype : typeOf event = "exchange_end") :
    Merged event saved (exchangeEnd event saved) := by
  obtain ⟨exchange, hexchange⟩ : ∃ exchange,
      (saved.get "exchange") = exchange := ⟨_, rfl⟩
  have hexopen : exchange.Open := hexchange ▸ h.parts "exchange" (by simp)
  obtain ⟨ended, hended⟩ : ∃ ended,
      ((((exchange.set "request" (event.get "request")).set "response"
        (event.get "response")).set "informational"
        (event.get "informational")).set "problem" (event.get "problem")).set "id"
        (event.get "exchange_id") = ended := ⟨_, rfl⟩
  have hrequest := Json.set_open hexopen "request" (event.get "request")
  have hresponse := Json.set_open hrequest "response" (event.get "response")
  have hinformational :=
    Json.set_open hresponse "informational" (event.get "informational")
  have hproblem := Json.set_open hinformational "problem" (event.get "problem")
  have htypedOpen := Json.set_open h.isOpen "type" (.str "exchange")
  have heq : exchangeEnd event saved =
      (saved.set "type" (.str "exchange")).set "exchange" ended := by
    have hkeep : (saved.set "type" (.str "exchange")).get "exchange" = exchange := by
      rw [Json.get_set_ne _ _ (by decide), hexchange]
    simp only [exchangeEnd, hkeep, List.foldl_cons, List.foldl_nil, hended]
  have hreq : start (exchangeEnd event saved) "request" =
      startOf (event.get "request") := by
    rw [heq, start, Json.get_set_self htypedOpen, ← hended]
    simp only [ne_eq, String.reduceEq, not_false_eq_true, Json.get_set_ne,
      Json.get_set_self hexopen]
  have hres : start (exchangeEnd event saved) "response" =
      startOf (event.get "response") := by
    rw [heq, start, Json.get_set_self htypedOpen, ← hended]
    simp only [ne_eq, String.reduceEq, not_false_eq_true, Json.get_set_ne,
      Json.get_set_self hrequest]
  have hmem : ∀ s, s ∈ starts (exchangeEnd event saved) ↔ s ∈ startsOf event := by
    intro s
    rw [mem_starts, hreq, hres, startsOf_end htype]
    simp [List.reduceOption_mem_iff, eq_comm]
  refine merged_exchange h ?_ ?_ ?_ (by simp [htype])
    (fun s hs => .inl ((hmem s).1 hs)) fun s hs => (hmem s).2 hs
  · rw [heq]
    exact (onlyIn_set _ _ (by simp)).trans (onlyIn_set _ _ (by simp))
  · rw [heq, Json.get_set_ne _ _ (by decide), Json.get_set_self h.isOpen]
  · rw [heq, Json.get_set_self htypedOpen, ← hended]
    exact isObject_set hproblem _ _

/-! ## The cache of a section -/

variable {name : String}

theorem spread_get_ne (cache saved : Json) (h : key ≠ name) :
    (spread cache saved name).get key = saved.get key := by
  rw [spread]
  split
  · exact set2_same _ _ _ h
  · rfl

theorem spread_open (cache : Json) (h : saved.Open)
    (name : String) : (spread cache saved name).Open := by
  rw [spread]
  split
  · exact Json.set_open h _ _
  · exact h

theorem spread_get_self (cache : Json) (h : saved.Open) (name : String) :
    (spread cache saved name).get name =
      if (saved.get name).isObject then (saved.get name).set "cache" cache
      else saved.get name := by
  rw [spread]
  split
  · exact Json.get_set_self h _ _
  · rfl

def spreadAll (cache saved : Json) : Json :=
  sections.foldl (spread cache) saved

theorem spreadAll_open (cache : Json) (h : saved.Open) :
    (spreadAll cache saved).Open :=
  spread_open cache (spread_open cache h _) _

theorem spreadAll_get_ne (cache saved : Json)
    (h : key ∉ sections) : (spreadAll cache saved).get key = saved.get key := by
  simp only [List.mem_cons, List.not_mem_nil, or_false, not_or] at h
  simp only [spreadAll, List.foldl_cons, List.foldl_nil]
  rw [spread_get_ne _ _ h.2, spread_get_ne _ _ h.1]

theorem spreadAll_get (cache : Json) (h : saved.Open) (hname : name ∈ sections) :
    (spreadAll cache saved).get name =
      if (saved.get name).isObject then (saved.get name).set "cache" cache
      else saved.get name := by
  simp only [spreadAll, List.foldl_cons, List.foldl_nil]
  rcases List.mem_pair.1 hname with rfl | rfl
  · rw [spread_get_ne _ _ (by decide), spread_get_self _ h]
  · rw [spread_get_self _ (spread_open _ h _), spread_get_ne _ _ (by decide)]

theorem spreadAll_start (cache : Json) (h : saved.Open)
    {side : String} (hside : side ≠ "cache") :
    start (spreadAll cache saved) side = start saved side := by
  rw [start, spreadAll_get cache h (by simp)]
  split
  · rw [Json.get_set_ne _ _ hside, ← start]
  · rfl

theorem spreadAll_formed (cache : Json) (h : Formed saved) :
    Formed (spreadAll cache saved) := by
  refine ⟨spreadAll_open cache h.isOpen, fun name hname => ?_,
    fun name hname htyped => ?_⟩
  · rw [spreadAll_get cache h.isOpen hname]
    split
    · exact Json.set_open (h.parts name hname) _ _
    · exact h.parts name hname
  · rw [spreadAll_get_ne _ _ (by simp)] at htyped
    have hobject := h.typed name hname htyped
    rw [spreadAll_get cache h.isOpen hname, if_pos hobject]
    exact isObject_set (h.parts name hname) _ _

theorem merged_checkpoint (h : Formed saved)
    (htype : typeOf event = "payload_checkpoint") :
    Merged event saved (checkpoint event saved) := by
  have hset : OnlyIn ["cache"] saved (saved.set "cache" (event.get "cache")) :=
    onlyIn_set saved _ (by simp)
  have hformed : Formed (saved.set "cache" (event.get "cache")) :=
    h.onlyIn hset (by simp)
  have hstarts : ∀ s, s ∈ starts (checkpoint event saved) ↔ s ∈ starts saved := by
    intro s
    simp only [mem_starts]
    rw [checkpoint, ← spreadAll, spreadAll_start _ hformed.isOpen (by decide),
      spreadAll_start _ hformed.isOpen (by decide)]
    simp only [start, Json.get_set_ne saved (event.get "cache")
      (show "exchange" ≠ "cache" by decide)]
  refine ⟨spreadAll_formed _ hformed, ?_, ?_, fun s hs => .inr ((hstarts s).1 hs), ?_⟩
  · rw [checkpoint, ← spreadAll, spreadAll_get_ne _ _ (by simp),
      Json.get_set_ne _ _ (by decide)]
  · rw [if_pos htype, checkpoint, ← spreadAll, spreadAll_get_ne _ _ (by simp),
      Json.get_set_self h.isOpen]
  · simp [startsOf, htype]

theorem merged_mergeContext (h : Merged event (mergeContext event saved) saved') :
    Merged event saved saved' where
  formed := h.formed
  first := h.first.trans ((mergeContext_onlyIn event saved).2 _ (by simp))
  cache := by rw [h.cache, (mergeContext_onlyIn event saved).2 _ (by simp)]
  kept := fun s hs => (h.kept s hs).imp_right fun hmem => by
    rwa [starts_onlyIn (mergeContext_onlyIn event saved) (by simp)] at hmem
  brings := h.brings

theorem merge_merged (files : Files) (id : Nat)
    (h : Formed saved) (hshape : Shaped event) :
    ∃ saved', merge files id event saved = .ok saved' ∧
      Merged event saved saved' := by
  by_cases hobs : typeOf event = "observation"
  · have hobject := hshape.record hobs
    cases hrecord : event.get "record" with
    | obj fields =>
      refine ⟨setAll saved fields, ?_, merged_observation hrecord h hshape hobs⟩
      simp only [merge, hobs, hrecord, if_true]
    | _ => simp [hrecord, Json.isObject] at hobject
  have hcontext : Formed (mergeContext event saved) :=
    h.onlyIn (mergeContext_onlyIn event saved) (by simp)
  simp only [merge, hobs, if_false]
  refine ⟨_, rfl, merged_mergeContext ?_⟩
  by_cases hhead : typeOf event = "message_head"
  · simpa only [hhead, if_true] using merged_messageHead id hcontext hhead
  by_cases hend : typeOf event = "exchange_end"
  · simpa only [hend, String.reduceEq, if_true, if_false] using
      merged_exchangeEnd hcontext hend
  by_cases hcheckpoint : typeOf event = "payload_checkpoint"
  · simpa only [hcheckpoint, String.reduceEq, if_true, if_false] using
      merged_checkpoint hcontext hcheckpoint
  have hstarts : startsOf event = [] := by simp [startsOf, hobs, hhead, hend]
  simp only [hhead, hend, hcheckpoint, if_false]
  have honly : ∀ saved, OnlyIn ["payloads"] saved
      (if typeOf event = "body_decode" then bodyDecode files event saved
        else if typeOf event = "datagram" then datagram id event saved
        else saved) := fun saved =>
    onlyIn_ite (onlyIn_set _ _ (by simp))
      (onlyIn_ite (onlyIn_set _ _ (by simp)) (.refl _ _))
  exact merged_onlyIn hcontext (honly _) (by simp) hcheckpoint hstarts

/-! ## The cache wherever the snapshot names one -/

def Embeds (saved : Json) (name : String) : Prop :=
  (saved.get "type").isStr name ∨ ∃ key, (saved.get name).get key ≠ .null

def CacheIs (saved cache : Json) : Prop :=
  saved.get "cache" = cache ∧
    ∀ name ∈ sections, Embeds saved name → (saved.get name).get "cache" = cache

theorem spreadCache_eq (saved : Json) : spreadCache saved =
    if (saved.get "cache").isObject then spreadAll (saved.get "cache") saved
    else saved := rfl

theorem cacheIs_spreadCache (h : Formed saved)
    (hcache : (saved.get "cache").isObject) :
    CacheIs (spreadCache saved) (saved.get "cache") := by
  rw [spreadCache_eq, if_pos hcache]
  refine ⟨spreadAll_get_ne _ _ (by simp), fun name hname hembeds => ?_⟩
  have hobject : (saved.get name).isObject := by
    rcases hembeds with htype | ⟨key, hkey⟩
    · rw [spreadAll_get_ne _ _ (by simp)] at htype
      exact h.typed name hname htype
    · rw [spreadAll_get _ h.isOpen hname] at hkey
      split at hkey
      case isTrue hobject => exact hobject
      case isFalse => exact isObject_of_get hkey
  rw [spreadAll_get _ h.isOpen hname, if_pos hobject,
    Json.get_set_self (open_of_isObject hobject)]

/-- The state of a snapshot once its times and its cache are settled; what is
written afterwards leaves both as they are. -/
structure Settled (seen : List Nat) (cache : Option Json) (saved : Json) :
    Prop where
  formed : Formed saved
  first : saved.get "first_observed_unix_ms" = .num (soonest seen)
  kept : ∀ s ∈ starts saved, s ∈ seen
  none : cache = none → saved.get "cache" = .null
  some : ∀ c, cache = some c → c.isObject ∧ CacheIs saved c

structure Calm (saved saved' : Json) : Prop where
  formed : Formed saved'
  same : ∀ key ∈ ["first_observed_unix_ms", "cache"], saved'.get key = saved.get key
  starts : starts saved' = starts saved
  parts : ∀ name ∈ sections, Embeds saved' name →
    (Embeds saved name ∧
      (saved'.get name).get "cache" = (saved.get name).get "cache") ∨
    (saved'.get name).get "cache" = saved.get "cache"

variable {cache : Option Json}

theorem Settled.calm {seen : List Nat}
    (h : Settled seen cache saved) (hcalm : Calm saved saved') :
    Settled seen cache saved' where
  formed := hcalm.formed
  first := (hcalm.same _ (by simp)).trans h.first
  kept := fun s hs => h.kept s (hcalm.starts ▸ hs)
  none := fun hnone => (hcalm.same _ (by simp)).trans (h.none hnone)
  some := fun c hc => by
    obtain ⟨hobject, hcache, hparts⟩ := h.some c hc
    refine ⟨hobject, (hcalm.same _ (by simp)).trans hcache,
      fun name hname hembeds => ?_⟩
    rcases hcalm.parts name hname hembeds with ⟨hold, heq⟩ | heq
    · exact heq.trans (hparts name hname hold)
    · exact heq.trans hcache

theorem calm_onlyIn (h : Formed saved)
    (honly : OnlyIn keys saved saved')
    (hkeys : ∀ key ∈ ["first_observed_unix_ms", "cache", "type", "exchange",
      "stream"], key ∉ keys) : Calm saved saved' where
  formed := h.onlyIn honly fun key hkey => hkeys key (by simp at hkey ⊢; tauto)
  same := fun key hkey => honly.2 key (hkeys key (by simp at hkey ⊢; tauto))
  starts := starts_onlyIn honly (hkeys _ (by simp))
  parts := fun name hname hembeds => by
    have hpart : saved'.get name = saved.get name :=
      honly.2 name (hkeys name (by simp at hname ⊢; tauto))
    left
    rw [hpart]
    refine ⟨?_, rfl⟩
    simpa only [Embeds, hpart, honly.2 "type" (hkeys _ (by simp))] using hembeds

structure Rewritten (part part' : Json) : Prop where
  isOpen : part'.Open
  object : part.isObject → part'.isObject
  cache : part'.get "cache" = part.get "cache"
  starts : ∀ side ∈ ["request", "response"],
    startOf (part'.get side) = startOf (part.get side)

theorem rewritten_set {part : Json} (h : part.Open) (x : Json)
    (hcache : key ≠ "cache")
    (hstart : key ∈ ["request", "response"] → startOf x = startOf (part.get key)) :
    Rewritten part (part.set key x) where
  isOpen := Json.set_open h _ _
  object := fun _ => isObject_set h _ _
  cache := Json.get_set_ne _ _ hcache.symm
  starts := fun side hside => by
    by_cases hkey : side = key
    · rw [hkey, Json.get_set_self h]
      exact hstart (hkey ▸ hside)
    · rw [Json.get_set_ne _ _ hkey]

theorem Rewritten.trans {a b c : Json} (h : Rewritten a b) (h' : Rewritten b c) :
    Rewritten a c where
  isOpen := h'.isOpen
  object := h'.object ∘ h.object
  cache := h'.cache.trans h.cache
  starts := fun side hside => (h'.starts side hside).trans (h.starts side hside)

theorem calm_section {part : Json} (h : Formed saved)
    (hname : name ∈ sections) (hpart : Rewritten (saved.get name) part)
    (htells : Embeds saved name ∨
      ∀ key, part.get key ≠ .null → (saved.get name).get key ≠ .null) :
    Calm saved (saved.set name part) := by
  have htype : (saved.set name part).get "type" = saved.get "type" :=
    Json.get_set_ne _ _ fun heq => by subst heq; simp at hname
  have hget : ∀ other, (saved.set name part).get other =
      if other = name then part else saved.get other := by
    intro other
    split
    case isTrue heq => rw [heq, Json.get_set_self h.isOpen]
    case isFalse hne => exact Json.get_set_ne _ _ hne
  refine ⟨⟨Json.set_open h.isOpen _ _, fun other hother => ?_,
    fun other hother hstr => ?_⟩, fun key hkey => ?_, ?_, fun other hother hembeds => ?_⟩
  · rw [hget]
    split
    · exact hpart.isOpen
    · exact h.parts other hother
  · rw [htype] at hstr
    rw [hget]
    split
    case isTrue heq => exact hpart.object (heq ▸ h.typed other hother hstr)
    case isFalse => exact h.typed other hother hstr
  · apply Json.get_set_ne
    rintro rfl
    rcases List.mem_pair.1 hname with rfl | rfl <;> simp at hkey
  · simp only [starts, start, hget]
    split
    case isTrue heq =>
      subst heq
      rw [hpart.starts "request" (by simp), hpart.starts "response" (by simp)]
    case isFalse => rfl
  · left
    by_cases heq : other = name
    · subst heq
      rw [hget, if_pos rfl]
      refine ⟨?_, hpart.cache⟩
      rcases htells with hold | htells
      · exact hold
      · refine hembeds.imp (fun hstr => by rwa [htype] at hstr) ?_
        rintro ⟨key, hkey⟩
        rw [hget, if_pos rfl] at hkey
        exact ⟨key, htells key hkey⟩
    · simpa only [Embeds, htype, hget, if_neg heq, and_true] using hembeds

theorem Calm.refl (h : Formed saved) : Calm saved saved where
  formed := h
  same := fun _ _ => rfl
  starts := rfl
  parts := fun _ _ hembeds => .inl ⟨hembeds, rfl⟩

theorem Calm.trans {a b c : Json} (h : Calm a b) (h' : Calm b c) : Calm a c where
  formed := h'.formed
  same := fun key hkey => (h'.same key hkey).trans (h.same key hkey)
  starts := h'.starts.trans h.starts
  parts := fun name hname hembeds => by
    rcases h'.parts name hname hembeds with ⟨hb, heq⟩ | heq
    · rcases h.parts name hname hb with ⟨ha, hab⟩ | hab
      · exact .inl ⟨ha, heq.trans hab⟩
      · exact .inr (heq.trans hab)
    · exact .inr (heq.trans (h.same "cache" (by simp)))

/-! ## What follows the merge -/

theorem startOf_set {m : Json} (x : Json)
    (h : key ≠ "observed_start_unix_ms") : startOf (m.set key x) = startOf m := by
  rw [startOf, Json.get_set_ne _ _ h.symm, ← startOf]

theorem startOf_remove {m : Json}
    (h : key ≠ "observed_start_unix_ms") : startOf (m.remove key) = startOf m := by
  rw [startOf, Json.get_remove_ne _ h.symm, ← startOf]

theorem startOf_stripHeaders (id side : Nat) (suffix : String) (message : Json) :
    startOf (stripHeaders id side suffix message) = startOf message := by
  rw [stripHeaders]
  split
  · rfl
  · obtain ⟨m, hm⟩ : ∃ m, (if (message.get "headers").isArray then
        (message.set "headers_file"
          (.str (payloadName id side (suffix ++ ".headers.txt")))).remove "headers"
      else message) = m := ⟨_, rfl⟩
    have hstart : startOf m = startOf message := by
      rw [← hm]
      split
      · rw [startOf_remove (by decide), startOf_set _ (by decide)]
      · rfl
    simp only [hm]
    split
    · exact hstart
    · split
      · rw [startOf_set _ (by decide), startOf_remove (by decide), hstart]
      · rw [startOf_remove (by decide), hstart]

theorem stripHeaders_null (id side : Nat) (suffix : String) {message : Json}
    (h : stripHeaders id side suffix message ≠ .null) : message ≠ .null := by
  rintro rfl
  exact h rfl

theorem calm_streamOfCheckpoint (h : Formed saved)
    (hcache : event.get "cache" = saved.get "cache") :
    Calm saved (streamOfCheckpoint event saved) := by
  rw [streamOfCheckpoint]
  split
  case isFalse => exact .refl h
  case isTrue =>
    have hopen := Json.set_open h.isOpen "type" (.str "stream")
    obtain ⟨stream, hstream⟩ : ∃ stream, Json.object
        [("cache", event.get "cache"), ("datagrams", .arr [.arr [], .arr []]),
          ("packet_counts", .arr [.num 0, .num 0])] = stream := ⟨_, rfl⟩
    have hobject : stream.isObject := by
      rw [← hstream]
      rfl
    have hstreamCache : stream.get "cache" = saved.get "cache" := by
      rw [← hstream, ← hcache]
      simp [Json.object, Json.get, Json.get?_obj_insertField]
    rw [hstream]
    have honly : OnlyIn ["type", "stream"] saved
        ((saved.set "type" (.str "stream")).set "stream" stream) :=
      (onlyIn_set _ _ (by simp)).trans (onlyIn_set _ _ (by simp))
    have htype : ((saved.set "type" (.str "stream")).set "stream" stream).get
        "type" = .str "stream" := by
      rw [Json.get_set_ne _ _ (by decide), Json.get_set_self h.isOpen]
    have hget := Json.get_set_self hopen "stream" stream
    have hexchange := honly.2 "exchange" (by simp)
    refine ⟨⟨honly.1 h.isOpen, fun name hname => ?_, fun name hname hstr => ?_⟩,
      fun key hkey => honly.2 key (by simp at hkey ⊢; rcases hkey with rfl | rfl <;> decide),
      starts_onlyIn honly (by simp), fun name hname hembeds => ?_⟩
    · rcases List.mem_pair.1 hname with rfl | rfl
      · exact hexchange ▸ h.parts _ hname
      · rw [hget]
        exact open_of_isObject hobject
    · rcases List.mem_pair.1 hname with rfl | rfl
      · simp [htype, Json.isStr, Json.asStr] at hstr
      · rw [hget]
        exact hobject
    · rcases List.mem_pair.1 hname with rfl | rfl
      · left
        rw [hexchange]
        refine ⟨.inr ?_, rfl⟩
        rcases hembeds with hstr | htells
        · simp [htype, Json.isStr, Json.asStr] at hstr
        · rwa [hexchange] at htells
      · right
        rw [hget]
        exact hstreamCache

theorem embeds_of_type
    (h : (saved.get "type").isStr name) : Embeds saved name := .inl h

theorem calm_streamCounts (cache : Json) (h : Formed saved) :
    Calm saved (streamCounts cache saved) := by
  simp only [streamCounts]
  split
  case isFalse => exact .refl h
  case isTrue htype =>
    have hopen := h.parts "stream" (by simp)
    have hstep : ∀ {part : Json} (key : String) (x : Json), key ≠ "cache" →
        key ∉ ["request", "response"] → Rewritten (saved.get "stream") part →
        Rewritten (saved.get "stream") (part.set key x) :=
      fun key x hcache hside hpart => hpart.trans
        (rewritten_set hpart.isOpen x hcache fun hmem => absurd hmem hside)
    have hrefl : Rewritten (saved.get "stream") (saved.get "stream") :=
      ⟨hopen, id, rfl, fun _ _ => rfl⟩
    refine calm_section h (by simp) ?_ (.inl (embeds_of_type htype))
    exact hstep _ _ (by decide) (by simp) (hstep _ _ (by decide) (by simp)
      (hstep _ _ (by decide) (by simp) (hstep _ _ (by decide) (by simp) hrefl)))

theorem calm_bodyBytes (cache : Json) (h : Formed saved)
    {side : String} (hside : side ∈ ["request", "response"]) (bytes : String) :
    Calm saved (bodyBytes cache saved side bytes) := by
  rw [bodyBytes]
  split
  case isFalse => exact .refl h
  case isTrue hobject =>
    have htells : ((saved.get "exchange").get side) ≠ .null := by
      intro hnull
      rw [hnull] at hobject
      cases hobject
    refine calm_section h (by simp) (rewritten_set (h.parts _ (by simp)) _ ?_ ?_)
      (.inl (.inr ⟨side, htells⟩))
    · rintro rfl
      simp at hside
    · intro
      exact startOf_set _ (by decide)

theorem calm_exchangeCounts (cache : Json) (h : Formed saved) :
    Calm saved (exchangeCounts cache saved) := by
  rw [exchangeCounts]
  split
  case isFalse => exact .refl h
  case isTrue =>
    have hrequest : Calm saved (bodyBytes cache saved "request" "request_bytes") :=
      calm_bodyBytes cache h (by simp) _
    exact hrequest.trans (calm_bodyBytes cache hrequest.formed (by simp) _)

theorem calm_finishCheckpoint (h : Formed saved)
    (hcache : typeOf event = "payload_checkpoint" →
      event.get "cache" = saved.get "cache") :
    Calm saved (finishCheckpoint event saved) := by
  rw [finishCheckpoint]
  split
  case isFalse => exact .refl h
  case isTrue htype =>
    have hstream := calm_streamOfCheckpoint h (hcache htype)
    have hcounts := hstream.trans
      (calm_streamCounts (event.get "cache") hstream.formed)
    exact hcounts.trans (calm_exchangeCounts _ hcounts.formed)

theorem calm_exchange {x : Json} (h : Formed saved)
    (hcache : key ≠ "cache")
    (hstart : key ∈ ["request", "response"] →
      startOf x = startOf ((saved.get "exchange").get key))
    (hnull : x ≠ .null → (saved.get "exchange").get key ≠ .null) :
    Calm saved (saved.set "exchange" ((saved.get "exchange").set key x)) := by
  have hopen := h.parts "exchange" (by simp)
  refine calm_section h (by simp) (rewritten_set hopen x hcache hstart)
    (.inr fun other hother => ?_)
  by_cases hkey : other = key
  · rw [hkey, Json.get_set_self hopen] at hother
    exact hkey ▸ hnull hother
  · rwa [Json.get_set_ne _ _ hkey] at hother

theorem calm_summarize (h : Formed saved) (key : String) :
    Calm saved (summarize saved key) := by
  have honly : OnlyIn ["summary"] saved (summarize saved key) := by
    rw [summarize]
    split
    · exact onlyIn_set _ _ (by simp)
    · exact .refl _ _
  exact calm_onlyIn h honly (by simp)

theorem calm_stripSide (protocol : String) (id side : Nat)
    (h : Formed saved) : Calm saved (stripSide protocol id side saved) := by
  rw [stripSide]
  split
  case isFalse => exact .refl h
  case isTrue =>
    refine calm_exchange h ?_ (fun _ => startOf_stripHeaders _ _ _ _)
      (stripHeaders_null _ _ _)
    rcases sideName_cases side with hkey | hkey <;> simp [hkey]

theorem calm_projectSide (files : Files) (protocol : String) (id : Nat)
    (h : Formed saved) (side : Nat) :
    Calm saved (projectSide files protocol id saved side) := by
  have hsummary := calm_summarize h (sideName side)
  have hstrip := hsummary.trans (calm_stripSide protocol id side hsummary.formed)
  have hpayload : OnlyIn ["payloads"]
      (stripSide protocol id side (summarize saved (sideName side)))
      (projectSide files protocol id saved side) := onlyIn_set _ _ (by simp)
  exact hstrip.trans (calm_onlyIn hstrip.formed hpayload (by simp))

theorem calm_projectInformational (id : Nat) (h : Formed saved) :
    Calm saved (projectInformational id saved) := by
  refine calm_exchange h (by decide) (by simp) ?_
  cases (saved.get "exchange").get "informational" <;> simp

/-! ## One projection -/

/-- What a snapshot is before its next event: the times seen so far, and the
last checkpoint if there was one. -/
structure Before (seen : List Nat) (cache : Option Json) (saved : Json) :
    Prop where
  formed : Formed saved
  first : saved.get "first_observed_unix_ms" = .num (soonest seen)
  kept : ∀ s ∈ starts saved, s ∈ seen
  bound : ∀ t ∈ seen, t < 2 ^ 64
  none : cache = none → saved.get "cache" = .null
  some : ∀ c, cache = some c → c.isObject ∧ saved.get "cache" = c

def cacheAfter (cache : Option Json) (event : Json) : Option Json :=
  if typeOf event = "payload_checkpoint" then some (event.get "cache") else cache

variable {a : Arrival}

theorem firstObserved_eq {seen : List Nat} (h : Before seen cache saved)
    (hmerged : Merged a.event saved saved') :
    firstObserved saved' (observedOf a.clock a.event) =
      soonest (seen ++ timesOf a) := by
  obtain ⟨known, hknown⟩ : ∃ known,
      (some (observedOf a.clock a.event) :: [
        (saved'.get "first_observed_unix_ms").asNat, start saved' "request",
        start saved' "response"]).reduceOption = known := ⟨_, rfl⟩
  have hmem : ∀ t, t ∈ known ↔ t = observedOf a.clock a.event ∨
      t = soonest seen ∨ t ∈ starts saved' := by
    intro t
    rw [← hknown, hmerged.first, h.first, asNat_num (soonest_lt h.bound)]
    simp [List.reduceOption_mem_iff, mem_starts, eq_comm]
  have hall : earliest known = earliest (seen ++ timesOf a) := by
    apply earliest_congr
    · intro t ht ht0
      rcases List.mem_append.1 ht with hseen | htimes
      · exact ⟨_, (hmem _).2 (.inr (.inl rfl)), soonest_le hseen ht0⟩
      · rcases List.mem_cons.1 htimes with heq | hstart
        · exact ⟨t, (hmem t).2 (.inl heq), ht0, le_rfl⟩
        · exact ⟨t, (hmem t).2 (.inr (.inr (hmerged.brings t hstart))), ht0, le_rfl⟩
    · intro t ht ht0
      refine ⟨t, List.mem_append.2 ?_, ht0, le_rfl⟩
      rcases (hmem t).1 ht with heq | heq | hstart
      · exact .inr (List.mem_cons.2 (.inl heq))
      · subst heq
        exact .inl (soonest_mem ht0)
      · rcases hmerged.kept t hstart with hevent | hold
        · exact .inr (List.mem_cons_of_mem _ hevent)
        · exact .inl (h.kept t hold)
  have hfirst : firstObserved saved' (observedOf a.clock a.event) =
      (earliest known).getD (observedOf a.clock a.event) := by
    rw [← hknown]
    rfl
  rw [hfirst, soonest, ← hall]
  cases hearliest : earliest known with
  | some t => rfl
  | none => exact earliest_eq_none.1 hearliest _ ((hmem _).2 (.inl rfl))

theorem spreadCache_merged (h : Formed saved) :
    Formed (spreadCache saved) ∧
      (spreadCache saved).get "first_observed_unix_ms" =
        saved.get "first_observed_unix_ms" ∧
      (spreadCache saved).get "cache" = saved.get "cache" ∧
      starts (spreadCache saved) = starts saved := by
  rw [spreadCache_eq]
  split
  · refine ⟨spreadAll_formed _ h, spreadAll_get_ne _ _ (by simp),
      spreadAll_get_ne _ _ (by simp), ?_⟩
    simp only [starts, spreadAll_start _ h.isOpen
      (show "request" ≠ "cache" by decide), spreadAll_start _ h.isOpen
      (show "response" ≠ "cache" by decide)]
  · exact ⟨h, rfl, rfl, rfl⟩

theorem Merged.spreadCache (h : Merged event saved saved') :
    Merged event saved (spreadCache saved') := by
  obtain ⟨hformed, hfirst, hcache, hstarts⟩ := spreadCache_merged h.formed
  exact ⟨hformed, hfirst.trans h.first, hcache.trans h.cache,
    fun s hs => h.kept s (hstarts ▸ hs), fun s hs => hstarts ▸ h.brings s hs⟩

theorem cacheIs_merged {seen : List Nat} (h : Before seen cache saved)
    (hshape : Shaped event) (hmerged : Merged event saved saved') :
    (cacheAfter cache event = none → saved'.get "cache" = .null) ∧
    ∀ c, cacheAfter cache event = some c → c.isObject ∧ saved'.get "cache" = c := by
  have hcache := hmerged.cache
  rw [cacheAfter]
  split at hcache
  case isTrue htype =>
    rw [if_pos htype]
    refine ⟨by simp, fun c hc => ?_⟩
    rw [← Option.some.inj hc]
    exact ⟨hshape.checkpoint htype, hcache⟩
  case isFalse htype =>
    rw [if_neg htype, hcache]
    exact ⟨h.none, h.some⟩

theorem settled_first {seen : List Nat} (h : Before seen cache saved)
    (hshape : Shaped a.event) (hmerged : Merged a.event saved saved') :
    Settled (seen ++ timesOf a) (cacheAfter cache a.event)
      ((spreadCache saved').set "first_observed_unix_ms"
        (.num (firstObserved (spreadCache saved')
          (observedOf a.clock a.event)))) := by
  have hspread := hmerged.spreadCache
  obtain ⟨hnone, hsome⟩ := cacheIs_merged h hshape hmerged
  have honly : ∀ x, OnlyIn ["first_observed_unix_ms"] (spreadCache saved')
      ((spreadCache saved').set "first_observed_unix_ms" x) :=
    fun x => onlyIn_set _ x (by simp)
  have hcache := (spreadCache_merged hmerged.formed).2.2.1
  refine ⟨hspread.formed.onlyIn (honly _) (by simp), ?_, fun s hs => ?_,
    fun hn => ?_, fun c hc => ?_⟩
  · rw [Json.get_set_self hspread.formed.isOpen, firstObserved_eq h hspread]
  · rw [starts_onlyIn (honly _) (by simp)] at hs
    rw [List.mem_append]
    rcases hspread.kept s hs with hevent | hold
    · exact .inr (List.mem_cons_of_mem _ hevent)
    · exact .inl (h.kept s hold)
  · rw [(honly _).2 _ (by simp), hcache, hnone hn]
  · obtain ⟨hobject, heq⟩ := hsome c hc
    have his := cacheIs_spreadCache hmerged.formed (by rw [heq]; exact hobject)
    rw [heq] at his
    refine ⟨hobject, ((honly _).2 _ (by simp)).trans his.1,
      fun name hname hembeds => ?_⟩
    have hne : name ∉ ["first_observed_unix_ms"] := by
      rcases List.mem_pair.1 hname with rfl | rfl <;> decide
    simp only [Embeds, (honly _).2 name hne, (honly _).2 "type" (by simp)] at hembeds
    rw [(honly _).2 name hne]
    exact his.2 name hname hembeds

theorem projectSession_settled {seen : List Nat} (id : Nat)
    (h : Before seen cache saved) (hshape : Shaped a.event) :
    ∃ saved', projectSession a.files a.clock id a.event saved = .ok saved' ∧
      Settled (seen ++ timesOf a) (cacheAfter cache a.event) saved' := by
  obtain ⟨merged, hmerge, hmerged⟩ := merge_merged a.files id h.formed hshape
  have hsettled := settled_first h hshape hmerged
  simp only [projectSession, hmerge, Except.map]
  refine ⟨_, rfl, ?_⟩
  obtain ⟨timed, htimed⟩ : ∃ timed,
      (spreadCache merged).set "first_observed_unix_ms"
        (.num (firstObserved (spreadCache merged)
          (observedOf a.clock a.event))) = timed := ⟨_, rfl⟩
  rw [htimed] at hsettled
  simp only [htimed]
  have hfinish : Calm timed (finishCheckpoint a.event timed) := by
    refine calm_finishCheckpoint hsettled.formed fun htype => ?_
    exact ((hsettled.some _ (if_pos htype)).2.1).symm
  have hside := hfinish.trans
    (calm_projectSide a.files (protocolOf timed) id hfinish.formed 0)
  have hsides := hside.trans
    (calm_projectSide a.files (protocolOf timed) id hside.formed 1)
  have hinfo := hsides.trans (calm_projectInformational id hsides.formed)
  have hlast : ∀ (v x y : Json), OnlyIn ["observed_unix_ms", "sequence"] v
      ((v.set "observed_unix_ms" x).set "sequence" y) := fun v x y =>
    (onlyIn_set v x (by simp)).trans (onlyIn_set _ y (by simp))
  exact hsettled.calm (hinfo.trans (calm_onlyIn hinfo.formed (hlast _ _ _) (by simp)))

/-! ## Whole runs -/

def concerns (id : Nat) (a : Arrival) : Bool :=
  !(typeOf a.event == "observation" &&
    ((a.event.get "record").get "type").isStr "connection") &&
    idOf a.event == some id

def run (arrivals : List Arrival) : Snapshots :=
  arrivals.foldl project fun _ => none

def seen (id : Nat) (arrivals : List Arrival) : List Nat :=
  (arrivals.filter (concerns id)).flatMap timesOf

def lastCheckpoint (id : Nat) (arrivals : List Arrival) : Option Json :=
  ((arrivals.filter fun a =>
    concerns id a && typeOf a.event == "payload_checkpoint").getLast?).map
    fun a => a.event.get "cache"

theorem run_concat (arrivals : List Arrival) (a : Arrival) :
    run (arrivals ++ [a]) = project (run arrivals) a := by
  simp [run, List.foldl_append]

theorem project_other {store : Snapshots} {id : Nat}
    (h : concerns id a = false) : project store a id = store id := by
  rw [project]
  split
  case isTrue => rfl
  case isFalse hconn =>
    cases hid : idOf a.event with
    | none => rfl
    | some other =>
      have hne : id ≠ other := by
        rintro rfl
        simp only [concerns, hid, BEq.rfl, Bool.and_true, Bool.not_eq_false',
          Bool.and_eq_true, beq_iff_eq] at h
        exact hconn h
      simp only
      cases projectSession a.files a.clock other a.event
          ((store other).getD (newSession other (observedOf a.clock a.event))) with
      | ok saved => exact Function.update_of_ne hne _ _
      | error e => rfl

theorem project_self {store : Snapshots} {id : Nat} (h : concerns id a) :
    project store a id =
      match projectSession a.files a.clock id a.event
        ((store id).getD (newSession id (observedOf a.clock a.event))) with
      | .ok saved => some saved
      | .error _ => store id := by
  simp only [concerns, Bool.and_eq_true, Bool.not_eq_true', Bool.and_eq_false_imp,
    beq_iff_eq] at h
  obtain ⟨hconn, hid⟩ := h
  rw [project, if_neg (fun hboth => by simp [hconn hboth.1] at hboth), hid]
  simp only
  cases projectSession a.files a.clock id a.event
      ((store id).getD (newSession id (observedOf a.clock a.event))) with
  | ok saved => exact Function.update_self _ _ _
  | error e => rfl

private theorem soonest_congr {xs ys : List Nat} (h : ∀ t, t ∈ xs ↔ t ∈ ys) :
    soonest xs = soonest ys := by
  rw [soonest, soonest, earliest_congr (fun t ht ht0 => ⟨t, (h t).2 ht, ht0, le_rfl⟩)
    fun t ht ht0 => ⟨t, (h t).1 ht, ht0, le_rfl⟩]

theorem Settled.congr {seen : List Nat}
    (h : Settled seen cache saved) (hmem : ∀ t, t ∈ seen ↔ t ∈ times) :
    Settled times cache saved where
  formed := h.formed
  first := soonest_congr hmem ▸ h.first
  kept := fun s hs => (hmem s).1 (h.kept s hs)
  none := h.none
  some := h.some

theorem soonest_singleton (t : Nat) : soonest [t] = t := by
  by_cases h : t = 0
  · simp [soonest, earliest, h]
  · simp [soonest, earliest, h]

theorem get_newSession (id observed : Nat) {key : String}
    (h : key ∈ ["exchange", "stream", "type", "cache"]) :
    (newSession id observed).get key = .null := by
  simp only [List.mem_cons, List.not_mem_nil, or_false] at h
  simp only [newSession, Json.object, List.foldl_cons, List.foldl_nil, Json.get,
    Json.get?_obj_insertField, Json.get?_obj_nil]
  rcases h with rfl | rfl | rfl | rfl <;> rfl

theorem before_newSession (id : Nat) {observed : Nat} (h : observed < 2 ^ 64) :
    Before [observed] none (newSession id observed) where
  formed := by
    refine ⟨trivial, fun name hname => ?_, fun name _ htype => ?_⟩
    · rw [get_newSession id observed (by simp at hname ⊢; tauto)]
      trivial
    · simp [get_newSession, Json.isStr, Json.asStr] at htype
  first := by
    simp [newSession, Json.object, Json.get, Json.get?_obj_insertField,
      soonest_singleton]
  kept := by
    intro s hs
    have hnull := @get_newSession id observed "exchange" (by simp)
    simp only [mem_starts, start, hnull] at hs
    rcases hs with hs | hs <;> cases hs
  bound := by simpa using h
  none := fun _ => get_newSession id observed (by simp)
  some := by simp

theorem seen_concat (id : Nat) (arrivals : List Arrival) (a : Arrival) :
    seen id (arrivals ++ [a]) =
      seen id arrivals ++ if concerns id a then timesOf a else [] := by
  by_cases h : concerns id a <;> simp [seen, List.filter_append, h]

theorem lastCheckpoint_concat (id : Nat) (arrivals : List Arrival) (a : Arrival) :
    lastCheckpoint id (arrivals ++ [a]) =
      if concerns id a then cacheAfter (lastCheckpoint id arrivals) a.event
      else lastCheckpoint id arrivals := by
  by_cases h : concerns id a
  · by_cases htype : typeOf a.event = "payload_checkpoint"
    · simp [lastCheckpoint, cacheAfter, List.filter_append, h, htype]
    · simp [lastCheckpoint, cacheAfter, List.filter_append, h, htype]
  · simp [lastCheckpoint, List.filter_append, h]

theorem seen_lt (id : Nat) (arrivals : List Arrival) :
    ∀ t ∈ seen id arrivals, t < 2 ^ 64 := by
  intro t ht
  obtain ⟨a, -, hmem⟩ := List.mem_flatMap.1 ht
  exact timesOf_lt a t hmem

theorem run_settled (id : Nat) {arrivals : List Arrival}
    (h : ∀ a ∈ arrivals, Shaped a.event) :
    match run arrivals id with
    | none => ∀ a ∈ arrivals, concerns id a = false
    | some saved =>
      Settled (seen id arrivals) (lastCheckpoint id arrivals) saved := by
  induction arrivals using List.reverseRecOn with
  | nil => simp [run]
  | append_singleton arrivals a ih =>
    have hshape : Shaped a.event := h a (by simp)
    have hprior := ih fun b hb => h b (List.mem_append_left _ hb)
    rw [run_concat, seen_concat, lastCheckpoint_concat]
    by_cases hconcerns : concerns id a
    · rw [project_self hconcerns, if_pos hconcerns, if_pos hconcerns]
      cases hrun : run arrivals id with
      | none =>
        rw [hrun] at hprior
        have hnew := before_newSession id (observedOf_lt a.clock a.event)
        obtain ⟨saved, hproject, hsettled⟩ :=
          projectSession_settled id hnew hshape
        have hnone : arrivals.filter (concerns id) = [] := by
          simpa [List.filter_eq_nil_iff] using hprior
        have hcheck : lastCheckpoint id arrivals = none := by
          have hfilter : arrivals.filter (fun a => concerns id a &&
              typeOf a.event == "payload_checkpoint") = [] := by
            rw [List.filter_eq_nil_iff]
            intro b hb
            simp [hprior b hb]
          simp [lastCheckpoint, hfilter]
        simp only [Option.getD_none, hproject, hcheck]
        apply hsettled.congr
        simp [seen, hnone, timesOf]
      | some saved =>
        rw [hrun] at hprior
        have hbefore : Before (seen id arrivals) (lastCheckpoint id arrivals)
            saved :=
          ⟨hprior.formed, hprior.first, hprior.kept, seen_lt id arrivals,
            hprior.none, fun c hc => (hprior.some c hc).imp_right And.left⟩
        obtain ⟨saved', hproject, hsettled⟩ :=
          projectSession_settled id hbefore hshape
        simpa only [Option.getD_some, hproject] using hsettled
    · have hother := Bool.eq_false_iff.2 hconcerns
      rw [project_other hother, if_neg hconcerns, if_neg hconcerns, List.append_nil]
      cases hrun : run arrivals id with
      | none =>
        rw [hrun] at hprior
        intro b hb
        rcases List.mem_append.1 hb with hb | hb
        · exact hprior b hb
        · exact List.mem_singleton.1 hb ▸ hother
      | some saved =>
        rw [hrun] at hprior
        exact hprior

/-- In whatever order the events of the sessions arrive, each snapshot holds
the earliest time told, and the cache of the last checkpoint wherever it names
one. -/
theorem snapshot_of_run {arrivals : List Arrival}
    (hshape : ∀ a ∈ arrivals, Shaped a.event) {id : Nat} {a : Arrival}
    (ha : a ∈ arrivals) (hconcerns : concerns id a) :
    ∃ saved, run arrivals id = some saved ∧
      saved.get "first_observed_unix_ms" = .num (soonest (seen id arrivals)) ∧
      ∀ cache, lastCheckpoint id arrivals = some cache → CacheIs saved cache := by
  have hsettled := run_settled id hshape
  cases hrun : run arrivals id with
  | none =>
    rw [hrun] at hsettled
    rw [hsettled a ha] at hconcerns
    cases hconcerns
  | some saved =>
    rw [hrun] at hsettled
    exact ⟨saved, rfl, hsettled.first, fun c hc => (hsettled.some c hc).2⟩

def sampleFiles : Files := ⟨fun _ => false, id, fun _ _ => none⟩

def sampleCache : Json := .obj [("id", .num 1), ("response_bytes", .num 3)]

def registered : Json :=
  .obj [("cache_id", .num 1), ("observed_unix_ms", .num 9000),
    ("type", .str "payload_registered")]

def checkpointed : Json :=
  .obj [("cache", sampleCache), ("cache_id", .num 1),
    ("observed_unix_ms", .num 10000), ("type", .str "payload_checkpoint")]

def observedLate : Json :=
  .obj [("observed_unix_ms", .num 2000),
    ("record", .obj [("exchange", .obj [("cache", .obj [("id", .num 1)]),
        ("request", .obj [("observed_start_unix_ms", .num 1000)])]),
      ("type", .str "exchange")]),
    ("type", .str "observation")]

def lateArrivals : List Arrival :=
  [registered, checkpointed, observedLate].map fun event => ⟨event, sampleFiles, 0⟩

theorem snapshot_of_late_observation :
    ∃ saved, run lateArrivals 1 = some saved ∧
      saved.get "first_observed_unix_ms" = .num 1000 ∧
      CacheIs saved sampleCache := by
  have hshaped : ∀ a ∈ lateArrivals, Shaped a.event := by
    intro a ha
    simp only [lateArrivals, List.map_cons, List.map_nil, List.mem_cons,
      List.not_mem_nil, or_false] at ha
    rcases ha with rfl | rfl | rfl
    all_goals
      constructor <;>
        simp [registered, checkpointed, observedLate, sampleCache, typeOf, Json.get,
          Json.get?, Json.fields, Json.asStr, Json.isObject, Json.isStr]
  have hmem : (⟨registered, sampleFiles, 0⟩ : Arrival) ∈ lateArrivals := by
    simp [lateArrivals]
  obtain ⟨saved, hrun, hfirst, hcache⟩ :=
    snapshot_of_run hshaped hmem (by decide : concerns 1 _ = true)
  have htime : soonest (seen 1 lateArrivals) = 1000 := by decide
  exact ⟨saved, hrun, by rw [hfirst, htime]; rfl, hcache _ rfl⟩

end ProxyLane.Recording.SessionView
