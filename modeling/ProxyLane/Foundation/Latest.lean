import Mathlib.Data.Finset.Card

/-!
# The last entry of every key

What is left of a list of entries when an entry replaces all earlier ones with
its key.
-/

namespace ProxyLane.Foundation

variable {κ α : Type} [DecidableEq κ]

def lastPerKey : List (κ × α) → List (κ × α)
  | [] => []
  | e :: rest =>
    if e.1 ∈ rest.map Prod.fst then lastPerKey rest
    else e :: lastPerKey rest

theorem mem_keys_lastPerKey (es : List (κ × α)) (k : κ) :
    k ∈ (lastPerKey es).map Prod.fst ↔ k ∈ es.map Prod.fst := by
  induction es with
  | nil => rfl
  | cons e rest ih =>
    rw [lastPerKey]
    split
    case isTrue hlater =>
      rw [ih, List.map_cons, List.mem_cons]
      constructor
      · exact Or.inr
      · rintro (rfl | h)
        · exact hlater
        · exact h
    case isFalse =>
      rw [List.map_cons, List.mem_cons, ih, List.map_cons, List.mem_cons]

private theorem lastPerKey_keys_nodup (es : List (κ × α)) :
    ((lastPerKey es).map Prod.fst).Nodup := by
  induction es with
  | nil => exact List.nodup_nil
  | cons e rest ih =>
    rw [lastPerKey]
    split
    case isTrue => exact ih
    case isFalse hlast =>
      rw [List.map_cons, List.nodup_cons, mem_keys_lastPerKey]
      exact ⟨hlast, ih⟩

theorem lastPerKey_sublist (es : List (κ × α)) : (lastPerKey es).Sublist es := by
  induction es with
  | nil => exact .slnil
  | cons e rest ih =>
    rw [lastPerKey]
    split
    case isTrue => exact ih.cons e
    case isFalse => exact ih.cons_cons e

theorem length_lastPerKey (es : List (κ × α)) :
    (lastPerKey es).length = (es.map Prod.fst).toFinset.card := by
  have hsame : ((lastPerKey es).map Prod.fst).toFinset =
      (es.map Prod.fst).toFinset := by
    ext k
    rw [List.mem_toFinset, List.mem_toFinset, mem_keys_lastPerKey]
  rw [← hsame, List.toFinset_card_of_nodup (lastPerKey_keys_nodup es),
    List.length_map]

theorem length_lastPerKey_le (es more : List (κ × α)) :
    (lastPerKey es).length ≤ (lastPerKey (es ++ more)).length := by
  rw [length_lastPerKey, length_lastPerKey]
  refine Finset.card_le_card fun k hk => ?_
  rw [List.mem_toFinset] at hk ⊢
  rw [List.map_append]
  exact List.mem_append_left _ hk

theorem lastPerKey_snoc (es : List (κ × α)) (e : κ × α) :
    lastPerKey (es ++ [e]) =
      ((lastPerKey es).filter fun old => old.1 != e.1) ++ [e] := by
  induction es with
  | nil => simp [lastPerKey]
  | cons d rest ih =>
    by_cases hsame : d.1 = e.1
    · have hlater : d.1 ∈ (rest ++ [e]).map Prod.fst := by simp [hsame]
      rw [List.cons_append, lastPerKey, if_pos hlater, ih, lastPerKey]
      split
      case isTrue => rfl
      case isFalse => rw [List.filter_cons_of_neg (by simp [hsame])]
    · have hiff : d.1 ∈ (rest ++ [e]).map Prod.fst ↔
          d.1 ∈ rest.map Prod.fst := by simp [hsame]
      rw [List.cons_append, lastPerKey, lastPerKey, ih]
      by_cases hlater : d.1 ∈ rest.map Prod.fst
      · rw [if_pos (hiff.2 hlater), if_pos hlater]
      · rw [if_neg (fun h => hlater (hiff.1 h)), if_neg hlater,
          List.filter_cons_of_pos (by simp [hsame]), List.cons_append]

theorem mem_lastPerKey (es : List (κ × α)) (e : κ × α) :
    e ∈ lastPerKey es ↔ ∃ j : Nat, es[j]? = some e ∧
      ∀ k later, j < k → es[k]? = some later → later.1 ≠ e.1 := by
  induction es with
  | nil => simp [lastPerKey]
  | cons d rest ih =>
    have hstep : (∃ j : Nat, (d :: rest)[j]? = some e ∧
          ∀ k later, j < k → (d :: rest)[k]? = some later → later.1 ≠ e.1) ↔
        (d = e ∧ d.1 ∉ rest.map Prod.fst) ∨ e ∈ lastPerKey rest := by
      rw [ih]
      constructor
      · rintro ⟨j, hj, hlast⟩
        cases j with
        | zero =>
          obtain rfl : d = e := by simpa using hj
          refine .inl ⟨rfl, fun hmem => ?_⟩
          obtain ⟨later, hin, hkey⟩ := List.mem_map.1 hmem
          obtain ⟨k, hk⟩ := List.mem_iff_getElem?.1 hin
          exact hlast (k + 1) later (by omega) (by simpa using hk) hkey
        | succ j =>
          exact .inr ⟨j, by simpa using hj, fun k later hlt hk =>
            hlast (k + 1) later (by omega) (by simpa using hk)⟩
      · rintro (⟨rfl, hnone⟩ | ⟨j, hj, hlast⟩)
        · refine ⟨0, rfl, fun k later hlt hk hkey => hnone ?_⟩
          cases k with
          | zero => omega
          | succ k =>
            have hin : later ∈ rest :=
              List.mem_iff_getElem?.2 ⟨k, by simpa using hk⟩
            exact List.mem_map.2 ⟨later, hin, hkey⟩
        · refine ⟨j + 1, by simpa using hj, fun k later hlt hk => ?_⟩
          cases k with
          | zero => omega
          | succ k => exact hlast k later (by omega) (by simpa using hk)
    rw [hstep, lastPerKey]
    split
    case isTrue hlater => simp [hlater]
    case isFalse hlast => simp [hlast, eq_comm]

end ProxyLane.Foundation
