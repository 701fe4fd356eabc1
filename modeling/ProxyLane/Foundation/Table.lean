import Mathlib.Algebra.GroupWithZero.Nat
import Mathlib.Data.List.Nodup
import Mathlib.Data.List.Perm.Basic

/-!
# Ordered tables

A table maps numbers to values and is traversed in ascending order of its
keys.  The order of the entries is part of the type, so two tables with the
same entries are equal and a key is found in at most one place.
-/

namespace ProxyLane.Foundation

structure Table (α : Type) where
  entries : List (Nat × α)
  sorted : (entries.map Prod.fst).Pairwise (· < ·)

namespace Table

variable {α : Type}

@[ext] theorem ext {s t : Table α} (h : s.entries = t.entries) : s = t := by
  cases s
  cases t
  cases h
  rfl

instance [DecidableEq α] : DecidableEq (Table α) := fun s t =>
  decidable_of_iff (s.entries = t.entries) ⟨ext, fun h => h ▸ rfl⟩

def empty : Table α := ⟨[], List.Pairwise.nil⟩

def keys (t : Table α) : List Nat := t.entries.map Prod.fst

def values (t : Table α) : List α := t.entries.map Prod.snd

def size (t : Table α) : Nat := t.entries.length

def get? (t : Table α) (k : Nat) : Option α :=
  (t.entries.find? fun e => e.1 == k).map Prod.snd

def contains (t : Table α) (k : Nat) : Bool := (t.get? k).isSome

def modify (t : Table α) (k : Nat) (f : α → α) : Table α where
  entries := t.entries.map fun e => if e.1 = k then (e.1, f e.2) else e
  sorted := by
    have hkeys : (t.entries.map fun e => if e.1 = k then (e.1, f e.2) else e).map
        Prod.fst = t.entries.map Prod.fst := by
      rw [List.map_map]
      refine List.map_congr_left fun e _ => ?_
      simp only [Function.comp_apply]
      split <;> rfl
    rw [hkeys]
    exact t.sorted

def erase (t : Table α) (k : Nat) : Table α where
  entries := t.entries.filter fun e => e.1 != k
  sorted := t.sorted.sublist (List.filter_sublist.map _)

def insertEntry (k : Nat) (v : α) : List (Nat × α) → List (Nat × α)
  | [] => [(k, v)]
  | e :: es =>
    if k < e.1 then (k, v) :: e :: es
    else if k = e.1 then (k, v) :: es
    else e :: insertEntry k v es

variable {k : Nat} {v : α}

theorem mem_insertEntry {es : List (Nat × α)}
    {e : Nat × α} (h : e ∈ insertEntry k v es) : e = (k, v) ∨ e ∈ es := by
  induction es with
  | nil => simpa [insertEntry] using h
  | cons x xs ih =>
    unfold insertEntry at h
    split at h
    · simpa using h
    · split at h
      · rcases List.mem_cons.1 h with h | h
        · exact Or.inl h
        · exact Or.inr (List.mem_cons_of_mem _ h)
      · rcases List.mem_cons.1 h with h | h
        · exact Or.inr (h ▸ List.mem_cons_self)
        · rcases ih h with h | h
          · exact Or.inl h
          · exact Or.inr (List.mem_cons_of_mem _ h)

theorem sorted_insertEntry {es : List (Nat × α)}
    (h : (es.map Prod.fst).Pairwise (· < ·)) :
    ((insertEntry k v es).map Prod.fst).Pairwise (· < ·) := by
  induction es with
  | nil => simp [insertEntry]
  | cons x xs ih =>
    rw [List.map_cons, List.pairwise_cons] at h
    obtain ⟨hx, hxs⟩ := h
    unfold insertEntry
    split
    case isTrue hlt =>
      simp only [List.map_cons, List.pairwise_cons, List.mem_cons]
      refine ⟨?_, hx, hxs⟩
      rintro a (rfl | ha)
      · exact hlt
      · exact Nat.lt_trans hlt (hx a ha)
    case isFalse hnlt =>
      split
      case isTrue heq =>
        rw [List.map_cons, List.pairwise_cons]
        exact ⟨fun a ha => heq ▸ hx a ha, hxs⟩
      case isFalse hne =>
        rw [List.map_cons, List.pairwise_cons]
        refine ⟨fun a ha => ?_, ih hxs⟩
        obtain ⟨e, he, rfl⟩ := List.mem_map.1 ha
        rcases mem_insertEntry he with rfl | he
        · have : x.1 ≠ k := fun h => hne h.symm
          omega
        · exact hx _ (List.mem_map_of_mem he)

def insert (t : Table α) (k : Nat) (v : α) : Table α :=
  ⟨insertEntry k v t.entries, sorted_insertEntry t.sorted⟩

/-- `pop_first`: the table without its least key. -/
def popFirst (t : Table α) : Table α where
  entries := t.entries.tail
  sorted := t.sorted.sublist ((List.tail_sublist _).map _)

def restrict (t : Table α) (keep : α → Bool) : Table α where
  entries := t.entries.filter fun e => keep e.2
  sorted := t.sorted.sublist (List.filter_sublist.map _)

theorem nodup_keys (t : Table α) : t.keys.Nodup :=
  t.sorted.imp fun h => Nat.ne_of_lt h

variable {t : Table α}

theorem get?_eq_some_iff :
    t.get? k = some v ↔ (k, v) ∈ t.entries := by
  constructor
  · intro h
    obtain ⟨e, he, rfl⟩ := Option.map_eq_some_iff.1 h
    have hkey : e.1 = k := by simpa using List.find?_some he
    rw [← hkey]
    exact List.mem_of_find?_eq_some he
  · intro h
    have hkey := List.nodup_map_iff_inj_on t.nodup_keys.of_map |>.1 t.nodup_keys
    cases hfind : t.entries.find? (fun e => e.1 == k) with
    | none => simpa using List.find?_eq_none.1 hfind _ h
    | some e =>
      have hek : e.1 = k := by simpa using List.find?_some hfind
      have heq : e = (k, v) :=
        hkey e (List.mem_of_find?_eq_some hfind) (k, v) h hek
      simp [get?, hfind, heq]

theorem get?_eq_none_iff :
    t.get? k = none ↔ k ∉ t.keys := by
  simp only [get?, keys, Option.map_eq_none_iff, List.find?_eq_none,
    List.mem_map, beq_iff_eq, not_exists, not_and]

theorem contains_iff :
    t.contains k = true ↔ k ∈ t.keys := by
  rw [contains, Option.isSome_iff_ne_none, ne_eq, get?_eq_none_iff, not_not]

theorem mem_keys_of_get?
    (h : t.get? k = some v) : k ∈ t.keys :=
  List.mem_map_of_mem (get?_eq_some_iff.1 h)

@[simp] theorem get?_empty (k : Nat) : (empty : Table α).get? k = none := rfl

@[simp] theorem keys_empty : (empty : Table α).keys = [] := rfl

@[simp] theorem size_modify (t : Table α) (k : Nat) (f : α → α) :
    (t.modify k f).size = t.size := by
  simp [size, modify]

theorem get?_modify (t : Table α) (k j : Nat) (f : α → α) :
    (t.modify k f).get? j =
      if j = k then (t.get? j).map f else t.get? j := by
  have hfind : ∀ es : List (Nat × α),
      (es.map fun e => if e.1 = k then (e.1, f e.2) else e).find?
          (fun e => e.1 == j) =
        (es.find? fun e => e.1 == j).map
          fun e => if e.1 = k then (e.1, f e.2) else e := by
    intro es
    rw [List.find?_map]
    congr 2
    funext e
    simp only [Function.comp_apply]
    split <;> rfl
  unfold get?
  simp only [modify, hfind]
  cases hj : t.entries.find? (fun e => e.1 == j) with
  | none => simp
  | some e =>
    have hkey : e.1 = j := by simpa using List.find?_some hj
    by_cases hjk : j = k <;> simp [hkey, hjk]

theorem get?_of_mem_restrict {keep : α → Bool}
    (h : (t.restrict keep).get? k = some v) : t.get? k = some v := by
  rw [get?_eq_some_iff] at h ⊢
  exact List.mem_of_mem_filter h

theorem get?_popFirst
    (h : t.popFirst.get? k = some v) : t.get? k = some v := by
  rw [get?_eq_some_iff] at h ⊢
  exact List.mem_of_mem_tail h

theorem mem_keys_erase {j : Nat} :
    j ∈ (t.erase k).keys ↔ j ∈ t.keys ∧ j ≠ k := by
  simp only [keys, erase, List.mem_map, List.mem_filter, bne_iff_ne]
  constructor
  · rintro ⟨e, ⟨he, hne⟩, rfl⟩
    exact ⟨⟨e, he, rfl⟩, hne⟩
  · rintro ⟨⟨e, he, rfl⟩, hne⟩
    exact ⟨e, ⟨he, hne⟩, rfl⟩

theorem get?_erase (t : Table α) (k j : Nat) :
    (t.erase k).get? j = if j = k then none else t.get? j := by
  split
  case isTrue h =>
    rw [get?_eq_none_iff, mem_keys_erase]
    exact fun hmem => hmem.2 h
  case isFalse h =>
    refine Option.ext fun v => ?_
    rw [get?_eq_some_iff, get?_eq_some_iff]
    simp [erase, h]

theorem mem_insertEntry_iff {es : List (Nat × α)}
    {e : Nat × α} (h : (es.map Prod.fst).Pairwise (· < ·)) :
    e ∈ insertEntry k v es ↔ e = (k, v) ∨ (e ∈ es ∧ e.1 ≠ k) := by
  induction es with
  | nil => simp [insertEntry]
  | cons x xs ih =>
    rw [List.map_cons, List.pairwise_cons] at h
    obtain ⟨hx, hxs⟩ := h
    have hgt : ∀ e ∈ xs, x.1 < e.1 := fun e he =>
      hx _ (List.mem_map_of_mem he)
    unfold insertEntry
    split
    case isTrue hlt =>
      simp only [List.mem_cons]
      refine or_congr_right ⟨fun he => ⟨he, ?_⟩, And.left⟩
      rcases he with rfl | he
      · omega
      · have := hgt e he
        omega
    case isFalse hnlt =>
      split
      case isTrue heq =>
        simp only [List.mem_cons]
        refine or_congr_right ⟨fun he => ⟨Or.inr he, ?_⟩, ?_⟩
        · have := hgt e he
          omega
        · rintro ⟨rfl | he, hne⟩
          · exact absurd heq.symm hne
          · exact he
      case isFalse hne =>
        simp only [List.mem_cons, ih hxs]
        constructor
        · rintro (rfl | rfl | ⟨he, hk⟩)
          · exact Or.inr ⟨Or.inl rfl, fun h => hne h.symm⟩
          · exact Or.inl rfl
          · exact Or.inr ⟨Or.inr he, hk⟩
        · rintro (rfl | ⟨rfl | he, hk⟩)
          · exact Or.inr (Or.inl rfl)
          · exact Or.inl rfl
          · exact Or.inr (Or.inr ⟨he, hk⟩)

theorem get?_insert (t : Table α) (k j : Nat) (v : α) :
    (t.insert k v).get? j = if j = k then some v else t.get? j := by
  refine Option.ext fun w => ?_
  rw [get?_eq_some_iff, insert, mem_insertEntry_iff t.sorted]
  split
  case isTrue h =>
    subst h
    simp [eq_comm]
  case isFalse h =>
    rw [get?_eq_some_iff]
    simp [h]

theorem mem_keys_insert {j : Nat} :
    j ∈ (t.insert k v).keys ↔ j = k ∨ j ∈ t.keys := by
  rw [← contains_iff, ← contains_iff, contains, contains, get?_insert]
  split <;> simp_all

theorem keys_erase_perm (h : k ∈ t.keys) :
    t.keys.Perm (k :: (t.erase k).keys) := by
  refine (List.perm_ext_iff_of_nodup t.nodup_keys ?_).2 fun j => ?_
  · rw [List.nodup_cons]
    exact ⟨fun hk => (mem_keys_erase.1 hk).2 rfl, (t.erase k).nodup_keys⟩
  · rw [List.mem_cons, mem_keys_erase]
    by_cases hj : j = k
    · simp [hj, h]
    · simp [hj]

theorem keys_insert_perm (h : k ∉ t.keys) :
    (t.insert k v).keys.Perm (k :: t.keys) := by
  refine (List.perm_ext_iff_of_nodup (t.insert k v).nodup_keys ?_).2
    fun j => ?_
  · exact List.nodup_cons.2 ⟨h, t.nodup_keys⟩
  · rw [List.mem_cons, mem_keys_insert]

theorem size_eq_keys_length (t : Table α) : t.size = t.keys.length := by
  simp [size, keys]

theorem size_erase (h : k ∈ t.keys) :
    (t.erase k).size + 1 = t.size := by
  rw [size_eq_keys_length, size_eq_keys_length,
    (keys_erase_perm h).length_eq, List.length_cons]

theorem size_insert (h : k ∉ t.keys) :
    (t.insert k v).size = t.size + 1 := by
  rw [size_eq_keys_length, size_eq_keys_length,
    (keys_insert_perm h).length_eq, List.length_cons]

private theorem insertEntry_length_le (k : Nat) (v : α) (es : List (Nat × α)) :
    (insertEntry k v es).length ≤ es.length + 1 := by
  induction es with
  | nil => simp [insertEntry]
  | cons e es ih =>
    simp only [insertEntry]
    split
    · simp
    · split
      · simp
      · simpa using ih

theorem size_insert_le (t : Table α) (k : Nat) (v : α) :
    (t.insert k v).size ≤ t.size + 1 :=
  insertEntry_length_le k v t.entries

theorem erase_modify (t : Table α) (k : Nat) (f : α → α) :
    (t.modify k f).erase k = t.erase k := by
  ext1
  simp only [erase, modify, List.filter_map]
  have hfilter : ((fun e : Nat × α => e.1 != k) ∘ fun e =>
      if e.1 = k then (e.1, f e.2) else e) = fun e => e.1 != k := by
    funext e
    simp only [Function.comp_apply]
    split <;> rfl
  rw [hfilter]
  refine (List.map_congr_left fun e he => ?_).trans (List.map_id _)
  have hne : e.1 ≠ k := by simpa using (List.mem_filter.1 he).2
  simp [hne]

theorem modify_of_get?_none (f : α → α)
    (h : t.get? k = none) : t.modify k f = t := by
  ext1
  refine (List.map_congr_left fun e he => ?_).trans (List.map_id _)
  have hne : e.1 ≠ k := fun hk =>
    get?_eq_none_iff.1 h (hk ▸ List.mem_map_of_mem he)
  simp [hne]

def total (measure : α → Nat) (t : Table α) : Nat :=
  (t.entries.map fun e => measure e.2).sum

theorem entries_perm_of_get? (h : t.get? k = some v) :
    t.entries.Perm ((k, v) :: (t.erase k).entries) := by
  refine (List.perm_ext_iff_of_nodup t.nodup_keys.of_map ?_).2 fun e => ?_
  · refine List.nodup_cons.2 ⟨fun hmem => ?_, (t.erase k).nodup_keys.of_map⟩
    simpa using (List.mem_filter.1 hmem).2
  · simp only [erase, List.mem_cons, List.mem_filter, bne_iff_ne]
    constructor
    · intro he
      by_cases hk : e.1 = k
      · have hv : t.get? k = some e.2 := get?_eq_some_iff.2 (hk ▸ he)
        refine Or.inl (Prod.ext hk ?_)
        exact Option.some.inj (hv.symm.trans h)
      · exact Or.inr ⟨he, hk⟩
    · rintro (rfl | ⟨he, -⟩)
      · exact get?_eq_some_iff.1 h
      · exact he

theorem total_erase (measure : α → Nat) (h : t.get? k = some v) :
    t.total measure = measure v + (t.erase k).total measure := by
  have hsum := ((entries_perm_of_get? h).map fun e => measure e.2).sum_nat
  simpa [total] using hsum

theorem erase_insert (v : α) (h : k ∉ t.keys) :
    (t.insert k v).erase k = t := by
  have hget : ∀ j, ((t.insert k v).erase k).get? j = t.get? j := by
    intro j
    rw [get?_erase, get?_insert]
    split
    case isTrue hj => rw [hj, get?_eq_none_iff.2 h]
    case isFalse => rfl
  have hmem : ∀ e, e ∈ ((t.insert k v).erase k).entries ↔ e ∈ t.entries := by
    intro e
    rw [← get?_eq_some_iff (v := e.2), hget, get?_eq_some_iff]
  have hsorted : ∀ u : Table α, u.entries.Pairwise fun a b => a.1 < b.1 :=
    fun u => List.pairwise_map.1 u.sorted
  ext1
  exact ((List.perm_ext_iff_of_nodup
    (((t.insert k v).erase k).nodup_keys.of_map) t.nodup_keys.of_map).2
    hmem).eq_of_pairwise
      (fun a b _ _ hab hba => absurd hab (Nat.lt_asymm hba))
      (hsorted _) (hsorted t)

theorem total_insert (measure : α → Nat) (v : α) (h : k ∉ t.keys) :
    (t.insert k v).total measure = measure v + t.total measure := by
  have hget : (t.insert k v).get? k = some v := by simp [get?_insert]
  rw [total_erase measure hget, erase_insert v h]

theorem total_modify (measure : α → Nat) (f : α → α) (h : t.get? k = some v) :
    (t.modify k f).total measure + measure v = t.total measure + measure (f v) := by
  have hget : (t.modify k f).get? k = some (f v) := by
    simp [get?_modify, h]
  rw [total_erase measure hget, erase_modify, total_erase measure h]
  omega

theorem measure_le_total (measure : α → Nat)
    (h : t.get? k = some v) : measure v ≤ t.total measure := by
  rw [total_erase measure h]
  exact Nat.le_add_right _ _

theorem modify_comm (t : Table α) {j : Nat} (h : k ≠ j) (f g : α → α) :
    (t.modify k f).modify j g = (t.modify j g).modify k f := by
  ext1
  simp only [modify, List.map_map]
  refine List.map_congr_left fun e _ => ?_
  simp only [Function.comp_apply]
  by_cases hk : e.1 = k <;> by_cases hj : e.1 = j <;> simp_all

theorem erase_modify_comm (t : Table α) (k j : Nat) (f : α → α) :
    (t.modify k f).erase j = (t.erase j).modify k f := by
  ext1
  simp only [modify, erase, List.filter_map]
  congr 1
  refine List.filter_congr fun e _ => ?_
  simp only [Function.comp_apply]
  split <;> rfl

theorem modify_modify (t : Table α) (k : Nat) (f g : α → α) :
    (t.modify k f).modify k g = t.modify k (g ∘ f) := by
  ext1
  simp only [modify, List.map_map]
  refine List.map_congr_left fun e _ => ?_
  simp only [Function.comp_apply]
  by_cases hk : e.1 = k <;> simp [hk]

theorem modify_congr {f g : α → α}
    (h : ∀ v, t.get? k = some v → f v = g v) : t.modify k f = t.modify k g := by
  ext1
  refine List.map_congr_left fun e he => ?_
  split
  case isTrue hk =>
    rw [h e.2 (get?_eq_some_iff.2 (hk ▸ he))]
  case isFalse => rfl

theorem insertEntry_insertEntry (k : Nat) (v w : α) (es : List (Nat × α)) :
    insertEntry k v (insertEntry k w es) = insertEntry k v es := by
  induction es with
  | nil => simp [insertEntry]
  | cons e es ih =>
    simp only [insertEntry]
    split
    · simp [insertEntry]
    · split
      · simp [insertEntry]
      · rename_i hlt hne
        simp [insertEntry, hlt, hne, ih]

@[simp] theorem insert_insert (t : Table α) (k : Nat) (v w : α) :
    (t.insert k w).insert k v = t.insert k v := by
  apply ext
  exact insertEntry_insertEntry k v w t.entries

theorem erase_comm (t : Table α) (k j : Nat) :
    (t.erase k).erase j = (t.erase j).erase k := by
  ext1
  simp only [erase, List.filter_filter, Bool.and_comm]

end Table

def alter {α : Type} (f : Nat → α) (k : Nat) (g : α → α) : Nat → α :=
  fun j => if j = k then g (f j) else f j

@[simp] theorem alter_self {α : Type} (f : Nat → α) (k : Nat) (g : α → α) :
    alter f k g k = g (f k) := by
  simp [alter]

theorem alter_ne {α : Type} {f : Nat → α} {k j : Nat} {g : α → α}
    (h : j ≠ k) : alter f k g j = f j := by
  simp [alter, h]

end ProxyLane.Foundation
