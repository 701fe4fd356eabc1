import Mathlib.Data.List.Nodup
import Mathlib.Data.List.Perm.Basic

/-!
# Directories

A directory lists named entries in an order of its own choosing.  That no
name occurs twice is part of the type.
-/

namespace ProxyLane.Foundation

structure Directory (ν α : Type) where
  entries : List (ν × α)
  distinct : (entries.map Prod.fst).Nodup

namespace Directory

variable {ν α : Type} [DecidableEq ν]

def empty : Directory ν α := ⟨[], List.nodup_nil⟩

def names (d : Directory ν α) : List ν := d.entries.map Prod.fst

def get? (d : Directory ν α) (name : ν) : Option α :=
  (d.entries.find? fun e => e.1 = name).map Prod.snd

/-- `create_new`; nothing happens where the name is taken. -/
def create (d : Directory ν α) (name : ν) (a : α) : Directory ν α :=
  if h : name ∈ d.names then d
  else
    { entries := d.entries ++ [(name, a)]
      distinct := by
        rw [List.map_append, List.nodup_append]
        refine ⟨d.distinct, by simp, ?_⟩
        intro x hx y hy heq
        simp only [List.map_cons, List.map_nil, List.mem_singleton] at hy
        subst hy heq
        exact h hx }

def modify (d : Directory ν α) (name : ν) (f : α → α) : Directory ν α where
  entries := d.entries.map fun e => if e.1 = name then (e.1, f e.2) else e
  distinct := by
    have hnames : (d.entries.map fun e => if e.1 = name then (e.1, f e.2)
        else e).map Prod.fst = d.entries.map Prod.fst := by
      rw [List.map_map]
      apply List.map_congr_left
      intro e _
      simp only [Function.comp_apply]
      split <;> rfl
    rw [hnames]
    exact d.distinct

def remove (d : Directory ν α) (gone : List ν) : Directory ν α where
  entries := d.entries.filter fun e => e.1 ∉ gone
  distinct := d.distinct.sublist (List.filter_sublist.map _)

def relist (d : Directory ν α) (order : List (ν × α)) (h : order.Perm d.entries) :
    Directory ν α where
  entries := order
  distinct := (h.map Prod.fst).nodup_iff.2 d.distinct

variable {e : ν × α}

omit [DecidableEq ν] in
theorem eq_of_name_eq (d : Directory ν α) {e' : ν × α} (he : e ∈ d.entries)
    (he' : e' ∈ d.entries) (h : e.1 = e'.1) : e = e' :=
  List.inj_on_of_nodup_map d.distinct he he' h

variable {d : Directory ν α} {name : ν}

theorem get?_eq_some_iff {a : α} :
    d.get? name = some a ↔ (name, a) ∈ d.entries := by
  constructor
  · intro h
    obtain ⟨e, he, rfl⟩ := Option.map_eq_some_iff.1 h
    have hname : e.1 = name := by simpa using List.find?_some he
    rw [← hname]
    exact List.mem_of_find?_eq_some he
  · intro h
    cases hfind : d.entries.find? (fun e => e.1 = name) with
    | none => simpa using List.find?_eq_none.1 hfind _ h
    | some e =>
      have hname : e.1 = name := by simpa using List.find?_some hfind
      have heq : e = (name, a) :=
        d.eq_of_name_eq (List.mem_of_find?_eq_some hfind) h hname
      simp [get?, hfind, heq]

theorem mem_create {a : α} (h : e ∈ (d.create name a).entries) :
    e ∈ d.entries ∨ (e = (name, a) ∧ name ∉ d.names) := by
  unfold create at h
  split at h
  · exact Or.inl h
  · rename_i hnew
    rcases List.mem_append.1 h with h | h
    · exact Or.inl h
    · exact Or.inr ⟨List.mem_singleton.1 h, hnew⟩

theorem mem_create_of_mem {a : α}
    (h : e ∈ d.entries) : e ∈ (d.create name a).entries := by
  unfold create
  split
  · exact h
  · exact List.mem_append_left _ h

theorem mem_modify {f : α → α} :
    e ∈ (d.modify name f).entries ↔
      ∃ e' ∈ d.entries, e = if e'.1 = name then (e'.1, f e'.2) else e' := by
  simp only [modify, List.mem_map]
  constructor
  · rintro ⟨e', he', rfl⟩
    exact ⟨e', he', rfl⟩
  · rintro ⟨e', he', rfl⟩
    exact ⟨e', he', rfl⟩

theorem mem_remove {gone : List ν} :
    e ∈ (d.remove gone).entries ↔ e ∈ d.entries ∧ e.1 ∉ gone := by
  simp [remove]

end Directory

end ProxyLane.Foundation
