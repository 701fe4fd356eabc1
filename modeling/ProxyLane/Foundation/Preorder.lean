import Mathlib.Data.List.Perm.Subperm

/-!
# Visiting a graph depth first, and collecting what is reachable

`visit` lists nodes in the order a recursive walk meets them, skipping the ones
already listed.  `Blocks` is the shape of such a list over a forest: each node
is followed at once by everything under it.  `gather` is the worklist that
collects everything reachable from one node.
-/

namespace ProxyLane.Foundation.Preorder

open Relation (ReflTransGen)

variable {α : Type}

inductive Blocks (children : α → List α) : List α → List α → Prop
  | nil : Blocks children [] []
  | cons {c : α} {cs below rest : List α} (down : Blocks children (children c) below)
      (next : Blocks children cs rest) :
      Blocks children (c :: cs) (c :: below ++ rest)

variable {present : α → Bool} {children : α → List α}

namespace Blocks

theorem sublist {ps b : List α} (h : Blocks children ps b) : List.Sublist ps b := by
  induction h with
  | nil => exact .slnil
  | cons _ _ _ ih => exact .cons_cons _ (ih.trans (List.sublist_append_right _ _))

theorem block {ps b : List α} (h : Blocks children ps b) {p : α} (hp : p ∈ b) :
    ∃ before below after, b = before ++ p :: below ++ after ∧
      Blocks children (children p) below := by
  induction h with
  | nil => cases hp
  | @cons c cs below rest down next ihd ihn =>
    rcases List.mem_append.1 hp with hp | hp
    · rcases List.mem_cons.1 hp with rfl | hp
      · exact ⟨[], below, rest, rfl, down⟩
      · obtain ⟨before, inner, after, rfl, hinner⟩ := ihd hp
        exact ⟨c :: before, inner, after ++ rest, by simp, hinner⟩
    · obtain ⟨before, inner, after, rfl, hinner⟩ := ihn hp
      exact ⟨c :: below ++ before, inner, after, by simp, hinner⟩

theorem closed {ps b : List α} (h : Blocks children ps b) {p c : α} (hp : p ∈ b)
    (hc : c ∈ children p) : c ∈ b := by
  obtain ⟨before, below, after, rfl, hbelow⟩ := h.block hp
  simp [hbelow.sublist.subset hc]

theorem origin {ps b : List α} (h : Blocks children ps b) {x : α} (hx : x ∈ b) :
    x ∈ ps ∨ ∃ q ∈ b, x ∈ children q := by
  induction h with
  | nil => cases hx
  | @cons c cs below rest down next ihd ihn =>
    rcases List.mem_append.1 hx with hx | hx
    · rcases List.mem_cons.1 hx with rfl | hx
      · simp
      · rcases ihd hx with hx | ⟨q, hq, hx⟩
        · exact .inr ⟨c, by simp, hx⟩
        · exact .inr ⟨q, by simp [hq], hx⟩
    · rcases ihn hx with hx | ⟨q, hq, hx⟩
      · exact .inl (by simp [hx])
      · exact .inr ⟨q, by simp [hq], hx⟩

theorem mem_iff {ps b : List α} (h : Blocks children ps b) (x : α) :
    x ∈ b ↔ ∃ p ∈ ps, ReflTransGen (fun p c => c ∈ children p) p x := by
  constructor
  · intro hx
    induction h with
    | nil => cases hx
    | @cons c cs below rest down next ihd ihn =>
      rcases List.mem_append.1 hx with hx | hx
      · rcases List.mem_cons.1 hx with rfl | hx
        · exact ⟨x, by simp, .refl⟩
        · obtain ⟨p, hp, hreach⟩ := ihd hx
          exact ⟨c, by simp, .head hp hreach⟩
      · obtain ⟨p, hp, hreach⟩ := ihn hx
        exact ⟨p, by simp [hp], hreach⟩
  · rintro ⟨p, hp, hreach⟩
    induction hreach with
    | refl => exact h.sublist.subset hp
    | tail _ hc ih => exact h.closed ih hc

end Blocks

/-- Every node has one parent, is not its own child and has its children in `all`. -/
structure Forest (present : α → Bool) (children : α → List α) (all : List α) :
    Prop where
  present : ∀ p ∈ all, present p = true
  inside : ∀ p, children p ⊆ all
  nodup : ∀ p, (children p).Nodup
  apart : ∀ p, p ∉ children p
  one : ∀ {p q c}, c ∈ children p → c ∈ children q → p = q

/-- Nothing of the listed trees has been met, and what has been met is listed
with its parents. -/
structure Fresh (children : α → List α) (ps out : List α) : Prop where
  nodup : ps.Nodup
  unmet : ∀ c ∈ ps, c ∉ out
  parents : ∀ c ∈ ps ++ out, ∀ q, c ∈ children q → q ∈ out

theorem Fresh.below {all : List α} (hforest : Forest present children all) {c : α}
    {cs out : List α} (h : Fresh children (c :: cs) out) :
    Fresh children (children c) (out ++ [c]) where
  nodup := hforest.nodup c
  unmet x hx hmem := by
    rcases List.mem_append.1 hmem with hmem | hmem
    · exact h.unmet c (by simp) (h.parents x (by simp [hmem]) c hx)
    · rw [List.mem_singleton.1 hmem] at hx
      exact hforest.apart c hx
  parents x hx q hq := by
    simp only [List.mem_append, List.mem_singleton] at hx ⊢
    rcases hx with hx | hx | rfl
    · exact .inr (hforest.one hq hx)
    · exact .inl (h.parents x (by simp [hx]) q hq)
    · exact .inl (h.parents x (by simp) q hq)

theorem Fresh.rest {all : List α} (hforest : Forest present children all) {c : α}
    {cs out below : List α} (h : Fresh children (c :: cs) out)
    (hbelow : Blocks children (children c) below) (hnd : (out ++ [c] ++ below).Nodup) :
    Fresh children cs (out ++ [c] ++ below) where
  nodup := (List.nodup_cons.1 h.nodup).2
  unmet x hx hmem := by
    have hc : c ∉ out := h.unmet c (by simp)
    simp only [List.mem_append, List.mem_singleton] at hmem
    rcases hmem with (hmem | rfl) | hmem
    · exact h.unmet x (by simp [hx]) hmem
    · exact (List.nodup_cons.1 h.nodup).1 hx
    · rcases hbelow.origin hmem with hxc | ⟨q, hq, hxq⟩
      · exact hc (h.parents x (by simp [hx]) c hxc)
      · have hqo := h.parents x (by simp [hx]) q hxq
        exact (List.nodup_append.1 hnd).2.2 q (by simp [hqo]) q hq rfl
  parents x hx q hq := by
    simp only [List.mem_append, List.mem_singleton] at hx ⊢
    rcases hx with hx | (hx | rfl) | hx
    · exact .inl (.inl (h.parents x (by simp [hx]) q hq))
    · exact .inl (.inl (h.parents x (by simp [hx]) q hq))
    · exact .inl (.inl (h.parents x (by simp) q hq))
    · rcases hbelow.origin hx with hxc | ⟨q', hq', hxq⟩
      · exact .inl (.inr (hforest.one hq hxc))
      · exact .inr (hforest.one hq hxq ▸ hq')

variable [DecidableEq α]

def visit (present : α → Bool) (children : α → List α) :
    Nat → α → List α → Option (List α)
  | 0, _, _ => none
  | fuel + 1, p, out =>
    if p ∈ out ∨ present p = false then some out
    else (children p).foldlM (fun out c =>
      if c ∈ out then some out else visit present children fuel c out) (out ++ [p])

/-- One walk over several trees.  With fuel for all that is left it ends, adds
nodes only once, and lists the trees as blocks when they were not met before. -/
theorem visit_spec {all : List α} (hforest : Forest present children all) (fuel : Nat)
    {ps out : List α} (hps : ps ⊆ all) (hout : out ⊆ all) (hnd : out.Nodup)
    (hfuel : all.length ≤ fuel + out.length) :
    ∃ new, ps.foldlM (fun out c =>
        if c ∈ out then some out else visit present children fuel c out) out =
          some (out ++ new) ∧
      out ++ new ⊆ all ∧ (out ++ new).Nodup ∧ ps ⊆ out ++ new ∧
      (Fresh children ps out → Blocks children ps new) := by
  induction fuel using Nat.strongRecOn generalizing ps out with
  | ind fuel ih =>
    induction ps generalizing out with
    | nil => exact ⟨[], by simp, by simpa using hout, by simpa using hnd, by simp,
        fun _ => .nil⟩
    | cons c cs ihs =>
      have hcs : cs ⊆ all := fun x hx => hps (by simp [hx])
      by_cases hc : c ∈ out
      · obtain ⟨new, hrun, hsub, hnew, hmem, -⟩ := ihs hcs hout hnd hfuel
        exact ⟨new, by simpa [hc] using hrun, hsub, hnew,
          List.cons_subset.2 ⟨by simp [hc], hmem⟩, fun h => absurd hc (h.unmet c (by simp))⟩
      have hnd' : (out ++ [c]).Nodup := by
        simpa [List.nodup_append, hnd] using fun a ha => by rintro rfl; exact hc ha
      have hsub' : out ++ [c] ⊆ all := by
        simpa using ⟨hout, hps (by simp)⟩
      have hlen := (hnd'.subperm hsub').length_le
      simp only [List.length_append, List.length_singleton] at hlen
      obtain ⟨fuel, rfl⟩ : ∃ f, fuel = f + 1 := ⟨fuel - 1, by omega⟩
      obtain ⟨below, hrun, hsub, hnew, -, hblocks⟩ :=
        ih fuel (by omega) (hforest.inside c) hsub' hnd' (by simp; omega)
      obtain ⟨rest, hrest, hsub₂, hnew₂, hmem, hblocks₂⟩ :=
        ihs hcs hsub hnew (by simp; omega)
      have hlist : out ++ (c :: below ++ rest) = out ++ [c] ++ below ++ rest := by simp
      refine ⟨c :: below ++ rest, ?_, ?_⟩
      · simp only [List.foldlM_cons, hc, if_false]
        rw [visit, if_neg (by simp [hc, hforest.present c (hps (by simp))]), hrun, hlist]
        exact hrest
      · rw [hlist]
        refine ⟨hsub₂, hnew₂, List.cons_subset.2 ⟨by simp, hmem⟩, fun h => ?_⟩
        have hb := hblocks (h.below hforest)
        exact .cons hb (hblocks₂ (h.rest hforest hb hnew))

def meet (seen : List α) (c : α) : List α := if c ∈ seen then seen else seen ++ [c]

def gather (children : α → List α) : Nat → Nat → List α → Option (List α)
  | 0, _, _ => none
  | fuel + 1, i, seen =>
    match seen[i]? with
    | none => some seen
    | some p => gather children fuel (i + 1) ((children p).foldl meet seen)

private theorem meet_all (cs seen : List α) (hnd : seen.Nodup) :
    ∃ new, cs.foldl meet seen = seen ++ new ∧ (seen ++ new).Nodup ∧
      ∀ x, x ∈ seen ++ new ↔ x ∈ seen ∨ x ∈ cs := by
  induction cs generalizing seen with
  | nil => exact ⟨[], by simp, by simpa using hnd, by simp⟩
  | cons c cs ih =>
    by_cases hc : c ∈ seen
    · obtain ⟨new, hrun, hnew, hmem⟩ := ih seen hnd
      refine ⟨new, by simpa [meet, hc] using hrun, hnew, fun x => ?_⟩
      rw [hmem]
      grind
    · obtain ⟨new, hrun, hnew, hmem⟩ := ih (seen ++ [c])
        (by simpa [List.nodup_append, hnd] using fun a ha => by rintro rfl; exact hc ha)
      refine ⟨c :: new, by simpa [meet, hc] using hrun, by simpa using hnew, fun x => ?_⟩
      have := hmem x
      simp only [List.append_assoc, List.singleton_append] at this
      rw [this]
      grind

structure Gathering (children : α → List α) (root : α) (i : Nat) (seen : List α) :
    Prop where
  start : root ∈ seen
  nodup : seen.Nodup
  reached : ∀ x ∈ seen, ReflTransGen (fun p c => c ∈ children p) root x
  done : ∀ j < i, ∀ p, seen[j]? = some p → children p ⊆ seen
  place : i ≤ seen.length

theorem Gathering.step {root p : α} {i : Nat} {seen : List α}
    (h : Gathering children root i seen) (hp : seen[i]? = some p) :
    ∃ new, (children p).foldl meet seen = seen ++ new ∧
      Gathering children root (i + 1) (seen ++ new) := by
  obtain ⟨new, hrun, hnd, hmem⟩ := meet_all (children p) seen h.nodup
  obtain ⟨hi, rfl⟩ := List.getElem?_eq_some_iff.1 hp
  refine ⟨new, hrun, by simp [h.start], hnd, fun x hx => ?_, fun j hj q hq => ?_,
    by simp; omega⟩
  · rcases (hmem x).1 hx with hx | hx
    · exact h.reached x hx
    · exact (h.reached _ (List.getElem_mem hi)).tail hx
  · rw [List.getElem?_append_left (by omega)] at hq
    rcases Nat.lt_succ_iff_lt_or_eq.1 hj with hj | rfl
    · exact fun x hx => (hmem x).2 (.inl (h.done j hj q hq hx))
    · rw [hq] at hp
      cases hp
      exact fun x hx => (hmem x).2 (.inr hx)

theorem gather_spec {root : α} {all : List α} (hall : ∀ x,
      ReflTransGen (fun p c => c ∈ children p) root x → x ∈ all)
    (fuel : Nat) {i : Nat} {seen : List α} (h : Gathering children root i seen)
    (hfuel : all.length < fuel + i) :
    ∃ new, gather children fuel i seen = some (seen ++ new) ∧ (seen ++ new).Nodup ∧
      ∀ x, x ∈ seen ++ new ↔ ReflTransGen (fun p c => c ∈ children p) root x := by
  induction fuel generalizing i seen with
  | zero =>
    have hlen := (h.nodup.subperm fun x hx => hall x (h.reached x hx)).length_le
    have := h.place
    omega
  | succ fuel ih =>
    cases hp : seen[i]? with
    | none =>
      refine ⟨[], by simp [gather, hp], by simpa using h.nodup, fun x => ?_⟩
      rw [List.append_nil]
      refine ⟨h.reached x, fun hx => ?_⟩
      induction hx with
      | refl => exact h.start
      | @tail q c _ hc ihq =>
        obtain ⟨j, hj, rfl⟩ := List.mem_iff_getElem.1 ihq
        have hi := List.getElem?_eq_none_iff.1 hp
        exact h.done j (by omega) _ (List.getElem?_eq_getElem hj) hc
    | some p =>
      obtain ⟨new, hrun, hnext⟩ := h.step hp
      obtain ⟨more, hmore, hnd, hmem⟩ := ih hnext (by omega)
      exact ⟨new ++ more, by simp [gather, hp, hrun, hmore], by simpa using hnd,
        by simpa using hmem⟩

end ProxyLane.Foundation.Preorder
