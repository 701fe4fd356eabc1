import Mathlib.Order.WellFoundedSet
import ProxyLane.Foundation.Preorder
import ProxyLane.Foundation.Sorting

/-!
# The process tree and the processes under one process

`BuildProcessTree` and `CollectDescendantProcessIds` of the process page, over
any snapshot: parents may be missing, reused or on a cycle.  The tree order is
kept as the list of processes in it; the text prefixes of the rows are left out.
-/

namespace ProxyLane.App.ProcessTree

open Foundation Preorder
open Relation (ReflTransGen TransGen)

structure ProcessInfo where
  pid : Nat
  parentPid : Nat
  hasStartTime : Bool
  startTimeValue : Nat
  defaultOrder : Int

/-- `m_processSortData`, a map by pid. -/
structure SortData where
  rows : List ProcessInfo
  ascending : rows.Pairwise fun a b => a.pid < b.pid

namespace SortData

variable (s : SortData)

def pids : List Nat := s.rows.map (·.pid)

def find (pid : Nat) : Option ProcessInfo := s.rows.find? (·.pid == pid)

def validParent (child : ProcessInfo) : Bool :=
  match s.find child.parentPid with
  | none => false
  | some parent => child.parentPid != 0 && child.parentPid != child.pid &&
      !(parent.hasStartTime && child.hasStartTime &&
        decide (parent.startTimeValue > child.startTimeValue))

def childRows (pid : Nat) : List ProcessInfo :=
  s.rows.filter fun child => s.validParent child && child.parentPid == pid

def rootRows : List ProcessInfo := s.rows.filter fun process => !s.validParent process

end SortData

/-- `ProcessDefaultOrderLess`. -/
def orderKey (process : ProcessInfo) : Int ×ₗ Nat :=
  toLex (process.defaultOrder, process.pid)

def sortedPids (rows : List ProcessInfo) : List Nat :=
  ((Sorting.stable orderKey).run rows).map (·.pid)

def SortData.children (s : SortData) (pid : Nat) : List Nat := sortedPids (s.childRows pid)

def appendProcessTree (s : SortData) : Nat → Nat → List Nat → Option (List Nat) :=
  visit (fun pid => (s.find pid).isSome) s.children

def buildProcessTree (s : SortData) : Option (List Nat) := do
  let fuel := s.rows.length + 1
  let visited ← (sortedPids s.rootRows).foldlM
    (fun visited pid => appendProcessTree s fuel pid visited) []
  let remaining := sortedPids (s.rows.filter fun process => process.pid ∉ visited)
  remaining.foldlM (fun visited pid =>
    if pid ∈ visited then some visited else appendProcessTree s fuel pid visited) visited

def treeOrder (order : List Nat) (pid : Nat) : Int :=
  if pid ∈ order then order.idxOf pid else -1

/-- `pending` holds the root and then what `visited` and `descendants` hold. -/
def collectDescendantProcessIds (s : SortData) (order : List Nat) (root : Nat) :
    Option (List Nat) :=
  if root = 0 ∨ s.find root = none then some []
  else do
    let pending ← gather (fun pid => (s.childRows pid).map (·.pid))
      (s.rows.length + 1) 0 [root]
    some ((Sorting.stable fun pid => toLex (treeOrder order pid, pid)).run pending.tail)

variable {s : SortData}

def SortData.Link (s : SortData) (parent child : Nat) : Prop := child ∈ s.children parent

def SortData.CycleFree (s : SortData) (pid : Nat) : Prop :=
  ∀ q, ReflTransGen s.Link q pid → ¬TransGen s.Link q q

theorem mem_sortedPids {rows : List ProcessInfo} {pid : Nat} :
    pid ∈ sortedPids rows ↔ ∃ row ∈ rows, row.pid = pid := by
  simp [sortedPids, ((Sorting.stable orderKey).perm rows).mem_iff]

theorem sortedPids_nodup {keep : ProcessInfo → Bool} :
    (sortedPids (s.rows.filter keep)).Nodup := by
  have hperm := ((Sorting.stable orderKey).perm (s.rows.filter keep)).map (·.pid)
  refine hperm.nodup_iff.2 (List.pairwise_map.2 ?_)
  exact (s.ascending.filter keep).imp fun h => by omega

theorem pids_nodup (s : SortData) : s.pids.Nodup :=
  List.pairwise_map.2 (s.ascending.imp fun h => by omega)

theorem row_unique {a b : ProcessInfo} (ha : a ∈ s.rows) (hb : b ∈ s.rows)
    (h : a.pid = b.pid) : a = b :=
  List.inj_on_of_nodup_map (pids_nodup s) ha hb h

theorem find_isSome {pid : Nat} : (s.find pid).isSome = true ↔ pid ∈ s.pids := by
  simp [SortData.find, SortData.pids]

theorem link_iff {q p : Nat} :
    s.Link q p ↔
      ∃ row ∈ s.rows, row.pid = p ∧ s.validParent row = true ∧ row.parentPid = q := by
  simp only [SortData.Link, SortData.children, mem_sortedPids, SortData.childRows,
    List.mem_filter, Bool.and_eq_true, beq_iff_eq]
  grind

theorem Link.facts {q p : Nat} (h : s.Link q p) :
    q ≠ 0 ∧ q ≠ p ∧ q ∈ s.pids ∧ p ∈ s.pids := by
  obtain ⟨row, hrow, rfl, hvalid, rfl⟩ := link_iff.1 h
  rw [SortData.validParent] at hvalid
  split at hvalid
  · cases hvalid
  next parent hfind =>
    simp only [Bool.and_eq_true, bne_iff_ne] at hvalid
    exact ⟨hvalid.1.1, hvalid.1.2, find_isSome.1 (by simp [hfind]),
      List.mem_map.2 ⟨row, hrow, rfl⟩⟩

theorem forest (s : SortData) :
    Forest (fun pid => (s.find pid).isSome) s.children s.pids where
  present _ hp := find_isSome.2 hp
  inside _ _ hc := (Link.facts hc).2.2.2
  nodup _ := sortedPids_nodup
  apart p hp := (Link.facts hp).2.1 rfl
  one hp hq := by
    obtain ⟨a, ha, hpa, -, rfl⟩ := link_iff.1 hp
    obtain ⟨b, hb, hpb, -, rfl⟩ := link_iff.1 hq
    rw [row_unique ha hb (hpa.trans hpb.symm)]

structure Built (s : SortData) (order : List Nat) : Prop where
  perm : order.Perm s.pids
  nodup : order.Nodup
  split : ∃ trees rest, order = trees ++ rest ∧
    Blocks s.children (sortedPids s.rootRows) trees

theorem buildProcessTree_built (s : SortData) :
    ∃ order, buildProcessTree s = some order ∧ Built s order := by
  have hsub (keep : ProcessInfo → Bool) : sortedPids (s.rows.filter keep) ⊆ s.pids := by
    intro p hp
    obtain ⟨row, hrow, rfl⟩ := mem_sortedPids.1 hp
    exact List.mem_map.2 ⟨row, (List.mem_filter.1 hrow).1, rfl⟩
  have hstep (visited : List Nat) (pid : Nat) :
      appendProcessTree s (s.rows.length + 1) pid visited = if pid ∈ visited then
        some visited else appendProcessTree s (s.rows.length + 1) pid visited := by
    split <;> simp_all [appendProcessTree, visit]
  obtain ⟨trees, hrun, htrees, hnd, hroots, hblocks⟩ := visit_spec (forest s)
    (s.rows.length + 1) (hsub fun process => !s.validParent process)
    (List.nil_subset s.pids) (by simp) (by simp [SortData.pids])
  simp only [List.nil_append] at hrun htrees hnd hroots hblocks
  obtain ⟨rest, hrest, hall, hnd', hleft, -⟩ := visit_spec (forest s)
    (s.rows.length + 1) (hsub fun process => process.pid ∉ trees) htrees hnd
    (by simp [SortData.pids]; omega)
  refine ⟨trees ++ rest, ?_, ?_, hnd', trees, rest, rfl, hblocks ⟨sortedPids_nodup,
    by simp, fun c hc q hq => ?_⟩⟩
  · refine Option.bind_eq_some_iff.2 ⟨trees, ?_, hrest⟩
    rw [← hrun]
    congr
    funext visited pid
    exact hstep visited pid
  · refine (List.perm_ext_iff_of_nodup hnd' (pids_nodup s)).2 fun p =>
      ⟨@hall p, fun hp => ?_⟩
    obtain ⟨row, hrow, rfl⟩ := List.mem_map.1 hp
    by_cases h : row.pid ∈ trees
    · simp [h]
    · exact hleft (mem_sortedPids.2 ⟨row, by simp [hrow, h], rfl⟩)
  · -- a root has no parent
    obtain ⟨row, hrow, hpid⟩ := mem_sortedPids.1 (List.append_nil _ ▸ hc)
    obtain ⟨row', hrow', hpid', hvalid, -⟩ := link_iff.1 hq
    simp only [List.mem_filter] at hrow
    rw [row_unique hrow' hrow.1 (hpid'.trans hpid.symm)] at hvalid
    simp [hvalid] at hrow

theorem CycleFree.parent {q p : Nat} (h : s.CycleFree p) (hlink : s.Link q p) :
    s.CycleFree q :=
  fun x hx => h x (hx.tail hlink)

/-- A process whose chain ends lies in the tree of a root: the parents above it
are ordered well. -/
theorem cycleFree_mem {trees : List Nat}
    (h : Blocks s.children (sortedPids s.rootRows) trees) {p : Nat} (hp : p ∈ s.pids)
    (hfree : s.CycleFree p) : p ∈ trees := by
  let above : Nat → Nat → Prop := fun q p => TransGen s.Link q p ∧ s.CycleFree p
  have : IsStrictOrder Nat above :=
    { irrefl := fun p hp => hp.2 p .refl hp.1
      trans := fun _ _ _ hab hbc => ⟨hab.1.trans hbc.1, hbc.2⟩ }
  have hwf := s.pids.finite_toSet.wellFoundedOn (r := above)
  refine hwf.induction hp (P := fun p => s.CycleFree p → p ∈ trees)
    (fun p hp ih hfree => ?_) hfree
  obtain ⟨row, hrow, rfl⟩ := List.mem_map.1 hp
  cases hvalid : s.validParent row with
  | false =>
    exact h.sublist.subset (mem_sortedPids.2
      ⟨row, by simp [SortData.rootRows, hrow, hvalid], rfl⟩)
  | true =>
    have hlink : s.Link row.parentPid row.pid := link_iff.2 ⟨row, hrow, rfl, hvalid, rfl⟩
    exact h.closed (ih _ (Link.facts hlink).2.2.1 ⟨.single hlink, hfree⟩
      (CycleFree.parent hfree hlink)) hlink

theorem Built.block {order : List Nat} (h : Built s order) {p : Nat} (hp : p ∈ s.pids)
    (hfree : s.CycleFree p) : ∃ before below after, order = before ++ p :: below ++ after ∧
      Blocks s.children (s.children p) below := by
  obtain ⟨trees, rest, rfl, hblocks⟩ := h.split
  obtain ⟨before, below, after, rfl, hbelow⟩ :=
    hblocks.block (cycleFree_mem hblocks hp hfree)
  exact ⟨before, below, after ++ rest, by simp, hbelow⟩

theorem Built.ordered {order : List Nat} (h : Built s order) :
    order.Pairwise fun p q => treeOrder order p < treeOrder order q := by
  rw [List.pairwise_iff_getElem]
  intro i j hi hj hij
  simp [treeOrder, h.nodup.idxOf_getElem]
  omega

theorem reach_mem {p x : Nat} (hp : p ∈ s.pids) (h : ReflTransGen s.Link p x) :
    x ∈ s.pids := by
  cases h with
  | refl => exact hp
  | tail _ hlink => exact (Link.facts hlink).2.2.2

theorem collect_spec {order : List Nat} (h : Built s order) (p : Nat) :
    ∃ found, collectDescendantProcessIds s order p = some found ∧
      List.Sublist found order ∧ ∀ x, x ∈ found ↔ x ≠ p ∧ ReflTransGen s.Link p x := by
  by_cases hnone : p = 0 ∨ s.find p = none
  · refine ⟨[], by simp [collectDescendantProcessIds, hnone], by simp, fun x => ?_⟩
    simp only [List.not_mem_nil, false_iff, not_and]
    intro hne hreach
    obtain rfl | ⟨c, hlink, -⟩ := hreach.cases_head
    · exact hne rfl
    · have hfacts := Link.facts hlink
      have hsome := find_isSome.2 hfacts.2.2.1
      rcases hnone with rfl | hnone
      · exact hfacts.1 rfl
      · simp [hnone] at hsome
  · have hp : p ∈ s.pids := find_isSome.1 (by cases hfind : s.find p <;> simp_all)
    have hlinks : (fun q c => c ∈ (s.childRows q).map (·.pid)) = s.Link := by
      funext q c
      simp [SortData.Link, SortData.children, mem_sortedPids]
    have hstart : Gathering (fun pid => (s.childRows pid).map (·.pid)) p 0 [p] :=
      ⟨by simp, by simp, by simp [ReflTransGen.refl], nofun, by simp⟩
    obtain ⟨new, hrun, hnd, hmem⟩ := gather_spec (fun x hx => reach_mem hp (hlinks ▸ hx))
      (s.rows.length + 1) hstart (by simp [SortData.pids])
    rw [hlinks] at hmem
    simp only [List.singleton_append, List.nodup_cons, List.mem_cons] at hnd hmem
    have hfound (x : Nat) : x ∈ new ↔ x ≠ p ∧ ReflTransGen s.Link p x := by
      rw [← hmem]
      constructor
      · exact fun hx => ⟨fun hxp => hnd.1 (hxp ▸ hx), .inr hx⟩
      · exact fun ⟨hne, hx⟩ => hx.resolve_left hne
    have hperm : (order.filter (· ∈ new)).Perm new := by
      refine (List.perm_ext_iff_of_nodup (h.nodup.filter _) hnd.2).2 fun x => ?_
      simp only [List.mem_filter, decide_eq_true_eq, and_iff_right_iff_imp, h.perm.mem_iff]
      exact fun hx => reach_mem hp ((hfound x).1 hx).2
    have hsorted : (order.filter (· ∈ new)).Pairwise fun a b =>
        toLex (treeOrder order a, a) ≤ toLex (treeOrder order b, b) :=
      (h.ordered.filter _).imp fun hlt => (Prod.Lex.toLex_lt_toLex.2 (.inl hlt)).le
    refine ⟨order.filter (· ∈ new), ?_, List.filter_sublist, fun x => ?_⟩
    · simp only [collectDescendantProcessIds, hnone, if_false, hrun]
      exact congrArg some ((Sorting.stable _).run_eq hperm hsorted
        fun a _ b _ hab => congrArg (fun k => (ofLex k).2) hab)
    · rw [hperm.mem_iff, hfound]

theorem sublists_eq {order l₁ l₂ : List Nat} (h : Built s order)
    (h₁ : List.Sublist l₁ order) (h₂ : List.Sublist l₂ order)
    (hmem : ∀ x, x ∈ l₁ ↔ x ∈ l₂) : l₁ = l₂ :=
  List.Perm.eq_of_pairwise (fun _ _ _ _ hab hba => absurd hab (lt_asymm hba))
    (h.ordered.sublist h₁) (h.ordered.sublist h₂)
    ((List.perm_ext_iff_of_nodup (h.nodup.sublist h₁) (h.nodup.sublist h₂)).2 hmem)

theorem sorted_order {order : List Nat} {keep : ProcessInfo → Bool} (h : Built s order)
    (hsub : List.Sublist (sortedPids (s.rows.filter keep)) order) {x y : ProcessInfo}
    (hx : x ∈ s.rows) (hy : y ∈ s.rows) (hkx : keep x = true) (hky : keep y = true)
    (hlt : orderKey x < orderKey y) : treeOrder order x.pid < treeOrder order y.pid := by
  have hs := (Sorting.stable orderKey).sorted (s.rows.filter keep)
  have hmem {r : ProcessInfo} (hr : r ∈ s.rows) (hk : keep r = true) :
      r ∈ (Sorting.stable orderKey).run (s.rows.filter keep) :=
    ((Sorting.stable orderKey).perm _).mem_iff.2 (List.mem_filter.2 ⟨hr, hk⟩)
  have hord := List.pairwise_map.1 (h.ordered.sublist hsub)
  refine List.Pairwise.forall_of_forall_of_flip (R := fun a b => orderKey a < orderKey b →
    treeOrder order a.pid < treeOrder order b.pid) (fun a _ h => absurd h (lt_irrefl _))
    (hord.imp (S := fun a b => orderKey a < orderKey b →
      treeOrder order a.pid < treeOrder order b.pid) fun hab _ => hab)
    (hs.imp fun hab hba => absurd hba (not_lt.2 hab))
    (hmem hx hkx) (hmem hy hky) hlt

structure Agrees (s : SortData) (order : List Nat) : Prop where
  within : ∀ p ∈ s.pids, 0 ≤ treeOrder order p ∧ treeOrder order p < s.rows.length
  distinct : ∀ p ∈ s.pids, ∀ q ∈ s.pids, treeOrder order p = treeOrder order q → p = q
  parent_first : ∀ q p, s.Link q p → s.CycleFree p → treeOrder order q < treeOrder order p
  siblings : ∀ x ∈ s.rows, ∀ y ∈ s.rows, (∀ q, s.Link q x.pid ↔ s.Link q y.pid) →
    s.CycleFree x.pid → s.CycleFree y.pid → orderKey x < orderKey y →
    treeOrder order x.pid < treeOrder order y.pid
  descendants : ∀ p, ∃ found, collectDescendantProcessIds s order p = some found ∧
    (∀ x, x ∈ found ↔ x ≠ p ∧ ReflTransGen s.Link p x) ∧ found.Nodup ∧
    found.Pairwise fun x y => treeOrder order x < treeOrder order y
  block : ∀ p ∈ s.pids, s.CycleFree p → ∃ before below after,
    order = before ++ p :: below ++ after ∧ Blocks s.children (s.children p) below ∧
    (∀ x, x ∈ p :: below ↔ ReflTransGen s.Link p x) ∧
    collectDescendantProcessIds s order p = some below

theorem tree_and_selection_agree (s : SortData) :
    ∃ order, buildProcessTree s = some order ∧ Agrees s order := by
  obtain ⟨order, hrun, h⟩ := buildProcessTree_built s
  have hmem {p : Nat} (hp : p ∈ s.pids) : p ∈ order := h.perm.mem_iff.2 hp
  have hlen : order.length = s.rows.length := by simp [h.perm.length_eq, SortData.pids]
  have hbelow {q p : Nat} (hlink : s.Link q p) (hfree : s.CycleFree q) :
      ∃ before below after, order = before ++ q :: below ++ after ∧
        List.Sublist (s.children q) below := by
    obtain ⟨before, below, after, heq, hblocks⟩ := h.block (Link.facts hlink).2.2.1 hfree
    exact ⟨before, below, after, heq, hblocks.sublist⟩
  refine ⟨order, hrun, ?_, ?_, ?_, ?_, ?_, ?_⟩
  · intro p hp
    have := List.idxOf_lt_length_of_mem (hmem hp)
    simp [treeOrder, hmem hp]
    omega
  · intro p hp q hq heq
    simp only [treeOrder, hmem hp, hmem hq, if_true] at heq
    exact (List.idxOf_inj (hmem hp)).1 (by omega)
  · intro q p hlink hfree
    obtain ⟨before, below, after, heq, hsub⟩ := hbelow hlink (CycleFree.parent hfree hlink)
    have hpair : List.Sublist [q, p] order := by
      rw [heq, List.append_assoc]
      refine List.Sublist.trans ?_ (List.sublist_append_right _ _)
      refine (List.Sublist.cons_cons q ?_)
      exact (List.singleton_sublist.2 (by simp [hsub.subset hlink]))
    have := h.ordered.sublist hpair
    simpa using this
  · intro x hx y hy hsame hfx hfy hlt
    cases hvalid : s.validParent x with
    | false =>
      have hroot : s.validParent y = false := by
        by_contra hy'
        have hlink := (hsame y.parentPid).2
            (link_iff.2 ⟨y, hy, rfl, by simpa using hy', rfl⟩)
        obtain ⟨x', hx', heq, hv, -⟩ := link_iff.1 hlink
        simp [row_unique hx' hx heq, hvalid] at hv
      obtain ⟨trees, rest, rfl, hblocks⟩ := h.split
      exact sorted_order h (hblocks.sublist.trans (List.sublist_append_left _ _)) hx hy
        (by simp [hvalid]) (by simp [hroot]) hlt
    | true =>
      have hlx : s.Link x.parentPid x.pid := link_iff.2 ⟨x, hx, rfl, hvalid, rfl⟩
      obtain ⟨y', hy', heq, hv, hparent⟩ := link_iff.1 ((hsame x.parentPid).1 hlx)
      obtain rfl := row_unique hy' hy heq
      obtain ⟨before, below, after, hsplit, hsub⟩ := hbelow hlx (CycleFree.parent hfx hlx)
      refine sorted_order h (hsub.trans ?_) hx hy (by simp [hvalid])
        (by simp [hv, hparent]) hlt
      rw [hsplit]
      exact ((List.sublist_cons_self _ _).trans (List.sublist_append_right _ _)).trans
        (List.sublist_append_left _ _)
  · intro p
    obtain ⟨found, hfound, hsub, hmem⟩ := collect_spec h p
    exact ⟨found, hfound, hmem, h.nodup.sublist hsub, h.ordered.sublist hsub⟩
  · intro p hp hfree
    obtain ⟨before, below, after, heq, hblocks⟩ := h.block hp hfree
    have hreach (x : Nat) : x ∈ p :: below ↔ ReflTransGen s.Link p x := by
      have := (Blocks.cons hblocks .nil).mem_iff x
      simp only [List.append_nil, List.mem_singleton, exists_eq_left] at this
      exact this
    have hblock : List.Sublist (p :: below) order := by
      rw [heq]
      exact (List.sublist_append_right _ _).trans (List.sublist_append_left _ _)
    obtain ⟨found, hfound, hsub, hmem⟩ := collect_spec h p
    have hsame : found = below := by
      refine sublists_eq h hsub ((List.sublist_cons_self _ _).trans hblock) fun x => ?_
      have hp := (List.nodup_cons.1 (h.nodup.sublist hblock)).1
      rw [hmem, ← hreach]
      grind
    exact ⟨before, below, after, heq, hblocks, hreach, hsame ▸ hfound⟩

end ProxyLane.App.ProcessTree
