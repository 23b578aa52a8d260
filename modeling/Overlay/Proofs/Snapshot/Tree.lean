import Mathlib
import Overlay.Proofs.Snapshot.Checks

/-!
Which snapshots are trees. `IsTree` is the condition on walks: every node is reached from the root
by exactly one of them. The checks of `validate` are local (who names whom) apart from the search
at the end, and `checked_iff_isTree` shows that together they amount to that condition.
-/

namespace Overlay.Snapshot

variable {s : Snapshot} {root : NodeId}

/-- The records describe one tree with the given root. -/
structure IsTree (s : Snapshot) (root : NodeId) : Prop where
  /-- No number is used for both a router and a host. -/
  disjoint : ∀ id, ¬(s.has .router id = true ∧ s.has .host id = true)
  /-- Every neighbor entry names a node of its kind. -/
  known : ∀ a, ∀ n ∈ s.neighbors a, s.has n.kind n.id = true
  root_router : s.has .router root = true
  /-- Exactly one walk leads from the root to each node. -/
  walk : ∀ k id, s.has k id = true → ∃! path, s.Walk root path id
  /-- No walk but the empty one leads back to the root. -/
  root_walk : ∀ path, s.Walk root path root → path = []

/-! ## From the checks to walks -/

theorem has_router_iff {id : NodeId} : s.has .router id = true ↔ s.routers.contains id = true :=
  Iff.rfl

theorem has_host_iff {id : NodeId} : s.has .host id = true ↔ s.hosts.contains id = true :=
  Iff.rfl

namespace Checked

variable (h : s.Checked root)

include h

theorem root_router : s.routers.contains root = true :=
  ((roots_eq_singleton_iff.1 h.roots root).2 rfl).1

theorem root_not_target : root ∉ s.targets :=
  ((roots_eq_singleton_iff.1 h.roots root).2 rfl).2

/-- Walks from the root to one node are equal: read from their ends, both have to take the only
entry that names the node. -/
theorem walk_unique {p q : List Nat} {id : NodeId} (hp : s.Walk root p id)
    (hq : s.Walk root q id) : p = q := by
  have not_root : ∀ (r : List Nat) (i : Nat), ¬s.Walk root (r ++ [i]) root := by
    intro r i hr
    obtain ⟨a, n, -, hn, hid⟩ := walk_concat_iff.1 hr
    exact h.root_not_target (mem_targets_iff.2 ⟨a, n, List.mem_of_getElem? hn, hid⟩)
  induction p using List.reverseRecOn generalizing q id with
  | nil =>
    have hid := walk_nil_iff.1 hp
    subst hid
    rcases List.eq_nil_or_concat q with rfl | ⟨q, j, rfl⟩
    · rfl
    · rw [List.concat_eq_append] at hq
      exact absurd hq (not_root q j)
  | append_singleton p i ih =>
    rcases List.eq_nil_or_concat q with rfl | ⟨q, j, rfl⟩
    · have hid := walk_nil_iff.1 hq
      subst hid
      exact absurd hp (not_root p i)
    · rw [List.concat_eq_append] at hq ⊢
      obtain ⟨a, m, hpa, hm, rfl⟩ := walk_concat_iff.1 hp
      obtain ⟨b, n, hqb, hn, hid⟩ := walk_concat_iff.1 hq
      obtain ⟨rfl, rfl⟩ := position_unique_of_nodup h.nodup hm hn hid.symm
      rw [ih hpa hqb]

theorem isTree : s.IsTree root where
  disjoint id := fun ⟨hr, hh⟩ => h.disjoint id hr hh
  known a n hn := h.known (a, n) (mem_edges_iff.2 hn)
  root_router := h.root_router
  walk k id hk := by
    obtain ⟨path, hp⟩ := h.reached k id hk
    exact ⟨path, hp, fun q hq => h.walk_unique hq hp⟩
  root_walk path hp := h.walk_unique hp (.nil root)

end Checked

/-! ## From walks to the checks -/

namespace IsTree

variable (h : s.IsTree root)

include h

theorem exists_walk_of_mem_neighbors {a : NodeId} {n : NeighborRef} (hn : n ∈ s.neighbors a) :
    ∃ path, s.Walk root path a :=
  (h.walk .router a (contains_of_mem_neighbors hn)).exists

/-- Two entries that named one node would give two walks to it. -/
theorem nodup_targets : s.targets.Nodup := by
  refine nodup_of_position_unique ?_
  intro a b i j m n hm hn hid
  have hm' := List.mem_of_getElem? hm
  obtain ⟨p, hp⟩ := h.exists_walk_of_mem_neighbors hm'
  obtain ⟨q, hq⟩ := h.exists_walk_of_mem_neighbors (List.mem_of_getElem? hn)
  have hpi : s.Walk root (p ++ [i]) m.id := walk_concat_iff.2 ⟨a, m, hp, hm, rfl⟩
  have hqj : s.Walk root (q ++ [j]) m.id := walk_concat_iff.2 ⟨b, n, hq, hn, hid.symm⟩
  obtain ⟨rfl, hij⟩ := List.append_inj' ((h.walk m.kind m.id (h.known a m hm')).unique hpi hqj) rfl
  exact ⟨hp.end_unique hq, List.singleton_inj.1 hij⟩

theorem root_not_target : root ∉ s.targets := by
  intro hmem
  obtain ⟨a, n, hn, hid⟩ := mem_targets_iff.1 hmem
  obtain ⟨p, hp⟩ := h.exists_walk_of_mem_neighbors hn
  obtain ⟨i, hi⟩ := List.mem_iff_getElem?.1 hn
  have := h.root_walk (p ++ [i]) (walk_concat_iff.2 ⟨a, n, hp, hi, hid⟩)
  simp at this

/-- A walk to a node other than the root ends with an entry that names it. -/
theorem mem_targets {k : Kind} {id : NodeId} (hk : s.has k id = true) (hne : id ≠ root) :
    id ∈ s.targets := by
  obtain ⟨p, hp⟩ := (h.walk k id hk).exists
  rcases List.eq_nil_or_concat p with rfl | ⟨p, i, rfl⟩
  · exact absurd (walk_nil_iff.1 hp).symm hne
  · rw [List.concat_eq_append] at hp
    obtain ⟨a, n, -, hn, hid⟩ := walk_concat_iff.1 hp
    exact mem_targets_iff.2 ⟨a, n, List.mem_of_getElem? hn, hid⟩

theorem checked : s.Checked root where
  disjoint id hr hh := h.disjoint id ⟨hr, hh⟩
  known e he := h.known e.1 e.2 (mem_edges_iff.1 he)
  nodup := h.nodup_targets
  roots := by
    rw [roots_eq_singleton_iff]
    intro id
    constructor
    · intro hex
      obtain ⟨hr, hnot⟩ := hex
      by_contra hne
      exact hnot (h.mem_targets (k := .router) hr hne)
    · intro heq
      subst heq
      exact ⟨h.root_router, h.root_not_target⟩
  reached k id hk := (h.walk k id hk).exists

end IsTree

theorem checked_iff_isTree : s.Checked root ↔ s.IsTree root :=
  ⟨Checked.isTree, IsTree.checked⟩

/-- A snapshot is accepted with a root exactly if it is a tree with that root. -/
theorem validate_eq_ok_iff_isTree (s : Snapshot) (root : NodeId) :
    s.validate = .ok root ↔ s.IsTree root := by
  rw [validate_eq_ok_iff_checked, checked_iff_isTree]

end Overlay.Snapshot
