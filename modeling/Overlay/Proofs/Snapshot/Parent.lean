import Mathlib
import Overlay.Proofs.Snapshot.Tree

/-!
The entry that leads to a node of an accepted snapshot. Every node but the root is named by exactly
one entry (`Checked.exists_parent`, `Checked.parent_unique`), and never by itself. So the entries of
one kind name the nodes of that kind one by one, all but the root (`Checked.perm_targets_router`,
`Checked.perm_targets_host`), which gives their numbers.
-/

namespace Overlay.Snapshot

variable {s : Snapshot} {root : NodeId}

/-- The neighbor entries of one kind, by ascending router and in stored order. -/
def edgesTo (s : Snapshot) (k : Kind) : List (NodeId × NeighborRef) :=
  s.edges.filter fun e => e.2.kind = k

theorem mem_edgesTo_iff {k : Kind} {a : NodeId} {n : NeighborRef} :
    (a, n) ∈ s.edgesTo k ↔ n ∈ s.neighbors a ∧ n.kind = k := by
  simp [edgesTo, mem_edges_iff]

namespace Checked

variable (h : s.Checked root)

include h

theorem has_of_mem_neighbors {a : NodeId} {n : NeighborRef} (hn : n ∈ s.neighbors a) :
    s.has n.kind n.id = true :=
  h.known (a, n) (mem_edges_iff.2 hn)

/-- An entry that names a router is of that kind. -/
theorem kind_eq_of_has {a : NodeId} {n : NeighborRef} {k : Kind} (hn : n ∈ s.neighbors a)
    (hk : s.has k n.id = true) : n.kind = k := by
  have hkind := h.has_of_mem_neighbors hn
  cases hn' : n.kind <;> cases k <;> rw [hn'] at hkind
  case router.host => exact absurd hk (h.disjoint _ hkind)
  case host.router => exact absurd hkind (h.disjoint _ hk)

theorem id_ne_root {a : NodeId} {n : NeighborRef} (hn : n ∈ s.neighbors a) : n.id ≠ root := by
  intro hid
  exact h.root_not_target (mem_targets_iff.2 ⟨a, n, hn, hid⟩)

theorem exists_parent {k : Kind} {id : NodeId} (hk : s.has k id = true) (hne : id ≠ root) :
    ∃ a, ∃ n ∈ s.neighbors a, n.id = id ∧ n.kind = k := by
  obtain ⟨a, n, hn, rfl⟩ := mem_targets_iff.1 (h.isTree.mem_targets hk hne)
  exact ⟨a, n, hn, rfl, h.kind_eq_of_has hn hk⟩

theorem parent_unique {a b : NodeId} {m n : NeighborRef} (hm : m ∈ s.neighbors a)
    (hn : n ∈ s.neighbors b) (hid : m.id = n.id) : a = b ∧ m = n := by
  obtain ⟨i, hi⟩ := List.mem_iff_getElem?.1 hm
  obtain ⟨j, hj⟩ := List.mem_iff_getElem?.1 hn
  obtain ⟨rfl, rfl⟩ := position_unique_of_nodup h.nodup hi hj hid
  exact ⟨rfl, Option.some.inj (hi.symm.trans hj)⟩

/-- No router names itself: that entry would prolong the walk to the router. -/
theorem id_ne_router {a : NodeId} {n : NeighborRef} (hn : n ∈ s.neighbors a) : n.id ≠ a := by
  intro hid
  obtain ⟨i, hi⟩ := List.mem_iff_getElem?.1 hn
  obtain ⟨path, hp⟩ := h.reached .router a (contains_of_mem_neighbors hn)
  have := h.walk_unique hp (walk_concat_iff.2 ⟨a, n, hp, hi, hid⟩)
  simp at this

/-! ## Numbers of entries -/

theorem nodup_targets_edgesTo (k : Kind) : ((s.edgesTo k).map (·.2.id)).Nodup :=
  h.nodup.sublist (List.filter_sublist.map _)

theorem mem_targets_edgesTo_iff {k : Kind} {id : NodeId} :
    id ∈ (s.edgesTo k).map (·.2.id) ↔ s.has k id = true ∧ id ≠ root := by
  simp only [List.mem_map, Prod.exists, mem_edgesTo_iff]
  constructor
  · intro hex
    obtain ⟨a, n, ⟨hn, rfl⟩, rfl⟩ := hex
    exact ⟨h.has_of_mem_neighbors hn, h.id_ne_root hn⟩
  · intro hex
    obtain ⟨hk, hne⟩ := hex
    obtain ⟨a, n, hn, hid, hkind⟩ := h.exists_parent hk hne
    exact ⟨a, n, ⟨hn, hkind⟩, hid⟩

/-- The entries that name routers name every router but the root. -/
theorem perm_targets_router :
    ((s.edgesTo .router).map (·.2.id)).Perm (s.routers.keys.erase root) := by
  rw [List.perm_ext_iff_of_nodup (h.nodup_targets_edgesTo .router)
    (s.routers.keys_nodup.erase root)]
  intro id
  rw [h.mem_targets_edgesTo_iff, s.routers.keys_nodup.mem_erase_iff, has_router_iff,
    KeyedMap.contains_iff_mem_keys]
  exact and_comm

/-- The entries that name hosts name every host. -/
theorem perm_targets_host : ((s.edgesTo .host).map (·.2.id)).Perm s.hosts.keys := by
  rw [List.perm_ext_iff_of_nodup (h.nodup_targets_edgesTo .host) s.hosts.keys_nodup]
  intro id
  rw [h.mem_targets_edgesTo_iff, has_host_iff, KeyedMap.contains_iff_mem_keys, and_iff_left_iff_imp]
  rintro hid rfl
  exact h.disjoint id h.root_router (KeyedMap.contains_iff_mem_keys.2 hid)

theorem length_edgesTo_router : (s.edgesTo .router).length = s.routers.size - 1 := by
  have hperm := h.perm_targets_router.length_eq
  rwa [List.length_map, List.length_erase_of_mem
    (KeyedMap.contains_iff_mem_keys.1 h.root_router), KeyedMap.length_keys] at hperm

theorem length_edgesTo_host : (s.edgesTo .host).length = s.hosts.size := by
  have hperm := h.perm_targets_host.length_eq
  rwa [List.length_map, KeyedMap.length_keys] at hperm

end Checked

end Overlay.Snapshot
