import Mathlib
import Overlay.Proofs.Node
import Overlay.Proofs.Snapshot.Tree
import Overlay.Proofs.Topology.Synthesis

/-!
The snapshot of a tree whose nodes have distinct numbers. It has one record for each node
(`get?_routers_ofTree`, `get?_hosts_ofTree`), the entries of a router are its neighbors, and so all
checks are passed (`checked_ofTree`).
-/

namespace Overlay

/-! ## Entries of the tables -/

namespace Node

/-- The entry of a node in the table of routers. -/
def routerEntry? : Node → Option (NodeId × RouterRecord)
  | .router info ns => some (info.id, Router.record ⟨info, ns⟩)
  | .host _ => none

/-- The entry of a node in the table of hosts. -/
def hostEntry? : Node → Option (NodeId × HostRecord)
  | .router _ _ => none
  | .host h => some (h.id, h.record)

/-- Some nodes, seen through `f`, are the entries of the routers and of the hosts among them. -/
theorem map_perm_entries {β : Type} {f : Node → β} {g : NodeId × RouterRecord → β}
    {k : NodeId × HostRecord → β}
    (hrouter : ∀ info ns, f (router info ns) = g (info.id, Router.record ⟨info, ns⟩))
    (hhost : ∀ h, f (host h) = k (h.id, h.record)) (ns : List Node) :
    (ns.map f).Perm
      ((ns.filterMap routerEntry?).map g ++ (ns.filterMap hostEntry?).map k) := by
  induction ns with
  | nil => exact .nil
  | cons n ns ih =>
    cases n with
    | router info ms =>
      rw [List.filterMap_cons_some (show routerEntry? (.router info ms) = _ from rfl),
        List.filterMap_cons_none (show hostEntry? (.router info ms) = none from rfl),
        List.map_cons, hrouter]
      exact ih.cons _
    | host h =>
      rw [List.filterMap_cons_none (show routerEntry? (.host h) = none from rfl),
        List.filterMap_cons_some (show hostEntry? (.host h) = _ from rfl), List.map_cons, hhost]
      exact (ih.cons _).trans List.perm_middle.symm

/-- The numbers of some nodes are those of the routers and those of the hosts among them. -/
theorem map_id_perm (ns : List Node) :
    (ns.map id).Perm
      ((ns.filterMap routerEntry?).map (·.1) ++ (ns.filterMap hostEntry?).map (·.1)) :=
  map_perm_entries (fun _ _ => rfl) (fun _ => rfl) ns

/-- The neighbors of a node as its record names them. -/
def refs (n : Node) : List NeighborRef :=
  n.neighbors.zipIdx.map fun (m, i) => ⟨.ofNat (i + 1), m.id, m.kind⟩

theorem getElem?_refs (n : Node) (i : Nat) :
    n.refs[i]? = n.neighbors[i]?.map fun m => ⟨.ofNat (i + 1), m.id, m.kind⟩ := by
  simp [refs, Function.comp_def]

theorem neighbors_record (info : RouterInfo) (ns : List Node) :
    (Router.record ⟨info, ns⟩).neighbors = (router info ns).refs := by
  simp [Router.record, Router.egressNeighbors, refs, neighbors]

theorem refs_filled (n : Node) : n.filled.refs = n.refs := by
  simp [refs, List.zipIdx_map, Function.comp_def]

theorem exists_routerEntry?_iff {P : Node → Prop} {id : NodeId} {r : RouterRecord} :
    (∃ n, P n ∧ n.routerEntry? = some (id, r)) ↔
      ∃ x : Router, P x.toNode ∧ x.info.id = id ∧ x.record = r := by
  constructor
  · rintro ⟨n, hn, he⟩
    cases n with
    | router info ns =>
      cases he
      exact ⟨⟨info, ns⟩, hn, rfl, rfl⟩
    | host h => cases he
  · rintro ⟨x, hx, rfl, rfl⟩
    exact ⟨x.toNode, hx, rfl⟩

theorem exists_hostEntry?_iff {P : Node → Prop} {id : NodeId} {r : HostRecord} :
    (∃ n, P n ∧ n.hostEntry? = some (id, r)) ↔ ∃ h, P (host h) ∧ h.id = id ∧ h.record = r := by
  constructor
  · rintro ⟨n, hn, he⟩
    cases n with
    | router info ns => cases he
    | host h =>
      cases he
      exact ⟨h, hn, rfl, rfl⟩
  · rintro ⟨h, hh, rfl, rfl⟩
    exact ⟨host h, hh, rfl⟩

/-- The entry of a router after filling. -/
theorem routerEntry?_filled {info : RouterInfo} {ns : List Node} (h : (router info ns).Blank) :
    (router info ns).filled.routerEntry? =
      some (info.id, ⟨info.name, info.uplink, (router info ns).refs, routesBelow ns⟩) := by
  have htable := table_filled h
  have hrefs := refs_filled (router info ns)
  rw [filled_router] at htable hrefs ⊢
  rw [← neighbors_record] at hrefs
  rw [← hrefs, ← htable]
  rfl

end Node

namespace Snapshot

theorem snapshot_foldl_recorder (ns : List Node) (d : Draft) :
    (ns.foldl (fun d n => Draft.recorder.visit n d) d).snapshot =
      ⟨(ns.filterMap Node.routerEntry?).foldl (fun m e => m.insert e.1 e.2) d.snapshot.routers,
        (ns.filterMap Node.hostEntry?).foldl (fun m e => m.insert e.1 e.2) d.snapshot.hosts⟩ := by
  induction ns generalizing d with
  | nil => rfl
  | cons n ns ih =>
    rw [List.foldl_cons, ih]
    cases n with
    | router info ns' =>
      rw [List.filterMap_cons_some (show Node.routerEntry? (.router info ns') = _ from rfl),
        List.filterMap_cons_none (show Node.hostEntry? (.router info ns') = none from rfl)]
      rfl
    | host h =>
      rw [List.filterMap_cons_none (show Node.routerEntry? (.host h) = none from rfl),
        List.filterMap_cons_some (show Node.hostEntry? (.host h) = _ from rfl)]
      rfl

theorem ofTree_eq (root : Router) :
    ofTree root = ⟨.ofList (root.toNode.preorder.filterMap Node.routerEntry?),
      .ofList (root.toNode.preorder.filterMap Node.hostEntry?)⟩ := by
  rw [ofTree, draft, Router.walk, Node.walk_eq_foldl_preorder fun _ => rfl, snapshot_foldl_recorder]
  rfl

/-! ## Records -/

section Records

variable {root : Router} (hd : root.toNode.Distinct)

include hd

theorem nodup_keys :
    ((root.toNode.preorder.filterMap Node.routerEntry?).map (·.1)).Nodup ∧
      ((root.toNode.preorder.filterMap Node.hostEntry?).map (·.1)).Nodup := by
  obtain ⟨hrouters, hhosts, -⟩ := List.nodup_append.1 ((Node.map_id_perm _).nodup_iff.1 hd)
  exact ⟨hrouters, hhosts⟩

/-- There is one record for each router. -/
theorem routers_ofTree_perm :
    (ofTree root).routers.entries.Perm (root.toNode.preorder.filterMap Node.routerEntry?) := by
  rw [ofTree_eq]
  exact KeyedMap.entries_ofList_perm (nodup_keys hd).1

/-- There is one record for each host. -/
theorem hosts_ofTree_perm :
    (ofTree root).hosts.entries.Perm (root.toNode.preorder.filterMap Node.hostEntry?) := by
  rw [ofTree_eq]
  exact KeyedMap.entries_ofList_perm (nodup_keys hd).2

theorem get?_routers_ofTree {id : NodeId} {r : RouterRecord} :
    (ofTree root).routers.get? id = some r ↔
      ∃ x : Router, x.toNode ∈ root.toNode.preorder ∧ x.info.id = id ∧ x.record = r := by
  rw [KeyedMap.get?_eq_some_iff, (routers_ofTree_perm hd).mem_iff, List.mem_filterMap]
  exact Node.exists_routerEntry?_iff

theorem get?_hosts_ofTree {id : NodeId} {r : HostRecord} :
    (ofTree root).hosts.get? id = some r ↔
      ∃ h, .host h ∈ root.toNode.preorder ∧ h.id = id ∧ h.record = r := by
  rw [KeyedMap.get?_eq_some_iff, (hosts_ofTree_perm hd).mem_iff, List.mem_filterMap]
  exact Node.exists_hostEntry?_iff

theorem has_ofTree_iff {k : Kind} {id : NodeId} :
    (ofTree root).has k id = true ↔ ∃ n ∈ root.toNode.preorder, n.id = id ∧ n.kind = k := by
  cases k with
  | router =>
    rw [has_router_iff, KeyedMap.contains_iff_exists]
    simp only [get?_routers_ofTree hd]
    constructor
    · intro hex
      obtain ⟨_, x, hx, rfl, rfl⟩ := hex
      exact ⟨x.toNode, hx, rfl, rfl⟩
    · intro hex
      obtain ⟨⟨info, ns⟩ | h, hn, rfl, hk⟩ := hex
      · exact ⟨_, ⟨info, ns⟩, hn, rfl, rfl⟩
      · cases hk
  | host =>
    rw [has_host_iff, KeyedMap.contains_iff_exists]
    simp only [get?_hosts_ofTree hd]
    constructor
    · intro hex
      obtain ⟨_, h, hh, rfl, rfl⟩ := hex
      exact ⟨.host h, hh, rfl, rfl⟩
    · intro hex
      obtain ⟨⟨info, ns⟩ | h, hn, rfl, hk⟩ := hex
      · cases hk
      · exact ⟨_, h, hn, rfl, rfl⟩

/-- The entries of a node are its neighbors. -/
theorem neighbors_ofTree {n : Node} (hn : n ∈ root.toNode.preorder) :
    (ofTree root).neighbors n.id = n.refs := by
  cases n with
  | router info ns =>
    have hget := (get?_routers_ofTree hd).2 ⟨⟨info, ns⟩, hn, rfl, rfl⟩
    rw [Node.id, neighbors_of_get? hget, Node.neighbors_record]
  | host h =>
    rw [neighbors_of_not_router]
    · rfl
    · rw [Bool.eq_false_iff]
      intro hc
      obtain ⟨m, hm, hid, hk⟩ := (has_ofTree_iff hd (k := .router)).1 hc
      rw [hd.eq_of_id_eq hm hn hid] at hk
      cases hk

/-- Every entry stands at a node of the tree. -/
theorem exists_of_getElem?_neighbors {a : NodeId} {i : Nat} {n : NeighborRef}
    (h : ((ofTree root).neighbors a)[i]? = some n) :
    ∃ l m, l ∈ root.toNode.preorder ∧ l.neighbors[i]? = some m ∧ l.id = a ∧
      n = ⟨.ofNat (i + 1), m.id, m.kind⟩ := by
  have hc := contains_of_mem_neighbors (List.mem_of_getElem? h)
  obtain ⟨l, hl, rfl, -⟩ := (has_ofTree_iff hd (k := .router)).1 hc
  rw [neighbors_ofTree hd hl, Node.getElem?_refs, Option.map_eq_some_iff] at h
  obtain ⟨m, hm, rfl⟩ := h
  exact ⟨l, m, hl, hm, rfl, rfl⟩

theorem exists_of_mem_neighbors {a : NodeId} {n : NeighborRef}
    (h : n ∈ (ofTree root).neighbors a) :
    ∃ l ∈ root.toNode.preorder, ∃ m ∈ l.neighbors, l.id = a ∧ m.id = n.id ∧ m.kind = n.kind := by
  obtain ⟨i, hi⟩ := List.mem_iff_getElem?.1 h
  obtain ⟨l, m, hl, hm, rfl, rfl⟩ := exists_of_getElem?_neighbors hd hi
  exact ⟨l, hl, m, List.mem_of_getElem? hm, rfl, rfl, rfl⟩

/-- In an ascending tree routers are named only by routers with smaller numbers. -/
theorem lt_of_mem_neighbors_ofTree (hasc : root.toNode.Ascending) {a : NodeId} {n : NeighborRef}
    (hn : n ∈ (ofTree root).neighbors a) (hk : n.kind = .router) : a < n.id := by
  obtain ⟨l, hl, m, hm, rfl, hid, hkm⟩ := exists_of_mem_neighbors hd hn
  exact hid ▸ hasc l hl m hm (hkm.trans hk)

end Records

/-! ## The checks -/

section Checks

variable {root : Router} (hd : root.toNode.Distinct)

include hd

/-- A walk to a node goes on to every node of its tree. -/
theorem exists_walk_of_mem_preorder {a : NodeId} {n : Node} (hn : n ∈ root.toNode.preorder)
    (hw : ∃ path, (ofTree root).Walk a path n.id) {m : Node} (hm : m ∈ n.preorder) :
    ∃ path, (ofTree root).Walk a path m.id := by
  induction n with
  | router info ns ih =>
    rw [Node.preorder_router, List.mem_cons, List.mem_flatMap] at hm
    rcases hm with rfl | ⟨l, hl, hm⟩
    · exact hw
    · obtain ⟨path, hw⟩ := hw
      obtain ⟨i, hi⟩ := List.mem_iff_getElem?.1 hl
      have hl' : l ∈ root.toNode.preorder :=
        Node.mem_preorder_trans (Node.mem_preorder_of_mem_neighbors (n := .router info ns) hl) hn
      have hstep : ((ofTree root).neighbors info.id)[i]? =
          some ⟨.ofNat (i + 1), l.id, l.kind⟩ := by
        have hrefs := neighbors_ofTree hd hn
        rw [Node.id] at hrefs
        rw [hrefs, Node.getElem?_refs, Node.neighbors, hi]
        rfl
      exact ih l hl hl' ⟨path ++ [i], walk_concat_iff.2 ⟨_, _, hw, hstep, rfl⟩⟩ hm
  | host h =>
    rw [Node.preorder_host, List.mem_singleton] at hm
    exact hm ▸ hw

theorem nodup_targets_ofTree : (ofTree root).targets.Nodup := by
  refine nodup_of_position_unique ?_
  intro a b i j _ _ hi hj hid
  obtain ⟨l, m, hl, hm, rfl, rfl⟩ := exists_of_getElem?_neighbors hd hi
  obtain ⟨l', m', hl', hm', rfl, rfl⟩ := exists_of_getElem?_neighbors hd hj
  obtain ⟨rfl, rfl⟩ := hd.position_unique hl hl' hm hm' hid
  exact ⟨rfl, rfl⟩

theorem mem_targets_ofTree_iff {id : NodeId} :
    id ∈ (ofTree root).targets ↔
      ∃ l ∈ root.toNode.preorder, ∃ m ∈ l.neighbors, m.id = id := by
  rw [mem_targets_iff]
  constructor
  · intro h
    obtain ⟨a, n, hn, rfl⟩ := h
    obtain ⟨l, hl, m, hm, -, hid, -⟩ := exists_of_mem_neighbors hd hn
    exact ⟨l, hl, m, hm, hid⟩
  · intro h
    obtain ⟨l, hl, m, hm, rfl⟩ := h
    obtain ⟨i, hi⟩ := List.mem_iff_getElem?.1 hm
    refine ⟨l.id, ⟨.ofNat (i + 1), m.id, m.kind⟩, ?_, rfl⟩
    rw [neighbors_ofTree hd hl]
    refine List.mem_of_getElem? (i := i) ?_
    rw [Node.getElem?_refs, hi, Option.map_some]

theorem roots_ofTree : (ofTree root).roots = [root.info.id] := by
  rw [roots_eq_singleton_iff]
  intro id
  rw [← has_router_iff, has_ofTree_iff hd, mem_targets_ofTree_iff hd]
  constructor
  · intro h
    obtain ⟨⟨n, hn, rfl, -⟩, hnot⟩ := h
    rcases Node.eq_or_mem_neighbors_of_mem hn with rfl | ⟨l, hl, hm⟩
    · rfl
    · exact absurd ⟨l, hl, n, hm, rfl⟩ hnot
  · intro heq
    subst heq
    refine ⟨⟨root.toNode, Node.mem_preorder_self _, rfl, rfl⟩, ?_⟩
    intro h
    obtain ⟨l, hl, m, hm, hid⟩ := h
    exact hd.id_ne_of_mem_neighbors hl hm hid

/-- The snapshot of a tree with distinct numbers passes all checks. -/
theorem checked_ofTree : (ofTree root).Checked root.info.id where
  disjoint id hr hh := by
    obtain ⟨m, hm, rfl, hk⟩ := (has_ofTree_iff hd (k := .router)).1 hr
    obtain ⟨n, hn, hid, hk'⟩ := (has_ofTree_iff hd (k := .host)).1 hh
    rw [hd.eq_of_id_eq hn hm hid, hk] at hk'
    cases hk'
  known e he := by
    obtain ⟨l, hl, m, hm, -, hid, hk⟩ := exists_of_mem_neighbors hd (mem_edges_iff.1 he)
    have hm' := Node.mem_preorder_trans (Node.mem_preorder_of_mem_neighbors hm) hl
    exact (has_ofTree_iff hd).2 ⟨m, hm', hid, hk⟩
  nodup := nodup_targets_ofTree hd
  roots := roots_ofTree hd
  reached k id hk := by
    obtain ⟨n, hn, rfl, -⟩ := (has_ofTree_iff hd).1 hk
    exact exists_walk_of_mem_preorder hd (Node.mem_preorder_self _) ⟨[], .nil _⟩ hn

theorem validate_ofTree : (ofTree root).validate = .ok root.info.id :=
  validate_eq_ok_iff_checked.2 (checked_ofTree hd)

end Checks

end Snapshot

end Overlay
