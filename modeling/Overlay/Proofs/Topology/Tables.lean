import Mathlib
import Overlay.Session
import Overlay.Proofs.AddressPlan
import Overlay.Proofs.Topology.Synthesis

/-!
What filling does to a tree whose tables are empty. It changes nothing but tables
(`Node.cleared_filled`), and the table of a router then holds the networks of everything below it,
neighbor by neighbor in post-order, so on each egress those of one neighbor's tree
(`Node.filter_routesBelow`). `tables_of_synthesize` collects this for topologies.
-/

namespace Overlay

open AddressPlan (standardSubnet)

namespace Node

/-! ## Trees apart from their tables -/

mutual

/-- The tree with all tables emptied. -/
def cleared : Node → Node
  | .router info ns => .router { info with table := [] } (clearedAll ns)
  | .host h => .host h

def clearedAll : List Node → List Node
  | [] => []
  | n :: ns => cleared n :: clearedAll ns

end

theorem clearedAll_eq_map (ns : List Node) : clearedAll ns = ns.map cleared := by
  induction ns with
  | nil => rfl
  | cons n ns ih => rw [clearedAll, ih, List.map_cons]

@[simp]
theorem cleared_router (info : RouterInfo) (ns : List Node) :
    (router info ns).cleared = router { info with table := [] } (ns.map cleared) := by
  rw [cleared, clearedAll_eq_map]

@[simp]
theorem cleared_host (h : Host) : (host h).cleared = host h := by
  rw [cleared]

/-- Filling changes nothing but tables. -/
theorem cleared_filled (n : Node) : n.filled.cleared = n.cleared := by
  induction n with
  | router info ns ih =>
    rw [filled_router, cleared_router, cleared_router, List.map_map]
    exact congrArg _ (List.map_congr_left ih)
  | host h => rw [filled_host]

theorem Blank.cleared_eq {n : Node} (h : n.Blank) : n.cleared = n := by
  induction n with
  | router info ns ih =>
    have htable : info.table = [] := h _ (mem_preorder_self _)
    have hns : ns.map cleared = ns.map fun n => n :=
      List.map_congr_left fun n hn => ih n hn (h.of_mem_neighbors hn)
    rw [cleared_router, hns, List.map_id', ← htable]
  | host h' => exact cleared_host h'

/-! ## The networks of a tree -/

theorem subnetsAll_eq_flatMap (ns : List Node) : subnetsAll ns = ns.flatMap subnets := by
  induction ns with
  | nil => rfl
  | cons n ns ih => rw [subnetsAll, ih, List.flatMap_cons]

theorem subnets_eq_map_uplink (n : Node) : n.subnets = n.preorder.map uplink := by
  induction n with
  | router info ns ih =>
    rw [subnets, subnetsAll_eq_flatMap, preorder_router, List.map_cons, List.map_flatMap,
      List.flatMap_congr ih]
    rfl
  | host h =>
    rw [subnets, preorder_host]
    rfl

/-- The networks in post-order are those of the tree. -/
theorem map_uplink_postorder_perm (n : Node) : (n.postorder.map uplink).Perm n.subnets := by
  rw [subnets_eq_map_uplink]
  exact (postorder_perm_preorder n).map uplink

theorem map_uplink_postorder_filled (n : Node) :
    n.filled.postorder.map uplink = n.postorder.map uplink := by
  induction n with
  | router info ns ih =>
    rw [filled_router, postorder_router, postorder_router, List.map_append, List.map_append,
      List.map_flatMap, List.map_flatMap, List.flatMap_map, List.flatMap_congr ih]
    rfl
  | host h => rw [filled_host]

/-- The routes below a list of neighbors do not depend on tables. -/
theorem routesBelow_map_filled (ns : List Node) : routesBelow (ns.map filled) = routesBelow ns := by
  have hpiece : ∀ e ∈ ns.zipIdx,
      (e.1.filled.postorder.map fun d => (⟨.ofNat (e.2 + 1), d.uplink⟩ : Route)) =
        e.1.postorder.map fun d => ⟨.ofNat (e.2 + 1), d.uplink⟩ := by
    intro e _
    have := congrArg (List.map fun net => (⟨.ofNat (e.2 + 1), net⟩ : Route))
      (map_uplink_postorder_filled e.1)
    rwa [List.map_map, List.map_map] at this
  unfold routesBelow
  rw [List.zipIdx_map, List.flatMap_map]
  exact List.flatMap_congr hpiece

theorem map_subnet_routesBelow (ns : List Node) :
    (routesBelow ns).map (·.subnet) = ns.flatMap fun n => n.postorder.map uplink := by
  rw [routesBelow, List.map_flatMap]
  simp only [List.map_map, Function.comp_def]
  conv_rhs => rw [← List.zipIdx_map_fst 0 ns, List.flatMap_map]

/-! ## The routes on one egress -/

/-- Neighbors with their positions. -/
def positions (ns : List Node) : List (Egress × Node) :=
  ns.zipIdx.map fun e => (.ofNat (e.2 + 1), e.1)

theorem mem_positions {ns : List Node} {i : Nat} {n : Node} (hi : ns[i]? = some n) :
    (.ofNat (i + 1), n) ∈ positions ns :=
  List.mem_map.2 ⟨(n, i), List.mk_mem_zipIdx_iff_getElem?.2 hi, rfl⟩

/-- As long as positions fit into a word, no two neighbors have the same one. -/
theorem nodup_positions {ns : List Node} (hlen : ns.length < 2 ^ 32) :
    ((positions ns).map (·.1)).Nodup := by
  have hfst : (positions ns).map (·.1) =
      (List.range' 0 ns.length).map fun i => UInt32.ofNat (i + 1) := by
    rw [positions, ← List.zipIdx_map_snd, List.map_map, List.map_map]
    rfl
  rw [hfst]
  refine List.Nodup.map_on ?_ List.nodup_range'
  intro i hi j hj heq
  rw [List.mem_range'_1] at hi hj
  rw [← UInt32.toNat_inj, UInt32.toNat_ofNat', UInt32.toNat_ofNat'] at heq
  omega

theorem routesBelow_eq_flatMap (ns : List Node) :
    routesBelow ns =
      (positions ns).flatMap fun e => e.2.postorder.map fun d => ⟨e.1, d.uplink⟩ := by
  rw [positions, List.flatMap_map]
  rfl

/-- The routes on an egress are those to the trees of the neighbors there. -/
theorem filter_routesBelow (ns : List Node) (e : Egress) :
    (routesBelow ns).filter (fun route => route.egress = e) =
      ((positions ns).filter fun d => d.1 = e).flatMap fun d =>
        d.2.postorder.map fun m => ⟨d.1, m.uplink⟩ := by
  rw [routesBelow_eq_flatMap]
  apply Lists.filter_flatMap_of_forall
  intro d _ route hroute
  obtain ⟨m, -, rfl⟩ := List.mem_map.1 hroute
  rfl

/-- As long as positions fit into a word, those are the routes to the tree of one neighbor. -/
theorem filter_routesBelow_of_lt {ns : List Node} (hlen : ns.length < 2 ^ 32) {i : Nat} {n : Node}
    (hi : ns[i]? = some n) :
    (routesBelow ns).filter (fun route => route.egress = .ofNat (i + 1)) =
      n.postorder.map fun d => ⟨.ofNat (i + 1), d.uplink⟩ := by
  rw [filter_routesBelow, Lists.filter_eq_singleton (nodup_positions hlen) (mem_positions hi),
    List.flatMap_singleton]

theorem filter_routesBelow_perm (ns : List Node) (e : Egress) :
    (((routesBelow ns).filter fun route => route.egress = e).map (·.subnet)).Perm
      (((positions ns).filter fun d => d.1 = e).flatMap (·.2.subnets)) := by
  rw [filter_routesBelow, List.map_flatMap]
  apply List.Perm.flatMap_left
  intro d _
  rw [List.map_map]
  exact map_uplink_postorder_perm d.2

/-- The routes below a router and its own network are the networks of its tree. -/
theorem routesBelow_perm_subnets (info : RouterInfo) (ns : List Node) :
    ((routesBelow ns).map (·.subnet) ++ [info.uplink]).Perm (router info ns).subnets := by
  rw [map_subnet_routesBelow, subnets, subnetsAll_eq_flatMap]
  exact (List.perm_append_singleton _ _).trans
    ((List.Perm.flatMap_left ns fun n _ => map_uplink_postorder_perm n).cons _)

/-- Every router of a filled tree has the routes to everything below it. -/
theorem table_of_mem_preorder_filled {n : Node} (h : n.Blank) {info : RouterInfo} {ns : List Node}
    (hm : router info ns ∈ n.filled.preorder) : info.table = routesBelow ns := by
  rw [preorder_filled, List.mem_map] at hm
  obtain ⟨m, hm, heq⟩ := hm
  cases m with
  | router info' ns' =>
    have htable := table_filled (h.of_mem hm)
    rw [heq] at htable
    rw [filled_router, router.injEq] at heq
    rw [← heq.2, routesBelow_map_filled]
    exact htable
  | host h' =>
    rw [filled_host] at heq
    cases heq

end Node

namespace Topology

/-- Filling a topology whose tables are empty, for the first time, changes nothing but tables. Each
router then has, neighbor by neighbor, the networks of the neighbor's tree in post-order. So the
routes on one egress are those to the tree of the neighbor there, all routes and the router's own
network are the networks of its tree, and none leads to the router above. Filling counts the
routers; a second time it fails, and a session goes on with the topology that it has. The position
of a neighbor is a word, which tells apart fewer than `2 ^ 32` of them. -/
theorem tables_of_synthesize {t : Topology} (hblank : t.root.toNode.Blank)
    (hnew : t.synthesized = false) :
    ∃ t', t.synthesize = .ok t' ∧
      t'.root.toNode.cleared = t.root.toNode ∧
      (∀ info ns, .router info ns ∈ t'.root.toNode.preorder →
        info.table = (ns.zipIdx.flatMap fun (n, i) =>
          n.postorder.map fun d => ⟨.ofNat (i + 1), d.uplink⟩) ∧
        (∀ e, ((info.table.filter fun route => route.egress = e).map (·.subnet)).Perm
          (((Router.egressNeighbors ⟨info, ns⟩).filter fun d => d.1 = e).flatMap
            (·.2.subnets))) ∧
        (ns.length < 2 ^ 32 → ∀ i n, ns[i]? = some n →
          ((info.table.filter fun route => route.egress = .ofNat (i + 1)).map (·.subnet)).Perm
            n.subnets) ∧
        (info.table.map (·.subnet) ++ [info.uplink]).Perm (Node.router info ns).subnets) ∧
      t.appendRoutes =
        ({ t with root := t'.root }, t.root.toNode.preorder.countP fun m => m.kind = .router) ∧
      t'.synthesize = .error .alreadySynthesized ∧
      ∀ s : Session, s.topology = some t' →
        Session.synthesize s = (.error (.topology .alreadySynthesized), s) := by
  refine ⟨_, synthesize_eq_ok_iff.2 ⟨hnew, rfl⟩, ?_, fun info ns hm => ?_, appendRoutes_eq t, rfl,
    fun s hs => ?_⟩
  · rw [Router.toNode_filled, Node.cleared_filled, hblank.cleared_eq]
  · rw [Router.toNode_filled] at hm
    have htable := Node.table_of_mem_preorder_filled hblank hm
    rw [htable]
    refine ⟨rfl, Node.filter_routesBelow_perm ns, fun hlen i n hi => ?_,
      Node.routesBelow_perm_subnets info ns⟩
    rw [Node.filter_routesBelow_of_lt hlen hi, List.map_map]
    exact Node.map_uplink_postorder_perm n
  · obtain ⟨allocator, slots, topology, placement⟩ := s
    cases hs
    rfl

/-- Two routers with the same number above three nodes with the same network. -/
def nested : Topology :=
  ofRoot ⟨⟨1, "upper", standardSubnet 0, []⟩, [
    .router ⟨1, "lower", standardSubnet 1, []⟩ [
      .host ⟨2, "left", standardSubnet 2, .ofHost 0x0A000201⟩,
      .host ⟨2, "right", standardSubnet 2, .ofHost 0x0A000201⟩],
    .host ⟨3, "outer", standardSubnet 2, .ofHost 0x0A000201⟩]⟩

/-- Equal networks are routed as often as they occur. -/
theorem tables_of_synthesize_nested :
    ∃ t', nested.synthesize = .ok t' ∧
      t'.root.info.table = [⟨1, standardSubnet 2⟩, ⟨1, standardSubnet 2⟩,
        ⟨1, standardSubnet 1⟩, ⟨2, standardSubnet 2⟩] ∧
      t'.synthesize = .error .alreadySynthesized := by
  obtain ⟨t', h, -, htables, -, hagain, -⟩ :=
    tables_of_synthesize (t := nested) (by unfold Node.Blank; decide) rfl
  refine ⟨t', h, ?_, hagain⟩
  obtain ⟨-, rfl⟩ := synthesize_eq_ok_iff.1 h
  exact (htables _ _ (Node.mem_preorder_self _)).1.trans (by decide)

end Topology

end Overlay
