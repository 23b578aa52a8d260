import Mathlib
import Overlay.Proofs.Placement.CatchAll
import Overlay.Proofs.Snapshot.OfTree
import Overlay.Proofs.Topology.Tables

/-!
Placing a tree whose tables have been filled. Positions at a router are counted twice: in the tree,
where filling a table goes neighbor by neighbor, and in the snapshot, where a placement goes entry
by entry and picks the routes on the entry's egress out of the table. `routes_of_wire` is where the
two meet. A router then has the routes of its table in order, each through the wire to the neighbor
that it leads to, and one catch-all route more (`egress_of_place`).
-/

namespace Overlay

open AddressPlan (standardSubnet)

/-- The MAC for routes through a neighbor: its own for a host, the fixed one for a router. -/
def Node.hopMac : Node → Mac
  | .router _ _ => .nextHop
  | .host h => h.mac

/-- In a filled table the routes on the egress of a neighbor are those to the neighbor's tree. -/
theorem RouterRecord.routesVia_of_table {r : RouterRecord} {ns : List Node}
    (htable : r.table = Node.routesBelow ns) (hlen : ns.length < 2 ^ 32) {i : Nat} {n : Node}
    (hi : ns[i]? = some n) (port : Port) (mac : Mac) :
    r.routesVia (.ofNat (i + 1)) port mac = n.postorder.map fun d => ⟨d.uplink, port, mac⟩ := by
  rw [routesVia, htable, Node.filter_routesBelow_of_lt hlen hi, List.map_map]
  rfl

/-- The routes to everything below some neighbors, each through the wire to the neighbor. -/
def Wire.routesTo (ns : List Node) (ws : List Wire) : List PortRoute :=
  (ns.zip ws).flatMap fun (n, w) => n.postorder.map fun d => ⟨d.uplink, w.cable.near, n.hopMac⟩

/-- With a wire for each neighbor, these are routes to the same networks as in a filled table. -/
theorem Wire.map_subnet_routesTo {ns : List Node} {ws : List Wire} (hlen : ns.length ≤ ws.length) :
    (routesTo ns ws).map (·.subnet) = (Node.routesBelow ns).map (·.subnet) := by
  have hpiece : ∀ e ∈ ns.zip ws, (e.1.postorder.map fun d =>
      (⟨d.uplink, e.2.cable.near, e.1.hopMac⟩ : PortRoute)).map (·.subnet) =
        e.1.postorder.map Node.uplink := by
    intro e _
    rw [List.map_map]
    rfl
  calc (routesTo ns ws).map (·.subnet)
      = (ns.zip ws).flatMap fun e => e.1.postorder.map Node.uplink := by
        rw [routesTo, List.map_flatMap]
        exact List.flatMap_congr hpiece
    _ = ((ns.zip ws).map Prod.fst).flatMap fun n => n.postorder.map Node.uplink := by
        rw [List.flatMap_map]
    _ = (Node.routesBelow ns).map (·.subnet) := by
        rw [List.map_fst_zip hlen, Node.map_subnet_routesBelow]

namespace Snapshot

variable {root : Router} {info : RouterInfo} {ns : List Node} {c : Cabling} {o : PlacementOptions}
  {p : Placement} {ws : List PlacementWarning}

/-! ## Routes through a wire -/

section Wires

variable (hd : root.toNode.Distinct)

include hd

theorem macOf_ofTree {n : Node} (hn : n ∈ root.toNode.preorder) (e : Egress) :
    (ofTree root).macOf ⟨e, n.id, n.kind⟩ = n.hopMac := by
  cases n with
  | router info ns => exact macOf_router rfl
  | host h => exact macOf_host rfl ((get?_hosts_ofTree hd).2 ⟨h, hn, rfl, rfl⟩)

theorem contains_router_ofTree (hm : .router info ns ∈ root.toNode.preorder) :
    (ofTree root).routers.contains info.id = true :=
  (has_ofTree_iff hd (k := .router)).2 ⟨_, hm, rfl, rfl⟩

variable (h : (ofTree root).place c o = .ok (p, ws))

include h

theorem root_of_place_ofTree : p.root = root.info.id := by
  obtain ⟨st, hc, -, -, -⟩ := routed_of_place h
  have hroots := hc.roots
  rw [roots_ofTree hd, List.singleton_inj] at hroots
  exact hroots.symm

/-- The wires of a router lead to its neighbors. -/
theorem map_neighbor_wiresOf_ofTree {n : Node} (hn : n ∈ root.toNode.preorder) :
    ((ofTree root).wiresOf c n.id).map (·.neighbor) = n.refs := by
  rw [map_neighbor_wiresOf h, neighbors_ofTree hd hn]

variable (hm : .router info ns ∈ root.toNode.preorder)

include hm

theorem length_wiresOf_ofTree : ((ofTree root).wiresOf c info.id).length = ns.length := by
  have hrefs := congrArg List.length (map_neighbor_wiresOf_ofTree hd h hm)
  rw [List.length_map, Node.refs, List.length_map, List.length_zipIdx] at hrefs
  exact hrefs

variable (htable : info.table = Node.routesBelow ns)

include htable

/-- Through the wire at a position go the routes that filling has put there for the neighbor. -/
theorem routes_of_wire {i : Nat} {n : Node} {w : Wire} (hi : ns[i]? = some n)
    (hw : ((ofTree root).wiresOf c info.id)[i]? = some w) :
    w.routes (ofTree root) = n.postorder.map fun d => ⟨d.uplink, w.cable.near, n.hopMac⟩ := by
  -- The entry at this position has the egress under which the table has the neighbor's routes.
  have hneighbor : w.neighbor = ⟨.ofNat (i + 1), n.id, n.kind⟩ := by
    have hrefs : _ = (Node.router info ns).refs[i]? :=
      congrArg (·[i]?) (map_neighbor_wiresOf_ofTree hd h hm)
    rw [Node.getElem?_refs, Node.neighbors, hi, List.getElem?_map] at hrefs
    exact Option.some.inj ((congrArg _ hw).symm.trans hrefs)
  have hrouter := (mem_wiresOf_iff.1 (List.mem_of_getElem? hw)).2
  have hget := (get?_routers_ofTree hd).2 ⟨⟨info, ns⟩, hm, rfl, rfl⟩
  have hn := Node.mem_preorder_trans
    (Node.mem_preorder_of_mem_neighbors (n := .router info ns) (List.mem_of_getElem? hi)) hm
  rw [Wire.routes_of_get? (hrouter ▸ hget), hneighbor, macOf_ofTree hd hn]
  exact RouterRecord.routesVia_of_table htable (hd.length_neighbors_lt hm) hi _ _

theorem routesOn_ofTree :
    (ofTree root).routesOn ((ofTree root).wiring c) info.id =
      Wire.routesTo ns ((ofTree root).wiresOf c info.id) := by
  apply Lists.flatMap_eq_flatMap_zip
  · exact (length_wiresOf_ofTree hd h hm).le
  · intro i n w hi hw
    exact routes_of_wire hd h hm htable hi hw

theorem routesOf_ofTree :
    p.routesOf info.id = Wire.routesTo ns ((ofTree root).wiresOf c info.id) ++
      o.catchAll p.root info.id (p.portsOf info.id) := by
  rw [routesOf_place h (contains_router_ofTree hd hm), routesOn_ofTree hd h hm htable]

theorem map_subnet_routesTo_ofTree :
    (Wire.routesTo ns ((ofTree root).wiresOf c info.id)).map (·.subnet) =
      info.table.map (·.subnet) := by
  rw [Wire.map_subnet_routesTo (length_wiresOf_ofTree hd h hm).ge, htable]

end Wires

/-! ## Numbers of routes -/

/-- One route more than table entries at every router. -/
theorem sum_routes {f : NodeId → Nat} {l : List Node}
    (hf : ∀ info ns, .router info ns ∈ l → f info.id = info.table.length + 1) :
    ((l.filterMap Node.routerEntry?).map fun e => f e.1).sum =
      (l.map fun n => n.table.length).sum + l.countP fun n => n.kind = .router := by
  induction l with
  | nil => rfl
  | cons n l ih =>
    have hl := ih fun info ns hm => hf info ns (List.mem_cons_of_mem _ hm)
    cases n with
    | router info ns =>
      rw [List.filterMap_cons_some (show Node.routerEntry? (.router info ns) = _ from rfl),
        List.map_cons, List.sum_cons, hl, hf info ns List.mem_cons_self, List.map_cons,
        List.sum_cons, List.countP_cons_of_pos (by simp [Node.kind]), Node.table]
      omega
    | host h =>
      rw [List.filterMap_cons_none (show Node.routerEntry? (.host h) = none from rfl), hl,
        List.map_cons, List.sum_cons, List.countP_cons_of_neg (by simp [Node.kind]), Node.table,
        List.length_nil, Nat.zero_add]

section Filled

variable (hd : root.toNode.Distinct) (h : (ofTree root).place c o = .ok (p, ws))

include hd h

theorem length_catchAll_root :
    (o.catchAll p.root root.info.id (p.portsOf root.info.id)).length =
      if o.rootCatchAll = .firstPort ∧ root.neighbors ≠ [] then 1 else 0 := by
  have hm : .router root.info root.neighbors ∈ root.toNode.preorder := Node.mem_preorder_self _
  have hwires := length_wiresOf_ofTree hd h hm
  rw [← root_of_place_ofTree hd h] at hwires ⊢
  rw [catchAll_root h]
  by_cases hfirst : o.rootCatchAll = .firstPort
  · rw [if_pos hfirst]
    cases hw : (ofTree root).wiresOf c p.root with
    | nil =>
      rw [hw, List.length_nil] at hwires
      rw [if_neg fun hne => hne.2 (List.length_eq_zero_iff.1 hwires.symm)]
      rfl
    | cons w ws =>
      rw [if_pos]
      · rfl
      · refine ⟨hfirst, fun hnil => ?_⟩
        rw [hw, hnil] at hwires
        cases hwires
  · rw [if_neg hfirst, if_neg fun hand => hfirst hand.1]
    rfl

variable
  (hroutes : ∀ info ns, .router info ns ∈ root.toNode.preorder → info.table = Node.routesBelow ns)

include hroutes

theorem length_routesOf_ofTree (hm : .router info ns ∈ root.toNode.preorder) :
    (p.routesOf info.id).length =
      info.table.length + (o.catchAll p.root info.id (p.portsOf info.id)).length := by
  have htable := hroutes info ns hm
  have hlen := congrArg List.length (map_subnet_routesTo_ofTree hd h hm htable)
  rw [List.length_map, List.length_map] at hlen
  rw [routesOf_ofTree hd h hm htable, List.length_append, hlen]

theorem length_routes_ofTree :
    (p.routes.values.map List.length).sum =
      (root.toNode.preorder.map fun n => n.table.length).sum + (root.toNode.routerCount - 1) +
        if o.rootCatchAll = .firstPort ∧ root.neighbors ≠ [] then 1 else 0 := by
  -- The keys of the routes are the numbers of the routers in the tree.
  have hkeys : (p.routes.values.map List.length).Perm
      ((root.toNode.preorder.filterMap Node.routerEntry?).map
        fun e => (p.routesOf e.1).length) := by
    rw [p.routes.values_eq_map_keys [], routes_keys_of_place h, KeyedMap.keys, List.map_map,
      List.map_map]
    exact (routers_ofTree_perm hd).map _
  have hpre : root.toNode.preorder = root.toNode :: root.neighbors.flatMap Node.preorder :=
    Node.preorder_router _ _
  have hroot := length_routesOf_ofTree hd h hroutes (Node.mem_preorder_self _)
  rw [length_catchAll_root hd h] at hroot
  have hrest : ∀ info ns, .router info ns ∈ root.neighbors.flatMap Node.preorder →
      (p.routesOf info.id).length = info.table.length + 1 := by
    intro info ns hm
    have hm' : .router info ns ∈ root.toNode.preorder := hpre ▸ List.mem_cons_of_mem _ hm
    have hne : info.id ≠ p.root := by
      rw [root_of_place_ofTree hd h]
      have hnodup := hd
      rw [Node.Distinct, hpre, List.map_cons, List.nodup_cons] at hnodup
      intro heq
      exact hnodup.1 (List.mem_map.2 ⟨_, hm, heq⟩)
    obtain ⟨-, -, l, -, -, -, hcatch⟩ :=
      exists_loop_of_ne_root h (contains_router_ofTree hd hm') hne
    rw [length_routesOf_ofTree hd h hroutes hm', hcatch]
    rfl
  have hsum := sum_routes (f := fun id => (p.routesOf id).length) hrest
  have hcount : root.toNode.routerCount =
      (root.neighbors.flatMap Node.preorder).countP (fun n => n.kind = .router) + 1 := by
    rw [Node.routerCount, hpre]
    exact List.countP_cons_of_pos (by rfl)
  rw [hkeys.sum_eq, hcount, hpre,
    List.filterMap_cons_some (show Node.routerEntry? root.toNode = _ from rfl), List.map_cons,
    List.map_cons, List.sum_cons, List.sum_cons, hsum, hroot, Router.toNode, Node.table]
  omega

end Filled

end Snapshot

namespace Topology

/-- Filling and placing agree on positions. If the tables of a tree with distinct numbers were
empty, are filled, and its snapshot is placed, then every router has one wire for each neighbor,
and the routes through the wire to a neighbor are those to the neighbor's tree, with the host's MAC
if it is a host. These routes are for the networks of the router's table, in order; a catch-all
route may follow. So there are as many routes as table entries, and one more for each router but
the root, which has one more if the options ask for it and it has a neighbor. -/
theorem egress_of_place {t t' : Topology} {c : Cabling} {o : PlacementOptions} {p : Placement}
    {ws : List PlacementWarning} (hd : t.root.toNode.Distinct) (hblank : t.root.toNode.Blank)
    (hs : t.synthesize = .ok t') (h : (Snapshot.ofTree t'.root).place c o = .ok (p, ws)) :
    p.routes.keys = (Snapshot.ofTree t'.root).routers.keys ∧
    (∀ info ns, .router info ns ∈ t'.root.toNode.preorder →
      ∃ wires catchAll, wires = (Snapshot.ofTree t'.root).wiresOf c info.id ∧
        wires.map (·.neighbor) = (Node.router info ns).refs ∧
        (∀ w ∈ wires, w.cable.near ∈ p.portsOf info.id) ∧
        p.routesOf info.id = Wire.routesTo ns wires ++ catchAll ∧
        (Wire.routesTo ns wires).map (·.subnet) = info.table.map (·.subnet) ∧
        (info.id ≠ t'.root.info.id → ∃ port, catchAll = [⟨o.space, port, .nextHop⟩]) ∧
        (info.id = t'.root.info.id → catchAll =
          if o.rootCatchAll = .firstPort then
            (wires.head?.map fun w => ⟨o.space, w.cable.near, .nextHop⟩).toList
          else [])) ∧
    (p.routes.values.map List.length).sum =
      (t'.root.toNode.preorder.map fun n => n.table.length).sum +
        (t'.root.toNode.routerCount - 1) +
        if o.rootCatchAll = .firstPort ∧ t'.root.neighbors ≠ [] then 1 else 0 := by
  obtain ⟨-, rfl⟩ := synthesize_eq_ok_iff.1 hs
  have hd' : t.root.filled.toNode.Distinct := by
    rw [Router.toNode_filled]
    exact Node.distinct_filled_iff.2 hd
  have hroutes : ∀ info ns, .router info ns ∈ t.root.filled.toNode.preorder →
      info.table = Node.routesBelow ns := by
    intro info ns hm
    rw [Router.toNode_filled] at hm
    exact Node.table_of_mem_preorder_filled hblank hm
  have hroot := Snapshot.root_of_place_ofTree hd' h
  refine ⟨Snapshot.routes_keys_of_place h, fun info ns hm => ?_,
    Snapshot.length_routes_ofTree hd' h hroutes⟩
  have hid := Snapshot.contains_router_ofTree hd' hm
  refine ⟨_, _, rfl, Snapshot.map_neighbor_wiresOf_ofTree hd' h hm, fun w hw => ?_,
    Snapshot.routesOf_ofTree hd' h hm (hroutes info ns hm),
    Snapshot.map_subnet_routesTo_ofTree hd' h hm (hroutes info ns hm), fun hne => ?_,
    fun heq => ?_⟩
  · obtain ⟨hw, hrouter⟩ := Snapshot.mem_wiresOf_iff.1 hw
    exact hrouter ▸ Snapshot.near_mem_portsOf h hw
  · obtain ⟨-, -, l, -, -, -, hcatch⟩ :=
      Snapshot.exists_loop_of_ne_root h hid (hroot.symm ▸ hne)
    exact ⟨l.far, hcatch⟩
  · rw [heq, ← hroot]
    exact Snapshot.catchAll_root h

/-- A router above another router and a host. -/
def sprout : Topology :=
  ofRoot ⟨⟨1, "upper", standardSubnet 0, []⟩, [
    .router ⟨2, "lower", standardSubnet 1, []⟩ [],
    .host ⟨3, "host", standardSubnet 2, .ofHost 0x0A000201⟩]⟩

/-- Two table entries, the catch-all route of router 2 and that of the root are four routes. -/
theorem egress_of_place_sprout :
    ∃ t' p ws, sprout.synthesize = .ok t' ∧
      (Snapshot.ofTree t'.root).place Snapshot.pairCabling
        ⟨AddressPlan.standard.space, .firstPort⟩ = .ok (p, ws) ∧
      p.routesOf 1 = [
        ⟨standardSubnet 1, 10, .nextHop⟩,
        ⟨standardSubnet 2, 20, .ofHost 0x0A000201⟩,
        ⟨AddressPlan.standard.space, 10, .nextHop⟩] ∧
      (p.routes.values.map List.length).sum = 4 := by
  have hd : sprout.root.toNode.Distinct := by
    unfold Node.Distinct
    decide
  have hblank : sprout.root.toNode.Blank := by
    unfold Node.Blank
    decide
  have hs : sprout.synthesize = .ok ⟨sprout.root.filled, true⟩ := synthesize_ofRoot _
  have hd' : sprout.root.filled.toNode.Distinct := by
    rw [Router.toNode_filled]
    exact Node.distinct_filled_iff.2 hd
  obtain ⟨p, ws, h⟩ := Snapshot.exists_place_of_checked (c := Snapshot.pairCabling)
    (o := ⟨AddressPlan.standard.space, .firstPort⟩) (Snapshot.checked_ofTree hd') (by decide)
    (by decide) (by decide)
  obtain ⟨-, hrouters, hsum⟩ := egress_of_place hd hblank hs h
  refine ⟨_, p, ws, hs, h, ?_, hsum.trans (by decide)⟩
  obtain ⟨wires, catchAll, rfl, -, -, hroutes, -, -, hcatch⟩ :=
    hrouters _ _ (Node.mem_preorder_self _)
  exact hroutes.trans (by rw [hcatch rfl]; decide)

end Topology

end Overlay
