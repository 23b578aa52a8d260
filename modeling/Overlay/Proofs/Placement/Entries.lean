import Mathlib
import Overlay.Proofs.Placement.CatchAll

/-!
What becomes of each entry of a routing table. The checks of a snapshot do not look at positions or
tables (`validate_congr`), and a placement matches the two neighbor by neighbor. So an entry gives
one route for each neighbor entry on its egress (`bound`): none if there is no such neighbor, and
several if there are several. Counted together, the routes are those of all entries.
-/

namespace Overlay.Snapshot

open AddressPlan (standardSubnet)

variable {s t : Snapshot} {c : Cabling} {o : PlacementOptions} {p : Placement}
  {ws : List PlacementWarning}

/-! ## What the checks look at -/

/-- The part of a neighbor entry that the checks look at. -/
def shapeOf (e : NodeId × NeighborRef) : NodeId × Kind × NodeId :=
  (e.1, e.2.kind, e.2.id)

theorem checkEdges_congr (hhas : t.has = s.has) {es ds : List (NodeId × NeighborRef)}
    (h : ds.map shapeOf = es.map shapeOf) (parents : List (NodeId × NodeId)) :
    t.checkEdges parents ds = s.checkEdges parents es := by
  induction es generalizing ds parents with
  | nil => rw [List.map_eq_nil_iff.1 h, checkEdges, checkEdges]
  | cons e es ih =>
    obtain ⟨d, ds, rfl, hd, hds⟩ := List.map_eq_cons_iff.1 h
    obtain ⟨router, n⟩ := e
    obtain ⟨router', n'⟩ := d
    obtain ⟨rfl, hkind, hid⟩ : router' = router ∧ n'.kind = n.kind ∧ n'.id = n.id := by
      simpa [shapeOf] using hd
    rw [checkEdges, checkEdges, hhas, hkind, hid]
    split
    · rfl
    · split
      · rfl
      · exact ih hds _

section Shape

variable (hrouters : t.routers.keys = s.routers.keys)
  (hedges : t.edges.map shapeOf = s.edges.map shapeOf)

include hedges

theorem targets_congr : t.targets = s.targets := by
  have htargets := congrArg (List.map fun shape => shape.2.2) hedges
  rwa [List.map_map, List.map_map] at htargets

theorem map_id_neighbors_congr (id : NodeId) :
    (t.neighbors id).map (·.id) = (s.neighbors id).map (·.id) := by
  have hown : ∀ s : Snapshot, (s.neighbors id).map (·.id) =
      ((s.edges.map shapeOf).filter fun shape => shape.1 = id).map fun shape => shape.2.2 := by
    intro s
    have hfilter : s.edges.filter ((fun shape => shape.1 = id) ∘ shapeOf) = _ := filter_edges s id
    rw [List.filter_map, hfilter, List.map_map, List.map_map]
    rfl
  rw [hown, hown, hedges]

include hrouters

theorem roots_congr : t.roots = s.roots := by
  have hroots : ∀ s : Snapshot,
      s.roots = s.routers.keys.filter fun id => !s.targets.any fun target => target = id := by
    intro s
    simp only [roots, targets, List.any_map]
    rfl
  rw [hroots, hroots, hrouters, targets_congr hedges]

theorem reach_congr (reached todo : List NodeId) : t.reach reached todo = s.reach reached todo := by
  fun_induction reach s reached todo with
  | case1 reached => rw [reach]
  | case2 reached id todo new ih =>
    have hfresh : t.fresh reached id = s.fresh reached id := by
      rw [fresh, fresh, map_id_neighbors_congr hedges]
    rw [reach, hfresh, KeyedMap.contains_eq_of_keys_eq hrouters]
    exact ih

/-- Whether a snapshot is accepted does not depend on positions, networks and tables. -/
theorem validate_congr (hhosts : t.hosts.keys = s.hosts.keys) : t.validate = s.validate := by
  have hrouter := KeyedMap.contains_eq_of_keys_eq hrouters
  have hhost := KeyedMap.contains_eq_of_keys_eq hhosts
  have hhas : t.has = s.has := by
    funext k id
    cases k with
    | router => exact congrFun hrouter id
    | host => exact congrFun hhost id
  have hroot : t.root = s.root := by rw [root, root, roots_congr hrouters hedges]
  have hunreachable : t.unreachable = s.unreachable := by
    funext id
    rw [unreachable, unreachable, hrouters, hhosts, reach_congr hrouters hedges]
  rw [validate_eq, validate_eq, hrouters, hhost, checkEdges_congr hhas hedges, hroot, hunreachable]

end Shape

/-! ## Entries -/

/-- The routes that a table entry of the router `id` gives: one for each wire on its egress. -/
def bound (s : Snapshot) (c : Cabling) (id : NodeId) (route : Route) : List PortRoute :=
  ((s.wiresOf c id).filter fun w => w.neighbor.egress = route.egress).map fun w =>
    ⟨route.subnet, w.cable.near, s.macOf w.neighbor⟩

theorem subnet_of_mem_bound {id : NodeId} {route : Route} {e : PortRoute}
    (he : e ∈ s.bound c id route) : e.subnet = route.subnet := by
  obtain ⟨w, -, rfl⟩ := List.mem_map.1 he
  rfl

/-- Wire by wire or entry by entry, the routes are the same. -/
theorem routesOn_perm_flatMap_bound {id : NodeId} {r : RouterRecord}
    (hr : s.routers.get? id = some r) :
    (s.routesOn (s.wiring c) id).Perm (r.table.flatMap (s.bound c id)) := by
  have hroutes : s.routesOn (s.wiring c) id = (s.wiresOf c id).flatMap fun w =>
      (r.table.filter fun route => route.egress = w.neighbor.egress).map fun route =>
        ⟨route.subnet, w.cable.near, s.macOf w.neighbor⟩ := by
    refine List.flatMap_congr fun w hw => ?_
    rw [Wire.routes_of_get? ((mem_wiresOf_iff.1 hw).2 ▸ hr)]
    rfl
  rw [hroutes]
  exact Lists.perm_flatMap_filter _ _ _ _ _

theorem catchAll_root_of_absent {root : NodeId} (hc : s.Checked root)
    (h : s.place c o = .ok (p, ws)) (ho : o.rootCatchAll = .absent) (ports : List Port) :
    o.catchAll p.root root ports = [] := by
  obtain ⟨-, hplaced, -⟩ := routed_of_place h
  have hroots := hplaced.roots
  rw [hc.roots, List.singleton_inj] at hroots
  exact if_pos ⟨hroots, ho⟩

section Place

variable (h : s.place c o = .ok (p, ws)) {id : NodeId} {r : RouterRecord}
  (hr : s.routers.get? id = some r)

include h hr

/-- An entry gives as many routes as neighbor entries have its egress. -/
theorem length_bound (route : Route) :
    (s.bound c id route).length = r.neighbors.countP fun n => n.egress = route.egress := by
  rw [bound, List.length_map, ← List.countP_eq_length_filter, ← neighbors_of_get? hr,
    ← map_neighbor_wiresOf h id, List.countP_map]
  rfl

/-- An entry whose egress one neighbor entry has gives one route. -/
theorem exists_bound_eq_singleton {route : Route}
    (hone : (r.neighbors.countP fun n => n.egress = route.egress) = 1) :
    ∃ e, s.bound c id route = [e] ∧ e.subnet = route.subnet := by
  rw [← length_bound h hr, List.length_eq_one_iff] at hone
  obtain ⟨e, he⟩ := hone
  exact ⟨e, he, subnet_of_mem_bound (he ▸ List.mem_singleton_self e)⟩

/-- What becomes of the entries of a router's table in a placement that succeeds. Each gives as many
routes as the router has neighbor entries on its egress, all for its own network, and the router has
these routes and its catch-all route. So no entry is lost and none is there twice if each has the
egress of one neighbor entry; then there are as many routes as table entries. -/
theorem entries_of_place :
    ∃ routes, p.routesOf id = routes ++ o.catchAll p.root id (p.portsOf id) ∧
      routes.Perm (r.table.flatMap (s.bound c id)) ∧
      (∀ route ∈ r.table,
        (s.bound c id route).length = (r.neighbors.countP fun n => n.egress = route.egress) ∧
        ∀ e ∈ s.bound c id route, e.subnet = route.subnet) ∧
      ((∀ route ∈ r.table, (r.neighbors.countP fun n => n.egress = route.egress) = 1) →
        ∃ bind : Route → PortRoute,
          (∀ route ∈ r.table, s.bound c id route = [bind route] ∧
            (bind route).subnet = route.subnet) ∧
          routes.Perm (r.table.map bind) ∧ routes.length = r.table.length) := by
  have hperm := routesOn_perm_flatMap_bound (c := c) hr
  refine ⟨_, routesOf_place h (KeyedMap.contains_iff_exists.2 ⟨r, hr⟩), hperm,
    fun route _ => ⟨length_bound h hr route, fun e he => subnet_of_mem_bound he⟩, fun hmatch => ?_⟩
  have hex := fun route hroute => exists_bound_eq_singleton h hr (hmatch route hroute)
  -- What becomes of entries that are not in the table does not matter.
  have : Nonempty PortRoute := ⟨r.uplink, 0, .nextHop⟩
  choose! bind hbind using hex
  have hroutes : (s.routesOn (s.wiring c) id).Perm (r.table.map bind) := by
    rwa [List.flatMap_congr fun route hroute => (hbind route hroute).1, ← List.map_eq_flatMap]
      at hperm
  exact ⟨bind, hbind, hroutes, by rw [hroutes.length_eq, List.length_map]⟩

end Place

/-- The nodes of `forked` at other positions, neither from 1 nor in order. -/
def crossed : Snapshot where
  routers := .ofList [
    (1, ⟨"upper", standardSubnet 0, [⟨9, 2, .router⟩, ⟨4, 3, .host⟩],
      [⟨4, standardSubnet 2⟩, ⟨9, standardSubnet 3⟩, ⟨9, standardSubnet 1⟩]⟩),
    (2, ⟨"lower", standardSubnet 1, [], []⟩)]
  hosts := .ofList [(3, (Host.ofNet 3 (standardSubnet 2)).record)]

theorem checked_crossed : crossed.Checked 1 := by
  rw [← validate_eq_ok_iff_checked, ← validate_eq_ok_iff_checked.2 checked_forked]
  exact validate_congr (by decide) (by decide) (by decide)

theorem entries_of_place_crossed :
    ∃ p ws, crossed.place pairCabling ⟨AddressPlan.standard.space, .absent⟩ = .ok (p, ws) ∧
      (p.routesOf 1).length = 3 ∧
      (p.routesOf 1).Perm [⟨standardSubnet 2, 20, .ofHost 0x0A000201⟩,
        ⟨standardSubnet 3, 10, .nextHop⟩, ⟨standardSubnet 1, 10, .nextHop⟩] := by
  obtain ⟨p, ws, h⟩ := exists_place_of_checked (c := pairCabling)
    (o := ⟨AddressPlan.standard.space, .absent⟩) checked_crossed (by decide) (by decide) (by decide)
  have hupper : crossed.routers.get? 1 = some _ := rfl
  obtain ⟨routes, hroutes, hperm, -, hone⟩ := entries_of_place h hupper
  rw [catchAll_root_of_absent checked_crossed h rfl, List.append_nil] at hroutes
  obtain ⟨-, -, -, hlen⟩ := hone (by decide)
  rw [← hroutes] at hperm hlen
  exact ⟨p, ws, h, hlen, hperm.trans (.of_eq (by decide))⟩

/-- In `forked` an entry is on no neighbor's egress and the other two are on that of both. The first
is lost and each of these is there twice, so that there are four routes for three entries. -/
theorem entries_lost_forked :
    ∃ p ws, forked.place pairCabling ⟨AddressPlan.standard.space, .absent⟩ = .ok (p, ws) ∧
      ∃ r, forked.routers.get? 1 = some r ∧
        PlacementOptions.catchAll ⟨AddressPlan.standard.space, .absent⟩ p.root 1 (p.portsOf 1) = [] ∧
        ⟨1, standardSubnet 3⟩ ∈ r.table ∧ (∀ e ∈ p.routesOf 1, e.subnet ≠ standardSubnet 3) ∧
        (r.table.countP fun route => route.subnet = standardSubnet 2) = 1 ∧
        ((p.routesOf 1).countP fun e => e.subnet = standardSubnet 2) = 2 ∧
        r.table.length = 3 ∧ (p.routesOf 1).length = 4 := by
  obtain ⟨p, ws, h⟩ := exists_place_of_checked (c := pairCabling)
    (o := ⟨AddressPlan.standard.space, .absent⟩) checked_forked (by decide) (by decide) (by decide)
  have hnone := catchAll_root_of_absent checked_forked h rfl
  have hroutes : p.routesOf 1 = forked.routesOn (forked.wiring pairCabling) 1 := by
    rw [routesOf_place h (by decide), hnone, List.append_nil]
  refine ⟨p, ws, h, _, rfl, hnone _, ?_⟩
  rw [hroutes]
  decide

end Overlay.Snapshot
