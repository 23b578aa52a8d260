import Mathlib
import Overlay.Proofs.Placement.Ports

/-!
The routes of a successful placement. A router gets the routes through its wires, one wire after
the other, and then its catch-all route. `Routed` is the invariant. Its catch-all route is through
the port that is the router's first at that step, which stays its first: the steps after it give
the router neither routes nor ports.
-/

namespace Overlay

/-- The MAC written for routes through a neighbor entry. -/
def Snapshot.macOf (s : Snapshot) (n : NeighborRef) : Mac :=
  match n.kind, s.hosts.get? n.id with
  | .host, some h => h.mac
  | _, _ => .nextHop

theorem Snapshot.macOf_router {s : Snapshot} {n : NeighborRef} (h : n.kind = .router) :
    s.macOf n = .nextHop := by
  rw [macOf, h]

theorem Snapshot.macOf_host {s : Snapshot} {n : NeighborRef} {host : HostRecord}
    (h : n.kind = .host) (hhost : s.hosts.get? n.id = some host) : s.macOf n = host.mac := by
  rw [macOf, h, hhost]

/-- The routes that a router has through a wire. -/
def Wire.routes (s : Snapshot) (w : Wire) : List PortRoute :=
  match s.routers.get? w.router with
  | some r => r.routesVia w.neighbor.egress w.cable.near (s.macOf w.neighbor)
  | none => []

theorem Wire.routes_of_get? {s : Snapshot} {w : Wire} {r : RouterRecord}
    (h : s.routers.get? w.router = some r) :
    w.routes s = r.routesVia w.neighbor.egress w.cable.near (s.macOf w.neighbor) := by
  rw [routes, h]

theorem Wire.exists_of_mem_routes {s : Snapshot} {w : Wire} {e : PortRoute} (he : e ∈ w.routes s) :
    ∃ net, e = ⟨net, w.cable.near, s.macOf w.neighbor⟩ := by
  unfold routes at he
  split at he
  · obtain ⟨route, -, rfl⟩ := List.mem_map.1 he
    exact ⟨route.subnet, rfl⟩
  · cases he

/-- The routes of a router through some wires. -/
def Snapshot.routesOn (s : Snapshot) (ws : List Wire) (id : NodeId) : List PortRoute :=
  (ws.filter fun w => w.router = id).flatMap (Wire.routes s)

theorem Snapshot.routesOn_concat (s : Snapshot) (ws : List Wire) (w : Wire) (id : NodeId) :
    s.routesOn (ws ++ [w]) id = s.routesOn ws id ++ if w.router = id then w.routes s else [] := by
  rw [routesOn, List.filter_append, List.flatMap_append]
  congr 1
  by_cases h : w.router = id <;> simp [h]

/-- The catch-all route of a router with the given ports, if it gets one. -/
def PlacementOptions.catchAll (o : PlacementOptions) (root id : NodeId) (ports : List Port) :
    List PortRoute :=
  if id = root ∧ o.rootCatchAll = .absent then []
  else (ports.head?.map fun port => ⟨o.space, port, .nextHop⟩).toList

theorem PlacementOptions.exists_of_mem_catchAll {o : PlacementOptions} {root id : NodeId}
    {ports : List Port} {e : PortRoute} (he : e ∈ o.catchAll root id ports) :
    ∃ port ∈ ports, e = ⟨o.space, port, .nextHop⟩ := by
  unfold catchAll at he
  split at he
  · cases he
  · rw [Option.mem_toList, Option.map_eq_some_iff] at he
    obtain ⟨port, hport, rfl⟩ := he
    exact ⟨port, List.mem_of_head? hport, rfl⟩

namespace PlacementState

variable {s : Snapshot} {c : Cabling} {o : PlacementOptions} {root : NodeId}
  {before after : List ScanStep} {st st' : PlacementState} {x : ScanStep}

theorem routesOf_addCatchAll {id m : NodeId} (hm : m ∈ st.placement.routes.keys) :
    (st.addCatchAll o id).placement.routesOf m = st.placement.routesOf m ++
      if id = m then o.catchAll st.placement.root id (st.placement.portsOf id) else [] := by
  unfold addCatchAll PlacementOptions.catchAll
  split
  · simp
  · cases hports : st.placement.portsOf id with
    | nil => simp
    | cons port ports => simp [Placement.routesOf_addRoutes _ hm]

theorem addCatchAll_routes_keys (o : PlacementOptions) (id : NodeId) (st : PlacementState) :
    (st.addCatchAll o id).placement.routes.keys = st.placement.routes.keys := by
  unfold addCatchAll
  split
  · rfl
  · split
    · exact Placement.routes_keys_addRoutes _ _ _
    · rfl

/-! ## Routers whose turn is over -/

/-- The steps of a router end with its catch-all route. -/
theorem lt_router_of_done (hsplit : s.scan = before ++ x :: after) {id : NodeId}
    (hdone : .catchAll id ∈ before) : id < x.router := by
  obtain ⟨hbefore, -⟩ := Snapshot.scan_precedes hsplit
  rcases hbefore _ hdone with hlt | ⟨-, hrank | ⟨hrank, -⟩⟩
  · exact hlt
  · exact absurd hrank (by cases x <;> simp [ScanStep.rank])
  · exact absurd hrank (by simp [ScanStep.rank])

/-- A wire gives no port to a router whose turn is over, since an entry leads to a larger router. -/
theorem portsAt_of_done (hasc : ∀ a, ∀ n ∈ s.neighbors a, n.kind = .router → a < n.id)
    (hsplit : s.scan = before ++ x :: after) {w : Wire} (hx : x.edge? = some w.edge) {id : NodeId}
    (hdone : .catchAll id ∈ before) : w.router ≠ id ∧ w.portsAt id = [] := by
  have hlt := lt_router_of_done hsplit hdone
  have hmem : x ∈ s.scan := hsplit ▸ List.mem_append_right _ List.mem_cons_self
  cases x with
  | edge a r n =>
    cases hx
    obtain ⟨hr, hn⟩ := Snapshot.edge_of_mem_scan hmem
    have hrouter : w.router ≠ id := fun heq => Key.irrefl _ (heq ▸ hlt)
    refine ⟨hrouter, ?_⟩
    rcases hcable : w.cable with l | l
    · have hnext := hasc w.router w.neighbor (by rwa [Snapshot.neighbors_of_get? hr])
        (by rw [w.kind_eq, hcable]; rfl)
      have hneighbor : w.neighbor.id ≠ id := fun heq => Key.irrefl _ (Key.trans hlt (heq ▸ hnext))
      simp [Wire.portsAt, hrouter, hneighbor]
    · simp [Wire.portsAt, hrouter, hcable, Cable.far?]
  | uplink => cases hx
  | catchAll => cases hx

/-! ## The invariant -/

/-- After `steps`, the routes of a router are those through its wires and then, if its turn is
over, its catch-all route. -/
structure Routed (s : Snapshot) (c : Cabling) (o : PlacementOptions) (root : NodeId)
    (steps : List ScanStep) (st : PlacementState) : Prop where
  keys : st.placement.routes.keys = s.routers.keys
  during : ∀ id ∈ s.routers.keys, .catchAll id ∉ steps →
    st.placement.routesOf id = s.routesOn (c.wires steps) id
  done : ∀ id ∈ s.routers.keys, .catchAll id ∈ steps →
    st.placement.routesOf id =
      s.routesOn (c.wires steps) id ++ o.catchAll root id (st.placement.portsOf id)

theorem routed_start (s : Snapshot) (c : Cabling) (o : PlacementOptions) (root : NodeId) :
    Routed s c o root [] (s.startState c root) where
  keys := KeyedMap.keys_map _ _
  during id _ _ := Placement.routesOf_start root s id
  done _ _ h := by cases h

namespace Routed

variable (h : Routed s c o root before st)

include h

/-- A step that adds a wire, for no router whose turn is over. -/
theorem advance_of_wire {w : Wire} (hl : Laid s c root before st)
    (hl' : Laid s c root (before ++ [x]) st') (hx : x.edge? = some w.edge)
    (hw : c.wires (before ++ [x]) = c.wires before ++ [w])
    (hkeys : st'.placement.routes.keys = st.placement.routes.keys)
    (hroutes : ∀ id ∈ s.routers.keys, st'.placement.routesOf id =
      st.placement.routesOf id ++ if w.router = id then w.routes s else [])
    (hover : ∀ id, .catchAll id ∈ before → w.router ≠ id ∧ w.portsAt id = []) :
    Routed s c o root (before ++ [x]) st' := by
  have hmem : ∀ id, .catchAll id ∈ before ++ [x] ↔ .catchAll id ∈ before := by
    intro id
    rw [List.mem_append, List.mem_singleton, or_iff_left]
    intro heq
    subst heq
    cases hx
  refine ⟨hkeys.trans h.keys, fun id hid hnot => ?_, fun id hid hin => ?_⟩
  · rw [hroutes id hid, h.during id hid (mt (hmem id).2 hnot), hw, Snapshot.routesOn_concat]
  · obtain ⟨hrouter, hports⟩ := hover id ((hmem id).1 hin)
    have hsame : st'.placement.portsOf id = st.placement.portsOf id := by
      rw [hl'.ports id hid, hw, List.flatMap_append, List.flatMap_singleton, hports,
        List.append_nil, hl.ports id hid]
    rw [hroutes id hid, h.done id hid ((hmem id).1 hin), hw, Snapshot.routesOn_concat, hsame,
      if_neg hrouter, List.append_nil, List.append_nil]

theorem advance_catchAll {id : NodeId} (hl : Laid s c root before st)
    (hnew : .catchAll id ∉ before) :
    Routed s c o root (before ++ [.catchAll id]) (st.addCatchAll o id) := by
  have hw : c.wires (before ++ [.catchAll id]) = c.wires before := wires_concat_of_none rfl
  have hports : ∀ m, (st.addCatchAll o id).placement.portsOf m = st.placement.portsOf m := by
    intro m
    rw [Placement.portsOf, addCatchAll_ports, Placement.portsOf]
  have hroutes : ∀ m ∈ s.routers.keys, (st.addCatchAll o id).placement.routesOf m =
      st.placement.routesOf m ++
        if id = m then o.catchAll root id (st.placement.portsOf id) else [] := by
    intro m hm
    rw [routesOf_addCatchAll (h.keys ▸ hm), hl.root_eq]
  refine ⟨(addCatchAll_routes_keys o id st).trans h.keys, fun m hm hnot => ?_, fun m hm hin => ?_⟩
  · rw [List.mem_append, List.mem_singleton, not_or] at hnot
    rw [hroutes m hm, hw, h.during m hm hnot.1, if_neg, List.append_nil]
    intro hsame
    subst hsame
    exact hnot.2 rfl
  · by_cases heq : id = m
    · subst heq
      rw [hroutes id hm, hw, h.during id hm hnew, hports, if_pos rfl]
    · rw [List.mem_append, List.mem_singleton, ScanStep.catchAll.injEq, or_iff_left (Ne.symm heq)]
        at hin
      rw [hroutes m hm, hw, h.done m hm hin, hports, if_neg heq, List.append_nil]

/-- Every successful step keeps the invariant, if parents have smaller numbers than the routers
below them. -/
theorem advance (hl : Laid s c root before st)
    (hasc : ∀ a, ∀ n ∈ s.neighbors a, n.kind = .router → a < n.id)
    (hsplit : s.scan = before ++ x :: after) (ha : st.Advances s o x st') :
    Routed s c o root (before ++ [x]) st' := by
  have hx : x ∈ s.scan := hsplit ▸ List.mem_append_right _ List.mem_cons_self
  have hl' := hl.advance ha
  cases ha with
  | @uplink id hup =>
    have hw : c.wires (before ++ [.uplink id]) = c.wires before := wires_concat_of_none rfl
    refine ⟨h.keys, fun m hm hnot => ?_, fun m hm hin => ?_⟩
    · rw [hw, h.during m hm fun hin => hnot (List.mem_append_left _ hin)]
    · rw [List.mem_append, List.mem_singleton, or_iff_left (by simp)] at hin
      rw [hw, h.done m hm hin]
  | @loop id r n l more hk hcable =>
    obtain ⟨hr, -⟩ := Snapshot.edge_of_mem_scan hx
    have hw : c.wires (before ++ [.edge id r n]) = c.wires before ++ [⟨id, n, .loop l, hk⟩] :=
      hl.wires_concat (w := ⟨id, n, .loop l, hk⟩) rfl hcable
    refine h.advance_of_wire hl hl' rfl hw (by simp) (fun m hm => ?_) fun m hm => ?_
    · rw [← h.keys] at hm
      refine (Placement.routesOf_addRoutes _ (by simpa using hm)).trans ?_
      rw [Wire.routes_of_get? hr, Snapshot.macOf_router hk]
      rfl
    · exact portsAt_of_done hasc hsplit rfl hm
  | @hostLink id r n l more host hk hcable hhost =>
    obtain ⟨hr, -⟩ := Snapshot.edge_of_mem_scan hx
    have hw : c.wires (before ++ [.edge id r n]) = c.wires before ++ [⟨id, n, .hostLink l, hk⟩] :=
      hl.wires_concat (w := ⟨id, n, .hostLink l, hk⟩) rfl hcable
    refine h.advance_of_wire hl hl' rfl hw (by simp) (fun m hm => ?_) fun m hm => ?_
    · rw [← h.keys] at hm
      refine (Placement.routesOf_addRoutes _ (by simpa using hm)).trans ?_
      rw [Wire.routes_of_get? hr, Snapshot.macOf_host hk hhost]
      rfl
    · exact portsAt_of_done hasc hsplit rfl hm
  | @catchAll id =>
    exact h.advance_catchAll hl fun hdone => Key.irrefl id (lt_router_of_done hsplit hdone)

end Routed

end PlacementState

namespace Snapshot

variable {s : Snapshot} {c : Cabling} {o : PlacementOptions} {p : Placement}
  {ws : List PlacementWarning}

theorem catchAll_mem_scan {id : NodeId} (h : s.routers.contains id = true) :
    ScanStep.catchAll id ∈ s.scan := by
  obtain ⟨r, hr⟩ := KeyedMap.contains_iff_exists.1 h
  refine List.mem_flatMap.2 ⟨(id, r), KeyedMap.get?_eq_some_iff.1 hr, List.mem_cons_of_mem _ ?_⟩
  exact List.mem_append_right _ (List.mem_singleton_self _)

/-- In a placement that succeeds, routers name only routers with larger numbers. -/
theorem ascending_of_place (h : s.place c o = .ok (p, ws)) :
    ∀ a, ∀ n ∈ s.neighbors a, n.kind = .router → a < n.id := by
  obtain ⟨root, -, hv, -, -, -⟩ := laid_of_place h
  exact ((neverFails_iff (c := c) (validate_eq_ok_iff_checked.1 hv)).1
    ((exists_place_iff hv).1 ⟨_, h⟩)).2.2

/-- A placement that succeeds is laid out by the wiring, and every router's turn is over. -/
theorem routed_of_place (h : s.place c o = .ok (p, ws)) :
    ∃ st, s.Checked p.root ∧ PlacementState.Laid s c p.root s.scan st ∧
      PlacementState.Routed s c o p.root s.scan st ∧ st.placement = p := by
  have hasc := ascending_of_place h
  obtain ⟨root, st, hv, hl, hr, hp, -⟩ := place_induction h (PlacementState.routed_start s c o)
    (fun _ _ _ _ _ _ hs hl hr ha => hr.advance hl hasc hs ha)
  rw [← hp, hl.root_eq]
  exact ⟨st, validate_eq_ok_iff_checked.1 hv, hl, hr, rfl⟩

theorem routes_keys_of_place (h : s.place c o = .ok (p, ws)) : p.routes.keys = s.routers.keys := by
  obtain ⟨st, -, -, hr, rfl⟩ := routed_of_place h
  exact hr.keys

/-- The routes of a router are those through its wires and its catch-all route. -/
theorem routesOf_place (h : s.place c o = .ok (p, ws)) {id : NodeId}
    (hid : s.routers.contains id = true) :
    p.routesOf id = s.routesOn (s.wiring c) id ++ o.catchAll p.root id (p.portsOf id) := by
  obtain ⟨st, -, -, hr, rfl⟩ := routed_of_place h
  rw [hr.done id (KeyedMap.contains_iff_mem_keys.1 hid) (catchAll_mem_scan hid), wires_scan]

end Snapshot

end Overlay
