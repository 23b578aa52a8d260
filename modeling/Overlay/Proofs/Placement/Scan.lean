import Mathlib
import Overlay.Placement.Basic
import Overlay.Proofs.Result
import Overlay.Proofs.Snapshot.Parent

/-!
Placing a snapshot as a run over one list of steps: for each router by ascending number the check
of its uplink, then its neighbor entries in stored order, then its catch-all route. `place_eq` says
that placing is this run after the checks of the snapshot, and `scan_precedes` in which order the
steps stand.
-/

namespace Overlay

/-! ## Ports and routes under the operations of a placement -/

namespace Placement

variable {p : Placement} {id router : NodeId}

@[simp]
theorem ports_keys_addPort (p : Placement) (router : NodeId) (port : Port) :
    (p.addPort router port).ports.keys = p.ports.keys :=
  KeyedMap.keys_modify _ _ _

@[simp]
theorem routes_keys_addRoutes (p : Placement) (router : NodeId) (rs : List PortRoute) :
    (p.addRoutes router rs).routes.keys = p.routes.keys :=
  KeyedMap.keys_modify _ _ _

@[simp]
theorem routes_addPort (p : Placement) (router : NodeId) (port : Port) :
    (p.addPort router port).routes = p.routes := rfl

@[simp]
theorem routes_setHost (p : Placement) (hostname : String) (host : HostRecord) :
    (p.setHost hostname host).routes = p.routes := rfl

theorem portsOf_addPort (port : Port) (h : id ∈ p.ports.keys) :
    (p.addPort router port).portsOf id = p.portsOf id ++ if router = id then [port] else [] :=
  KeyedMap.getD_modify_append h router [port]

theorem routesOf_addRoutes (rs : List PortRoute) (h : id ∈ p.routes.keys) :
    (p.addRoutes router rs).routesOf id = p.routesOf id ++ if router = id then rs else [] :=
  KeyedMap.getD_modify_append h router rs

@[simp]
theorem portsOf_addRoutes (p : Placement) (router id : NodeId) (rs : List PortRoute) :
    (p.addRoutes router rs).portsOf id = p.portsOf id := rfl

@[simp]
theorem portsOf_setHost (p : Placement) (hostname : String) (host : HostRecord) (id : NodeId) :
    (p.setHost hostname host).portsOf id = p.portsOf id := rfl

theorem portsOf_start (root : NodeId) (s : Snapshot) (id : NodeId) :
    (start root s).portsOf id = [] :=
  KeyedMap.getD_map_nil s.routers id

theorem routesOf_start (root : NodeId) (s : Snapshot) (id : NodeId) :
    (start root s).routesOf id = [] :=
  KeyedMap.getD_map_nil s.routers id

end Placement

/-! ## The steps -/

/-- A step of placing a snapshot. -/
inductive ScanStep
  /-- A router other than the root must have got a port already. -/
  | uplink (router : NodeId)
  | edge (router : NodeId) (record : RouterRecord) (n : NeighborRef)
  | catchAll (router : NodeId)

namespace ScanStep

def router : ScanStep → NodeId
  | .uplink id => id
  | .edge id _ _ => id
  | .catchAll id => id

/-- The place of a step among those of its router. -/
def rank : ScanStep → Nat
  | .uplink _ => 0
  | .edge _ _ _ => 1
  | .catchAll _ => 2

/-- The neighbor entry that a step is about. -/
def edge? : ScanStep → Option (NodeId × NeighborRef)
  | .edge id _ n => some (id, n)
  | _ => none

/-- The steps of one router. -/
def ofRouter (e : NodeId × RouterRecord) : List ScanStep :=
  .uplink e.1 :: (e.2.neighbors.map (.edge e.1 e.2) ++ [.catchAll e.1])

/-- `x` may stand before `y`: only entries of one router stand side by side. -/
def Precedes (x y : ScanStep) : Prop :=
  x.router < y.router ∨ x.router = y.router ∧ (x.rank < y.rank ∨ x.rank = 1 ∧ y.rank = 1)

theorem router_of_mem_ofRouter {e : NodeId × RouterRecord} {x : ScanStep} (h : x ∈ ofRouter e) :
    x.router = e.1 := by
  simp only [ofRouter, List.mem_cons, List.mem_append, List.mem_map, List.not_mem_nil,
    or_false] at h
  rcases h with rfl | ⟨n, -, rfl⟩ | rfl <;> rfl

theorem pairwise_ofRouter (e : NodeId × RouterRecord) : (ofRouter e).Pairwise Precedes := by
  rw [ofRouter, List.pairwise_cons, List.pairwise_append]
  refine ⟨fun y hy => .inr ⟨?_, .inl ?_⟩, ?_, List.pairwise_singleton _ _, ?_⟩
  · exact (router_of_mem_ofRouter (e := e) (List.mem_cons_of_mem _ hy)).symm
  · rw [List.mem_append, List.mem_map, List.mem_singleton] at hy
    rcases hy with ⟨n, -, rfl⟩ | rfl
    · exact Nat.zero_lt_one
    · exact Nat.zero_lt_two
  · rw [List.pairwise_map]
    exact List.pairwise_of_forall fun _ _ => .inr ⟨rfl, .inr ⟨rfl, rfl⟩⟩
  · intro x hx y hy
    obtain ⟨n, -, rfl⟩ := List.mem_map.1 hx
    rw [List.mem_singleton.1 hy]
    exact .inr ⟨rfl, .inl (Nat.lt_succ_self 1)⟩

end ScanStep

/-- The steps of placing a snapshot, in order. -/
def Snapshot.scan (s : Snapshot) : List ScanStep :=
  s.routers.entries.flatMap ScanStep.ofRouter

/-- The neighbor entries among the steps. -/
def edgesIn (steps : List ScanStep) : List (NodeId × NeighborRef) :=
  steps.filterMap ScanStep.edge?

@[simp]
theorem edgesIn_append (xs ys : List ScanStep) : edgesIn (xs ++ ys) = edgesIn xs ++ edgesIn ys :=
  List.filterMap_append

namespace Snapshot

variable {s : Snapshot}

theorem edgesIn_ofRouter (e : NodeId × RouterRecord) :
    edgesIn (ScanStep.ofRouter e) = e.2.neighbors.map fun n => (e.1, n) := by
  rw [edgesIn, ScanStep.ofRouter, List.filterMap_cons_none rfl, List.filterMap_append,
    List.filterMap_map, List.filterMap_cons_none rfl, List.filterMap_nil, List.append_nil]
  exact congrFun List.filterMap_eq_map e.2.neighbors

theorem edgesIn_scan (s : Snapshot) : edgesIn s.scan = s.edges := by
  rw [edgesIn, scan, List.filterMap_flatMap]
  exact congrArg s.routers.entries.flatMap (funext edgesIn_ofRouter)

theorem uplink_mem_scan {id : NodeId} (h : s.routers.contains id = true) :
    ScanStep.uplink id ∈ s.scan := by
  obtain ⟨r, hr⟩ := KeyedMap.contains_iff_exists.1 h
  exact List.mem_flatMap.2 ⟨(id, r), KeyedMap.get?_eq_some_iff.1 hr, List.mem_cons_self⟩

theorem contains_router_of_mem_scan {x : ScanStep} (h : x ∈ s.scan) :
    s.routers.contains x.router = true := by
  obtain ⟨e, he, hx⟩ := List.mem_flatMap.1 h
  rw [ScanStep.router_of_mem_ofRouter hx, KeyedMap.contains_iff_mem_keys]
  exact List.mem_map_of_mem he

/-- The record and the entry of an edge step are those of its router. -/
theorem edge_of_mem_scan {id : NodeId} {r : RouterRecord} {n : NeighborRef}
    (h : ScanStep.edge id r n ∈ s.scan) : s.routers.get? id = some r ∧ n ∈ r.neighbors := by
  obtain ⟨⟨a, ra⟩, he, hx⟩ := List.mem_flatMap.1 h
  simp only [ScanStep.ofRouter, List.mem_cons, List.mem_append, List.mem_map, List.not_mem_nil,
    or_false, reduceCtorEq, false_or, ScanStep.edge.injEq] at hx
  obtain ⟨m, hm, rfl, rfl, rfl⟩ := hx
  exact ⟨KeyedMap.get?_eq_some_iff.2 he, hm⟩

theorem pairwise_scan (s : Snapshot) : s.scan.Pairwise ScanStep.Precedes := by
  rw [scan, List.pairwise_flatMap]
  refine ⟨fun e _ => ScanStep.pairwise_ofRouter e, s.routers.sorted.imp ?_⟩
  intro d e hlt x hx y hy
  rw [ScanStep.Precedes, ScanStep.router_of_mem_ofRouter hx, ScanStep.router_of_mem_ofRouter hy]
  exact .inl hlt

theorem scan_precedes {before after : List ScanStep} {x : ScanStep}
    (h : s.scan = before ++ x :: after) :
    (∀ y ∈ before, y.Precedes x) ∧ ∀ y ∈ after, x.Precedes y := by
  have hpair := s.pairwise_scan
  rw [h, List.pairwise_append, List.pairwise_cons] at hpair
  exact ⟨fun y hy => hpair.2.2 y hy x List.mem_cons_self, hpair.2.1.1⟩

end Snapshot

/-! ## The run -/

namespace PlacementState

variable {s : Snapshot} {o : PlacementOptions}

def scanStep (s : Snapshot) (o : PlacementOptions) (st : PlacementState) :
    ScanStep → Except PlacementError PlacementState
  | .uplink id =>
    if id ≠ st.placement.root ∧ st.placement.portsOf id = [] then .error (.uplinkMissing id)
    else .ok st
  | .edge id r n => placeEdge s id r st n
  | .catchAll id => .ok (st.addCatchAll o id)

theorem placeRouter_eq (s : Snapshot) (o : PlacementOptions) (st : PlacementState)
    (e : NodeId × RouterRecord) :
    placeRouter s o st e = (ScanStep.ofRouter e).foldlM (scanStep s o) st := by
  obtain ⟨id, r⟩ := e
  simp only [placeRouter, ScanStep.ofRouter, List.foldlM_cons, List.foldlM_append,
    List.foldlM_map, List.foldlM_nil, scanStep]
  split <;> rfl

theorem foldlM_placeRouter (es : List (NodeId × RouterRecord)) (st : PlacementState) :
    es.foldlM (placeRouter s o) st =
      (es.flatMap ScanStep.ofRouter).foldlM (scanStep s o) st := by
  induction es generalizing st with
  | nil => rfl
  | cons e es ih =>
    rw [List.foldlM_cons, List.flatMap_cons, List.foldlM_append, placeRouter_eq]
    simp only [ih]

end PlacementState

/-- The state in which placing begins. -/
def Snapshot.startState (s : Snapshot) (c : Cabling) (root : NodeId) : PlacementState :=
  ⟨.start root s, c, []⟩

theorem Snapshot.place_eq (s : Snapshot) (c : Cabling) (o : PlacementOptions) :
    s.place c o = s.validate.mapError .snapshot >>= fun root =>
      s.scan.foldlM (PlacementState.scanStep s o) (s.startState c root) >>= fun st =>
        .ok (st.placement, st.warnings) := by
  unfold place
  simp only [PlacementState.foldlM_placeRouter]
  rfl

end Overlay
