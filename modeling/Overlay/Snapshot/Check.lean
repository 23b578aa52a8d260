import Overlay.Snapshot.Basic

/-!
Checking that a snapshot describes a single tree: numbers are unique across kinds, every neighbor
has a record of its kind, no node is named as a neighbor twice, and every node is reached from the
one router that is nobody's neighbor.
-/

namespace Overlay

/-- Why a snapshot is no tree. -/
inductive SnapshotError
  | missingRoot
  | multipleRoots (roots : List NodeId)
  | unknownNode (router node : NodeId) (kind : Kind)
  | multipleParents (node first second : NodeId)
  | duplicateId (id : NodeId)
  | unreachable (nodes : List NodeId)
deriving DecidableEq

namespace SnapshotError

/-- Node numbers in a message. -/
def listing (ids : List NodeId) : String :=
  "[" ++ ", ".intercalate (ids.map fun id => s!"NodeId({id})") ++ "]"

def message : SnapshotError → String
  | .missingRoot => "IR contains no root router"
  | .multipleRoots roots => s!"IR contains more than one root router: {listing roots}"
  | .unknownNode router node kind => s!"Router {router} references unknown {kind.name} {node}"
  | .multipleParents node first second =>
    s!"Node {node} is a neighbor of both router {first} and router {second}"
  | .duplicateId id => s!"Node id {id} is used by both a router and a host"
  | .unreachable nodes => s!"Nodes {listing nodes} are not reachable from the root"

end SnapshotError

namespace Snapshot

/-- All neighbor entries, by ascending router and in stored order. -/
def edges (s : Snapshot) : List (NodeId × NeighborRef) :=
  s.routers.entries.flatMap fun (id, r) => r.neighbors.map fun n => (id, n)

/-- The neighbor entries of a node; hosts and unknown nodes have none. -/
def neighbors (s : Snapshot) (id : NodeId) : List NeighborRef :=
  match s.routers.get? id with
  | some r => r.neighbors
  | none => []

/-- The routers that are nobody's neighbor. -/
def roots (s : Snapshot) : List NodeId :=
  s.routers.keys.filter fun id => !s.edges.any fun e => e.2.id = id

/-- The only router that is nobody's neighbor. -/
def root (s : Snapshot) : Except SnapshotError NodeId :=
  match s.roots with
  | [] => .error .missingRoot
  | [root] => .ok root
  | roots => .error (.multipleRoots roots)

/-- Checks neighbor entries one by one; `parents` gives the router that named a node before. -/
def checkEdges (s : Snapshot) (parents : List (NodeId × NodeId)) :
    List (NodeId × NeighborRef) → Except SnapshotError Unit
  | [] => .ok ()
  | (router, n) :: rest =>
    if !s.has n.kind n.id then .error (.unknownNode router n.id n.kind)
    else
      match parents.lookup n.id with
      | some first => .error (.multipleParents n.id first router)
      | none => s.checkEdges ((n.id, router) :: parents) rest

/-! ## Reachability -/

/-- The neighbors of `id` that are not in `reached`. -/
def fresh (s : Snapshot) (reached : List NodeId) (id : NodeId) : List NodeId :=
  ((s.neighbors id).map (·.id)).filter fun n => !reached.contains n

/-- The routers that are not in `reached`. -/
def unreachedRouters (s : Snapshot) (reached : List NodeId) : List NodeId :=
  s.routers.keys.filter fun id => !reached.contains id

theorem unreachedRouters_append (s : Snapshot) (new reached : List NodeId) :
    s.unreachedRouters (new ++ reached) =
      (s.unreachedRouters reached).filter fun id => !new.contains id := by
  simp [unreachedRouters, List.filter_filter]

/-- Everything that is in `reached` or reached by neighbor entries from the routers in `todo`, nearest
first. -/
def reach (s : Snapshot) (reached : List NodeId) : (todo : List NodeId) → List NodeId
  | [] => reached
  | id :: todo =>
    let new := s.fresh reached id
    s.reach (new ++ reached) (todo ++ new.filter fun n => s.routers.contains n)
termination_by todo => ((s.unreachedRouters reached).length, todo.length)
decreasing_by
  rw [unreachedRouters_append, Prod.lex_def]
  rcases h : (s.fresh reached id).filter fun n => s.routers.contains n with _ | ⟨n, _⟩
  · have := List.length_filter_le (fun id' => !(s.fresh reached id).contains id')
      (s.unreachedRouters reached)
    simp only [List.append_nil, List.length_cons]
    omega
  · have mem : n ∈ (s.fresh reached id).filter fun n => s.routers.contains n := by simp [h]
    obtain ⟨isNew, isRouter⟩ := List.mem_filter.1 mem
    refine .inl (List.length_filter_lt_length_iff_exists.2 ⟨n, ?_, by simpa using isNew⟩)
    exact List.mem_filter.2 ⟨KeyedMap.mem_keys_of_contains isRouter, (List.mem_filter.1 isNew).2⟩

/-- The nodes that no path of neighbor entries leads to from `root`: routers, then hosts. -/
def unreachable (s : Snapshot) (root : NodeId) : List NodeId :=
  let reached := s.reach [root] [root]
  (s.routers.keys ++ s.hosts.keys).filter fun id => !reached.contains id

/-- Checks that the snapshot describes a single tree and gives its root. -/
def validate (s : Snapshot) : Except SnapshotError NodeId := do
  if let some id := s.routers.keys.find? fun id => s.hosts.contains id then
    throw (.duplicateId id)
  s.checkEdges [] s.edges
  let root ← s.root
  match s.unreachable root with
  | [] => return root
  | nodes => throw (.unreachable nodes)

end Snapshot

end Overlay
