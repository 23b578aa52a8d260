import Overlay.Placement.Deploy
import Overlay.Topology.Shape

/-!
Editing sessions: topologies put together step by step. A session holds an allocator, named slots
with nodes that are not linked yet, the current topology and the current placement.
-/

namespace Overlay

structure Session where
  allocator : Allocator
  slots : KeyedMap String Node
  topology : Option Topology
  placement : Option Placement

/-- Why a step of a session has no effect. -/
inductive SessionError
  /-- The slot is empty, or cannot be used twice in one step. -/
  | noSuchSlot
  /-- Only routers can have neighbors or be a root. -/
  | notARouter
  | noTopology
  | noPlacement
  | topology (e : TopologyError)
  | placement (e : PlacementError)

namespace Session

/-- A session with a fresh allocator of the plan. -/
def ofPlan (p : AddressPlan) : Except AllocationError Session :=
  (Allocator.ofPlan p).map fun allocator => ⟨allocator, ∅, none, none⟩

/-- One or more steps; the session goes on after an error. -/
abbrev Step :=
  ExceptT SessionError (StateM Session)

/-- A step of building on the session's allocator. -/
def build (b : Building α) : Step α := fun s =>
  let (result, allocator) := b s.allocator
  (result.mapError .topology, { s with allocator })

/-! ## Nodes in slots -/

def setSlot (slot : String) (n : Node) : Step Unit :=
  modify fun s => { s with slots := s.slots.insert slot n }

def clearSlot (slot : String) : Step Unit :=
  modify fun s => { s with slots := s.slots.erase slot }

/-- The node in a slot. -/
def node (slot : String) : Step Node := do
  match (← get).slots.get? slot with
  | some n => return n
  | none => throw .noSuchSlot

/-- Constructs a router into a slot. -/
def newRouter (slot : String) : Step Node := do
  let r ← build .router
  setSlot slot r
  return r

/-- Constructs a host into a slot. -/
def newHost (slot : String) : Step Node := do
  let h ← build .host
  setSlot slot h
  return h

/-- Puts a copy of a node into another slot. -/
def copy (source target : String) : Step Unit := do
  setSlot target (← node source)

/-- Whether two slots hold equal nodes, or both none. -/
def sameNode (a b : String) : Step Bool := do
  let slots := (← get).slots
  return slots.get? a = slots.get? b

/-- Moves the node in slot `child` below the router in slot `parent`. -/
def link (parent child : String) : Step Egress := do
  let slots := (← get).slots
  if parent = child then throw .noSuchSlot
  match slots.get? parent, slots.get? child with
  | some (.router info ns), some n =>
    let r := (Router.mk info ns).link n
    clearSlot child
    setSlot parent r
    return r.lastEgress
  | some (.host _), some _ => throw .notARouter
  | _, _ => throw .noSuchSlot

/-! ## The current topology -/

def current : Step Topology := do
  match (← get).topology with
  | some t => return t
  | none => throw .noTopology

def setTopology (t : Topology) : Step Unit :=
  modify fun s => { s with topology := some t }

/-- Moves the router in a slot to the root of a new topology. -/
def start (root : String) : Step Topology := do
  match ← node root with
  | .router info ns =>
    let t := Topology.ofRoot ⟨info, ns⟩
    clearSlot root
    setTopology t
    return t
  | .host _ => throw .notARouter

/-- Generates a new topology on the session's allocator. -/
def generate (shape : Shape) (hops : UInt32) : Step Topology := do
  let t ← build (.topology shape (some hops))
  setTopology t
  return t

/-- Fills the tables of the current topology, once. -/
def synthesize : Step Unit := do
  match (← current).synthesize with
  | .ok t => setTopology t
  | .error e => throw (.topology e)

/-- Appends the routes of every router and counts the routers. -/
def appendRoutes : Step Nat := do
  let (t, count) := (← current).appendRoutes
  setTopology t
  return count

/-- Puts a copy of the root into a slot. -/
def copyRoot (slot : String) : Step Unit := do
  setSlot slot (← current).root

/-! ## Grafting -/

/-- What happened at one point of a grafting walk. -/
inductive GraftNote
  | visited (id : NodeId)
  | failed (e : TopologyError)

/-- How nodes are added during a walk: one to each router with fewer than `degree` neighbors. -/
structure Graft where
  order : Order
  kind : Kind
  degree : Nat

/-- A grafting walk under way: how many nodes may still be added, and the notes, last first. -/
structure GraftState where
  allocator : Allocator
  left : Nat
  notes : List GraftNote

/-- Constructs the node that is added. -/
def Graft.scion (g : Graft) : Building Node :=
  match g.kind with
  | .router => do return ↑(← Building.router)
  | .host => do return ↑(← Building.host)

/-- The editor that adds the nodes. -/
def Graft.editor (g : Graft) : Editor GraftState where
  order _ := g.order
  router r s :=
    let notes := .visited r.info.id :: s.notes
    if r.neighbors.length < g.degree ∧ 0 < s.left then
      match g.scion s.allocator with
      | (.ok n, allocator) => (r.link n, ⟨allocator, s.left - 1, notes⟩)
      | (.error e, allocator) => (r, ⟨allocator, s.left - 1, .failed e :: notes⟩)
    else (r, { s with notes })
  host h s := (h, { s with notes := .visited h.id :: s.notes })

/-- Adds up to `limit` nodes to the current topology. Each adds at most one level. -/
def graft (g : Graft) (limit : Nat) : Step (List GraftNote) := do
  let t ← current
  match t.edit g.editor limit ⟨(← get).allocator, limit, []⟩ with
  | some (t, done) =>
    modify fun s => { s with allocator := done.allocator, topology := some t }
    return done.notes.reverse
  | none => return []

/-! ## The current placement -/

/-- Places the current topology. -/
def place (c : Cabling) (o : PlacementOptions) : Step (Placement × List PlacementWarning) := do
  match (Snapshot.ofTree (← current).root).place c o with
  | .ok (p, warnings) =>
    modify fun s => { s with placement := some p }
    return (p, warnings)
  | .error e => throw (.placement e)

def currentPlacement : Step Placement := do
  match (← get).placement with
  | some p => return p
  | none => throw .noPlacement

end Session

end Overlay
