import Overlay.Allocator
import Overlay.Node.Routing

/-!
Topologies: a tree with a router at its root, and whether its routing tables have been filled.
-/

namespace Overlay

/-- Why a topology cannot be built or analysed. -/
inductive TopologyError
  | allocation (e : AllocationError)
  /-- A chain of routers was asked for without saying how many. -/
  | hopsMissing
  /-- A chain of no routers was asked for. -/
  | hopsZero
  /-- Filling tables appends to them, so a second time would double every route. -/
  | alreadySynthesized
deriving DecidableEq

def TopologyError.message : TopologyError → String
  | .allocation e => e.message
  | .hopsMissing =>
    "Invalid topology parameters: For type `n-hops` a number of hops has to be specified " ++
      "using --hops <int>"
  | .hopsZero => "Invalid topology parameters: an n-hop topology needs at least one router"
  | .alreadySynthesized => "Routing tables of this topology have already been synthesized"

structure Topology where
  root : Router
  synthesized : Bool

namespace Topology

/-- The topology with the tree below `root`, tables not filled yet. -/
def ofRoot (root : Router) : Topology :=
  ⟨root, false⟩

/-- Lets an editor change every node. `growth` bounds the levels that the editor may add. -/
def edit (e : Editor σ) (growth : Nat) (t : Topology) (s : σ) : Option (Topology × σ) :=
  (t.root.edit e (t.root.height + growth) s).map fun (root, s) => ({ t with root }, s)

/-- Appends the routes of every router to its table, whether that was done before or not, and
counts the routers. -/
def appendRoutes (t : Topology) : Topology × Nat :=
  (t.edit .synthesize 0 0).getD (t, 0)

/-- Fills the tables of all routers, once. -/
def synthesize (t : Topology) : Except TopologyError Topology :=
  if t.synthesized then .error .alreadySynthesized
  else .ok { t.appendRoutes.1 with synthesized := true }

/-- The node with number `id` below the root. -/
def descendant? (t : Topology) (id : NodeId) : Option Node :=
  t.root.toNode.below? id

/-- The node with number `id`, which may be the root. -/
def node? (t : Topology) (id : NodeId) : Option Node :=
  if t.root.info.id = id then some t.root else t.descendant? id

end Topology

end Overlay
