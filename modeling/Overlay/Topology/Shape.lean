import Overlay.Topology.Basic

/-!
The topologies that can be generated. Each is built from a reset allocator, so it always has the
same numbers and networks. A router takes over its neighbors when they are complete, so links are
added from the leaves up while nodes are constructed from the root down.
-/

namespace Overlay

inductive Shape
  /-- One router with two hosts. -/
  | minimal
  /-- Two routers with one host each. -/
  | medium
  /-- Three layers of routers with 18 hosts. -/
  | large
  /-- A chain of routers between two hosts. -/
  | chain
deriving DecidableEq

namespace Shape

def name : Shape → String
  | .minimal => "minimal"
  | .medium => "medium"
  | .large => "large"
  | .chain => "n-hops"

def all : List Shape :=
  [.minimal, .medium, .large, .chain]

def ofName? (s : String) : Option Shape :=
  all.find? fun shape => shape.name = s

end Shape

/-- Building from an allocator; what was allocated before a failure stays allocated. -/
abbrev Building :=
  ExceptT TopologyError (StateM Allocator)

namespace Building

def reset : Building Unit :=
  modify Allocator.reset

def router : Building Router := fun a =>
  let (got, a) := a.router
  (got.mapError .allocation, a)

def host : Building Host := fun a =>
  let (got, a) := a.host
  (got.mapError .allocation, a)

/-- Links `count` further nodes to `r`, each built by `child`. -/
def linkEach (child : Building Node) : (count : Nat) → (r : Router) → Building Router
  | 0, r => return r
  | count + 1, r => do linkEach child count (r.link (← child))

/-- A router with two hosts. -/
def minimal : Building Router := do
  linkEach (do return ↑(← host)) 2 (← router)

/-- A router with a host, below a router with a host. -/
def medium : Building Router := do
  let root ← router
  let lower ← router
  let rootHost ← host
  let lowerHost ← host
  return (root.link (lower.link lowerHost)).link rootHost

/-- Three routers, below each of them three routers, below each of them two hosts. -/
def large : Building Router := do
  let leaf : Building Node := do return ↑(← host)
  let edge : Building Node := do return ↑(← linkEach leaf 2 (← router))
  let middle : Building Node := do return ↑(← linkEach edge 3 (← router))
  linkEach middle 3 (← router)

/-- A router above a chain of `further` routers, with a host at the far end. -/
def chainTail : (further : Nat) → Building Router
  | 0 => do
    let r ← router
    return r.link (← host)
  | further + 1 => do
    let r ← router
    return r.link (← chainTail further)

/-- A chain of `hops` routers with a host at each end. -/
def chain (hops : UInt32) : Building Router := do
  if hops = 0 then throw .hopsZero
  reset
  let r ← chainTail (hops.toNat - 1)
  return r.link (← host)

/-- The topology of the given shape. -/
def topology (shape : Shape) (hops : Option UInt32) : Building Topology := do
  match shape with
  | .minimal => reset; return .ofRoot (← minimal)
  | .medium => reset; return .ofRoot (← medium)
  | .large => reset; return .ofRoot (← large)
  | .chain =>
    match hops with
    | none => throw .hopsMissing
    | some hops => return .ofRoot (← chain hops)

end Building

/-- Generates a topology with a fresh allocator of the plan. -/
def Topology.generate (shape : Shape) (hops : Option UInt32) (p : AddressPlan) :
    Except TopologyError Topology :=
  match Allocator.ofPlan p with
  | .error e => .error (.allocation e)
  | .ok a => (Building.topology shape hops a).1

end Overlay
