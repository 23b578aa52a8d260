import Overlay.Ipv4.Net
import Overlay.Mac

/-!
The nodes of a topology: a tree of routers with hosts as leaves. Every node owns one uplink
network; a router owns its neighbors, so no node has two parents and the tree has no cycle.
-/

namespace Overlay

open Ipv4 (Net Address)

/-- Number of a node, shared by routers and hosts. -/
abbrev NodeId := UInt32

/-- Position of a neighbor at its router, counted from 1. -/
abbrev Egress := UInt32

inductive Kind
  | router
  | host
deriving DecidableEq

def Kind.name : Kind → String
  | .router => "Router"
  | .host => "Host"

/-- An entry of a routing table: `subnet` is reached through the neighbor at `egress`. -/
structure Route where
  egress : Egress
  subnet : Net
deriving DecidableEq

/-- What a router holds itself. -/
structure RouterInfo where
  id : NodeId
  name : String
  uplink : Net
  table : List Route
deriving DecidableEq

structure Host where
  id : NodeId
  name : String
  uplink : Net
  mac : Mac
deriving DecidableEq

/-- A node with everything below it. -/
inductive Node
  | router (info : RouterInfo) (neighbors : List Node)
  | host (host : Host)

/-- A router with everything below it. -/
structure Router where
  info : RouterInfo
  neighbors : List Node

namespace Node

mutual

/-- Nodes are equal if they agree at every depth. -/
def decEq : (a b : Node) → Decidable (a = b)
  | .host g, .host h => decidable_of_iff (g = h) (by simp)
  | .router i xs, .router j ys =>
    have := decEqAll xs ys
    decidable_of_iff (i = j ∧ xs = ys) (by simp)
  | .host _, .router _ _ => .isFalse (by simp)
  | .router _ _, .host _ => .isFalse (by simp)

def decEqAll : (as bs : List Node) → Decidable (as = bs)
  | [], [] => .isTrue rfl
  | a :: as, b :: bs =>
    have := decEq a b
    have := decEqAll as bs
    decidable_of_iff (a = b ∧ as = bs) (by simp)
  | [], _ :: _ => .isFalse (by simp)
  | _ :: _, [] => .isFalse (by simp)

end

instance : DecidableEq Node := decEq

def id : Node → NodeId
  | .router r _ => r.id
  | .host h => h.id

def name : Node → String
  | .router r _ => r.name
  | .host h => h.name

def kind : Node → Kind
  | .router _ _ => .router
  | .host _ => .host

def uplink : Node → Net
  | .router r _ => r.uplink
  | .host h => h.uplink

/-- The routing table; a host never forwards, so it has none. -/
def table : Node → List Route
  | .router r _ => r.table
  | .host _ => []

/-- The address of the node itself: the first usable one of its network. -/
def primary (n : Node) : Address :=
  n.uplink.firstUsable

/-- The node as shown to people. -/
def display (n : Node) : String :=
  s!"({n.name} - id: {n.id})"

end Node

/-- The router with number `id` and network `uplink`, linked to nothing yet. -/
def Router.ofNet (id : NodeId) (uplink : Net) : Router :=
  ⟨⟨id, s!"vRouter-{id}", uplink, []⟩, []⟩

/-- The host with number `id` and network `uplink`; its MAC follows from its address. -/
def Host.ofNet (id : NodeId) (uplink : Net) : Host :=
  ⟨id, s!"Host-{id}", uplink, .ofHost uplink.firstUsable⟩

/-- The address of a host with the length of its network. -/
def Host.ip (h : Host) : Net :=
  { h.uplink with address := h.uplink.firstUsable }

namespace Router

def toNode (r : Router) : Node :=
  .router r.info r.neighbors

instance : Coe Router Node := ⟨toNode⟩

instance : Coe Host Node := ⟨Node.host⟩

instance : DecidableEq Router := fun a b =>
  decidable_of_iff (a.info = b.info ∧ a.neighbors = b.neighbors) (by cases a; cases b; simp)

/-- Attaches `n` as the last neighbor. -/
def link (r : Router) (n : Node) : Router :=
  { r with neighbors := r.neighbors ++ [n] }

/-- The position of the last neighbor. -/
def lastEgress (r : Router) : Egress :=
  .ofNat r.neighbors.length

/-- The neighbors with their positions. -/
def egressNeighbors (r : Router) : List (Egress × Node) :=
  r.neighbors.zipIdx.map fun (n, i) => (.ofNat (i + 1), n)

end Router

end Overlay
