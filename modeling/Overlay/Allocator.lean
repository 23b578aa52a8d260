import Overlay.Node.Basic
import Overlay.SubnetPool

/-!
The source of node numbers and networks. Both are handed out in construction order, so two
topologies built from fresh allocators of one plan are numbered alike.
-/

namespace Overlay

open Ipv4 (Net)

structure Allocator where
  nextId : NodeId
  subnets : SubnetPool

namespace Allocator

/-- The allocator of a plan that can be split. -/
def ofPlan (p : AddressPlan) : Except AllocationError Allocator :=
  (SubnetPool.ofPlan p).map fun pool => ⟨1, pool⟩

/-- Starts again with number 1 and the first subnet. -/
def reset (a : Allocator) : Allocator :=
  ⟨1, a.subnets.reset⟩

/-- Number of nodes constructed since the start. -/
def allocated (a : Allocator) : Nat :=
  a.subnets.allocated

/-- The next number and network. The subnet is taken first, so no number is lost when there is
none left. -/
def take (a : Allocator) : Except AllocationError (NodeId × Net) × Allocator :=
  match a.subnets.next with
  | .ok (subnet, pool) => (.ok (a.nextId, subnet), ⟨a.nextId + 1, pool⟩)
  | .error e => (.error e, a)

/-- Constructs a router. -/
def router (a : Allocator) : Except AllocationError Router × Allocator :=
  let (got, a) := a.take
  (got.map fun (id, subnet) => .ofNet id subnet, a)

/-- Constructs a host. -/
def host (a : Allocator) : Except AllocationError Host × Allocator :=
  let (got, a) := a.take
  (got.map fun (id, subnet) => .ofNet id subnet, a)

end Allocator

end Overlay
