import Overlay.AddressPlan

/-!
The subnets of an address plan, handed out in ascending order, each exactly once. The pool keeps
only how many it has handed out: the next one follows from the plan.
-/

namespace Overlay

open Ipv4 (Net)

/-- Why no subnet can be handed out. -/
inductive AllocationError
  /-- The address space cannot be split into subnets of this length. -/
  | invalidLength (space : Net) (subnetLength : UInt8)
  /-- All subnets are in use. -/
  | exhausted (space : Net) (capacity : Nat)
deriving DecidableEq

def AllocationError.message : AllocationError → String
  | .invalidLength space subnetLength => s!"Cannot split {space} into /{subnetLength} subnets"
  | .exhausted space capacity =>
    s!"Subnet pool of {space} exhausted, all {capacity} subnets are in use"

namespace AddressPlan

/-- Number of subnets the address space provides. -/
def capacity (p : AddressPlan) : Nat :=
  Nat.pow 2 (p.subnetLength.toNat - p.space.length)

/-- The `k`-th subnet of the address space, counted from 0. -/
def subnet (p : AddressPlan) (h : p.Splits) (k : Nat) : Net where
  address := .ofNat (p.space.network.toNat + k * Ipv4.blockSize p.subnetLength.toNat)
  length := p.subnetLength.toNat
  length_le := h.2

end AddressPlan

/-- A pool of subnets of which the first `allocated` are in use. -/
structure SubnetPool where
  plan : AddressPlan
  splits : plan.Splits
  allocated : Nat
  allocated_le : allocated ≤ plan.capacity

namespace SubnetPool

/-- A pool with all subnets free, for a plan that can be split. -/
def ofPlan (p : AddressPlan) : Except AllocationError SubnetPool :=
  if h : p.Splits then .ok ⟨p, h, 0, Nat.zero_le _⟩
  else .error (.invalidLength p.space p.subnetLength)

def capacity (s : SubnetPool) : Nat :=
  s.plan.capacity

/-- Takes the next free subnet. -/
def next (s : SubnetPool) : Except AllocationError (Net × SubnetPool) :=
  if h : s.allocated < s.plan.capacity then
    .ok (s.plan.subnet s.splits s.allocated,
      { s with allocated := s.allocated + 1, allocated_le := h })
  else .error (.exhausted s.plan.space s.capacity)

/-- Frees all subnets. -/
def reset (s : SubnetPool) : SubnetPool :=
  { s with allocated := 0, allocated_le := Nat.zero_le _ }

end SubnetPool

end Overlay
