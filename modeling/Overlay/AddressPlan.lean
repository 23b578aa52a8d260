import Overlay.Ipv4.Net

/-!
Address plans: the block of addresses that the networks of all nodes are carved from, and the
length of each of these networks.
-/

namespace Overlay

open Ipv4 (Net)

/-- The address space of a topology and the length of each node's network in it. -/
structure AddressPlan where
  space : Net
  subnetLength : UInt8
deriving DecidableEq

namespace AddressPlan

/-- Why a plan cannot be used. -/
inductive Defect
  /-- The address space is not written as a network. -/
  | hostBits (space : Net)
  /-- The subnets are larger than the space or longer than an address. -/
  | subnetLength (given : UInt8) (least : Nat)
deriving DecidableEq

def Defect.message : Defect → String
  | .hostBits space =>
    s!"address_space {space} has host bits set (did you mean {space.truncated}?)"
  | .subnetLength given least => s!"prefix_len {given} must be between {least} and 32"

/-- The plan used where none is given: `10.0.0.0/16` in networks of length 24. -/
def standard : AddressPlan :=
  ⟨⟨Ipv4.Address.ofOctets 10 0 0 0, 16, by decide⟩, 24⟩

/-- The address space can be split into subnets of the wanted length. -/
def Splits (p : AddressPlan) : Prop :=
  p.space.length ≤ p.subnetLength.toNat ∧ p.subnetLength.toNat ≤ 32

instance (p : AddressPlan) : Decidable p.Splits :=
  inferInstanceAs (Decidable (_ ∧ _))

/-- Checks that the space has no host bits and can be split. -/
def validate (p : AddressPlan) : Except Defect Unit :=
  if p.space ≠ p.space.truncated then .error (.hostBits p.space)
  else if p.Splits then .ok ()
  else .error (.subnetLength p.subnetLength p.space.length)

end AddressPlan

end Overlay
