import Overlay.Ipv4.Address

/-!
IPv4 networks in the form `address/length`. The address is kept as written, host bits included;
`network` clears them.
-/

namespace Overlay.Ipv4

/-- Number of addresses of a network of the given length. -/
def blockSize (length : Nat) : Nat :=
  Nat.pow 2 (32 - length)

/-- An address together with the length of its network part. -/
structure Net where
  address : Address
  length : Nat
  length_le : length ≤ 32 := by omega
deriving DecidableEq

namespace Net

/-- Number of addresses of the network. -/
def size (n : Net) : Nat :=
  blockSize n.length

/-- The first address of the network: the address with its host bits cleared. -/
def network (n : Net) : Address :=
  .ofNat (n.address.toNat / n.size * n.size)

/-- The network with the host bits of its address cleared. -/
def truncated (n : Net) : Net :=
  { n with address := n.network }

/-- Whether `a` lies in the network: it agrees with it on the network part. -/
def contains (n : Net) (a : Address) : Bool :=
  a.toNat / n.size == n.address.toNat / n.size

/-- The first address a node may use: the one after the network address, except that networks of
one or two addresses have no reserved ones. -/
def firstUsable (n : Net) : Address :=
  if n.length < 31 then n.network + 1 else n.network

/-- The text `a.b.c.d/length`. -/
def render (n : Net) : List Char :=
  n.address.render ++ '/' :: Decimal.render n.length

instance : ToString Net := ⟨fun n => .ofList n.render⟩

/-- Reads `a.b.c.d/length` with a length of one or two digits, at most 32. -/
def parse? (cs : List Char) : Option Net :=
  match cs.splitOn '/' with
  | [a, l] => do
    let address ← Address.parse? a
    let length ← if l.length ≤ 2 then Decimal.value? l else none
    if h : length ≤ 32 then some ⟨address, length, h⟩ else none
  | _ => none

end Net

end Overlay.Ipv4
