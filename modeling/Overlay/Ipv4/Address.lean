import Overlay.Text.Decimal

/-!
IPv4 addresses: 32-bit words written as four decimal octets.
-/

namespace Overlay.Ipv4

/-- An IPv4 address. -/
abbrev Address := UInt32

namespace Address

/-- The octet of weight `256 ^ i`. -/
def octet (a : Address) (i : Nat) : UInt8 :=
  .ofNat (a.toNat / Nat.pow 256 i)

/-- The four octets, most significant first. -/
def octets (a : Address) : List UInt8 :=
  [a.octet 3, a.octet 2, a.octet 1, a.octet 0]

/-- The address with the octets `a.b.c.d`. -/
def ofOctets (a b c d : UInt8) : Address :=
  .ofNat (((a.toNat * 256 + b.toNat) * 256 + c.toNat) * 256 + d.toNat)

/-- Dotted decimal text. -/
def render (a : Address) : List Char :=
  ['.'].intercalate (a.octets.map fun o => Decimal.render o.toNat)

/-- One octet: one to three decimal digits, leading zeros allowed, at most 255. -/
def octet? (cs : List Char) : Option UInt8 :=
  if cs.length ≤ 3 then ((Decimal.value? cs).filter (· ≤ 255)).map .ofNat else none

/-- Reads four octets separated by dots. -/
def parse? (cs : List Char) : Option Address :=
  match cs.splitOn '.' with
  | [a, b, c, d] => do return ofOctets (← octet? a) (← octet? b) (← octet? c) (← octet? d)
  | _ => none

end Address

end Overlay.Ipv4
