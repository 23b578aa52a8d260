import Overlay.Ipv4.Address
import Overlay.Text.Hex
import Overlay.Text.Quoted

/-!
Ethernet MAC addresses. Hosts get one derived from their IPv4 address; routes towards a router
carry the fixed `nextHop`.
-/

namespace Overlay

/-- A 48-bit MAC address, by octets. -/
structure Mac where
  o₁ : UInt8
  o₂ : UInt8
  o₃ : UInt8
  o₄ : UInt8
  o₅ : UInt8
  o₆ : UInt8
deriving DecidableEq

namespace Mac

/-- The octets in transmission order. -/
def octets (m : Mac) : List UInt8 :=
  [m.o₁, m.o₂, m.o₃, m.o₄, m.o₅, m.o₆]

/-- The MAC of the host with address `a`: `08:00` followed by the octets of `a`. -/
def ofHost (a : Ipv4.Address) : Mac :=
  ⟨0x08, 0x00, a.octet 3, a.octet 2, a.octet 1, a.octet 0⟩

/-- The MAC written for every route whose next hop is a router. -/
def nextHop : Mac :=
  ⟨0x08, 0x00, 0x00, 0x00, 0x00, 0x00⟩

/-- The octets in lower-case hexadecimal, joined by colons. -/
def render (m : Mac) : List Char :=
  [':'].intercalate (m.octets.map fun o => Hex.byte o.toNat)

instance : ToString Mac := ⟨fun m => .ofList m.render⟩

/-- One octet: a hexadecimal numeral of one or two bytes. -/
def octet? (cs : List Char) : Option UInt8 :=
  let bytes := (String.ofList cs).utf8ByteSize
  if bytes = 0 ∨ 2 < bytes then none
  else ((Hex.numeral? cs).filter (· < UInt8.size)).map .ofNat

/-- The separator of a text: a colon if it has one, a hyphen otherwise. -/
def separator (cs : List Char) : Char :=
  if ':' ∈ cs then ':' else '-'

/-- Reads six octets joined by colons or by hyphens. -/
def parse? (cs : List Char) : Option Mac :=
  match cs.splitOn (separator cs) with
  | [a, b, c, d, e, f] => do
    return ⟨← octet? a, ← octet? b, ← octet? c, ← octet? d, ← octet? e, ← octet? f⟩
  | _ => none

/-- The text is no MAC address. -/
structure ParseError where
  text : String
deriving DecidableEq

def ParseError.message (e : ParseError) : String :=
  "Invalid MAC address: " ++ Quoted.render e.text

/-- Reads a MAC address, naming the text if it is none. -/
def ofString (s : String) : Except ParseError Mac :=
  match parse? s.toList with
  | some m => .ok m
  | none => .error ⟨s⟩

end Mac

end Overlay
