import Overlay.Json.Decode
import Overlay.Json.Printer
import Overlay.AddressPlan
import Overlay.Mac

/-!
Networks, MAC addresses and address plans as JSON.
-/

namespace Overlay

open Ipv4 (Net)

def Ipv4.Net.toJson (n : Net) : Json :=
  .ofChars n.render

def Ipv4.Net.ofJson? (v : Json) : Option Net :=
  v.chars? >>= Net.parse?

def Mac.toJson (m : Mac) : Json :=
  .ofChars m.render

def Mac.ofJson? (v : Json) : Option Mac :=
  v.chars? >>= Mac.parse?

namespace AddressPlan

def toJson (p : AddressPlan) : Json :=
  .record [("address_space", p.space.toJson), ("prefix_len", .ofNat p.subnetLength.toNat)]

def ofJson? (v : Json) : Option AddressPlan := do
  match ← Json.record? [["address_space"], ["prefix_len"]] v with
  | [some space, some length] => return ⟨← Net.ofJson? space, ← length.uint8?⟩
  | _ => none

end AddressPlan

end Overlay
