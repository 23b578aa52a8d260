import Overlay.Json.Network

/-!
The cabling of the switch: loops between two of its ports, which can carry an edge between two
virtual routers, and named host links, which connect a host to a port. Both are used up front to
back.
-/

namespace Overlay

/-- A port of the switch. -/
abbrev Port := UInt32

/-- A loop between two ports. -/
structure Loop where
  near : Port
  far : Port
deriving DecidableEq

/-- A cable from a named host to a port. -/
structure HostLink where
  hostname : String
  port : Port
deriving DecidableEq

structure Cabling where
  loops : List Loop
  hostLinks : List HostLink
deriving DecidableEq

def Loop.toJson (l : Loop) : Json :=
  .array [.ofNat l.near.toNat, .ofNat l.far.toNat]

def Loop.ofJson? (v : Json) : Option Loop :=
  (v.pair? Json.uint32? Json.uint32?).map fun (near, far) => ⟨near, far⟩

def HostLink.toJson (l : HostLink) : Json :=
  .array [.ofString l.hostname, .ofNat l.port.toNat]

def HostLink.ofJson? (v : Json) : Option HostLink :=
  (v.pair? Json.text? Json.uint32?).map fun (hostname, port) => ⟨hostname, port⟩

namespace Cabling

def toJson (c : Cabling) : Json :=
  .record [
    ("links", .array (c.loops.map Loop.toJson)),
    ("host_links", .array (c.hostLinks.map HostLink.toJson))]

def fieldNames : List (List String) :=
  [["links"], ["host_links"]]

/-- The items of a field, none if it is missing. -/
def itemsOf (f : Json → Option α) : Option Json → Option (List α)
  | some v => v.list? f
  | none => some []

def ofJson? (v : Json) : Option Cabling := do
  match ← Json.record? fieldNames v with
  | [loops, hostLinks] =>
    return ⟨← itemsOf Loop.ofJson? loops, ← itemsOf HostLink.ofJson? hostLinks⟩
  | _ => none

/-- The shortest document that describes the cabling. -/
def render (c : Cabling) : String :=
  .ofList c.toJson.compact

/-- Reads a document. -/
def parse? (text : String) : Option Cabling :=
  Json.ofString? text >>= ofJson?

end Cabling

end Overlay
