import Overlay.Json.Network
import Overlay.Snapshot.Basic

/-!
Snapshots as JSON documents. Fields are written under their current names and in declaration
order, records by ascending number; some names have an older spelling that is read as well.
-/

namespace Overlay

open Ipv4 (Net)

def Kind.toJson (k : Kind) : Json :=
  .ofString k.name

def Kind.ofJson? (v : Json) : Option Kind := do
  match ← v.caseName? with
  | "Router" | "vRouter" => some .router
  | "Host" | "host" => some .host
  | _ => none

def Route.toJson (r : Route) : Json :=
  .array [.ofNat r.egress.toNat, r.subnet.toJson]

def Route.ofJson? (v : Json) : Option Route :=
  (v.pair? Json.uint32? Net.ofJson?).map fun (egress, subnet) => ⟨egress, subnet⟩

def NeighborRef.toJson (n : NeighborRef) : Json :=
  .array [.ofNat n.egress.toNat, .ofNat n.id.toNat, n.kind.toJson]

def NeighborRef.ofJson? : Json → Option NeighborRef
  | .array [egress, id, kind] => do
    return ⟨← egress.uint32?, ← id.uint32?, ← Kind.ofJson? kind⟩
  | _ => none

namespace RouterRecord

def toJson (r : RouterRecord) : Json :=
  .record [
    ("name", .ofString r.name),
    ("uplink_network", r.uplink.toJson),
    ("neighbors", .array (r.neighbors.map NeighborRef.toJson)),
    ("routing_table", .array (r.table.map Route.toJson))]

/-- The names that the fields go by. -/
def fieldNames : List (List String) :=
  [["name"], ["uplink_network"], ["neighbors"], ["routing_table", "routingtable"]]

def ofJson? (v : Json) : Option RouterRecord := do
  match ← Json.record? fieldNames v with
  | [some name, some uplink, some neighbors, some table] =>
    return ⟨← name.text?, ← Net.ofJson? uplink, ← neighbors.list? NeighborRef.ofJson?,
      ← table.list? Route.ofJson?⟩
  | _ => none

end RouterRecord

namespace HostRecord

def toJson (h : HostRecord) : Json :=
  .record [("name", .ofString h.name), ("ip", h.ip.toJson), ("mac", h.mac.toJson)]

def fieldNames : List (List String) :=
  [["name"], ["ip"], ["mac"]]

def ofJson? (v : Json) : Option HostRecord := do
  match ← Json.record? fieldNames v with
  | [some name, some ip, some mac] => return ⟨← name.text?, ← Net.ofJson? ip, ← Mac.ofJson? mac⟩
  | _ => none

end HostRecord

/-- An object of records by node number. -/
def KeyedMap.toJson (f : ν → Json) (m : KeyedMap NodeId ν) : Json :=
  .object (m.entries.map fun (id, v) => (Decimal.render id.toNat, f v))

/-- Of records with one number the last counts. -/
def KeyedMap.ofJson? (f : Json → Option ν) (v : Json) : Option (KeyedMap NodeId ν) :=
  (v.numbered? f).map .ofList

namespace Snapshot

def toJson (s : Snapshot) : Json :=
  .record [
    ("Router", s.routers.toJson RouterRecord.toJson),
    ("Host", s.hosts.toJson HostRecord.toJson)]

def fieldNames : List (List String) :=
  [["Router", "vRouter"], ["Host"]]

def ofJson? (v : Json) : Option Snapshot := do
  match ← Json.record? fieldNames v with
  | [some routers, some hosts] =>
    return ⟨← KeyedMap.ofJson? RouterRecord.ofJson? routers,
      ← KeyedMap.ofJson? HostRecord.ofJson? hosts⟩
  | _ => none

/-- The document that describes the snapshot. -/
def render (s : Snapshot) : String :=
  .ofList s.toJson.pretty

/-- Reads a document. -/
def parse? (text : String) : Option Snapshot :=
  Json.ofString? text >>= ofJson?

end Snapshot

end Overlay
