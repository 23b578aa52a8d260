import Overlay.KeyedMap
import Overlay.Node.Walk

/-!
Snapshots: a topology as two tables of records, one for routers and one for hosts, both by node
number. A snapshot may also be written by hand, so nothing here says that it describes a tree.
-/

namespace Overlay

open Ipv4 (Net)

/-- A neighbor as a router's record names it. -/
structure NeighborRef where
  egress : Egress
  id : NodeId
  kind : Kind
deriving DecidableEq

structure RouterRecord where
  name : String
  uplink : Net
  neighbors : List NeighborRef
  table : List Route
deriving DecidableEq

structure HostRecord where
  name : String
  /-- The host's address with the length of its network. -/
  ip : Net
  mac : Mac
deriving DecidableEq

structure Snapshot where
  routers : KeyedMap NodeId RouterRecord
  hosts : KeyedMap NodeId HostRecord
deriving DecidableEq

/-- A node's number had been recorded for its kind before. -/
structure Snapshot.Collision where
  kind : Kind
  id : NodeId
deriving DecidableEq

def Snapshot.Collision.message (c : Collision) : String :=
  s!"{c.kind.name} {c.id} visited twice while building the IR"

/-- The record of a router. -/
def Router.record (r : Router) : RouterRecord where
  name := r.info.name
  uplink := r.info.uplink
  neighbors := r.egressNeighbors.map fun (egress, n) => ⟨egress, n.id, n.kind⟩
  table := r.info.table

/-- The record of a host. -/
def Host.record (h : Host) : HostRecord :=
  ⟨h.name, h.ip, h.mac⟩

namespace Snapshot

def empty : Snapshot :=
  ⟨∅, ∅⟩

/-- Number of records. -/
def size (s : Snapshot) : Nat :=
  s.routers.size + s.hosts.size

/-- There is a record of this kind with number `id`. -/
def has (s : Snapshot) : Kind → NodeId → Bool
  | .router, id => s.routers.contains id
  | .host, id => s.hosts.contains id

/-- A snapshot under construction and the collisions so far, last first. -/
structure Draft where
  snapshot : Snapshot
  collisions : List Collision

/-- Records the nodes in the order of the walk, routers first. A later node takes the place of an
earlier one with its number and kind. -/
def Draft.recorder : Visitor Draft where
  order _ := .pre
  router r d :=
    let id := r.info.id
    ⟨{ d.snapshot with routers := d.snapshot.routers.insert id r.record },
      if d.snapshot.has .router id then ⟨.router, id⟩ :: d.collisions else d.collisions⟩
  host h d :=
    ⟨{ d.snapshot with hosts := d.snapshot.hosts.insert h.id h.record },
      if d.snapshot.has .host h.id then ⟨.host, h.id⟩ :: d.collisions else d.collisions⟩

/-- The draft made of all nodes of a tree. -/
def draft (root : Router) : Draft :=
  root.walk Draft.recorder ⟨empty, []⟩

/-- The snapshot of a tree. -/
def ofTree (root : Router) : Snapshot :=
  (draft root).snapshot

/-- The collisions met while recording a tree, in order. -/
def collisions (root : Router) : List Collision :=
  (draft root).collisions.reverse

end Snapshot

end Overlay
