import Overlay.Cabling
import Overlay.Snapshot.Check

/-!
Placements: which ports of the switch each virtual router of a snapshot gets, and its forwarding
entries through these ports.

Routers are placed by ascending number, their neighbors in stored order. An edge between two
routers takes the next loop, an edge to a host the next host link; the routes on the edge's egress
become routes through its port. The catch-all route of a router goes through its first port. For a
router with a parent that is the port towards the parent, provided that the parent was placed
first, which is checked.
-/

namespace Overlay

open Ipv4 (Net)

/-- A forwarding entry through a port of the switch. -/
structure PortRoute where
  subnet : Net
  port : Port
  mac : Mac
deriving DecidableEq

/-- Whether the root router, which has no parent, gets a catch-all route. -/
inductive RootCatchAll
  | absent
  /-- Through its first port. -/
  | firstPort
deriving DecidableEq

structure PlacementOptions where
  /-- Destination of every catch-all route. -/
  space : Net
  rootCatchAll : RootCatchAll
deriving DecidableEq

inductive PlacementError
  | snapshot (e : SnapshotError)
  | loopsExhausted (router neighbor : NodeId)
  | hostLinksExhausted (router host : NodeId)
  | uplinkMissing (router : NodeId)
deriving DecidableEq

def PlacementError.message : PlacementError → String
  | .snapshot e => e.message
  | .loopsExhausted router neighbor =>
    s!"No physical link left for the edge between router {router} and router {neighbor}"
  | .hostLinksExhausted router host =>
    s!"No host link left for the edge between router {router} and host {host}"
  | .uplinkMissing router =>
    s!"Router {router} has no uplink port: its parent must be mapped before it"

/-- What deserves a look although the snapshot can be placed. -/
inductive PlacementWarning
  | sharedHostLink (hostname previous new : String)
  | noPorts (router : NodeId)
deriving DecidableEq

def PlacementWarning.message : PlacementWarning → String
  | .sharedHostLink hostname previous new =>
    s!"Host link {hostname} is used by both {previous} and {new}"
  | .noPorts router => s!"Router {router} has no ports, skipping its catch-all route"

structure Placement where
  root : NodeId
  /-- The ports of each router in the order in which it got them. -/
  ports : KeyedMap NodeId (List Port)
  /-- The routes of each router; the catch-all route comes last. -/
  routes : KeyedMap NodeId (List PortRoute)
  /-- The host at each host link that is in use. -/
  hosts : KeyedMap String HostRecord
deriving DecidableEq

namespace Placement

/-- The routers of a snapshot without any port or route. -/
def start (root : NodeId) (s : Snapshot) : Placement :=
  ⟨root, s.routers.map fun _ => [], s.routers.map fun _ => [], ∅⟩

def portsOf (p : Placement) (router : NodeId) : List Port :=
  (p.ports.get? router).getD []

def routesOf (p : Placement) (router : NodeId) : List PortRoute :=
  (p.routes.get? router).getD []

/-- Gives a router one more port. -/
def addPort (p : Placement) (router : NodeId) (port : Port) : Placement :=
  { p with ports := p.ports.modify router (· ++ [port]) }

/-- Gives a router further routes. -/
def addRoutes (p : Placement) (router : NodeId) (routes : List PortRoute) : Placement :=
  { p with routes := p.routes.modify router (· ++ routes) }

/-- Connects a host to the host link with this name. -/
def setHost (p : Placement) (hostname : String) (host : HostRecord) : Placement :=
  { p with hosts := p.hosts.insert hostname host }

/-- What is to be said before `host` is connected to the host link with this name. -/
def sharing (p : Placement) (hostname : String) (host : HostRecord) : List PlacementWarning :=
  match p.hosts.get? hostname with
  | some previous => [.sharedHostLink hostname previous.name host.name]
  | none => []

end Placement

/-- The routes of a record on one egress, bound to the port and next hop of its edge. -/
def RouterRecord.routesVia (r : RouterRecord) (egress : Egress) (port : Port) (mac : Mac) :
    List PortRoute :=
  (r.table.filter fun route => route.egress = egress).map fun route => ⟨route.subnet, port, mac⟩

/-- A placement under way: what is left of the cabling, and the warnings so far. -/
structure PlacementState where
  placement : Placement
  cabling : Cabling
  warnings : List PlacementWarning
deriving DecidableEq

namespace PlacementState

/-- Places one edge of the router `id` with record `r`. -/
def placeEdge (s : Snapshot) (id : NodeId) (r : RouterRecord) (st : PlacementState)
    (n : NeighborRef) : Except PlacementError PlacementState :=
  match n.kind with
  | .router =>
    match st.cabling.loops with
    | [] => .error (.loopsExhausted id n.id)
    | loop :: loops =>
      .ok { st with
        cabling.loops := loops
        placement := ((st.placement.addPort id loop.near).addPort n.id loop.far).addRoutes id
          (r.routesVia n.egress loop.near .nextHop) }
  | .host =>
    match st.cabling.hostLinks with
    | [] => .error (.hostLinksExhausted id n.id)
    | link :: links =>
      match s.hosts.get? n.id with
      | none => .error (.snapshot (.unknownNode id n.id .host))
      | some host =>
        .ok {
          placement := ((st.placement.addPort id link.port).addRoutes id
            (r.routesVia n.egress link.port host.mac)).setHost link.hostname host
          cabling := { st.cabling with hostLinks := links }
          warnings := st.warnings ++ st.placement.sharing link.hostname host }

/-- Appends the catch-all route of a router. -/
def addCatchAll (o : PlacementOptions) (id : NodeId) (st : PlacementState) : PlacementState :=
  if id = st.placement.root ∧ o.rootCatchAll = .absent then st
  else
    match st.placement.portsOf id with
    | port :: _ =>
      { st with placement := st.placement.addRoutes id [⟨o.space, port, .nextHop⟩] }
    | [] => { st with warnings := st.warnings ++ [.noPorts id] }

/-- Places a router: its edges, then its catch-all route. -/
def placeRouter (s : Snapshot) (o : PlacementOptions) (st : PlacementState)
    (router : NodeId × RouterRecord) : Except PlacementError PlacementState := do
  let (id, r) := router
  if id ≠ st.placement.root ∧ st.placement.portsOf id = [] then
    throw (.uplinkMissing id)
  let st ← r.neighbors.foldlM (placeEdge s id r) st
  return st.addCatchAll o id

end PlacementState

/-- Places a snapshot on a cabling. -/
def Snapshot.place (s : Snapshot) (c : Cabling) (o : PlacementOptions) :
    Except PlacementError (Placement × List PlacementWarning) := do
  let root ← s.validate.mapError .snapshot
  let st ← s.routers.entries.foldlM (PlacementState.placeRouter s o) ⟨.start root s, c, []⟩
  return (st.placement, st.warnings)

end Overlay
