import Mathlib
import Overlay.Proofs.Placement.CatchAll

/-!
Forwarding in a placed snapshot. A router keeps the addresses of its own network; for others it
takes the route with the longest subnet, whose port leads over a loop to another router or over a
host link to a host. If the ports of the cables in use are distinct, a port determines the wire it
belongs to, so a route through a wire leads where the wire leads (`through_near_loop`,
`through_far`, `through_near_hostLink`).
-/

namespace Overlay

open Ipv4 (Address)

/-! ## Forwarding -/

/-- A placed snapshot with the cables it uses. -/
structure Deployment where
  snapshot : Snapshot
  loops : List Loop
  hostLinks : List HostLink
  placement : Placement

/-- The deployment of a placement on a cabling. -/
def Snapshot.deployment (s : Snapshot) (c : Cabling) (p : Placement) : Deployment :=
  ⟨s, c.loops.take (s.routers.size - 1), c.hostLinks.take s.hosts.size, p⟩

/-- What a router does with an address. -/
inductive Hop
  /-- The address is in its own network. -/
  | arrived
  | next (router : NodeId)
  | leaves (port : Port) (mac : Mac)
  | dropped
deriving DecidableEq

/-- The route with the longest subnet among those to an address. -/
def PortRoute.best? (routes : List PortRoute) (a : Address) : Option PortRoute :=
  (routes.filter fun e => e.subnet.contains a).argmax fun e => e.subnet.length

/-- The port at the other end of a loop. -/
def Loop.otherEnd? (l : Loop) (port : Port) : Option Port :=
  if l.near = port then some l.far
  else if l.far = port then some l.near
  else none

def Loop.ports (l : Loop) : List Port :=
  [l.near, l.far]

namespace Deployment

/-- The cables in use. -/
def cabling (d : Deployment) : Cabling :=
  ⟨d.loops, d.hostLinks⟩

/-- The port at the other end of a loop in use. -/
def otherEnd? (d : Deployment) (port : Port) : Option Port :=
  d.loops.findSome? fun l => l.otherEnd? port

/-- The router that a port is assigned to. -/
def owner? (d : Deployment) (port : Port) : Option NodeId :=
  d.placement.ports.keys.find? fun id => port ∈ d.placement.portsOf id

/-- Where a route leads. -/
def through (d : Deployment) (e : PortRoute) : Hop :=
  match d.otherEnd? e.port with
  | some port =>
    match d.owner? port with
    | some router => .next router
    | none => .dropped
  | none => if e.port ∈ d.hostLinks.map (·.port) then .leaves e.port e.mac else .dropped

/-- What the router `id` does with an address. -/
def hop (d : Deployment) (id : NodeId) (a : Address) : Hop :=
  if (d.snapshot.routers.get? id).any (·.uplink.contains a) then .arrived
  else
    match PortRoute.best? (d.placement.routesOf id) a with
    | some e => d.through e
    | none => .dropped

/-- Forwarding an address from a router passes the routers of the list, in order, and ends with the
given hop of the last one. -/
inductive Run (d : Deployment) (a : Address) : NodeId → List NodeId → Hop → Prop
  | stop {id : NodeId} (h : ∀ next, d.hop id a ≠ .next next) : Run d a id [id] (d.hop id a)
  | next {id next : NodeId} {path : List NodeId} {last : Hop} (h : d.hop id a = .next next)
    (hrun : Run d a next path last) : Run d a id (id :: path) last

end Deployment

/-! ## The best route -/

namespace PortRoute

/-- A route to an address is the best if none of the others to it has a subnet as long. -/
theorem best?_eq_some {routes : List PortRoute} {a : Address} {e : PortRoute} (he : e ∈ routes)
    (ha : e.subnet.contains a = true)
    (hbest : ∀ e' ∈ routes, e'.subnet.contains a = true → e.subnet.length ≤ e'.subnet.length →
      e' = e) : best? routes a = some e := by
  have hmem : e ∈ routes.filter fun e => e.subnet.contains a := List.mem_filter.2 ⟨he, ha⟩
  rcases hb : best? routes a with _ | b
  · rw [best?, List.argmax_eq_none] at hb
    rw [hb] at hmem
    cases hmem
  · have hb' := List.argmax_mem hb
    rw [List.mem_filter] at hb'
    have hle := List.le_of_mem_argmax (f := fun e : PortRoute => e.subnet.length) hmem hb
    rw [hbest b hb'.1 hb'.2 hle]

end PortRoute

/-! ## Loops -/

namespace Loop

theorem mem_ports_of_otherEnd? {l : Loop} {port other : Port} (h : l.otherEnd? port = some other) :
    port ∈ l.ports := by
  unfold otherEnd? at h
  split at h
  · rename_i heq
    exact heq ▸ List.mem_cons_self
  · split at h
    · rename_i heq
      exact heq ▸ List.mem_cons_of_mem _ (List.mem_singleton_self _)
    · cases h

theorem otherEnd?_near (l : Loop) : l.otherEnd? l.near = some l.far :=
  if_pos rfl

theorem otherEnd?_far {l : Loop} (h : l.ports.Nodup) : l.otherEnd? l.far = some l.near := by
  have hne : l.near ≠ l.far := by simpa [ports] using h
  rw [otherEnd?, if_neg hne, if_pos rfl]

/-- Among loops with distinct ports the one with a port at an end is the one that is found. -/
theorem findSome?_otherEnd? {ls : List Loop} {l : Loop} {port other : Port}
    (hnodup : (ls.flatMap ports).Nodup) (hl : l ∈ ls) (h : l.otherEnd? port = some other) :
    (ls.findSome? fun l => l.otherEnd? port) = some other := by
  rcases hfind : ls.findSome? fun l => l.otherEnd? port with _ | other'
  · rw [List.findSome?_eq_none_iff.1 hfind l hl] at h
    cases h
  · obtain ⟨l', hl', h'⟩ := List.exists_of_findSome?_eq_some hfind
    have hsame := Lists.eq_of_mem_flatMap hnodup hl hl' (mem_ports_of_otherEnd? h)
      (mem_ports_of_otherEnd? h')
    subst hsame
    rw [hfind, ← h', h]

theorem findSome?_otherEnd?_eq_none {ls : List Loop} {port : Port}
    (h : port ∉ ls.flatMap ports) : (ls.findSome? fun l => l.otherEnd? port) = none := by
  rw [List.findSome?_eq_none_iff]
  intro l hl
  rcases hother : l.otherEnd? port with _ | other
  · rfl
  · exact absurd (List.mem_flatMap.2 ⟨l, hl, mem_ports_of_otherEnd? hother⟩) h

end Loop

/-! ## Routes through wires -/

namespace Snapshot

variable {s : Snapshot} {c : Cabling} {o : PlacementOptions} {p : Placement}
  {ws : List PlacementWarning}

/-- The ports of the cables that a placement of the snapshot uses. -/
def portsInUse (s : Snapshot) (c : Cabling) : List Port :=
  (c.loops.take (s.routers.size - 1)).flatMap Loop.ports ++
    (c.hostLinks.take s.hosts.size).map (·.port)

section Wires

variable (h : s.place c o = .ok (p, ws))

include h

/-- A deployment uses the cables of the wires. -/
theorem cables_deployment (k : Kind) :
    (s.deployment c p).cabling.cables k = Wire.cables k (s.wiring c) := by
  obtain ⟨root, st, hv, hl, -, -⟩ := laid_of_place h
  have hc := validate_eq_ok_iff_checked.1 hv
  rw [hl.cables_wiring]
  cases k with
  | router =>
    rw [hc.length_edgesTo_router]
    exact List.map_take
  | host =>
    rw [hc.length_edgesTo_host]
    exact List.map_take

theorem cable_mem_deployment {w : Wire} (hw : w ∈ s.wiring c) :
    w.cable ∈ (s.deployment c p).cabling.cables w.cable.kind := by
  rw [cables_deployment h]
  exact List.mem_filter.2 ⟨List.mem_map_of_mem hw, decide_eq_true rfl⟩

variable (hnodup : (s.portsInUse c).Nodup)

include hnodup

/-- A port of a router determines the router. -/
theorem owner?_deployment {id : NodeId} {port : Port} (hid : s.routers.contains id = true)
    (hport : port ∈ p.portsOf id) : (s.deployment c p).owner? port = some id := by
  obtain ⟨root, st, hv, hl, rfl, -⟩ := laid_of_place h
  have hkeys := hl.ports_keys
  have hperm := hl.perm_ports (validate_eq_ok_iff_checked.1 hv)
  rw [Placement.values_ports, ← List.flatMap_def] at hperm
  have hall := hperm.nodup_iff.2 hnodup
  have hmem : id ∈ st.placement.ports.keys := by
    rw [hkeys]
    exact KeyedMap.contains_iff_mem_keys.1 hid
  change (st.placement.ports.keys.find? fun id => port ∈ st.placement.portsOf id) = some id
  rcases hfind : st.placement.ports.keys.find? fun id => port ∈ st.placement.portsOf id with _ | id'
  · exact absurd hport (by simpa using List.find?_eq_none.1 hfind id hmem)
  · have hport' : port ∈ st.placement.portsOf id' := by simpa using List.find?_some hfind
    rw [Lists.eq_of_mem_flatMap hall hmem (List.mem_of_find?_eq_some hfind) hport hport']

theorem through_near_loop {w : Wire} {l : Loop} {e : PortRoute} (hw : w ∈ s.wiring c)
    (hcable : w.cable = .loop l) (hport : e.port = l.near)
    (hid : s.routers.contains w.neighbor.id = true) :
    (s.deployment c p).through e = .next w.neighbor.id := by
  have hl : l ∈ (s.deployment c p).loops := by
    simpa [hcable, Cable.kind, Cabling.cables, Deployment.cabling] using cable_mem_deployment h hw
  have hother : (s.deployment c p).otherEnd? e.port = some l.far :=
    Loop.findSome?_otherEnd? (List.nodup_append.1 hnodup).1 hl (hport ▸ l.otherEnd?_near)
  have hfar : l.far ∈ p.portsOf w.neighbor.id :=
    mem_portsOf h hw hid (by simp [Wire.portsAt, hcable, Cable.far?])
  rw [Deployment.through, hother]
  dsimp only
  rw [owner?_deployment h hnodup hid hfar]

theorem through_far {w : Wire} {l : Loop} {e : PortRoute} (hw : w ∈ s.wiring c)
    (hcable : w.cable = .loop l) (hport : e.port = l.far) :
    (s.deployment c p).through e = .next w.router := by
  have hl : l ∈ (s.deployment c p).loops := by
    simpa [hcable, Cable.kind, Cabling.cables, Deployment.cabling] using cable_mem_deployment h hw
  have hloops := (List.nodup_append.1 hnodup).1
  have hother : (s.deployment c p).otherEnd? e.port = some l.near :=
    Loop.findSome?_otherEnd? hloops hl
      (hport ▸ Loop.otherEnd?_far ((List.nodup_flatMap.1 hloops).1 l hl))
  have hid := contains_of_mem_neighbors (mem_neighbors_of_mem_wiring h hw)
  have hnear : l.near ∈ p.portsOf w.router :=
    mem_portsOf h hw hid (by simp [Wire.portsAt, hcable, Cable.near])
  rw [Deployment.through, hother]
  dsimp only
  rw [owner?_deployment h hnodup hid hnear]

theorem through_near_hostLink {w : Wire} {l : HostLink} {e : PortRoute} (hw : w ∈ s.wiring c)
    (hcable : w.cable = .hostLink l) (hport : e.port = l.port) :
    (s.deployment c p).through e = .leaves l.port e.mac := by
  have hl : l ∈ (s.deployment c p).hostLinks := by
    simpa [hcable, Cable.kind, Cabling.cables, Deployment.cabling] using cable_mem_deployment h hw
  have hmem : e.port ∈ (s.deployment c p).hostLinks.map (·.port) :=
    hport ▸ List.mem_map_of_mem hl
  have hnone : (s.deployment c p).otherEnd? e.port = none :=
    Loop.findSome?_otherEnd?_eq_none fun hin =>
      (List.nodup_append.1 hnodup).2.2 _ hin _ hmem rfl
  rw [Deployment.through, hnone]
  dsimp only
  rw [if_pos hmem, hport]

end Wires

end Snapshot

end Overlay
