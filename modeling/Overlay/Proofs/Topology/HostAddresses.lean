import Mathlib
import Overlay.Proofs.Mac
import Overlay.Proofs.Placement.CatchAll
import Overlay.Proofs.Snapshot.OfTree
import Overlay.Proofs.Topology.Generate

/-!
Addresses and MACs of hosts. A host has the first usable address of its network, and its MAC spells
this address. Networks are disjoint, so hosts differ in both. The MAC for routers is the one that
the address zero would give, and only the first network of a plan can have that address: it goes to
the root, which is a router (`Topology.firstUsable_ne_zero`). So in a placement the MAC of a route
tells whether the route leads to a host (`Snapshot.mac_eq_nextHop_iff`).
-/

namespace Overlay

/-! ## Hosts of the tree -/

namespace Topology

variable {shape : Shape} {hops : Option UInt32} {p : AddressPlan} {t : Topology}
  (h : generate shape hops p = .ok t) {x y : Host} (hx : .host x ∈ t.root.toNode.preorder)

include h hx

/-- The MAC of a host is that of its address. -/
theorem mac_eq_ofHost : x.mac = .ofHost x.uplink.firstUsable := by
  obtain ⟨-, a, a', -, hadded⟩ := added_of_generate h
  have hmade : x = .ofNet x.id x.uplink := hadded.built.asMade (List.mem_singleton_self _) hx
  exact congrArg Host.mac hmade

/-- The root has the first network, so no host has the address zero. -/
theorem firstUsable_ne_zero : x.uplink.firstUsable ≠ 0 := by
  obtain ⟨-, a, a', hstart, hadded⟩ := added_of_generate h
  have hid : t.root.toNode.id = 1 := by
    rw [hadded.id_eq, hstart]
    rfl
  obtain ⟨k, hk, htag⟩ := hadded.built.exists_tag (List.mem_singleton_self _) hx
  have hnumber : x.id = .ofNat (k + 1) := congrArg Prod.fst htag
  have hnet : x.uplink = p.subnet hadded.built.splits k := congrArg Prod.snd htag
  have hpos : 0 < k := by
    refine Nat.pos_of_ne_zero fun hzero => ?_
    subst hzero
    have heq : Node.host x = t.root.toNode :=
      (distinct_of_generate h).eq_of_id_eq hx (Node.mem_preorder_self _) (hnumber.trans hid.symm)
    cases heq
  refine AddressPlan.ne_zero_of_contains (h := hadded.built.splits)
    (hk.trans_le hadded.built.allocated_le_capacity) hpos ?_
  rw [← hnet]
  exact x.uplink.contains_firstUsable

theorem mac_ne_nextHop : x.mac ≠ .nextHop := by
  rw [mac_eq_ofHost h hx, ne_eq, Mac.ofHost_eq_nextHop_iff]
  exact firstUsable_ne_zero h hx

/-- Different hosts have different addresses, since their networks are disjoint. -/
theorem eq_of_firstUsable_eq (hy : .host y ∈ t.root.toNode.preorder)
    (heq : x.uplink.firstUsable = y.uplink.firstUsable) : x = y := by
  obtain ⟨-, a, a', -, hadded⟩ := added_of_generate h
  have hcontains : y.uplink.contains x.uplink.firstUsable = true := by
    rw [heq]
    exact y.uplink.contains_firstUsable
  have hnode := hadded.built.eq_of_contains (List.mem_singleton_self _) hx hy
    x.uplink.contains_firstUsable hcontains
  exact Node.host.inj hnode

end Topology

/-! ## Routes -/

/-- Where no host has the MAC for routers, it marks the routes to routers. -/
theorem Snapshot.mac_eq_nextHop_iff {s : Snapshot} {c : Cabling} {o : PlacementOptions}
    {pl : Placement} {ws : List PlacementWarning} (h : s.place c o = .ok (pl, ws))
    (hmac : ∀ id r, s.hosts.get? id = some r → r.mac ≠ .nextHop) {w : Wire} (hw : w ∈ s.wiring c)
    {e : PortRoute} (he : e ∈ w.routes s) : e.mac = .nextHop ↔ w.neighbor.kind = .router := by
  obtain ⟨net, rfl⟩ := Wire.exists_of_mem_routes he
  cases hk : w.neighbor.kind with
  | router => exact iff_of_true (macOf_router hk) rfl
  | host =>
    obtain ⟨host, hhost⟩ := exists_host_of_wire h hw hk
    refine iff_of_false ?_ (by simp)
    rw [macOf_host hk hhost]
    exact hmac _ _ hhost

namespace Topology

variable {shape : Shape} {hops : Option UInt32} {p : AddressPlan} {t t' : Topology}

/-- The records of the hosts are made of the hosts of the generated tree, filled or not. -/
theorem get?_hosts_of_generate (h : generate shape hops p = .ok t)
    (ht : t' = t ∨ t.synthesize = .ok t') {id : NodeId} {r : HostRecord} :
    (Snapshot.ofTree t'.root).hosts.get? id = some r ↔
      ∃ x, .host x ∈ t.root.toNode.preorder ∧ x.id = id ∧ x.record = r := by
  have hd := distinct_of_generate h
  rcases ht with rfl | ht
  · exact Snapshot.get?_hosts_ofTree hd
  · obtain ⟨-, rfl⟩ := synthesize_eq_ok_iff.1 ht
    rw [Snapshot.get?_hosts_ofTree (Router.distinct_filled hd), Router.toNode_filled]
    simp only [Node.host_mem_preorder_filled_iff]

/-- The hosts of a generated topology, before or after its tables are filled. Each has a record; its
address lies in the host's own network, its MAC is `08:00` followed by the octets of the address and
is not the one for routers. Different hosts have different addresses and different MACs. So in a
placement a route has the MAC for routers exactly if it leads to a router or is a catch-all route. -/
theorem hosts_of_generate (h : generate shape hops p = .ok t)
    (ht : t' = t ∨ t.synthesize = .ok t') :
    let s := Snapshot.ofTree t'.root
    (∀ x : Host, .host x ∈ t.root.toNode.preorder → s.hosts.get? x.id = some x.record) ∧
    (∀ id r, s.hosts.get? id = some r →
      ∃ x : Host, .host x ∈ t.root.toNode.preorder ∧ x.id = id ∧
        x.uplink.contains r.ip.address = true ∧ r.ip.length = x.uplink.length ∧
        r.mac.octets = 0x08 :: 0x00 :: r.ip.address.octets ∧ r.mac ≠ .nextHop) ∧
    (∀ id id' r r', s.hosts.get? id = some r → s.hosts.get? id' = some r' → id ≠ id' →
      r.ip.address ≠ r'.ip.address ∧ r.mac ≠ r'.mac) ∧
    ∀ c o pl ws, s.place c o = .ok (pl, ws) → ∀ id, s.routers.contains id = true →
      pl.routesOf id = (s.wiresOf c id).flatMap (Wire.routes s) ++
        o.catchAll pl.root id (pl.portsOf id) ∧
      (∀ w ∈ s.wiresOf c id, ∀ e ∈ w.routes s,
        e.mac = .nextHop ↔ w.neighbor.kind = .router) ∧
      ∀ e ∈ o.catchAll pl.root id (pl.portsOf id), e.mac = .nextHop := by
  intro s
  have hget : ∀ {id r}, s.hosts.get? id = some r ↔
      ∃ x, .host x ∈ t.root.toNode.preorder ∧ x.id = id ∧ x.record = r :=
    get?_hosts_of_generate h ht
  have hmac : ∀ id r, s.hosts.get? id = some r → r.mac ≠ .nextHop := by
    intro id r hr
    obtain ⟨x, hx, -, rfl⟩ := hget.1 hr
    exact mac_ne_nextHop h hx
  refine ⟨fun x hx => hget.2 ⟨x, hx, rfl, rfl⟩, fun id r hr => ?_,
    fun id id' r r' hr hr' hne => ?_, fun c o pl ws hplace id hid => ?_⟩
  · have hnot := hmac id r hr
    obtain ⟨x, hx, hid, rfl⟩ := hget.1 hr
    refine ⟨x, hx, hid, x.uplink.contains_firstUsable, rfl, ?_, hnot⟩
    exact (congrArg Mac.octets (mac_eq_ofHost h hx)).trans (Mac.octets_ofHost _)
  · obtain ⟨x, hx, rfl, rfl⟩ := hget.1 hr
    obtain ⟨y, hy, rfl, rfl⟩ := hget.1 hr'
    have haddress : x.uplink.firstUsable ≠ y.uplink.firstUsable := fun heq =>
      hne (congrArg Host.id (eq_of_firstUsable_eq h hx hy heq))
    refine ⟨haddress, ?_⟩
    change x.mac ≠ y.mac
    rw [mac_eq_ofHost h hx, mac_eq_ofHost h hy, ne_eq, Mac.ofHost_inj]
    exact haddress
  · refine ⟨Snapshot.routesOf_place hplace hid, fun w hw e he => ?_, fun e he => ?_⟩
    · exact Snapshot.mac_eq_nextHop_iff hplace hmac (Snapshot.mem_wiresOf_iff.1 hw).1 he
    · obtain ⟨port, -, rfl⟩ := PlacementOptions.exists_of_mem_catchAll he
      rfl

/-- A plan of single addresses that starts with the address zero. -/
def zeroPlan : AddressPlan :=
  ⟨⟨0, 29, by decide⟩, 32⟩

/-- A router above two hosts, each with one address. -/
def zeroRoot : Router :=
  ((Router.ofNet 1 (zeroPlan.subnet (by decide) 0)).link
    (Host.ofNet 2 (zeroPlan.subnet (by decide) 1))).link
      (Host.ofNet 3 (zeroPlan.subnet (by decide) 2))

/-- The hosts have the addresses 1 and 2, and no route to them has the MAC for routers. -/
theorem hosts_of_generate_zero :
    generate .minimal none zeroPlan = .ok (.ofRoot zeroRoot) ∧
      (ofRoot zeroRoot).synthesize = .ok ⟨zeroRoot.filled, true⟩ ∧
      ∃ s c pl ws, s = Snapshot.ofTree zeroRoot.filled ∧ c = ⟨[], [⟨"a", 20⟩, ⟨"b", 21⟩]⟩ ∧
        (∃ r, s.hosts.get? 2 = some r ∧ r.ip.address = 1 ∧
          r.mac.octets = [0x08, 0x00, 0, 0, 0, 1] ∧ r.mac ≠ .nextHop) ∧
        s.place c ⟨zeroPlan.space, .firstPort⟩ = .ok (pl, ws) ∧
        ∀ w ∈ s.wiresOf c 1, ∀ e ∈ w.routes s, e.mac ≠ .nextHop := by
  have hgenerate : generate .minimal none zeroPlan = .ok (.ofRoot zeroRoot) := by rfl
  have hfilled := synthesize_ofRoot zeroRoot
  obtain ⟨-, hrecord, -, hplaced⟩ := hosts_of_generate hgenerate (.inr hfilled)
  have hd := Router.distinct_filled (distinct_of_generate hgenerate)
  obtain ⟨pl, ws, h⟩ := Snapshot.exists_place_of_checked (c := ⟨[], [⟨"a", 20⟩, ⟨"b", 21⟩]⟩)
    (o := ⟨zeroPlan.space, .firstPort⟩) (Snapshot.checked_ofTree hd) (by decide) (by decide)
    (by decide)
  have hget : (Snapshot.ofTree zeroRoot.filled).hosts.get? 2 = some _ := rfl
  obtain ⟨x, -, -, -, -, hoctets, hne⟩ := hrecord 2 _ hget
  obtain ⟨-, hmac, -⟩ := hplaced _ _ pl ws h 1 (by decide)
  have hhosts : ∀ w ∈ (Snapshot.ofTree zeroRoot.filled).wiresOf ⟨[], [⟨"a", 20⟩, ⟨"b", 21⟩]⟩ 1,
      w.neighbor.kind ≠ .router := by decide
  exact ⟨hgenerate, hfilled, _, _, pl, ws, rfl, rfl, ⟨_, hget, rfl, hoctets, hne⟩, h,
    fun w hw e he => mt (hmac w hw e he).1 (hhosts w hw)⟩

end Topology

end Overlay
