import Mathlib
import Overlay.Proofs.Forwarding.Basic
import Overlay.Proofs.Placement.Egress
import Overlay.Proofs.Topology.Construction

/-!
The routes in a tree with filled tables. `Addressed` collects what is needed of the tree. At a
router above a node the best route to an address of the node's network goes through the wire to the
neighbor with the node below it (`best?_below`); at any other router it is the catch-all route,
through the wire from the router above (`best?_above`).
-/

namespace Overlay

open Ipv4 (Address Net)

namespace Node

/-- What forwarding relies on in a tree whose networks lie in `space`. -/
structure Addressed (space : Net) (t : Node) : Prop where
  distinct : t.Distinct
  blank : t.Blank
  ascending : t.Ascending
  length_lt : t.preorder.length < 2 ^ 32
  eq_of_contains : ∀ l ∈ t.preorder, ∀ m ∈ t.preorder, ∀ x, l.uplink.contains x = true →
    m.uplink.contains x = true → l = m
  space_contains : ∀ m ∈ t.preorder, ∀ x, m.uplink.contains x = true → space.contains x = true
  space_length_lt : 1 < t.preorder.length → ∀ m ∈ t.preorder, space.length < m.uplink.length

theorem filled_mem_preorder {m n : Node} (h : m ∈ n.preorder) : m.filled ∈ n.filled.preorder := by
  rw [preorder_filled]
  exact List.mem_map_of_mem h

end Node

namespace Router

/-! ## Records of a filled tree -/

section Records

variable {root : Router} {info : RouterInfo} {ns : List Node}
  (hd : root.toNode.Distinct) (hm : .router info ns ∈ root.toNode.preorder)

include hd

theorem get?_hosts_filled {x : Host} (hx : .host x ∈ root.toNode.preorder) :
    (Snapshot.ofTree root.filled).hosts.get? x.id = some x.record := by
  refine (Snapshot.get?_hosts_ofTree (distinct_filled hd)).2 ⟨x, ?_, rfl, rfl⟩
  rw [Router.toNode_filled, ← Node.filled_host]
  exact Node.filled_mem_preorder hx

theorem neighbors_filled_ofTree {n : Node} (hn : n ∈ root.toNode.preorder) :
    (Snapshot.ofTree root.filled).neighbors n.id = n.refs := by
  have hn' : n.filled ∈ root.filled.toNode.preorder := by
    rw [Router.toNode_filled]
    exact Node.filled_mem_preorder hn
  rw [← Node.id_filled, Snapshot.neighbors_ofTree (distinct_filled hd) hn', Node.refs_filled]

include hm

/-- The record of a router after filling. -/
theorem get?_routers_filled (hblank : root.toNode.Blank) :
    ∃ r, (Snapshot.ofTree root.filled).routers.get? info.id = some r ∧ r.uplink = info.uplink ∧
      r.table = Node.routesBelow ns := by
  have hm' := Node.filled_mem_preorder hm
  rw [← Router.toNode_filled, Node.filled_router] at hm'
  refine ⟨_, (Snapshot.get?_routers_ofTree (distinct_filled hd)).2 ⟨⟨_, _⟩, hm', rfl, rfl⟩, rfl, ?_⟩
  have htable := Node.table_filled (hblank.of_mem hm)
  rw [Node.filled_router] at htable
  exact htable

end Records

/-! ## The routes of a router -/

section Routes

variable {root : Router} {info : RouterInfo} {ns : List Node} {c : Cabling}
  {o : PlacementOptions} {p : Placement} {ws : List PlacementWarning}
  (ht : root.toNode.Addressed o.space)
  (h : (Snapshot.ofTree root.filled).place c o = .ok (p, ws))

include ht

/-- Through the wire to a neighbor go the routes to all networks of the neighbor's tree. -/
theorem mem_routes_iff {w : Wire} {i : Nat} {n : Node} {e : PortRoute}
    (hm : .router info ns ∈ root.toNode.preorder) (hr : w.router = info.id)
    (hi : ns[i]? = some n) (hn : w.neighbor = ⟨.ofNat (i + 1), n.id, n.kind⟩) :
    e ∈ w.routes (Snapshot.ofTree root.filled) ↔ ∃ d ∈ n.preorder,
      e = ⟨d.uplink, w.cable.near, (Snapshot.ofTree root.filled).macOf w.neighbor⟩ := by
  obtain ⟨r, hget, -, htable⟩ := get?_routers_filled ht.distinct hm ht.blank
  have hlen : ns.length < 2 ^ 32 := (Node.length_neighbors_lt (.router info ns)).trans
    ((Node.preorder_sublist hm).length_le.trans_lt ht.length_lt)
  rw [Wire.routes_of_get? (hr ▸ hget), hn, RouterRecord.routesVia_of_table htable hlen hi,
    List.mem_map]
  simp only [Node.mem_postorder_iff, eq_comm]

include h

theorem root_eq_of_place : p.root = root.info.id := by
  have hroot : p.root = root.filled.info.id :=
    Snapshot.root_of_place_ofTree (distinct_filled ht.distinct) h
  exact hroot

theorem exists_wire {l n : Node} {i : Nat} (hl : l ∈ root.toNode.preorder)
    (hi : l.neighbors[i]? = some n) :
    ∃ w ∈ (Snapshot.ofTree root.filled).wiring c, w.router = l.id ∧
      w.neighbor = ⟨.ofNat (i + 1), n.id, n.kind⟩ := by
  obtain ⟨r, st, -, hlaid, -, -⟩ := Snapshot.laid_of_place h
  have hmem : (l.id, (⟨.ofNat (i + 1), n.id, n.kind⟩ : NeighborRef)) ∈
      ((Snapshot.ofTree root.filled).wiring c).map Wire.edge := by
    rw [hlaid.map_edge_wiring, Snapshot.mem_edges_iff, neighbors_filled_ofTree ht.distinct hl]
    refine List.mem_of_getElem? (i := i) ?_
    rw [Node.getElem?_refs, hi, Option.map_some]
  obtain ⟨w, hw, hwe⟩ := List.mem_map.1 hmem
  exact ⟨w, hw, congrArg Prod.fst hwe, congrArg Prod.snd hwe⟩

theorem exists_neighbor_of_wire {l : Node} {w : Wire} (hl : l ∈ root.toNode.preorder)
    (hw : w ∈ (Snapshot.ofTree root.filled).wiring c) (hr : w.router = l.id) :
    ∃ i n, l.neighbors[i]? = some n ∧ w.neighbor = ⟨.ofNat (i + 1), n.id, n.kind⟩ := by
  have hmem := Snapshot.mem_neighbors_of_mem_wiring h hw
  rw [hr, neighbors_filled_ofTree ht.distinct hl] at hmem
  obtain ⟨i, hi⟩ := List.mem_iff_getElem?.1 hmem
  rw [Node.getElem?_refs, Option.map_eq_some_iff] at hi
  obtain ⟨n, hn, heq⟩ := hi
  exact ⟨i, n, hn, heq.symm⟩

theorem mem_routesOf_iff (hm : .router info ns ∈ root.toNode.preorder) {e : PortRoute} :
    e ∈ p.routesOf info.id ↔
      (∃ w ∈ (Snapshot.ofTree root.filled).wiring c, ∃ i n, ns[i]? = some n ∧
        w.router = info.id ∧ w.neighbor = ⟨.ofNat (i + 1), n.id, n.kind⟩ ∧ ∃ d ∈ n.preorder,
          e = ⟨d.uplink, w.cable.near, (Snapshot.ofTree root.filled).macOf w.neighbor⟩) ∨
      e ∈ o.catchAll p.root info.id (p.portsOf info.id) := by
  obtain ⟨r, hget, -, -⟩ := get?_routers_filled ht.distinct hm ht.blank
  rw [Snapshot.routesOf_place h (KeyedMap.contains_iff_exists.2 ⟨r, hget⟩), List.mem_append,
    Snapshot.routesOn, List.mem_flatMap]
  refine or_congr_left ?_
  simp only [List.mem_filter, decide_eq_true_eq]
  constructor
  · intro hex
    obtain ⟨w, ⟨hw, hr⟩, he⟩ := hex
    obtain ⟨i, n, hi, hn⟩ := exists_neighbor_of_wire ht h hm hw hr
    exact ⟨w, hw, i, n, hi, hr, hn, (mem_routes_iff ht hm hr hi hn).1 he⟩
  · intro hex
    obtain ⟨w, hw, i, n, hi, hr, hn, he⟩ := hex
    exact ⟨w, ⟨hw, hr⟩, (mem_routes_iff ht hm hr hi hn).2 he⟩

/-- At a router above a node the best route is that of the node's own network, through the wire to
the neighbor with the node below it. -/
theorem best?_below (hm : .router info ns ∈ root.toNode.preorder) {i : Nat} {n d : Node}
    {x : Address} (hi : ns[i]? = some n) (hd : d ∈ n.preorder) (hx : d.uplink.contains x = true) :
    ∃ w ∈ (Snapshot.ofTree root.filled).wiring c, w.router = info.id ∧
      w.neighbor = ⟨.ofNat (i + 1), n.id, n.kind⟩ ∧
      PortRoute.best? (p.routesOf info.id) x =
        some ⟨d.uplink, w.cable.near, (Snapshot.ofTree root.filled).macOf w.neighbor⟩ := by
  have hbelow : ∀ {i : Nat} {n d : Node}, ns[i]? = some n → d ∈ n.preorder → d ∈ root.toNode.preorder :=
    fun hi hd => Node.mem_preorder_trans
      (Node.mem_preorder_of_mem (List.mem_of_getElem? hi) hd) hm
  obtain ⟨w, hw, hr, hn⟩ := exists_wire ht h hm hi
  refine ⟨w, hw, hr, hn, PortRoute.best?_eq_some ?_ hx fun e he hex hlen => ?_⟩
  · exact (mem_routesOf_iff ht h hm).2 (.inl ⟨w, hw, i, n, hi, hr, hn, d, hd, rfl⟩)
  · rcases (mem_routesOf_iff ht h hm).1 he with ⟨w', hw', j, n', hj, hr', hn', d', hd', rfl⟩ | he
    · obtain rfl := ht.eq_of_contains _ (hbelow hj hd') _ (hbelow hi hd) x hex hx
      obtain rfl := ht.distinct.below_unique hm hj hi hd' hd
      rw [hi, Option.some.injEq] at hj
      rw [Snapshot.wire_unique h hw' hw (by rw [hn, hn', hj])]
    · have hmany : 1 < root.toNode.preorder.length := by
        have hns := Node.length_neighbors_lt (.router info ns)
        have hsub := (Node.preorder_sublist hm).length_le
        have hil := (List.getElem?_eq_some_iff.1 hi).1
        rw [Node.neighbors] at hns
        omega
      have hlt := ht.space_length_lt hmany d (hbelow hi hd)
      obtain ⟨port, -, rfl⟩ := PlacementOptions.exists_of_mem_catchAll he
      exact absurd hlen (Nat.not_le_of_lt hlt)

/-- At a router other than the root the best route to anything not below it is the catch-all route,
through the wire from the router above. -/
theorem best?_above (hm : .router info ns ∈ root.toNode.preorder) {l d : Node} {x : Address}
    (hl : l ∈ root.toNode.preorder) (hlm : .router info ns ∈ l.neighbors)
    (hd : d ∈ root.toNode.preorder) (hnot : d ∉ (Node.router info ns).preorder)
    (hx : d.uplink.contains x = true) :
    ∃ w ∈ (Snapshot.ofTree root.filled).wiring c, ∃ loop, w.router = l.id ∧
      w.cable = .loop loop ∧
      PortRoute.best? (p.routesOf info.id) x = some ⟨o.space, loop.far, .nextHop⟩ := by
  obtain ⟨i, hi⟩ := List.mem_iff_getElem?.1 hlm
  obtain ⟨w, hw, hr, hn⟩ := exists_wire ht h hl hi
  obtain ⟨loop, hcable⟩ : ∃ loop, w.cable = .loop loop := by
    have hk := w.kind_eq
    rw [hn] at hk
    rcases hcable : w.cable with loop | link
    · exact ⟨loop, rfl⟩
    · rw [hcable] at hk
      cases hk
  have hid : info.id ≠ p.root := by
    rw [root_eq_of_place ht h]
    exact ht.distinct.id_ne_of_mem_neighbors hl hlm
  have hports : p.portsOf info.id = loop.far ::
      (Snapshot.ofTree root.filled).ownPorts c info.id := by
    have hlt : w.router < w.neighbor.id := by
      rw [hr, hn]
      exact ht.ascending l hl _ hlm rfl
    obtain ⟨r, st, hv, hlaid, rfl, -⟩ := Snapshot.laid_of_place h
    have := hlaid.portsOf_of_wire (Snapshot.validate_eq_ok_iff_checked.1 hv) hw hlt hcable
    rwa [hn] at this
  have hcatch : o.catchAll p.root info.id (p.portsOf info.id) = [⟨o.space, loop.far, .nextHop⟩] := by
    rw [PlacementOptions.catchAll, if_neg fun hroot => hid hroot.1, hports]
    rfl
  refine ⟨w, hw, loop, hr, hcable, PortRoute.best?_eq_some ?_ (ht.space_contains d hd x hx) ?_⟩
  · exact (mem_routesOf_iff ht h hm).2 (.inr (hcatch ▸ List.mem_singleton_self _))
  · intro e he hex _
    rcases (mem_routesOf_iff ht h hm).1 he with ⟨w', -, j, n, hj, -, -, d', hd', rfl⟩ | he
    · have hin : d' ∈ (Node.router info ns).preorder :=
        Node.mem_preorder_of_mem (List.mem_of_getElem? hj) hd'
      obtain rfl := ht.eq_of_contains _ (Node.mem_preorder_trans hin hm) _ hd x hex hx
      exact absurd hin hnot
    · rw [hcatch] at he
      exact List.mem_singleton.1 he

end Routes

end Router

end Overlay
