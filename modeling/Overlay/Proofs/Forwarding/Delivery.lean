import Mathlib
import Overlay.Proofs.Forwarding.Tree
import Overlay.Proofs.Topology.Generate

/-!
Delivery in a tree with filled tables. Towards a node below it a router passes an address on to the
neighbor with that node (`hop_below`, `hop_host`), otherwise to the router above it (`hop_above`).
So from any router an address climbs to the first router that is above its node and then descends to
the node, without meeting a router twice (`exists_delivers`).
-/

namespace Overlay

open Ipv4 (Address Net)

/-! ## Hops -/

namespace Router

section Hops

variable {root : Router} {info : RouterInfo} {ns : List Node} {c : Cabling}
  {o : PlacementOptions} {p : Placement} {ws : List PlacementWarning}
  (ht : root.toNode.Addressed o.space)

include ht

/-- A router keeps the addresses of its own network. -/
theorem hop_eq_arrived (hm : .router info ns ∈ root.toNode.preorder) {x : Address}
    (hx : info.uplink.contains x = true) :
    ((Snapshot.ofTree root.filled).deployment c p).hop info.id x = .arrived := by
  obtain ⟨r, hget, huplink, -⟩ := get?_routers_filled ht.distinct hm ht.blank
  rw [Deployment.hop, Snapshot.deployment, hget, if_pos]
  simpa [huplink] using hx

theorem hop_of_best? (hm : .router info ns ∈ root.toNode.preorder) {d : Node} {x : Address}
    {e : PortRoute} (hd : d ∈ root.toNode.preorder) (hne : d ≠ .router info ns)
    (hx : d.uplink.contains x = true) (hbest : PortRoute.best? (p.routesOf info.id) x = some e) :
    ((Snapshot.ofTree root.filled).deployment c p).hop info.id x =
      ((Snapshot.ofTree root.filled).deployment c p).through e := by
  obtain ⟨r, hget, huplink, -⟩ := get?_routers_filled ht.distinct hm ht.blank
  have hown : ¬info.uplink.contains x = true := fun hown =>
    hne (ht.eq_of_contains d hd _ hm x hx hown)
  have hnot : ¬((Snapshot.ofTree root.filled).routers.get? info.id).any
      (·.uplink.contains x) = true := by
    simpa [hget, huplink] using hown
  rw [Deployment.hop, Snapshot.deployment, if_neg hnot]
  dsimp only
  rw [hbest]

variable (h : (Snapshot.ofTree root.filled).place c o = .ok (p, ws))
  (hnodup : ((Snapshot.ofTree root.filled).portsInUse c).Nodup)

include h hnodup

/-- Towards a node below a neighboring router an address goes on to that router. -/
theorem hop_below (hm : .router info ns ∈ root.toNode.preorder) {n d : Node} {x : Address}
    (hn : n ∈ ns) (hk : n.kind = .router) (hd : d ∈ n.preorder) (hx : d.uplink.contains x = true) :
    ((Snapshot.ofTree root.filled).deployment c p).hop info.id x = .next n.id := by
  obtain ⟨i, hi⟩ := List.mem_iff_getElem?.1 hn
  have hn' : n ∈ root.toNode.preorder :=
    Node.mem_preorder_trans (Node.mem_preorder_of_mem hn (Node.mem_preorder_self n)) hm
  have hne : d ≠ .router info ns := by
    intro heq
    subst heq
    exact ht.distinct.not_mem_preorder hm hn hd
  obtain ⟨w, hw, hr, hwn, hbest⟩ := best?_below ht h hm hi hd hx
  rw [hop_of_best? ht hm (Node.mem_preorder_trans hd hn') hne hx hbest]
  have hid : w.neighbor.id = n.id := by rw [hwn]
  have hrouter : (Snapshot.ofTree root.filled).routers.contains n.id = true := by
    rw [← Snapshot.has_router_iff, Snapshot.has_ofTree_iff (distinct_filled ht.distinct)]
    refine ⟨n.filled, ?_, Node.id_filled n, (Node.kind_filled n).trans hk⟩
    rw [Router.toNode_filled]
    exact Node.filled_mem_preorder hn'
  rcases hcable : w.cable with l | l
  · rw [Snapshot.through_near_loop h hnodup hw hcable rfl (hid.symm ▸ hrouter), hid]
  · have hkind := w.kind_eq
    rw [hwn, hcable] at hkind
    exact absurd (hkind.symm.trans hk) (by simp [Cable.kind])

/-- To a neighboring host an address leaves through the host link of its wire, with its MAC. -/
theorem hop_host (hm : .router info ns ∈ root.toNode.preorder) {y : Host} {x : Address}
    (hn : .host y ∈ ns) (hx : y.uplink.contains x = true) :
    ∃ w ∈ (Snapshot.ofTree root.filled).wiring c, ∃ l, w.router = info.id ∧
      w.neighbor.id = y.id ∧ w.cable = .hostLink l ∧
      ((Snapshot.ofTree root.filled).deployment c p).hop info.id x = .leaves l.port y.mac := by
  obtain ⟨i, hi⟩ := List.mem_iff_getElem?.1 hn
  have hy : .host y ∈ root.toNode.preorder :=
    Node.mem_preorder_trans (Node.mem_preorder_of_mem hn (Node.mem_preorder_self _)) hm
  obtain ⟨w, hw, hr, hwn, hbest⟩ := best?_below ht h hm hi (Node.mem_preorder_self _) hx
  have hmac : (Snapshot.ofTree root.filled).macOf w.neighbor = y.mac := by
    have hhost := get?_hosts_filled ht.distinct hy
    rw [hwn]
    exact Snapshot.macOf_host (n := ⟨.ofNat (i + 1), y.id, .host⟩) rfl hhost
  have hkind := w.kind_eq
  rw [hwn] at hkind
  rcases hcable : w.cable with l | l <;> rw [hcable] at hkind
  · cases hkind
  · refine ⟨w, hw, l, hr, by rw [hwn]; rfl, hcable, ?_⟩
    rw [hop_of_best? ht hm hy (by simp) hx hbest, hmac, hcable]
    exact Snapshot.through_near_hostLink h hnodup hw hcable rfl

/-- Towards a node that is not below it a router other than the root goes on to the router above. -/
theorem hop_above (hm : .router info ns ∈ root.toNode.preorder) {l d : Node} {x : Address}
    (hl : l ∈ root.toNode.preorder) (hlm : .router info ns ∈ l.neighbors)
    (hd : d ∈ root.toNode.preorder) (hnot : d ∉ (Node.router info ns).preorder)
    (hx : d.uplink.contains x = true) :
    ((Snapshot.ofTree root.filled).deployment c p).hop info.id x = .next l.id := by
  obtain ⟨w, hw, loop, hr, hcable, hbest⟩ := best?_above ht h hm hl hlm hd hnot hx
  have hne : d ≠ .router info ns := by
    intro heq
    subst heq
    exact hnot (Node.mem_preorder_self _)
  rw [hop_of_best? ht hm hd hne hx hbest, Snapshot.through_far h hnodup hw hcable rfl, hr]

end Hops

end Router

/-! ## Runs -/

namespace Deployment

/-- Forwarding has one course. -/
theorem Run.unique {d : Deployment} {a : Address} {id : NodeId} {path path' : List NodeId}
    {last last' : Hop} (h : d.Run a id path last) (h' : d.Run a id path' last') :
    path = path' ∧ last = last' := by
  induction h generalizing path' with
  | stop hstop =>
    cases h' with
    | stop => exact ⟨rfl, rfl⟩
    | next hnext => exact absurd hnext (hstop _)
  | next hnext _ ih =>
    cases h' with
    | stop hstop => exact absurd hnext (hstop _)
    | next hnext' hrun =>
      rw [hnext, Hop.next.injEq] at hnext'
      subst hnext'
      obtain ⟨rfl, rfl⟩ := ih hrun
      exact ⟨rfl, rfl⟩

end Deployment

/-- One of the two is a neighbor of the other in the tree. -/
def Node.Linked (t : Node) (a b : NodeId) : Prop :=
  ∃ l ∈ t.preorder, ∃ m ∈ l.neighbors, l.id = a ∧ m.id = b ∨ l.id = b ∧ m.id = a

/-- Forwarding `x` from the router `id` ends at the node `d` of the tree `t`: at the router itself,
or out of the host link of its wire with its MAC. It passes the routers of `path`, each of them
linked to the next. -/
def Snapshot.Delivers (s : Snapshot) (c : Cabling) (p : Placement) (t d : Node) (x : Address)
    (id : NodeId) (path : List NodeId) : Prop :=
  path.IsChain t.Linked ∧
  match d with
  | .router info _ =>
    path.getLast? = some info.id ∧ (s.deployment c p).Run x id path .arrived
  | .host y =>
    ∃ w ∈ s.wiring c, ∃ l, path.getLast? = some w.router ∧ w.neighbor.id = y.id ∧
      w.cable = .hostLink l ∧ (s.deployment c p).Run x id path (.leaves l.port y.mac)

namespace Snapshot.Delivers

variable {s : Snapshot} {c : Cabling} {p : Placement} {t d : Node} {x : Address}

theorem cons {id next : NodeId} {path : List NodeId}
    (hhop : (s.deployment c p).hop id x = .next next) (hlink : t.Linked id next)
    (h : s.Delivers c p t d x next (next :: path)) :
    s.Delivers c p t d x id (id :: next :: path) := by
  obtain ⟨hchain, hend⟩ := h
  refine ⟨List.isChain_cons_cons.2 ⟨hlink, hchain⟩, ?_⟩
  cases d with
  | router info ns =>
    obtain ⟨hlast, hrun⟩ := hend
    exact ⟨by rwa [List.getLast?_cons_cons], .next hhop hrun⟩
  | host y =>
    obtain ⟨w, hw, l, hlast, hid, hcable, hrun⟩ := hend
    exact ⟨w, hw, l, by rwa [List.getLast?_cons_cons], hid, hcable, .next hhop hrun⟩

theorem exists_run {id : NodeId} {path : List NodeId} (h : s.Delivers c p t d x id path) :
    ∃ last, (s.deployment c p).Run x id path last := by
  cases d with
  | router info ns => exact ⟨_, h.2.2⟩
  | host y =>
    obtain ⟨w, -, l, -, -, -, hrun⟩ := h.2
    exact ⟨_, hrun⟩

end Snapshot.Delivers

namespace Router

/-- The filled tree is placed if there are enough cables. -/
theorem exists_place {root : Router} {c : Cabling} {o : PlacementOptions}
    (ht : root.toNode.Addressed o.space)
    (hloops : (Snapshot.ofTree root.filled).routers.size - 1 ≤ c.loops.length)
    (hlinks : (Snapshot.ofTree root.filled).hosts.size ≤ c.hostLinks.length) :
    ∃ p ws, (Snapshot.ofTree root.filled).place c o = .ok (p, ws) := by
  have hd := distinct_filled ht.distinct
  have hasc : root.filled.toNode.Ascending := by
    rw [Router.toNode_filled]
    exact ht.ascending.filled
  apply Snapshot.exists_place_of_checked (Snapshot.checked_ofTree hd) hloops hlinks
  intro e he hk
  exact Snapshot.lt_of_mem_neighbors_ofTree hd hasc (Snapshot.mem_edges_iff.1 he) hk

section Runs

variable {root : Router} {c : Cabling} {o : PlacementOptions} {p : Placement}
  {ws : List PlacementWarning} (ht : root.toNode.Addressed o.space)
  (h : (Snapshot.ofTree root.filled).place c o = .ok (p, ws))
  (hnodup : ((Snapshot.ofTree root.filled).portsInUse c).Nodup)

include ht h hnodup

/-- A router above a node passes an address down to it, over routers above the node. -/
theorem exists_delivers_below {d : Node} {x : Address} (hx : d.uplink.contains x = true) {m : Node}
    (hm : m ∈ root.toNode.preorder) (hk : m.kind = .router) (hd : d ∈ m.preorder) :
    ∃ path, (Snapshot.ofTree root.filled).Delivers c p root.toNode d x m.id (m.id :: path) ∧
      (m.id :: path).Pairwise (· < ·) ∧
      ∀ id ∈ m.id :: path, ∃ l ∈ root.toNode.preorder, l.id = id ∧ d ∈ l.preorder := by
  induction m with
  | router info ns ih =>
    have hself : ∃ l ∈ root.toNode.preorder, l.id = info.id ∧ d ∈ l.preorder := ⟨_, hm, rfl, hd⟩
    rw [Node.preorder_router, List.mem_cons, List.mem_flatMap] at hd
    rcases hd with rfl | ⟨n, hn, hd⟩
    · have hhop := hop_eq_arrived (c := c) (p := p) ht hm hx
      refine ⟨[], ⟨List.isChain_singleton _, rfl, ?_⟩, List.pairwise_singleton _ _, ?_⟩
      · exact hhop ▸ .stop (by simp [Node.id, hhop])
      · exact List.forall_mem_singleton.2 hself
    · have hn' : n ∈ root.toNode.preorder :=
        Node.mem_preorder_trans (Node.mem_preorder_of_mem hn (Node.mem_preorder_self n)) hm
      cases n with
      | router info' ns' =>
        obtain ⟨path, hdel, hpair, habove⟩ := ih _ hn hn' rfl hd
        have hlink : root.toNode.Linked info.id info'.id := ⟨_, hm, _, hn, .inl ⟨rfl, rfl⟩⟩
        have hlt : info.id < info'.id := ht.ascending _ hm _ hn rfl
        refine ⟨_, .cons (hop_below ht h hnodup hm hn rfl hd hx) hlink hdel, ?_, ?_⟩
        · refine List.pairwise_cons.2 ⟨fun id hid => ?_, hpair⟩
          rcases List.mem_cons.1 hid with rfl | hid
          · exact hlt
          · exact UInt32.lt_trans hlt ((List.pairwise_cons.1 hpair).1 id hid)
        · exact List.forall_mem_cons.2 ⟨hself, habove⟩
      | host y =>
        rw [Node.preorder_host, List.mem_singleton] at hd
        subst hd
        obtain ⟨w, hw, l, hr, hid, hcable, hhop⟩ := hop_host ht h hnodup hm hn hx
        refine ⟨[], ⟨List.isChain_singleton _, w, hw, l, ?_, hid, hcable, ?_⟩,
          List.pairwise_singleton _ _, ?_⟩
        · rw [hr]
          rfl
        · exact hhop ▸ .stop (by simp [Node.id, hhop])
        · exact List.forall_mem_singleton.2 hself
  | host y => cases hk

/-- From any router an address gets to its node without meeting a router twice. -/
theorem exists_delivers {d : Node} {x : Address} (hd : d ∈ root.toNode.preorder)
    (hx : d.uplink.contains x = true) {m : Node} (hm : m ∈ root.toNode.preorder)
    (hk : m.kind = .router) :
    ∃ path, (Snapshot.ofTree root.filled).Delivers c p root.toNode d x m.id (m.id :: path) ∧
      (m.id :: path).Nodup ∧
      ∀ id ∈ path, id < m.id ∨ ∃ l ∈ root.toNode.preorder, l.id = id ∧ d ∈ l.preorder := by
  -- The routers above `m` have smaller numbers; no router with `d` below it is met on the way up.
  induction hnum : m.id.toNat using Nat.strong_induction_on generalizing m with
  | _ num ih =>
    by_cases hbelow : d ∈ m.preorder
    · obtain ⟨path, hdel, hpair, habove⟩ := exists_delivers_below ht h hnodup hx hm hk hbelow
      refine ⟨path, hdel, hpair.imp fun hlt heq => ?_, fun id hid => ?_⟩
      · exact UInt32.lt_irrefl _ (heq ▸ hlt)
      · exact .inr (habove id (List.mem_cons_of_mem _ hid))
    · rcases Node.eq_or_mem_neighbors_of_mem hm with rfl | ⟨l, hl, hlm⟩
      · exact absurd hd hbelow
      · have hlt : l.id < m.id := ht.ascending l hl m hlm hk
        have hkl : l.kind = .router := by
          cases l with
          | router => rfl
          | host => cases hlm
        obtain ⟨path, hdel, hpath, hids⟩ :=
          ih l.id.toNat (hnum ▸ UInt32.lt_iff_toNat_lt.1 hlt) hl hkl rfl
        have hids' : ∀ id ∈ l.id :: path, id < m.id ∨
            ∃ n ∈ root.toNode.preorder, n.id = id ∧ d ∈ n.preorder := by
          intro id hid
          rcases List.mem_cons.1 hid with rfl | hid
          · exact .inl hlt
          · exact (hids id hid).imp_left fun h => UInt32.lt_trans h hlt
        cases m with
        | router info ns =>
          have hhop := hop_above ht h hnodup hm hl hlm hd hbelow hx
          refine ⟨l.id :: path, .cons hhop ⟨l, hl, _, hlm, .inr ⟨rfl, rfl⟩⟩ hdel, ?_, hids'⟩
          refine List.nodup_cons.2 ⟨fun hself => ?_, hpath⟩
          rcases hids' _ hself with hlt | ⟨n, hn, hid, hdn⟩
          · exact UInt32.lt_irrefl _ hlt
          · exact hbelow (ht.distinct.eq_of_id_eq hn hm hid ▸ hdn)
        | host y => cases hk

end Runs

end Router

/-! ## Trees from one allocator -/

/-- What forwarding relies on holds in a tree of the nodes of one allocator. -/
theorem Built.addressed {p : AddressPlan} {a : Allocator} {ns : List Node} {n : Node}
    (h : Built p a ns) (hn : n ∈ ns) (hlt : a.allocated < 2 ^ 32) (hasc : n.Ascending) :
    n.Addressed p.space where
  distinct := h.distinct hn
  blank := h.blank hn
  ascending := hasc
  length_lt := Nat.lt_of_le_of_lt (h.length_preorder_le hn) hlt
  eq_of_contains _ hl _ hm _ hxl hxm := h.eq_of_contains hn hl hm hxl hxm
  space_contains _ hm _ hx := h.space_contains hn hm hx
  space_length_lt hlen m hm := by
    rw [h.length_uplink hn hm]
    exact h.space_length_lt hn hlen

namespace AddressPlan

variable {p : AddressPlan}

/-- The tree is made of nodes that one allocator of the plan has constructed since its last reset,
and routers have smaller numbers than the routers below them. -/
def Constructs (p : AddressPlan) (root : Router) : Prop :=
  root.toNode.Ascending ∧
    ∃ a ns, Built p a ns ∧ root.toNode ∈ ns ∧ a.allocated < 2 ^ 32 - 1

theorem constructs_of_generate {shape : Shape} {hops : Option UInt32} {t : Topology}
    (h : Topology.generate shape hops p = .ok t)
    (hlt : t.root.toNode.preorder.length < 2 ^ 32 - 1) :
    t = .ofRoot t.root ∧ p.Constructs t.root := by
  obtain ⟨hroot, a, a', -, hadded⟩ := Topology.added_of_generate h
  rw [hadded.built.length_preorder] at hlt
  exact ⟨hroot, hadded.ascending (by omega), _, _, hadded.built, List.mem_singleton_self _, hlt⟩

/-- End-to-end delivery. Generated topologies are trees that the plan constructs. Such a tree can
be filled and placed wherever there are enough cables, and then, if the ports in use are distinct,
forwarding an address of any node from any router has one course, and that leads to the node
without meeting a router twice. -/
theorem delivery (p : AddressPlan) :
    (∀ shape hops t, Topology.generate shape hops p = .ok t →
      t.root.toNode.preorder.length < 2 ^ 32 - 1 → t = .ofRoot t.root ∧ p.Constructs t.root) ∧
    ∀ root, p.Constructs root →
      ∃ t, (Topology.ofRoot root).synthesize = .ok t ∧ ∀ (c : Cabling) (o : PlacementOptions),
        o.space = p.space →
        (Snapshot.ofTree t.root).routers.size - 1 ≤ c.loops.length →
        (Snapshot.ofTree t.root).hosts.size ≤ c.hostLinks.length →
        ((Snapshot.ofTree t.root).portsInUse c).Nodup →
        ∃ q ws, (Snapshot.ofTree t.root).place c o = .ok (q, ws) ∧
          ∀ m ∈ root.toNode.preorder, m.kind = .router →
            ∀ d ∈ root.toNode.preorder, ∀ x, d.uplink.contains x = true →
              ∃ path, (Snapshot.ofTree t.root).Delivers c q root.toNode d x m.id path ∧
                path.Nodup ∧
                ∀ path' last, ((Snapshot.ofTree t.root).deployment c q).Run x m.id path' last →
                  path' = path := by
  refine ⟨fun shape hops t => constructs_of_generate, ?_⟩
  rintro root ⟨hasc, a, ns, hbuilt, hroot, hlt⟩
  refine ⟨⟨root.filled, true⟩, Topology.synthesize_ofRoot root, ?_⟩
  intro c o hspace hloops hlinks hnodup
  have ht : root.toNode.Addressed o.space := hspace ▸ hbuilt.addressed hroot (by omega) hasc
  obtain ⟨q, ws, hplace⟩ := Router.exists_place ht hloops hlinks
  refine ⟨q, ws, hplace, fun m hm hk d hd x hx => ?_⟩
  obtain ⟨path, hdel, hpath, -⟩ := Router.exists_delivers ht hplace hnodup hd hx hm hk
  obtain ⟨last, hrun⟩ := hdel.exists_run
  exact ⟨_, hdel, hpath, fun path' last' hrun' => (hrun'.unique hrun).1⟩

/-- Router 1 above router 2 and host 3, and router 2 above host 4. -/
def mediumRoot : Router :=
  ((Router.ofNet 1 (standardSubnet 0)).link
    ((Router.ofNet 2 (standardSubnet 1)).link (Host.ofNet 4 (standardSubnet 3))).toNode).link
      (Host.ofNet 3 (standardSubnet 2))

/-- From router 2 an address of host 3 climbs to router 1. -/
theorem delivery_medium :
    Topology.generate .medium none standard = .ok (.ofRoot mediumRoot) ∧
    ∃ t, (Topology.ofRoot mediumRoot).synthesize = .ok t ∧
      ∃ q ws path, (Snapshot.ofTree t.root).place ⟨[⟨10, 11⟩], [⟨"a", 20⟩, ⟨"b", 21⟩]⟩
          ⟨standard.space, .absent⟩ = .ok (q, ws) ∧
        (Snapshot.ofTree t.root).Delivers ⟨[⟨10, 11⟩], [⟨"a", 20⟩, ⟨"b", 21⟩]⟩ q mediumRoot.toNode
          (Host.ofNet 3 (standardSubnet 2)) (Ipv4.Address.ofOctets 10 0 2 1) 2 path := by
  obtain ⟨hgenerated, hall⟩ := delivery standard
  have hgenerate : Topology.generate .medium none standard = .ok (.ofRoot mediumRoot) := by rfl
  obtain ⟨-, hconstructs⟩ := hgenerated _ _ _ hgenerate (by decide)
  obtain ⟨t, ht, hplaced⟩ := hall mediumRoot hconstructs
  refine ⟨hgenerate, t, ht, ?_⟩
  rw [Topology.synthesize_ofRoot, Except.ok.injEq] at ht
  subst ht
  obtain ⟨q, ws, hplace, hdelivers⟩ := hplaced ⟨[⟨10, 11⟩], [⟨"a", 20⟩, ⟨"b", 21⟩]⟩
    ⟨standard.space, .absent⟩ rfl (by decide) (by decide) (by decide)
  obtain ⟨path, hpath, -, -⟩ := hdelivers
    ((Router.ofNet 2 (standardSubnet 1)).link (Host.ofNet 4 (standardSubnet 3))) (by decide) rfl
    (Host.ofNet 3 (standardSubnet 2)) (by decide) (Ipv4.Address.ofOctets 10 0 2 1) (by decide)
  exact ⟨q, ws, path, hplace, hpath⟩

end AddressPlan

end Overlay
