import Mathlib
import Overlay.Proofs.AddressPlan
import Overlay.Proofs.Placement.Routes

/-!
All routes of a successful placement. Entry by entry a router has the routes of its table on the
entry's egress, through the wire of the entry (`map_neighbor_wiresOf`); its catch-all route comes
last and goes over the loop to its parent, or for the root through the port of its first entry.
`Warned` is the invariant behind the warnings: they name the routers that are due a catch-all route
and have no port for it, which can only be the root of a snapshot of one node.
-/

namespace Overlay

open AddressPlan (standardSubnet)

/-! ## Warnings -/

namespace PlacementState

variable {s : Snapshot} {c : Cabling} {o : PlacementOptions} {root : NodeId}
  {before after : List ScanStep} {st st' : PlacementState} {x : ScanStep}

/-- A step leaves the ports of a router as they are once its turn is over. -/
theorem Advances.portsOf_of_done (ha : st.Advances s o x st') (hl : Laid s c root before st)
    (hasc : ∀ a, ∀ n ∈ s.neighbors a, n.kind = .router → a < n.id)
    (hsplit : s.scan = before ++ x :: after) {id : NodeId} (hid : id ∈ s.routers.keys)
    (hdone : .catchAll id ∈ before ++ [x]) :
    st'.placement.portsOf id = st.placement.portsOf id := by
  have hl' := hl.advance ha
  have of_wire : ∀ w : Wire, x.edge? = some w.edge →
      c.wires (before ++ [x]) = c.wires before ++ [w] →
      st'.placement.portsOf id = st.placement.portsOf id := by
    intro w hx hw
    rw [List.mem_append, List.mem_singleton, or_iff_left (by rintro rfl; cases hx)] at hdone
    rw [hl'.ports id hid, hw, List.flatMap_append, List.flatMap_singleton,
      (portsAt_of_done hasc hsplit hx hdone).2, List.append_nil, hl.ports id hid]
  cases ha with
  | uplink => rfl
  | @loop a r n l more hk hcable =>
    exact of_wire ⟨a, n, .loop l, hk⟩ rfl (hl.wires_concat rfl hcable)
  | @hostLink a r n l more host hk hcable hhost =>
    exact of_wire ⟨a, n, .hostLink l, hk⟩ rfl (hl.wires_concat rfl hcable)
  | catchAll =>
    unfold Placement.portsOf
    rw [addCatchAll_ports]

theorem noPorts_not_mem_sharing (p : Placement) (hostname : String) (host : HostRecord)
    (id : NodeId) : .noPorts id ∉ p.sharing hostname host := by
  unfold Placement.sharing
  split <;> simp

/-- The warning about a router without ports comes from the step for its catch-all route. -/
theorem Advances.noPorts_mem_iff (ha : st.Advances s o x st') {id : NodeId} :
    .noPorts id ∈ st'.warnings ↔ .noPorts id ∈ st.warnings ∨
      x = .catchAll id ∧ ¬(id = st.placement.root ∧ o.rootCatchAll = .absent) ∧
        st.placement.portsOf id = [] := by
  cases ha with
  | uplink => simp
  | loop => simp
  | hostLink => simp [noPorts_not_mem_sharing]
  | @catchAll a =>
    unfold addCatchAll
    split
    · rename_i habsent
      rw [ScanStep.catchAll.injEq]
      refine ⟨.inl, fun h => h.resolve_right ?_⟩
      rintro ⟨rfl, hdue, -⟩
      exact hdue habsent
    · rename_i hdue
      rcases hports : st.placement.portsOf a with _ | ⟨port, ports⟩
      · rw [List.mem_append, List.mem_singleton, PlacementWarning.noPorts.injEq,
          ScanStep.catchAll.injEq]
        refine or_congr_right ⟨?_, fun h => h.1.symm⟩
        rintro rfl
        exact ⟨rfl, hdue, hports⟩
      · rw [ScanStep.catchAll.injEq]
        refine ⟨.inl, fun h => h.resolve_right ?_⟩
        rintro ⟨rfl, -, hnil⟩
        rw [hports] at hnil
        cases hnil

/-- After `steps`, the warnings name the routers whose turn is over, that are due a catch-all route
and that have no port for it. -/
def Warned (o : PlacementOptions) (root : NodeId) (steps : List ScanStep)
    (st : PlacementState) : Prop :=
  ∀ id, .noPorts id ∈ st.warnings ↔ .catchAll id ∈ steps ∧
    ¬(id = root ∧ o.rootCatchAll = .absent) ∧ st.placement.portsOf id = []

theorem warned_start (s : Snapshot) (c : Cabling) (o : PlacementOptions) (root : NodeId) :
    Warned o root [] (s.startState c root) := by
  intro id
  simp [Snapshot.startState]

theorem Warned.advance (h : Warned o root before st) (hl : Laid s c root before st)
    (hasc : ∀ a, ∀ n ∈ s.neighbors a, n.kind = .router → a < n.id)
    (hsplit : s.scan = before ++ x :: after) (ha : st.Advances s o x st') :
    Warned o root (before ++ [x]) st' := by
  intro id
  rw [ha.noPorts_mem_iff, h id, hl.root_eq]
  by_cases hdone : .catchAll id ∈ before ++ [x]
  · have hscan : .catchAll id ∈ s.scan := by
      rw [hsplit, List.append_cons]
      exact List.mem_append_left _ hdone
    have hid : id ∈ s.routers.keys :=
      KeyedMap.contains_iff_mem_keys.1 (Snapshot.contains_router_of_mem_scan hscan)
    rw [ha.portsOf_of_done hl hasc hsplit hid hdone, ← or_and_right, List.mem_append,
      List.mem_singleton, eq_comm (a := x)]
  · rw [List.mem_append, List.mem_singleton, not_or] at hdone
    refine iff_of_false ?_ fun hin => ?_
    · rintro (⟨hin, -⟩ | ⟨rfl, -⟩)
      · exact hdone.1 hin
      · exact hdone.2 rfl
    · rcases List.mem_append.1 hin.1 with hin | hin
      · exact hdone.1 hin
      · exact hdone.2 (List.mem_singleton.1 hin)

end PlacementState

/-! ## Snapshots of one node -/

namespace Snapshot

variable {s : Snapshot} {c : Cabling} {o : PlacementOptions} {root : NodeId} {p : Placement}
  {ws : List PlacementWarning}

/-- The root of an accepted snapshot has no entry exactly if it is the only node. -/
theorem Checked.neighbors_root_eq_nil_iff (h : s.Checked root) :
    s.neighbors root = [] ↔ s.routers.size = 1 ∧ s.hosts.size = 0 := by
  have hroot := KeyedMap.contains_iff_mem_keys.1 h.root_router
  constructor
  · intro hnil
    -- Every walk from the root is the empty one.
    have honly : ∀ k id, s.has k id = true → id = root := by
      intro k id hk
      obtain ⟨path, hw⟩ := h.reached k id hk
      cases hw with
      | nil => rfl
      | cons hn _ =>
        rw [hnil] at hn
        cases hn
    constructor
    · rw [← KeyedMap.length_keys, List.length_eq_one_iff]
      refine ⟨root, List.perm_singleton.1 ?_⟩
      rw [List.perm_ext_iff_of_nodup s.routers.keys_nodup (List.nodup_singleton root)]
      intro id
      rw [List.mem_singleton]
      refine ⟨fun hid => honly .router id (KeyedMap.contains_iff_mem_keys.2 hid), ?_⟩
      rintro rfl
      exact hroot
    · rw [← KeyedMap.length_keys, List.length_eq_zero_iff, List.eq_nil_iff_forall_not_mem]
      intro id hid
      have hhost := KeyedMap.contains_iff_mem_keys.2 hid
      obtain rfl := honly .host id hhost
      exact h.disjoint id h.root_router hhost
  · rintro ⟨hrouters, hhosts⟩
    have hnone : ∀ k, s.edgesTo k = [] := by
      intro k
      rw [← List.length_eq_zero_iff]
      cases k with
      | router => rw [h.length_edgesTo_router, hrouters]
      | host => rw [h.length_edgesTo_host, hhosts]
    rw [List.eq_nil_iff_forall_not_mem]
    intro n hn
    have hmem : (root, n) ∈ s.edgesTo n.kind := mem_edgesTo_iff.2 ⟨hn, rfl⟩
    rw [hnone] at hmem
    cases hmem

/-! ## The wires of one router -/

/-- The wires for the entries of a router, in order. -/
def wiresOf (s : Snapshot) (c : Cabling) (id : NodeId) : List Wire :=
  (s.wiring c).filter fun w => w.router = id

theorem mem_wiresOf_iff {id : NodeId} {w : Wire} :
    w ∈ s.wiresOf c id ↔ w ∈ s.wiring c ∧ w.router = id := by
  simp [wiresOf]

/-- The entries of a router among all entries. -/
theorem filter_edges (s : Snapshot) (id : NodeId) :
    s.edges.filter (fun e => e.1 = id) = (s.neighbors id).map fun n => (id, n) := by
  have hrouter : ∀ e ∈ s.routers.entries, ∀ d ∈ e.2.neighbors.map fun n => (e.1, n), d.1 = e.1 := by
    intro e _ d hd
    obtain ⟨n, -, rfl⟩ := List.mem_map.1 hd
    rfl
  rw [edges, KeyedMap.filter_flatMap_entries hrouter, neighbors]
  cases s.routers.get? id <;> rfl

section Wires

variable (h : s.place c o = .ok (p, ws))

include h

theorem map_edge_wiring : (s.wiring c).map Wire.edge = s.edges := by
  obtain ⟨st, -, hl, -, -⟩ := routed_of_place h
  exact hl.map_edge_wiring

theorem mem_neighbors_of_mem_wiring {w : Wire} (hw : w ∈ s.wiring c) :
    w.neighbor ∈ s.neighbors w.router := by
  obtain ⟨st, -, hl, -, -⟩ := routed_of_place h
  exact hl.mem_neighbors_of_mem_wiring hw

theorem mem_portsOf {w : Wire} {id : NodeId} {port : Port} (hw : w ∈ s.wiring c)
    (hid : s.routers.contains id = true) (hport : port ∈ w.portsAt id) : port ∈ p.portsOf id := by
  obtain ⟨st, -, hl, -, rfl⟩ := routed_of_place h
  rw [hl.portsOf_eq hid]
  exact List.mem_flatMap.2 ⟨w, hw, hport⟩

/-- A router has its own port of every wire for its entries. -/
theorem near_mem_portsOf {w : Wire} (hw : w ∈ s.wiring c) : w.cable.near ∈ p.portsOf w.router := by
  apply mem_portsOf h hw (contains_of_mem_neighbors (mem_neighbors_of_mem_wiring h hw))
  simp [Wire.portsAt]

/-- The wires of a router carry its entries. -/
theorem map_neighbor_wiresOf (id : NodeId) :
    (s.wiresOf c id).map (·.neighbor) = s.neighbors id := by
  have hedges : (s.wiresOf c id).map Wire.edge = (s.neighbors id).map fun n => (id, n) := by
    rw [← filter_edges, ← map_edge_wiring h, List.filter_map]
    rfl
  have := congrArg (List.map Prod.snd) hedges
  simpa [Function.comp_def, Wire.edge] using this

/-- Only one wire leads to a node. -/
theorem wire_unique {v w : Wire} (hv : v ∈ s.wiring c) (hw : w ∈ s.wiring c)
    (hid : v.neighbor.id = w.neighbor.id) : v = w := by
  obtain ⟨st, hc, -, -, -⟩ := routed_of_place h
  have hnodup := hc.nodup
  rw [targets, ← map_edge_wiring h, List.map_map] at hnodup
  exact List.inj_on_of_nodup_map hnodup hv hw hid

/-- A host that an entry names has a record. -/
theorem exists_host_of_wire {w : Wire} (hw : w ∈ s.wiring c) (hk : w.neighbor.kind = .host) :
    ∃ host, s.hosts.get? w.neighbor.id = some host := by
  obtain ⟨st, hc, -, -, -⟩ := routed_of_place h
  have hhas := hc.has_of_mem_neighbors (mem_neighbors_of_mem_wiring h hw)
  rw [hk] at hhas
  exact KeyedMap.contains_iff_exists.1 hhas

/-! ## The catch-all route -/

theorem portsOf_root_of_place : p.portsOf p.root = s.ownPorts c p.root := by
  obtain ⟨st, hc, hl, -, hp⟩ := routed_of_place h
  have hports := hl.portsOf_root hc
  rwa [hp] at hports

/-- The root's catch-all route, if the options ask for one, is through the port of its first
entry. -/
theorem catchAll_root :
    o.catchAll p.root p.root (p.portsOf p.root) =
      if o.rootCatchAll = .firstPort then
        ((s.wiresOf c p.root).head?.map fun w => ⟨o.space, w.cable.near, .nextHop⟩).toList
      else [] := by
  rw [portsOf_root_of_place h, PlacementOptions.catchAll, ownPorts, List.head?_map, Option.map_map]
  cases o.rootCatchAll with
  | absent => simp
  | firstPort => simp [wiresOf, Function.comp_def]

/-- A router other than the root is reached by a loop from its parent, and that is where its
catch-all route leads. -/
theorem exists_loop_of_ne_root {id : NodeId} (hid : s.routers.contains id = true)
    (hne : id ≠ p.root) :
    ∃ w ∈ s.wiring c, ∃ l, w.neighbor.id = id ∧ w.cable = .loop l ∧
      p.portsOf id = l.far :: s.ownPorts c id ∧
      o.catchAll p.root id (p.portsOf id) = [⟨o.space, l.far, .nextHop⟩] := by
  obtain ⟨st, hc, hl, -, hp⟩ := routed_of_place h
  obtain ⟨w, hw, l, rfl, hcable⟩ := hl.exists_wire hc hid hne
  have hlt : w.router < w.neighbor.id := by
    apply ascending_of_place h w.router w.neighbor (mem_neighbors_of_mem_wiring h hw)
    rw [w.kind_eq, hcable]
    rfl
  have hports := hl.portsOf_of_wire hc hw hlt hcable
  rw [hp] at hports
  refine ⟨w, hw, l, rfl, hcable, hports, ?_⟩
  rw [hports, PlacementOptions.catchAll, if_neg fun hroot => hne hroot.1]
  rfl

/-- The warnings name the routers that are due a catch-all route and have no port for it. -/
theorem noPorts_mem_iff {id : NodeId} :
    .noPorts id ∈ ws ↔ s.routers.contains id = true ∧
      ¬(id = p.root ∧ o.rootCatchAll = .absent) ∧ p.portsOf id = [] := by
  have hasc := ascending_of_place h
  obtain ⟨root, st, -, hl, hwarned, rfl, rfl⟩ := place_induction h
    (PlacementState.warned_start s c o)
    (fun _ _ _ _ _ _ hs hl hwarned ha => hwarned.advance hl hasc hs ha)
  rw [hwarned id, hl.root_eq]
  refine and_congr_left fun _ => ⟨fun hmem => contains_router_of_mem_scan hmem, fun hid => ?_⟩
  exact catchAll_mem_scan hid

/-- Only the root of a snapshot of one node can be without a port. -/
theorem noPorts_mem_iff_single {id : NodeId} :
    .noPorts id ∈ ws ↔ id = p.root ∧ o.rootCatchAll = .firstPort ∧ s.routers.size = 1 ∧
      s.hosts.size = 0 := by
  obtain ⟨st, hc, -, -, -⟩ := routed_of_place h
  have hports : p.portsOf p.root = [] ↔ s.routers.size = 1 ∧ s.hosts.size = 0 := by
    rw [← hc.neighbors_root_eq_nil_iff, ← map_neighbor_wiresOf h, List.map_eq_nil_iff,
      portsOf_root_of_place h, ownPorts, List.map_eq_nil_iff]
    rfl
  have hoption : ¬o.rootCatchAll = .absent ↔ o.rootCatchAll = .firstPort := by
    cases o.rootCatchAll <;> simp
  rw [noPorts_mem_iff h]
  constructor
  · rintro ⟨hid, hdue, hnil⟩
    by_cases heq : id = p.root
    · subst heq
      exact ⟨rfl, hoption.1 fun habsent => hdue ⟨rfl, habsent⟩, hports.1 hnil⟩
    · obtain ⟨w, -, l, -, -, hcons, -⟩ := exists_loop_of_ne_root h hid heq
      rw [hcons] at hnil
      cases hnil
  · rintro ⟨rfl, hfirst, hsize⟩
    exact ⟨hc.root_router, fun hdue => hoption.2 hfirst hdue.2, hports.2 hsize⟩

/-- All routes of a placement that succeeds. The wires of a router carry its entries in order. It
has, wire by wire, the routes of its table on the egress of the entry, through its own port of the
cable, to the MAC of the host or the fixed one of routers. Then comes its catch-all route: through
the far port of the loop whose near port its parent has, and for the root, if the options ask for
one, through the port of its first entry. Only the root of a snapshot of one node can be warned
about. -/
theorem routes_of_place :
    s.validate = .ok p.root ∧
    p.routes.keys = s.routers.keys ∧
    (s.wiring c).map Wire.edge = s.edges ∧
    (∀ w ∈ s.wiring c, w.neighbor.kind = .host →
      ∃ host, s.hosts.get? w.neighbor.id = some host ∧ s.macOf w.neighbor = host.mac) ∧
    (∀ w ∈ s.wiring c, w.neighbor.kind = .router → s.macOf w.neighbor = .nextHop) ∧
    (∀ id r, s.routers.get? id = some r →
      (s.wiresOf c id).map (·.neighbor) = r.neighbors ∧
      ∃ catchAll, p.routesOf id =
        ((s.wiresOf c id).flatMap fun w =>
          (r.table.filter fun route => route.egress = w.neighbor.egress).map fun route =>
            ⟨route.subnet, w.cable.near, s.macOf w.neighbor⟩) ++ catchAll ∧
        (id ≠ p.root → ∃ w ∈ s.wiring c, ∃ l, w.neighbor.id = id ∧ w.cable = .loop l ∧
          l.near ∈ p.portsOf w.router ∧ (∀ v ∈ s.wiring c, v.neighbor.id = id → v = w) ∧
          catchAll = [⟨o.space, l.far, .nextHop⟩]) ∧
        (id = p.root → catchAll =
          if o.rootCatchAll = .firstPort then
            ((s.wiresOf c p.root).head?.map fun w => ⟨o.space, w.cable.near, .nextHop⟩).toList
          else [])) ∧
    ∀ id, .noPorts id ∈ ws ↔ id = p.root ∧ o.rootCatchAll = .firstPort ∧ s.routers.size = 1 ∧
      s.hosts.size = 0 := by
  refine ⟨?_, routes_keys_of_place h, map_edge_wiring h, fun w hw hk => ?_,
    fun w hw hk => macOf_router hk, fun id r hr => ⟨?_, ?_⟩, fun id => noPorts_mem_iff_single h⟩
  · obtain ⟨st, hc, -, -, -⟩ := routed_of_place h
    exact validate_eq_ok_iff_checked.2 hc
  · obtain ⟨host, hhost⟩ := exists_host_of_wire h hw hk
    exact ⟨host, hhost, macOf_host hk hhost⟩
  · rw [map_neighbor_wiresOf h, neighbors_of_get? hr]
  · have hid := KeyedMap.contains_iff_exists.2 ⟨r, hr⟩
    refine ⟨_, (routesOf_place h hid).trans (congrArg (· ++ _) ?_), fun hne => ?_, fun heq => ?_⟩
    · refine List.flatMap_congr fun w hw => ?_
      rw [Wire.routes_of_get? ((mem_wiresOf_iff.1 hw).2 ▸ hr)]
      rfl
    · obtain ⟨w, hw, l, rfl, hcable, -, hcatch⟩ := exists_loop_of_ne_root h hid hne
      have hnear := near_mem_portsOf h hw
      rw [hcable] at hnear
      exact ⟨w, hw, l, rfl, hcable, hnear, fun v hv hvid => wire_unique h hv hw hvid, hcatch⟩
    · subst heq
      exact catchAll_root h

end Wires

/-- Router 1 above router 2 and host 3, both on egress 2. The table of router 1 is not sorted, and
one of its routes is on no entry's egress. -/
def forked : Snapshot where
  routers := .ofList [
    (1, ⟨"upper", standardSubnet 0, [⟨2, 2, .router⟩, ⟨2, 3, .host⟩],
      [⟨2, standardSubnet 2⟩, ⟨1, standardSubnet 3⟩, ⟨2, standardSubnet 1⟩]⟩),
    (2, ⟨"lower", standardSubnet 1, [], []⟩)]
  hosts := .ofList [(3, (Host.ofNet 3 (standardSubnet 2)).record)]

theorem checked_forked : forked.Checked 1 where
  disjoint := disjoint_of_find?_eq_none (by decide)
  known := by decide
  nodup := by decide
  roots := by decide
  reached k id hk := by
    have hrouters : forked.routers.keys = [1, 2] := by decide
    have hhosts : forked.hosts.keys = [3] := by decide
    cases k with
    | router =>
      rw [has_router_iff, KeyedMap.contains_iff_mem_keys, hrouters] at hk
      rcases List.mem_cons.1 hk with rfl | hk
      · exact ⟨[], .nil 1⟩
      · rw [List.mem_singleton] at hk
        subst hk
        exact ⟨[0], .cons rfl (.nil 2)⟩
    | host =>
      rw [has_host_iff, KeyedMap.contains_iff_mem_keys, hhosts, List.mem_singleton] at hk
      subst hk
      exact ⟨[1], .cons rfl (.nil 3)⟩

/-- Both entries of router 1 get both routes on their egress. -/
theorem routes_of_place_forked :
    ∃ p ws, forked.place pairCabling ⟨AddressPlan.standard.space, .firstPort⟩ = .ok (p, ws) ∧
      p.routesOf 1 = [
        ⟨standardSubnet 2, 10, .nextHop⟩, ⟨standardSubnet 1, 10, .nextHop⟩,
        ⟨standardSubnet 2, 20, .ofHost 0x0A000201⟩,
        ⟨standardSubnet 1, 20, .ofHost 0x0A000201⟩,
        ⟨AddressPlan.standard.space, 10, .nextHop⟩] ∧
      p.routesOf 2 = [⟨AddressPlan.standard.space, 11, .nextHop⟩] := by
  obtain ⟨p, ws, h⟩ := exists_place_of_checked (c := pairCabling)
    (o := ⟨AddressPlan.standard.space, .firstPort⟩) checked_forked (by decide) (by decide)
    (by decide)
  obtain ⟨hroot, -, -, -, -, hroutes, -⟩ := routes_of_place h
  rw [validate_eq_ok_iff_checked.2 checked_forked, Except.ok.injEq] at hroot
  rw [← hroot] at hroutes
  refine ⟨p, ws, h, ?_, ?_⟩
  · obtain ⟨-, catchAll, heq, -, hcatch⟩ := hroutes 1 _ rfl
    rw [heq, hcatch rfl]
    decide
  · obtain ⟨-, catchAll, heq, hcatch, -⟩ := hroutes 2 _ rfl
    obtain ⟨w, hw, l, hid, hcable, -, -, rfl⟩ := hcatch (by decide)
    have hloop : ∀ w ∈ forked.wiring pairCabling, w.neighbor.id = 2 → w.cable = .loop ⟨10, 11⟩ := by
      decide
    obtain rfl := Cable.loop.inj (hcable.symm.trans (hloop w hw hid))
    rw [heq]
    decide

end Snapshot

end Overlay
