import Mathlib
import Overlay.Proofs.Placement.Outcome

/-!
The ports that a successful placement gives out. They are those of the wiring, so every router gets
the far port of the loop to its parent first and then the near ports of its own entries
(`portsOf_root`, `portsOf_of_wire`); together they are the ports of the cables in use
(`perm_ports`). Cables behind those in use change nothing (`place_more`), so these alone determine
the placement.
-/

namespace Overlay

/-! ## The cables of a wiring -/

/-- All ports of a cable. -/
def Cable.ports (x : Cable) : List Port :=
  x.near :: x.far?.toList

namespace Wire

/-- The entry and the loop of a wire to a router. -/
def onLoop? (w : Wire) : Option ((NodeId × NeighborRef) × Loop) :=
  w.cable.loop?.map fun l => (w.edge, l)

/-- The entry and the host link of a wire to a host. -/
def onHostLink? (w : Wire) : Option ((NodeId × NeighborRef) × HostLink) :=
  w.cable.hostLink?.map fun l => (w.edge, l)

/-- The entries of a kind pair up with the cables of this kind, if these come in order. -/
theorem map_edge_cable (k : Kind) (ws : List Wire) (more : List Cable) :
    ((ws.filter fun w => w.cable.kind = k).map fun w => (w.edge, w.cable)) =
      ((ws.map edge).filter fun e => e.2.kind = k).zip (cables k ws ++ more) := by
  induction ws with
  | nil => rfl
  | cons w ws ih =>
    have hkind : w.edge.2.kind = w.cable.kind := w.kind_eq
    rw [cables] at ih ⊢
    by_cases hk : w.cable.kind = k <;> simp [hkind, hk, ih]

/-- If the cables of a kind are those with a content of type `β`, the entries pair up with the
contents as they do with the cables. -/
theorem filterMap_of_map_edge_cable {β : Type} (content? : Cable → Option β) (cable : β → Cable)
    {k : Kind} (hcontent : ∀ b, content? (cable b) = some b)
    (hnone : ∀ x, x.kind ≠ k → content? x = none) {ws : List Wire}
    {es : List (NodeId × NeighborRef)} {bs : List β}
    (h : ((ws.filter fun w => w.cable.kind = k).map fun w => (w.edge, w.cable)) =
      es.zip (bs.map cable)) :
    (ws.filterMap fun w => (content? w.cable).map fun b => (w.edge, b)) = es.zip bs := by
  have hleft : ∀ w ∈ ws, ((content? w.cable).map fun b => (w.edge, b)) =
      if w.cable.kind = k then (content? w.cable).map fun b => (w.edge, b) else none := by
    intro w _
    split
    case isTrue => rfl
    case isFalse hk => rw [hnone _ hk, Option.map_none]
  have hright : ∀ x ∈ es.zip bs, (content? (cable x.2)).map (fun b => (x.1, b)) = some x := by
    intro x _
    rw [hcontent, Option.map_some]
  calc ws.filterMap fun w => (content? w.cable).map fun b => (w.edge, b)
    _ = (ws.filter fun w => w.cable.kind = k).filterMap
        fun w => (content? w.cable).map fun b => (w.edge, b) := by
      rw [List.filterMap_filter]
      simpa using List.filterMap_congr hleft
    _ = (es.zip (bs.map cable)).filterMap fun x => (content? x.2).map fun b => (x.1, b) := by
      rw [← h, List.filterMap_map]
      rfl
    _ = (es.zip bs).filterMap some := by
      rw [List.zip_map_right, List.filterMap_map]
      exact List.filterMap_congr hright
    _ = es.zip bs := List.filterMap_some

/-- The ports of all wires are those of the cables, kind by kind. -/
theorem perm_flatMap_ports (ws : List Wire) :
    (ws.flatMap (·.cable.ports)).Perm
      ((cables .router ws).flatMap Cable.ports ++ (cables .host ws).flatMap Cable.ports) := by
  have hhost : cables .host ws =
      (ws.map (·.cable)).filter fun x => !decide (x.kind = .router) :=
    List.filter_congr fun x _ => by cases x <;> rfl
  have hsplit := List.filter_append_perm (fun x : Cable => x.kind = .router) (ws.map (·.cable))
  rw [cables, hhost, ← List.flatMap_append, ← List.flatMap_map]
  exact (hsplit.flatMap_right _).symm

end Wire

/-! ## The ports of one router -/

namespace Snapshot

variable {s : Snapshot} {c : Cabling} {o : PlacementOptions} {root : NodeId}
  {p : Placement} {ws : List PlacementWarning}

/-- Entries stand by ascending router. -/
theorem pairwise_edges (s : Snapshot) : s.edges.Pairwise fun d e => ¬e.1 < d.1 := by
  rw [edges, List.pairwise_flatMap]
  refine ⟨fun e _ => ?_, s.routers.sorted.imp ?_⟩
  · rw [List.pairwise_map]
    exact List.pairwise_of_forall fun _ _ => Key.irrefl _
  · intro d e hlt x hx y hy hyx
    obtain ⟨_, -, rfl⟩ := List.mem_map.1 hx
    obtain ⟨_, -, rfl⟩ := List.mem_map.1 hy
    exact Key.irrefl _ (Key.trans hlt hyx)

/-- What holds at the start of a placement that succeeds, and is kept by each of its steps, holds at
its end. -/
theorem place_induction (h : s.place c o = .ok (p, ws))
    {I : NodeId → List ScanStep → PlacementState → Prop}
    (hstart : ∀ root, I root [] (s.startState c root))
    (hstep : ∀ root before x after st st', s.scan = before ++ x :: after →
      PlacementState.Laid s c root before st → I root before st → st.Advances s o x st' →
      I root (before ++ [x]) st') :
    ∃ root st, s.validate = .ok root ∧ PlacementState.Laid s c root s.scan st ∧
      I root s.scan st ∧ st.placement = p ∧ st.warnings = ws := by
  rcases hv : s.validate with e | root
  · rw [place_eq_error_of_validate hv] at h
    cases h
  · rw [place_eq_of_validate hv, Result.bind_eq_ok_iff] at h
    obtain ⟨st, hrun, h⟩ := h
    cases h
    have hinv := Result.foldlM_induction
      (I := fun steps st => PlacementState.Laid s c root steps st ∧ I root steps st)
      (fun before x after st st' hs hI hx =>
        have ha := PlacementState.advances_of_scanStep hx
        ⟨hI.1.advance ha, hstep root before x after st st' hs hI.1 hI.2 ha⟩)
      ⟨PlacementState.laid_start s c root, hstart root⟩ hrun
    exact ⟨root, st, rfl, hinv.1, hinv.2, rfl, rfl⟩

/-- A placement that succeeds is laid out by the wiring. -/
theorem laid_of_place (h : s.place c o = .ok (p, ws)) :
    ∃ root st, s.validate = .ok root ∧ PlacementState.Laid s c root s.scan st ∧
      st.placement = p ∧ st.warnings = ws := by
  obtain ⟨root, st, hv, hl, -, hp, hws⟩ := place_induction h (I := fun _ _ _ => True)
    (fun _ => trivial) (fun _ _ _ _ _ _ _ _ _ _ => trivial)
  exact ⟨root, st, hv, hl, hp, hws⟩

end Snapshot

namespace PlacementState.Laid

variable {s : Snapshot} {c : Cabling} {root : NodeId} {st : PlacementState}
  (hl : Laid s c root s.scan st) (hc : s.Checked root)

include hl

theorem map_edge_wiring : (s.wiring c).map Wire.edge = s.edges := by
  rw [← Snapshot.wires_scan, hl.edges, Snapshot.edgesIn_scan]

theorem mem_neighbors_of_mem_wiring {w : Wire} (hw : w ∈ s.wiring c) :
    w.neighbor ∈ s.neighbors w.router := by
  rw [← Snapshot.mem_edges_iff, ← hl.map_edge_wiring]
  exact List.mem_map_of_mem hw

/-- The entries of a kind and the cables of this kind pair up in order. -/
theorem map_edge_cable_wiring (k : Kind) :
    (((s.wiring c).filter fun w => w.cable.kind = k).map fun w => (w.edge, w.cable)) =
      (s.edgesTo k).zip (c.cables k) := by
  rw [Wire.map_edge_cable k _ (st.cabling.cables k), hl.map_edge_wiring, hl.cables,
    Snapshot.wires_scan]
  rfl

theorem portsOf_eq {id : NodeId} (hid : s.routers.contains id = true) :
    st.placement.portsOf id = (s.wiring c).flatMap (Wire.portsAt id) := by
  rw [hl.ports id (KeyedMap.contains_iff_mem_keys.1 hid), Snapshot.wires_scan]

end PlacementState.Laid

/-- The ports of a router on its side of the wires for its own entries, in order. -/
def Snapshot.ownPorts (s : Snapshot) (c : Cabling) (id : NodeId) : List Port :=
  ((s.wiring c).filter fun w => w.router = id).map (·.cable.near)

/-- From wires that do not lead to a router it gets the ports of its own entries. -/
theorem Wire.flatMap_portsAt_of_not_target {id : NodeId} {ws : List Wire}
    (h : ∀ w ∈ ws, w.neighbor.id ≠ id) :
    ws.flatMap (Wire.portsAt id) = (ws.filter fun w => w.router = id).map (·.cable.near) := by
  induction ws with
  | nil => rfl
  | cons w ws ih =>
    have hw := h w List.mem_cons_self
    rw [List.flatMap_cons, ih fun v hv => h v (List.mem_cons_of_mem _ hv)]
    by_cases hid : w.router = id <;> simp [Wire.portsAt, hid, hw]

namespace PlacementState.Laid

variable {s : Snapshot} {c : Cabling} {root : NodeId} {st : PlacementState}
  (hl : Laid s c root s.scan st) (hc : s.Checked root)

include hl hc

/-- The root gets the ports of its own entries. -/
theorem portsOf_root : st.placement.portsOf root = s.ownPorts c root := by
  rw [hl.portsOf_eq hc.root_router]
  exact Wire.flatMap_portsAt_of_not_target fun w hw =>
    hc.id_ne_root (hl.mem_neighbors_of_mem_wiring hw)

/-- A router below another one gets the far port of its parent's wire and then the ports of its own
entries, since these come after the parent's. -/
theorem portsOf_of_wire {w : Wire} {l : Loop} (hw : w ∈ s.wiring c) (hlt : w.router < w.neighbor.id)
    (hcable : w.cable = .loop l) :
    st.placement.portsOf w.neighbor.id = l.far :: s.ownPorts c w.neighbor.id := by
  obtain ⟨before, after, hsplit⟩ := List.append_of_mem hw
  have hedges := hl.map_edge_wiring
  rw [hsplit, List.map_append, List.map_cons] at hedges
  have hnodup : ((before ++ w :: after).map (·.neighbor.id)).Nodup := by
    have := hc.nodup
    rw [Snapshot.targets, ← hl.map_edge_wiring, List.map_map, hsplit] at this
    exact this
  rw [List.map_append, List.map_cons, List.nodup_append, List.nodup_cons] at hnodup
  have hbefore : ∀ v ∈ before, v.neighbor.id ≠ w.neighbor.id := fun v hv =>
    hnodup.2.2 _ (List.mem_map_of_mem hv) _ List.mem_cons_self
  have hafter : ∀ v ∈ after, v.neighbor.id ≠ w.neighbor.id := fun v hv heq =>
    hnodup.2.1.1 (heq ▸ List.mem_map_of_mem hv)
  have hrouter : ∀ v ∈ before, v.router ≠ w.neighbor.id := by
    rintro v hv heq
    have hpair := s.pairwise_edges
    rw [← hedges, List.pairwise_append] at hpair
    refine hpair.2.2 _ (List.mem_map_of_mem hv) w.edge List.mem_cons_self ?_
    change w.router < v.router
    rwa [heq]
  have hown : (before.filter fun v => v.router = w.neighbor.id) = [] :=
    List.filter_eq_nil_iff.2 fun v hv => by simpa using hrouter v hv
  have hne : w.router ≠ w.neighbor.id := fun heq => Key.irrefl _ (heq ▸ hlt)
  have hrouter' : s.routers.contains w.neighbor.id = true := by
    have := hc.has_of_mem_neighbors (hl.mem_neighbors_of_mem_wiring hw)
    rwa [w.kind_eq, hcable] at this
  rw [hl.portsOf_eq hrouter', Snapshot.ownPorts, hsplit, List.flatMap_append, List.flatMap_cons,
    Wire.flatMap_portsAt_of_not_target hbefore, Wire.flatMap_portsAt_of_not_target hafter,
    List.filter_append, hown, List.filter_cons_of_neg (by simpa using hne)]
  simp [Wire.portsAt, hne, hcable, Cable.far?]

/-- The wire to a router other than the root. -/
theorem exists_wire {id : NodeId} (hid : s.routers.contains id = true) (hne : id ≠ root) :
    ∃ w ∈ s.wiring c, ∃ l, w.neighbor.id = id ∧ w.cable = .loop l := by
  obtain ⟨a, n, hn, rfl, hkind⟩ := hc.exists_parent (Snapshot.has_router_iff.2 hid) hne
  have hmem : (a, n) ∈ (s.wiring c).map Wire.edge := by
    rw [hl.map_edge_wiring]
    exact Snapshot.mem_edges_iff.2 hn
  obtain ⟨w, hw, hwe⟩ := List.mem_map.1 hmem
  cases hwe
  have hkind' := w.kind_eq.symm.trans hkind
  rcases hcable : w.cable with l | l
  · exact ⟨w, hw, l, rfl, hcable⟩
  · rw [hcable] at hkind'
    cases hkind'

end PlacementState.Laid

/-! ## All ports -/

namespace Wire

/-- What all routers together get from a wire are the ports of its cable. -/
theorem perm_portsAt {ks : List NodeId} (hnodup : ks.Nodup) {w : Wire} (hrouter : w.router ∈ ks)
    (hneighbor : w.neighbor.kind = .router → w.neighbor.id ∈ ks) :
    (ks.flatMap fun id => w.portsAt id).Perm w.cable.ports := by
  refine (List.flatMap_append_perm ks _ _).symm.trans ?_
  rw [Lists.flatMap_if_eq hnodup hrouter]
  rcases hcable : w.cable with l | l
  · have hkind := w.kind_eq
    rw [hcable] at hkind
    rw [Lists.flatMap_if_eq hnodup (hneighbor hkind)]
    rfl
  · simp [Cable.ports, Cable.far?]

theorem perm_flatMap_portsAt {ks : List NodeId} (hnodup : ks.Nodup) {ws : List Wire}
    (h : ∀ w ∈ ws, w.router ∈ ks ∧ (w.neighbor.kind = .router → w.neighbor.id ∈ ks)) :
    (ks.flatMap fun id => ws.flatMap (portsAt id)).Perm (ws.flatMap (·.cable.ports)) := by
  induction ws with
  | nil => simp
  | cons w ws ih =>
    have hw := h w List.mem_cons_self
    have hrest := ih fun v hv => h v (List.mem_cons_of_mem _ hv)
    simp only [List.flatMap_cons]
    exact (List.flatMap_append_perm ks _ _).symm.trans
      ((perm_portsAt hnodup hw.1 hw.2).append hrest)

end Wire

theorem Placement.values_ports (p : Placement) :
    p.ports.values = p.ports.keys.map p.portsOf :=
  p.ports.values_eq_map_keys []

namespace PlacementState.Laid

variable {s : Snapshot} {c : Cabling} {root : NodeId} {st : PlacementState}
  (hl : Laid s c root s.scan st) (hc : s.Checked root)

include hl

/-- The cables of a kind in use are the first ones, one for each entry. -/
theorem cables_wiring (k : Kind) :
    Wire.cables k (s.wiring c) = (c.cables k).take (s.edgesTo k).length := by
  have hlen : (Wire.cables k (s.wiring c)).length = (s.edgesTo k).length := by
    rw [Wire.length_cables, hl.map_edge_wiring, List.countP_eq_length_filter]
    rfl
  rw [← hlen, hl.cables, Snapshot.wires_scan, List.take_left]

include hc

/-- The ports of all routers are those of the cables in use. -/
theorem perm_ports :
    st.placement.ports.values.flatten.Perm
      ((c.loops.take (s.routers.size - 1)).flatMap (fun l => [l.near, l.far]) ++
        (c.hostLinks.take s.hosts.size).map (·.port)) := by
  have hports : st.placement.ports.values.flatten =
      s.routers.keys.flatMap fun id => (s.wiring c).flatMap (Wire.portsAt id) := by
    rw [Placement.values_ports, hl.ports_keys, ← List.flatMap_def]
    exact List.flatMap_congr fun id hid =>
      hl.portsOf_eq (KeyedMap.contains_iff_mem_keys.2 hid)
  have hmem : ∀ w ∈ s.wiring c, w.router ∈ s.routers.keys ∧
      (w.neighbor.kind = .router → w.neighbor.id ∈ s.routers.keys) := by
    intro w hw
    have hn := hl.mem_neighbors_of_mem_wiring hw
    refine ⟨KeyedMap.contains_iff_mem_keys.1 (Snapshot.contains_of_mem_neighbors hn), ?_⟩
    intro hkind
    have hhas := hc.has_of_mem_neighbors hn
    rw [hkind] at hhas
    exact KeyedMap.contains_iff_mem_keys.1 hhas
  have hcables := Wire.perm_flatMap_ports (s.wiring c)
  rw [hl.cables_wiring, hl.cables_wiring, hc.length_edgesTo_router, hc.length_edgesTo_host]
    at hcables
  rw [hports]
  refine (Wire.perm_flatMap_portsAt s.routers.keys_nodup hmem).trans (hcables.trans ?_)
  rw [Cabling.cables, Cabling.cables, ← List.map_take, ← List.map_take, List.flatMap_map,
    List.flatMap_map, List.map_eq_flatMap]
  rfl

end PlacementState.Laid

/-! ## Cables that are not used -/

namespace PlacementState

/-- The state with further cables behind those that are left. -/
def more (loops : List Loop) (links : List HostLink) (st : PlacementState) : PlacementState :=
  { st with cabling := ⟨st.cabling.loops ++ loops, st.cabling.hostLinks ++ links⟩ }

variable {s : Snapshot} {o : PlacementOptions} {st st' : PlacementState} {x : ScanStep}
  {loops : List Loop} {links : List HostLink}

@[simp]
theorem more_placement (loops : List Loop) (links : List HostLink) (st : PlacementState) :
    (st.more loops links).placement = st.placement := rfl

theorem addCatchAll_more (o : PlacementOptions) (id : NodeId) (st : PlacementState) :
    (st.more loops links).addCatchAll o id = (st.addCatchAll o id).more loops links := by
  unfold addCatchAll
  rw [more_placement]
  split
  · rfl
  · cases st.placement.portsOf id <;> rfl

/-- A successful step does the same when there are further cables. -/
theorem Advances.more (h : st.Advances s o x st') :
    (st.more loops links).Advances s o x (st'.more loops links) := by
  cases h with
  | uplink h => exact .uplink h
  | loop hk hl => exact .loop hk (by rw [PlacementState.more, hl]; rfl)
  | hostLink hk hl hh => exact .hostLink hk (by rw [PlacementState.more, hl]; rfl) hh
  | catchAll =>
    rw [← addCatchAll_more]
    exact .catchAll

theorem foldlM_more {steps : List ScanStep} (h : steps.foldlM (scanStep s o) st = .ok st') :
    steps.foldlM (scanStep s o) (st.more loops links) = .ok (st'.more loops links) := by
  induction steps generalizing st with
  | nil =>
    cases h
    rfl
  | cons x steps ih =>
    rw [List.foldlM_cons, Result.bind_eq_ok_iff] at h ⊢
    obtain ⟨t, ht, h⟩ := h
    exact ⟨t.more loops links, (advances_of_scanStep ht).more.scanStep_eq, ih h⟩

end PlacementState

namespace Snapshot

variable {s : Snapshot} {c : Cabling} {o : PlacementOptions} {p : Placement}
  {ws : List PlacementWarning}

theorem startState_more (s : Snapshot) (c : Cabling) (root : NodeId) (loops : List Loop)
    (links : List HostLink) :
    s.startState ⟨c.loops ++ loops, c.hostLinks ++ links⟩ root =
      (s.startState c root).more loops links := rfl

/-- Cables behind those that suffice change nothing. -/
theorem place_more (h : s.place c o = .ok (p, ws)) (loops : List Loop) (links : List HostLink) :
    s.place ⟨c.loops ++ loops, c.hostLinks ++ links⟩ o = .ok (p, ws) := by
  rw [place_eq, Result.bind_eq_ok_iff] at h ⊢
  obtain ⟨root, hroot, h⟩ := h
  obtain ⟨st, hrun, h⟩ := Result.bind_eq_ok_iff.1 h
  refine ⟨root, hroot, Result.bind_eq_ok_iff.2 ⟨st.more loops links, ?_, h⟩⟩
  rw [startState_more]
  exact PlacementState.foldlM_more hrun

/-- Placing on the cables in use alone has the same result. -/
theorem place_take (h : s.place c o = .ok (p, ws)) :
    s.place ⟨c.loops.take (s.routers.size - 1), c.hostLinks.take s.hosts.size⟩ o = .ok (p, ws) := by
  obtain ⟨root, -, hv, -, -, -⟩ := laid_of_place h
  have hnever := (exists_place_iff (c := c) (o := o) hv).1 ⟨_, h⟩
  rw [neverFails_iff (validate_eq_ok_iff_checked.1 hv)] at hnever
  obtain ⟨⟨p', ws'⟩, h'⟩ : ∃ res, s.place
      ⟨c.loops.take (s.routers.size - 1), c.hostLinks.take s.hosts.size⟩ o = .ok res := by
    rw [exists_place_iff hv, neverFails_iff (validate_eq_ok_iff_checked.1 hv)]
    simpa using hnever
  have hmore := place_more h' (c.loops.drop (s.routers.size - 1)) (c.hostLinks.drop s.hosts.size)
  rw [List.take_append_drop, List.take_append_drop] at hmore
  rw [h', ← hmore, ← h]

/-- The cables in use alone determine a placement. -/
theorem place_of_take_eq {c' : Cabling} (h : s.place c o = .ok (p, ws))
    (hloops : c'.loops.take (s.routers.size - 1) = c.loops.take (s.routers.size - 1))
    (hlinks : c'.hostLinks.take s.hosts.size = c.hostLinks.take s.hosts.size) :
    s.place c' o = .ok (p, ws) := by
  have hmore := place_more (place_take h) (c'.loops.drop (s.routers.size - 1))
    (c'.hostLinks.drop s.hosts.size)
  rwa [← hloops, ← hlinks, List.take_append_drop, List.take_append_drop] at hmore

/-- The ports of a placement that succeeds. The entries take the cables of their kind in order. A
router has the far port of the loop to its parent, unless it is the root, and then the ports of its
own entries; all these are the ports of the cables in use, and other cables do not matter. -/
theorem ports_of_place (h : s.place c o = .ok (p, ws)) :
    s.validate = .ok p.root ∧
    (s.wiring c).map Wire.edge = s.edges ∧
    (s.wiring c).filterMap Wire.onLoop? = (s.edgesTo .router).zip c.loops ∧
    (s.wiring c).filterMap Wire.onHostLink? = (s.edgesTo .host).zip c.hostLinks ∧
    p.ports.keys = s.routers.keys ∧
    p.portsOf p.root = s.ownPorts c p.root ∧
    (∀ id ∈ s.routers.keys, id ≠ p.root →
      ∃ w ∈ s.wiring c, ∃ l, w.neighbor.id = id ∧ w.cable = .loop l ∧
        p.portsOf id = l.far :: s.ownPorts c id) ∧
    p.ports.values.flatten.Perm
      ((c.loops.take (s.routers.size - 1)).flatMap (fun l => [l.near, l.far]) ++
        (c.hostLinks.take s.hosts.size).map (·.port)) ∧
    ∀ c' : Cabling, c'.loops.take (s.routers.size - 1) = c.loops.take (s.routers.size - 1) →
      c'.hostLinks.take s.hosts.size = c.hostLinks.take s.hosts.size →
      s.place c' o = .ok (p, ws) := by
  obtain ⟨root, st, hv, hl, rfl, rfl⟩ := laid_of_place h
  have hc := validate_eq_ok_iff_checked.1 hv
  have hasc := ((neverFails_iff (c := c) hc).1 ((exists_place_iff hv).1 ⟨_, h⟩)).2.2
  rw [hl.root_eq]
  refine ⟨hv, hl.map_edge_wiring, ?_, ?_, hl.ports_keys, hl.portsOf_root hc, ?_, hl.perm_ports hc,
    fun c' => place_of_take_eq h⟩
  · refine Wire.filterMap_of_map_edge_cable Cable.loop? .loop (fun _ => rfl) (fun x hx => ?_)
      (hl.map_edge_cable_wiring .router)
    cases x with
    | loop l => exact absurd rfl hx
    | hostLink l => rfl
  · refine Wire.filterMap_of_map_edge_cable Cable.hostLink? .hostLink (fun _ => rfl)
      (fun x hx => ?_) (hl.map_edge_cable_wiring .host)
    cases x with
    | loop l => rfl
    | hostLink l => exact absurd rfl hx
  · intro id hid hne
    obtain ⟨w, hw, l, rfl, hcable⟩ := hl.exists_wire hc (KeyedMap.contains_iff_mem_keys.2 hid) hne
    have hkind : w.neighbor.kind = .router := by
      rw [w.kind_eq, hcable]
      rfl
    have hlt := hasc w.router w.neighbor (hl.mem_neighbors_of_mem_wiring hw) hkind
    exact ⟨w, hw, l, rfl, hcable, hl.portsOf_of_wire hc hw hlt hcable⟩

/-- Two loops and a host link. -/
def pairCabling : Cabling :=
  ⟨[⟨10, 11⟩, ⟨12, 13⟩], [⟨"h", 20⟩]⟩

theorem ports_of_place_pair :
    ∃ p ws, pair.place pairCabling ⟨AddressPlan.standard.space, .absent⟩ = .ok (p, ws) ∧
      p.portsOf 1 = [10, 20] ∧ p.portsOf 2 = [11] := by
  have hnever : Result.NeverFails (pair.failureAt pairCabling) pair.scan := by
    refine (neverFails_iff (validate_eq_ok_iff_checked.1 validate_pair)).2 ?_
    refine ⟨by decide, by decide, fun a n hn => ?_⟩
    have hasc : ∀ e ∈ pair.edges, e.2.kind = .router → e.1 < e.2.id := by decide
    exact hasc (a, n) (mem_edges_iff.2 hn)
  obtain ⟨⟨p, ws⟩, h⟩ := (exists_place_iff validate_pair).2 hnever
  obtain ⟨hroot, -, -, -, -, hupper, hlower, -, -⟩ := ports_of_place h
  rw [validate_pair, Except.ok.injEq] at hroot
  rw [← hroot] at hupper hlower
  refine ⟨p, ws, h, ?_, ?_⟩
  · rw [hupper]
    decide
  · obtain ⟨w, hw, l, hid, hcable, hports⟩ := hlower 2 (by decide) (by decide)
    have hloop : ∀ w ∈ pair.wiring pairCabling, w.neighbor.id = 2 → w.cable = .loop ⟨10, 11⟩ := by
      decide
    obtain rfl := Cable.loop.inj (hcable.symm.trans (hloop w hw hid))
    rw [hports]
    decide

end Snapshot

end Overlay
