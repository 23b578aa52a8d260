import Mathlib
import Overlay.Proofs.Placement.Wiring

/-!
What placing has done after some of its steps. `Advances` lists what a successful step does, one
case for each kind of step. `Laid` is the invariant: the cables used up, and the ports that each
router has got, are those of the wires for the steps so far. It holds before the first step
(`laid_start`), and every step keeps it (`Laid.advance`).
-/

namespace Overlay

/-! ## Steps that succeed -/

namespace PlacementState

/-- What a successful step does. -/
inductive Advances (s : Snapshot) (o : PlacementOptions) (st : PlacementState) :
    ScanStep → PlacementState → Prop
  | uplink {id : NodeId} (h : ¬(id ≠ st.placement.root ∧ st.placement.portsOf id = [])) :
    Advances s o st (.uplink id) st
  | loop {id : NodeId} {r : RouterRecord} {n : NeighborRef} {l : Loop} {more : Cabling}
    (hkind : n.kind = .router) (hl : st.cabling = more.push (.loop l)) :
    Advances s o st (.edge id r n) { st with
      cabling := more
      placement := ((st.placement.addPort id l.near).addPort n.id l.far).addRoutes id
        (r.routesVia n.egress l.near .nextHop) }
  | hostLink {id : NodeId} {r : RouterRecord} {n : NeighborRef} {l : HostLink} {more : Cabling}
    {host : HostRecord} (hkind : n.kind = .host) (hl : st.cabling = more.push (.hostLink l))
    (hhost : s.hosts.get? n.id = some host) :
    Advances s o st (.edge id r n) {
      placement := ((st.placement.addPort id l.port).addRoutes id
        (r.routesVia n.egress l.port host.mac)).setHost l.hostname host
      cabling := more
      warnings := st.warnings ++ st.placement.sharing l.hostname host }
  | catchAll {id : NodeId} : Advances s o st (.catchAll id) (st.addCatchAll o id)

variable {s : Snapshot} {o : PlacementOptions} {st st' : PlacementState} {x : ScanStep}

theorem advances_of_scanStep (h : st.scanStep s o x = .ok st') : st.Advances s o x st' := by
  cases x with
  | uplink id =>
    rw [scanStep] at h
    split at h
    · cases h
    · cases h
      exact .uplink ‹_›
  | edge id r n =>
    rw [scanStep, placeEdge] at h
    rcases hk : n.kind with _ | _ <;> simp only [hk] at h
    · rcases hl : st.cabling.loops with _ | ⟨l, ls⟩ <;> simp only [hl] at h
      · cases h
      · cases h
        exact .loop hk (congrArg (Cabling.mk · st.cabling.hostLinks) hl)
    · rcases hl : st.cabling.hostLinks with _ | ⟨l, ls⟩ <;> simp only [hl] at h
      · cases h
      · rcases hh : s.hosts.get? n.id with _ | host <;> simp only [hh] at h
        · cases h
        · cases h
          exact .hostLink hk (congrArg (Cabling.mk st.cabling.loops) hl) hh
  | catchAll id =>
    cases h
    exact .catchAll

theorem Advances.scanStep_eq (h : st.Advances s o x st') : st.scanStep s o x = .ok st' := by
  cases h with
  | uplink h => rw [scanStep, if_neg h]
  | loop hk hl => simp [scanStep, placeEdge, hk, hl, Cabling.push]
  | hostLink hk hl hh => simp [scanStep, placeEdge, hk, hl, hh, Cabling.push]
  | catchAll => rfl

@[simp]
theorem addCatchAll_cabling (o : PlacementOptions) (id : NodeId) (st : PlacementState) :
    (st.addCatchAll o id).cabling = st.cabling := by
  unfold addCatchAll
  split
  · rfl
  · split <;> rfl

@[simp]
theorem addCatchAll_root (o : PlacementOptions) (id : NodeId) (st : PlacementState) :
    (st.addCatchAll o id).placement.root = st.placement.root := by
  unfold addCatchAll
  split
  · rfl
  · split <;> rfl

@[simp]
theorem addCatchAll_ports (o : PlacementOptions) (id : NodeId) (st : PlacementState) :
    (st.addCatchAll o id).placement.ports = st.placement.ports := by
  unfold addCatchAll
  split
  · rfl
  · split <;> rfl

/-! ## The invariant -/

/-- After `steps`, the cables used up and the ports given out are those of the wires. -/
structure Laid (s : Snapshot) (c : Cabling) (root : NodeId) (steps : List ScanStep)
    (st : PlacementState) : Prop where
  root_eq : st.placement.root = root
  edges : (c.wires steps).map Wire.edge = edgesIn steps
  cabling : c = Wire.inFrontOf st.cabling (c.wires steps)
  ports_keys : st.placement.ports.keys = s.routers.keys
  ports : ∀ id ∈ s.routers.keys,
    st.placement.portsOf id = (c.wires steps).flatMap (Wire.portsAt id)

variable {c : Cabling} {root : NodeId} {steps : List ScanStep}

theorem laid_start (s : Snapshot) (c : Cabling) (root : NodeId) :
    Laid s c root [] (s.startState c root) where
  root_eq := rfl
  edges := rfl
  cabling := rfl
  ports_keys := KeyedMap.keys_map _ _
  ports id _ := Placement.portsOf_start root s id

/-- A step that is not about an entry needs no wire. -/
theorem wires_concat_of_none (hx : x.edge? = none) : c.wires (steps ++ [x]) = c.wires steps := by
  rw [Cabling.wires, edgesIn_append, edgesIn, edgesIn, List.filterMap_cons_none hx,
    List.filterMap_nil, List.append_nil]
  rfl

namespace Laid

variable (h : Laid s c root steps st)

include h

theorem edges_concat {w : Wire} (hx : x.edge? = some w.edge) :
    (c.wires steps ++ [w]).map Wire.edge = edgesIn (steps ++ [x]) := by
  rw [List.map_append, h.edges, edgesIn_append]
  simp [edgesIn, hx]

theorem cabling_concat {w : Wire} {more : Cabling}
    (hcabling : st.cabling = more.push w.cable) :
    c = Wire.inFrontOf more (c.wires steps ++ [w]) := by
  rw [Wire.inFrontOf_concat, ← hcabling, ← h.cabling]

/-- The cables of a kind are those in use and those that are left. -/
theorem cables (k : Kind) :
    c.cables k = Wire.cables k (c.wires steps) ++ st.cabling.cables k :=
  (congrArg (Cabling.cables · k) h.cabling).trans (Wire.cables_inFrontOf _ _ k)

/-- The step for an entry adds the wire that uses the next cable of its kind. -/
theorem wires_concat {w : Wire} {more : Cabling} (hx : x.edge? = some w.edge)
    (hcabling : st.cabling = more.push w.cable) :
    c.wires (steps ++ [x]) = c.wires steps ++ [w] :=
  Cabling.wires_eq (h.edges_concat hx) (h.cabling_concat hcabling)

theorem advance_of_wire {w : Wire} (hx : x.edge? = some w.edge)
    (hcabling : st.cabling = st'.cabling.push w.cable)
    (hroot : st'.placement.root = st.placement.root)
    (hkeys : st'.placement.ports.keys = st.placement.ports.keys)
    (hports : ∀ id ∈ s.routers.keys,
      st'.placement.portsOf id = st.placement.portsOf id ++ w.portsAt id) :
    Laid s c root (steps ++ [x]) st' := by
  have hw := h.wires_concat hx hcabling
  refine ⟨hroot.trans h.root_eq, ?_, ?_, hkeys.trans h.ports_keys, ?_⟩
  · rw [hw, h.edges_concat hx]
  · rw [hw]
    exact h.cabling_concat hcabling
  · intro id hid
    rw [hports id hid, hw, h.ports id hid, List.flatMap_append, List.flatMap_singleton]

theorem advance_of_none (hx : x.edge? = none) (hcabling : st'.cabling = st.cabling)
    (hroot : st'.placement.root = st.placement.root)
    (hports : st'.placement.ports = st.placement.ports) :
    Laid s c root (steps ++ [x]) st' := by
  have hw : c.wires (steps ++ [x]) = c.wires steps := wires_concat_of_none hx
  refine ⟨hroot.trans h.root_eq, ?_, ?_, ?_, ?_⟩
  · rw [hw, h.edges, edgesIn_append]
    simp [edgesIn, hx]
  · rw [hw, hcabling, ← h.cabling]
  · rw [hports, h.ports_keys]
  · intro id hid
    rw [hw, ← h.ports id hid, Placement.portsOf, hports]
    rfl

/-- Every successful step keeps the invariant. -/
theorem advance (ha : st.Advances s o x st') : Laid s c root (steps ++ [x]) st' := by
  cases ha with
  | uplink => exact h.advance_of_none rfl rfl rfl rfl
  | @loop id r n l more hk hl =>
    refine h.advance_of_wire (w := ⟨id, n, .loop l, hk⟩) rfl hl rfl ?_ ?_
    · simp [Placement.addRoutes]
    · intro m hm
      rw [← h.ports_keys] at hm
      rw [Placement.portsOf_addRoutes, Placement.portsOf_addPort _ (by simpa using hm),
        Placement.portsOf_addPort _ hm, List.append_assoc]
      rfl
  | @hostLink id r n l more host hk hl hh =>
    refine h.advance_of_wire (w := ⟨id, n, .hostLink l, hk⟩) rfl hl rfl ?_ ?_
    · simp [Placement.addRoutes, Placement.setHost]
    · intro m hm
      rw [← h.ports_keys] at hm
      rw [Placement.portsOf_setHost, Placement.portsOf_addRoutes, Placement.portsOf_addPort _ hm]
      simp [Wire.portsAt, Cable.near, Cable.far?]
  | catchAll => exact h.advance_of_none rfl (by simp) (by simp) (by simp)

end Laid

end PlacementState

end Overlay
