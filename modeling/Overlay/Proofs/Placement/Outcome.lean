import Mathlib
import Overlay.Proofs.Placement.Progress

/-!
When placing a snapshot fails, and with which error. `failureAt` says it of one step, given the
steps before it: a cable is missing if there are as many entries of its kind before as there are
cables, and an uplink if the parent has a larger number. On an accepted snapshot a step fails
exactly there (`scanStep_eq_error`, `exists_advances`), so placing ends with the first of these
errors; counting entries and routers then gives the condition for success.
-/

namespace Overlay

/-- Number of neighbor entries of a kind among some steps. -/
def entryCount (k : Kind) (steps : List ScanStep) : Nat :=
  (edgesIn steps).countP fun e => e.2.kind = k

/-- The error at a step of placing, given the steps before it. -/
def Snapshot.failureAt (s : Snapshot) (c : Cabling) (before : List ScanStep) :
    ScanStep → Option PlacementError
  | .uplink id =>
    if ∃ e ∈ s.edges, e.2.id = id ∧ id < e.1 then some (.uplinkMissing id) else none
  | .edge id _ n =>
    match n.kind with
    | .router =>
      if entryCount .router before = c.loops.length then some (.loopsExhausted id n.id) else none
    | .host =>
      if entryCount .host before = c.hostLinks.length then some (.hostLinksExhausted id n.id)
      else none
  | .catchAll _ => none

theorem mem_edgesIn_iff {steps : List ScanStep} {a : NodeId} {n : NeighborRef} :
    (a, n) ∈ edgesIn steps ↔ ∃ r, ScanStep.edge a r n ∈ steps := by
  rw [edgesIn, List.mem_filterMap]
  constructor
  · intro h
    obtain ⟨x, hx, hxe⟩ := h
    cases x with
    | edge id r m =>
      cases hxe
      exact ⟨r, hx⟩
    | uplink => cases hxe
    | catchAll => cases hxe
  · intro h
    obtain ⟨r, hr⟩ := h
    exact ⟨_, hr, rfl⟩

/-! ## The uplink check -/

section Uplink

variable {s : Snapshot} {root id : NodeId} {before after : List ScanStep}
  (hsplit : s.scan = before ++ .uplink id :: after)

include hsplit

theorem mem_neighbors_of_mem_before {a : NodeId} {n : NeighborRef} (h : (a, n) ∈ edgesIn before) :
    n ∈ s.neighbors a := by
  rw [← Snapshot.mem_edges_iff, ← Snapshot.edgesIn_scan, hsplit, edgesIn_append]
  exact List.mem_append_left _ h

/-- Before the uplink check of a router stand exactly the entries of smaller routers. -/
theorem mem_edgesIn_before_uplink_iff {a : NodeId} {n : NeighborRef} (hn : n ∈ s.neighbors a) :
    (a, n) ∈ edgesIn before ↔ a < id := by
  obtain ⟨hbefore, hafter⟩ := Snapshot.scan_precedes hsplit
  constructor
  · intro hmem
    obtain ⟨r, hr⟩ := mem_edgesIn_iff.1 hmem
    rcases hbefore _ hr with hlt | ⟨-, hrank⟩
    · exact hlt
    · exact absurd hrank (by simp [ScanStep.rank])
  · intro hlt
    have hmem : (a, n) ∈ edgesIn s.scan := by
      rw [Snapshot.edgesIn_scan]
      exact Snapshot.mem_edges_iff.2 hn
    rw [hsplit, edgesIn_append, List.mem_append] at hmem
    refine hmem.resolve_right fun hmem => ?_
    obtain ⟨r, hr⟩ := mem_edgesIn_iff.1 hmem
    simp only [List.mem_cons, reduceCtorEq, false_or] at hr
    rcases hafter _ hr with hgt | ⟨heq, -⟩
    · exact Key.irrefl _ (Key.trans hlt hgt)
    · exact Key.irrefl a (heq ▸ hlt : a < (ScanStep.edge a r n).router)

/-- At its uplink check a router has no port exactly if no entry before names it. -/
theorem PlacementState.Laid.portsOf_eq_nil_iff {c : Cabling} {st : PlacementState}
    (hc : s.Checked root) (hl : Laid s c root before st) (hid : s.routers.contains id = true) :
    st.placement.portsOf id = [] ↔ ∀ a n, (a, n) ∈ edgesIn before → n.id ≠ id := by
  have hedge : ∀ w ∈ c.wires before, (w.router, w.neighbor) ∈ edgesIn before := by
    intro w hw
    rw [← hl.edges]
    exact List.mem_map_of_mem hw
  rw [hl.ports id (KeyedMap.contains_iff_mem_keys.1 hid), List.flatMap_eq_nil_iff]
  constructor
  · rintro h a n hn rfl
    rw [← hl.edges] at hn
    obtain ⟨w, hw, hwe⟩ := List.mem_map.1 hn
    cases hwe
    have hkind := hc.kind_eq_of_has (mem_neighbors_of_mem_before hsplit (hedge w hw))
      (Snapshot.has_router_iff.2 hid)
    have := h w hw
    rcases hcable : w.cable with l | l
    · simp [Wire.portsAt, hcable, Cable.far?] at this
    · have := w.kind_eq.symm.trans hkind
      rw [hcable] at this
      cases this
  · intro h w hw
    have hne : w.neighbor.id ≠ id := h _ _ (hedge w hw)
    have hlt : w.router < id :=
      (mem_edgesIn_before_uplink_iff hsplit
        (mem_neighbors_of_mem_before hsplit (hedge w hw))).1 (hedge w hw)
    have hrouter : w.router ≠ id := fun heq => Key.irrefl id (heq ▸ hlt)
    simp [Wire.portsAt, hne, hrouter]

/-- A larger router names `id` exactly if `id` is not the root and no entry before names it. -/
theorem exists_larger_parent_iff (hc : s.Checked root) (hid : s.routers.contains id = true) :
    (∃ e ∈ s.edges, e.2.id = id ∧ id < e.1) ↔
      id ≠ root ∧ ∀ a n, (a, n) ∈ edgesIn before → n.id ≠ id := by
  constructor
  · intro hex
    obtain ⟨⟨p, m⟩, hm, rfl, hlt⟩ := hex
    rw [Snapshot.mem_edges_iff] at hm
    refine ⟨hc.id_ne_root hm, fun a n hn heq => ?_⟩
    obtain ⟨rfl, rfl⟩ := hc.parent_unique (mem_neighbors_of_mem_before hsplit hn) hm heq
    have := (mem_edgesIn_before_uplink_iff hsplit hm).1 hn
    exact Key.irrefl _ (Key.trans this hlt)
  · intro hex
    obtain ⟨hroot, hnone⟩ := hex
    obtain ⟨a, n, hn, rfl, -⟩ := hc.exists_parent (Snapshot.has_router_iff.2 hid) hroot
    refine ⟨(a, n), Snapshot.mem_edges_iff.2 hn, rfl, ?_⟩
    have hnot : ¬a < n.id := fun hlt =>
      hnone a n ((mem_edgesIn_before_uplink_iff hsplit hn).2 hlt) rfl
    rcases Key.trichotomy a n.id with h | h | h
    · exact absurd h hnot
    · exact absurd h.symm (hc.id_ne_router hn)
    · exact h

end Uplink

/-! ## The steps that fail -/

namespace PlacementState

variable {s : Snapshot} {c : Cabling} {o : PlacementOptions} {root : NodeId}
  {before after : List ScanStep} {st : PlacementState} {x : ScanStep}

/-- No cable of a kind is left if as many entries of this kind stand before as there are cables. -/
theorem Laid.cables_eq_nil_iff (hl : Laid s c root before st) (k : Kind) :
    st.cabling.cables k = [] ↔ entryCount k before = (c.cables k).length := by
  rw [hl.cables, List.length_append, Wire.length_cables, hl.edges, entryCount,
    ← List.length_eq_zero_iff]
  omega

theorem failureAt_edge_eq_none_iff {id : NodeId} {r : RouterRecord} {n : NeighborRef} :
    s.failureAt c before (.edge id r n) = none ↔
      entryCount n.kind before ≠ (c.cables n.kind).length := by
  cases hk : n.kind <;> simp [Snapshot.failureAt, hk, Cabling.cables]

section Step

variable (hc : s.Checked root) (hl : Laid s c root before st)
  (hsplit : s.scan = before ++ x :: after)

include hc hl hsplit

theorem scanStep_eq_error {e : PlacementError} (hf : s.failureAt c before x = some e) :
    st.scanStep s o x = .error e := by
  have hx : x ∈ s.scan := hsplit ▸ List.mem_append_right _ List.mem_cons_self
  cases x with
  | uplink id =>
    have hid := Snapshot.contains_router_of_mem_scan hx
    rw [Snapshot.failureAt] at hf
    split at hf
    · cases hf
      rename_i hex
      obtain ⟨hne, hnone⟩ := (exists_larger_parent_iff hsplit hc hid).1 hex
      rw [scanStep, if_pos ⟨hl.root_eq ▸ hne, (hl.portsOf_eq_nil_iff hsplit hc hid).2 hnone⟩]
    · cases hf
  | edge id r n =>
    cases hk : n.kind with
    | router =>
      simp only [Snapshot.failureAt, hk, Option.ite_none_right_eq_some,
        Option.some.injEq] at hf
      obtain ⟨hcount, rfl⟩ := hf
      have hnil := (hl.cables_eq_nil_iff .router).2 (hcount.trans (List.length_map _).symm)
      rw [Cabling.cables, List.map_eq_nil_iff] at hnil
      simp [scanStep, placeEdge, hk, hnil]
    | host =>
      simp only [Snapshot.failureAt, hk, Option.ite_none_right_eq_some,
        Option.some.injEq] at hf
      obtain ⟨hcount, rfl⟩ := hf
      have hnil := (hl.cables_eq_nil_iff .host).2 (hcount.trans (List.length_map _).symm)
      rw [Cabling.cables, List.map_eq_nil_iff] at hnil
      simp [scanStep, placeEdge, hk, hnil]
  | catchAll id => cases hf

theorem exists_advances (hf : s.failureAt c before x = none) : ∃ st', st.Advances s o x st' := by
  have hx : x ∈ s.scan := hsplit ▸ List.mem_append_right _ List.mem_cons_self
  cases x with
  | uplink id =>
    have hid := Snapshot.contains_router_of_mem_scan hx
    refine ⟨st, .uplink fun ⟨hne, hnil⟩ => ?_⟩
    rw [hl.root_eq] at hne
    have hex := (exists_larger_parent_iff hsplit hc hid).2
      ⟨hne, (hl.portsOf_eq_nil_iff hsplit hc hid).1 hnil⟩
    rw [Snapshot.failureAt, if_pos hex] at hf
    cases hf
  | edge id r n =>
    have hleft := mt (hl.cables_eq_nil_iff n.kind).1 (failureAt_edge_eq_none_iff.1 hf)
    obtain ⟨cable, more, hkind, hpush⟩ :=
      (st.cabling.cables_eq_nil_or_push n.kind).resolve_left hleft
    cases cable with
    | loop l => exact ⟨_, .loop hkind.symm hpush⟩
    | hostLink l =>
      have hhost : n.kind = .host := hkind.symm
      obtain ⟨hr, hn⟩ := Snapshot.edge_of_mem_scan hx
      rw [← Snapshot.neighbors_of_get? hr] at hn
      have hhas := hc.has_of_mem_neighbors hn
      rw [hhost, Snapshot.has_host_iff, KeyedMap.contains_iff_exists] at hhas
      obtain ⟨host, hget⟩ := hhas
      exact ⟨_, .hostLink hhost hpush hget⟩
  | catchAll id => exact ⟨_, .catchAll⟩

theorem exists_scanStep (hf : s.failureAt c before x = none) :
    ∃ st', st.scanStep s o x = .ok st' ∧ Laid s c root (before ++ [x]) st' := by
  obtain ⟨st', ha⟩ := exists_advances (o := o) hc hl hsplit hf
  exact ⟨st', ha.scanStep_eq, hl.advance ha⟩

end Step

end PlacementState

/-! ## The whole run -/

section Run

variable {s : Snapshot} {c : Cabling} {root : NodeId}

theorem entryCount_scan (s : Snapshot) (k : Kind) :
    entryCount k s.scan = (s.edgesTo k).length := by
  rw [entryCount, Snapshot.edgesIn_scan, Snapshot.edgesTo, List.countP_eq_length_filter]

theorem entryCount_append (k : Kind) (xs ys : List ScanStep) :
    entryCount k (xs ++ ys) = entryCount k xs + entryCount k ys := by
  rw [entryCount, edgesIn_append, List.countP_append]
  rfl

theorem entryCount_cons_edge {k : Kind} {id : NodeId} {r : RouterRecord} {n : NeighborRef}
    {steps : List ScanStep} (hk : n.kind = k) :
    entryCount k (.edge id r n :: steps) = entryCount k steps + 1 :=
  List.countP_cons_of_pos (by simpa using hk)

/-- Every number up to the number of entries of a kind is that of the entries before one of them. -/
theorem exists_entry_split {k : Kind} {m : Nat} {steps : List ScanStep}
    (h : m < entryCount k steps) :
    ∃ before id r n after, steps = before ++ .edge id r n :: after ∧ n.kind = k ∧
      entryCount k before = m := by
  have hcount : ∀ steps, entryCount k steps =
      steps.countP fun x => (x.edge?.map fun e => decide (e.2.kind = k)).getD false :=
    fun steps => List.countP_filterMap
  rw [hcount] at h
  obtain ⟨before, x, after, hsteps, hx, hm⟩ := Lists.exists_split_of_lt_countP h
  cases x with
  | edge id r n =>
    exact ⟨before, id, r, n, after, hsteps, by simpa [ScanStep.edge?] using hx, hcount before ▸ hm⟩
  | uplink id => simp [ScanStep.edge?] at hx
  | catchAll id => simp [ScanStep.edge?] at hx

/-- Where routers name only routers with larger numbers, each of them has its uplink in time. -/
theorem failureAt_uplink (hc : s.Checked root)
    (hasc : ∀ a, ∀ n ∈ s.neighbors a, n.kind = .router → a < n.id) {id : NodeId}
    (hid : s.routers.contains id = true) (before : List ScanStep) :
    s.failureAt c before (.uplink id) = none := by
  rw [Snapshot.failureAt, if_neg]
  intro hex
  obtain ⟨⟨a, n⟩, hn, rfl, hlt⟩ := hex
  rw [Snapshot.mem_edges_iff] at hn
  have hkind := hc.kind_eq_of_has hn (Snapshot.has_router_iff.2 hid)
  exact Key.irrefl _ (Key.trans hlt (hasc a n hn hkind))

/-- No step of placing an accepted snapshot fails exactly if there are enough cables and parents
have smaller numbers than the routers below them. -/
theorem neverFails_iff (hc : s.Checked root) :
    Result.NeverFails (s.failureAt c) s.scan ↔
      s.routers.size - 1 ≤ c.loops.length ∧ s.hosts.size ≤ c.hostLinks.length ∧
        ∀ a, ∀ n ∈ s.neighbors a, n.kind = .router → a < n.id := by
  rw [← hc.length_edgesTo_router, ← hc.length_edgesTo_host, ← entryCount_scan, ← entryCount_scan]
  constructor
  · intro h
    refine ⟨?_, ?_, ?_⟩
    · by_contra hlt
      obtain ⟨before, id, r, n, after, hs, hk, hm⟩ := exists_entry_split (Nat.lt_of_not_le hlt)
      have := h before _ after hs
      simp [Snapshot.failureAt, hk, hm] at this
    · by_contra hlt
      obtain ⟨before, id, r, n, after, hs, hk, hm⟩ := exists_entry_split (Nat.lt_of_not_le hlt)
      have := h before _ after hs
      simp [Snapshot.failureAt, hk, hm] at this
    · intro a n hn hk
      have hid : s.routers.contains n.id = true := by
        have := hc.has_of_mem_neighbors hn
        rwa [hk] at this
      obtain ⟨before, after, hs⟩ := List.append_of_mem (Snapshot.uplink_mem_scan hid)
      have hnone := h before _ after hs
      rw [Snapshot.failureAt, ite_eq_right_iff] at hnone
      rcases Key.trichotomy a n.id with hlt | heq | hgt
      · exact hlt
      · exact absurd heq.symm (hc.id_ne_router hn)
      · cases hnone ⟨(a, n), Snapshot.mem_edges_iff.2 hn, rfl, hgt⟩
  · rintro ⟨hloops, hlinks, hasc⟩ before x after hs
    cases x with
    | uplink id =>
      have hmem : ScanStep.uplink id ∈ s.scan := hs ▸ List.mem_append_right _ List.mem_cons_self
      exact failureAt_uplink hc hasc (Snapshot.contains_router_of_mem_scan hmem) before
    | edge id r n =>
      have hcount : entryCount n.kind before < entryCount n.kind s.scan := by
        rw [hs, entryCount_append, entryCount_cons_edge rfl]
        omega
      cases hk : n.kind <;> rw [hk] at hcount <;> simp only [Snapshot.failureAt, hk] <;>
        exact if_neg (by omega)
    | catchAll id => rfl

end Run

namespace Snapshot

open PlacementState

variable {s : Snapshot} {c : Cabling} {o : PlacementOptions} {root : NodeId}

/-- Placing a rejected snapshot ends with the reason for the rejection. -/
theorem place_eq_error_of_validate {e : SnapshotError} (h : s.validate = .error e) :
    s.place c o = .error (.snapshot e) := by
  rw [place_eq, h]
  rfl

theorem place_eq_of_validate (h : s.validate = .ok root) :
    s.place c o = s.scan.foldlM (scanStep s o) (s.startState c root) >>= fun st =>
      .ok (st.placement, st.warnings) := by
  rw [place_eq, h]
  rfl

/-- Placing an accepted snapshot ends with the first error. -/
theorem place_eq_error_iff {e : PlacementError} (h : s.validate = .ok root) :
    s.place c o = .error e ↔ Result.FirstFailure (s.failureAt c) s.scan e := by
  have hc := validate_eq_ok_iff_checked.1 h
  have hrun := Result.foldlM_eq_error_iff (e := e) (f := scanStep s o) (l := s.scan)
    (I := Laid s c root) (fun before x after st e hs hl hf => scanStep_eq_error hc hl hs hf)
    (fun before x after st hs hl hf => exists_scanStep hc hl hs hf) (laid_start s c root)
  rw [← hrun, place_eq_of_validate h, Result.bind_eq_error_iff]
  simp

theorem exists_place_iff (h : s.validate = .ok root) :
    (∃ res, s.place c o = .ok res) ↔ Result.NeverFails (s.failureAt c) s.scan := by
  have hc := validate_eq_ok_iff_checked.1 h
  have hrun := Result.foldlM_eq_ok_iff (f := scanStep s o) (l := s.scan)
    (I := Laid s c root) (fun before x after st e hs hl hf => scanStep_eq_error hc hl hs hf)
    (fun before x after st hs hl hf => exists_scanStep hc hl hs hf) (laid_start s c root)
  rw [← hrun, place_eq_of_validate h]
  simp only [Result.bind_eq_ok_iff]
  constructor
  · intro hex
    obtain ⟨_, st, hst, -⟩ := hex
    exact ⟨st, hst⟩
  · intro hex
    obtain ⟨st, hst⟩ := hex
    exact ⟨_, st, hst, rfl⟩

/-- A snapshot that passes all checks can be placed if the cabling is large enough and entries lead
to larger routers. -/
theorem exists_place_of_checked (hc : s.Checked root) (hloops : s.routers.size - 1 ≤ c.loops.length)
    (hlinks : s.hosts.size ≤ c.hostLinks.length)
    (hasc : ∀ e ∈ s.edges, e.2.kind = .router → e.1 < e.2.id) :
    ∃ p ws, s.place c o = .ok (p, ws) := by
  have hnever := (neverFails_iff (c := c) hc).2
    ⟨hloops, hlinks, fun a n hn => hasc (a, n) (mem_edges_iff.2 hn)⟩
  obtain ⟨⟨p, ws⟩, h⟩ := (exists_place_iff (validate_eq_ok_iff_checked.2 hc)).2 hnever
  exact ⟨p, ws, h⟩

/-- Placing succeeds exactly if the snapshot is accepted, there is a loop for every router but the
root and a host link for every host, and routers name only routers with larger numbers. If the
snapshot is rejected, the reason is the error. Otherwise the error is that of the first step that
fails, which is never the error for an unknown node. -/
theorem place_outcome (s : Snapshot) (c : Cabling) (o : PlacementOptions) :
    ((∃ res, s.place c o = .ok res) ↔
      (∃ root, s.validate = .ok root) ∧ s.routers.size - 1 ≤ c.loops.length ∧
        s.hosts.size ≤ c.hostLinks.length ∧
        ∀ a, ∀ n ∈ s.neighbors a, n.kind = .router → a < n.id) ∧
    (∀ e, s.validate = .error e → s.place c o = .error (.snapshot e)) ∧
    ∀ root, s.validate = .ok root →
      (∀ e, s.place c o = .error e ↔ Result.FirstFailure (s.failureAt c) s.scan e) ∧
        ∀ e, s.place c o ≠ .error (.snapshot e) := by
  refine ⟨?_, fun e h => place_eq_error_of_validate h, fun root h => ⟨fun e => ?_, fun e he => ?_⟩⟩
  · rcases h : s.validate with e | root
    · simp [place_eq_error_of_validate h]
    · rw [exists_place_iff h, neverFails_iff (validate_eq_ok_iff_checked.1 h)]
      simp
  · exact place_eq_error_iff h
  · obtain ⟨before, x, after, -, hx, -⟩ := (place_eq_error_iff h).1 he
    cases x with
    | uplink id => simp [failureAt] at hx
    | edge id r n => cases hk : n.kind <;> simp [failureAt, hk] at hx
    | catchAll id => simp [failureAt] at hx

theorem place_outcome_pair :
    pair.place ⟨[], [⟨"h", 20⟩]⟩ ⟨AddressPlan.standard.space, .absent⟩ =
      .error (.loopsExhausted 1 2) := by
  refine (((place_outcome _ _ _).2.2 1 validate_pair).1 _).2 ?_
  refine ⟨[.uplink 1], .edge 1 _ ⟨1, 2, .router⟩, _, rfl, rfl, ?_⟩
  intro before x after h
  obtain ⟨rfl, rfl⟩ : before = [] ∧ x = .uplink 1 := by
    rcases before with _ | ⟨y, before⟩
    · exact ⟨rfl, (List.cons.inj h).1.symm⟩
    · simp at h
  decide

end Snapshot

end Overlay
