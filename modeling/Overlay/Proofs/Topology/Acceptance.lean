import Mathlib
import Overlay.Proofs.Placement.Outcome
import Overlay.Proofs.Snapshot.Document
import Overlay.Proofs.Snapshot.OfTree
import Overlay.Proofs.Topology.Generate

/-!
What is generated is accepted everywhere. The snapshot of a generated topology with filled tables
passes all checks, its document reads back, and it is placed as soon as there are enough cables
(`Topology.accepted_of_generate`): routers are numbered from the root down, so placing never comes
to a router before its parent.
-/

namespace Overlay

namespace Snapshot

variable {s : Snapshot} {c : Cabling} {o : PlacementOptions} {root : NodeId}

/-- Where routers name only routers with larger numbers, all that placing can run out of is
cables. -/
theorem exhausted_of_place_eq_error (hc : s.Checked root)
    (hasc : ∀ a, ∀ n ∈ s.neighbors a, n.kind = .router → a < n.id) {e : PlacementError}
    (h : s.place c o = .error e) :
    (∃ id n, e = .loopsExhausted id n) ∨ ∃ id n, e = .hostLinksExhausted id n := by
  obtain ⟨before, x, after, hs, hx, -⟩ :=
    (place_eq_error_iff (validate_eq_ok_iff_checked.2 hc)).1 h
  cases x with
  | uplink id =>
    have hmem : ScanStep.uplink id ∈ s.scan := hs ▸ List.mem_append_right _ List.mem_cons_self
    have hid : s.routers.contains id = true := contains_router_of_mem_scan hmem
    rw [failureAt_uplink hc hasc hid before] at hx
    cases hx
  | edge id r n =>
    cases hk : n.kind with
    | router =>
      simp only [failureAt, hk, Option.ite_none_right_eq_some, Option.some.injEq] at hx
      exact .inl ⟨id, n.id, hx.2.symm⟩
    | host =>
      simp only [failureAt, hk, Option.ite_none_right_eq_some, Option.some.injEq] at hx
      exact .inr ⟨id, n.id, hx.2.symm⟩
  | catchAll id => cases hx

end Snapshot

namespace Topology

variable {shape : Shape} {hops : Option UInt32} {p : AddressPlan} {t : Topology}

/-- The tree of a generated topology: its root has number 1, numbers are distinct, and routers have
smaller numbers than the routers below them. -/
theorem numbered_of_generate (h : generate shape hops p = .ok t) (hlt : p.capacity < 2 ^ 32) :
    t = .ofRoot t.root ∧ t.root.info.id = 1 ∧ t.root.toNode.Distinct ∧ t.root.toNode.Ascending := by
  obtain ⟨hroot, a, a', hcount, hadded⟩ := added_of_generate h
  have hbound : a'.allocated < 2 ^ 32 := hadded.built.allocated_le_capacity.trans_lt hlt
  have hid := hadded.id_eq
  rw [hcount] at hid
  exact ⟨hroot, hid, hadded.built.distinct (List.mem_singleton_self _), hadded.ascending hbound⟩

/-- The tool accepts what it generates. Provided that the plan has fewer than `2 ^ 32` subnets, so
that node numbers do not run out, the tables of a generated topology can be filled, and then its
snapshot is a tree below router 1, is read back from its document, and is placed on exactly the
cablings with a loop for every router but the root and a host link for every host. On others it is
cables that are missing, never anything about the snapshot. -/
theorem accepted_of_generate (h : generate shape hops p = .ok t) (hlt : p.capacity < 2 ^ 32) :
    ∃ t' s, t.synthesize = .ok t' ∧ s = Snapshot.ofTree t'.root ∧
      s.validate = .ok 1 ∧ Snapshot.parse? s.render = some s ∧
      ∀ (c : Cabling) (o : PlacementOptions),
        ((∃ res, s.place c o = .ok res) ↔
          s.routers.size - 1 ≤ c.loops.length ∧ s.hosts.size ≤ c.hostLinks.length) ∧
        ∀ e, s.place c o = .error e →
          (∃ id n, e = .loopsExhausted id n) ∨ ∃ id n, e = .hostLinksExhausted id n := by
  obtain ⟨hroot, hid, hdistinct, hasc⟩ := numbered_of_generate h hlt
  have hd : t.root.filled.toNode.Distinct := by
    rwa [Router.toNode_filled, Node.distinct_filled_iff]
  have hasc' : ∀ a, ∀ n ∈ (Snapshot.ofTree t.root.filled).neighbors a, n.kind = .router →
      a < n.id := by
    intro a n hn hk
    have hfilled := hasc.filled
    rw [← Router.toNode_filled] at hfilled
    exact Snapshot.lt_of_mem_neighbors_ofTree hd hfilled hn hk
  have hc : (Snapshot.ofTree t.root.filled).Checked 1 := hid ▸ Snapshot.checked_ofTree hd
  have hvalid := Snapshot.validate_eq_ok_iff_checked.2 hc
  refine ⟨⟨t.root.filled, true⟩, Snapshot.ofTree t.root.filled, ?_, rfl, hvalid,
    Snapshot.parse?_render _, fun c o => ⟨?_, fun e he => ?_⟩⟩
  · rw [hroot]
    exact synthesize_ofRoot t.root
  · rw [Snapshot.exists_place_iff hvalid, neverFails_iff hc]
    exact ⟨fun hall => ⟨hall.1, hall.2.1⟩, fun hall => ⟨hall.1, hall.2, hasc'⟩⟩
  · exact Snapshot.exhausted_of_place_eq_error hc hasc' he

open AddressPlan (standard standardSubnet)

/-- Routers 1, 2 and 3 in a chain from host 5 to host 4. -/
def chainRoot : Router :=
  ((Router.ofNet 1 (standardSubnet 0)).link
    ((Router.ofNet 2 (standardSubnet 1)).link
      ((Router.ofNet 3 (standardSubnet 2)).link
        (Host.ofNet 4 (standardSubnet 3))).toNode).toNode).link (Host.ofNet 5 (standardSubnet 4))

/-- Two loops and two host links are enough for a chain of three routers, one loop is not. -/
theorem accepted_of_generate_chain :
    generate .chain (some 3) standard = .ok (.ofRoot chainRoot) ∧ standard.capacity < 2 ^ 32 ∧
      ∃ s, s = Snapshot.ofTree chainRoot.filled ∧ s.validate = .ok 1 ∧
        Snapshot.parse? s.render = some s ∧
        (∃ res, s.place ⟨[⟨10, 11⟩, ⟨12, 13⟩], [⟨"a", 20⟩, ⟨"b", 21⟩]⟩ ⟨standard.space, .absent⟩ =
          .ok res) ∧
        ¬∃ res, s.place ⟨[⟨10, 11⟩], [⟨"a", 20⟩, ⟨"b", 21⟩]⟩ ⟨standard.space, .absent⟩ =
          .ok res := by
  have hgenerate : generate .chain (some 3) standard = .ok (.ofRoot chainRoot) := by rfl
  have hcapacity : standard.capacity < 2 ^ 32 := by decide
  obtain ⟨t', s, ht, rfl, hvalid, hparse, hplace⟩ := accepted_of_generate hgenerate hcapacity
  rw [synthesize_ofRoot, Except.ok.injEq] at ht
  subst ht
  refine ⟨hgenerate, hcapacity, _, rfl, hvalid, hparse, (hplace _ _).1.2 ⟨?_, ?_⟩, fun hres => ?_⟩
  · decide
  · decide
  · exact absurd ((hplace _ _).1.1 hres).1 (by decide)

end Topology

end Overlay
