import Mathlib
import Overlay.Proofs.Result
import Overlay.Proofs.Lists
import Overlay.Proofs.Snapshot.Walk

/-!
What the checks of a snapshot establish, one by one: numbers unique across kinds, every neighbor
known, no node named twice, one router that is nobody's neighbor, everything reached from it.
`Checked` collects them; `validate_eq_ok_iff_checked` says that a snapshot passes exactly if they
all hold.
-/

namespace Overlay.Snapshot

variable {s : Snapshot} {root : NodeId}

/-! ## Named neighbors -/

/-- The nodes that neighbor entries name, entry by entry. -/
def targets (s : Snapshot) : List NodeId :=
  s.edges.map (·.2.id)

theorem mem_targets_iff {id : NodeId} :
    id ∈ s.targets ↔ ∃ a, ∃ n ∈ s.neighbors a, n.id = id := by
  simp only [targets, List.mem_map, Prod.exists, mem_edges_iff]

theorem targets_eq_flatMap :
    s.targets = s.routers.entries.flatMap fun e => e.2.neighbors.map (·.id) := by
  simp [targets, edges, List.map_flatMap, Function.comp_def]

/-- If no node is named twice, then entries at different places name different nodes. -/
theorem position_unique_of_nodup (h : s.targets.Nodup) {a b : NodeId} {i j : Nat}
    {m n : NeighborRef} (hi : (s.neighbors a)[i]? = some m) (hj : (s.neighbors b)[j]? = some n)
    (hid : m.id = n.id) : a = b ∧ i = j := by
  obtain ⟨ra, hra⟩ :=
    KeyedMap.contains_iff_exists.1 (contains_of_mem_neighbors (List.mem_of_getElem? hi))
  obtain ⟨rb, hrb⟩ :=
    KeyedMap.contains_iff_exists.1 (contains_of_mem_neighbors (List.mem_of_getElem? hj))
  rw [neighbors_of_get? hra] at hi
  rw [neighbors_of_get? hrb] at hj
  rw [targets_eq_flatMap] at h
  obtain ⟨heq, hij⟩ := Lists.position_unique h (KeyedMap.get?_eq_some_iff.1 hra)
    (KeyedMap.get?_eq_some_iff.1 hrb) (x := m.id) (i := i) (j := j)
    (by rw [List.getElem?_map, hi, Option.map_some])
    (by rw [List.getElem?_map, hj, Option.map_some, hid])
  exact ⟨congrArg Prod.fst heq, hij⟩

theorem nodup_of_position_unique
    (h : ∀ (a b : NodeId) (i j : Nat) (m n : NeighborRef), (s.neighbors a)[i]? = some m →
      (s.neighbors b)[j]? = some n → m.id = n.id → a = b ∧ i = j) : s.targets.Nodup := by
  have hnb : ∀ e ∈ s.routers.entries, s.neighbors e.1 = e.2.neighbors := fun e he =>
    neighbors_of_get? (KeyedMap.get?_eq_some_iff.2 he)
  rw [targets_eq_flatMap, List.nodup_flatMap]
  refine ⟨fun e he => ?_, s.routers.sorted.imp_of_mem fun {d e} hd he hlt => ?_⟩
  · rw [List.nodup_iff_getElem?_ne_getElem?]
    intro i j hij hj heq
    rw [List.length_map, ← hnb e he] at hj
    have hi := List.getElem?_eq_getElem (hij.trans hj)
    have hj := List.getElem?_eq_getElem hj
    rw [← hnb e he] at heq
    simp only [List.getElem?_map, hi, hj, Option.map_some, Option.some.injEq] at heq
    exact absurd (h _ _ _ _ _ _ hi hj heq).2 (Nat.ne_of_lt hij)
  · intro id hmd hme
    obtain ⟨m, hm, rfl⟩ := List.mem_map.1 hmd
    obtain ⟨n, hn, hid⟩ := List.mem_map.1 hme
    rw [← hnb d hd] at hm
    rw [← hnb e he] at hn
    obtain ⟨i, hi⟩ := List.mem_iff_getElem?.1 hm
    obtain ⟨j, hj⟩ := List.mem_iff_getElem?.1 hn
    have hsame := (h _ _ _ _ _ _ hi hj hid.symm).1
    rw [hsame] at hlt
    exact Key.irrefl _ hlt

/-! ## The checks -/

theorem mem_roots_iff {id : NodeId} :
    id ∈ s.roots ↔ s.routers.contains id = true ∧ id ∉ s.targets := by
  simp [roots, targets, KeyedMap.contains_iff_mem_keys]

theorem roots_eq_singleton_iff :
    s.roots = [root] ↔ ∀ id, s.routers.contains id = true ∧ id ∉ s.targets ↔ id = root := by
  have hnodup : s.roots.Nodup := s.routers.keys_nodup.filter _
  rw [← List.perm_singleton, List.perm_ext_iff_of_nodup hnodup (List.nodup_singleton root)]
  simp only [mem_roots_iff, List.mem_singleton]

theorem root_eq_ok_iff : s.root = .ok root ↔ s.roots = [root] := by
  unfold Snapshot.root
  split <;> simp_all

theorem checkEdges_eq_ok_iff {parents : List (NodeId × NodeId)}
    {es : List (NodeId × NeighborRef)} :
    s.checkEdges parents es = .ok () ↔ (∀ e ∈ es, s.has e.2.kind e.2.id = true) ∧
      (es.map (·.2.id)).Nodup ∧ ∀ e ∈ es, parents.lookup e.2.id = none := by
  induction es generalizing parents with
  | nil => simp [checkEdges]
  | cons e es ih =>
    obtain ⟨a, n⟩ := e
    rw [checkEdges]
    by_cases hk : s.has n.kind n.id = true
    · rcases hp : parents.lookup n.id with _ | first
      · simp only [hk, Bool.not_true, Bool.false_eq_true, if_false, ih, List.forall_mem_cons,
          List.map_cons, List.nodup_cons, hp, true_and]
        -- nothing behind the first entry may name its node: now a lookup, there a membership
        have hcons : (∀ d ∈ es, List.lookup d.2.id ((n.id, a) :: parents) = none) ↔
            n.id ∉ es.map (·.2.id) ∧ ∀ d ∈ es, parents.lookup d.2.id = none := by
          simp only [List.lookup_cons, List.mem_map, not_exists, not_and, ← forall_and]
          refine forall₂_congr fun d _ => ?_
          by_cases hd : d.2.id = n.id
          · simp [hd]
          · simp [hd, beq_eq_false_iff_ne.2 hd]
        rw [hcons]
        tauto
      · simp only [hk, Bool.not_true, Bool.false_eq_true, if_false]
        refine iff_of_false (by simp) fun h => ?_
        have := h.2.2 (a, n) List.mem_cons_self
        rw [hp] at this
        cases this
    · simp [hk]

/-- What the checks of a snapshot establish if they find nothing. -/
structure Checked (s : Snapshot) (root : NodeId) : Prop where
  disjoint : ∀ id, s.routers.contains id = true → ¬s.hosts.contains id = true
  known : ∀ e ∈ s.edges, s.has e.2.kind e.2.id = true
  nodup : s.targets.Nodup
  roots : s.roots = [root]
  reached : ∀ k id, s.has k id = true → ∃ path, s.Walk root path id

theorem unreachable_eq_nil_iff :
    s.unreachable root = [] ↔ ∀ k id, s.has k id = true → ∃ path, s.Walk root path id := by
  simp only [unreachable, List.filter_eq_nil_iff, List.mem_append, Bool.not_eq_true',
    Bool.not_eq_false, List.contains_iff_mem, mem_reach_iff, ← KeyedMap.contains_iff_mem_keys]
  constructor
  · intro h k id hk
    cases k with
    | router => exact h id (.inl hk)
    | host => exact h id (.inr hk)
  · rintro h id (hr | hh)
    · exact h .router id hr
    · exact h .host id hh

/-- The checks in their order. -/
theorem validate_eq (s : Snapshot) :
    s.validate =
      match s.routers.keys.find? (fun id => s.hosts.contains id) with
      | some id => .error (.duplicateId id)
      | none => s.checkEdges [] s.edges >>= fun _ => s.root >>= fun root =>
        if s.unreachable root = [] then .ok root
        else .error (.unreachable (s.unreachable root)) := by
  unfold validate
  rcases s.routers.keys.find? fun id => s.hosts.contains id with _ | id
  · dsimp only
    congr 1
    funext _
    congr 1
    funext root
    rcases s.unreachable root with _ | ⟨m, ms⟩ <;> rfl
  · rfl

theorem disjoint_of_find?_eq_none
    (h : (s.routers.keys.find? fun id => s.hosts.contains id) = none) (id : NodeId)
    (hid : s.routers.contains id = true) : ¬s.hosts.contains id = true :=
  List.find?_eq_none.1 h id (KeyedMap.contains_iff_mem_keys.1 hid)

/-- A snapshot is accepted with a root exactly if every check is passed. -/
theorem validate_eq_ok_iff_checked : s.validate = .ok root ↔ s.Checked root := by
  rw [validate_eq]
  rcases hd : s.routers.keys.find? (fun id => s.hosts.contains id) with _ | id
  · have hdisj := disjoint_of_find?_eq_none hd
    simp only [Result.bind_eq_ok_iff, root_eq_ok_iff]
    constructor
    · intro hex
      obtain ⟨_, hedges, r, hroots, hreach⟩ := hex
      obtain ⟨hknown, hnodup, -⟩ := checkEdges_eq_ok_iff.1 hedges
      split at hreach
      · rename_i hu
        cases hreach
        exact ⟨hdisj, hknown, hnodup, hroots, unreachable_eq_nil_iff.1 hu⟩
      · cases hreach
    · intro h
      refine ⟨(), checkEdges_eq_ok_iff.2 ⟨h.known, h.nodup, by simp⟩, root, h.roots, ?_⟩
      rw [if_pos (unreachable_eq_nil_iff.2 h.reached)]
  · refine iff_of_false (by simp) fun h => ?_
    exact h.disjoint id (KeyedMap.contains_iff_mem_keys.2 (List.mem_of_find?_eq_some hd))
      (List.find?_some hd)

/-- Router 1 above router 2 and host 3. -/
def pair : Snapshot where
  routers := .ofList [
    (1, ⟨"upper", ⟨0x0A000000, 24, by decide⟩, [⟨1, 2, .router⟩, ⟨2, 3, .host⟩], []⟩),
    (2, ⟨"lower", ⟨0x0A000100, 24, by decide⟩, [], []⟩)]
  hosts := .ofList [(3, ⟨"host", ⟨0x0A000201, 24, by decide⟩, .ofHost 0x0A000201⟩)]

theorem validate_pair : pair.validate = .ok 1 := by
  have hfirst : pair.fresh [1] 1 = [2, 3] := by decide
  have hsecond : pair.fresh [2, 3, 1] 2 = [] := by decide
  have hreach : pair.reach [1] [1] = [2, 3, 1] := by
    rw [reach, hfirst]
    change pair.reach [2, 3, 1] [2] = _
    rw [reach, hsecond]
    change pair.reach [2, 3, 1] [] = _
    rw [reach]
  have hnone : pair.unreachable 1 = [] := by
    rw [unreachable, hreach]
    decide
  have hdisj : pair.routers.keys.find? (fun id => pair.hosts.contains id) = none := by decide
  have hedges : pair.checkEdges [] pair.edges = .ok () := by decide
  have hroot : pair.root = .ok 1 := by decide
  rw [validate_eq, hdisj, hedges, hroot]
  exact if_pos hnone

end Overlay.Snapshot
