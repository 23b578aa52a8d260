import Mathlib
import Overlay.Proofs.Snapshot.Checks

/-!
Why a snapshot is rejected. `Rejected` says it without the checks: an error with what it reports,
and the conditions under which it is the one to be reported. `validate_eq_error_iff` says that the
checks report exactly that error. The scan of the neighbor entries stops at the first that is wrong
behind entries that are not (`checkEdges_eq_error_iff`), and the search for what the root does not
reach ends on any snapshot (`exists_iterate_advance`).
-/

namespace Overlay.Snapshot

variable {s : Snapshot} {e : SnapshotError}

/-- A router and a host have this number. -/
def Shared (s : Snapshot) (id : NodeId) : Prop :=
  s.routers.contains id = true ∧ s.hosts.contains id = true

/-- Entries that name known nodes, and none twice. -/
structure Sound (s : Snapshot) (es : List (NodeId × NeighborRef)) : Prop where
  known : ∀ e ∈ es, s.has e.2.kind e.2.id = true
  nodup : (es.map (·.2.id)).Nodup

/-- What is wrong with an entry behind sound entries: it names an unknown node, or a known one that
one entry before it names. -/
inductive EntryFault (s : Snapshot) (before : List (NodeId × NeighborRef)) :
    NodeId × NeighborRef → SnapshotError → Prop
  | unknown {a : NodeId} {n : NeighborRef} :
    s.has n.kind n.id = false → EntryFault s before (a, n) (.unknownNode a n.id n.kind)
  | named {a first : NodeId} {m n : NeighborRef} :
    s.has n.kind n.id = true → (before.filter fun e => e.2.id = n.id) = [(first, m)] →
      EntryFault s before (a, n) (.multipleParents n.id first a)

/-- What the checks are to report: each error with what it names, under the conditions that make it
the one to be reported. -/
inductive Rejected (s : Snapshot) : SnapshotError → Prop
  /-- The least number of a router that is a host's too. -/
  | duplicateId {id : NodeId} (shared : s.Shared id) (least : ∀ j, s.Shared j → id ≤ j) :
    Rejected s (.duplicateId id)
  /-- The first neighbor entry that is wrong. -/
  | entry {before after : List (NodeId × NeighborRef)} {x : NodeId × NeighborRef}
    {e : SnapshotError} (unshared : ∀ id, ¬s.Shared id) (split : s.edges = before ++ x :: after)
    (sound : s.Sound before) (fault : s.EntryFault before x e) : Rejected s e
  /-- Every router is somebody's neighbor. -/
  | missingRoot (unshared : ∀ id, ¬s.Shared id) (sound : s.Sound s.edges)
    (named : ∀ id, s.routers.contains id = true → id ∈ s.targets) : Rejected s .missingRoot
  /-- All routers that are nobody's neighbor. -/
  | multipleRoots {ids : List NodeId} (unshared : ∀ id, ¬s.Shared id) (sound : s.Sound s.edges)
    (ascending : ids.Pairwise (· < ·))
    (mem_iff : ∀ id, id ∈ ids ↔ s.routers.contains id = true ∧ id ∉ s.targets)
    (several : 2 ≤ ids.length) : Rejected s (.multipleRoots ids)
  /-- The routers and then the hosts that no walk from the root leads to. -/
  | unreachable {root : NodeId} {routers hosts : List NodeId} (unshared : ∀ id, ¬s.Shared id)
    (sound : s.Sound s.edges)
    (root_iff : ∀ id, s.routers.contains id = true ∧ id ∉ s.targets ↔ id = root)
    (ascending : routers.Pairwise (· < ·) ∧ hosts.Pairwise (· < ·))
    (mem_routers_iff : ∀ id, id ∈ routers ↔
      s.routers.contains id = true ∧ ¬∃ path, s.Walk root path id)
    (mem_hosts_iff : ∀ id, id ∈ hosts ↔
      s.hosts.contains id = true ∧ ¬∃ path, s.Walk root path id)
    (nonempty : routers ++ hosts ≠ []) : Rejected s (.unreachable (routers ++ hosts))

/-! ## Shared numbers -/

theorem find?_shared_eq_some_iff {id : NodeId} :
    (s.routers.keys.find? fun id => s.hosts.contains id) = some id ↔
      s.Shared id ∧ ∀ j, s.Shared j → id ≤ j := by
  rw [KeyedMap.find?_keys_eq_some_iff]
  simp only [Shared, and_assoc, and_imp, UInt32.not_lt]

theorem find?_shared_eq_none_iff :
    (s.routers.keys.find? fun id => s.hosts.contains id) = none ↔ ∀ id, ¬s.Shared id := by
  simp only [List.find?_eq_none, ← KeyedMap.contains_iff_mem_keys, Shared, not_and]

/-! ## Neighbor entries -/

/-- The nodes that the entries name, each with the router that names it, last first. -/
def parentsOf (es : List (NodeId × NeighborRef)) : List (NodeId × NodeId) :=
  (es.map fun e => (e.2.id, e.1)).reverse

theorem checkEdges_append (parents : List (NodeId × NodeId)) (es fs : List (NodeId × NeighborRef)) :
    s.checkEdges parents (es ++ fs) =
      s.checkEdges parents es >>= fun _ => s.checkEdges (parentsOf es ++ parents) fs := by
  induction es generalizing parents with
  | nil => rfl
  | cons d es ih =>
    obtain ⟨a, n⟩ := d
    rw [List.cons_append, checkEdges, checkEdges]
    split
    · rfl
    · split
      · rfl
      · rw [ih]
        simp [parentsOf]

theorem checkEdges_eq_ok_iff_sound {es : List (NodeId × NeighborRef)} {u : Unit} :
    s.checkEdges [] es = .ok u ↔ s.Sound es := by
  rw [checkEdges_eq_ok_iff]
  constructor
  · intro h
    exact ⟨h.1, h.2.1⟩
  · intro h
    exact ⟨h.known, h.nodup, fun _ _ => List.lookup_nil⟩

/-- Where no node is named twice, a node is found with the router of the only entry naming it. -/
theorem lookup_parentsOf_iff {es : List (NodeId × NeighborRef)} (h : (es.map (·.2.id)).Nodup)
    {id first : NodeId} :
    (parentsOf es).lookup id = some first ↔
      ∃ m, (es.filter fun e => e.2.id = id) = [(first, m)] := by
  have hfound : ∀ {first}, (parentsOf es).lookup id = some first →
      ∃ m, (es.filter fun e => e.2.id = id) = [(first, m)] := by
    intro first hlook
    obtain ⟨before, after, hsplit, -⟩ := List.lookup_eq_some_iff.1 hlook
    have hmem : (id, first) ∈ parentsOf es := by
      rw [hsplit]
      exact List.mem_append_right _ List.mem_cons_self
    obtain ⟨⟨a, m⟩, hd, heq⟩ := List.mem_map.1 (List.mem_reverse.1 hmem)
    obtain ⟨rfl, rfl⟩ := Prod.mk.inj heq
    exact ⟨m, Lists.filter_eq_singleton h hd⟩
  refine ⟨hfound, fun hex => ?_⟩
  obtain ⟨m, hm⟩ := hex
  have hd : (first, m) ∈ es.filter fun e => e.2.id = id := hm ▸ List.mem_singleton_self _
  rw [List.mem_filter, decide_eq_true_eq] at hd
  rcases hlook : (parentsOf es).lookup id with _ | other
  · refine absurd (List.lookup_eq_none_iff.1 hlook (id, first) ?_) (by simp)
    refine List.mem_reverse.2 (List.mem_map.2 ⟨_, hd.1, ?_⟩)
    rw [hd.2]
  · obtain ⟨m', hm'⟩ := hfound hlook
    rw [hm, List.singleton_inj, Prod.mk.injEq] at hm'
    rw [hm'.1]

/-- What the next entry behind sound ones is refused for. -/
theorem checkEdges_singleton_eq_error_iff {before : List (NodeId × NeighborRef)}
    {x : NodeId × NeighborRef} (h : s.Sound before) :
    s.checkEdges (parentsOf before) [x] = .error e ↔ s.EntryFault before x e := by
  obtain ⟨a, n⟩ := x
  rw [checkEdges]
  rcases hk : s.has n.kind n.id with _ | _
  · simp only [Bool.not_false, if_true, Except.error.injEq]
    constructor
    · intro heq
      subst heq
      exact .unknown hk
    · intro hfault
      cases hfault with
      | unknown => rfl
      | named hknown => rw [hk] at hknown; cases hknown
  · simp only [Bool.not_true, Bool.false_eq_true, if_false]
    constructor
    · intro herr
      rcases hlook : (parentsOf before).lookup n.id with _ | first
      · rw [hlook] at herr
        cases herr
      · rw [hlook] at herr
        cases herr
        obtain ⟨m, hm⟩ := (lookup_parentsOf_iff h.nodup).1 hlook
        exact .named hk hm
    · intro hfault
      cases hfault with
      | unknown hunknown => rw [hk] at hunknown; cases hunknown
      | named _ hm => rw [(lookup_parentsOf_iff h.nodup).2 ⟨_, hm⟩]

/-- The scan stops at the first entry that is wrong. -/
theorem checkEdges_eq_error_iff {es : List (NodeId × NeighborRef)} :
    s.checkEdges [] es = .error e ↔
      ∃ before x after, es = before ++ x :: after ∧ s.Sound before ∧ s.EntryFault before x e := by
  induction es using List.reverseRecOn with
  | nil => simp [checkEdges]
  | append_singleton es y ih =>
    rw [checkEdges_append, Result.bind_eq_error_iff, ih, List.append_nil]
    constructor
    · rintro (⟨before, x, after, rfl, h⟩ | ⟨_, hok, herr⟩)
      · exact ⟨before, x, after ++ [y], by simp, h⟩
      · have hsound := checkEdges_eq_ok_iff_sound.1 hok
        exact ⟨es, y, [], rfl, hsound, (checkEdges_singleton_eq_error_iff hsound).1 herr⟩
    · intro hex
      obtain ⟨before, x, after, hsplit, hsound, hfault⟩ := hex
      rcases List.eq_nil_or_concat after with rfl | ⟨after, z, rfl⟩
      · obtain ⟨rfl, hy⟩ := List.append_inj' hsplit rfl
        rw [List.singleton_inj.1 hy]
        exact .inr ⟨(), checkEdges_eq_ok_iff_sound.2 hsound,
          (checkEdges_singleton_eq_error_iff hsound).2 hfault⟩
      · rw [List.concat_eq_append, ← List.cons_append, ← List.append_assoc] at hsplit
        exact .inl ⟨before, x, after, (List.append_inj' hsplit rfl).1, hsound, hfault⟩

/-! ## The root -/

theorem roots_eq_iff {ids : List NodeId} :
    s.roots = ids ↔ ids.Pairwise (· < ·) ∧
      ∀ id, id ∈ ids ↔ s.routers.contains id = true ∧ id ∉ s.targets := by
  have hsorted : s.roots.Pairwise (· < ·) := s.routers.keys_sorted.filter _
  constructor
  · intro heq
    subst heq
    exact ⟨hsorted, fun _ => mem_roots_iff⟩
  · intro h
    exact KeyedMap.eq_of_sorted hsorted h.1 fun id => mem_roots_iff.trans (h.2 id).symm

theorem root_eq_error_iff :
    s.root = .error e ↔ (s.roots = [] ∧ e = .missingRoot) ∨
      (2 ≤ s.roots.length ∧ e = .multipleRoots s.roots) := by
  rw [Snapshot.root]
  rcases s.roots with _ | ⟨a, _ | ⟨b, ids⟩⟩ <;> simp [eq_comm]

/-! ## The search -/

/-- One round of the search: the first router of the queue gives its neighbors. -/
def advance (s : Snapshot) : List NodeId × List NodeId → List NodeId × List NodeId
  | (reached, []) => (reached, [])
  | (reached, id :: todo) =>
    let new := s.fresh reached id
    (new ++ reached, todo ++ new.filter fun n => s.routers.contains n)

/-- The search ends from any state on any snapshot: some number of rounds empties the queue. -/
theorem exists_iterate_advance (s : Snapshot) (reached todo : List NodeId) :
    ∃ rounds, s.advance^[rounds] (reached, todo) = (s.reach reached todo, []) := by
  fun_induction reach s reached todo with
  | case1 reached => exact ⟨0, rfl⟩
  | case2 reached id todo new ih =>
    obtain ⟨rounds, h⟩ := ih
    exact ⟨rounds + 1, h⟩

theorem unreachable_eq_iff {root : NodeId} {ids : List NodeId} :
    s.unreachable root = ids ↔ ∃ routers hosts, ids = routers ++ hosts ∧
      (routers.Pairwise (· < ·) ∧ hosts.Pairwise (· < ·)) ∧
      (∀ id, id ∈ routers ↔ s.routers.contains id = true ∧ ¬∃ path, s.Walk root path id) ∧
      ∀ id, id ∈ hosts ↔ s.hosts.contains id = true ∧ ¬∃ path, s.Walk root path id := by
  have hmem : ∀ {ν : Type} (m : KeyedMap NodeId ν) (id : NodeId),
      (id ∈ m.keys.filter fun id => !(s.reach [root] [root]).contains id) ↔
        m.contains id = true ∧ ¬∃ path, s.Walk root path id := by
    intro ν m id
    rw [List.mem_filter, ← KeyedMap.contains_iff_mem_keys, ← mem_reach_iff]
    simp
  have hsorted : ∀ {ν : Type} (m : KeyedMap NodeId ν),
      (m.keys.filter fun id => !(s.reach [root] [root]).contains id).Pairwise (· < ·) :=
    fun m => m.keys_sorted.filter _
  rw [unreachable, List.filter_append]
  constructor
  · intro heq
    exact ⟨_, _, heq.symm, ⟨hsorted _, hsorted _⟩, hmem _, hmem _⟩
  · intro hex
    obtain ⟨routers, hosts, rfl, ⟨hrs, hhs⟩, hr, hh⟩ := hex
    congr 1
    · exact KeyedMap.eq_of_sorted (hsorted _) hrs fun id => (hmem _ id).trans (hr id).symm
    · exact KeyedMap.eq_of_sorted (hsorted _) hhs fun id => (hmem _ id).trans (hh id).symm

/-! ## The errors of a snapshot -/

theorem validate_eq_error_iff : s.validate = .error e ↔ s.Rejected e := by
  rw [validate_eq]
  rcases hfind : s.routers.keys.find? (fun id => s.hosts.contains id) with _ | id
  · have hunshared := find?_shared_eq_none_iff.1 hfind
    simp only [Result.bind_eq_error_iff, checkEdges_eq_error_iff, checkEdges_eq_ok_iff_sound,
      root_eq_error_iff, root_eq_ok_iff]
    constructor
    · rintro (⟨before, x, after, hsplit, hsound, hfault⟩ |
        ⟨_, hsound, (⟨hroots, rfl⟩ | ⟨hseveral, rfl⟩) | ⟨root, hroot, hreach⟩⟩)
      · exact .entry hunshared hsplit hsound hfault
      · refine .missingRoot hunshared hsound fun id hid => ?_
        by_contra hnamed
        exact List.not_mem_nil (hroots ▸ mem_roots_iff.2 ⟨hid, hnamed⟩)
      · obtain ⟨hascending, hmem⟩ := roots_eq_iff.1 rfl
        exact .multipleRoots hunshared hsound hascending hmem hseveral
      · split at hreach
        · cases hreach
        · rename_i hnonempty
          cases hreach
          obtain ⟨routers, hosts, heq, hascending, hr, hh⟩ := unreachable_eq_iff.1 rfl
          rw [heq] at hnonempty ⊢
          exact .unreachable hunshared hsound (roots_eq_singleton_iff.1 hroot) hascending hr hh
            hnonempty
    · intro h
      cases h with
      | duplicateId hshared => exact absurd hshared (hunshared _)
      | entry _ hsplit hsound hfault => exact .inl ⟨_, _, _, hsplit, hsound, hfault⟩
      | missingRoot _ hsound hnamed =>
        refine .inr ⟨(), hsound, .inl (.inl ⟨?_, rfl⟩)⟩
        exact List.eq_nil_iff_forall_not_mem.2 fun id hid =>
          (mem_roots_iff.1 hid).2 (hnamed id (mem_roots_iff.1 hid).1)
      | multipleRoots _ hsound hascending hmem hseveral =>
        have hroots := roots_eq_iff.2 ⟨hascending, hmem⟩
        exact .inr ⟨(), hsound, .inl (.inr ⟨by rwa [hroots], by rw [hroots]⟩)⟩
      | unreachable _ hsound hroot hascending hr hh hnonempty =>
        have hids := unreachable_eq_iff.2 ⟨_, _, rfl, hascending, hr, hh⟩
        refine .inr ⟨(), hsound, .inr ⟨_, roots_eq_singleton_iff.2 hroot, ?_⟩⟩
        rw [hids, if_neg hnonempty]
  · obtain ⟨hshared, hleast⟩ := find?_shared_eq_some_iff.1 hfind
    rw [Except.error.injEq]
    constructor
    · intro heq
      subst heq
      exact .duplicateId hshared hleast
    · intro h
      cases h with
      | duplicateId hshared' hleast' =>
        rw [UInt32.le_antisymm (hleast _ hshared') (hleast' _ hshared)]
      | entry hunshared | missingRoot hunshared | multipleRoots hunshared
      | unreachable hunshared => exact absurd hshared (hunshared id)

/-- A rejected snapshot is rejected for what is wrong with it, and a snapshot with something wrong
is rejected. The search that decides about the last error ends wherever it starts, on cycles too. -/
theorem rejects_exactly (s : Snapshot) :
    (∀ e, s.validate = .error e ↔ s.Rejected e) ∧
      ∀ root, ∃ rounds, s.advance^[rounds] ([root], [root]) = (s.reach [root] [root], []) :=
  ⟨fun _ => validate_eq_error_iff, fun root => s.exists_iterate_advance [root] [root]⟩

end Overlay.Snapshot
