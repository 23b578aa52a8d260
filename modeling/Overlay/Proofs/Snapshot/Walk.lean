import Mathlib
import Overlay.Proofs.KeyedMap
import Overlay.Snapshot.Check

/-!
Walks along the neighbor entries of a snapshot, and the search for everything that can be reached.
A walk is given by its start and by the position of the entry taken at each router on the way, so
two entries that name the same neighbor give different walks.

`mem_reach_iff`: the search finds exactly the ends of the walks that start in it, whatever the
graph. Its invariant is `Expanded`.
-/

namespace Overlay.Snapshot

variable {s : Snapshot}

/-! ## Neighbor entries -/

theorem neighbors_of_get? {id : NodeId} {r : RouterRecord} (h : s.routers.get? id = some r) :
    s.neighbors id = r.neighbors := by
  simp [neighbors, h]

theorem neighbors_of_not_router {id : NodeId} (h : s.routers.contains id = false) :
    s.neighbors id = [] := by
  rw [KeyedMap.contains, Option.isSome_eq_false_iff, Option.isNone_iff_eq_none] at h
  simp [neighbors, h]

theorem contains_of_mem_neighbors {id : NodeId} {n : NeighborRef} (h : n ∈ s.neighbors id) :
    s.routers.contains id = true := by
  by_contra hc
  rw [neighbors_of_not_router (by simpa using hc)] at h
  exact List.not_mem_nil h

theorem mem_edges_iff {id : NodeId} {n : NeighborRef} :
    (id, n) ∈ s.edges ↔ n ∈ s.neighbors id := by
  constructor
  · intro h
    obtain ⟨⟨k, r⟩, hr, hn⟩ := List.mem_flatMap.1 h
    simp only [List.mem_map, Prod.mk.injEq] at hn
    obtain ⟨_, hn, rfl, rfl⟩ := hn
    rwa [neighbors_of_get? (KeyedMap.get?_eq_some_iff.2 hr)]
  · intro h
    obtain ⟨r, hr⟩ := KeyedMap.contains_iff_exists.1 (contains_of_mem_neighbors h)
    rw [neighbors_of_get? hr] at h
    exact List.mem_flatMap.2 ⟨(id, r), KeyedMap.get?_eq_some_iff.1 hr, List.mem_map_of_mem h⟩

/-! ## Walks -/

/-- Taking the entries at the given positions, one router after the other, leads from the first
node to the last. -/
inductive Walk (s : Snapshot) : NodeId → List Nat → NodeId → Prop
  | nil (a : NodeId) : Walk s a [] a
  | cons {a b : NodeId} {i : Nat} {n : NeighborRef} {path : List Nat} :
    (s.neighbors a)[i]? = some n → Walk s n.id path b → Walk s a (i :: path) b

theorem walk_nil_iff {a b : NodeId} : s.Walk a [] b ↔ a = b := by
  constructor
  · intro h
    cases h
    rfl
  · intro heq
    subst heq
    exact .nil a

theorem walk_cons_iff {a b : NodeId} {i : Nat} {path : List Nat} :
    s.Walk a (i :: path) b ↔ ∃ n, (s.neighbors a)[i]? = some n ∧ s.Walk n.id path b := by
  constructor
  · intro h
    cases h with
    | cons hn h => exact ⟨_, hn, h⟩
  · intro hex
    obtain ⟨n, hn, h⟩ := hex
    exact .cons hn h

theorem walk_append_iff {a c : NodeId} {p q : List Nat} :
    s.Walk a (p ++ q) c ↔ ∃ b, s.Walk a p b ∧ s.Walk b q c := by
  induction p generalizing a with
  | nil => simp [walk_nil_iff]
  | cons i p ih =>
    simp only [List.cons_append, walk_cons_iff, ih]
    constructor
    · intro h
      obtain ⟨n, hn, b, hp, hq⟩ := h
      exact ⟨b, ⟨n, hn, hp⟩, hq⟩
    · intro h
      obtain ⟨b, ⟨n, hn, hp⟩, hq⟩ := h
      exact ⟨n, hn, b, hp, hq⟩

theorem walk_concat_iff {a c : NodeId} {p : List Nat} {i : Nat} :
    s.Walk a (p ++ [i]) c ↔ ∃ b n, s.Walk a p b ∧ (s.neighbors b)[i]? = some n ∧ n.id = c := by
  simp only [walk_append_iff, walk_cons_iff, walk_nil_iff, exists_and_left]

theorem Walk.end_unique {a b c : NodeId} {p : List Nat} (hb : s.Walk a p b) (hc : s.Walk a p c) :
    b = c := by
  induction hb with
  | nil a => exact walk_nil_iff.1 hc
  | cons hn _ ih =>
    obtain ⟨m, hm, hc⟩ := walk_cons_iff.1 hc
    rw [hn, Option.some.injEq] at hm
    subst hm
    exact ih hc

/-! ## The search -/

theorem mem_fresh_iff {reached : List NodeId} {id m : NodeId} :
    m ∈ s.fresh reached id ↔ (∃ n ∈ s.neighbors id, n.id = m) ∧ m ∉ reached := by
  simp [fresh]

theorem mem_reach_of_mem {reached todo : List NodeId} {m : NodeId} (h : m ∈ reached) :
    m ∈ s.reach reached todo := by
  fun_induction reach s reached todo with
  | case1 reached => exact h
  | case2 reached id todo new ih => exact ih (List.mem_append_right _ h)

/-- Everything the search finds was known before or ends a walk from a router in `todo`. -/
theorem walk_of_mem_reach {reached todo : List NodeId} {m : NodeId}
    (h : m ∈ s.reach reached todo) :
    m ∈ reached ∨ ∃ t ∈ todo, ∃ path, s.Walk t path m := by
  fun_induction reach s reached todo with
  | case1 reached => exact .inl h
  | case2 reached id todo new ih =>
    have step : ∀ k ∈ new, ∀ path, s.Walk k path m → ∃ path, s.Walk id path m := by
      intro k hk path hw
      obtain ⟨⟨n, hn, rfl⟩, -⟩ := mem_fresh_iff.1 hk
      obtain ⟨i, hi⟩ := List.mem_iff_getElem?.1 hn
      exact ⟨i :: path, .cons hi hw⟩
    rcases ih h with h | ⟨t, ht, path, hw⟩
    · rcases List.mem_append.1 h with h | h
      · exact .inr ⟨id, List.mem_cons_self, step m h [] (.nil m)⟩
      · exact .inl h
    · rcases List.mem_append.1 ht with ht | ht
      · exact .inr ⟨t, List.mem_cons_of_mem _ ht, path, hw⟩
      · exact .inr ⟨id, List.mem_cons_self, step t (List.mem_filter.1 ht).1 path hw⟩

/-- The neighbors of every node in `reached` are in it too, except those of nodes in `todo`. -/
def Expanded (s : Snapshot) (reached todo : List NodeId) : Prop :=
  ∀ id ∈ reached, id ∉ todo → ∀ n ∈ s.neighbors id, n.id ∈ reached

theorem Expanded.step {reached todo : List NodeId} {id : NodeId}
    (h : s.Expanded reached (id :: todo)) :
    s.Expanded (s.fresh reached id ++ reached)
      (todo ++ (s.fresh reached id).filter fun n => s.routers.contains n) := by
  intro k hk hkt n hn
  rw [List.mem_append, List.mem_filter, not_or, not_and] at hkt
  by_cases hid : k = id
  · subst hid
    by_cases hr : n.id ∈ reached
    · exact List.mem_append_right _ hr
    · exact List.mem_append_left _ (mem_fresh_iff.2 ⟨⟨n, hn, rfl⟩, hr⟩)
  · rcases List.mem_append.1 hk with hk | hk
    · exact absurd (contains_of_mem_neighbors hn) (hkt.2 hk)
    · exact List.mem_append_right _ (h k hk (by simp [hid, hkt.1]) n hn)

theorem expanded_reach {reached todo : List NodeId} (h : s.Expanded reached todo) :
    s.Expanded (s.reach reached todo) [] := by
  fun_induction reach s reached todo with
  | case1 reached => exact h
  | case2 reached id todo new ih => exact ih h.step

/-- The search from one node finds the ends of the walks from it and nothing else. -/
theorem mem_reach_iff {root m : NodeId} :
    m ∈ s.reach [root] [root] ↔ ∃ path, s.Walk root path m := by
  constructor
  · intro h
    rcases walk_of_mem_reach h with h | ⟨t, ht, path, hw⟩
    · rw [List.mem_singleton.1 h]
      exact ⟨[], .nil root⟩
    · rw [List.mem_singleton.1 ht] at hw
      exact ⟨path, hw⟩
  · intro hex
    obtain ⟨path, hw⟩ := hex
    have hroot : root ∈ s.reach [root] [root] := mem_reach_of_mem List.mem_cons_self
    have hexp : s.Expanded (s.reach [root] [root]) [] :=
      expanded_reach fun id hid hnot => absurd hid hnot
    generalize s.reach [root] [root] = found at hroot hexp
    induction hw with
    | nil a => exact hroot
    | cons hn _ ih => exact ih (hexp _ hroot List.not_mem_nil _ (List.mem_of_getElem? hn))

end Overlay.Snapshot
