import Mathlib
import Overlay.Proofs.Position

/-!
The order in which a depth-first walk visits the positions of a tree. It follows from the tree and
from the answers whether a router comes before or after its neighbors, which are asked for when the
walk enters the router. However they come out, every position is visited once, the visits in a
subtree follow one another, neighbor by neighbor, and its router is the first or the last of them
(`Node.depthFirst_visits`).
-/

namespace Overlay.Node

/-! ## The order of the visits -/

mutual

/-- The positions that a walk visits in a tree at `path`, after the visits `done`. Whether a router
comes before or after its neighbors is `asked` when the walk enters it, given all visits before. -/
def visitsFrom (asked : List (List Nat) → Order) :
    (path : List Nat) → Node → (done : List (List Nat)) → List (List Nat)
  | path, .router _ ns, done =>
    match asked done with
    | .pre => path :: visitsFromAll asked path 0 ns (done ++ [path])
    | .post => visitsFromAll asked path 0 ns done ++ [path]
  | path, .host _, _ => [path]

/-- The positions in further trees, which stand at `path` from neighbor `i` on. -/
def visitsFromAll (asked : List (List Nat) → Order) (path : List Nat) :
    (i : Nat) → List Node → (done : List (List Nat)) → List (List Nat)
  | _, [], _ => []
  | i, n :: ns, done =>
    let first := visitsFrom asked (path ++ [i]) n done
    first ++ visitsFromAll asked path (i + 1) ns (done ++ first)

end

/-- The positions that a walk visits, in order. -/
def visits (n : Node) (asked : List (List Nat) → Order) : List (List Nat) :=
  n.visitsFrom asked [] []

/-- The visits at a position and below it. -/
def under (path : List Nat) (visits : List (List Nat)) : List (List Nat) :=
  visits.filter fun p => path <+: p

/-- The visits are those of a depth-first walk over the tree `n`. -/
structure DepthFirst (n : Node) (asked : List (List Nat) → Order) (visits : List (List Nat)) :
    Prop where
  nodup : visits.Nodup
  mem_iff : ∀ path, path ∈ visits ↔ (n.at? path).isSome
  host : ∀ path h, n.at? path = some (.host h) → under path visits = [path]
  router : ∀ path info ns, n.at? path = some (.router info ns) → ∃ before after,
    visits = before ++ under path visits ++ after ∧
    under path visits =
      let below := (List.range ns.length).flatMap fun i => under (path ++ [i]) visits
      match asked before with
      | .pre => path :: below
      | .post => below ++ [path]

variable {asked : List (List Nat) → Order} {m n : Node} {ns : List Node} {path p q : List Nat}
  {done : List (List Nat)} {i : Nat}

/-! ## Every node once -/

theorem mem_visitsFromAll_iff
    (h : ∀ n ∈ ns, ∀ path done p, p ∈ n.visitsFrom asked path done ↔
      ∃ q, p = path ++ q ∧ (n.at? q).isSome) :
    p ∈ visitsFromAll asked path i ns done ↔
      ∃ j n q, ns[j]? = some n ∧ p = path ++ (i + j) :: q ∧ (n.at? q).isSome := by
  induction ns generalizing i done with
  | nil => simp [visitsFromAll]
  | cons n ns ih =>
    obtain ⟨hn, hns⟩ := List.forall_mem_cons.1 h
    rw [visitsFromAll, List.mem_append, hn, ih hns]
    constructor
    · rintro (⟨q, rfl, hq⟩ | ⟨j, m, q, hm, rfl, hq⟩)
      · exact ⟨0, n, q, rfl, by simp, hq⟩
      · exact ⟨j + 1, m, q, hm, by rw [Nat.add_right_comm, Nat.add_assoc], hq⟩
    · rintro ⟨_ | j, m, q, hm, rfl, hq⟩
      · obtain rfl := Option.some.inj hm
        exact .inl ⟨q, by simp, hq⟩
      · exact .inr ⟨j, m, q, hm, by rw [Nat.add_right_comm, Nat.add_assoc], hq⟩

theorem mem_visitsFrom_iff :
    p ∈ n.visitsFrom asked path done ↔ ∃ q, p = path ++ q ∧ (n.at? q).isSome := by
  induction n generalizing p path done with
  | router info ns ih =>
    have hall : ∀ done, p ∈ visitsFromAll asked path 0 ns done ↔
        ∃ j n q, ns[j]? = some n ∧ p = path ++ j :: q ∧ (n.at? q).isSome := by
      intro done
      rw [mem_visitsFromAll_iff fun n hn path done p => ih n hn]
      simp only [Nat.zero_add]
    have hmem : p ∈ (router info ns).visitsFrom asked path done ↔
        p = path ∨ ∃ j n q, ns[j]? = some n ∧ p = path ++ j :: q ∧ (n.at? q).isSome := by
      rw [visitsFrom]
      cases asked done with
      | pre => rw [List.mem_cons, hall]
      | post => rw [List.mem_append, List.mem_singleton, hall, or_comm]
    rw [hmem]
    constructor
    · rintro (rfl | ⟨j, n, q, hn, rfl, hq⟩)
      · exact ⟨[], (List.append_nil _).symm, rfl⟩
      · exact ⟨j :: q, rfl, by rwa [at?, neighbors, hn]⟩
    · rintro ⟨_ | ⟨j, q⟩, rfl, hq⟩
      · exact .inl (List.append_nil _)
      · obtain ⟨m, hm⟩ := Option.isSome_iff_exists.1 hq
        obtain ⟨_, _, n, ⟨⟩, hn, hq⟩ := exists_router_of_at?_cons hm
        exact .inr ⟨j, n, q, hn, rfl, by rw [hq, Option.isSome_some]⟩
  | host h =>
    rw [visitsFrom, List.mem_singleton]
    constructor
    · rintro rfl
      exact ⟨[], (List.append_nil _).symm, rfl⟩
    · rintro ⟨_ | ⟨j, q⟩, rfl, hq⟩
      · exact List.append_nil _
      · cases hq

theorem mem_visits_iff : p ∈ n.visits asked ↔ (n.at? p).isSome := by
  simp [visits, mem_visitsFrom_iff]

theorem prefix_of_mem_visitsFrom (h : p ∈ n.visitsFrom asked path done) : path <+: p := by
  obtain ⟨q, rfl, -⟩ := mem_visitsFrom_iff.1 h
  exact List.prefix_append path q

/-- The visits from neighbor `i` on are not at a neighbor before it. -/
theorem exists_prefix_of_mem_visitsFromAll (h : p ∈ visitsFromAll asked path i ns done) :
    ∃ j, i ≤ j ∧ path ++ [j] <+: p := by
  obtain ⟨j, m, q, -, rfl, -⟩ :=
    (mem_visitsFromAll_iff fun _ _ _ _ _ => mem_visitsFrom_iff).1 h
  exact ⟨i + j, Nat.le_add_right i j, q, by simp⟩

theorem eq_of_prefix {i j : Nat} (hi : path ++ [i] <+: p) (hj : path ++ [j] <+: p) : i = j := by
  obtain ⟨q, rfl⟩ := hi
  rw [List.append_assoc, List.prefix_append_right_inj] at hj
  obtain ⟨r, hr⟩ := hj
  exact (List.cons.inj hr).1.symm

theorem not_prefix_of_mem_visitsFromAll {j : Nat} (hj : j < i)
    (h : p ∈ visitsFromAll asked path i ns done) : ¬path ++ [j] <+: p := by
  intro hp
  obtain ⟨k, hk, hp'⟩ := exists_prefix_of_mem_visitsFromAll h
  have := eq_of_prefix hp hp'
  omega

theorem path_not_mem_visitsFromAll : path ∉ visitsFromAll asked path i ns done := by
  intro h
  obtain ⟨j, -, hp⟩ := exists_prefix_of_mem_visitsFromAll h
  have := hp.length_le
  simp at this

theorem nodup_visitsFromAll (h : ∀ n ∈ ns, ∀ path done, (n.visitsFrom asked path done).Nodup) :
    (visitsFromAll asked path i ns done).Nodup := by
  induction ns generalizing i done with
  | nil => exact List.nodup_nil
  | cons n ns ih =>
    obtain ⟨hn, hns⟩ := List.forall_mem_cons.1 h
    rw [visitsFromAll]
    refine List.Nodup.append (hn _ _) (ih hns) fun p hp hp' => ?_
    exact not_prefix_of_mem_visitsFromAll (Nat.lt_succ_self i) hp' (prefix_of_mem_visitsFrom hp)

theorem nodup_visitsFrom : (n.visitsFrom asked path done).Nodup := by
  induction n generalizing path done with
  | router info ns ih =>
    have hall : ∀ done, (visitsFromAll asked path 0 ns done).Nodup := fun done =>
      nodup_visitsFromAll fun n hn _ _ => ih n hn
    rw [visitsFrom]
    cases asked done with
    | pre => exact List.nodup_cons.2 ⟨path_not_mem_visitsFromAll, hall _⟩
    | post =>
      refine List.Nodup.append (hall _) (List.nodup_singleton path) fun p hp hp' => ?_
      obtain rfl := List.mem_singleton.1 hp'
      exact path_not_mem_visitsFromAll hp
  | host h => exact List.nodup_singleton path

/-! ## Subtrees -/

theorem exists_visitsFromAll_eq (asked : List (List Nat) → Order) (path : List Nat) (i : Nat)
    (done : List (List Nat)) {j : Nat} (hm : ns[j]? = some m) :
    ∃ before after, visitsFromAll asked path i ns done =
      before ++ m.visitsFrom asked (path ++ [i + j]) (done ++ before) ++ after := by
  induction ns generalizing i j done with
  | nil => cases hm
  | cons n ns ih =>
    rw [visitsFromAll]
    rcases j with _ | j
    · obtain rfl := Option.some.inj hm
      refine ⟨[],
        visitsFromAll asked path (i + 1) ns (done ++ n.visitsFrom asked (path ++ [i]) done), ?_⟩
      simp
    · obtain ⟨before, after, hrest⟩ := ih (i + 1) (done ++ n.visitsFrom asked (path ++ [i]) done) hm
      refine ⟨n.visitsFrom asked (path ++ [i]) done ++ before, after, ?_⟩
      rw [hrest, Nat.add_right_comm, Nat.add_assoc]
      simp only [List.append_assoc]

/-- The visits in a subtree stand together, and are those of a walk over the subtree that starts
after the visits before. -/
theorem exists_visitsFrom_eq (asked : List (List Nat) → Order) (path : List Nat)
    (done : List (List Nat)) (hm : n.at? q = some m) :
    ∃ before after, n.visitsFrom asked path done =
      before ++ m.visitsFrom asked (path ++ q) (done ++ before) ++ after := by
  induction q generalizing n path done with
  | nil =>
    obtain rfl := Option.some.inj hm
    exact ⟨[], [], by simp⟩
  | cons i q ih =>
    obtain ⟨info, ns, k, rfl, hk, hm⟩ := exists_router_of_at?_cons hm
    have hall : ∀ done, ∃ before after, visitsFromAll asked path 0 ns done =
        before ++ m.visitsFrom asked (path ++ i :: q) (done ++ before) ++ after := by
      intro done
      obtain ⟨before, after, hk⟩ := exists_visitsFromAll_eq asked path 0 done hk
      obtain ⟨before', after', hm⟩ := ih (path ++ [0 + i]) (done ++ before) hm
      refine ⟨before ++ before', after' ++ after, ?_⟩
      rw [hk, hm]
      simp
    rw [visitsFrom]
    cases asked done with
    | pre =>
      obtain ⟨before, after, hall⟩ := hall (done ++ [path])
      refine ⟨path :: before, after, ?_⟩
      dsimp only
      rw [hall]
      simp
    | post =>
      obtain ⟨before, after, hall⟩ := hall done
      refine ⟨before, after ++ [path], ?_⟩
      dsimp only
      rw [hall]
      simp

theorem under_eq_self {visits : List (List Nat)} (h : ∀ p ∈ visits, path <+: p) :
    under path visits = visits :=
  List.filter_eq_self.2 fun p hp => decide_eq_true (h p hp)

theorem under_eq_nil {visits : List (List Nat)} (h : ∀ p ∈ visits, ¬path <+: p) :
    under path visits = [] :=
  List.filter_eq_nil_iff.2 fun p hp => by simpa using h p hp

theorem under_append (xs ys : List (List Nat)) :
    under path (xs ++ ys) = under path xs ++ under path ys :=
  List.filter_append ..

theorem under_under (path rest : List Nat) (visits : List (List Nat)) :
    under (path ++ rest) (under path visits) = under (path ++ rest) visits := by
  rw [under, under, under, List.filter_filter]
  refine List.filter_congr fun p _ => ?_
  have himp : path ++ rest <+: p → path <+: p := (List.prefix_append path rest).trans
  simpa using himp

/-- The visits below a position are those of the walk over the tree there. -/
theorem exists_visits_eq (asked : List (List Nat) → Order) (hm : n.at? path = some m) :
    ∃ before after, n.visits asked = before ++ under path (n.visits asked) ++ after ∧
      under path (n.visits asked) = m.visitsFrom asked path before := by
  obtain ⟨before, after, heq⟩ := exists_visitsFrom_eq asked [] [] hm
  rw [List.nil_append, List.nil_append, ← visits] at heq
  have hnodup : (n.visits asked).Nodup := nodup_visitsFrom
  rw [heq, List.nodup_append, List.nodup_append] at hnodup
  obtain ⟨⟨-, -, hbefore⟩, -, hafter⟩ := hnodup
  -- Everything below the position is in the walk there, so nothing else is.
  have hblock : ∀ p ∈ n.visits asked, path <+: p → p ∈ m.visitsFrom asked path before := by
    rintro p hp ⟨r, rfl⟩
    rw [mem_visits_iff, at?_append, hm, Option.bind_some] at hp
    exact mem_visitsFrom_iff.2 ⟨r, rfl, hp⟩
  have hunder : under path (n.visits asked) = m.visitsFrom asked path before := by
    have hnil : ∀ p ∈ before, ¬path <+: p := fun p hp hpath =>
      hbefore p hp p (hblock p (by simp [heq, hp]) hpath) rfl
    have hnil' : ∀ p ∈ after, ¬path <+: p := fun p hp hpath =>
      hafter p (List.mem_append_right _ (hblock p (by simp [heq, hp]) hpath)) p hp rfl
    rw [heq, under_append, under_append, under_eq_nil hnil, under_eq_nil hnil',
      under_eq_self fun p => prefix_of_mem_visitsFrom, List.nil_append, List.append_nil]
  exact ⟨before, after, by rw [hunder, heq], hunder⟩

/-- The visits from neighbor `i` on, neighbor by neighbor. -/
theorem visitsFromAll_eq_flatMap :
    visitsFromAll asked path i ns done =
      (List.range' i ns.length).flatMap fun j =>
        under (path ++ [j]) (visitsFromAll asked path i ns done) := by
  induction ns generalizing i done with
  | nil => rfl
  | cons n ns ih =>
    have hfirst : ∀ j ∈ List.range' (i + 1) ns.length, ∀ p ∈ n.visitsFrom asked (path ++ [i]) done,
        ¬path ++ [j] <+: p := by
      intro j hj p hp hpath
      have hij := eq_of_prefix (prefix_of_mem_visitsFrom hp) hpath
      rw [List.mem_range'_1] at hj
      omega
    rw [visitsFromAll, List.length_cons, List.range'_succ, List.flatMap_cons, under_append,
      under_eq_self fun p => prefix_of_mem_visitsFrom,
      under_eq_nil fun p => not_prefix_of_mem_visitsFromAll (Nat.lt_succ_self i), List.append_nil]
    refine congrArg _ (ih.trans (List.flatMap_congr fun j hj => ?_))
    rw [under_append, under_eq_nil (hfirst j hj), List.nil_append]

/-- The visits at a router: its own first or last, and those below it neighbor by neighbor. -/
theorem visitsFrom_router (asked : List (List Nat) → Order) (path : List Nat)
    (done : List (List Nat)) (info : RouterInfo) (ns : List Node) :
    (router info ns).visitsFrom asked path done =
      let below := (List.range ns.length).flatMap fun i =>
        under (path ++ [i]) ((router info ns).visitsFrom asked path done)
      match asked done with
      | .pre => path :: below
      | .post => below ++ [path] := by
  have hnot : ∀ i, ∀ p ∈ [path], ¬path ++ [i] <+: p := by
    intro i p hp hpath
    have := hpath.length_le
    rw [List.mem_singleton.1 hp] at this
    simp at this
  rw [visitsFrom]
  cases asked done with
  | pre =>
    rw [← List.singleton_append]
    simp only [under_append, under_eq_nil (hnot _), List.nil_append, List.range_eq_range']
    rw [← visitsFromAll_eq_flatMap]
    rfl
  | post =>
    simp only [under_append, under_eq_nil (hnot _), List.append_nil, List.range_eq_range']
    rw [← visitsFromAll_eq_flatMap]

/-- The visits of a walk are those of a depth-first walk, whatever the visitor says. -/
theorem depthFirst_visits (n : Node) (asked : List (List Nat) → Order) :
    n.DepthFirst asked (n.visits asked) where
  nodup := nodup_visitsFrom
  mem_iff _ := mem_visits_iff
  host path h hm := by
    obtain ⟨before, after, -, hunder⟩ := exists_visits_eq asked hm
    rw [hunder, visitsFrom]
  router path info ns hm := by
    obtain ⟨before, after, heq, hunder⟩ := exists_visits_eq asked hm
    refine ⟨before, after, heq, ?_⟩
    have hrouter := visitsFrom_router asked path before info ns
    simp only [← hunder, under_under] at hrouter
    exact hrouter

/-! ## One order throughout -/

/-- The nodes of the tree, with every router before or after its neighbors. -/
def listing : Order → Node → List Node
  | .pre => preorder
  | .post => postorder

variable {o : Order} {root : Node}

theorem map_at?_visitsFromAll {info : RouterInfo} (left : List Node)
    (h : ∀ n ∈ ns, ∀ path done, root.at? path = some n →
      (n.visitsFrom (fun _ => o) path done).map root.at? = (n.listing o).map some)
    (hat : root.at? path = some (router info (left ++ ns))) :
    (visitsFromAll (fun _ => o) path left.length ns done).map root.at? =
      (ns.flatMap (listing o)).map some := by
  induction ns generalizing left done with
  | nil => rfl
  | cons n ns ih =>
    obtain ⟨hn, hns⟩ := List.forall_mem_cons.1 h
    have hrest := fun done => @ih done (left ++ [n]) hns (by rwa [← List.append_cons])
    simp only [List.length_append, List.length_singleton] at hrest
    rw [visitsFromAll, List.map_append, hn _ _ (at?_neighbor hat), hrest, List.flatMap_cons,
      List.map_append]

theorem map_at?_visitsFrom (h : root.at? path = some n) :
    (n.visitsFrom (fun _ => o) path done).map root.at? = (n.listing o).map some := by
  induction n generalizing path done with
  | router info ns ih =>
    have hall : ∀ done, (visitsFromAll (fun _ => o) path 0 ns done).map root.at? =
        (ns.flatMap (listing o)).map some := fun done =>
      map_at?_visitsFromAll [] (fun n hn _ _ h => ih n hn h) h
    cases o with
    | pre =>
      rw [visitsFrom, List.map_cons, hall, h, listing, preorder_router]
      rfl
    | post =>
      rw [visitsFrom, List.map_append, hall, listing, postorder_router, List.map_append,
        List.map_singleton, h]
      rfl
  | host x =>
    rw [visitsFrom, List.map_singleton, h]
    cases o <;> simp [listing]

/-- If the order is the same at every router, the visits are at the nodes of the listing. -/
theorem map_at?_visits_const (o : Order) (n : Node) :
    (n.visits fun _ => o).map n.at? = (n.listing o).map some :=
  map_at?_visitsFrom rfl

end Overlay.Node
