import Mathlib
import Overlay.Node.Walk
import Overlay.Proofs.Lists

/-!
Trees of nodes. `induct` is induction over a tree; the listings are described by the neighbors of
each node. In the list of all nodes every node but the root stands as a neighbor of exactly one of
them (`perm_preorder`), so if the numbers are distinct, a number determines the node, its router
and its position there (`Distinct.eq_of_id_eq`, `Distinct.position_unique`).
-/

namespace Overlay.Node

@[elab_as_elim, induction_eliminator]
theorem induct {P : Node → Prop}
    (router : ∀ info ns, (∀ n ∈ ns, P n) → P (.router info ns))
    (host : ∀ h, P (.host h)) (n : Node) : P n :=
  @Node.rec P (fun ns => ∀ n ∈ ns, P n) router host (by simp)
    (fun _ _ hn hns => List.forall_mem_cons.2 ⟨hn, hns⟩) n

/-- The neighbors of a node, not counting the router above it. -/
def neighbors : Node → List Node
  | .router _ ns => ns
  | .host _ => []

/-- Induction over a tree where routers and hosts are dealt with alike. -/
theorem induct_neighbors {P : Node → Prop} (h : ∀ n, (∀ m ∈ n.neighbors, P m) → P n) (n : Node) :
    P n := by
  induction n with
  | router info ns ih => exact h _ ih
  | host x => exact h _ (by simp [neighbors])

/-! ## Listings -/

theorem preorderAll_eq_flatMap (ns : List Node) : preorderAll ns = ns.flatMap preorder := by
  induction ns with
  | nil => rfl
  | cons n ns ih => rw [preorderAll, ih, List.flatMap_cons]

theorem postorderAll_eq_flatMap (ns : List Node) : postorderAll ns = ns.flatMap postorder := by
  induction ns with
  | nil => rfl
  | cons n ns ih => rw [postorderAll, ih, List.flatMap_cons]

@[simp]
theorem preorder_router (info : RouterInfo) (ns : List Node) :
    (router info ns).preorder = router info ns :: ns.flatMap preorder := by
  rw [preorder, preorderAll_eq_flatMap]

@[simp]
theorem preorder_host (h : Host) : (host h).preorder = [host h] := by
  rw [preorder]

@[simp]
theorem postorder_router (info : RouterInfo) (ns : List Node) :
    (router info ns).postorder = ns.flatMap postorder ++ [router info ns] := by
  rw [postorder, postorderAll_eq_flatMap]

@[simp]
theorem postorder_host (h : Host) : (host h).postorder = [host h] := by
  rw [postorder]

theorem preorder_eq_cons (n : Node) : n.preorder = n :: n.neighbors.flatMap preorder := by
  cases n <;> simp [neighbors]

theorem postorder_perm_preorder (n : Node) : n.postorder.Perm n.preorder := by
  induction n with
  | router info ns ih =>
    rw [preorder_router, postorder_router]
    exact List.perm_append_singleton _ _ |>.trans ((List.Perm.flatMap_left ns ih).cons _)
  | host h => rw [preorder_host, postorder_host]

theorem mem_postorder_iff {m n : Node} : m ∈ n.postorder ↔ m ∈ n.preorder :=
  (postorder_perm_preorder n).mem_iff

theorem mem_preorder_self (n : Node) : n ∈ n.preorder := by
  cases n <;> simp

theorem mem_preorder_of_mem {m n : Node} {info : RouterInfo} {ns : List Node} (hn : n ∈ ns)
    (hm : m ∈ n.preorder) : m ∈ (router info ns).preorder := by
  rw [preorder_router]
  exact List.mem_cons_of_mem _ (List.mem_flatMap.2 ⟨n, hn, hm⟩)

/-- The nodes of a tree that is part of another stand together there. -/
theorem preorder_sublist {m n : Node} (h : m ∈ n.preorder) : m.preorder.Sublist n.preorder := by
  induction n with
  | router info ns ih =>
    rw [preorder_router, List.mem_cons, List.mem_flatMap] at h
    rcases h with rfl | ⟨n, hn, h⟩
    · exact List.Sublist.refl _
    · obtain ⟨before, after, rfl⟩ := List.append_of_mem hn
      rw [preorder_router, List.flatMap_append, List.flatMap_cons]
      exact (((ih n hn h).trans (List.sublist_append_left _ _)).trans
        (List.sublist_append_right _ _)).cons _
  | host h' =>
    rw [preorder_host, List.mem_singleton] at h
    exact h ▸ List.Sublist.refl _

theorem mem_preorder_trans {l m n : Node} (hl : l ∈ m.preorder) (hm : m ∈ n.preorder) :
    l ∈ n.preorder :=
  (preorder_sublist hm).subset hl

theorem mem_preorder_of_mem_neighbors {m n : Node} (h : m ∈ n.neighbors) : m ∈ n.preorder := by
  cases n with
  | router info ns => exact mem_preorder_of_mem h (mem_preorder_self m)
  | host h' => cases h

/-- The nodes of a tree are its root and the neighbors of its nodes. -/
theorem perm_preorder (n : Node) : n.preorder.Perm (n :: n.preorder.flatMap neighbors) := by
  induction n with
  | router info ns ih =>
    have hall : (ns.flatMap preorder).Perm (ns ++ (ns.flatMap preorder).flatMap neighbors) := by
      rw [List.flatMap_assoc]
      refine (List.Perm.flatMap_left ns ih).trans ?_
      have := (List.flatMap_append_perm ns (fun n => [n]) fun n => n.preorder.flatMap neighbors).symm
      simpa using this
    rw [preorder_router, List.flatMap_cons]
    exact hall.cons _
  | host h => simp [neighbors]

theorem eq_or_mem_neighbors_of_mem {m n : Node} (h : m ∈ n.preorder) :
    m = n ∨ ∃ l ∈ n.preorder, m ∈ l.neighbors := by
  rw [(perm_preorder n).mem_iff, List.mem_cons, List.mem_flatMap] at h
  exact h

/-- Every node but the root hangs on one link. -/
theorem sum_length_neighbors (n : Node) :
    (n.preorder.map fun m => m.neighbors.length).sum + 1 = n.preorder.length := by
  rw [(perm_preorder n).length_eq, List.length_cons, List.length_flatMap]

theorem length_neighbors_lt (n : Node) : n.neighbors.length < n.preorder.length := by
  have hmem : n.neighbors.length ∈ n.preorder.map fun m => m.neighbors.length :=
    List.mem_map_of_mem (mem_preorder_self n)
  have hle := List.single_le_sum (fun _ _ => Nat.zero_le _) _ hmem
  have hsum := n.sum_length_neighbors
  omega

theorem le_heightAll {n : Node} {ns : List Node} (h : n ∈ ns) : n.height ≤ heightAll ns := by
  induction ns with
  | nil => cases h
  | cons m ns ih =>
    rw [heightAll]
    rcases List.mem_cons.1 h with rfl | h
    · exact Nat.le_max_left _ _
    · exact Nat.le_trans (ih h) (Nat.le_max_right _ _)

/-- Routers named as neighbors have larger numbers than the router that names them. -/
def Ascending (n : Node) : Prop :=
  ∀ l ∈ n.preorder, ∀ m ∈ l.neighbors, m.kind = .router → l.id < m.id

/-! ## Distinct numbers -/

/-- No two nodes of the tree have the same number. -/
def Distinct (n : Node) : Prop :=
  (n.preorder.map id).Nodup

namespace Distinct

variable {n l m : Node} (h : n.Distinct)

include h

theorem eq_of_id_eq (hl : l ∈ n.preorder) (hm : m ∈ n.preorder) (hid : l.id = m.id) : l = m :=
  List.inj_on_of_nodup_map h hl hm hid

theorem nodup_cons_neighbors : ((n :: n.preorder.flatMap neighbors).map id).Nodup :=
  ((perm_preorder n).map id).nodup_iff.1 h

/-- The root is nobody's neighbor. -/
theorem id_ne_of_mem_neighbors (hl : l ∈ n.preorder) (hm : m ∈ l.neighbors) : m.id ≠ n.id := by
  have hnodup := h.nodup_cons_neighbors
  rw [List.map_cons, List.nodup_cons] at hnodup
  intro hid
  exact hnodup.1 (hid ▸ List.mem_map_of_mem (List.mem_flatMap.2 ⟨l, hl, hm⟩))

/-- The number of a neighbor determines its router and its position. -/
theorem position_unique {l' m' : Node} {i j : Nat} (hl : l ∈ n.preorder) (hl' : l' ∈ n.preorder)
    (hm : l.neighbors[i]? = some m) (hm' : l'.neighbors[j]? = some m') (hid : m.id = m'.id) :
    l = l' ∧ i = j := by
  have hnodup := h.nodup_cons_neighbors
  rw [List.map_cons, List.nodup_cons, List.map_flatMap] at hnodup
  refine Lists.position_unique hnodup.2 hl hl' (x := m.id) ?_ ?_
  · rw [List.getElem?_map, hm, Option.map_some]
  · rw [List.getElem?_map, hm', Option.map_some, hid]

theorem of_mem (hm : m ∈ n.preorder) : m.Distinct :=
  h.sublist ((preorder_sublist hm).map id)

/-- There are no more nodes than numbers. -/
theorem length_preorder_le : n.preorder.length ≤ 2 ^ 32 := by
  have hnodup : ((n.preorder.map id).map UInt32.toNat).Nodup :=
    List.Nodup.map (fun _ _ => UInt32.toNat_inj.1) h
  have hsub : (n.preorder.map id).map UInt32.toNat ⊆ List.range (2 ^ 32) := by
    intro k hk
    obtain ⟨i, -, rfl⟩ := List.mem_map.1 hk
    exact List.mem_range.2 i.toNat_lt
  have hlen := (List.subperm_of_subset hnodup hsub).length_le
  rwa [List.length_map, List.length_map, List.length_range] at hlen

theorem length_neighbors_lt (hm : m ∈ n.preorder) : m.neighbors.length < 2 ^ 32 :=
  (m.length_neighbors_lt).trans_le ((h.of_mem hm).length_preorder_le)

/-- No router stands below itself. -/
theorem not_mem_preorder {info : RouterInfo} {ns : List Node} (hm : router info ns ∈ n.preorder)
    (hl : l ∈ ns) : router info ns ∉ l.preorder := by
  have hnodup := h.of_mem hm
  rw [Distinct, preorder_router, List.map_cons, List.nodup_cons] at hnodup
  intro hself
  exact hnodup.1 (List.mem_map_of_mem (List.mem_flatMap.2 ⟨l, hl, hself⟩))

/-- A node stands below one neighbor of a router at most. -/
theorem below_unique {info : RouterInfo} {ns : List Node} {l' : Node} {i j : Nat}
    (hr : router info ns ∈ n.preorder) (hl : ns[i]? = some l) (hl' : ns[j]? = some l')
    (hm : m ∈ l.preorder) (hm' : m ∈ l'.preorder) : i = j := by
  have hnodup := h.of_mem hr
  rw [Distinct, preorder_router, List.map_cons, List.nodup_cons, List.map_flatMap,
    List.nodup_flatMap, List.pairwise_iff_getElem] at hnodup
  obtain ⟨hi, rfl⟩ := List.getElem?_eq_some_iff.1 hl
  obtain ⟨hj, rfl⟩ := List.getElem?_eq_some_iff.1 hl'
  have hid := List.mem_map_of_mem (f := id) hm
  have hid' := List.mem_map_of_mem (f := id) hm'
  rcases Nat.lt_trichotomy i j with hlt | heq | hgt
  · exact absurd hid' (hnodup.2.2 i j hi hj hlt hid)
  · exact heq
  · exact absurd hid (hnodup.2.2 j i hj hi hgt hid')

end Distinct

end Overlay.Node

/-! ## Walks as runs over a listing -/

namespace Overlay

/-- What a visitor does at one node. -/
def Visitor.visit (v : Visitor σ) : Node → σ → σ
  | .router info ns => v.router ⟨info, ns⟩
  | .host h => v.host h

namespace Node

variable {v : Visitor σ}

theorem walkAll_eq_foldl (ns : List Node) (s : σ) :
    walkAll v ns s = ns.foldl (fun s n => n.walk v s) s := by
  induction ns generalizing s with
  | nil => rfl
  | cons n ns ih => rw [walkAll, ih, List.foldl_cons]

/-- A walk that visits every router before its neighbors visits the nodes in this order. -/
theorem walk_eq_foldl_preorder (hv : ∀ s, v.order s = .pre) (n : Node) (s : σ) :
    n.walk v s = n.preorder.foldl (fun s m => v.visit m s) s := by
  induction n generalizing s with
  | router info ns ih =>
    rw [walk, hv, walkAll_eq_foldl, preorder_router, List.foldl_cons, List.foldl_flatMap]
    exact List.foldl_ext _ _ _ fun s n hn => ih n hn s
  | host h =>
    rw [walk, preorder_host]
    rfl

end Node

/-- The nodes visited by a walk that comes to every router before its neighbors. -/
theorem Router.visited_pre (r : Router) : r.visited .pre = r.toNode.preorder := by
  have hcollect : ∀ ns s : List Node, ns.foldl (fun s m => (Visitor.collect .pre).visit m s) s =
      ns.reverse ++ s := by
    intro ns
    induction ns with
    | nil => exact fun _ => rfl
    | cons n ns ih =>
      intro s
      rw [List.foldl_cons, ih, List.reverse_cons, List.append_assoc]
      cases n <;> rfl
  rw [visited, walk, Node.walk_eq_foldl_preorder fun _ => rfl, hcollect, List.append_nil,
    List.reverse_reverse]

/-! ## Editors -/

namespace Node

variable {e : Editor σ} {s : σ} {levels : Nat} {ns : List Node}

theorem edit_router_pre {info : RouterInfo} (h : e.order s = .pre) :
    (router info ns).edit e (levels + 1) s =
      ((e.router ⟨info, ns⟩ s).1.neighbors.mapM (Node.edit e levels)
        (e.router ⟨info, ns⟩ s).2).map
          fun x => (router (e.router ⟨info, ns⟩ s).1.info x.1, x.2) := by
  simp only [edit, h]

theorem edit_router_post {info : RouterInfo} (h : e.order s = .post) :
    (router info ns).edit e (levels + 1) s =
      (ns.mapM (Node.edit e levels) s).map
        fun x => ((e.router ⟨info, x.1⟩ x.2).1.toNode, (e.router ⟨info, x.1⟩ x.2).2) := by
  simp only [edit, h]

theorem mapM_cons_eq_some {f : Node → StateT σ Option Node} {n n' : Node} {ns' : List Node}
    {s₁ s₂ : σ} (hn : f n s = some (n', s₁)) (hns : ns.mapM f s₁ = some (ns', s₂)) :
    (n :: ns).mapM f s = some (n' :: ns', s₂) := by
  rw [List.mapM_cons]
  change (f n s).bind (fun r => (ns.mapM f r.2).bind fun rs => some (r.1 :: rs.1, rs.2)) = _
  rw [hn, Option.bind_some, hns, Option.bind_some]

/-- Levels that are enough for a tree are, but for one, enough for the trees of its neighbors. -/
theorem exists_levels_of_height_le {n : Node} (h : n.height ≤ levels) :
    ∃ l, levels = l + 1 ∧ ∀ m ∈ n.neighbors, m.height ≤ l := by
  cases n with
  | router info ns =>
    rw [height] at h
    have hall : heightAll ns ≤ levels - 1 := by omega
    exact ⟨levels - 1, by omega, fun m hm => (le_heightAll hm).trans hall⟩
  | host x =>
    rw [height] at h
    exact ⟨levels - 1, by omega, nofun⟩

end Node

end Overlay
