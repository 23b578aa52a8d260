import Mathlib
import Overlay.Topology.Basic
import Overlay.Proofs.Node

/-!
Filling the tables of a tree. `filled` is the tree that results, by recursion over the tree, and
`synthesize_ofRoot` says that this is what the editor makes of it. In a tree whose tables were
empty a router then holds, neighbor by neighbor, the networks of the neighbor's tree in post-order
(`table_filled`).
-/

namespace Overlay

namespace Node

mutual

/-- The tree with the routes of every router appended to its table, neighbors first. -/
def filled : Node → Node
  | .router info ns =>
    .router { info with table := info.table ++ Router.downstream ⟨info, filledAll ns⟩ }
      (filledAll ns)
  | .host h => .host h

def filledAll : List Node → List Node
  | [] => []
  | n :: ns => filled n :: filledAll ns

end

theorem filledAll_eq_map (ns : List Node) : filledAll ns = ns.map filled := by
  induction ns with
  | nil => rfl
  | cons n ns ih => rw [filledAll, ih, List.map_cons]

@[simp]
theorem filled_router (info : RouterInfo) (ns : List Node) :
    (router info ns).filled =
      router { info with table := info.table ++ Router.downstream ⟨info, ns.map filled⟩ }
        (ns.map filled) := by
  rw [filled, filledAll_eq_map]

@[simp]
theorem filled_host (h : Host) : (host h).filled = host h := by
  rw [filled]

@[simp]
theorem id_filled (n : Node) : n.filled.id = n.id := by
  cases n <;> simp [id]

@[simp]
theorem kind_filled (n : Node) : n.filled.kind = n.kind := by
  cases n <;> simp [kind]

@[simp]
theorem uplink_filled (n : Node) : n.filled.uplink = n.uplink := by
  cases n <;> simp [uplink]

@[simp]
theorem neighbors_filled (n : Node) : n.filled.neighbors = n.neighbors.map filled := by
  cases n <;> simp [neighbors]

theorem preorder_filled (n : Node) : n.filled.preorder = n.preorder.map filled := by
  induction n with
  | router info ns ih =>
    rw [preorder_router, List.map_cons, filled_router, preorder_router, List.flatMap_map,
      List.map_flatMap]
    exact congrArg _ (List.flatMap_congr ih)
  | host h => simp

theorem preorder_filled_router (info : RouterInfo) (ns : List Node) :
    (router info ns).filled.preorder =
      (router info ns).filled :: ns.flatMap fun n => n.filled.preorder := by
  simp only [preorder_filled, preorder_router, List.map_cons, List.map_flatMap]

theorem distinct_filled_iff {n : Node} : n.filled.Distinct ↔ n.Distinct := by
  rw [Distinct, Distinct, preorder_filled, List.map_map]
  simp only [Function.comp_def, id_filled]

/-- Filling leaves hosts as they are. -/
theorem host_mem_preorder_filled_iff {n : Node} {x : Host} :
    host x ∈ n.filled.preorder ↔ host x ∈ n.preorder := by
  rw [preorder_filled, List.mem_map]
  constructor
  · rintro ⟨m, hm, hx⟩
    cases m with
    | router info ns =>
      rw [filled_router] at hx
      cases hx
    | host y =>
      rw [filled_host] at hx
      exact hx ▸ hm
  · intro hx
    exact ⟨_, hx, filled_host x⟩

theorem Ascending.filled {n : Node} (h : n.Ascending) : n.filled.Ascending := by
  intro l hl m hm hk
  rw [preorder_filled, List.mem_map] at hl
  obtain ⟨l, hl, rfl⟩ := hl
  rw [neighbors_filled, List.mem_map] at hm
  obtain ⟨m, hm, rfl⟩ := hm
  rw [id_filled, id_filled]
  exact h l hl m hm (kind_filled m ▸ hk)

/-- Number of routers of the tree. -/
def routerCount (n : Node) : Nat :=
  n.preorder.countP fun m => m.kind = .router

theorem routerCount_router (info : RouterInfo) (ns : List Node) :
    (router info ns).routerCount = (ns.map routerCount).sum + 1 := by
  rw [routerCount, preorder_router, List.countP_cons_of_pos (by simp [kind]), List.countP_flatMap]
  rfl

/-! ## The editor -/

/-- Editors that count edit the items of a list one by one. -/
theorem mapM_edit {f : Node → StateT Nat Option Node} {g : Node → Node} {k : Node → Nat}
    {ns : List Node} (h : ∀ n ∈ ns, ∀ count, f n count = some (g n, count + k n)) (count : Nat) :
    ns.mapM f count = some (ns.map g, count + (ns.map k).sum) := by
  induction ns generalizing count with
  | nil => rfl
  | cons n ns ih =>
    have hn := h n List.mem_cons_self count
    have hns := ih (fun m hm => h m (List.mem_cons_of_mem _ hm)) (count + k n)
    rw [mapM_cons_eq_some hn hns, List.map_cons, List.map_cons, List.sum_cons, Nat.add_assoc]

/-- Given enough levels the editor fills the tree and counts its routers. -/
theorem edit_synthesize (n : Node) {levels : Nat} (h : n.height ≤ levels) (count : Nat) :
    n.edit .synthesize levels count = some (n.filled, count + n.routerCount) := by
  induction n generalizing levels count with
  | router info ns ih =>
    obtain ⟨levels, rfl, hheight⟩ := exists_levels_of_height_le h
    have hns := mapM_edit (fun n hn count => ih n hn (hheight n hn) count) count
    rw [edit_router_post rfl, hns, Option.map_some, filled_router, routerCount_router]
    exact congrArg (fun count => some (_, count)) (Nat.add_assoc ..)
  | host h' =>
    obtain ⟨levels, rfl, -⟩ := exists_levels_of_height_le h
    rw [filled_host]
    rfl

end Node

/-- The router with the tables of its tree filled. -/
def Router.filled (r : Router) : Router :=
  let ns := r.neighbors.map Node.filled
  ⟨{ r.info with table := r.info.table ++ Router.downstream ⟨r.info, ns⟩ }, ns⟩

@[simp]
theorem Router.toNode_filled (r : Router) : r.filled.toNode = r.toNode.filled := by
  rw [toNode, toNode, Node.filled_router]
  rfl

theorem Router.distinct_filled {r : Router} (h : r.toNode.Distinct) : r.filled.toNode.Distinct := by
  rwa [toNode_filled, Node.distinct_filled_iff]

namespace Topology

theorem appendRoutes_eq (t : Topology) :
    t.appendRoutes = ({ t with root := t.root.filled }, t.root.toNode.routerCount) := by
  have hedit : t.root.edit .synthesize (t.root.height + 0) 0 =
      some (t.root.filled, t.root.toNode.routerCount) := by
    have hnode := Node.edit_synthesize t.root.toNode (Nat.le_refl t.root.height) 0
    rw [Nat.zero_add] at hnode
    rw [Router.edit, Nat.add_zero, hnode, Router.toNode, Node.filled_router]
    rfl
  rw [appendRoutes, edit, hedit]
  rfl

theorem synthesize_eq_ok_iff {t t' : Topology} :
    t.synthesize = .ok t' ↔ t.synthesized = false ∧ t' = ⟨t.root.filled, true⟩ := by
  rw [synthesize, appendRoutes_eq]
  cases t.synthesized with
  | false => simp [eq_comm]
  | true => simp

theorem synthesize_ofRoot (root : Router) : (ofRoot root).synthesize = .ok ⟨root.filled, true⟩ :=
  synthesize_eq_ok_iff.2 ⟨rfl, rfl⟩

end Topology

/-! ## The routes -/

namespace Node

/-- All tables of the tree are empty. -/
def Blank (n : Node) : Prop :=
  ∀ m ∈ n.preorder, m.table = []

/-- The routes on the positions of a list of neighbors to everything below them. -/
def routesBelow (ns : List Node) : List Route :=
  ns.zipIdx.flatMap fun (n, i) => n.postorder.map fun d => ⟨.ofNat (i + 1), d.uplink⟩

theorem Blank.of_mem {m n : Node} (h : n.Blank) (hm : m ∈ n.preorder) : m.Blank :=
  fun l hl => h l (mem_preorder_trans hl hm)

theorem Blank.of_mem_neighbors {m n : Node} (h : n.Blank) (hm : m ∈ n.neighbors) : m.Blank :=
  h.of_mem (mem_preorder_of_mem_neighbors hm)

theorem downstream_filled (info : RouterInfo) (ns : List Node) :
    Router.downstream ⟨info, ns.map filled⟩ =
      ns.zipIdx.flatMap fun (n, i) =>
        (n.filled.table.map (·.subnet) ++ [n.uplink]).map fun net => ⟨.ofNat (i + 1), net⟩ := by
  rw [Router.downstream, Router.egressNeighbors, List.flatMap_map, List.zipIdx_map,
    List.flatMap_map]
  simp [Function.comp_def]

/-- A filled table and the network of the node itself are the networks of its tree. -/
theorem subnets_filled {n : Node} (h : n.Blank) :
    n.filled.table.map (·.subnet) ++ [n.uplink] = n.postorder.map uplink := by
  induction n with
  | router info ns ih =>
    have htable : info.table = [] := h _ (mem_preorder_self _)
    have hns : ∀ n ∈ ns, n.filled.table.map (·.subnet) ++ [n.uplink] = n.postorder.map uplink :=
      fun n hn => ih n hn (h.of_mem_neighbors hn)
    rw [filled_router, table, htable, List.nil_append, downstream_filled, postorder_router,
      List.map_append, List.map_flatMap, List.map_flatMap]
    congr 1
    simp only [List.map_map, Function.comp_def, List.map_id']
    rw [← List.flatMap_congr hns]
    conv_rhs => rw [← List.zipIdx_map_fst 0 ns, List.flatMap_map]
  | host h' => simp [table, uplink]

/-- The table of a router after filling, neighbor by neighbor. -/
theorem table_filled {info : RouterInfo} {ns : List Node} (h : (router info ns).Blank) :
    (router info ns).filled.table = routesBelow ns := by
  have htable : info.table = [] := h _ (mem_preorder_self _)
  rw [filled_router, table, htable, List.nil_append, downstream_filled, routesBelow]
  refine List.flatMap_congr fun ⟨n, i⟩ he => ?_
  have hn : n ∈ ns := List.fst_mem_of_mem_zipIdx he
  dsimp only
  rw [subnets_filled (h.of_mem_neighbors hn), List.map_map]
  rfl

end Node

end Overlay
