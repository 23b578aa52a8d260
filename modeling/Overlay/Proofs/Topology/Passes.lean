import Mathlib
import Overlay.Proofs.Topology.Tables

/-!
Filling tables more than once. `Topology.synthesize` refuses a second time, but the pass that it
makes can be made without asking, and appends to what is there. What the tables hold follows from
the number of passes alone (`Topology.run_eq`): after `k` of them a router has the network of a
node with `e` routers in between `choose (k + e) (e + 1)` times (`Node.table_iterate_filled`). So
tables are right as long as there was at most one pass (`Topology.tables_of_run`).
-/

namespace Overlay

open AddressPlan (standardSubnet)

namespace Node

/-! ## Nodes by distance -/

mutual

/-- The nodes of the tree, each as often as `c` tells for its distance from the root. -/
def copies (c : Nat → Nat) : Node → List Node
  | .router info ns =>
    List.replicate (c 0) (.router info ns) ++ copiesAll (fun e => c (e + 1)) ns
  | .host h => List.replicate (c 0) (.host h)

def copiesAll (c : Nat → Nat) : List Node → List Node
  | [] => []
  | n :: ns => copies c n ++ copiesAll c ns

end

theorem copiesAll_eq_flatMap (c : Nat → Nat) (ns : List Node) :
    copiesAll c ns = ns.flatMap (copies c) := by
  induction ns with
  | nil => rfl
  | cons n ns ih => rw [copiesAll, ih, List.flatMap_cons]

theorem copies_eq (c : Nat → Nat) (n : Node) :
    n.copies c = List.replicate (c 0) n ++ n.neighbors.flatMap (copies fun e => c (e + 1)) := by
  cases n with
  | router info ns => rw [copies, copiesAll_eq_flatMap, neighbors]
  | host h => simp [copies, neighbors]

theorem copies_zero (n : Node) : n.copies (fun _ => 0) = [] := by
  induction n using induct_neighbors with
  | h n ih =>
    rw [copies_eq, List.replicate_zero, List.nil_append]
    exact List.flatMap_eq_nil_iff.2 ih

theorem copies_one (n : Node) : n.copies (fun _ => 1) = n.preorder := by
  induction n using induct_neighbors with
  | h n ih =>
    rw [copies_eq, preorder_eq_cons, List.flatMap_congr ih]
    rfl

theorem copies_add_perm (b c : Nat → Nat) (n : Node) :
    (n.copies fun e => b e + c e).Perm (n.copies b ++ n.copies c) := by
  induction n using induct_neighbors generalizing b c with
  | h n ih =>
    have hbelow : (n.neighbors.flatMap (copies fun e => b (e + 1) + c (e + 1))).Perm
        (n.neighbors.flatMap (copies fun e => b (e + 1)) ++
          n.neighbors.flatMap (copies fun e => c (e + 1))) :=
      (List.Perm.flatMap_left _ fun m hm => ih m hm _ _).trans
        (List.flatMap_append_perm _ _ _).symm
    rw [copies_eq, copies_eq b, copies_eq c, List.replicate_add, List.append_assoc,
      List.append_assoc]
    refine List.Perm.append_left _ ?_
    refine (hbelow.append_left _).trans ?_
    rw [← List.append_assoc, ← List.append_assoc]
    exact List.perm_append_comm.append_right _

/-- Every node stands at least `k` times in a list where `c` is never smaller. -/
theorem mul_length_preorder_le {k : Nat} (c : Nat → Nat) (hc : ∀ e, k ≤ c e) (n : Node) :
    k * n.preorder.length ≤ (n.copies c).length := by
  induction n using induct_neighbors generalizing c with
  | h n ih =>
    have hbelow : k * (n.neighbors.flatMap preorder).length ≤
        (n.neighbors.flatMap (copies fun e => c (e + 1))).length := by
      rw [List.length_flatMap, List.length_flatMap, ← List.sum_map_mul_left]
      exact List.sum_le_sum fun m hm => ih m hm _ fun e => hc (e + 1)
    rw [preorder_eq_cons, copies_eq, List.length_cons, List.length_append, List.length_replicate,
      Nat.mul_succ, Nat.add_comm]
    exact Nat.add_le_add (hc 0) hbelow

theorem map_uplink_copies_filled (c : Nat → Nat) (n : Node) :
    (n.filled.copies c).map uplink = (n.copies c).map uplink := by
  induction n using induct_neighbors generalizing c with
  | h n ih =>
    rw [copies_eq, copies_eq, List.map_append, List.map_append, List.map_replicate,
      List.map_replicate, uplink_filled, neighbors_filled, List.flatMap_map, List.map_flatMap,
      List.map_flatMap, List.flatMap_congr fun m hm => ih m hm fun e => c (e + 1)]

/-! ## Routes after some passes -/

/-- How often a router has the network of a node with `e` routers in between, after `k` passes. -/
def multiplicity (k e : Nat) : Nat :=
  (k + e).choose (e + 1)

/-- The routes on the positions of a list of neighbors after `k` passes. -/
def routesAfter (k : Nat) (ns : List Node) : List Route :=
  ns.zipIdx.flatMap fun (n, i) =>
    (n.copies (multiplicity k)).map fun d => ⟨.ofNat (i + 1), d.uplink⟩

/-- The nodes whose networks a neighbor passes on in the pass after `k` others, as often as it
does. -/
def passedOn (k : Nat) (n : Node) : List Node :=
  n.copies fun e => (k + e).choose e

theorem multiplicity_zero : multiplicity 0 = fun _ => 0 := by
  funext e
  rw [multiplicity, Nat.zero_add, Nat.choose_succ_self]

theorem multiplicity_one : multiplicity 1 = fun _ => 1 := by
  funext e
  rw [multiplicity, Nat.add_comm, Nat.choose_self]

/-- Pascal's rule. -/
theorem multiplicity_succ (k : Nat) :
    multiplicity (k + 1) = fun e => multiplicity k e + (k + e).choose e := by
  funext e
  rw [multiplicity, multiplicity, Nat.add_right_comm, Nat.choose_succ_succ', Nat.add_comm]

theorem le_multiplicity (k e : Nat) : k ≤ multiplicity k e := by
  induction e with
  | zero => simp [multiplicity]
  | succ e ih =>
    rw [multiplicity, ← Nat.add_assoc, Nat.choose_succ_succ']
    exact ih.trans (Nat.le_add_right _ _)

/-- The routes do not depend on tables. -/
theorem routesAfter_map_filled (k : Nat) (ns : List Node) :
    routesAfter k (ns.map filled) = routesAfter k ns := by
  have hpiece : ∀ x ∈ ns.zipIdx, ((x.1.filled.copies (multiplicity k)).map fun d =>
      (⟨.ofNat (x.2 + 1), d.uplink⟩ : Route)) =
        (x.1.copies (multiplicity k)).map fun d => ⟨.ofNat (x.2 + 1), d.uplink⟩ := by
    intro x _
    have := congrArg (List.map fun net => (⟨.ofNat (x.2 + 1), net⟩ : Route))
      (map_uplink_copies_filled (multiplicity k) x.1)
    rwa [List.map_map, List.map_map] at this
  unfold routesAfter
  rw [List.zipIdx_map, List.flatMap_map]
  exact List.flatMap_congr hpiece

theorem routesAfter_zero (ns : List Node) : routesAfter 0 ns = [] := by
  simp [routesAfter, multiplicity_zero, copies_zero]

theorem routesAfter_one_perm (ns : List Node) : (routesAfter 1 ns).Perm (routesBelow ns) := by
  unfold routesAfter routesBelow
  rw [multiplicity_one]
  refine List.Perm.flatMap_left _ fun x _ => ?_
  dsimp only
  rw [copies_one]
  exact (postorder_perm_preorder x.1).symm.map _

/-- One pass more appends what the neighbors pass on. -/
theorem routesAfter_succ_perm (k : Nat) (ns : List Node) :
    (routesAfter (k + 1) ns).Perm (routesAfter k ns ++ ns.zipIdx.flatMap fun (n, i) =>
      (n.passedOn k).map fun d => ⟨.ofNat (i + 1), d.uplink⟩) := by
  unfold routesAfter passedOn
  rw [multiplicity_succ]
  refine (List.Perm.flatMap_left _ fun x _ => ?_).trans (List.flatMap_append_perm _ _ _).symm
  dsimp only
  rw [← List.map_append]
  exact (copies_add_perm _ _ x.1).map _

/-- What a router passes on are its own network and the routes that it has after the pass. -/
theorem map_uplink_passedOn (k : Nat) (n : Node) :
    (n.passedOn k).map uplink =
      n.uplink :: (routesAfter (k + 1) n.neighbors).map (·.subnet) := by
  have hbelow : (fun e => (k + (e + 1)).choose (e + 1)) = multiplicity (k + 1) := by
    funext e
    rw [multiplicity, Nat.add_right_comm, Nat.add_assoc]
  have hsubnets : (routesAfter (k + 1) n.neighbors).map (·.subnet) =
      n.neighbors.flatMap fun m => (m.copies (multiplicity (k + 1))).map uplink := by
    rw [routesAfter, List.map_flatMap]
    simp only [List.map_map, Function.comp_def]
    conv_rhs => rw [← List.zipIdx_map_fst 0 n.neighbors, List.flatMap_map]
  rw [passedOn, copies_eq, hbelow, hsubnets, Nat.choose_zero_right, List.map_append,
    List.map_flatMap]
  rfl

/-! ## Passes -/

theorem neighbors_iterate_filled (k : Nat) (n : Node) :
    (filled^[k] n).neighbors = n.neighbors.map filled^[k] := by
  induction k with
  | zero => simp
  | succ k ih =>
    rw [Function.iterate_succ_apply', neighbors_filled, ih, List.map_map, Function.iterate_succ']

theorem uplink_iterate_filled (k : Nat) (n : Node) : (filled^[k] n).uplink = n.uplink := by
  induction k with
  | zero => rfl
  | succ k ih => rw [Function.iterate_succ_apply', uplink_filled, ih]

/-- A pass appends the routes that the neighbors pass on. -/
theorem table_filled_append (n : Node) :
    n.filled.table = n.table ++ n.neighbors.zipIdx.flatMap fun (m, i) =>
      (m.filled.table.map (·.subnet) ++ [m.uplink]).map fun net => ⟨.ofNat (i + 1), net⟩ := by
  cases n with
  | router info ns =>
    rw [filled_router, table, downstream_filled]
    rfl
  | host h => simp [table, neighbors]

theorem table_iterate_filled {n : Node} (h : n.Blank) (k : Nat) :
    (filled^[k] n).table.Perm (routesAfter k n.neighbors) := by
  induction n using induct_neighbors generalizing k with
  | h n ih =>
    induction k with
    | zero =>
      rw [routesAfter_zero, Function.iterate_zero, id_eq, h n (mem_preorder_self n)]
    | succ k ihk =>
      have hstep : ∀ m ∈ n.neighbors,
          ((filled^[k + 1] m).table.map (·.subnet) ++ [m.uplink]).Perm
            ((m.passedOn k).map uplink) := by
        intro m hm
        rw [map_uplink_passedOn]
        exact (List.perm_append_singleton _ _).trans
          (((ih m hm (h.of_mem_neighbors hm) (k + 1)).map _).cons _)
      rw [Function.iterate_succ_apply', table_filled_append, neighbors_iterate_filled]
      refine (ihk.append ?_).trans (routesAfter_succ_perm k n.neighbors).symm
      rw [List.zipIdx_map, List.flatMap_map]
      refine List.Perm.flatMap_left _ fun x hx => ?_
      have hx := hstep x.1 (List.fst_mem_of_mem_zipIdx hx)
      rw [Function.iterate_succ_apply'] at hx
      simpa [uplink_iterate_filled, Function.comp_def] using
        hx.map fun net => (⟨.ofNat (x.2 + 1), net⟩ : Route)

theorem preorder_iterate_filled (k : Nat) (n : Node) :
    (filled^[k] n).preorder = n.preorder.map filled^[k] := by
  induction k with
  | zero => simp
  | succ k ih =>
    rw [Function.iterate_succ_apply', preorder_filled, ih, List.map_map, Function.iterate_succ']

theorem cleared_iterate_filled (k : Nat) (n : Node) : (filled^[k] n).cleared = n.cleared := by
  induction k with
  | zero => rfl
  | succ k ih => rw [Function.iterate_succ_apply', cleared_filled, ih]

theorem routesAfter_map_iterate_filled (j k : Nat) (ns : List Node) :
    routesAfter k (ns.map filled^[j]) = routesAfter k ns := by
  induction j with
  | zero => simp
  | succ j ih => rw [Function.iterate_succ', ← List.map_map, routesAfter_map_filled, ih]

/-- The table of every router after some passes. -/
theorem table_of_mem_preorder_iterate {n : Node} (h : n.Blank) {k : Nat} {info : RouterInfo}
    {ns : List Node} (hm : router info ns ∈ (filled^[k] n).preorder) :
    info.table.Perm (routesAfter k ns) := by
  rw [preorder_iterate_filled, List.mem_map] at hm
  obtain ⟨m, hm, heq⟩ := hm
  have htable := table_iterate_filled (h.of_mem hm) k
  have hneighbors := neighbors_iterate_filled k m
  rw [heq, neighbors] at hneighbors
  rwa [heq, table, ← routesAfter_map_iterate_filled k, ← hneighbors] at htable

theorem mul_length_routesBelow_le (k : Nat) (ns : List Node) :
    k * (routesBelow ns).length ≤ (routesAfter k ns).length := by
  rw [routesBelow, routesAfter, List.length_flatMap, List.length_flatMap, ← List.sum_map_mul_left]
  refine List.sum_le_sum fun x _ => ?_
  dsimp only
  rw [List.length_map, List.length_map, (postorder_perm_preorder x.1).length_eq]
  exact mul_length_preorder_le _ (le_multiplicity k) x.1

theorem length_routesBelow_pos {ns : List Node} (h : ns ≠ []) : 0 < (routesBelow ns).length := by
  obtain ⟨n, ns, rfl⟩ := List.exists_cons_of_ne_nil h
  rw [routesBelow, List.zipIdx_cons, List.flatMap_cons, List.length_append, List.length_map,
    (postorder_perm_preorder n).length_eq, preorder_eq_cons, List.length_cons]
  omega

/-- After no pass there are no routes, after one there are the right ones, and after more there are
too many, unless there is nothing to route to. -/
theorem nil_or_perm_routesBelow_iff {k : Nat} {ns : List Node} :
    routesAfter k ns = [] ∨ (routesAfter k ns).Perm (routesBelow ns) ↔ k ≤ 1 ∨ ns = [] := by
  constructor
  · intro hright
    by_contra hnot
    obtain ⟨hk, hne⟩ := not_or.1 hnot
    have hpos := length_routesBelow_pos hne
    have hmany := mul_length_routesBelow_le k ns
    have htwice := Nat.mul_le_mul_right (routesBelow ns).length (Nat.not_le.1 hk)
    rcases hright with hnil | hperm
    · rw [hnil, List.length_nil] at hmany
      omega
    · rw [hperm.length_eq] at hmany
      omega
  · rintro (hk | rfl)
    · rcases Nat.le_one_iff_eq_zero_or_eq_one.1 hk with rfl | rfl
      · exact .inl (routesAfter_zero ns)
      · exact .inr (routesAfter_one_perm ns)
    · exact .inl rfl

/-- Every table is empty or right after at most one pass, or where there is nothing to route to. -/
theorem right_iterate_iff {n : Node} (h : n.Blank) {k : Nat} :
    (∀ info ns, .router info ns ∈ (filled^[k] n).preorder →
        info.table = [] ∨ info.table.Perm (routesBelow ns)) ↔
      k ≤ 1 ∨ n.neighbors = [] := by
  have hneighbors := neighbors_iterate_filled k n
  constructor
  · intro hall
    -- The table at the root is enough to tell.
    rcases hroot : filled^[k] n with ⟨info, ns⟩ | host <;> rw [hroot, neighbors] at hneighbors
    · have hmem : router info ns ∈ (filled^[k] n).preorder := hroot ▸ mem_preorder_self _
      have hright := (Lists.nil_or_perm_iff (table_of_mem_preorder_iterate h hmem)).1
        (hall info ns hmem)
      refine (nil_or_perm_routesBelow_iff.1 hright).imp_right fun hnil => ?_
      exact List.map_eq_nil_iff.1 (hneighbors.symm.trans hnil)
    · exact .inr (List.map_eq_nil_iff.1 hneighbors.symm)
  · intro hfew info ns hm
    refine (Lists.nil_or_perm_iff (table_of_mem_preorder_iterate h hm)).2
      (nil_or_perm_routesBelow_iff.2 (hfew.imp_right fun hnil => ?_))
    -- Without neighbors the root is the only node.
    rw [hnil, List.map_nil] at hneighbors
    rw [preorder_eq_cons, hneighbors, List.flatMap_nil, List.mem_singleton] at hm
    rwa [← hm, neighbors] at hneighbors

end Node

namespace Topology

/-! ## Calls -/

/-- The two calls that fill tables. -/
inductive Call
  /-- Fills them once, and is refused from then on. -/
  | synthesize
  /-- Fills them whatever was done before. -/
  | appendRoutes
deriving DecidableEq

/-- The topology after a call; one that is refused leaves it as it is. -/
def after (t : Topology) : Call → Topology
  | .synthesize =>
    match t.synthesize with
    | .ok t' => t'
    | .error _ => t
  | .appendRoutes => t.appendRoutes.1

/-- The topology after some calls, in order. -/
def run (t : Topology) (calls : List Call) : Topology :=
  calls.foldl after t

/-- How many of the calls fill the tables of a new topology. -/
def passes (calls : List Call) : Nat :=
  calls.count .appendRoutes + if .synthesize ∈ calls then 1 else 0

theorem run_concat (t : Topology) (calls : List Call) (c : Call) :
    t.run (calls ++ [c]) = (t.run calls).after c := by
  rw [run, List.foldl_append]
  rfl

theorem after_synthesize (t : Topology) :
    t.after .synthesize = if t.synthesized then t else ⟨t.root.filled, true⟩ := by
  obtain ⟨root, synthesized⟩ := t
  unfold after
  cases synthesized with
  | false =>
    have hok : (⟨root, false⟩ : Topology).synthesize = .ok ⟨root.filled, true⟩ :=
      synthesize_ofRoot root
    rw [hok]
    rfl
  | true => rfl

theorem after_appendRoutes (t : Topology) :
    t.after .appendRoutes = ⟨t.root.filled, t.synthesized⟩ := by
  rw [after, appendRoutes_eq]

theorem passes_concat_synthesize (calls : List Call) :
    passes (calls ++ [.synthesize]) =
      if .synthesize ∈ calls then passes calls else passes calls + 1 := by
  unfold passes
  split <;> simp_all

theorem passes_concat_appendRoutes (calls : List Call) :
    passes (calls ++ [.appendRoutes]) = passes calls + 1 := by
  simp [passes, Nat.add_right_comm]

/-- A topology tells which calls there were only by the number of passes, and by whether it has been
filled by the call that asks. -/
theorem run_eq (root : Router) (calls : List Call) :
    (ofRoot root).run calls =
      ⟨Router.filled^[passes calls] root, decide (.synthesize ∈ calls)⟩ := by
  induction calls using List.reverseRecOn with
  | nil => rfl
  | append_singleton calls c ih =>
    rw [run_concat, ih]
    cases c with
    | synthesize =>
      rw [after_synthesize, passes_concat_synthesize]
      by_cases h : Call.synthesize ∈ calls
      · simp [h]
      · simp [h, Function.iterate_succ_apply']
    | appendRoutes =>
      rw [after_appendRoutes, passes_concat_appendRoutes, Function.iterate_succ_apply']
      simp

theorem toNode_iterate_filled (k : Nat) (root : Router) :
    (Router.filled^[k] root).toNode = Node.filled^[k] root.toNode := by
  induction k with
  | zero => rfl
  | succ k ih =>
    rw [Function.iterate_succ_apply', Function.iterate_succ_apply', Router.toNode_filled, ih]

/-- Calls that fill the tables of a new topology, in any order and number, change nothing but
tables. After `k` passes each router has the network of every node below it on the position of the
neighbor above that node, `choose (k + e) (e + 1)` times where `e` is the number of routers in
between. So every table is empty or has each of these networks once as long as there was at most one
pass, and only then, unless there is nothing below the root. -/
theorem tables_of_run {root : Router} (h : root.toNode.Blank) (calls : List Call) :
    ((ofRoot root).run calls).root.toNode.cleared = root.toNode ∧
    ((ofRoot root).run calls).synthesized = decide (.synthesize ∈ calls) ∧
    (∀ info ns, .router info ns ∈ ((ofRoot root).run calls).root.toNode.preorder →
      info.table.Perm (ns.zipIdx.flatMap fun (n, i) =>
        (n.copies fun e => (passes calls + e).choose (e + 1)).map fun d =>
          ⟨.ofNat (i + 1), d.uplink⟩)) ∧
    ((∀ info ns, .router info ns ∈ ((ofRoot root).run calls).root.toNode.preorder →
        info.table = [] ∨ info.table.Perm (Node.routesBelow ns)) ↔
      passes calls ≤ 1 ∨ root.neighbors = []) := by
  rw [run_eq, toNode_iterate_filled]
  exact ⟨by rw [Node.cleared_iterate_filled, h.cleared_eq], rfl,
    fun info ns hm => Node.table_of_mem_preorder_iterate h hm, Node.right_iterate_iff h⟩

/-- A router over a router over a host. -/
def stacked : Router :=
  let lower := (Router.ofNet 2 (standardSubnet 1)).link (.host (Host.ofNet 3 (standardSubnet 2)))
  (Router.ofNet 1 (standardSubnet 0)).link lower.toNode

/-- Two passes, and one call that is refused: the network one router away is there three times. -/
theorem tables_of_run_stacked :
    stacked.toNode.Blank ∧ passes [.appendRoutes, .synthesize, .synthesize] = 2 ∧
      ((ofRoot stacked).run [.appendRoutes, .synthesize, .synthesize]).root.info.table.Perm
        [⟨1, standardSubnet 1⟩, ⟨1, standardSubnet 1⟩, ⟨1, standardSubnet 2⟩,
          ⟨1, standardSubnet 2⟩, ⟨1, standardSubnet 2⟩] := by
  have hblank : stacked.toNode.Blank := by
    unfold Node.Blank
    decide
  obtain ⟨-, -, htables, -⟩ :=
    tables_of_run hblank [.appendRoutes, .synthesize, .synthesize]
  exact ⟨hblank, rfl, (htables _ _ (Node.mem_preorder_self _)).trans (by decide)⟩

/-- A router over a host. -/
def single : Router :=
  (Router.ofNet 1 (standardSubnet 0)).link (.host (Host.ofNet 2 (standardSubnet 1)))

/-- Where a pass that does not ask follows one that does, the table of the router has the network of
the host twice. -/
theorem run_doubles_routes :
    single.toNode.Blank ∧
      ((ofRoot single).run [.synthesize]).root.info.table = [⟨1, standardSubnet 1⟩] ∧
      ((ofRoot single).run [.synthesize, .appendRoutes]).root.info.table =
        [⟨1, standardSubnet 1⟩, ⟨1, standardSubnet 1⟩] ∧
      ¬∀ info ns, .router info ns ∈
          ((ofRoot single).run [.synthesize, .appendRoutes]).root.toNode.preorder →
        info.table = [] ∨ info.table.Perm (Node.routesBelow ns) := by
  refine ⟨?_, rfl, rfl, fun h => ?_⟩
  · unfold Node.Blank
    decide
  · exact absurd (h _ _ (Node.mem_preorder_self _)) (by decide)

end Topology

end Overlay
