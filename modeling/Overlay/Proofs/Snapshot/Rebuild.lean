import Mathlib
import Overlay.Proofs.Snapshot.Collisions
import Overlay.Proofs.Topology.Construction

/-!
Putting a tree together again from its snapshot. `Snapshot.tree?` starts at the root that the checks
find and follows the neighbor entries; the network of a host is that of its record's address. From
the snapshot of a tree of allocated nodes it rebuilds the tree (`tree?_ofTree`), since the recorder
overwrites nothing (`collisions_eq_nil`) and an allocated network has no host bits.
-/

namespace Overlay

open AddressPlan (standardSubnet)
open Ipv4 (Net)

/-! ## Networks of hosts -/

theorem Ipv4.Net.truncated_firstUsable (n : Net) :
    Net.truncated { n with address := n.firstUsable } = n.truncated := by
  have hblock := Net.contains_iff.1 n.contains_firstUsable
  have hnetwork : Net.network { n with address := n.firstUsable } = n.network :=
    congrArg (fun k => UInt32.ofNat (k * n.size)) hblock
  rw [Net.truncated, Net.truncated, hnetwork]

/-- What an allocator hands out has no host bits. -/
theorem Allocator.truncated_of_take {a a' : Allocator} {got : NodeId × Net}
    (h : a.take = (.ok got, a')) : got.2.truncated = got.2 := by
  obtain ⟨rfl, -, hplan, hcount⟩ := take_eq_ok h
  have hle : a'.allocated ≤ a'.subnets.plan.capacity := a'.subnets.allocated_le
  rw [hplan, hcount] at hle
  exact AddressPlan.truncated_subnet (h := a.subnets.splits) (Nat.lt_of_succ_le hle)

namespace Node

/-- The node comes from an allocator. Routes may have been put into its table since. -/
def Allocated : Node → Prop
  | .router info _ => ∃ a a' r, Allocator.router a = (.ok r, a') ∧
      info = { r.info with table := info.table }
  | .host h => ∃ a a', Allocator.host a = (.ok h, a')

/-- The network of a host that comes from an allocator is that of the address in its record. -/
theorem Allocated.truncated_ip {h : Host} (hmade : (Node.host h).Allocated) :
    h.record.ip.truncated = h.uplink := by
  obtain ⟨a, a', hhost⟩ := hmade
  obtain ⟨got, htake, rfl⟩ := Allocator.host_eq_ok hhost
  exact got.2.truncated_firstUsable.trans (Allocator.truncated_of_take htake)

/-! ## Levels -/

theorem heightAll_le {ns : List Node} {k : Nat} (h : ∀ n ∈ ns, n.height ≤ k) :
    heightAll ns ≤ k := by
  induction ns with
  | nil => exact Nat.zero_le k
  | cons n ns ih =>
    rw [heightAll]
    exact Nat.max_le.2 ⟨h n List.mem_cons_self, ih fun m hm => h m (List.mem_cons_of_mem _ hm)⟩

/-- There are no more levels than nodes. -/
theorem height_le_length_preorder (n : Node) : n.height ≤ n.preorder.length := by
  induction n with
  | router info ns ih =>
    rw [height, preorder_router, List.length_cons]
    refine Nat.succ_le_succ (heightAll_le fun n hn => (ih n hn).trans ?_)
    rw [List.length_flatMap]
    exact List.single_le_sum (fun _ _ => Nat.zero_le _) _
      (List.mem_map_of_mem (f := fun n => n.preorder.length) hn)
  | host h => rw [height, preorder_host, List.length_singleton]

end Node

namespace Snapshot

/-! ## Rebuilding -/

/-- The node with number `id` of the kind `k`, put together from the records on it and on everything
below it. It gives up below the given number of levels. -/
def node? (s : Snapshot) : (levels : Nat) → (k : Kind) → (id : NodeId) → Option Node
  | 0, _, _ => none
  | levels + 1, .router, id => do
    let r ← s.routers.get? id
    let ns ← r.neighbors.mapM fun n => s.node? levels n.kind n.id
    return .router ⟨id, r.name, r.uplink, r.table⟩ ns
  | _ + 1, .host, id => do
    let h ← s.hosts.get? id
    return .host ⟨id, h.name, h.ip.truncated, h.mac⟩

/-- The tree that a snapshot describes, if it passes the checks. -/
def tree? (s : Snapshot) : Option Node :=
  match s.validate with
  | .ok root => s.node? s.size .router root
  | .error _ => none

/-! ## The snapshot of a tree -/

section Distinct

variable {root : Router} (hd : root.toNode.Distinct)

include hd

/-- There is one record for each node. -/
theorem size_ofTree : (ofTree root).size = root.toNode.preorder.length := by
  rw [← size_add_length_collisions, collisions_eq_nil hd, List.length_nil, Nat.add_zero]

variable (hmade : ∀ n ∈ root.toNode.preorder, n.Allocated)

include hmade

theorem node?_ofTree {n : Node} (hn : n ∈ root.toNode.preorder) {levels : Nat}
    (hlevels : n.height ≤ levels) : (ofTree root).node? levels n.kind n.id = some n := by
  induction n generalizing levels with
  | router info ns ih =>
    rw [Node.height] at hlevels
    obtain ⟨levels, rfl⟩ : ∃ l, levels = l + 1 := ⟨levels - 1, by omega⟩
    have hget := (get?_routers_ofTree hd).2 ⟨⟨info, ns⟩, hn, rfl, rfl⟩
    -- The entries name the neighbors in order, and one level less is enough for each of them.
    have hns : (Node.router info ns).refs.mapM (fun n => (ofTree root).node? levels n.kind n.id) =
        some ns := by
      rw [Node.refs, List.mapM_map, Lists.mapM_eq_some (g := Prod.fst), List.zipIdx_map_fst]
      · rfl
      · intro e he
        have hmem : e.1 ∈ ns := List.fst_mem_of_mem_zipIdx he
        refine ih e.1 hmem ?_ ((Node.le_heightAll hmem).trans (Nat.le_of_succ_le_succ hlevels))
        exact Node.mem_preorder_trans
          (Node.mem_preorder_of_mem_neighbors (n := .router info ns) hmem) hn
    rw [Node.kind, Node.id, node?, hget, Option.bind_eq_bind, Option.bind_some,
      Node.neighbors_record, hns]
    rfl
  | host h =>
    rw [Node.height] at hlevels
    obtain ⟨levels, rfl⟩ : ∃ l, levels = l + 1 := ⟨levels - 1, by omega⟩
    have hget := (get?_hosts_ofTree hd).2 ⟨h, hn, rfl, rfl⟩
    rw [Node.kind, Node.id, node?, hget, Option.bind_eq_bind, Option.bind_some,
      (hmade _ hn).truncated_ip]
    rfl

theorem tree?_ofTree : (ofTree root).tree? = some root.toNode := by
  rw [tree?, validate_ofTree hd, size_ofTree hd]
  exact node?_ofTree hd hmade (Node.mem_preorder_self _) (Node.height_le_length_preorder _)

/-- The snapshot of a tree of allocated nodes with distinct numbers keeps everything. It has one
record for each node and nothing else, no node is recorded twice, and the checks find the root. The
network of a host is that of the address in its record, and the tree can be put together again.
So no other such tree has the same snapshot. -/
theorem ofTree_lossless :
    (ofTree root).routers.entries.Perm (root.toNode.preorder.filterMap Node.routerEntry?) ∧
    (ofTree root).hosts.entries.Perm (root.toNode.preorder.filterMap Node.hostEntry?) ∧
    (ofTree root).size = root.toNode.preorder.length ∧
    collisions root = [] ∧
    (ofTree root).validate = .ok root.info.id ∧
    (∀ h, .host h ∈ root.toNode.preorder → h.record.ip.truncated = h.uplink) ∧
    (ofTree root).tree? = some root.toNode ∧
    ∀ root' : Router, root'.toNode.Distinct → (∀ n ∈ root'.toNode.preorder, n.Allocated) →
      ofTree root' = ofTree root → root' = root := by
  refine ⟨routers_ofTree_perm hd, hosts_ofTree_perm hd, size_ofTree hd, collisions_eq_nil hd,
    validate_ofTree hd, fun h hh => (hmade _ hh).truncated_ip, tree?_ofTree hd hmade,
    fun root' hd' hmade' heq => ?_⟩
  have hnode := tree?_ofTree hd' hmade'
  rw [heq, tree?_ofTree hd hmade, Option.some.injEq, Router.toNode, Router.toNode,
    Node.router.injEq] at hnode
  obtain ⟨info, ns⟩ := root
  obtain ⟨info', ns'⟩ := root'
  obtain ⟨rfl, rfl⟩ := hnode
  rfl

end Distinct

/-- A plan of networks of two addresses. -/
def narrowPlan : AddressPlan :=
  ⟨standardSubnet 1, 31⟩

/-- The second node of an allocator for networks of two addresses, linked to the first node of an
allocator for the standard plan, and tables filled. -/
def joined : Router :=
  let upper := Router.ofNet 1 (standardSubnet 0)
  let host := Host.ofNet 2 (narrowPlan.subnet (by decide) 1)
  (upper.link host).filled

theorem ofTree_lossless_joined :
    collisions joined = [] ∧ (ofTree joined).validate = .ok 1 ∧
      (ofTree joined).tree? = some joined.toNode := by
  have hd : joined.toNode.Distinct := by
    unfold Node.Distinct
    decide
  have hmade : ∀ n ∈ joined.toNode.preorder, n.Allocated := by
    have hpre : joined.toNode.preorder =
        [joined.toNode, .host (Host.ofNet 2 (narrowPlan.subnet (by decide) 1))] := rfl
    rw [hpre, List.forall_mem_cons, List.forall_mem_singleton]
    exact ⟨⟨⟨1, AddressPlan.standard, by decide, 0, by decide⟩, _, _, rfl, rfl⟩,
      ⟨⟨2, narrowPlan, by decide, 1, by decide⟩, _, rfl⟩⟩
  obtain ⟨-, -, -, hcollisions, hvalidate, -, htree, -⟩ := ofTree_lossless hd hmade
  exact ⟨hcollisions, hvalidate, htree⟩

end Snapshot

end Overlay
