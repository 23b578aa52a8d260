import Mathlib
import Overlay.Allocator
import Overlay.Proofs.AddressPlan
import Overlay.Proofs.Topology.Synthesis
import Overlay.Proofs.Result

/-!
Trees built from the nodes of one allocator. `Built` lists the steps: constructing a router or a
host, and linking a tree to a router that is not linked itself. `Numbered` is the invariant: the
nodes in all trees are those with the numbers and subnets handed out since the last reset, each
once. So in each tree the numbers are distinct and an address lies in the network of one node at
most (`Built.distinct`, `Built.eq_of_contains`).
-/

namespace Overlay

/-- `ns` are the trees made of the nodes that the allocator has constructed since its last reset.
A tree that is linked to a router is no longer one of its own. -/
inductive Built (p : AddressPlan) : Allocator → List Node → Prop
  | start {a : Allocator} (h : Allocator.ofPlan p = .ok a) : Built p a []
  | reset {a : Allocator} {ns : List Node} (h : Built p a ns) : Built p a.reset []
  | router {a a' : Allocator} {ns : List Node} {r : Router} (h : Built p a ns)
    (hr : a.router = (.ok r, a')) : Built p a' (r.toNode :: ns)
  | host {a a' : Allocator} {ns : List Node} {x : Host} (h : Built p a ns)
    (hx : a.host = (.ok x, a')) : Built p a' (.host x :: ns)
  | link {a : Allocator} {ns rest : List Node} {r : Router} {n : Node} (h : Built p a ns)
    (hp : ns.Perm (r.toNode :: n :: rest)) : Built p a ((r.link n).toNode :: rest)

/-! ## The invariant -/

/-- The node apart from its neighbors is as its constructor made it. -/
def Node.AsMade : Node → Prop
  | .router info _ => info = (Router.ofNet info.id info.uplink).info
  | .host h => h = Host.ofNet h.id h.uplink

theorem Node.AsMade.table {n : Node} (h : n.AsMade) : n.table = [] := by
  cases n with
  | router info ns => exact congrArg RouterInfo.table h
  | host h' => rfl

/-- The number and the network that a node was constructed with. -/
def Node.tag (n : Node) : NodeId × Ipv4.Net :=
  (n.id, n.uplink)

/-- The number and the network of the node constructed after `k` others. -/
def AddressPlan.tag (p : AddressPlan) (h : p.Splits) (k : Nat) : NodeId × Ipv4.Net :=
  (.ofNat (k + 1), p.subnet h k)

structure Numbered (p : AddressPlan) (h : p.Splits) (a : Allocator) (ns : List Node) : Prop where
  plan : a.subnets.plan = p
  nextId : a.nextId = .ofNat (a.allocated + 1)
  tags : ((ns.flatMap Node.preorder).map Node.tag).Perm ((List.range a.allocated).map (p.tag h))
  asMade : ∀ n ∈ ns.flatMap Node.preorder, n.AsMade

/-- What a successful allocation hands out. -/
theorem Allocator.take_eq_ok {a a' : Allocator} {got : NodeId × Ipv4.Net}
    (h : a.take = (.ok got, a')) :
    got = (a.nextId, a.subnets.plan.subnet a.subnets.splits a.allocated) ∧
      a'.nextId = a.nextId + 1 ∧ a'.subnets.plan = a.subnets.plan ∧
      a'.allocated = a.allocated + 1 := by
  unfold take SubnetPool.next at h
  split at h
  · rename_i heq
    split at heq
    · cases heq
      cases h
      exact ⟨rfl, rfl, rfl, rfl⟩
    · cases heq
  · cases h

theorem Allocator.router_eq_ok {a a' : Allocator} {r : Router} (h : a.router = (.ok r, a')) :
    ∃ got, a.take = (.ok got, a') ∧ r = .ofNet got.1 got.2 := by
  unfold router at h
  rcases htake : a.take with ⟨e | got, b⟩ <;> rw [htake] at h <;> cases h
  exact ⟨got, rfl, rfl⟩

theorem Allocator.host_eq_ok {a a' : Allocator} {x : Host} (h : a.host = (.ok x, a')) :
    ∃ got, a.take = (.ok got, a') ∧ x = .ofNet got.1 got.2 := by
  unfold host at h
  rcases htake : a.take with ⟨e | got, b⟩ <;> rw [htake] at h <;> cases h
  exact ⟨got, rfl, rfl⟩

namespace Numbered

variable {p : AddressPlan} {h : p.Splits} {a a' : Allocator} {ns : List Node}

theorem nil (hplan : a.subnets.plan = p) (hid : a.nextId = 1) (hcount : a.allocated = 0) :
    Numbered p h a [] where
  plan := hplan
  nextId := by rw [hid, hcount]; rfl
  tags := by rw [hcount]; rfl
  asMade := by simp

/-- Constructing a node uses the next number and the next subnet. -/
theorem cons (hn : Numbered p h a ns) {got : NodeId × Ipv4.Net} (htake : a.take = (.ok got, a'))
    {n : Node} (hpre : n.preorder = [n]) (htag : n.tag = got) (hmade : n.AsMade) :
    Numbered p h a' (n :: ns) := by
  obtain ⟨hgot, hid, hplan, hcount⟩ := Allocator.take_eq_ok htake
  have hpool : a.subnets.plan.subnet a.subnets.splits a.allocated = p.subnet h a.allocated := by
    obtain rfl := hn.plan
    rfl
  refine ⟨hplan.trans hn.plan, ?_, ?_, ?_⟩
  · rw [hid, hn.nextId, hcount, UInt32.ofNat_add (a.allocated + 1) 1]
    rfl
  · rw [List.flatMap_cons, hpre, List.map_append, List.map_singleton, hcount, List.range_succ,
      List.map_append, List.map_singleton, htag, hgot, hpool, hn.nextId]
    exact (hn.tags.cons _).trans (List.perm_append_singleton _ _).symm
  · rw [List.flatMap_cons, hpre, List.singleton_append, List.forall_mem_cons]
    exact ⟨hmade, hn.asMade⟩

/-- Linking changes no node but for its neighbors. -/
theorem link (hn : Numbered p h a ns) {r : Router} {n : Node} {rest : List Node}
    (hp : ns.Perm (r.toNode :: n :: rest)) : Numbered p h a ((r.link n).toNode :: rest) := by
  have hpre : (r.link n).toNode.preorder = (r.link n).toNode ::
      (r.neighbors.flatMap Node.preorder ++ n.preorder) := by
    rw [Router.toNode, Node.preorder_router, Router.link, List.flatMap_append,
      List.flatMap_singleton]
  have hall : (ns.flatMap Node.preorder).Perm (r.toNode ::
      (r.neighbors.flatMap Node.preorder ++ n.preorder ++ rest.flatMap Node.preorder)) := by
    refine (hp.flatMap_right _).trans ?_
    rw [List.flatMap_cons, List.flatMap_cons, Router.toNode, Node.preorder_router,
      List.cons_append, List.append_assoc]
  refine ⟨hn.plan, hn.nextId, ?_, ?_⟩
  · rw [List.flatMap_cons, hpre, List.cons_append, List.map_cons]
    exact (hall.map Node.tag).symm.trans hn.tags
  · have hmade : ∀ m ∈ r.toNode :: (r.neighbors.flatMap Node.preorder ++ n.preorder ++
        rest.flatMap Node.preorder), m.AsMade :=
      fun m hm => hn.asMade m (hall.mem_iff.2 hm)
    rw [List.forall_mem_cons] at hmade
    rw [List.flatMap_cons, hpre, List.cons_append, List.forall_mem_cons]
    exact ⟨hmade.1, hmade.2⟩

end Numbered

namespace Built

variable {p : AddressPlan} {a : Allocator} {ns : List Node}

theorem splits (h : Built p a ns) : p.Splits := by
  induction h with
  | start h =>
    by_contra hs
    rw [Allocator.ofPlan, SubnetPool.ofPlan, dif_neg hs] at h
    cases h
  | reset _ ih => exact ih
  | router _ _ ih => exact ih
  | host _ _ ih => exact ih
  | link _ _ ih => exact ih

theorem numbered (h : Built p a ns) : Numbered p h.splits a ns := by
  induction h with
  | start h =>
    have hs := (start h).splits
    rw [Allocator.ofPlan, SubnetPool.ofPlan, dif_pos hs] at h
    cases h
    exact .nil rfl rfl rfl
  | reset _ ih => exact .nil ih.plan rfl rfl
  | router _ hr ih =>
    obtain ⟨got, htake, rfl⟩ := Allocator.router_eq_ok hr
    exact ih.cons htake (by simp [Router.toNode, Router.ofNet]) rfl rfl
  | host _ hx ih =>
    obtain ⟨got, htake, rfl⟩ := Allocator.host_eq_ok hx
    exact ih.cons htake (Node.preorder_host _) rfl rfl
  | link _ hp ih => exact ih.link hp

theorem allocated_le_capacity (h : Built p a ns) : a.allocated ≤ p.capacity := by
  have := a.subnets.allocated_le
  rwa [h.numbered.plan] at this

/-! ## What it says of one tree -/

section Tree

variable (h : Built p a ns) {n : Node} (hn : n ∈ ns)

include h hn

theorem asMade {m : Node} (hm : m ∈ n.preorder) : m.AsMade :=
  h.numbered.asMade m (List.mem_flatMap.2 ⟨n, hn, hm⟩)

theorem blank : n.Blank :=
  fun _ hm => (h.asMade hn hm).table

/-- Every node has a number and the subnet that goes with it. -/
theorem exists_tag {m : Node} (hm : m ∈ n.preorder) :
    ∃ k < a.allocated, m.tag = p.tag h.splits k := by
  have hmem := List.mem_map_of_mem (f := Node.tag) (List.mem_flatMap.2 ⟨n, hn, hm⟩)
  rw [h.numbered.tags.mem_iff, List.mem_map] at hmem
  obtain ⟨k, hk, heq⟩ := hmem
  exact ⟨k, List.mem_range.1 hk, heq.symm⟩

theorem length_preorder_le : n.preorder.length ≤ a.allocated := by
  have hlen := h.numbered.tags.length_eq
  rw [List.length_map, List.length_map, List.length_range] at hlen
  rw [← hlen]
  obtain ⟨before, after, rfl⟩ := List.append_of_mem hn
  simp only [List.flatMap_append, List.flatMap_cons, List.length_append]
  omega

theorem length_uplink {m : Node} (hm : m ∈ n.preorder) : m.uplink.length = p.subnetLength.toNat := by
  obtain ⟨k, -, htag⟩ := h.exists_tag hn hm
  rw [show m.uplink = p.subnet h.splits k from congrArg Prod.snd htag]
  rfl

theorem space_contains {m : Node} (hm : m ∈ n.preorder) {x : Ipv4.Address}
    (hx : m.uplink.contains x = true) : p.space.contains x = true := by
  obtain ⟨k, hk, htag⟩ := h.exists_tag hn hm
  rw [show m.uplink = p.subnet h.splits k from congrArg Prod.snd htag] at hx
  exact AddressPlan.space_contains (Nat.lt_of_lt_of_le hk h.allocated_le_capacity) hx

/-- Several nodes share the space, so their networks are smaller. -/
theorem space_length_lt (hlen : 1 < n.preorder.length) : p.space.length < p.subnetLength.toNat :=
  AddressPlan.length_lt_of_capacity h.splits
    (Nat.lt_of_lt_of_le hlen (Nat.le_trans (h.length_preorder_le hn) h.allocated_le_capacity))

/-- There are no more nodes than numbers, so no two get the same one. -/
theorem distinct : n.Distinct := by
  have hle : a.allocated ≤ 2 ^ 32 :=
    h.allocated_le_capacity.trans (AddressPlan.capacity_le h.splits)
  have hids : ((ns.flatMap Node.preorder).map Node.id).Nodup := by
    have hperm := h.numbered.tags.map Prod.fst
    rw [List.map_map, List.map_map] at hperm
    refine hperm.nodup_iff.2 (List.Nodup.map_on ?_ List.nodup_range)
    intro j hj k hk heq
    have heq' : UInt32.ofNat (j + 1) = UInt32.ofNat (k + 1) := heq
    rw [List.mem_range] at hj hk
    rw [← UInt32.toNat_inj, UInt32.toNat_ofNat', UInt32.toNat_ofNat'] at heq'
    omega
  rw [List.map_flatMap, List.nodup_flatMap] at hids
  exact hids.1 n hn

/-- An address lies in the network of one node at most. -/
theorem eq_of_contains {l m : Node} (hl : l ∈ n.preorder) (hm : m ∈ n.preorder)
    {x : Ipv4.Address} (hxl : l.uplink.contains x = true) (hxm : m.uplink.contains x = true) :
    l = m := by
  obtain ⟨j, hj, htagl⟩ := h.exists_tag hn hl
  obtain ⟨k, hk, htagm⟩ := h.exists_tag hn hm
  rw [show l.uplink = p.subnet h.splits j from congrArg Prod.snd htagl] at hxl
  rw [show m.uplink = p.subnet h.splits k from congrArg Prod.snd htagm] at hxm
  obtain rfl := AddressPlan.subnet_disjoint (Nat.lt_of_lt_of_le hj h.allocated_le_capacity)
    (Nat.lt_of_lt_of_le hk h.allocated_le_capacity) hxl hxm
  exact (h.distinct hn).eq_of_id_eq hl hm (congrArg Prod.fst (htagl.trans htagm.symm))

end Tree

/-- If all nodes are linked to one tree, it has as many as were constructed. -/
theorem length_preorder {n : Node} (h : Built p a [n]) : n.preorder.length = a.allocated := by
  have hlen := h.numbered.tags.length_eq
  rwa [List.length_map, List.length_map, List.length_range, List.flatMap_singleton] at hlen

end Built

end Overlay
