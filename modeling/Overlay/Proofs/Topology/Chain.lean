import Mathlib
import Overlay.Proofs.Allocator
import Overlay.Proofs.Snapshot.OfTree
import Overlay.Proofs.Topology.Tables

/-!
The chain in closed form. Networks are taken on the way down and links are added on the way up, so
the chain of `count` routers has routers 1 to `count`, the host behind the last of them, and then
the host at the first one. `Node.chain` is the part below a router, and its lemmas go down the chain
with the number of its first node.
-/

namespace Overlay

open Ipv4 (Net)

/-- The `n`-th subnet of the plan, counted from 1. The node with number `n` gets it. -/
def AddressPlan.uplinkOf (p : AddressPlan) (h : p.Splits) (n : Nat) : Net :=
  p.subnet h (n - 1)

/-- The record of router `i` in a chain of `count` routers. -/
def AddressPlan.chainRecord (p : AddressPlan) (h : p.Splits) (count i : Nat) : RouterRecord where
  name := s!"vRouter-{UInt32.ofNat i}"
  uplink := p.uplinkOf h i
  neighbors := ⟨1, .ofNat (i + 1), if i < count then .router else .host⟩ ::
    if i = 1 then [⟨2, .ofNat (count + 2), .host⟩] else []
  table := ((List.range' (i + 1) (count + 1 - i)).reverse.map fun k => ⟨1, p.uplinkOf h k⟩) ++
    if i = 1 then [⟨2, p.uplinkOf h (count + 2)⟩] else []

/-- The record of host `j`. Its address has the length of all subnets. -/
def AddressPlan.hostRecord (p : AddressPlan) (h : p.Splits) (j : Nat) : HostRecord :=
  let address := (p.uplinkOf h j).firstUsable
  { name := s!"Host-{UInt32.ofNat j}"
    ip := { p.uplinkOf h j with address }
    mac := ⟨0x08, 0x00, address.octet 3, address.octet 2, address.octet 1, address.octet 0⟩ }

/-! ## The tree -/

/-- A chain of `count` routers above a host, numbered downwards from `n`. -/
def Node.chain (p : AddressPlan) (h : p.Splits) : (count n : Nat) → Node
  | 0, n => .host (.ofNet (.ofNat n) (p.uplinkOf h n))
  | count + 1, n =>
    .router (Router.ofNet (.ofNat n) (p.uplinkOf h n)).info [chain p h count (n + 1)]

/-- A chain of `count` routers between two hosts. -/
def Router.chain (p : AddressPlan) (h : p.Splits) (count : Nat) : Router :=
  ⟨(Router.ofNet 1 (p.uplinkOf h 1)).info, [.chain p h (count - 1) 2,
    .host (.ofNet (.ofNat (count + 2)) (p.uplinkOf h (count + 2)))]⟩

variable {p : AddressPlan} {h : p.Splits}

namespace Building

variable {k : Nat}

theorem router_ofCount (hk : k < p.capacity) :
    router (.ofCount p h k (Nat.le_of_lt hk)) =
      (.ok (.ofNet (.ofNat (k + 1)) (p.uplinkOf h (k + 1))), .ofCount p h (k + 1) hk) := by
  rw [router, Allocator.router, Allocator.take_ofCount hk]
  rfl

theorem host_ofCount (hk : k < p.capacity) :
    host (.ofCount p h k (Nat.le_of_lt hk)) =
      (.ok (.ofNet (.ofNat (k + 1)) (p.uplinkOf h (k + 1))), .ofCount p h (k + 1) hk) := by
  rw [host, Allocator.host, Allocator.take_ofCount hk]
  rfl

theorem chainTail_ofCount {further m : Nat} (k : Nat) (hm : k + further + 2 = m)
    (hle : m ≤ p.capacity) :
    chainTail further (.ofCount p h k (by omega)) =
      (.ok ⟨(Router.ofNet (.ofNat (k + 1)) (p.uplinkOf h (k + 1))).info,
        [.chain p h further (k + 2)]⟩, .ofCount p h m hle) := by
  induction further generalizing k with
  | zero =>
    subst hm
    rw [chainTail, bind_of_ok (router_ofCount (by omega)), bind_of_ok (host_ofCount hle)]
    rfl
  | succ further ih =>
    rw [chainTail, bind_of_ok (router_ofCount (by omega)), bind_of_ok (ih (k + 1) (by omega))]
    rfl

/-- An allocator that has constructed nothing is as a reset leaves it. -/
theorem reset_bind_ofCount {α : Type} (f : Unit → Building α) :
    (reset >>= f) (.ofCount p h 0 (Nat.zero_le _)) = f () (.ofCount p h 0 (Nat.zero_le _)) :=
  bind_of_ok rfl

theorem chain_of_ne_zero {hops : UInt32} (hne : hops ≠ 0) :
    chain hops (.ofCount p h 0 (Nat.zero_le _)) =
      (do return (← chainTail (hops.toNat - 1)).link (← host) : Building Router)
        (.ofCount p h 0 (Nat.zero_le _)) := by
  rw [chain, if_neg hne]
  exact reset_bind_ofCount _

theorem chain_ofCount {hops : UInt32} (hpos : 0 < hops.toNat) (hle : hops.toNat + 2 ≤ p.capacity) :
    chain hops (.ofCount p h 0 (Nat.zero_le _)) =
      (.ok (.chain p h hops.toNat), .ofCount p h (hops.toNat + 2) hle) := by
  have hne : hops ≠ 0 := by
    intro heq
    rw [heq] at hpos
    exact Nat.lt_irrefl _ hpos
  have htail : chainTail (hops.toNat - 1) (.ofCount p h 0 (Nat.zero_le _)) = _ :=
    chainTail_ofCount 0 (show _ = hops.toNat + 1 by omega) (Nat.le_of_succ_le hle)
  rw [chain_of_ne_zero hne, bind_of_ok htail, bind_of_ok (host_ofCount hle)]
  rfl

end Building

namespace Topology

theorem generate_eq (h : p.Splits) (shape : Shape) (hops : Option UInt32) :
    generate shape hops p = (Building.topology shape hops (.ofCount p h 0 (Nat.zero_le _))).1 := by
  rw [generate, Allocator.ofPlan_eq h]

theorem generate_chain (h : p.Splits) {hops : UInt32} (hpos : 0 < hops.toNat)
    (hle : hops.toNat + 2 ≤ p.capacity) :
    generate .chain (some hops) p = .ok (.ofRoot (.chain p h hops.toNat)) := by
  rw [generate_eq h, Building.topology, Building.bind_of_ok (Building.chain_ofCount hpos hle)]
  rfl

end Topology

/-! ## The records -/

namespace Node

theorem id_chain (count n : Nat) : (chain p h count n).id = .ofNat n := by
  cases count <;> rfl

theorem kind_chain (count n : Nat) :
    (chain p h count n).kind = if 0 < count then .router else .host := by
  cases count <;> rfl

theorem blank_chain (count n : Nat) : (chain p h count n).Blank := by
  induction count generalizing n with
  | zero => simp [Blank, chain, table]
  | succ count ih =>
    intro m hm
    rw [chain, preorder_router, List.flatMap_singleton, List.mem_cons] at hm
    rcases hm with rfl | hm
    · rfl
    · exact ih (n + 1) m hm

/-- From the bottom of the chain upwards. -/
theorem map_uplink_postorder_chain (count n : Nat) :
    (chain p h count n).postorder.map uplink =
      (List.range' n (count + 1)).reverse.map (p.uplinkOf h) := by
  induction count generalizing n with
  | zero => simp [chain, uplink, Host.ofNet]
  | succ count ih =>
    have hrange : List.range' n (count + 2) = n :: List.range' (n + 1) (count + 1) :=
      List.range'_succ
    rw [chain, postorder_router, List.flatMap_singleton, List.map_append, ih, hrange,
      List.reverse_cons, List.map_append]
    rfl

theorem routesBelow_singleton (n : Node) :
    routesBelow [n] = (n.postorder.map uplink).map (⟨1, ·⟩) := by
  simp [routesBelow]

theorem routesBelow_pair (m n : Node) :
    routesBelow [m, n] =
      (m.postorder.map uplink).map (⟨1, ·⟩) ++ (n.postorder.map uplink).map (⟨2, ·⟩) := by
  simp [routesBelow, Function.comp_def]

theorem refs_singleton (info : RouterInfo) (n : Node) :
    (router info [n]).refs = [⟨1, n.id, n.kind⟩] := rfl

theorem refs_pair (info : RouterInfo) (m n : Node) :
    (router info [m, n]).refs = [⟨1, m.id, m.kind⟩, ⟨2, n.id, n.kind⟩] := rfl

/-- The entry of a router below the first one. -/
theorem routerEntry?_chain {count further n : Nat} (hn : 1 < n) (hcount : n + further = count) :
    (chain p h (further + 1) n).filled.routerEntry? = some (.ofNat n, p.chainRecord h count n) := by
  have hblank : (chain p h (further + 1) n).Blank := blank_chain _ _
  have hkind : 0 < further ↔ n < count := by omega
  have hlen : count + 1 - n = further + 1 := by omega
  have hrefs : (chain p h (further + 1) n).refs =
      [⟨1, .ofNat (n + 1), if n < count then .router else .host⟩] := by
    rw [chain, refs_singleton, id_chain, kind_chain]
    simp only [hkind]
  have htable : routesBelow [chain p h further (n + 1)] =
      (List.range' (n + 1) (count + 1 - n)).reverse.map fun k => ⟨1, p.uplinkOf h k⟩ := by
    rw [routesBelow_singleton, map_uplink_postorder_chain, hlen, List.map_map]
    rfl
  rw [chain] at hblank hrefs ⊢
  rw [routerEntry?_filled hblank, hrefs, htable, AddressPlan.chainRecord,
    if_neg (Nat.ne_of_gt hn), if_neg (Nat.ne_of_gt hn), List.append_nil]
  rfl

/-- The routers below the first one. -/
theorem filterMap_routerEntry_chain {count further n : Nat} (hn : 1 < n)
    (hcount : n + further = count + 1) :
    (chain p h further n).filled.preorder.filterMap routerEntry? =
      (List.range' n further).map fun i => (.ofNat i, p.chainRecord h count i) := by
  induction further generalizing n with
  | zero => simp [chain, routerEntry?]
  | succ further ih =>
    have hentry := routerEntry?_chain (h := h) hn (show n + further = count by omega)
    rw [chain] at hentry ⊢
    rw [preorder_filled_router, List.filterMap_cons_some hentry, List.flatMap_singleton,
      ih (n := n + 1) (by omega) (by omega), List.range'_succ, List.map_cons]

theorem filterMap_hostEntry_chain (further n : Nat) :
    (chain p h further n).filled.preorder.filterMap hostEntry? =
      [(.ofNat (n + further), p.hostRecord h (n + further))] := by
  induction further generalizing n with
  | zero =>
    rw [chain, filled_host, preorder_host]
    rfl
  | succ further ih =>
    rw [chain, preorder_filled_router, List.filterMap_cons_none (by rw [filled_router]; rfl),
      List.flatMap_singleton, ih, Nat.add_right_comm, Nat.add_assoc]

end Node

namespace Router

theorem blank_chain {count : Nat} : (chain p h count).toNode.Blank := by
  intro m hm
  rw [toNode, chain, Node.preorder_router, List.flatMap_cons, List.flatMap_singleton,
    Node.preorder_host, List.mem_cons, List.mem_append, List.mem_singleton] at hm
  rcases hm with rfl | hm | rfl
  · rfl
  · exact Node.blank_chain _ _ m hm
  · rfl

/-- The entry of the first router. -/
theorem routerEntry?_chain {count : Nat} (hpos : 0 < count) :
    (chain p h count).toNode.filled.routerEntry? = some (1, p.chainRecord h count 1) := by
  have hblank : (chain p h count).toNode.Blank := blank_chain
  have hkind : 0 < count - 1 ↔ 1 < count := by omega
  have hlen : count + 1 - 1 = count - 1 + 1 := by omega
  have hrefs : (chain p h count).toNode.refs =
      [⟨1, 2, if 1 < count then .router else .host⟩, ⟨2, .ofNat (count + 2), .host⟩] := by
    rw [toNode, chain, Node.refs_pair, Node.id_chain, Node.kind_chain]
    simp only [hkind]
    rfl
  have htable : Node.routesBelow (chain p h count).neighbors =
      ((List.range' 2 (count + 1 - 1)).reverse.map fun k => ⟨1, p.uplinkOf h k⟩) ++
        [⟨2, p.uplinkOf h (count + 2)⟩] := by
    rw [chain, Node.routesBelow_pair, Node.map_uplink_postorder_chain, hlen, List.map_map,
      Node.postorder_host]
    rfl
  rw [toNode] at hblank hrefs ⊢
  rw [Node.routerEntry?_filled hblank, hrefs, htable]
  rfl

theorem filterMap_routerEntry_chain {count : Nat} (hpos : 0 < count) :
    (chain p h count).filled.toNode.preorder.filterMap Node.routerEntry? =
      (List.range' 1 count).map fun i => (.ofNat i, p.chainRecord h count i) := by
  have hentry := routerEntry?_chain (h := h) hpos
  have hrange : List.range' 1 (count - 1 + 1) = 1 :: List.range' 2 (count - 1) :=
    List.range'_succ
  rw [Nat.sub_add_cancel hpos] at hrange
  rw [toNode_filled]
  rw [toNode, chain] at hentry ⊢
  rw [Node.preorder_filled_router, List.filterMap_cons_some hentry, List.flatMap_cons,
    List.flatMap_singleton, List.filterMap_append,
    Node.filterMap_routerEntry_chain (by omega) (show 2 + (count - 1) = count + 1 by omega), hrange,
    Node.filled_host, Node.preorder_host, List.map_cons]
  exact congrArg _ (List.append_nil _)

theorem filterMap_hostEntry_chain {count : Nat} (hpos : 0 < count) :
    (chain p h count).filled.toNode.preorder.filterMap Node.hostEntry? =
      [count + 1, count + 2].map fun j => (.ofNat j, p.hostRecord h j) := by
  have hlast : 2 + (count - 1) = count + 1 := by omega
  rw [toNode_filled, toNode, chain, Node.preorder_filled_router,
    List.filterMap_cons_none (by rw [Node.filled_router]; rfl), List.flatMap_cons,
    List.flatMap_singleton, List.filterMap_append, Node.filterMap_hostEntry_chain, hlast,
    Node.filled_host, Node.preorder_host]
  rfl

end Router

/-- Entries numbered in a row ascend, as long as the numbers fit into a word. -/
theorem Node.pairwise_range'_ofNat {β : Type} (n count : Nat) (hle : n + count ≤ 2 ^ 32)
    (f : Nat → β) :
    ((List.range' n count).map fun i => ((.ofNat i : NodeId), f i)).Pairwise
      fun a b => a.1 < b.1 := by
  rw [List.pairwise_map]
  refine List.Pairwise.imp_of_mem (fun {i j} hi hj hlt => ?_) List.pairwise_lt_range'
  rw [List.mem_range'_1] at hi hj
  rw [UInt32.lt_iff_toNat_lt, UInt32.toNat_ofNat', UInt32.toNat_ofNat',
    Nat.mod_eq_of_lt (by omega), Nat.mod_eq_of_lt (by omega)]
  exact hlt

namespace Topology

/-- The snapshot of a chain with filled tables. A plan with a subnet for each router and for two
hosts, but fewer than `2 ^ 32`, gives a chain of any number of routers, and its tables can be
filled. Then there is nothing recorded but routers 1 to `hops`, each with the routes to what is
below it from the bottom upwards, and the hosts with the next two numbers. -/
theorem chain_snapshot (h : p.Splits) {hops : UInt32} (hpos : 0 < hops.toNat)
    (hle : hops.toNat + 2 ≤ p.capacity) (hlt : p.capacity < 2 ^ 32) :
    ∃ t t', generate .chain (some hops) p = .ok t ∧ t.synthesize = .ok t' ∧
      (Snapshot.ofTree t'.root).routers.entries =
        (List.range' 1 hops.toNat).map (fun i => (.ofNat i, p.chainRecord h hops.toNat i)) ∧
      (Snapshot.ofTree t'.root).hosts.entries =
        [hops.toNat + 1, hops.toNat + 2].map fun j => (.ofNat j, p.hostRecord h j) := by
  refine ⟨_, _, generate_chain h hpos hle, synthesize_ofRoot _, ?_, ?_⟩
  · rw [Snapshot.ofTree_eq, Router.filterMap_routerEntry_chain hpos]
    exact KeyedMap.entries_ofList_of_sorted (Node.pairwise_range'_ofNat _ _ (by omega) _)
  · rw [Snapshot.ofTree_eq, Router.filterMap_hostEntry_chain hpos]
    exact KeyedMap.entries_ofList_of_sorted
      (Node.pairwise_range'_ofNat (hops.toNat + 1) 2 (by omega) _)

open AddressPlan (standard standardSubnet)

/-- Three routers: the tables from the first to the last, and the numbers of the hosts. -/
theorem chain_snapshot_three :
    ∃ t t', generate .chain (some 3) standard = .ok t ∧ t.synthesize = .ok t' ∧
      (Snapshot.ofTree t'.root).routers.values.map (·.table) = [
        [⟨1, standardSubnet 3⟩, ⟨1, standardSubnet 2⟩, ⟨1, standardSubnet 1⟩,
          ⟨2, standardSubnet 4⟩],
        [⟨1, standardSubnet 3⟩, ⟨1, standardSubnet 2⟩],
        [⟨1, standardSubnet 3⟩]] ∧
      (Snapshot.ofTree t'.root).hosts.keys = [4, 5] := by
  obtain ⟨t, t', ht, ht', hrouters, hhosts⟩ :=
    chain_snapshot (p := standard) (by decide) (show 0 < (3 : UInt32).toNat by decide) (by decide)
      (by decide)
  refine ⟨t, t', ht, ht', ?_, ?_⟩
  · rw [KeyedMap.values, hrouters]
    rfl
  · rw [KeyedMap.keys, hhosts]
    rfl

end Topology

end Overlay
