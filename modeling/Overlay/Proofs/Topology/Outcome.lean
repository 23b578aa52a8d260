import Mathlib
import Overlay.Proofs.Topology.Chain

/-!
What comes of generating. A computation that takes a number of nodes succeeds if that many subnets
are left and runs out of them otherwise (`Building.Takes`). These numbers add up along a computation
(`Takes.bind`), so each shape has its own (`Shape.nodeCount`), and generating it succeeds exactly on
the plans with as many subnets (`Topology.outcome_of_generate`).
-/

namespace Overlay

/-- Number of nodes of a topology. A chain has a host at each end. -/
def Shape.nodeCount (hops : Option UInt32) : Shape → Nat
  | .minimal => 3
  | .medium => 4
  | .large => 31
  | .chain => (hops.getD 0).toNat + 2

namespace Building

variable {α β : Type}

/-! ## Numbers of nodes -/

/-- The computation constructs `count` nodes. It fails only for lack of subnets, and only if fewer
are left. -/
structure Takes (b : Building α) (count : Nat) : Prop where
  ok {p : AddressPlan} {h : p.Splits} {k m : Nat} (hm : k + count = m) (hle : m ≤ p.capacity) :
    ∃ x, b (.ofCount p h k (by omega)) = (.ok x, .ofCount p h m hle)
  exhausted {p : AddressPlan} {h : p.Splits} {k : Nat} (hk : k ≤ p.capacity)
    (hlt : p.capacity < k + count) :
    (b (.ofCount p h k hk)).1 = .error (.allocation (.exhausted p.space p.capacity))

theorem takes_pure (x : α) : Takes (pure x) 0 where
  ok hm hle := by
    subst hm
    exact ⟨x, rfl⟩
  exhausted hk hlt := absurd hlt (Nat.not_lt.2 hk)

/-- What comes second takes its nodes after those of the first. -/
theorem Takes.bind {b : Building α} {f : α → Building β} {m n l : Nat} (hb : Takes b m)
    (hf : ∀ x, Takes (f x) n) (hl : m + n = l) : Takes (b >>= f) l where
  ok {p h k _} hm hle := by
    obtain ⟨x, hx⟩ := hb.ok (p := p) (h := h) (k := k) rfl (by omega)
    obtain ⟨y, hy⟩ := (hf x).ok (p := p) (h := h) (k := k + m) (by omega) hle
    exact ⟨y, (bind_of_ok hx).trans hy⟩
  exhausted {p h k} hk hlt := by
    rcases Nat.lt_or_ge p.capacity (k + m) with hfew | hle
    · exact bind_of_error (hb.exhausted hk hfew)
    · obtain ⟨x, hx⟩ := hb.ok (p := p) (h := h) (k := k) rfl hle
      rw [bind_of_ok hx]
      exact (hf x).exhausted hle (by omega)

theorem takes_router : Takes router 1 where
  ok hm hle := by
    subst hm
    exact ⟨_, router_ofCount hle⟩
  exhausted {p h k} hk hlt := by
    rw [router, Allocator.router, Allocator.take_of_le (Nat.le_of_lt_succ hlt)]
    rfl

theorem takes_host : Takes host 1 where
  ok hm hle := by
    subst hm
    exact ⟨_, host_ofCount hle⟩
  exhausted {p h k} hk hlt := by
    rw [host, Allocator.host, Allocator.take_of_le (Nat.le_of_lt_succ hlt)]
    rfl

theorem Takes.map {b : Building α} {n : Nat} (hb : Takes b n) (f : α → β) :
    Takes (do return f (← b)) n :=
  hb.bind (fun x => takes_pure (f x)) rfl

theorem takes_linkEach {child : Building Node} {n : Nat} (hchild : Takes child n) (count : Nat)
    (r : Router) : Takes (linkEach child count r) (count * n) := by
  induction count generalizing r with
  | zero =>
    rw [linkEach, Nat.zero_mul]
    exact takes_pure r
  | succ count ih => exact hchild.bind (fun m => ih (r.link m)) (by rw [Nat.succ_mul, Nat.add_comm])

/-- A router with `count` trees of `n` nodes below it. -/
theorem takes_router_linkEach {child : Building Node} {n : Nat} (hchild : Takes child n)
    (count : Nat) : Takes (do linkEach child count (← router)) (1 + count * n) :=
  takes_router.bind (takes_linkEach hchild count) rfl

theorem takes_tree {child : Building Node} {n : Nat} (hchild : Takes child n) (count : Nat) :
    Takes (do return (↑(← linkEach child count (← router)) : Node)) (1 + count * n) :=
  takes_router.bind (fun r => (takes_linkEach hchild count r).map _) rfl

/-! ## The shapes -/

theorem takes_minimal : Takes minimal 3 :=
  takes_router_linkEach (takes_host.map _) 2

theorem takes_large : Takes large 31 :=
  takes_router_linkEach (takes_tree (takes_tree (takes_host.map _) 2) 3) 3

theorem takes_medium : Takes medium 4 :=
  takes_router.bind (fun _ => takes_router.bind (fun _ => takes_host.bind (fun _ =>
    takes_host.map _) rfl) rfl) rfl

theorem takes_chainTail (further : Nat) : Takes (chainTail further) (further + 2) := by
  induction further with
  | zero => exact takes_router.bind (fun _ => takes_host.map _) rfl
  | succ further ih => exact takes_router.bind (fun _ => ih.map _) (Nat.add_comm _ _)

theorem takes_chain_reset {hops : UInt32} (hpos : hops ≠ 0) :
    Takes (do return (← chainTail (hops.toNat - 1)).link (← host) : Building Router)
      (hops.toNat + 2) := by
  have hlt : 0 < hops.toNat := Nat.pos_of_ne_zero fun hzero => hpos (UInt32.toNat_inj.1 hzero)
  exact (takes_chainTail _).bind (fun _ => takes_host.map _) (by omega)

/-- Started from the beginning, a topology is built by a computation that takes its nodes. -/
theorem exists_takes_topology {shape : Shape} {hops : Option UInt32}
    (hchain : shape = .chain → ∃ n, hops = some n ∧ n ≠ 0) :
    ∃ b : Building Topology, Takes b (shape.nodeCount hops) ∧
      ∀ {p : AddressPlan} {h : p.Splits}, topology shape hops (.ofCount p h 0 (Nat.zero_le _)) =
        b (.ofCount p h 0 (Nat.zero_le _)) := by
  cases shape with
  | minimal => exact ⟨_, takes_minimal.map _, reset_bind_ofCount _⟩
  | medium => exact ⟨_, takes_medium.map _, reset_bind_ofCount _⟩
  | large => exact ⟨_, takes_large.map _, reset_bind_ofCount _⟩
  | chain =>
    obtain ⟨n, rfl, hpos⟩ := hchain rfl
    exact ⟨_, (takes_chain_reset hpos).map _, bind_congr_left _ (chain_of_ne_zero hpos)⟩

end Building

/-! ## The tree -/

namespace Built

variable {p : AddressPlan} {a : Allocator} {n : Node} (h : Built p a [n])
  (hlt : a.allocated < 2 ^ 32)

include h hlt

/-- The numbers count the nodes from 1. -/
theorem perm_ids : (n.preorder.map fun m => m.id.toNat).Perm (List.range' 1 a.allocated) := by
  have htags := h.numbered.tags.map fun tag => tag.1.toNat
  rw [List.flatMap_singleton, List.map_map, List.map_map] at htags
  refine htags.trans (.of_eq ?_)
  rw [List.range'_eq_map_range]
  refine List.map_congr_left fun k hk => ?_
  rw [List.mem_range] at hk
  have hid : (UInt32.ofNat (k + 1)).toNat = k + 1 :=
    UInt32.toNat_ofNat_of_lt' (Nat.lt_of_le_of_lt hk hlt)
  exact hid.trans (Nat.add_comm k 1)

/-- The number of a node says which subnet it has. -/
theorem uplink_eq {m : Node} (hm : m ∈ n.preorder) :
    m.uplink = p.uplinkOf h.splits m.id.toNat := by
  obtain ⟨k, hk, htag⟩ := h.exists_tag (List.mem_singleton_self n) hm
  have hid : m.id = .ofNat (k + 1) := congrArg Prod.fst htag
  have hnet : m.uplink = p.subnet h.splits k := congrArg Prod.snd htag
  rw [hid, UInt32.toNat_ofNat_of_lt' (Nat.lt_of_le_of_lt hk hlt), hnet]
  rfl

end Built

namespace Topology

variable {shape : Shape} {hops : Option UInt32} {p : AddressPlan}

theorem generate_of_not_splits (h : ¬p.Splits) :
    generate shape hops p = .error (.allocation (.invalidLength p.space p.subnetLength)) := by
  rw [generate, Allocator.ofPlan, SubnetPool.ofPlan, dif_neg h]
  rfl

section Splits

variable (h : p.Splits) (hchain : shape = .chain → ∃ n, hops = some n ∧ n ≠ 0)

include h hchain

theorem generate_eq_exhausted (hlt : p.capacity < shape.nodeCount hops) :
    generate shape hops p = .error (.allocation (.exhausted p.space p.capacity)) := by
  obtain ⟨b, hb, hstart⟩ := Building.exists_takes_topology hchain
  rw [generate_eq h, hstart]
  exact hb.exhausted (Nat.zero_le _) (by omega)

/-- With enough subnets a tree is made that uses as many of them as the shape has nodes. -/
theorem exists_added_of_le (hle : shape.nodeCount hops ≤ p.capacity) :
    ∃ (root : Router) (a a' : Allocator), generate shape hops p = .ok (.ofRoot root) ∧
      a.allocated = 0 ∧ a'.allocated = shape.nodeCount hops ∧ Added p a a' [] root.toNode := by
  obtain ⟨b, hb, hstart⟩ := Building.exists_takes_topology hchain
  obtain ⟨t, ht⟩ := hb.ok (p := p) (h := h) (Nat.zero_add _) hle
  rw [← hstart] at ht
  obtain ⟨hroot, hadded⟩ := Building.added_topology (.start (Allocator.ofPlan_eq h)) ht
  refine ⟨t.root, _, _, ?_, rfl, rfl, hadded⟩
  rw [generate_eq h, ht, ← hroot]

end Splits

/-- What comes of generating. A plan that cannot be split is refused first, then a chain without
routers. Otherwise there is one outcome for plans with fewer subnets than the shape has nodes, which
are exhausted, and one for the others, with a new topology. It is a tree that has all the numbers
from 1 up to the number of its nodes, each once, where the node with number `k` has the `k`-th
subnet, a node has a larger number than the router above it, the root has number 1, and all tables
are empty. A plan with fewer than `2 ^ 32` subnets never runs out of numbers. -/
theorem outcome_of_generate (shape : Shape) (hops : Option UInt32) (p : AddressPlan)
    (hfew : p.Splits → p.capacity < 2 ^ 32) :
    (¬p.Splits → generate shape hops p =
      .error (.allocation (.invalidLength p.space p.subnetLength))) ∧
    ∀ h : p.Splits,
      (shape = .chain → hops = none → generate shape hops p = .error .hopsMissing) ∧
      (shape = .chain → hops = some 0 → generate shape hops p = .error .hopsZero) ∧
      ((shape = .chain → ∃ n, hops = some n ∧ n ≠ 0) →
        let capacity := 2 ^ (p.subnetLength.toNat - p.space.length)
        let count := shape.nodeCount hops
        (generate shape hops p = .error (.allocation (.exhausted p.space capacity)) ↔
          capacity < count) ∧
        (count ≤ capacity → ∃ root : Router, generate shape hops p = .ok (.ofRoot root) ∧
          root.toNode.preorder.length = count ∧
          (root.toNode.preorder.map fun n => n.neighbors.length).sum = count - 1 ∧
          (root.toNode.preorder.map fun n => n.id.toNat).Perm (List.range' 1 count) ∧
          (∀ n ∈ root.toNode.preorder, n.uplink = p.subnet h (n.id.toNat - 1)) ∧
          (∀ l ∈ root.toNode.preorder, ∀ n ∈ l.neighbors, l.id < n.id) ∧
          root.info.id = 1 ∧
          ∀ n ∈ root.toNode.preorder, n.table = [])) := by
  refine ⟨generate_of_not_splits, fun h => ⟨?_, ?_, fun hchain => ?_⟩⟩
  · rintro rfl rfl
    rw [generate_eq h]
    rfl
  · rintro rfl rfl
    rw [generate_eq h]
    rfl
  · have hsome : shape.nodeCount hops ≤ p.capacity → _ := exists_added_of_le h hchain
    refine ⟨⟨fun herr => ?_, generate_eq_exhausted h hchain⟩, fun hle => ?_⟩
    · by_contra hge
      obtain ⟨root, -, -, hok, -⟩ := hsome (Nat.not_lt.1 hge)
      rw [hok] at herr
      cases herr
    · obtain ⟨root, a, a', hok, hstart, hcount, hadded⟩ := hsome hle
      have hlt : a'.allocated < 2 ^ 32 := hadded.built.allocated_le_capacity.trans_lt (hfew h)
      have hid := hadded.id_eq
      rw [hstart] at hid
      have hlen := hadded.built.length_preorder
      have hsum := root.toNode.sum_length_neighbors
      have hids := hadded.built.perm_ids hlt
      rw [hcount] at hlen hids
      exact ⟨root, hok, hlen, by omega, hids, fun n hn => hadded.built.uplink_eq hlt hn,
        hadded.parentsFirst hlt, hid, hadded.built.blank (List.mem_singleton_self _)⟩

/-- A plan of eight subnets. -/
def eightSubnets : AddressPlan :=
  ⟨AddressPlan.standardSubnet 0, 27⟩

/-- Eight subnets are just enough for a chain of six routers. -/
theorem outcome_of_generate_eightSubnets :
    eightSubnets.capacity < 2 ^ 32 ∧
      generate .chain (some 7) eightSubnets =
        .error (.allocation (.exhausted eightSubnets.space 8)) ∧
      ∃ root : Router, generate .chain (some 6) eightSubnets = .ok (.ofRoot root) ∧
        root.toNode.preorder.length = 8 ∧
        (root.toNode.preorder.map fun n => n.id.toNat).Perm [1, 2, 3, 4, 5, 6, 7, 8] := by
  have hcapacity : eightSubnets.capacity < 2 ^ 32 := by decide
  have hsplits : eightSubnets.Splits := by decide
  obtain ⟨-, hseven⟩ := outcome_of_generate .chain (some 7) eightSubnets fun _ => hcapacity
  obtain ⟨-, hsix⟩ := outcome_of_generate .chain (some 6) eightSubnets fun _ => hcapacity
  obtain ⟨-, -, hseven⟩ := hseven hsplits
  obtain ⟨-, -, hsix⟩ := hsix hsplits
  obtain ⟨hexhausted, -⟩ := hseven fun _ => ⟨7, rfl, by decide⟩
  obtain ⟨-, hbuilt⟩ := hsix fun _ => ⟨6, rfl, by decide⟩
  obtain ⟨root, hroot, hlen, -, hids, -⟩ := hbuilt (by decide)
  exact ⟨hcapacity, hexhausted.2 (by decide), root, hroot, hlen, hids⟩

end Topology

end Overlay
