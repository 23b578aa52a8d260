import Mathlib
import Overlay.Proofs.SubnetPool
import Overlay.Proofs.Topology.Generate

/-!
Rounds of an allocator. The number and the network of a node follow from how many nodes were
constructed before it in the round, whatever their kinds (`Round.Steady`), because a constructor
that fails changes nothing. A reset allocator is a new one, and building a topology starts with a
reset, so it does not depend on what was built before (`Building.topology_congr`).
-/

namespace Overlay

open Ipv4 (Net)

/-- The node of a kind with the given number and network, linked to nothing. -/
def Node.ofTag : Kind → NodeId × Net → Node
  | .router, tag => (Router.ofNet tag.1 tag.2).toNode
  | .host, tag => .host (Host.ofNet tag.1 tag.2)

@[simp]
theorem Node.kind_ofTag (k : Kind) (tag : NodeId × Net) : (ofTag k tag).kind = k := by
  cases k <;> rfl

@[simp]
theorem Node.tag_ofTag (k : Kind) (tag : NodeId × Net) : (ofTag k tag).tag = tag := by
  cases k <;> rfl

namespace Allocator

/-- Constructs a node of the given kind. -/
def construct (a : Allocator) : Kind → Except AllocationError Node × Allocator
  | .router => (a.router.1.map Router.toNode, a.router.2)
  | .host => (a.host.1.map Node.host, a.host.2)

/-- What an allocator can be asked for. -/
inductive Request
  | construct (k : Kind)
  | reset
deriving DecidableEq

/-- An allocator in use, with the nodes it has constructed since it was made or last reset. -/
structure Round where
  allocator : Allocator
  nodes : List Node

/-- What a request does. -/
def Round.after (r : Round) : Request → Round
  | .construct k =>
    match r.allocator.construct k with
    | (.ok n, allocator) => ⟨allocator, r.nodes ++ [n]⟩
    | (.error _, allocator) => ⟨allocator, r.nodes⟩
  | .reset => ⟨r.allocator.reset, []⟩

/-- An allocator after a sequence of requests. -/
def run (a : Allocator) (requests : List Request) : Round :=
  requests.foldl Round.after ⟨a, []⟩

theorem run_concat (a : Allocator) (requests : List Request) (q : Request) :
    a.run (requests ++ [q]) = (a.run requests).after q := by
  rw [run, List.foldl_append]
  rfl

/-- The allocator of a plan when it has constructed `k` nodes. -/
def ofCount (p : AddressPlan) (h : p.Splits) (k : Nat) (hk : k ≤ p.capacity) : Allocator :=
  ⟨.ofNat (k + 1), ⟨p, h, k, hk⟩⟩

variable {p : AddressPlan} {h : p.Splits} {a : Allocator}

theorem ofPlan_eq (h : p.Splits) : ofPlan p = .ok (.ofCount p h 0 (Nat.zero_le _)) := by
  rw [ofPlan, SubnetPool.ofPlan, dif_pos h]
  rfl

theorem exists_splits_of_ofPlan (ha : ofPlan p = .ok a) :
    ∃ h : p.Splits, a = .ofCount p h 0 (Nat.zero_le _) := by
  rw [ofPlan, SubnetPool.ofPlan] at ha
  split at ha <;> cases ha
  exact ⟨_, rfl⟩

theorem reset_eq (ha : a.subnets.plan = p) (h : p.Splits) :
    a.reset = ofCount p h 0 (Nat.zero_le _) := by
  subst ha
  rfl

/-! ## One construction -/

theorem construct_eq (a : Allocator) (k : Kind) :
    a.construct k = (a.take.1.map (Node.ofTag k), a.take.2) := by
  cases k <;> rcases htake : a.take with ⟨e | tag, a'⟩ <;>
    simp [construct, router, host, htake, Except.map, Node.ofTag]

theorem take_ofCount {k : Nat} (hk : k < p.capacity) :
    (ofCount p h k (Nat.le_of_lt hk)).take = (.ok (p.tag h k), ofCount p h (k + 1) hk) := by
  have hnext := SubnetPool.next_of_lt (s := ⟨p, h, k, Nat.le_of_lt hk⟩) hk
  rw [take, ofCount]
  dsimp only
  rw [hnext, ← UInt32.ofNat_one, ← UInt32.ofNat_add]
  rfl

theorem construct_ofCount {k : Nat} (hk : k < p.capacity) (kind : Kind) :
    (ofCount p h k (Nat.le_of_lt hk)).construct kind =
      (.ok (.ofTag kind (p.tag h k)), ofCount p h (k + 1) hk) := by
  rw [construct_eq, take_ofCount hk]
  rfl

/-- An allocator without subnets fails and stays as it is. -/
theorem take_of_le (ha : a.subnets.plan.capacity ≤ a.allocated) :
    a.take = (.error (.exhausted a.subnets.plan.space a.subnets.plan.capacity), a) := by
  rw [take, SubnetPool.next_of_le ha]

theorem construct_of_le (ha : a.subnets.plan.capacity ≤ a.allocated) (kind : Kind) :
    a.construct kind =
      (.error (.exhausted a.subnets.plan.space a.subnets.plan.capacity), a) := by
  rw [construct_eq, take_of_le ha]
  rfl

/-! ## The invariant -/

/-- The nodes of the round have the first numbers and subnets, and nothing else was handed out. -/
structure Round.Steady (p : AddressPlan) (h : p.Splits) (r : Round) : Prop where
  le : r.nodes.length ≤ p.capacity
  allocator : r.allocator = .ofCount p h r.nodes.length le
  nodes : ∀ i n, r.nodes[i]? = some n → n = Node.ofTag n.kind (p.tag h i)

namespace Round.Steady

variable {r : Round}

theorem of_length {k : Nat} (hk : k ≤ p.capacity) (hlen : r.nodes.length = k)
    (ha : r.allocator = .ofCount p h k hk)
    (hn : ∀ i n, r.nodes[i]? = some n → n = Node.ofTag n.kind (p.tag h i)) : r.Steady p h := by
  subst hlen
  exact ⟨hk, ha, hn⟩

theorem construct_of_lt (hr : r.Steady p h) (hlt : r.nodes.length < p.capacity) (k : Kind) :
    r.allocator.construct k =
      (.ok (.ofTag k (p.tag h r.nodes.length)), .ofCount p h (r.nodes.length + 1) hlt) := by
  rw [hr.allocator, construct_ofCount hlt]

theorem construct_of_le (hr : r.Steady p h) (hle : p.capacity ≤ r.nodes.length) (k : Kind) :
    r.allocator.construct k = (.error (.exhausted p.space p.capacity), r.allocator) := by
  rw [hr.allocator]
  exact Allocator.construct_of_le hle k

/-- A failed construction leaves the round as it is. -/
theorem after_of_le (hr : r.Steady p h) (hle : p.capacity ≤ r.nodes.length) (k : Kind) :
    r.after (.construct k) = r := by
  rw [Round.after, hr.construct_of_le hle]

theorem after (hr : r.Steady p h) (q : Request) : (r.after q).Steady p h := by
  cases q with
  | reset =>
    have hreset : r.allocator.reset = .ofCount p h 0 (Nat.zero_le _) :=
      reset_eq (congrArg (·.subnets.plan) hr.allocator) h
    exact ⟨Nat.zero_le _, hreset, by simp [Round.after]⟩
  | construct k =>
    rcases Nat.lt_or_ge r.nodes.length p.capacity with hlt | hge
    · rw [Round.after, hr.construct_of_lt hlt]
      refine of_length hlt List.length_append rfl fun i n hn => ?_
      rw [List.getElem?_append] at hn
      split at hn
      · exact hr.nodes i n hn
      · obtain ⟨hi, rfl⟩ := List.getElem?_eq_some_iff.1 hn
        rw [List.length_singleton] at hi
        obtain rfl : i = r.nodes.length := by omega
        simp
    · rw [hr.after_of_le hge]
      exact hr

/-- The round holds the invariant whatever is constructed. -/
theorem run (ha : ofPlan p = .ok a) (h : p.Splits) (requests : List Request) :
    (a.run requests).Steady p h := by
  induction requests using List.reverseRecOn with
  | nil =>
    obtain ⟨_, rfl⟩ := exists_splits_of_ofPlan ha
    exact ⟨Nat.zero_le _, rfl, by simp [Allocator.run]⟩
  | append_singleton requests q ih =>
    rw [run_concat]
    exact ih.after q

/-- Until a reset, no constructor succeeds once the subnets are used up. -/
theorem run_construct_of_le (ha : ofPlan p = .ok a) (h : p.Splits) {requests : List Request}
    (hle : p.capacity ≤ (a.run requests).nodes.length) (ks : List Kind) :
    a.run (requests ++ ks.map .construct) = a.run requests := by
  induction ks using List.reverseRecOn with
  | nil => rw [List.map_nil, List.append_nil]
  | append_singleton ks k ih =>
    rw [List.map_append, List.map_singleton, ← List.append_assoc, run_concat, ih]
    exact (run ha h requests).after_of_le hle k

/-! ## The nodes of a round -/

theorem tag_eq (hr : r.Steady p h) {i : Nat} {n : Node} (hn : r.nodes[i]? = some n) :
    n.tag = p.tag h i := by
  rw [hr.nodes i n hn, Node.tag_ofTag]

theorem lt_capacity (hr : r.Steady p h) {i : Nat} {n : Node} (hn : r.nodes[i]? = some n) :
    i < p.capacity :=
  Nat.lt_of_lt_of_le (List.getElem?_eq_some_iff.1 hn).1 hr.le

/-- As long as numbers fit into a word, they count the nodes. -/
theorem toNat_id (hr : r.Steady p h) {i : Nat} {n : Node} (hn : r.nodes[i]? = some n)
    (hi : i < 2 ^ 32 - 1) : n.id.toNat = i + 1 := by
  rw [show n.id = .ofNat (i + 1) from congrArg Prod.fst (hr.tag_eq hn)]
  exact UInt32.toNat_ofNat_of_lt' (by rw [UInt32.size]; omega)

theorem uplink_eq (hr : r.Steady p h) {i : Nat} {n : Node} (hn : r.nodes[i]? = some n) :
    n.uplink = p.subnet h i :=
  congrArg Prod.snd (hr.tag_eq hn)

theorem nodup_ids (hr : r.Steady p h) (hlen : r.nodes.length ≤ 2 ^ 32 - 1) :
    (r.nodes.map Node.id).Nodup := by
  rw [List.Nodup, List.pairwise_map, List.pairwise_iff_getElem]
  intro i j hi hj hij heq
  have hidi := hr.toNat_id (List.getElem?_eq_getElem hi) (by omega)
  have hidj := hr.toNat_id (List.getElem?_eq_getElem hj) (by omega)
  rw [heq] at hidi
  omega

theorem map_uplink (hr : r.Steady p h) :
    r.nodes.map Node.uplink = (List.range r.nodes.length).map (p.subnet h) := by
  refine List.ext_getElem (by simp) fun i hi _ => ?_
  rw [List.length_map] at hi
  rw [List.getElem_map, List.getElem_map, List.getElem_range]
  exact hr.uplink_eq (List.getElem?_eq_getElem hi)

theorem pairwise_disjoint (hr : r.Steady p h) :
    r.nodes.Pairwise fun m n =>
      ∀ a, ¬(m.uplink.contains a = true ∧ n.uplink.contains a = true) := by
  have huplinks := AddressPlan.pairwise_disjoint_subnets h hr.le
  rwa [← hr.map_uplink, List.pairwise_map] at huplinks

end Round.Steady

end Allocator

/-! ## Building from a used allocator -/

namespace Building

variable {a b : Allocator}

/-- What starts with a reset depends on the plan of the allocator only. -/
theorem reset_bind_congr {α : Type} (f : Unit → Building α) (h : a.reset = b.reset) :
    (reset >>= f) a = (reset >>= f) b := by
  rw [Result.bind_apply, Result.bind_apply]
  change f () a.reset = f () b.reset
  rw [h]

theorem chain_congr {hops : UInt32} (hpos : hops ≠ 0) (h : a.reset = b.reset) :
    chain hops a = chain hops b := by
  unfold chain
  rw [if_neg hpos]
  exact reset_bind_congr _ h

theorem topology_congr {shape : Shape} {hops : Option UInt32}
    (hchain : shape = .chain → ∃ n, hops = some n ∧ n ≠ 0) (h : a.reset = b.reset) :
    topology shape hops a = topology shape hops b := by
  cases shape with
  | minimal => exact reset_bind_congr _ h
  | medium => exact reset_bind_congr _ h
  | large => exact reset_bind_congr _ h
  | chain =>
    obtain ⟨n, rfl, hpos⟩ := hchain rfl
    rw [topology, Result.bind_apply, Result.bind_apply, chain_congr hpos h]

end Building

namespace Allocator

/-- Nodes are numbered as they are constructed. In a round (since the allocator was made or last
reset) the `i + 1`-th node has the number `i + 1`, as long as numbers fit into a word, and the
subnet `i` blocks behind the start of the space. So numbers differ and networks are disjoint. A
constructor succeeds as long as subnets are left. Then all fail and change nothing until the next
reset. A reset makes the allocator a new one. Building a topology therefore gives the same result
on any allocator of the plan, in whatever state, and leaves it in the same state, but for a chain of
no routers, which is refused before the reset. -/
theorem constructs_in_order {p : AddressPlan} {new : Allocator} (hnew : ofPlan p = .ok new) :
    (∀ requests,
      let r := new.run requests
      let capacity := 2 ^ (p.subnetLength.toNat - p.space.length)
      (∀ i n, r.nodes[i]? = some n →
        (i < 2 ^ 32 - 1 → n.id.toNat = i + 1) ∧
        n.uplink.address.toNat =
          p.space.network.toNat + i * 2 ^ (32 - p.subnetLength.toNat) ∧
        n.uplink.length = p.subnetLength.toNat) ∧
      (r.nodes.length ≤ 2 ^ 32 - 1 → (r.nodes.map Node.id).Nodup) ∧
      (r.nodes.Pairwise fun m n =>
        ∀ a, ¬(m.uplink.contains a = true ∧ n.uplink.contains a = true)) ∧
      (r.nodes.length < capacity → ∀ k, ∃ n a, r.allocator.construct k = (.ok n, a) ∧
        n.kind = k ∧ new.run (requests ++ [.construct k]) = ⟨a, r.nodes ++ [n]⟩) ∧
      (capacity ≤ r.nodes.length → ∀ (ks : List Kind) (k : Kind),
        new.run (requests ++ ks.map .construct) = r ∧
        r.allocator.construct k = (.error (.exhausted p.space capacity), r.allocator)) ∧
      r.allocator.subnets.plan = p ∧
      new.run (requests ++ [.reset]) = ⟨new, []⟩) ∧
    ∀ a, a.subnets.plan = p → a.reset = new ∧
      (∀ shape hops, (shape = .chain → ∃ n, hops = some n ∧ n ≠ 0) →
        Building.topology shape hops a = Building.topology shape hops new) ∧
      Building.topology .chain (some 0) a = (.error .hopsZero, a) := by
  obtain ⟨h, hcount⟩ := exists_splits_of_ofPlan hnew
  have hreset : ∀ a : Allocator, a.subnets.plan = p → a.reset = new := by
    intro a ha
    rw [reset_eq ha h, hcount]
  constructor
  · intro requests r capacity
    have hr : r.Steady p h := .run hnew h requests
    have hplan : r.allocator.subnets.plan = p := congrArg (·.subnets.plan) hr.allocator
    refine ⟨fun i n hn => ⟨hr.toNat_id hn, ?_, ?_⟩, hr.nodup_ids, hr.pairwise_disjoint,
      fun hlt k => ⟨_, _, hr.construct_of_lt hlt k, Node.kind_ofTag _ _, ?_⟩,
      fun hle ks k => ⟨?_, hr.construct_of_le hle k⟩, hplan, ?_⟩
    · rw [hr.uplink_eq hn]
      exact AddressPlan.toNat_address_subnet_eq_add (hr.lt_capacity hn)
    · rw [hr.uplink_eq hn]
      rfl
    · rw [run_concat, Round.after, hr.construct_of_lt hlt]
    · exact Round.Steady.run_construct_of_le hnew h hle ks
    · rw [run_concat, Round.after, hreset _ hplan]
  · intro a ha
    refine ⟨hreset a ha, fun shape hops hchain => ?_, rfl⟩
    refine Building.topology_congr hchain ?_
    rw [hreset a ha, hreset new (congrArg (·.subnets.plan) hcount)]

/-- A plan of two subnets. -/
def twoHalves : AddressPlan :=
  ⟨⟨0x0A000000, 30, by decide⟩, 31⟩

/-- A router and a host use up both. A third node changes nothing, and the used allocator builds
what a new one does. -/
theorem constructs_in_order_twoHalves :
    ∃ new, ofPlan twoHalves = .ok new ∧
      let r := new.run [.construct .host, .reset, .construct .router, .construct .host]
      new.run [.construct .host, .reset, .construct .router, .construct .host,
        .construct .router] = r ∧
      (∃ n, r.nodes[1]? = some n ∧ n.kind = .host ∧ n.id.toNat = 2 ∧
        n.uplink.address.toNat = 0x0A000002) ∧
      Building.topology .minimal none r.allocator = Building.topology .minimal none new := by
  have hnew : ofPlan twoHalves = .ok (.ofCount twoHalves _ 0 (Nat.zero_le _)) :=
    ofPlan_eq (by decide)
  obtain ⟨hruns, hany⟩ := constructs_in_order hnew
  obtain ⟨hnodes, -, -, -, hfull, hplan, -⟩ :=
    hruns [.construct .host, .reset, .construct .router, .construct .host]
  obtain ⟨-, hbuild, -⟩ := hany _ hplan
  refine ⟨_, hnew, (hfull (by decide) [.router] .router).1, ?_, hbuild _ _ (by decide)⟩
  obtain ⟨hid, haddress, -⟩ := hnodes 1 _ rfl
  exact ⟨_, rfl, rfl, hid (by decide), haddress⟩

end Allocator

end Overlay
