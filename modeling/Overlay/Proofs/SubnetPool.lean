import Mathlib
import Overlay.Proofs.AddressPlan

/-!
Rounds of a subnet pool. A round starts when the pool is made or reset. `Round` follows a pool
through any sequence of requests, and `Round.Steady` is its invariant: the pool has granted the
first subnets of its plan, one per request until none is left. `enumerates_space` says what that
comes to: one round gives every address of the space to exactly one subnet.
-/

namespace Overlay

open Ipv4 (Net)

namespace SubnetPool

/-- What a pool can be asked for. -/
inductive Request
  | next
  | reset
deriving DecidableEq

/-- A pool in use: how often it was asked for a subnet since it was made or last reset, and the
subnets it has granted since then, in order. -/
structure Round where
  pool : SubnetPool
  asked : Nat
  granted : List Net

/-- What a request does. A pool that refuses a subnet stays as it is. -/
def Round.after (r : Round) : Request → Round
  | .next =>
    match r.pool.next with
    | .ok (subnet, pool) => ⟨pool, r.asked + 1, r.granted ++ [subnet]⟩
    | .error _ => { r with asked := r.asked + 1 }
  | .reset => ⟨r.pool.reset, 0, []⟩

/-- A pool after a sequence of requests. -/
def run (s : SubnetPool) (requests : List Request) : Round :=
  requests.foldl Round.after ⟨s, 0, []⟩

theorem run_concat (s : SubnetPool) (requests : List Request) (q : Request) :
    s.run (requests ++ [q]) = (s.run requests).after q := by
  rw [run, List.foldl_append]
  rfl

/-! ## Requests -/

variable {p : AddressPlan} {s : SubnetPool}

/-- A pool is determined by its plan and by how many subnets are in use. -/
theorem ext {t : SubnetPool} (hplan : s.plan = t.plan) (hcount : s.allocated = t.allocated) :
    s = t := by
  obtain ⟨plan, splits, allocated, hle⟩ := s
  obtain ⟨plan', splits', allocated', hle'⟩ := t
  obtain rfl : plan = plan' := hplan
  obtain rfl : allocated = allocated' := hcount
  rfl

theorem ofPlan_eq_ok_iff : ofPlan p = .ok s ↔ s.plan = p ∧ s.allocated = 0 := by
  rw [ofPlan]
  constructor
  · intro h
    split at h <;> cases h
    exact ⟨rfl, rfl⟩
  · intro h
    obtain ⟨plan, splits, allocated, hle⟩ := s
    obtain ⟨rfl, rfl⟩ := h
    exact dif_pos splits

theorem exists_ofPlan_iff : (∃ s, ofPlan p = .ok s) ↔ p.Splits := by
  simp only [ofPlan_eq_ok_iff]
  constructor
  · intro hex
    obtain ⟨s, rfl, -⟩ := hex
    exact s.splits
  · exact fun h => ⟨⟨p, h, 0, Nat.zero_le _⟩, rfl, rfl⟩

theorem next_of_lt (h : s.allocated < s.plan.capacity) :
    s.next = .ok (s.plan.subnet s.splits s.allocated,
      { s with allocated := s.allocated + 1, allocated_le := h }) :=
  dif_pos h

theorem next_of_le (h : s.plan.capacity ≤ s.allocated) :
    s.next = .error (.exhausted s.plan.space s.plan.capacity) :=
  dif_neg (Nat.not_lt.2 h)

/-! ## The invariant -/

/-- The pool has granted the first subnets of the plan, as many as it was asked for or as there
are. -/
structure Round.Steady (p : AddressPlan) (h : p.Splits) (r : Round) : Prop where
  plan : r.pool.plan = p
  allocated : r.pool.allocated = min r.asked p.capacity
  granted : r.granted = (List.range r.pool.allocated).map (p.subnet h)

namespace Round.Steady

variable {h : p.Splits} {r : Round}

theorem next_of_lt (hr : r.Steady p h) (hlt : r.asked < p.capacity) :
    ∃ pool, r.pool.next = .ok (p.subnet h r.asked, pool) ∧ pool.plan = p ∧
      pool.allocated = r.asked + 1 := by
  obtain ⟨⟨plan, splits, allocated, hle⟩, asked, granted⟩ := r
  obtain ⟨rfl, hcount, -⟩ := hr
  obtain rfl : allocated = asked := hcount.trans (Nat.min_eq_left (Nat.le_of_lt hlt))
  exact ⟨_, SubnetPool.next_of_lt hlt, rfl, rfl⟩

theorem next_of_le (hr : r.Steady p h) (hle : p.capacity ≤ r.asked) :
    r.pool.next = .error (.exhausted p.space p.capacity) := by
  obtain ⟨rfl, hcount, -⟩ := hr
  rw [Nat.min_eq_right hle] at hcount
  exact SubnetPool.next_of_le (Nat.le_of_eq hcount.symm)

theorem after (hr : r.Steady p h) (q : Request) : (r.after q).Steady p h := by
  cases q with
  | reset => exact ⟨hr.plan, (Nat.zero_min _).symm, rfl⟩
  | next =>
    rw [Round.after]
    rcases Nat.lt_or_ge r.asked p.capacity with hlt | hge
    · obtain ⟨pool, hnext, hplan, hcount⟩ := hr.next_of_lt hlt
      rw [hnext]
      refine ⟨hplan, ?_, ?_⟩
      · rw [hcount, Nat.min_eq_left hlt]
      · have hbefore := hr.allocated
        rw [Nat.min_eq_left (Nat.le_of_lt hlt)] at hbefore
        rw [hcount, hr.granted, hbefore, List.range_succ, List.map_append, List.map_singleton]
    · rw [hr.next_of_le hge]
      refine ⟨hr.plan, ?_, hr.granted⟩
      rw [hr.allocated, Nat.min_eq_right hge, Nat.min_eq_right (Nat.le_succ_of_le hge)]

/-- The pool holds the invariant whatever it is asked for. -/
theorem run (hs : ofPlan p = .ok s) (h : p.Splits) (requests : List Request) :
    (s.run requests).Steady p h := by
  induction requests using List.reverseRecOn with
  | nil =>
    obtain ⟨hplan, hcount⟩ := ofPlan_eq_ok_iff.1 hs
    have hgranted : [] = (List.range s.allocated).map (p.subnet h) := by
      rw [hcount, List.range_zero, List.map_nil]
    exact ⟨hplan, hcount.trans (Nat.zero_min _).symm, hgranted⟩
  | append_singleton requests q ih =>
    rw [run_concat]
    exact ih.after q

/-! ## The subnets of a round -/

theorem allocated_le (hr : r.Steady p h) : r.pool.allocated ≤ p.capacity :=
  hr.allocated ▸ Nat.min_le_right _ _

theorem pairwise_disjoint (hr : r.Steady p h) :
    r.granted.Pairwise fun m n => ∀ a, ¬(m.contains a = true ∧ n.contains a = true) := by
  rw [hr.granted]
  exact AddressPlan.pairwise_disjoint_subnets h hr.allocated_le

theorem space_contains (hr : r.Steady p h) {n : Net} (hn : n ∈ r.granted) {a : Ipv4.Address}
    (ha : n.contains a = true) : p.space.contains a = true := by
  rw [hr.granted, List.mem_map] at hn
  obtain ⟨k, hk, rfl⟩ := hn
  exact AddressPlan.space_contains (Nat.lt_of_lt_of_le (List.mem_range.1 hk) hr.allocated_le) ha

/-- A round in which no subnet is left has granted the whole space. -/
theorem exists_contains (hr : r.Steady p h) (hle : p.capacity ≤ r.asked) {a : Ipv4.Address}
    (ha : p.space.contains a = true) : ∃ n ∈ r.granted, n.contains a = true := by
  obtain ⟨k, hk, hka⟩ := AddressPlan.exists_subnet_contains h ha
  refine ⟨p.subnet h k, ?_, hka⟩
  rw [hr.granted, hr.allocated, Nat.min_eq_right hle]
  exact List.mem_map_of_mem (List.mem_range.2 hk)

end Round.Steady

/-- A pool enumerates its space. There is a pool for exactly the plans whose subnets are neither
larger than the space nor longer than an address, with host bits or without, and those without are
the valid plans. Asked for the `k + 1`-th time in a round, a pool grants the subnet `k` blocks
behind the start of the space, or refuses and stays as it is once all are granted. The subnets of a
round are disjoint, lie in the space, and in a full round are all of it. Addresses are compared as
natural numbers, so nothing wraps around at the end of the addresses. -/
theorem enumerates_space (p : AddressPlan) :
    ((∃ s, ofPlan p = .ok s) ↔
      p.space.length ≤ p.subnetLength.toNat ∧ p.subnetLength.toNat ≤ 32) ∧
    (p.validate = .ok () ↔
      (∃ s, ofPlan p = .ok s) ∧ p.space.address.toNat % 2 ^ (32 - p.space.length) = 0) ∧
    ∀ s, ofPlan p = .ok s → ∀ requests,
      let r := s.run requests
      let capacity := 2 ^ (p.subnetLength.toNat - p.space.length)
      (r.asked < capacity → ∃ n pool, r.pool.next = .ok (n, pool) ∧
        n.address.toNat =
          p.space.network.toNat + r.asked * 2 ^ (32 - p.subnetLength.toNat) ∧
        n.length = p.subnetLength.toNat ∧
        s.run (requests ++ [.next]) = ⟨pool, r.asked + 1, r.granted ++ [n]⟩) ∧
      (capacity ≤ r.asked → r.pool.next = .error (.exhausted p.space capacity) ∧
        s.run (requests ++ [.next]) = ⟨r.pool, r.asked + 1, r.granted⟩) ∧
      s.run (requests ++ [.reset]) = ⟨s, 0, []⟩ ∧
      r.pool.allocated = min r.asked capacity ∧
      (r.granted.Pairwise fun m n => ∀ a, ¬(m.contains a = true ∧ n.contains a = true)) ∧
      (∀ a, (∃ n ∈ r.granted, n.contains a = true) → p.space.contains a = true) ∧
      (capacity ≤ r.asked → ∀ a, p.space.contains a = true →
        ∃ n ∈ r.granted, n.contains a = true) := by
  refine ⟨exists_ofPlan_iff, ?_, ?_⟩
  · rw [exists_ofPlan_iff]
    exact AddressPlan.validate_eq_ok_iff
  · intro s hs requests r capacity
    have hsplits := exists_ofPlan_iff.1 ⟨s, hs⟩
    have hr : r.Steady p hsplits := .run hs hsplits requests
    refine ⟨fun hlt => ?_, fun hle => ?_, ?_, hr.allocated, hr.pairwise_disjoint,
      fun a ⟨n, hn, ha⟩ => hr.space_contains hn ha, fun hle a ha => hr.exists_contains hle ha⟩
    · obtain ⟨pool, hnext, -⟩ := hr.next_of_lt hlt
      refine ⟨_, pool, hnext, AddressPlan.toNat_address_subnet_eq_add hlt, rfl, ?_⟩
      exact (run_concat _ _ _).trans (by rw [Round.after, hnext])
    · have hnext := hr.next_of_le hle
      refine ⟨hnext, ?_⟩
      exact (run_concat _ _ _).trans (by rw [Round.after, hnext])
    · obtain ⟨hplan, hcount⟩ := ofPlan_eq_ok_iff.1 hs
      have hreset : r.pool.reset = s := ext (hr.plan.trans hplan.symm) hcount.symm
      exact (run_concat _ _ _).trans (by rw [Round.after, hreset])

/-- The last two addresses, one subnet each. The space is written with a host bit. -/
def lastPair : AddressPlan :=
  ⟨⟨0xFFFFFFFF, 31, by decide⟩, 32⟩

/-- After a reset both are granted again, and there is no third. -/
theorem enumerates_space_lastPair :
    ∃ s, ofPlan lastPair = .ok s ∧ lastPair.validate ≠ .ok () ∧
      (s.run [.next, .reset, .next, .next]).pool.next = .error (.exhausted lastPair.space 2) ∧
      ∃ n ∈ (s.run [.next, .reset, .next, .next]).granted, n.contains 0xFFFFFFFE = true := by
  obtain ⟨-, hvalid, hruns⟩ := enumerates_space lastPair
  obtain ⟨-, hfull, -, -, -, -, hcover⟩ :=
    hruns ⟨lastPair, by decide, 0, Nat.zero_le _⟩ rfl [.next, .reset, .next, .next]
  refine ⟨_, rfl, fun h => absurd (hvalid.1 h).2 (by decide), (hfull (by decide)).1, ?_⟩
  exact hcover (by decide) _ (by decide)

end SubnetPool

end Overlay
