import Mathlib
import Overlay.Proofs.Allocator

/-!
Counters of an allocator. The pool has at most `2 ^ 32` subnets, which its own counter has room for
(`AddressPlan.shift_eq_capacity`). The number of a node is a word that counts from 1, so it is one
short of that: a space that is the whole of the addresses, in networks of one address, is the only
one where the numbers start again before the subnets are used up (`Allocator.counters_of_run`).
-/

namespace Overlay

namespace AddressPlan

variable {p : AddressPlan}

theorem toNat_difference (h : p.Splits) :
    (p.subnetLength - .ofNat p.space.length).toNat = p.subnetLength.toNat - p.space.length := by
  obtain ⟨hle, hmax⟩ := h
  have hlength : (UInt8.ofNat p.space.length).toNat = p.space.length :=
    UInt8.toNat_ofNat_of_lt' (by rw [UInt8.size]; omega)
  rw [UInt8.toNat_sub_of_le, hlength]
  rw [UInt8.le_iff_toNat_le, hlength]
  exact hle

/-- The capacity is what a shift of a 64-bit word gives. -/
theorem shift_eq_capacity (h : p.Splits) :
    ((1 : UInt64) <<< (p.subnetLength - .ofNat p.space.length).toUInt64).toNat = p.capacity := by
  have hmax := h.2
  have hlt : 2 ^ (p.subnetLength.toNat - p.space.length) < 2 ^ 64 :=
    Nat.pow_lt_pow_right (by decide) (by omega)
  have hshift : (p.subnetLength.toNat - p.space.length) % 64 =
      p.subnetLength.toNat - p.space.length := Nat.mod_eq_of_lt (by omega)
  rw [UInt64.toNat_shiftLeft, UInt8.toNat_toUInt64, toNat_difference h, hshift, Nat.shiftLeft_eq,
    UInt64.toNat_one, Nat.one_mul, Nat.mod_eq_of_lt hlt]
  rfl

/-- Numbers and one more have room in a word, but for the largest pool. -/
theorem capacity_succ_lt_iff (h : p.Splits) :
    p.capacity + 1 < 2 ^ 32 ↔ ¬(p.space.length = 0 ∧ p.subnetLength.toNat = 32) := by
  obtain ⟨hle, hmax⟩ := h
  change 2 ^ (p.subnetLength.toNat - p.space.length) + 1 < 2 ^ 32 ↔ _
  constructor
  · rintro hlt ⟨hzero, hfull⟩
    rw [hzero, hfull] at hlt
    omega
  · intro hnot
    have hpow : 2 ^ (p.subnetLength.toNat - p.space.length) ≤ 2 ^ 31 :=
      Nat.pow_le_pow_right (by decide) (by omega)
    omega

end AddressPlan

namespace Allocator

variable {p : AddressPlan} {h : p.Splits} {new : Allocator}

namespace Round.Steady

variable {r : Round}

theorem toNat_nextId (hr : r.Steady p h) :
    r.allocator.nextId.toNat = (r.nodes.length + 1) % 2 ^ 32 := by
  rw [hr.allocator]
  exact UInt32.toNat_ofNat'

theorem toNat_id_mod (hr : r.Steady p h) {i : Nat} {n : Node} (hn : r.nodes[i]? = some n) :
    n.id.toNat = (i + 1) % 2 ^ 32 := by
  rw [show n.id = .ofNat (i + 1) from congrArg Prod.fst (hr.tag_eq hn)]
  exact UInt32.toNat_ofNat'

end Round.Steady

/-- As long as there are subnets, every construction succeeds. -/
theorem length_nodes_run_replicate (hnew : ofPlan p = .ok new) (k : Kind) {count : Nat}
    (hle : count ≤ p.capacity) :
    (new.run (List.replicate count (.construct k))).nodes.length = count := by
  obtain ⟨h, -⟩ := exists_splits_of_ofPlan hnew
  induction count with
  | zero => rfl
  | succ count ih =>
    have hlength := ih (Nat.le_of_succ_le hle)
    have hr := Round.Steady.run hnew h (List.replicate count (.construct k))
    rw [List.replicate_succ', run_concat, Round.after, hr.construct_of_lt (hlength.trans_lt hle),
      List.length_append, hlength]
    rfl

/-- The counters of an allocator. The difference of lengths and the shift that the capacity is made
of stay in their types, and so does the number of subnets in use. In every round the counter of
nodes and their numbers are right up to wrapping. They never wrap, unless the space is the whole of
the addresses in networks of one address, where the last node but one takes the last number. -/
theorem counters_of_run (hnew : ofPlan p = .ok new) :
    p.space.length ≤ p.subnetLength.toNat ∧
    (p.subnetLength - .ofNat p.space.length).toNat < 64 ∧
    ((1 : UInt64) <<< (p.subnetLength - .ofNat p.space.length).toUInt64).toNat = p.capacity ∧
    (∀ requests, let r := new.run requests
      r.allocator.allocated = r.nodes.length ∧ r.nodes.length ≤ p.capacity ∧
      r.nodes.length < UInt64.size ∧
      r.allocator.nextId.toNat = (r.nodes.length + 1) % 2 ^ 32 ∧
      ∀ i n, r.nodes[i]? = some n → n.id.toNat = (i + 1) % 2 ^ 32) ∧
    ((∀ requests, let r := new.run requests
        r.allocator.nextId.toNat = r.nodes.length + 1 ∧
        ∀ i n, r.nodes[i]? = some n → n.id.toNat = i + 1) ↔
      ¬(p.space.length = 0 ∧ p.subnetLength.toNat = 32)) := by
  obtain ⟨h, -⟩ := exists_splits_of_ofPlan hnew
  have hcapacity := AddressPlan.capacity_le h
  have hsteady := Round.Steady.run hnew h
  refine ⟨h.1, ?_, AddressPlan.shift_eq_capacity h, fun requests => ?_, ?_, ?_⟩
  · have hmax := h.2
    rw [AddressPlan.toNat_difference h]
    omega
  · have hr := hsteady requests
    have hle := hr.le
    refine ⟨congrArg Allocator.allocated hr.allocator, hle, ?_, hr.toNat_nextId,
      fun i n hn => hr.toNat_id_mod hn⟩
    rw [UInt64.size]
    omega
  · intro hall
    rw [← AddressPlan.capacity_succ_lt_iff h]
    have hnext := (hall (List.replicate p.capacity (.construct .host))).1
    rw [length_nodes_run_replicate hnew .host (Nat.le_refl _)] at hnext
    rw [← hnext]
    exact UInt32.toNat_lt _
  · intro hnot requests
    have hfit := (AddressPlan.capacity_succ_lt_iff h).2 hnot
    have hr := hsteady requests
    have hle := hr.le
    refine ⟨?_, fun i n hn => ?_⟩
    · rw [hr.toNat_nextId, Nat.mod_eq_of_lt (by omega)]
    · have hi := hr.lt_capacity hn
      rw [hr.toNat_id_mod hn, Nat.mod_eq_of_lt (by omega)]

/-- The upper half of the addresses, in networks of one address. -/
def upperHalf : AddressPlan :=
  ⟨⟨0x80000000, 1, by decide⟩, 32⟩

/-- The largest pool but for one has a number for every node. -/
theorem counters_of_run_upperHalf :
    ∃ new, ofPlan upperHalf = .ok new ∧ upperHalf.capacity = 2 ^ 31 ∧
      ∀ requests i n, (new.run requests).nodes[i]? = some n → n.id.toNat = i + 1 := by
  have hnew : ofPlan upperHalf = .ok (.ofCount upperHalf (by decide) 0 (Nat.zero_le _)) :=
    ofPlan_eq (by decide)
  obtain ⟨-, -, -, -, hright⟩ := counters_of_run hnew
  exact ⟨_, hnew, by decide, fun requests => (hright.2 (by decide) requests).2⟩

/-- All addresses, in networks of one address. -/
def wholeSpace : AddressPlan :=
  ⟨⟨0, 0, by decide⟩, 32⟩

/-- The last of all addresses goes to a node with number 0. -/
theorem run_wraps_wholeSpace :
    ∃ new, ofPlan wholeSpace = .ok new ∧
      let r := new.run (List.replicate (2 ^ 32 - 1) (.construct .host))
      r.nodes.length = 2 ^ 32 - 1 ∧ r.allocator.nextId = 0 ∧
      ∃ n a, r.allocator.construct .host = (.ok n, a) ∧ n.id = 0 := by
  have hsplits : wholeSpace.Splits := by decide
  have hcapacity : wholeSpace.capacity = 2 ^ 32 := rfl
  have hnew := ofPlan_eq hsplits
  have hlength : (run (.ofCount wholeSpace hsplits 0 (Nat.zero_le _))
      (List.replicate (2 ^ 32 - 1) (.construct .host))).nodes.length = 2 ^ 32 - 1 :=
    length_nodes_run_replicate hnew .host (by omega)
  have hr := Round.Steady.run hnew hsplits (List.replicate (2 ^ 32 - 1) (.construct .host))
  have hnext := hr.toNat_nextId
  rw [hlength] at hnext
  refine ⟨_, hnew, hlength, UInt32.toNat_inj.1 (hnext.trans (by decide)), _, _,
    hr.construct_of_lt (hlength.trans_lt (by omega)) .host, ?_⟩
  rw [hlength]
  exact (by decide : UInt32.ofNat (2 ^ 32 - 1 + 1) = 0)

end Allocator

end Overlay
