import Mathlib
import Overlay.SubnetPool

/-!
The subnets of an address plan as numbers. With `base` the number of the space among the blocks of
its size, the addresses of the `k`-th subnet are those whose block number is
`base * capacity + k` (`contains_subnet_iff`). So the subnets are disjoint (`subnet_disjoint`) and
together are the space (`space_contains`, `exists_subnet_contains`).
-/

namespace Overlay

namespace Ipv4

theorem blockSize_pos (length : Nat) : 0 < blockSize length :=
  Nat.two_pow_pos _

namespace Net

theorem size_pos (n : Net) : 0 < n.size :=
  blockSize_pos _

theorem contains_iff {n : Net} {a : Address} :
    n.contains a = true ↔ a.toNat / n.size = n.address.toNat / n.size :=
  beq_iff_eq

theorem toNat_network (n : Net) : n.network.toNat = n.address.toNat / n.size * n.size := by
  have hle : n.address.toNat / n.size * n.size ≤ n.address.toNat := Nat.div_mul_le_self _ _
  exact UInt32.toNat_ofNat_of_lt' (Nat.lt_of_le_of_lt hle n.address.toNat_lt)

/-- A network without host bits starts at a multiple of its size. -/
theorem mod_size_eq_zero_iff {n : Net} : n.address.toNat % n.size = 0 ↔ n.truncated = n := by
  have hdiv := Nat.div_add_mod' n.address.toNat n.size
  rw [← toNat_network] at hdiv
  constructor
  · intro hmod
    have hnetwork : n.network = n.address := by
      rw [← UInt32.toNat_inj]
      omega
    rw [truncated, hnetwork]
  · intro htruncated
    have hnetwork : n.network = n.address := congrArg address htruncated
    rw [hnetwork] at hdiv
    omega

/-- A network ends within the addresses. -/
theorem end_le (n : Net) : (n.address.toNat / n.size + 1) * n.size ≤ 2 ^ 32 := by
  have hdvd : n.size ∣ 2 ^ 32 := Nat.pow_dvd_pow 2 (Nat.sub_le 32 n.length)
  obtain ⟨blocks, hblocks⟩ := hdvd
  have hlt : n.address.toNat / n.size < blocks :=
    Nat.div_lt_of_lt_mul (hblocks ▸ n.address.toNat_lt)
  rw [hblocks, Nat.mul_comm]
  exact Nat.mul_le_mul_left _ hlt

/-- The first usable address lies in the network. -/
theorem contains_firstUsable (n : Net) : n.contains n.firstUsable = true := by
  rw [contains_iff]
  unfold firstUsable
  split
  · rename_i hlength
    have hsize : 1 < n.size := Nat.one_lt_two_pow (by omega)
    have hend := n.end_le
    rw [Nat.add_mul, Nat.one_mul] at hend
    have hnext : (n.network + 1).toNat = 1 + n.address.toNat / n.size * n.size := by
      rw [UInt32.toNat_add, toNat_network, UInt32.toNat_one, Nat.mod_eq_of_lt (by omega),
        Nat.add_comm]
    rw [hnext, Nat.add_mul_div_right _ _ n.size_pos, Nat.div_eq_of_lt hsize, Nat.zero_add]
  · rw [toNat_network, Nat.mul_div_cancel _ n.size_pos]

end Net

end Ipv4

namespace AddressPlan

variable {p : AddressPlan}

/-- The number of the space among the blocks of its size. -/
def base (p : AddressPlan) : Nat :=
  p.space.address.toNat / p.space.size

theorem capacity_pos (p : AddressPlan) : 0 < p.capacity :=
  Nat.two_pow_pos _

/-- There are no more subnets than addresses. -/
theorem capacity_le (h : p.Splits) : p.capacity ≤ 2 ^ 32 :=
  Nat.pow_le_pow_right (by decide) ((Nat.sub_le _ _).trans h.2)

/-- The subnets fill the space. -/
theorem size_space (h : p.Splits) :
    p.space.size = p.capacity * Ipv4.blockSize p.subnetLength.toNat := by
  unfold Ipv4.Net.size Ipv4.blockSize capacity
  rw [Nat.pow_eq, Nat.pow_eq, Nat.pow_eq, ← Nat.pow_add]
  congr 1
  have := h.1
  have := h.2
  omega

theorem toNat_network (p : AddressPlan) : p.space.network.toNat = p.base * p.space.size :=
  p.space.toNat_network

/-- The space ends within the addresses. -/
theorem end_space_le (p : AddressPlan) : (p.base + 1) * p.space.size ≤ 2 ^ 32 :=
  p.space.end_le

variable {h : p.Splits} {j k : Nat} {a : Ipv4.Address}

theorem toNat_address_subnet (hk : k < p.capacity) :
    (p.subnet h k).address.toNat =
      (p.base * p.capacity + k) * Ipv4.blockSize p.subnetLength.toNat := by
  have hstart : p.space.network.toNat + k * Ipv4.blockSize p.subnetLength.toNat =
      (p.base * p.capacity + k) * Ipv4.blockSize p.subnetLength.toNat := by
    rw [toNat_network, size_space h, Nat.add_mul, Nat.mul_assoc]
  have hlt : (p.base * p.capacity + k) * Ipv4.blockSize p.subnetLength.toNat < 2 ^ 32 := by
    refine Nat.lt_of_lt_of_le ?_ p.end_space_le
    rw [size_space h, ← Nat.mul_assoc, Nat.add_mul p.base, Nat.one_mul]
    exact Nat.mul_lt_mul_of_pos_right (Nat.add_lt_add_left hk _) (Ipv4.blockSize_pos _)
  rw [subnet, hstart]
  exact UInt32.toNat_ofNat_of_lt' hlt

/-- Subnets follow each other without gaps from the start of the space. -/
theorem toNat_address_subnet_eq_add (hk : k < p.capacity) :
    (p.subnet h k).address.toNat =
      p.space.network.toNat + k * Ipv4.blockSize p.subnetLength.toNat := by
  rw [toNat_address_subnet hk, toNat_network, size_space h, Nat.add_mul, Nat.mul_assoc]

theorem contains_subnet_iff (hk : k < p.capacity) :
    (p.subnet h k).contains a = true ↔
      a.toNat / Ipv4.blockSize p.subnetLength.toNat = p.base * p.capacity + k := by
  rw [Ipv4.Net.contains_iff, toNat_address_subnet hk]
  change a.toNat / Ipv4.blockSize p.subnetLength.toNat = _ / Ipv4.blockSize p.subnetLength.toNat ↔ _
  rw [Nat.mul_div_cancel _ (Ipv4.blockSize_pos _)]

/-- Subnets have no host bits. -/
theorem truncated_subnet (hk : k < p.capacity) : (p.subnet h k).truncated = p.subnet h k := by
  have hnetwork : (p.subnet h k).network = (p.subnet h k).address := by
    rw [← UInt32.toNat_inj, Ipv4.Net.toNat_network, toNat_address_subnet hk]
    change _ / Ipv4.blockSize p.subnetLength.toNat * Ipv4.blockSize p.subnetLength.toNat = _
    rw [Nat.mul_div_cancel _ (Ipv4.blockSize_pos _)]
  rw [Ipv4.Net.truncated, hnetwork]

/-- An address lies in one subnet at most. -/
theorem subnet_disjoint (hj : j < p.capacity) (hk : k < p.capacity)
    (haj : (p.subnet h j).contains a = true) (hak : (p.subnet h k).contains a = true) : j = k := by
  rw [contains_subnet_iff hj] at haj
  rw [contains_subnet_iff hk] at hak
  omega

/-- The address zero can only be in the first subnet. -/
theorem ne_zero_of_contains (hk : k < p.capacity) (hpos : 0 < k)
    (ha : (p.subnet h k).contains a = true) : a ≠ 0 := by
  rintro rfl
  rw [contains_subnet_iff hk, UInt32.toNat_zero, Nat.zero_div] at ha
  omega

theorem pairwise_disjoint_subnets (h : p.Splits) (hk : k ≤ p.capacity) :
    ((List.range k).map (p.subnet h)).Pairwise fun m n =>
      ∀ a, ¬(m.contains a = true ∧ n.contains a = true) := by
  rw [List.pairwise_map]
  refine List.pairwise_lt_range.imp_of_mem fun {i j} hi hj hlt a ⟨hia, hja⟩ => ?_
  rw [List.mem_range] at hi hj
  exact Nat.ne_of_lt hlt
    (subnet_disjoint (Nat.lt_of_lt_of_le hi hk) (Nat.lt_of_lt_of_le hj hk) hia hja)

theorem space_contains (hk : k < p.capacity) (ha : (p.subnet h k).contains a = true) :
    p.space.contains a = true := by
  rw [contains_subnet_iff hk] at ha
  have hblock : a.toNat / p.space.size = p.base := by
    rw [size_space h, Nat.mul_comm, ← Nat.div_div_eq_div_mul, ha, Nat.mul_comm p.base,
      Nat.mul_add_div p.capacity_pos, Nat.div_eq_of_lt hk, Nat.add_zero]
  exact Ipv4.Net.contains_iff.2 hblock

/-- Every address of the space lies in a subnet: its block number has the number of the space as
its upper part, and the lower part is the number of the subnet. -/
theorem exists_subnet_contains (h : p.Splits) (ha : p.space.contains a = true) :
    ∃ k < p.capacity, (p.subnet h k).contains a = true := by
  have hbase : a.toNat / Ipv4.blockSize p.subnetLength.toNat / p.capacity = p.base := by
    rw [Nat.div_div_eq_div_mul, Nat.mul_comm, ← size_space h]
    exact Ipv4.Net.contains_iff.1 ha
  have hlt := Nat.mod_lt (a.toNat / Ipv4.blockSize p.subnetLength.toNat) p.capacity_pos
  refine ⟨_, hlt, (contains_subnet_iff hlt).2 ?_⟩
  rw [← hbase, Nat.div_add_mod']

/-- A plan is valid if its space can be split and is written without host bits. -/
theorem validate_eq_ok_iff :
    p.validate = .ok () ↔ p.Splits ∧ p.space.address.toNat % p.space.size = 0 := by
  rw [validate, Ipv4.Net.mod_size_eq_zero_iff]
  by_cases htruncated : p.space = p.space.truncated
  · rw [if_neg (not_not_intro htruncated)]
    by_cases hsplits : p.Splits
    · simp [hsplits, ← htruncated]
    · simp [hsplits]
  · rw [if_pos htruncated]
    exact iff_of_false (by simp) fun hvalid => htruncated hvalid.2.symm

/-- If there is more than one subnet, they are smaller than the space. -/
theorem length_lt_of_capacity (h : p.Splits) (hcap : 1 < p.capacity) :
    p.space.length < p.subnetLength.toNat := by
  rcases Nat.lt_or_eq_of_le h.1 with hlt | heq
  · exact hlt
  · rw [capacity, heq, Nat.sub_self] at hcap
    exact absurd hcap (by decide)

/-- The `k`-th subnet of the standard plan. -/
def standardSubnet (k : Nat) : Ipv4.Net :=
  standard.subnet (by decide) k

end AddressPlan

end Overlay
