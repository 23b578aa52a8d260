import Mathlib
import Overlay.Ipv4.Net

/-!
The text of addresses and networks reads back (`Address.parse?_render`, `Net.parse?_render`), host
bits included: no octet has a dot in it, and no address a slash.
-/

namespace Overlay.Ipv4

theorem not_mem_render_of_not_isDigit {c : Char} (h : c.isDigit = false) (n : Nat) :
    c ∉ Decimal.render n := by
  intro hc
  rw [Decimal.isDigit_of_mem_render hc] at h
  cases h

theorem length_render_le {n k : Nat} (hk : 0 < k) (h : n < 10 ^ k) :
    (Decimal.render n).length ≤ k :=
  (Nat.length_toDigits_le_iff (by decide) hk).2 h

namespace Address

theorem octet?_render (o : UInt8) : octet? (Decimal.render o.toNat) = some o := by
  have hlt : o.toNat < 256 := o.toNat_lt
  have hle : o.toNat ≤ 255 := by omega
  rw [octet?, if_pos (length_render_le (by decide) (by omega)), Decimal.value?_render]
  simp [hle]

theorem ofOctets_octet (a : Address) :
    ofOctets (a.octet 3) (a.octet 2) (a.octet 1) (a.octet 0) = a := by
  have hlt : a.toNat < 2 ^ 32 := a.toNat_lt
  rw [← UInt32.toNat_inj]
  simp only [ofOctets, octet, UInt8.toNat_ofNat', UInt32.toNat_ofNat', Nat.pow_eq]
  omega

/-- The text of an address reads back as it. -/
theorem parse?_render (a : Address) : parse? a.render = some a := by
  have hsplit : a.render.splitOn '.' = a.octets.map fun o => Decimal.render o.toNat := by
    refine List.splitOn_intercalate '.' (fun cs hcs => ?_) (by simp [octets])
    obtain ⟨o, -, rfl⟩ := List.mem_map.1 hcs
    exact not_mem_render_of_not_isDigit rfl _
  rw [parse?, hsplit]
  simp [octets, octet?_render, ofOctets_octet]

theorem not_mem_render {c : Char} (hdigit : c.isDigit = false) (hdot : c ≠ '.') (a : Address) :
    c ∉ a.render := by
  have hnot := not_mem_render_of_not_isDigit hdigit
  simp [render, octets, List.intercalate, hnot, hdot]

end Address

/-- The text of a network reads back as it. -/
theorem Net.parse?_render (n : Net) : parse? n.render = some n := by
  have hle := n.length_le
  have hsplit : n.render.splitOn '/' = [n.address.render, Decimal.render n.length] := by
    rw [render, List.splitOn_append_cons_self_of_not_mem
        (n.address.not_mem_render (c := '/') rfl (by decide)),
      List.splitOn_eq_singleton (not_mem_render_of_not_isDigit rfl _)]
  have hlen : (Decimal.render n.length).length ≤ 2 := length_render_le (by decide) (by omega)
  rw [parse?, hsplit]
  simp [Address.parse?_render, hlen, n.length_le]

theorem Net.render_injective : Function.Injective Net.render := fun m n h =>
  Option.some.inj (by rw [← m.parse?_render, h, n.parse?_render])

/-- The text of a network has only digits, dots and a slash in it. -/
theorem Net.not_mem_render {c : Char} (hdigit : c.isDigit = false) (hdot : c ≠ '.')
    (hslash : c ≠ '/') (n : Net) : c ∉ n.render := by
  rw [render, List.mem_append, List.mem_cons, not_or, not_or]
  exact ⟨n.address.not_mem_render hdigit hdot, hslash, not_mem_render_of_not_isDigit hdigit _⟩

end Overlay.Ipv4
