/-!
Decimal text of natural numbers. `render` writes no leading zeros; `value?` reads any non-empty
run of ASCII digits, leading zeros included, and `canonical?` only what `render` writes.
`value?_render` and `canonical?_eq_some_iff` tie the three together.
-/

namespace Overlay.Decimal

/-- The decimal digits of `n`, most significant first. -/
def render (n : Nat) : List Char :=
  Nat.toDigits 10 n

/-- The number that a non-empty run of ASCII digits stands for. -/
def value? (cs : List Char) : Option Nat :=
  if cs ≠ [] ∧ cs.all Char.isDigit then some (Nat.ofDigitChars 10 cs 0) else none

/-- The number written as `cs`, which must be its own decimal text. -/
def canonical? (cs : List Char) : Option Nat :=
  (value? cs).filter fun n => render n = cs

theorem render_ne_nil (n : Nat) : render n ≠ [] :=
  Nat.toDigits_ne_nil

theorem isDigit_of_mem_render {n : Nat} {c : Char} (h : c ∈ render n) : c.isDigit :=
  Nat.isDigit_of_mem_toDigits (by decide) (by decide) h

@[simp] theorem value?_render (n : Nat) : value? (render n) = some n := by
  have digits : (render n).all Char.isDigit := by
    simpa [List.all_eq_true] using fun c => isDigit_of_mem_render (n := n) (c := c)
  rw [value?, if_pos ⟨render_ne_nil n, digits⟩, render,
    Nat.ofDigitChars_toDigits (by decide) (by decide)]

theorem canonical?_eq_some_iff {cs : List Char} {n : Nat} :
    canonical? cs = some n ↔ cs = render n := by
  simp only [canonical?, Option.filter_eq_some_iff, decide_eq_true_eq]
  constructor
  · rintro ⟨_, rfl⟩; rfl
  · rintro rfl; exact ⟨value?_render n, rfl⟩

theorem render_injective {m n : Nat} (h : render m = render n) : m = n :=
  Option.some.inj (by rw [← value?_render m, h, value?_render])

end Overlay.Decimal
