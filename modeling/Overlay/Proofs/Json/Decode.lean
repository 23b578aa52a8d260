import Mathlib
import Overlay.Json.Decode
import Overlay.Proofs.Json.Printer
import Overlay.Proofs.Lists

/-!
The readers of data on the values that are written for it: numbers, texts, lists and records come
back, and all these values are legible.
-/

namespace Overlay

namespace Decimal

/-- Only zero starts with a zero. -/
theorem render_eq_zero_cons {n : Nat} {cs : List Char} (h : render n = '0' :: cs) : cs = [] := by
  induction n using Nat.strong_induction_on generalizing cs with
  | _ n ih =>
    rw [render, Nat.toDigits_eq_if (by decide)] at h
    split at h
    · exact (List.cons.inj h).2.symm
    · rename_i hge
      exfalso
      rcases hdigits : render (n / 10) with _ | ⟨d, ds⟩
      · exact render_ne_nil _ hdigits
      · rw [← render, hdigits, List.cons_append, List.cons.injEq] at h
        obtain rfl := h.1
        obtain rfl := ih (n / 10) (by omega) hdigits
        have := render_injective (m := n / 10) (n := 0) hdigits
        omega

end Decimal

namespace Json

variable {α : Type}

/-! ## Numbers -/

theorem isNumber_render (n : Nat) : Token.isNumber (Decimal.render n) = true := by
  rcases hdigits : Decimal.render n with _ | ⟨c, cs⟩
  · exact absurd hdigits (Decimal.render_ne_nil n)
  · have hall : ∀ d ∈ c :: cs, d.isDigit = true :=
      fun d hd => Decimal.isDigit_of_mem_render (hdigits ▸ hd)
    obtain ⟨hc, hcs⟩ := List.forall_mem_cons.1 hall
    by_cases hzero : c = '0'
    · subst hzero
      rw [Decimal.render_eq_zero_cons hdigits]
      rfl
    · have hminus : c ≠ '-' := by
        rintro rfl
        cases hc
      have hdrop : cs.dropWhile Char.isDigit = [] := List.dropWhile_eq_nil_iff.2 hcs
      rw [Token.isNumber, Token.isUnsigned, hc, hdrop]
      · rfl
      · simpa using hzero
      · simpa using hminus

theorem escape_of_isDigit {c : Char} (h : c.isDigit) : Text.escape c = [c] := by
  unfold Text.escape
  split
  case h_8 =>
    have hcontrol : ¬c < ' ' := by
      simp only [Char.isDigit, Bool.and_eq_true, decide_eq_true_eq] at h
      exact fun hlt => absurd (lt_of_le_of_lt h.1 hlt) (by decide)
    rw [if_neg hcontrol]
  all_goals cases h

/-- Numbers stand as they are in the text of a string. -/
theorem encode_render (n : Nat) : Text.encode (Decimal.render n) = Decimal.render n := by
  rw [Text.encode, List.flatMap_congr fun c hc =>
    escape_of_isDigit (Decimal.isDigit_of_mem_render hc)]
  exact List.flatMap_singleton' _

theorem legible_ofNat (n : Nat) : (ofNat n).Legible := by
  refine .number (isNumber_render n) fun c hc => ?_
  simp [Token.isNumeric, Decimal.isDigit_of_mem_render hc]

@[simp]
theorem nat?_ofNat (n : Nat) : (ofNat n).nat? = some n :=
  Decimal.canonical?_eq_some_iff.2 rfl

@[simp]
theorem uint32?_ofNat (n : UInt32) : (ofNat n.toNat).uint32? = some n := by
  have hlt : n.toNat < UInt32.size := n.toNat_lt
  simp [uint32?, hlt]

/-! ## Texts -/

theorem legible_ofChars (cs : List Char) : (ofChars cs).Legible :=
  .string (Text.pieces?_encode cs)

@[simp]
theorem chars?_ofChars (cs : List Char) : (ofChars cs).chars? = some cs :=
  Text.decode?_encode cs

@[simp]
theorem text?_ofString (s : String) : (ofString s).text? = some s := by
  simp [text?, ofString]

@[simp]
theorem caseName?_ofString (s : String) : (ofString s).caseName? = some s := by
  simp [caseName?, ofString, ofChars]

/-! ## Lists and records -/

theorem legible_array_map {f : α → Json} (h : ∀ a, (f a).Legible) (l : List α) :
    (Json.array (l.map f)).Legible := by
  refine .array fun v hv => ?_
  obtain ⟨a, -, rfl⟩ := List.mem_map.1 hv
  exact h a

theorem list?_array_map {f : α → Json} {g : Json → Option α} (h : ∀ a, g (f a) = some a)
    (l : List α) : (Json.array (l.map f)).list? g = some l :=
  Lists.mapM_map_eq_some fun a _ => h a

theorem legible_record {fields : List (String × Json)} (h : ∀ f ∈ fields, f.2.Legible) :
    (record fields).Legible := by
  refine .object (fun f hf => ?_) fun f hf => ?_
  · obtain ⟨d, -, rfl⟩ := List.mem_map.1 hf
    exact Text.pieces?_encode _
  · obtain ⟨d, hd, rfl⟩ := List.mem_map.1 hf
    exact h d hd

/-- The keys of a record are read as they were given. -/
theorem fields?_encode (fields : List (String × Json)) :
    fields? (fields.map fun f => (Text.encode f.1.toList, f.2)) = some fields :=
  Lists.mapM_map_eq_some fun f _ => by simp

/-- A record is read field by field. -/
theorem record?_record (names : List (List String)) (fields : List (String × Json)) :
    record? names (record fields) = names.mapM fun ns => field? ns fields := by
  rw [record, record?, fields?_encode]
  rfl

end Json

end Overlay
