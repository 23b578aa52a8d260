import Mathlib
import Overlay.Proofs.Json.Spelling
import Overlay.Proofs.Snapshot.Document

/-!
MAC addresses in JSON: strings for the texts of the grammar, with any escapes. With this the reading
of addresses is settled in both forms (`Mac.accepts_exactly_spellings`).
-/

namespace Overlay.Mac

open Json

variable {m : Mac}

theorem ofJson?_eq_some_iff {v : Json} :
    ofJson? v = some m ↔ ∃ cs, v.Spells cs ∧ m.SpelledBy cs := by
  rw [ofJson?, Option.bind_eq_bind, Option.bind_eq_some_iff]
  constructor
  · rintro ⟨cs, hcs, hm⟩
    rw [parse?_eq_some_iff] at hm
    cases v with
    | string text => exact ⟨cs, ⟨text, rfl, hcs⟩, hm⟩
    | _ => cases hcs
  · rintro ⟨cs, hcs, hm⟩
    exact ⟨cs, hcs.chars?_eq, parse?_eq_some_iff.2 hm⟩

/-- Nothing in the text of an address has to be escaped. -/
theorem encode_render (m : Mac) : Text.encode m.render = m.render := by
  have hplain : ∀ c ∈ m.render, Text.escape c = [c] := by
    have all : (':' :: Hex.lowerDigits).all fun c => Text.escape c = [c] := by decide
    exact fun c hc => of_decide_eq_true (List.all_eq_true.1 all c (mem_of_mem_render hc))
  rw [Text.encode, List.flatMap_congr hplain]
  exact List.flatMap_singleton' _

theorem compact_toJson (m : Mac) : m.toJson.compact = '"' :: m.render ++ ['"'] := by
  rw [toJson, ofChars, compact, encode_render, quote]

theorem read_compact (m : Mac) :
    (Json.ofString? (.ofList m.toJson.compact) >>= ofJson?) = some m := by
  rw [m.legible_toJson.writtenAs_compact.ofString?_eq, Option.bind_eq_bind, Option.bind_some,
    ofJson?_toJson]

theorem ofString_eq_ok_iff {s : String} : ofString s = .ok m ↔ m.SpelledBy s.toList := by
  rw [ofString, ← parse?_eq_some_iff]
  cases parse? s.toList <;> simp

theorem ofString_eq_error_iff {s : String} {e : ParseError} :
    ofString s = .error e ↔ e = ⟨s⟩ ∧ ∀ m : Mac, ¬m.SpelledBy s.toList := by
  simp only [← parse?_eq_some_iff]
  rw [ofString]
  cases parse? s.toList <;> simp [eq_comm]

/-- A text is read as an address exactly if it spells it, and is named by the error otherwise. An
address is written in the one canonical form of its texts, which is read as it. In JSON a string is
read as an address exactly if it stands for such a text, and an address is written as its canonical
text between quotes, which is read as it. -/
theorem accepts_exactly_spellings :
    (∀ s m, ofString s = .ok m ↔ m.SpelledBy s.toList) ∧
    (∀ s e, ofString s = .error e ↔ e = ⟨s⟩ ∧ ∀ m : Mac, ¬m.SpelledBy s.toList) ∧
    (∀ s m, IsCanonical s.toList ∧ ofString s = .ok m ↔ s = toString m) ∧
    (∀ v m, ofJson? v = some m ↔ ∃ cs, v.Spells cs ∧ m.SpelledBy cs) ∧
    ∀ m : Mac, m.toJson.compact = '"' :: m.render ++ ['"'] ∧
      (Json.ofString? (.ofList m.toJson.compact) >>= ofJson?) = some m := by
  refine ⟨fun _ _ => ofString_eq_ok_iff, fun _ _ => ofString_eq_error_iff, fun s m => ?_,
    fun _ _ => ofJson?_eq_some_iff, fun m => ⟨m.compact_toJson, m.read_compact⟩⟩
  rw [ofString_eq_ok_iff, isCanonical_and_spelledBy_iff, ← String.ofList_inj, String.ofList_toList]
  rfl

example : ofString "A-b-+1-0F-00-fF" = .ok ⟨0x0A, 0x0B, 0x01, 0x0F, 0x00, 0xFF⟩ := by decide

/-- One character of two bytes is no octet. -/
example : parse? "08:00:0a:00:03:ä".toList = none := by decide

end Overlay.Mac
