import Mathlib
import Overlay.Json.Token

/-!
The text of JSON strings. Each character is written as one piece of text that stands for it
(`exists_piece`), so what is written for a text reads back (`decode?_encode`). A text made of pieces
ends at the first quote behind it (`quotedOnto_of_pieces`), since one inside stands behind a
backslash.
-/

namespace Overlay

namespace Hex

theorem plain_of_digit? {c : Char} {n : Nat} (h : digit? c = some n) : c ≠ '"' ∧ c ≠ '\\' := by
  refine ⟨?_, ?_⟩ <;> rintro rfl <;> cases h

theorem plain_of_value? {cs : List Char} {n : Nat} (h : value? cs = some n) :
    ∀ c ∈ cs, c ≠ '"' ∧ c ≠ '\\' := by
  obtain ⟨ds, hds, -⟩ := Option.map_eq_some_iff.1 h
  clear h
  induction cs generalizing ds with
  | nil => simp
  | cons c cs ih =>
    rw [List.mapM_cons, Option.bind_eq_bind, Option.bind_eq_some_iff] at hds
    obtain ⟨d, hd, hds⟩ := hds
    obtain ⟨ds', hds', -⟩ := Option.bind_eq_some_iff.1 hds
    exact List.forall_mem_cons.2 ⟨plain_of_digit? hd, ih ds' hds'⟩

end Hex

namespace Json

open Token

namespace Text

/-! ## Writing and reading back -/

theorem piecesOnto_plain {c : Char} (hcontrol : ¬c < ' ') (hquote : c ≠ '"') (hback : c ≠ '\\')
    (done : List Piece) (rest : List Char) :
    piecesOnto done (c :: rest) = piecesOnto (.char c :: done) rest := by
  rw [piecesOnto]
  · simp [hcontrol, hquote, hback]
  · simp [hback]
  · simp [hback]

theorem piecesOnto_control {c : Char} (hcontrol : c < ' ') (done : List Piece) (rest : List Char) :
    piecesOnto done ('\\' :: 'u' :: '0' :: '0' :: Hex.byte c.toNat ++ rest) =
      piecesOnto (.unit c.toNat :: done) rest := by
  have hlt : c.toNat < 32 := hcontrol
  have high := Hex.digit?_digitChar (n := c.toNat / 16) (by omega)
  have low := Hex.digit?_digitChar (n := c.toNat % 16) (by omega)
  have zero : Hex.digit? '0' = some 0 := rfl
  have hvalue : Hex.value? ('0' :: '0' :: Hex.byte c.toNat) = some c.toNat := by
    simp [Hex.value?, Hex.byte, high, low, zero]
    omega
  simp only [Hex.byte] at hvalue
  simp [Hex.byte, piecesOnto, hvalue]

theorem joinOnto_control {c : Char} (hcontrol : c < ' ') (done : List Char) (rest : List Piece) :
    joinOnto done (.unit c.toNat :: rest) = joinOnto (c :: done) rest := by
  have hlt : c.toNat < 32 := hcontrol
  have hleading : isLeading c.toNat = false := by
    simp only [isLeading, Bool.and_eq_false_iff, decide_eq_false_iff_not]
    omega
  have htrailing : isTrailing c.toNat = false := by
    simp only [isTrailing, Bool.and_eq_false_iff, decide_eq_false_iff_not]
    omega
  rw [joinOnto.eq_def]
  simp [hleading, htrailing]

/-- Every character is written as one piece, which stands for it. -/
theorem exists_piece (c : Char) :
    ∃ p, (∀ done rest, piecesOnto done (escape c ++ rest) = piecesOnto (p :: done) rest) ∧
      ∀ done rest, joinOnto done (p :: rest) = joinOnto (c :: done) rest := by
  unfold escape
  split
  case h_8 hquote hback _ _ _ _ _ =>
    split
    · rename_i hcontrol
      exact ⟨.unit c.toNat, piecesOnto_control hcontrol, joinOnto_control hcontrol⟩
    · rename_i hcontrol
      exact ⟨.char c, piecesOnto_plain hcontrol hquote hback, fun _ _ => rfl⟩
  all_goals exact ⟨.char _, fun _ _ => rfl, fun _ _ => rfl⟩

theorem exists_pieces (cs : List Char) :
    ∃ ps, (∀ done, piecesOnto done (encode cs) = some (done.reverse ++ ps)) ∧
      ∀ done, joinOnto done ps = some (done.reverse ++ cs) := by
  induction cs with
  | nil => exact ⟨[], fun done => by simp [encode, piecesOnto], fun done => by simp [joinOnto]⟩
  | cons c cs ih =>
    obtain ⟨p, hpiece, hjoin⟩ := exists_piece c
    obtain ⟨ps, hpieces, hjoins⟩ := ih
    refine ⟨p :: ps, fun done => ?_, fun done => ?_⟩
    · rw [encode, List.flatMap_cons, hpiece, ← encode, hpieces, List.reverse_cons,
        List.append_assoc, List.singleton_append]
    · rw [hjoin, hjoins, List.reverse_cons, List.append_assoc, List.singleton_append]

theorem pieces?_encode (cs : List Char) : (pieces? (encode cs)).isSome := by
  obtain ⟨ps, hpieces, -⟩ := exists_pieces cs
  rw [pieces?, hpieces, Option.isSome_some]

/-- What is written for a text reads back as it. -/
@[simp]
theorem decode?_encode (cs : List Char) : decode? (encode cs) = some cs := by
  obtain ⟨ps, hpieces, hjoins⟩ := exists_pieces cs
  rw [decode?, pieces?, hpieces]
  exact hjoins []

/-! ## The end of a string -/

theorem quotedOnto_plain {ds : List Char} (h : ∀ c ∈ ds, c ≠ '"' ∧ c ≠ '\\')
    (done rest : List Char) :
    quotedOnto done (ds ++ rest) = quotedOnto (ds.reverse ++ done) rest := by
  induction ds generalizing done with
  | nil => rfl
  | cons d ds ih =>
    obtain ⟨⟨hquote, hback⟩, hds⟩ := List.forall_mem_cons.1 h
    rw [List.cons_append, quotedOnto, ih hds, List.reverse_cons, List.append_assoc,
      List.singleton_append]
    · exact hquote
    · simp [hback]

/-- A text made of pieces ends at the quote behind it. -/
theorem quotedOnto_of_pieces {done ps : List Piece} {cs : List Char}
    (h : piecesOnto done cs = some ps) (before rest : List Char) :
    quotedOnto before (cs ++ '"' :: rest) = some (before.reverse ++ cs, rest) := by
  fun_induction piecesOnto done cs generalizing before with
  | case1 done => simp [quotedOnto]
  | case2 done a b c d cs n hn ih =>
    have hplain : ∀ x ∈ ['u', a, b, c, d], x ≠ '"' ∧ x ≠ '\\' :=
      List.forall_mem_cons.2 ⟨by decide, Hex.plain_of_value? hn⟩
    have hstep := quotedOnto_plain (List.forall_mem_cons.1 hplain).2 ('u' :: '\\' :: before)
      (cs ++ '"' :: rest)
    simp only [List.cons_append, List.nil_append] at hstep
    simp [quotedOnto, hstep, ih h]
  | case3 => cases h
  | case4 done c cs _ e _ ih => simp [quotedOnto, ih h]
  | case5 => cases h
  | case6 => cases h
  | case7 done c cs _ _ hc ih =>
    rw [not_or, not_or] at hc
    have hplain : ∀ x ∈ [c], x ≠ '"' ∧ x ≠ '\\' := by simpa using hc.2
    rw [← List.singleton_append, List.append_assoc, quotedOnto_plain hplain, ih h]
    simp

end Text

end Json

end Overlay
