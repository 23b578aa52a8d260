import Mathlib
import Overlay.Json.Printer
import Overlay.Proofs.Json.Reader

/-!
The documents of a JSON value: the texts that consist of its tokens, with any white space around
them. Each is read as the value (`WrittenAs.ofString?_eq`), provided that its strings and numbers are
spelled as the format asks (`Legible`); what is written for the value is one of them, with one
element a line (`Legible.writtenAs_pretty`) and without white space (`Legible.writtenAs_compact`).
-/

namespace Overlay.Json

/-! ## Numbers apart -/

namespace Token

variable {t : Token} {ts us : List Token}

theorem Parted.cons (h : Parted ts) (ht : ¬t.IsNumber) : Parted (t :: ts) :=
  List.isChain_cons.2 ⟨fun _ _ hboth => ht hboth.1, h⟩

theorem Parted.append (h : Parted ts) (hs : Parted us) (hstart : StartsPlain us) :
    Parted (ts ++ us) :=
  List.isChain_append.2 ⟨h, hs, fun _ _ u hu hboth => hstart u hu hboth.2⟩

end Token

theorem parted_itemTokens {vs : List Json} (h : ∀ v ∈ vs, Token.Parted v.tokens)
    {us : List Token} (hs : Token.Parted us) (hstart : Token.StartsPlain us) :
    Token.Parted (itemTokens vs ++ us) ∧ Token.StartsPlain (itemTokens vs ++ us) := by
  induction vs with
  | nil => exact ⟨hs, hstart⟩
  | cons v vs ih =>
    obtain ⟨hv, hvs⟩ := List.forall_mem_cons.1 h
    obtain ⟨hrest, hplain⟩ := ih hvs
    simp only [itemTokens, List.cons_append, List.append_assoc]
    exact ⟨(hv.append hrest hplain).cons id, by simp [Token.StartsPlain, Token.IsNumber]⟩

theorem parted_fieldTokens {fs : List (List Char × Json)} (h : ∀ f ∈ fs, Token.Parted f.2.tokens)
    {us : List Token} (hs : Token.Parted us) (hstart : Token.StartsPlain us) :
    Token.Parted (fieldTokens fs ++ us) ∧ Token.StartsPlain (fieldTokens fs ++ us) := by
  induction fs with
  | nil => exact ⟨hs, hstart⟩
  | cons f fs ih =>
    obtain ⟨hf, hfs⟩ := List.forall_mem_cons.1 h
    obtain ⟨hrest, hplain⟩ := ih hfs
    simp only [fieldTokens, List.cons_append, List.append_assoc]
    refine ⟨?_, by simp [Token.StartsPlain, Token.IsNumber]⟩
    exact (((hf.append hrest hplain).cons id).cons id).cons id

/-- Between two numbers of a value there is a comma or a bracket. -/
theorem parted_tokens (v : Json) : Token.Parted v.tokens := by
  have hclose : ∀ {t : Token}, ¬t.IsNumber → Token.Parted [t] ∧ Token.StartsPlain [t] := by
    intro t ht
    exact ⟨List.isChain_singleton t, by simpa [Token.StartsPlain] using ht⟩
  induction v using induct with
  | null => exact List.isChain_singleton _
  | bool b => exact List.isChain_singleton _
  | number text => exact List.isChain_singleton _
  | string text => exact List.isChain_singleton _
  | array items ih =>
    obtain ⟨hlast, hplain⟩ := hclose (t := .closeArray) id
    cases items with
    | nil => exact hlast.cons id
    | cons v vs =>
      obtain ⟨hv, hvs⟩ := List.forall_mem_cons.1 ih
      obtain ⟨hrest, hplain⟩ := parted_itemTokens hvs hlast hplain
      simp only [tokens, List.cons_append, List.append_assoc]
      exact (hv.append hrest hplain).cons id
  | object fields ih =>
    obtain ⟨hlast, hplain⟩ := hclose (t := .closeObject) id
    cases fields with
    | nil => exact hlast.cons id
    | cons f fs =>
      obtain ⟨hf, hfs⟩ := List.forall_mem_cons.1 ih
      obtain ⟨hrest, hplain⟩ := parted_fieldTokens hfs hlast hplain
      simp only [tokens, List.cons_append, List.append_assoc]
      exact (((hf.append hrest hplain).cons id).cons id).cons id

/-! ## Legible values -/

/-- The strings and numbers of a value are spelled as the format asks. -/
inductive Legible : Json → Prop
  | null : Legible .null
  | bool (b : Bool) : Legible (.bool b)
  | number {text : List Char} (h : Token.isNumber text = true)
    (hnumeric : ∀ c ∈ text, Token.isNumeric c = true) : Legible (.number text)
  | string {text : List Char} (h : (Text.pieces? text).isSome) : Legible (.string text)
  | array {items : List Json} (h : ∀ v ∈ items, Legible v) : Legible (.array items)
  | object {fields : List (List Char × Json)} (hkeys : ∀ f ∈ fields, (Text.pieces? f.1).isSome)
    (hvalues : ∀ f ∈ fields, Legible f.2) : Legible (.object fields)

theorem isLegible_itemTokens {vs : List Json} (h : ∀ v ∈ vs, ∀ t ∈ v.tokens, t.IsLegible) :
    ∀ t ∈ itemTokens vs, t.IsLegible := by
  induction vs with
  | nil => simp [itemTokens]
  | cons v vs ih =>
    obtain ⟨hv, hvs⟩ := List.forall_mem_cons.1 h
    simp only [itemTokens, List.cons_append, List.forall_mem_cons, List.forall_mem_append]
    exact ⟨trivial, hv, ih hvs⟩

theorem isLegible_fieldTokens {fs : List (List Char × Json)}
    (hkeys : ∀ f ∈ fs, (Text.pieces? f.1).isSome) (h : ∀ f ∈ fs, ∀ t ∈ f.2.tokens, t.IsLegible) :
    ∀ t ∈ fieldTokens fs, t.IsLegible := by
  induction fs with
  | nil => simp [fieldTokens]
  | cons f fs ih =>
    obtain ⟨hk, hkeys⟩ := List.forall_mem_cons.1 hkeys
    obtain ⟨hf, hfs⟩ := List.forall_mem_cons.1 h
    simp only [fieldTokens, List.cons_append, List.forall_mem_cons, List.forall_mem_append]
    exact ⟨trivial, hk, trivial, hf, ih hkeys hfs⟩

theorem Legible.isLegible_of_mem_tokens {v : Json} (h : v.Legible) :
    ∀ t ∈ v.tokens, t.IsLegible := by
  induction h with
  | null => simp [tokens, Token.IsLegible]
  | bool b => simp [tokens, Token.IsLegible]
  | number h hnumeric => simpa [tokens, Token.IsLegible] using ⟨h, hnumeric⟩
  | string h => simpa [tokens, Token.IsLegible] using h
  | @array items _ ih =>
    cases items with
    | nil => simp [tokens, Token.IsLegible]
    | cons v vs =>
      obtain ⟨hv, hvs⟩ := List.forall_mem_cons.1 ih
      simp only [tokens, List.cons_append, List.forall_mem_cons, List.forall_mem_append]
      exact ⟨trivial, ⟨hv, isLegible_itemTokens hvs⟩, trivial, by simp⟩
  | @object fields hkeys _ ih =>
    cases fields with
    | nil => simp [tokens, Token.IsLegible]
    | cons f fs =>
      obtain ⟨hk, hkeys⟩ := List.forall_mem_cons.1 hkeys
      obtain ⟨hf, hfs⟩ := List.forall_mem_cons.1 ih
      simp only [tokens, List.cons_append, List.forall_mem_cons, List.forall_mem_append]
      exact ⟨trivial, hk, trivial, ⟨hf, isLegible_fieldTokens hkeys hfs⟩, trivial, by simp⟩

/-! ## Documents -/

/-- The text is a document with this value: its tokens in order, with any white space around
them. -/
def WrittenAs (v : Json) (cs : List Char) : Prop :=
  v.Legible ∧ Token.WrittenAs v.tokens cs

/-- A document is read as its value. -/
theorem WrittenAs.ofString?_eq {v : Json} {text : String} (h : v.WrittenAs text.toList) :
    ofString? text = some v := by
  have hscan := h.2.scanOnto_eq h.1.isLegible_of_mem_tokens v.parted_tokens []
  rw [ofString?, read?, Token.scan?, hscan, Option.bind_eq_bind, Option.bind_some]
  exact ofTokens?_tokens v

/-! ## What is written -/

theorem writtenAs_prettyItems {vs : List Json} {depth : Nat}
    (h : ∀ v ∈ vs, Token.WrittenAs v.tokens (prettyAt depth v)) :
    Token.WrittenAs (itemTokens vs) (prettyItems depth vs) := by
  induction vs with
  | nil => exact .done
  | cons v vs ih =>
    obtain ⟨hv, hvs⟩ := List.forall_mem_cons.1 h
    simp only [itemTokens, prettyItems, List.cons_append, List.append_assoc]
    exact .token .comma ((hv.append (ih hvs)).newline depth)

theorem writtenAs_prettyFields {fs : List (List Char × Json)} {depth : Nat}
    (h : ∀ f ∈ fs, Token.WrittenAs f.2.tokens (prettyAt depth f.2)) :
    Token.WrittenAs (fieldTokens fs) (prettyFields depth fs) := by
  induction fs with
  | nil => exact .done
  | cons f fs ih =>
    obtain ⟨hf, hfs⟩ := List.forall_mem_cons.1 h
    simp only [fieldTokens, prettyFields, List.cons_append, List.append_assoc]
    refine .token .comma (.newline (.token (.string f.1) (.token .colon (.blank rfl ?_))) depth)
    exact hf.append (ih hfs)

theorem writtenAs_prettyAt (v : Json) (depth : Nat) :
    Token.WrittenAs v.tokens (prettyAt depth v) := by
  induction v using induct generalizing depth with
  | null => exact .singleton .null
  | bool b => cases b <;> exact .singleton (.bool _)
  | number text => exact .singleton (.number text)
  | string text => exact .singleton (.string text)
  | array items ih =>
    cases items with
    | nil => exact .token .openArray (.singleton .closeArray)
    | cons v vs =>
      obtain ⟨hv, hvs⟩ := List.forall_mem_cons.1 ih
      have hitems := writtenAs_prettyItems fun v hv => hvs v hv (depth + 1)
      have hclose := (Token.WrittenAs.singleton .closeArray).newline depth
      simp only [tokens, prettyAt, List.cons_append, List.append_assoc]
      exact .token .openArray (((hv _).append (hitems.append hclose)).newline _)
  | object fields ih =>
    cases fields with
    | nil => exact .token .openObject (.singleton .closeObject)
    | cons f fs =>
      obtain ⟨hf, hfs⟩ := List.forall_mem_cons.1 ih
      have hfields := writtenAs_prettyFields fun f hf => hfs f hf (depth + 1)
      have hclose := (Token.WrittenAs.singleton .closeObject).newline depth
      simp only [tokens, prettyAt, List.cons_append, List.append_assoc]
      refine .token .openObject (.newline (.token (.string f.1) (.token .colon (.blank rfl ?_))) _)
      exact (hf _).append (hfields.append hclose)

theorem writtenAs_compactItems {vs : List Json}
    (h : ∀ v ∈ vs, Token.WrittenAs v.tokens v.compact) :
    Token.WrittenAs (itemTokens vs) (compactItems vs) := by
  induction vs with
  | nil => exact .done
  | cons v vs ih =>
    obtain ⟨hv, hvs⟩ := List.forall_mem_cons.1 h
    simp only [itemTokens, compactItems, List.cons_append]
    exact .token .comma (hv.append (ih hvs))

theorem writtenAs_compactFields {fs : List (List Char × Json)}
    (h : ∀ f ∈ fs, Token.WrittenAs f.2.tokens f.2.compact) :
    Token.WrittenAs (fieldTokens fs) (compactFields fs) := by
  induction fs with
  | nil => exact .done
  | cons f fs ih =>
    obtain ⟨hf, hfs⟩ := List.forall_mem_cons.1 h
    simp only [fieldTokens, compactFields, List.cons_append, List.append_assoc]
    exact .token .comma (.token (.string f.1) (.token .colon (hf.append (ih hfs))))

theorem writtenAs_compact (v : Json) : Token.WrittenAs v.tokens v.compact := by
  induction v using induct with
  | null => exact .singleton .null
  | bool b => cases b <;> exact .singleton (.bool _)
  | number text => exact .singleton (.number text)
  | string text => exact .singleton (.string text)
  | array items ih =>
    cases items with
    | nil => exact .token .openArray (.singleton .closeArray)
    | cons v vs =>
      obtain ⟨hv, hvs⟩ := List.forall_mem_cons.1 ih
      simp only [tokens, compact, List.cons_append, List.append_assoc]
      exact .token .openArray
        (hv.append ((writtenAs_compactItems hvs).append (.singleton .closeArray)))
  | object fields ih =>
    cases fields with
    | nil => exact .token .openObject (.singleton .closeObject)
    | cons f fs =>
      obtain ⟨hf, hfs⟩ := List.forall_mem_cons.1 ih
      simp only [tokens, compact, List.cons_append, List.append_assoc]
      refine .token .openObject (.token (.string f.1) (.token .colon ?_))
      exact hf.append ((writtenAs_compactFields hfs).append (.singleton .closeObject))

theorem Legible.writtenAs_pretty {v : Json} (h : v.Legible) :
    v.WrittenAs (String.ofList v.pretty).toList := by
  rw [String.toList_ofList]
  exact ⟨h, writtenAs_prettyAt v 0⟩

theorem Legible.writtenAs_compact {v : Json} (h : v.Legible) :
    v.WrittenAs (String.ofList v.compact).toList := by
  rw [String.toList_ofList]
  exact ⟨h, v.writtenAs_compact⟩

end Overlay.Json
