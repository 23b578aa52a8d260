import Mathlib
import Overlay.Json.Printer
import Overlay.Json.Reader
import Overlay.Proofs.Json.Text

/-!
The two steps of reading a JSON text. A text that consists of tokens, with any white space around
them, is taken apart into these (`Token.WrittenAs.scanOnto_eq`), and the tokens of a value are put
together to the value again (`readsBack`).
-/

namespace Overlay.Json

/-- Induction over a value. -/
@[elab_as_elim]
theorem induct {P : Json → Prop} (null : P .null) (bool : ∀ b, P (.bool b))
    (number : ∀ text, P (.number text)) (string : ∀ text, P (.string text))
    (array : ∀ items, (∀ v ∈ items, P v) → P (.array items))
    (object : ∀ fields, (∀ f ∈ fields, P f.2) → P (.object fields)) (v : Json) : P v :=
  @Json.rec P (fun items => ∀ v ∈ items, P v) (fun fields => ∀ f ∈ fields, P f.2) (fun f => P f.2)
    null bool number string array object (by simp)
    (fun _ _ hv hvs => List.forall_mem_cons.2 ⟨hv, hvs⟩) (by simp)
    (fun _ _ hf hfs => List.forall_mem_cons.2 ⟨hf, hfs⟩) (fun _ _ hv => hv) v

/-! ## The tokens of a value -/

mutual

/-- The tokens that spell a value. -/
def tokens : Json → List Token
  | .null => [.null]
  | .bool b => [.bool b]
  | .number text => [.number text]
  | .string text => [.string text]
  | .array [] => [.openArray, .closeArray]
  | .array (v :: vs) => .openArray :: tokens v ++ itemTokens vs ++ [.closeArray]
  | .object [] => [.openObject, .closeObject]
  | .object ((k, v) :: fs) =>
    .openObject :: .string k :: .colon :: tokens v ++ fieldTokens fs ++ [.closeObject]

/-- Further items of an array, each behind a comma. -/
def itemTokens : List Json → List Token
  | [] => []
  | v :: vs => .comma :: tokens v ++ itemTokens vs

/-- Further fields of an object, each behind a comma. -/
def fieldTokens : List (List Char × Json) → List Token
  | [] => []
  | (k, v) :: fs => .comma :: .string k :: .colon :: tokens v ++ fieldTokens fs

end

/-! ## From tokens to the value -/

namespace Expect

/-- Reading the tokens leads from one expectation to the other. -/
def Leads (e : Expect) (ts : List Token) (e' : Expect) : Prop :=
  ts.foldlM step e = some e'

variable {e e₁ e₂ : Expect} {t : Token} {ts us : List Token}

theorem Leads.cons (h : e.step t = some e₁) (hs : e₁.Leads ts e₂) : e.Leads (t :: ts) e₂ := by
  rw [Leads, List.foldlM_cons, h]
  exact hs

theorem Leads.append (h : e.Leads ts e₁) (hs : e₁.Leads us e₂) : e.Leads (ts ++ us) e₂ := by
  rw [Leads, List.foldlM_append, h]
  exact hs

end Expect

/-- The tokens of the value are read as the value, whatever containers are open. -/
def ReadsBack (v : Json) : Prop :=
  ∀ frames, (Expect.value frames).Leads v.tokens (.after v frames)

variable {frames : List Frame}

/-- The first item of an array is read like any value. -/
theorem ReadsBack.arrayStart {v : Json} (h : v.ReadsBack) :
    (Expect.arrayStart frames).Leads v.tokens (.after v (.array [] :: frames)) := by
  have hstart : v.tokens.foldlM Expect.step (.arrayStart frames) =
      v.tokens.foldlM Expect.step (.value (.array [] :: frames)) := by
    cases v with
    | array items => cases items <;> rfl
    | object fields => cases fields <;> rfl
    | _ => rfl
  exact hstart.trans (h _)

theorem leads_itemTokens {vs : List Json} (h : ∀ v ∈ vs, v.ReadsBack) (v : Json)
    (done : List Json) :
    (Expect.after v (.array done :: frames)).Leads (itemTokens vs ++ [.closeArray])
      (.after (.array ((v :: done).reverse ++ vs)) frames) := by
  induction vs generalizing v done with
  | nil =>
    rw [List.append_nil]
    rfl
  | cons w vs ih =>
    obtain ⟨hw, hvs⟩ := List.forall_mem_cons.1 h
    have hdone : (v :: done).reverse ++ w :: vs = (w :: v :: done).reverse ++ vs := by simp
    simp only [itemTokens, List.cons_append, List.append_assoc]
    rw [hdone]
    exact .cons rfl ((hw _).append (ih hvs w (v :: done)))

theorem leads_fieldTokens {fs : List (List Char × Json)} (h : ∀ f ∈ fs, f.2.ReadsBack)
    (k : List Char) (v : Json) (done : List (List Char × Json)) :
    (Expect.after v (.object done k :: frames)).Leads (fieldTokens fs ++ [.closeObject])
      (.after (.object (((k, v) :: done).reverse ++ fs)) frames) := by
  induction fs generalizing k v done with
  | nil =>
    rw [List.append_nil]
    rfl
  | cons f fs ih =>
    obtain ⟨l, w⟩ := f
    obtain ⟨hw, hfs⟩ := List.forall_mem_cons.1 h
    have hdone : ((k, v) :: done).reverse ++ (l, w) :: fs =
        ((l, w) :: (k, v) :: done).reverse ++ fs := by simp
    simp only [fieldTokens, List.cons_append, List.append_assoc]
    rw [hdone]
    exact .cons rfl (.cons rfl (.cons rfl ((hw _).append (ih hfs l w ((k, v) :: done)))))

/-- The tokens of every value are read as the value. -/
theorem readsBack (v : Json) : v.ReadsBack := by
  induction v using induct with
  | null => exact fun _ => rfl
  | bool b => exact fun _ => rfl
  | number text => exact fun _ => rfl
  | string text => exact fun _ => rfl
  | array items ih =>
    intro frames
    cases items with
    | nil => rfl
    | cons v vs =>
      obtain ⟨hv, hvs⟩ := List.forall_mem_cons.1 ih
      simp only [tokens, List.cons_append, List.append_assoc]
      exact .cons rfl (hv.arrayStart.append (leads_itemTokens hvs v []))
  | object fields ih =>
    intro frames
    cases fields with
    | nil => rfl
    | cons f fs =>
      obtain ⟨k, v⟩ := f
      obtain ⟨hv, hfs⟩ := List.forall_mem_cons.1 ih
      simp only [tokens, List.cons_append, List.append_assoc]
      exact .cons rfl (.cons rfl (.cons rfl ((hv _).append (leads_fieldTokens hfs k v []))))

theorem ofTokens?_tokens (v : Json) : ofTokens? v.tokens = some v := by
  rw [ofTokens?, show v.tokens.foldlM Expect.step (.value []) = some _ from readsBack v []]
  rfl

/-! ## From the text to tokens -/

namespace Token

/-- A number in front of `rest` ends there. -/
def Stops (rest : List Char) : Prop :=
  ∀ c ∈ rest.head?, isNumeric c = false

theorem next?_blank {c : Char} (h : isBlank c = true) (rest : List Char) :
    next? (c :: rest) = none := by
  simp only [isBlank, Bool.or_eq_true, beq_iff_eq] at h
  rcases h with ((rfl | rfl) | rfl) | rfl <;> rfl

theorem scanOnto_blank {c : Char} (h : isBlank c = true) (done : List Token) (rest : List Char) :
    scanOnto done (c :: rest) = scanOnto done rest := by
  rw [scanOnto, if_pos h]

theorem scanOnto_next {cs rest : List Char} {t : Token} (h : next? cs = some (t, rest))
    (done : List Token) : scanOnto done cs = scanOnto (t :: done) rest := by
  cases cs with
  | nil => cases h
  | cons c cs =>
    have hblank : ¬isBlank c = true := by
      intro hc
      rw [next?_blank hc] at h
      cases h
    rw [scanOnto, if_neg hblank]
    split
    · rename_i heq
      rw [h] at heq
      cases heq
      rfl
    · rename_i heq
      rw [h] at heq
      cases heq

theorem next?_quote {text : List Char} (h : (Text.pieces? text).isSome) (rest : List Char) :
    next? (quote text ++ rest) = some (.string text, rest) := by
  obtain ⟨ps, hps⟩ := Option.isSome_iff_exists.1 h
  have hquoted := Text.quotedOnto_of_pieces hps [] rest
  rw [quote, List.cons_append, List.cons_append, List.append_assoc, List.singleton_append, next?,
    hquoted]
  simp [h]

theorem next?_numeric {c : Char} (h : isNumeric c = true) (rest : List Char) :
    next? (c :: rest) =
      if isNumber (c :: rest.takeWhile isNumeric) = true then
        some (.number (c :: rest.takeWhile isNumeric), rest.dropWhile isNumeric)
      else none := by
  have hne : ∀ d, isNumeric d = false → c ≠ d := by
    rintro d hd rfl
    rw [h] at hd
    cases hd
  rw [next?]
  all_goals intros; exact absurd (by assumption) (hne _ (by decide))

theorem next?_number {text rest : List Char} (h : isNumber text = true)
    (hnumeric : ∀ c ∈ text, isNumeric c = true) (hstops : Stops rest) :
    next? (text ++ rest) = some (.number text, rest) := by
  cases text with
  | nil => cases h
  | cons c cs =>
    obtain ⟨hc, hcs⟩ := List.forall_mem_cons.1 hnumeric
    have htake : rest.takeWhile isNumeric = [] := by
      cases rest with
      | nil => rfl
      | cons d rest => exact List.takeWhile_cons_of_neg (by simp [hstops d rfl])
    have hdrop : rest.dropWhile isNumeric = rest := by
      cases rest with
      | nil => rfl
      | cons d rest => exact List.dropWhile_cons_of_neg (by simp [hstops d rfl])
    rw [List.cons_append, next?_numeric hc, List.takeWhile_append_of_pos hcs,
      List.dropWhile_append_of_pos hcs, htake, hdrop, List.append_nil, if_pos h]

/-- The characters of a token. -/
def text : Token → List Char
  | .openArray => ['[']
  | .closeArray => [']']
  | .openObject => ['\x7b']
  | .closeObject => ['\x7d']
  | .comma => [',']
  | .colon => [':']
  | .null => ['n', 'u', 'l', 'l']
  | .bool true => ['t', 'r', 'u', 'e']
  | .bool false => ['f', 'a', 'l', 's', 'e']
  | .number text => text
  | .string text => quote text

/-- The text consists of the tokens, with any white space around them. -/
inductive WrittenAs : List Token → List Char → Prop
  | done : WrittenAs [] []
  | blank {ts : List Token} {cs : List Char} {c : Char} (hc : isBlank c = true)
    (h : WrittenAs ts cs) : WrittenAs ts (c :: cs)
  | token {ts : List Token} {cs : List Char} (t : Token) (h : WrittenAs ts cs) :
    WrittenAs (t :: ts) (t.text ++ cs)

def IsNumber : Token → Prop
  | .number _ => True
  | _ => False

/-- Strings and numbers are spelled as the format asks. -/
def IsLegible : Token → Prop
  | .number text => isNumber text = true ∧ ∀ c ∈ text, isNumeric c = true
  | .string text => (Text.pieces? text).isSome
  | _ => True

/-- No two numbers stand side by side, where they would be taken for one. -/
def Parted (ts : List Token) : Prop :=
  ts.IsChain fun t u => ¬(t.IsNumber ∧ u.IsNumber)

/-- The tokens begin with no number. -/
def StartsPlain (ts : List Token) : Prop :=
  ∀ t ∈ ts.head?, ¬t.IsNumber

variable {cs ds : List Char} {t : Token} {ts us : List Token}

theorem next?_text (h : t.IsLegible) {rest : List Char} (hstops : t.IsNumber → Stops rest) :
    next? (t.text ++ rest) = some (t, rest) := by
  cases t with
  | number text => exact next?_number h.1 h.2 (hstops trivial)
  | string text => exact next?_quote h rest
  | bool b => cases b <;> rfl
  | _ => rfl

namespace WrittenAs

theorem singleton (t : Token) : WrittenAs [t] t.text := by
  have h := WrittenAs.token t .done
  rwa [List.append_nil] at h

theorem append (h : WrittenAs ts cs) (hs : WrittenAs us ds) :
    WrittenAs (ts ++ us) (cs ++ ds) := by
  induction h with
  | done => exact hs
  | blank hc _ ih => exact .blank hc ih
  | token t _ ih =>
    rw [List.append_assoc]
    exact .token t ih

theorem newline (h : WrittenAs ts cs) (depth : Nat) :
    WrittenAs ts (Json.newline depth ++ cs) := by
  refine .blank rfl ?_
  induction 2 * depth with
  | zero => exact h
  | succ n ih => exact .blank rfl ih

theorem stops (h : WrittenAs ts cs) (hstart : StartsPlain ts) : Stops cs := by
  cases h with
  | done => simp [Stops]
  | @blank _ _ c hc h =>
    simp only [isBlank, Bool.or_eq_true, beq_iff_eq] at hc
    rcases hc with ((rfl | rfl) | rfl) | rfl <;> simp [Stops, isNumeric]
  | token t h =>
    cases t with
    | number text => exact absurd trivial (hstart _ rfl)
    | bool b => cases b <;> simp [Stops, text, isNumeric]
    | _ => simp [Stops, text, quote, isNumeric]

/-- A text is taken apart into the tokens that it consists of. -/
theorem scanOnto_eq (h : WrittenAs ts cs) (hlegible : ∀ t ∈ ts, t.IsLegible) (hparted : Parted ts)
    (before : List Token) : scanOnto before cs = some (before.reverse ++ ts) := by
  induction h generalizing before with
  | done => rw [scanOnto, List.append_nil]
  | blank hc _ ih => rw [scanOnto_blank hc, ih hlegible hparted]
  | @token ts cs t h ih =>
    obtain ⟨ht, hts⟩ := List.forall_mem_cons.1 hlegible
    obtain ⟨hfirst, hrest⟩ := List.isChain_cons.1 hparted
    have hstops : t.IsNumber → Stops cs := fun hnumber =>
      h.stops fun u hu hu' => hfirst u hu ⟨hnumber, hu'⟩
    rw [scanOnto_next (next?_text ht hstops), ih hts hrest, List.reverse_cons, List.append_assoc,
      List.singleton_append]

end WrittenAs

end Token

end Overlay.Json
