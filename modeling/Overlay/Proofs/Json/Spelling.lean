import Mathlib
import Overlay.Proofs.Json.Decode

/-!
The ways to spell data in JSON. A string may have any escapes in it, an object its fields in any
order, and a field may stand under any of its names; the readers take them all alike
(`IsRecord.record?_eq`). A record with two names of one field is refused
(`HasBoth.record?_eq_none`).
-/

namespace Overlay.Json

variable {α : Type}

/-! ## Strings and arrays -/

/-- The value is a string that stands for these characters, with any escapes. -/
def Spells (v : Json) (cs : List Char) : Prop :=
  ∃ text, v = .string text ∧ Text.decode? text = some cs

namespace Spells

variable {v : Json} {cs : List Char} {s : String}

theorem chars?_eq (h : v.Spells cs) : v.chars? = some cs := by
  obtain ⟨text, rfl, htext⟩ := h
  exact htext

theorem text?_eq (h : v.Spells s.toList) : v.text? = some s := by
  rw [text?, h.chars?_eq, Option.map_some, String.ofList_toList]

theorem caseName?_eq (h : v.Spells s.toList) : v.caseName? = some s := by
  obtain ⟨text, rfl, htext⟩ := h
  rw [caseName?, htext, Option.map_some, String.ofList_toList]

end Spells

theorem spells_ofChars (cs : List Char) : (ofChars cs).Spells cs :=
  ⟨_, rfl, Text.decode?_encode cs⟩

/-- The value is an array of values for the items of the list. -/
def IsArrayOf (R : α → Json → Prop) (l : List α) (v : Json) : Prop :=
  ∃ items, v = .array items ∧ List.Forall₂ R l items

theorem IsArrayOf.list?_eq {R : α → Json → Prop} {g : Json → Option α} {l : List α} {v : Json}
    (h : IsArrayOf R l v) (hread : ∀ a w, R a w → g w = some a) : v.list? g = some l := by
  obtain ⟨items, rfl, hitems⟩ := h
  exact Lists.mapM_of_forall₂ (hitems.imp hread)

theorem isArrayOf_map {R : α → Json → Prop} {f : α → Json} (h : ∀ a, R a (f a)) (l : List α) :
    IsArrayOf R l (.array (l.map f)) :=
  ⟨_, rfl, List.forall₂_map_right_iff.2 (List.forall₂_same.2 fun a _ => h a)⟩

/-! ## Objects -/

/-- The value is an object of fields for the items of the list, in any order. -/
def IsObjectOf (R : α → List Char × Json → Prop) (l : List α) (v : Json) : Prop :=
  ∃ order fields, l.Perm order ∧ List.Forall₂ R order fields ∧ v = .object fields

theorem isObjectOf_map {R : α → List Char × Json → Prop} {f : α → List Char × Json} {l : List α}
    (h : ∀ a ∈ l, R a (f a)) : IsObjectOf R l (.object (l.map f)) :=
  ⟨l, _, .refl l, List.forall₂_map_right_iff.2 (List.forall₂_same.2 h), rfl⟩

/-- A field of a record: the names that it may stand under, and the values that it may have. -/
structure Field where
  names : List String
  IsValue : Json → Prop

namespace Field

/-- The key stands for one of the names, and the value is one that the field may have. -/
def IsSpelled (d : Field) (f : List Char × Json) : Prop :=
  (∃ name ∈ d.names, Text.decode? f.1 = some name.toList) ∧ d.IsValue f.2

/-- The fields have no names in common. -/
def Apart (ds : List Field) : Prop :=
  ds.Pairwise fun d e => ∀ name ∈ d.names, name ∉ e.names

variable {ds : List Field} {fields : List (List Char × Json)} {keyed : List (String × Json)}

theorem Apart.perm {es : List Field} (h : Apart ds) (hperm : ds.Perm es) : Apart es := by
  refine hperm.pairwise h fun hde => ?_
  intro name he hd
  exact hde name hd he

/-- The keys of spelled fields are read as their names. -/
theorem exists_fields? (h : List.Forall₂ IsSpelled ds fields) :
    ∃ keyed, fields? fields = some keyed ∧
      List.Forall₂ (fun d f => f.1 ∈ d.names ∧ d.IsValue f.2) ds keyed := by
  induction h with
  | nil => exact ⟨[], rfl, .nil⟩
  | @cons d f ds fields hf _ ih =>
    obtain ⟨k, v⟩ := f
    obtain ⟨⟨name, hname, hkey⟩, hvalue⟩ := hf
    obtain ⟨keyed, hkeyed, hall⟩ := ih
    rw [fields?] at hkeyed
    refine ⟨(name, v) :: keyed, ?_, .cons ⟨hname, hvalue⟩ hall⟩
    simp [fields?, hkey, hkeyed]

/-- Each field is found under its names, once. -/
theorem exists_field? (h : List.Forall₂ (fun d f => f.1 ∈ d.names ∧ d.IsValue f.2) ds keyed)
    (hapart : Apart ds) {d : Field} (hd : d ∈ ds) :
    ∃ v, field? d.names keyed = some (some v) ∧ d.IsValue v := by
  suffices hone : ∃ f, (keyed.filter fun f => f.1 ∈ d.names) = [f] ∧ d.IsValue f.2 by
    obtain ⟨f, hf, hvalue⟩ := hone
    exact ⟨f.2, by rw [field?, hf], hvalue⟩
  induction h with
  | nil => cases hd
  | @cons e f ds keyed hf hrest ih =>
    obtain ⟨hfirst, hapart⟩ := List.pairwise_cons.1 hapart
    rcases List.mem_cons.1 hd with rfl | hd
    -- Each later key is a name of another field, so it is none of `d`.
    · have hnone : (keyed.filter fun f => f.1 ∈ d.names) = [] := by
        rw [List.filter_eq_nil_iff]
        intro g hg hin
        obtain ⟨e, he, hge⟩ := Lists.exists_left_of_forall₂ hrest hg
        exact hfirst e he g.1 (by simpa using hin) hge.1
      refine ⟨f, ?_, hf.2⟩
      rw [List.filter_cons_of_pos (by simpa using hf.1), hnone]
    · rw [List.filter_cons_of_neg (by simpa using hfirst d hd f.1 hf.1)]
      exact ih hapart hd

end Field

/-- The value is an object of these fields in any order, each under one of its names. -/
def IsRecord (ds : List Field) (v : Json) : Prop :=
  v.IsObjectOf Field.IsSpelled ds

/-- A record is read field by field, in any order and under any names. -/
theorem IsRecord.record?_eq {ds : List Field} {v : Json} (h : v.IsRecord ds)
    (hapart : Field.Apart ds) :
    ∃ values, record? (ds.map (·.names)) v = some values ∧
      List.Forall₂ (fun d o => ∃ w, o = some w ∧ d.IsValue w) ds values := by
  obtain ⟨order, fields, hperm, hfields, rfl⟩ := h
  obtain ⟨keyed, hkeyed, hall⟩ := Field.exists_fields? hfields
  have hread : ∀ d ∈ ds, ∃ o, field? d.names keyed = some o ∧ ∃ w, o = some w ∧ d.IsValue w := by
    intro d hd
    obtain ⟨w, hw, hvalue⟩ := Field.exists_field? hall (hapart.perm hperm) (hperm.mem_iff.1 hd)
    exact ⟨some w, hw, w, rfl, hvalue⟩
  rw [record?, hkeyed, Option.bind_eq_bind, Option.bind_some, List.mapM_map]
  exact Lists.exists_mapM hread

/-- A record is spelled by its fields as they are written, in any order. -/
theorem isRecord_record {ds order : List Field} {fields : List (String × Json)}
    (hperm : ds.Perm order)
    (h : List.Forall₂ (fun d f => f.1 ∈ d.names ∧ d.IsValue f.2) order fields) :
    (record fields).IsRecord ds := by
  refine ⟨order, _, hperm, List.forall₂_map_right_iff.2 (h.imp ?_), rfl⟩
  rintro d f ⟨hname, hvalue⟩
  exact ⟨⟨f.1, hname, Text.decode?_encode _⟩, hvalue⟩

/-! ## Names given twice -/

/-- Among the fields there is one under each of the two names. -/
def HasBoth (fields : List (List Char × Json)) (name older : String) : Prop :=
  (∃ f ∈ fields, Text.decode? f.1 = some name.toList) ∧
    ∃ f ∈ fields, Text.decode? f.1 = some older.toList

theorem hasBoth_record {fields : List (String × Json)} {name older : String} {v w : Json}
    (hname : (name, v) ∈ fields) (holder : (older, w) ∈ fields) :
    HasBoth (fields.map fun f => (Text.encode f.1.toList, f.2)) name older :=
  ⟨⟨_, List.mem_map_of_mem hname, Text.decode?_encode _⟩,
    _, List.mem_map_of_mem holder, Text.decode?_encode _⟩

variable {names : List String} {fields : List (List Char × Json)} {keyed : List (String × Json)}

theorem mem_of_fields?_eq_some (h : fields? fields = some keyed) {f : List Char × Json}
    (hf : f ∈ fields) {name : String} (hname : Text.decode? f.1 = some name.toList) :
    (name, f.2) ∈ keyed := by
  obtain ⟨k, v⟩ := f
  obtain ⟨g, hg, hread⟩ := Lists.exists_of_mapM_eq_some h hf
  dsimp only at hname hread
  rw [hname, Option.map_some, String.ofList_toList] at hread
  exact Option.some.inj hread ▸ hg

/-- A field that is there is found, unless there is another one. -/
theorem field?_of_mem {f : String × Json} (hf : f ∈ keyed) (hname : f.1 ∈ names) :
    field? names keyed = none ∨
      field? names keyed = some (some f.2) ∧ ∀ g ∈ keyed, g.1 ∈ names → g = f := by
  have hmem : ∀ g ∈ keyed, g.1 ∈ names → g ∈ keyed.filter fun f => f.1 ∈ names := fun g hg hin =>
    List.mem_filter.2 ⟨hg, decide_eq_true hin⟩
  rcases hfilter : keyed.filter (fun f => f.1 ∈ names) with _ | ⟨e, _ | ⟨e', es⟩⟩ <;>
    rw [hfilter] at hmem <;> rw [field?, hfilter]
  · cases hmem f hf hname
  · obtain rfl := List.mem_singleton.1 (hmem f hf hname)
    exact .inr ⟨rfl, fun g hg hin => List.mem_singleton.1 (hmem g hg hin)⟩
  · exact .inl rfl

theorem record?_eq_none_of_field? (hkeyed : fields? fields = some keyed)
    (hnone : field? names keyed = none) {all : List (List String)} (hnames : names ∈ all) :
    record? all (.object fields) = none := by
  rw [record?, hkeyed, Option.bind_eq_bind, Option.bind_some]
  exact Lists.mapM_eq_none_of_mem hnames hnone

/-- A record with two names of one field is refused. -/
theorem HasBoth.record?_eq_none {name older : String} (h : HasBoth fields name older)
    (hne : name ≠ older) {all : List (List String)} (hnames : names ∈ all) (hname : name ∈ names)
    (holder : older ∈ names) : record? all (.object fields) = none := by
  obtain ⟨⟨f, hf, hfname⟩, g, hg, hgname⟩ := h
  rcases hkeyed : fields? fields with _ | keyed
  · rw [record?, hkeyed]
    rfl
  · have hfirst := mem_of_fields?_eq_some hkeyed hf hfname
    have hsecond := mem_of_fields?_eq_some hkeyed hg hgname
    refine record?_eq_none_of_field? hkeyed ?_ hnames
    refine (field?_of_mem hfirst hname).resolve_right fun hone => ?_
    exact hne (congrArg Prod.fst (hone.2 _ hsecond holder)).symm

end Overlay.Json
