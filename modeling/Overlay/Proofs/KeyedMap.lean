import Mathlib
import Overlay.KeyedMap
import Overlay.Proofs.Lists

/-!
Lookup in finite maps. A map is determined by its lookups (`get?_eq_some_iff`, `ext_get?`), and
every operation is described by the lookups of its result.
-/

namespace Overlay.KeyedMap

variable {κ ν μ : Type} [Key κ]

/-! ## Keys -/

theorem keys_sorted (m : KeyedMap κ ν) : m.keys.Pairwise (· < ·) := by
  simpa [keys, List.pairwise_map] using m.sorted

theorem keys_nodup (m : KeyedMap κ ν) : m.keys.Nodup := by
  refine m.keys_sorted.imp ?_
  intro a b h hab
  subst hab
  exact Key.irrefl a h

/-- A set of keys has one ascending list. -/
theorem eq_of_sorted {ks ls : List κ} (hk : ks.Pairwise (· < ·)) (hl : ls.Pairwise (· < ·))
    (hmem : ∀ k, k ∈ ks ↔ k ∈ ls) : ks = ls := by
  have hne : ∀ {a b : κ}, a < b → a ≠ b := fun h heq => Key.irrefl _ (heq ▸ h)
  refine List.Perm.eq_of_pairwise ?_ hk hl
    ((List.perm_ext_iff_of_nodup (hk.imp hne) (hl.imp hne)).2 hmem)
  intro a b _ _ hab hba
  exact absurd (Key.trans hab hba) (Key.irrefl _)

@[simp]
theorem length_keys (m : KeyedMap κ ν) : m.keys.length = m.size := by
  simp [keys, size]

/-! ## Lookup -/

theorem find?_eq_some_of_mem {es : List (κ × ν)} (hs : es.Pairwise fun a b => a.1 < b.1)
    {k : κ} {v : ν} (h : (k, v) ∈ es) : es.find? (fun e => e.1 = k) = some (k, v) := by
  induction es with
  | nil => simp at h
  | cons e es ih =>
    have ⟨hlt, hs'⟩ := List.pairwise_cons.1 hs
    rcases List.mem_cons.1 h with rfl | h
    · simp
    · have hne : e.1 ≠ k := by
        intro he
        have hk : e.1 < k := hlt (k, v) h
        rw [he] at hk
        exact Key.irrefl k hk
      rw [List.find?_cons_of_neg (by simpa using hne)]
      exact ih hs' h

theorem get?_eq_some_iff {m : KeyedMap κ ν} {k : κ} {v : ν} :
    m.get? k = some v ↔ (k, v) ∈ m.entries := by
  constructor
  · intro h
    obtain ⟨e, he, rfl⟩ := Option.map_eq_some_iff.1 h
    have hk : e.1 = k := by simpa using List.find?_some he
    rw [← hk]
    exact List.mem_of_find?_eq_some he
  · intro h
    rw [get?, find?_eq_some_of_mem m.sorted h]
    rfl

theorem contains_iff_exists {m : KeyedMap κ ν} {k : κ} :
    m.contains k = true ↔ ∃ v, m.get? k = some v := by
  rw [contains, Option.isSome_iff_exists]

theorem contains_iff_mem_keys {m : KeyedMap κ ν} {k : κ} :
    m.contains k = true ↔ k ∈ m.keys := by
  simp [contains_iff_exists, get?_eq_some_iff, keys]

theorem contains_eq_of_keys_eq {m : KeyedMap κ ν} {n : KeyedMap κ μ} (h : m.keys = n.keys) :
    m.contains = n.contains := by
  funext k
  rw [Bool.eq_iff_iff, contains_iff_mem_keys, contains_iff_mem_keys, h]

theorem mem_keys_iff {m : KeyedMap κ ν} {k : κ} : k ∈ m.keys ↔ ∃ v, m.get? k = some v := by
  rw [← contains_iff_mem_keys, contains_iff_exists]

theorem get?_eq_none_iff {m : KeyedMap κ ν} {k : κ} : m.get? k = none ↔ k ∉ m.keys := by
  rw [mem_keys_iff, ← Option.isSome_iff_exists, Option.not_isSome_iff_eq_none]

/-- A search through the keys finds the least of those it looks for. -/
theorem find?_keys_eq_some_iff {m : KeyedMap κ ν} {p : κ → Bool} {k : κ} :
    m.keys.find? p = some k ↔ m.contains k = true ∧ p k = true ∧
      ∀ l, m.contains l = true → p l = true → ¬l < k := by
  have hleast : ∀ {k}, m.keys.find? p = some k →
      ∀ l, m.contains l = true → p l = true → ¬l < k := by
    intro k hfind l hl hpl hlt
    obtain ⟨-, before, after, hkeys, hbefore⟩ := List.find?_eq_some_iff_append.1 hfind
    have hsorted := m.keys_sorted
    rw [contains_iff_mem_keys, hkeys, List.mem_append] at hl
    rw [hkeys, List.pairwise_append, List.pairwise_cons] at hsorted
    rcases hl with hl | hl
    · simpa [hpl] using hbefore l hl
    · rcases List.mem_cons.1 hl with rfl | hl
      · exact Key.irrefl _ hlt
      · exact Key.irrefl _ (Key.trans hlt (hsorted.2.1.1 l hl))
  constructor
  · intro hfind
    exact ⟨contains_iff_mem_keys.2 (List.mem_of_find?_eq_some hfind), List.find?_some hfind,
      hleast hfind⟩
  · intro h
    obtain ⟨hk, hpk, hmin⟩ := h
    rcases hfind : m.keys.find? p with _ | l
    · exact absurd hpk (List.find?_eq_none.1 hfind k (contains_iff_mem_keys.1 hk))
    · have hl := contains_iff_mem_keys.2 (List.mem_of_find?_eq_some hfind)
      rcases Key.trichotomy k l with hlt | rfl | hlt
      · exact absurd hlt (hleast hfind k hk hpk)
      · rfl
      · exact absurd hlt (hmin l hl (List.find?_some hfind))

/-- Of items that are listed entry by entry and tell their key, those of one key. -/
theorem filter_flatMap_entries {β : Type} {f : κ × ν → List β} {g : β → κ} {m : KeyedMap κ ν}
    (h : ∀ e ∈ m.entries, ∀ x ∈ f e, g x = e.1) (k : κ) :
    (m.entries.flatMap f).filter (fun x => g x = k) =
      ((m.get? k).map fun v => f (k, v)).getD [] := by
  have hfilter : (m.entries.flatMap f).filter (fun x => g x = k) =
      (m.entries.filter fun e => e.1 = k).flatMap f :=
    Lists.filter_flatMap_of_forall fun e he x hx => by rw [h e he x hx]
  rcases hget : m.get? k with _ | v
  · have hnone : (m.entries.filter fun e => e.1 = k) = [] := by
      rw [get?_eq_none_iff] at hget
      refine List.filter_eq_nil_iff.2 fun e he heq => hget ?_
      rw [← of_decide_eq_true heq]
      exact List.mem_map_of_mem he
    rw [hfilter, hnone]
    rfl
  · have hone := Lists.filter_eq_singleton m.keys_nodup (get?_eq_some_iff.1 hget)
    rw [hfilter, hone, List.flatMap_singleton]
    rfl

/-- The values are those found at the keys. -/
theorem values_eq_map_keys (m : KeyedMap κ ν) (v : ν) :
    m.values = m.keys.map fun k => (m.get? k).getD v := by
  rw [values, keys, List.map_map]
  refine List.map_congr_left fun e he => ?_
  have hget : m.get? e.1 = some e.2 := get?_eq_some_iff.2 he
  rw [Function.comp_apply, hget, Option.getD_some]

theorem nodup_entries (m : KeyedMap κ ν) : m.entries.Nodup :=
  m.keys_nodup.of_map

/-- Maps with the same lookups are equal. -/
theorem ext_get? {m n : KeyedMap κ ν} (h : ∀ k, m.get? k = n.get? k) : m = n := by
  have hmem : ∀ e, e ∈ m.entries ↔ e ∈ n.entries := by
    intro e
    rw [← get?_eq_some_iff, ← get?_eq_some_iff, h]
  refine ext (List.Perm.eq_of_pairwise ?_ m.sorted n.sorted
    ((List.perm_ext_iff_of_nodup m.nodup_entries n.nodup_entries).2 hmem))
  intro a b _ _ hab hba
  exact absurd (Key.trans hab hba) (Key.irrefl _)

/-! ## Operations -/

@[simp]
theorem get?_empty (k : κ) : (∅ : KeyedMap κ ν).get? k = none := rfl

theorem find?_insertInto (k l : κ) (v : ν) {es : List (κ × ν)}
    (hs : es.Pairwise fun a b => a.1 < b.1) :
    ((insertInto k v es).find? fun e => e.1 = l) =
      if k = l then some (k, v) else es.find? fun e => e.1 = l := by
  fun_induction insertInto k v es with
  | case1 => by_cases h : k = l <;> simp [h]
  | case2 l' w rest hlt => by_cases h : k = l <;> simp [h]
  | case3 w rest => by_cases h : k = l <;> simp [h]
  | case4 l' w rest hlt hne ih =>
    rw [List.find?_cons, List.find?_cons, ih (List.pairwise_cons.1 hs).2]
    by_cases h : k = l
    · have hl : l' ≠ l := fun h' => hne (h.trans h'.symm)
      simp [h, hl]
    · simp [h]

theorem get?_insert (m : KeyedMap κ ν) (k l : κ) (v : ν) :
    (m.insert k v).get? l = if k = l then some v else m.get? l := by
  rw [get?, insert, find?_insertInto k l v m.sorted]
  by_cases h : k = l <;> simp [h, get?]

theorem mem_keys_insert_iff {m : KeyedMap κ ν} {k l : κ} {v : ν} :
    l ∈ (m.insert k v).keys ↔ l = k ∨ l ∈ m.keys := by
  simp only [mem_keys_iff, get?_insert]
  by_cases h : k = l
  · simp [h]
  · simp [h, Ne.symm h]

/-- One entry more, unless the key was there before. -/
theorem size_insert (m : KeyedMap κ ν) (k : κ) (v : ν) :
    (m.insert k v).size = if m.contains k = true then m.size else m.size + 1 := by
  rw [← length_keys, ← length_keys]
  by_cases h : k ∈ m.keys
  · have hsame : (m.insert k v).keys = m.keys := by
      refine eq_of_sorted (keys_sorted _) (keys_sorted _) fun l => ?_
      rw [mem_keys_insert_iff, or_iff_right_of_imp]
      rintro rfl
      exact h
    rw [if_pos (contains_iff_mem_keys.2 h), hsame]
  · have hnew : (m.insert k v).keys.Perm (k :: m.keys) := by
      rw [List.perm_ext_iff_of_nodup (keys_nodup _) (List.nodup_cons.2 ⟨h, m.keys_nodup⟩)]
      intro l
      rw [mem_keys_insert_iff, List.mem_cons]
    rw [if_neg (mt contains_iff_mem_keys.1 h), hnew.length_eq, List.length_cons]

/-- If replaced keys are noted, then every insertion is an entry more or a note more. -/
theorem size_insert_add_length {α : Type} (m : KeyedMap κ ν) (k : κ) (v : ν) (note : α)
    (notes : List α) :
    (m.insert k v).size + (if m.contains k = true then note :: notes else notes).length =
      m.size + notes.length + 1 := by
  rw [size_insert]
  split
  · rw [List.length_cons]
    rfl
  · omega

theorem ofList_concat (es : List (κ × ν)) (e : κ × ν) :
    ofList (es ++ [e]) = (ofList es).insert e.1 e.2 := by
  rw [ofList, List.foldl_append]
  rfl

theorem contains_ofList_iff {es : List (κ × ν)} {k : κ} :
    (ofList es).contains k = true ↔ k ∈ es.map (·.1) := by
  induction es using List.reverseRecOn with
  | nil => simp [ofList, contains]
  | append_singleton es e ih =>
    rw [contains_iff_exists] at ih ⊢
    rw [ofList_concat, List.map_append, List.mem_append, ← ih, List.map_singleton,
      List.mem_singleton]
    simp only [get?_insert]
    split
    · rename_i heq
      exact iff_of_true ⟨_, rfl⟩ (.inr heq.symm)
    · rename_i hne
      rw [or_iff_left (Ne.symm hne)]

theorem keys_ofList_perm (es : List (κ × ν)) : (ofList es).keys.Perm (es.map (·.1)).dedup := by
  rw [List.perm_ext_iff_of_nodup (keys_nodup _) (List.nodup_dedup _)]
  intro k
  rw [← contains_iff_mem_keys, contains_ofList_iff, List.mem_dedup]

theorem size_ofList_le (es : List (κ × ν)) : (ofList es).size ≤ es.length := by
  rw [← length_keys, (keys_ofList_perm es).length_eq, ← es.length_map (·.1)]
  exact (List.dedup_sublist _).length_le

/-- No entry takes the place of another exactly if their keys are distinct. -/
theorem size_ofList_eq_iff {es : List (κ × ν)} :
    (ofList es).size = es.length ↔ (es.map (·.1)).Nodup := by
  rw [← length_keys, (keys_ofList_perm es).length_eq, ← es.length_map (·.1), ← List.dedup_eq_self]
  exact ⟨fun h => (List.dedup_sublist _).eq_of_length h, congrArg _⟩

/-- What is found at a key is the last entry with it. -/
theorem get?_ofList (es : List (κ × ν)) (k : κ) :
    (ofList es).get? k = (es.reverse.find? fun e => e.1 = k).map (·.2) := by
  induction es using List.reverseRecOn with
  | nil => rfl
  | append_singleton es e ih =>
    rw [ofList_concat, get?_insert, ih, List.reverse_append, List.reverse_singleton,
      List.singleton_append, List.find?_cons]
    by_cases h : e.1 = k <;> simp [h]

/-- Of entries with distinct keys all are kept. -/
theorem get?_ofList_iff {es : List (κ × ν)} (h : (es.map (·.1)).Nodup) {k : κ} {v : ν} :
    (ofList es).get? k = some v ↔ (k, v) ∈ es := by
  induction es using List.reverseRecOn with
  | nil => simp [ofList]
  | append_singleton es e ih =>
    rw [List.map_append, List.map_singleton, List.nodup_append] at h
    have hnew : e.1 ∉ es.map (·.1) := fun he => h.2.2 _ he _ (List.mem_singleton_self _) rfl
    rw [ofList_concat, get?_insert, List.mem_append, List.mem_singleton]
    split
    · rename_i heq
      subst heq
      constructor
      · intro hv
        exact .inr (Prod.ext rfl (Option.some.inj hv).symm)
      · rintro (hmem | he)
        · exact absurd (List.mem_map_of_mem hmem) hnew
        · exact congrArg (fun e => some e.2) he.symm
    · rename_i hne
      rw [ih h.1, or_iff_left]
      intro hsame
      subst hsame
      exact hne rfl

theorem entries_ofList_perm {es : List (κ × ν)} (h : (es.map (·.1)).Nodup) :
    (ofList es).entries.Perm es := by
  rw [List.perm_ext_iff_of_nodup (nodup_entries _) h.of_map]
  intro e
  rw [← get?_eq_some_iff, get?_ofList_iff h]

/-- The order in which the entries of a map are listed does not matter. -/
theorem ofList_of_perm {m : KeyedMap κ ν} {es : List (κ × ν)} (h : m.entries.Perm es) :
    ofList es = m := by
  have hnodup : (es.map (·.1)).Nodup := (h.map Prod.fst).nodup_iff.1 m.keys_nodup
  refine ext_get? fun k => Option.ext fun v => ?_
  rw [get?_ofList_iff hnodup, get?_eq_some_iff, h.mem_iff]

/-- A map is the map with its entries. -/
theorem ofList_entries (m : KeyedMap κ ν) : ofList m.entries = m :=
  ofList_of_perm (.refl _)

/-- Ascending entries are kept as they are listed. -/
theorem entries_ofList_of_sorted {es : List (κ × ν)} (h : es.Pairwise fun a b => a.1 < b.1) :
    (ofList es).entries = es :=
  congrArg entries (ofList_entries ⟨es, h⟩)

theorem get?_map (f : ν → μ) (m : KeyedMap κ ν) (k : κ) :
    (m.map f).get? k = (m.get? k).map f := by
  simp only [get?, map, List.find?_map, Option.map_map]
  rfl

theorem get?_modify (m : KeyedMap κ ν) (k l : κ) (f : ν → ν) :
    (m.modify k f).get? l = if l = k then (m.get? l).map f else m.get? l := by
  have hfind : ∀ es : List (κ × ν),
      ((es.map fun e => (e.1, if e.1 = k then f e.2 else e.2)).find? fun e => e.1 = l) =
        (es.find? fun e => e.1 = l).map fun e => (e.1, if e.1 = k then f e.2 else e.2) := by
    intro es
    rw [List.find?_map]
    rfl
  rw [get?, modify, hfind]
  rcases h : m.entries.find? (fun e => e.1 = l) with _ | e
  · simp [get?, h]
  · have he : e.1 = l := by simpa using List.find?_some h
    simp only [get?, h, he, Option.map_some]
    split <;> rfl

/-- In a map of lists, one of them grows. -/
theorem getD_modify_append {α : Type} {m : KeyedMap κ (List α)} {l : κ} (h : l ∈ m.keys) (k : κ)
    (xs : List α) :
    ((m.modify k (· ++ xs)).get? l).getD [] = (m.get? l).getD [] ++ if k = l then xs else [] := by
  obtain ⟨ys, hys⟩ := mem_keys_iff.1 h
  simp only [get?_modify, hys, eq_comm (a := k)]
  split <;> simp

theorem getD_map_nil {α : Type} (m : KeyedMap κ ν) (k : κ) :
    ((m.map fun _ => ([] : List α)).get? k).getD [] = [] := by
  rw [get?_map]
  cases m.get? k <;> rfl

@[simp]
theorem keys_map (f : ν → μ) (m : KeyedMap κ ν) : (m.map f).keys = m.keys := by
  simp [keys, map]

@[simp]
theorem keys_modify (m : KeyedMap κ ν) (k : κ) (f : ν → ν) : (m.modify k f).keys = m.keys := by
  simp [keys, modify]

end Overlay.KeyedMap
