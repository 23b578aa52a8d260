import Mathlib

/-!
Positions in lists: an item of a list that is put together from pieces, without repetition, stands
at one place of one piece (`position_unique`). Lists whose items are read one by one, which may fail
(`mapM_of_forall₂`, `exists_mapM`). Lists that fall apart in one way only
(`append_inj_of_takeWhile`, `splitOn_flatMap`).
-/

namespace Overlay.Lists

variable {α β : Type}

section Pieces

variable {l : List α} {f : α → List β} (h : (l.flatMap f).Nodup) {a b : α} (ha : a ∈ l)
  (hb : b ∈ l) {x : β}

include h ha hb

theorem eq_of_mem_flatMap (hxa : x ∈ f a) (hxb : x ∈ f b) : a = b := by
  have hsymm : Std.Symm (Function.onFun List.Disjoint f) := ⟨fun _ _ => List.Disjoint.symm⟩
  by_contra hne
  exact (List.nodup_flatMap.1 h).2.forall ha hb hne hxa hxb

theorem position_unique {i j : Nat} (hi : (f a)[i]? = some x) (hj : (f b)[j]? = some x) :
    a = b ∧ i = j := by
  have hab := eq_of_mem_flatMap h ha hb (List.mem_of_getElem? hi) (List.mem_of_getElem? hj)
  subst hab
  have hlen := (List.getElem?_eq_some_iff.1 hi).1
  exact ⟨rfl, (List.getElem?_inj hlen ((List.nodup_flatMap.1 h).1 a ha)).1 (hi.trans hj.symm)⟩

end Pieces

/-- Of pieces that are empty but for one item, that item's remains. -/
theorem flatMap_if_eq [DecidableEq α] {l : List α} {a : α} (hnodup : l.Nodup) (ha : a ∈ l)
    (ys : List β) : (l.flatMap fun b => if a = b then ys else []) = ys := by
  induction l with
  | nil => cases ha
  | cons b l ih =>
    obtain ⟨hb, hnodup⟩ := List.nodup_cons.1 hnodup
    rw [List.flatMap_cons]
    rcases List.mem_cons.1 ha with rfl | ha
    · have hrest : (l.flatMap fun b => if a = b then ys else []) = [] := by
        rw [List.flatMap_eq_nil_iff]
        intro x hx
        exact if_neg fun (heq : a = x) => hb (heq ▸ hx)
      rw [hrest, if_pos rfl, List.append_nil]
    · rw [ih hnodup ha, if_neg fun (heq : a = b) => hb (heq ▸ ha), List.nil_append]

/-- Where all items of a piece agree on `p`, pieces are kept or dropped as a whole. -/
theorem filter_flatMap_of_forall {p : β → Bool} {q : α → Bool} {f : α → List β} {l : List α}
    (h : ∀ a ∈ l, ∀ x ∈ f a, p x = q a) : (l.flatMap f).filter p = (l.filter q).flatMap f := by
  induction l with
  | nil => rfl
  | cons a l ih =>
    have ha := h a List.mem_cons_self
    rw [List.flatMap_cons, List.filter_append, ih fun b hb => h b (List.mem_cons_of_mem _ hb)]
    cases hq : q a with
    | true =>
      rw [hq] at ha
      rw [List.filter_cons_of_pos hq, List.flatMap_cons, List.filter_eq_self.2 ha]
    | false =>
      rw [hq] at ha
      rw [List.filter_cons_of_neg (by simp [hq]), List.filter_eq_nil_iff.2 (by simpa using ha),
        List.nil_append]

/-- Among items with distinct keys one item has the key of a member. -/
theorem filter_eq_singleton [DecidableEq β] {l : List α} {f : α → β} (h : (l.map f).Nodup) {a : α}
    (ha : a ∈ l) : (l.filter fun b => f b = f a) = [a] := by
  induction l with
  | nil => cases ha
  | cons b l ih =>
    rw [List.map_cons, List.nodup_cons] at h
    rcases List.mem_cons.1 ha with rfl | ha
    · rw [List.filter_cons_of_pos (by simp), List.filter_eq_nil_iff.2]
      intro b hb
      have hne : f b ≠ f a := fun heq => h.1 (heq ▸ List.mem_map_of_mem hb)
      simpa using hne
    · have hne : f b ≠ f a := fun heq => h.1 (heq ▸ List.mem_map_of_mem ha)
      rw [List.filter_cons_of_neg (by simpa using hne), ih h.2 ha]

/-- Pieces that stand side by side with the items of another list. -/
theorem flatMap_eq_flatMap_zip {γ : Type} {xs : List α} {ys : List β} {f : β → List γ}
    {g : α × β → List γ} (hlen : ys.length ≤ xs.length)
    (h : ∀ (i : Nat) x y, xs[i]? = some x → ys[i]? = some y → f y = g (x, y)) :
    ys.flatMap f = (xs.zip ys).flatMap g := by
  conv_lhs => rw [← List.map_snd_zip hlen, List.flatMap_map]
  refine List.flatMap_congr fun ⟨x, y⟩ hxy => ?_
  obtain ⟨i, hi⟩ := List.mem_iff_getElem?.1 hxy
  obtain ⟨hx, hy⟩ := List.getElem?_zip_eq_some.1 hi
  exact h i x y hx hy

theorem map_filter_eq_flatMap (p : α → Prop) [DecidablePred p] (f : α → β) (l : List α) :
    (l.filter fun a => p a).map f = l.flatMap fun a => if p a then [f a] else [] := by
  induction l with
  | nil => rfl
  | cons a l ih =>
    rw [List.flatMap_cons, ← ih]
    by_cases ha : p a
    · rw [List.filter_cons_of_pos (by simpa using ha), if_pos ha]
      rfl
    · rw [List.filter_cons_of_neg (by simpa using ha), if_neg ha]
      rfl

theorem perm_flatMap_swap {γ : Type} (f : α → β → List γ) (xs : List α) (ys : List β) :
    (ys.flatMap fun y => xs.flatMap fun x => f x y).Perm
      (xs.flatMap fun x => ys.flatMap fun y => f x y) := by
  induction ys with
  | nil => simp
  | cons y ys ih =>
    simp only [List.flatMap_cons]
    exact (ih.append_left _).trans (List.flatMap_append_perm _ _ _)

/-- The pairs with a common key are the same whichever list is gone through first. -/
theorem perm_flatMap_filter {γ κ : Type} [DecidableEq κ] (f : α → κ) (g : β → κ) (h : α → β → γ)
    (xs : List α) (ys : List β) :
    (ys.flatMap fun y => (xs.filter fun x => f x = g y).map fun x => h x y).Perm
      (xs.flatMap fun x => (ys.filter fun y => g y = f x).map (h x)) := by
  simp only [map_filter_eq_flatMap, eq_comm (b := g _)]
  exact perm_flatMap_swap _ xs ys

theorem nil_or_perm_iff {l l' target : List α} (h : l.Perm l') :
    l = [] ∨ l.Perm target ↔ l' = [] ∨ l'.Perm target := by
  rw [← List.perm_nil, ← List.perm_nil, h.congr_left, h.congr_left]

/-- An item of a concatenation stands in one of its parts. -/
theorem split_of_append_eq {xs ys before after : List α} {a : α}
    (h : xs ++ ys = before ++ a :: after) :
    (∃ mid, xs = before ++ a :: mid) ∨ ∃ mid, before = xs ++ mid ∧ ys = mid ++ a :: after := by
  rcases List.append_eq_append_iff.1 h with ⟨mid, hbefore, hys⟩ | ⟨mid, hxs, hrest⟩
  · exact .inr ⟨mid, hbefore, hys⟩
  · rcases List.cons_eq_append_iff.1 hrest with ⟨rfl, hys⟩ | ⟨mid, rfl, -⟩
    · exact .inr ⟨[], by rw [hxs, List.append_nil, List.append_nil], hys⟩
    · exact .inl ⟨mid, hxs⟩

/-- A search from the end finds the last of those it looks for. -/
theorem find?_reverse_eq_some_iff {p : α → Bool} {l : List α} {a : α} :
    l.reverse.find? p = some a ↔
      p a = true ∧ ∃ before after, l = before ++ a :: after ∧ ∀ b ∈ after, p b = false := by
  rw [List.find?_eq_some_iff_append]
  refine and_congr_right fun _ => ⟨?_, ?_⟩
  · rintro ⟨after, before, hl, hafter⟩
    refine ⟨before.reverse, after.reverse, ?_, by simpa using hafter⟩
    rw [← List.reverse_reverse l, hl]
    simp
  · rintro ⟨before, after, rfl, hafter⟩
    exact ⟨after.reverse, before.reverse, by simp, by simpa using hafter⟩

/-- A beginning whose items satisfy `p` ends where an item does not. -/
theorem append_inj_of_takeWhile {p : α → Bool} {as bs xs ys : List α} (has : ∀ a ∈ as, p a = true)
    (hbs : ∀ b ∈ bs, p b = true) (hxs : ∀ x ∈ xs.head?, p x = false)
    (hys : ∀ y ∈ ys.head?, p y = false) (h : as ++ xs = bs ++ ys) : as = bs ∧ xs = ys := by
  have hnil : ∀ zs : List α, (∀ z ∈ zs.head?, p z = false) → zs.takeWhile p = [] := by
    intro zs hzs
    rcases zs with _ | ⟨z, zs⟩
    · rfl
    · exact List.takeWhile_cons_of_neg (by simp [hzs z rfl])
  have htake := congrArg (List.takeWhile p) h
  rw [List.takeWhile_append_of_pos has, List.takeWhile_append_of_pos hbs, hnil xs hxs, hnil ys hys,
    List.append_nil, List.append_nil] at htake
  subst htake
  exact ⟨rfl, List.append_cancel_left h⟩

/-- Pieces that end with a separator which is not in them are what a split gives back. -/
theorem splitOn_flatMap [BEq β] [LawfulBEq β] {c : β} {f : α → List β} {l : List α}
    (hc : ∀ a ∈ l, c ∉ f a) (rest : List β) :
    ((l.flatMap fun a => f a ++ [c]) ++ rest).splitOn c = l.map f ++ rest.splitOn c := by
  induction l with
  | nil => rfl
  | cons a l ih =>
    obtain ⟨ha, hl⟩ := List.forall_mem_cons.1 hc
    rw [List.flatMap_cons, List.append_assoc, List.append_assoc, List.singleton_append,
      List.splitOn_append_cons_self_of_not_mem ha, ih hl, List.map_cons, List.cons_append]

theorem mem_intercalate {sep a : α} {parts : List (List α)} (h : a ∈ [sep].intercalate parts) :
    a = sep ∨ ∃ part ∈ parts, a ∈ part := by
  induction parts with
  | nil => cases h
  | cons part parts ih =>
    rcases parts with _ | ⟨next, parts⟩
    · rw [List.intercalate_singleton] at h
      exact .inr ⟨part, List.mem_cons_self, h⟩
    · rw [List.intercalate_cons_cons, List.mem_append, List.mem_append, List.mem_singleton] at h
      rcases h with (h | h) | h
      · exact .inr ⟨part, List.mem_cons_self, h⟩
      · exact .inl h
      · exact (ih h).imp_right fun ⟨p, hp, ha⟩ => ⟨p, List.mem_cons_of_mem _ hp, ha⟩

theorem mapM_eq_some {f : α → Option β} {g : α → β} {l : List α} (h : ∀ a ∈ l, f a = some (g a)) :
    l.mapM f = some (l.map g) := by
  induction l with
  | nil => rfl
  | cons a l ih =>
    rw [List.mapM_cons, h a List.mem_cons_self, ih fun b hb => h b (List.mem_cons_of_mem _ hb)]
    rfl

/-- Lists of one length without repetition correspond item by item. -/
theorem exists_bijOn [Inhabited β] {xs : List α} {ys : List β} (hlen : xs.length = ys.length)
    (hxs : xs.Nodup) (hys : ys.Nodup) :
    ∃ f : α → β, xs.map f = ys ∧ Set.BijOn f {a | a ∈ xs} {b | b ∈ ys} := by
  classical
  have hmap : ∃ f : α → β, xs.map f = ys := by
    clear hys
    induction xs generalizing ys with
    | nil => exact ⟨fun _ => default, (List.length_eq_zero_iff.1 hlen.symm).symm⟩
    | cons x xs ih =>
      rcases ys with _ | ⟨y, ys⟩
      · cases hlen
      · obtain ⟨f, hf⟩ := ih (Nat.succ.inj hlen) (List.nodup_cons.1 hxs).2
        refine ⟨Function.update f x y, ?_⟩
        rw [hxs.map_update, if_pos List.mem_cons_self, List.idxOf_cons_self, List.map_cons, hf]
        rfl
  obtain ⟨f, rfl⟩ := hmap
  exact ⟨f, rfl, fun a ha => List.mem_map_of_mem ha,
    fun a ha b hb => List.inj_on_of_nodup_map hys ha hb, fun b hb => List.mem_map.1 hb⟩

/-- Where `g` takes back what `f` does, it does so item by item. -/
theorem mapM_map_eq_some {f : α → β} {g : β → Option α} {l : List α}
    (h : ∀ a ∈ l, g (f a) = some a) : (l.map f).mapM g = some l := by
  rw [List.mapM_map]
  exact (mapM_eq_some (g := id) h).trans (by rw [List.map_id])

/-- Where `g` reads each item as its counterpart, it reads the list as the counterparts. -/
theorem mapM_of_forall₂ {g : β → Option α} {xs : List α} {ys : List β}
    (h : List.Forall₂ (fun a b => g b = some a) xs ys) : ys.mapM g = some xs := by
  induction h with
  | nil => rfl
  | cons ha _ ih =>
    rw [List.mapM_cons, ha, ih]
    rfl

theorem exists_mapM {f : α → Option β} {R : α → β → Prop} {l : List α}
    (h : ∀ a ∈ l, ∃ b, f a = some b ∧ R a b) :
    ∃ bs, l.mapM f = some bs ∧ List.Forall₂ R l bs := by
  induction l with
  | nil => exact ⟨[], rfl, .nil⟩
  | cons a l ih =>
    obtain ⟨ha, hl⟩ := List.forall_mem_cons.1 h
    obtain ⟨b, hb, hr⟩ := ha
    obtain ⟨bs, hbs, hrs⟩ := ih hl
    refine ⟨b :: bs, ?_, .cons hr hrs⟩
    rw [List.mapM_cons, hb, hbs]
    rfl

theorem exists_of_mapM_eq_some {f : α → Option β} {l : List α} {bs : List β} {a : α}
    (h : l.mapM f = some bs) (ha : a ∈ l) : ∃ b ∈ bs, f a = some b := by
  induction l generalizing bs with
  | nil => cases ha
  | cons c l ih =>
    rw [List.mapM_cons] at h
    obtain ⟨b, hb, h⟩ := Option.bind_eq_some_iff.1 h
    obtain ⟨cs, hcs, h⟩ := Option.bind_eq_some_iff.1 h
    cases h
    rcases List.mem_cons.1 ha with rfl | ha
    · exact ⟨b, List.mem_cons_self, hb⟩
    · obtain ⟨d, hd, hfa⟩ := ih hcs ha
      exact ⟨d, List.mem_cons_of_mem _ hd, hfa⟩

theorem mapM_eq_none_of_mem {f : α → Option β} {l : List α} {a : α} (ha : a ∈ l)
    (hf : f a = none) : l.mapM f = none := by
  rw [Option.eq_none_iff_forall_ne_some]
  intro bs hbs
  obtain ⟨b, -, hb⟩ := exists_of_mapM_eq_some hbs ha
  rw [hf] at hb
  cases hb

theorem map_eq_of_forall₂ {γ : Type} {R : α → γ → Prop} {f : α → β} {g : γ → β} {xs : List α}
    {ys : List γ} (h : List.Forall₂ R xs ys) (hfg : ∀ x ∈ xs, ∀ y ∈ ys, R x y → f x = g y) :
    xs.map f = ys.map g := by
  induction h with
  | nil => rfl
  | cons hxy _ ih =>
    rw [List.map_cons, List.map_cons, hfg _ List.mem_cons_self _ List.mem_cons_self hxy,
      ih fun x hx y hy => hfg x (List.mem_cons_of_mem _ hx) y (List.mem_cons_of_mem _ hy)]

theorem exists_left_of_forall₂ {R : α → β → Prop} {xs : List α} {ys : List β}
    (h : List.Forall₂ R xs ys) {b : β} (hb : b ∈ ys) : ∃ a ∈ xs, R a b := by
  induction h with
  | nil => cases hb
  | @cons a _ _ _ hr _ ih =>
    rcases List.mem_cons.1 hb with rfl | hb
    · exact ⟨a, List.mem_cons_self, hr⟩
    · obtain ⟨a', ha', hr'⟩ := ih hb
      exact ⟨a', List.mem_cons_of_mem _ ha', hr'⟩

theorem exists_split_of_lt_countP {p : α → Bool} {l : List α} {k : Nat} (h : k < l.countP p) :
    ∃ before x after, l = before ++ x :: after ∧ p x = true ∧ before.countP p = k := by
  induction l generalizing k with
  | nil => simp at h
  | cons y l ih =>
    by_cases hy : p y = true
    · rcases k with _ | k
      · exact ⟨[], y, l, rfl, hy, rfl⟩
      · rw [List.countP_cons_of_pos hy] at h
        obtain ⟨before, x, after, rfl, hx, hk⟩ := ih (Nat.lt_of_succ_lt_succ h)
        exact ⟨y :: before, x, after, rfl, hx, by rw [List.countP_cons_of_pos hy, hk]⟩
    · rw [List.countP_cons_of_neg hy] at h
      obtain ⟨before, x, after, rfl, hx, hk⟩ := ih h
      exact ⟨y :: before, x, after, rfl, hx, by rw [List.countP_cons_of_neg hy, hk]⟩

end Overlay.Lists
