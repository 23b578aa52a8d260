/-!
Finite maps listed by ascending key. Two maps with the same entries are equal, and a map is listed
in the same order whatever order its entries were put in.
-/

namespace Overlay

/-- Keys are linearly ordered by a decidable `<`. -/
class Key (κ : Type) extends LT κ where
  decEq : DecidableEq κ
  decLt : DecidableLT κ
  irrefl (a : κ) : ¬a < a
  trans {a b c : κ} : a < b → b < c → a < c
  trichotomy (a b : κ) : a < b ∨ a = b ∨ b < a

instance Key.instDecidableEq [Key κ] : DecidableEq κ := Key.decEq

instance Key.instDecidableLT [Key κ] : DecidableLT κ := Key.decLt

instance : Key UInt32 where
  decEq := inferInstance
  decLt := inferInstance
  irrefl _ := UInt32.lt_irrefl _
  trans := UInt32.lt_trans
  trichotomy a b := by
    simp only [UInt32.lt_iff_toNat_lt, ← UInt32.toNat_inj]
    omega

instance : Key String where
  decEq := inferInstance
  decLt := inferInstance
  irrefl _ := String.lt_irrefl _
  trans := String.lt_trans
  trichotomy _ _ := Std.lt_trichotomy _ _

/-- A finite map as its list of entries, strictly ascending by key. -/
structure KeyedMap (κ ν : Type) [Key κ] where
  entries : List (κ × ν)
  sorted : entries.Pairwise fun a b => a.1 < b.1

namespace KeyedMap

variable {κ ν : Type} [Key κ]

theorem ext {m n : KeyedMap κ ν} (h : m.entries = n.entries) : m = n := by
  cases m; cases n; simp_all

instance [DecidableEq ν] : DecidableEq (KeyedMap κ ν) := fun m n =>
  decidable_of_iff (m.entries = n.entries) ⟨ext, fun h => h ▸ rfl⟩

def empty : KeyedMap κ ν :=
  ⟨[], .nil⟩

instance : EmptyCollection (KeyedMap κ ν) := ⟨empty⟩

instance : Inhabited (KeyedMap κ ν) := ⟨∅⟩

def size (m : KeyedMap κ ν) : Nat :=
  m.entries.length

def keys (m : KeyedMap κ ν) : List κ :=
  m.entries.map (·.1)

def values (m : KeyedMap κ ν) : List ν :=
  m.entries.map (·.2)

/-- The value at a key. -/
def get? (m : KeyedMap κ ν) (k : κ) : Option ν :=
  (m.entries.find? fun e => e.1 = k).map (·.2)

def contains (m : KeyedMap κ ν) (k : κ) : Bool :=
  (m.get? k).isSome

theorem mem_keys_of_contains {m : KeyedMap κ ν} {k : κ} (h : m.contains k) : k ∈ m.keys := by
  simp only [contains, get?, Option.isSome_map, List.find?_isSome, decide_eq_true_eq] at h
  obtain ⟨e, he, rfl⟩ := h
  exact List.mem_map_of_mem he

/-- Puts an entry into a list in its place; an entry with the same key is replaced. -/
def insertInto (k : κ) (v : ν) : List (κ × ν) → List (κ × ν)
  | [] => [(k, v)]
  | (l, w) :: rest =>
    if k < l then (k, v) :: (l, w) :: rest
    else if k = l then (k, v) :: rest
    else (l, w) :: insertInto k v rest

theorem mem_insertInto {k : κ} {v : ν} {e : κ × ν} {es : List (κ × ν)}
    (h : e ∈ insertInto k v es) : e = (k, v) ∨ e ∈ es := by
  fun_induction insertInto k v es with
  | case1 => simp_all
  | case2 => simp_all
  | case3 =>
    rcases List.mem_cons.1 h with rfl | h
    · exact .inl rfl
    · exact .inr (.tail _ h)
  | case4 l w rest _ _ ih =>
    rcases List.mem_cons.1 h with rfl | h
    · simp
    · rcases ih h with rfl | h <;> simp_all

theorem sorted_insertInto (k : κ) (v : ν) {es : List (κ × ν)}
    (h : es.Pairwise fun a b => a.1 < b.1) : (insertInto k v es).Pairwise fun a b => a.1 < b.1 := by
  fun_induction insertInto k v es with
  | case1 => simp
  | case2 l w rest hl =>
    refine List.pairwise_cons.2 ⟨fun e he => ?_, h⟩
    rcases List.mem_cons.1 he with rfl | he
    · exact hl
    · exact Key.trans hl ((List.pairwise_cons.1 h).1 e he)
  | case3 =>
    exact List.pairwise_cons.2 ⟨(List.pairwise_cons.1 h).1, (List.pairwise_cons.1 h).2⟩
  | case4 l w rest hl hne ih =>
    have ⟨first, rest_sorted⟩ := List.pairwise_cons.1 h
    refine List.pairwise_cons.2 ⟨fun e he => ?_, ih rest_sorted⟩
    rcases mem_insertInto he with rfl | he
    · rcases Key.trichotomy k l with h | h | h
      · exact absurd h hl
      · exact absurd h hne
      · exact h
    · exact first e he

/-- Sets the value at a key. -/
def insert (m : KeyedMap κ ν) (k : κ) (v : ν) : KeyedMap κ ν :=
  ⟨insertInto k v m.entries, sorted_insertInto k v m.sorted⟩

/-- The map with the given entries; of entries with one key the last counts. -/
def ofList (es : List (κ × ν)) : KeyedMap κ ν :=
  es.foldl (fun m e => m.insert e.1 e.2) ∅

/-- Removes the value at a key. -/
def erase (m : KeyedMap κ ν) (k : κ) : KeyedMap κ ν :=
  ⟨m.entries.filter fun e => e.1 ≠ k, m.sorted.filter _⟩

/-- The map with every value changed. -/
def map (f : ν → μ) (m : KeyedMap κ ν) : KeyedMap κ μ :=
  ⟨m.entries.map fun e => (e.1, f e.2), by simpa [List.pairwise_map] using m.sorted⟩

/-- Changes the value at a key, if there is one. -/
def modify (m : KeyedMap κ ν) (k : κ) (f : ν → ν) : KeyedMap κ ν :=
  ⟨m.entries.map fun e => (e.1, if e.1 = k then f e.2 else e.2), by
    simpa [List.pairwise_map] using m.sorted⟩

end KeyedMap

end Overlay
