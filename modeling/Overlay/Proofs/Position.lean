import Mathlib
import Overlay.Proofs.Node

/-!
Positions in a tree, given by paths from the root. Trees are compared position by position
(`Node.Alike`), and a node is replaced in its position (`Node.replaceAt`). Replacing below a
position is replacing there (`Node.replaceAt_append`).
-/

namespace Overlay.Node

variable {τ : Type}

/-- The node at a position: a path says for each router on the way which neighbor comes next. -/
def at? : (path : List Nat) → Node → Option Node
  | [], n => some n
  | i :: path, n => n.neighbors[i]?.bind (at? path)

/-- Two trees have the same positions, and nodes at the same position agree in `f`. -/
def Alike (f : Node → τ) (m n : Node) : Prop :=
  ∀ path, (m.at? path).map f = (n.at? path).map f

theorem at?_singleton (n : Node) (i : Nat) : n.at? [i] = n.neighbors[i]? := by
  rw [at?]
  cases n.neighbors[i]? <;> rfl

theorem at?_append (path rest : List Nat) (n : Node) :
    n.at? (path ++ rest) = (n.at? path).bind (at? rest) := by
  induction path generalizing n with
  | nil => rfl
  | cons i path ih =>
    rw [List.cons_append, at?, at?]
    cases n.neighbors[i]? with
    | none => rfl
    | some m => exact ih m

theorem at?_neighbor {n root : Node} {path : List Nat} {info : RouterInfo} {left right : List Node}
    (h : root.at? path = some (router info (left ++ n :: right))) :
    root.at? (path ++ [left.length]) = some n := by
  rw [at?_append, h, Option.bind_some, at?_singleton, neighbors]
  simp

theorem alike_iff {f : Node → τ} {m n : Node} :
    Alike f m n ↔ f m = f n ∧ List.Forall₂ (Alike f) m.neighbors n.neighbors := by
  rw [List.forall₂_iff_get]
  constructor
  · intro h
    have hneighbors : m.neighbors.map f = n.neighbors.map f := by
      refine List.ext_getElem? fun i => ?_
      have hi := h [i]
      rwa [at?_singleton, at?_singleton, ← List.getElem?_map, ← List.getElem?_map] at hi
    refine ⟨Option.some.inj (h []), by simpa using congrArg List.length hneighbors, ?_⟩
    intro i hi hi' path
    have hpath := h (i :: path)
    rwa [at?, at?, List.getElem?_eq_getElem hi, List.getElem?_eq_getElem hi'] at hpath
  · rintro ⟨hroot, hlen, hall⟩ path
    rcases path with _ | ⟨i, path⟩
    · exact congrArg some hroot
    · rw [at?, at?]
      by_cases hi : i < m.neighbors.length
      · rw [List.getElem?_eq_getElem hi, List.getElem?_eq_getElem (hlen ▸ hi)]
        exact hall i hi (hlen ▸ hi) path
      · rw [List.getElem?_eq_none (Nat.not_lt.1 hi), List.getElem?_eq_none (hlen ▸ Nat.not_lt.1 hi)]

/-! ## Replacing a node -/

/-- The tree with `new` in the place of the node at a position. -/
def replaceAt : (path : List Nat) → Node → (new : Node) → Node
  | [], _, new => new
  | i :: path, .router info ns, new => .router info (ns.modify i fun n => replaceAt path n new)
  | _ :: _, .host h, _ => .host h

variable {m n : Node} {path : List Nat}

theorem exists_router_of_at?_cons {i : Nat} (h : n.at? (i :: path) = some m) :
    ∃ info ns k, n = router info ns ∧ ns[i]? = some k ∧ k.at? path = some m := by
  rw [at?, Option.bind_eq_some_iff] at h
  obtain ⟨k, hk, hm⟩ := h
  cases n with
  | router info ns => exact ⟨info, ns, k, rfl, hk, hm⟩
  | host x => cases hk

theorem at?_replaceAt (h : n.at? path = some m) (new : Node) :
    (n.replaceAt path new).at? path = some new := by
  induction path generalizing n with
  | nil => rw [replaceAt, at?]
  | cons i path ih =>
    obtain ⟨info, ns, k, rfl, hk, hm⟩ := exists_router_of_at?_cons h
    rw [replaceAt, at?, neighbors, List.getElem?_modify_eq, hk]
    exact ih hm

theorem replaceAt_replaceAt (n : Node) (path : List Nat) (old new : Node) :
    (n.replaceAt path old).replaceAt path new = n.replaceAt path new := by
  induction path generalizing n with
  | nil => rfl
  | cons i path ih =>
    cases n with
    | router info ns =>
      rw [replaceAt, replaceAt, replaceAt, List.modify_modify_eq]
      exact congrArg (fun f => router info (ns.modify i f)) (funext fun k => ih k)
    | host x => rfl

theorem replaceAt_self (h : n.at? path = some m) : n.replaceAt path m = n := by
  induction path generalizing n with
  | nil => exact (Option.some.inj h).symm
  | cons i path ih =>
    obtain ⟨info, ns, k, rfl, hk, hm⟩ := exists_router_of_at?_cons h
    obtain ⟨hi, rfl⟩ := List.getElem?_eq_some_iff.1 hk
    rw [replaceAt, List.modify_eq_set_get _ hi, List.get_eq_getElem, ih hm, List.set_getElem_self]

/-- A node may be replaced by one of the same shape. -/
theorem alike_replaceAt {new : Node} (h : n.at? path = some m) (hnew : Alike kind m new) :
    Alike kind n (n.replaceAt path new) := by
  induction path generalizing n with
  | nil => rwa [replaceAt, Option.some.inj h]
  | cons i path ih =>
    obtain ⟨info, ns, k, rfl, hk, hm⟩ := exists_router_of_at?_cons h
    rintro (_ | ⟨j, q⟩)
    · rfl
    · rw [replaceAt, at?, at?, neighbors, neighbors]
      by_cases hij : i = j
      · subst hij
        rw [List.getElem?_modify_eq, hk]
        exact ih hm q
      · rw [List.getElem?_modify_ne _ _ hij]

/-- Replacing below a position is replacing what stands at the position. -/
theorem replaceAt_append (h : n.at? path = some m) (rest : List Nat) (new : Node) :
    n.replaceAt (path ++ rest) new = n.replaceAt path (m.replaceAt rest new) := by
  induction path generalizing n with
  | nil => rw [List.nil_append, replaceAt, Option.some.inj h]
  | cons i path ih =>
    obtain ⟨info, ns, k, rfl, hk, hm⟩ := exists_router_of_at?_cons h
    obtain ⟨hi, rfl⟩ := List.getElem?_eq_some_iff.1 hk
    rw [List.cons_append, replaceAt, replaceAt, List.modify_eq_set_get _ hi,
      List.modify_eq_set_get _ hi, List.get_eq_getElem, ih hm]

/-- A neighbor is replaced among the neighbors of its router. -/
theorem replaceAt_neighbor {info : RouterInfo} {left right : List Node}
    (h : n.at? path = some (router info (left ++ m :: right))) (new : Node) :
    n.replaceAt (path ++ [left.length]) new =
      n.replaceAt path (router info (left ++ new :: right)) := by
  have hlen : left.length < (left ++ m :: right).length := by simp
  rw [replaceAt_append h, replaceAt, List.modify_eq_set_get _ hlen]
  simp [replaceAt]

end Overlay.Node
