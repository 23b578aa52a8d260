import Mathlib
import Overlay.Node.Routing
import Overlay.Proofs.AddressPlan
import Overlay.Proofs.Visits

/-!
Walks over a tree, with visitors that only look and with editors that change the nodes. A walk comes
to what its visitor does at the positions of `Node.visits`, one after the other, where the answers
are those of the visitor in the state that it is in when the walk enters a router. An editor that
leaves the lists of neighbors alone goes the same way, changes each node in its place and gives a
tree of the same shape (`Router.depthFirst_of_walks`).
-/

namespace Overlay

open AddressPlan (standardSubnet)

open Node (Alike)

variable {σ : Type}

/-! ## Visitors -/

namespace Visitor

/-- Visits the node at a position of the tree `n`. -/
def visitAt (v : Visitor σ) (n : Node) (s : σ) (path : List Nat) : σ :=
  match n.at? path with
  | some m => v.visit m s
  | none => s

/-- Visits the nodes at some positions of the tree `n`, one after the other. -/
def visitAll (v : Visitor σ) (n : Node) (visits : List (List Nat)) (s : σ) : σ :=
  visits.foldl (v.visitAt n) s

/-- The order that the visitor wants after some visits. -/
def asked (v : Visitor σ) (n : Node) (s : σ) (done : List (List Nat)) : Order :=
  v.order (v.visitAll n done s)

/-- The visitor that also writes down the nodes that it is called with, last first. -/
def recording (v : Visitor σ) : Visitor (σ × List Node) where
  order x := v.order x.1
  router r x := (v.router r x.1, r.toNode :: x.2)
  host h x := (v.host h x.1, .host h :: x.2)

variable {v : Visitor σ} {root m n : Node} {path : List Nat}

theorem visitAll_append (xs ys : List (List Nat)) (s : σ) :
    v.visitAll n (xs ++ ys) s = v.visitAll n ys (v.visitAll n xs s) :=
  List.foldl_append

theorem visitAll_concat (h : root.at? path = some m) (done : List (List Nat)) (s : σ) :
    v.visitAll root (done ++ [path]) s = v.visit m (v.visitAll root done s) := by
  rw [visitAll_append]
  change v.visitAt root _ path = _
  rw [visitAt, h]

/-- What is written down are the nodes at the positions of the visits. -/
theorem visitAll_recording (visits : List (List Nat)) (s : σ) (before : List Node) :
    v.recording.visitAll n visits (s, before) =
      (v.visitAll n visits s, (visits.filterMap n.at?).reverse ++ before) := by
  induction visits generalizing s before with
  | nil => rfl
  | cons path visits ih =>
    change v.recording.visitAll n visits (v.recording.visitAt n (s, before) path) =
      (v.visitAll n visits (v.visitAt n s path), _)
    rw [visitAt, visitAt, List.filterMap_cons]
    cases n.at? path with
    | none => exact ih s before
    | some m =>
      have hvisit : v.recording.visit m (s, before) = (v.visit m s, m :: before) := by
        cases m <;> rfl
      simp only [hvisit]
      rw [ih, List.reverse_cons, List.append_assoc, List.singleton_append]

theorem asked_recording (n : Node) (s : σ) : v.recording.asked n (s, []) = v.asked n s := by
  funext done
  rw [asked, visitAll_recording]
  rfl

theorem asked_of_order {o : Order} (h : ∀ t, v.order t = o) (n : Node) (s : σ) :
    v.asked n s = fun _ => o :=
  funext fun _ => h _

end Visitor

namespace Node

variable {v : Visitor σ} {root m n : Node} {ns : List Node} {path : List Nat}
  {done : List (List Nat)}

theorem walkAll_visitAll {s : σ} {info : RouterInfo} (left : List Node)
    (h : ∀ n ∈ ns, ∀ path done, root.at? path = some n → n.walk v (v.visitAll root done s) =
      v.visitAll root (done ++ n.visitsFrom (v.asked root s) path done) s)
    (hat : root.at? path = some (router info (left ++ ns))) :
    walkAll v ns (v.visitAll root done s) =
      v.visitAll root (done ++ visitsFromAll (v.asked root s) path left.length ns done) s := by
  induction ns generalizing left done with
  | nil => rw [walkAll, visitsFromAll, List.append_nil]
  | cons n ns ih =>
    obtain ⟨hn, hns⟩ := List.forall_mem_cons.1 h
    have hrest := fun done => @ih done (left ++ [n]) hns (by rwa [← List.append_cons])
    simp only [List.length_append, List.length_singleton] at hrest
    rw [walkAll, visitsFromAll, hn _ _ (at?_neighbor hat), hrest, List.append_assoc]

/-- A walk over a subtree comes to the visits in it. -/
theorem walk_visitAll {s : σ} (root : Node) (path : List Nat) (done : List (List Nat))
    (h : root.at? path = some n) :
    n.walk v (v.visitAll root done s) =
      v.visitAll root (done ++ n.visitsFrom (v.asked root s) path done) s := by
  induction n generalizing path done with
  | router info ns ih =>
    have hall : ∀ done, walkAll v ns (v.visitAll root done s) =
        v.visitAll root (done ++ visitsFromAll (v.asked root s) path 0 ns done) s := fun done =>
      walkAll_visitAll [] (fun n hn path done h => ih n hn path done h) h
    have hvisit := fun done => Visitor.visitAll_concat (v := v) h done s
    rw [walk, visitsFrom, Visitor.asked]
    cases v.order (v.visitAll root done s) with
    | pre =>
      dsimp only
      rw [← List.singleton_append, ← List.append_assoc, ← hall, hvisit]
      rfl
    | post =>
      dsimp only
      rw [← List.append_assoc, hvisit, ← hall]
      rfl
  | host x =>
    rw [walk, visitsFrom, Visitor.visitAll_concat h]
    rfl

end Node

/-! ## Editors -/

namespace Editor

/-- What an editor makes of one node. -/
def visit (e : Editor σ) : Node → σ → Node × σ
  | .router info ns, s => ((e.router ⟨info, ns⟩ s).1.toNode, (e.router ⟨info, ns⟩ s).2)
  | .host h, s => (.host (e.host h s).1, (e.host h s).2)

/-- Visits the node at a position of a tree and changes it in its place. -/
def visitAt (e : Editor σ) (x : Node × σ) (path : List Nat) : Node × σ :=
  match x.1.at? path with
  | some m => (x.1.replaceAt path (e.visit m x.2).1, (e.visit m x.2).2)
  | none => x

/-- Visits the nodes at some positions of a tree, one after the other. -/
def visitAll (e : Editor σ) (n : Node) (visits : List (List Nat)) (s : σ) : Node × σ :=
  visits.foldl e.visitAt (n, s)

/-- The order that the editor wants after some visits. -/
def asked (e : Editor σ) (n : Node) (s : σ) (done : List (List Nat)) : Order :=
  e.order (e.visitAll n done s).2

/-- The editor leaves the lists of neighbors alone. -/
def KeepsNeighbors (e : Editor σ) : Prop :=
  ∀ r s, (e.router r s).1.neighbors = r.neighbors

variable {e : Editor σ} {root m n t : Node} {path : List Nat} {done : List (List Nat)} {s s₀ : σ}

theorem visitAll_append (xs ys : List (List Nat)) :
    e.visitAll n (xs ++ ys) s =
      e.visitAll (e.visitAll n xs s).1 ys (e.visitAll n xs s).2 :=
  List.foldl_append

theorem visitAll_concat (hdone : e.visitAll root done s₀ = (t, s)) (h : t.at? path = some m) :
    e.visitAll root (done ++ [path]) s₀ = (t.replaceAt path (e.visit m s).1, (e.visit m s).2) := by
  rw [visitAll_append, hdone]
  change e.visitAt (t, s) path = _
  rw [visitAt, h]

theorem asked_of_order {o : Order} (h : ∀ t, e.order t = o) (n : Node) (s : σ) :
    e.asked n s = fun _ => o :=
  funext fun _ => h _

theorem alike_visit (hkeep : e.KeepsNeighbors) (m : Node) (s : σ) :
    Alike Node.kind m (e.visit m s).1 := by
  refine Node.alike_iff.2 ⟨?_, ?_⟩
  · cases m <;> rfl
  · have hneighbors : (e.visit m s).1.neighbors = m.neighbors := by
      cases m with
      | router info ns => exact hkeep ⟨info, ns⟩ s
      | host h => rfl
    rw [hneighbors]
    exact List.forall₂_same.2 fun _ _ _ => rfl

/-- The tree keeps its shape, wherever the editor was. -/
theorem alike_visitAll (hkeep : e.KeepsNeighbors) (n : Node) (visits : List (List Nat)) (s : σ) :
    Alike Node.kind n (e.visitAll n visits s).1 := by
  induction visits using List.reverseRecOn with
  | nil => exact fun _ => rfl
  | append_singleton visits path ih =>
    rw [visitAll_append]
    change Alike Node.kind n (e.visitAt _ path).1
    rw [visitAt]
    split
    case h_1 m hm => exact fun q => (ih q).trans (Node.alike_replaceAt hm (alike_visit hkeep m _) q)
    case h_2 => exact ih

end Editor

namespace Node

variable {e : Editor σ} {root n t : Node} {ns : List Node} {path : List Nat}
  {done : List (List Nat)} {s s₀ : σ}

/-- Editing the subtree `n`, wherever it stands, comes to the visits in it. -/
def EditsInPlace (e : Editor σ) (root : Node) (s₀ : σ) (levels : Nat) (n : Node) : Prop :=
  ∀ path done t s, e.visitAll root done s₀ = (t, s) → t.at? path = some n →
    ∃ n' s', n.edit e levels s = some (n', s') ∧
      e.visitAll root (done ++ n.visitsFrom (e.asked root s₀) path done) s₀ =
        (t.replaceAt path n', s')

theorem editsInPlace_all {levels : Nat} {info : RouterInfo} (left : List Node)
    (h : ∀ n ∈ ns, EditsInPlace e root s₀ levels n) (hdone : e.visitAll root done s₀ = (t, s))
    (hat : t.at? path = some (router info (left ++ ns))) :
    ∃ ns' s', ns.mapM (Node.edit e levels) s = some (ns', s') ∧
      e.visitAll root (done ++ visitsFromAll (e.asked root s₀) path left.length ns done) s₀ =
        (t.replaceAt path (router info (left ++ ns')), s') := by
  induction ns generalizing left done t s with
  | nil =>
    refine ⟨[], s, rfl, ?_⟩
    rw [visitsFromAll, List.append_nil, hdone, replaceAt_self hat]
  | cons n ns ih =>
    obtain ⟨hn, hns⟩ := List.forall_mem_cons.1 h
    obtain ⟨n', s₁, hedit, hfirst⟩ := hn _ _ _ _ hdone (at?_neighbor hat)
    rw [replaceAt_neighbor hat, List.append_cons left n' ns] at hfirst
    obtain ⟨ns', s₂, hedits, hrest⟩ := ih (left ++ [n']) hns hfirst (at?_replaceAt hat _)
    refine ⟨n' :: ns', s₂, mapM_cons_eq_some hedit hedits, ?_⟩
    rw [replaceAt_replaceAt, List.length_append, List.length_singleton,
      ← List.append_cons left n' ns', List.append_assoc] at hrest
    rw [visitsFromAll, hrest]

theorem editsInPlace (hkeep : e.KeepsNeighbors) (root : Node) (s₀ : σ) {levels : Nat}
    (hlevels : n.height ≤ levels) : EditsInPlace e root s₀ levels n := by
  induction n generalizing levels with
  | router info ns ih =>
    obtain ⟨levels, rfl, hheight⟩ := exists_levels_of_height_le hlevels
    have hns : ∀ n ∈ ns, EditsInPlace e root s₀ levels n := fun n hn => ih n hn (hheight n hn)
    intro path done t s hdone hat
    have hasked : e.asked root s₀ done = e.order s := by rw [Editor.asked, hdone]
    rw [visitsFrom, hasked]
    cases horder : e.order s with
    | pre =>
      have hvisit := Editor.visitAll_concat hdone hat
      have hneighbors := hkeep ⟨info, ns⟩ s
      simp only [Editor.visit, Router.toNode, hneighbors] at hvisit
      obtain ⟨ns', s', hedits, hall⟩ :=
        editsInPlace_all [] hns hvisit (at?_replaceAt hat _)
      refine ⟨.router (e.router ⟨info, ns⟩ s).1.info ns', s', ?_, ?_⟩
      · rw [edit_router_pre horder, hneighbors]
        exact congrArg _ hedits
      · rw [replaceAt_replaceAt] at hall
        rw [← List.singleton_append, ← List.append_assoc]
        exact hall
    | post =>
      obtain ⟨ns', s', hedits, hall⟩ := editsInPlace_all [] hns hdone hat
      have hvisit := Editor.visitAll_concat hall (at?_replaceAt hat _)
      have hneighbors := hkeep ⟨info, ns'⟩ s'
      simp only [Editor.visit, Router.toNode, List.nil_append, hneighbors, replaceAt_replaceAt]
        at hvisit
      refine ⟨.router (e.router ⟨info, ns'⟩ s').1.info ns', (e.router ⟨info, ns'⟩ s').2, ?_, ?_⟩
      · rw [edit_router_post horder, hedits, Option.map_some, Router.toNode, hneighbors]
      · rw [← List.append_assoc]
        exact hvisit
  | host x =>
    obtain ⟨levels, rfl, -⟩ := exists_levels_of_height_le hlevels
    intro path done t s hdone hat
    refine ⟨.host (e.host x s).1, (e.host x s).2, by rw [edit], ?_⟩
    rw [visitsFrom, Editor.visitAll_concat hdone hat]
    rfl

end Node

/-! ## Walks over the tree of a router -/

/-- There is a node at every visit. -/
theorem Node.map_at?_visits (n : Node) (asked : List (List Nat) → Order) :
    (n.visits asked).map n.at? = ((n.visits asked).filterMap n.at?).map some := by
  rw [List.map_filterMap_some_eq_filter_map_isSome, List.filter_eq_self.2]
  intro x hx
  obtain ⟨path, hpath, rfl⟩ := List.mem_map.1 hx
  exact mem_visits_iff.1 hpath

namespace Router

variable {v : Visitor σ} {e : Editor σ}

theorem walk_eq_visitAll (r : Router) (s : σ) :
    r.walk v s = v.visitAll r (r.toNode.visits (v.asked r s)) s :=
  Node.walk_visitAll r [] [] rfl

theorem walk_recording (r : Router) (s : σ) :
    r.walk v.recording (s, []) =
      (r.walk v s, ((r.toNode.visits (v.asked r s)).filterMap r.toNode.at?).reverse) := by
  rw [walk_eq_visitAll, Visitor.asked_recording, Visitor.visitAll_recording, List.append_nil,
    walk_eq_visitAll]

theorem exists_edit_eq (hkeep : e.KeepsNeighbors) (r : Router) (growth : Nat) (s : σ) :
    ∃ r' s', r.edit e (r.height + growth) s = some (r', s') ∧
      e.visitAll r (r.toNode.visits (e.asked r s)) s = (r'.toNode, s') ∧
      Alike Node.kind r.toNode r'.toNode := by
  obtain ⟨n, s', hedit, hall⟩ := Node.editsInPlace hkeep r.toNode s
    (Nat.le_add_right r.height growth) [] [] r.toNode s rfl rfl
  have halike := Editor.alike_visitAll hkeep r.toNode (r.toNode.visits (e.asked r s)) s
  rw [Node.visits, ← List.nil_append (r.toNode.visitsFrom _ _ _), hall] at halike
  cases n with
  | router info ns =>
    exact ⟨⟨info, ns⟩, s', by rw [edit, hedit], hall, halike⟩
  | host h => cases (Node.alike_iff.1 halike).1

/-- A walk visits every node of the tree once, in the depth-first order for the tree and for the
visitor's answers; what the visitor is called with are the nodes at these positions. If it always
wants the same order, they are the nodes of the listing. An editor that leaves the lists of
neighbors alone makes the visits for its own answers, changes every node in its place, and the tree
keeps its shape. -/
theorem depthFirst_of_walks (r : Router) (s : σ) :
    (∀ v : Visitor σ, ∃ seen,
      r.toNode.DepthFirst (v.asked r s) (r.toNode.visits (v.asked r s)) ∧
      r.walk v s = v.visitAll r (r.toNode.visits (v.asked r s)) s ∧
      r.walk v.recording (s, []) = (r.walk v s, seen.reverse) ∧
      (r.toNode.visits (v.asked r s)).map r.toNode.at? = seen.map some ∧
      ∀ o, (∀ t, v.order t = o) →
        r.toNode.visits (v.asked r s) = (r.toNode.visits fun _ => o) ∧ seen = r.toNode.listing o) ∧
    ∀ e : Editor σ, e.KeepsNeighbors → ∀ growth, ∃ r' s',
      r.toNode.DepthFirst (e.asked r s) (r.toNode.visits (e.asked r s)) ∧
      r.edit e (r.height + growth) s = some (r', s') ∧
      e.visitAll r (r.toNode.visits (e.asked r s)) s = (r'.toNode, s') ∧
      Alike Node.kind r.toNode r'.toNode ∧
      ∀ o, (∀ t, e.order t = o) →
        r.toNode.visits (e.asked r s) = r.toNode.visits fun _ => o := by
  refine ⟨fun v => ⟨_, Node.depthFirst_visits _ _, r.walk_eq_visitAll s, r.walk_recording s,
    Node.map_at?_visits _ _, fun o ho => ?_⟩, fun e hkeep growth => ?_⟩
  · have hasked := Visitor.asked_of_order ho r.toNode s
    have hlisting := Node.map_at?_visits_const o r.toNode
    rw [hasked]
    refine ⟨rfl, List.map_injective_iff.2 (Option.some_injective _) ?_⟩
    rw [← Node.map_at?_visits, hlisting]
  · obtain ⟨r', s', hedit, hall, halike⟩ := exists_edit_eq hkeep r growth s
    exact ⟨r', s', Node.depthFirst_visits _ _, hedit, hall, halike,
      fun o ho => by rw [Editor.asked_of_order ho]⟩

/-- Counts the nodes; which order it wants depends on the count. -/
def counting (order : Nat → Order) : Visitor Nat where
  order := order
  router _ count := count + 1
  host _ count := count + 1

/-- Only after one node routers come after their neighbors. -/
def wavering (count : Nat) : Order :=
  if count = 1 then .post else .pre

/-- A router above two routers, each with a host. -/
def fork : Router :=
  let left := (Router.ofNet 2 (standardSubnet 1)).link (.host (Host.ofNet 3 (standardSubnet 2)))
  let right := (Router.ofNet 4 (standardSubnet 3)).link (.host (Host.ofNet 5 (standardSubnet 4)))
  ((Router.ofNet 1 (standardSubnet 0)).link left.toNode).link right.toNode

/-- The wavering visitor enters the left router after one visit, so its host comes first. -/
theorem depthFirst_of_walks_fork :
    (∃ seen : List Node, fork.walk (counting wavering).recording (0, []) = (5, seen.reverse) ∧
      seen.map some = List.map fork.toNode.at? [[], [0, 0], [0], [1], [1, 0]]) ∧
    fork.walk (counting fun _ => .pre).recording (0, []) = (5, fork.toNode.preorder.reverse) ∧
    ∃ r', fork.edit .synthesize 3 0 = some (r', 3) ∧
      fork.toNode.DepthFirst (fun _ => .post) [[0, 0], [0], [1, 0], [1], []] ∧
      Alike Node.kind fork.toNode r'.toNode := by
  refine ⟨?_, ?_, ?_⟩
  · obtain ⟨seen, -, -, hseen, hat, -⟩ := (depthFirst_of_walks fork 0).1 (counting wavering)
    have hvisits : fork.toNode.visits ((counting wavering).asked fork 0) =
        [[], [0, 0], [0], [1], [1, 0]] := by decide
    rw [hvisits] at hat
    exact ⟨seen, hseen, hat.symm⟩
  · obtain ⟨seen, -, -, hseen, -, hlisting⟩ :=
      (depthFirst_of_walks fork 0).1 (counting fun _ => .pre)
    obtain ⟨-, rfl⟩ := hlisting .pre fun _ => rfl
    exact hseen
  · obtain ⟨r', count, hdepth, hedit, hall, halike, hconst⟩ :=
      (depthFirst_of_walks fork 0).2 .synthesize (fun _ _ => rfl) 0
    have hasked := hconst .post fun _ => rfl
    have hvisits : (fork.toNode.visits fun _ => .post) = [[0, 0], [0], [1, 0], [1], []] := by decide
    have hcount : count = 3 := congrArg Prod.snd (hasked ▸ hall).symm
    rw [hcount] at hedit
    rw [hasked, hvisits, Editor.asked_of_order (o := .post) fun _ => rfl] at hdepth
    exact ⟨r', hedit, hdepth, halike⟩

end Router

end Overlay
