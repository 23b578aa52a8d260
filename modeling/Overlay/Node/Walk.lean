import Overlay.Node.Basic

/-!
Depth-first walks over a tree. What happens at a node is up to a visitor, a state machine; the walk
decides the order: neighbors in stored order, and a router before or after its neighbors as the
visitor's state says when the walk enters it.
-/

namespace Overlay

variable {σ : Type}

/-- When a router is visited relative to its neighbors. -/
inductive Order
  | pre
  | post
deriving DecidableEq

/-- A visitor that only looks at the nodes. -/
structure Visitor (σ : Type) where
  order : σ → Order
  router : Router → σ → σ
  host : Host → σ → σ

namespace Node

mutual

/-- Visits every node of the tree `n`. -/
def walk (v : Visitor σ) : Node → σ → σ
  | .router info ns, s =>
    match v.order s with
    | .pre => walkAll v ns (v.router ⟨info, ns⟩ s)
    | .post => v.router ⟨info, ns⟩ (walkAll v ns s)
  | .host h, s => v.host h s

/-- Visits the trees one after the other. -/
def walkAll (v : Visitor σ) : List Node → σ → σ
  | [], s => s
  | n :: ns, s => walkAll v ns (walk v n s)

end

mutual

/-- Number of levels of the tree. -/
def height : Node → Nat
  | .router _ ns => heightAll ns + 1
  | .host _ => 1

/-- Number of levels of the tallest tree. -/
def heightAll : List Node → Nat
  | [] => 0
  | n :: ns => max (height n) (heightAll ns)

end

end Node

/-- A visitor that may change the nodes it visits, neighbor lists included. -/
structure Editor (σ : Type) where
  order : σ → Order
  router : Router → σ → Router × σ
  host : Host → σ → Host × σ

/-- Visits and changes every node of a tree. A router visited before its neighbors passes on the
neighbors it has after the visit, so the walk reaches nodes that were just added. It gives up below
the given number of levels, since an editor may add nodes for ever. -/
def Node.edit (e : Editor σ) : (levels : Nat) → Node → StateT σ Option Node
  | 0, _ => failure
  | _ + 1, .host h => fun s =>
    let (h, s) := e.host h s
    some (.host h, s)
  | levels + 1, .router info ns => fun s =>
    match e.order s with
    | .pre =>
      let (r, s) := e.router ⟨info, ns⟩ s
      (r.neighbors.mapM (Node.edit e levels) s).map fun (ns, s) => (.router r.info ns, s)
    | .post =>
      (ns.mapM (Node.edit e levels) s).map fun (ns, s) =>
        let (r, s) := e.router ⟨info, ns⟩ s
        (r.toNode, s)

namespace Router

def walk (v : Visitor σ) (r : Router) : σ → σ :=
  r.toNode.walk v

def height (r : Router) : Nat :=
  r.toNode.height

/-- Visits and changes every node of the tree below and including `r`, as `Node.edit` does. -/
def edit (e : Editor σ) (levels : Nat) (r : Router) : σ → Option (Router × σ) := fun s =>
  match r.toNode.edit e levels s with
  | some (.router info ns, s) => some (⟨info, ns⟩, s)
  | _ => none

end Router

/-! ## Listings -/

namespace Node

mutual

/-- The nodes of the tree, each router before its neighbors. -/
def preorder : Node → List Node
  | .router info ns => .router info ns :: preorderAll ns
  | .host h => [.host h]

def preorderAll : List Node → List Node
  | [] => []
  | n :: ns => preorder n ++ preorderAll ns

end

mutual

/-- The nodes of the tree, each router after its neighbors. -/
def postorder : Node → List Node
  | .router info ns => postorderAll ns ++ [.router info ns]
  | .host h => [.host h]

def postorderAll : List Node → List Node
  | [] => []
  | n :: ns => postorder n ++ postorderAll ns

end

end Node

/-- Collects the nodes in the order in which a walk visits them, last first. -/
def Visitor.collect (order : Order) : Visitor (List Node) where
  order _ := order
  router r s := r :: s
  host h s := h :: s

/-- The nodes of a tree in the order of a walk. -/
def Router.visited (order : Order) (r : Router) : List Node :=
  (r.walk (.collect order) []).reverse

end Overlay
