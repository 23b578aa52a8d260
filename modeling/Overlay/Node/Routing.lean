import Overlay.Node.Walk

/-!
Routing tables. Tables are filled from the leaves up: a router takes over every subnet that a
neighbor reaches and adds the neighbor's own network, all on the neighbor's position. Nothing is
routed towards the parent.
-/

namespace Overlay

open Ipv4 (Net)

/-- The routes of a router, given that the tables of its neighbors are complete. -/
def Router.downstream (r : Router) : List Route :=
  r.egressNeighbors.flatMap fun (egress, n) =>
    n.table.map (fun route => ⟨egress, route.subnet⟩) ++ [⟨egress, n.uplink⟩]

/-- Appends to the table of every router, neighbors first, and counts the routers. -/
def Editor.synthesize : Editor Nat where
  order _ := .post
  router r count := ({ r with info.table := r.info.table ++ r.downstream }, count + 1)
  host h count := (h, count)

namespace Node

mutual

/-- The networks of all nodes of the tree, each router before its neighbors. -/
def subnets : Node → List Net
  | .router info ns => info.uplink :: subnetsAll ns
  | .host h => [h.uplink]

def subnetsAll : List Node → List Net
  | [] => []
  | n :: ns => subnets n ++ subnetsAll ns

end

mutual

/-- The node with number `id` strictly below `n`: each neighbor is looked at before its subtree. -/
def below? (id : NodeId) : Node → Option Node
  | .router _ ns => belowAll? id ns
  | .host _ => none

def belowAll? (id : NodeId) : List Node → Option Node
  | [] => none
  | n :: ns => if n.id = id then some n else below? id n <|> belowAll? id ns

end

end Node

end Overlay
