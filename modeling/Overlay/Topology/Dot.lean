import Overlay.Topology.Basic

/-!
Drawings of a topology in the DOT language: an undirected graph with routers as boxes and one line
for every node and every edge, in the order of the walk.
-/

namespace Overlay

namespace Dot

/-- The label of a router: its name and its routing table, each route on a line of the drawing. -/
def label (r : RouterInfo) : String :=
  r.name ++ String.join (r.table.map fun route => s!"\\n({route.egress}, {route.subnet})")

/-- The line that draws a node. -/
def nodeLine (annotate : Bool) : Node → String
  | .router r _ =>
    if annotate then s!"{r.id}[shape=box label=\"{label r}\"]\n" else s!"{r.id}[shape=box]\n"
  | .host h => s!"{h.id}\n"

/-- The lines that draw the edges from a node to its neighbors. -/
def edgeLines : Node → String
  | .router r ns => String.join (ns.map fun n => s!"{r.id} -- {n.id}\n")
  | .host _ => ""

/-- The drawing of a tree, with routing tables if `annotate` is set. -/
def render (annotate : Bool) (root : Router) : String :=
  "graph graphname \x7b\n" ++
    String.join ((root.visited .pre).map fun n => nodeLine annotate n ++ edgeLines n) ++ "\x7d"

end Dot

end Overlay
