import Mathlib
import Overlay.Proofs.Placement.Scan

/-!
Which cable carries which neighbor entry. The wiring gives every entry, by ascending router and in
stored order, the next cable of its kind; what a router gets from a wire are the ports of the cable
that are on its side. The wires are determined by their entries and by the order of the cables
(`Wire.assign_eq`).
-/

namespace Overlay

/-- A cable of the switch. -/
inductive Cable
  | loop (l : Loop)
  | hostLink (l : HostLink)
deriving DecidableEq

namespace Cable

/-- The kind of neighbor that the cable leads to. -/
def kind : Cable → Kind
  | .loop _ => .router
  | .hostLink _ => .host

/-- The port on the side of the router whose entry the cable carries. -/
def near : Cable → Port
  | .loop l => l.near
  | .hostLink l => l.port

/-- The port on the side of the neighbor, if that is a router. -/
def far? : Cable → Option Port
  | .loop l => some l.far
  | .hostLink _ => none

def loop? : Cable → Option Loop
  | .loop l => some l
  | .hostLink _ => none

def hostLink? : Cable → Option HostLink
  | .loop _ => none
  | .hostLink l => some l

end Cable

namespace Cabling

/-- The cables that lead to neighbors of a kind, in the order in which they are used up. -/
def cables (c : Cabling) : Kind → List Cable
  | .router => c.loops.map .loop
  | .host => c.hostLinks.map .hostLink

/-- The cabling with one more cable in front. -/
def push (x : Cable) (c : Cabling) : Cabling :=
  match x with
  | .loop l => { c with loops := l :: c.loops }
  | .hostLink l => { c with hostLinks := l :: c.hostLinks }

theorem cables_push (x : Cable) (c : Cabling) (k : Kind) :
    (c.push x).cables k = if x.kind = k then x :: c.cables k else c.cables k := by
  cases x <;> cases k <;> rfl

/-- There is no cable left for neighbors of a kind, or one of them is in front. -/
theorem cables_eq_nil_or_push (c : Cabling) (k : Kind) :
    c.cables k = [] ∨ ∃ x more, x.kind = k ∧ c = push x more := by
  obtain ⟨loops, links⟩ := c
  cases k with
  | router =>
    rcases loops with _ | ⟨l, loops⟩
    · exact .inl rfl
    · exact .inr ⟨.loop l, ⟨loops, links⟩, rfl, rfl⟩
  | host =>
    rcases links with _ | ⟨l, links⟩
    · exact .inl rfl
    · exact .inr ⟨.hostLink l, ⟨loops, links⟩, rfl, rfl⟩

end Cabling

/-- A neighbor entry with the cable that carries it. -/
structure Wire where
  router : NodeId
  neighbor : NeighborRef
  cable : Cable
  kind_eq : neighbor.kind = cable.kind
deriving DecidableEq

namespace Wire

def edge (w : Wire) : NodeId × NeighborRef :=
  (w.router, w.neighbor)

/-- The ports that a router gets from a wire, in order. -/
def portsAt (id : NodeId) (w : Wire) : List Port :=
  (if w.router = id then [w.cable.near] else []) ++
    if w.neighbor.id = id then w.cable.far?.toList else []

/-- Gives every entry the next cable of its kind, until there is none. -/
def assign (loops : List Loop) (links : List HostLink) : List (NodeId × NeighborRef) → List Wire
  | [] => []
  | (id, n) :: es =>
    match h : n.kind with
    | .router =>
      match loops with
      | [] => []
      | l :: loops => ⟨id, n, .loop l, h⟩ :: assign loops links es
    | .host =>
      match links with
      | [] => []
      | l :: links => ⟨id, n, .hostLink l, h⟩ :: assign loops links es

/-- The cables of a kind that wires use. -/
def cables (k : Kind) (ws : List Wire) : List Cable :=
  (ws.map (·.cable)).filter fun x => x.kind = k

/-- The cabling with the cables of wires in front. -/
def inFrontOf (c : Cabling) (ws : List Wire) : Cabling :=
  ws.foldr (fun w => Cabling.push w.cable) c

theorem inFrontOf_concat (c : Cabling) (ws : List Wire) (w : Wire) :
    inFrontOf c (ws ++ [w]) = inFrontOf (c.push w.cable) ws :=
  List.foldr_append

theorem cables_inFrontOf (c : Cabling) (ws : List Wire) (k : Kind) :
    (inFrontOf c ws).cables k = cables k ws ++ c.cables k := by
  induction ws with
  | nil => rfl
  | cons w ws ih =>
    change ((inFrontOf c ws).push w.cable).cables k = _
    rw [Cabling.cables_push, ih, cables, cables, List.map_cons]
    by_cases hk : w.cable.kind = k <;> simp [hk]

/-- Wires use one cable of a kind for every entry that leads to a neighbor of this kind. -/
theorem length_cables (k : Kind) (ws : List Wire) :
    (cables k ws).length = (ws.map edge).countP fun e => e.2.kind = k := by
  rw [cables, ← List.countP_eq_length_filter, List.countP_map, List.countP_map]
  exact List.countP_congr fun w _ => by simp [edge, w.kind_eq]

/-- The wires are determined by their entries and by the order of the cables. -/
theorem assign_eq (ws : List Wire) (c : Cabling) :
    assign (inFrontOf c ws).loops (inFrontOf c ws).hostLinks (ws.map edge) = ws := by
  induction ws with
  | nil => rfl
  | cons w ws ih =>
    obtain ⟨id, n, cable, hk⟩ := w
    rw [List.map_cons, edge]
    cases cable with
    | loop l =>
      change assign (l :: (inFrontOf c ws).loops) (inFrontOf c ws).hostLinks _ = _
      unfold assign
      split
      · exact congrArg _ ih
      · exact absurd (hk.symm.trans ‹_›) (by simp [Cable.kind])
    | hostLink l =>
      change assign (inFrontOf c ws).loops (l :: (inFrontOf c ws).hostLinks) _ = _
      unfold assign
      split
      · exact absurd (hk.symm.trans ‹_›) (by simp [Cable.kind])
      · exact congrArg _ ih

end Wire

/-- The wires for the entries among some steps, on the cables of `c`. -/
def Cabling.wires (c : Cabling) (steps : List ScanStep) : List Wire :=
  Wire.assign c.loops c.hostLinks (edgesIn steps)

/-- The wires for all entries of a snapshot. -/
def Snapshot.wiring (s : Snapshot) (c : Cabling) : List Wire :=
  Wire.assign c.loops c.hostLinks s.edges

theorem Snapshot.wires_scan (s : Snapshot) (c : Cabling) : c.wires s.scan = s.wiring c := by
  rw [Cabling.wires, edgesIn_scan]
  rfl

/-- Wires that carry the entries of some steps and use up the cables from the front are those that
the wiring gives them. -/
theorem Cabling.wires_eq {c more : Cabling} {steps : List ScanStep} {ws : List Wire}
    (hedges : ws.map Wire.edge = edgesIn steps) (hc : c = Wire.inFrontOf more ws) :
    c.wires steps = ws := by
  rw [wires, ← hedges, hc, Wire.assign_eq]

end Overlay
