import Mathlib
import Overlay.Proofs.Ipv4
import Overlay.Proofs.Position
import Overlay.Proofs.Snapshot.Rebuild
import Overlay.Topology.Dot

/-!
A drawing determines the tree. It is a flat list of lines, without brackets or lengths, but the
edges of a router stand right behind its own line and no line of a node looks like an edge. So the
number of its neighbors can be counted off, and the lines fall apart into the drawings of the
neighbors in one way only (`Node.drawn_append_inj`). The line of a node tells its number and kind
and, with a label, its table (`Dot.nodeLine_eq_iff`, `Dot.labelledLine_eq_iff`).
-/

namespace Overlay

open AddressPlan (standardSubnet)

/-! ## Lines -/

theorem toList_toString_word (n : UInt32) : (toString n).toList = Decimal.render n.toNat :=
  Nat.toList_repr

theorem toList_toString_net (n : Ipv4.Net) : (toString n).toList = n.render :=
  String.toList_ofList

namespace Dot

/-- The first line of a drawing. -/
def opening : List Char :=
  "graph graphname \x7b".toList

/-- The last line of a drawing. -/
def closing : List Char :=
  ['\x7d']

/-- A route as a label has it, up to the closing bracket. -/
def routeText (route : Route) : List Char :=
  "\\n(".toList ++ Decimal.render route.egress.toNat ++ ", ".toList ++ route.subnet.render

/-- What stands behind the number of a router on its line. -/
def box (annotate : Bool) (r : RouterInfo) : List Char :=
  if annotate then "[shape=box label=\"".toList ++ (label r).toList ++ "\"]".toList
  else "[shape=box]".toList

/-- What stands behind the number of a node on its line. -/
def mark (annotate : Bool) : Node → List Char
  | .router r _ => box annotate r
  | .host _ => []

/-- The line of a node. -/
def firstLine (annotate : Bool) (n : Node) : List Char :=
  Decimal.render n.id.toNat ++ mark annotate n

/-- The line of an edge. -/
def edgeLine (router neighbor : NodeId) : List Char :=
  Decimal.render router.toNat ++ " -- ".toList ++ Decimal.render neighbor.toNat

/-- The lines that belong to a node: its own, then one for each neighbor. -/
def block (annotate : Bool) (n : Node) : List (List Char) :=
  firstLine annotate n :: n.neighbors.map fun m => edgeLine n.id m.id

theorem toList_label (r : RouterInfo) :
    (label r).toList = r.name.toList ++ r.table.flatMap fun route => routeText route ++ [')'] := by
  simp only [label, String.toList_append, String.toList_join, List.flatMap_map,
    toList_toString_word, toList_toString_net]
  rfl

theorem toList_nodeLine (annotate : Bool) (n : Node) :
    (nodeLine annotate n).toList = firstLine annotate n ++ ['\n'] := by
  cases n with
  | router r ns =>
    cases annotate with
    | true =>
      rw [nodeLine, if_pos rfl, firstLine, mark, box, if_pos rfl]
      simp only [String.toList_append, toList_toString_word, List.append_assoc]
      rfl
    | false =>
      rw [nodeLine, if_neg Bool.false_ne_true, firstLine, mark, box, if_neg Bool.false_ne_true]
      simp only [String.toList_append, toList_toString_word, List.append_assoc]
      rfl
  | host h =>
    simp only [nodeLine, firstLine, mark, String.toList_append, toList_toString_word,
      List.append_nil]
    rfl

theorem toList_edgeLines (n : Node) :
    (edgeLines n).toList =
      (n.neighbors.map fun m => edgeLine n.id m.id).flatMap fun line => line ++ ['\n'] := by
  cases n with
  | router r ns =>
    simp only [edgeLines, String.toList_join, List.flatMap_map, String.toList_append,
      toList_toString_word]
    rfl
  | host h => rfl

end Dot

/-! ## What a line tells -/

/-- Digits end in front of anything else. -/
theorem Decimal.render_append_inj {m n : Nat} {xs ys : List Char}
    (hxs : ∀ c ∈ xs.head?, c.isDigit = false) (hys : ∀ c ∈ ys.head?, c.isDigit = false)
    (h : render m ++ xs = render n ++ ys) : m = n ∧ xs = ys := by
  obtain ⟨hdigits, hrest⟩ := Lists.append_inj_of_takeWhile (fun _ => isDigit_of_mem_render)
    (fun _ => isDigit_of_mem_render) hxs hys h
  exact ⟨render_injective hdigits, hrest⟩

/-- The name of a router that comes from an allocator follows from its number. -/
theorem Node.Allocated.name_eq {info : RouterInfo} {ns : List Node}
    (h : (Node.router info ns).Allocated) : info.name = s!"vRouter-{info.id}" := by
  obtain ⟨a, a', r, hr, hinfo⟩ := h
  obtain ⟨got, -, rfl⟩ := Allocator.router_eq_ok hr
  rw [hinfo]
  rfl

namespace Dot

variable {annotate : Bool} {m n : Node}

theorem routeText_injective : Function.Injective routeText := by
  intro r s h
  unfold routeText at h
  rw [List.append_assoc, List.append_assoc, List.append_assoc, List.append_assoc] at h
  obtain ⟨hegress, hsubnet⟩ := Decimal.render_append_inj (by simp) (by simp)
    (List.append_cancel_left h)
  have hnet := Ipv4.Net.render_injective (List.append_cancel_left hsubnet)
  obtain ⟨egress, subnet⟩ := r
  obtain rfl : egress = s.egress := UInt32.toNat_inj.1 hegress
  obtain rfl : subnet = s.subnet := hnet
  rfl

/-- Routes have only digits, dots, slashes, commas and blanks behind the opening bracket. -/
theorem not_mem_routeText {c : Char} (hdigit : c.isDigit = false)
    (hc : c ∉ "\\n(, ./".toList) (route : Route) : c ∉ routeText route := by
  simp only [String.reduceToList, List.mem_cons, not_or] at hc
  have hnet := route.subnet.not_mem_render hdigit (by tauto) (by tauto)
  have hegress := Ipv4.not_mem_render_of_not_isDigit hdigit route.egress.toNat
  simp [routeText, hnet, hegress]
  tauto

/-- The labels of routers of one name differ if their tables do. -/
theorem box_true_eq_iff {r s : RouterInfo} (hname : r.name = s.name) :
    box true r = box true s ↔ r.table = s.table := by
  constructor
  · intro h
    rw [box, box, if_pos rfl, if_pos rfl, toList_label, toList_label, hname] at h
    have hroutes := List.append_cancel_left (List.append_cancel_left (List.append_cancel_right h))
    -- Every route ends with a bracket and has no closing one before.
    have hparts := congrArg (List.splitOn ')') hroutes
    rw [← List.append_nil (r.table.flatMap _), ← List.append_nil (s.table.flatMap _),
      Lists.splitOn_flatMap fun route _ => not_mem_routeText rfl (by decide) route,
      Lists.splitOn_flatMap fun route _ => not_mem_routeText rfl (by decide) route] at hparts
    exact List.map_injective_iff.2 routeText_injective (List.append_cancel_right hparts)
  · intro h
    rw [box, box, if_pos rfl, if_pos rfl, toList_label, toList_label, hname, h]

theorem head?_box (r : RouterInfo) : (box annotate r).head? = some '[' := by
  cases annotate <;> rfl

theorem isDigit_head?_mark (n : Node) : ∀ c ∈ (mark annotate n).head?, c.isDigit = false := by
  cases n with
  | router r ns =>
    rw [mark, head?_box]
    rintro c ⟨⟩
    rfl
  | host h => simp [mark]

theorem firstLine_eq_iff :
    firstLine annotate m = firstLine annotate n ↔
      m.id = n.id ∧ mark annotate m = mark annotate n := by
  constructor
  · intro h
    obtain ⟨hid, hmark⟩ :=
      Decimal.render_append_inj (isDigit_head?_mark m) (isDigit_head?_mark n) h
    exact ⟨UInt32.toNat_inj.1 hid, hmark⟩
  · rintro ⟨hid, hmark⟩
    rw [firstLine, firstLine, hid, hmark]

/-- A line without label tells the number and the kind of its node. -/
theorem nodeLine_eq_iff :
    firstLine false m = firstLine false n ↔ (m.id, m.kind) = (n.id, n.kind) := by
  rw [firstLine_eq_iff, Prod.mk.injEq]
  cases m <;> cases n <;> simp [mark, box, Node.kind]

/-- A line with a label tells the table too. -/
theorem labelledLine_eq_iff (hm : m.Allocated) (hn : n.Allocated) :
    firstLine true m = firstLine true n ↔ (m.id, m.kind, m.table) = (n.id, n.kind, n.table) := by
  rw [firstLine_eq_iff, Prod.mk.injEq, Prod.mk.injEq]
  refine and_congr_right fun hid => ?_
  cases m with
  | router r ms =>
    cases n with
    | router s ns =>
      have hname : r.name = s.name := by
        rw [hm.name_eq, hn.name_eq, show r.id = s.id from hid]
      exact (box_true_eq_iff hname).trans (by simp [Node.kind, Node.table])
    | host h => simp [mark, box, Node.kind]
  | host g => cases n <;> simp [mark, box, Node.kind, Node.table]

/-! ## Lines that are no edges -/

/-- The line has a blank behind the number that it starts with. -/
def isEdge (line : List Char) : Bool :=
  (line.dropWhile Char.isDigit).head? = some ' '

theorem dropWhile_render_append (k : Nat) (cs : List Char) :
    (Decimal.render k ++ cs).dropWhile Char.isDigit = cs.dropWhile Char.isDigit :=
  List.dropWhile_append_of_pos fun _ => Decimal.isDigit_of_mem_render

theorem isEdge_edgeLine (router neighbor : NodeId) : isEdge (edgeLine router neighbor) = true := by
  rw [isEdge, edgeLine, List.append_assoc, dropWhile_render_append]
  rfl

theorem isEdge_firstLine (n : Node) : isEdge (firstLine annotate n) = false := by
  rw [isEdge, firstLine, dropWhile_render_append]
  cases n with
  | router r ns => cases annotate <;> rfl
  | host h => rfl

end Dot

/-! ## Trees from lines -/

namespace Node

variable {τ : Type} {annotate : Bool} {f : Node → τ} {m n : Node}

/-- All lines that belong to a tree, in the order of the walk. -/
def drawn (annotate : Bool) (n : Node) : List (List Char) :=
  n.preorder.flatMap (Dot.block annotate)

theorem drawn_eq (annotate : Bool) (n : Node) :
    n.drawn annotate = Dot.firstLine annotate n ::
      (n.neighbors.map (fun m => Dot.edgeLine n.id m.id) ++
        n.neighbors.flatMap (drawn annotate)) := by
  rw [drawn, preorder_eq_cons, List.flatMap_cons, List.flatMap_assoc]
  rfl

theorem head?_flatMap_drawn {ns : List Node} {xs : List (List Char)}
    (hxs : ∀ l ∈ xs.head?, Dot.isEdge l = false) :
    ∀ l ∈ (ns.flatMap (drawn annotate) ++ xs).head?, Dot.isEdge l = false := by
  rcases ns with _ | ⟨n, ns⟩
  · exact hxs
  · rw [List.flatMap_cons, drawn_eq]
    rintro l ⟨⟩
    exact Dot.isEdge_firstLine n

/-- As many trees as on the other side are told apart one after the other. -/
theorem forall₂_of_flatMap_drawn {R : Node → Node → Prop} {ms ns : List Node}
    (hlen : ms.length = ns.length)
    (htree : ∀ m ∈ ms, ∀ n ∈ ns, ∀ xs ys, (∀ l ∈ xs.head?, Dot.isEdge l = false) →
      (∀ l ∈ ys.head?, Dot.isEdge l = false) →
      m.drawn annotate ++ xs = n.drawn annotate ++ ys → R m n ∧ xs = ys)
    {xs ys : List (List Char)} (hxs : ∀ l ∈ xs.head?, Dot.isEdge l = false)
    (hys : ∀ l ∈ ys.head?, Dot.isEdge l = false)
    (h : ms.flatMap (drawn annotate) ++ xs = ns.flatMap (drawn annotate) ++ ys) :
    List.Forall₂ R ms ns ∧ xs = ys := by
  induction ms generalizing ns with
  | nil =>
    obtain rfl : ns = [] := List.length_eq_zero_iff.1 hlen.symm
    exact ⟨.nil, h⟩
  | cons m ms ih =>
    rcases ns with _ | ⟨n, ns⟩
    · cases hlen
    · rw [List.flatMap_cons, List.flatMap_cons, List.append_assoc, List.append_assoc] at h
      obtain ⟨hmn, h⟩ := htree m List.mem_cons_self n List.mem_cons_self _ _
        (head?_flatMap_drawn hxs) (head?_flatMap_drawn hys) h
      obtain ⟨hall, hrest⟩ := ih (Nat.succ.inj hlen) (fun k hk l hl =>
        htree k (List.mem_cons_of_mem _ hk) l (List.mem_cons_of_mem _ hl)) h
      exact ⟨.cons hmn hall, hrest⟩

/-- The drawing of a tree ends where it ends, whatever follows that is not an edge. -/
theorem drawn_append_inj
    (hf : ∀ m n : Node, m.Allocated → n.Allocated →
      Dot.firstLine annotate m = Dot.firstLine annotate n → f m = f n)
    (hm : ∀ l ∈ m.preorder, l.Allocated) (hn : ∀ l ∈ n.preorder, l.Allocated)
    {xs ys : List (List Char)} (hxs : ∀ l ∈ xs.head?, Dot.isEdge l = false)
    (hys : ∀ l ∈ ys.head?, Dot.isEdge l = false)
    (h : m.drawn annotate ++ xs = n.drawn annotate ++ ys) : Alike f m n ∧ xs = ys := by
  induction m using induct_neighbors generalizing n xs ys with
  | h m ih =>
    rw [drawn_eq, drawn_eq, List.cons_append, List.cons_append, List.append_assoc,
      List.append_assoc, List.cons.injEq] at h
    obtain ⟨hline, h⟩ := h
    -- Behind the line of the node stand its edges, and the next line is none of them.
    have hedge : ∀ k : Node, ∀ l ∈ k.neighbors.map fun d => Dot.edgeLine k.id d.id,
        Dot.isEdge l = true := by
      intro k l hl
      obtain ⟨d, -, rfl⟩ := List.mem_map.1 hl
      exact Dot.isEdge_edgeLine _ _
    obtain ⟨hedges, h⟩ := Lists.append_inj_of_takeWhile (hedge m) (hedge n)
      (head?_flatMap_drawn hxs) (head?_flatMap_drawn hys) h
    have hlen : m.neighbors.length = n.neighbors.length := by
      simpa using congrArg List.length hedges
    obtain ⟨hall, hrest⟩ := forall₂_of_flatMap_drawn hlen (fun k hk l hl xs ys hxs hys h =>
      ih k hk (fun d hd => hm d (mem_preorder_trans hd (mem_preorder_of_mem_neighbors hk)))
        (fun d hd => hn d (mem_preorder_trans hd (mem_preorder_of_mem_neighbors hl))) hxs hys h)
      hxs hys h
    have hroot := hf m n (hm m (mem_preorder_self m)) (hn n (mem_preorder_self n)) hline
    exact ⟨alike_iff.2 ⟨hroot, hall⟩, hrest⟩

/-- Trees that agree in what the lines tell have the same drawing. -/
theorem Alike.drawn_eq
    (hf : ∀ m n : Node, m.Allocated → n.Allocated → f m = f n →
      Dot.firstLine annotate m = Dot.firstLine annotate n)
    (hm : ∀ l ∈ m.preorder, l.Allocated) (hn : ∀ l ∈ n.preorder, l.Allocated)
    (h : Alike f m n) : m.drawn annotate = n.drawn annotate := by
  induction m using induct_neighbors generalizing n with
  | h m ih =>
    obtain ⟨hroot, hall⟩ := alike_iff.1 h
    have hline := hf m n (hm m (mem_preorder_self m)) (hn n (mem_preorder_self n)) hroot
    have hbelow : ∀ {k l d : Node}, k ∈ l.neighbors → d ∈ k.preorder → d ∈ l.preorder :=
      fun hk hd => mem_preorder_trans hd (mem_preorder_of_mem_neighbors hk)
    have hids : m.neighbors.map id = n.neighbors.map id := by
      refine Lists.map_eq_of_forall₂ hall fun k hk l hl hkl => ?_
      exact (Dot.firstLine_eq_iff.1 (hf k l (hm k (hbelow hk (mem_preorder_self k)))
        (hn l (hbelow hl (mem_preorder_self l))) (alike_iff.1 hkl).1)).1
    have hdrawn : m.neighbors.map (drawn annotate) = n.neighbors.map (drawn annotate) :=
      Lists.map_eq_of_forall₂ hall fun k hk l hl hkl =>
        ih k hk (fun d hd => hm d (hbelow hk hd)) (fun d hd => hn d (hbelow hl hd)) hkl
    have hedges := congrArg (List.map (Dot.edgeLine n.id)) hids
    rw [List.map_map, List.map_map] at hedges
    rw [Node.drawn_eq, Node.drawn_eq, hline, (Dot.firstLine_eq_iff.1 hline).1, List.flatMap_def,
      List.flatMap_def, hdrawn]
    exact congrArg (fun edges => _ :: (edges ++ _)) hedges

end Node

/-! ## The text -/

namespace Dot

variable {annotate : Bool} {a b : Router}

theorem toList_render (annotate : Bool) (root : Router) :
    (render annotate root).toList =
      ((opening :: root.toNode.drawn annotate).flatMap fun line => line ++ ['\n']) ++
        closing := by
  have hbody : (String.join (root.toNode.preorder.map fun n =>
      nodeLine annotate n ++ edgeLines n)).toList =
        (root.toNode.drawn annotate).flatMap fun line => line ++ ['\n'] := by
    rw [String.toList_join, List.flatMap_map, Node.drawn, List.flatMap_assoc]
    refine List.flatMap_congr fun n _ => ?_
    rw [String.toList_append, toList_nodeLine, toList_edgeLines, block, List.flatMap_cons]
  have hfirst : "graph graphname \x7b\n".toList = opening ++ ['\n'] := by
    decide
  unfold render
  rw [Router.visited_pre, String.toList_append, String.toList_append, hbody, hfirst,
    List.flatMap_cons]
  rfl

theorem newline_not_mem_firstLine {n : Node} (h : n.Allocated) : '\n' ∉ firstLine annotate n := by
  have hdecimal := fun k => Ipv4.not_mem_render_of_not_isDigit (c := '\n') rfl k
  cases n with
  | router r ns =>
    have hroutes := fun route => not_mem_routeText (c := '\n') rfl (by decide) route
    have hname : '\n' ∉ r.name.toList := by
      rw [h.name_eq, String.toList_append, toList_toString_word, List.mem_append, not_or]
      exact ⟨by decide, hdecimal _⟩
    cases annotate <;> simp [firstLine, mark, box, toList_label, hdecimal, hroutes, hname]
  | host h => simp [firstLine, mark, hdecimal]

theorem newline_not_mem_edgeLine (router neighbor : NodeId) :
    '\n' ∉ edgeLine router neighbor := by
  have hdecimal := fun k => Ipv4.not_mem_render_of_not_isDigit (c := '\n') rfl k
  simp [edgeLine, hdecimal]

/-- The lines of a drawing. -/
theorem splitOn_render (ha : ∀ n ∈ a.toNode.preorder, n.Allocated) :
    (render annotate a).toList.splitOn '\n' =
      opening :: a.toNode.drawn annotate ++ [closing] := by
  rw [toList_render, Lists.splitOn_flatMap (f := fun line => line), List.map_id']
  · rfl
  · rw [List.forall_mem_cons]
    refine ⟨by decide, fun line hline => ?_⟩
    obtain ⟨n, hn, hline⟩ := List.mem_flatMap.1 hline
    rcases List.mem_cons.1 hline with rfl | hline
    · exact newline_not_mem_firstLine (ha n hn)
    · obtain ⟨m, -, rfl⟩ := List.mem_map.1 hline
      exact newline_not_mem_edgeLine _ _

/-- The text tells what the lines of the nodes tell, at every position of the tree. -/
theorem render_eq_iff {τ : Type} {f : Node → τ}
    (hf : ∀ m n : Node, m.Allocated → n.Allocated →
      (firstLine annotate m = firstLine annotate n ↔ f m = f n))
    (ha : ∀ n ∈ a.toNode.preorder, n.Allocated) (hb : ∀ n ∈ b.toNode.preorder, n.Allocated) :
    render annotate a = render annotate b ↔ Node.Alike f a.toNode b.toNode := by
  constructor
  · intro h
    have hlines := congrArg (fun text => text.toList.splitOn '\n') h
    rw [splitOn_render ha, splitOn_render hb, List.cons_append, List.cons_append,
      List.cons.injEq] at hlines
    have hend : ∀ l ∈ [closing].head?, isEdge l = false := by
      rintro l ⟨⟩
      rfl
    exact (Node.drawn_append_inj (fun m n hm hn => (hf m n hm hn).1) ha hb hend hend hlines.2).1
  · intro h
    rw [← String.toList_inj, toList_render, toList_render,
      h.drawn_eq (fun m n hm hn => (hf m n hm hn).2) ha hb]

/-- The lines that a router's record stands for. -/
def recordBlock (annotate : Bool) (e : NodeId × RouterRecord) : List (List Char) :=
  (Decimal.render e.1.toNat ++ box annotate ⟨e.1, e.2.name, e.2.uplink, e.2.table⟩) ::
    e.2.neighbors.map fun n => edgeLine e.1 n.id

theorem block_router (info : RouterInfo) (ns : List Node) :
    block annotate (.router info ns) =
      recordBlock annotate (info.id, Router.record ⟨info, ns⟩) := by
  have hneighbors : (Router.record ⟨info, ns⟩).neighbors.map (fun n => edgeLine info.id n.id) =
      ns.map fun n => edgeLine info.id n.id := by
    rw [Node.neighbors_record, Node.refs, List.map_map]
    conv_rhs => rw [← List.zipIdx_map_fst 0 ns, List.map_map]
    rfl
  rw [recordBlock, hneighbors]
  rfl

/-- The drawing of a tree of allocated nodes determines the tree as far as it is drawn: numbers,
kinds and the order of neighbors at every position, and with labels the tables too. If numbers are
distinct, then between the first and the last line every record of the snapshot has its lines once:
a router its box and, right behind it, an edge for each of its entries in order, a host its number. -/
theorem render_determines (ha : ∀ n ∈ a.toNode.preorder, n.Allocated)
    (hb : ∀ n ∈ b.toNode.preorder, n.Allocated) :
    (render false a = render false b ↔
      Node.Alike (fun n => (n.id, n.kind)) a.toNode b.toNode) ∧
    (render true a = render true b ↔
      Node.Alike (fun n => (n.id, n.kind, n.table)) a.toNode b.toNode) ∧
    (a.toNode.Distinct → ∀ annotate, ∃ blocks : List (List (List Char)),
      (render annotate a).toList.splitOn '\n' = opening :: blocks.flatten ++ [closing] ∧
      blocks.Perm
        (((Snapshot.ofTree a).routers.entries.map fun (id, r) =>
          (Decimal.render id.toNat ++ box annotate ⟨id, r.name, r.uplink, r.table⟩) ::
            r.neighbors.map fun n => edgeLine id n.id) ++
          (Snapshot.ofTree a).hosts.entries.map fun (id, _) => [Decimal.render id.toNat])) := by
  refine ⟨render_eq_iff (fun m n _ _ => nodeLine_eq_iff) ha hb,
    render_eq_iff (fun m n hm hn => labelledLine_eq_iff hm hn) ha hb, fun hd annotate => ?_⟩
  refine ⟨a.toNode.preorder.map (block annotate), ?_, ?_⟩
  · rw [splitOn_render ha, Node.drawn, List.flatMap_def]
  · have hentries := Node.map_perm_entries (f := block annotate) (g := recordBlock annotate)
      (k := fun e => [Decimal.render e.1.toNat]) block_router
      (fun h => by simp [block, firstLine, mark, Node.neighbors, Node.id]) a.toNode.preorder
    exact hentries.trans (((Snapshot.routers_ofTree_perm hd).map _).append
      ((Snapshot.hosts_ofTree_perm hd).map _)).symm

/-- A router over a host, and beside it another host. -/
def beside : Router :=
  let below := (Router.ofNet 2 (standardSubnet 1)).link (.host (Host.ofNet 3 (standardSubnet 2)))
  ((Router.ofNet 1 (standardSubnet 0)).link below.toNode).link
    (.host (Host.ofNet 4 (standardSubnet 3)))

/-- The same nodes in the same order, but with both hosts under the lower router. -/
def beneath : Router :=
  let below := (Router.ofNet 2 (standardSubnet 1)).link (.host (Host.ofNet 3 (standardSubnet 2)))
  (Router.ofNet 1 (standardSubnet 0)).link
    (below.link (.host (Host.ofNet 4 (standardSubnet 3)))).toNode

theorem render_determines_beside :
    beside.toNode.preorder.map Node.id = beneath.toNode.preorder.map Node.id ∧
      render false beside ≠ render false beneath := by
  have hupper : ∀ ns, (Node.router (Router.ofNet 1 (standardSubnet 0)).info ns).Allocated :=
    fun _ => ⟨⟨1, .standard, by decide, 0, by decide⟩, _, _, rfl, rfl⟩
  have hlower : ∀ ns, (Node.router (Router.ofNet 2 (standardSubnet 1)).info ns).Allocated :=
    fun _ => ⟨⟨2, .standard, by decide, 1, by decide⟩, _, _, rfl, rfl⟩
  have hthird : (Node.host (Host.ofNet 3 (standardSubnet 2))).Allocated :=
    ⟨⟨3, .standard, by decide, 2, by decide⟩, _, rfl⟩
  have hfourth : (Node.host (Host.ofNet 4 (standardSubnet 3))).Allocated :=
    ⟨⟨4, .standard, by decide, 3, by decide⟩, _, rfl⟩
  have hbeside : ∀ n ∈ beside.toNode.preorder, n.Allocated :=
    List.forall_mem_cons.2 ⟨hupper _, List.forall_mem_cons.2 ⟨hlower _,
      List.forall_mem_cons.2 ⟨hthird, List.forall_mem_singleton.2 hfourth⟩⟩⟩
  have hbeneath : ∀ n ∈ beneath.toNode.preorder, n.Allocated :=
    List.forall_mem_cons.2 ⟨hupper _, List.forall_mem_cons.2 ⟨hlower _,
      List.forall_mem_cons.2 ⟨hthird, List.forall_mem_singleton.2 hfourth⟩⟩⟩
  refine ⟨rfl, fun h => ?_⟩
  have halike := (render_determines hbeside hbeneath).1.1 h
  exact absurd (halike [1]) (by decide)

end Dot

end Overlay
