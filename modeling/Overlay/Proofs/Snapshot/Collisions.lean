import Mathlib
import Overlay.Proofs.AddressPlan
import Overlay.Proofs.Snapshot.OfTree

/-!
Snapshots of trees in which numbers collide. Recording a node adds a record or reports a collision,
so records and collisions together account for all nodes (`size_add_length_collisions`). If no
collision is reported, then no two routers have the same number and no two hosts have; a number
that a router shares with a host is refused by the checks. So a tree whose numbers are not distinct
is noticed in one way or the other, wherever in the tree they collide (`distinct_iff_unnoticed`).
-/

namespace Overlay

open AddressPlan (standardSubnet)

namespace Node

/-- The node stands in the list, and no node of its kind after it has its number. -/
def LastIn (ns : List Node) (n : Node) : Prop :=
  ∃ before after, ns = before ++ n :: after ∧ ∀ m ∈ after, m.kind = n.kind → m.id ≠ n.id

end Node

namespace Snapshot

/-! ## Numbers of records and collisions -/

/-- There is a record more or a collision more. -/
theorem size_visit_recorder (n : Node) (d : Draft) :
    (Draft.recorder.visit n d).snapshot.size + (Draft.recorder.visit n d).collisions.length =
      d.snapshot.size + d.collisions.length + 1 := by
  cases n with
  | router info ns =>
    have hinsert := d.snapshot.routers.size_insert_add_length info.id (Router.record ⟨info, ns⟩)
      (⟨.router, info.id⟩ : Collision) d.collisions
    refine (Nat.add_right_comm _ _ _).trans
      ((congrArg (· + d.snapshot.hosts.size) hinsert).trans ?_)
    rw [size]
    omega
  | host h =>
    have hinsert := d.snapshot.hosts.size_insert_add_length h.id h.record
      (⟨.host, h.id⟩ : Collision) d.collisions
    refine (Nat.add_assoc _ _ _).trans ((congrArg (d.snapshot.routers.size + ·) hinsert).trans ?_)
    rw [size]
    omega

theorem size_foldl_recorder (ns : List Node) (d : Draft) :
    (ns.foldl (fun d n => Draft.recorder.visit n d) d).snapshot.size +
        (ns.foldl (fun d n => Draft.recorder.visit n d) d).collisions.length =
      d.snapshot.size + d.collisions.length + ns.length := by
  induction ns generalizing d with
  | nil => rfl
  | cons n ns ih =>
    have hstep := size_visit_recorder n d
    rw [List.foldl_cons, ih, List.length_cons]
    omega

/-- Records and collisions together account for all nodes. -/
theorem size_add_length_collisions (root : Router) :
    (ofTree root).size + (collisions root).length = root.toNode.preorder.length := by
  rw [ofTree, collisions, List.length_reverse, draft, Router.walk,
    Node.walk_eq_foldl_preorder fun _ => rfl, size_foldl_recorder]
  exact Nat.zero_add _

/-! ## Records that are kept -/

/-- What is recorded for a number is the last node of the kind with this number. -/
theorem get?_ofList_filterMap_iff {ν : Type} {f : Node → Option (NodeId × ν)} {k : Kind}
    (hf : ∀ n id, (f n).any (fun e => e.1 = id) = decide (n.kind = k ∧ n.id = id))
    {ns : List Node} {id : NodeId} {v : ν} :
    (KeyedMap.ofList (ns.filterMap f)).get? id = some v ↔
      ∃ n, n.LastIn ns ∧ f n = some (id, v) := by
  rw [KeyedMap.get?_ofList, ← List.filterMap_reverse, List.find?_filterMap, Option.map_eq_some_iff]
  simp only [hf, Option.bind_eq_some_iff, Lists.find?_reverse_eq_some_iff, decide_eq_true_eq,
    decide_eq_false_iff_not]
  constructor
  · rintro ⟨e, ⟨n, ⟨⟨rfl, rfl⟩, before, after, rfl, hafter⟩, hfn⟩, rfl⟩
    have hid : e.1 = n.id := by simpa [hfn] using hf n n.id
    refine ⟨n, ⟨before, after, rfl, fun m hm hk hid => hafter m hm ⟨hk, hid⟩⟩, ?_⟩
    rw [hfn, ← hid]
  · rintro ⟨n, ⟨before, after, rfl, hafter⟩, hfn⟩
    obtain ⟨rfl, rfl⟩ : n.kind = k ∧ n.id = id := by simpa [hfn] using hf n id
    exact ⟨_, ⟨n, ⟨⟨rfl, rfl⟩, before, after, rfl,
      fun m hm hsame => hafter m hm hsame.1 hsame.2⟩, hfn⟩, rfl⟩

theorem get?_routers_iff_lastIn {root : Router} {id : NodeId} {r : RouterRecord} :
    (ofTree root).routers.get? id = some r ↔
      ∃ x : Router, x.toNode.LastIn root.toNode.preorder ∧ x.info.id = id ∧ x.record = r := by
  rw [ofTree_eq, get?_ofList_filterMap_iff (k := .router)]
  · exact Node.exists_routerEntry?_iff
  · intro n id
    cases n <;> simp [Node.routerEntry?, Node.kind, Node.id]

theorem get?_hosts_iff_lastIn {root : Router} {id : NodeId} {r : HostRecord} :
    (ofTree root).hosts.get? id = some r ↔
      ∃ h, (Node.host h).LastIn root.toNode.preorder ∧ h.id = id ∧ h.record = r := by
  rw [ofTree_eq, get?_ofList_filterMap_iff (k := .host)]
  · exact Node.exists_hostEntry?_iff
  · intro n id
    cases n <;> simp [Node.hostEntry?, Node.kind, Node.id]

/-! ## Distinct numbers -/

/-- No collision is reported if no two routers have the same number and no two hosts have. -/
theorem collisions_eq_nil_iff {root : Router} :
    collisions root = [] ↔ ((root.toNode.preorder.filterMap Node.routerEntry?).map (·.1)).Nodup ∧
      ((root.toNode.preorder.filterMap Node.hostEntry?).map (·.1)).Nodup := by
  -- Each table has as many records as entries at most, so none is missing only if both have all.
  have hall := size_add_length_collisions root
  have hnodes := (Node.map_id_perm root.toNode.preorder).length_eq
  have hrouters := KeyedMap.size_ofList_le (root.toNode.preorder.filterMap Node.routerEntry?)
  have hhosts := KeyedMap.size_ofList_le (root.toNode.preorder.filterMap Node.hostEntry?)
  rw [ofTree_eq, size] at hall
  rw [List.length_append, List.length_map, List.length_map, List.length_map] at hnodes
  rw [← KeyedMap.size_ofList_eq_iff, ← KeyedMap.size_ofList_eq_iff, ← List.length_eq_zero_iff]
  dsimp only at hall
  omega

/-- The numbers of a tree are distinct if no collision is reported and no router's number is that of
a host. -/
theorem distinct_iff {root : Router} :
    root.toNode.Distinct ↔ collisions root = [] ∧
      ∀ id, (ofTree root).routers.contains id = true → ¬(ofTree root).hosts.contains id = true := by
  rw [Node.Distinct, (Node.map_id_perm _).nodup_iff, List.nodup_append', collisions_eq_nil_iff,
    ofTree_eq, and_assoc]
  simp only [KeyedMap.contains_ofList_iff]
  rfl

theorem collisions_eq_nil {root : Router} (hd : root.toNode.Distinct) : collisions root = [] :=
  (distinct_iff.1 hd).1

/-- Numbers are distinct exactly if nothing is noticed. -/
theorem distinct_iff_unnoticed {root : Router} :
    root.toNode.Distinct ↔ collisions root = [] ∧ ∃ id, (ofTree root).validate = .ok id := by
  constructor
  · intro hd
    exact ⟨collisions_eq_nil hd, _, validate_ofTree hd⟩
  · rintro ⟨hnone, id, hid⟩
    exact distinct_iff.2 ⟨hnone, (validate_eq_ok_iff_checked.1 hid).disjoint⟩

/-- Colliding numbers never go unnoticed. Records and collisions together account for all nodes, and
of nodes of one kind with one number the last one is kept. Numbers are distinct exactly if no
collision is reported and the snapshot passes the checks. So if nothing is noticed, then all nodes
have their records. -/
theorem collisions_noticed (root : Router) :
    (ofTree root).size + (collisions root).length = root.toNode.preorder.length ∧
    (∀ id r, (ofTree root).routers.get? id = some r ↔
      ∃ x : Router, x.toNode.LastIn root.toNode.preorder ∧ x.info.id = id ∧ x.record = r) ∧
    (∀ id r, (ofTree root).hosts.get? id = some r ↔
      ∃ h, (Node.host h).LastIn root.toNode.preorder ∧ h.id = id ∧ h.record = r) ∧
    (root.toNode.Distinct ↔ collisions root = [] ∧ ∃ id, (ofTree root).validate = .ok id) ∧
    (collisions root = [] → ∀ id, (ofTree root).validate = .ok id →
      id = root.info.id ∧
      (∀ x : Router, x.toNode ∈ root.toNode.preorder →
        (ofTree root).routers.get? x.info.id = some x.record) ∧
      ∀ h, .host h ∈ root.toNode.preorder → (ofTree root).hosts.get? h.id = some h.record) := by
  refine ⟨size_add_length_collisions root, fun _ _ => get?_routers_iff_lastIn,
    fun _ _ => get?_hosts_iff_lastIn, distinct_iff_unnoticed, fun hnone id hid => ?_⟩
  have hd := distinct_iff_unnoticed.2 ⟨hnone, id, hid⟩
  rw [validate_ofTree hd, Except.ok.injEq] at hid
  exact ⟨hid.symm, fun x hx => (get?_routers_ofTree hd).2 ⟨x, hx, rfl, rfl⟩,
    fun h hh => (get?_hosts_ofTree hd).2 ⟨h, hh, rfl, rfl⟩⟩

/-- Router 1 above router 2 above another router 1. -/
def folded : Router :=
  let bottom : Router := ⟨⟨1, "bottom", standardSubnet 2, []⟩, []⟩
  let middle : Router := ⟨⟨2, "middle", standardSubnet 1, []⟩, [bottom.toNode]⟩
  ⟨⟨1, "top", standardSubnet 0, []⟩, [middle.toNode]⟩

/-- What is left of `folded` looks like a tree with root 2; only the collision tells. -/
example : (ofTree folded).root = .ok 2 ∧ (ofTree folded).edges = [(2, ⟨1, 1, .router⟩)] ∧
    collisions folded = [⟨.router, 1⟩] := by
  decide

end Snapshot

end Overlay
