import Mathlib
import Overlay.Proofs.Placement.CatchAll

/-!
The hosts at the host links. Each wire to a host is a use of the name of its link, and a name may be
used more than once: the last use of a name counts, and each use but the first is warned about.
`Hosted` is the invariant: the hosts and these warnings are those of the uses so far. The uses pair
the names of the first host links, one for each host, with the hosts in the order of their entries
(`Snapshot.names_uses`, `Snapshot.records_uses`), which determines both (`Snapshot.hosts_of_place`).
-/

namespace Overlay

/-! ## Uses of host links -/

/-- The warning is that a host link is used once more. -/
def PlacementWarning.isSharing : PlacementWarning → Bool
  | .sharedHostLink .. => true
  | .noPorts _ => false

/-- A use of a host link: its name, and the host that is connected to it. -/
abbrev LinkUse :=
  String × HostRecord

namespace LinkUse

/-- The warning about a use behind earlier ones, if one of them was by the same name: the last of
these gives the previous host. -/
def sharing (earlier : List LinkUse) (u : LinkUse) : List PlacementWarning :=
  match earlier.reverse.find? fun v => v.1 = u.1 with
  | some previous => [.sharedHostLink u.1 previous.2.name u.2.name]
  | none => []

/-- The warnings about all uses, in order. -/
def sharings (uses : List LinkUse) : List PlacementWarning :=
  uses.zipIdx.flatMap fun x => sharing (uses.take x.2) x.1

theorem sharings_concat (uses : List LinkUse) (u : LinkUse) :
    sharings (uses ++ [u]) = sharings uses ++ sharing uses u := by
  have hearlier : ∀ x ∈ uses.zipIdx, sharing ((uses ++ [u]).take x.2) x.1 =
      sharing (uses.take x.2) x.1 := by
    intro x hx
    rw [List.take_append_of_le_length (List.snd_lt_of_mem_zipIdx hx).le]
  rw [sharings, List.zipIdx_append, List.flatMap_append, List.flatMap_congr hearlier, Nat.zero_add,
    List.zipIdx_singleton, List.flatMap_singleton, List.take_left]
  rfl

/-- The previous host is the one that the map of the earlier uses has. -/
theorem sharing_eq (earlier : List LinkUse) (u : LinkUse) :
    sharing earlier u =
      match (KeyedMap.ofList earlier).get? u.1 with
      | some previous => [.sharedHostLink u.1 previous.name u.2.name]
      | none => [] := by
  unfold sharing
  rw [KeyedMap.get?_ofList]
  cases earlier.reverse.find? fun v => v.1 = u.1 <;> rfl

/-- Every use is the first by its name or is warned about. -/
theorem length_sharings (uses : List LinkUse) :
    (sharings uses).length + (uses.map (·.1)).dedup.length = uses.length := by
  rw [← (KeyedMap.keys_ofList_perm uses).length_eq, KeyedMap.length_keys]
  induction uses using List.reverseRecOn with
  | nil => rfl
  | append_singleton uses u ih =>
    rw [sharings_concat, sharing_eq, KeyedMap.ofList_concat, KeyedMap.size_insert,
      KeyedMap.contains, List.length_append, List.length_append, List.length_singleton, ← ih]
    rcases (KeyedMap.ofList uses).get? u.1 with _ | host
    · rfl
    · exact Nat.add_right_comm ..

end LinkUse

namespace Wire

variable {s : Snapshot}

/-- The use of a host link by a wire to a host. -/
def use? (s : Snapshot) (w : Wire) : Option LinkUse :=
  match w.cable with
  | .loop _ => none
  | .hostLink l => (s.hosts.get? w.neighbor.id).map fun host => (l.hostname, host)

theorem use?_hostLink {id : NodeId} {n : NeighborRef} {l : HostLink}
    (hk : n.kind = (Cable.hostLink l).kind) {host : HostRecord}
    (hhost : s.hosts.get? n.id = some host) :
    use? s ⟨id, n, .hostLink l, hk⟩ = some (l.hostname, host) :=
  congrArg (Option.map fun host => (l.hostname, host)) hhost

/-- The uses pair the names of the links with the hosts of the entries. -/
theorem map_uses {ws : List Wire} (h : ∀ w ∈ ws, w.neighbor.kind = .host →
    ∃ host, s.hosts.get? w.neighbor.id = some host) :
    (ws.filterMap (use? s)).map (·.1) =
        ((cables .host ws).filterMap Cable.hostLink?).map (·.hostname) ∧
      (ws.filterMap (use? s)).map (fun u => some u.2) =
        ((ws.map edge).filter fun e => e.2.kind = .host).map fun e => s.hosts.get? e.2.id := by
  induction ws with
  | nil => exact ⟨rfl, rfl⟩
  | cons w ws ih =>
    obtain ⟨hnames, hrecords⟩ := ih fun v hv => h v (List.mem_cons_of_mem _ hv)
    obtain ⟨id, n, l | l, hk⟩ := w
    · rw [List.filterMap_cons_none rfl, List.map_cons,
        List.filter_cons_of_neg (by simp [edge, hk, Cable.kind])]
      exact ⟨hnames, hrecords⟩
    · obtain ⟨host, hhost⟩ := h _ List.mem_cons_self hk
      rw [List.filterMap_cons_some (use?_hostLink hk hhost), List.map_cons, List.map_cons,
        List.map_cons, List.filter_cons_of_pos (by simp [edge, hk, Cable.kind]), List.map_cons,
        hrecords]
      exact ⟨congrArg _ hnames, congrArg (· :: _) hhost.symm⟩

end Wire

/-! ## The invariant -/

namespace PlacementState

/-- The hosts, and the warnings about links used once more, are those of the uses so far. -/
structure Hosted (uses : List LinkUse) (st : PlacementState) : Prop where
  hosts : st.placement.hosts = .ofList uses
  warnings : st.warnings.filter PlacementWarning.isSharing = LinkUse.sharings uses

variable {s : Snapshot} {c : Cabling} {o : PlacementOptions} {root : NodeId}
  {uses : List LinkUse} {before : List ScanStep} {st st' : PlacementState} {x : ScanStep}

theorem hosted_start (s : Snapshot) (c : Cabling) (root : NodeId) :
    Hosted [] (s.startState c root) :=
  ⟨rfl, rfl⟩

/-- The map has the host that a warning about the next use would name. -/
theorem Hosted.sharing_eq (h : Hosted uses st) (hostname : String) (host : HostRecord) :
    (st.placement.sharing hostname host).filter PlacementWarning.isSharing =
      LinkUse.sharing uses (hostname, host) := by
  rw [Placement.sharing, h.hosts, LinkUse.sharing_eq]
  cases (KeyedMap.ofList uses).get? hostname <;> rfl

/-- A step for a host link is one more use, the other ones are none. -/
theorem Hosted.advance (h : Hosted ((c.wires before).filterMap (Wire.use? s)) st)
    (hl : Laid s c root before st) (ha : st.Advances s o x st') :
    Hosted ((c.wires (before ++ [x])).filterMap (Wire.use? s)) st' := by
  cases ha with
  | uplink =>
    rw [wires_concat_of_none rfl]
    exact h
  | @loop id r n l more hk hcable =>
    have hw := hl.wires_concat (x := .edge id r n) (w := ⟨id, n, .loop l, hk⟩) rfl hcable
    rw [hw, List.filterMap_append, List.filterMap_cons_none rfl, List.filterMap_nil,
      List.append_nil]
    exact ⟨h.hosts, h.warnings⟩
  | @hostLink id r n l more host hk hcable hhost =>
    have hw := hl.wires_concat (x := .edge id r n) (w := ⟨id, n, .hostLink l, hk⟩) rfl hcable
    rw [hw, List.filterMap_append, List.filterMap_cons_some (Wire.use?_hostLink hk hhost),
      List.filterMap_nil]
    refine ⟨?_, ?_⟩
    · rw [KeyedMap.ofList_concat, ← h.hosts]
      rfl
    · rw [List.filter_append, h.warnings, h.sharing_eq, LinkUse.sharings_concat]
  | @catchAll id =>
    rw [wires_concat_of_none rfl]
    refine ⟨?_, ?_⟩
    · rw [← h.hosts]
      unfold addCatchAll
      split
      · rfl
      · split <;> rfl
    · rw [← h.warnings]
      unfold addCatchAll
      split
      · rfl
      · split
        · rfl
        · rw [List.filter_append]
          exact List.append_nil _

end PlacementState

/-! ## The hosts of a placement -/

namespace Snapshot

open AddressPlan (standardSubnet)

variable {s : Snapshot} {c : Cabling} {o : PlacementOptions} {p : Placement}
  {ws : List PlacementWarning}

/-- The uses of host links, in the order of the entries. -/
def uses (s : Snapshot) (c : Cabling) : List LinkUse :=
  (s.wiring c).filterMap (Wire.use? s)

section

variable (h : s.place c o = .ok (p, ws))

include h

theorem hosted_of_place :
    p.hosts = .ofList (s.uses c) ∧
      ws.filter PlacementWarning.isSharing = LinkUse.sharings (s.uses c) := by
  obtain ⟨root, st, -, -, hst, rfl, rfl⟩ := place_induction h
    (I := fun _ steps st => PlacementState.Hosted ((c.wires steps).filterMap (Wire.use? s)) st)
    (PlacementState.hosted_start s c)
    (fun _ _ _ _ _ _ _ hl hst ha => hst.advance hl ha)
  rw [wires_scan] at hst
  exact ⟨hst.hosts, hst.warnings⟩

/-- The uses are by the names of the first host links. -/
theorem names_uses : (s.uses c).map (·.1) = (c.hostLinks.take s.hosts.size).map (·.hostname) := by
  obtain ⟨root, st, hv, hl, -, -⟩ := laid_of_place h
  rw [uses, (Wire.map_uses fun w hw => exists_host_of_wire h hw).1,
    hl.cables_wiring, (validate_eq_ok_iff_checked.1 hv).length_edgesTo_host, Cabling.cables,
    ← List.map_take, List.filterMap_map]
  exact congrArg _ List.filterMap_some

/-- The uses are by the hosts in the order of the entries that name them. -/
theorem records_uses :
    (s.uses c).map (fun u => some u.2) = (s.edgesTo .host).map fun e => s.hosts.get? e.2.id := by
  rw [uses, (Wire.map_uses fun w hw => exists_host_of_wire h hw).2, map_edge_wiring h]
  rfl

theorem length_uses : (s.uses c).length = s.hosts.size := by
  obtain ⟨root, -, hv, -, -, -⟩ := laid_of_place h
  rw [← (validate_eq_ok_iff_checked.1 hv).length_edgesTo_host,
    ← List.length_map (fun u => some u.2), records_uses h, List.length_map]

theorem mem_keys_hosts_iff {k : String} :
    k ∈ p.hosts.keys ↔ k ∈ (c.hostLinks.take s.hosts.size).map (·.hostname) := by
  rw [← names_uses h, (hosted_of_place h).1, ← KeyedMap.contains_iff_mem_keys,
    KeyedMap.contains_ofList_iff]

/-- The last use of a name counts. -/
theorem get?_hosts_of_last {before after : List LinkUse} {u : LinkUse}
    (hsplit : s.uses c = before ++ u :: after) (hlast : u.1 ∉ after.map (·.1)) :
    p.hosts.get? u.1 = some u.2 := by
  have hfind : (s.uses c).reverse.find? (fun v => v.1 = u.1) = some u := by
    rw [Lists.find?_reverse_eq_some_iff]
    refine ⟨decide_eq_true rfl, before, after, hsplit, fun v hv => decide_eq_false fun heq => ?_⟩
    exact hlast (heq ▸ List.mem_map_of_mem hv)
  rw [(hosted_of_place h).1, KeyedMap.get?_ofList, hfind, Option.map_some]

/-- If the names of the links in use are distinct, each of them has a host of its own. -/
theorem exists_bijOn_hosts (hnodup : ((c.hostLinks.take s.hosts.size).map (·.hostname)).Nodup) :
    ∃ host : String → NodeId,
      Set.BijOn host {k | k ∈ p.hosts.keys} {id | id ∈ s.hosts.keys} ∧
      ∀ k ∈ p.hosts.keys, p.hosts.get? k = s.hosts.get? (host k) := by
  obtain ⟨root, -, hv, -, -, -⟩ := laid_of_place h
  have hperm := (validate_eq_ok_iff_checked.1 hv).perm_targets_host
  have hnames := names_uses h
  have hlen : ((c.hostLinks.take s.hosts.size).map (·.hostname)).length =
      ((s.edgesTo .host).map (·.2.id)).length := by
    rw [← hnames, List.length_map, length_uses h, hperm.length_eq, KeyedMap.length_keys]
  -- The name of a link corresponds to the node that the entry in its place names.
  obtain ⟨host, hhost, hbij⟩ := Lists.exists_bijOn hlen hnodup
    (hperm.nodup_iff.2 s.hosts.keys_nodup)
  have hkeys : {k | k ∈ p.hosts.keys} =
      {k | k ∈ (c.hostLinks.take s.hosts.size).map (·.hostname)} :=
    Set.ext fun k => mem_keys_hosts_iff h
  have hids : {id | id ∈ s.hosts.keys} = {id | id ∈ (s.edgesTo .host).map (·.2.id)} :=
    Set.ext fun id => hperm.mem_iff.symm
  have hrecords : ∀ u ∈ s.uses c, s.hosts.get? (host u.1) = some u.2 := by
    rw [← List.map_inj_left, records_uses h]
    have := congrArg (List.map s.hosts.get?) hhost
    rwa [← hnames, List.map_map, List.map_map, List.map_map] at this
  refine ⟨host, hkeys ▸ hids ▸ hbij, fun k hk => ?_⟩
  rw [mem_keys_hosts_iff h, ← hnames] at hk
  obtain ⟨u, hu, rfl⟩ := List.mem_map.1 hk
  have hget : p.hosts.get? u.1 = some u.2 := by
    rw [(hosted_of_place h).1, KeyedMap.get?_ofList_iff (hnames ▸ hnodup)]
    exact hu
  rw [hget, hrecords u hu]

/-- The hosts of a placement that succeeds. The host links in use, one for each host, pair their
names with the hosts in the order of the entries. Each of these names has the host that it is used
for last. Each use but the first by its name is warned about, with the host before it and the new
one, so the warnings and the distinct names are as many as the hosts. If no name is there twice,
the names correspond one to one to the hosts of the snapshot. -/
theorem hosts_of_place :
    (s.uses c).map (·.1) = (c.hostLinks.take s.hosts.size).map (·.hostname) ∧
    (s.uses c).map (fun u => some u.2) = (s.edgesTo .host).map (fun e => s.hosts.get? e.2.id) ∧
    (s.uses c).length = s.hosts.size ∧
    (∀ k, k ∈ p.hosts.keys ↔ k ∈ (c.hostLinks.take s.hosts.size).map (·.hostname)) ∧
    (∀ before u after, s.uses c = before ++ u :: after → u.1 ∉ after.map (·.1) →
      p.hosts.get? u.1 = some u.2) ∧
    ws.filter PlacementWarning.isSharing = LinkUse.sharings (s.uses c) ∧
    (ws.filter PlacementWarning.isSharing).length +
      ((c.hostLinks.take s.hosts.size).map (·.hostname)).dedup.length = s.hosts.size ∧
    (((c.hostLinks.take s.hosts.size).map (·.hostname)).Nodup →
      ∃ host : String → NodeId,
        Set.BijOn host {k | k ∈ p.hosts.keys} {id | id ∈ s.hosts.keys} ∧
        ∀ k ∈ p.hosts.keys, p.hosts.get? k = s.hosts.get? (host k)) := by
  obtain ⟨-, hwarnings⟩ := hosted_of_place h
  refine ⟨names_uses h, records_uses h, length_uses h, fun k => mem_keys_hosts_iff h,
    fun before u after => get?_hosts_of_last h, hwarnings, ?_, exists_bijOn_hosts h⟩
  rw [hwarnings, ← names_uses h, ← length_uses h, LinkUse.length_sharings]

end

/-- Four hosts below one router. -/
def star : Snapshot where
  routers := .ofList [(1, ⟨"hub", standardSubnet 0,
    [⟨1, 4, .host⟩, ⟨2, 2, .host⟩, ⟨3, 5, .host⟩, ⟨4, 3, .host⟩], []⟩)]
  hosts := .ofList [
    (2, ⟨"two", standardSubnet 2, .ofHost 2⟩), (3, ⟨"three", standardSubnet 3, .ofHost 3⟩),
    (4, ⟨"four", standardSubnet 4, .ofHost 4⟩), (5, ⟨"five", standardSubnet 5, .ofHost 5⟩)]

theorem checked_star : star.Checked 1 where
  disjoint := disjoint_of_find?_eq_none (by decide)
  known := by decide
  nodup := by decide
  roots := by decide
  reached k id hk := by
    have hrouters : star.routers.keys = [1] := by decide
    have hhosts : star.hosts.keys = [2, 3, 4, 5] := by decide
    cases k with
    | router =>
      rw [has_router_iff, KeyedMap.contains_iff_mem_keys, hrouters, List.mem_singleton] at hk
      subst hk
      exact ⟨[], .nil 1⟩
    | host =>
      rw [has_host_iff, KeyedMap.contains_iff_mem_keys, hhosts] at hk
      simp only [List.mem_cons, List.not_mem_nil, or_false] at hk
      rcases hk with rfl | rfl | rfl | rfl
      · exact ⟨[1], .cons rfl (.nil 2)⟩
      · exact ⟨[3], .cons rfl (.nil 3)⟩
      · exact ⟨[0], .cons rfl (.nil 4)⟩
      · exact ⟨[2], .cons rfl (.nil 5)⟩

/-- Host links of which three are by one name. -/
def sharedCabling : Cabling :=
  ⟨[], [⟨"a", 10⟩, ⟨"b", 11⟩, ⟨"a", 12⟩, ⟨"a", 13⟩, ⟨"c", 14⟩]⟩

/-- Of the three hosts at one name the last remains, and the other two are warned about. -/
theorem hosts_of_place_star :
    ∃ p ws, star.place sharedCabling ⟨AddressPlan.standard.space, .absent⟩ = .ok (p, ws) ∧
      (∀ k, k ∈ p.hosts.keys ↔ k ∈ ["a", "b", "a", "a"]) ∧
      p.hosts.get? "a" = some ⟨"three", standardSubnet 3, .ofHost 3⟩ ∧
      p.hosts.get? "b" = some ⟨"two", standardSubnet 2, .ofHost 2⟩ ∧
      ws.filter PlacementWarning.isSharing =
        [.sharedHostLink "a" "four" "five", .sharedHostLink "a" "five" "three"] := by
  obtain ⟨p, ws, h⟩ := exists_place_of_checked (c := sharedCabling)
    (o := ⟨AddressPlan.standard.space, .absent⟩) checked_star (by decide) (by decide) (by decide)
  obtain ⟨-, -, -, hkeys, hlast, hwarnings, -, -⟩ := hosts_of_place h
  have hsize : star.hosts.size = 4 := by decide
  have huses : star.uses sharedCabling = [
      ("a", ⟨"four", standardSubnet 4, .ofHost 4⟩), ("b", ⟨"two", standardSubnet 2, .ofHost 2⟩),
      ("a", ⟨"five", standardSubnet 5, .ofHost 5⟩),
      ("a", ⟨"three", standardSubnet 3, .ofHost 3⟩)] := by
    decide
  rw [huses] at hlast hwarnings
  rw [hsize] at hkeys
  refine ⟨p, ws, h, hkeys, hlast [_, _, _] ("a", _) [] rfl (by decide),
    hlast [_] ("b", _) [_, _] rfl (by decide), ?_⟩
  rw [hwarnings]
  decide

end Snapshot

end Overlay
