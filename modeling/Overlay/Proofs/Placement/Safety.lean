import Mathlib
import Overlay.Proofs.Placement.CatchAll
import Overlay.Proofs.Placement.Deploy

/-!
Deployments that are cut off. Every route of a router goes through one of its own ports
(`Snapshot.port_mem_portsOf`), and a router's ports come before its routes, so at any point of the
plan each route stands behind the mapping of its port (`Snapshot.guarded_plan`).
-/

namespace Overlay

/-- Each route stands behind the mapping of its port to its router. -/
def Guarded (sent : List Instruction) : Prop :=
  ∀ before r net mac port after, sent = before ++ .route r net mac port :: after →
    .portMapping port r ∈ before

namespace Guarded

theorem nil : Guarded [] := by
  intro before r net mac port after h
  simp at h

/-- A beginning of a guarded list is guarded. -/
theorem of_isPrefix {sent plan : List Instruction} (h : Guarded plan) (hsent : sent <+: plan) :
    Guarded sent := by
  obtain ⟨rest, rfl⟩ := hsent
  rintro before r net mac port after rfl
  exact h before r net mac port (after ++ rest) (by simp)

theorem append {xs ys : List Instruction} (hx : Guarded xs) (hy : Guarded ys) :
    Guarded (xs ++ ys) := by
  intro before r net mac port after h
  rcases Lists.split_of_append_eq h with ⟨mid, rfl⟩ | ⟨mid, rfl, rfl⟩
  · exact hx before r net mac port mid rfl
  · exact List.mem_append_right _ (hy mid r net mac port after rfl)

theorem flatMap {α : Type} {f : α → List Instruction} {l : List α} (h : ∀ a ∈ l, Guarded (f a)) :
    Guarded (l.flatMap f) := by
  induction l with
  | nil => exact nil
  | cons a l ih =>
    rw [List.flatMap_cons]
    exact (h a List.mem_cons_self).append (ih fun b hb => h b (List.mem_cons_of_mem _ hb))

/-- The instructions for a router are guarded if its routes go through its ports. -/
theorem instructionsOf {p : Placement} {r : NodeId} {ports : List Port}
    (h : ∀ q ∈ p.routesOf r, q.port ∈ ports) : Guarded (p.instructionsOf r ports) := by
  intro before r' net mac port after hsplit
  rcases Lists.split_of_append_eq hsplit with ⟨mid, hports⟩ | ⟨mid, rfl, hroutes⟩
  · have hmem : .route r' net mac port ∈ ports.map fun port => Instruction.portMapping port r := by
      rw [hports]
      exact List.mem_append_right _ List.mem_cons_self
    obtain ⟨_, -, heq⟩ := List.mem_map.1 hmem
    cases heq
  · have hmem : .route r' net mac port ∈
        (p.routesOf r).map fun q => Instruction.route r q.subnet q.mac q.port := by
      rw [hroutes]
      exact List.mem_append_right _ List.mem_cons_self
    obtain ⟨q, hq, heq⟩ := List.mem_map.1 hmem
    cases heq
    exact List.mem_append_left _ (List.mem_map_of_mem (h q hq))

/-- Whatever is routed is mapped. -/
theorem mapped {sent : List Instruction} (h : Guarded sent) {r : NodeId} {net : Ipv4.Net}
    {mac : Mac} {port : Port} (hmem : .route r net mac port ∈ sent) :
    .portMapping port r ∈ sent := by
  obtain ⟨before, after, rfl⟩ := List.append_of_mem hmem
  exact List.mem_append_left _ (h before r net mac port after rfl)

end Guarded

/-! ## The plan by router -/

namespace Placement

theorem router_of_mem_instructionsOf {p : Placement} {r : NodeId} {ports : List Port}
    {i : Instruction} (h : i ∈ p.instructionsOf r ports) : i.router = r := by
  rcases List.mem_append.1 h with h | h
  · obtain ⟨_, -, rfl⟩ := List.mem_map.1 h
    rfl
  · obtain ⟨_, -, rfl⟩ := List.mem_map.1 h
    rfl

theorem routesOf_of_not_mem {p : Placement} {r : NodeId} (h : r ∉ p.routes.keys) :
    p.routesOf r = [] := by
  rw [routesOf, KeyedMap.get?_eq_none_iff.2 h, Option.getD_none]

theorem plan_eq_flatMap (p : Placement) :
    p.plan = p.ports.keys.flatMap fun r => p.instructionsOf r (p.portsOf r) := by
  rw [plan_eq_instructions, instructions, KeyedMap.keys, List.flatMap_map]
  refine List.flatMap_congr fun e he => ?_
  have hget : p.ports.get? e.1 = some e.2 := KeyedMap.get?_eq_some_iff.2 he
  rw [portsOf, hget, Option.getD_some]

/-- Routers come by ascending number. -/
theorem pairwise_plan (p : Placement) : p.plan.Pairwise fun i j => i.router ≤ j.router := by
  rw [plan_eq_flatMap, List.pairwise_flatMap]
  refine ⟨fun r _ => ?_, p.ports.keys_sorted.imp ?_⟩
  · refine List.pairwise_of_forall_mem_list fun i hi j hj => ?_
    rw [router_of_mem_instructionsOf hi, router_of_mem_instructionsOf hj]
    exact UInt32.le_refl r
  · intro q r hlt i hi j hj
    rw [router_of_mem_instructionsOf hi, router_of_mem_instructionsOf hj]
    exact UInt32.le_of_lt hlt

/-- The instructions about a router are its ports and its routes. -/
theorem filter_plan {p : Placement} (hkeys : p.routes.keys = p.ports.keys) (r : NodeId) :
    p.plan.filter (fun i => i.router = r) = p.instructionsOf r (p.portsOf r) := by
  rw [plan_eq_instructions, instructions,
    KeyedMap.filter_flatMap_entries fun e _ i hi => router_of_mem_instructionsOf hi, portsOf]
  rcases hget : p.ports.get? r with _ | ports
  · have hnone : p.routesOf r = [] := by
      apply routesOf_of_not_mem
      rwa [hkeys, ← KeyedMap.get?_eq_none_iff]
    simp [instructionsOf, hnone]
  · rfl

end Placement

/-! ## Routes through own ports -/

namespace Snapshot

open AddressPlan (standardSubnet)

variable {s : Snapshot} {c : Cabling} {o : PlacementOptions} {p : Placement}
  {ws : List PlacementWarning} (h : s.place c o = .ok (p, ws))

include h

theorem ports_keys_of_place : p.ports.keys = s.routers.keys := by
  obtain ⟨st, -, hl, -, rfl⟩ := routed_of_place h
  exact hl.ports_keys

/-- Every route of a router is through one of its ports. -/
theorem port_mem_portsOf {id : NodeId} {q : PortRoute} (hq : q ∈ p.routesOf id) :
    q.port ∈ p.portsOf id := by
  by_cases hid : s.routers.contains id = true
  · rw [routesOf_place h hid, List.mem_append] at hq
    rcases hq with hq | hq
    · rw [routesOn, List.mem_flatMap] at hq
      obtain ⟨w, hw, hq⟩ := hq
      obtain ⟨hwire, rfl⟩ := mem_wiresOf_iff.1 hw
      obtain ⟨net, rfl⟩ := Wire.exists_of_mem_routes hq
      exact near_mem_portsOf h hwire
    · obtain ⟨port, hport, rfl⟩ := PlacementOptions.exists_of_mem_catchAll hq
      exact hport
  · rw [KeyedMap.contains_iff_mem_keys, ← routes_keys_of_place h] at hid
    rw [Placement.routesOf_of_not_mem hid] at hq
    cases hq

theorem guarded_plan : Guarded p.plan := by
  rw [Placement.plan_eq_flatMap]
  exact .flatMap fun r _ => .instructionsOf fun q hq => port_mem_portsOf h hq

/-- A deployment is harmless wherever it is cut off. Routers come by ascending number, each with
its ports and then its routes. So a route in any beginning of the plan stands behind the mapping of
its port to its router, and so it does among the instructions that any sink has accepted. -/
theorem plan_safe :
    p.ports.keys = s.routers.keys ∧ p.routes.keys = s.routers.keys ∧
    s.routers.keys.Pairwise (· < ·) ∧
    (p.plan = s.routers.keys.flatMap fun r =>
      (p.portsOf r).map (fun port => .portMapping port r) ++
        (p.routesOf r).map fun q => .route r q.subnet q.mac q.port) ∧
    (∀ r, p.plan.filter (fun i => i.router = r) =
      (p.portsOf r).map (fun port => .portMapping port r) ++
        (p.routesOf r).map fun q => .route r q.subnet q.mac q.port) ∧
    (∀ sent, sent <+: p.plan →
      (sent.Pairwise fun i j => i.router ≤ j.router) ∧
      ∀ before r net mac port after, sent = before ++ .route r net mac port :: after →
        .portMapping port r ∈ before) ∧
    ∀ {σ ε : Type} (sink : Sink σ ε) (start : σ) (accepted : List Instruction),
      accepted <+: p.calls sink start → ∀ r net mac port, .route r net mac port ∈ accepted →
        .portMapping port r ∈ accepted := by
  have hports := ports_keys_of_place h
  have hroutes := routes_keys_of_place h
  have hguarded := guarded_plan h
  refine ⟨hports, hroutes, s.routers.keys_sorted, ?_, ?_, fun sent hsent => ⟨?_, ?_⟩, ?_⟩
  · rw [← hports]
    exact p.plan_eq_flatMap
  · exact Placement.filter_plan (hroutes.trans hports.symm)
  · exact p.pairwise_plan.sublist hsent.sublist
  · exact hguarded.of_isPrefix hsent
  · intro σ ε sink start accepted haccepted r net mac port hmem
    exact (hguarded.of_isPrefix (haccepted.trans (p.calls_isPrefix sink start))).mapped hmem

omit h in
/-- The plan for two routers. Whatever its budget, no sink is called with a route without its
port. -/
theorem plan_safe_forked :
    ∃ p ws, forked.place pairCabling ⟨AddressPlan.standard.space, .firstPort⟩ = .ok (p, ws) ∧
      p.plan = [
        .portMapping 10 1, .portMapping 20 1,
        .route 1 (standardSubnet 2) .nextHop 10, .route 1 (standardSubnet 1) .nextHop 10,
        .route 1 (standardSubnet 2) (.ofHost 0x0A000201) 20,
        .route 1 (standardSubnet 1) (.ofHost 0x0A000201) 20,
        .route 1 AddressPlan.standard.space .nextHop 10,
        .portMapping 11 2, .route 2 AddressPlan.standard.space .nextHop 11] ∧
      ∀ budget, ∀ r net mac port, .route r net mac port ∈ p.calls (.limited budget) [] →
        .portMapping port r ∈ p.calls (.limited budget) [] := by
  obtain ⟨p, ws, h⟩ := exists_place_of_checked (c := pairCabling)
    (o := ⟨AddressPlan.standard.space, .firstPort⟩) checked_forked (by decide) (by decide)
    (by decide)
  obtain ⟨-, -, -, hplan, -, -, hcalls⟩ := plan_safe h
  have hroot : p.root = 1 := by
    obtain ⟨st, hc, -⟩ := routed_of_place h
    exact Except.ok.inj ((validate_eq_ok_iff_checked.2 hc).symm.trans
      (validate_eq_ok_iff_checked.2 checked_forked))
  have hupper : forked.routers.contains 1 = true := by decide
  have hlower : forked.routers.contains 2 = true := by decide
  have hports1 : p.portsOf 1 = [10, 20] := by
    have hown := portsOf_root_of_place h
    rw [hroot] at hown
    rw [hown]
    decide
  have hports2 : p.portsOf 2 = [11] := by
    obtain ⟨w, hw, l, hid, hcable, hports, -⟩ :=
      exists_loop_of_ne_root h hlower (by rw [hroot]; decide)
    have hloop : ∀ w ∈ forked.wiring pairCabling, w.neighbor.id = 2 → w.cable = .loop ⟨10, 11⟩ := by
      decide
    obtain rfl := Cable.loop.inj (hcable.symm.trans (hloop w hw hid))
    rw [hports]
    decide
  have hkeys : forked.routers.keys = [1, 2] := by decide
  refine ⟨p, ws, h, ?_, fun budget => hcalls _ _ _ (List.prefix_refl _)⟩
  rw [hplan, hkeys, List.flatMap_cons, List.flatMap_singleton, routesOf_place h hupper,
    routesOf_place h hlower, hroot, hports1, hports2]
  decide

end Snapshot

end Overlay
