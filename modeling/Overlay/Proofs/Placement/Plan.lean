import Mathlib
import Overlay.Placement.Plan
import Overlay.Proofs.Placement.Safety
import Overlay.Proofs.Snapshot.Document

/-!
The documents of plans. What is written for a list of instructions reads back as it
(`Plan.parse?_render`); the reader keeps the fields of an instruction until it knows its kind, so
they have to be storable, and all that is written is. A plan holds the ports and the routes of every
router (`Plan.portsOf_plan`, `Plan.routesOf_plan`), so its text determines both
(`Snapshot.plan_determines`).
-/

namespace Overlay

open Json

/-! ## Storable values -/

namespace Json

namespace Magnitude

theorem le_ofDigitChars (cs : List Char) (n : Nat) : n ≤ Nat.ofDigitChars 10 cs n := by
  induction cs generalizing n with
  | nil => exact Nat.le_refl n
  | cons c cs ih =>
    rw [Nat.ofDigitChars_cons]
    have := ih (10 * n + (c.toNat - '0'.toNat))
    omega

/-- All digits are taken if their number fits. -/
theorem takeDigits_of_lt {cs : List Char} {n : Nat}
    (h : Nat.ofDigitChars 10 cs n < UInt64.size) :
    takeDigits n cs = (Nat.ofDigitChars 10 cs n, []) := by
  induction cs generalizing n with
  | nil => rfl
  | cons c cs ih =>
    rw [Nat.ofDigitChars_cons, Nat.mul_comm] at h ⊢
    have hle := le_ofDigitChars cs (n * 10 + (c.toNat - '0'.toNat))
    rw [takeDigits, if_pos (by omega), ih h]

/-- Of a plain decimal there is neither a point nor an exponent. -/
theorem scaled_render {n : Nat} (h : n < UInt64.size) : scaled (Decimal.render n) = ⟨n, 0, 0⟩ := by
  have hdigits : ∀ c ∈ Decimal.render n, c.isDigit = true := fun c => Decimal.isDigit_of_mem_render
  have hplain : ∀ d : Char, d.isDigit = false → ∀ c ∈ Decimal.render n, c ≠ d := by
    rintro d hd c hc rfl
    exact Ipv4.not_mem_render_of_not_isDigit hd n hc
  have hsign : (Decimal.render n).dropWhile (· == '-') = Decimal.render n := by
    rw [List.dropWhile_eq_self_iff]
    intro hpos
    simpa using hplain '-' rfl _ (List.getElem_mem hpos)
  have hmark : ∀ c ∈ Decimal.render n, (!(c == 'e' || c == 'E')) = true := fun c hc => by
    simp [hplain 'e' rfl c hc, hplain 'E' rfl c hc]
  -- There is no sign to drop and no mark to stop at, so all characters go into the number.
  have hvalue : Nat.ofDigitChars 10 (Decimal.render n) 0 = n :=
    Nat.ofDigitChars_toDigits (by decide) (by decide)
  have htake := takeDigits_of_lt (hvalue.symm ▸ h)
  rw [hvalue] at htake
  simp only [scaled, hsign, List.takeWhile_eq_self_iff.2 hmark, List.dropWhile_eq_nil_iff.2 hmark,
    List.takeWhile_eq_self_iff.2 hdigits, List.dropWhile_eq_nil_iff.2 hdigits, htake]
  rfl

theorem isFinite_render {n : Nat} (h : n < UInt64.size) : isFinite (Decimal.render n) = true := by
  rw [isFinite, scaled_render h]
  simp [Scaled.isFinite]

end Magnitude

@[simp]
theorem isStorable_ofNat (levels : Nat) (n : UInt32) :
    (ofNat n.toNat).isStorable levels = true := by
  have hlt : n.toNat < UInt32.size := n.toNat_lt
  rw [ofNat, isStorable, Magnitude.isFinite_render (Nat.lt_trans hlt (by decide))]

@[simp]
theorem isStorable_ofChars (levels : Nat) (cs : List Char) :
    (ofChars cs).isStorable levels = true := by
  rw [ofChars, isStorable, Text.decode?_encode, Option.isSome_some]

end Json

@[simp]
theorem Ipv4.Net.isStorable_toJson (levels : Nat) (n : Net) : n.toJson.isStorable levels = true :=
  isStorable_ofChars levels _

@[simp]
theorem Mac.isStorable_toJson (levels : Nat) (m : Mac) : m.toJson.isStorable levels = true :=
  isStorable_ofChars levels _

/-! ## Instructions -/

namespace Instruction

theorem legible_toJson (i : Instruction) : i.toJson.Legible := by
  cases i <;> exact legible_record
    (by simp [ofString, legible_ofChars, legible_ofNat, Ipv4.Net.legible_toJson,
      Mac.legible_toJson])

/-- A record is read as what its kind makes of the values of its fields, if all can be kept. -/
theorem ofJson?_record {fields : List (String × Json)} {kind : String} {names : List String}
    {values : List Json} (hkind : field? ["table"] fields = some (some (.ofString kind)))
    (hstorable : ∀ f ∈ fields, f.1 = "table" ∨ f.2.isStorable storableLevels = true)
    (hnames : fieldNames kind = some names)
    (hvalues : (names.mapM fun name => (field? [name] fields).join) = some values) :
    ofJson? (record fields) = ofFields? kind values := by
  have hall : (fields.all fun f => f.1 = "table" || f.2.isStorable storableLevels) = true := by
    simpa using hstorable
  rw [record, ofJson?, fields?_encode]
  simp [hkind, hall, hnames, hvalues]

theorem ofJson?_toJson (i : Instruction) : ofJson? i.toJson = some i := by
  cases i with
  | portMapping ingress router =>
    rw [toJson, ofJson?_record rfl (by simp) rfl rfl]
    simp [ofFields?]
  | route router destination mac egress =>
    rw [toJson, ofJson?_record rfl (by simp) rfl rfl]
    simp [ofFields?]

end Instruction

namespace Plan

theorem legible_toJson (plan : List Instruction) : (toJson plan).Legible :=
  legible_array_map Instruction.legible_toJson plan

theorem ofJson?_toJson (plan : List Instruction) : ofJson? (toJson plan) = some plan :=
  list?_array_map Instruction.ofJson?_toJson plan

theorem writtenAs_render (plan : List Instruction) :
    (toJson plan).WrittenAs (render plan).toList :=
  (legible_toJson plan).writtenAs_pretty

theorem parse?_render (plan : List Instruction) : parse? (render plan) = some plan := by
  rw [parse?, (writtenAs_render plan).ofString?_eq, Option.bind_eq_bind, Option.bind_some,
    ofJson?_toJson]

/-- Different plans have different texts. -/
theorem render_injective : Function.Injective render := by
  intro plan plan' h
  have hread := parse?_render plan
  rw [h, parse?_render] at hread
  exact (Option.some.inj hread).symm

end Plan

/-! ## The mapping that a plan amounts to -/

namespace Instruction

/-- The port that the instruction maps. -/
def port? : Instruction → Option Port
  | .portMapping ingress _ => some ingress
  | .route .. => none

/-- The route that the instruction installs. -/
def portRoute? : Instruction → Option PortRoute
  | .portMapping .. => none
  | .route _ destination mac egress => some ⟨destination, egress, mac⟩

end Instruction

namespace Plan

/-- The ports that the plan maps to a router, in order. -/
def portsOf (plan : List Instruction) (r : NodeId) : List Port :=
  (plan.filter fun i => i.router = r).filterMap Instruction.port?

/-- The routes that the plan installs for a router, in order. -/
def routesOf (plan : List Instruction) (r : NodeId) : List PortRoute :=
  (plan.filter fun i => i.router = r).filterMap Instruction.portRoute?

end Plan

namespace Placement

variable {p : Placement}

/-- What is picked from the instructions for a router is picked from its ports and its routes. -/
theorem filterMap_instructionsOf {β : Type} (f : Instruction → Option β) (p : Placement)
    (r : NodeId) (ports : List Port) :
    (p.instructionsOf r ports).filterMap f =
      (ports.filterMap fun port => f (.portMapping port r)) ++
        (p.routesOf r).filterMap fun q => f (.route r q.subnet q.mac q.port) := by
  rw [instructionsOf, List.filterMap_append, List.filterMap_map, List.filterMap_map]
  rfl

theorem portsOf_plan (hkeys : p.routes.keys = p.ports.keys) (r : NodeId) :
    Plan.portsOf p.plan r = p.portsOf r := by
  rw [Plan.portsOf, filter_plan hkeys, filterMap_instructionsOf]
  simp [Instruction.port?]

theorem routesOf_plan (hkeys : p.routes.keys = p.ports.keys) (r : NodeId) :
    Plan.routesOf p.plan r = p.routesOf r := by
  rw [Plan.routesOf, filter_plan hkeys, filterMap_instructionsOf]
  simp [Instruction.portRoute?]

/-- A router has the ports and the routes that the plan holds for it. -/
theorem get?_of_mem_keys (hkeys : p.routes.keys = p.ports.keys) {r : NodeId}
    (hr : r ∈ p.ports.keys) :
    p.ports.get? r = some (Plan.portsOf p.plan r) ∧
      p.routes.get? r = some (Plan.routesOf p.plan r) := by
  obtain ⟨ports, hports⟩ := KeyedMap.mem_keys_iff.1 hr
  obtain ⟨routes, hroutes⟩ := KeyedMap.mem_keys_iff.1 (hkeys.symm ▸ hr)
  rw [portsOf_plan hkeys, routesOf_plan hkeys, portsOf, routesOf, hports, hroutes]
  exact ⟨rfl, rfl⟩

/-- Placements of the same routers with one plan have the same ports and routes. -/
theorem eq_of_plan_eq {p' : Placement} (hkeys : p.routes.keys = p.ports.keys)
    (hkeys' : p'.routes.keys = p'.ports.keys) (hrouters : p'.ports.keys = p.ports.keys)
    (hplan : p'.plan = p.plan) : p'.ports = p.ports ∧ p'.routes = p.routes := by
  have hget : ∀ r, p'.ports.get? r = p.ports.get? r ∧ p'.routes.get? r = p.routes.get? r := by
    intro r
    by_cases hr : r ∈ p.ports.keys
    · obtain ⟨hports, hroutes⟩ := get?_of_mem_keys hkeys hr
      obtain ⟨hports', hroutes'⟩ := get?_of_mem_keys hkeys' (hrouters.symm ▸ hr)
      rw [hports, hroutes, hports', hroutes', hplan]
      exact ⟨rfl, rfl⟩
    · rw [KeyedMap.get?_eq_none_iff.2 hr, KeyedMap.get?_eq_none_iff.2 (hrouters ▸ hr),
        KeyedMap.get?_eq_none_iff.2 (hkeys'.trans hrouters ▸ hr),
        KeyedMap.get?_eq_none_iff.2 (hkeys ▸ hr)]
      exact ⟨rfl, rfl⟩
  exact ⟨KeyedMap.ext_get? fun r => (hget r).1, KeyedMap.ext_get? fun r => (hget r).2⟩

end Placement

namespace Snapshot

variable {s : Snapshot} {c : Cabling} {o : PlacementOptions} {p : Placement}
  {ws : List PlacementWarning}

/-- The text of a plan determines the mapping. What is written for a list of instructions reads
back as it. A recording deployment keeps the plan; read back from its text and filtered by router,
this gives the ports and the routes of every router in order. So placements of the same routers
with one text of their plans have the same ports and routes. -/
theorem plan_determines (h : s.place c o = .ok (p, ws)) :
    (∀ plan, (Plan.toJson plan).WrittenAs (Plan.render plan).toList ∧
      Plan.parse? (Plan.render plan) = some plan) ∧
    p.deploy .recording [] = (.ok (), p.plan) ∧
    (∃ plan, Plan.parse? (Plan.render p.plan) = some plan ∧
      p.ports.keys = s.routers.keys ∧ p.routes.keys = s.routers.keys ∧
      ∀ r ∈ s.routers.keys,
        p.ports.get? r = some (Plan.portsOf plan r) ∧
        p.routes.get? r = some (Plan.routesOf plan r)) ∧
    ∀ s' c' o' p' ws', Snapshot.place s' c' o' = .ok (p', ws') →
      s'.routers.keys = s.routers.keys → Plan.render p'.plan = Plan.render p.plan →
      p'.ports = p.ports ∧ p'.routes = p.routes := by
  have hports := ports_keys_of_place h
  have hroutes := routes_keys_of_place h
  have hkeys := hroutes.trans hports.symm
  refine ⟨fun plan => ⟨Plan.writtenAs_render plan, Plan.parse?_render plan⟩,
    Placement.deploy_of_accepts (Sink.recording_accepts [] p.plan),
    ⟨p.plan, Plan.parse?_render p.plan, hports, hroutes, fun r hr =>
      Placement.get?_of_mem_keys hkeys (hports.symm ▸ hr)⟩, ?_⟩
  intro s' c' o' p' ws' h' hrouters htext
  have hports' := ports_keys_of_place h'
  exact Placement.eq_of_plan_eq hkeys ((routes_keys_of_place h').trans hports'.symm)
    (hports'.trans (hrouters.trans hports.symm)) (Plan.render_injective htext)

/-- The text of the plan for two routers gives back the ports and routes of both. -/
theorem plan_determines_forked :
    ∃ p ws, forked.place pairCabling ⟨AddressPlan.standard.space, .firstPort⟩ = .ok (p, ws) ∧
      ∃ plan, Plan.parse? (Plan.render p.plan) = some plan ∧
        ∀ r ∈ [1, 2], p.ports.get? r = some (Plan.portsOf plan r) ∧
          p.routes.get? r = some (Plan.routesOf plan r) := by
  obtain ⟨p, ws, h⟩ := exists_place_of_checked (c := pairCabling)
    (o := ⟨AddressPlan.standard.space, .firstPort⟩) checked_forked (by decide) (by decide)
    (by decide)
  obtain ⟨-, -, ⟨plan, hplan, -, -, hget⟩, -⟩ := plan_determines h
  have hrouters : forked.routers.keys = [1, 2] := by decide
  exact ⟨p, ws, h, plan, hplan, hrouters ▸ hget⟩

end Snapshot

end Overlay
