import Mathlib
import Overlay.Topology.Shape
import Overlay.Proofs.Topology.Construction

/-!
Generated topologies. Whatever the shape, each node is constructed before the nodes below it and
linked once (`Added`), so the tree is made of the nodes of one allocator and routers have smaller
numbers than what is below them (`Topology.added_of_generate`).
-/

namespace Overlay

/-! ## Parents first -/

namespace Node

/-- Every neighbor has a larger number than the router it is linked to, hosts included. -/
def ParentsFirst (n : Node) : Prop :=
  ∀ l ∈ n.preorder, ∀ m ∈ l.neighbors, l.id < m.id

theorem ParentsFirst.ascending {n : Node} (h : n.ParentsFirst) : n.Ascending :=
  fun l hl m hm _ => h l hl m hm

theorem parentsFirst_of_neighbors_eq_nil {n : Node} (h : n.neighbors = []) : n.ParentsFirst := by
  intro l hl m hm
  cases n with
  | router info ns =>
    obtain rfl : ns = [] := h
    rw [preorder_router, List.flatMap_nil, List.mem_singleton] at hl
    subst hl
    cases hm
  | host x =>
    rw [preorder_host, List.mem_singleton] at hl
    subst hl
    cases hm

theorem ParentsFirst.link {r : Router} {n : Node} (hr : r.toNode.ParentsFirst)
    (hn : n.ParentsFirst) (hlt : r.info.id < n.id) : (r.link n).toNode.ParentsFirst := by
  intro l hl m hm
  rw [Router.toNode, preorder_router, Router.link, List.mem_cons, List.flatMap_append,
    List.flatMap_singleton, List.mem_append] at hl
  rcases hl with rfl | hl | hl
  · rcases List.mem_append.1 hm with hm | hm
    · exact hr _ (mem_preorder_self _) m hm
    · rw [List.mem_singleton] at hm
      subst hm
      exact hlt
  · refine hr l ?_ m hm
    rw [Router.toNode, preorder_router]
    exact List.mem_cons_of_mem _ hl
  · exact hn l hl m hm

end Node

/-! ## What a computation adds -/

/-- From the state `a` to the state `a'` the tree `n` was made, its root first. -/
structure Added (p : AddressPlan) (a a' : Allocator) (ns : List Node) (n : Node) : Prop where
  built : Built p a' (n :: ns)
  lt : a.allocated < a'.allocated
  id_eq : n.id = .ofNat (a.allocated + 1)
  parentsFirst : a'.allocated < 2 ^ 32 → n.ParentsFirst

namespace Added

variable {p : AddressPlan} {a a₁ a₂ : Allocator} {ns : List Node} {r : Router} {n : Node}

/-- A router has a smaller number than what is constructed later. -/
theorem id_lt (hr : Added p a a₁ ns r.toNode) (hle : a₁.allocated ≤ a₂.allocated)
    (hlt : a₂.allocated < 2 ^ 32 - 1) (hn : n.id = .ofNat (a₂.allocated + 1)) :
    r.info.id < n.id := by
  have hid : r.info.id = .ofNat (a.allocated + 1) := hr.id_eq
  have hcount := hr.lt
  rw [hid, hn, UInt32.lt_iff_toNat_lt, UInt32.toNat_ofNat', UInt32.toNat_ofNat',
    Nat.mod_eq_of_lt (by omega), Nat.mod_eq_of_lt (by omega)]
  omega

theorem link (hr : Added p a a₁ ns r.toNode) (hn : Added p a₁ a₂ (r.toNode :: ns) n) :
    Added p a a₂ ns (r.link n).toNode where
  built := hn.built.link (List.Perm.swap _ _ _)
  lt := Nat.lt_trans hr.lt hn.lt
  id_eq := hr.id_eq
  parentsFirst hlt := by
    have hlt₁ := hn.lt
    exact (hr.parentsFirst (by omega)).link (hn.parentsFirst hlt)
      (hr.id_lt (Nat.le_refl _) (by omega) hn.id_eq)

theorem ascending (h : Added p a a₁ ns n) (hlt : a₁.allocated < 2 ^ 32) : n.Ascending :=
  (h.parentsFirst hlt).ascending

end Added

namespace Building

variable {α β : Type} {p : AddressPlan} {a a' a₁ : Allocator} {ns : List Node}

theorem bind_eq_ok_iff {b : Building α} {f : α → Building β} {y : β} :
    (b >>= f) a = (.ok y, a') ↔ ∃ x a₁, b a = (.ok x, a₁) ∧ f x a₁ = (.ok y, a') := by
  rw [Result.bind_apply]
  rcases b a with ⟨e | x, a₁⟩
  · constructor
    · intro h
      cases h
    · intro hex
      obtain ⟨x, a₂, h, -⟩ := hex
      cases h
  · constructor
    · exact fun h => ⟨x, a₁, rfl, h⟩
    · intro hex
      obtain ⟨x', a₂, h, hf⟩ := hex
      cases h
      exact hf

theorem bind_of_ok {b : Building α} {f : α → Building β} {x : α} (h : b a = (.ok x, a')) :
    (b >>= f) a = f x a' := by
  rw [Result.bind_apply, h]

theorem bind_of_error {b : Building α} {f : α → Building β} {e : TopologyError}
    (h : (b a).1 = .error e) : ((b >>= f) a).1 = .error e := by
  rw [Result.bind_apply]
  rcases hb : b a with ⟨d | x, a'⟩ <;> rw [hb] at h <;> cases h
  rfl

theorem bind_congr_left {b c : Building α} (f : α → Building β) (h : b a = c a) :
    (b >>= f) a = (c >>= f) a := by
  rw [Result.bind_apply, Result.bind_apply, h]

theorem pure_eq_ok_iff {x y : α} : (pure x : Building α) a = (.ok y, a') ↔ x = y ∧ a = a' := by
  change ((.ok x, a) : Except TopologyError α × Allocator) = _ ↔ _
  simp

theorem reset_eq_ok_iff {x : Unit} : reset a = (.ok x, a') ↔ a.reset = a' := by
  change ((.ok (), a.reset) : Except TopologyError Unit × Allocator) = _ ↔ _
  simp

/-- The computation makes one tree. -/
def Adds (p : AddressPlan) (b : Building Node) : Prop :=
  ∀ {a a' : Allocator} {ns : List Node} {n : Node}, Built p a ns → b a = (.ok n, a') →
    Added p a a' ns n

theorem added_router {r : Router} (h : Built p a ns) (hr : router a = (.ok r, a')) :
    Added p a a' ns r.toNode := by
  unfold router at hr
  rcases hgot : a.router with ⟨e | r', b⟩ <;> rw [hgot] at hr <;> cases hr
  obtain ⟨got, htake, rfl⟩ := Allocator.router_eq_ok hgot
  obtain ⟨rfl, -, -, hcount⟩ := Allocator.take_eq_ok htake
  exact ⟨h.router hgot, by omega, h.numbered.nextId,
    fun _ => Node.parentsFirst_of_neighbors_eq_nil rfl⟩

theorem added_host {x : Host} (h : Built p a ns) (hx : host a = (.ok x, a')) :
    Added p a a' ns (.host x) := by
  unfold host at hx
  rcases hgot : a.host with ⟨e | x', b⟩ <;> rw [hgot] at hx <;> cases hx
  obtain ⟨got, htake, rfl⟩ := Allocator.host_eq_ok hgot
  obtain ⟨rfl, -, -, hcount⟩ := Allocator.take_eq_ok htake
  exact ⟨h.host hgot, by omega, h.numbered.nextId,
    fun _ => Node.parentsFirst_of_neighbors_eq_nil rfl⟩

theorem adds_host (p : AddressPlan) : Adds p (do return ↑(← host)) := by
  intro a a' ns n h hn
  obtain ⟨x, a₁, hx, hn⟩ := bind_eq_ok_iff.1 hn
  obtain ⟨rfl, rfl⟩ := pure_eq_ok_iff.1 hn
  exact added_host h hx

/-- Linking trees one after the other to a router. -/
theorem added_linkEach {child : Building Node} (hchild : Adds p child) {count : Nat}
    {r r' : Router} {a₂ : Allocator} (hr : Added p a a₁ ns r.toNode)
    (h : linkEach child count r a₁ = (.ok r', a₂)) : Added p a a₂ ns r'.toNode := by
  induction count generalizing r a₁ with
  | zero =>
    obtain ⟨rfl, rfl⟩ := pure_eq_ok_iff.1 h
    exact hr
  | succ count ih =>
    obtain ⟨n, b, hn, h⟩ := bind_eq_ok_iff.1 h
    exact ih (hr.link (hchild hr.built hn)) h

theorem added_router_linkEach {child : Building Node} (hchild : Adds p child) {count : Nat}
    {r : Router} (h : Built p a ns)
    (hr : (do linkEach child count (← router)) a = (.ok r, a')) : Added p a a' ns r.toNode := by
  obtain ⟨r₀, a₁, hr₀, hr⟩ := bind_eq_ok_iff.1 hr
  exact added_linkEach hchild (added_router h hr₀) hr

theorem adds_router_linkEach {child : Building Node} (hchild : Adds p child) (count : Nat) :
    Adds p (do return ↑(← linkEach child count (← router))) := by
  intro a a' ns n h hn
  obtain ⟨r₀, a₁, hr₀, hn⟩ := bind_eq_ok_iff.1 hn
  obtain ⟨r, a₂, hr, hn⟩ := bind_eq_ok_iff.1 hn
  obtain ⟨rfl, rfl⟩ := pure_eq_ok_iff.1 hn
  exact added_linkEach hchild (added_router h hr₀) hr

/-! ## The shapes -/

theorem added_minimal {r : Router} (h : Built p a ns) (hr : minimal a = (.ok r, a')) :
    Added p a a' ns r.toNode :=
  added_router_linkEach (adds_host p) h hr

theorem added_large {r : Router} (h : Built p a ns) (hr : large a = (.ok r, a')) :
    Added p a a' ns r.toNode :=
  added_router_linkEach (adds_router_linkEach (adds_router_linkEach (adds_host p) 2) 3) h hr

theorem added_medium {r : Router} (h : Built p a ns) (hr : medium a = (.ok r, a')) :
    Added p a a' ns r.toNode := by
  obtain ⟨root, a₁, hroot, hr⟩ := bind_eq_ok_iff.1 hr
  obtain ⟨lower, a₂, hlower, hr⟩ := bind_eq_ok_iff.1 hr
  obtain ⟨rootHost, a₃, hrootHost, hr⟩ := bind_eq_ok_iff.1 hr
  obtain ⟨lowerHost, a₄, hlowerHost, hr⟩ := bind_eq_ok_iff.1 hr
  obtain ⟨rfl, rfl⟩ := pure_eq_ok_iff.1 hr
  have h₁ := added_router h hroot
  have h₂ := added_router h₁.built hlower
  have h₃ := added_host h₂.built hrootHost
  have h₄ := added_host h₃.built hlowerHost
  -- The hosts are constructed after both routers, so the trees are linked out of their order.
  have hlow := h₄.built.link
    (@List.perm_middle _ lower.toNode [.host lowerHost, .host rootHost] (root.toNode :: ns))
  have hroot := (hlow.link (@List.perm_middle _ root.toNode [_, .host rootHost] ns)).link
    (List.Perm.refl _)
  have hlt₁ := h₁.lt
  have hlt₂ := h₂.lt
  have hlt₃ := h₃.lt
  have hlt₄ := h₄.lt
  refine ⟨hroot, by omega, h₁.id_eq, fun hlt => ?_⟩
  have hlower := (h₂.parentsFirst (by omega)).link (h₄.parentsFirst hlt)
    (h₂.id_lt (by omega) (by omega) h₄.id_eq)
  have hid : root.info.id < (lower.link lowerHost).toNode.id :=
    h₁.id_lt (n := (lower.link lowerHost).toNode) (Nat.le_refl _) (by omega) h₂.id_eq
  exact ((h₁.parentsFirst (by omega)).link hlower hid).link (h₃.parentsFirst (by omega))
    (h₁.id_lt (by omega) (by omega) h₃.id_eq)

theorem added_chainTail {further : Nat} {r : Router} (h : Built p a ns)
    (hr : chainTail further a = (.ok r, a')) : Added p a a' ns r.toNode := by
  induction further generalizing a a' ns r with
  | zero =>
    obtain ⟨r₀, a₁, hr₀, hr⟩ := bind_eq_ok_iff.1 hr
    obtain ⟨x, a₂, hx, hr⟩ := bind_eq_ok_iff.1 hr
    obtain ⟨rfl, rfl⟩ := pure_eq_ok_iff.1 hr
    have h₁ := added_router h hr₀
    exact h₁.link (added_host h₁.built hx)
  | succ further ih =>
    obtain ⟨r₀, a₁, hr₀, hr⟩ := bind_eq_ok_iff.1 hr
    obtain ⟨r₁, a₂, hr₁, hr⟩ := bind_eq_ok_iff.1 hr
    obtain ⟨rfl, rfl⟩ := pure_eq_ok_iff.1 hr
    have h₁ := added_router h hr₀
    exact h₁.link (ih h₁.built hr₁)

/-- A chain starts from a reset allocator. -/
theorem added_chain {hops : UInt32} {r : Router} (h : Built p a ns)
    (hr : chain hops a = (.ok r, a')) : Added p a.reset a' [] r.toNode := by
  unfold chain at hr
  split at hr
  · obtain ⟨x, a₁, hx, -⟩ := bind_eq_ok_iff.1 hr
    cases hx
  · obtain ⟨_, a₁, hreset, hr⟩ := bind_eq_ok_iff.1 hr
    obtain rfl := reset_eq_ok_iff.1 hreset
    obtain ⟨r₀, a₂, hr₀, hr⟩ := bind_eq_ok_iff.1 hr
    obtain ⟨x, a₃, hx, hr⟩ := bind_eq_ok_iff.1 hr
    obtain ⟨rfl, rfl⟩ := pure_eq_ok_iff.1 hr
    have h₁ := added_chainTail h.reset hr₀
    exact h₁.link (added_host h₁.built hx)

/-- A topology of any shape is one tree, made from a reset allocator. -/
theorem added_topology {shape : Shape} {hops : Option UInt32} {t : Topology} (h : Built p a ns)
    (ht : topology shape hops a = (.ok t, a')) :
    t = .ofRoot t.root ∧ Added p a.reset a' [] t.root.toNode := by
  have hreset : ∀ {b : Building Router},
      (∀ {r}, b a.reset = (.ok r, a') → Added p a.reset a' [] r.toNode) →
      (do reset; return Topology.ofRoot (← b)) a = (.ok t, a') →
      t = .ofRoot t.root ∧ Added p a.reset a' [] t.root.toNode := by
    intro b hb ht
    obtain ⟨_, a₁, hreset, ht⟩ := bind_eq_ok_iff.1 ht
    obtain rfl := reset_eq_ok_iff.1 hreset
    obtain ⟨r, a₂, hr, ht⟩ := bind_eq_ok_iff.1 ht
    obtain ⟨rfl, rfl⟩ := pure_eq_ok_iff.1 ht
    exact ⟨rfl, hb hr⟩
  cases shape with
  | minimal => exact hreset (added_minimal h.reset) ht
  | medium => exact hreset (added_medium h.reset) ht
  | large => exact hreset (added_large h.reset) ht
  | chain =>
    cases hops with
    | none => cases ht
    | some hops =>
      obtain ⟨r, a₁, hr, ht⟩ := bind_eq_ok_iff.1 ht
      obtain ⟨rfl, rfl⟩ := pure_eq_ok_iff.1 ht
      exact ⟨rfl, added_chain h hr⟩

end Building

namespace Topology

variable {shape : Shape} {hops : Option UInt32} {p : AddressPlan} {t : Topology}
  (h : generate shape hops p = .ok t)

include h

/-- A generated topology is one tree, made from an allocator that has constructed nothing yet. -/
theorem added_of_generate :
    t = .ofRoot t.root ∧
      ∃ a a', a.allocated = 0 ∧ Added p a a' [] t.root.toNode := by
  unfold generate at h
  rcases ha : Allocator.ofPlan p with e | a <;> rw [ha] at h
  · cases h
  · obtain ⟨hroot, hadded⟩ := Building.added_topology (.start ha)
      (Prod.ext h rfl : Building.topology shape hops a = (.ok t, _))
    exact ⟨hroot, _, _, rfl, hadded⟩

theorem distinct_of_generate : t.root.toNode.Distinct := by
  obtain ⟨-, a, a', -, hadded⟩ := added_of_generate h
  exact hadded.built.distinct (List.mem_singleton_self _)

end Topology

end Overlay
