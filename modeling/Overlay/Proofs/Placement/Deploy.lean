import Mathlib
import Overlay.Placement.Deploy
import Overlay.Proofs.Result

/-!
Deployment to any sink. A deployment hands over the plan instruction by instruction
(`Placement.deploy_eq_forM`), so it ends at the first instruction that the sink refuses, with
nothing skipped, repeated or sent behind it (`Placement.deploy_stops_at_refusal`).
-/

namespace Overlay

variable {σ ε : Type}

namespace Sink

/-- Hands over an instruction; a refusal names the router that the instruction is about. -/
def send (sink : Sink σ ε) (i : Instruction) : ExceptT (DeployError ε) (StateM σ) Unit :=
  (sink i).adapt (DeployError.mk i.router)

/-- The sink with a log of the instructions that it was called with, refused or not. -/
def logged (sink : Sink σ ε) : Sink (σ × List Instruction) ε := fun i s =>
  ((sink i s.1).1, (sink i s.1).2, s.2 ++ [i])

/-- The sink accepts the instructions one after the other, which takes it from the first state to
the last. -/
inductive Accepts (sink : Sink σ ε) : σ → List Instruction → σ → Prop
  | nil (s : σ) : Accepts sink s [] s
  | cons {s t u : σ} {i : Instruction} {is : List Instruction} (first : sink i s = (.ok (), t))
    (rest : Accepts sink t is u) : Accepts sink s (i :: is) u

/-! ## One instruction -/

theorem send_apply (sink : Sink σ ε) (i : Instruction) (s : σ) :
    sink.send i s = ((sink i s).1.mapError (DeployError.mk i.router), (sink i s).2) :=
  rfl

theorem forM_send_cons (sink : Sink σ ε) (i : Instruction) (is : List Instruction) (s : σ) :
    (i :: is).forM sink.send s =
      match sink i s with
      | (.ok (), t) => is.forM sink.send t
      | (.error cause, t) => (.error ⟨i.router, cause⟩, t) := by
  rw [List.forM_eq_forM, List.forM_cons, Result.bind_apply, send_apply]
  rcases sink i s with ⟨_ | _, t⟩ <;> rfl

/-! ## A list of instructions -/

theorem Accepts.forM_send {sink : Sink σ ε} {s t : σ} {is : List Instruction}
    (h : sink.Accepts s is t) : is.forM sink.send s = (.ok (), t) := by
  induction h with
  | nil s => rfl
  | cons first _ ih =>
    rw [forM_send_cons, first]
    exact ih

/-- Nothing is handed over behind the first instruction that is refused. -/
theorem Accepts.forM_send_refused {sink : Sink σ ε} {s t u : σ} {accepted : List Instruction}
    {i : Instruction} {cause : ε} (h : sink.Accepts s accepted t)
    (hi : sink i t = (.error cause, u)) (rest : List Instruction) :
    (accepted ++ i :: rest).forM sink.send s = (.error ⟨i.router, cause⟩, u) := by
  induction h with
  | nil s => rw [List.nil_append, forM_send_cons, hi]
  | cons first _ ih =>
    rw [List.cons_append, forM_send_cons, first]
    exact ih hi

/-- A sink accepts a list of instructions, or there is a first one that it refuses. -/
theorem accepts_or_refuses (sink : Sink σ ε) (s : σ) (is : List Instruction) :
    (∃ t, sink.Accepts s is t) ∨
      ∃ accepted i rest t cause u, is = accepted ++ i :: rest ∧ sink.Accepts s accepted t ∧
        sink i t = (.error cause, u) := by
  induction is generalizing s with
  | nil => exact .inl ⟨s, .nil s⟩
  | cons i is ih =>
    rcases hi : sink i s with ⟨cause | _, t⟩
    · exact .inr ⟨[], i, is, s, cause, t, rfl, .nil s, hi⟩
    · rcases ih t with ⟨u, h⟩ | ⟨accepted, j, rest, u, cause, v, rfl, h, hj⟩
      · exact .inl ⟨u, .cons hi h⟩
      · exact .inr ⟨i :: accepted, j, rest, u, cause, v, rfl, .cons hi h, hj⟩

/-! ## Sinks that keep what they are given -/

theorem Accepts.logged {sink : Sink σ ε} {s t : σ} {is : List Instruction}
    (h : sink.Accepts s is t) (log : List Instruction) :
    sink.logged.Accepts (s, log) is (t, log ++ is) := by
  induction h generalizing log with
  | nil s =>
    rw [List.append_nil]
    exact .nil _
  | @cons s t u i is first rest ih =>
    have hstep : sink.logged i (s, log) = (.ok (), t, log ++ [i]) := by rw [Sink.logged, first]
    rw [List.append_cons]
    exact .cons hstep (ih (log ++ [i]))

theorem logged_refused {sink : Sink σ ε} {s t : σ} {i : Instruction} {cause : ε}
    (h : sink i s = (.error cause, t)) (log : List Instruction) :
    sink.logged i (s, log) = (.error cause, t, log ++ [i]) := by
  rw [logged, h]

theorem recording_accepts (kept is : List Instruction) :
    recording.Accepts kept is (kept ++ is) := by
  induction is generalizing kept with
  | nil =>
    rw [List.append_nil]
    exact .nil kept
  | cons i is ih =>
    rw [List.append_cons]
    exact .cons rfl (ih (kept ++ [i]))

theorem limited_accepts {budget : Nat} {kept is : List Instruction}
    (h : kept.length + is.length ≤ budget) : (limited budget).Accepts kept is (kept ++ is) := by
  induction is generalizing kept with
  | nil =>
    rw [List.append_nil]
    exact .nil kept
  | cons i is ih =>
    rw [List.length_cons] at h
    have hstep : limited budget i kept = (.ok (), kept ++ [i]) := by
      rw [limited, if_pos (by omega)]
    have hrest : (kept ++ [i]).length + is.length ≤ budget := by
      rw [List.length_append, List.length_singleton]
      omega
    rw [List.append_cons]
    exact .cons hstep (ih hrest)

theorem limited_refuses {budget : Nat} {kept : List Instruction} (h : budget ≤ kept.length)
    (i : Instruction) : limited budget i kept = (.error .connectionRefused, kept) := by
  rw [limited, if_neg (by omega)]

end Sink

namespace Placement

/-! ## The plan -/

theorem deploy_eq_forM (p : Placement) (sink : Sink σ ε) :
    p.deploy sink = p.instructions.forM sink.send := by
  rw [deploy, instructions]
  induction p.ports.entries with
  | nil => rfl
  | cons e es ih =>
    simp only [List.forM_eq_forM] at ih ⊢
    rw [List.forM_cons, List.flatMap_cons, List.forM_append, ← ih, instructionsOf, List.forM_append,
      List.forM_map, List.forM_map]
    rfl

/-- The plan is the list of instructions by router. -/
theorem plan_eq_instructions (p : Placement) : p.plan = p.instructions := by
  rw [plan, deploy_eq_forM, (Sink.recording_accepts [] p.instructions).forM_send, List.nil_append]

/-! ## Deployment to any sink -/

/-- The instructions that a deployment calls the sink with, refused or not. -/
def calls (p : Placement) (sink : Sink σ ε) (s : σ) : List Instruction :=
  (p.deploy sink.logged (s, [])).2.2

theorem deploy_of_accepts {p : Placement} {sink : Sink σ ε} {s t : σ}
    (h : sink.Accepts s p.plan t) : p.deploy sink s = (.ok (), t) := by
  rw [deploy_eq_forM, ← plan_eq_instructions, h.forM_send]

theorem deploy_of_refusal {p : Placement} {sink : Sink σ ε} {s t u : σ}
    {accepted rest : List Instruction} {i : Instruction} {cause : ε}
    (hplan : p.plan = accepted ++ i :: rest) (h : sink.Accepts s accepted t)
    (hi : sink i t = (.error cause, u)) : p.deploy sink s = (.error ⟨i.router, cause⟩, u) := by
  rw [deploy_eq_forM, ← plan_eq_instructions, hplan, h.forM_send_refused hi]

/-- The two ways in which a deployment ends, with and without a log. -/
theorem deploy_outcome (p : Placement) (sink : Sink σ ε) (s : σ) :
    (∃ t, sink.Accepts s p.plan t ∧ p.deploy sink s = (.ok (), t) ∧
      p.deploy sink.logged (s, []) = (.ok (), t, p.plan)) ∨
    ∃ accepted i rest t cause u, p.plan = accepted ++ i :: rest ∧ sink.Accepts s accepted t ∧
      sink i t = (.error cause, u) ∧ p.deploy sink s = (.error ⟨i.router, cause⟩, u) ∧
      p.deploy sink.logged (s, []) = (.error ⟨i.router, cause⟩, u, accepted ++ [i]) := by
  rcases sink.accepts_or_refuses s p.plan with
    ⟨t, h⟩ | ⟨accepted, i, rest, t, cause, u, hplan, h, hi⟩
  · exact .inl ⟨t, h, deploy_of_accepts h, deploy_of_accepts (h.logged [])⟩
  · exact .inr ⟨accepted, i, rest, t, cause, u, hplan, h, hi, deploy_of_refusal hplan h hi,
      deploy_of_refusal hplan (h.logged []) (Sink.logged_refused hi _)⟩

/-- The log changes nothing about a deployment. -/
theorem deploy_logged (p : Placement) (sink : Sink σ ε) (s : σ) :
    p.deploy sink.logged (s, []) =
      ((p.deploy sink s).1, (p.deploy sink s).2, p.calls sink s) := by
  rcases p.deploy_outcome sink s with
    ⟨t, -, hplain, hlogged⟩ | ⟨accepted, i, rest, t, cause, u, -, -, -, hplain, hlogged⟩ <;>
  rw [calls, hplain, hlogged]

/-- The sink is called with the plan from its beginning. -/
theorem calls_isPrefix (p : Placement) (sink : Sink σ ε) (s : σ) : p.calls sink s <+: p.plan := by
  rcases p.deploy_outcome sink s with
    ⟨t, -, -, hlogged⟩ | ⟨accepted, i, rest, t, cause, u, hplan, -, -, -, hlogged⟩
  · rw [calls, hlogged]
  · rw [calls, hlogged, hplan]
    exact ⟨rest, List.append_assoc ..⟩

theorem deploy_eq_ok_iff {p : Placement} {sink : Sink σ ε} {s : σ} :
    (p.deploy sink s).1 = .ok () ↔ ∃ t, sink.Accepts s p.plan t := by
  constructor
  · intro hok
    rcases p.deploy_outcome sink s with
      ⟨t, h, -, -⟩ | ⟨accepted, i, rest, t, cause, u, -, -, -, hplain, -⟩
    · exact ⟨t, h⟩
    · rw [hplain] at hok
      cases hok
  · rintro ⟨t, h⟩
    rw [deploy_of_accepts h]

/-! ## Sinks with a budget -/

theorem deploy_limited_of_le {p : Placement} {budget : Nat} (h : p.plan.length ≤ budget) :
    p.deploy (.limited budget) [] = (.ok (), p.plan) :=
  deploy_of_accepts (Sink.limited_accepts (by simpa using h))

theorem deploy_limited_of_lt {p : Placement} {budget : Nat} (h : budget < p.plan.length) :
    p.deploy (.limited budget) [] =
      (.error ⟨p.plan[budget].router, .connectionRefused⟩, p.plan.take budget) := by
  have hlength : (p.plan.take budget).length = budget := List.length_take_of_le h.le
  have hplan : p.plan = p.plan.take budget ++ p.plan[budget] :: p.plan.drop (budget + 1) := by
    rw [← List.drop_eq_getElem_cons h, List.take_append_drop]
  have haccepts : (Sink.limited budget).Accepts [] (p.plan.take budget) (p.plan.take budget) :=
    Sink.limited_accepts (by simp [hlength])
  exact deploy_of_refusal hplan haccepts (Sink.limited_refuses hlength.ge _)

/-- A sink with a budget ends up with that much of the plan, and fails if there is more of it. -/
theorem deploy_limited (p : Placement) (budget : Nat) :
    (p.deploy (.limited budget) []).2 = p.plan.take budget ∧
      ((∃ e, (p.deploy (.limited budget) []).1 = .error e) ↔ budget < p.plan.length) := by
  rcases Nat.lt_or_ge budget p.plan.length with h | h
  · rw [deploy_limited_of_lt h]
    exact ⟨rfl, iff_of_true ⟨_, rfl⟩ h⟩
  · rw [deploy_limited_of_le h, List.take_of_length_le h]
    exact ⟨rfl, iff_of_false (by simp) h.not_gt⟩

/-- The plan has the ports and then the routes of each router. A deployment calls the sink with the
plan from its beginning and goes on as long as the sink accepts. It succeeds if the sink accepts the
whole plan; else the first instruction refused is the last one that the sink sees, and the error has
its router and the sink's cause. So a sink with a budget ends up with that much of the plan. -/
theorem deploy_stops_at_refusal (p : Placement) (sink : Sink σ ε) (s : σ) :
    p.plan = p.instructions ∧
    p.deploy sink.logged (s, []) =
      ((p.deploy sink s).1, (p.deploy sink s).2, p.calls sink s) ∧
    p.calls sink s <+: p.plan ∧
    ((∃ t, sink.Accepts s p.plan t ∧ p.calls sink s = p.plan ∧ p.deploy sink s = (.ok (), t)) ∨
      ∃ accepted i rest t cause u, p.plan = accepted ++ i :: rest ∧ sink.Accepts s accepted t ∧
        sink i t = (.error cause, u) ∧ p.calls sink s = accepted ++ [i] ∧
        p.deploy sink s = (.error ⟨i.router, cause⟩, u)) ∧
    ((p.deploy sink s).1 = .ok () ↔ ∃ t, sink.Accepts s p.plan t) ∧
    ∀ budget,
      (p.deploy (.limited budget) []).2 = p.plan.take budget ∧
      (p.deploy (.limited budget) []).2.length = min budget p.plan.length ∧
      ((∃ e, (p.deploy (.limited budget) []).1 = .error e) ↔ budget < p.plan.length) := by
  refine ⟨p.plan_eq_instructions, p.deploy_logged sink s, p.calls_isPrefix sink s, ?_,
    deploy_eq_ok_iff, fun budget => ?_⟩
  · rcases p.deploy_outcome sink s with
      ⟨t, h, hplain, hlogged⟩ | ⟨accepted, i, rest, t, cause, u, hplan, h, hi, hplain, hlogged⟩
    · exact .inl ⟨t, h, by rw [calls, hlogged], hplain⟩
    · exact .inr ⟨accepted, i, rest, t, cause, u, hplan, h, hi, by rw [calls, hlogged], hplain⟩
  · obtain ⟨hkept, hfails⟩ := p.deploy_limited budget
    exact ⟨hkept, by rw [hkept, List.length_take], hfails⟩

end Placement

end Overlay
