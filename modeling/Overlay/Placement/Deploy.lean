import Overlay.Placement.Instruction

/-!
Deployment: a placement is replayed instruction by instruction to a sink, which may refuse any of
them. The first refusal ends the replay.
-/

namespace Overlay

variable {σ ε : Type}

/-- A receiver of instructions, as a state machine that may fail. -/
abbrev Sink (σ ε : Type) :=
  Instruction → ExceptT ε (StateM σ) Unit

/-- The sink refused an instruction for this router. -/
structure DeployError (ε : Type) where
  router : NodeId
  cause : ε
deriving DecidableEq

def DeployError.message (describe : ε → String) (e : DeployError ε) : String :=
  s!"Deployment sink failed for router {e.router}: {describe e.cause}"

namespace Sink

/-- Keeps every instruction, in order. -/
def recording : Sink (List Instruction) Empty := fun i s =>
  (.ok (), s ++ [i])

/-- The only way in which a sink with a budget fails. -/
inductive Refused
  | connectionRefused
deriving DecidableEq

def Refused.message : Refused → String
  | .connectionRefused => "connection refused"

/-- Keeps instructions as long as there are fewer than `budget`, then refuses. -/
def limited (budget : Nat) : Sink (List Instruction) Refused := fun i s =>
  if s.length < budget then (.ok (), s ++ [i]) else (.error .connectionRefused, s)

end Sink

/-- Replays a placement to a sink: for each router its ports, then its routes. -/
def Placement.deploy (p : Placement) (sink : Sink σ ε) :
    ExceptT (DeployError ε) (StateM σ) Unit :=
  p.ports.entries.forM fun (router, ports) => do
    ports.forM fun port =>
      (sink (.portMapping port router)).adapt (DeployError.mk router)
    (p.routesOf router).forM fun r =>
      (sink (.route router r.subnet r.mac r.port)).adapt (DeployError.mk router)

/-- The plan that a recording sink keeps. -/
def Placement.plan (p : Placement) : List Instruction :=
  (p.deploy .recording []).2

end Overlay
