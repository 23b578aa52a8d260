import Overlay.Json.Network
import Overlay.Placement.Basic

/-!
Instructions to the switch, and the plan that a placement amounts to: for each router by ascending
number its ports, then its routes.
-/

namespace Overlay

open Ipv4 (Net)

inductive Instruction
  /-- Packets that arrive on `ingress` belong to virtual router `router`. -/
  | portMapping (ingress : Port) (router : NodeId)
  /-- Packets of `router` for `destination` leave through `egress` to `mac`. -/
  | route (router : NodeId) (destination : Net) (mac : Mac) (egress : Port)
deriving DecidableEq

namespace Instruction

/-- The router that the instruction is about. -/
def router : Instruction → NodeId
  | .portMapping _ router => router
  | .route router _ _ _ => router

end Instruction

/-- The instructions for one router. -/
def Placement.instructionsOf (p : Placement) (router : NodeId) (ports : List Port) :
    List Instruction :=
  ports.map (fun port => .portMapping port router) ++
    (p.routesOf router).map fun r => .route router r.subnet r.mac r.port

/-- The instructions for all routers. -/
def Placement.instructions (p : Placement) : List Instruction :=
  p.ports.entries.flatMap fun (router, ports) => p.instructionsOf router ports

end Overlay
