import Overlay.Json.Network
import Overlay.Placement.Basic

/-!
Settings: what a configuration file may fix, so that it need not be given with every command.
-/

namespace Overlay

/-- The switch that a placement is deployed to. -/
inductive Target
  | bmv2
  | tofino
deriving DecidableEq

namespace Target

def name : Target → String
  | .bmv2 => "bmv2"
  | .tofino => "tofino"

def ofName? (s : String) : Option Target :=
  [bmv2, tofino].find? fun t => t.name = s

/-- Reads the name of a target in any mix of ASCII letter case. -/
def ofNameIgnoringCase? (s : String) : Option Target :=
  ofName? (String.ofList (s.toList.map Char.toLower))

/-- A target that nothing can be deployed to yet. -/
def isSupported : Target → Bool
  | .bmv2 => true
  | .tofino => false

end Target

namespace RootCatchAll

def name : RootCatchAll → String
  | .absent => "omit"
  | .firstPort => "first_port"

def ofName? (s : String) : Option RootCatchAll :=
  [absent, firstPort].find? fun r => r.name = s

end RootCatchAll

/-- Why settings cannot be used. -/
inductive SettingsError
  | missing (key : String)
  | emptyPath (key : String)
  | addressPlan (defect : AddressPlan.Defect)
  | unsupportedTarget (target : Target)
deriving DecidableEq

def SettingsError.message : SettingsError → String
  | .missing key =>
    s!"Missing setting: {key} is neither specified via CLI nor in the configuration file"
  | .emptyPath key => s!"Missing setting: {key} is set to an empty path"
  | .addressPlan defect => s!"Invalid address plan: {defect.message}"
  | .unsupportedTarget target => s!"Target `{target.name}` is not supported yet"

/-- The settings of a configuration file; each path may be left out. -/
structure Settings where
  target : Option Target
  env : Option String
  ir : Option String
  host : Option String
  plan : Option String
  addressPlan : AddressPlan
  rootCatchAll : RootCatchAll
deriving DecidableEq

namespace Settings

/-- The settings where there is no configuration file. -/
def default : Settings :=
  ⟨none, none, none, none, none, .standard, .absent⟩

/-- The paths with their keys. -/
def paths (s : Settings) : List (String × Option String) :=
  [("env", s.env), ("ir", s.ir), ("host", s.host), ("plan", s.plan)]

/-- Checks the address plan, then that no path is empty. -/
def validate (s : Settings) : Except SettingsError Unit :=
  match s.addressPlan.validate with
  | .error defect => .error (.addressPlan defect)
  | .ok () =>
    match s.paths.find? fun p => p.2 = some "" with
    | some (key, _) => .error (.emptyPath key)
    | none => .ok ()

/-- The value given with the command, or else the one in the configuration file. -/
def resolve (key : String) (given configured : Option α) : Except SettingsError α :=
  match given <|> configured with
  | some value => .ok value
  | none => .error (.missing key)

/-- The options of a placement under these settings. -/
def placementOptions (s : Settings) : PlacementOptions :=
  ⟨s.addressPlan.space, s.rootCatchAll⟩

/-- The settings as JSON; what is not set is left out. -/
def toJson (s : Settings) : Json :=
  let optional := ("target", s.target.map Target.name) :: s.paths
  .record (
    (optional.filterMap fun (key, value) => value.map fun text => (key, .ofString text)) ++
    [("address_plan", s.addressPlan.toJson),
      ("mapping", .record [("root_default_route", .ofString s.rootCatchAll.name)])])

end Settings

end Overlay
