import Overlay.Command.Arguments
import Overlay.Command.FileTree
import Overlay.Placement.HostConfig
import Overlay.Placement.Plan
import Overlay.Settings.Document
import Overlay.Topology.Dot

/-!
Running a command. Everything is read and checked before the first file is written.
-/

namespace Overlay

/-- Why a command fails. -/
inductive CommandError
  | settings (e : SettingsError)
  | settingsNotOpened (path : String) (e : FileError)
  | settingsMalformed (path : String)
  | topology (e : TopologyError)
  | snapshotNotCreated (path : String) (e : FileError)
  | drawingNotWritten (path : String) (e : FileError)
  | cablingNotRead (path : String) (e : FileError)
  | cablingMalformed
  | snapshotNotOpened (path : String) (e : FileError)
  | snapshotMalformed (path : String)
  | placement (ir env : String) (e : PlacementError)
  | hostConfigNotStored (path : String) (e : FileError)
  | planNotCreated (path : String) (e : FileError)
deriving DecidableEq

/-- The messages of an error, from the general to the particular. -/
def CommandError.chain : CommandError → List String
  | .settings e => [e.message]
  | .settingsNotOpened path e => [s!"Failed to open configuration file '{path}'", e.message]
  | .settingsMalformed path => [s!"Failed to parse configuration file '{path}'"]
  | .topology e => [e.message]
  | .snapshotNotCreated path e => [s!"Failed to create IR file '{path}'", e.message]
  | .drawingNotWritten path e => [s!"Failed to write DOT file '{path}'", e.message]
  | .cablingNotRead path e =>
    [s!"Cannot read environment file '{path}': {e.message}", e.message]
  | .cablingMalformed => ["Malformed environment description"]
  | .snapshotNotOpened path e => [s!"Failed to open IR file '{path}'", e.message]
  | .snapshotMalformed path => [s!"Failed to parse IR file '{path}'", "Malformed IR document"]
  | .placement ir env e => [s!"Failed to map '{ir}' onto '{env}'", e.message]
  | .hostConfigNotStored path e =>
    [s!"Failed to store host configuration '{path}'",
      s!"Cannot store host configuration: {e.message}", e.message]
  | .planNotCreated path e => [s!"Failed to create plan file '{path}'", e.message]

namespace Command

variable {m : Type → Type} [Monad m]

/-- A command at work on files. -/
abbrev Work (m : Type → Type) :=
  ExceptT CommandError m

/-- A check that does not need the files. -/
def check (wrap : ε → CommandError) (r : Except ε α) : Work m α :=
  ExceptT.mk (pure (r.mapError wrap))

/-- Reads a file and then its text by `parse?`. -/
def readFile (fs : Files m) (path : String) (notOpened : FileError → CommandError)
    (malformed : CommandError) (parse? : String → Option α) : Work m α := do
  match ← fs.read path with
  | .error e => throw (notOpened e)
  | .ok content =>
    match content >>= parse? with
    | some value => return value
    | none => throw malformed

def writeFile (fs : Files m) (path content : String) (failed : FileError → CommandError) :
    Work m Unit := do
  match ← fs.write path content with
  | .error e => throw (failed e)
  | .ok () => return

/-- The settings of a configuration file, checked; those that hold without one if there is none. -/
def loadSettings (fs : Files m) : (conf : Option String) → Work m Settings
  | none => return .default
  | some path => do
    let settings ←
      readFile fs path (.settingsNotOpened path) (.settingsMalformed path) Settings.parse?
    check .settings settings.validate
    return settings

/-- Places the snapshot on the cabling that the inputs and the settings name. -/
def placement (fs : Files m) (s : Settings) (inputs : PlacementInputs) : Work m Placement := do
  let target ← check .settings (Settings.resolve "target" inputs.target s.target)
  if !target.isSupported then throw (.settings (.unsupportedTarget target))
  let env ← check .settings (Settings.resolve "env" inputs.env s.env)
  let ir ← check .settings (Settings.resolve "ir" inputs.ir s.ir)
  let cabling ← readFile fs env (.cablingNotRead env) .cablingMalformed Cabling.parse?
  let snapshot ← readFile fs ir (.snapshotNotOpened ir) (.snapshotMalformed ir) Snapshot.parse?
  let (placement, _) ← check (.placement ir env) (snapshot.place cabling s.placementOptions)
  return placement

/-- Generates a topology with filled tables. -/
def synthesized (s : Settings) (shape : Shape) (hops : Option UInt32) :
    Except TopologyError Topology := do
  (← Topology.generate shape hops s.addressPlan).synthesize

/-- Runs a command under the settings. -/
def runWith (fs : Files m) (s : Settings) : Command → Work m Unit
  | .topogen shape hops output dot plainDot => do
    let ir ← check .settings (Settings.resolve "ir" output s.ir)
    let topology ← check .topology (synthesized s shape hops)
    writeFile fs ir (Snapshot.ofTree topology.root).render (.snapshotNotCreated ir)
    if let some dot := dot then
      writeFile fs dot (Dot.render (!plainDot) topology.root) (.drawingNotWritten dot)
  | .envgen inputs output => do
    let host ← check .settings (Settings.resolve "host" output s.host)
    let placement ← placement fs s inputs
    writeFile fs host placement.prettyHostConfig (.hostConfigNotStored host)
  | .deploy inputs output => do
    let path ← check .settings (Settings.resolve "plan" output s.plan)
    let placement ← placement fs s inputs
    writeFile fs path (Plan.render placement.plan) (.planNotCreated path)

end Command

/-- Runs a command with the options of the program itself. -/
def Invocation.run [Monad m] (fs : Files m) (i : Invocation) : Command.Work m Unit := do
  Command.runWith fs (← Command.loadSettings fs i.conf) i.command

/-- How a run of the program ends. -/
structure Outcome where
  exitCode : UInt8
  /-- The messages of the error, from the general to the particular. -/
  errors : List String

/-- Runs the program with its arguments. -/
def Command.execute [Monad m] (fs : Files m) (args : List String) : m Outcome := do
  match Arguments.parse args with
  | .error .usage => return ⟨2, []⟩
  | .error .info => return ⟨0, []⟩
  | .ok invocation =>
    match ← (invocation.run fs).run with
    | .ok () => return ⟨0, []⟩
    | .error e => return ⟨1, e.chain⟩

end Overlay
