import Mathlib
import Overlay.Command.Run
import Overlay.Proofs.Placement.Deploy
import Overlay.Proofs.Placement.HostConfig
import Overlay.Proofs.Placement.Ports
import Overlay.Proofs.Result
import Overlay.Proofs.Snapshot.Document

/-!
What a command leaves of the files. All readings and checks come first and change nothing
(`Yields`), and a file that cannot be written stays as it is. So a command with one output fails
without a trace (`FailsClean`), and what it stores if it succeeds follows from the files as they
stood before (`Disk.nothing_half_done`).
-/

namespace Overlay

variable {ε σ α : Type}

/-! ## Files -/

namespace Files

/-- Reading changes nothing, and neither does a write that fails. -/
structure Lawful (fs : Files (StateM σ)) : Prop where
  read : ∀ path s, (fs.read path s).2 = s
  write : ∀ path text s e t, fs.write path text s = (.error e, t) → t = s

/-- The file at a path can be read and holds this text. -/
def Holds (fs : Files (StateM σ)) (s : σ) (path text : String) : Prop :=
  (fs.read path s).1 = .ok (some text)

end Files

/-- A value is given with the command, or else configured. -/
def Chosen (given configured : Option α) (value : α) : Prop :=
  given = some value ∨ given = none ∧ configured = some value

theorem Settings.resolve_eq_ok_iff {key : String} {given configured : Option α} {value : α} :
    Settings.resolve key given configured = .ok value ↔ Chosen given configured value := by
  unfold Settings.resolve Chosen
  cases given <;> cases configured <;> simp

namespace Command

open Result (Yields FailsClean yields_pure)

/-! ## The parts of a command -/

theorem yields_check (wrap : ε → CommandError) (r : Except ε α) :
    Yields (check (m := StateM σ) wrap r) fun _ a => r = .ok a where
  failsClean s e t h := by
    cases r <;> cases h
    rfl
  ok_iff s t a := by
    cases r with
    | error e =>
      refine iff_of_false nofun ?_
      rintro ⟨h, -⟩
      cases h
    | ok b =>
      constructor
      · intro h
        cases h
        exact ⟨rfl, rfl⟩
      · rintro ⟨h, rfl⟩
        cases h
        rfl

theorem yields_resolve (key : String) (given configured : Option α) :
    Yields (check (m := StateM σ) .settings (Settings.resolve key given configured))
      fun _ value => Chosen given configured value :=
  (yields_check _ _).congr fun _ _ => Settings.resolve_eq_ok_iff

variable {fs : Files (StateM σ)}

theorem readFile_apply (hfs : fs.Lawful) (s : σ) (path : String)
    (notOpened : FileError → CommandError) (malformed : CommandError)
    (parse? : String → Option α) :
    readFile fs path notOpened malformed parse? s =
      (match (fs.read path s).1 with
        | .error e => .error (notOpened e)
        | .ok content => (content >>= parse?).elim (.error malformed) .ok, s) := by
  refine (Result.lift_bind_apply (fs.read path) _ s).trans ?_
  rw [hfs.read]
  rcases (fs.read path s).1 with e | content
  · rfl
  · dsimp only
    cases content >>= parse? <;> rfl

theorem yields_readFile (hfs : fs.Lawful) (path : String) (notOpened : FileError → CommandError)
    (malformed : CommandError) (parse? : String → Option α) :
    Yields (readFile fs path notOpened malformed parse?) fun s a =>
      ∃ text, fs.Holds s path text ∧ parse? text = some a where
  failsClean s e t h := by
    rw [readFile_apply hfs] at h
    exact (congrArg Prod.snd h).symm
  ok_iff s t a := by
    unfold Files.Holds
    rw [readFile_apply hfs]
    refine Prod.ext_iff.trans (and_congr ?_ eq_comm)
    dsimp only
    rcases (fs.read path s).1 with e | _ | text
    · simp
    · simp
    · rcases hparse : parse? text with _ | b <;> simp [hparse]

end Command

/-- The settings that a command runs under: those of the configuration file, which have to be
valid, or the standard ones. -/
def Files.Configures (fs : Files (StateM σ)) (s : σ) : (conf : Option String) → Settings → Prop
  | none, c => c = .default
  | some path, c =>
    (∃ text, fs.Holds s path text ∧ Settings.parse? text = some c) ∧ c.validate = .ok ()

/-- The placement of the snapshot on the cabling that stand at the chosen paths. -/
def Files.Places (fs : Files (StateM σ)) (s : σ) (c : Settings) (inputs : PlacementInputs)
    (p : Placement) : Prop :=
  ∃ target env ir cabling snapshot warnings,
    Chosen inputs.target c.target target ∧ target.isSupported = true ∧
    Chosen inputs.env c.env env ∧ Chosen inputs.ir c.ir ir ∧
    (∃ text, fs.Holds s env text ∧ Cabling.parse? text = some cabling) ∧
    (∃ text, fs.Holds s ir text ∧ Snapshot.parse? text = some snapshot) ∧
    snapshot.place cabling ⟨c.addressPlan.space, c.rootCatchAll⟩ = .ok (p, warnings)

namespace Command

open Result (Yields FailsClean yields_pure yields_throw_bind)

variable {fs : Files (StateM σ)}

theorem yields_loadSettings (hfs : fs.Lawful) (conf : Option String) :
    Yields (loadSettings fs conf) fun s c => fs.Configures s conf c := by
  cases conf with
  | none => exact yields_pure _
  | some path =>
    have hread := yields_readFile hfs path (.settingsNotOpened path) (.settingsMalformed path)
      Settings.parse?
    refine (hread.bind fun c => (yields_check .settings c.validate).bind fun _ =>
      yields_pure c).congr fun s c => ?_
    unfold Files.Configures
    constructor
    · rintro ⟨c, htext, _, hvalid, rfl⟩
      exact ⟨htext, hvalid⟩
    · rintro ⟨htext, hvalid⟩
      exact ⟨c, htext, (), hvalid, rfl⟩

theorem yields_placement (hfs : fs.Lawful) (c : Settings) (inputs : PlacementInputs) :
    Yields (placement fs c inputs) fun s p => fs.Places s c inputs p := by
  refine ((yields_resolve "target" inputs.target c.target).bind fun target =>
    (((yields_resolve "env" inputs.env c.env).bind fun env =>
      (yields_resolve "ir" inputs.ir c.ir).bind fun ir =>
      (yields_readFile hfs env _ _ Cabling.parse?).bind fun cabling =>
      (yields_readFile hfs ir _ _ Snapshot.parse?).bind fun snapshot =>
      (yields_check _ (snapshot.place cabling c.placementOptions)).bind fun placed =>
      yields_pure placed.1).guarded (yields_throw_bind _))).congr fun s p => ?_
  constructor
  · rintro ⟨target, htarget, hsupported, env, henv, ir, hir, cabling, hcabling, snapshot, hsnapshot,
      ⟨p, warnings⟩, hplace, rfl⟩
    exact ⟨target, env, ir, cabling, snapshot, warnings, htarget, hsupported, henv, hir, hcabling,
      hsnapshot, hplace⟩
  · rintro ⟨target, env, ir, cabling, snapshot, warnings, htarget, hsupported, henv, hir, hcabling,
      hsnapshot, hplace⟩
    exact ⟨target, htarget, hsupported, env, henv, ir, hir, cabling, hcabling, snapshot, hsnapshot,
      ⟨p, warnings⟩, hplace, rfl⟩

theorem writeFile_apply (s : σ) (path text : String) (failed : FileError → CommandError) :
    writeFile fs path text failed s =
      ((fs.write path text s).1.mapError failed, (fs.write path text s).2) := by
  refine (Result.lift_bind_apply (fs.write path text) _ s).trans ?_
  rcases (fs.write path text s).1 with e | u <;> rfl

theorem writeFile_eq_ok_iff {s t : σ} {path text : String} {failed : FileError → CommandError} :
    writeFile fs path text failed s = (.ok (), t) ↔ fs.write path text s = (.ok (), t) := by
  rw [writeFile_apply]
  rcases fs.write path text s with ⟨reason | ⟨⟩, v⟩
  · exact iff_of_false nofun nofun
  · constructor <;> intro h <;> cases h <;> rfl

theorem writeFile_eq_error {s t : σ} {path text : String} {failed : FileError → CommandError}
    {e : CommandError} (h : writeFile fs path text failed s = (.error e, t)) :
    ∃ reason, fs.write path text s = (.error reason, t) ∧ e = failed reason := by
  rw [writeFile_apply] at h
  rcases hrun : fs.write path text s with ⟨reason | u, v⟩ <;> rw [hrun] at h <;> cases h
  exact ⟨reason, rfl, rfl⟩

theorem writeFile_failsClean (hfs : fs.Lawful) (path text : String)
    (failed : FileError → CommandError) : FailsClean (writeFile fs path text failed) := by
  intro s e t h
  obtain ⟨reason, hwrite, -⟩ := writeFile_eq_error h
  exact hfs.write path text s reason t hwrite

/-! ## Commands with one output -/

section Stored

variable (hfs : fs.Lawful) (conf : Option String) (key : String) (output : Option String)
  (configured : Settings → Option String) (inputs : PlacementInputs) (text : Placement → String)
  (failed : String → FileError → CommandError)

/-- Stores what `text` says of a placement. -/
def stored (fs : Files (StateM σ)) : Work (StateM σ) Unit := do
  let c ← loadSettings fs conf
  let path ← check .settings (Settings.resolve key output (configured c))
  let p ← placement fs c inputs
  writeFile fs path (text p) (failed path)

include hfs

theorem stored_failsClean :
    FailsClean (stored conf key output configured inputs text failed fs) :=
  (yields_loadSettings hfs conf).bind_failsClean fun c =>
    (yields_resolve key output (configured c)).bind_failsClean fun path =>
    (yields_placement hfs c inputs).bind_failsClean fun p =>
    writeFile_failsClean hfs path (text p) (failed path)

theorem stored_eq_ok_iff {s t : σ} :
    stored conf key output configured inputs text failed fs s = (.ok (), t) ↔
      ∃ c path p, fs.Configures s conf c ∧ Chosen output (configured c) path ∧
        fs.Places s c inputs p ∧ fs.write path (text p) s = (.ok (), t) := by
  unfold stored
  simp only [(yields_loadSettings hfs _).bind_eq_ok_iff, (yields_resolve _ _ _).bind_eq_ok_iff,
    (yields_placement hfs _ _).bind_eq_ok_iff, writeFile_eq_ok_iff, exists_and_left]

end Stored

theorem run_envgen (conf : Option String) (debug : Bool) (inputs : PlacementInputs)
    (output : Option String) :
    Invocation.run fs ⟨conf, debug, .envgen inputs output⟩ =
      stored conf "host" output Settings.host inputs Placement.prettyHostConfig
        .hostConfigNotStored fs := by
  rfl

theorem run_deploy (conf : Option String) (debug : Bool) (inputs : PlacementInputs)
    (output : Option String) :
    Invocation.run fs ⟨conf, debug, .deploy inputs output⟩ =
      stored conf "plan" output Settings.plan inputs (fun p => Plan.render p.plan)
        .planNotCreated fs := by
  rfl

/-! ## The command with two outputs -/

/-- Stores a topology and, if its path is given, its drawing. -/
def storeTopology (fs : Files (StateM σ)) (ir : String) (dot : Option String) (plainDot : Bool)
    (root : Router) : Work (StateM σ) Unit := do
  writeFile fs ir (Snapshot.ofTree root).render (.snapshotNotCreated ir)
  if let some dot := dot then
    writeFile fs dot (Dot.render (!plainDot) root) (.drawingNotWritten dot)

theorem run_topogen (conf : Option String) (debug : Bool) (shape : Shape) (hops : Option UInt32)
    (output dot : Option String) (plainDot : Bool) :
    Invocation.run fs ⟨conf, debug, .topogen shape hops output dot plainDot⟩ = (do
      let c ← loadSettings fs conf
      let ir ← check .settings (Settings.resolve "ir" output c.ir)
      let topology ← check .topology (synthesized c shape hops)
      storeTopology fs ir dot plainDot topology.root) := by
  rfl

theorem storeTopology_eq_ok_iff {s t : σ} {ir : String} {dot : Option String} {plainDot : Bool}
    {root : Router} :
    storeTopology fs ir dot plainDot root s = (.ok (), t) ↔
      ∃ u, fs.write ir (Snapshot.ofTree root).render s = (.ok (), u) ∧
        dot.elim (t = u) fun path =>
          fs.write path (Dot.render (!plainDot) root) u = (.ok (), t) := by
  unfold storeTopology
  rw [Result.run_bind_eq_ok_iff, Unique.exists_iff]
  refine exists_congr fun u => and_congr writeFile_eq_ok_iff ?_
  cases dot with
  | none => exact ((yields_pure ()).ok_iff u t ()).trans (and_iff_right rfl)
  | some path => exact writeFile_eq_ok_iff

/-- The snapshot stands before the drawing is written, so only the drawing can be missing. -/
theorem storeTopology_eq_error (hfs : fs.Lawful) {s t : σ} {ir : String} {dot : Option String}
    {plainDot : Bool} {root : Router} {e : CommandError}
    (h : storeTopology fs ir dot plainDot root s = (.error e, t)) :
    t = s ∨ fs.write ir (Snapshot.ofTree root).render s = (.ok (), t) ∧
      ∃ path reason, dot = some path ∧
        fs.write path (Dot.render (!plainDot) root) t = (.error reason, t) ∧
        e = .drawingNotWritten path reason := by
  unfold storeTopology at h
  rw [Result.bind_apply] at h
  rcases hfirst : writeFile fs ir (Snapshot.ofTree root).render (.snapshotNotCreated ir) s with
    ⟨d | ⟨⟩, u⟩ <;> rw [hfirst] at h
  · cases h
    exact .inl (writeFile_failsClean hfs ir _ _ s _ _ hfirst)
  · rw [writeFile_eq_ok_iff] at hfirst
    rcases dot with _ | path
    · cases h
    · obtain ⟨reason, hwrite, rfl⟩ := writeFile_eq_error h
      obtain rfl := hfs.write path _ u reason t hwrite
      exact .inr ⟨hfirst, path, reason, rfl, hwrite, rfl⟩

/-- A run of the program with arguments that are accepted is that of the command. -/
theorem execute_apply {args : List String} {i : Invocation}
    (hargs : Arguments.parse args = .ok i) (s : σ) :
    execute fs args s =
      (match (i.run fs s).1 with
        | .ok () => ⟨0, []⟩
        | .error e => ⟨1, e.chain⟩, (i.run fs s).2) := by
  unfold execute
  rw [hargs]
  change (match (i.run fs s).1 with
    | .ok () => (pure ⟨0, []⟩ : StateM σ Outcome)
    | .error e => pure ⟨1, e.chain⟩) (i.run fs s).2 = _
  rcases (i.run fs s).1 with e | ⟨⟩ <;> rfl

end Command

/-! ## Disks -/

/-- Files that a command can use. Several paths may lead to one file, and what can be written stays
as it is during a run. -/
structure Disk (κ : Type) where
  /-- The file that a path leads to. -/
  file : String → κ
  /-- What is read of a file. -/
  content : κ → Except FileError (Option String)
  /-- Why the file at a path cannot be created, if it cannot. -/
  refusal : String → Option FileError

namespace Disk

variable {κ : Type} [DecidableEq κ] {d d' : Disk κ} {path text : String}

/-- The disk with another text in the file at a path. -/
def put (d : Disk κ) (path text : String) : Disk κ :=
  { d with content := Function.update d.content (d.file path) (.ok (some text)) }

theorem refusal_put (d : Disk κ) (path text : String) :
    (d.put path text).refusal = d.refusal := by
  rfl

/-- Reading and writing on a disk that is kept as state. -/
def access : Files (StateM (Disk κ)) where
  read path d := (d.content (d.file path), d)
  write path text d :=
    match d.refusal path with
    | none => (.ok (), d.put path text)
    | some e => (.error e, d)

/-- A run of the program on a disk. -/
def run (d : Disk κ) (i : Invocation) : Except CommandError Unit × Disk κ :=
  i.run access d

theorem write_eq_ok_iff :
    access.write path text d = (.ok (), d') ↔ d.refusal path = none ∧ d' = d.put path text := by
  unfold access
  dsimp only
  rcases d.refusal path with _ | reason
  · constructor
    · intro h
      cases h
      exact ⟨rfl, rfl⟩
    · rintro ⟨-, rfl⟩
      rfl
  · exact iff_of_false nofun nofun

theorem write_eq_error_iff {e : FileError} :
    access.write path text d = (.error e, d') ↔ d.refusal path = some e ∧ d' = d := by
  unfold access
  dsimp only
  rcases d.refusal path with _ | reason
  · exact iff_of_false nofun nofun
  · constructor
    · intro h
      cases h
      exact ⟨rfl, rfl⟩
    · rintro ⟨h, rfl⟩
      cases h
      rfl

theorem lawful_access : (access : Files (StateM (Disk κ))).Lawful where
  read _ _ := rfl
  write _ _ _ _ _ h := (write_eq_error_iff.1 h).2

end Disk

/-! ## What a run leaves -/

/-- A recording sink accepts the whole plan. -/
theorem Placement.deploy_recording (p : Placement) :
    p.deploy .recording [] = (.ok (), p.plan) :=
  deploy_of_accepts (Sink.recording_accepts [] p.plan)

namespace Disk

variable {κ : Type} [DecidableEq κ] {d d' : Disk κ} {conf : Option String} {debug : Bool}

theorem stored_eq_ok_iff (key : String) (output : Option String)
    (configured : Settings → Option String) (inputs : PlacementInputs)
    (text : Placement → String) (failed : String → FileError → CommandError) :
    Command.stored conf key output configured inputs text failed access d = (.ok (), d') ↔
      ∃ c path p, access.Configures d conf c ∧ Chosen output (configured c) path ∧
        access.Places d c inputs p ∧ d.refusal path = none ∧ d' = d.put path (text p) := by
  simp only [Command.stored_eq_ok_iff lawful_access, write_eq_ok_iff]

theorem run_topogen_eq_ok_iff {shape : Shape} {hops : Option UInt32} {output dot : Option String}
    {plainDot : Bool} :
    d.run ⟨conf, debug, .topogen shape hops output dot plainDot⟩ = (.ok (), d') ↔
      ∃ c ir topology, access.Configures d conf c ∧ Chosen output c.ir ir ∧
        Command.synthesized c shape hops = .ok topology ∧ d.refusal ir = none ∧
        (∀ path ∈ dot, d.refusal path = none) ∧
        let stored := d.put ir (Snapshot.ofTree topology.root).render
        d' = dot.elim stored fun path =>
          stored.put path (Dot.render (!plainDot) topology.root) := by
  unfold run
  rw [Command.run_topogen]
  simp only [(Command.yields_loadSettings lawful_access _).bind_eq_ok_iff,
    (Command.yields_resolve _ _ _).bind_eq_ok_iff, (Command.yields_check _ _).bind_eq_ok_iff,
    Command.storeTopology_eq_ok_iff, write_eq_ok_iff, exists_and_left, and_assoc, exists_eq_left]
  cases dot <;> simp [refusal_put]

/-- A run that stores a topology and fails has written nothing, or all but the drawing. -/
theorem run_topogen_eq_error {shape : Shape} {hops : Option UInt32} {output dot : Option String}
    {plainDot : Bool} {e : CommandError}
    (h : d.run ⟨conf, debug, .topogen shape hops output dot plainDot⟩ = (.error e, d')) :
    d' = d ∨ ∃ c ir topology path reason, access.Configures d conf c ∧
      Chosen output c.ir ir ∧ Command.synthesized c shape hops = .ok topology ∧
      d.refusal ir = none ∧ d' = d.put ir (Snapshot.ofTree topology.root).render ∧
      dot = some path ∧ d.refusal path = some reason ∧ e = .drawingNotWritten path reason := by
  unfold run at h
  rw [Command.run_topogen] at h
  rcases (Command.yields_loadSettings lawful_access conf).bind_eq_error h with h | ⟨c, hc, h⟩
  · exact .inl h
  rcases (Command.yields_resolve "ir" output c.ir).bind_eq_error h with h | ⟨ir, hir, h⟩
  · exact .inl h
  rcases (Command.yields_check .topology _).bind_eq_error h with h | ⟨topology, htopology, h⟩
  · exact .inl h
  rcases Command.storeTopology_eq_error lawful_access h with
    h | ⟨hfirst, path, reason, hdot, hwrite, he⟩
  · exact .inl h
  · obtain ⟨hfree, rfl⟩ := write_eq_ok_iff.1 hfirst
    obtain ⟨hrefused, -⟩ := write_eq_error_iff.1 hwrite
    exact .inr ⟨c, ir, topology, path, reason, hc, hir, htopology, hfree, rfl, hdot, hrefused, he⟩

end Disk

namespace Disk

open Snapshot (pair pairCabling)

/-- A disk with a cabling at `env.json` and a snapshot at all other paths, which lead to one file.
By the path `locked.json` that file cannot be written. -/
def linked : Disk Bool where
  file path := path = "env.json"
  content isCabling := .ok (some (if isCabling then pairCabling.render else pair.render))
  refusal path := if path = "locked.json" then some (.other "Permission denied") else none

def linkedInputs : PlacementInputs :=
  ⟨some "env.json", some "ir.json", some .bmv2⟩

theorem places_linked {p : Placement} {ws : List PlacementWarning}
    (h : pair.place pairCabling Settings.default.placementOptions = .ok (p, ws)) :
    access.Places linked .default linkedInputs p :=
  ⟨.bmv2, "env.json", "ir.json", pairCabling, pair, ws, .inl rfl, rfl, .inl rfl, .inl rfl,
    ⟨pairCabling.render, rfl, Cabling.parse?_of_writtenAs pairCabling.writtenAs_render⟩,
    ⟨pair.render, rfl, pair.parse?_render⟩, h⟩

theorem refusal_of_locked {configured : Option String} {path : String}
    (h : Chosen (some "locked.json") configured path) : linked.refusal path ≠ none := by
  rcases h with h | ⟨h, -⟩
  · cases h
    decide
  · cases h

end Disk

end Overlay
