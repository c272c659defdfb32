import SceneScript.Config
import SceneScript.Program.Assembly

/-!
# Transpiling a scene

One run: load the configuration, make the output directory, assemble the program with its generated
modules, write the program, and write a manifest of what was made. A run that fails keeps what it
has written so far.
-/

namespace SceneScript

/-- What a run is asked to do. Files of the scene are looked up from `base`, by default from the
directory of the configuration. -/
structure Request where
  config : Path
  output : Path
  base : Option Path
  deriving DecidableEq, Repr

/-- What a run has made. -/
structure Report where
  outputFile : Path
  generatedFiles : List Path
  extraModules : List String
  glslifyFiles : List Path
  deriving DecidableEq, Repr

/-- The result of a run with the disk and the warnings it leaves. -/
structure Run where
  result : Except Error Report
  disk : Disk
  warnings : List Warning

namespace Report

/-- Paths as a value. -/
def pathList (paths : List Path) : Value :=
  .list (paths.map fun p => .string p.text)

/-- A report as a value. -/
def value (r : Report) : Value :=
  .mapping
    [("output_file", .string r.outputFile.text),
     ("generated_files", pathList r.generatedFiles),
     ("extra_modules", .list (r.extraModules.map .string)),
     ("glslify_files", pathList r.glslifyFiles)]

/-- The text of the manifest. -/
def manifest (r : Report) : String :=
  Json.pretty r.value

end Report

/-- The name of the manifest. -/
def manifestName : String :=
  "sihm-manifest.json"

namespace Request

/-- The directory that files of the scene are looked up from. -/
def baseDirectory (r : Request) : Path :=
  r.base.getD r.config.directory

/-- The directory of the program, its modules and its manifest. -/
def outputDirectory (r : Request) : Path :=
  r.output.directory

/-- The path of the manifest. -/
def manifestPath (r : Request) : Path :=
  r.outputDirectory.join ⟨manifestName⟩

end Request

/-- The report of a session that has assembled a scene. -/
def Session.report (s : Session) (r : Request) (scene : Scene) : Report where
  outputFile := r.output
  generatedFiles := s.generatedFiles
  extraModules := scene.options.extraModules
  glslifyFiles := s.glslify

/-- Writes the program and then the manifest. -/
def writeResults (r : Request) (scene : Scene) (program : String) (s : Session) :
    Except Error Report × Disk :=
  match writeGenerated s.disk r.output program with
  | .error e => (.error e, s.disk)
  | .ok d =>
    let report := s.report r scene
    match writeGenerated d r.manifestPath report.manifest with
    | .error e => (.error e, d)
    | .ok d => (.ok report, d)

/-- Assembles a scene that has been loaded, and writes the results. -/
def emitScene (r : Request) (scene : Scene) (d : Disk) : Run :=
  match (Emit.assemble scene).run (Session.new r.baseDirectory r.outputDirectory d) with
  | .error e s => ⟨.error e, s.disk, s.warnings⟩
  | .ok program s =>
    let (result, d) := writeResults r scene program s
    ⟨result, d, s.warnings⟩

/-- One run. -/
def transpile (r : Request) (d : Disk) : Run :=
  let warnings := Config.loadWarnings d r.config
  match Config.loadScene d r.config with
  | .error e => ⟨.error e, d, warnings⟩
  | .ok scene =>
    match d.makeDirectories r.outputDirectory with
    | (.error fault, d) => ⟨.error (.write r.outputDirectory fault), d, warnings⟩
    | (.ok (), d) =>
      let run := emitScene r scene d
      { run with warnings := warnings ++ run.warnings }

end SceneScript
