import SceneScript.Proofs.Asking
import SceneScript.Proofs.Transpile

/-!
# Runs that do not read what they write

`Request.lookups` lists the paths that a run resolves, probes or reads once it has its scene, and
`Request.writes` those that it writes. A run is undisturbed if no path of the first list denotes a
file of the second (`Request.overwrites`). Then it takes all its picks from the disk that it found
(`Request.Completes.draws`), so they do not depend on the output directory:
`output_directory_immaterial` compares two runs on one disk into two directories.
-/

namespace SceneScript

/-! ## What a run reads and writes -/

/-- Whether two paths lead to the same place. -/
def Disk.samePlace (d : Disk) (p q : Path) : Bool :=
  match d.locate p, d.locate q with
  | .ok l, .ok m => l = m
  | _, _ => false

theorem Disk.samePlace_of_locate {d : Disk} {p q : Path} {l : Location} (hp : d.locate p = .ok l)
    (hq : d.locate q = .ok l) : d.samePlace p q = true := by
  simp [samePlace, hp, hq]

namespace Request

/-- The paths that a run looks up for its scene. -/
def lookups (r : Request) (d : Disk) : List Path :=
  (Config.loadScene d r.config).toOption.elim [] fun scene =>
    scene.asks.flatMap fun a => a.lookups r.baseDirectory d

/-- The paths that a run writes if it succeeds. -/
def writes (r : Request) (d : Disk) : List Path :=
  (transpile r d).result.toOption.elim [] fun report =>
    report.outputFile :: r.manifestPath :: report.generatedFiles

/-- Whether a path denotes a file that a run has written. -/
def overwrites (r : Request) (d : Disk) (p : Path) : Bool :=
  (r.writes d).any fun q => (transpile r d).disk.samePlace p q

/-- The output has not the name of the manifest or of a module. -/
structure OwnName (r : Request) : Prop where
  manifest : r.output.fileName? ≠ some manifestName
  modules (name : ModuleName) : r.output.fileName? ≠ some name.fileName

theorem ownName_of_fileName? {r : Request} {name : String} (h : r.output.fileName? = some name)
    (hmanifest : name ≠ manifestName) (hfirst : name.toList.head? ≠ some 'E') : r.OwnName := by
  refine ⟨fun e => hmanifest (Option.some.inj (h.symm.trans e)), fun other e => hfirst ?_⟩
  rw [Option.some.inj (h.symm.trans e)]
  cases other <;> simp [ModuleName.fileName, ModuleName.text]

/-- A run into a directory that exists has written its program and its manifest. -/
structure Completes (r : Request) (d : Disk) (scene : Scene) (program : String) (s : Session)
    (d₂ d₃ : Disk) : Prop where
  load : Config.loadScene d r.config = .ok scene
  run : (Emit.assemble scene).run (r.session d) = .ok program s
  program : s.disk.write r.output program.toUTF8 = .ok d₂
  manifest : d₂.write r.manifestPath (s.report r scene).manifest.toUTF8 = .ok d₃

variable {r r' : Request} {d d₂ d₃ : Disk} {scene : Scene} {program : String} {s : Session}
  {report : Report}

theorem exists_completes (hdirectory : d.isDirectory r.outputDirectory = true)
    (h : (transpile r d).result = .ok report) :
    ∃ scene program s d₂, r.Completes d scene program s d₂ (transpile r d).disk ∧
      report = s.report r scene := by
  have hends := ends_transpile r d
  rw [h] at hends
  generalize (transpile r d).disk = final at hends ⊢
  cases hends with
  | @completed scene d₁ d₂ final program s hstarts hrun hprogram hwritten =>
    have hmade := hstarts.directory
    rw [Disk.makeDirectories_of_isDirectory hdirectory] at hmade
    cases hmade
    exact ⟨scene, program, s, d₂, ⟨hstarts.load, hrun, writeGenerated_eq_ok.1 hprogram,
      writeGenerated_eq_ok.1 hwritten⟩, rfl⟩

namespace Completes

/-- The run in terms of its result. -/
theorem eq (h : r.Completes d scene program s d₂ d₃)
    (hdirectory : d.isDirectory r.outputDirectory = true) :
    (transpile r d).result = .ok (s.report r scene) ∧ (transpile r d).disk = d₃ := by
  have hstarts : r.Starts d scene d := ⟨h.load, Disk.makeDirectories_of_isDirectory hdirectory⟩
  exact (Run.Ends.completed hstarts h.run (writeGenerated_eq_ok.2 h.program)
    (writeGenerated_eq_ok.2 h.manifest)).eq

theorem grows (h : r.Completes d scene program s d₂ d₃) : s.disk.Grows d₃ :=
  (Disk.write_grows h.program).trans (Disk.write_grows h.manifest)

theorem generatedFiles_eq (h : r.Completes d scene program s d₂ d₃) :
    (s.report r scene).generatedFiles = s.store.modules.map (·.path r.outputDirectory) :=
  (Emit.inStep_of_assemble h.run).generatedFiles_eq

theorem writes_eq (h : r.Completes d scene program s d₂ d₃)
    (hdirectory : d.isDirectory r.outputDirectory = true) :
    r.writes d =
      r.output :: r.manifestPath :: s.store.modules.map (·.path r.outputDirectory) := by
  rw [← h.generatedFiles_eq, writes, (h.eq hdirectory).1]
  rfl

end Completes

/-- A place that a run has written to. -/
def Written (r : Request) (d : Disk) (l : Location) : Prop :=
  ∃ q ∈ r.writes d, (transpile r d).disk.locate q = .ok l

theorem not_written_of_locate {p : Path} {l : Location} (h : r.overwrites d p = false)
    (hl : (transpile r d).disk.locate p = .ok l) : ¬ r.Written d l := by
  rintro ⟨q, hq, hwritten⟩
  have hplace := Disk.samePlace_of_locate hl hwritten
  rw [overwrites, List.any_eq_false] at h
  exact h q hq hplace

namespace Completes

theorem path_mem_writes (h : r.Completes d scene program s d₂ d₃)
    (hdirectory : d.isDirectory r.outputDirectory = true) {name : ModuleName}
    (hname : name ∈ s.store.modules) : name.path r.outputDirectory ∈ r.writes d := by
  rw [h.writes_eq hdirectory]
  exact List.mem_cons_of_mem _ (List.mem_cons_of_mem _ (List.mem_map_of_mem hname))

/-- A path that is written leads to a place that is written to. -/
theorem written_of_reach (h : r.Completes d scene program s d₂ d₃)
    (hdirectory : d.isDirectory r.outputDirectory = true) {q : Path} (hq : q ∈ r.writes d)
    {l : Location} (hl : d₃.reach q = .ok l) : r.Written d l :=
  ⟨q, hq, (h.eq hdirectory).2.symm ▸ Disk.locate_of_reach hl⟩

/-- The places of the modules are written to. -/
theorem written (h : r.Completes d scene program s d₂ d₃)
    (hdirectory : d.isDirectory r.outputDirectory = true) {name : ModuleName}
    (hname : name ∈ s.store.modules) {l : Location}
    (hl : s.disk.reach (name.path r.outputDirectory) = .ok l) : r.Written d l :=
  h.written_of_reach hdirectory (h.path_mem_writes hdirectory hname) (h.grows.reach hl)

/-- What the asks of the scene look up comes by nothing that is written. -/
theorem not_written (h : r.Completes d scene program s d₂ d₃)
    (hdirectory : d.isDirectory r.outputDirectory = true)
    (hclear : ∀ p ∈ r.lookups d, r.overwrites d p = false) {a : Ask} (ha : a ∈ scene.asks)
    {p : Path} (hp : p ∈ a.lookups r.baseDirectory d) {l : Location} (hl : d₃.locate p = .ok l) :
    ¬ r.Written d l := by
  refine not_written_of_locate (hclear p ?_) ((h.eq hdirectory).2.symm ▸ hl)
  rw [lookups, h.load]
  exact List.mem_flatMap.2 ⟨a, ha, hp⟩

/-- An undisturbed run takes its picks from the disk that it found. -/
theorem draws (h : r.Completes d scene program s d₂ d₃)
    (hdirectory : d.isDirectory r.outputDirectory = true)
    (hclear : ∀ p ∈ r.lookups d, r.overwrites d p = false) {picks : List (Option Pick)}
    (hserves : (r.session d).store.Serves r.baseDirectory scene.asks picks s.store) :
    Shelf.Draws r.baseDirectory d .empty scene.asks picks s.store.shelf := by
  exact hserves.draws (W := r.Written d) (Store.rooted_new _ _ d) (.refl _ d)
    (fun name hname l hl => h.written hdirectory hname hl)
    fun a ha p hp l hl => h.not_written hdirectory hclear ha hp (h.grows.locate hl)

end Completes

end Request

/-! ## Two output directories -/

/-- The output directory of an undisturbed run makes no difference. Two runs that start from the
same disk, for the same configuration and from the same base directory, into directories that exist,
leave the same program. They list the same modules and the same ones of them for one more
transformation, each in its own directory. Every module has the same contents in both directories,
and the extra modules are the same. -/
theorem output_directory_immaterial {r r' : Request} {d : Disk} {report report' : Report}
    (hconfig : r'.config = r.config) (hbase : r'.base = r.base)
    (hdirectory : d.isDirectory r.outputDirectory = true)
    (hdirectory' : d.isDirectory r'.outputDirectory = true)
    (hname : r.OwnName) (hname' : r'.OwnName)
    (hclear : ∀ p ∈ r.lookups d, r.overwrites d p = false ∧ r'.overwrites d p = false)
    (h : (transpile r d).result = .ok report) (h' : (transpile r' d).result = .ok report') :
    ∃ (program : ByteArray) (names noted : List ModuleName),
      (transpile r d).disk.read r.output = .ok program ∧
      (transpile r' d).disk.read r'.output = .ok program ∧
      report.generatedFiles = names.map (·.path r.outputDirectory) ∧
      report'.generatedFiles = names.map (·.path r'.outputDirectory) ∧
      report.glslifyFiles = noted.map (·.path r.outputDirectory) ∧
      report'.glslifyFiles = noted.map (·.path r'.outputDirectory) ∧
      (∀ name ∈ names, ∃ contents,
        (transpile r d).disk.read (name.path r.outputDirectory) = .ok contents ∧
        (transpile r' d).disk.read (name.path r'.outputDirectory) = .ok contents) ∧
      report'.extraModules = report.extraModules := by
  have hsame : r'.baseDirectory = r.baseDirectory := by
    rw [Request.baseDirectory, Request.baseDirectory, hconfig, hbase]
  have hlookups : r'.lookups d = r.lookups d := by
    rw [Request.lookups, Request.lookups, hconfig, hsame]
  obtain ⟨scene, program, s, d₂, hrun, rfl⟩ := Request.exists_completes hdirectory h
  obtain ⟨scene', program', s', d₂', hrun', rfl⟩ := Request.exists_completes hdirectory' h'
  obtain rfl : scene' = scene := by
    have hload := hrun'.load
    rw [hconfig, hrun.load] at hload
    exact (Except.ok.inj hload).symm
  -- both runs get the picks that the disk before them gives
  obtain ⟨-, picks, hserves, hreplay⟩ := Emit.asking_assemble r.baseDirectory r.outputDirectory
    r'.outputDirectory scene' _ _ _ (Session.rooted_new _ _ d) hrun.run
  obtain ⟨-, picks', hserves', -⟩ := Emit.asking_assemble r'.baseDirectory r'.outputDirectory
    r'.outputDirectory scene' _ _ _ (Session.rooted_new _ _ d) hrun'.run
  have hdraws := hrun.draws hdirectory (fun p hp => (hclear p hp).1) hserves
  have hdraws' := hrun'.draws hdirectory' (fun p hp => (hclear p (hlookups ▸ hp)).2) hserves'
  rw [hsame] at hdraws' hserves'
  obtain ⟨rfl, hshelf⟩ := hdraws.eq hdraws'
  have hmodules : s'.store.modules = s.store.modules := congrArg Shelf.modules hshelf.symm
  -- so the second run is the first one replayed
  obtain ⟨t, ht, -, halike⟩ := hreplay _ s'.store (Session.alike_new _ _ _ d d) hserves'
  have hassembled := hrun'.run
  rw [Request.session, hsame, ht] at hassembled
  cases hassembled
  obtain ⟨noted, hnoted, hnoted'⟩ := halike.glslify
  refine ⟨program.toUTF8, s.store.modules, noted,
    Request.read_output hname.manifest hrun.program hrun.manifest,
    Request.read_output hname'.manifest hrun'.program hrun'.manifest, hrun.generatedFiles_eq,
    hmodules ▸ hrun'.generatedFiles_eq, hnoted, hnoted', fun name hmem => ?_, rfl⟩
  obtain ⟨k, text, hk, hmade, rfl⟩ :=
    hserves.exists_made (Store.rooted_new _ _ d) hmem (Store.not_mem_modules_new _ _ _ _)
  have hread := (hserves.read_of_made (Store.rooted_new _ _ d) hk hmade).2
  have hread' := (hserves'.read_of_made (Store.rooted_new _ _ d) hk hmade).2
  exact ⟨text.toUTF8,
    Request.read_path_of_results hname.modules hrun.program hrun.manifest _ hread,
    Request.read_path_of_results hname'.modules hrun'.program hrun'.manifest _ hread'⟩

/-- Another output for the same configuration. -/
def sibling : Request :=
  ⟨⟨"scene.json"⟩, ⟨"lib/app.js"⟩, none⟩

/-- A mesh with a material library that names an image, and two directories for the output. -/
def libraryDisk : Disk where
  cwd := .root
  nodes :=
    [(⟨["out"]⟩, .directory), (⟨["lib"]⟩, .directory), (⟨["mesh.obj"]⟩, .file "o".toUTF8),
      (⟨["mesh.mtl"]⟩, .file "map_Kd sky.png".toUTF8), (⟨["sky.png"]⟩, .file "A".toUTF8),
      (⟨["scene.json"]⟩, .file (
        "\x7b\"OBJECTS\": \x7b\"mesh\": \x7b\"GEOMETRY\": \x7b\"FILE\": \"mesh.obj\"\x7d, " ++
        "\"MATERIAL\": \x7b\"FILE\": \"mesh.mtl\"\x7d\x7d\x7d\x7d").toUTF8)]

/-- Both runs make the modules of the library and of the mesh. -/
theorem output_directory_immaterial_library :
    (∀ p ∈ study.lookups libraryDisk,
      study.overwrites libraryDisk p = false ∧ sibling.overwrites libraryDisk p = false) ∧
    ∃ program : ByteArray,
      (transpile study libraryDisk).disk.read ⟨"out/main.js"⟩ = .ok program ∧
      (transpile sibling libraryDisk).disk.read ⟨"lib/app.js"⟩ = .ok program ∧
      ∀ name ∈ [ModuleName.file 0, .file 1], ∃ contents,
        (transpile study libraryDisk).disk.read (name.path ⟨"out"⟩) = .ok contents ∧
        (transpile sibling libraryDisk).disk.read (name.path ⟨"lib"⟩) = .ok contents := by
  obtain ⟨hclear, run, run'⟩ : (∀ p ∈ study.lookups libraryDisk,
      study.overwrites libraryDisk p = false ∧ sibling.overwrites libraryDisk p = false) ∧
      (transpile study libraryDisk).result.toOption.map Report.generatedFiles =
        some ([ModuleName.file 0, .file 1].map (·.path ⟨"out"⟩)) ∧
      (transpile sibling libraryDisk).result.toOption.isSome = true := by
    decide +kernel
  have hout : study.outputDirectory = ⟨"out"⟩ := by decide +kernel
  have hlib : sibling.outputDirectory = ⟨"lib"⟩ := by decide +kernel
  have hname : study.OwnName :=
    Request.ownName_of_fileName? (show _ = some "main.js" by decide +kernel) (by decide) (by decide)
  have hname' : sibling.OwnName :=
    Request.ownName_of_fileName? (show _ = some "app.js" by decide +kernel) (by decide) (by decide)
  refine ⟨hclear, ?_⟩
  cases h : (transpile study libraryDisk).result with
  | error e =>
    rw [h] at run
    cases run
  | ok report =>
    rw [h] at run
    cases h' : (transpile sibling libraryDisk).result with
    | error e =>
      rw [h'] at run'
      cases run'
    | ok report' =>
      obtain ⟨program, names, noted, hread, hread', hfiles, -, -, -, hcontents, -⟩ :=
        output_directory_immaterial (show sibling.config = study.config from rfl) rfl
          (by decide +kernel) (by decide +kernel) hname hname' hclear h h'
      have hpaths := (Option.some.inj run).symm.trans hfiles
      rw [hout] at hpaths
      rw [hout, hlib, ← List.map_injective_iff.2 (ModuleName.path_injective _) hpaths] at hcontents
      exact ⟨program, hread, hread', hcontents⟩

end SceneScript
