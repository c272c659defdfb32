import SceneScript.Proofs.Deliveries
import SceneScript.Proofs.JsonText
import SceneScript.Proofs.OutputDirectory
import SceneScript.Proofs.ProgramBody
import SceneScript.Transpile

/-!
# What a run leaves on the disk

A run ends in one of six ways (`Run.Ends`), and its disk differs from the one that it found by what
was written up to there. A session leaves complete modules and touches no other file, whether the
assembly succeeds or fails (`exists_leaves`). From this follow the two main results. `completed_run`
says what stands in the output directory after a run that succeeds, and that its manifest reads back
to its report. `failed_run` says for each step that may fail what is left on the disk.
-/

namespace SceneScript

/-! ## The manifest -/

namespace Report

/-- The texts in a list. -/
def texts? : Value → Option (List String)
  | .list items => items.mapM Value.string?
  | _ => none

/-- The report that a value holds. -/
def ofValue? (v : Value) : Option Report := do
  let entries ← v.mapping?
  let outputFile ← (← entries.get? "output_file").string?
  let generatedFiles ← texts? (← entries.get? "generated_files")
  let extraModules ← texts? (← entries.get? "extra_modules")
  let glslifyFiles ← texts? (← entries.get? "glslify_files")
  return ⟨⟨outputFile⟩, generatedFiles.map Path.mk, extraModules, glslifyFiles.map Path.mk⟩

theorem texts?_strings (texts : List String) :
    texts? (.list (texts.map .string)) = some texts := by
  show (texts.map Value.string).mapM Value.string? = some texts
  induction texts with
  | nil => rfl
  | cons text texts ih =>
    rw [List.map_cons, List.mapM_cons, ih]
    rfl

theorem pathList_eq (paths : List Path) :
    pathList paths = .list ((paths.map Path.text).map .string) := by
  rw [pathList, List.map_map]
  rfl

theorem map_mk_text (paths : List Path) : (paths.map Path.text).map Path.mk = paths := by
  rw [List.map_map]
  exact List.map_id paths

theorem ofValue?_value (r : Report) : ofValue? r.value = some r := by
  simp only [value, pathList_eq]
  show (do
    let generatedFiles ← texts? (.list ((r.generatedFiles.map Path.text).map .string))
    let extraModules ← texts? (.list (r.extraModules.map .string))
    let glslifyFiles ← texts? (.list ((r.glslifyFiles.map Path.text).map .string))
    return Report.mk r.outputFile (generatedFiles.map Path.mk) extraModules
      (glslifyFiles.map Path.mk) : Option Report) = some r
  simp only [texts?_strings, Option.bind_eq_bind, Option.bind_some, map_mk_text]
  rfl

theorem readableItems_strings (texts : List String) :
    Value.ReadableItems (texts.map .string) := by
  induction texts with
  | nil => trivial
  | cons text texts ih => exact ⟨trivial, ih⟩

theorem heightItems_strings (texts : List String) :
    Value.heightItems (texts.map .string) = 0 := by
  induction texts with
  | nil => rfl
  | cons text texts ih =>
    rw [List.map_cons, Value.heightItems, ih]
    rfl

/-- The manifest of a report reads back to it. -/
theorem read_manifest (r : Report) :
    (Json.read r.manifest).toOption.bind ofValue? = some r := by
  have hreadable : r.value.Readable := by
    simp only [value, pathList_eq, Value.Readable, Value.ReadableEntries, readableItems_strings,
      Entries.keys, List.map_cons, List.map_nil]
    decide
  have hheight : r.value.height ≤ Json.depthLimit := by
    simp only [value, pathList_eq, Value.height, Value.heightEntries, heightItems_strings]
    decide
  rw [manifest, Json.read_pretty r.value hreadable hheight]
  exact r.ofValue?_value

end Report

/-! ## How a run ends -/

/-- A run has loaded its scene and made its output directory. -/
structure Request.Starts (r : Request) (d : Disk) (scene : Scene) (d₁ : Disk) : Prop where
  load : Config.loadScene d r.config = .ok scene
  directory : d.makeDirectories r.outputDirectory = (.ok (), d₁)

/-- The session of a run. -/
def Request.session (r : Request) (d : Disk) : Session :=
  .new r.baseDirectory r.outputDirectory d

/-- The ways in which a run can end, with its result and the disk that it leaves. -/
inductive Run.Ends (r : Request) (d : Disk) : Except Error Report → Disk → Prop
  | notLoaded {e : Error} (hload : Config.loadScene d r.config = .error e) :
    Run.Ends r d (.error e) d
  | noDirectory {scene : Scene} {fault : Fault} {d₁ : Disk}
    (hload : Config.loadScene d r.config = .ok scene)
    (hdirectory : d.makeDirectories r.outputDirectory = (.error fault, d₁)) :
    Run.Ends r d (.error (.write r.outputDirectory fault)) d₁
  | notAssembled {scene : Scene} {d₁ : Disk} {e : Error} {s : Session}
    (hstarts : r.Starts d scene d₁)
    (hrun : (Emit.assemble scene).run (r.session d₁) = .error e s) : Run.Ends r d (.error e) s.disk
  | noProgram {scene : Scene} {d₁ : Disk} {program : String} {s : Session} {e : Error}
    (hstarts : r.Starts d scene d₁)
    (hrun : (Emit.assemble scene).run (r.session d₁) = .ok program s)
    (hprogram : writeGenerated s.disk r.output program = .error e) : Run.Ends r d (.error e) s.disk
  | noManifest {scene : Scene} {d₁ d₂ : Disk} {program : String} {s : Session} {e : Error}
    (hstarts : r.Starts d scene d₁)
    (hrun : (Emit.assemble scene).run (r.session d₁) = .ok program s)
    (hprogram : writeGenerated s.disk r.output program = .ok d₂)
    (hmanifest : writeGenerated d₂ r.manifestPath (s.report r scene).manifest = .error e) :
    Run.Ends r d (.error e) d₂
  | completed {scene : Scene} {d₁ d₂ d₃ : Disk} {program : String} {s : Session}
    (hstarts : r.Starts d scene d₁)
    (hrun : (Emit.assemble scene).run (r.session d₁) = .ok program s)
    (hprogram : writeGenerated s.disk r.output program = .ok d₂)
    (hmanifest : writeGenerated d₂ r.manifestPath (s.report r scene).manifest = .ok d₃) :
    Run.Ends r d (.ok (s.report r scene)) d₃

theorem ends_transpile (r : Request) (d : Disk) :
    Run.Ends r d (transpile r d).result (transpile r d).disk := by
  unfold transpile
  cases hload : Config.loadScene d r.config with
  | error e => exact .notLoaded hload
  | ok scene =>
    dsimp only
    rcases hdirectory : d.makeDirectories r.outputDirectory with ⟨_ | _, d₁⟩
    · exact .noDirectory hload hdirectory
    have hstarts : r.Starts d scene d₁ := ⟨hload, hdirectory⟩
    dsimp only [emitScene]
    cases hrun : (Emit.assemble scene).run (r.session d₁) with
    | error e s =>
      rw [Request.session] at hrun
      rw [hrun]
      exact .notAssembled hstarts hrun
    | ok program s =>
      rw [Request.session] at hrun
      rw [hrun]
      dsimp only [writeResults]
      cases hprogram : writeGenerated s.disk r.output program with
      | error e => exact .noProgram hstarts hrun hprogram
      | ok d₂ =>
        dsimp only
        cases hmanifest : writeGenerated d₂ r.manifestPath (s.report r scene).manifest with
        | error e => exact .noManifest hstarts hrun hprogram hmanifest
        | ok d₃ => exact .completed hstarts hrun hprogram hmanifest

/-- How a run ends is determined. -/
theorem Run.Ends.eq {r : Request} {d d' : Disk} {result : Except Error Report}
    (h : Run.Ends r d result d') :
    (transpile r d).result = result ∧ (transpile r d).disk = d' := by
  unfold transpile
  cases h with
  | notLoaded hload => simp [hload]
  | noDirectory hload hdirectory => simp [hload, hdirectory]
  | notAssembled hstarts hrun =>
    rw [Request.session] at hrun
    simp [hstarts.load, hstarts.directory, emitScene, hrun]
  | noProgram hstarts hrun hprogram =>
    rw [Request.session] at hrun
    simp [hstarts.load, hstarts.directory, emitScene, hrun, writeResults, hprogram]
  | noManifest hstarts hrun hprogram hmanifest =>
    rw [Request.session] at hrun
    simp [hstarts.load, hstarts.directory, emitScene, hrun, writeResults, hprogram, hmanifest]
  | completed hstarts hrun hprogram hmanifest =>
    rw [Request.session] at hrun
    simp [hstarts.load, hstarts.directory, emitScene, hrun, writeResults, hprogram, hmanifest]

/-! ## What a session leaves -/

theorem Stocked.changesOnly {start s : Store} {out : Path} {ds : List Delivery}
    (h : Stocked start out ds s) :
    Disk.ChangesOnly (s.modules.map (·.path out)) start.disk s.disk := by
  refine ⟨h.grows, fun l hl => ?_⟩
  obtain ⟨name, hname, hreach⟩ := h.frame l fun e => hl (Disk.file?_of_node? e)
  exact ⟨_, List.mem_map_of_mem hname, hreach⟩

theorem ModuleName.fileName_ne_manifestName (name : ModuleName) : name.fileName ≠ manifestName := by
  intro h
  have hlast := congrArg (fun text => text.toList.getLast?) h
  simp [fileName, manifestName] at hlast

namespace Request

variable {r : Request} {d d₁ : Disk} {scene : Scene} {ds : List Delivery} {s : Session}

theorem endsWith_manifestPath (r : Request) :
    ∃ before, Disk.EndsWith r.manifestPath before manifestName :=
  Disk.EndsWith.join r.outputDirectory (by decide +kernel) (by decide +kernel) (by decide +kernel)

theorem fileName?_manifestPath (r : Request) : r.manifestPath.fileName? = some manifestName := by
  obtain ⟨before, hends⟩ := r.endsWith_manifestPath
  exact hends.fileName?

/-- A session has left its modules: one for each of the distinct files and one for each of the
distinct keys of sets of images among the requests that succeeded. Different sets can have one key,
unless all names are of one line. Each module is complete, and no other file has changed. -/
structure Leaves (r : Request) (d d₁ : Disk) (ds : List Delivery) (s : Session) : Prop where
  delivered : (r.session d₁).store.DeliversAll ds s.store
  modules : s.modules = ModuleName.upTo (assetCount ds) (textureCount ds)
  changes : Disk.ChangesOnly (s.modules.map (·.path r.outputDirectory)) d s.disk
  holds : ∀ name ∈ s.modules, (r.session d₁).store.Holds r.outputDirectory ds s.disk name

theorem Starts.adds (h : r.Starts d scene d₁) : Disk.AddsDirectories d d₁ := by
  have hadds := d.makeDirectories_adds r.outputDirectory
  rw [h.directory] at hadds
  exact hadds

/-- Whether the assembly succeeds or fails, the session leaves its modules and no other change. -/
theorem exists_leaves (hstarts : r.Starts d scene d₁)
    (hs : (Emit.assemble scene).after (r.session d₁) = s) : ∃ ds, r.Leaves d d₁ ds s := by
  obtain ⟨ds, hds⟩ := Emit.keeps_delivered_assemble scene (r.session d₁) ⟨[], .nil⟩
  rw [hs] at hds
  have hstocked : Stocked (r.session d₁).store r.outputDirectory ds s.store := .of_deliversAll hds
  have hchanges := (Disk.ChangesOnly.of_adds hstarts.adds).trans hstocked.changesOnly
  exact ⟨ds, hds, hstocked.modules_eq, hchanges, hstocked.holds⟩

theorem exists_leaves_of_ok {program : String} (hstarts : r.Starts d scene d₁)
    (hrun : (Emit.assemble scene).run (r.session d₁) = .ok program s) :
    ∃ ds, r.Leaves d d₁ ds s :=
  exists_leaves hstarts (by simp only [Emit.after, hrun])

theorem exists_leaves_of_error {e : Error} (hstarts : r.Starts d scene d₁)
    (hrun : (Emit.assemble scene).run (r.session d₁) = .error e s) :
    ∃ ds, r.Leaves d d₁ ds s :=
  exists_leaves hstarts (by simp only [Emit.after, hrun])

/-- A file that has not the name of a module is as it was. -/
theorem Leaves.untouched (h : r.Leaves d d₁ ds s) {p : Path}
    (hp : ∀ name : ModuleName, p.fileName? ≠ some name.fileName) :
    Disk.Untouched p d s.disk := by
  apply h.changes.untouched
  intro q hq
  obtain ⟨name, -, rfl⟩ := List.mem_map.1 hq
  obtain ⟨before, hends⟩ := name.endsWith_path r.outputDirectory
  exact ⟨before, name.fileName, hends, hp name⟩

theorem Leaves.untouched_manifestPath (h : r.Leaves d d₁ ds s) :
    Disk.Untouched r.manifestPath d s.disk := by
  apply h.untouched
  intro name
  rw [r.fileName?_manifestPath]
  intro e
  exact name.fileName_ne_manifestName (Option.some.inj e).symm

end Request

/-! ## Runs that fail -/

/-- A run that fails has written no manifest. -/
theorem Run.Ends.untouched_manifestPath {r : Request} {d d' : Disk} {e : Error}
    (h : Run.Ends r d (.error e) d') : Disk.Untouched r.manifestPath d d' := by
  cases h with
  | notLoaded => exact fun l _ => rfl
  | noDirectory hload hdirectory =>
    have hadds := d.makeDirectories_adds r.outputDirectory
    rw [hdirectory] at hadds
    exact fun l _ => hadds.file? l
  | notAssembled hstarts hrun =>
    obtain ⟨ds, hleaves⟩ := Request.exists_leaves_of_error hstarts hrun
    exact hleaves.untouched_manifestPath
  | noProgram hstarts hrun =>
    obtain ⟨ds, hleaves⟩ := Request.exists_leaves_of_ok hstarts hrun
    exact hleaves.untouched_manifestPath
  | noManifest hstarts hrun hprogram hmanifest =>
    -- a directory has the name of the manifest, so the program is not there either
    intro l htarget
    obtain ⟨ds, hleaves⟩ := Request.exists_leaves_of_ok hstarts hrun
    have hwrite := writeGenerated_eq_ok.1 hprogram
    have hgrows := hleaves.changes.grows.trans (Disk.write_grows hwrite)
    obtain ⟨fault, hrefused⟩ := writeGenerated_eq_error.1 hmanifest
    exact hgrows.file?_of_directory (Disk.directory_of_write_error hrefused.1 htarget)

/-- What a run leaves that fails, for each of its steps. If the scene cannot be loaded, nothing
changes, and if the directory cannot be made, no file does. If the assembly fails, the files that
have changed are those of the modules that had been asked for, each complete: there are as many as
distinct files and distinct keys of sets of images. There are at most as many keys as sets, and just
as many if all names of the images are of one line. The program is not written then, nor the
manifest if the program is not: no run that fails writes a manifest. -/
theorem failed_run (r : Request) (d : Disk) :
    (∀ e, Config.loadScene d r.config = .error e →
      (transpile r d).result = .error e ∧ (transpile r d).disk = d) ∧
    (∀ scene fault d₁, Config.loadScene d r.config = .ok scene →
      d.makeDirectories r.outputDirectory = (.error fault, d₁) →
      (transpile r d).result = .error (.write r.outputDirectory fault) ∧
        ∀ l, (transpile r d).disk.file? l = d.file? l) ∧
    (∀ scene d₁ e s, r.Starts d scene d₁ →
      (Emit.assemble scene).run (r.session d₁) = .error e s →
      (transpile r d).result = .error e ∧ (transpile r d).disk = s.disk ∧
        (∃ ds, r.Leaves d d₁ ds s ∧
          textureCount ds ≤ (imagesOf ds).eraseDups.length ∧
          (d.cwd.Proper → (∀ places ∈ imagesOf ds, ∀ l ∈ places, l.OneLine) →
            textureCount ds = (imagesOf ds).eraseDups.length)) ∧
        ((∀ name : ModuleName, r.output.fileName? ≠ some name.fileName) →
          Disk.Untouched r.output d s.disk) ∧
        Disk.Untouched r.manifestPath d s.disk) ∧
    (∀ scene d₁ program s e, r.Starts d scene d₁ →
      (Emit.assemble scene).run (r.session d₁) = .ok program s →
      writeGenerated s.disk r.output program = .error e →
      (transpile r d).result = .error e ∧ (transpile r d).disk = s.disk ∧
        (∃ ds, r.Leaves d d₁ ds s) ∧ Disk.Untouched r.manifestPath d s.disk) ∧
    ∀ e, (transpile r d).result = .error e →
      Disk.Untouched r.manifestPath d (transpile r d).disk := by
  refine ⟨?_, ?_, ?_, ?_, ?_⟩
  · intro e hload
    exact (Run.Ends.notLoaded hload).eq
  · intro scene fault d₁ hload hdirectory
    obtain ⟨hresult, hdisk⟩ := (Run.Ends.noDirectory hload hdirectory).eq
    refine ⟨hresult, fun l => ?_⟩
    have hadds := d.makeDirectories_adds r.outputDirectory
    rw [hdirectory] at hadds
    rw [hdisk, hadds.file?]
  · intro scene d₁ e s hstarts hrun
    obtain ⟨hresult, hdisk⟩ := (Run.Ends.notAssembled hstarts hrun).eq
    obtain ⟨ds, hleaves⟩ := Request.exists_leaves_of_error hstarts hrun
    refine ⟨hresult, hdisk, ⟨ds, hleaves, textureCount_le ds, fun hcwd hline => ?_⟩,
      fun hname => hleaves.untouched hname, hleaves.untouched_manifestPath⟩
    have hcwd₁ : d₁.cwd.Proper := by
      rw [hstarts.adds.grows.cwd]
      exact hcwd
    exact textureCount_eq hleaves.delivered hcwd₁ hline
  · intro scene d₁ program s e hstarts hrun hprogram
    obtain ⟨hresult, hdisk⟩ := (Run.Ends.noProgram hstarts hrun hprogram).eq
    obtain ⟨ds, hleaves⟩ := Request.exists_leaves_of_ok hstarts hrun
    exact ⟨hresult, hdisk, ⟨ds, hleaves⟩, hleaves.untouched_manifestPath⟩
  · intro e hresult
    have hends := ends_transpile r d
    rw [hresult] at hends
    exact hends.untouched_manifestPath

/-- A request for an output in a directory of its own. -/
def study : Request :=
  ⟨⟨"scene.json"⟩, ⟨"out/main.js"⟩, none⟩

/-- The configuration of two meshes, of which one has no file. -/
def tornDisk : Disk where
  cwd := .root
  nodes :=
    [(⟨["mesh.obj"]⟩, .file "o".toUTF8),
      (⟨["scene.json"]⟩, .file (
        "\x7b\"OBJECTS\": \x7b\"mesh\": \x7b\"GEOMETRY\": \x7b\"FILE\": \"mesh.obj\"\x7d\x7d, " ++
        "\"gone\": \x7b\"GEOMETRY\": \x7b\"FILE\": \"gone.obj\"\x7d\x7d\x7d\x7d").toUTF8)]

/-- The module of the first mesh is left by a run that fails at the second. -/
theorem failed_run_torn :
    ∃ scene d₁ e s ds, study.Starts tornDisk scene d₁ ∧
      (Emit.assemble scene).run (study.session d₁) = .error e s ∧
      (transpile study tornDisk).result = .error e ∧ (transpile study tornDisk).disk = s.disk ∧
      study.Leaves tornDisk d₁ ds s ∧
      ModuleName.upTo (assetCount ds) (textureCount ds) = [.file 0] ∧
      Disk.Untouched study.manifestPath tornDisk s.disk := by
  have hmade : (tornDisk.makeDirectories study.outputDirectory).1.toOption = some () := by
    decide +kernel
  have hfails : (Config.loadScene tornDisk study.config).toOption.map (fun scene =>
      let start := study.session (tornDisk.makeDirectories study.outputDirectory).2
      decide (((Emit.assemble scene).run' start).isNone = true ∧
        ((Emit.assemble scene).after start).modules = [.file 0])) = some true := by
    decide +kernel
  rcases hdirectory : tornDisk.makeDirectories study.outputDirectory with ⟨_ | _, d₁⟩
  · rw [hdirectory] at hmade
    cases hmade
  cases hload : Config.loadScene tornDisk study.config with
  | error e =>
    rw [hload] at hfails
    cases hfails
  | ok scene =>
    rw [hload, hdirectory] at hfails
    obtain ⟨hnone, hmodules⟩ := of_decide_eq_true (Option.some.inj hfails)
    have hstarts : study.Starts tornDisk scene d₁ := ⟨hload, hdirectory⟩
    cases hrun : (Emit.assemble scene).run (study.session d₁) with
    | ok program s =>
      delta EStateM.run' at hnone
      rw [hrun] at hnone
      cases hnone
    | error e s =>
      simp only [Emit.after, hrun] at hmodules
      obtain ⟨-, -, hassembly, -, -⟩ := failed_run study tornDisk
      obtain ⟨hresult, hdisk, ⟨ds, hleaves, -⟩, -, hmanifest⟩ :=
        hassembly scene d₁ e s hstarts hrun
      rw [hleaves.modules] at hmodules
      exact ⟨scene, d₁, e, s, ds, hstarts, hrun, hresult, hdisk, hleaves, hmodules, hmanifest⟩

/-! ## Runs that succeed -/

theorem ModuleName.nodup_upTo (assets textures : Nat) : (upTo assets textures).Nodup := by
  have hfiles : ((List.range assets).map ModuleName.file).Nodup :=
    List.nodup_range.map fun _ _ h => ModuleName.file.inj h
  have htextures : ((List.range textures).map ModuleName.texture).Nodup :=
    List.nodup_range.map fun _ _ h => ModuleName.texture.inj h
  refine List.nodup_append.2 ⟨hfiles, htextures, ?_⟩
  intro name hname other hother
  obtain ⟨i, -, rfl⟩ := List.mem_map.1 hname
  obtain ⟨j, -, rfl⟩ := List.mem_map.1 hother
  exact nofun

theorem Session.InStep.generatedFiles_eq {out : Path} {s : Session} (h : s.InStep out) :
    s.generatedFiles = s.modules.map (·.path out) := by
  rw [generatedFiles, h.files.files, h.textures.files, modules, List.map_append, List.map_map,
    List.map_map]
  rfl

namespace Emit

variable {scene : Scene} {base out : Path} {d : Disk} {program : String} {s : Session}

theorem inStep_of_assemble (h : (assemble scene).run (.new base out d) = .ok program s) :
    s.InStep out := by
  have hkept := keeps_inStep_assemble out scene (.new base out d) (.new base out d)
  simpa only [after_of_ok h] using hkept

/-- A program starts with the fixed imports and the late inserts. -/
theorem exists_text_eq (h : (assemble scene).run (.new base out d) = .ok program s) :
    ∃ body, program = Template.imports ++
      String.join (s.inserts.imports ++ s.inserts.boilerplate) ++ Template.beginning ++ body := by
  obtain ⟨ss, -, -, htext, -⟩ := assemble_body writesEach_block h
  rw [htext, Inserts.headerText, String.append_assoc]
  exact ⟨_, rfl⟩

end Emit

namespace Request

variable {r : Request} {d d₁ d₂ d₃ : Disk} {scene : Scene} {ds : List Delivery} {s : Session}
  {program manifest : String}

/-- Only the files that a run is to make have changed. -/
theorem Leaves.changesOnly (h : r.Leaves d d₁ ds s)
    (hprogram : s.disk.write r.output program.toUTF8 = .ok d₂)
    (hmanifest : d₂.write r.manifestPath manifest.toUTF8 = .ok d₃) :
    Disk.ChangesOnly
      (r.output :: r.manifestPath :: s.modules.map (·.path r.outputDirectory)) d d₃ := by
  have hchanges := (h.changes.trans (.of_write hprogram)).trans (.of_write hmanifest)
  refine hchanges.mono fun p hp => ?_
  rcases List.mem_append.1 hp with hp | hp
  · rcases List.mem_append.1 hp with hp | hp
    · exact List.mem_cons_of_mem _ (List.mem_cons_of_mem _ hp)
    · rw [List.mem_singleton.1 hp]
      exact List.mem_cons_self
  · rw [List.mem_singleton.1 hp]
    exact List.mem_cons_of_mem _ List.mem_cons_self

/-- Writing the program and the manifest leaves the modules as they are. -/
theorem read_path_of_results
    (hmodule : ∀ name : ModuleName, r.output.fileName? ≠ some name.fileName)
    (hprogram : s.disk.write r.output program.toUTF8 = .ok d₂)
    (hmanifest : d₂.write r.manifestPath manifest.toUTF8 = .ok d₃) (name : ModuleName)
    {c : ByteArray} (hread : s.disk.read (name.path r.outputDirectory) = .ok c) :
    d₃.read (name.path r.outputDirectory) = .ok c := by
  obtain ⟨_, last, houtput⟩ := Disk.endsWith_of_write hprogram
  obtain ⟨_, hends⟩ := r.endsWith_manifestPath
  obtain ⟨_, hpath⟩ := name.endsWith_path r.outputDirectory
  have hlast : last ≠ name.fileName := by
    rintro rfl
    exact hmodule name houtput.fileName?
  have hread₂ := Disk.read_write_of_last_ne houtput hpath hlast hread hprogram
  exact Disk.read_write_of_last_ne hends hpath name.fileName_ne_manifestName.symm hread₂ hmanifest

theorem Leaves.holds_of_write (h : r.Leaves d d₁ ds s)
    (hmodule : ∀ name : ModuleName, r.output.fileName? ≠ some name.fileName)
    (hprogram : s.disk.write r.output program.toUTF8 = .ok d₂)
    (hmanifest : d₂.write r.manifestPath manifest.toUTF8 = .ok d₃) {name : ModuleName}
    (hname : name ∈ s.modules) :
    (r.session d₁).store.Holds r.outputDirectory ds d₃ name :=
  (h.holds name hname).mono fun _ hread =>
    read_path_of_results hmodule hprogram hmanifest name hread

/-- The program stays as it is when the manifest is written. -/
theorem read_output (hname : r.output.fileName? ≠ some manifestName)
    (hprogram : s.disk.write r.output program.toUTF8 = .ok d₂)
    (hmanifest : d₂.write r.manifestPath manifest.toUTF8 = .ok d₃) :
    d₃.read r.output = .ok program.toUTF8 := by
  obtain ⟨_, last, houtput⟩ := Disk.endsWith_of_write hprogram
  obtain ⟨_, hends⟩ := r.endsWith_manifestPath
  have hlast : manifestName ≠ last := by
    rintro rfl
    exact hname houtput.fileName?
  exact Disk.read_write_of_last_ne hends houtput hlast (Disk.read_of_write hprogram) hmanifest

/-- The report of a session lists its modules. -/
theorem Leaves.report_eq (h : r.Leaves d d₁ ds s) (hs : s.InStep r.outputDirectory) :
    s.report r scene = ⟨r.output, (ModuleName.upTo (assetCount ds) (textureCount ds)).map
      (·.path r.outputDirectory), scene.options.extraModules, s.glslify⟩ := by
  rw [Session.report, hs.generatedFiles_eq, h.modules]

end Request

/-- What stands on the disk after a run that succeeds, unless its output has the name of the
manifest or of a module. The output is the program of its scene. The generated files are the
modules, one for each of the distinct files and one for each of the distinct keys of sets of images:
no file twice, each complete, and all that the program imports or that need one more transformation.
The manifest stands next to the output and reads back to the report. No other file has changed. -/
theorem completed_run {r : Request} {d : Disk} {report : Report}
    (h : (transpile r d).result = .ok report)
    (hmanifest : r.output.fileName? ≠ some manifestName)
    (hmodule : ∀ name : ModuleName, r.output.fileName? ≠ some name.fileName) :
    ∃ scene d₁ program s ds body,
      r.Starts d scene d₁ ∧ (Emit.assemble scene).run (r.session d₁) = .ok program s ∧
      (r.session d₁).store.DeliversAll ds s.store ∧
      report = ⟨r.output, (ModuleName.upTo (assetCount ds) (textureCount ds)).map
        (·.path r.outputDirectory), scene.options.extraModules, s.glslify⟩ ∧
      (transpile r d).disk.read report.outputFile = .ok program.toUTF8 ∧
      report.generatedFiles.Nodup ∧
      (∀ name : ModuleName, name.path r.outputDirectory ∈ report.generatedFiles →
        (r.session d₁).store.Holds r.outputDirectory ds (transpile r d).disk name) ∧
      program = Template.imports ++ String.join (s.inserts.imports ++ s.inserts.boilerplate) ++
        Template.beginning ++ body ∧
      (∀ line ∈ s.inserts.imports, line ∈ Template.libraryImports ∨
        ∃ name : ModuleName, line = importLine name.text ∧
          name.path r.outputDirectory ∈ report.generatedFiles) ∧
      report.glslifyFiles ⊆ report.generatedFiles ∧
      (∃ text, (transpile r d).disk.readText r.manifestPath = .ok text ∧
        (Json.read text).toOption.bind Report.ofValue? = some report) ∧
      (∃ (directory : Location) (last : String),
        (transpile r d).disk.reach r.output = .ok (directory.child last) ∧
          (transpile r d).disk.reach r.manifestPath = .ok (directory.child manifestName)) ∧
      Disk.ChangesOnly (r.output :: r.manifestPath :: report.generatedFiles) d
        (transpile r d).disk := by
  have hends := ends_transpile r d
  rw [h] at hends
  generalize (transpile r d).disk = final at hends ⊢
  cases hends with
  | @completed scene d₁ d₂ final program s hstarts hrun hprogram hwritten =>
    have hwrite := writeGenerated_eq_ok.1 hprogram
    have hwrite' := writeGenerated_eq_ok.1 hwritten
    obtain ⟨ds, hleaves⟩ := Request.exists_leaves_of_ok hstarts hrun
    have hstep := Emit.inStep_of_assemble hrun
    obtain ⟨body, hbody⟩ := Emit.exists_text_eq hrun
    have hgenerated : (s.report r scene).generatedFiles =
        s.modules.map (·.path r.outputDirectory) := hstep.generatedFiles_eq
    have hmem {name : ModuleName} :
        name.path r.outputDirectory ∈ (s.report r scene).generatedFiles ↔ name ∈ s.modules := by
      rw [hgenerated]
      exact List.mem_map_of_injective (ModuleName.path_injective r.outputDirectory)
    refine ⟨scene, d₁, program, s, ds, body, hstarts, hrun, hleaves.delivered,
      hleaves.report_eq hstep, Request.read_output hmanifest hwrite hwrite', ?_,
      fun name hname => hleaves.holds_of_write hmodule hwrite hwrite' (hmem.1 hname), hbody, ?_, ?_,
      ⟨_, Disk.readText_of_read (Disk.read_of_write hwrite'), Report.read_manifest _⟩, ?_, ?_⟩
    · rw [hgenerated, hleaves.modules]
      exact (ModuleName.nodup_upTo _ _).map (ModuleName.path_injective r.outputDirectory)
    · intro line hline
      refine (hstep.imports_known line hline).imp_right ?_
      rintro ⟨name, hname, rfl⟩
      exact ⟨name, rfl, hmem.2 hname⟩
    · intro p hp
      exact List.mem_append_left _ (hstep.glslify_files p hp)
    · exact Disk.exists_reach_directory_join (by decide +kernel) (by decide +kernel)
        (by decide +kernel) hwrite hwrite'
    · rw [hgenerated]
      exact hleaves.changesOnly hwrite hwrite'

/-- The configuration of a mesh under a sky, with the two files that it names. -/
def studyDisk : Disk where
  cwd := .root
  nodes :=
    [(⟨["mesh.obj"]⟩, .file "o".toUTF8), (⟨["sky.png"]⟩, .file "A".toUTF8),
      (⟨["scene.json"]⟩, .file (
        "\x7b\"SCENE\": \x7b\"background\": \"sky.png\"\x7d, \"OBJECTS\": \x7b\"mesh\": " ++
        "\x7b\"GEOMETRY\": \x7b\"FILE\": \"mesh.obj\"\x7d\x7d\x7d\x7d").toUTF8)]

/-- The run makes a directory with four files. -/
theorem completed_run_study :
    ∃ report, (transpile study studyDisk).result = .ok report ∧
      report.generatedFiles = [⟨"out/EXTRA_FILE_0.js"⟩, ⟨"out/EXTRA_TEXTURE_0.js"⟩] ∧
      (∃ text, (transpile study studyDisk).disk.readText ⟨"out/sihm-manifest.json"⟩ = .ok text ∧
        (Json.read text).toOption.bind Report.ofValue? = some report) ∧
      Disk.ChangesOnly [⟨"out/main.js"⟩, ⟨"out/sihm-manifest.json"⟩, ⟨"out/EXTRA_FILE_0.js"⟩,
        ⟨"out/EXTRA_TEXTURE_0.js"⟩] studyDisk (transpile study studyDisk).disk := by
  have run : (transpile study studyDisk).result.toOption.map Report.generatedFiles =
      some [⟨"out/EXTRA_FILE_0.js"⟩, ⟨"out/EXTRA_TEXTURE_0.js"⟩] := by
    decide +kernel
  have houtput : study.output.fileName? = some "main.js" := by decide +kernel
  have hmodule (name : ModuleName) : study.output.fileName? ≠ some name.fileName := by
    intro e
    have hfirst := congrArg (fun text => text.toList.head?) (Option.some.inj (houtput.symm.trans e))
    cases name <;> simp [ModuleName.fileName, ModuleName.text] at hfirst
  have hmanifest : study.manifestPath = ⟨"out/sihm-manifest.json"⟩ := by decide +kernel
  cases hresult : (transpile study studyDisk).result with
  | error e =>
    rw [hresult] at run
    cases run
  | ok report =>
    rw [hresult] at run
    have hfiles : report.generatedFiles = _ := Option.some.inj run
    obtain ⟨scene, d₁, program, s, ds, body, -, -, -, -, -, -, -, -, -, -, hreads, -, hchanges⟩ :=
      completed_run hresult (by rw [houtput]; decide) hmodule
    rw [hmanifest] at hreads hchanges
    rw [hfiles] at hchanges
    exact ⟨report, rfl, hfiles, hreads, hchanges⟩

end SceneScript
