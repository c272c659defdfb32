import SceneScript.CommandLine
import SceneScript.Proofs.Undisturbed

/-!
# Files that a run overwrites

A run writes its modules, its program and its manifest over whatever stands there, also over files
that it has read (`read_files_overwritten`). `Request.filesWritten` lists what it writes, whether it
succeeds or fails, and it changes no other file (`Request.wrote_of_ends`). So for every command line
a file survives that stands at none of these places, and the names alone often show that it does:
`read_files_survive`.
-/

namespace SceneScript

/-! ## What a run writes -/

namespace Request

/-- The program and the manifest, as far as they can be written. -/
def resultsWritten (r : Request) (scene : Scene) (s : Session) (program : String) : List Path :=
  (writeGenerated s.disk r.output program).toOption.elim [] fun d =>
    r.output :: (writeGenerated d r.manifestPath (s.report r scene).manifest).toOption.elim []
      fun _ => [r.manifestPath]

/-- The files that an assembly and the results after it write. -/
def sceneWritten (r : Request) (scene : Scene) (d : Disk) : List Path :=
  let s := (Emit.assemble scene).after (r.session d)
  s.generatedFiles ++
    ((Emit.assemble scene).result (r.session d)).toOption.elim [] (r.resultsWritten scene s)

/-- The files that a run writes in this order, whether it succeeds or fails. -/
def filesWritten (r : Request) (d : Disk) : List Path :=
  (Config.loadScene d r.config).toOption.elim [] fun scene =>
    (d.makeDirectories r.outputDirectory).1.toOption.elim [] fun _ =>
      r.sceneWritten scene (d.makeDirectories r.outputDirectory).2

variable {r : Request} {d d₁ : Disk} {scene : Scene}

theorem filesWritten_of_starts (h : r.Starts d scene d₁) :
    r.filesWritten d = r.sceneWritten scene d₁ := by
  rw [filesWritten, h.load, h.directory]
  rfl

theorem sceneWritten_of_error {e : Error} {s : Session}
    (h : (Emit.assemble scene).run (r.session d) = .error e s) :
    r.sceneWritten scene d = s.generatedFiles := by
  simp only [sceneWritten, Emit.after, Emit.result, h, Except.toOption, Option.elim,
    List.append_nil]

theorem sceneWritten_of_ok {program : String} {s : Session}
    (h : (Emit.assemble scene).run (r.session d) = .ok program s) :
    r.sceneWritten scene d = s.generatedFiles ++ r.resultsWritten scene s program := by
  simp only [sceneWritten, Emit.after, Emit.result, h, Except.toOption, Option.elim]

theorem resultsWritten_of_ok {program : String} {s : Session} {d₂ d₃ : Disk}
    (hprogram : writeGenerated s.disk r.output program = .ok d₂)
    (hmanifest : writeGenerated d₂ r.manifestPath (s.report r scene).manifest = .ok d₃) :
    r.resultsWritten scene s program = [r.output, r.manifestPath] := by
  simp only [resultsWritten, hprogram, hmanifest, Except.toOption, Option.elim]

/-- A run has written some of its files, and nothing else. -/
structure Wrote (r : Request) (d : Disk) (ps : List Path) (d' : Disk) : Prop where
  changes : Disk.ChangesOnly ps d d'
  isFile (q : Path) (hq : q ∈ ps) : d'.isFile q = true
  named (q : Path) (hq : q ∈ ps) : ∃ before last, Disk.EndsWith q before last
  own (q : Path) (hq : q ∈ ps) :
    q = r.output ∨ q = r.manifestPath ∨ ∃ name : ModuleName, q = name.path r.outputDirectory

namespace Wrote

variable {ps : List Path} {d' d'' : Disk} {q : Path} {c : ByteArray}

theorem of_adds (h : Disk.AddsDirectories d d') : r.Wrote d [] d' :=
  ⟨.of_adds h, List.forall_mem_nil _, List.forall_mem_nil _, List.forall_mem_nil _⟩

theorem snoc (h : r.Wrote d ps d') (hwrite : d'.write q c = .ok d'')
    (hq : q = r.output ∨ q = r.manifestPath ∨
      ∃ name : ModuleName, q = name.path r.outputDirectory) :
    r.Wrote d (ps ++ [q]) d'' := by
  refine ⟨h.changes.trans (.of_write hwrite), fun p hp => ?_, fun p hp => ?_, fun p hp => ?_⟩
  · rcases List.mem_append.1 hp with hp | hp
    · exact (Disk.write_grows hwrite).isFile (h.isFile p hp)
    · rw [List.mem_singleton.1 hp]
      exact Disk.isFile_of_write hwrite
  · rcases List.mem_append.1 hp with hp | hp
    · exact h.named p hp
    · rw [List.mem_singleton.1 hp]
      exact Disk.endsWith_of_write hwrite
  · rcases List.mem_append.1 hp with hp | hp
    · exact h.own p hp
    · exact List.mem_singleton.1 hp ▸ hq

/-- The modules of a session. -/
theorem of_starts {s : Session} (hstarts : r.Starts d scene d₁)
    (hs : (Emit.assemble scene).after (r.session d₁) = s) : r.Wrote d s.generatedFiles s.disk := by
  obtain ⟨ds, hleaves⟩ := exists_leaves hstarts hs
  have hstep : s.InStep r.outputDirectory :=
    hs ▸ Emit.keeps_inStep_assemble r.outputDirectory scene _ (.new _ _ d₁)
  have hfiles := hstep.generatedFiles_eq
  have hmodule (q : Path) (hq : q ∈ s.generatedFiles) :
      ∃ name : ModuleName, q = name.path r.outputDirectory := by
    rw [hfiles] at hq
    obtain ⟨name, -, rfl⟩ := List.mem_map.1 hq
    exact ⟨name, rfl⟩
  refine ⟨hfiles ▸ hleaves.changes, hstep.isFile, fun q hq => ?_,
    fun q hq => .inr (.inr (hmodule q hq))⟩
  obtain ⟨name, rfl⟩ := hmodule q hq
  obtain ⟨before, hends⟩ := name.endsWith_path r.outputDirectory
  exact ⟨before, _, hends⟩

end Wrote

/-- However a run ends, it has written the files that are listed for it and nothing else. -/
theorem wrote_of_ends {result : Except Error Report} {d' : Disk} (h : Run.Ends r d result d') :
    r.Wrote d (r.filesWritten d) d' := by
  cases h with
  | notLoaded hload =>
    rw [filesWritten, hload]
    exact .of_adds (.refl d)
  | noDirectory hload hdirectory =>
    rw [filesWritten, hload, hdirectory]
    have hadds := d.makeDirectories_adds r.outputDirectory
    rw [hdirectory] at hadds
    exact .of_adds hadds
  | notAssembled hstarts hrun =>
    rw [filesWritten_of_starts hstarts, sceneWritten_of_error hrun]
    exact .of_starts hstarts (by simp only [Emit.after, hrun])
  | @noProgram scene d₁ program s e hstarts hrun hprogram =>
    have hmodules : r.Wrote d s.generatedFiles s.disk :=
      .of_starts hstarts (by simp only [Emit.after, hrun])
    rw [filesWritten_of_starts hstarts, sceneWritten_of_ok hrun, resultsWritten, hprogram]
    exact (List.append_nil s.generatedFiles).symm ▸ hmodules
  | @noManifest scene d₁ d₂ program s e hstarts hrun hprogram hmanifest =>
    have hmodules : r.Wrote d s.generatedFiles s.disk :=
      .of_starts hstarts (by simp only [Emit.after, hrun])
    rw [filesWritten_of_starts hstarts, sceneWritten_of_ok hrun, resultsWritten, hprogram]
    simp only [Except.toOption, Option.elim, hmanifest]
    exact hmodules.snoc (writeGenerated_eq_ok.1 hprogram) (.inl rfl)
  | @completed scene d₁ d₂ d₃ program s hstarts hrun hprogram hmanifest =>
    have hmodules : r.Wrote d s.generatedFiles s.disk :=
      .of_starts hstarts (by simp only [Emit.after, hrun])
    rw [filesWritten_of_starts hstarts, sceneWritten_of_ok hrun,
      resultsWritten_of_ok hprogram hmanifest, List.append_cons]
    exact (hmodules.snoc (writeGenerated_eq_ok.1 hprogram) (.inl rfl)).snoc
      (writeGenerated_eq_ok.1 hmanifest) (.inr (.inl rfl))

/-- A run that succeeds has written all that it reports, and the manifest. -/
theorem filesWritten_of_ok {report : Report} (h : (transpile r d).result = .ok report) :
    r.filesWritten d = report.generatedFiles ++ [report.outputFile, r.manifestPath] := by
  have hends := ends_transpile r d
  rw [h] at hends
  generalize (transpile r d).disk = final at hends
  cases hends with
  | completed hstarts hrun hprogram hmanifest =>
    rw [filesWritten_of_starts hstarts, sceneWritten_of_ok hrun,
      resultsWritten_of_ok hprogram hmanifest]
    rfl

end Request

/-! ## Names that are not written -/

namespace Path

/-- What is left of a name before its last point is not empty, and is taken from the name. -/
theorem cutName_fst {name : String} (h : name ≠ "") :
    (cutName name).1 ≠ "" ∧ ∀ c ∈ (cutName name).1.toList, c ∈ name.toList := by
  have hdropped := (List.dropWhile_suffix (· ≠ '.') (l := name.toList.reverse)).subset
  simp only [cutName]
  split
  · exact ⟨h, fun c hc => hc⟩
  · exact ⟨h, fun c hc => hc⟩
  · rename_i point before hbefore hdrop
    rw [hdrop] at hdropped
    refine ⟨fun e => hbefore ?_, fun c hc => ?_⟩
    · simpa using congrArg String.toList e
    · have hc : c ∈ before := by simpa using hc
      exact List.mem_reverse.1 (hdropped (List.mem_cons_of_mem _ hc))

/-- A path that is given an extension has it, if it has a name at all. -/
theorem cutName_withExtension {p : Path} {extension name : String} (hne : extension ≠ "")
    (hpoint : '.' ∉ extension.toList) (hslash : '/' ∉ extension.toList)
    (h : (p.withExtension extension).fileName? = some name) :
    (cutName name).2 = some extension := by
  unfold withExtension at h
  dsimp only at h
  -- what is dropped first does not matter: the name that is left gets the new extension
  generalize p.dropExtension = q at h
  have hsegments : ∀ segment ∈ q.essential, '/' ∉ segment.toList := fun segment hsegment =>
    slash_not_mem_segments (List.mem_reverse.1 (List.dropWhile_suffix _ |>.subset hsegment))
  have hhead := List.head?_dropWhile_not isVoid q.segments.reverse
  rw [← essential] at hhead
  cases hessential : q.essential with
  | nil => simp [hessential, fileName?] at h
  | cons last before =>
    rw [hessential] at h hsegments hhead
    dsimp only at h
    split_ifs at h with hup
    · simp [fileName?, hessential, hup] at h
    · have hlast : last ≠ "" := fun e => by simp [e, isVoid] at hhead
      obtain ⟨hstem, hchars⟩ := cutName_fst hlast
      have hcut := cutName_append hstem hpoint
      generalize (cutName last).1 = stem at h hchars hcut
      have hother {text : String} (ht : (cutName text).2 ≠ some extension) :
          stem ++ "." ++ extension ≠ text := by
        rintro rfl
        exact ht (by rw [hcut])
      have hempty : stem ++ "." ++ extension ≠ "" := hother (by simp [cutName])
      have hdot : stem ++ "." ++ extension ≠ "." := hother (by simp [cutName])
      have hdots : stem ++ "." ++ extension ≠ ".." := hother (by simpa [cutName] using hne.symm)
      have hends : Disk.EndsWith (ofSegments (before.reverse ++ [stem ++ "." ++ extension]))
          before.reverse (stem ++ "." ++ extension) := by
        refine ⟨segments_ofSegments (by simp) fun segment hsegment => ?_, ?_, hdots⟩
        · rcases List.mem_append.1 hsegment with hsegment | hsegment
          · exact hsegments segment (List.mem_cons_of_mem _ (List.mem_reverse.1 hsegment))
          · have hclean := hsegments last List.mem_cons_self
            rw [List.mem_singleton.1 hsegment]
            simp only [String.toList_append, List.mem_append, not_or]
            exact ⟨⟨fun hc => hclean (hchars _ hc), by decide⟩, hslash⟩
        · simp [isVoid, hempty, hdot]
      rw [hends.fileName?] at h
      cases h
      rw [hcut]

end Path

namespace Disk

variable {d d' : Disk} {p q : Path} {c : ByteArray} {name : String}

/-- Paths that lead to the same place end with the same name. -/
theorem fileName?_of_samePlace {before before' : List String} {last : String} {l m : Location}
    (hp : EndsWith p before name) (hq : EndsWith q before' last) (hl : d.reach p = .ok l)
    (hm : d.reach q = .ok m) (h : d.samePlace p q = true) : q.fileName? = some name := by
  simp only [samePlace, locate_of_reach hl, locate_of_reach hm, decide_eq_true_eq] at h
  obtain ⟨parent, -, hplace, -⟩ := leadsInto_of_reach hp hl
  obtain ⟨parent', -, hplace', -⟩ := leadsInto_of_reach hq hm
  rw [hq.fileName?, (child_inj (hplace.symm.trans (h.trans hplace'))).2]

/-- A file that is read keeps its contents or stands where one of the changed files does. -/
theorem ChangesOnly.read_or {ps : List Path} (h : ChangesOnly ps d d')
    (hread : d.read p = .ok c) : d'.read p = .ok c ∨ ∃ q ∈ ps, d'.samePlace p q = true := by
  obtain ⟨l, hl, hnode⟩ := read_eq_ok.1 hread
  by_cases hfile : d'.file? l = d.file? l
  · have hnode' : d'.node? l = some (.file c) := by
      simp only [file?, hnode] at hfile
      split at hfile
      · cases hfile
        assumption
      · cases hfile
    exact .inl (read_eq_ok.2 ⟨l, h.grows.reach hl, hnode'⟩)
  · obtain ⟨q, hq, hreach⟩ := h.changed l hfile
    have hplace := samePlace_of_locate (locate_of_reach (h.grows.reach hl)) (locate_of_reach hreach)
    exact .inr ⟨q, hq, hplace⟩

end Disk

namespace Invocation

theorem eq_of_ofText_output {text : String} (h : Word.ofText text = .option .output) :
    text = "--output" ∨ text = "-o" := by
  unfold Word.ofText at h
  split_ifs at h with h₁ h₂ h₃ h₄ <;> simp_all

/-- Without the option the output is not set. -/
theorem output_of_readFrom {i j : Invocation} {args : List String} (h : readFrom i args = .ok j)
    (hlong : "--output" ∉ args) (hshort : "-o" ∉ args) : j.output = i.output := by
  fun_induction readFrom i args with
  | case1 i =>
    cases h
    rfl
  | case2 i word rest hword ih =>
    exact ih h (List.not_mem_of_not_mem_cons hlong) (List.not_mem_of_not_mem_cons hshort)
  | case3 => cases h
  | case4 => cases h
  | case5 i word name hword value rest ih =>
    have hset : (i.set name ⟨value⟩).output = i.output := by
      cases name with
      | input => rfl
      | base => rfl
      | output =>
        rcases eq_of_ofText_output hword with rfl | rfl
        · exact absurd List.mem_cons_self hlong
        · exact absurd List.mem_cons_self hshort
    rw [← hset]
    exact ih h (fun hmem => hlong (by simp [hmem])) fun hmem => hshort (by simp [hmem])

/-- The output is then the configuration with another extension. -/
theorem output_of_request {args : List String} {i : Invocation} {r : Request}
    (hread : read args = .ok i) (hrequest : i.request = .ok r) (hlong : "--output" ∉ args)
    (hshort : "-o" ∉ args) : r.output = r.config.withExtension "js" := by
  have houtput : i.output = none := output_of_readFrom hread hlong hshort
  unfold request at hrequest
  split at hrequest <;> cases hrequest
  rw [houtput, Option.getD_none]

end Invocation

/-! ## Files that survive -/

/-- A run changes no file but those that it writes, whether it succeeds or fails. It writes its
program, its manifest and its modules, and all that it reports if it succeeds. A file keeps its
contents wherever it stands if its name has not the extension of a module, is not that of the
manifest and not that of an output on the command line. -/
theorem read_files_survive {args : List String} {i : Invocation} {r : Request}
    (hread : Invocation.read args = .ok i) (hrequest : i.request = .ok r) (d : Disk) :
    (∀ p c, d.read p = .ok c →
      (transpile r d).disk.read p = .ok c ∨
        ∃ q ∈ r.filesWritten d, (transpile r d).disk.samePlace p q = true) ∧
    (∀ q ∈ r.filesWritten d, (transpile r d).disk.isFile q = true ∧
      (q = r.output ∨ q = r.manifestPath ∨
        ∃ name : ModuleName, q = name.path r.outputDirectory)) ∧
    (∀ report, (transpile r d).result = .ok report →
      r.filesWritten d = report.generatedFiles ++ [report.outputFile, r.manifestPath]) ∧
    ∀ p c name, d.read p = .ok c → p.fileName? = some name → p.extension? ≠ some "js" →
      name ≠ manifestName →
      ("--output" ∉ args ∧ "-o" ∉ args ∨ r.output.fileName? ≠ some name) →
      (transpile r d).disk.read p = .ok c := by
  have hwrote := Request.wrote_of_ends (ends_transpile r d)
  refine ⟨fun p c => hwrote.changes.read_or, fun q hq => ⟨hwrote.isFile q hq, hwrote.own q hq⟩,
    fun report => Request.filesWritten_of_ok, ?_⟩
  intro p c name hp hname hextension hmanifest houtput
  refine (hwrote.changes.read_or hp).resolve_right ?_
  rintro ⟨q, hq, hplace⟩
  have hjs (h : (Path.cutName name).2 = some "js") : False :=
    hextension (by rw [Path.extension?, hname, Option.bind_some, h])
  -- a written file at this place has the same name
  obtain ⟨before, hends⟩ := Disk.endsWith_of_read hp hname
  obtain ⟨before', last, hends'⟩ := hwrote.named q hq
  obtain ⟨l, hl, -⟩ := Disk.read_eq_ok.1 hp
  obtain ⟨m, -, hm, -⟩ := Disk.isFile_iff.1 (hwrote.isFile q hq)
  have hsame := Disk.fileName?_of_samePlace hends hends' (hwrote.changes.grows.reach hl) hm hplace
  obtain rfl | rfl | ⟨other, rfl⟩ := hwrote.own q hq
  · rcases houtput with ⟨hlong, hshort⟩ | houtput
    · rw [Invocation.output_of_request hread hrequest hlong hshort] at hsame
      exact hjs (Path.cutName_withExtension (by decide) (by decide) (by decide) hsame)
    · exact houtput hsame
  · rw [r.fileName?_manifestPath] at hsame
    exact hmanifest (Option.some.inj hsame).symm
  · obtain ⟨front, hmodule⟩ := other.endsWith_path r.outputDirectory
    rw [hmodule.fileName?] at hsame
    exact hjs (Option.some.inj hsame ▸ other.cutName_fileName)

/-- A configuration with its output beside it. -/
def beside : Request :=
  ⟨⟨"scene.json"⟩, ⟨"scene.js"⟩, none⟩

/-- A mesh that has the name of the first module. -/
def crowdedDisk : Disk where
  cwd := .root
  nodes :=
    [(⟨["EXTRA_FILE_0.js"]⟩, .file "v".toUTF8),
      (⟨["scene.json"]⟩, .file (
        "\x7b\"OBJECTS\": \x7b\"mesh\": \x7b\"GEOMETRY\": " ++
        "\x7b\"FILE\": \"EXTRA_FILE_0.js\"\x7d\x7d\x7d\x7d").toUTF8)]

/-- The configuration survives, though the mesh does not. -/
theorem read_files_survive_crowded :
    Invocation.read ["--input", "scene.json"] = .ok ⟨some ⟨"scene.json"⟩, none, none, false⟩ ∧
    ∃ c, crowdedDisk.read ⟨"scene.json"⟩ = .ok c ∧
      (transpile beside crowdedDisk).disk.read ⟨"scene.json"⟩ = .ok c := by
  have hread : Invocation.read ["--input", "scene.json"] =
      .ok ⟨some ⟨"scene.json"⟩, none, none, false⟩ := by decide +kernel
  have hrequest : Invocation.request ⟨some ⟨"scene.json"⟩, none, none, false⟩ = .ok beside := by
    decide +kernel
  obtain ⟨-, -, -, hsurvive⟩ := read_files_survive hread hrequest crowdedDisk
  refine ⟨hread, _, rfl, hsurvive ⟨"scene.json"⟩ _ "scene.json" rfl ?_ ?_ ?_ ?_⟩
  · decide +kernel
  · decide +kernel
  · decide +kernel
  · exact .inl (by decide)

/-- Two configurations without a scene. -/
def bareDisk : Disk where
  cwd := .root
  nodes :=
    [(⟨["scene.json"]⟩, .file "\x7b\x7d".toUTF8), (⟨[manifestName]⟩, .file "\x7b\x7d".toUTF8)]

/-- A run embeds a mesh and writes the module over it. Another one writes the program over its
configuration, and a third one the manifest. -/
theorem read_files_overwritten :
    (Command.ofArguments ["--input", "scene.json"] = .transpile beside ∧
      beside.lookups crowdedDisk = [⟨"./EXTRA_FILE_0.js"⟩] ∧
      (crowdedDisk.read ⟨"./EXTRA_FILE_0.js"⟩).toOption = some "v".toUTF8 ∧
      ((transpile beside crowdedDisk).disk.read ⟨"./EXTRA_FILE_0.js"⟩).toOption =
        some "export const EXTRA_FILE_0 = \"v\";\n".toUTF8) ∧
    (Command.ofArguments ["--input", "scene.json", "--output", "scene.json"] =
        .transpile ⟨⟨"scene.json"⟩, ⟨"scene.json"⟩, none⟩ ∧
      ((transpile ⟨⟨"scene.json"⟩, ⟨"scene.json"⟩, none⟩ bareDisk).disk.read
        ⟨"scene.json"⟩).toOption ≠ (bareDisk.read ⟨"scene.json"⟩).toOption) ∧
    Command.ofArguments ["--input", manifestName] =
        .transpile ⟨⟨manifestName⟩, ⟨"sihm-manifest.js"⟩, none⟩ ∧
      ((transpile ⟨⟨manifestName⟩, ⟨"sihm-manifest.js"⟩, none⟩ bareDisk).disk.read
        ⟨manifestName⟩).toOption ≠ (bareDisk.read ⟨manifestName⟩).toOption := by
  decide +kernel

end SceneScript
