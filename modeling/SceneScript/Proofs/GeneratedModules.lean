import Mathlib.Data.List.Nodup
import SceneScript.Proofs.Disk
import SceneScript.Proofs.Emission

/-!
# The generated modules of a session

The modules of a session are numbered in the order in which they are made, embedded files and
textures apart. `Session.InStep` says that everything a session knows of its modules agrees: what
the caches hold, which files have been written, which of them stand on the disk, which imports are
asked for and which modules are noted for one more transformation. Every step keeps it, also a step
that fails half way (`perform_inStep`), and so it holds however a session is used
(`modules_of_perform`).
-/

namespace SceneScript

/-! ## Names and import lines -/

theorem ModuleName.text_injective : Function.Injective ModuleName.text := by
  have digits {a b : Nat} (h : (toString a).toList = (toString b).toList) : a = b := by
    simp only [Nat.toString_eq_repr, Nat.toList_repr] at h
    simpa using congrArg (Nat.ofDigitChars 10 · 0) h
  intro a b h
  have h := congrArg String.toList h
  cases a <;> cases b <;> simp only [text, String.toList_append] at h
  case file.file => rw [digits (List.append_cancel_left h)]
  case texture.texture => rw [digits (List.append_cancel_left h)]
  -- the two kinds differ at the first letter behind the common start
  all_goals simp at h

/-- The binding of a module holds letters, underscores and digits. -/
theorem ModuleName.not_mem_text {c : Char} (hletter : c ∉ "EXTRA_FILE_TEXTURE_".toList)
    (hdigit : c.isDigit = false) (name : ModuleName) : c ∉ name.text.toList := by
  have digits (n : Nat) : c ∉ (toString n).toList := by
    intro h
    rw [Nat.toString_eq_repr, Nat.toList_repr] at h
    rw [Nat.isDigit_of_mem_toDigits (by decide) (by decide) h] at hdigit
    cases hdigit
  have letters {word : String} (hword : word.toList ⊆ "EXTRA_FILE_TEXTURE_".toList) :
      c ∉ word.toList := fun h => hletter (hword h)
  cases name with
  | file n =>
    rw [text, String.toList_append, List.mem_append, not_or]
    exact ⟨letters (by decide), digits n⟩
  | texture n =>
    rw [text, String.toList_append, List.mem_append, not_or]
    exact ⟨letters (by decide), digits n⟩

theorem importLine_injective : Function.Injective importLine := by
  intro a b h
  have h := congrArg String.toList h
  simp only [importLine, String.toList_append, List.append_assoc] at h
  have h := List.append_cancel_left h
  have hlength : a.toList.length = b.toList.length := by
    have := congrArg List.length h
    simp only [List.length_append] at this
    omega
  exact String.toList_inj.1 (List.append_inj_left h hlength)

/-- The imports that are the same in all programs that have them. -/
def Template.libraryImports : List String :=
  [objLoaderImport, mtlLoaderImport, statsImport]

/-- No generated module is imported by the line of a library. -/
theorem importLine_not_mem_libraryImports (name : ModuleName) :
    importLine name.text ∉ Template.libraryImports := by
  have start : (importLine name.text).toList.take 10 = "import \x7b E".toList := by
    cases name <;> simp [importLine, ModuleName.text]
  have library : ∀ line ∈ Template.libraryImports,
      line.toList.take 10 ≠ "import \x7b E".toList := by
    decide +kernel
  exact fun h => library _ h start

/-! ## Numbered modules -/

/-- The cached modules and the written files are those with the numbers from zero on, in order. -/
structure Numbered {κ : Type} (make : Nat → ModuleName) (out : Path)
    (cached : List (κ × ModuleName)) (written : List Path) : Prop where
  names : cached.map Prod.snd = (List.range cached.length).map make
  files : written = (List.range cached.length).map fun k => (make k).path out

namespace Numbered

variable {κ : Type} {make : Nat → ModuleName} {out : Path} {cached : List (κ × ModuleName)}
  {written : List Path}

theorem nil : Numbered (κ := κ) make out [] [] :=
  ⟨rfl, rfl⟩

theorem snoc (h : Numbered make out cached written) (key : κ) :
    Numbered make out (cached ++ [(key, make cached.length)])
      (written ++ [(make cached.length).path out]) where
  names := by simp [h.names, List.range_succ]
  files := by simp [h.files, List.range_succ]

theorem exists_number (h : Numbered make out cached written) {key : κ} {name : ModuleName}
    (hm : (key, name) ∈ cached) : ∃ k < cached.length, name = make k := by
  have := List.mem_map_of_mem (f := Prod.snd) hm
  rw [h.names] at this
  simpa [eq_comm] using this

end Numbered

theorem mem_of_lookup {κ : Type} [BEq κ] [LawfulBEq κ] {cached : List (κ × ModuleName)} {key : κ}
    {name : ModuleName} (h : cached.lookup key = some name) : (key, name) ∈ cached := by
  induction cached with
  | nil => simp at h
  | cons entry rest ih =>
    obtain ⟨k, n⟩ := entry
    rw [List.lookup_cons] at h
    split at h
    · rename_i hk
      obtain rfl : key = k := by simpa using hk
      obtain rfl : n = name := by simpa using h
      exact List.mem_cons_self
    · exact List.mem_cons_of_mem _ (ih h)

/-! ## Making a module -/

theorem writeGenerated_eq_ok {d d' : Disk} {p : Path} {text : String} :
    writeGenerated d p text = .ok d' ↔ d.write p text.toUTF8 = .ok d' := by
  unfold writeGenerated
  cases d.write p text.toUTF8 <;> simp

theorem writeGenerated_eq_error {d : Disk} {p : Path} {text : String} {e : Error} :
    writeGenerated d p text = .error e ↔
      ∃ fault, d.write p text.toUTF8 = .error fault ∧ e = .write p fault := by
  unfold writeGenerated
  cases d.write p text.toUTF8 <;> simp [eq_comm]

theorem resolveAsset_eq_ok {d : Disk} {base : Path} {file : String} {l : Location} :
    resolveAsset d base file = .ok l ↔ d.locate (base.join ⟨file⟩) = .ok l := by
  unfold resolveAsset
  cases d.locate (base.join ⟨file⟩) <;> simp

/-- The text to embed is that of the file, or for a material library that with its images
inlined. -/
theorem Embedder.content_eq_ok_iff {d : Disk} {l : Location} {text : String} :
    content d l = .ok text ↔ ∃ raw, d.readTextAt l = .ok raw ∧
      if isMtl l then Mtl.inlineImages d l.up.path raw = .ok text else text = raw := by
  unfold content
  cases d.readTextAt l with
  | error fault => simp
  | ok raw =>
    simp only [Except.ok.injEq, exists_eq_left']
    split
    · exact Iff.rfl
    · rw [Except.ok.injEq, eq_comm]

/-- Embedding either finds the module of the file or makes the next one. -/
theorem Embedder.embed_cases {e e' : Embedder} {d d' : Disk} {file : String} {name : ModuleName}
    (h : e.embed d file = .ok (name, e', d')) :
    ∃ l, resolveAsset d e.base file = .ok l ∧
      (e.find? l = some name ∧ e' = e ∧ d' = d ∨
        e.find? l = none ∧ name = .file e.size ∧ ∃ text, content d l = .ok text ∧
          d.write (name.path e.out) (moduleText name.text text).toUTF8 = .ok d' ∧
          e' = { e with cached := e.cached ++ [(l, name)]
                        written := e.written ++ [name.path e.out] }) := by
  obtain ⟨l, hl, h⟩ := except_bind_eq_ok.1 h
  refine ⟨l, hl, ?_⟩
  split at h
  · rename_i found hfound
    cases h
    exact .inl ⟨hfound, rfl, rfl⟩
  · rename_i hfresh
    obtain ⟨text, htext, h⟩ := except_bind_eq_ok.1 h
    obtain ⟨written, hwrite, h⟩ := except_bind_eq_ok.1 h
    cases h
    exact .inr ⟨hfresh, rfl, text, htext, writeGenerated_eq_ok.1 hwrite, rfl⟩

/-- A request for a texture either finds its module or makes the next one. -/
theorem TextureLibrary.add_cases {t t' : TextureLibrary} {d d' : Disk} {files : List String}
    {name : ModuleName} {kind : TextureKind} {created : Bool}
    (h : t.add d files = .ok (⟨name, kind, created⟩, t', d')) :
    TextureKind.ofCount? files.length = some kind ∧
      ∃ found, places d t.base files = .ok found ∧
        (t.cached.lookup (key found) = some name ∧ created = false ∧ t' = t ∧ d' = d ∨
          t.cached.lookup (key found) = none ∧ created = true ∧ name = .texture t.size ∧
            ∃ urls, found.mapM (Image.locationDataUrl d) = .ok urls ∧
              d.write (name.path t.out) (moduleText name.text kind urls).toUTF8 = .ok d' ∧
              t' = { t with cached := t.cached ++ [(key found, name)]
                            written := t.written ++ [name.path t.out] }) := by
  unfold add at h
  split at h <;> [cases h; skip]
  rename_i hkind
  obtain ⟨found, hplaces, h⟩ := except_bind_eq_ok.1 h
  dsimp only at h
  split at h
  · rename_i hname
    cases h
    exact ⟨hkind, found, hplaces, .inl ⟨hname, rfl, rfl, rfl⟩⟩
  · rename_i hfresh
    obtain ⟨urls, hurls, h⟩ := except_bind_eq_ok.1 h
    obtain ⟨written, hwrite, h⟩ := except_bind_eq_ok.1 h
    cases h
    exact ⟨hkind, found, hplaces,
      .inr ⟨hfresh, rfl, rfl, urls, hurls, writeGenerated_eq_ok.1 hwrite, rfl⟩⟩

/-! ## Sessions in step -/

/-- The modules that a session has made, embedded files first. -/
def Session.modules (s : Session) : List ModuleName :=
  (List.range s.embedder.size).map .file ++ (List.range s.textures.size).map .texture

/-- All that a session knows of its modules agrees. -/
structure Session.InStep (out : Path) (s : Session) : Prop where
  embedder_out : s.embedder.out = out
  textures_out : s.textures.out = out
  files : Numbered .file out s.embedder.cached s.embedder.written
  textures : Numbered .texture out s.textures.cached s.textures.written
  isFile : ∀ p ∈ s.generatedFiles, s.disk.isFile p = true
  imports_nodup : s.inserts.imports.Nodup
  imports_known : ∀ line ∈ s.inserts.imports,
    line ∈ Template.libraryImports ∨ ∃ name ∈ s.modules, line = importLine name.text
  imported : ∀ name ∈ s.modules, importLine name.text ∈ s.inserts.imports
  glslify_nodup : s.glslify.Nodup
  glslify_files : ∀ p ∈ s.glslify, p ∈ s.embedder.written

namespace Session.InStep

variable {out : Path} {s : Session}

theorem new (base out : Path) (d : Disk) : InStep out (Session.new base out d) where
  embedder_out := rfl
  textures_out := rfl
  files := .nil
  textures := .nil
  isFile := by simp [Session.new, generatedFiles, Embedder.new, TextureLibrary.new]
  imports_nodup := List.nodup_nil
  imports_known := by simp [Session.new, Inserts.empty]
  imported := by
    simp [modules, Session.new, Embedder.new, Embedder.size, TextureLibrary.new,
      TextureLibrary.size]
  glslify_nodup := List.nodup_nil
  glslify_files := by simp [Session.new]

/-- Only modules, imports and noted files matter. -/
theorem congr (h : s.InStep out) {t : Session} (hembedder : t.embedder = s.embedder)
    (htextures : t.textures = s.textures) (hdisk : t.disk = s.disk)
    (himports : t.inserts.imports = s.inserts.imports) (hglslify : t.glslify = s.glslify) :
    t.InStep out := by
  obtain ⟨base, disk, buffer, inserts, embedder, textures, glslify, warnings⟩ := t
  obtain ⟨h₁, h₂, h₃, h₄, h₅, h₆, h₇, h₈, h₉, h₁₀⟩ := h
  simp only at hembedder htextures hdisk himports hglslify
  subst hembedder htextures hdisk hglslify
  constructor <;> simpa only [generatedFiles, modules, himports]

/-- A library may be imported at any time. -/
theorem addImport (h : s.InStep out) (line : String) (hline : line ∈ Template.libraryImports) :
    InStep out { s with inserts := s.inserts.addImport line } where
  embedder_out := h.embedder_out
  textures_out := h.textures_out
  files := h.files
  textures := h.textures
  isFile := h.isFile
  imports_nodup := nodup_insertOnce line h.imports_nodup
  imports_known := by
    intro other ho
    rcases mem_insertOnce.1 ho with ho | rfl
    · exact h.imports_known other ho
    · exact .inl hline
  imported name hn := mem_insertOnce.2 (.inl (h.imported name hn))
  glslify_nodup := h.glslify_nodup
  glslify_files := h.glslify_files

/-- Importing a module once more changes nothing. -/
theorem addImport_module (h : s.InStep out) {name : ModuleName} (hname : name ∈ s.modules) :
    s.inserts.addImport (importLine name.text) = s.inserts := by
  simp only [Inserts.addImport, insertOnce, h.imported name hname, ↓reduceIte]

/-- A module more, with its file on the disk and its import asked for. -/
theorem grow (h : s.InStep out) {t : Session} {name : ModuleName} {contents : ByteArray}
    (hembedder : t.embedder.out = out) (htextures : t.textures.out = out)
    (hfiles : Numbered .file out t.embedder.cached t.embedder.written)
    (hnumbered : Numbered .texture out t.textures.cached t.textures.written)
    (hwrite : s.disk.write (name.path out) contents = .ok t.disk)
    (hmodules : ∀ n, n ∈ t.modules ↔ n ∈ s.modules ∨ n = name)
    (hgenerated : ∀ p ∈ t.generatedFiles, p ∈ s.generatedFiles ∨ p = name.path out)
    (hinserts : t.inserts = s.inserts.addImport (importLine name.text))
    (hwritten : s.embedder.written ⊆ t.embedder.written) (hglslify : t.glslify = s.glslify) :
    t.InStep out where
  embedder_out := hembedder
  textures_out := htextures
  files := hfiles
  textures := hnumbered
  isFile := by
    intro p hp
    rcases hgenerated p hp with hp | rfl
    · exact (Disk.write_grows hwrite).isFile (h.isFile p hp)
    · exact Disk.isFile_of_write hwrite
  imports_nodup := hinserts ▸ nodup_insertOnce _ h.imports_nodup
  imports_known := by
    rw [hinserts]
    intro line hline
    rcases mem_insertOnce.1 hline with hline | rfl
    · refine (h.imports_known line hline).imp_right ?_
      rintro ⟨n, hn, rfl⟩
      exact ⟨n, (hmodules n).2 (.inl hn), rfl⟩
    · exact .inr ⟨name, (hmodules name).2 (.inr rfl), rfl⟩
  imported := by
    rw [hinserts]
    intro n hn
    rcases (hmodules n).1 hn with hn | rfl
    · exact mem_insertOnce.2 (.inl (h.imported n hn))
    · exact mem_insertOnce.2 (.inr rfl)
  glslify_nodup := hglslify ▸ h.glslify_nodup
  glslify_files p hp := hwritten (h.glslify_files p (hglslify ▸ hp))

/-- Embedding keeps the session in step, and the file of the module it gives is written. -/
theorem embed (h : s.InStep out) {file : String} {name : ModuleName} {e : Embedder} {d : Disk}
    (he : s.embedder.embed s.disk file = .ok (name, e, d)) :
    InStep out { s with
      embedder := e
      disk := d
      inserts := s.inserts.addImport (importLine name.text) } ∧ name.path out ∈ e.written := by
  obtain ⟨l, -, ⟨hfound, rfl, rfl⟩ | ⟨-, rfl, text, -, hwrite, rfl⟩⟩ := Embedder.embed_cases he
  · obtain ⟨k, hk, rfl⟩ := h.files.exists_number (mem_of_lookup hfound)
    have hmem : ModuleName.file k ∈ s.modules := by simp [modules, Embedder.size, hk]
    rw [h.addImport_module hmem]
    refine ⟨h, ?_⟩
    rw [h.files.files]
    exact List.mem_map_of_mem (List.mem_range.2 hk)
  · rw [h.embedder_out] at hwrite ⊢
    refine ⟨h.grow rfl h.textures_out (h.files.snoc l) h.textures hwrite ?_ ?_ rfl
      (List.subset_append_left _ _) rfl, by simp⟩
    · intro n
      simp [modules, Embedder.size, List.range_succ, or_comm, or_left_comm]
    · intro p hp
      simp only [generatedFiles, List.mem_append, List.mem_singleton] at hp ⊢
      rcases hp with (hp | hp) | hp
      · exact .inl (.inl hp)
      · exact .inr hp
      · exact .inl (.inr hp)

/-- Textures keep the session in step. -/
theorem texture (h : s.InStep out) {files : List String} {handle : TextureHandle}
    {t : TextureLibrary} {d : Disk} (ha : s.textures.add s.disk files = .ok (handle, t, d)) :
    InStep out { s with
      textures := t
      disk := d
      inserts := s.inserts.addImport (importLine handle.name.text) } := by
  obtain ⟨-, found, -, ⟨hfound, -, rfl, rfl⟩ | ⟨-, -, hname, urls, -, hwrite, rfl⟩⟩ :=
    TextureLibrary.add_cases ha
  · obtain ⟨k, hk, hname⟩ := h.textures.exists_number (mem_of_lookup hfound)
    have hmem : handle.name ∈ s.modules := by simp [modules, TextureLibrary.size, hname, hk]
    rw [h.addImport_module hmem]
    exact h
  · rw [hname, h.textures_out] at hwrite ⊢
    refine h.grow h.embedder_out rfl h.files (h.textures.snoc _) hwrite ?_ ?_ rfl
      (List.Subset.refl _) rfl
    · intro n
      simp [modules, TextureLibrary.size, List.range_succ, or_assoc]
    · intro p hp
      simp only [generatedFiles, List.mem_append, List.mem_singleton] at hp ⊢
      exact or_assoc.2 hp

end Session.InStep

/-! ## Steps -/

namespace Emit

theorem keeps_inStep_useObjLoader (out : Path) : Keeps (Session.InStep out) useObjLoader :=
  fun _ h => (h.addImport Template.objLoaderImport (by decide +kernel)).congr
    rfl rfl rfl rfl rfl

theorem keeps_inStep_useMtlLoader (out : Path) : Keeps (Session.InStep out) useMtlLoader :=
  fun _ h => (h.addImport Template.mtlLoaderImport (by decide +kernel)).congr
    rfl rfl rfl rfl rfl

theorem keeps_inStep_useStats (out : Path) : Keeps (Session.InStep out) useStats :=
  fun _ h => (h.addImport Template.statsImport (by decide +kernel)).congr
    rfl rfl rfl rfl rfl

theorem keeps_inStep_embed (out : Path) (file : String) :
    Keeps (Session.InStep out) (embed file) := by
  intro s h
  simp only [after, run_embed]
  cases he : s.embedder.embed s.disk file with
  | error e => exact h
  | ok r => exact (h.embed he).1

theorem keeps_inStep_texture (out : Path) (files : List String) :
    Keeps (Session.InStep out) (texture files) := by
  intro s h
  simp only [after, run_texture]
  cases ha : s.textures.add s.disk files with
  | error e => exact h
  | ok r => exact h.texture ha

/-- A module is noted once, and only after its file has been written. -/
theorem keeps_inStep_shaderSource (out : Path) (glslify : Bool) (text : String) :
    Keeps (Session.InStep out) (shaderSource glslify text) := by
  intro s h
  unfold shaderSource
  split
  · exact h
  · simp only [after, EStateM.run_bind, run_embed]
    cases he : s.embedder.embed s.disk text with
    | error e => exact h
    | ok r =>
      obtain ⟨name, e, d⟩ := r
      obtain ⟨hs, hwritten⟩ := h.embed he
      cases glslify with
      | false => exact hs
      | true =>
        simp only [↓reduceIte, noteGlslify, EStateM.run_bind, EStateM.run_modify, EStateM.run_pure]
        split
        · exact hs
        · rename_i hnew
          rw [hs.embedder_out] at hnew ⊢
          refine ⟨hs.embedder_out, hs.textures_out, hs.files, hs.textures, hs.isFile,
            hs.imports_nodup, hs.imports_known, hs.imported, ?_, ?_⟩
          · exact hs.glslify_nodup.append (List.nodup_singleton _) (by simpa using hnew)
          · intro p hp
            rcases List.mem_append.1 hp with hp | hp
            · exact hs.glslify_files p hp
            · rw [List.mem_singleton.1 hp]
              exact hwritten

/-- No emission gets a session out of step. -/
theorem simulation_inStep (out : Path) : Simulation (Same (Session.InStep out)) :=
  simulation_same (fun _ _ h => h.congr rfl rfl rfl rfl rfl)
    (fun _ _ h => h.congr rfl rfl rfl rfl rfl) (keeps_inStep_useObjLoader out)
    (keeps_inStep_useMtlLoader out) (fun _ _ h => h.congr rfl rfl rfl rfl rfl)
    (keeps_inStep_embed out) (keeps_inStep_texture out) (keeps_inStep_shaderSource out)

theorem keeps_inStep_assemble (out : Path) (scene : Scene) :
    Keeps (Session.InStep out) (assemble scene) :=
  keeps_assemble (simulation_inStep out) (keeps_inStep_useStats out)
    (fun _ _ h => h.congr rfl rfl rfl rfl rfl) scene

/-- What a client may ask of a session. -/
inductive Step where
  | object (name parent : String) (node : Object)
  | light (name parent : String) (node : Light)
  | material (name : String) (m : Material)
  | sceneProperty (name : String) (v : Value)
  | texture (files : List String)
  | embed (file : String)
  | useObjLoader
  | useMtlLoader
  | assemble (scene : Scene)

/-- A step without its result. -/
def Step.run : Step → Emit Unit
  | .object name parent node => Emit.object name parent node
  | .light name parent node => Emit.light name parent node
  | .material name m => Emit.material name m
  | .sceneProperty name v => Emit.sceneProperty name v
  | .texture files => do let _ ← Emit.texture files
  | .embed file => do let _ ← Emit.embed file
  | .useObjLoader => Emit.useObjLoader
  | .useMtlLoader => Emit.useMtlLoader
  | .assemble scene => do let _ ← Emit.assemble scene

/-- The session after some steps, each of which may have succeeded or failed. -/
def perform (s : Session) (steps : List Step) : Session :=
  steps.foldl (fun s step => step.run.after s) s

section

variable {I : Session → Prop} (S : Simulation (Same I)) (hstats : Keeps I useStats)
  (hbuffer : ∀ s b, I s → I { s with buffer := b })

include S hstats hbuffer

theorem keeps_step (step : Step) : Keeps I step.run := by
  have done : Keeps I (pure () : Emit Unit) := fun _ h => h
  cases step with
  | object name parent node => exact respects_same_iff.1 (S.object name parent node)
  | light name parent node => exact respects_same_iff.1 (S.light name parent node)
  | material name m => exact respects_same_iff.1 (S.material name m)
  | sceneProperty name v => exact respects_same_iff.1 (S.sceneProperty name v)
  | texture files => exact .bind (respects_same_iff.1 (S.texture files)) fun _ => done
  | embed file => exact .bind (respects_same_iff.1 (S.embed file)) fun _ => done
  | useObjLoader => exact respects_same_iff.1 S.useObjLoader
  | useMtlLoader => exact respects_same_iff.1 S.useMtlLoader
  | assemble scene => exact .bind (keeps_assemble S hstats hbuffer scene) fun _ => done

/-- What all emissions and the statistics keep holds however a session is used. -/
theorem perform_keeps {s : Session} (h : I s) (steps : List Step) : I (perform s steps) := by
  induction steps generalizing s with
  | nil => exact h
  | cons step steps ih => exact ih (keeps_step S hstats hbuffer step s h)

end

theorem perform_inStep {out : Path} {s : Session} (h : s.InStep out) (steps : List Step) :
    (perform s steps).InStep out :=
  perform_keeps (simulation_inStep out) (keeps_inStep_useStats out)
    (fun _ _ h => h.congr rfl rfl rfl rfl rfl) h steps

/-- However a session is used, and whichever of the steps fail: the written files are those of the
numbered modules in order, they all exist, exactly these modules are imported and each once, and
only files of embedded modules are noted for one more transformation, each once. -/
theorem modules_of_perform (base out : Path) (d : Disk) (steps : List Step) :
    let s := perform (Session.new base out d) steps
    s.embedder.written =
        (List.range s.embedder.size).map (fun k => (ModuleName.file k).path out) ∧
      s.textures.written =
        (List.range s.textures.size).map (fun k => (ModuleName.texture k).path out) ∧
      (∀ p ∈ s.generatedFiles, s.disk.isFile p = true) ∧
      s.inserts.imports.Nodup ∧
      (∀ name : ModuleName, importLine name.text ∈ s.inserts.imports ↔
        name ∈ (List.range s.embedder.size).map ModuleName.file ++
          (List.range s.textures.size).map ModuleName.texture) ∧
      (∀ line ∈ s.inserts.imports,
        line ∈ Template.libraryImports ∨ ∃ name : ModuleName, line = importLine name.text) ∧
      s.glslify.Nodup ∧ ∀ p ∈ s.glslify, p ∈ s.embedder.written ∧ p ∈ s.generatedFiles := by
  intro s
  have h : s.InStep out := perform_inStep (.new base out d) steps
  refine ⟨h.files.files, h.textures.files, h.isFile, h.imports_nodup, fun name => ⟨?_, ?_⟩, ?_,
    h.glslify_nodup, fun p hp => ?_⟩
  · intro hline
    rcases h.imports_known _ hline with hlibrary | ⟨other, hother, heq⟩
    · exact absurd hlibrary (importLine_not_mem_libraryImports name)
    · rw [ModuleName.text_injective (importLine_injective heq)]
      exact hother
  · exact h.imported name
  · intro line hline
    refine (h.imports_known line hline).imp_right ?_
    rintro ⟨name, -, heq⟩
    exact ⟨name, heq⟩
  · have hwritten := h.glslify_files p hp
    exact ⟨hwritten, List.mem_append_left _ hwritten⟩

end Emit

end SceneScript
