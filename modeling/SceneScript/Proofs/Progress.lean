import SceneScript.Proofs.Embedding
import SceneScript.Proofs.Readings

/-!
# How a session goes on

Whatever an emission does, and whether it succeeds or fails, it takes nothing back. The lists of a
session are at most extended at their ends (`Session.Lengthens`), the caches keep what they hold,
and the disk grows by modules alone, which no probe for an image file notices (`Session.Extends`).

`Emit.Progresses` says this of a step, and `progresses` of all emissions at once. What a step has
got from a cache, the cache gives again at any later time, and then nothing changes (`embed_again`,
`texture_again`).
-/

namespace SceneScript

/-! ## Probes for image files -/

/-- The extension of modules is that of no image. -/
theorem Image.knownType?_js {p : Path} {file : String} (hfile : p.fileName? = some file)
    (hcut : (Path.cutName file).2 = some "js") : knownType? p = none := by
  have hextension : p.lowerExtension? = some "js" := by
    have hlower : "js".map Char.toLower = "js" := by decide +kernel
    simp only [Path.lowerExtension?, Path.extension?, hfile, Option.bind_some, hcut,
      Option.map_some, hlower]
  rw [knownType?, hextension]
  rfl

/-- No probe for an image file notices that a module has been written. -/
theorem ModuleName.isImageFile_of_write {d d' : Disk} {out : Path} {name : ModuleName}
    {contents : ByteArray} (h : d.write (name.path out) contents = .ok d') (p : Path) :
    Image.isImageFile d' p = Image.isImageFile d p := by
  have hedits : Disk.Edits (fun l => d'.reach (name.path out) = .ok l) d d' :=
    (Disk.Edits.refl _ d).write h fun _ hl => hl
  unfold Image.isImageFile
  cases hknown : Image.knownType? p with
  | none => rfl
  | some type =>
    rw [Option.isSome_some, Bool.true_and, Bool.true_and, Bool.eq_iff_iff]
    refine ⟨fun hfile => ?_, hedits.grows.isFile⟩
    obtain ⟨l, c, hreach, hnode⟩ := Disk.isFile_iff.1 hfile
    obtain ⟨file, hname⟩ : ∃ file, p.fileName? = some file := by
      cases hname : p.fileName? with
      | none => simp [Image.knownType?, Path.lowerExtension?, Path.extension?, hname] at hknown
      | some file => exact ⟨file, rfl⟩
    -- the image and the module have different names, so they stand at different places
    have hne : file ≠ name.fileName := by
      rintro rfl
      rw [Image.knownType?_js hname name.cutName_fileName] at hknown
      cases hknown
    obtain ⟨_, himage⟩ := Disk.endsWith_of_read (Disk.read_eq_ok.2 ⟨l, hreach, hnode⟩) hname
    obtain ⟨_, hmodule⟩ := endsWith_path out name
    have hplace := Disk.reach_ne_of_last_ne himage hmodule hne hreach
    rwa [(hedits.sameAt (Disk.locate_of_reach hreach) hplace).isFile] at hfile

/-! ## Later sessions -/

namespace Session

/-- The lists of a session have at most been extended at their ends. -/
structure Lengthens (s t : Session) : Prop where
  imports : s.inserts.imports <+: t.inserts.imports
  boilerplate : s.inserts.boilerplate <+: t.inserts.boilerplate
  frameUpdates : s.inserts.frameUpdates <+: t.inserts.frameUpdates
  files : s.embedder.written <+: t.embedder.written
  textures : s.textures.written <+: t.textures.written
  glslify : s.glslify <+: t.glslify

/-- A later session: nothing has been taken back, and nothing has changed that was there. -/
structure Extends (s t : Session) : Prop extends Lengthens s t where
  base : t.base = s.base
  filesBase : t.embedder.base = s.embedder.base
  texturesBase : t.textures.base = s.textures.base
  filesCached : s.embedder.cached <+: t.embedder.cached
  texturesCached : s.textures.cached <+: t.textures.cached
  grows : s.disk.Grows t.disk
  isImageFile (p : Path) : Image.isImageFile t.disk p = Image.isImageFile s.disk p

variable {s t u : Session}

theorem Lengthens.refl (s : Session) : s.Lengthens s := by
  constructor <;> exact List.prefix_refl _

theorem Lengthens.trans (h : s.Lengthens t) (h' : t.Lengthens u) : s.Lengthens u where
  imports := h.imports.trans h'.imports
  boilerplate := h.boilerplate.trans h'.boilerplate
  frameUpdates := h.frameUpdates.trans h'.frameUpdates
  files := h.files.trans h'.files
  textures := h.textures.trans h'.textures
  glslify := h.glslify.trans h'.glslify

/-- Only the lists have changed. -/
theorem Extends.of_lengthens (h : s.Lengthens t) (hbase : t.base = s.base)
    (hembedder : t.embedder = s.embedder) (htextures : t.textures = s.textures)
    (hdisk : t.disk = s.disk) : s.Extends t where
  toLengthens := h
  base := hbase
  filesBase := by rw [hembedder]
  texturesBase := by rw [htextures]
  filesCached := by rw [hembedder]
  texturesCached := by rw [htextures]
  grows := by rw [hdisk]; exact .refl _
  isImageFile _ := by rw [hdisk]

theorem Extends.refl (s : Session) : s.Extends s :=
  .of_lengthens (.refl s) rfl rfl rfl rfl

theorem Extends.trans (h : s.Extends t) (h' : t.Extends u) : s.Extends u where
  toLengthens := h.toLengthens.trans h'.toLengthens
  base := h'.base.trans h.base
  filesBase := h'.filesBase.trans h.filesBase
  texturesBase := h'.texturesBase.trans h.texturesBase
  filesCached := h.filesCached.trans h'.filesCached
  texturesCached := h.texturesCached.trans h'.texturesCached
  grows := h.grows.trans h'.grows
  isImageFile p := (h'.isImageFile p).trans (h.isImageFile p)

end Session

theorem prefix_insertOnce (texts : List String) (text : String) :
    texts <+: insertOnce texts text := by
  unfold insertOnce
  split
  · exact List.prefix_refl _
  · exact List.prefix_append _ _

/-! ## Emissions -/

namespace Emit

variable {α β : Type} {s t u : Session}

/-- A step takes nothing back, whether it succeeds or fails. -/
def Progresses (m : Emit α) : Prop :=
  ∀ s : Session, s.Extends (m.after s)

namespace Progresses

theorem of_ok {m : Emit α} (hm : Progresses m) {a : α} (h : m.run s = .ok a t) : s.Extends t :=
  after_of_ok h ▸ hm s

theorem of_error {m : Emit α} (hm : Progresses m) {e : Error} (h : m.run s = .error e t) :
    s.Extends t :=
  after_of_error h ▸ hm s

theorem bind {m : Emit α} {f : α → Emit β} (hm : Progresses m) (hf : ∀ a, Progresses (f a)) :
    Progresses (m >>= f) :=
  after_bind (R := Session.Extends) Session.Extends.trans hm hf

theorem insert {change : Inserts → Inserts} (himports : ∀ i, i.imports <+: (change i).imports)
    (hboilerplate : ∀ i, i.boilerplate <+: (change i).boilerplate)
    (hupdates : ∀ i, i.frameUpdates <+: (change i).frameUpdates) :
    Progresses (Emit.insert change) :=
  fun _ => .of_lengthens ⟨himports _, hboilerplate _, hupdates _, List.prefix_refl _,
    List.prefix_refl _, List.prefix_refl _⟩ rfl rfl rfl rfl

theorem embed (file : String) : Progresses (Emit.embed file) := by
  intro s
  simp only [after, run_embed]
  cases he : s.embedder.embed s.disk file with
  | error e => exact .refl s
  | ok answer =>
    obtain ⟨name, e, d⟩ := answer
    have himports := prefix_insertOnce s.inserts.imports (importLine name.text)
    obtain ⟨l, -, ⟨-, rfl, rfl⟩ | ⟨-, -, text, -, hwrite, rfl⟩⟩ := Embedder.embed_cases he
    · exact .of_lengthens { Session.Lengthens.refl s with imports := himports } rfl rfl rfl rfl
    · exact { Session.Extends.refl s with
        imports := himports
        files := List.prefix_append _ _
        filesBase := rfl
        filesCached := List.prefix_append _ _
        grows := Disk.write_grows hwrite
        isImageFile := ModuleName.isImageFile_of_write hwrite }

theorem texture (files : List String) : Progresses (Emit.texture files) := by
  intro s
  simp only [after, run_texture]
  cases ha : s.textures.add s.disk files with
  | error e => exact .refl s
  | ok answer =>
    obtain ⟨⟨name, kind, created⟩, t, d⟩ := answer
    have himports := prefix_insertOnce s.inserts.imports (importLine name.text)
    obtain ⟨-, found, -, ⟨-, -, rfl, rfl⟩ | ⟨-, -, -, urls, -, hwrite, rfl⟩⟩ :=
      TextureLibrary.add_cases ha
    · exact .of_lengthens { Session.Lengthens.refl s with imports := himports } rfl rfl rfl rfl
    · exact { Session.Extends.refl s with
        imports := himports
        textures := List.prefix_append _ _
        texturesBase := rfl
        texturesCached := List.prefix_append _ _
        grows := Disk.write_grows hwrite
        isImageFile := ModuleName.isImageFile_of_write hwrite }

theorem noteGlslify (name : ModuleName) : Progresses (Emit.noteGlslify name) := by
  intro s
  simp only [after, Emit.noteGlslify, EStateM.run_modify]
  split
  · exact .refl s
  · exact .of_lengthens { Session.Lengthens.refl s with glslify := List.prefix_append _ _ }
      rfl rfl rfl rfl

theorem shaderSource (glslify : Bool) (text : String) :
    Progresses (Emit.shaderSource glslify text) := by
  unfold Emit.shaderSource
  split
  · exact fun s => .refl s
  · refine .bind (embed text) fun name => ?_
    dsimp only
    split
    · exact .bind (noteGlslify name) fun _ s => .refl s
    · exact fun s => .refl s

theorem imageUniform (path : String) : Progresses (Emit.imageUniform path) := by
  refine .bind (fun s => .refl s) fun s => ?_
  split
  · exact .bind (texture [path]) fun _ s => .refl s
  · exact fun s => .refl s

end Progresses

/-- No emission takes anything back. -/
theorem progresses : Closed fun _ m => Progresses m where
  pure _ s := .refl s
  throw _ _ s := .refl s
  bind := .bind
  piece _ s := { Session.Extends.refl s with }
  warn _ s := { Session.Extends.refl s with }
  useObjLoader := .insert (fun _ => prefix_insertOnce _ _) (fun _ => prefix_insertOnce _ _)
    fun _ => List.prefix_refl _
  useMtlLoader := .insert (fun _ => prefix_insertOnce _ _) (fun _ => prefix_insertOnce _ _)
    fun _ => List.prefix_refl _
  addFrameUpdate _ := .insert (fun _ => List.prefix_refl _) (fun _ => List.prefix_refl _)
    fun _ => prefix_insertOnce _ _
  embed := .embed
  texture := .texture
  shaderSource := .shaderSource
  imageUniform := .imageUniform

/-! ## Caches that are asked again -/

theorem lookup_of_extended {κ : Type} [BEq κ] {cached cached' : List (κ × ModuleName)} {key : κ}
    {name : ModuleName} (h : cached <+: cached') (hname : cached.lookup key = some name) :
    cached'.lookup key = some name := by
  obtain ⟨more, rfl⟩ := h
  rw [List.lookup_append, hname, Option.some_or]

/-- An import that has been asked for is not asked for again. -/
theorem addImport_of_mem {i : Inserts} {line : String} (h : line ∈ i.imports) :
    i.addImport line = i := by
  simp only [Inserts.addImport, insertOnce, h, ↓reduceIte]

/-- A file that has been embedded gets its module again at any later time, and nothing changes. -/
theorem embed_again {file : String} {name : ModuleName} (h : (embed file).run s = .ok name t)
    (hu : t.Extends u) : (embed file).run u = .ok name u := by
  have hsu := ((progresses.embed file).of_ok h).trans hu
  rw [run_embed] at h ⊢
  cases he : s.embedder.embed s.disk file with
  | error e =>
    rw [he] at h
    cases h
  | ok answer =>
    obtain ⟨found, e, d⟩ := answer
    rw [he] at h
    cases h
    obtain ⟨l, hl, -⟩ := Embedder.embed_cases he
    have hserve : Embedder.registry.serve (s.embedder, s.disk) file = .ok (name, e, d) := he
    have hcached := Embedder.registry_lawful.lookup_of_serve hserve
      (Embedder.key?_eq_some_iff.2 (resolveAsset_eq_ok.1 hl))
    have hplace : resolveAsset u.disk u.embedder.base file = .ok l := by
      rw [hsu.filesBase, resolveAsset_eq_ok]
      exact hsu.grows.locate (resolveAsset_eq_ok.1 hl)
    have hline : importLine name.text ∈ u.inserts.imports :=
      hu.imports.subset (mem_insertOnce.2 (.inr rfl))
    rw [Embedder.embed_of_find? hplace (lookup_of_extended hu.filesCached hcached)]
    dsimp only
    rw [addImport_of_mem hline]

/-- A set of images that has a module gets it again at any later time, and nothing changes. -/
theorem texture_again {files : List String} {name : ModuleName}
    (h : (texture files).run s = .ok name t) (hu : t.Extends u) :
    (texture files).run u = .ok name u := by
  have hsu := ((progresses.texture files).of_ok h).trans hu
  rw [run_texture] at h ⊢
  cases ha : s.textures.add s.disk files with
  | error e =>
    rw [ha] at h
    cases h
  | ok answer =>
    obtain ⟨⟨found, kind, created⟩, library, d⟩ := answer
    rw [ha] at h
    cases h
    obtain ⟨hkind, places, hplaces, -⟩ := TextureLibrary.add_cases ha
    have hserve : TextureLibrary.registry.serve (s.textures, s.disk) files =
        .ok (found, library, d) := TextureLibrary.serve_eq_ok_iff.2 ⟨_, ha, rfl⟩
    have hkey : TextureLibrary.registry.key? (s.textures, s.disk) files =
        some (TextureLibrary.key places) := TextureLibrary.key?_of_places hkind hplaces
    have hcached := TextureLibrary.registry_lawful.lookup_of_serve hserve hkey
    have hagain : TextureLibrary.places u.disk u.textures.base files = .ok places := by
      obtain ⟨ls, hls, hsorted⟩ := except_bind_eq_ok.1 hplaces
      rw [hsu.texturesBase]
      exact except_bind_eq_ok.2 ⟨ls, TextureLibrary.mapM_of_grows hsu.grows hls, hsorted⟩
    have hline : importLine found.text ∈ u.inserts.imports :=
      hu.imports.subset (mem_insertOnce.2 (.inr rfl))
    rw [TextureLibrary.add_of_cached hkind hagain (lookup_of_extended hu.texturesCached hcached)]
    dsimp only
    rw [addImport_of_mem hline]

end Emit

end SceneScript
