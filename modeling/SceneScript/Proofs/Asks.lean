import SceneScript.Program.Assembly

/-!
# What a scene asks for

An emission looks at the disk only where the scene names files: it orders the module of a text file
or of a set of images, or it asks whether the text of a uniform names an image. `Scene.asks` lists
these asks in the order of the program. They can be read off the scene, whatever the disk holds.

`Emit.Closed` is a property of emissions together with their asks that the few basic steps have and
that sequencing keeps. `Closed.material`, `Closed.objects`, `Closed.lights` and
`Closed.propertySection` say that all emissions have it then.
-/

namespace SceneScript

/-- An order for a module: of a text file, or of a set of images. -/
inductive Order where
  | asset (file : String)
  | texture (files : List String)
  deriving DecidableEq, Repr

/-- What an emission asks for: a module, or the image that the text of a uniform may name. -/
inductive Ask where
  | order (o : Order)
  | image (file : String)
  deriving DecidableEq, Repr

/-! ## The asks of a scene -/

/-- The asks for a key of a material with slots. -/
def Slots.asks (slots : Slots) (key : String) (v : Value) : List Ask :=
  if slots.isTexture key then
    match textureFiles? v with
    | some files => [.order (.texture files)]
    | none => []
  else []

/-- The asks for a shader source. -/
def sourceAsks (text : String) : List Ask :=
  if Emit.isSource text then [] else [.order (.asset text)]

/-- The asks for the shader source under a key. -/
def sourceAsksAt (key : String) (entries : Entries Value) : List Ask :=
  match entries.get? key with
  | some (.string text) => sourceAsks text
  | _ => []

/-- The asks for the value of a uniform. -/
def uniformAsks : Value → List Ask
  | .string path => [.image path]
  | _ => []

/-- The asks for the uniforms of a shader. -/
def uniformsAsks (entries : Entries Value) : List Ask :=
  match entries.get? "uniforms" with
  | some (.mapping us) => us.flatMap fun entry => uniformAsks entry.2
  | _ => []

/-- The asks for a shader material: first the sources, then the uniforms. -/
def shaderAsks : Args → List Ask
  | .positional _ => []
  | .keyword entries =>
    sourceAsksAt "vertexShader" entries ++
      (sourceAsksAt "fragmentShader" entries ++ uniformsAsks entries)

/-- The asks for a material of any constructor but the shader's. -/
def builtAsks (function : String) (args : Args) : List Ask :=
  match args, Slots.of? function with
  | .keyword entries, some slots => entries.flatMap fun entry => slots.asks entry.1 entry.2
  | _, _ => []

/-- The asks for a material. -/
def Material.asks : Material → List Ask
  | .file path => [.order (.asset path)]
  | .call function args _ =>
    if function = shaderFunction then shaderAsks args else builtAsks function args

/-- The asks for a geometry. -/
def Geometry.asks : Geometry → List Ask
  | .call _ _ => []
  | .file path => [.order (.asset path)]

/-- The asks for the material of an object, if it has one. -/
def materialAsks : Option Material → List Ask
  | some m => m.asks
  | none => []

/-- The asks for the block of an object. -/
def blockAsks (g : Option Geometry) (m : Option Material) : List Ask :=
  match g with
  | some g => materialAsks m ++ g.asks
  | none => []

mutual

/-- The asks for an object with all its children. -/
def Object.asks : Object → List Ask
  | ⟨g, m, _, children⟩ => blockAsks g m ++ Object.forestAsks children

/-- The asks for named objects. -/
def Object.forestAsks : List (String × Object) → List Ask
  | [] => []
  | (_, node) :: rest => node.asks ++ Object.forestAsks rest

end

/-- The asks for a background. -/
def backgroundAsks : Value → List Ask
  | .list faces =>
    if faces.length = cubeFaces then
      match Emit.facePaths faces with
      | .ok files => [.order (.texture files)]
      | .error _ => []
    else []
  | .string s => if s.toList.contains '.' then [.order (.texture [s])] else []
  | _ => []

/-- The asks for a property of the scene. -/
def propertyAsks (name : String) (v : Value) : List Ask :=
  if name = "background" then backgroundAsks v else []

/-- The asks of a scene. Lights name no files. -/
def Scene.asks (scene : Scene) : List Ask :=
  (scene.properties.flatMap fun entry => propertyAsks entry.1 entry.2) ++
    Object.forestAsks scene.objects

/-! ## Properties of emissions and their asks -/

namespace Emit

/-- A uniform whose value is a text: the path of an image file becomes a texture. -/
def imageUniform (path : String) : Emit Uniform := do
  let s ← get
  if Image.isImageFile s.disk (s.base.join ⟨path⟩) then return .texture (← texture [path])
  else return .value (.string path)

/-- What a property of emissions with their asks needs at the steps that all emissions are made of.
A step that fails may have any asks. A shader file is embedded and noted in one step, for only the
name that `embed` has just given may be noted. -/
structure Closed (C : ∀ {α : Type}, List Ask → Emit α → Prop) : Prop where
  pure {α : Type} (a : α) : C [] (Pure.pure a : Emit α)
  throw {α : Type} (asks : List Ask) (e : Error) : C asks (MonadExcept.throw e : Emit α)
  bind {α β : Type} {as bs : List Ask} {m : Emit α} {f : α → Emit β} (hm : C as m)
    (hf : ∀ a, C bs (f a)) : C (as ++ bs) (m >>= f)
  piece (p : Piece) : C [] (piece p)
  warn (w : Warning) : C [] (warn w)
  useObjLoader : C [] useObjLoader
  useMtlLoader : C [] useMtlLoader
  addFrameUpdate (update : String) : C [] (insert fun i => i.addFrameUpdate update)
  embed (file : String) : C [.order (.asset file)] (embed file)
  texture (files : List String) : C [.order (.texture files)] (texture files)
  shaderSource (glslify : Bool) (text : String) : C (sourceAsks text) (shaderSource glslify text)
  imageUniform (path : String) : C [.image path] (imageUniform path)

namespace Closed

variable {C : ∀ {α : Type}, List Ask → Emit α → Prop} {α β : Type}

section

variable (H : Closed C)

include H

/-- A step without asks before another. -/
theorem silent_bind {asks : List Ask} {m : Emit α} {f : α → Emit β} (hm : C [] m)
    (hf : ∀ a, C asks (f a)) : C asks (m >>= f) :=
  H.bind hm hf

/-- A step without asks behind another. -/
theorem bind_silent {asks : List Ask} {m : Emit α} {f : α → Emit β} (hm : C asks m)
    (hf : ∀ a, C [] (f a)) : C asks (m >>= f) := by
  have h := H.bind hm hf
  rwa [List.append_nil] at h

theorem lift (x : Except Error α) : C [] (Emit.lift x) := by
  cases x with
  | ok a => exact H.pure a
  | error e => exact H.throw [] e

theorem statement (st : Statement) : C [] (Emit.statement st) :=
  H.piece (.statement st)

theorem statements (ss : List Statement) : C [] (Emit.statements ss) := by
  induction ss with
  | nil => exact H.pure ()
  | cons st ss ih => exact H.silent_bind (H.statement st) fun _ => ih

/-! ### Materials -/

theorem fileMaterial (object file : String) :
    C [.order (.asset file)] (Emit.fileMaterial object file) :=
  H.bind_silent (H.embed file) fun _ => H.silent_bind H.useMtlLoader fun _ =>
    H.silent_bind H.useObjLoader fun _ => H.statements _

theorem slotArgument (binding : String) (slots : Slots) (key : String) (v : Value) :
    C (slots.asks key v) (Emit.slotArgument binding slots key v) := by
  unfold Emit.slotArgument Slots.asks
  split
  · cases textureFiles? v with
    | none => exact H.throw _ _
    | some files => exact H.bind_silent (H.texture files) fun _ => H.pure _
  · split
    · exact H.silent_bind (H.lift _) fun _ => H.pure _
    · exact H.pure _

theorem slotArguments (binding : String) (slots : Slots) (entries : Entries Value) :
    C (entries.flatMap fun entry => slots.asks entry.1 entry.2)
      (Emit.slotArguments binding slots entries) := by
  induction entries with
  | nil => exact H.pure []
  | cons entry rest ih =>
    rw [List.flatMap_cons]
    exact H.bind (H.slotArgument binding slots entry.1 entry.2) fun _ =>
      H.bind_silent ih fun _ => H.pure _

theorem builtMaterial (object function : String) (args : Args) :
    C (builtAsks function args) (Emit.builtMaterial object function args) := by
  unfold Emit.builtMaterial builtAsks
  dsimp only
  cases args with
  | positional items => exact H.statement _
  | keyword entries =>
    cases Slots.of? function with
    | none => exact H.statement _
    | some slots => exact H.bind_silent (H.slotArguments _ slots entries) fun _ => H.statement _

theorem shaderSourceAt (glslify : Bool) (key : String) (entries : Entries Value)
    (args : Entries Argument) :
    C (sourceAsksAt key entries) (Emit.shaderSourceAt glslify key entries args) := by
  unfold Emit.shaderSourceAt sourceAsksAt
  cases entries.get? key with
  | none => exact H.pure args
  | some v =>
    cases v with
    | string text => exact H.bind_silent (H.shaderSource glslify text) fun _ => H.pure _
    | null => exact H.pure args
    | bool b => exact H.pure args
    | number n => exact H.pure args
    | list items => exact H.pure args
    | mapping entries => exact H.pure args

theorem uniform (binding name : String) (v : Value) :
    C (uniformAsks v) (Emit.uniform binding name v) := by
  cases v with
  | null =>
    simp only [Emit.uniform]
    split
    · exact H.silent_bind (H.addFrameUpdate _) fun _ => H.pure _
    · exact H.pure _
  | string path => exact H.imageUniform path
  | bool b => exact H.pure _
  | number n => exact H.pure _
  | list items => exact H.pure _
  | mapping entries => exact H.pure _

theorem uniforms (binding : String) (entries : Entries Value) :
    C (entries.flatMap fun entry => uniformAsks entry.2) (Emit.uniforms binding entries) := by
  induction entries with
  | nil => exact H.pure []
  | cons entry rest ih =>
    rw [List.flatMap_cons]
    exact H.bind (H.uniform binding entry.1 entry.2) fun _ => H.bind_silent ih fun _ => H.pure _

theorem uniformsAt (context binding : String) (entries : Entries Value) (args : Entries Argument) :
    C (uniformsAsks entries) (Emit.uniformsAt context binding entries args) := by
  unfold Emit.uniformsAt uniformsAsks
  cases entries.get? "uniforms" with
  | none => exact H.pure args
  | some v =>
    cases v with
    | mapping us => exact H.bind_silent (H.uniforms binding us) fun _ => H.pure _
    | null => exact H.throw _ _
    | bool b => exact H.throw _ _
    | number n => exact H.throw _ _
    | string s => exact H.throw _ _
    | list items => exact H.throw _ _

theorem shaderMaterial (object : String) (args : Args) (glslify : Bool) :
    C (shaderAsks args) (Emit.shaderMaterial object args glslify) := by
  unfold Emit.shaderMaterial
  cases args with
  | positional items => exact H.throw _ _
  | keyword entries =>
    exact H.bind (H.shaderSourceAt _ _ _ _) fun _ => H.bind (H.shaderSourceAt _ _ _ _) fun _ =>
      H.bind_silent (H.uniformsAt _ _ _ _) fun _ => H.silent_bind (H.lift _) fun _ =>
        H.silent_bind (H.statement _) fun _ => H.statements _

theorem material (object : String) (m : Material) : C m.asks (Emit.material object m) := by
  cases m with
  | file path => exact H.fileMaterial object path
  | call function args glslify =>
    simp only [Emit.material, Material.asks]
    split
    · exact H.shaderMaterial object args glslify
    · exact H.builtMaterial object function args

/-! ### Objects and lights -/

theorem geometry (object : String) (material : Option Material) (g : Geometry) :
    C g.asks (Emit.geometry object material g) := by
  cases g with
  | call function args => exact H.silent_bind (H.statement _) fun _ => H.statement _
  | file path =>
    simp only [Emit.geometry]
    have parse (asset : ModuleName) : C [] (do
        Emit.statement (.parseMesh object asset)
        if material.any fun m => !m.isFile then Emit.statement (.paint object)
        else Pure.pure ()) := by
      refine H.silent_bind (H.statement _) fun _ => ?_
      split
      · exact H.statement _
      · exact H.pure ()
    refine H.bind_silent (H.embed path) fun asset => H.silent_bind H.useObjLoader fun _ => ?_
    split
    · exact H.silent_bind (H.statement _) fun _ => parse asset
    · exact parse asset

theorem objectBlock (name object : String) (node : Object) (parent : String) :
    C (blockAsks node.geometry node.material) (Emit.objectBlock name object node parent) := by
  unfold Emit.objectBlock blockAsks
  cases node.geometry with
  | none =>
    dsimp only
    split
    · exact H.warn _
    · exact H.pure ()
  | some g =>
    have rest : C g.asks (do
        Emit.geometry object node.material g
        Emit.statements (placement name object parent)
        Emit.statements (animation name object node.animations)) :=
      H.bind_silent (H.geometry _ _ _) fun _ => H.silent_bind (H.statements _) fun _ =>
        H.statements _
    refine H.silent_bind (H.statement _) fun _ => ?_
    dsimp only
    revert rest
    cases node.material with
    | none => exact id
    | some m => exact fun rest => H.bind (H.material object m) fun _ => rest

theorem light (name parent : String) (node : Light) : C [] (Emit.light name parent node) :=
  H.statements _

theorem lights (parent : String) (nodes : Entries Light) : C [] (Emit.lights parent nodes) := by
  induction nodes with
  | nil => exact H.pure ()
  | cons entry rest ih => exact H.silent_bind (H.light entry.1 parent entry.2) fun _ => ih

/-! ### Properties of the scene -/

theorem background (v : Value) : C (backgroundAsks v) (Emit.background v) := by
  have color (v : Value) : C [] (do
      return Background.color (← Emit.lift (Color.ofValue v)) : Emit Background) :=
    H.silent_bind (H.lift _) fun _ => H.pure _
  unfold Emit.background backgroundAsks
  cases v with
  | list faces =>
    dsimp only
    split
    · cases facePaths faces with
      | error e => exact H.throw _ e
      | ok files =>
        have cube : C [.order (.texture files)] (do
            return Background.texture (← Emit.texture files) : Emit Background) :=
          H.bind_silent (H.texture files) fun _ => H.pure _
        exact cube
    · exact color _
  | string s =>
    dsimp only
    split
    · exact H.bind_silent (H.texture _) fun _ => H.pure _
    · exact color _
  | null => exact color _
  | bool b => exact color _
  | number n => exact color _
  | mapping entries => exact color _

theorem sceneProperty (name : String) (v : Value) :
    C (propertyAsks name v) (Emit.sceneProperty name v) := by
  unfold Emit.sceneProperty propertyAsks
  split
  · exact H.bind_silent (H.background v) fun _ => H.statement _
  · exact H.statement _

theorem sceneProperties (entries : Entries Value) :
    C (entries.flatMap fun entry => propertyAsks entry.1 entry.2)
      (Emit.sceneProperties entries) := by
  induction entries with
  | nil => exact H.pure ()
  | cons entry rest ih =>
    rw [List.flatMap_cons]
    exact H.bind (H.sceneProperty entry.1 entry.2) fun _ => ih

theorem propertySection (entries : Entries Value) :
    C (entries.flatMap fun entry => propertyAsks entry.1 entry.2)
      (Emit.propertySection entries) := by
  unfold Emit.propertySection
  cases entries with
  | nil => exact H.pure ()
  | cons entry rest =>
    exact H.silent_bind (H.statement _) fun _ =>
      H.bind_silent (H.sceneProperties _) fun _ => H.statement _

end

/-! ### Trees of objects -/

mutual

theorem object (H : Closed C) (name parent : String) :
    ∀ node : Object, C node.asks (Emit.object name parent node)
  | ⟨g, m, tracks, children⟩ => by
    simp only [Emit.object, Object.asks]
    exact H.bind (H.objectBlock name _ ⟨g, m, tracks, []⟩ parent) fun _ => objects H _ children

theorem objects (H : Closed C) (parent : String) :
    ∀ nodes : List (String × Object), C (Object.forestAsks nodes) (Emit.objects parent nodes)
  | [] => by
    simp only [Emit.objects, Object.forestAsks]
    exact H.pure ()
  | (name, node) :: rest => by
    simp only [Emit.objects, Object.forestAsks]
    exact H.bind (object H name parent node) fun _ => objects H parent rest

end

end Closed

end Emit

end SceneScript
