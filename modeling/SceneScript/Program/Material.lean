import SceneScript.Material.Slots
import SceneScript.Program.Session

/-!
# Materials in the program

A material is read from a library file, built as a shader, or built by any other constructor. The
slots of a built-in material become textures and colors. A shader's sources may stand in files, its
images become textures, and its time is driven by the animation.
-/

namespace SceneScript

/-- The constructor of shader materials. -/
def shaderFunction : String :=
  "ShaderMaterial"

namespace Emit

/-- A material from a library file. -/
def fileMaterial (object file : String) : Emit Unit := do
  let asset ← embed file
  useMtlLoader
  useObjLoader
  statements
    [.parseMaterials (materialVar object) asset,
     .preload (materialVar object),
     .useMaterials (some (materialVar object))]

/-! ## Built-in materials -/

/-- The argument for a key of a material with slots. -/
def slotArgument (binding : String) (slots : Slots) (key : String) (v : Value) :
    Emit Argument :=
  if slots.isTexture key then
    match textureFiles? v with
    | none => throw (.invalidArguments binding (.textureSlot key))
    | some files => do return .generated (← texture files)
  else if slots.isColor key then do return .color (← lift (Color.ofValue v))
  else return .value v

/-- The arguments for all keys of a material with slots. -/
def slotArguments (binding : String) (slots : Slots) :
    Entries Value → Emit (Entries Argument)
  | [] => return []
  | (key, v) :: rest => do
    let a ← slotArgument binding slots key v
    let more ← slotArguments binding slots rest
    return (key, a) :: more

/-- A material of any constructor but the shader's. -/
def builtMaterial (object function : String) (args : Args) : Emit Unit := do
  let args ←
    match args, Slots.of? function with
    | .keyword entries, some slots => do
      let entries ← slotArguments (materialVar object) slots entries
      pure (.object entries)
    | args, _ => pure (.ofArgs args)
  statement (.construct (materialVar object) function args)

/-! ## Shaders -/

/-- Whether a shader source is the source itself and not the path of a file. -/
def isSource (text : String) : Bool :=
  Text.contains "main()".toList text.toList

/-- The argument for a shader source. -/
def shaderSource (glslify : Bool) (text : String) : Emit Argument := do
  if isSource text then return .source text
  else
    let name ← embed text
    if glslify then noteGlslify name
    return .generated name

/-- Replaces the argument under a key by that of the shader source it holds. Whatever is no text
stays. -/
def shaderSourceAt (glslify : Bool) (key : String) (entries : Entries Value)
    (args : Entries Argument) : Emit (Entries Argument) := do
  match entries.get? key with
  | some (.string text) => return args.put key (← shaderSource glslify text)
  | _ => return args

/-- The value of a uniform: a `time` that is null is driven by the animation, and the path of an
image file becomes a texture. -/
def uniform (binding name : String) (v : Value) : Emit Uniform := do
  match v with
  | .null =>
    if name = "time" then
      insert fun i => i.addFrameUpdate (Template.timeUpdate binding)
      return .time
    else return .value .null
  | .string path =>
    let s ← get
    if Image.isImageFile s.disk (s.base.join ⟨path⟩) then return .texture (← texture [path])
    else return .value (.string path)
  | v => return .value v

/-- The values of all uniforms. -/
def uniforms (binding : String) : Entries Value → Emit (Entries Uniform)
  | [] => return []
  | (name, v) :: rest => do
    let u ← uniform binding name v
    let more ← uniforms binding rest
    return (name, u) :: more

/-- Replaces the argument for the uniforms. -/
def uniformsAt (context binding : String) (entries : Entries Value) (args : Entries Argument) :
    Emit (Entries Argument) := do
  match entries.get? "uniforms" with
  | none => return args
  | some (.mapping us) => return args.put "uniforms" (.uniforms (← uniforms binding us))
  | some _ => throw (.invalidArguments context .uniforms)

/-- The extension flags of a shader. -/
def extensionsOf (context : String) (entries : Entries Value) :
    Except Error (Entries Value) :=
  match entries.get? "extensions" with
  | none => .ok []
  | some .null => .ok []
  | some (.mapping flags) => .ok flags
  | some _ => .error (.invalidArguments context .extensions)

/-- A shader material: first the sources, then the uniforms, then the extension flags. -/
def shaderMaterial (object : String) (args : Args) (glslify : Bool) : Emit Unit := do
  let binding := materialVar object
  let context := binding ++ " (" ++ shaderFunction ++ ")"
  match args with
  | .positional _ => throw (.invalidArguments context .shaderArgs)
  | .keyword entries =>
    let plain : Entries Argument := entries.map fun (key, v) => (key, .value v)
    let args ← shaderSourceAt glslify "vertexShader" entries plain
    let args ← shaderSourceAt glslify "fragmentShader" entries args
    let args ← uniformsAt context binding entries args
    let flags ← lift (extensionsOf context entries)
    statement (.construct binding shaderFunction (.object (args.without "extensions")))
    statements (flags.map fun (name, v) => .extension binding name v)

/-- The material of an object. -/
def material (object : String) : Material → Emit Unit
  | .file path => fileMaterial object path
  | .call function args glslify =>
    if function = shaderFunction then shaderMaterial object args glslify
    else builtMaterial object function args

end Emit

end SceneScript
