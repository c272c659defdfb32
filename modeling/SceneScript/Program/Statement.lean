import SceneScript.Color
import SceneScript.Module.Name
import SceneScript.Scene

/-!
# Statements

The statements that a scene becomes, each with its text. What a statement takes from the scene, and
which names it binds and uses, can be read off its parts.
-/

namespace SceneScript

/-- The value of a shader uniform. -/
inductive Uniform where
  /-- A time that each frame sets anew. -/
  | time
  | texture (name : ModuleName)
  | value (v : Value)

/-- The text of a uniform's value. -/
def Uniform.text : Uniform → String
  | .time => "0.0"
  | .texture name => name.text
  | .value v => v.literal

/-- An argument of a constructor. -/
inductive Argument where
  | value (v : Value)
  | generated (name : ModuleName)
  | source (text : String)
  | color (c : Color)
  | uniforms (entries : Entries Uniform)

/-- The text of a uniform in its object. -/
def Uniform.entryText : String × Uniform → String
  | (name, u) => name ++ ": \x7bvalue: " ++ u.text ++ "\x7d"

/-- The text of an argument. -/
def Argument.text : Argument → String
  | .value v => v.literal
  | .generated name => name.text
  | .source text => Text.quote text
  | .color c => c.text
  | .uniforms entries => "\x7b" ++ ",".intercalate (entries.map Uniform.entryText) ++ "\x7d"

/-- The arguments of a constructor: one after the other, or as one object. -/
inductive Arguments where
  | positional (items : List Argument)
  | object (entries : Entries Argument)

namespace Arguments

/-- The text of an argument in an object. -/
def entryText : String × Argument → String
  | (key, a) => key ++ ": " ++ a.text

/-- The text between the parentheses of a call. -/
def text : Arguments → String
  | .positional items => ",".intercalate (items.map Argument.text)
  | .object entries => "\x7b" ++ ",".intercalate (entries.map entryText) ++ "\x7d"

/-- Arguments as the scene gives them. -/
def ofArgs : Args → Arguments
  | .positional items => .positional (items.map .value)
  | .keyword entries => .object (entries.map fun (key, v) => (key, .value v))

end Arguments

/-- The variable of an object's material. -/
def materialVar (object : String) : String :=
  object ++ "_material"

/-- The variable of an object's geometry. -/
def geometryVar (object : String) : String :=
  object ++ "_geometry"

/-- The variable of an object's identity. -/
def uuidVar (object : String) : String :=
  object ++ "_uuid"

/-- The constructor of a keyframe track. -/
def trackFunction (track : String) : String :=
  if track = "quaternion" then "QuaternionKeyframeTrack" else "VectorKeyframeTrack"

/-- The background of a scene. -/
inductive Background where
  | texture (name : ModuleName)
  | color (c : Color)

/-- The text of a background. -/
def Background.text : Background → String
  | .texture name => name.text
  | .color c => c.text

/-- The value of an extension flag: the words for the booleans in lower case, or else a literal. -/
def flagText : Value → String
  | .string s =>
    let lower := s.map Char.toLower
    if lower = "true" || lower = "false" then lower else s
  | v => v.literal

/-- A statement. -/
inductive Statement where
  | comment (text : String)
  | blank
  /-- A property of the scene. -/
  | property (name : String) (v : Value)
  | background (b : Background)
  /-- A variable with a new object of a constructor. -/
  | construct (binding : String) (function : String) (args : Arguments)
  /-- A material library, read from an embedded file. -/
  | parseMaterials (binding : String) (asset : ModuleName)
  | preload (binding : String)
  /-- The materials that the mesh loader uses from here on. -/
  | useMaterials (binding : Option String)
  | extension (binding : String) (name : String) (v : Value)
  /-- A mesh of a geometry and perhaps a material. -/
  | mesh (object : String) (withMaterial : Bool)
  /-- A mesh, read from an embedded file with the materials of the loader. -/
  | parseMesh (object : String) (asset : ModuleName)
  /-- The material of an object put on all its parts. -/
  | paint (object : String)
  | setName (object : String) (name : String)
  | attach (parent object : String)
  | recordUuid (object : String)
  | followable (object : String)
  | track (object : String) (name : String) (args : List Value)
  | position (object : String) (coordinates : List Value)

namespace Statement

/-- The statement without its line end. -/
def code : Statement → String
  | .comment text => "// " ++ text
  | .blank => ""
  | .property name v => "scene." ++ name ++ " = " ++ v.literal ++ ";"
  | .background b => "scene.background = " ++ b.text ++ ";"
  | .construct binding function args =>
    "var " ++ binding ++ " = new THREE." ++ function ++ "(" ++ args.text ++ ");"
  | .parseMaterials binding asset =>
    "var " ++ binding ++ " = MTL_LOADER.parse(" ++ asset.text ++ ", \"\");"
  | .preload binding => binding ++ ".preload();"
  | .useMaterials (some binding) => "OBJ_LOADER.setMaterials(" ++ binding ++ ");"
  | .useMaterials none => "OBJ_LOADER.setMaterials(null);"
  | .extension binding name v =>
    binding ++ ".extensions." ++ name ++ " = " ++ flagText v ++ ";"
  | .mesh object true =>
    "var " ++ object ++ " = new THREE.Mesh(" ++ geometryVar object ++ ", " ++ materialVar object ++
      ");"
  | .mesh object false =>
    "var " ++ object ++ " = new THREE.Mesh(" ++ geometryVar object ++ ");"
  | .parseMesh object asset => "var " ++ object ++ " = OBJ_LOADER.parse(" ++ asset.text ++ ");"
  | .paint object =>
    object ++ ".traverse(function (child) \x7b if (child.isMesh) \x7b child.material = " ++
      materialVar object ++ "; \x7d \x7d);"
  | .setName object name => object ++ ".name = " ++ Text.quote name ++ ";"
  | .attach parent object => parent ++ ".add(" ++ object ++ ");"
  | .recordUuid object => "var " ++ uuidVar object ++ " = " ++ object ++ ".uuid;"
  | .followable object => "followable_objects.push(" ++ object ++ ");"
  | .track object name args =>
    "mixer.addKeyframeTrack(new THREE." ++ trackFunction name ++ "(" ++ uuidVar object ++ " + '." ++
      name ++ "', " ++ Value.positionalText args ++ "));"
  | .position object coordinates =>
    object ++ ".position.set(" ++ Value.positionalText coordinates ++ ");"

/-- The text of a statement, with its line end. -/
def text (s : Statement) : String :=
  s.code ++ "\n"

end Statement

end SceneScript
