import SceneScript.Program.Material
import SceneScript.Text.Identifier

/-!
# Objects, lights and properties in the program

An object with a geometry becomes a block of statements, followed by the blocks of its children,
which are attached to it. An object without geometry writes nothing itself, but its children are
still attached to its name.
-/

namespace SceneScript

namespace Emit

/-- The mesh of an object. A mesh file is read with the materials of its own material library, or
with none. -/
def geometry (object : String) (material : Option Material) : Geometry → Emit Unit
  | .call function args => do
    statement (.construct (geometryVar object) function (.ofArgs args))
    statement (.mesh object (material.any fun m => !m.isFile))
  | .file path => do
    let asset ← embed path
    useObjLoader
    if !material.any Material.isFile then statement (.useMaterials none)
    statement (.parseMesh object asset)
    if material.any fun m => !m.isFile then statement (.paint object)

/-- The statements that name an object, attach it and make it known. -/
def placement (name object parent : String) : List Statement :=
  [.setName object name, .attach parent object, .recordUuid object, .followable object, .blank]

/-- The statements for the animations of an object. -/
def animation (name object : String) (tracks : Entries (List Value)) : List Statement :=
  if tracks.isEmpty then []
  else
    .comment (name ++ " animations") ::
      (tracks.map fun (track, args) => Statement.track object track args) ++ [.blank]

/-- The block of one object, or a warning where one without geometry has more than children. -/
def objectBlock (name object : String) (node : Object) (parent : String) : Emit Unit := do
  match node.geometry with
  | some g =>
    statement (.comment (name ++ " object"))
    match node.material with
    | some m => material object m
    | none => pure ()
    geometry object node.material g
    statements (placement name object parent)
    statements (animation name object node.animations)
  | none =>
    if node.material.isSome || !node.animations.isEmpty then warn (.skippedObject name)

mutual

/-- An object attached to a parent, with all its children. -/
def object (name : String) (parent : String) : Object → Emit Unit
  | ⟨g, m, tracks, children⟩ => do
    objectBlock name (Text.identifier name) ⟨g, m, tracks, []⟩ parent
    objects (Text.identifier name) children

/-- Named objects attached to a parent. -/
def objects (parent : String) : List (String × Object) → Emit Unit
  | [] => pure ()
  | (name, node) :: rest => do
    object name parent node
    objects parent rest

end

/-- The statements for a light. -/
def lightStatements (name parent : String) (light : Light) : List Statement :=
  let binding := Text.identifier name
  [.comment (name ++ " light"),
   .construct binding light.function (.ofArgs light.args),
   .attach parent binding] ++
    (match light.position with
     | some coordinates => [.position binding coordinates]
     | none => []) ++
    [.blank]

/-- A light attached to a parent. -/
def light (name parent : String) (node : Light) : Emit Unit :=
  statements (lightStatements name parent node)

/-- Named lights attached to a parent. -/
def lights (parent : String) : Entries Light → Emit Unit
  | [] => pure ()
  | (name, node) :: rest => do
    light name parent node
    lights parent rest

/-! ## Properties of the scene -/

/-- The paths of the faces of a cube. -/
def facePaths (faces : List Value) : Except Error (List String) :=
  faces.mapM fun
    | .string path => .ok path
    | _ => .error (.invalidArguments "SCENE.background" .cubeFaces)

/-- The background: six faces of a cube, the path of an image, or a color. A text with a point is
taken for a path. -/
def background (v : Value) : Emit Background := do
  match v with
  | .list faces =>
    if faces.length = cubeFaces then return .texture (← texture (← lift (facePaths faces)))
    else return .color (← lift (Color.ofValue v))
  | .string s =>
    if s.toList.contains '.' then return .texture (← texture [s])
    else return .color (← lift (Color.ofValue v))
  | v => return .color (← lift (Color.ofValue v))

/-- A property of the scene. -/
def sceneProperty (name : String) (v : Value) : Emit Unit := do
  if name = "background" then statement (.background (← background v))
  else statement (.property name v)

/-- Properties of the scene. -/
def sceneProperties : Entries Value → Emit Unit
  | [] => pure ()
  | (name, v) :: rest => do
    sceneProperty name v
    sceneProperties rest

end Emit

end SceneScript
