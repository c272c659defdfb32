import SceneScript.Value

/-!
# Scenes

What a configuration describes: objects in a tree, lights, properties of the scene, and options of
the run. Everything keeps the order of the document.
-/

namespace SceneScript

/-- The arguments of a call: one after the other, or by name. -/
inductive Args where
  | positional (items : List Value)
  | keyword (entries : Entries Value)
  deriving Inhabited

/-- The shape of an object: a constructor call or a mesh file. -/
inductive Geometry where
  | call (function : String) (args : Args)
  | file (path : String)

/-- The surface of an object: a constructor call or a material library file. The shader files of a
call with `glslify` need one more transformation when the program is bundled. -/
inductive Material where
  | call (function : String) (args : Args) (glslify : Bool)
  | file (path : String)

/-- Whether a material comes from a file. -/
def Material.isFile : Material → Bool
  | .file _ => true
  | .call _ _ _ => false

/-- An object with its children. An animation is the name of a track and the arguments of its
constructor. -/
structure Object where
  geometry : Option Geometry
  material : Option Material
  animations : Entries (List Value)
  children : List (String × Object)

/-- A light. -/
structure Light where
  function : String
  args : Args
  position : Option (List Value)

/-- Options of the run. The extra modules are sorted and without repeats. -/
structure SceneOptions where
  showStats : Bool
  extraModules : List String
  deriving DecidableEq, Repr

namespace SceneOptions

/-- Nothing asked for. -/
def default : SceneOptions :=
  ⟨false, []⟩

/-- Puts a name into a sorted list, unless it is there. -/
def insertSorted (name : String) : List String → List String
  | [] => [name]
  | other :: rest =>
    if name = other then other :: rest
    else if name < other then name :: other :: rest
    else other :: insertSorted name rest

end SceneOptions

/-- A scene. -/
structure Scene where
  objects : Entries Object
  lights : Entries Light
  properties : Entries Value
  options : SceneOptions

end SceneScript
