import SceneScript.Image
import SceneScript.Module.Name

/-!
# Textures

A texture is one image or the six faces of a cube. A texture library turns each set of images into a
generated module once. Requests are told apart by the places of their images in order, each ended by
a line feed, so neither the spelling of a path nor the order of the faces matters. Sets whose places
read the same in this way share a module.
-/

namespace SceneScript

/-- The kinds of textures. -/
inductive TextureKind where
  | flat
  | cube
  deriving DecidableEq, Repr

/-- The number of faces of a cube. -/
def cubeFaces : Nat :=
  6

/-- The kind of a texture with a number of images. -/
def TextureKind.ofCount? (count : Nat) : Option TextureKind :=
  if count = 1 then some .flat else if count = cubeFaces then some .cube else none

/-- The answer to a request: its module, its kind, and whether the module is new. -/
structure TextureHandle where
  name : ModuleName
  kind : TextureKind
  created : Bool
  deriving DecidableEq, Repr

/-- The files that a value lists: one path or a list of paths. -/
def textureFiles? : Value → Option (List String)
  | .string s => some [s]
  | .list items => items.mapM Value.string?
  | _ => none

/-- The directories of a texture library, the modules by the keys of their requests, and the module
files in the order in which they were written. -/
structure TextureLibrary where
  base : Path
  out : Path
  cached : List (String × ModuleName)
  written : List Path

namespace TextureLibrary

/-- A library without textures. -/
def new (base out : Path) : TextureLibrary :=
  ⟨base, out, [], []⟩

/-- The number of textures. -/
def size (t : TextureLibrary) : Nat :=
  t.cached.length

/-- The key of a request. -/
def key (places : List Location) : String :=
  String.join (places.map fun l => l.text ++ "\n")

/-- The places of the files of a request, in order. -/
def places (d : Disk) (base : Path) (files : List String) : Except Error (List Location) := do
  let found ← files.mapM (resolveAsset d base)
  return found.mergeSort Location.le

/-- The expression that loads a texture from its quoted data URLs. -/
def loadCall (kind : TextureKind) (urls : List String) : String :=
  match kind with
  | .flat => "new THREE.TextureLoader().load(" ++ String.join urls ++ ")"
  | .cube =>
    "new THREE.CubeTextureLoader().load([\n    " ++ ",\n    ".intercalate urls ++ ",\n])"

/-- The text of a module. -/
def moduleText (binding : String) (kind : TextureKind) (urls : List String) : String :=
  "import * as THREE from \"three\";\n\nexport const " ++ binding ++ " = " ++
    loadCall kind (urls.map Text.quote) ++ ";\n"

/-- The module of a set of images, written if its key is new. Nothing changes when it is refused. -/
def add (t : TextureLibrary) (d : Disk) (files : List String) :
    Except Error (TextureHandle × TextureLibrary × Disk) := do
  match TextureKind.ofCount? files.length with
  | none => throw (.invalidTextureSet files.length)
  | some kind =>
    let places ← places d t.base files
    let key := key places
    match t.cached.lookup key with
    | some name => return (⟨name, kind, false⟩, t, d)
    | none =>
      let name := ModuleName.texture t.size
      let urls ← places.mapM (Image.locationDataUrl d)
      let path := name.path t.out
      let d ← writeGenerated d path (moduleText name.text kind urls)
      let t := { t with cached := t.cached ++ [(key, name)], written := t.written ++ [path] }
      return (⟨name, kind, true⟩, t, d)

end TextureLibrary

end SceneScript
