import SceneScript.Transpile

/-!
# The surroundings of a run

The paths that a run may look at. A run works on a `Disk`; whoever fills it from files needs the
configuration first, then everything that its texts could name, then the images of material
libraries.
-/

namespace SceneScript

mutual

/-- The texts in a value. -/
def Value.texts : Value → List String
  | .string s => [s]
  | .list items => Value.textsOfItems items
  | .mapping entries => Value.textsOfEntries entries
  | _ => []

/-- The texts in several values. -/
def Value.textsOfItems : List Value → List String
  | [] => []
  | v :: vs => v.texts ++ Value.textsOfItems vs

/-- The texts in several entries; keys name no files. -/
def Value.textsOfEntries : List (String × Value) → List String
  | [] => []
  | (_, v) :: entries => v.texts ++ Value.textsOfEntries entries

end

namespace Request

/-- The files of the run itself. -/
def ownPaths (r : Request) : List Path :=
  [r.config, r.output, r.manifestPath]

/-- The paths that the texts of the configuration could name. -/
def assetPaths (r : Request) (d : Disk) : List Path :=
  match Config.loadTree d r.config with
  | .ok tree => tree.texts.map fun file => r.baseDirectory.join ⟨file⟩
  | .error _ => []

/-- The images that a file needs, if it is a material library. -/
def imagePaths (d : Disk) (p : Path) : List Path :=
  match d.locate p with
  | .error _ => []
  | .ok l =>
    match d.readTextAt l with
    | .error _ => []
    | .ok text =>
      if Embedder.isMtl l then
        (Text.linesChars text.toList).filterMap fun line =>
          (Mtl.neededImage? (Mtl.body line)).map fun file => l.up.path.join ⟨file⟩
      else []

end Request

/-- The nodes of a disk that are new or differ from those of another, parents before children. -/
def Disk.changes (before after : Disk) : List (Location × Node) :=
  after.nodes.filter fun (l, node) =>
    match before.node? l, node with
    | some (.file old), .file new => old.data ≠ new.data
    | some .directory, .directory => false
    | _, _ => true

end SceneScript
