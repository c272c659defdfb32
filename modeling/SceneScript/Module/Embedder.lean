import SceneScript.Module.Mtl
import SceneScript.Module.Name

/-!
# Embedded files

An embedder turns text files into generated modules, each file once however its path is spelled. A
module holds the text that its file had when it was embedded.
-/

namespace SceneScript

/-- The directories of an embedder, the modules by the places of their files, and the module files
in the order in which they were written. -/
structure Embedder where
  base : Path
  out : Path
  cached : List (Location × ModuleName)
  written : List Path

namespace Embedder

/-- An embedder that has embedded nothing. -/
def new (base out : Path) : Embedder :=
  ⟨base, out, [], []⟩

/-- The number of embedded files. -/
def size (e : Embedder) : Nat :=
  e.cached.length

/-- The module of a file that is embedded. -/
def find? (e : Embedder) (l : Location) : Option ModuleName :=
  e.cached.lookup l

/-- Whether a file is a material library. -/
def isMtl (l : Location) : Bool :=
  l.path.lowerExtension? = some "mtl"

/-- The text to embed for a file: a material library has its images inlined. -/
def content (d : Disk) (l : Location) : Except Error String :=
  match d.readTextAt l with
  | .error fault => .error (.assetRead l.path fault)
  | .ok text => if isMtl l then Mtl.inlineImages d l.up.path text else .ok text

/-- The text of a module. -/
def moduleText (binding text : String) : String :=
  "export const " ++ binding ++ " = " ++ Text.quote text ++ ";\n"

/-- The module of a file, written if the file is new. Nothing changes when it is refused. -/
def embed (e : Embedder) (d : Disk) (file : String) :
    Except Error (ModuleName × Embedder × Disk) := do
  let l ← resolveAsset d e.base file
  match e.find? l with
  | some name => return (name, e, d)
  | none =>
    let name := ModuleName.file e.size
    let text ← content d l
    let path := name.path e.out
    let d ← writeGenerated d path (moduleText name.text text)
    return (name, { e with cached := e.cached ++ [(l, name)], written := e.written ++ [path] }, d)

end Embedder

end SceneScript
