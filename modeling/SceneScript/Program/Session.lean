import SceneScript.Module.Embedder
import SceneScript.Module.Texture
import SceneScript.Program.Buffer
import SceneScript.Program.Inserts
import SceneScript.Program.Template

/-!
# Sessions

The state of one emission: the disk, the buffer, the late inserts, the generated modules and the
warnings. A step that fails keeps what it has done so far.
-/

namespace SceneScript

/-- The state of an emission. `glslify` lists the shader modules that need one more
transformation. -/
structure Session where
  base : Path
  disk : Disk
  buffer : Buffer
  inserts : Inserts
  embedder : Embedder
  textures : TextureLibrary
  glslify : List Path
  warnings : List Warning

/-- A fresh session: files are looked up from `base`, modules go to `out`. -/
def Session.new (base out : Path) (d : Disk) : Session where
  base := base
  disk := d
  buffer := .empty
  inserts := .empty
  embedder := .new base out
  textures := .new base out
  glslify := []
  warnings := []

/-- All module files, embedded files first. -/
def Session.generatedFiles (s : Session) : List Path :=
  s.embedder.written ++ s.textures.written

/-- A step of an emission. -/
abbrev Emit := EStateM Error Session

namespace Emit

/-- Writes a piece. -/
def piece (p : Piece) : Emit Unit :=
  modify fun s => { s with buffer := s.buffer.push p }

/-- Writes a statement. -/
def statement (s : Statement) : Emit Unit :=
  piece (.statement s)

/-- Writes fixed text. -/
def fixed (text : String) : Emit Unit :=
  piece (.fixed text)

/-- Writes statements one after the other. -/
def statements : List Statement → Emit Unit
  | [] => pure ()
  | s :: rest => do
    statement s
    statements rest

/-- Changes the late inserts. -/
def insert (change : Inserts → Inserts) : Emit Unit :=
  modify fun s => { s with inserts := change s.inserts }

/-- Gives a warning. -/
def warn (w : Warning) : Emit Unit :=
  modify fun s => { s with warnings := s.warnings ++ [w] }

/-- Imports the binding of a generated module. -/
def importModule (name : ModuleName) : Emit Unit :=
  insert fun i => i.addImport (importLine name.text)

/-- The module of a text file, with its import. -/
def embed (file : String) : Emit ModuleName := do
  let s ← get
  match s.embedder.embed s.disk file with
  | .error e => throw e
  | .ok (name, embedder, disk) =>
    set { s with embedder := embedder, disk := disk }
    importModule name
    return name

/-- The module of a texture, with its import. -/
def texture (files : List String) : Emit ModuleName := do
  let s ← get
  match s.textures.add s.disk files with
  | .error e => throw e
  | .ok (handle, textures, disk) =>
    set { s with textures := textures, disk := disk }
    importModule handle.name
    return handle.name

/-- Asks for the mesh loader. -/
def useObjLoader : Emit Unit :=
  insert fun i =>
    (i.addImport Template.objLoaderImport).addBoilerplate Template.objLoader

/-- Asks for the material library loader. -/
def useMtlLoader : Emit Unit :=
  insert fun i =>
    (i.addImport Template.mtlLoaderImport).addBoilerplate Template.mtlLoader

/-- Notes that a shader module needs one more transformation. -/
def noteGlslify (name : ModuleName) : Emit Unit :=
  modify fun s =>
    let path := name.path s.embedder.out
    if path ∈ s.glslify then s else { s with glslify := s.glslify ++ [path] }

/-- The result of a function that may fail. -/
def lift {α : Type} (result : Except Error α) : Emit α :=
  match result with
  | .ok a => pure a
  | .error e => throw e

end Emit

end SceneScript
