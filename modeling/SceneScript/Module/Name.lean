import SceneScript.Error

/-!
# Generated modules

Each generated module has a numbered name, a file next to the program and one binding of the same
name; the program imports that binding.
-/

namespace SceneScript

/-- The name of a generated module: an embedded text file or a texture. -/
inductive ModuleName where
  | file (number : Nat)
  | texture (number : Nat)
  deriving DecidableEq, Repr

namespace ModuleName

/-- The binding of a module. -/
def text : ModuleName → String
  | .file n => "EXTRA_FILE_" ++ toString n
  | .texture n => "EXTRA_TEXTURE_" ++ toString n

end ModuleName

/-- The file of the module with a binding. -/
def modulePath (out : Path) (binding : String) : Path :=
  out.join ⟨binding ++ ".js"⟩

/-- The line that imports the binding of a module. -/
def importLine (binding : String) : String :=
  "import \x7b " ++ binding ++ " \x7d from \"./" ++ binding ++ "\";\n"

/-- The file of a module. -/
def ModuleName.path (out : Path) (name : ModuleName) : Path :=
  modulePath out name.text

/-- The place of a file named in a scene, seen from the directory of its files. -/
def resolveAsset (d : Disk) (base : Path) (file : String) : Except Error Location :=
  match d.locate (base.join ⟨file⟩) with
  | .ok l => .ok l
  | .error fault => .error (.assetRead (base.join ⟨file⟩) fault)

/-- Writes the text of a generated file. -/
def writeGenerated (d : Disk) (p : Path) (text : String) : Except Error Disk :=
  match d.write p text.toUTF8 with
  | .ok d => .ok d
  | .error fault => .error (.write p fault)

end SceneScript
