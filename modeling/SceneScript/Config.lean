import SceneScript.Ini.Tree
import SceneScript.Json.Reader
import SceneScript.Scene.Reading
import SceneScript.Yaml

/-!
# Configuration files

The extension of a file picks its format: INI, JSON, or YAML for everything else. The values in an
INI file are read as YAML, and stay texts where that fails. The document has to be a mapping.
-/

namespace SceneScript.Config

/-- The formats. -/
inductive Format where
  | ini
  | json
  | yaml
  deriving DecidableEq, Repr

/-- The format of a file. -/
def Format.ofPath (p : Path) : Format :=
  match p.lowerExtension? with
  | some "ini" => .ini
  | some "cfg" => .ini
  | some "json" => .json
  | _ => .yaml

/-- The value of a raw text in an INI file. -/
def iniValue (raw : String) : Value :=
  match Yaml.read raw with
  | .ok v => v
  | .error _ => .string raw

/-- A text without the byte order mark at its start. -/
def withoutByteOrderMark (text : String) : String :=
  match text.toList with
  | '\ufeff' :: rest => String.ofList rest
  | _ => text

/-- The value of a text in a format. -/
def parse (format : Format) (text : String) : Except ConfigFault Value :=
  match format with
  | .ini =>
    match Ini.read (withoutByteOrderMark text) with
    | .ok sections => .ok (Ini.treeOf iniValue sections)
    | .error defect => .error (.syntaxError defect.message)
  | .json =>
    match Json.read text with
    | .ok v => .ok v
    | .error defect => .error (.syntaxError defect.message)
  | .yaml =>
    match Yaml.read text with
    | .ok v => .ok v
    | .error defect => .error (.syntaxError defect.message)

/-- The value of a text that has to be a mapping. -/
def parseDocument (format : Format) (text : String) : Except ConfigFault Value := do
  match ← parse format text with
  | .mapping entries => .ok (.mapping entries)
  | _ => .error .notMapping

/-- The document in a file. -/
def loadTree (d : Disk) (p : Path) : Except Error Value :=
  match d.readText p with
  | .error fault => .error (.configLoad p (.disk fault))
  | .ok text =>
    match parseDocument (.ofPath p) text with
    | .error fault => .error (.configLoad p fault)
    | .ok tree => .ok tree

/-- The scene in a file. -/
def loadScene (d : Disk) (p : Path) : Except Error Scene := do
  Scene.ofValue (← loadTree d p)

/-- The warnings that loading a scene gives. -/
def loadWarnings (d : Disk) (p : Path) : List Warning :=
  match loadTree d p with
  | .ok tree => Scene.warnings tree
  | .error _ => []

end SceneScript.Config
