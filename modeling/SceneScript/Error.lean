import SceneScript.Disk
import SceneScript.Json

/-!
# Errors

Everything that can stop a run, by cause, with the wording in one place. A fault of the disk behind
an error is not part of the error's own text; `Error.trail` adds it.
-/

namespace SceneScript

/-- Why a configuration cannot be loaded. -/
inductive ConfigFault where
  /-- The file cannot be read. -/
  | disk (fault : Fault)
  /-- The text does not follow its format. -/
  | syntaxError (detail : String)
  /-- The document is no mapping. -/
  | notMapping
  deriving DecidableEq, Repr

/-- A configuration fault in words. -/
def ConfigFault.message : ConfigFault → String
  | .disk fault => fault.message
  | .syntaxError detail => detail
  | .notMapping => "document root must be a mapping"

/-- Why a value is no color. -/
inductive ColorFault where
  /-- A list of another length than three. -/
  | componentCount
  /-- Neither a list, a string nor a number. -/
  | kind
  deriving DecidableEq, Repr

/-- A color fault in words. -/
def ColorFault.message : ColorFault → String
  | .componentCount => "expected exactly 3 components"
  | .kind => "expected an RGB triple, a 0xRRGGBB literal or a color name"

/-- What is wrong with a part of a scene. -/
inductive ArgumentFault where
  | notMapping
  | notString (key : String)
  | moduleList
  | position
  | shaderArgs
  | uniforms
  | extensions
  | cubeFaces
  | textureSlot (key : String)
  deriving DecidableEq, Repr

/-- An argument fault in words. -/
def ArgumentFault.message : ArgumentFault → String
  | .notMapping => "expected a mapping"
  | .notString key => "`" ++ key ++ "` must be a string"
  | .moduleList => "expected a string or a list of strings"
  | .position => "POSITION must be a list of 3 values"
  | .shaderArgs => "ARGS must be a mapping"
  | .uniforms => "uniforms must be a mapping"
  | .extensions => "extensions must be a mapping"
  | .cubeFaces => "cube faces must be file paths"
  | .textureSlot key => "texture slot `" ++ key ++ "` expects a path or a list of paths"

/-- What stops a run. -/
inductive Error where
  | configLoad (path : Path) (fault : ConfigFault)
  | missingField (context field : String)
  | invalidColor (value : Value) (fault : ColorFault)
  | invalidArguments (context : String) (fault : ArgumentFault)
  | invalidTextureSet (count : Nat)
  | assetRead (path : Path) (fault : Fault)
  | write (path : Path) (fault : Fault)

namespace Error

/-- An error in words. -/
def message : Error → String
  | .configLoad path fault => "failed to load config " ++ path.text ++ ": " ++ fault.message
  | .missingField context field => context ++ ": missing required field `" ++ field ++ "`"
  | .invalidColor value fault => "invalid color " ++ Json.compact value ++ ": " ++ fault.message
  | .invalidArguments context fault =>
    "invalid arguments for " ++ context ++ ": " ++ fault.message
  | .invalidTextureSet count =>
    "texture set must contain 1 or 6 files, got " ++ toString count
  | .assetRead path _ => "failed to read asset " ++ path.text
  | .write path _ => "failed to write " ++ path.text

/-- The fault of the disk behind an error. -/
def fault? : Error → Option Fault
  | .assetRead _ fault => some fault
  | .write _ fault => some fault
  | _ => none

/-- An error in words, followed by the fault of the disk behind it. -/
def trail (e : Error) : String :=
  match e.fault? with
  | some fault => e.message ++ ": " ++ fault.message
  | none => e.message

end Error

/-- What a run tells without stopping. -/
inductive Warning where
  /-- An option that the program does not know. -/
  | unknownOption (key : String)
  /-- An object without geometry that has a material or animations. -/
  | skippedObject (name : String)
  deriving DecidableEq, Repr

/-- A warning in words. -/
def Warning.message : Warning → String
  | .unknownOption key => "ignoring unknown SIHM option `" ++ key ++ "`"
  | .skippedObject name =>
    "object `" ++ name ++ "` has no GEOMETRY; its material and animations are skipped"

end SceneScript
