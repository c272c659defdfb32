import SceneScript.Error
import SceneScript.Scene

/-!
# Reading a scene

A scene is read from a configuration value. Sections and fields that are null count as absent; keys
that a mapping does not use are ignored. An error names the place by a dotted path of keys. The
first error in a fixed order wins: options, properties, objects, lights; within an object its
geometry, material, animations, children.
-/

namespace SceneScript

/-- The entries of a value that has to be a mapping. -/
def Value.asMapping (context : String) : Value → Except Error (Entries Value)
  | .mapping entries => .ok entries
  | _ => .error (.invalidArguments context .notMapping)

/-- The text of a value that has to be a string. -/
def Value.asName (context key : String) : Value → Except Error String
  | .string s => .ok s
  | _ => .error (.invalidArguments context (.notString key))

/-- Arguments: a list, a mapping, or a single value as a list of one. -/
def Args.ofValue : Value → Args
  | .list items => .positional items
  | .mapping entries => .keyword entries
  | .null => .positional []
  | v => .positional [v]

/-- The arguments that a function must have. -/
def Args.ofEntries (context : String) (entries : Entries Value) : Except Error Args :=
  match entries.field? "ARGS" with
  | some v => .ok (.ofValue v)
  | none => .error (.missingField context "ARGS")

/-- A geometry: a function with arguments wins over a file. -/
def Geometry.ofValue (context : String) (v : Value) : Except Error Geometry := do
  let entries ← v.asMapping context
  match entries.field? "FUNCTION" with
  | some function =>
    let function ← function.asName context "FUNCTION"
    let args ← Args.ofEntries context entries
    return .call function args
  | none =>
    match entries.field? "FILE" with
    | some name => return .file (← name.asName context "FILE")
    | none => throw (.missingField context "FUNCTION or FILE")

/-- A material: a function with arguments wins over a file. -/
def Material.ofValue (context : String) (v : Value) : Except Error Material := do
  let entries ← v.asMapping context
  match entries.field? "FUNCTION" with
  | some function =>
    let function ← function.asName context "FUNCTION"
    let args ← Args.ofEntries context entries
    let glslify := ((entries.field? "USES_GLSLIFY").map Value.truthy).getD false
    return .call function args glslify
  | none =>
    match entries.field? "FILE" with
    | some name => return .file (← name.asName context "FILE")
    | none => throw (.missingField context "FUNCTION or FILE")

/-- The position of a light: absent, or a list of three values. -/
def Light.positionOf (context : String) (entries : Entries Value) :
    Except Error (Option (List Value)) :=
  match entries.field? "POSITION" with
  | none => .ok none
  | some (.list [x, y, z]) => .ok (some [x, y, z])
  | some _ => .error (.invalidArguments context .position)

/-- A light. -/
def Light.ofValue (context : String) (v : Value) : Except Error Light := do
  let entries ← v.asMapping context
  match entries.field? "FUNCTION" with
  | none => throw (.missingField context "FUNCTION")
  | some function =>
    let position ← positionOf context entries
    let function ← function.asName context "FUNCTION"
    let args ← Args.ofEntries context entries
    return ⟨function, args, position⟩

/-- The arguments of a track: a list, or a single value as a list of one. -/
def Object.trackArgs : Value → List Value
  | .list items => items
  | v => [v]

/-- The animations of an object. -/
def Object.animationsOf (context : String) (entries : Entries Value) :
    Except Error (Entries (List Value)) :=
  match entries.field? "ANIMATIONS" with
  | none => .ok []
  | some v => do
    let tracks ← v.asMapping (context ++ ".ANIMATIONS")
    return tracks.map fun (track, args) => (track, trackArgs args)

/-- An optional part of an object. -/
def Object.partOf {α : Type} (read : String → Value → Except Error α) (context key : String)
    (entries : Entries Value) : Except Error (Option α) :=
  match entries.field? key with
  | none => .ok none
  | some v => do return some (← read (context ++ "." ++ key) v)

mutual

/-- An object with all its children. -/
def Object.ofValue (context : String) : Value → Except Error Object
  | .mapping entries => do
    let geometry ← Object.partOf Geometry.ofValue context "GEOMETRY" entries
    let material ← Object.partOf Material.ofValue context "MATERIAL" entries
    let animations ← Object.animationsOf context entries
    let children ← Object.childrenOf context entries
    return ⟨geometry, material, animations, children⟩
  | _ => .error (.invalidArguments context .notMapping)

/-- The children of an object: those of its entry for children, if it has one. -/
def Object.childrenOf (context : String) : List (String × Value) → Except Error (Entries Object)
  | [] => .ok []
  | (key, v) :: rest =>
    if key = "CHILDREN" then Object.groupOf (context ++ ".CHILDREN") v
    else Object.childrenOf context rest

/-- Named objects. -/
def Object.groupOf (context : String) : Value → Except Error (Entries Object)
  | .null => .ok []
  | .mapping entries => Object.ofEntries context entries
  | _ => .error (.invalidArguments context .notMapping)

/-- Named objects, each with its name in its context. -/
def Object.ofEntries (context : String) : List (String × Value) → Except Error (Entries Object)
  | [] => .ok []
  | (name, v) :: rest => do
    let object ← Object.ofValue (context ++ "." ++ name) v
    let more ← Object.ofEntries context rest
    return (name, object) :: more

end

/-- Named lights, each with its name in its context. -/
def Light.ofEntries (context : String) : Entries Value → Except Error (Entries Light)
  | [] => .ok []
  | (name, v) :: rest => do
    let light ← Light.ofValue (context ++ "." ++ name) v
    let more ← Light.ofEntries context rest
    return (name, light) :: more

namespace SceneOptions

/-- The modules that an entry for extra modules lists. -/
def modulesOf : Value → Except Error (List String)
  | .null => .ok []
  | .string s => .ok [s]
  | .list items => items.mapM (Value.asName "SIHM.extra_modules" "extra_modules")
  | _ => .error (.invalidArguments "SIHM.extra_modules" .moduleList)

/-- The options after one more entry. An unknown one changes nothing. -/
def add (options : SceneOptions) (key : String) (v : Value) : Except Error SceneOptions :=
  if key = "show_stats" then .ok { options with showStats := v.truthy }
  else if key = "extra_modules" then do
    let modules ← modulesOf v
    return { options with
      extraModules := modules.foldl (fun sorted name => insertSorted name sorted)
        options.extraModules }
  else .ok options

/-- Whether an option is one that the program knows. -/
def isKnown (key : String) : Bool :=
  key = "show_stats" || key = "extra_modules"

/-- The options of a run. -/
def ofValue (v : Value) : Except Error SceneOptions := do
  let entries ← v.asMapping "SIHM"
  entries.foldlM (fun options (key, v) => options.add key v) .default

/-- The warnings about unknown options, up to the first entry with an error. -/
def entryWarnings : Entries Value → List Warning
  | [] => []
  | (key, v) :: rest =>
    match SceneOptions.default.add key v with
    | .error _ => []
    | .ok _ => if isKnown key then entryWarnings rest else .unknownOption key :: entryWarnings rest

/-- The warnings that reading the options gives. -/
def warnings : Value → List Warning
  | .mapping entries => entryWarnings entries
  | _ => []

end SceneOptions

namespace Scene

/-- A section of a document, or what stands for it when it is absent. -/
def sectionOf {α : Type} (root : Entries Value) (key : String) (absent : α)
    (read : Value → Except Error α) : Except Error α :=
  match root.field? key with
  | none => .ok absent
  | some v => read v

/-- The scene of a document. -/
def ofValue (v : Value) : Except Error Scene := do
  let root ← v.asMapping "document"
  let options ← sectionOf root "SIHM" .default SceneOptions.ofValue
  let properties ← sectionOf root "SCENE" [] (Value.asMapping "SCENE")
  let objects ← sectionOf root "OBJECTS" [] (Object.groupOf "OBJECTS")
  let lights ← sectionOf root "LIGHTS" [] fun v => do
    Light.ofEntries "LIGHTS" (← v.asMapping "LIGHTS")
  return ⟨objects, lights, properties, options⟩

/-- The warnings that reading a document gives. -/
def warnings : Value → List Warning
  | .mapping root => ((Entries.field? root "SIHM").map SceneOptions.warnings).getD []
  | _ => []

end Scene

end SceneScript
