import SceneScript.Yaml.Node
import SceneScript.Yaml.Scalar
import SceneScript.Yaml.Token.Scan

/-!
# Reading YAML text

A text holds at most one document. Mapping keys are the texts of scalars; a repeated key keeps its
first place and takes its last value. Aliases stand for the nodes with their anchors; how often
they may be followed, and how deep collections may be nested, is limited.
-/

namespace SceneScript.Yaml

/-- The tags of the core types. -/
def coreTag (name : String) : TagText :=
  ("tag:yaml.org,2002:" ++ name).toUTF8.data.toList

/-- Whether a tag is local to the document; its name has to be UTF-8. -/
def isLocalTag : TagText → Bool
  | 33 :: name => (String.fromUTF8? (ByteArray.mk name.toArray)).isSome
  | _ => false

/-- The value of a scalar with a tag. A text has to fit the tag of a core type; under any other tag
it stays a text. -/
def taggedValue (tag : TagText) (text : String) (plain : Bool) : Except Defect Value :=
  if isLocalTag tag then .error .unknownTag
  else if tag = coreTag "bool" then
    match boolWord? text with
    | some b => .ok (.bool b)
    | none => .error .taggedText
  else if tag = coreTag "int" then (integerValue? text).getD (.error .taggedText)
  else if tag = coreTag "float" then
    match float? text with
    | some v => .ok v
    | none => .error .taggedText
  else if tag = coreTag "null" then
    if isNullWord text then .ok .null else .error .taggedText
  else if tag.head? = some 33 && plain then plainValue text
  else .ok (.string text)

/-- The value of a scalar. -/
def scalarValue (mark : Mark) (text : String) (plain : Bool) : Except Defect Value :=
  match mark.tag with
  | some tag => taggedValue tag text plain
  | none => if plain then plainValue text else .ok (.string text)

/-- Following aliases, counted. -/
abbrev Follow := StateT Nat (Except Defect)

/-- The node that an alias stands for, or the node itself. Every alias counts. -/
def follow (nodes : List (Nat × Node)) (limit : Nat) : Node → Follow Node
  | .alias number => do
    let count := (← get) + 1
    if limit < count then throw .repetition
    set count
    match nodes.lookup number with
    | some target => return target
    | none => throw .alias
  | n => return n

/-- The text of a key. -/
def keyText (nodes : List (Nat × Node)) (limit : Nat) (key : Node) : Follow String := do
  match ← follow nodes limit key with
  | .scalar _ text _ => return text
  | _ => throw .complexKey

/-- A collection's tag must not be local. -/
def checkTag (mark : Mark) : Follow Unit :=
  if mark.tag.any isLocalTag then throw .unknownTag else return ()

/-- The value of a node whose collections are nested at most `depth` deep. -/
def valueOf (nodes : List (Nat × Node)) (limit : Nat) (depth : Nat) (n : Node) : Follow Value := do
  match ← follow nodes limit n with
  | .scalar mark text plain => scalarValue mark text plain
  | .sequence mark items =>
    checkTag mark
    match depth with
    | 0 => throw .depth
    | depth + 1 => return .list (← items.mapM fun item => valueOf nodes limit depth item)
  | .mapping mark entries =>
    checkTag mark
    match depth with
    | 0 => throw .depth
    | depth + 1 =>
      let entries ← entries.mapM fun (key, value) => do
        let key ← keyText nodes limit key
        return (key, ← valueOf nodes limit depth value)
      return .mapping (Entries.ofList entries)
  | .alias _ => throw .alias

/-- How deep collections may be nested. -/
def depthLimit : Nat :=
  128

/-- How many aliases may be followed for each node of a document. -/
def aliasLimit : Nat :=
  100

/-- The value of a document. -/
def Node.value (root : Node) : Except Defect Value := do
  let (v, _) ← (valueOf root.anchored.reverse (aliasLimit * root.size) depthLimit root).run 0
  return v

/-- Reads a text. -/
def read (text : String) : Except Defect Value := do
  let tokens ← Token.ofText text.toList
  let root ← Node.ofTokens tokens
  root.value

end SceneScript.Yaml
