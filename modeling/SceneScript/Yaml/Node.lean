import SceneScript.Yaml.Token

/-!
# Nodes of YAML text

The tree that tokens describe. An alias stands for the node with its number. Numbers are given to
anchors as they appear: the number of different names so far. A name that is used again therefore
gets a new number, which the next new name will share; a number stands for the last node that has
it.
-/

namespace SceneScript.Yaml

/-- What a node has besides its content. -/
structure Mark where
  anchor : Option Nat
  tag : Option TagText

/-- No anchor and no tag. -/
def Mark.none : Mark :=
  ⟨.none, .none⟩

/-- A node. -/
inductive Node where
  | scalar (mark : Mark) (text : String) (plain : Bool)
  | sequence (mark : Mark) (items : List Node)
  | mapping (mark : Mark) (entries : List (Node × Node))
  | alias (number : Nat)

/-- The node where nothing is written. -/
def Node.empty : Node :=
  .scalar .none "" true

/-- The tokens that are left, the numbers of the anchors so far, and what the handles of tags stand
for. -/
structure Parsing where
  tokens : List Token
  anchors : List (String × Nat)
  handles : List (TagText × TagText)

/-- A computation on tokens that may fail. -/
abbrev Parse := StateT Parsing (Except Defect)

namespace Parse

/-- The next token. -/
def peek : Parse (Option Token) := do
  return (← get).tokens.head?

/-- Past the next token. -/
def skip : Parse Unit :=
  modify fun s => { s with tokens := s.tokens.drop 1 }

/-- Past the next token if it is this one. -/
def accept (token : Token) : Parse Bool := do
  if (← peek) = some token then
    skip
    return true
  else return false

/-- The number of a new anchor. -/
def register (name : String) : Parse Nat := do
  let s ← get
  let number := s.anchors.length
  set { s with anchors := (name, number) :: s.anchors.filter fun entry => entry.1 ≠ name }
  return number

/-- A tag in full. A handle has to be known. -/
def expandTag (handle suffix : TagText) : Parse TagText := do
  if handle.isEmpty then return suffix
  match (← get).handles.lookup handle with
  | some expansion => return expansion ++ suffix
  | none => throw .tag

/-- An anchor, if one comes next. -/
def anchor? : Parse (Option String) := do
  match ← peek with
  | some (.anchor name) =>
    skip
    return some name
  | _ => return none

/-- A tag, if one comes next. -/
def tag? : Parse (Option (TagText × TagText)) := do
  match ← peek with
  | some (.tag handle suffix) =>
    skip
    return some (handle, suffix)
  | _ => return none

/-- An anchor and a tag in any order. -/
def properties : Parse (Option String × Option TagText) := do
  let before ← anchor?
  let tag ← tag?
  let anchor ← if before.isNone then anchor? else pure before
  match tag with
  | none => return (anchor, none)
  | some (handle, suffix) => return (anchor, some (← expandTag handle suffix))

/-- The anchor and the tag of the node that starts here. -/
def mark (anchor : Option String) (tag : Option TagText) : Parse Mark := do
  match anchor with
  | none => return ⟨none, tag⟩
  | some name => return ⟨some (← register name), tag⟩

/-- A node of which only the properties are written. -/
def blank (anchor : Option String) (tag : Option TagText) : Parse Node := do
  if anchor.isNone && tag.isNone then throw .misplaced
  return .scalar (← mark anchor tag) "" true

/-- A node, unless a token comes next that leaves it empty. -/
def unlessEmpty (ends : List Token) (node : Parse Node) : Parse Node := do
  if (← peek).any ends.contains then return .empty else node

mutual

/-- A node. Block collections and sequences without indentation stand only in some places. -/
def node (fuel : Nat) (block indentless : Bool) : Parse Node :=
  match fuel with
  | 0 => throw .misplaced
  | fuel + 1 => do
    match ← peek with
    | some (.alias name) =>
      skip
      match (← get).anchors.lookup name with
      | some number => return .alias number
      | none => throw .alias
    | _ =>
      let (anchor, tag) ← properties
      match ← peek with
      | some (.scalar text plain) =>
        skip
        return .scalar (← mark anchor tag) text plain
      | some .flowSequenceStart =>
        skip
        let mark ← mark anchor tag
        return .sequence mark (← flowItems fuel true)
      | some .flowMappingStart =>
        skip
        let mark ← mark anchor tag
        return .mapping mark (← flowEntries fuel true)
      | some .blockEntry =>
        if indentless then
          let mark ← mark anchor tag
          return .sequence mark (← looseItems fuel)
        else blank anchor tag
      | some .blockSequenceStart =>
        if block then
          skip
          let mark ← mark anchor tag
          return .sequence mark (← blockItems fuel)
        else blank anchor tag
      | some .blockMappingStart =>
        if block then
          skip
          let mark ← mark anchor tag
          return .mapping mark (← blockEntries fuel)
        else blank anchor tag
      | _ => blank anchor tag

/-- The items of a block sequence up to its end. -/
def blockItems (fuel : Nat) : Parse (List Node) :=
  match fuel with
  | 0 => throw .misplaced
  | fuel + 1 => do
    if ← accept .blockEntry then
      let item ← unlessEmpty [.blockEntry, .blockEnd] (node fuel true false)
      return item :: (← blockItems fuel)
    else if ← accept .blockEnd then return []
    else throw .misplaced

/-- The items of a block sequence without indentation of its own. -/
def looseItems (fuel : Nat) : Parse (List Node) :=
  match fuel with
  | 0 => throw .misplaced
  | fuel + 1 => do
    if ← accept .blockEntry then
      let item ← unlessEmpty [.blockEntry, .key, .value, .blockEnd] (node fuel true false)
      return item :: (← looseItems fuel)
    else return []

/-- The entries of a block mapping up to its end. -/
def blockEntries (fuel : Nat) : Parse (List (Node × Node)) :=
  match fuel with
  | 0 => throw .misplaced
  | fuel + 1 => do
    if ← accept .key then
      let key ← unlessEmpty [.key, .value, .blockEnd] (node fuel true true)
      let value ←
        if ← accept .value then unlessEmpty [.key, .value, .blockEnd] (node fuel true true)
        else pure .empty
      return (key, value) :: (← blockEntries fuel)
    else if ← accept .blockEnd then return []
    else throw .misplaced

/-- The items of a flow sequence up to its end. A key makes a mapping of one entry; the mark that
leaves that key empty is taken with it. -/
def flowItems (fuel : Nat) (first : Bool) : Parse (List Node) :=
  match fuel with
  | 0 => throw .misplaced
  | fuel + 1 => do
    if ← accept .flowSequenceEnd then return []
    if !first then
      if !(← accept .flowEntry) then throw .misplaced
    if ← accept .key then
      let ends : List Token := [.value, .flowEntry, .flowSequenceEnd]
      let key ←
        if (← peek).any ends.contains then
          skip
          pure .empty
        else node fuel false false
      let value ←
        if ← accept .value then
          unlessEmpty [.flowEntry, .flowSequenceEnd] (node fuel false false)
        else pure .empty
      return .mapping .none [(key, value)] :: (← flowItems fuel false)
    else if ← accept .flowSequenceEnd then return []
    else
      let item ← node fuel false false
      return item :: (← flowItems fuel false)

/-- The entries of a flow mapping up to its end. A node without a key mark is a key without a
value. -/
def flowEntries (fuel : Nat) (first : Bool) : Parse (List (Node × Node)) :=
  match fuel with
  | 0 => throw .misplaced
  | fuel + 1 => do
    if ← accept .flowMappingEnd then return []
    if !first then
      if !(← accept .flowEntry) then throw .misplaced
    if ← accept .key then
      let key ← unlessEmpty [.value, .flowEntry, .flowMappingEnd] (node fuel false false)
      let value ←
        if ← accept .value then
          unlessEmpty [.flowEntry, .flowMappingEnd] (node fuel false false)
        else pure .empty
      return (key, value) :: (← flowEntries fuel false)
    else if ← accept .flowMappingEnd then return []
    else
      let key ← node fuel false false
      return (key, .empty) :: (← flowEntries fuel false)

end

/-! ## Documents -/

/-- The directives in front of a document, at most `fuel` of them: one version, which has to be 1.1
or 1.2, and different handles. -/
def directives : Nat → Bool → Parse Unit
  | 0, _ => return ()
  | fuel + 1, versionSeen => do
    match ← peek with
    | some (.version major minor) =>
      if versionSeen || major ≠ 1 || (minor ≠ 1 && minor ≠ 2) then throw .directive
      skip
      directives fuel true
    | some (.tagDirective handle expansion) =>
      let s ← get
      if (s.handles.lookup handle).isSome then throw .directive
      set { s with handles := s.handles ++ [(handle, expansion)] }
      skip
      directives fuel versionSeen
    | _ => return ()

/-- What handles stand for without a directive. -/
def defaultHandles : List (TagText × TagText) :=
  [([33], [33]), ([33, 33], "tag:yaml.org,2002:".toUTF8.data.toList)]

/-- Whether a token belongs to the frame around a document. -/
def isFrame : Token → Bool
  | .version _ _ | .tagDirective _ _ | .documentStart => true
  | _ => false

/-- A document that starts with directives or a mark. -/
def framedDocument (fuel : Nat) : Parse Node := do
  directives fuel false
  modify fun s => { s with handles := s.handles ++ defaultHandles }
  if !(← accept .documentStart) then throw .directive
  match ← peek with
  | none => return .empty
  | some token =>
    if isFrame token || token = .documentEnd then return .empty else node fuel true false

/-- Past the marks behind a document, at most `fuel` of them. -/
def documentEnds : Nat → Parse Unit
  | 0 => return ()
  | fuel + 1 => do
    if ← accept .documentEnd then documentEnds fuel

/-- The only document of a text. -/
def document (fuel : Nat) : Parse Node := do
  match ← peek with
  | none => return .empty
  | some token =>
    let root ←
      if isFrame token then framedDocument fuel
      else
        modify fun s => { s with handles := defaultHandles }
        node fuel true false
    documentEnds fuel
    if (← peek).isSome then throw .documents
    return root

end Parse

namespace Node

/-- The document that tokens describe. Each token is passed at most once, by way of at most two
nested calls. -/
def ofTokens (tokens : List Token) : Except Defect Node := do
  let (root, _) ← (Parse.document (2 * tokens.length + 2)).run ⟨tokens, [], []⟩
  return root

mutual

/-- The nodes with a number, in the order in which they start. -/
def anchored : Node → List (Nat × Node)
  | .scalar mark text plain => (mark.anchor.map (·, .scalar mark text plain)).toList
  | .sequence mark items =>
    (mark.anchor.map (·, .sequence mark items)).toList ++ anchoredItems items
  | .mapping mark entries =>
    (mark.anchor.map (·, .mapping mark entries)).toList ++ anchoredEntries entries
  | .alias _ => []

/-- The nodes with a number among several. -/
def anchoredItems : List Node → List (Nat × Node)
  | [] => []
  | n :: ns => n.anchored ++ anchoredItems ns

/-- The nodes with a number among several keys and values. -/
def anchoredEntries : List (Node × Node) → List (Nat × Node)
  | [] => []
  | (k, v) :: entries => k.anchored ++ v.anchored ++ anchoredEntries entries

end

mutual

/-- The size of a node: scalars and aliases count once, collections twice and what they hold. -/
def size : Node → Nat
  | .scalar _ _ _ => 1
  | .sequence _ items => 2 + sizeItems items
  | .mapping _ entries => 2 + sizeEntries entries
  | .alias _ => 1

/-- The size of several nodes. -/
def sizeItems : List Node → Nat
  | [] => 0
  | n :: ns => n.size + sizeItems ns

/-- The size of several keys and values. -/
def sizeEntries : List (Node × Node) → Nat
  | [] => 0
  | (k, v) :: entries => k.size + v.size + sizeEntries entries

end

end Node

end SceneScript.Yaml
