import SceneScript.Json.Token

/-!
# Reading JSON text

The tokens of a text drive a machine with a stack: one step a token. A text is accepted when the
machine ends with one value and nothing open. A repeated key keeps its first place and takes its
last value.
-/

namespace SceneScript.Json

/-- A list or mapping whose current member is being read. Items are held last first. -/
inductive Frame where
  | list (items : List Value)
  | mapping (entries : Entries Value) (key : String)

/-- What the machine waits for, or the value it has just completed. -/
inductive Phase where
  | value
  | firstItem
  | key (entries : Entries Value)
  | colon (entries : Entries Value) (key : String)
  | complete (v : Value)

/-- The machine. `depth` counts the open lists and mappings. -/
structure Machine where
  phase : Phase
  stack : List Frame
  depth : Nat

namespace Machine

/-- Before the first token. -/
def start : Machine :=
  ⟨.value, [], 0⟩

/-- A token where a value may start, with `stack` as the surroundings. -/
def openWith (limit : Nat) (stack : List Frame) (depth : Nat) : Token → Except Defect Machine
  | .leaf v => .ok ⟨.complete v, stack, depth⟩
  | .openList => if depth < limit then .ok ⟨.firstItem, stack, depth + 1⟩ else .error .depth
  | .openMapping => if depth < limit then .ok ⟨.key [], stack, depth + 1⟩ else .error .depth
  | _ => .error .misplaced

/-- A token behind a completed value. -/
def closeWith (v : Value) (stack : List Frame) (depth : Nat) (token : Token) :
    Except Defect Machine :=
  match token, stack with
  | .comma, .list items :: rest => .ok ⟨.value, .list (v :: items) :: rest, depth⟩
  | .closeList, .list items :: rest =>
    .ok ⟨.complete (.list (v :: items).reverse), rest, depth - 1⟩
  | .comma, .mapping entries key :: rest => .ok ⟨.key (entries.put key v), rest, depth⟩
  | .closeMapping, .mapping entries key :: rest =>
    .ok ⟨.complete (.mapping (entries.put key v)), rest, depth - 1⟩
  | _, _ => .error .misplaced

/-- One token. A mapping may close where its first key is due, but not behind a comma. -/
def step (limit : Nat) (m : Machine) (token : Token) : Except Defect Machine :=
  match m.phase with
  | .value => openWith limit m.stack m.depth token
  | .firstItem =>
    match token with
    | .closeList => .ok ⟨.complete (.list []), m.stack, m.depth - 1⟩
    | _ => openWith limit (.list [] :: m.stack) m.depth token
  | .key entries =>
    match token with
    | .leaf (.string key) => .ok ⟨.colon entries key, m.stack, m.depth⟩
    | .closeMapping =>
      if entries.isEmpty then .ok ⟨.complete (.mapping []), m.stack, m.depth - 1⟩
      else .error .misplaced
    | _ => .error .misplaced
  | .colon entries key =>
    match token with
    | .colon => .ok ⟨.value, .mapping entries key :: m.stack, m.depth⟩
    | _ => .error .misplaced
  | .complete v => closeWith v m.stack m.depth token

/-- The value of a machine that has read a whole text. -/
def result (m : Machine) : Except Defect Value :=
  match m.phase, m.stack with
  | .complete v, [] => .ok v
  | _, _ => .error .misplaced

end Machine

/-- Reads a text whose lists and mappings are nested at most `limit` deep. -/
def readNested (limit : Nat) (text : String) : Except Defect Value := do
  let tokens ← tokens text.toList
  let m ← tokens.foldlM (Machine.step limit) Machine.start
  m.result

/-- How deep lists and mappings of a configuration may be nested. -/
def depthLimit : Nat :=
  127

/-- Reads a text. -/
def read (text : String) : Except Defect Value :=
  readNested depthLimit text

end SceneScript.Json
