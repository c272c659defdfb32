import SceneScript.Value

/-!
# Values as JSON text

Two layouts of a value: without any blank, and indented by two spaces with one item a line, where
an empty list or mapping stays on its line.
-/

namespace SceneScript

namespace Json

mutual

/-- A value without blanks. -/
def compact : Value → String
  | .null => "null"
  | .bool true => "true"
  | .bool false => "false"
  | .number n => n.text
  | .string s => Text.quote s
  | .list items => "[" ++ ",".intercalate (compactItems items) ++ "]"
  | .mapping entries => "\x7b" ++ ",".intercalate (compactEntries entries) ++ "\x7d"

/-- The texts of several values. -/
def compactItems : List Value → List String
  | [] => []
  | v :: vs => compact v :: compactItems vs

/-- The texts of several entries. -/
def compactEntries : List (String × Value) → List String
  | [] => []
  | (k, v) :: entries => (Text.quote k ++ ":" ++ compact v) :: compactEntries entries

end

theorem compactItems_eq_map (items : List Value) : compactItems items = items.map compact := by
  induction items with
  | nil => rfl
  | cons v vs ih => rw [compactItems, ih, List.map_cons]

theorem compactEntries_eq_map (entries : Entries Value) :
    compactEntries entries =
      entries.map fun entry => Text.quote entry.1 ++ ":" ++ compact entry.2 := by
  induction entries with
  | nil => rfl
  | cons entry rest ih => rw [compactEntries, ih, List.map_cons]

/-- The start of a line at a depth. -/
def indentation (depth : Nat) : String :=
  String.ofList ('\n' :: List.replicate (2 * depth) ' ')

/-- Texts on lines of their own between two brackets. -/
def block (opening closing : String) (depth : Nat) (texts : List String) : String :=
  if texts.isEmpty then opening ++ closing
  else
    opening ++ ",".intercalate (texts.map (indentation (depth + 1) ++ ·)) ++ indentation depth ++
      closing

mutual

/-- A value indented by two spaces a level, standing at a depth. -/
def prettyAt (depth : Nat) : Value → String
  | .null => "null"
  | .bool true => "true"
  | .bool false => "false"
  | .number n => n.text
  | .string s => Text.quote s
  | .list items => block "[" "]" depth (prettyItems (depth + 1) items)
  | .mapping entries => block "\x7b" "\x7d" depth (prettyEntries (depth + 1) entries)

/-- The texts of several values at a depth. -/
def prettyItems (depth : Nat) : List Value → List String
  | [] => []
  | v :: vs => prettyAt depth v :: prettyItems depth vs

/-- The texts of several entries at a depth. -/
def prettyEntries (depth : Nat) : List (String × Value) → List String
  | [] => []
  | (k, v) :: entries => (Text.quote k ++ ": " ++ prettyAt depth v) :: prettyEntries depth entries

end

/-- A value indented by two spaces a level. -/
def pretty (v : Value) : String :=
  prettyAt 0 v

end Json

end SceneScript
