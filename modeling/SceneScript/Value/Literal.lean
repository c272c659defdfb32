import SceneScript.Value

/-!
# Literals

A configuration value as it stands in the emitted program. Strings are inserted as they are:
authors of a configuration write identifiers, quoted texts and array literals as strings.
-/

namespace SceneScript

namespace Value

mutual

/-- The text of a value in the program. -/
def literal : Value → String
  | .null => "null"
  | .bool true => "true"
  | .bool false => "false"
  | .number n => n.text
  | .string s => s
  | .list items => "[" ++ ", ".intercalate (literals items) ++ "]"
  | .mapping entries => "\x7b" ++ ",".intercalate (keyed entries) ++ "\x7d"

/-- The texts of several values. -/
def literals : List Value → List String
  | [] => []
  | v :: vs => v.literal :: literals vs

/-- The texts of several entries, the key before its value. -/
def keyed : List (String × Value) → List String
  | [] => []
  | (k, v) :: entries => (k ++ ": " ++ v.literal) :: keyed entries

end

theorem literals_eq_map (items : List Value) : literals items = items.map literal := by
  induction items with
  | nil => rfl
  | cons v vs ih => rw [literals, ih, List.map_cons]

theorem keyed_eq_map (entries : Entries Value) :
    keyed entries = entries.map fun entry => entry.1 ++ ": " ++ entry.2.literal := by
  induction entries with
  | nil => rfl
  | cons entry rest ih => rw [keyed, ih, List.map_cons]

/-- Values as the arguments of a call. -/
def positionalText (items : List Value) : String :=
  ",".intercalate (literals items)

/-- Entries as the inside of an object literal. -/
def keywordText (entries : Entries Value) : String :=
  ",".intercalate (keyed entries)

end Value

end SceneScript
