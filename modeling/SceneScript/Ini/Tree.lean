import SceneScript.Ini
import SceneScript.Text.Split
import SceneScript.Value

/-!
# The tree of INI sections

Section names are dotted paths: `[a.b]` assigns in the mapping under `b` in the mapping under `a`. A
mapping on the way is made where it is missing, in place of whatever else stands there.
-/

namespace SceneScript.Ini

/-- The keys of a dotted path, trimmed, without empty ones. -/
def segments (name : String) : List String :=
  ((Text.split '.' name).map Text.trim).filter (· ≠ "")

/-- The keys of a section's path. -/
def Section.path (s : Section) : List String :=
  match s.name with
  | none => []
  | some name => segments name

/-- The entries of what stands under a key, if that is a mapping. -/
def childEntries (entries : Entries Value) (key : String) : Entries Value :=
  match entries.get? key with
  | some (.mapping child) => child
  | _ => []

/-- Changes the mapping at a path. -/
def updateAt (change : Entries Value → Entries Value) :
    List String → Entries Value → Entries Value
  | [], entries => change entries
  | key :: path, entries =>
    entries.put key (.mapping (updateAt change path (childEntries entries key)))

/-- Puts the values of assignments, one after the other. -/
def assignAll (parse : String → Value) (assignments : List (String × String))
    (entries : Entries Value) : Entries Value :=
  assignments.foldl (fun acc (key, raw) => acc.put (Text.trim key) (parse raw)) entries

/-- The entries that sections describe, where `parse` gives the value of a raw text. -/
def entriesOf (parse : String → Value) (sections : List Section) : Entries Value :=
  sections.foldl (fun acc s => updateAt (assignAll parse s.assignments) s.path acc) []

/-- The tree that sections describe. -/
def treeOf (parse : String → Value) (sections : List Section) : Value :=
  .mapping (entriesOf parse sections)

end SceneScript.Ini
