/-!
# Identifiers

Names in a scene are free text. `identifier` makes a program identifier of a name: a non-empty word
over ASCII letters, digits, `_` and `$` that does not start with a digit.
-/

namespace SceneScript.Text

/-- The characters an identifier may hold. -/
def isWordChar (c : Char) : Bool :=
  c.isAlphanum || c = '_' || c = '$'

/-- Every other character becomes an underscore. -/
def toWord (cs : List Char) : List Char :=
  cs.map fun c => if isWordChar c then c else '_'

/-- A word that is empty or starts with a digit gets an underscore in front. -/
def guardStart : List Char → List Char
  | [] => ['_']
  | c :: cs => if c.isDigit then '_' :: c :: cs else c :: cs

/-- The identifier made of a name, as characters. -/
def identifierChars (cs : List Char) : List Char :=
  guardStart (toWord cs)

/-- The identifier made of a name. -/
def identifier (name : String) : String :=
  String.ofList (identifierChars name.toList)

end SceneScript.Text
