import SceneScript.Image
import SceneScript.Text.Split

/-!
# Material libraries

A material library names an image at the end of each texture directive. `Mtl.inlineImages` puts the
image itself there as a data URL, so that the library needs no other file. Everything else in the
text stays as it is.
-/

namespace SceneScript.Mtl

/-- A letter in lower case. Two letters beyond ASCII count as forms of `s` and `k`. -/
def foldCase (c : Char) : Char :=
  if c = '\u017f' then 's' else if c = '\u212a' then 'k' else c.toLower

/-- The words that start a texture directive. -/
def isDirectiveWord (word : List Char) : Bool :=
  let folded := word.map foldCase
  match folded with
  | 'm' :: 'a' :: 'p' :: '_' :: rest => !rest.isEmpty && rest.all Char.isLower
  | _ => ["bump", "disp", "decal", "refl", "norm"].any fun keyword => folded = keyword.toList

/-- Whether a line is a texture directive: blanks, one of the words, and another blank. -/
def isDirective (line : List Char) : Bool :=
  let text := line.dropWhile Text.isBlank
  isDirectiveWord (text.takeWhile fun c => !Text.isBlank c) &&
    !(text.dropWhile fun c => !Text.isBlank c).isEmpty

/-- A line around its last word: what precedes it, the word, and the blanks behind it. -/
structure LastWord where
  before : List Char
  word : List Char
  after : List Char

/-- A line cut around its last word. -/
def LastWord.of (line : List Char) : LastWord :=
  let reversed := line.reverse
  let tail := reversed.dropWhile Text.isBlank
  { before := (tail.dropWhile fun c => !Text.isBlank c).reverse
    word := (tail.takeWhile fun c => !Text.isBlank c).reverse
    after := (reversed.takeWhile Text.isBlank).reverse }

/-- Whether a word is a data URL already. -/
def isDataUrl (word : List Char) : Bool :=
  "data:".toList.isPrefixOf word

/-- The image that a line needs from a file. -/
def neededImage? (line : List Char) : Option String :=
  let cut := LastWord.of line
  if isDirective line && !cut.word.isEmpty && !isDataUrl cut.word then
    some (String.ofList cut.word)
  else none

/-- A line without its ending, with its image inlined. -/
def inlineBody (d : Disk) (directory : Path) (line : List Char) : Except Error (List Char) :=
  match neededImage? line with
  | none => .ok line
  | some file => do
    let url ← Image.fileDataUrl d (directory.join ⟨file⟩)
    let cut := LastWord.of line
    return cut.before ++ url.toList ++ cut.after

/-- Whether a character belongs to the ending of a line. -/
def isEnding (c : Char) : Bool :=
  c = '\r' || c = '\n'

/-- The ending of a line: all carriage returns and line feeds at its end. -/
def ending (line : List Char) : List Char :=
  (line.reverse.takeWhile isEnding).reverse

/-- A line without its ending. -/
def body (line : List Char) : List Char :=
  (line.reverse.dropWhile isEnding).reverse

/-- Lines with their images inlined. -/
def inlineLines (d : Disk) (directory : Path) :
    List (List Char) → Except Error (List (List Char))
  | [] => .ok []
  | line :: lines => do
    let inlined ← inlineBody d directory (body line)
    let more ← inlineLines d directory lines
    return (inlined ++ ending line) :: more

/-- A text with the images of its texture directives inlined, where `directory` holds the files. -/
def inlineImages (d : Disk) (directory : Path) (text : String) : Except Error String := do
  let lines ← inlineLines d directory (Text.linesChars text.toList)
  return String.ofList lines.flatten

end SceneScript.Mtl
