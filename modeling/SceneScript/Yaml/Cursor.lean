/-!
# A place in YAML text

The text that is left, with the line, the column and the size of the text before it. Columns count
characters, sizes count the bytes of UTF-8. Line breaks are the line feed, the carriage return, both
together, NEL and the two Unicode separators.
-/

namespace SceneScript.Yaml

/-- A character that ends a line. -/
def isBreak (c : Char) : Bool :=
  c = '\n' || c = '\r' || c = '\u0085' || c = '\u2028' || c = '\u2029'

/-- A space or a tab. -/
def isBlank (c : Char) : Bool :=
  c = ' ' || c = '\t'

/-- A character of an anchor's or a directive's name. -/
def isNameChar (c : Char) : Bool :=
  c.isAlphanum || c = '_' || c = '-'

/-- Whether a line ends here. -/
def atBreak : List Char → Bool
  | [] => true
  | c :: _ => isBreak c

/-- Whether a word ends here. -/
def atGap : List Char → Bool
  | [] => true
  | c :: _ => isBlank c || isBreak c

/-- A mark between documents: three times the same character, and then a gap. -/
def atMark (mark : Char) : List Char → Bool
  | a :: b :: c :: rest => a = mark && b = mark && c = mark && atGap rest
  | _ => false

/-- Either of the marks between documents. -/
def atDocumentMark (rest : List Char) : Bool :=
  atMark '-' rest || atMark '.' rest

/-- The number of bytes that characters take in UTF-8. -/
def byteSize (cs : List Char) : Nat :=
  cs.foldl (fun size c => size + c.utf8Size) 0

/-- A place in a text. The bound is greater than the number of characters left, and the same in the
whole text: what is read piece by piece takes fewer pieces than that. -/
structure Cursor where
  rest : List Char
  bound : Nat
  offset : Nat
  line : Nat
  column : Nat

namespace Cursor

/-- The start of a text. -/
def start (text : List Char) : Cursor :=
  ⟨text, text.length + 1, 0, 0, 0⟩

/-- Past a number of characters of the same line. -/
def advance (c : Cursor) (n : Nat) : Cursor :=
  { c with
    rest := c.rest.drop n
    offset := c.offset + byteSize (c.rest.take n)
    column := c.column + n }

/-- The characters of the line that satisfy a condition. -/
def run (c : Cursor) (p : Char → Bool) : List Char :=
  c.rest.takeWhile fun ch => !isBreak ch && p ch

/-- Past the characters of the line that satisfy a condition. -/
def skipWhile (c : Cursor) (p : Char → Bool) : Cursor :=
  c.advance (c.run p).length

/-- Past the rest of the line. -/
def skipLine (c : Cursor) : Cursor :=
  c.skipWhile fun _ => true

/-- Whether the next character is this one. -/
def sees (c : Cursor) (ch : Char) : Bool :=
  c.rest.head? = some ch

/-- Past a line break, with the break as the content of a scalar has it: the separators stay, every
other break is a line feed. -/
def newline (c : Cursor) : List Char × Cursor :=
  let next (rest : List Char) (size : Nat) : Cursor :=
    ⟨rest, c.bound, c.offset + size, c.line + 1, 0⟩
  match c.rest with
  | '\r' :: '\n' :: rest => (['\n'], next rest 2)
  | ch :: rest =>
    if isBreak ch then
      (if ch = '\u2028' || ch = '\u2029' then [ch] else ['\n'], next rest ch.utf8Size)
    else ([], c)
  | [] => ([], c)

/-- Past the blanks, the comment and the break that may end a line; `none` if there is more. -/
def endLine? (c : Cursor) : Option Cursor :=
  let c := c.skipWhile isBlank
  let c := if c.sees '#' then c.skipLine else c
  if atBreak c.rest then some c.newline.2 else none

end Cursor

end SceneScript.Yaml
