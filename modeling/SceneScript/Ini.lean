import SceneScript.Text.Blank
import SceneScript.Text.Quoted

/-!
# Reading INI text

A text is a list of sections, each with its assignments in order; what stands before the first
section header belongs to a section without a name. Keys end at the first `=` or `:`. A value is the
rest of the line; parts of it in quotes at its start lose them. A backslash escapes in names, keys
and values. Comments take a whole line and start in its first column. Spaces and tabs may indent
section headers and keys. Behind them the mark of a comment is part of a key, and a key without `=`
or `:` counts for nothing.
-/

namespace SceneScript.Ini

/-- Why a text is not accepted. -/
inductive Defect where
  | comment
  | missingKey
  | unexpectedEnd
  | escape
  deriving DecidableEq, Repr

/-- A defect in words. -/
def Defect.message : Defect → String
  | .comment => "comments must start a line"
  | .missingKey => "missing key"
  | .unexpectedEnd => "unexpected end of text"
  | .escape => "invalid escape"

/-- A section: its name, and keys with raw values. -/
structure Section where
  name : Option String
  assignments : List (String × String)
  deriving DecidableEq, Repr

/-- A space or a tab. -/
def isIndent (ch : Char) : Bool :=
  ch = ' ' || ch = '\t'

/-- A line feed or a carriage return. -/
def isLineEnd (ch : Char) : Bool :=
  ch = '\n' || ch = '\r'

/-- A place in a text, and whether a line starts there. -/
structure Cursor where
  rest : List Char
  lineStart : Bool

namespace Cursor

/-- Past one character. -/
def next (c : Cursor) : Cursor :=
  match c.rest with
  | [] => c
  | ch :: rest => ⟨rest, ch = '\n'⟩

/-- Past the characters that satisfy a condition. -/
def skipWhile (p : Char → Bool) (c : Cursor) : Cursor :=
  go c.lineStart c.rest
where
  /-- The characters from here on. -/
  go (lineStart : Bool) : List Char → Cursor
    | [] => ⟨[], lineStart⟩
    | ch :: rest => if p ch then go (ch = '\n') rest else ⟨ch :: rest, lineStart⟩

/-- Past the blanks between two entries, but not past the indentation of a line. -/
def skipBetween (c : Cursor) : Cursor :=
  go c.lineStart c.rest
where
  /-- The blanks from here on. -/
  go (lineStart : Bool) : List Char → Cursor
    | [] => ⟨[], lineStart⟩
    | ch :: rest =>
      if !Text.isBlank ch then ⟨ch :: rest, lineStart⟩
      else if isLineEnd ch && rest.head?.any isIndent then ⟨rest, ch = '\n'⟩
      else go (ch = '\n') rest

/-- Past the rest of a line and its line feed. -/
def skipLine (c : Cursor) : Cursor :=
  (c.skipWhile (· ≠ '\n')).next

end Cursor

/-! ## Text with escapes -/

/-- What stopped a reading, and where. -/
structure Stop where
  defect : Defect
  cursor : Cursor

/-- The four characters of a numeric escape, from the character before them to the last of them. -/
def readCode : Nat → Cursor → Except Stop (List Char × Cursor)
  | 0, c => .ok ([], c)
  | n + 1, c =>
    let c := c.next
    match c.rest with
    | [] => .error ⟨.unexpectedEnd, c⟩
    | ch :: _ =>
      let after := if ch = '\\' then c.next else c
      if ch = '\\' && after.rest.head? ≠ some '\n' then .error ⟨.escape, after⟩
      else do
        let (code, c) ← readCode n after
        return (ch :: code, c)

/-- The number that hexadecimal digits write, behind an optional plus sign. -/
def codeNumber? (code : List Char) : Option Nat :=
  let digits := match code with
    | '+' :: digits => digits
    | digits => digits
  digits.foldlM (fun n d => do return 16 * n + (← Text.hexValue? d)) 0

/-- The character of a numeric escape. -/
def codeChar? (code : List Char) : Option Char :=
  (codeNumber? code).bind fun n =>
    if Text.isHighSurrogate n || Text.isLowSurrogate n then none else some (Char.ofNat n)

/-- What a character behind a backslash stands for. -/
def escape (ch : Char) : Char :=
  if ch = '0' then '\x00'
  else if ch = 'a' then '\x07'
  else if ch = 'b' then '\x08'
  else if ch = 't' then '\t'
  else if ch = 'r' then '\r'
  else if ch = 'n' then '\n'
  else ch

/-- Text up to a character that ends it, with its escapes resolved; a backslash at the end of a line
joins it with the next, and one at the end of the text stands for itself. Where the end of the text
does not end it, that is an error. -/
def readUntil (ends : Char → Bool) (mayEnd : Bool) :
    Nat → Cursor → Except Stop (List Char × Cursor)
  | 0, c => .error ⟨.unexpectedEnd, c⟩
  | fuel + 1, c =>
    match c.rest with
    | [] => if mayEnd then .ok ([], c) else .error ⟨.unexpectedEnd, c⟩
    | ch :: _ =>
      if ends ch then .ok ([], c)
      else if ch = '\\' then
        let c := c.next
        match c.rest with
        | [] => if mayEnd then .ok (['\\'], c) else .error ⟨.unexpectedEnd, c⟩
        | '\n' :: _ => readUntil ends mayEnd fuel c.next
        | 'x' :: _ => do
          let (code, c) ← readCode 4 c
          match codeChar? code with
          | none => throw ⟨.escape, c⟩
          | some ch =>
            let (more, c) ← readUntil ends mayEnd fuel c.next
            return (ch :: more, c)
        | e :: _ => do
          let (more, c) ← readUntil ends mayEnd fuel c.next
          return (escape e :: more, c)
      else do
        let (more, c) ← readUntil ends mayEnd fuel c.next
        return (ch :: more, c)

/-- Text up to one of the given characters. -/
def readTo (ends : Char → Bool) (c : Cursor) : Except Stop (List Char × Cursor) :=
  readUntil ends false (c.rest.length + 1) c

/-- Text up to the end of the line. -/
def readLine (c : Cursor) : Except Stop (List Char × Cursor) :=
  readUntil isLineEnd true (c.rest.length + 1) c

/-! ## Entries -/

/-- A key, trimmed, up to the character behind it. -/
def readKey (c : Cursor) : Except Stop (List Char × Cursor) := do
  let (key, c) ← readTo (fun ch => ch = '=' || ch = ':') c
  return (Text.trimChars key, c)

/-- The parts of a value: those in quotes, and the rest of the line. Blanks are trimmed at the end
of that rest, and at its start if it is the whole value. -/
def readParts (whole : Bool) : Nat → Cursor → Except Stop (List Char × Cursor)
  | 0, c => .error ⟨.unexpectedEnd, c⟩
  | fuel + 1, c =>
    match c.rest with
    | [] => .ok ([], c)
    | ch :: _ =>
      if ch = '"' || ch = '\'' then do
        let (part, c) ← readTo (· = ch) c.next
        let (more, c) ← readParts false fuel c.next
        return (part ++ more, c)
      else do
        let (line, c) ← readLine c
        return (if whole then Text.trimChars line else Text.trimEndChars line, c)

/-- The value behind the character that follows a key. -/
def readValue (c : Cursor) : Except Stop (List Char × Cursor) :=
  let c := c.next.skipWhile fun ch => Text.isBlank ch && !isLineEnd ch
  readParts true (c.rest.length + 1) c

/-- Sections read so far, the last first. -/
abbrev Sections := List Section

/-- An assignment in the last section. -/
def assign (sections : Sections) (key value : String) : Sections :=
  match sections with
  | [] => [⟨none, [(key, value)]⟩]
  | last :: before => { last with assignments := last.assignments ++ [(key, value)] } :: before

/-- The assignment whose key has just been read. -/
def readAssignment (sections : Sections) (key : List Char) (c : Cursor) :
    Except Stop (Sections × Cursor) := do
  if key.isEmpty then throw ⟨.missingKey, c⟩
  let (value, c) ← readValue c
  return (assign sections (String.ofList key) (String.ofList value), c)

/-- The header of a section, from its opening bracket on. -/
def readHeader (sections : Sections) (c : Cursor) : Except Stop (Sections × Cursor) := do
  let (name, c) ← readTo (· = ']') c.next
  return (⟨some (String.ofList (Text.trimChars name)), []⟩ :: sections, c.next)

/-- What follows indentation: the end of the line, a section header or an assignment. A key that
cannot be read is passed over up to the place where reading it stops. -/
def readIndented (sections : Sections) (c : Cursor) : Except Stop (Sections × Cursor) :=
  match c.rest with
  | [] => .ok (sections, c)
  | ch :: _ =>
    if isLineEnd ch then .ok (sections, c)
    else if ch = '[' then readHeader sections c
    else
      match readKey c with
      | .error stop => .ok (sections, stop.cursor)
      | .ok (key, c) => readAssignment sections key c

/-- One entry: a comment, a section header, an assignment or an indented line. -/
def readEntry (sections : Sections) (ch : Char) (c : Cursor) : Except Stop (Sections × Cursor) :=
  if ch = ';' || ch = '#' then
    if c.lineStart then .ok (sections, c.skipLine) else .error ⟨.comment, c⟩
  else if ch = '[' then readHeader sections c
  else if isIndent ch then readIndented sections (c.skipWhile isIndent)
  else do
    let (key, c) ← readKey c
    readAssignment sections key c

/-- All entries from here on; every one takes at least one character. -/
def readEntries : Nat → Sections → Cursor → Except Stop Sections
  | 0, sections, _ => .ok sections
  | fuel + 1, sections, c =>
    match c.rest with
    | [] => .ok sections
    | ch :: _ => do
      let (sections, c) ← readEntry sections ch c
      readEntries fuel sections c.skipBetween

/-- Reads a text from its first line that is not empty. The section without a name always comes
first. -/
def read (text : String) : Except Defect (List Section) :=
  let c := Cursor.skipWhile isLineEnd ⟨text.toList, true⟩
  match readEntries (text.length + 1) [⟨none, []⟩] c with
  | .ok sections => .ok sections.reverse
  | .error stop => .error stop.defect

end SceneScript.Ini
