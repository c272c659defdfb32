import SceneScript.Text.Quoted
import SceneScript.Yaml.Cursor
import SceneScript.Yaml.Token

/-!
# Lexemes

The tokens that are longer than one character: names, tags, directives and the five kinds of
scalars. Each function starts at the first character of its lexeme and gives the place behind it.
Loops are bounded by the bound of their cursor.
-/

namespace SceneScript.Yaml

/-! ## Names and tags -/

/-- The name of an anchor or alias behind its indicator. -/
def readName (c : Cursor) : Except Defect (String × Cursor) :=
  let c := c.advance 1
  let name := c.run isNameChar
  let c := c.advance name.length
  let ended := atGap c.rest || "?:,]\x7d%@`".toList.any c.sees
  if name.isEmpty || !ended then .error .anchor else .ok (String.ofList name, c)

/-- An ASCII character as a byte. -/
def asciiByte (c : Char) : UInt8 :=
  UInt8.ofNat c.toNat

/-- The bytes of ASCII characters. -/
def asciiBytes (cs : List Char) : TagText :=
  cs.map asciiByte

/-- A handle: `!`, then name characters, and perhaps another `!`. -/
def readHandle (c : Cursor) : Except Defect (List Char × Cursor) :=
  if c.sees '!' then
    let name := (c.advance 1).run isNameChar
    let c := c.advance (1 + name.length)
    if c.sees '!' then .ok ('!' :: name ++ ['!'], c.advance 1) else .ok ('!' :: name, c)
  else .error .tag

/-- The number of bytes in the UTF-8 sequence that a byte starts. -/
def sequenceWidth? (byte : Nat) : Option Nat :=
  if byte < 0x80 then some 1
  else if 0xC0 ≤ byte && byte < 0xE0 then some 2
  else if 0xE0 ≤ byte && byte < 0xF0 then some 3
  else if 0xF0 ≤ byte && byte < 0xF8 then some 4
  else none

/-- One escaped byte. -/
def readEscapedByte (c : Cursor) : Except Defect (Nat × Cursor) :=
  match c.rest with
  | '%' :: a :: b :: _ =>
    match Text.hexValue? a, Text.hexValue? b with
    | some a, some b => .ok (16 * a + b, c.advance 3)
    | _, _ => .error .tag
  | _ => .error .tag

/-- The further bytes of an escaped UTF-8 sequence. -/
def readContinuation : Nat → Cursor → Except Defect (TagText × Cursor)
  | 0, c => .ok ([], c)
  | n + 1, c => do
    let (byte, c) ← readEscapedByte c
    if 0x80 ≤ byte && byte < 0xC0 then
      let (more, c) ← readContinuation n c
      return (UInt8.ofNat byte :: more, c)
    else throw .tag

/-- A character that a tag may hold; in some places also `,`, `[` and `]`. -/
def isTagChar (wide : Bool) (c : Char) : Bool :=
  isNameChar c || ";/?:@&=+$.%!~*'()".toList.contains c ||
    (wide && (c = ',' || c = '[' || c = ']'))

/-- The characters of a tag with its escapes, at most `n` of them. -/
def readTagText (wide : Bool) : Nat → Cursor → Except Defect (TagText × Cursor)
  | 0, c => .ok ([], c)
  | n + 1, c =>
    match c.rest with
    | [] => .ok ([], c)
    | ch :: _ =>
      if !isTagChar wide ch then .ok ([], c)
      else if ch = '%' then do
        let (byte, c) ← readEscapedByte c
        match sequenceWidth? byte with
        | none => throw .tag
        | some width =>
          let (others, c) ← readContinuation (width - 1) c
          let (more, c) ← readTagText wide n c
          return (UInt8.ofNat byte :: others ++ more, c)
      else do
        let (more, c) ← readTagText wide n (c.advance 1)
        return (asciiByte ch :: more, c)

/-- A tag's text up to its first NUL, which ends it. -/
def endTag (text : TagText) : TagText :=
  text.takeWhile (· ≠ 0)

/-- A tag in full between `!<` and `>`. -/
def readVerbatimTag (c : Cursor) : Except Defect (Token × Cursor) := do
  let (text, c) ← readTagText true c.bound (c.advance 2)
  if text.isEmpty then throw .tag
  if c.sees '>' then return (.tag [] (endTag text), c.advance 1) else throw .tag

/-- A tag with a handle. A lone `!` is a tag of its own, without a handle. -/
def readShortTag (c : Cursor) : Except Defect (Token × Cursor) := do
  let (handle, c) ← readHandle c
  let (text, c) ← readTagText false c.bound c
  if 1 < handle.length && handle.getLast? = some '!' then
    if text.isEmpty then throw .tag
    return (.tag (asciiBytes handle) (endTag text), c)
  else
    let suffix := endTag (asciiBytes (handle.drop 1) ++ text)
    if suffix.isEmpty then return (.tag [] (asciiBytes ['!']), c)
    else return (.tag (asciiBytes ['!']) suffix, c)

/-- A tag; a gap has to follow, or a comma in a flow collection. -/
def readTag (inFlow : Bool) (c : Cursor) : Except Defect (Token × Cursor) := do
  let (token, c) ← if c.rest[1]? = some '<' then readVerbatimTag c else readShortTag c
  if atGap c.rest || (inFlow && c.sees ',') then return (token, c) else throw .tag

/-! ## Directives -/

/-- A number of at most nine digits. -/
def readVersionNumber (c : Cursor) : Except Defect (Nat × Cursor) :=
  let digits := c.run Char.isDigit
  if digits.isEmpty || 9 < digits.length then .error .directive
  else .ok (digits.foldl (fun n d => 10 * n + (d.toNat - 48)) 0, c.advance digits.length)

/-- What follows `%YAML`. -/
def readVersion (c : Cursor) : Except Defect (Token × Cursor) := do
  let (major, c) ← readVersionNumber (c.skipWhile isBlank)
  if c.sees '.' then
    let (minor, c) ← readVersionNumber (c.advance 1)
    return (.version major minor, c)
  else throw .directive

/-- What follows `%TAG`. -/
def readTagDirective (c : Cursor) : Except Defect (Token × Cursor) := do
  let (handle, c) ← readHandle (c.skipWhile isBlank)
  if handle.getLast? ≠ some '!' then throw .directive
  if !(c.rest.head?.any isBlank) then throw .directive
  let c := c.skipWhile isBlank
  let (expansion, c) ← readTagText true c.bound c
  if expansion.isEmpty || !atGap c.rest then throw .directive
  return (.tagDirective (asciiBytes handle) (endTag expansion), c)

/-- A directive with the rest of its line. -/
def readDirective (c : Cursor) : Except Defect (Token × Cursor) := do
  let c := c.advance 1
  let name := c.run isNameChar
  let c := c.advance name.length
  if name.isEmpty || !atGap c.rest then throw .directive
  let (token, c) ←
    if name = "YAML".toList then readVersion c
    else if name = "TAG".toList then readTagDirective c
    else throw .directive
  match c.endLine? with
  | none => throw .directive
  | some c => return (token, c)

/-! ## Block scalars -/

/-- The lines that a block scalar keeps at its end. -/
inductive Chomping where
  | strip
  | clip
  | keep
  deriving DecidableEq

/-- A chomping indicator. -/
def chomping? : List Char → Option Chomping
  | '+' :: _ => some .keep
  | '-' :: _ => some .strip
  | _ => none

/-- An indentation indicator from one to nine; zero is refused. -/
def readIncrement (c : Cursor) : Except Defect (Option Nat × Cursor) :=
  match c.rest.head? with
  | some d =>
    if d = '0' then .error .blockHeader
    else if d.isDigit then .ok (some (d.toNat - 48), c.advance 1)
    else .ok (none, c)
  | none => .ok (none, c)

/-- The header of a block scalar behind its indicator: chomping and indentation in any order, up to
the end of the line. -/
def readBlockHeader (c : Cursor) : Except Defect (Chomping × Option Nat × Cursor) := do
  let (chomp, increment, c) ←
    match chomping? c.rest with
    | some chomp => do
      let (increment, c) ← readIncrement (c.advance 1)
      pure (chomp, increment, c)
    | none => do
      let (increment, c) ← readIncrement c
      match increment, chomping? c.rest with
      | some n, some chomp => pure (chomp, some n, c.advance 1)
      | increment, _ => pure (.clip, increment, c)
  match c.endLine? with
  | none => throw .blockHeader
  | some c => return (chomp, increment, c)

/-- The empty lines before a line with content, and the indentation in front of that. While the
indentation is not known (`none`), all spaces count as such and the widest line is reported. -/
def readEmptyLines (indent : Option Nat) :
    Nat → Cursor → Nat → Except Defect (List Char × Nat × Cursor)
  | 0, c, widest => .ok ([], widest, c)
  | fuel + 1, c, widest =>
    let spaces := (c.run (· = ' ')).length
    let c := c.advance (match indent with
      | none => spaces
      | some n => min spaces (n - c.column))
    let widest := max widest c.column
    let shallow := match indent with
      | none => true
      | some n => c.column < n
    if shallow && c.sees '\t' then .error .indentation
    else if !c.rest.isEmpty && atBreak c.rest then do
      let (br, c) := c.newline
      let (more, widest, c) ← readEmptyLines indent fuel c widest
      return (br ++ more, widest, c)
    else .ok ([], widest, c)

/-- What a block scalar has so far: its text, the break behind its last line, the empty lines behind
that, and whether its last line started with a blank. -/
structure BlockState where
  text : List Char
  lastBreak : List Char
  emptyLines : List Char
  afterBlank : Bool

/-- The next line behind the others. In a folded scalar a single line feed between two lines that
start with no blank becomes a space, or nothing when empty lines follow it. -/
def BlockState.add (s : BlockState) (folded : Bool) (line : List Char) : BlockState :=
  let startsBlank := line.head?.any isBlank
  let joint :=
    if folded && s.lastBreak = ['\n'] && !s.afterBlank && !startsBlank then
      if s.emptyLines.isEmpty then [' '] else []
    else s.lastBreak
  ⟨s.text ++ joint ++ s.emptyLines ++ line, [], [], startsBlank⟩

/-- The lines of a block scalar. -/
def readBlockLines (folded : Bool) (indent : Nat) :
    Nat → Cursor → BlockState → Except Defect (BlockState × Cursor)
  | 0, c, s => .ok (s, c)
  | fuel + 1, c, s =>
    if c.column = indent && !c.rest.isEmpty then do
      let line := c.run fun _ => true
      let s := s.add folded line
      let (br, c) := (c.advance line.length).newline
      let (emptyLines, _, c) ← readEmptyLines (some indent) c.bound c 0
      readBlockLines folded indent fuel c { s with lastBreak := br, emptyLines := emptyLines }
    else .ok (s, c)

/-- A block scalar inside a collection that is indented by `parent`. -/
def readBlockScalar (folded : Bool) (parent : Int) (c : Cursor) :
    Except Defect (Token × Cursor) := do
  let (chomp, increment, c) ← readBlockHeader (c.advance 1)
  let known := increment.map fun n => if 0 ≤ parent then parent.toNat + n else n
  let (emptyLines, widest, c) ← readEmptyLines known c.bound c 0
  let indent := known.getD (max (max widest (parent + 1).toNat) 1)
  let (s, c) ← readBlockLines folded indent c.bound c ⟨[], [], emptyLines, false⟩
  let text := match chomp with
    | .strip => s.text
    | .clip => s.text ++ s.lastBreak
    | .keep => s.text ++ s.lastBreak ++ s.emptyLines
  return (.scalar (String.ofList text) false, c)

/-! ## Gaps inside flow scalars -/

/-- White space between two words of a scalar: blanks up to the first break, that break, and the
breaks after it. -/
structure Gap where
  blanks : List Char
  broken : Bool
  firstBreak : List Char
  otherBreaks : List Char

namespace Gap

/-- No white space. -/
def none : Gap :=
  ⟨[], false, [], []⟩

/-- The break behind a backslash, which leaves nothing. -/
def escaped : Gap :=
  ⟨[], true, [], []⟩

/-- What a gap becomes: blanks stay, a single line feed is a space, and the first of several line
feeds is dropped. -/
def text (g : Gap) : List Char :=
  if g.broken then
    if g.firstBreak.head? = some '\n' then
      if g.otherBreaks.isEmpty then [' '] else g.otherBreaks
    else g.firstBreak ++ g.otherBreaks
  else g.blanks

end Gap

/-- The gap from here on. A tab in the indentation of a plain scalar is refused. -/
def readGap (tabsFrom : Nat) : Nat → Cursor → Gap → Except Defect (Gap × Cursor)
  | 0, c, g => .ok (g, c)
  | fuel + 1, c, g =>
    match c.rest with
    | [] => .ok (g, c)
    | ch :: _ =>
      if isBlank ch then
        if g.broken && c.column < tabsFrom && ch = '\t' then .error .indentation
        else
          readGap tabsFrom fuel (c.advance 1)
            (if g.broken then g else { g with blanks := g.blanks ++ [ch] })
      else if isBreak ch then
        let (br, c) := c.newline
        readGap tabsFrom fuel c
          (if g.broken then { g with otherBreaks := g.otherBreaks ++ br }
           else ⟨[], true, br, g.otherBreaks⟩)
      else .ok (g, c)

/-! ## Quoted scalars -/

/-- The character of a one-letter escape. -/
def escape? (c : Char) : Option Char :=
  [('0', '\x00'), ('a', '\x07'), ('b', '\x08'), ('t', '\t'), ('\t', '\t'), ('n', '\n'),
   ('v', '\x0b'), ('f', '\x0c'), ('r', '\r'), ('e', '\x1b'), (' ', ' '), ('"', '"'), ('/', '/'),
   ('\\', '\\'), ('N', '\u0085'), ('_', '\u00a0'), ('L', '\u2028'), ('P', '\u2029')].lookup c

/-- The number of hexadecimal digits behind an escape letter. -/
def escapeWidth? (c : Char) : Option Nat :=
  [('x', 2), ('u', 4), ('U', 8)].lookup c

/-- The number that hexadecimal digits write. -/
def hexNumber? (digits : List Char) : Option Nat :=
  digits.foldlM (fun n d => do return 16 * n + (← Text.hexValue? d)) 0

/-- An escape from its backslash on. -/
def readEscape (c : Cursor) : Except Defect (Char × Cursor) :=
  match c.rest with
  | _ :: letter :: rest =>
    match escape? letter with
    | some ch => .ok (ch, c.advance 2)
    | none =>
      match escapeWidth? letter with
      | none => .error .escape
      | some width =>
        let digits := rest.take width
        match hexNumber? digits with
        | none => .error .escape
        | some n =>
          if digits.length < width || (0xD800 ≤ n && n ≤ 0xDFFF) || 0x10FFFF < n then
            .error .escape
          else .ok (Char.ofNat n, c.advance (2 + width))
  | _ => .error .escape

/-- The characters up to a gap, the closing quote, or a backslash before a line break; the gap that
such a backslash starts. -/
def readQuotedWord (single : Bool) : Nat → Cursor → Except Defect (List Char × Gap × Cursor)
  | 0, c => .ok ([], .none, c)
  | fuel + 1, c =>
    match c.rest with
    | [] => .ok ([], .none, c)
    | ch :: rest =>
      if isBlank ch || isBreak ch then .ok ([], .none, c)
      else if single && ch = '\'' && rest.head? = some '\'' then do
        let (more, gap, c) ← readQuotedWord single fuel (c.advance 2)
        return ('\'' :: more, gap, c)
      else if ch = (if single then '\'' else '"') then .ok ([], .none, c)
      else if !single && ch = '\\' && rest.head?.any isBreak then
        .ok ([], .escaped, (c.advance 1).newline.2)
      else if !single && ch = '\\' then do
        let (ch, c) ← readEscape c
        let (more, gap, c) ← readQuotedWord single fuel c
        return (ch :: more, gap, c)
      else do
        let (more, gap, c) ← readQuotedWord single fuel (c.advance 1)
        return (ch :: more, gap, c)

/-- The inside of a quoted scalar, up to its closing quote. -/
def readQuotedText (single : Bool) : Nat → Cursor → Except Defect (List Char × Cursor)
  | 0, _ => .error .unclosed
  | fuel + 1, c =>
    if c.rest.isEmpty || (c.column = 0 && atDocumentMark c.rest) then .error .unclosed
    else do
      let (word, gap, c) ← readQuotedWord single c.bound c
      if c.sees (if single then '\'' else '"') then return (word, c.advance 1)
      else
        let (gap, c) ← readGap 0 c.bound c gap
        let (more, c) ← readQuotedText single fuel c
        return (word ++ gap.text ++ more, c)

/-- A quoted scalar. -/
def readQuoted (single : Bool) (c : Cursor) : Except Defect (Token × Cursor) := do
  let (text, c) ← readQuotedText single c.bound (c.advance 1)
  return (.scalar (String.ofList text) false, c)

/-! ## Plain scalars -/

/-- The indicators of flow collections. -/
def isFlowIndicator (c : Char) : Bool :=
  c = ',' || c = '[' || c = ']' || c = '\x7b' || c = '\x7d'

/-- The characters of a plain scalar up to a gap or an indicator that ends it. -/
def readPlainWord (inFlow : Bool) : List Char → Except Defect (List Char)
  | [] => .ok []
  | ch :: rest =>
    if isBlank ch || isBreak ch then .ok []
    else if inFlow && ch = ':' && rest.head?.any (fun n => isFlowIndicator n || n = '?') then
      .error .indicator
    else if (ch = ':' && atGap rest) || (inFlow && isFlowIndicator ch) then .ok []
    else do
      let more ← readPlainWord inFlow rest
      return ch :: more

/-- The rest of a plain scalar from `c` on, where `gap` has just been read: the gap counts only if
another word follows it. Also whether a line break follows the last word. -/
def readPlainText (inFlow : Bool) (indent : Nat) :
    Nat → Cursor → Gap → Except Defect (List Char × Bool × Cursor)
  | 0, c, gap => .ok ([], gap.broken, c)
  | fuel + 1, c, gap =>
    if (c.column = 0 && atDocumentMark c.rest) || c.sees '#' then .ok ([], gap.broken, c)
    else do
      let word ← readPlainWord inFlow c.rest
      if word.isEmpty then return ([], gap.broken, c)
      let (next, c) ← readGap indent c.bound (c.advance word.length) .none
      if next.blanks.isEmpty && !next.broken then return (gap.text ++ word, false, c)
      if !inFlow && c.column < indent then return (gap.text ++ word, next.broken, c)
      let (more, broken, c) ← readPlainText inFlow indent fuel c next
      return (gap.text ++ word ++ more, broken, c)

/-- A plain scalar inside a collection that is indented by `parent`, and whether a line break
follows it. -/
def readPlain (inFlow : Bool) (parent : Int) (c : Cursor) :
    Except Defect (Token × Bool × Cursor) := do
  let (text, broken, c) ←
    readPlainText inFlow (parent + 1).toNat c.bound c .none
  return (.scalar (String.ofList text) true, broken, c)

end SceneScript.Yaml
