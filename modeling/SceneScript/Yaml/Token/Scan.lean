import SceneScript.Yaml.Lexeme

/-!
# Scanning

The tokens of a text. A mapping key without an indicator is seen only at the `:` behind it, so the
place of every possible key is remembered until then: one for the block collections and one for
each open flow collection. Such a key has to stay on its line and within 1024 bytes. The columns
of the open block collections are held on a stack; a smaller column closes them.
-/

namespace SceneScript.Yaml

/-- The place of a possible key. It is required where the block collection has nothing else to
offer. -/
structure PossibleKey where
  required : Bool
  position : Nat
  offset : Nat
  line : Nat
  column : Nat

/-- The scanner. Tokens are held last first; `keys` has the innermost collection first and is never
empty. -/
structure Scanner where
  cursor : Cursor
  indent : Int
  indents : List Int
  keys : List (Option PossibleKey)
  keyAllowed : Bool
  tokens : List Token
  count : Nat

namespace Scanner

/-- Before a text. -/
def start (text : List Char) : Scanner where
  cursor := .start text
  indent := -1
  indents := []
  keys := [none]
  keyAllowed := true
  tokens := []
  count := 0

/-- Whether a flow collection is open. -/
def inFlow (s : Scanner) : Bool :=
  1 < s.keys.length

/-- One more token at the end. -/
def push (s : Scanner) (token : Token) : Scanner :=
  { s with tokens := token :: s.tokens, count := s.count + 1 }

/-- One more token at a position. -/
def insert (s : Scanner) (position : Nat) (token : Token) : Scanner :=
  { s with
    tokens := s.tokens.insertIdx (s.count - position) token
    count := s.count + 1 }

/-- A token of one character. -/
def single (s : Scanner) (token : Token) : Scanner :=
  { s.push token with cursor := s.cursor.advance 1 }

/-! ## Indentation -/

/-- Opens a block collection at a column, unless one is open there. -/
def roll (s : Scanner) (column : Nat) (position : Nat) (token : Token) : Scanner :=
  if !s.inFlow && s.indent < column then
    { s.insert position token with indent := column, indents := s.indent :: s.indents }
  else s

/-- Closes the block collections that are indented more than a column, where `indents` are the
columns around the innermost. -/
def unrollFrom (s : Scanner) (column : Int) : List Int → Scanner
  | [] => s
  | outer :: indents =>
    if column < s.indent then
      unrollFrom { s.push .blockEnd with indent := outer, indents := indents } column indents
    else s

/-- Closes the block collections that are indented more than a column. -/
def unroll (s : Scanner) (column : Int) : Scanner :=
  if s.inFlow then s else s.unrollFrom column s.indents

/-! ## Possible keys -/

/-- Gives up the possible key of the innermost collection. -/
def dropKey (s : Scanner) : Except Defect Scanner :=
  match s.keys with
  | some key :: outer => if key.required then .error .key else .ok { s with keys := none :: outer }
  | _ => .ok s

/-- Remembers this place as a possible key, if one may start here. -/
def saveKey (s : Scanner) : Except Defect Scanner := do
  if s.keyAllowed then
    let s ← s.dropKey
    let key : PossibleKey :=
      { required := !s.inFlow && s.indent = s.cursor.column
        position := s.count
        offset := s.cursor.offset
        line := s.cursor.line
        column := s.cursor.column }
    return { s with keys := some key :: s.keys.tail }
  else return s

/-- Whether a possible key is too far back. -/
def isStale (c : Cursor) (key : PossibleKey) : Bool :=
  key.line < c.line || key.offset + 1024 < c.offset

/-- Gives up the possible keys that are too far back. -/
def dropStaleKeys (s : Scanner) : Except Defect Scanner := do
  let keys ← s.keys.mapM fun
    | none => .ok none
    | some key =>
      if isStale s.cursor key then if key.required then .error .key else .ok none
      else .ok (some key)
  return { s with keys := keys }

/-! ## Between tokens -/

/-- Past blanks, comments and line breaks, and a byte order mark in the first column of a line. A
line break allows a key in block collections, and there tabs do not indent. -/
def skipSpace : Nat → Scanner → Scanner
  | 0, s => s
  | fuel + 1, s =>
    let c := s.cursor
    let c := if c.column = 0 && c.sees '\ufeff' then c.advance 1 else c
    let c := c.skipWhile fun ch => ch = ' ' || ((s.inFlow || !s.keyAllowed) && ch = '\t')
    let c := if c.sees '#' then c.skipLine else c
    if !c.rest.isEmpty && atBreak c.rest then
      skipSpace fuel { s with cursor := c.newline.2, keyAllowed := s.keyAllowed || !s.inFlow }
    else { s with cursor := c }

/-- To the start of the next token. -/
def settle (s : Scanner) : Except Defect Scanner := do
  let s := skipSpace s.cursor.bound s
  let s ← s.dropStaleKeys
  return s.unroll s.cursor.column

/-! ## Tokens -/

/-- A token of several characters that no key can start with. -/
def outside (s : Scanner) (read : Cursor → Except Defect (Token × Cursor)) :
    Except Defect Scanner := do
  let s ← (s.unroll (-1)).dropKey
  let (token, c) ← read s.cursor
  return { s.push token with cursor := c, keyAllowed := false }

/-- The start of a flow collection. -/
def openFlow (s : Scanner) (token : Token) : Except Defect Scanner := do
  let s ← s.saveKey
  return { s.single token with keys := none :: s.keys, keyAllowed := true }

/-- The end of a flow collection. -/
def closeFlow (s : Scanner) (token : Token) : Except Defect Scanner := do
  let s ← s.dropKey
  let keys := if s.inFlow then s.keys.tail else s.keys
  return { s.single token with keys := keys, keyAllowed := false }

/-- The comma between members of a flow collection. -/
def flowEntry (s : Scanner) : Except Defect Scanner := do
  let s ← s.dropKey
  return { s.single .flowEntry with keyAllowed := true }

/-- The dash before a member of a block sequence. -/
def blockEntry (s : Scanner) : Except Defect Scanner := do
  if !s.inFlow && !s.keyAllowed then throw .indicator
  let s ← (s.roll s.cursor.column s.count .blockSequenceStart).dropKey
  return { s.single .blockEntry with keyAllowed := true }

/-- The question mark before a key. -/
def keyMark (s : Scanner) : Except Defect Scanner := do
  if !s.inFlow && !s.keyAllowed then throw .indicator
  let s ← (s.roll s.cursor.column s.count .blockMappingStart).dropKey
  return { s.single .key with keyAllowed := !s.inFlow }

/-- The colon before a value. It makes the possible key in front of it a key. -/
def valueMark (s : Scanner) : Except Defect Scanner :=
  match s.keys with
  | some key :: outer =>
    let s := s.insert key.position .key
    let s := s.roll key.column key.position .blockMappingStart
    .ok { s.single .value with keys := none :: outer, keyAllowed := false }
  | _ =>
    if !s.inFlow && !s.keyAllowed then .error .indicator
    else
      let s := s.roll s.cursor.column s.count .blockMappingStart
      .ok { s.single .value with keyAllowed := !s.inFlow }

/-- A token of several characters that may start a key. -/
def content (s : Scanner) (read : Cursor → Except Defect (Token × Cursor)) :
    Except Defect Scanner := do
  let s ← s.saveKey
  let (token, c) ← read s.cursor
  return { s.push token with cursor := c, keyAllowed := false }

/-- A block scalar. -/
def blockScalar (s : Scanner) (folded : Bool) : Except Defect Scanner := do
  let s ← s.dropKey
  let (token, c) ← readBlockScalar folded s.indent s.cursor
  return { s.push token with cursor := c, keyAllowed := true }

/-- A plain scalar; a key may follow on a line of its own. -/
def plainScalar (s : Scanner) : Except Defect Scanner := do
  let s ← s.saveKey
  let (token, broken, c) ← readPlain s.inFlow s.indent s.cursor
  return { s.push token with cursor := c, keyAllowed := broken }

/-- A character that is an indicator wherever a token may start. -/
def isIndicator (c : Char) : Bool :=
  "-?:,[]\x7b\x7d#&*!|>'\"%@`".toList.contains c

/-- Whether a plain scalar may start here. Some indicators may start one when a word follows. -/
def startsPlain (inFlow : Bool) (ch : Char) (rest : List Char) : Bool :=
  (!isBlank ch && !isBreak ch && !isIndicator ch) ||
    (ch = '-' && !(rest.head?.any isBlank)) ||
    (!inFlow && (ch = '?' || ch = ':') && !atGap rest)

/-- The token that starts with `ch`. -/
def fetch (s : Scanner) (ch : Char) (rest : List Char) : Except Defect Scanner :=
  let column := s.cursor.column
  let readThree (token : Token) (c : Cursor) : Except Defect (Token × Cursor) :=
    .ok (token, c.advance 3)
  let readNamed (make : String → Token) (c : Cursor) : Except Defect (Token × Cursor) :=
    (readName c).map fun (name, c) => (make name, c)
  if column = 0 && ch = '%' then s.outside readDirective
  else if column = 0 && atMark '-' (ch :: rest) then s.outside (readThree .documentStart)
  else if column = 0 && atMark '.' (ch :: rest) then s.outside (readThree .documentEnd)
  else if ch = '[' then s.openFlow .flowSequenceStart
  else if ch = '\x7b' then s.openFlow .flowMappingStart
  else if ch = ']' then s.closeFlow .flowSequenceEnd
  else if ch = '\x7d' then s.closeFlow .flowMappingEnd
  else if ch = ',' then s.flowEntry
  else if ch = '-' && atGap rest then s.blockEntry
  else if ch = '?' && (s.inFlow || atGap rest) then s.keyMark
  else if ch = ':' && (s.inFlow || atGap rest) then s.valueMark
  else if ch = '*' then s.content (readNamed .alias)
  else if ch = '&' then s.content (readNamed .anchor)
  else if ch = '!' then s.content (readTag s.inFlow)
  else if ch = '|' && !s.inFlow then s.blockScalar false
  else if ch = '>' && !s.inFlow then s.blockScalar true
  else if ch = '\'' then s.content (readQuoted true)
  else if ch = '"' then s.content (readQuoted false)
  else if startsPlain s.inFlow ch rest then s.plainScalar
  else .error .character

/-- All tokens from here on; every one takes at least one character. -/
def scan : Nat → Scanner → Except Defect (List Token)
  | 0, _ => .error .misplaced
  | fuel + 1, s => do
    let s ← s.settle
    match s.cursor.rest with
    | [] =>
      let s ← (s.unroll (-1)).dropKey
      return s.tokens.reverse
    | ch :: rest =>
      let s ← s.fetch ch rest
      scan fuel s

end Scanner

/-- A character that a text may hold. -/
def isPrintable (c : Char) : Bool :=
  let n := c.toNat
  n == 0x09 || n == 0x0A || n == 0x0D || (0x20 ≤ n && n ≤ 0x7E) || n == 0x85 ||
    (0xA0 ≤ n && n ≤ 0xD7FF) || (0xE000 ≤ n && n ≤ 0xFFFD) || 0x10000 ≤ n

/-- The tokens of a text. -/
def Token.ofText (text : List Char) : Except Defect (List Token) :=
  if text.all isPrintable then Scanner.scan (text.length + 1) (Scanner.start text)
  else .error .character

end SceneScript.Yaml
