/-!
# Tokens of YAML text

The indicators and scalars of a text, with the starts and ends of block collections made explicit.
-/

namespace SceneScript.Yaml

/-- Why a text is not accepted. -/
inductive Defect where
  | character
  | indentation
  | key
  | indicator
  | anchor
  | tag
  | directive
  | blockHeader
  | unclosed
  | escape
  | misplaced
  | documents
  | alias
  | repetition
  | depth
  | complexKey
  | unknownTag
  | taggedText
  | range
  deriving DecidableEq, Repr

/-- A defect in words. -/
def Defect.message : Defect → String
  | .character => "character is not allowed"
  | .indentation => "tab where indentation is expected"
  | .key => "could not find expected ':'"
  | .indicator => "indicator is not allowed here"
  | .anchor => "invalid anchor or alias"
  | .tag => "invalid tag"
  | .directive => "invalid directive"
  | .blockHeader => "invalid header of a block scalar"
  | .unclosed => "unclosed quoted scalar"
  | .escape => "invalid escape"
  | .misplaced => "unexpected token"
  | .documents => "more than one document"
  | .alias => "unknown anchor"
  | .repetition => "repetition limit exceeded"
  | .depth => "recursion limit exceeded"
  | .complexKey => "key is not a scalar"
  | .unknownTag => "tag is not supported"
  | .taggedText => "text does not fit its tag"
  | .range => "integer out of range"

/-- A tag as bytes: escapes in a tag may write any. -/
abbrev TagText := List UInt8

/-- A token. -/
inductive Token where
  | version (major minor : Nat)
  | tagDirective (handle expansion : TagText)
  | documentStart
  | documentEnd
  | blockSequenceStart
  | blockMappingStart
  | blockEnd
  | flowSequenceStart
  | flowSequenceEnd
  | flowMappingStart
  | flowMappingEnd
  | blockEntry
  | flowEntry
  | key
  | value
  | alias (name : String)
  | anchor (name : String)
  | tag (handle suffix : TagText)
  | scalar (text : String) (plain : Bool)
  deriving DecidableEq, Repr

end SceneScript.Yaml
