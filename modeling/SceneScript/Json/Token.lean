import SceneScript.Decimal.Reading
import SceneScript.Value

/-!
# Tokens of JSON text

Brackets, separators and leaves. A leaf that is no string is a word: a maximal run of letters,
digits, signs and points, which has to be `null`, a boolean or a number as a whole.
-/

namespace SceneScript.Json

/-- Why a text is not accepted. -/
inductive Defect where
  | character
  | literal
  | word
  | range
  | misplaced
  | depth
  deriving DecidableEq, Repr

/-- A defect in words. -/
def Defect.message : Defect → String
  | .character => "unexpected character"
  | .literal => "invalid string"
  | .word => "invalid word or number"
  | .range => "number out of range"
  | .misplaced => "unexpected token or end of text"
  | .depth => "nesting too deep"

/-- A token. -/
inductive Token where
  | openList
  | closeList
  | openMapping
  | closeMapping
  | comma
  | colon
  | leaf (v : Value)

/-! ## Numbers -/

/-- The greatest whole number that keeps all its digits. -/
def wholeLimit : Nat :=
  Nat.pow 2 64 - 1

/-- The number that digits write. -/
def digitsValue (digits : List Char) : Nat :=
  digits.foldl (fun acc c => acc * 10 + (c.toNat - 48)) 0

/-- Digits appended to a significand as long as it stays below the limit; the others are counted. -/
def keepDigits (significand : Nat) : List Char → Nat × Nat
  | [] => (significand, 0)
  | c :: cs =>
    let next := significand * 10 + (c.toNat - 48)
    if next ≤ wholeLimit then keepDigits next cs else (significand, (c :: cs).length)

/-- A number with a point or an exponent, or one beyond the whole numbers. -/
def readFloat (negative : Bool) (whole fraction : List Char) (exponent : Int) :
    Except Defect Number :=
  let (kept, dropped) := keepDigits 0 whole
  let (kept, unread) := keepDigits kept fraction
  let places : Int := (dropped : Int) - ((fraction.length - unread : Nat) : Int)
  match Decimal.scaledFloat? kept (places + exponent) with
  | none => .error .range
  | some x => .ok (.float (if negative then -x else x))

/-- A number without a point or an exponent: whole if it fits into 64 bits, with or without a sign.
Minus zero is not whole. -/
def readWhole (negative : Bool) (digits : List Char) : Except Defect Number :=
  let n := digitsValue digits
  if negative then
    if 0 < n ∧ n ≤ Nat.pow 2 63 then .ok (.int (-(n : Int))) else readFloat true digits [] 0
  else if n ≤ wholeLimit then .ok (.int (n : Int))
  else readFloat false digits [] 0

/-- An exponent behind its mark: an optional sign and at least one digit, and nothing else. -/
def readExponent? : List Char → Option Int
  | '+' :: cs => if cs ≠ [] ∧ cs.all Char.isDigit then some (digitsValue cs : Int) else none
  | '-' :: cs => if cs ≠ [] ∧ cs.all Char.isDigit then some (-(digitsValue cs : Int)) else none
  | cs => if cs ≠ [] ∧ cs.all Char.isDigit then some (digitsValue cs : Int) else none

/-- What follows the digits before the point. -/
def readTail (negative : Bool) (whole fraction : List Char) : List Char → Except Defect Number
  | [] => readFloat negative whole fraction 0
  | c :: cs =>
    if c = 'e' ∨ c = 'E' then
      match readExponent? cs with
      | none => .error .word
      | some e => readFloat negative whole fraction e
    else .error .word

/-- A number from its first digit on. -/
def readUnsigned (negative : Bool) (cs : List Char) : Except Defect Number :=
  let whole := cs.takeWhile Char.isDigit
  let rest := cs.dropWhile Char.isDigit
  if whole = [] ∨ (whole.head? = some '0' ∧ 1 < whole.length) then .error .word
  else
    match rest with
    | [] => readWhole negative whole
    | '.' :: rest =>
      let fraction := rest.takeWhile Char.isDigit
      if fraction = [] then .error .word
      else readTail negative whole fraction (rest.dropWhile Char.isDigit)
    | rest => readTail negative whole [] rest

/-- A number as a whole word. -/
def readNumber : List Char → Except Defect Number
  | '-' :: cs => readUnsigned true cs
  | cs => readUnsigned false cs

/-! ## Tokens -/

/-- The blanks between tokens. -/
def isSpace (c : Char) : Bool :=
  c = ' ' || c = '\t' || c = '\n' || c = '\r'

/-- The characters of a word. -/
def isWordChar (c : Char) : Bool :=
  c.isAlphanum || c = '+' || c = '-' || c = '.'

/-- The value of a word. -/
def readWord (word : List Char) : Except Defect Value :=
  if word = "null".toList then .ok .null
  else if word = "true".toList then .ok (.bool true)
  else if word = "false".toList then .ok (.bool false)
  else (readNumber word).map .number

/-- The token of a single character. -/
def punctuation? (c : Char) : Option Token :=
  if c = '[' then some .openList
  else if c = ']' then some .closeList
  else if c = '\x7b' then some .openMapping
  else if c = '\x7d' then some .closeMapping
  else if c = ',' then some .comma
  else if c = ':' then some .colon
  else none

/-- The tokens of a text. -/
def tokens : List Char → Except Defect (List Token)
  | [] => .ok []
  | c :: cs =>
    if isSpace c then tokens cs
    else if c = '"' then
      match _h : Text.unquoteBody cs with
      | none => .error .literal
      | some (text, rest) => do
        let more ← tokens rest
        return .leaf (.string (String.ofList text)) :: more
    else
      match punctuation? c with
      | some token => do
        let more ← tokens cs
        return token :: more
      | none =>
        if isWordChar c then do
          let v ← readWord (c :: cs.takeWhile isWordChar)
          let more ← tokens (cs.dropWhile isWordChar)
          return .leaf v :: more
        else .error .character
termination_by cs => cs.length
decreasing_by
  all_goals simp only [List.length_cons]
  · omega
  · have := Text.length_unquoteBody _h
    omega
  · omega
  · have := (List.dropWhile_sublist isWordChar (l := cs)).length_le
    omega

end SceneScript.Json
