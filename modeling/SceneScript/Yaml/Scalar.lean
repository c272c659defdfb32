import SceneScript.Decimal.Reading
import SceneScript.Value
import SceneScript.Yaml.Token

/-!
# Plain scalars

What a scalar without quotes means: null, a boolean, an integer, a float, or else its text. A zero
in front of further digits makes a text of a number.
-/

namespace SceneScript.Yaml

/-- The words for null. -/
def isNullWord (s : String) : Bool :=
  s = "null" || s = "Null" || s = "NULL" || s = "~"

/-- The words for the booleans. -/
def boolWord? (s : String) : Option Bool :=
  if s = "true" || s = "True" || s = "TRUE" then some true
  else if s = "false" || s = "False" || s = "FALSE" then some false
  else none

/-! ## Integers -/

/-- The value of a digit in a base of at most sixteen. -/
def digitIn? (base : Nat) (c : Char) : Option Nat :=
  (Text.hexValue? c).filter (· < base)

/-- The number that digits write in a base; there has to be one. -/
def digitsIn? (base : Nat) (digits : List Char) : Option Nat :=
  if digits.isEmpty then none
  else digits.foldlM (fun n d => do return base * n + (← digitIn? base d)) 0

/-- A zero in front of further digits, behind an optional sign. -/
def isPadded (cs : List Char) : Bool :=
  let digits := match cs with
    | '-' :: rest => rest
    | '+' :: rest => rest
    | cs => cs
  1 < digits.length && digits.head? = some '0' && digits.all Char.isDigit

/-- The number of digits behind the mark of their base, if that is how the text starts. -/
def based? : List Char → Option Nat
  | '0' :: 'x' :: digits => digitsIn? 16 digits
  | '0' :: 'o' :: digits => digitsIn? 8 digits
  | '0' :: 'b' :: digits => digitsIn? 2 digits
  | _ => none

/-- An integer: with an optional sign, in one of four bases. -/
def integer? (cs : List Char) : Option Int :=
  let (negative, digits) := match cs with
    | '-' :: rest => (true, rest)
    | '+' :: rest => (false, rest)
    | cs => (false, cs)
  let size := (based? digits).or (if isPadded cs then none else digitsIn? 10 digits)
  size.map fun n => if negative then -(n : Int) else n

/-- Integers that a value can hold. -/
def fits (n : Int) : Bool :=
  -(Nat.pow 2 63 : Int) ≤ n && n < Nat.pow 2 64

/-- Integers that are read as such, though a value may not hold them. -/
def isInteger (n : Int) : Bool :=
  -(Nat.pow 2 127 : Int) ≤ n && n < Nat.pow 2 128

/-! ## Floats -/

/-- Digits, perhaps with a point among them: the number without the point, and the digits behind
it. -/
def mantissa? (cs : List Char) : Option (Nat × Nat × List Char) :=
  let value (digits : List Char) : Nat := digits.foldl (fun n d => 10 * n + (d.toNat - 48)) 0
  let whole := cs.takeWhile Char.isDigit
  match cs.dropWhile Char.isDigit with
  | '.' :: rest =>
    let fraction := rest.takeWhile Char.isDigit
    if whole.isEmpty && fraction.isEmpty then none
    else some (value (whole ++ fraction), fraction.length, rest.dropWhile Char.isDigit)
  | rest => if whole.isEmpty then none else some (value whole, 0, rest)

/-- An exponent with its mark, or nothing. -/
def exponent? : List Char → Option Int
  | [] => some 0
  | mark :: rest =>
    if mark = 'e' || mark = 'E' then
      match rest with
      | '-' :: digits => (digitsIn? 10 digits).map fun n => -(n : Int)
      | '+' :: digits => (digitsIn? 10 digits).map fun n => (n : Int)
      | digits => (digitsIn? 10 digits).map fun n => (n : Int)
    else none

/-- A finite decimal behind its sign. -/
def unsignedFloat? (cs : List Char) : Option Float := do
  let (digits, places, rest) ← mantissa? cs
  let exponent ← exponent? rest
  let x := Decimal.nearestFloat digits (exponent - places)
  if x.isInf then none else some x

/-- A finite decimal with an optional sign. -/
def decimal? : List Char → Option Float
  | '-' :: cs => (unsignedFloat? cs).map fun x => -x
  | '+' :: cs => unsignedFloat? cs
  | cs => unsignedFloat? cs

/-- The words for infinity and for what is no number. -/
def isSpecialWord (s : String) : Bool :=
  [".inf", ".Inf", ".INF", "+.inf", "+.Inf", "+.INF", "-.inf", "-.Inf", "-.INF",
   ".nan", ".NaN", ".NAN"].contains s

/-- The value of a float. Infinity and what is no number become null. -/
def float? (s : String) : Option Value :=
  if isSpecialWord s then some .null
  else (decimal? s.toList).map fun x => .number (.float x)

/-! ## Meaning -/

/-- The value of an integer, unless the text is none. -/
def integerValue? (s : String) : Option (Except Defect Value) :=
  match integer? s.toList with
  | none => none
  | some n =>
    if fits n then some (.ok (.number (.int n)))
    else if isInteger n then some (.error .range)
    else none

/-- The value of a plain scalar. -/
def plainValue (s : String) : Except Defect Value :=
  if s = "" || isNullWord s then .ok .null
  else
    match boolWord? s with
    | some b => .ok (.bool b)
    | none =>
      match integerValue? s with
      | some result => result
      | none => if isPadded s.toList then .ok (.string s) else .ok ((float? s).getD (.string s))

end SceneScript.Yaml
