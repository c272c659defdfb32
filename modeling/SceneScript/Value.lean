import SceneScript.Decimal.Layout
import SceneScript.Entries
import SceneScript.Text.Blank
import SceneScript.Text.Quoted

/-!
# Configuration values

The tree that a configuration file denotes, whatever its format. Whole numbers and others differ,
and mappings keep the order of their entries. A field that is null counts as absent.
-/

namespace SceneScript

/-- A number as a configuration distinguishes it: `1` is whole, `1.0` is not. -/
inductive Number where
  | int (value : Int)
  | float (value : Float)
  deriving Inhabited

namespace Number

/-- Positional from `10 ^ -5` up to below `10 ^ 16`, otherwise with an exponent and its sign. -/
def layout : Decimal.Layout where
  leastPositional := -5
  greatestPositional := 15
  plusSign := true

/-- The text of a finite double. -/
def floatChars (x : Float) : List Char :=
  let sign := if x.toBits.toNat / Nat.pow 2 63 % 2 = 1 then ['-'] else []
  if x == 0.0 then sign ++ ['0', '.', '0'] else sign ++ (Decimal.ofFloat x).chars layout

/-- The text of a whole number. -/
def intChars (n : Int) : List Char :=
  if n < 0 then '-' :: Nat.toDigits 10 n.natAbs else Nat.toDigits 10 n.natAbs

/-- The text of a number. -/
def chars : Number → List Char
  | .int n => intChars n
  | .float x => floatChars x

/-- The text of a number. -/
def text (n : Number) : String :=
  String.ofList n.chars

/-- Whether a number is zero, of either sign. -/
def isZero : Number → Bool
  | .int n => n == 0
  | .float x => x == 0.0

end Number

/-- A configuration value. -/
inductive Value where
  | null
  | bool (b : Bool)
  | number (n : Number)
  | string (s : String)
  | list (items : List Value)
  | mapping (entries : List (String × Value))
  deriving Inhabited

namespace Value

/-- Whether a value is null. -/
def isNull : Value → Bool
  | .null => true
  | _ => false

/-- The text of a string value. -/
def string? : Value → Option String
  | .string s => some s
  | _ => none

/-- The entries of a mapping value. -/
def mapping? : Value → Option (Entries Value)
  | .mapping entries => some entries
  | _ => none

/-- Whether a value means yes: true, a number other than zero, or one of a few words in any case. -/
def truthy : Value → Bool
  | .bool b => b
  | .number n => !n.isZero
  | .string s => ["true", "yes", "on", "1"].contains ((Text.trim s).map Char.toLower)
  | _ => false

end Value

/-- The value under a key, where null counts as absent. -/
def Entries.field? (entries : Entries Value) (key : String) : Option Value :=
  (entries.get? key).filter fun v => !v.isNull

end SceneScript
