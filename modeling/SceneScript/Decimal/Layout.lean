import SceneScript.Decimal.Shortest

/-!
# Layout of decimals

How a decimal is laid out as text: positional with at least one digit after the point in a range
of sizes, with an exponent outside of it.
-/

namespace SceneScript.Decimal

/-- The decisions of a number format. -/
structure Layout where
  /-- The least power of ten that is written positionally. -/
  leastPositional : Int
  /-- The greatest power of ten that is written positionally. -/
  greatestPositional : Int
  /-- Whether an exponent that is not negative has a sign. -/
  plusSign : Bool

/-- The power of ten of the first digit. -/
def magnitude (d : Decimal) : Int :=
  (Nat.toDigits 10 d.significand).length - 1 + d.exponent

/-- Digits with a point behind the first `whole` of them. -/
def pointAfter (whole : Nat) (digits : List Char) : List Char :=
  digits.take whole ++ '.' :: digits.drop whole

/-- Positional text, with at least one digit on both sides of the point. -/
def positional (digits : List Char) (exponent : Int) : List Char :=
  if 0 ≤ exponent then digits ++ List.replicate exponent.toNat '0' ++ ['.', '0']
  else
    let fraction := (-exponent).toNat
    if fraction < digits.length then pointAfter (digits.length - fraction) digits
    else '0' :: '.' :: List.replicate (fraction - digits.length) '0' ++ digits

/-- Text with an exponent; a single digit has no point. -/
def scientific (layout : Layout) (digits : List Char) (magnitude : Int) : List Char :=
  let lead := if digits.length ≤ 1 then digits else pointAfter 1 digits
  let sign := if magnitude < 0 then ['-'] else if layout.plusSign then ['+'] else []
  lead ++ 'e' :: sign ++ Nat.toDigits 10 magnitude.natAbs

/-- A decimal laid out. -/
def chars (layout : Layout) (d : Decimal) : List Char :=
  let digits := Nat.toDigits 10 d.significand
  if layout.leastPositional ≤ d.magnitude ∧ d.magnitude ≤ layout.greatestPositional then
    positional digits d.exponent
  else scientific layout digits d.magnitude

end SceneScript.Decimal
