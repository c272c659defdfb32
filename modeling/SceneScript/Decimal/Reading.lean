/-!
# Reading decimals

Two readings of a decimal as a double. `nearestFloat` rounds correctly: to the nearest double, an
exact half to the even one. `scaledFloat?` multiplies or divides a double by powers of ten, so it
rounds more than once; it refuses what grows beyond the doubles.
-/

namespace SceneScript.Decimal

/-- The bits of positive infinity. -/
def infinityBits : Nat :=
  2047 * Nat.pow 2 52

/-- The bits of the double nearest to the positive fraction `num / den`. -/
def nearestBits (num den : Nat) : Nat :=
  let size : Int := (Nat.log2 num : Int) - Nat.log2 den
  let quotient (q : Int) : Nat × Nat := (num * Nat.pow 2 (-q).toNat, den * Nat.pow 2 q.toNat)
  let guess := max (size - 53) (-1074)
  let (n, d) := quotient guess
  let q := if Nat.pow 2 53 ≤ n / d then guess + 1 else guess
  let (n, d) := quotient q
  let down := n / d
  let rest := 2 * (n % d)
  let mantissa := if d < rest || (rest == d && down % 2 == 1) then down + 1 else down
  if mantissa < Nat.pow 2 52 then mantissa
  else min ((q + 1075).toNat * Nat.pow 2 52 + (mantissa - Nat.pow 2 52)) infinityBits

/-- The double nearest to `significand · 10 ^ exponent`; infinite when it is beyond the doubles. -/
def nearestFloat (significand : Nat) (exponent : Int) : Float :=
  if significand = 0 then 0.0
  else
    let digits : Int := (Nat.toDigits 10 significand).length
    if 310 < digits + exponent then Float.ofBits infinityBits.toUInt64
    else if digits + exponent < -330 then 0.0
    else
      Float.ofBits
        (nearestBits (significand * Nat.pow 10 exponent.toNat)
          (Nat.pow 10 (-exponent).toNat)).toUInt64

/-- The double nearest to a power of ten. -/
def powerOfTen (n : Nat) : Float :=
  nearestFloat 1 n

/-- Divides by a power of ten in steps of at most `10 ^ 308`. -/
def scaleDown (x : Float) (places : Nat) : Float :=
  if places ≤ 308 then x / powerOfTen places
  else if x == 0.0 then x
  else scaleDown (x / powerOfTen 308) (places - 308)
termination_by places

/-- The double for `significand · 10 ^ exponent`, rounded at the significand and at each scaling. -/
def scaledFloat? (significand : Nat) (exponent : Int) : Option Float :=
  let x := nearestFloat significand 0
  if exponent < 0 then some (scaleDown x exponent.natAbs)
  else if exponent ≤ 308 then
    let y := x * powerOfTen exponent.toNat
    if y.isInf then none else some y
  else if x == 0.0 then some x
  else none

end SceneScript.Decimal
