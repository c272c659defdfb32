/-!
# Shortest decimals

The decimal with the fewest digits that reads back to a given double, and among those the nearest
to it; an exact tie goes to the even digit. A double is a mantissa times a power of two, and all
real numbers between two half-way points round to it. The search goes through the decimal grids
from the coarse to the fine ones in exact arithmetic; the first grid with a point in the interval
wins.
-/

namespace SceneScript

/-- The number `significand · 10 ^ exponent`. -/
structure Decimal where
  significand : Nat
  exponent : Int
  deriving DecidableEq, Repr

namespace Decimal

/-- A positive double and its neighbourhood, in units of `2 ^ scale`: the value and the ends of the
interval of numbers that round to it. The ends belong to the interval when `closed`. -/
structure Interval where
  low : Nat
  value : Nat
  high : Nat
  scale : Int
  closed : Bool
  deriving Repr

namespace Interval

/-- The interval of the double `mantissa · 2 ^ exponent`. Below the least mantissa of an exponent
the doubles lie twice as close, so the lower half-way point is nearer there. -/
def ofDouble (mantissa : Nat) (exponent : Int) (atPowerOfTwo : Bool) : Interval where
  low := if atPowerOfTwo then 4 * mantissa - 1 else 4 * mantissa - 2
  value := 4 * mantissa
  high := 4 * mantissa + 2
  scale := exponent - 2
  closed := mantissa % 2 == 0

/-- What a number of the interval's units is multiplied with to compare it with points of the grid
`10 ^ k`. -/
def unitFactor (i : Interval) (k : Int) : Nat :=
  Nat.pow 2 i.scale.toNat * Nat.pow 10 (-k).toNat

/-- What a point of the grid `10 ^ k` is multiplied with to compare it with the interval. -/
def gridFactor (i : Interval) (k : Int) : Nat :=
  Nat.pow 2 (-i.scale).toNat * Nat.pow 10 k.toNat

/-- Whether the point `d · 10 ^ k` lies in the interval. -/
def holds (i : Interval) (k : Int) (d : Nat) : Bool :=
  let point := d * i.gridFactor k
  let low := i.low * i.unitFactor k
  let high := i.high * i.unitFactor k
  if i.closed then low ≤ point && point ≤ high else low < point && point < high

/-- The point of the grid `10 ^ k` in the interval that is nearest to the value, if any. -/
def nearest? (i : Interval) (k : Int) : Option Nat :=
  let value := i.value * i.unitFactor k
  let unit := i.gridFactor k
  let below := value / unit
  match i.holds k below, i.holds k (below + 1) with
  | true, true =>
    let twice := 2 * value
    let middle := (2 * below + 1) * unit
    if twice < middle then some below
    else if middle < twice then some (below + 1)
    else if below % 2 == 0 then some below
    else some (below + 1)
  | true, false => some below
  | false, true => some (below + 1)
  | false, false => none

/-- The first hit on the grids `10 ^ k`, `10 ^ (k - 1)`, …. -/
def search (i : Interval) : Nat → Int → Decimal
  | 0, k => ⟨i.value * i.unitFactor k / i.gridFactor k, k⟩
  | grids + 1, k =>
    match i.nearest? k with
    | some d => ⟨d, k⟩
    | none => search i grids (k - 1)

end Interval

/-- The shortest decimal of the double `mantissa · 2 ^ exponent`. The first grid is at least as
coarse as the value is large; seventeen digits always suffice. -/
def shortest (mantissa : Nat) (exponent : Int) (atPowerOfTwo : Bool) : Decimal :=
  let size := (Nat.log2 mantissa : Int) + exponent
  (Interval.ofDouble mantissa exponent atPowerOfTwo).search 22 (size * 30103 / 100000 + 2)

/-- The shortest decimal of the size of a finite double that is not zero. -/
def ofFloat (x : Float) : Decimal :=
  let bits : Nat := x.toBits.toNat
  let field : Nat := bits / Nat.pow 2 52 % Nat.pow 2 11
  let fraction := bits % Nat.pow 2 52
  if field = 0 then shortest fraction (-1074) false
  else shortest (Nat.pow 2 52 + fraction) ((field : Int) - 1075) (fraction = 0 && 1 < field)

end Decimal

end SceneScript
