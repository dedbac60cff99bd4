/-!
# Shortest Decimals

The decimal with the fewest digits that reads back as a given binary fraction.
A binary fraction `mid · 2 ^ unit` stands for every real number that is closer
to it than to its neighbours, which is an interval around it. Whether the ends
belong to it depends on the mantissa: a tie is read as the even one.

A decimal with its last digit at the place `10 ^ place` is a point of the grid
of that width. The coarsest grid that has a point in the interval gives the
fewest digits. If it has one there, one of the two grid points next to the
fraction is in the interval, so two tests per grid suffice; of two points the
nearer one is taken, and of two equally near ones the larger.

All of it is computed exactly in natural numbers. Widths are powers of two and
ten with integer exponents, and a comparison is multiplied out until only
positive exponents are left.

## Main definitions

* `Decimal`: Digits and the place of the last one.
* `Interval`: The reals that read as a binary fraction.
* `Interval.shortest`: The shortest decimal in an interval.
* `Interval.ofFields`: The interval of a double.
-/

namespace Scriptlet

/-- The number `digits · 10 ^ place`. -/
structure Decimal where
  digits : Nat
  place : Int
  deriving DecidableEq, Repr

/-- The number of decimal digits of a natural number. -/
def digitCount (n : Nat) : Nat := (Nat.toDigits 10 n).length

/-- The reals that read as the binary fraction `mid · 2 ^ unit`: those from
    `low · 2 ^ unit` to `high · 2 ^ unit`, with the ends if it is closed. -/
structure Interval where
  low : Nat
  mid : Nat
  high : Nat
  unit : Int
  closed : Bool
  deriving DecidableEq, Repr

namespace Interval

/-- The factor of a number of units, when units and grid points of a place are
    both multiplied out to natural numbers. -/
def unitFactor (interval : Interval) (place : Int) : Nat :=
  Nat.pow 2 interval.unit.toNat * Nat.pow 10 (-place).toNat

/-- The factor of a number of grid points, when units and grid points of a
    place are both multiplied out to natural numbers. -/
def pointFactor (interval : Interval) (place : Int) : Nat :=
  Nat.pow 10 place.toNat * Nat.pow 2 (-interval.unit).toNat

/-- Whether a grid point is in the interval. -/
def contains (interval : Interval) (place : Int) (point : Nat) : Bool :=
  let low := interval.low * interval.unitFactor place
  let high := interval.high * interval.unitFactor place
  let here := point * interval.pointFactor place
  if interval.closed then low ≤ here && here ≤ high else low < here && here < high

/-- The grid point in the interval that is nearest to the binary fraction, if
    there is one. Of two equally near ones it is the larger. -/
def nearest? (interval : Interval) (place : Int) : Option Nat :=
  let mid := interval.mid * interval.unitFactor place
  let width := interval.pointFactor place
  let below := mid / width
  let above := below + 1
  -- Every other grid point is farther away than one of these two.
  match interval.contains place below, interval.contains place above with
  | true, true => some (if mid - below * width < above * width - mid then below else above)
  | true, false => some below
  | false, true => some above
  | false, false => none

/-- The least exponent of a power of ten that the binary fraction is below. -/
def magnitude (interval : Interval) : Int :=
  let num := interval.mid * Nat.pow 2 interval.unit.toNat
  let den := Nat.pow 2 (-interval.unit).toNat
  if den ≤ num then digitCount (num / den)
  else 1 - digitCount ((den - 1) / num)

/-- The most digits that a double ever needs. -/
def maxDigits : Nat := 17

/-- The shortest decimal in the interval of a double, found on the grids from
    the coarsest to the one with the most digits. -/
def shortest (interval : Interval) : Decimal :=
  let top := interval.magnitude
  let onGrid (digits : Nat) : Option Decimal :=
    (interval.nearest? (top - digits)).map fun point => ⟨point, top - digits⟩
  ((List.range (maxDigits + 1)).findSome? onGrid).getD ⟨0, 0⟩

/-- The bit before the fraction of a double, `2 ^ 52`, which only the smallest
    doubles lack. -/
def leadingBit : Nat := Nat.pow 2 52

/-- The interval of the positive double with the given fields. The neighbour
    below a power of two is only half as far away as the one above, unless
    there are no smaller exponents. -/
def ofFields (exponent fraction : Nat) : Interval :=
  if exponent = 0 then
    { low := 4 * fraction - 2, mid := 4 * fraction, high := 4 * fraction + 2, unit := -1076,
      closed := fraction % 2 = 0 }
  else
    let mid := 4 * (leadingBit + fraction)
    { low := if fraction = 0 ∧ exponent ≠ 1 then mid - 1 else mid - 2
      mid := mid
      high := mid + 2
      unit := (exponent : Int) - 1077
      closed := fraction % 2 = 0 }

end Interval

end Scriptlet
