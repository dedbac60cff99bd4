import Scriptlet.Decimal.Shortest

/-!
# Writing Real Numbers

The text of a double. Its digits are the shortest that read back. Where the
point stands decides how they are laid out: positionally, with at least one
digit on either side of the point, or as one leading digit with an exponent of
ten. Which positions of the point are written positionally is a decision of the
format, and all of it that varies is in a `Layout`.

## Main definitions

* `Layout`: The positions of the point that are written positionally.
* `Layout.decimal`: The text of a decimal.
* `Layout.real`: The text of a double.
-/

namespace Scriptlet

/-- Which decimals are written positionally. A decimal's point stands at
    position `p` if it is below `10 ^ p` and not below `10 ^ (p - 1)`. -/
structure Layout where
  least : Int
  most : Int

namespace Layout

/-- Zeros. -/
def zeros (count : Int) : List Char := List.replicate count.toNat '0'

/-- Digits with the point after the first `point` of them, filled up with zeros
    so that the point stands between two digits. -/
def positional (digits : List Char) (point : Int) : List Char :=
  if point ≤ 0 then
    ['0', '.'] ++ zeros (-point) ++ digits
  else if point < digits.length then
    digits.take point.toNat ++ '.' :: digits.drop point.toNat
  else
    digits ++ zeros (point - digits.length) ++ ['.', '0']

/-- Digits with the point after the first one, if there are more, and the
    exponent of ten that puts it there. -/
def scientific (digits : List Char) (point : Int) : List Char :=
  digits.take 1 ++ (if digits.length ≤ 1 then [] else '.' :: digits.drop 1) ++
    'e' :: (toString (point - 1)).toList

/-- The text of a positive decimal. -/
def decimal (layout : Layout) (number : Decimal) : List Char :=
  let digits := Nat.toDigits 10 number.digits
  let point := digits.length + number.place
  if layout.least ≤ point ∧ point ≤ layout.most then positional digits point
  else scientific digits point

/-- The text of a double without its sign. -/
def magnitude (layout : Layout) (exponent fraction : Nat) : List Char :=
  if exponent = 0 ∧ fraction = 0 then ['0', '.', '0']
  else layout.decimal (Interval.ofFields exponent fraction).shortest

/-- The text of a double. A zero keeps its sign, and a number that is not one
    has none. -/
def real (layout : Layout) (x : Float) : String :=
  let bits := x.toBits.toNat
  let negative := bits >>> 63 = 1
  let exponent := (bits >>> 52) % 2048
  let fraction := bits % Interval.leadingBit
  let sign := if negative then "-" else ""
  if exponent = 2047 then
    if fraction = 0 then sign ++ "inf" else "NaN"
  else
    sign ++ String.ofList (layout.magnitude exponent fraction)

end Layout

end Scriptlet
