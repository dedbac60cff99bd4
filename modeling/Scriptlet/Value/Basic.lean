import Scriptlet.Decimal.Layout
import Scriptlet.Program
import Scriptlet.Run.Error
import Scriptlet.Token

/-!
# Values

What an expression evaluates to: a 64-bit integer, a double, a text or a truth
value. A number can be used as a double, but an integer only if the double
holds it exactly, which every integer up to `2 ^ 53 - 1` in size is sure to.

## Main definitions

* `Value`: A value.
* `Value.text`: How it is printed.
* `Value.asReal`: It as a double.
-/

namespace Scriptlet

/-- What an expression evaluates to. -/
inductive Value where
  | int (value : Int64)
  | real (value : Float)
  | str (content : String)
  | bool (value : Bool)
  deriving DecidableEq, Repr

/-- The size up to which every integer is a double, `2 ^ 53 - 1`. -/
def maxSafeInteger : Nat := 9007199254740991

/-- An integer as a double, if it is small enough to be one exactly. -/
def exactReal? (n : Int64) : Option Float :=
  if n.toInt.natAbs ≤ maxSafeInteger then some n.toFloat else none

namespace Value

/-- The type of a value. -/
def ty : Value → Ty
  | .int _ => .int
  | .real _ => .float
  | .str _ => .str
  | .bool _ => .bool

/-- Whether a value is a number. -/
def isNumeric : Value → Bool
  | .int _ | .real _ => true
  | .str _ | .bool _ => false

/-- The value of a literal. -/
def ofLiteral : Literal → Value
  | .str content => .str content
  | .bool value => .bool value

/-- A number as a double. An integer that is too large is refused rather than
    rounded. -/
def asReal (value : Value) (line : Nat) : Except RuntimeError Float :=
  match value with
  | .real x => .ok x
  | .int n =>
    match exactReal? n with
    | some x => .ok x
    | none => .error (.precisionLoss line)
  | .str _ | .bool _ => .error (.expectedNumber value.ty line)

/-- Real numbers are written positionally from `10 ^ -4` up to but not including
    `10 ^ 16`, and with an exponent beyond. -/
def realLayout : Layout := { least := -3, most := 16 }

/-- How a value is printed. A real number shows that it is one, and a text is
    printed without quotes. -/
def text : Value → String
  | .int n => toString n.toInt
  | .real x => realLayout.real x
  | .str content => content
  | .bool flag => boolWord flag

end Value

end Scriptlet
