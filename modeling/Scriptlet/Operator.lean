/-!
# Operators

The operators of the language, sorted by what they take and what they give.
Arithmetic operators combine two numbers, signs act on one, and orders compare
two values to a truth value. `+` and `-` are spelt alike as arithmetic and as
signs, so the two readings are separate types and the parser picks one by
position.

## Main definitions

* `ArithOp`: The four binary arithmetic operators.
* `Sign`: The two prefix operators.
* `Order`: The two comparisons.
-/

namespace Scriptlet

/-- A binary arithmetic operator. -/
inductive ArithOp where
  | add
  | sub
  | mul
  | div
  deriving DecidableEq, Repr

/-- A prefix operator on a number. -/
inductive Sign where
  | plus
  | negate
  deriving DecidableEq, Repr

/-- A comparison, as an `if` condition may use it. -/
inductive Order where
  | less
  | greater
  deriving DecidableEq, Repr

/-- The source spelling of an arithmetic operator. -/
def ArithOp.symbol : ArithOp → String
  | .add => "+"
  | .sub => "-"
  | .mul => "*"
  | .div => "/"

/-- The source spelling of a sign. -/
def Sign.symbol : Sign → String
  | .plus => "+"
  | .negate => "-"

/-- The source spelling of a comparison. -/
def Order.symbol : Order → String
  | .less => "<"
  | .greater => ">"

end Scriptlet
