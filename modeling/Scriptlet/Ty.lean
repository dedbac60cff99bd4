import Scriptlet.Operator

/-!
# Types

The four types a declaration can name, and the typing rules of the operators.
The rules speak of types alone, so the checker can apply them before any value
exists, and they are small enough to be read off as tables.

## Main definitions

* `Ty`: `int`, `float`, `str` and `bool`.
* `Ty.ofKeyword?`: The type a keyword names.
* `Ty.arith?`: The result type of an arithmetic operator.
* `Ty.comparable`: Which operand types a comparison accepts.

## Theorems

* `Ty.ofKeyword?_keyword`: Every type is named by its own keyword.
-/

namespace Scriptlet

/-- The type of a variable, a parameter or a value. -/
inductive Ty where
  | int
  | float
  | str
  | bool
  deriving DecidableEq, Repr

namespace Ty

/-- All types, in the order in which they are documented. -/
def all : List Ty := [.int, .float, .str, .bool]

/-- The keyword that names a type in source text. -/
def keyword : Ty → String
  | .int => "int"
  | .float => "float"
  | .str => "str"
  | .bool => "bool"

/-- The type that a keyword names. Every other word names none. -/
def ofKeyword? (word : String) : Option Ty :=
  all.find? fun ty => ty.keyword == word

/-- Each type is found under its own keyword, so no two share one. -/
theorem ofKeyword?_keyword (ty : Ty) : ofKeyword? ty.keyword = some ty := by
  cases ty <;> decide

/-- The types whose values can be computed with. -/
def isNumeric : Ty → Bool
  | .int | .float => true
  | .str | .bool => false

/-- The type of `left op right`, if the operands can be combined. Both must be
    numeric. A quotient is a `float` whatever its operands are, and so is a
    result with a `float` operand; only integers under `+ - *` stay integers. -/
def arith? (op : ArithOp) (left right : Ty) : Option Ty :=
  if left.isNumeric && right.isNumeric then
    some (if op = .div ∨ left = .float ∨ right = .float then .float else .int)
  else
    none

/-- Whether values of two types can be ordered: two numbers, or two booleans. -/
def comparable (left right : Ty) : Bool :=
  (left.isNumeric && right.isNumeric) || (left == .bool && right == .bool)

end Ty

end Scriptlet
