import Scriptlet.Ty

/-!
# Runtime Errors

Why a run stops early. A program that was checked can still divide by zero,
leave the range of its integers, lose precision or fail to write; the other
causes are names and types that checking rules out, and they stay because a
program can also be run unchecked.

## Main definitions

* `RuntimeError`: The cause, with its line.
-/

namespace Scriptlet

/-- Why a run stops early. -/
inductive RuntimeError where
  /-- A zero divisor. -/
  | divisionByZero (line : Nat)
  /-- An integer result outside the range of integers. -/
  | overflow (line : Nat)
  /-- An integer that no real number holds exactly. -/
  | precisionLoss (line : Nat)
  /-- A name without a value. -/
  | unboundName (name : String) (line : Nat)
  /-- A value that is no number, where one is needed. -/
  | expectedNumber (found : Ty) (line : Nat)
  /-- Values that have no order. -/
  | incomparable (left right : Ty) (line : Nat)
  /-- A condition that is no truth value. -/
  | expectedBoolean (found : Ty) (line : Nat)
  /-- Output that could not be written. -/
  | output (reason : String)
  deriving DecidableEq, Repr

/-- The report of a runtime error. -/
def RuntimeError.message : RuntimeError → String
  | .divisionByZero line => s!"Error on line {line}: ArithmeticError: Division by zero."
  | .overflow line =>
    s!"Error on line {line}: ArithmeticError: Integer overflow while trying to compute result."
  | .precisionLoss line =>
    s!"Error on line {line}: ArithmeticError: Integer is too large to convert to float."
  | .unboundName name line =>
    s!"Error on line {line}: NameError: Variable '{name}' is not defined."
  | .expectedNumber found line =>
    s!"Error on line {line}: TypeError: Expected a number, found {found.keyword}."
  | .incomparable left right line =>
    s!"Error on line {line}: TypeError: Cannot compare {left.keyword} and {right.keyword}."
  | .expectedBoolean found line =>
    s!"Error on line {line}: TypeError: Expected a boolean condition, found {found.keyword}."
  | .output reason => s!"failed to write program output: {reason}"

end Scriptlet
