import Scriptlet.Ty

/-!
# Checking Errors

Why a program is refused before it runs. A declaration error is about a name
that is missing or already taken; a type error is about a value where another
type, or no value, was due.

## Main definitions

* `CheckError`: The cause, with its line.
* `CheckError.isDeclaration`: Which of the two groups it is in.
-/

namespace Scriptlet

/-- Why a program is refused. -/
inductive CheckError where
  /-- A name that no enclosing scope declares. -/
  | undefinedVariable (name : String) (line : Nat)
  /-- A name that its scope already declares. -/
  | duplicateDeclaration (name : String) (line : Nat)
  /-- A value of another type than the variable was declared with. -/
  | invalidAssignment (name : String) (declared found : Ty) (line : Nat)
  /-- Operands that a binary operator does not take. -/
  | invalidOperands (symbol : String) (left right : Ty) (line : Nat)
  /-- An operand that a sign does not take. -/
  | invalidOperand (symbol : String) (operand : Ty) (line : Nat)
  /-- A function where a variable is needed. -/
  | notAVariable (name : String) (line : Nat)
  deriving DecidableEq, Repr

namespace CheckError

/-- Whether the error is about a declaration. -/
def isDeclaration : CheckError → Bool
  | .undefinedVariable .. | .duplicateDeclaration .. => true
  | .invalidAssignment .. | .invalidOperands .. | .invalidOperand .. | .notAVariable .. => false

/-- The line the error is reported on. -/
def line : CheckError → Nat
  | .undefinedVariable _ line => line
  | .duplicateDeclaration _ line => line
  | .invalidAssignment _ _ _ line => line
  | .invalidOperands _ _ _ line => line
  | .invalidOperand _ _ line => line
  | .notAVariable _ line => line

/-- The report of the error. -/
def message : CheckError → String
  | .undefinedVariable name line =>
    s!"Error on line {line}: DeclarationError: Variable not defined: '{name}'."
  | .duplicateDeclaration name line =>
    s!"Error on line {line}: DeclarationError: Duplicate assignment of '{name}'."
  | .invalidAssignment name declared found line =>
    s!"Error on line {line}: TypeError: Invalid assignment to '{name}': " ++
      s!"expected {declared.keyword}, found {found.keyword}."
  | .invalidOperands symbol left right line =>
    s!"Error on line {line}: TypeError: Cannot use '{symbol}' on " ++
      s!"{left.keyword} and {right.keyword}."
  | .invalidOperand symbol operand line =>
    s!"Error on line {line}: TypeError: Cannot use unary '{symbol}' on {operand.keyword}."
  | .notAVariable name line =>
    s!"Error on line {line}: TypeError: '{name}' is a function, not a variable."

end CheckError

end Scriptlet
