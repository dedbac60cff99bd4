import Scriptlet.Value.Basic

/-!
# Arithmetic on Values

Two integers stay integers under `+ - *`, and the result is exact or refused.
Any other mixture of numbers, and every quotient, is computed on doubles. Where
both operands are at fault the left one is reported.

Comparisons follow the same division: integers and truth values are compared
exactly, mixed numbers as doubles, and a double that is no number has no order
with anything, so that both comparisons are false.

## Main definitions

* `Value.arith`: Applies an arithmetic operator.
* `Value.sign`: Applies a sign.
* `Value.compare`: Applies a comparison.
-/

namespace Scriptlet

/-- The integer of 64 bits that an integer is, if it is in their range. -/
def narrow? (n : Int) : Option Int64 :=
  if -9223372036854775808 ≤ n ∧ n ≤ 9223372036854775807 then some (Int64.ofInt n) else none

namespace Value

/-- An integer result, refused if it is out of range. -/
def exactInt (n : Int) (line : Nat) : Except RuntimeError Value :=
  match narrow? n with
  | some narrowed => .ok (.int narrowed)
  | none => .error (.overflow line)

/-- Applies an arithmetic operator to doubles. Both zeros are zero divisors. -/
def realArith (op : ArithOp) (a b : Float) (line : Nat) : Except RuntimeError Value :=
  match op with
  | .add => .ok (.real (a + b))
  | .sub => .ok (.real (a - b))
  | .mul => .ok (.real (a * b))
  | .div => if b == 0.0 then .error (.divisionByZero line) else .ok (.real (a / b))

/-- Applies an arithmetic operator. -/
def arith (op : ArithOp) (left right : Value) (line : Nat) : Except RuntimeError Value :=
  match op, left, right with
  | .add, .int a, .int b => exactInt (a.toInt + b.toInt) line
  | .sub, .int a, .int b => exactInt (a.toInt - b.toInt) line
  | .mul, .int a, .int b => exactInt (a.toInt * b.toInt) line
  | _, _, _ => do
    -- The left operand is converted first, so its fault wins.
    let a ← left.asReal line
    let b ← right.asReal line
    realArith op a b line

/-- Applies a sign. -/
def sign (sign : Sign) (operand : Value) (line : Nat) : Except RuntimeError Value :=
  match sign, operand with
  | .plus, .int n => .ok (.int n)
  | .plus, .real x => .ok (.real x)
  | .negate, .int n => exactInt (-n.toInt) line
  | .negate, .real x => .ok (.real (-x))
  | _, .str _ | _, .bool _ => .error (.expectedNumber operand.ty line)

/-- The order of two doubles, if they have one. -/
def realOrdering (a b : Float) : Option Ordering :=
  if a < b then some .lt
  else if b < a then some .gt
  else if a == b then some .eq
  else none

/-- The order of two values, if they have one. -/
def ordering (left right : Value) (line : Nat) : Except RuntimeError (Option Ordering) :=
  match left, right with
  | .int a, .int b => .ok (some (Ord.compare a.toInt b.toInt))
  | .bool a, .bool b => .ok (some (Ord.compare a b))
  | _, _ =>
    if left.isNumeric && right.isNumeric then do
      let a ← left.asReal line
      let b ← right.asReal line
      return realOrdering a b
    else
      .error (.incomparable left.ty right.ty line)

/-- The order of operands that makes a comparison true. -/
def wanted : Order → Ordering
  | .less => .lt
  | .greater => .gt

/-- Applies a comparison. -/
def compare (order : Order) (left right : Value) (line : Nat) : Except RuntimeError Value := do
  let found ← ordering left right line
  return .bool (found == some (wanted order))

end Value

end Scriptlet
