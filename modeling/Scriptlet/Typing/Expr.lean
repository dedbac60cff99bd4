import Scriptlet.Scope.Tree
import Scriptlet.Typing.Error

/-!
# Types of Expressions

The type of an expression in a scope, found without evaluating anything. Names
have the type of their nearest declaration. Operands are looked at from left to
right, so of several faults the leftmost is reported, and an operator's own
fault only after both operands have a type.

## Main definitions

* `ScopeTree.variableTy`: The type of a variable.
* `ScopeTree.typeOf`: The type of an expression.
-/

namespace Scriptlet

/-- The type of a literal. -/
def Literal.ty : Literal → Ty
  | .str _ => .str
  | .bool _ => .bool

namespace ScopeTree

/-- The type with which the nearest declaration of a name declares it. A
    function is found like a variable and then refused. -/
def variableTy (tree : ScopeTree) (scope : ScopeId) (name : String) (line : Nat) :
    Except CheckError Ty :=
  match tree.lookup scope name with
  | some (_, .var declared) => .ok declared.ty
  | some (_, .func _) => .error (.notAVariable name line)
  | none => .error (.undefinedVariable name line)

/-- The type of an expression that stands in a scope. -/
def typeOf (tree : ScopeTree) (scope : ScopeId) : Expr → Except CheckError Ty
  | .number _ _ => .ok .int
  | .literal value _ => .ok value.ty
  | .var name line => tree.variableTy scope name line
  | .arith op left right line => do
    let leftTy ← tree.typeOf scope left
    let rightTy ← tree.typeOf scope right
    match Ty.arith? op leftTy rightTy with
    | some ty => .ok ty
    | none => .error (.invalidOperands op.symbol leftTy rightTy line)
  | .signed sign operand line => do
    let ty ← tree.typeOf scope operand
    if ty.isNumeric then .ok ty else .error (.invalidOperand sign.symbol ty line)
  | .compare order left right line => do
    let leftTy ← tree.typeOf scope left
    let rightTy ← tree.typeOf scope right
    if leftTy.comparable rightTy then .ok .bool
    else .error (.invalidOperands order.symbol leftTy rightTy line)

end ScopeTree

end Scriptlet
