import Scriptlet.Parse.Basic

/-!
# Parsing Expressions

The rules of arithmetic, from the outside in:

    sum    := term (("+" | "-") term)*
    term   := factor (("*" | "/") factor)*
    factor := ("+" | "-") factor | INTEGER | NAME | "(" sum ")"

Strings and truth values are no operands. They stand alone as a whole value, or
as the left side of a condition:

    value     := STRING | BOOL | sum
    condition := BOOL | (BOOL | sum) ("<" | ">") sum

Signs and parentheses nest, and what is inside them is parsed one level further
in. Each rule is given the parser to use there. The levels that a factor is
given bound the recursion; the count of what is open runs out before they do.

## Main definitions

* `Parser.factor`: A factor, with a number of levels to spend.
* `Parser.value`: What can be assigned or printed.
* `Parser.condition`: What can decide a branch.
-/

namespace Scriptlet

/-- The operator of a sum that a token is. -/
def Token.additive? : Token → Option ArithOp
  | .mark .plus => some .add
  | .mark .minus => some .sub
  | _ => none

/-- The operator of a term that a token is. -/
def Token.multiplicative? : Token → Option ArithOp
  | .mark .star => some .mul
  | .mark .slash => some .div
  | _ => none

/-- The comparison that a token is. -/
def Token.order? : Token → Option Order
  | .mark .less => some .less
  | .mark .greater => some .greater
  | _ => none

/-- The sign that a token is. -/
def Token.sign? : Token → Option Sign
  | .mark .plus => some .plus
  | .mark .minus => some .negate
  | _ => none

namespace Parser

/-- A sum of terms over the given factors. -/
def sum (factor : Parser Expr) : Parser Expr :=
  chainLeft (chainLeft factor Token.multiplicative?) Token.additive?

/-- A factor without a sign. Parentheses leave no node. -/
def atom (inner : Parser Expr) : Parser Expr := do
  let lexeme ← peek
  match lexeme.token with
  | .integer value =>
    let passed ← advance
    return .number value passed.line
  | .name name =>
    let passed ← advance
    return .var name passed.line
  | .mark .leftParen =>
    let _ ← advance
    let expr ← nested (sum inner)
    let _ ← eat (.mark .rightParen)
    return expr
  | _ => unexpected "an expression"

/-- A factor whose inner factors are read by `inner`. -/
def factorWith (inner : Parser Expr) : Parser Expr := do
  let lexeme ← peek
  match lexeme.token.sign? with
  | some sign =>
    let passed ← advance
    let operand ← nested inner
    return .signed sign operand passed.line
  | none => atom inner

/-- A factor with `levels` levels to spend, its own among them. -/
def factor : (levels : Nat) → Parser Expr
  | 0 => tooDeep
  | levels + 1 => factorWith (factor levels)

/-- A string, a truth value, or a sum over the given factors. -/
def value (factor : Parser Expr) : Parser Expr := do
  match ← eatString? with
  | some literal => return literal
  | none =>
    match ← eatBool? with
    | some literal => return literal
    | none => sum factor

/-- The rest of a comparison, behind its left side. -/
def comparison (factor : Parser Expr) (left : Expr) : Parser Expr := do
  let lexeme ← peek
  match lexeme.token.order? with
  | some order =>
    let passed ← advance
    let right ← sum factor
    return .compare order left right passed.line
  | none => unexpected "'<' or '>'"

/-- A truth value alone, or one comparison. -/
def condition (factor : Parser Expr) : Parser Expr := do
  match ← eatBool? with
  | some literal =>
    let lexeme ← peek
    match lexeme.token.order? with
    | some _ => comparison factor literal
    | none => return literal
  | none =>
    let left ← sum factor
    comparison factor left

end Parser

end Scriptlet
