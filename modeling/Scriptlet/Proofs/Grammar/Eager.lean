import Scriptlet.Parse.Statement

/-!
# Parsing Lexemes That Were Read Ahead

What a parser finds depends on the lexemes alone and not on when they are read.
So for all that is said about grammar, the parser here is given the list of
lexemes, and what it has not consumed is its whole state. It has the same
routines. Instead of a count of what is open, it spends the levels that a
routine is given, so that what it does is settled by the list.

The list may end because the source could not be read further. A parser that
wants to look past such an end is `starved`, which is no fault of the grammar:
whoever supplied the list knows what stopped it. A list that ends in the end of
the input starves nobody, because no rule consumes that lexeme.

## Main definitions

* `Eager`: A parser whose state is the list of lexemes ahead.
* `Eager.iterate`: Repeats a step until it declines.
* `Eager.factor`, `Eager.statements`, `Eager.program`: The routines.
* `Scan.input`: The lexemes of a source, as such a parser is given them.
-/

namespace Scriptlet

/-- Why an eager parser stopped. -/
inductive Stop where
  /-- No lexeme is left to look at. -/
  | starved
  /-- The grammar does not allow the lexeme ahead. -/
  | grammar (error : SyntaxError)
  deriving DecidableEq, Repr

/-- A parser that consumes lexemes from the front of a list. -/
abbrev Eager (α : Type) : Type := EStateM Stop (List Lexeme) α

namespace Eager

variable {α : Type}

/-- The lexeme ahead, which stays there. -/
def peek : Eager Lexeme
  | [] => .error .starved []
  | lexeme :: rest => .ok lexeme (lexeme :: rest)

/-- Consumes the lexeme ahead. -/
def advance : Eager Unit := modify List.tail

/-- Fails at the lexeme ahead. -/
def unexpected (expected : String) : Eager α := do
  let lexeme ← peek
  throw (.grammar (.unexpected expected lexeme.token.describe lexeme.line))

/-- Fails at the lexeme ahead because too much is open around it. -/
def tooDeep : Eager α := do
  let lexeme ← peek
  throw (.grammar (.nestingTooDeep maxNesting lexeme.line))

/-- Consumes a lexeme of the given kind. -/
def eat (kind : TokenKind) : Eager Lexeme := do
  let lexeme ← peek
  if lexeme.token.kind = kind then
    advance
    return lexeme
  else
    unexpected kind.describe

/-- Consumes a name, and gives its line too. -/
def eatName : Eager (String × Nat) := do
  let lexeme ← peek
  match lexeme.token with
  | .name name =>
    advance
    return (name, lexeme.line)
  | _ => unexpected TokenKind.name.describe

/-- Consumes a type keyword. -/
def eatTy : Eager Ty := do
  let lexeme ← peek
  match lexeme.token with
  | .ty ty =>
    advance
    return ty
  | _ => unexpected TokenKind.ty.describe

/-- Repeats a step at most once for each entry of `bound`. -/
def iterateWithin (step : α → Eager (Option α)) : (bound : List Lexeme) → α → Eager α
  | [], _ => throw .starved
  | _ :: bound, a => do
    match ← step a with
    | some b => iterateWithin step bound b
    | none => return a

/-- Repeats a step until it declines. A step that goes on has to consume, so
    the lexemes ahead bound the repetitions, and when they are used up the next
    step would find nothing to look at. -/
def iterate (step : α → Eager (Option α)) (a : α) : Eager α :=
  fun lexemes => iterateWithin step lexemes a lexemes

/-- Reads an operator and its right operand behind a left operand, if there is
    an operator. The new node stands on the operator's line. -/
def chainStep (operand : Eager Expr) (op? : Token → Option ArithOp) (left : Expr) :
    Eager (Option Expr) := do
  let lexeme ← peek
  match op? lexeme.token with
  | none => return none
  | some op =>
    advance
    let right ← operand
    return some (.arith op left right lexeme.line)

/-- Operands joined by operators of one precedence, grouped from the left. -/
def chainLeft (operand : Eager Expr) (op? : Token → Option ArithOp) : Eager Expr := do
  let first ← operand
  iterate (chainStep operand op?) first

/-! ### Expressions -/

/-- A sum of terms over the given factors. -/
def sum (factor : Eager Expr) : Eager Expr :=
  chainLeft (chainLeft factor Token.multiplicative?) Token.additive?

/-- A factor whose inner factors are read by `inner`. Parentheses leave no
    node. -/
def factorWith (inner : Eager Expr) : Eager Expr := do
  let lexeme ← peek
  match lexeme.token with
  | .mark .plus =>
    advance
    let operand ← inner
    return .signed .plus operand lexeme.line
  | .mark .minus =>
    advance
    let operand ← inner
    return .signed .negate operand lexeme.line
  | .integer value =>
    advance
    return .number value lexeme.line
  | .name name =>
    advance
    return .var name lexeme.line
  | .mark .leftParen =>
    advance
    let expr ← sum inner
    let _ ← eat (.mark .rightParen)
    return expr
  | _ => unexpected "an expression"

/-- A factor with `levels` levels to spend, its own among them. -/
def factor : (levels : Nat) → Eager Expr
  | 0 => tooDeep
  | levels + 1 => factorWith (factor levels)

/-- A string, a truth value, or a sum over the given factors. -/
def value (factor : Eager Expr) : Eager Expr := do
  let lexeme ← peek
  match lexeme.token with
  | .string content =>
    advance
    return .literal (.str content) lexeme.line
  | .bool flag =>
    advance
    return .literal (.bool flag) lexeme.line
  | _ => sum factor

/-- The rest of a comparison, behind its left side. -/
def comparison (factor : Eager Expr) (left : Expr) : Eager Expr := do
  let lexeme ← peek
  match lexeme.token.order? with
  | some order =>
    advance
    let right ← sum factor
    return .compare order left right lexeme.line
  | none => unexpected "'<' or '>'"

/-- A truth value alone, or one comparison. -/
def condition (factor : Eager Expr) : Eager Expr := do
  let lexeme ← peek
  match lexeme.token with
  | .bool flag =>
    advance
    let left := Expr.literal (.bool flag) lexeme.line
    match (← peek).token.order? with
    | some _ => comparison factor left
    | none => return left
  | _ =>
    let left ← sum factor
    comparison factor left

/-! ### Statements -/

/-- A declaration or an assignment. -/
def assignment (factor : Eager Expr) : Eager Statement := do
  let (name, line) ← eatName
  let lexeme ← peek
  match lexeme.token with
  | .mark .colon =>
    advance
    let ty ← eatTy
    let _ ← eat (.mark .equals)
    let assigned ← value factor
    return .assign name (some ty) assigned line
  | .mark .equals =>
    advance
    let assigned ← value factor
    return .assign name none assigned line
  | _ => unexpected "':' or '='"

/-- A print statement. -/
def printStatement (factor : Eager Expr) : Eager Statement := do
  let keyword ← eat (.keyword .print)
  let _ ← eat (.mark .leftParen)
  let printed ← value factor
  let _ ← eat (.mark .rightParen)
  return .print printed keyword.line

/-- A conditional. The second block is there exactly if `else` follows the
    first. -/
def branch (factor : Eager Expr) (block : Eager Block) : Eager Statement := do
  let keyword ← eat (.keyword .cond)
  let _ ← eat (.mark .leftParen)
  let decision ← condition factor
  let _ ← eat (.mark .rightParen)
  let whenTrue ← block
  let lexeme ← peek
  if lexeme.token = .keyword .alternative then
    advance
    let whenFalse ← block
    return .branch decision whenTrue (some whenFalse) keyword.line
  else
    return .branch decision whenTrue none keyword.line

/-- One parameter. -/
def param : Eager Param := do
  let (name, line) ← eatName
  let _ ← eat (.mark .colon)
  let ty ← eatTy
  return { name, ty, line }

/-- Reads a comma and one more parameter behind those in `done`, which are in
    reverse order, if there is a comma. -/
def paramStep (done : List Param) : Eager (Option (List Param)) := do
  let lexeme ← peek
  if lexeme.token = .mark .comma then
    advance
    let next ← param
    return some (next :: done)
  else
    return none

/-- The parameters of a function, up to the closing parenthesis. -/
def params : Eager (List Param) := do
  let lexeme ← peek
  if lexeme.token = .mark .rightParen then
    return []
  else
    let first ← param
    let done ← iterate paramStep [first]
    return done.reverse

/-- A function declaration. -/
def function (block : Eager Block) : Eager Statement := do
  let keyword ← eat (.keyword .func)
  let (name, _) ← eatName
  let _ ← eat (.mark .leftParen)
  let declared ← params
  let _ ← eat (.mark .rightParen)
  let body ← block
  return .function name declared body keyword.line

/-- A statement. A lexeme that starts none stays ahead, behind an empty
    statement. -/
def statement (factor : Eager Expr) (block : Eager Block) : Eager Statement := do
  let lexeme ← peek
  match lexeme.token with
  | .name _ => assignment factor
  | .keyword .print => printStatement factor
  | .keyword .cond => branch factor block
  | .keyword .func => function block
  | _ => return .empty

/-- Reads a separator and one more statement behind those in `done`, which are
    in reverse order, if a separator is there or none is needed. -/
def listStep (statement : Eager Statement) (done : List Statement) :
    Eager (Option (List Statement)) := do
  let lexeme ← peek
  if lexeme.token = .mark .semicolon then
    advance
    let next ← statement
    return some (next :: done)
  else if done.head?.any Statement.endsInBrace && lexeme.token.startsStatement then
    let next ← statement
    return some (next :: done)
  else
    return none

/-- Statements up to the first lexeme that can neither separate nor start one.
    The list stands on the line of the first lexeme ahead, even if that is none
    of its own. -/
def list (statement : Eager Statement) : Eager Block := do
  let lexeme ← peek
  let first ← statement
  let done ← iterate (listStep statement) [first]
  return .mk done.reverse lexeme.line

/-- Consumes what has to close a statement list. The end of the input closes a
    program and stays. -/
def listEnd (closing : TokenKind) : Eager Unit := do
  let lexeme ← peek
  if lexeme.token.kind = closing then
    -- Nobody consumes the end of the input, so it stays ahead.
    if closing = .eof then return () else advance
  else if lexeme.token.startsStatement then
    throw (.grammar (.missingSeparator lexeme.token.describe lexeme.line))
  else
    unexpected ("';' or " ++ closing.describe)

/-- A statement list in braces. -/
def braced (list : Eager Block) : Eager Block := do
  let _ ← eat (.mark .leftBrace)
  let block ← list
  listEnd (.mark .rightBrace)
  return block

/-- A statement list with `levels` levels to spend, its own among them. -/
def statements : (levels : Nat) → Eager Block
  | 0 => tooDeep
  | levels + 1 => list (statement (factor (levels + 1)) (braced (statements levels)))

/-- A whole program. The program itself is no level, and neither is a factor
    that nothing encloses. -/
def program : Eager Block := do
  let block ← statements (maxNesting + 1)
  listEnd .eof
  return block

end Eager

/-- The lexemes of a scan, with the end of the input if it was reached. -/
def Scan.input (scan : Scan) : List Lexeme :=
  match scan.ending with
  | .ok eof => scan.lexemes ++ [eof]
  | .error _ => scan.lexemes

end Scriptlet
