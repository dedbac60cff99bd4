import Scriptlet.Parse.Expression

/-!
# Parsing Statements

The rules of statements and their lists:

    program    := list EOF
    list       := statement (separator statement)*
    statement  := assignment | print | branch | function | nothing
    assignment := NAME (":" TYPE)? "=" value
    print      := "print" "(" value ")"
    branch     := "if" "(" condition ")" block ("else" block)?
    function   := "func" NAME "(" (param ("," param)*)? ")" block
    param      := NAME ":" TYPE
    block      := "{" list "}"

A separator is a semicolon. It can be left out behind a statement that ends in
a brace, if the token that follows can only start another statement. A list
goes on as long as it can, and whoever asked for it says what may come next.

## Main definitions

* `Parser.statements`: A statement list, with a number of levels to spend.
* `Parser.program`: A whole program.
* `parse`: The program that a source text is.
-/

namespace Scriptlet

/-- Whether a token can only start a statement. -/
def Token.startsStatement : Token → Bool
  | .name _ => true
  | .keyword .print | .keyword .cond | .keyword .func => true
  | _ => false

namespace Parser

/-- The type of a declaration, behind its name. An assignment gives none, and the
    equals sign stays ahead. -/
def declaredTy : Parser (Option Ty) := do
  let lexeme ← peek
  match lexeme.token with
  | .mark .colon =>
    let _ ← advance
    let ty ← eatTy
    return some ty
  | .mark .equals => return none
  | _ => unexpected "':' or '='"

/-- A declaration or an assignment. -/
def assignment (factor : Parser Expr) : Parser Statement := do
  let (name, line) ← eatName
  let declared ← declaredTy
  let _ ← eat (.mark .equals)
  let assigned ← value factor
  return .assign name declared assigned line

/-- A print statement. -/
def printStatement (factor : Parser Expr) : Parser Statement := do
  let keyword ← eat (.keyword .print)
  let _ ← eat (.mark .leftParen)
  let printed ← value factor
  let _ ← eat (.mark .rightParen)
  return .print printed keyword.line

/-- A conditional. The second block is there exactly if `else` follows the
    first. -/
def branch (factor : Parser Expr) (block : Parser Block) : Parser Statement := do
  let keyword ← eat (.keyword .cond)
  let _ ← eat (.mark .leftParen)
  let decision ← condition factor
  let _ ← eat (.mark .rightParen)
  let whenTrue ← block
  let lexeme ← peek
  if lexeme.token = .keyword .alternative then
    let _ ← advance
    let whenFalse ← block
    return .branch decision whenTrue (some whenFalse) keyword.line
  else
    return .branch decision whenTrue none keyword.line

/-- One parameter. -/
def param : Parser Param := do
  let (name, line) ← eatName
  let _ ← eat (.mark .colon)
  let ty ← eatTy
  return { name, ty, line }

/-- Reads a comma and one more parameter behind those in `done`, which are in
    reverse order, if there is a comma. -/
def paramStep (done : List Param) : Parser (Option (List Param)) := do
  let lexeme ← peek
  if lexeme.token = .mark .comma then
    let _ ← advance
    let next ← param
    return some (next :: done)
  else
    return none

/-- The parameters of a function, up to the closing parenthesis. -/
def params : Parser (List Param) := do
  let lexeme ← peek
  if lexeme.token = .mark .rightParen then
    return []
  else
    let first ← param
    let done ← iterate paramStep [first]
    return done.reverse

/-- A function declaration. -/
def function (block : Parser Block) : Parser Statement := do
  let keyword ← eat (.keyword .func)
  let (name, _) ← eatName
  let _ ← eat (.mark .leftParen)
  let declared ← params
  let _ ← eat (.mark .rightParen)
  let body ← block
  return .function name declared body keyword.line

/-- A statement. A lexeme that starts none stays ahead, behind an empty
    statement. -/
def statement (factor : Parser Expr) (block : Parser Block) : Parser Statement := do
  let lexeme ← peek
  match lexeme.token with
  | .name _ => assignment factor
  | .keyword .print => printStatement factor
  | .keyword .cond => branch factor block
  | .keyword .func => function block
  | _ => return .empty

/-- Reads a separator and one more statement behind those in `done`, which are
    in reverse order, if a separator is there or none is needed. -/
def listStep (statement : Parser Statement) (done : List Statement) :
    Parser (Option (List Statement)) := do
  let lexeme ← peek
  if lexeme.token = .mark .semicolon then
    let _ ← advance
    let next ← statement
    return some (next :: done)
  else if done.head?.any Statement.endsInBrace && lexeme.token.startsStatement then
    let next ← statement
    return some (next :: done)
  else
    return none

/-- Statements up to the first lexeme that can neither separate nor start one.
    The list stands on the line of the first lexeme ahead, even if that is none
    of its own. -/
def list (statement : Parser Statement) : Parser Block := do
  let lexeme ← peek
  let first ← statement
  let done ← iterate (listStep statement) [first]
  return .mk done.reverse lexeme.line

/-- Moves past what has to close a statement list. The end of the input closes a
    program and stays. -/
def listEnd (closing : TokenKind) : Parser Unit := do
  let lexeme ← peek
  if lexeme.token.kind = closing then
    if closing = .eof then
      return ()
    else
      let _ ← advance
      return ()
  else if lexeme.token.startsStatement then
    throw (.grammar (.missingSeparator lexeme.token.describe lexeme.line))
  else
    unexpected ("';' or " ++ closing.describe)

/-- A statement list in braces, one level further in. -/
def braced (list : Parser Block) : Parser Block := do
  let _ ← eat (.mark .leftBrace)
  let block ← nested list
  listEnd (.mark .rightBrace)
  return block

/-- A statement list with `levels` levels to spend, its own among them. -/
def statements : (levels : Nat) → Parser Block
  | 0 => tooDeep
  | levels + 1 => list (statement (factor (levels + 1)) (braced (statements levels)))

/-- A whole program. The program itself is no level, and neither is a factor
    that nothing encloses. -/
def program : Parser Block := do
  let block ← statements (maxNesting + 1)
  listEnd .eof
  return block

end Parser

/-- The program that a source text is, or its first lexical or syntax error. A
    lexical error counts only where a parser comes to it, so a syntax error
    before it comes first. -/
def parse (source : String) : Except ParseError Block :=
  match Parser.new (Cursor.start source) with
  | .error e => .error e
  | .ok state =>
    match Parser.program state with
    | .ok block _ => .ok block
    | .error e _ => .error e

end Scriptlet
