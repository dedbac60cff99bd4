import Scriptlet.Lexeme.Cursor
import Scriptlet.Program

/-!
# Parsers

A parser holds one lexeme and decides by it alone. It reads the lexeme behind
that one when it moves past it and not before, so a lexical error counts only if
the parser gets that far. A parser that fails stays at the lexeme it failed at.

It also counts what is open around it. A routine that goes one level further in
has the level counted and, however it ends, taken back.

## Main definitions

* `SyntaxError`, `ParseError`: Why a source is no program.
* `Parser.State`: The lexeme ahead, what is behind it and what is open.
* `Parser`: A computation that moves ahead in a source.
* `Parser.new`, `Parser.advance`: The first lexeme, and every next one.
* `Parser.nested`: Goes one level further in.
* `Parser.iterate`: Repeats a step until it declines.
* `Parser.chainLeft`: Operands joined by left-associative operators.
-/

namespace Scriptlet

/-- How deep signs, parentheses and braced blocks may nest. -/
def maxNesting : Nat := 128

/-- Why lexemes are no program. -/
inductive SyntaxError where
  /-- A lexeme that no rule allows where it stands. -/
  | unexpected (expected found : String) (line : Nat)
  /-- A statement that starts where a separator was due. -/
  | missingSeparator (found : String) (line : Nat)
  /-- More open constructs than are allowed. -/
  | nestingTooDeep (limit line : Nat)
  deriving DecidableEq, Repr

/-- The report of a syntax error. -/
def SyntaxError.message : SyntaxError → String
  | .unexpected expected found line =>
    s!"Error on line {line}: SyntaxError: Expected {expected}, found {found}."
  | .missingSeparator found line =>
    s!"Error on line {line}: SyntaxError: Expected ';' before {found}."
  | .nestingTooDeep limit line =>
    s!"Error on line {line}: SyntaxError: Nesting deeper than {limit} levels."

/-- Why a source text is no program. -/
inductive ParseError where
  | lexical (error : LexicalError)
  | grammar (error : SyntaxError)
  deriving DecidableEq, Repr

/-- The report of a parse error. -/
def ParseError.message : ParseError → String
  | .lexical error => error.message
  | .grammar error => error.message

/-- Where a parser is. -/
structure Parser.State where
  /-- The place behind the lexeme ahead, from which the next one is read. -/
  lexer : Cursor
  /-- The lexeme ahead. -/
  current : Lexeme
  /-- How many constructs are open. -/
  depth : Nat

/-- A parser moves ahead in a source, or fails. -/
abbrev Parser (α : Type) : Type := EStateM ParseError Parser.State α

namespace Parser

variable {α : Type}

/-- Reads the first lexeme from a cursor on. Nothing is open yet. -/
def new (lexer : Cursor) : Except ParseError State :=
  match lexer.next with
  | (.ok current, lexer) => .ok { lexer, current, depth := 0 }
  | (.error e, _) => .error (.lexical e)

/-- The lexeme ahead, which stays there. -/
def peek : Parser Lexeme := State.current <$> get

/-- Moves past the lexeme ahead and gives it. The next one has to be read for
    that. -/
def advance : Parser Lexeme := fun state =>
  match state.lexer.next with
  | (.ok next, lexer) => .ok state.current { state with lexer, current := next }
  | (.error e, lexer) => .error (.lexical e) { state with lexer }

/-- Fails at the lexeme ahead. -/
def unexpected (expected : String) : Parser α := do
  let lexeme ← peek
  throw (.grammar (.unexpected expected lexeme.token.describe lexeme.line))

/-- Fails at the lexeme ahead because too much is open around it. -/
def tooDeep : Parser α := do
  let lexeme ← peek
  throw (.grammar (.nestingTooDeep maxNesting lexeme.line))

/-- Runs a parser one level further in, if one more may be open. The level is
    taken back when the parser is done, and also when it fails. -/
def nested (inner : Parser α) : Parser α := fun state =>
  if maxNesting ≤ state.depth then
    tooDeep state
  else
    match inner { state with depth := state.depth + 1 } with
    | .ok a after => .ok a { after with depth := after.depth - 1 }
    | .error e after => .error e { after with depth := after.depth - 1 }

/-- Moves past a lexeme of the given kind. -/
def eat (kind : TokenKind) : Parser Lexeme := do
  let lexeme ← peek
  if lexeme.token.kind = kind then
    advance
  else
    unexpected kind.describe

/-- Moves past a name, and gives its line too. -/
def eatName : Parser (String × Nat) := do
  let lexeme ← peek
  match lexeme.token with
  | .name name =>
    let _ ← advance
    return (name, lexeme.line)
  | _ => unexpected TokenKind.name.describe

/-- Moves past a type keyword. -/
def eatTy : Parser Ty := do
  let lexeme ← peek
  match lexeme.token with
  | .ty ty =>
    let _ ← advance
    return ty
  | _ => unexpected TokenKind.ty.describe

/-- Moves past a string, if one is ahead. -/
def eatString? : Parser (Option Expr) := do
  let lexeme ← peek
  match lexeme.token with
  | .string content =>
    let passed ← advance
    return some (.literal (.str content) passed.line)
  | _ => return none

/-- Moves past a truth value, if one is ahead. -/
def eatBool? : Parser (Option Expr) := do
  let lexeme ← peek
  match lexeme.token with
  | .bool flag =>
    let passed ← advance
    return some (.literal (.bool flag) passed.line)
  | _ => return none

/-- How much is ahead: the characters that were not read, and the lexeme that
    was, unless it is the end of the input. -/
def State.ahead (state : State) : Nat :=
  state.lexer.rest.length + if state.current.token = .eof then 0 else 1

/-- Repeats a step until it declines. A step that goes on has moved ahead, so
    less is left for the next one. -/
def iterate (step : α → Parser (Option α)) (a : α) : Parser α := fun state =>
  match step a state with
  | .error e after => .error e after
  | .ok none after => .ok a after
  | .ok (some b) after =>
    if after.ahead < state.ahead then iterate step b after else .ok b after
termination_by state => state.ahead

/-- Reads an operator and its right operand behind a left operand, if there is
    an operator. The new node stands on the operator's line. -/
def chainStep (operand : Parser Expr) (op? : Token → Option ArithOp) (left : Expr) :
    Parser (Option Expr) := do
  let lexeme ← peek
  match op? lexeme.token with
  | none => return none
  | some op =>
    let passed ← advance
    let right ← operand
    return some (.arith op left right passed.line)

/-- Operands joined by operators of one precedence, grouped from the left. -/
def chainLeft (operand : Parser Expr) (op? : Token → Option ArithOp) : Parser Expr := do
  let first ← operand
  iterate (chainStep operand op?) first

end Parser

end Scriptlet
