import Scriptlet.Ty

/-!
# Programs

The tree that a source text stands for. Every node keeps the line it was read
from, so that a later fault can be placed. Parentheses leave no node: nesting
says what they said.

A block is a list of statements. The program is one, and so are the branches of
a conditional and the body of a function. Two equal blocks can stand at
different places of a program, and what is recorded about one must not be found
for the other, so a block is told apart by its `Site`: the path that leads to
it from the root.

## Main definitions

* `Expr`: Expressions.
* `Statement`, `Block`: Statements and their lists.
* `Site`: Where in a program a block stands.
* `Block.exprLines`, `Block.braceEnds`: The walks over a program in source
  order.
-/

namespace Scriptlet

/-- A value that is written out and is not a number. -/
inductive Literal where
  | str (content : String)
  | bool (value : Bool)
  deriving DecidableEq, Repr

/-- An expression. -/
inductive Expr where
  | number (value : Int64) (line : Nat)
  | literal (value : Literal) (line : Nat)
  | var (name : String) (line : Nat)
  | arith (op : ArithOp) (left right : Expr) (line : Nat)
  | signed (sign : Sign) (operand : Expr) (line : Nat)
  | compare (order : Order) (left right : Expr) (line : Nat)
  deriving DecidableEq, Repr

/-- A parameter of a function. -/
structure Param where
  name : String
  ty : Ty
  line : Nat
  deriving DecidableEq, Repr

mutual

/-- A statement. An assignment with a type declares its name, one without
    assigns to it anew. -/
inductive Statement where
  | assign (name : String) (declared : Option Ty) (value : Expr) (line : Nat)
  | branch (condition : Expr) (whenTrue : Block) (whenFalse : Option Block) (line : Nat)
  | function (name : String) (params : List Param) (body : Block) (line : Nat)
  | print (value : Expr) (line : Nat)
  | empty

/-- Statements in the order in which they are run. -/
inductive Block where
  | mk (statements : List Statement) (line : Nat)

end

/-- The statements of a block. -/
def Block.statements : Block → List Statement
  | .mk statements _ => statements

/-- The line of the first token of a block. -/
def Block.line : Block → Nat
  | .mk _ line => line

/-- The part of a statement that a block is. -/
inductive BlockRole where
  | whenTrue
  | whenFalse
  | body
  deriving DecidableEq, Repr

/-- Where a block stands: it is a whole program, or a part of the statement
    with a given index in the block at `parent`. Programs are told apart by a
    number, so that blocks of different programs stand at different sites. -/
inductive Site where
  | root (program : Nat)
  | inside (parent : Site) (index : Nat) (role : BlockRole)
  deriving DecidableEq, Repr

/-- The line of an expression. -/
def Expr.line : Expr → Nat
  | .number _ line => line
  | .literal _ line => line
  | .var _ line => line
  | .arith _ _ _ line => line
  | .signed _ _ line => line
  | .compare _ _ _ line => line

/-- Whether a statement ends in a closing brace, so that the next one needs no
    separator. -/
def Statement.endsInBrace : Statement → Bool
  | .branch .. | .function .. => true
  | .assign .. | .print .. | .empty => false

/-- The lines of an expression and its parts, each node before its operands and
    the left operand before the right. -/
def Expr.lines : Expr → List Nat
  | .number _ line | .literal _ line | .var _ line => [line]
  | .arith _ left right line => line :: (left.lines ++ right.lines)
  | .signed _ operand line => line :: operand.lines
  | .compare _ left right line => line :: (left.lines ++ right.lines)

mutual

/-- The lines of the expressions of a statement, in source order. -/
def Statement.exprLines : Statement → List Nat
  | .assign _ _ value _ => value.lines
  | .branch condition whenTrue whenFalse _ =>
    condition.lines ++ whenTrue.exprLines ++
      match whenFalse with
      | some block => block.exprLines
      | none => []
  | .function _ _ body _ => body.exprLines
  | .print value _ => value.lines
  | .empty => []

/-- The lines of the expressions of a block, in source order. -/
def Block.exprLines : Block → List Nat
  | .mk statements _ => exprLinesOfList statements

/-- The lines of the expressions of some statements, in source order. -/
def exprLinesOfList : List Statement → List Nat
  | [] => []
  | statement :: rest => statement.exprLines ++ exprLinesOfList rest

end

mutual

/-- Which statements end in a brace: this one, and then those inside it. -/
def Statement.braceEnds (statement : Statement) : List Bool :=
  statement.endsInBrace :: match statement with
    | .branch _ whenTrue whenFalse _ =>
      whenTrue.braceEnds ++
        match whenFalse with
        | some block => block.braceEnds
        | none => []
    | .function _ _ body _ => body.braceEnds
    | .assign .. | .print .. | .empty => []

/-- Which statements of a block end in a brace, in source order. -/
def Block.braceEnds : Block → List Bool
  | .mk statements _ => braceEndsOfList statements

/-- Which of some statements end in a brace, in source order. -/
def braceEndsOfList : List Statement → List Bool
  | [] => []
  | statement :: rest => statement.braceEnds ++ braceEndsOfList rest

end

end Scriptlet
