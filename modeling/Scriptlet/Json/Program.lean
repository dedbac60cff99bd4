import Scriptlet.Json.Basic
import Scriptlet.Parse.Statement

/-!
# Tokens and Programs as Documents

How lexemes and programs are shown as JSON. An alternative without content is
shown as its name, one with content as a record whose only field has that name.
What is missing is shown as `null`, so that every node of a kind has the same
fields.

## Main definitions

* `Lexeme.toJson`: A lexeme with its span and line.
* `Block.toJson`: A program.
-/

namespace Scriptlet

/-- A type is shown as its keyword. -/
def Ty.toJson (ty : Ty) : Json := .str ty.keyword

/-- The name under which a mark is shown. -/
def Mark.label : Mark → String
  | .plus => "Plus"
  | .minus => "Minus"
  | .star => "Star"
  | .slash => "Slash"
  | .equals => "Equals"
  | .less => "Less"
  | .greater => "Greater"
  | .leftParen => "LParen"
  | .rightParen => "RParen"
  | .leftBrace => "LBrace"
  | .rightBrace => "RBrace"
  | .colon => "Colon"
  | .semicolon => "Semicolon"
  | .comma => "Comma"

/-- The name under which a keyword is shown. -/
def Keyword.label : Keyword → String
  | .cond => "If"
  | .alternative => "Else"
  | .print => "Print"
  | .func => "Func"

/-- The name under which an arithmetic operator is shown. -/
def ArithOp.label : ArithOp → String
  | .add => "Add"
  | .sub => "Sub"
  | .mul => "Mul"
  | .div => "Div"

/-- The name under which a sign is shown. -/
def Sign.label : Sign → String
  | .plus => "Plus"
  | .negate => "Negate"

/-- The name under which a comparison is shown. -/
def Order.label : Order → String
  | .less => "Less"
  | .greater => "Greater"

/-- A token as a document. -/
def Token.toJson : Token → Json
  | .integer value => .tagged "Integer" (.int value.toInt)
  | .string content => .tagged "Str" (.str content)
  | .bool value => .tagged "Bool" (.bool value)
  | .name n => .tagged "Identifier" (.str n)
  | .ty t => .tagged "Type" t.toJson
  | .mark m => .str m.label
  | .keyword k => .str k.label
  | .eof => .str "Eof"

/-- A lexeme as a document. -/
def Lexeme.toJson (lexeme : Lexeme) : Json :=
  .record
    [("token", lexeme.token.toJson),
      ("span", .record [("start", .nat lexeme.span.start), ("end", .nat lexeme.span.stop)]),
      ("line", .nat lexeme.line)]

/-- A literal as a document. -/
def Literal.toJson : Literal → Json
  | .str content => .tagged "Str" (.str content)
  | .bool value => .tagged "Bool" (.bool value)

/-- An expression as a document. -/
def Expr.toJson : Expr → Json
  | .number value line =>
    .tagged "Number" (.record [("value", .int value.toInt), ("line", .nat line)])
  | .literal value line =>
    .tagged "Literal" (.record [("value", value.toJson), ("line", .nat line)])
  | .var name line => .tagged "Var" (.record [("name", .str name), ("line", .nat line)])
  | .arith op left right line =>
    .tagged "BinOp" (.record
      [("left", left.toJson), ("op", .str op.label), ("right", right.toJson),
        ("line", .nat line)])
  | .signed sign operand line =>
    .tagged "UnaryOp" (.record
      [("op", .str sign.label), ("expr", operand.toJson), ("line", .nat line)])
  | .compare order left right line =>
    .tagged "Comparison" (.record
      [("left", left.toJson), ("op", .str order.label), ("right", right.toJson),
        ("line", .nat line)])

/-- A parameter as a document. -/
def Param.toJson (param : Param) : Json :=
  .record [("name", .str param.name), ("type_tag", param.ty.toJson), ("line", .nat param.line)]

mutual

/-- A statement as a document. -/
def Statement.toJson : Statement → Json
  | .assign name declared value line =>
    .tagged "Assign" (.record
      [("name", .str name), ("declared_type", (declared.map Ty.toJson).getD .null),
        ("value", value.toJson), ("line", .nat line)])
  | .branch condition whenTrue whenFalse line =>
    .tagged "If" (.record
      [("condition", condition.toJson), ("then_block", whenTrue.toJson),
        ("else_block",
          match whenFalse with
          | some block => block.toJson
          | none => .null),
        ("line", .nat line)])
  | .function name params body line =>
    .tagged "FuncDecl" (.record
      [("name", .str name), ("params", .list (params.map Param.toJson)), ("body", body.toJson),
        ("line", .nat line)])
  | .print value line => .tagged "Print" (.record [("expr", value.toJson), ("line", .nat line)])
  | .empty => .str "Empty"

/-- A block as a document. -/
def Block.toJson : Block → Json
  | .mk statements line =>
    .record [("statements", .list (jsonOfStatements statements)), ("line", .nat line)]

/-- Statements as documents. -/
def jsonOfStatements : List Statement → List Json
  | [] => []
  | statement :: rest => statement.toJson :: jsonOfStatements rest

end

end Scriptlet
