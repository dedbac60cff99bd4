import Scriptlet.Lexeme.Basic
import Scriptlet.Program

/-!
# The Grammar

Which lexemes are a program, and which program they are. Each rule is a
relation between a phrase and the tree it stands for, and says nothing of how
one could find the tree. Operators of one precedence group from the left, so
those rules recur on their left; signs recur on their right. Parentheses leave
no node, and every node stands on the line of the lexeme that makes it.

Signs, parentheses and braces can be opened only so deep. A rule is told how
many more of them may be opened, and the rules that open one spend one. What
stands side by side is told the same number, so it is nesting that counts.

A semicolon separates two statements. Behind a statement that ends in a brace
it may be left out, if the next statement is not empty, and then that statement
shows itself by its first token.

## Main definitions

* `IsFactor`, `IsTerm`, `IsSum`: Arithmetic.
* `IsValue`, `IsCondition`: What is assigned or printed, and what decides.
* `IsStatement`, `IsList`, `IsBraced`: Statements, their lists, and lists in
  braces.
* `IsProgram`: A whole program.
-/

namespace Scriptlet.Grammar

/-- The operators of a sum. -/
inductive SumOp : Token → ArithOp → Prop where
  | plus : SumOp (.mark .plus) .add
  | minus : SumOp (.mark .minus) .sub

/-- The operators of a term. -/
inductive TermOp : Token → ArithOp → Prop where
  | star : TermOp (.mark .star) .mul
  | slash : TermOp (.mark .slash) .div

/-- The prefix operators. -/
inductive SignOf : Token → Sign → Prop where
  | plus : SignOf (.mark .plus) .plus
  | minus : SignOf (.mark .minus) .negate

/-- The comparisons. -/
inductive OrderOf : Token → Order → Prop where
  | less : OrderOf (.mark .less) .less
  | greater : OrderOf (.mark .greater) .greater

mutual

/-- A phrase is a factor, with some more levels to open inside it:
    `factor := ("+" | "-") factor | INTEGER | "(" sum ")" | NAME`. -/
inductive IsFactor : Nat → List Lexeme → Expr → Prop where
  | integer {levels : Nat} {lexeme : Lexeme} {value : Int64}
      (token : lexeme.token = .integer value) :
      IsFactor levels [lexeme] (.number value lexeme.line)
  | name {levels : Nat} {lexeme : Lexeme} {name : String} (token : lexeme.token = .name name) :
      IsFactor levels [lexeme] (.var name lexeme.line)
  | signed {levels : Nat} {lexeme : Lexeme} {sign : Sign} {phrase : List Lexeme} {operand : Expr}
      (token : SignOf lexeme.token sign) (inner : IsFactor levels phrase operand) :
      IsFactor (levels + 1) (lexeme :: phrase) (.signed sign operand lexeme.line)
  | parens {levels : Nat} {opening closing : Lexeme} {phrase : List Lexeme} {expr : Expr}
      (opens : opening.token = .mark .leftParen) (inner : IsSum levels phrase expr)
      (closes : closing.token = .mark .rightParen) :
      IsFactor (levels + 1) (opening :: (phrase ++ [closing])) expr

/-- A phrase is a term: `term := factor (("*" | "/") factor)*`. -/
inductive IsTerm : Nat → List Lexeme → Expr → Prop where
  | factor {levels : Nat} {phrase : List Lexeme} {expr : Expr}
      (only : IsFactor levels phrase expr) : IsTerm levels phrase expr
  | more {levels : Nat} {first second : List Lexeme} {lexeme : Lexeme} {op : ArithOp}
      {left right : Expr} (before : IsTerm levels first left) (token : TermOp lexeme.token op)
      (last : IsFactor levels second right) :
      IsTerm levels (first ++ lexeme :: second) (.arith op left right lexeme.line)

/-- A phrase is a sum: `sum := term (("+" | "-") term)*`. -/
inductive IsSum : Nat → List Lexeme → Expr → Prop where
  | term {levels : Nat} {phrase : List Lexeme} {expr : Expr}
      (only : IsTerm levels phrase expr) : IsSum levels phrase expr
  | more {levels : Nat} {first second : List Lexeme} {lexeme : Lexeme} {op : ArithOp}
      {left right : Expr} (before : IsSum levels first left) (token : SumOp lexeme.token op)
      (last : IsTerm levels second right) :
      IsSum levels (first ++ lexeme :: second) (.arith op left right lexeme.line)

end

/-- A phrase is a value: `value := STRING | BOOL | sum`. -/
inductive IsValue (levels : Nat) : List Lexeme → Expr → Prop where
  | string {lexeme : Lexeme} {content : String} (token : lexeme.token = .string content) :
      IsValue levels [lexeme] (.literal (.str content) lexeme.line)
  | bool {lexeme : Lexeme} {flag : Bool} (token : lexeme.token = .bool flag) :
      IsValue levels [lexeme] (.literal (.bool flag) lexeme.line)
  | sum {phrase : List Lexeme} {expr : Expr} (only : IsSum levels phrase expr) :
      IsValue levels phrase expr

/-- A phrase is the left side of a comparison: `BOOL | sum`. -/
inductive IsSide (levels : Nat) : List Lexeme → Expr → Prop where
  | bool {lexeme : Lexeme} {flag : Bool} (token : lexeme.token = .bool flag) :
      IsSide levels [lexeme] (.literal (.bool flag) lexeme.line)
  | sum {phrase : List Lexeme} {expr : Expr} (only : IsSum levels phrase expr) :
      IsSide levels phrase expr

/-- A phrase is a condition: `condition := BOOL | (BOOL | sum) ("<" | ">") sum`. -/
inductive IsCondition (levels : Nat) : List Lexeme → Expr → Prop where
  | bool {lexeme : Lexeme} {flag : Bool} (token : lexeme.token = .bool flag) :
      IsCondition levels [lexeme] (.literal (.bool flag) lexeme.line)
  | compare {first second : List Lexeme} {lexeme : Lexeme} {order : Order} {left right : Expr}
      (side : IsSide levels first left) (token : OrderOf lexeme.token order)
      (other : IsSum levels second right) :
      IsCondition levels (first ++ lexeme :: second) (.compare order left right lexeme.line)

/-- A phrase is a parameter: `param := NAME ":" TYPE`. -/
inductive IsParam : List Lexeme → Param → Prop where
  | mk {lexeme colon word : Lexeme} {name : String} {ty : Ty} (named : lexeme.token = .name name)
      (token : colon.token = .mark .colon) (typed : word.token = .ty ty) :
      IsParam [lexeme, colon, word] { name, ty, line := lexeme.line }

/-- A phrase is some parameters: `params := param ("," param)*`. -/
inductive IsParams : List Lexeme → List Param → Prop where
  | single {phrase : List Lexeme} {param : Param} (only : IsParam phrase param) :
      IsParams phrase [param]
  | more {first second : List Lexeme} {comma : Lexeme} {params : List Param} {param : Param}
      (before : IsParams first params) (token : comma.token = .mark .comma)
      (last : IsParam second param) :
      IsParams (first ++ comma :: second) (params ++ [param])

/-- A phrase is what stands between the parentheses of a function: `params?`. -/
inductive IsSignature : List Lexeme → List Param → Prop where
  | nothing : IsSignature [] []
  | params {phrase : List Lexeme} {params : List Param} (some : IsParams phrase params) :
      IsSignature phrase params

/-- The tokens that start a statement that is not empty: `NAME`, `print`, `if`
    and `func`. -/
inductive Starts : Token → Prop where
  | name (name : String) : Starts (.name name)
  | print : Starts (.keyword .print)
  | cond : Starts (.keyword .cond)
  | func : Starts (.keyword .func)

/-- The statements that end in a brace. -/
inductive Closed : Statement → Prop where
  | branch (condition : Expr) (whenTrue : Block) (whenFalse : Option Block) (line : Nat) :
      Closed (.branch condition whenTrue whenFalse line)
  | function (name : String) (params : List Param) (body : Block) (line : Nat) :
      Closed (.function name params body line)

/-- The line that a statement list stands on: that of its first lexeme, or of
    the lexeme behind it if it has none. -/
def firstLine (phrase : List Lexeme) (behind : Lexeme) : Nat := (phrase.headD behind).line

mutual

/-- A phrase is a statement. -/
inductive IsStatement : Nat → List Lexeme → Statement → Prop where
  | declare {levels : Nat} {lexeme colon word equals : Lexeme} {name : String} {ty : Ty}
      {phrase : List Lexeme} {value : Expr} (named : lexeme.token = .name name)
      (separates : colon.token = .mark .colon) (typed : word.token = .ty ty)
      (token : equals.token = .mark .equals) (valued : IsValue levels phrase value) :
      IsStatement levels (lexeme :: colon :: word :: equals :: phrase)
        (.assign name (some ty) value lexeme.line)
  | assign {levels : Nat} {lexeme equals : Lexeme} {name : String} {phrase : List Lexeme}
      {value : Expr} (named : lexeme.token = .name name) (token : equals.token = .mark .equals)
      (valued : IsValue levels phrase value) :
      IsStatement levels (lexeme :: equals :: phrase) (.assign name none value lexeme.line)
  | print {levels : Nat} {keyword opening closing : Lexeme} {phrase : List Lexeme} {value : Expr}
      (token : keyword.token = .keyword .print) (opens : opening.token = .mark .leftParen)
      (valued : IsValue levels phrase value) (closes : closing.token = .mark .rightParen) :
      IsStatement levels (keyword :: opening :: (phrase ++ [closing]))
        (.print value keyword.line)
  | branch {levels : Nat} {keyword opening closing : Lexeme} {phrase first : List Lexeme}
      {condition : Expr} {whenTrue : Block} (token : keyword.token = .keyword .cond)
      (opens : opening.token = .mark .leftParen) (decides : IsCondition levels phrase condition)
      (closes : closing.token = .mark .rightParen) (block : IsBraced levels first whenTrue) :
      IsStatement levels (keyword :: opening :: (phrase ++ closing :: first))
        (.branch condition whenTrue none keyword.line)
  | choice {levels : Nat} {keyword opening closing alternative : Lexeme}
      {phrase first second : List Lexeme} {condition : Expr} {whenTrue whenFalse : Block}
      (token : keyword.token = .keyword .cond) (opens : opening.token = .mark .leftParen)
      (decides : IsCondition levels phrase condition)
      (closes : closing.token = .mark .rightParen) (block : IsBraced levels first whenTrue)
      (otherwise : alternative.token = .keyword .alternative)
      (other : IsBraced levels second whenFalse) :
      IsStatement levels
        (keyword :: opening :: (phrase ++ closing :: (first ++ alternative :: second)))
        (.branch condition whenTrue (some whenFalse) keyword.line)
  | function {levels : Nat} {keyword lexeme opening closing : Lexeme} {name : String}
      {phrase second : List Lexeme} {params : List Param} {body : Block}
      (token : keyword.token = .keyword .func) (named : lexeme.token = .name name)
      (opens : opening.token = .mark .leftParen) (declares : IsSignature phrase params)
      (closes : closing.token = .mark .rightParen) (block : IsBraced levels second body) :
      IsStatement levels (keyword :: lexeme :: opening :: (phrase ++ closing :: second))
        (.function name params body keyword.line)
  | empty {levels : Nat} : IsStatement levels [] .empty

/-- A phrase is a list of statements: `list := statement (separator statement)*`.
    The separator is a semicolon, or nothing where one statement is seen to end
    and the next is seen to start. -/
inductive IsList : Nat → List Lexeme → List Statement → Prop where
  | single {levels : Nat} {phrase : List Lexeme} {statement : Statement}
      (only : IsStatement levels phrase statement) : IsList levels phrase [statement]
  | separated {levels : Nat} {first second : List Lexeme} {semicolon : Lexeme}
      {statements : List Statement} {statement : Statement}
      (before : IsList levels first statements) (token : semicolon.token = .mark .semicolon)
      (last : IsStatement levels second statement) :
      IsList levels (first ++ semicolon :: second) (statements ++ [statement])
  | adjacent {levels : Nat} {first second : List Lexeme} {lexeme : Lexeme}
      {statements : List Statement} {previous statement : Statement}
      (before : IsList levels first statements)
      (behind : statements.getLast? = some previous) (closed : Closed previous)
      (starts : Starts lexeme.token) (last : IsStatement levels (lexeme :: second) statement) :
      IsList levels (first ++ lexeme :: second) (statements ++ [statement])

/-- A phrase is a list in braces. -/
inductive IsBraced : Nat → List Lexeme → Block → Prop where
  | mk {levels : Nat} {opening closing : Lexeme} {phrase : List Lexeme}
      {statements : List Statement} (opens : opening.token = .mark .leftBrace)
      (inner : IsList levels phrase statements) (closes : closing.token = .mark .rightBrace) :
      IsBraced (levels + 1) (opening :: (phrase ++ [closing]))
        (.mk statements (firstLine phrase closing))

end

/-- Lexemes before the end of the input are a program, in which so many levels
    may be opened. -/
inductive IsProgram (levels : Nat) (eof : Lexeme) : List Lexeme → Block → Prop where
  | mk {phrase : List Lexeme} {statements : List Statement}
      (list : IsList levels phrase statements) :
      IsProgram levels eof phrase (.mk statements (firstLine phrase eof))

end Scriptlet.Grammar
