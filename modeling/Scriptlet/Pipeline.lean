import Scriptlet.Parse.Statement
import Scriptlet.Run.Program
import Scriptlet.Typing.Program

/-!
# From Source to Output

The stages put together. A source is parsed, then checked, and only a program
that passes both is run, so a source that is refused prints nothing. What was
printed before a runtime error stays printed.

## Main definitions

* `Error`: The error of any stage.
* `Error.kind`: Its category.
* `check`: Parses and checks a source.
* `run`: Runs a source into a sink.
* `output`: What a source prints.
* `render`: A source written anew from its tokens.
-/

namespace Scriptlet

/-- The category of an error. -/
inductive ErrorKind where
  | lexical
  | grammar
  | declaration
  | type
  | arithmetic
  | name
  | output
  deriving DecidableEq, Repr

/-- The error of any stage. -/
inductive Error where
  | parse (error : ParseError)
  | check (error : CheckError)
  | runtime (error : RuntimeError)
  deriving DecidableEq, Repr

/-- The category of a lexical or syntax error. -/
def ParseError.kind : ParseError → ErrorKind
  | .lexical _ => .lexical
  | .grammar _ => .grammar

/-- The category of a checking error. -/
def CheckError.kind (error : CheckError) : ErrorKind :=
  if error.isDeclaration then .declaration else .type

/-- The category of a runtime error. -/
def RuntimeError.kind : RuntimeError → ErrorKind
  | .divisionByZero _ | .overflow _ | .precisionLoss _ => .arithmetic
  | .unboundName _ _ => .name
  | .expectedNumber _ _ | .incomparable _ _ _ | .expectedBoolean _ _ => .type
  | .output _ => .output

/-- The category of an error. -/
def Error.kind : Error → ErrorKind
  | .parse error => error.kind
  | .check error => error.kind
  | .runtime error => error.kind

/-- The report of an error. -/
def Error.message : Error → String
  | .parse error => error.message
  | .check error => error.message
  | .runtime error => error.message

/-- The program of a source and its scope tree. -/
def load (source : String) : Except Error (Block × ScopeTree) :=
  match parse source with
  | .error e => .error (.parse e)
  | .ok program =>
    match analyze program with
    | .error e => .error (.check e)
    | .ok scopes => .ok (program, scopes)

/-- Parses and checks a source without running it. -/
def check (source : String) : Except Error Unit := (load source).map fun _ => ()

/-- Runs a checked program from the start. -/
def execute (program : Block) (scopes : ScopeTree) (sink : Sink) :
    EStateM.Result RuntimeError Context Unit :=
  runBlock (.root 0) program (Context.start scopes sink)

/-- Runs a source, and gives the sink with what was printed. -/
def run (source : String) (sink : Sink) : Except Error Unit × Sink :=
  match load source with
  | .error e => (.error e, sink)
  | .ok (program, scopes) =>
    match execute program scopes sink with
    | .ok _ context => (.ok (), context.sink)
    | .error e context => (.error (.runtime e), context.sink)

/-- All that a source prints. -/
def output (source : String) : Except Error String :=
  let (result, sink) := run source .unbounded
  result.map fun _ => sink.text?.getD ""

/-- The text of some tokens, with one blank between two of them. -/
def renderTokens (tokens : List Token) : String :=
  " ".intercalate (tokens.map Token.text)

/-- A source written anew from its tokens. -/
def render (source : String) : Except LexicalError String :=
  (tokenize source).map fun lexemes => renderTokens (lexemes.map Lexeme.token)

/-- Whether two sources have the same tokens, whatever stands between them. -/
def sameTokens (a b : String) : Except LexicalError Bool := do
  let left ← tokenize a
  let right ← tokenize b
  return left.map Lexeme.token == right.map Lexeme.token

end Scriptlet
