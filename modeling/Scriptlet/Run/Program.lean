import Scriptlet.Run.Context
import Scriptlet.Value.Arithmetic

/-!
# Running Programs

Evaluation of expressions and execution of statements. Operands are evaluated
from left to right and the first error ends the run; what was bound and printed
before it stays.

A branch runs in a frame of its own, for the scope that checking opened for it,
and the frame is left again whether the branch succeeds or fails. A block for
which no scope is recorded runs in the frame that is there. Function
declarations do nothing when they are run.

## Main definitions

* `Context.eval`: The value of an expression.
* `Run`: A computation that changes a context and can fail.
* `runStatement`, `runBlock`: Execution.
-/

namespace Scriptlet

/-- The value of a name, which has to have one. -/
def Context.read (context : Context) (name : String) (line : Nat) : Except RuntimeError Value :=
  match context.get? name with
  | some value => .ok value
  | none => .error (.unboundName name line)

/-- The value of an expression. -/
def Context.eval (context : Context) : Expr → Except RuntimeError Value
  | .number value _ => .ok (.int value)
  | .literal value _ => .ok (.ofLiteral value)
  | .var name line => context.read name line
  | .arith op left right line => do
    let leftValue ← context.eval left
    let rightValue ← context.eval right
    Value.arith op leftValue rightValue line
  | .signed sign operand line => do
    let value ← context.eval operand
    Value.sign sign value line
  | .compare order left right line => do
    let leftValue ← context.eval left
    let rightValue ← context.eval right
    Value.compare order leftValue rightValue line

/-- A computation that changes a context. A failure keeps what was changed
    before it. -/
abbrev Run (α : Type) : Type := EStateM RuntimeError Context α

namespace Run

/-- The value of an expression in the context so far. -/
def eval (expr : Expr) : Run Value := fun context =>
  match context.eval expr with
  | .ok value => .ok value context
  | .error e => .error e context

/-- Binds a name in the top frame. -/
def declare (name : String) (value : Value) : Run Unit :=
  modify fun context => context.declare name value

/-- Gives a name a new value. -/
def assign (name : String) (value : Value) (line : Nat) : Run Unit := fun context =>
  match context.assign? name value with
  | some changed => .ok () changed
  | none => .error (.unboundName name line) context

/-- Prints a value on a line of its own. -/
def print (value : Value) : Run Unit := fun context =>
  match context.sink.write (value.text ++ "\n") with
  | .ok _ sink => .ok () { context with sink }
  | .error e sink => .error e { context with sink }

/-- Runs a block's statements in a frame for the scope that is recorded for its
    site, and leaves the frame in any case. Without a record the statements run
    in the frame that is there. -/
def inBlock (site : Site) (statements : Run Unit) : Run Unit := fun context =>
  match context.scopes.blockScope? site with
  | none => statements context
  | some scope =>
    match statements (context.enter scope) with
    | .ok _ after => .ok () after.leave
    | .error e after => .error e after.leave

end Run

mutual

/-- Runs the statement with an index in the block at a site. -/
def runStatement (site : Site) (index : Nat) : Statement → Run Unit
  | .assign name (some _) value _ => do
    let assigned ← Run.eval value
    Run.declare name assigned
  | .assign name none value line => do
    let assigned ← Run.eval value
    Run.assign name assigned line
  | .branch condition whenTrue whenFalse line => do
    match ← Run.eval condition with
    | .bool true =>
      let trueSite := Site.inside site index .whenTrue
      Run.inBlock trueSite (runBlock trueSite whenTrue)
    | .bool false =>
      match whenFalse with
      | some block =>
        let falseSite := Site.inside site index .whenFalse
        Run.inBlock falseSite (runBlock falseSite block)
      | none => return ()
    | other => throw (.expectedBoolean other.ty line)
  | .print value _ => do
    let printed ← Run.eval value
    Run.print printed
  | .function .. => return ()
  | .empty => return ()

/-- Runs the statements of the block at a site, in the frame that is there. -/
def runBlock (site : Site) : Block → Run Unit
  | .mk statements _ => runStatements site 0 statements

/-- Runs statements in order, the first of which has the given index. -/
def runStatements (site : Site) : Nat → List Statement → Run Unit
  | _, [] => return ()
  | index, statement :: rest => do
    runStatement site index statement
    runStatements site (index + 1) rest

end

end Scriptlet
