import Scriptlet.Proofs.Nest
import Scriptlet.Run.Sink
import Scriptlet.Value.Arithmetic

/-!
# Plain Execution

What a program does, told without scopes. The state is a nest of tables from
names to values, and a sink. Entering a branch puts an empty table inside the
others, and it is dropped behind the branch, also when the branch fails. A
declaration goes to the innermost table; a name is read and assigned in the
innermost table that has it. Nothing has been prepared by a checker, no block
has an identity, and no table knows which block it belongs to.

## Main definitions

* `Plain.State`: The tables and the sink.
* `Plain.eval`: The value of an expression.
* `Plain.runStatement`, `Plain.runStatements`: Execution.
-/

namespace Scriptlet

namespace Plain

/-- The state of a plain run. -/
structure State where
  values : Nest Value
  sink : Sink

/-- One empty table, before anything has run. -/
def State.start (sink : Sink) : State := { values := .single, sink }

/-- A computation that changes the state. A failure keeps what was changed
    before it. -/
abbrev Exec (α : Type) : Type := EStateM RuntimeError State α

/-- The value of an expression. -/
def eval (values : Nest Value) : Expr → Except RuntimeError Value
  | .number value _ => .ok (.int value)
  | .literal value _ => .ok (.ofLiteral value)
  | .var name line =>
    match values.get? name with
    | some value => .ok value
    | none => .error (.unboundName name line)
  | .arith op left right line => do
    let leftValue ← eval values left
    let rightValue ← eval values right
    Value.arith op leftValue rightValue line
  | .signed sign operand line => do
    let value ← eval values operand
    Value.sign sign value line
  | .compare order left right line => do
    let leftValue ← eval values left
    let rightValue ← eval values right
    Value.compare order leftValue rightValue line

/-- The value of an expression in the state so far. -/
def evaluate (expr : Expr) : Exec Value := fun state =>
  match eval state.values expr with
  | .ok value => .ok value state
  | .error e => .error e state

/-- Binds a name in the innermost table. -/
def declare (name : String) (value : Value) : Exec Unit :=
  modify fun state => { state with values := state.values.declare name value }

/-- Gives a name a new value in the innermost table that has it. -/
def assign (name : String) (value : Value) (line : Nat) : Exec Unit := fun state =>
  match state.values.assign? name value with
  | some values => .ok () { state with values }
  | none => .error (.unboundName name line) state

/-- Prints a value on a line of its own. -/
def print (value : Value) : Exec Unit := fun state =>
  match state.sink.write (value.text ++ "\n") with
  | .ok _ sink => .ok () { state with sink }
  | .error e sink => .error e { state with sink }

/-- Runs inside one more table, and drops the table in any case. -/
def inside (statements : Exec Unit) : Exec Unit := fun state =>
  match statements { state with values := state.values.enter } with
  | .ok _ after => .ok () { after with values := after.values.leave }
  | .error e after => .error e { after with values := after.values.leave }

mutual

/-- Runs a statement. -/
def runStatement : Statement → Exec Unit
  | .assign name (some _) value _ => do
    let assigned ← evaluate value
    declare name assigned
  | .assign name none value line => do
    let assigned ← evaluate value
    assign name assigned line
  | .branch condition whenTrue whenFalse line => do
    match ← evaluate condition with
    | .bool true => inside (runBlock whenTrue)
    | .bool false =>
      match whenFalse with
      | some block => inside (runBlock block)
      | none => return ()
    | other => throw (.expectedBoolean other.ty line)
  | .print value _ => do
    let printed ← evaluate value
    print printed
  | .function .. => return ()
  | .empty => return ()

/-- Runs the statements of a block. -/
def runBlock : Block → Exec Unit
  | .mk statements _ => runStatements statements

/-- Runs statements in order. -/
def runStatements : List Statement → Exec Unit
  | [] => return ()
  | statement :: rest => do
    runStatement statement
    runStatements rest

end

/-- Runs a program from the start. -/
def execute (program : Block) (sink : Sink) : EStateM.Result RuntimeError State Unit :=
  runBlock program (State.start sink)

end Plain

end Scriptlet
