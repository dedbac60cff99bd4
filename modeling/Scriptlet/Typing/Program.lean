import Scriptlet.Typing.Expr

/-!
# Checking Programs

One walk over a program that declares its names in a scope tree and refuses it
at the first fault in source order. The scope a statement stands in is passed
down, so what a failing check leaves behind is only the tree with the
declarations and scopes made up to then.

The order of the tests is part of the rules. A declaration types its value,
then compares the types, then takes the name. An assignment finds its target
before it looks at the value. A function opens its scope before it takes its
name, and takes its name before its parameters and body are checked, so the
body can mention the function and is told that it is no variable.

## Main definitions

* `Checker`: A computation that declares and can refuse.
* `checkStatement`, `checkBlock`: The walk.
* `analyze`: The scope tree of a program.
-/

namespace Scriptlet

/-- The declared variable that a parameter is. -/
def Param.symbol (param : Param) : VariableSymbol := ⟨param.name, param.ty⟩

/-- A check that can add to a scope tree. A refusal keeps what was added before
    it. -/
abbrev Checker (α : Type) : Type := EStateM CheckError ScopeTree α

namespace Checker

/-- The type of an expression in the tree so far. -/
def typeOf (scope : ScopeId) (expr : Expr) : Checker Ty := fun tree =>
  match tree.typeOf scope expr with
  | .ok ty => .ok ty tree
  | .error e => .error e tree

/-- The type of a variable in the tree so far. -/
def variableTy (scope : ScopeId) (name : String) (line : Nat) : Checker Ty := fun tree =>
  match tree.variableTy scope name line with
  | .ok ty => .ok ty tree
  | .error e => .error e tree

/-- Declares a symbol, unless its name is taken in that scope. -/
def declare (scope : ScopeId) (symbol : Symbol) (line : Nat) : Checker Unit := fun tree =>
  match tree.insert? scope symbol with
  | some extended => .ok () extended
  | none => .error (.duplicateDeclaration symbol.name line) tree

/-- Opens a scope inside another. -/
def openScope (parent : ScopeId) (name : String) : Checker ScopeId :=
  modifyGet fun tree => tree.push parent name

/-- Opens a scope for the block at a site. -/
def openBlock (parent : ScopeId) (name : String) (site : Site) : Checker ScopeId := do
  let scope ← openScope parent name
  modify fun tree => tree.bindBlock site scope
  return scope

/-- Declares the parameters of a function, in order. -/
def declareParams (scope : ScopeId) : List Param → Checker Unit
  | [] => return ()
  | param :: rest => do
    declare scope (.var param.symbol) param.line
    declareParams scope rest

end Checker

mutual

/-- Checks the statement with an index in the block at a site, in a scope. -/
def checkStatement (scope : ScopeId) (site : Site) (index : Nat) : Statement → Checker Unit
  | .assign name (some declared) value line => do
    let found ← Checker.typeOf scope value
    if found = declared then Checker.declare scope (.var ⟨name, declared⟩) line
    else throw (.invalidAssignment name declared found line)
  | .assign name none value line => do
    let declared ← Checker.variableTy scope name line
    let found ← Checker.typeOf scope value
    if found = declared then return ()
    else throw (.invalidAssignment name declared found line)
  | .branch condition whenTrue whenFalse _ => do
    -- Any type will do here: what a condition can be is a matter of grammar.
    let _ ← Checker.typeOf scope condition
    let trueSite := Site.inside site index .whenTrue
    let trueScope ← Checker.openBlock scope "if" trueSite
    checkBlock trueScope trueSite whenTrue
    match whenFalse with
    | none => return ()
    | some block =>
      let falseSite := Site.inside site index .whenFalse
      let falseScope ← Checker.openBlock scope "else" falseSite
      checkBlock falseScope falseSite block
  | .function name params body line => do
    let bodySite := Site.inside site index .body
    -- The scope is there even if the name turns out to be taken.
    let bodyScope ← Checker.openScope scope name
    Checker.declare scope
      (.func { name, params := params.map Param.symbol, body, site := bodySite,
               scope := bodyScope })
      line
    Checker.declareParams bodyScope params
    checkBlock bodyScope bodySite body
  | .print value _ => do
    let _ ← Checker.typeOf scope value
    return ()
  | .empty => return ()

/-- Checks the statements of the block at a site, in a scope. -/
def checkBlock (scope : ScopeId) (site : Site) : Block → Checker Unit
  | .mk statements _ => checkStatements scope site 0 statements

/-- Checks statements in order, the first of which has the given index. -/
def checkStatements (scope : ScopeId) (site : Site) : Nat → List Statement → Checker Unit
  | _, [] => return ()
  | index, statement :: rest => do
    checkStatement scope site index statement
    checkStatements scope site (index + 1) rest

end

/-- The scope tree of a program, or the first reason to refuse it. -/
def analyze (program : Block) : Except CheckError ScopeTree :=
  match checkBlock globalScope (.root 0) program ScopeTree.initial with
  | .ok _ tree => .ok tree
  | .error e _ => .error e

end Scriptlet
