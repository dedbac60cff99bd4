import Scriptlet.Typing.Program

/-!
# Analyzers

A checker that is kept from one program to the next. It owns the tree that it
builds and stands in one scope of it, where it looks names up and declares
them. For a branch or the body of a function it moves to the scope it opens
there, and moves back when that is done, whether it passed or not. So whatever
is refused, the next program is checked where the last one was.

The steps are those of the checker of programs, each taken in the scope in
which the analyzer stands.

## Main definitions

* `Analyzer`: A tree and the scope that is current.
* `Visit`: A computation of an analyzer.
* `Visit.inside`: Moves into a scope and back.
* `visitStatement`, `visitBlock`: The walk.
-/

namespace Scriptlet

/-- A scope tree under construction, and the scope in which names are looked up
    and declared. -/
structure Analyzer where
  scopes : ScopeTree
  current : ScopeId

namespace Analyzer

/-- An analyzer that has seen nothing and stands in the global scope. -/
def fresh : Analyzer := { scopes := .initial, current := globalScope }

/-- The type of an expression in the current scope. -/
def typeOf (analyzer : Analyzer) (expr : Expr) : Except CheckError Ty :=
  analyzer.scopes.typeOf analyzer.current expr

end Analyzer

/-- A computation of an analyzer. A refusal keeps what was added before it. -/
abbrev Visit (α : Type) : Type := EStateM CheckError Analyzer α

namespace Visit

/-- Takes a step of a checker in the current scope. -/
def here {α : Type} (step : ScopeId → Checker α) : Visit α := fun analyzer =>
  match step analyzer.current analyzer.scopes with
  | .ok a scopes => .ok a { analyzer with scopes }
  | .error e scopes => .error e { analyzer with scopes }

/-- Moves to a scope for some steps, and back afterwards in any case. -/
def inside (scope : ScopeId) (steps : Visit Unit) : Visit Unit := fun analyzer =>
  match steps { analyzer with current := scope } with
  | .ok _ after => .ok () { after with current := analyzer.current }
  | .error e after => .error e { after with current := analyzer.current }

end Visit

mutual

/-- Checks the statement with an index in the block at a site, in the current
    scope. -/
def visitStatement (site : Site) (index : Nat) : Statement → Visit Unit
  | .assign name (some declared) value line => do
    let found ← Visit.here fun scope => Checker.typeOf scope value
    if found = declared then
      Visit.here fun scope => Checker.declare scope (.var ⟨name, declared⟩) line
    else throw (.invalidAssignment name declared found line)
  | .assign name none value line => do
    let declared ← Visit.here fun scope => Checker.variableTy scope name line
    let found ← Visit.here fun scope => Checker.typeOf scope value
    if found = declared then return ()
    else throw (.invalidAssignment name declared found line)
  | .branch condition whenTrue whenFalse _ => do
    let _ ← Visit.here fun scope => Checker.typeOf scope condition
    let trueSite := Site.inside site index .whenTrue
    let trueScope ← Visit.here fun scope => Checker.openBlock scope "if" trueSite
    Visit.inside trueScope (visitBlock trueSite whenTrue)
    match whenFalse with
    | none => return ()
    | some block =>
      let falseSite := Site.inside site index .whenFalse
      let falseScope ← Visit.here fun scope => Checker.openBlock scope "else" falseSite
      Visit.inside falseScope (visitBlock falseSite block)
  | .function name params body line => do
    let bodySite := Site.inside site index .body
    let bodyScope ← Visit.here fun scope => Checker.openScope scope name
    Visit.here fun scope => Checker.declare scope
      (.func { name, params := params.map Param.symbol, body, site := bodySite,
               scope := bodyScope })
      line
    -- The name is taken before the move, the parameters behind it.
    Visit.inside bodyScope do
      Visit.here fun scope => Checker.declareParams scope params
      visitBlock bodySite body
  | .print value _ => do
    let _ ← Visit.here fun scope => Checker.typeOf scope value
    return ()
  | .empty => return ()

/-- Checks the statements of the block at a site, in the current scope. -/
def visitBlock (site : Site) : Block → Visit Unit
  | .mk statements _ => visitStatements site 0 statements

/-- Checks statements in order, the first of which has the given index. -/
def visitStatements (site : Site) : Nat → List Statement → Visit Unit
  | _, [] => return ()
  | index, statement :: rest => do
    visitStatement site index statement
    visitStatements site (index + 1) rest

end

end Scriptlet
