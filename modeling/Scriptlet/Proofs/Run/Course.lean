import Scriptlet.Pipeline
import Scriptlet.Proofs.Outcome
import Scriptlet.Proofs.Typing.Course

/-!
# The Course of a Run

The contexts that a run goes through. A run comes to the start of its program;
from a statement that succeeds it goes on to the next; and from a conditional
it goes into the branch that the condition selects, in the context that was
entered for it. A statement that fails leaves a context, too. These are all the
points of a run at which something could be observed, so that a property of all
of them is a property of every moment of the run.

## Main definitions

* `Context.entered`: A context inside the block at a site.
* `RunReaches`: A run comes to a place in a context.
* `Occurs`: A context that a run goes through.

## Theorems

* `occurs_execute`: The context a run ends in is one that it goes through.
-/

namespace Scriptlet

open Outcome

/-- The context in which the statements of the block at a site are run. -/
def Context.entered (context : Context) (site : Site) : Context :=
  match context.scopes.blockScope? site with
  | none => context
  | some scope => context.enter scope

/-- Running a program from a context, the run comes to a place in another. -/
inductive RunReaches (program : Block) (start : Context) : Place → Context → Prop where
  | start : RunReaches program start ⟨.root 0, 0, program.statements⟩ start
  | next {site : Site} {index : Nat} {statement : Statement} {rest : List Statement}
      {context after : Context}
      (here : RunReaches program start ⟨site, index, statement :: rest⟩ context)
      (done : runStatement site index statement context = .ok () after) :
      RunReaches program start ⟨site, index + 1, rest⟩ after
  | whenTrue {site : Site} {index : Nat} {condition : Expr} {block : Block}
      {other : Option Block} {line : Nat} {rest : List Statement} {context : Context}
      (here : RunReaches program start
        ⟨site, index, .branch condition block other line :: rest⟩ context)
      (decided : context.eval condition = .ok (.bool true)) :
      RunReaches program start ⟨.inside site index .whenTrue, 0, block.statements⟩
        (context.entered (.inside site index .whenTrue))
  | whenFalse {site : Site} {index : Nat} {condition : Expr} {whenTrue block : Block}
      {line : Nat} {rest : List Statement} {context : Context}
      (here : RunReaches program start
        ⟨site, index, .branch condition whenTrue (some block) line :: rest⟩ context)
      (decided : context.eval condition = .ok (.bool false)) :
      RunReaches program start ⟨.inside site index .whenFalse, 0, block.statements⟩
        (context.entered (.inside site index .whenFalse))

/-- Running a program from a context, the run goes through another: before or
    after a statement, or as what a failing statement leaves. -/
inductive Occurs (program : Block) (start : Context) : Context → Prop where
  | reached {place : Place} {context : Context}
      (here : RunReaches program start place context) : Occurs program start context
  | failed {site : Site} {index : Nat} {statement : Statement} {rest : List Statement}
      {context after : Context} {e : RuntimeError}
      (here : RunReaches program start ⟨site, index, statement :: rest⟩ context)
      (failure : runStatement site index statement context = .error e after) :
      Occurs program start after

/-- From a place that a run comes to, running what is left there ends in a
    context that the run goes through. -/
theorem occurs_runStatements {program : Block} {start : Context} {site : Site} :
    ∀ {statements : List Statement} {index : Nat} {context : Context},
      RunReaches program start ⟨site, index, statements⟩ context →
        Occurs program start (state (runStatements site index statements context))
  | [], index, context, h => by
      rw [runStatements]
      exact .reached h
  | statement :: rest, index, context, h => by
      rw [runStatements]
      cases hs : runStatement site index statement context with
      | ok u after =>
          rw [bind_of_ok hs]
          exact occurs_runStatements (.next h hs)
      | error e after =>
          rw [bind_of_error hs]
          exact .failed h hs

theorem occurs_execute (program : Block) (scopes : ScopeTree) (sink : Sink) :
    Occurs program (Context.start scopes sink) (state (execute program scopes sink)) := by
  cases program with
  | mk statements line =>
      rw [execute, runBlock]
      exact occurs_runStatements .start

end Scriptlet
