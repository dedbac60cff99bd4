import Scriptlet.Proofs.Typing.Additions
import Scriptlet.Proofs.Typing.Agreement
import Scriptlet.Proofs.Typing.Weakening
import Scriptlet.Typing.Analyzer

/-!
# Analyzers Stay Consistent

An analyzer moves from scope to scope while it walks over a program, and it has
to be back where it was when the walk is over, also if a check deep inside
fails. It is: moving into a scope for some steps and back is the same as taking
these steps in that scope, so a visit is a check in the current scope and
nothing more.

What a check leaves and what it adds is known, so the same is known of a visit.
By induction it holds of any sequence of visits to one analyzer, with whatever
successes and failures. The analyzer stands in the global scope throughout, and
no name is ever declared between that scope and an expression, so an expression
keeps the type that it once had.

## Main definitions

* `Analyzer.Call`: A visit of a block or of a single statement.
* `Analyzer.behindAll`: The analyzer behind some calls.
* `Analyzer.Consistent`: What holds between an analyzer and itself after a call.

## Theorems

* `visitStatement_eq`, `visitBlock_eq`: A visit is a check in the current scope.
* `Analyzer.consistent_behind`: A call leaves the analyzer consistent.
* `analyzer_stays_consistent`: So does any sequence of calls, and types are
  kept.
-/

namespace Scriptlet

open Outcome ScopeTree

namespace Visit

variable {α β : Type}

/-- A step in the current scope stays there. -/
theorem here_apply (step : ScopeId → Checker α) (analyzer : Analyzer) :
    here step analyzer =
      mapState (fun scopes => { analyzer with scopes })
        (step analyzer.current analyzer.scopes) := by
  unfold here
  cases step analyzer.current analyzer.scopes with
  | ok a scopes => rfl
  | error e scopes => rfl

theorem here_pure (a : α) : (pure a : Visit α) = here fun _ => pure a := rfl

theorem here_throw (e : CheckError) : (throw e : Visit α) = here fun _ => throw e := rfl

/-- Steps one after the other in the current scope are one step. -/
theorem here_bind (step : ScopeId → Checker α) (next : α → ScopeId → Checker β) :
    (here step >>= fun a => here (next a)) =
      here fun scope => step scope >>= fun a => next a scope := by
  funext analyzer
  rw [bind_apply, here_apply, here_apply]
  cases hstep : step analyzer.current analyzer.scopes with
  | ok a scopes =>
      rw [bind_of_ok hstep]
      exact here_apply (next a) { analyzer with scopes }
  | error e scopes =>
      rw [bind_of_error hstep]
      rfl

/-- Moving into a scope for a step and back is taking the step in that scope. -/
theorem inside_here (scope : ScopeId) (step : ScopeId → Checker Unit) :
    inside scope (here step) = here fun _ => step scope := by
  funext analyzer
  unfold inside
  rw [here_apply, here_apply]
  cases step scope analyzer.scopes with
  | ok u scopes => rfl
  | error e scopes => rfl

theorem here_ite (p : Prop) [Decidable p] (x y : ScopeId → Checker α) :
    (if p then here x else here y) = here fun scope => if p then x scope else y scope := by
  by_cases h : p
  · simp only [if_pos h]
  · simp only [if_neg h]

end Visit

open Visit

-- By recursion over the program. Both walks take the same steps, so joining the steps of a visit
-- from the inside out turns it into a check.
mutual

theorem visitStatement_eq (site : Site) (index : Nat) : ∀ statement : Statement,
    visitStatement site index statement =
      here fun scope => checkStatement scope site index statement
  | .assign name (some declared) value line => by
      simp only [visitStatement, checkStatement, here_throw, here_ite, here_bind]
  | .assign name none value line => by
      simp only [visitStatement, checkStatement, here_throw, here_pure, here_ite, here_bind]
  | .branch condition whenTrue none line => by
      simp only [visitStatement, checkStatement, visitBlock_eq, inside_here, here_pure, here_bind]
  | .branch condition whenTrue (some block) line => by
      simp only [visitStatement, checkStatement, visitBlock_eq, inside_here, here_bind]
  | .function name params body line => by
      simp only [visitStatement, checkStatement, visitBlock_eq, here_bind, inside_here]
  | .print value line => by
      simp only [visitStatement, checkStatement, here_pure, here_bind]
  | .empty => by
      simp only [visitStatement, checkStatement, here_pure]

theorem visitBlock_eq (site : Site) : ∀ block : Block,
    visitBlock site block = here fun scope => checkBlock scope site block
  | .mk statements line => by
      simp only [visitBlock, checkBlock, visitStatements_eq]

theorem visitStatements_eq (site : Site) : ∀ (index : Nat) (statements : List Statement),
    visitStatements site index statements =
      here fun scope => checkStatements scope site index statements
  | index, [] => by
      simp only [visitStatements, checkStatements, here_pure]
  | index, statement :: rest => by
      simp only [visitStatements, checkStatements, visitStatement_eq, visitStatements_eq, here_bind]

end

namespace Analyzer

/-- A visit of a block or of a single statement. -/
inductive Call where
  | block (site : Site) (whole : Block)
  | statement (site : Site) (index : Nat) (single : Statement)

/-- What a call does. -/
def Call.visit : Call → Visit Unit
  | .block site whole => visitBlock site whole
  | .statement site index single => visitStatement site index single

/-- The analyzer behind a call, be it that the call passes or fails. -/
def behind (analyzer : Analyzer) (call : Call) : Analyzer := state (call.visit analyzer)

/-- The analyzer behind some calls, one after the other. -/
def behindAll (analyzer : Analyzer) (calls : List Call) : Analyzer := calls.foldl behind analyzer

/-- An analyzer that stands where another stood. Nothing that was declared is
    changed or gone, only the current scope may have gained names, and every
    new scope is inside it. -/
structure Consistent (before after : Analyzer) : Prop where
  current : after.current = before.current
  declared : before.scopes.Extends after.scopes
  others : ∀ id, id < before.scopes.size → id ≠ before.current →
    after.scopes.get? id = before.scopes.get? id
  inside : ∀ id, before.scopes.size ≤ id → id < after.scopes.size →
    before.current ∈ (after.scopes.ancestors id).tail

section Calls

variable {analyzer : Analyzer}

theorem consistent_here {step : ScopeId → Checker Unit} {sites : Site → Prop}
    (hgrows : Keeps (Grows analyzer.current sites) (step analyzer.current))
    (hsprouts : Keeps (Sprouts analyzer.current) (step analyzer.current))
    (hknown : analyzer.current < analyzer.scopes.size) :
    Consistent analyzer (state (here step analyzer)) := by
  rw [here_apply, state_mapState]
  refine ⟨rfl, extends_of_grows (hgrows _), fun id hid hne => ?_, fun id hnew hid => ?_⟩
  · exact get?_of_grows (hgrows _) hne hid
  · exact mem_ancestors_of_sprouts (hsprouts _) hknown hnew hid

/-- A call leaves the analyzer consistent, whether it passes or fails. -/
theorem consistent_behind (hknown : analyzer.current < analyzer.scopes.size) (call : Call) :
    Consistent analyzer (analyzer.behind call) := by
  cases call with
  | block site whole =>
      rw [behind, Call.visit, visitBlock_eq]
      exact consistent_here (Checker.keeps_checkBlock _ site whole)
        (Checker.sprouts_checkBlock _ site whole) hknown
  | statement site index single =>
      rw [behind, Call.visit, visitStatement_eq]
      exact consistent_here (Checker.keeps_checkStatement _ site index single)
        (Checker.sprouts_checkStatement _ site index single) hknown

/-- To the current scope a statement adds what it is said to add. -/
theorem gains_visitStatement (hknown : analyzer.current < analyzer.scopes.size) (site : Site)
    (index : Nat) (statement : Statement) :
    Gains analyzer.current analyzer.scopes
      (state (visitStatement site index statement analyzer)).scopes
      (Adds analyzer.scopes analyzer.current site index
        (Passed (visitStatement site index statement analyzer)) statement) := by
  rw [visitStatement_eq, here_apply, state_mapState, propext (passed_mapState _ _)]
  exact Checker.gains_checkStatement hknown statement

/-- An analyzer that stands in the global scope, around which there is no
    other. -/
structure AtTop (analyzer : Analyzer) : Prop where
  current : analyzer.current = globalScope
  known : globalScope < analyzer.scopes.size
  alone : analyzer.scopes.ancestors globalScope = [globalScope]

theorem atTop_fresh : fresh.AtTop where
  current := rfl
  known := Nat.zero_lt_one
  alone := by
    rw [ancestors]
    rfl

theorem known_of_atTop (h : analyzer.AtTop) : analyzer.current < analyzer.scopes.size := by
  rw [h.current]
  exact h.known

theorem atTop_behind (h : analyzer.AtTop) (call : Call) : (analyzer.behind call).AtTop := by
  have hconsistent := consistent_behind (known_of_atTop h) call
  exact ⟨hconsistent.current.trans h.current, lt_size_of_extends hconsistent.declared h.known,
    (ancestors_of_extends hconsistent.declared h.known).trans h.alone⟩

theorem atTop_behindAll (h : analyzer.AtTop) (calls : List Call) :
    (analyzer.behindAll calls).AtTop := by
  induction calls generalizing analyzer with
  | nil => exact h
  | cons call rest ih => exact ih (atTop_behind h call)

theorem extends_behindAll (h : analyzer.AtTop) (calls : List Call) :
    analyzer.scopes.Extends (analyzer.behindAll calls).scopes := by
  induction calls generalizing analyzer with
  | nil => exact extends_refl analyzer.scopes
  | cons call rest ih =>
      have hfirst := (consistent_behind (known_of_atTop h) call).declared
      exact extends_trans hfirst (ih (atTop_behind h call))

/-- What has a type in the global scope has it in every tree that extends this
    one. -/
theorem typeOf_behindAll (h : analyzer.AtTop) {expr : Expr} {ty : Ty}
    (hty : analyzer.typeOf expr = .ok ty) (later : List Call) :
    (analyzer.behindAll later).typeOf expr = .ok ty := by
  rw [typeOf, h.current, ← typeOf_names] at hty
  rw [typeOf, (atTop_behindAll h later).current, ← typeOf_names]
  refine Lexical.typeOf_of_variables (fun name found hname => ?_) hty
  exact get?_names_global_of_extends (extends_behindAll h later) h.known h.alone hname

end Calls

end Analyzer

/-- Whatever calls an analyzer has seen, and however they ended, a further call
    leaves it where it is, keeps all that is declared, and adds names to the
    current scope and scopes inside it only. A single statement adds to the
    current scope just what it is said to add. And an expression that has a
    type keeps it, whatever calls follow. -/
theorem analyzer_stays_consistent (calls : List Analyzer.Call) :
    let before := Analyzer.fresh.behindAll calls
    (∀ call, Analyzer.Consistent before (before.behind call)) ∧
    (∀ site index statement,
      let outcome := visitStatement site index statement before
      Gains before.current before.scopes (state outcome).scopes
        (Adds before.scopes before.current site index (Passed outcome) statement)) ∧
    ∀ expr ty, before.typeOf expr = .ok ty →
      ∀ later, (before.behindAll later).typeOf expr = .ok ty := by
  intro before
  have htop : before.AtTop := Analyzer.atTop_behindAll Analyzer.atTop_fresh calls
  have hknown := Analyzer.known_of_atTop htop
  refine ⟨Analyzer.consistent_behind hknown, Analyzer.gains_visitStatement hknown, ?_⟩
  intro expr ty hty later
  exact Analyzer.typeOf_behindAll htop hty later

-- A function whose parameters have one name is refused, and is declared all the same.
example :
    let param : Param := { name := "a", ty := .int, line := 1 }
    let call := Analyzer.Call.statement (.root 0) 0 (.function "f" [param, param] (.mk [] 1) 1)
    let after := Analyzer.fresh.behind call
    (after.scopes.lookupLocal globalScope "f").isSome = true ∧ after.scopes.size = 2 ∧
      (after.scopes.lookupLocal 1 "a").isSome = true := by
  decide +kernel

end Scriptlet
