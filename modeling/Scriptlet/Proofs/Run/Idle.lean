import Scriptlet.Proofs.Run.Safety
import Scriptlet.Proofs.Typing.Weakening

/-!
# Idle Statements

A function declaration does nothing when it is run, and neither does an empty
statement. So a program can be stripped of them, in all of its branches, and it
prints what it printed and ends as it ended.

The two programs have little else in common. Without its functions a program
has fewer scopes, so that nearly all of them have other indices, and a name
that a function hid means again what it meant further out. Their runs are
therefore compared through plain runs, which know of no scopes: there an idle
statement is simply no step. That the stripped program is accepted at all is a
matter of the lexical rules. It knows fewer names, but of the names that a
program mentions it knows every one, because a function is nothing that an
accepted program could mention.

## Main definitions

* `Statement.isIdle`: Statements that do nothing when they are run.
* `Block.stripped`: A block without them, in its branches, too.
* `Lexical.Sheds`: Names among which no variable is missing.

## Theorems

* `Plain.runBlock_stripped`: A stripped block runs as the whole one.
* `Lexical.checkBlock_stripped`: It passes where the whole one does.
* `stripped_program_runs_alike`: A stripped program is accepted and runs alike.
-/

namespace Scriptlet

open Outcome

/-- Whether a statement does nothing when it is run. -/
def Statement.isIdle : Statement → Bool
  | .function .. | .empty => true
  | .assign .. | .branch .. | .print .. => false

mutual

/-- A statement with its branches stripped. -/
def Statement.stripped : Statement → Statement
  | .branch condition whenTrue whenFalse line =>
    .branch condition whenTrue.stripped
      (match whenFalse with
      | some block => some block.stripped
      | none => none)
      line
  | .assign name declared value line => .assign name declared value line
  | .function name params body line => .function name params body line
  | .print value line => .print value line
  | .empty => .empty

/-- A block without its idle statements, and with the branches of the others
    stripped. -/
def Block.stripped : Block → Block
  | .mk statements line => .mk (strippedOfList statements) line

/-- Some statements without the idle ones, and with the branches of the others
    stripped. -/
def strippedOfList : List Statement → List Statement
  | [] => []
  | statement :: rest =>
    if statement.isIdle then strippedOfList rest
    else statement.stripped :: strippedOfList rest

end

/-! ### Plain runs -/

namespace Plain

theorem runStatement_of_idle {statement : Statement} (h : statement.isIdle = true) :
    runStatement statement = pure () := by
  cases statement with
  | assign name declared value line => cases h
  | branch condition whenTrue whenFalse line => cases h
  | function name params body line => rw [runStatement]
  | print value line => cases h
  | empty => rw [runStatement]

-- By recursion over the program. Both sides are computations, so nothing is said of states.
mutual

theorem runStatement_stripped :
    ∀ statement : Statement, runStatement statement.stripped = runStatement statement
  | .assign name declared value line => by rw [Statement.stripped]
  | .branch condition whenTrue none line => by
      rw [Statement.stripped, runStatement, runStatement, runBlock_stripped whenTrue]
  | .branch condition whenTrue (some block) line => by
      rw [Statement.stripped, runStatement, runStatement, runBlock_stripped whenTrue]
      simp only [runBlock_stripped block]
  | .function name params body line => by rw [Statement.stripped]
  | .print value line => by rw [Statement.stripped]
  | .empty => by rw [Statement.stripped]

/-- A stripped block runs as the whole one. -/
theorem runBlock_stripped : ∀ block : Block, runBlock block.stripped = runBlock block
  | .mk statements line => by
      rw [Block.stripped, runBlock, runBlock]
      exact runStatements_stripped statements

theorem runStatements_stripped :
    ∀ statements : List Statement,
      runStatements (strippedOfList statements) = runStatements statements
  | [] => by rw [strippedOfList]
  | statement :: rest => by
      rw [strippedOfList, runStatements]
      cases hidle : statement.isIdle with
      | true =>
          rw [if_pos rfl, runStatement_of_idle hidle, pure_bind]
          exact runStatements_stripped rest
      | false =>
          rw [if_neg Bool.false_ne_true, runStatements, runStatement_stripped statement,
            runStatements_stripped rest]

end

end Plain

/-! ### Lexical rules -/

namespace Lexical

/-- Names without some of those in `full`, where no variable is missing. What
    is free among them all is free among the fewer. -/
structure Sheds (full fewer : Nest Binding) : Prop where
  free : ∀ name, full.top.get? name = none → fewer.top.get? name = none
  known : ∀ name ty, full.get? name = some (.var ty) → fewer.get? name = some (.var ty)

theorem sheds_refl (names : Nest Binding) : Sheds names names := ⟨fun _ => id, fun _ _ => id⟩

section Sheds

variable {full fewer after : Nest Binding}

theorem sheds_enter (h : Sheds full fewer) : Sheds full.enter fewer.enter where
  free _ _ := rfl
  known name ty hname := by
    rw [Nest.get?_enter] at hname ⊢
    exact h.known name ty hname

theorem sheds_declare (h : Sheds full fewer) (name : String) (binding : Binding) :
    Sheds (full.declare name binding) (fewer.declare name binding) where
  free other hother := by
    by_cases hname : other = name
    · rw [hname, Nest.declare, Table.get?_insert_self] at hother
      cases hother
    · rw [Nest.declare, Table.get?_insert_other _ _ hname] at hother ⊢
      exact h.free other hother
  known other ty hother := by
    by_cases hname : other = name
    · rw [hname, Nest.get?_declare_self] at hother ⊢
      exact hother
    · rw [Nest.get?_declare_other _ _ hname] at hother ⊢
      exact h.known other ty hother

/-- A function that is declared among all names only is not missed. -/
theorem sheds_function (h : Sheds full fewer) (name : String) :
    Sheds (full.declare name .func) fewer where
  free other hother := by
    by_cases hname : other = name
    · rw [hname, Nest.declare, Table.get?_insert_self] at hother
      cases hother
    · rw [Nest.declare, Table.get?_insert_other _ _ hname] at hother
      exact h.free other hother
  known other ty hother := by
    by_cases hname : other = name
    · rw [hname, Nest.get?_declare_self] at hother
      cases hother
    · rw [Nest.get?_declare_other _ _ hname] at hother
      exact h.known other ty hother

theorem declare_of_sheds (h : Sheds full fewer) {name : String} {binding : Binding} {line : Nat}
    (hdeclare : declare full name binding line = .ok after) :
    ∃ after', declare fewer name binding line = .ok after' ∧ Sheds after after' := by
  rcases declare_eq_ok hdeclare with ⟨hfree, rfl⟩
  refine ⟨fewer.declare name binding, ?_, sheds_declare h name binding⟩
  rw [declare, Table.contains, h.free name hfree]
  rfl

/-- An idle statement adds nothing but functions. -/
theorem sheds_of_idle (h : Sheds full fewer) {statement : Statement}
    (hidle : statement.isIdle = true) (hcheck : checkStatement full statement = .ok after) :
    Sheds after fewer := by
  cases statement with
  | assign name declared value line => cases hidle
  | branch condition whenTrue whenFalse line => cases hidle
  | function name params body line =>
      rw [(declare_eq_ok (checkStatement_function hcheck)).2]
      exact sheds_function h name
  | print value line => cases hidle
  | empty =>
      rw [checkStatement_empty.mp hcheck]
      exact h

end Sheds

-- By recursion over the program. What is left of a block is checked among fewer and fewer names,
-- and what these are missing are functions.
mutual

theorem checkStatement_stripped :
    ∀ (statement : Statement) {full fewer after : Nest Binding}, statement.isIdle = false →
      Sheds full fewer → checkStatement full statement = .ok after →
      ∃ after', checkStatement fewer statement.stripped = .ok after' ∧ Sheds after after'
  | .assign name (some ty) value line, full, fewer, after, _, h, hcheck => by
      rcases checkStatement_declaration.mp hcheck with ⟨hty, hdeclare⟩
      rcases declare_of_sheds h hdeclare with ⟨after', hafter', hsheds⟩
      have hty' := typeOf_of_variables h.known hty
      rw [Statement.stripped]
      exact ⟨after', checkStatement_declaration.mpr ⟨hty', hafter'⟩, hsheds⟩
  | .assign name none value line, full, fewer, after, _, h, hcheck => by
      rcases checkStatement_assignment.mp hcheck with ⟨⟨ty, hname, hvalue⟩, rfl⟩
      have hname' := variableTy_of_variables h.known hname
      have hvalue' := typeOf_of_variables h.known hvalue
      rw [Statement.stripped]
      exact ⟨fewer, checkStatement_assignment.mpr ⟨⟨ty, hname', hvalue'⟩, rfl⟩, h⟩
  | .branch condition whenTrue none line, full, fewer, after, _, h, hcheck => by
      rcases checkStatement_branch.mp hcheck with ⟨⟨ty, hty⟩, ⟨inner, hinner⟩, _, rfl⟩
      rcases checkBlock_stripped whenTrue (sheds_enter h) hinner with ⟨inner', hinner', _⟩
      have hty' := typeOf_of_variables h.known hty
      rw [Statement.stripped]
      exact ⟨fewer, checkStatement_branch.mpr ⟨⟨ty, hty'⟩, ⟨inner', hinner'⟩, nofun, rfl⟩, h⟩
  | .branch condition whenTrue (some block) line, full, fewer, after, _, h, hcheck => by
      rcases checkStatement_branch.mp hcheck with ⟨⟨ty, hty⟩, ⟨inner, hinner⟩, hfalse, rfl⟩
      rcases hfalse block rfl with ⟨other, hother⟩
      rcases checkBlock_stripped whenTrue (sheds_enter h) hinner with ⟨inner', hinner', _⟩
      rcases checkBlock_stripped block (sheds_enter h) hother with ⟨other', hother', _⟩
      have hty' := typeOf_of_variables h.known hty
      rw [Statement.stripped]
      refine ⟨fewer, checkStatement_branch.mpr ⟨⟨ty, hty'⟩, ⟨inner', hinner'⟩, ?_, rfl⟩, h⟩
      rintro _ ⟨⟩
      exact ⟨other', hother'⟩
  | .print value line, full, fewer, after, _, h, hcheck => by
      rcases checkStatement_print.mp hcheck with ⟨⟨ty, hty⟩, rfl⟩
      have hty' := typeOf_of_variables h.known hty
      rw [Statement.stripped]
      exact ⟨fewer, checkStatement_print.mpr ⟨⟨ty, hty'⟩, rfl⟩, h⟩

/-- A stripped block passes where the whole one does, and among fewer names as
    well. -/
theorem checkBlock_stripped :
    ∀ (block : Block) {full fewer after : Nest Binding}, Sheds full fewer →
      checkBlock full block = .ok after →
      ∃ after', checkBlock fewer block.stripped = .ok after' ∧ Sheds after after'
  | .mk statements line, full, fewer, after, h, hcheck => by
      rw [Block.stripped, checkBlock]
      rw [checkBlock] at hcheck
      exact checkStatements_stripped statements h hcheck

theorem checkStatements_stripped :
    ∀ (statements : List Statement) {full fewer after : Nest Binding}, Sheds full fewer →
      checkStatements full statements = .ok after →
      ∃ after', checkStatements fewer (strippedOfList statements) = .ok after' ∧
        Sheds after after'
  | [], full, fewer, after, h, hcheck => by
      rw [strippedOfList, checkStatements]
      rw [checkStatements] at hcheck
      cases hcheck
      exact ⟨fewer, rfl, h⟩
  | statement :: rest, full, fewer, after, h, hcheck => by
      rcases checkStatements_cons.mp hcheck with ⟨mid, hmid, hrest⟩
      rw [strippedOfList]
      cases hidle : statement.isIdle with
      | true =>
          rw [if_pos rfl]
          exact checkStatements_stripped rest (sheds_of_idle h hidle hmid) hrest
      | false =>
          rcases checkStatement_stripped statement hidle h hmid with ⟨mid', hmid', hsheds⟩
          rcases checkStatements_stripped rest hsheds hrest with ⟨after', hrest', hlast⟩
          rw [if_neg Bool.false_ne_true]
          exact ⟨after', checkStatements_cons.mpr ⟨mid', hmid', hrest'⟩, hlast⟩

end

end Lexical

/-! ### Programs -/

/-- Without its idle statements an accepted program is accepted, too. Run
    against the scopes that are found for it, it prints what the whole program
    prints against its own, binds the same values, and ends as that does, well
    or with the same error at the same line. -/
theorem stripped_program_runs_alike {program : Block} {scopes : ScopeTree}
    (h : analyze program = .ok scopes) :
    ∃ fewer, analyze program.stripped = .ok fewer ∧ ∀ sink,
      mapState Context.plain (execute program.stripped fewer sink) =
        mapState Context.plain (execute program scopes sink) := by
  rcases Lexical.checkBlock_stripped program (Lexical.sheds_refl _) (lexical_of_analyze h)
    with ⟨names, hnames, _⟩
  rcases analyze_of_lexical hnames with ⟨fewer, hfewer⟩
  refine ⟨fewer, hfewer, fun sink => ?_⟩
  rw [plain_execute hfewer sink, plain_execute h sink, Plain.execute, Plain.execute,
    Plain.runBlock_stripped]

/-- A program with functions in front of a branch and inside it, one of which
    hides a variable, and a division by zero at its end. -/
def crowded : Block :=
  .mk
    [ .function "f" [{ name := "x", ty := .str, line := 1 }] (.mk [.empty] 1) 1,
      .assign "x" (some .int) (.number 3 2) 2,
      .empty,
      .branch (.compare .less (.var "x" 3) (.number 4 3) 3)
        (.mk
          [ .assign "x" none (.arith .sub (.var "x" 4) (.number 3 4) 4) 4,
            .function "x" [] (.mk [.empty] 5) 5,
            .branch (.literal (.bool true) 6)
              (.mk [.assign "x" (some .str) (.literal (.str "in") 6) 6, .print (.var "x" 6) 6] 6)
              (some (.mk [.empty] 7)) 6 ] 4)
        none 3,
      .print (.arith .div (.number 1 8) (.var "x" 8) 8) 8 ] 1

/-- Two of the six scopes of `crowded` are those of its functions. Without
    them it runs as before. -/
theorem stripped_program_runs_alike_crowded :
    ∃ scopes fewer, analyze crowded = .ok scopes ∧ analyze crowded.stripped = .ok fewer ∧
      scopes.size = 6 ∧ fewer.size = 4 ∧
      mapState Context.plain (execute crowded.stripped fewer (.bounded 3)) =
        mapState Context.plain (execute crowded scopes (.bounded 3)) := by
  have haccepted : ((analyze crowded).toOption.map ScopeTree.size) = some 6 := by decide +kernel
  have hstripped : ((analyze crowded.stripped).toOption.map ScopeTree.size) = some 4 := by
    decide +kernel
  cases hanalyze : analyze crowded with
  | error e =>
      rw [hanalyze] at haccepted
      cases haccepted
  | ok scopes =>
      rw [hanalyze] at haccepted
      rcases stripped_program_runs_alike hanalyze with ⟨fewer, hfewer, hruns⟩
      rw [hfewer] at hstripped
      exact ⟨scopes, fewer, rfl, hfewer, Option.some.inj haccepted, Option.some.inj hstripped,
        hruns _⟩

end Scriptlet
