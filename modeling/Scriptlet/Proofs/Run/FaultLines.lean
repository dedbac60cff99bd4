import Scriptlet.Pipeline
import Scriptlet.Proofs.Grammar.NodeLines
import Scriptlet.Proofs.Run.Frames
import Scriptlet.Proofs.Run.Soundness
import Scriptlet.Proofs.Typing.Growth

/-!
# Faults Stand on Nodes

An error of a check or of a run has a line, and it is the line of a statement,
a parameter or an expression of the program: that of the node whose rule was
broken or whose value could not be found. No error is placed on a block as
such. Only a failure to write has no line at all.

This is shown for each step and then, by recursion over the program, for whole
checks and runs. What a statement reports is on one of its own nodes, and these
are nodes of every block around it. Together with the order of the nodes it
says that lines are carried from the source to a report without loss.

## Main definitions

* `RuntimeError.line?`: The line of a runtime error.
* `Occupied`: A line with a statement, a parameter or an expression on it.
* `CheckError.On`, `RuntimeError.On`: An error on such a line.

## Theorems

* `ScopeTree.typeOf_on`, `Context.eval_on`: Errors of an expression stand on its
  nodes.
* `Checker.checkBlock_on`, `Run.runBlock_on`: Errors of a block stand on its
  nodes.
* `lines_follow_source`: Lines are in order, and errors are placed on them.
-/

namespace Scriptlet

open Outcome

/-- The line of a runtime error. A failure to write has none. -/
def RuntimeError.line? : RuntimeError → Option Nat
  | .divisionByZero line => some line
  | .overflow line => some line
  | .precisionLoss line => some line
  | .unboundName _ line => some line
  | .expectedNumber _ line => some line
  | .incomparable _ _ line => some line
  | .expectedBoolean _ line => some line
  | .output _ => none

/-- A statement, a parameter or an expression stands on a line. -/
def Occupied (nodes : List Node) (line : Nat) : Prop :=
  .statement line ∈ nodes ∨ .param line ∈ nodes ∨ .expr line ∈ nodes

/-- The parts of a branch, the second of which may be missing. -/
theorem subset_of_branch {nodes : List Node} {condition : Expr} {whenTrue : Block}
    {whenFalse : Option Block} {line : Nat}
    (h : (Statement.branch condition whenTrue whenFalse line).nodes ⊆ nodes) :
    .statement line ∈ nodes ∧ condition.nodes ⊆ nodes ∧ whenTrue.nodes ⊆ nodes ∧
      ∀ block, whenFalse = some block → block.nodes ⊆ nodes := by
  cases whenFalse with
  | none =>
      rw [Statement.nodes, List.cons_subset, List.append_subset, List.append_subset] at h
      refine ⟨h.1, h.2.1, h.2.2.1, fun block hblock => ?_⟩
      cases hblock
  | some other =>
      rw [Statement.nodes, List.cons_subset, List.append_subset, List.append_subset] at h
      refine ⟨h.1, h.2.1, h.2.2.1, fun block hblock => ?_⟩
      cases hblock
      exact h.2.2.2

/-! ### Checks -/

/-- A fault that a check reports on a line where one of these nodes stands. -/
def CheckError.On (nodes : List Node) (e : CheckError) : Prop := Occupied nodes e.line

namespace ScopeTree

variable {nodes : List Node} (tree : ScopeTree) (scope : ScopeId)

theorem variableTy_on (name : String) {line : Nat} (h : Occupied nodes line) :
    ErrsAs (CheckError.On nodes) (tree.variableTy scope name line) := by
  unfold variableTy
  split
  · exact errsAs_ok _
  · exact errsAs_error h
  · exact errsAs_error h

/-- The fault of an expression stands on one of its nodes. -/
theorem typeOf_on (expr : Expr) (h : expr.nodes ⊆ nodes) :
    ErrsAs (CheckError.On nodes) (tree.typeOf scope expr) := by
  induction expr with
  | number value line => exact errsAs_ok _
  | literal value line => exact errsAs_ok _
  | var name line =>
      exact variableTy_on tree scope name (Or.inr (Or.inr (h List.mem_cons_self)))
  | arith op left right line ihl ihr =>
      rw [Expr.nodes, List.append_subset, List.cons_subset] at h
      rw [typeOf]
      refine errsAs_bind (ihl h.1) fun leftTy => errsAs_bind (ihr h.2.2) fun rightTy => ?_
      split
      · exact errsAs_ok _
      · exact errsAs_error (Or.inr (Or.inr h.2.1))
  | signed sign operand line ih =>
      rw [Expr.nodes, List.cons_subset] at h
      rw [typeOf]
      refine errsAs_bind (ih h.2) fun ty => ?_
      split
      · exact errsAs_ok _
      · exact errsAs_error (Or.inr (Or.inr h.1))
  | compare order left right line ihl ihr =>
      rw [Expr.nodes, List.append_subset, List.cons_subset] at h
      rw [typeOf]
      refine errsAs_bind (ihl h.1) fun leftTy => errsAs_bind (ihr h.2.2) fun rightTy => ?_
      split
      · exact errsAs_ok _
      · exact errsAs_error (Or.inr (Or.inr h.2.1))

end ScopeTree

namespace Checker

section Steps

variable {nodes : List Node} (scope : ScopeId)

theorem typeOf_on {expr : Expr} (h : expr.nodes ⊆ nodes) :
    FailsAs (CheckError.On nodes) (Checker.typeOf scope expr) :=
  failsAs_of_looks (looks_typeOf scope expr) fun tree => tree.typeOf_on scope expr h

theorem variableTy_on (name : String) {line : Nat} (h : Occupied nodes line) :
    FailsAs (CheckError.On nodes) (Checker.variableTy scope name line) :=
  failsAs_of_looks (looks_variableTy scope name line) fun tree => tree.variableTy_on scope name h

theorem declare_on (symbol : Symbol) {line : Nat} (h : Occupied nodes line) :
    FailsAs (CheckError.On nodes) (declare scope symbol line) := by
  intro tree e after hfail
  unfold declare at hfail
  split at hfail
  · cases hfail
  · cases hfail
    exact h

theorem declareParams_on {params : List Param} (h : ∀ param ∈ params, .param param.line ∈ nodes) :
    FailsAs (CheckError.On nodes) (declareParams scope params) := by
  induction params with
  | nil => exact failsAs_pure ()
  | cons param rest ih =>
      rw [List.forall_mem_cons] at h
      exact failsAs_bind (declare_on scope _ (Or.inr (Or.inl h.1))) fun _ => ih h.2

/-- To open a scope cannot fail. -/
theorem openScope_on (name : String) : FailsAs (CheckError.On nodes) (openScope scope name) := by
  intro tree e after hfail
  cases hfail

theorem openBlock_on (name : String) (site : Site) :
    FailsAs (CheckError.On nodes) (openBlock scope name site) := by
  intro tree e after hfail
  cases hfail

end Steps

-- By recursion over the program. The nodes of a part are among those of the whole, so a fault of
-- the part is one of the whole.
mutual

theorem checkStatement_on {nodes : List Node} (scope : ScopeId) (site : Site) (index : Nat) :
    ∀ statement : Statement, statement.nodes ⊆ nodes →
      FailsAs (CheckError.On nodes) (checkStatement scope site index statement)
  | .assign name (some declared) value line, h => by
      rw [Statement.nodes, List.cons_subset] at h
      rw [checkStatement]
      refine failsAs_bind (typeOf_on scope h.2) fun found => ?_
      split
      · exact declare_on scope _ (Or.inl h.1)
      · exact failsAs_throw (Or.inl h.1)
  | .assign name none value line, h => by
      rw [Statement.nodes, List.cons_subset] at h
      rw [checkStatement]
      refine failsAs_bind (variableTy_on scope name (Or.inl h.1)) fun declared => ?_
      refine failsAs_bind (typeOf_on scope h.2) fun found => ?_
      split
      · exact failsAs_pure ()
      · exact failsAs_throw (Or.inl h.1)
  | .branch condition whenTrue none line, h => by
      rcases subset_of_branch h with ⟨_, hcondition, htrue, _⟩
      rw [checkStatement]
      refine failsAs_bind (typeOf_on scope hcondition) fun ty => ?_
      refine failsAs_bind (openBlock_on scope _ _) fun trueScope => ?_
      exact failsAs_bind (checkBlock_on trueScope _ whenTrue htrue) fun _ => failsAs_pure ()
  | .branch condition whenTrue (some block) line, h => by
      rcases subset_of_branch h with ⟨_, hcondition, htrue, hfalse⟩
      rw [checkStatement]
      refine failsAs_bind (typeOf_on scope hcondition) fun ty => ?_
      refine failsAs_bind (openBlock_on scope _ _) fun trueScope => ?_
      refine failsAs_bind (checkBlock_on trueScope _ whenTrue htrue) fun _ => ?_
      refine failsAs_bind (openBlock_on scope _ _) fun falseScope => ?_
      exact checkBlock_on falseScope _ block (hfalse block rfl)
  | .function name params body line, h => by
      rw [Statement.nodes, List.cons_subset, List.append_subset] at h
      rw [checkStatement]
      refine failsAs_bind (openScope_on scope name) fun bodyScope => ?_
      refine failsAs_bind (declare_on scope _ (Or.inl h.1)) fun _ => ?_
      have hparams : ∀ param ∈ params, .param param.line ∈ nodes := by
        intro param hparam
        exact h.2.1 (List.mem_map.mpr ⟨param, hparam, rfl⟩)
      exact failsAs_bind (declareParams_on bodyScope hparams) fun _ =>
        checkBlock_on bodyScope _ body h.2.2
  | .print value line, h => by
      rw [Statement.nodes, List.cons_subset] at h
      rw [checkStatement]
      exact failsAs_bind (typeOf_on scope h.2) fun _ => failsAs_pure ()
  | .empty, _ => by
      rw [checkStatement]
      exact failsAs_pure ()

theorem checkBlock_on {nodes : List Node} (scope : ScopeId) (site : Site) :
    ∀ block : Block, block.nodes ⊆ nodes →
      FailsAs (CheckError.On nodes) (checkBlock scope site block)
  | .mk statements line, h => by
      rw [Block.nodes, List.cons_subset] at h
      rw [checkBlock]
      exact checkStatements_on scope site 0 statements h.2

theorem checkStatements_on {nodes : List Node} (scope : ScopeId) (site : Site) :
    ∀ (index : Nat) (statements : List Statement), nodesOfList statements ⊆ nodes →
      FailsAs (CheckError.On nodes) (checkStatements scope site index statements)
  | index, [], _ => by
      rw [checkStatements]
      exact failsAs_pure ()
  | index, statement :: rest, h => by
      rw [nodesOfList, List.append_subset] at h
      rw [checkStatements]
      exact failsAs_bind (checkStatement_on scope site index statement h.1) fun _ =>
        checkStatements_on scope site (index + 1) rest h.2

end

end Checker

/-! ### Runs -/

/-- A failure of a run that has no line, or one on which one of these nodes
    stands. -/
def RuntimeError.On (nodes : List Node) (e : RuntimeError) : Prop :=
  ∀ line, e.line? = some line → Occupied nodes line

theorem RuntimeError.on_of_line {nodes : List Node} {line : Nat} (h : Occupied nodes line)
    {e : RuntimeError} (he : e.line? = some line) : e.On nodes := by
  intro found hfound
  rw [he] at hfound
  cases hfound
  exact h

theorem RuntimeError.line?_of_output {e : RuntimeError} (h : e.kind = .output) :
    e.line? = none := by
  cases e with
  | output reason => rfl
  | _ => cases h

namespace Value

/-! Operations on values report the line that they are given. -/

theorem errsAs_asReal (value : Value) (line : Nat) :
    ErrsAs (fun e => e.line? = some line) (value.asReal line) := by
  cases value with
  | real x => exact errsAs_ok x
  | int n =>
      unfold asReal
      simp only []
      split
      · exact errsAs_ok _
      · exact errsAs_error rfl
  | str content => exact errsAs_error rfl
  | bool value => exact errsAs_error rfl

theorem errsAs_exactInt (n : Int) (line : Nat) :
    ErrsAs (fun e => e.line? = some line) (exactInt n line) := by
  unfold exactInt
  split
  · exact errsAs_ok _
  · exact errsAs_error rfl

theorem errsAs_realArith (op : ArithOp) (a b : Float) (line : Nat) :
    ErrsAs (fun e => e.line? = some line) (realArith op a b line) := by
  cases op with
  | add => exact errsAs_ok _
  | sub => exact errsAs_ok _
  | mul => exact errsAs_ok _
  | div =>
      unfold realArith
      simp only []
      split
      · exact errsAs_error rfl
      · exact errsAs_ok _

theorem errsAs_arith (op : ArithOp) (left right : Value) (line : Nat) :
    ErrsAs (fun e => e.line? = some line) (arith op left right line) := by
  unfold arith
  split
  · exact errsAs_exactInt _ line
  · exact errsAs_exactInt _ line
  · exact errsAs_exactInt _ line
  · refine errsAs_bind (errsAs_asReal left line) fun a => ?_
    exact errsAs_bind (errsAs_asReal right line) fun b => errsAs_realArith op a b line

theorem errsAs_sign (sign : Sign) (operand : Value) (line : Nat) :
    ErrsAs (fun e => e.line? = some line) (Value.sign sign operand line) := by
  unfold Value.sign
  split
  · exact errsAs_ok _
  · exact errsAs_ok _
  · exact errsAs_exactInt _ line
  · exact errsAs_ok _
  · exact errsAs_error rfl
  · exact errsAs_error rfl

theorem errsAs_compare (order : Order) (left right : Value) (line : Nat) :
    ErrsAs (fun e => e.line? = some line) (compare order left right line) := by
  unfold compare
  refine errsAs_bind ?_ fun found => errsAs_ok _
  unfold ordering
  split
  · exact errsAs_ok _
  · exact errsAs_ok _
  · split
    · refine errsAs_bind (errsAs_asReal left line) fun a => ?_
      exact errsAs_bind (errsAs_asReal right line) fun b => errsAs_ok _
    · exact errsAs_error rfl

end Value

/-- The failure of an expression stands on one of its nodes. -/
theorem Context.eval_on {nodes : List Node} (context : Context) (expr : Expr)
    (h : expr.nodes ⊆ nodes) : ErrsAs (RuntimeError.On nodes) (context.eval expr) := by
  -- An operator reports its own line, behind both operands.
  have hown : ∀ {line : Nat} {x : Except RuntimeError Value},
      ErrsAs (fun e => e.line? = some line) x → .expr line ∈ nodes →
        ErrsAs (RuntimeError.On nodes) x := by
    intro line x hx hmem
    exact errsAs_mono hx fun e => RuntimeError.on_of_line (Or.inr (Or.inr hmem))
  induction expr with
  | number value line => exact errsAs_ok _
  | literal value line => exact errsAs_ok _
  | var name line =>
      rw [Context.eval, Context.read]
      split
      · exact errsAs_ok _
      · exact errsAs_error (RuntimeError.on_of_line (Or.inr (Or.inr (h List.mem_cons_self))) rfl)
  | arith op left right line ihl ihr =>
      rw [Expr.nodes, List.append_subset, List.cons_subset] at h
      rw [Context.eval]
      refine errsAs_bind (ihl h.1) fun a => errsAs_bind (ihr h.2.2) fun b => ?_
      exact hown (Value.errsAs_arith op a b line) h.2.1
  | signed sign operand line ih =>
      rw [Expr.nodes, List.cons_subset] at h
      rw [Context.eval]
      exact errsAs_bind (ih h.2) fun a => hown (Value.errsAs_sign sign a line) h.1
  | compare order left right line ihl ihr =>
      rw [Expr.nodes, List.append_subset, List.cons_subset] at h
      rw [Context.eval]
      refine errsAs_bind (ihl h.1) fun a => errsAs_bind (ihr h.2.2) fun b => ?_
      exact hown (Value.errsAs_compare order a b line) h.2.1

namespace Run

section Steps

variable {nodes : List Node}

theorem eval_on {expr : Expr} (h : expr.nodes ⊆ nodes) :
    FailsAs (RuntimeError.On nodes) (Run.eval expr) :=
  failsAs_of_looks (looks_eval expr) fun context => context.eval_on expr h

theorem assign_on (name : String) (value : Value) {line : Nat} (h : Occupied nodes line) :
    FailsAs (RuntimeError.On nodes) (Run.assign name value line) := by
  intro context e after hfail
  unfold Run.assign at hfail
  split at hfail
  · cases hfail
  · cases hfail
    exact RuntimeError.on_of_line h rfl

/-- A failure to write has no line. -/
theorem print_on (value : Value) : FailsAs (RuntimeError.On nodes) (Run.print value) := by
  intro context e after hfail line hline
  unfold Run.print at hfail
  split at hfail
  · cases hfail
  · rename_i hwrite
    cases hfail
    rw [RuntimeError.line?_of_output (Plain.write_eq_error hwrite)] at hline
    cases hline

theorem inBlock_on (site : Site) {statements : Run Unit}
    (h : FailsAs (RuntimeError.On nodes) statements) :
    FailsAs (RuntimeError.On nodes) (inBlock site statements) := by
  intro context e after hfail
  unfold inBlock at hfail
  split at hfail
  · exact h _ e after hfail
  · split at hfail
    · cases hfail
    · rename_i hinner
      cases hfail
      exact h _ _ _ hinner

end Steps

-- The same recursion. A function does nothing when it is run, so its nodes do not matter.
mutual

theorem runStatement_on {nodes : List Node} (site : Site) (index : Nat) :
    ∀ statement : Statement, statement.nodes ⊆ nodes →
      FailsAs (RuntimeError.On nodes) (runStatement site index statement)
  | .assign name (some declared) value line, h => by
      rw [Statement.nodes, List.cons_subset] at h
      rw [runStatement]
      refine failsAs_bind (eval_on h.2) fun assigned context e after hfail => ?_
      cases hfail
  | .assign name none value line, h => by
      rw [Statement.nodes, List.cons_subset] at h
      rw [runStatement]
      exact failsAs_bind (eval_on h.2) fun assigned => assign_on name assigned (Or.inl h.1)
  | .branch condition whenTrue none line, h => by
      rcases subset_of_branch h with ⟨hline, hcondition, htrue, _⟩
      rw [runStatement]
      refine failsAs_bind (eval_on hcondition) fun decided => ?_
      split
      · exact inBlock_on _ (runBlock_on _ whenTrue htrue)
      · exact failsAs_pure ()
      · exact failsAs_throw (RuntimeError.on_of_line (Or.inl hline) rfl)
  | .branch condition whenTrue (some block) line, h => by
      rcases subset_of_branch h with ⟨hline, hcondition, htrue, hfalse⟩
      rw [runStatement]
      refine failsAs_bind (eval_on hcondition) fun decided => ?_
      split
      · exact inBlock_on _ (runBlock_on _ whenTrue htrue)
      · exact inBlock_on _ (runBlock_on _ block (hfalse block rfl))
      · exact failsAs_throw (RuntimeError.on_of_line (Or.inl hline) rfl)
  | .function name params body line, _ => by
      rw [runStatement]
      exact failsAs_pure ()
  | .print value line, h => by
      rw [Statement.nodes, List.cons_subset] at h
      rw [runStatement]
      exact failsAs_bind (eval_on h.2) fun printed => print_on printed
  | .empty, _ => by
      rw [runStatement]
      exact failsAs_pure ()

theorem runBlock_on {nodes : List Node} (site : Site) :
    ∀ block : Block, block.nodes ⊆ nodes →
      FailsAs (RuntimeError.On nodes) (runBlock site block)
  | .mk statements line, h => by
      rw [Block.nodes, List.cons_subset] at h
      rw [runBlock]
      exact runStatements_on site 0 statements h.2

theorem runStatements_on {nodes : List Node} (site : Site) :
    ∀ (index : Nat) (statements : List Statement), nodesOfList statements ⊆ nodes →
      FailsAs (RuntimeError.On nodes) (runStatements site index statements)
  | index, [], _ => by
      rw [runStatements]
      exact failsAs_pure ()
  | index, statement :: rest, h => by
      rw [nodesOfList, List.append_subset] at h
      rw [runStatements]
      exact failsAs_bind (runStatement_on site index statement h.1) fun _ =>
        runStatements_on site (index + 1) rest h.2

end

end Run

/-! ### Sources -/

section Sources

variable {source : String} {program : Block}

theorem on_of_analyze {e : CheckError} (h : analyze program = .error e) : e.On program.nodes := by
  unfold analyze at h
  split at h
  · cases h
  · rename_i hcheck
    cases h
    exact Checker.checkBlock_on globalScope (.root 0) program (List.Subset.refl _) _ _ _ hcheck

theorem on_of_execute {scopes : ScopeTree} {sink : Sink} {e : RuntimeError} {after : Context}
    (h : execute program scopes sink = .error e after) : e.On program.nodes :=
  Run.runBlock_on (.root 0) program (List.Subset.refl _) _ _ _ h

theorem load_of_refused (h : parse source = .ok program) {e : CheckError}
    (hanalyze : analyze program = .error e) : load source = .error (.check e) := by
  rw [load, h]
  simp only [hanalyze]

theorem load_of_accepted (h : parse source = .ok program) {scopes : ScopeTree}
    (hanalyze : analyze program = .ok scopes) : load source = .ok (program, scopes) := by
  rw [load, h]
  simp only [hanalyze]

theorem on_of_check (h : parse source = .ok program) {e : CheckError}
    (hcheck : check source = .error (.check e)) : e.On program.nodes := by
  cases hanalyze : analyze program with
  | ok scopes =>
      rw [check, load_of_accepted h hanalyze] at hcheck
      cases hcheck
  | error found =>
      rw [check, load_of_refused h hanalyze] at hcheck
      cases hcheck
      exact on_of_analyze hanalyze

theorem on_of_run (h : parse source = .ok program) {sink : Sink} {e : RuntimeError}
    (hrun : (run source sink).1 = .error (.runtime e)) : e.On program.nodes := by
  cases hanalyze : analyze program with
  | error found =>
      -- A program that is refused is not run.
      rw [run, load_of_refused h hanalyze] at hrun
      cases hrun
  | ok scopes =>
      rw [run, load_of_accepted h hanalyze] at hrun
      simp only [] at hrun
      cases hexecute : execute program scopes sink with
      | ok u after =>
          rw [hexecute] at hrun
          cases hrun
      | error found after =>
          rw [hexecute] at hrun
          cases hrun
          exact on_of_execute hexecute

/-- The lines of a parsed program, listed in source order, do not decrease and
    are lines of the source. The fault of its check is on the line of one of
    its statements, parameters or expressions, and so is the failure of its run
    into any sink, if it has a line. -/
theorem lines_follow_source (h : parse source = .ok program) :
    (program.nodes.map Node.line).Pairwise (· ≤ ·) ∧
    (∀ node ∈ program.nodes, 1 ≤ node.line ∧ node.line ≤ 1 + lineFeeds source) ∧
    (∀ e, check source = .error (.check e) → Occupied program.nodes e.line) ∧
    ∀ sink e line, (run source sink).1 = .error (.runtime e) → e.line? = some line →
      Occupied program.nodes line := by
  refine ⟨ordered_of_parse h, fun node => within_of_parse h, fun e => on_of_check h, ?_⟩
  intro sink e line hrun
  exact on_of_run h hrun line

end Sources

/-- A program with line feeds inside a literal, around operators and types and
    in braces, that overflows in its last statement. -/
def sprawlingSource : String :=
  "x : str = \"a\nb\";\nif (\n1 <\n2) \x7b\n\nx = x \x7d func f(y :\nint) \x7b\n\x7d " ++
    "print(-9223372036854775807\n-\n2)"

/-- A function whose second parameter has the name of the first. -/
def echoingSource : String := "func f(a : int,\n\na : int) \x7b \x7d"

/-- The lines of `sprawlingSource` in order, with the line of its overflow, and
    the line of the parameter at fault in `echoingSource`. -/
theorem lines_follow_source_sprawlingSource :
    (∃ program, parse sprawlingSource = .ok program ∧
      program.nodes.map Node.line = [1, 1, 2, 3, 4, 4, 5, 7, 7, 7, 7, 7, 9, 9, 9, 9, 10, 11] ∧
      (program.nodes.map Node.line).Pairwise (· ≤ ·) ∧
      (run sprawlingSource .unbounded).1 = .error (.runtime (.overflow 10)) ∧
      Occupied program.nodes 10) ∧
    ∃ program, parse echoingSource = .ok program ∧
      check echoingSource = .error (.check (.duplicateDeclaration "a" 3)) ∧
      Occupied program.nodes 3 := by
  have hlines : (parse sprawlingSource).toOption.map (fun program =>
      program.nodes.map Node.line) =
        some [1, 1, 2, 3, 4, 4, 5, 7, 7, 7, 7, 7, 9, 9, 9, 9, 10, 11] := by decide +kernel
  have hrun : (run sprawlingSource .unbounded).1 = .error (.runtime (.overflow 10)) := by
    decide +kernel
  have hcheck : (parse echoingSource).isOk = true ∧
      check echoingSource = .error (.check (.duplicateDeclaration "a" 3)) := by decide +kernel
  constructor
  · cases hparse : parse sprawlingSource with
    | error e => simp only [hparse, Except.toOption, Option.map_none, reduceCtorEq] at hlines
    | ok program =>
        simp only [hparse, Except.toOption, Option.map_some, Option.some.injEq] at hlines
        rcases lines_follow_source hparse with ⟨hordered, _, _, hplaced⟩
        exact ⟨program, rfl, hlines, hordered, hrun, hplaced .unbounded _ 10 hrun rfl⟩
  · cases hparse : parse echoingSource with
    | error e =>
        rw [hparse] at hcheck
        cases hcheck.1
    | ok program =>
        exact ⟨program, rfl, hcheck.2, (lines_follow_source hparse).2.2.1 _ hcheck.2⟩

end Scriptlet
