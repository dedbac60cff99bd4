import Scriptlet.Proofs.Typing.Agreement
import Scriptlet.Proofs.Typing.Requirements

/-!
# The Checker Finds the First Violated Requirement

The checker declares names in a tree as it goes, moves about in it and gives up
at the first fault. The requirements of a program are known without any of
that. Yet the two agree: a program is accepted exactly if it meets all that it
asks for, and a refusal gives the error of the first requirement that it does
not meet.

The lexical rules stand between the two. They agree with the checker, and here
it is shown that they settle the requirements one after the other: what they
accept is met, and what they report is violated with everything before it met.
Because that is a property of outcomes that is handed on by sequencing, each
rule has to be looked at only for the requirement that it adds.

## Main definitions

* `Settles`: What an outcome says about requirements.

## Theorems

* `settles_bind`: Requirements are settled one after the other.
* `hasType_of_typeOf`: The type that is found is the type that an expression has.
* `settles_typeOf`, `settles_checkStatement`, `settles_checkBlock`: The lexical
  rules settle what they look at.
* `analyze_iff_lawful`: The checker accepts what meets its requirements, and
  reports the first that is violated.
-/

namespace Scriptlet

namespace Lawful

variable {α β : Type}

/-- A success says that all of some requirements are met, a failure that the
    first of them that is not met is violated with the error. -/
def Settles (requirements : List Requirement) : Except CheckError α → Prop
  | .ok _ => ∀ requirement ∈ requirements, requirement.Met
  | .error e => FirstViolated requirements e

theorem settles_nil (a : α) : Settles [] (.ok a : Except CheckError α) := by
  intro requirement hmem
  cases hmem

theorem settles_met (requirement : Requirement) (h : requirement.Met) (a : α) :
    Settles [requirement] (.ok a : Except CheckError α) := by
  intro r hr
  rw [List.mem_singleton.mp hr]
  exact h

theorem settles_violated {requirement : Requirement} {e : CheckError}
    (h : requirement.Violated e) (later : List Requirement) :
    Settles (requirement :: later) (.error e : Except CheckError α) :=
  .here later h

/-- Requirements that are settled one after the other are settled together. The
    second part is only asked about the values that the first one gives. -/
theorem settles_bind {first second : List Requirement} {x : Except CheckError α}
    {f : α → Except CheckError β} (hx : Settles first x)
    (hf : ∀ a, x = .ok a → Settles second (f a)) : Settles (first ++ second) (x >>= f) := by
  cases x with
  | error e => exact firstViolated_append_left hx second
  | ok a =>
      have hsecond := hf a rfl
      change Settles (first ++ second) (f a)
      cases hfa : f a with
      | error e =>
          rw [hfa] at hsecond
          exact firstViolated_append_right hx hsecond
      | ok b =>
          rw [hfa] at hsecond
          intro requirement hmem
          rcases List.mem_append.mp hmem with hfirst | hlater
          · exact hx requirement hfirst
          · exact hsecond requirement hlater

/-- A value that is only waited for changes nothing. -/
theorem settles_bind_ok {requirements : List Requirement} {x : Except CheckError α}
    (h : Settles requirements x) (f : α → β) :
    Settles requirements (x >>= fun a => .ok (f a)) := by
  cases x with
  | error e => exact h
  | ok a => exact h

variable {names : Nest Binding}

/-! ### Expressions -/

theorem settles_variableTy (name : String) (line : Nat) :
    Settles [⟨names, .reference name line⟩] (Lexical.variableTy names name line) := by
  rw [Lexical.variableTy]
  cases hget : names.get? name with
  | none =>
      refine settles_violated (.unknown line ?_) []
      intro binding hresolves
      rw [Resolves, hget] at hresolves
      cases hresolves
  | some binding =>
      cases binding with
      | var ty => exact settles_met ⟨names, .reference name line⟩ ⟨ty, hget⟩ ty
      | func => exact settles_violated (.function line hget) []

/-- The type that is found for an expression is the type that it has. -/
theorem hasType_of_typeOf {expr : Expr} {ty : Ty} (h : Lexical.typeOf names expr = .ok ty) :
    HasType names expr ty := by
  induction expr generalizing ty with
  | number value line =>
      cases h
      exact .number value line
  | literal value line =>
      cases h
      cases value with
      | str content => exact .str content line
      | bool value => exact .bool value line
  | var name line => exact .var line (Lexical.variableTy_eq_ok.mp h)
  | arith op left right line ihleft ihright =>
      rw [Lexical.typeOf] at h
      rcases Outcome.except_bind_eq_ok.mp h with ⟨leftTy, hleft, h⟩
      rcases Outcome.except_bind_eq_ok.mp h with ⟨rightTy, hright, h⟩
      cases hresult : Ty.arith? op leftTy rightTy with
      | none =>
          rw [hresult] at h
          cases h
      | some result =>
          rw [hresult] at h
          cases h
          exact .arith line (ihleft hleft) (ihright hright) hresult
  | signed sign operand line ih =>
      rw [Lexical.typeOf] at h
      rcases Outcome.except_bind_eq_ok.mp h with ⟨found, hfound, h⟩
      split at h
      · rename_i hnumeric
        cases h
        exact .signed sign line (ih hfound) hnumeric
      · cases h
  | compare order left right line ihleft ihright =>
      rw [Lexical.typeOf] at h
      rcases Outcome.except_bind_eq_ok.mp h with ⟨leftTy, hleft, h⟩
      rcases Outcome.except_bind_eq_ok.mp h with ⟨rightTy, hright, h⟩
      split at h
      · rename_i hcomparable
        cases h
        exact .compare order line (ihleft hleft) (ihright hright) hcomparable
      · cases h

theorem settles_typeOf (expr : Expr) :
    Settles (ofExpr names expr) (Lexical.typeOf names expr) := by
  induction expr with
  | number value line => exact settles_nil _
  | literal value line => exact settles_nil _
  | var name line => exact settles_variableTy name line
  | arith op left right line ihleft ihright =>
      rw [ofExpr, Lexical.typeOf]
      refine settles_bind ihleft fun leftTy hleft => settles_bind ihright fun rightTy hright => ?_
      have hfirst := hasType_of_typeOf hleft
      have hsecond := hasType_of_typeOf hright
      cases hresult : Ty.arith? op leftTy rightTy with
      | none => exact settles_violated (.operands line hfirst hsecond hresult) []
      | some ty =>
          exact settles_met ⟨names, .operands op left right line⟩
            ⟨leftTy, rightTy, ty, hfirst, hsecond, hresult⟩ ty
  | signed sign operand line ih =>
      rw [ofExpr, Lexical.typeOf]
      refine settles_bind ih fun ty hty => ?_
      have hinner := hasType_of_typeOf hty
      cases hnumeric : ty.isNumeric with
      | false => exact settles_violated (.operand sign line hinner hnumeric) []
      | true =>
          exact settles_met ⟨names, .operand sign operand line⟩
            ⟨ty, hinner, hnumeric⟩ ty
  | compare order left right line ihleft ihright =>
      rw [ofExpr, Lexical.typeOf]
      refine settles_bind ihleft fun leftTy hleft => settles_bind ihright fun rightTy hright => ?_
      have hfirst := hasType_of_typeOf hleft
      have hsecond := hasType_of_typeOf hright
      cases hcomparable : leftTy.comparable rightTy with
      | false => exact settles_violated (.sides order line hfirst hsecond hcomparable) []
      | true =>
          exact settles_met ⟨names, .sides order left right line⟩
            ⟨leftTy, rightTy, hfirst, hsecond, hcomparable⟩ Ty.bool

/-! ### Declarations -/

theorem settles_declare (name : String) (binding : Binding) (line : Nat) :
    Settles [⟨names, .free name line⟩] (Lexical.declare names name binding line) := by
  rw [Lexical.declare]
  cases hget : names.top.get? name with
  | none =>
      rw [Table.contains, hget]
      exact settles_met ⟨names, .free name line⟩ hget _
  | some taken =>
      rw [Table.contains, hget]
      refine settles_violated (.taken line ?_) []
      rw [IsFree, hget]
      simp only [reduceCtorEq, not_false_eq_true]

theorem declareParams_eq_ok {params : List Param} {after : Nest Binding}
    (h : Lexical.declareParams names params = .ok after) : after = behindParams names params := by
  induction params generalizing names with
  | nil =>
      cases h
      rfl
  | cons param rest ih =>
      rw [Lexical.declareParams] at h
      rcases Outcome.except_bind_eq_ok.mp h with ⟨extended, hextended, h⟩
      rw [(Lexical.declare_eq_ok hextended).2] at h
      exact ih h

theorem settles_declareParams (params : List Param) :
    Settles (ofParams names params) (Lexical.declareParams names params) := by
  induction params generalizing names with
  | nil => exact settles_nil names
  | cons param rest ih =>
      rw [ofParams, Lexical.declareParams, ← List.singleton_append]
      refine settles_bind (settles_declare param.name _ param.line) fun extended hextended => ?_
      rw [(Lexical.declare_eq_ok hextended).2]
      exact ih

/-! ### Statements -/

/-- The names that are handed on behind a statement are those that its text
    declares. -/
theorem checkStatement_eq_ok {statement : Statement} {after : Nest Binding}
    (h : Lexical.checkStatement names statement = .ok after) : after = behind names statement := by
  cases statement with
  | assign name declared value line =>
      cases declared with
      | none =>
          rw [Lexical.checkStatement] at h
          rcases Outcome.except_bind_eq_ok.mp h with ⟨ty, _, h⟩
          rcases Outcome.except_bind_eq_ok.mp h with ⟨found, _, h⟩
          split at h
          · exact (Except.ok.inj h).symm
          · cases h
      | some ty =>
          rw [Lexical.checkStatement] at h
          rcases Outcome.except_bind_eq_ok.mp h with ⟨found, _, h⟩
          split at h
          · exact (Lexical.declare_eq_ok h).2
          · cases h
  | branch condition whenTrue whenFalse line =>
      cases whenFalse with
      | none =>
          rw [Lexical.checkStatement] at h
          rcases Outcome.except_bind_eq_ok.mp h with ⟨ty, _, h⟩
          rcases Outcome.except_bind_eq_ok.mp h with ⟨inner, _, h⟩
          exact (Except.ok.inj h).symm
      | some block =>
          rw [Lexical.checkStatement] at h
          rcases Outcome.except_bind_eq_ok.mp h with ⟨ty, _, h⟩
          rcases Outcome.except_bind_eq_ok.mp h with ⟨inner, _, h⟩
          rcases Outcome.except_bind_eq_ok.mp h with ⟨inner', _, h⟩
          exact (Except.ok.inj h).symm
  | function name params body line =>
      rw [Lexical.checkStatement] at h
      rcases Outcome.except_bind_eq_ok.mp h with ⟨outer, houter, h⟩
      rcases Outcome.except_bind_eq_ok.mp h with ⟨inner, _, h⟩
      rcases Outcome.except_bind_eq_ok.mp h with ⟨last, _, h⟩
      rw [← Except.ok.inj h]
      exact (Lexical.declare_eq_ok houter).2
  | print value line =>
      rw [Lexical.checkStatement] at h
      rcases Outcome.except_bind_eq_ok.mp h with ⟨ty, _, h⟩
      exact (Except.ok.inj h).symm
  | empty => exact (Except.ok.inj h).symm

theorem settles_declaration (name : String) (ty : Ty) (value : Expr) (line : Nat) :
    Settles (ofStatement names (.assign name (some ty) value line))
      (Lexical.checkStatement names (.assign name (some ty) value line)) := by
  rw [ofStatement, Lexical.checkStatement]
  refine settles_bind (settles_typeOf value) fun found hfound => ?_
  have htyped := hasType_of_typeOf hfound
  by_cases hty : found = ty
  · rw [if_pos hty, ← List.singleton_append]
    -- The type fits, and what is left is the name.
    have hdeclared : Settles [⟨names, .declared name ty value line⟩]
        (.ok () : Except CheckError Unit) :=
      settles_met ⟨names, .declared name ty value line⟩ (hty ▸ htyped) ()
    exact settles_bind hdeclared fun _ _ => settles_declare name (.var ty) line
  · rw [if_neg hty]
    exact settles_violated (.declared name line htyped hty) _

theorem settles_assignment (name : String) (value : Expr) (line : Nat) :
    Settles (ofStatement names (.assign name none value line))
      (Lexical.checkStatement names (.assign name none value line)) := by
  rw [ofStatement, Lexical.checkStatement, ← List.singleton_append]
  refine settles_bind (settles_variableTy name line) fun ty hty => ?_
  refine settles_bind (settles_typeOf value) fun found hfound => ?_
  have hresolves := Lexical.variableTy_eq_ok.mp hty
  have htyped := hasType_of_typeOf hfound
  by_cases heq : found = ty
  · rw [if_pos heq]
    exact settles_met ⟨names, .assigned name value line⟩
      ⟨ty, hresolves, heq ▸ htyped⟩ names
  · rw [if_neg heq]
    exact settles_violated (.assigned line hresolves htyped heq) []

-- By recursion over the program, as the checker goes. A statement is looked at among whatever names
-- the statements before it have left.
mutual

theorem settles_checkStatement : ∀ (names : Nest Binding) (statement : Statement),
    Settles (ofStatement names statement) (Lexical.checkStatement names statement)
  | names, .assign name (some ty) value line => settles_declaration name ty value line
  | names, .assign name none value line => settles_assignment name value line
  | names, .branch condition whenTrue none line => by
      rw [ofStatement, Lexical.checkStatement, List.append_nil]
      refine settles_bind (settles_typeOf condition) fun ty _ => ?_
      exact settles_bind_ok (settles_checkBlock names.enter whenTrue) fun _ => names
  | names, .branch condition whenTrue (some block) line => by
      rw [ofStatement, Lexical.checkStatement]
      refine settles_bind (settles_typeOf condition) fun ty _ => ?_
      refine settles_bind (settles_checkBlock names.enter whenTrue) fun inner _ => ?_
      exact settles_bind_ok (settles_checkBlock names.enter block) fun _ => names
  | names, .function name params body line => by
      rw [ofStatement, Lexical.checkStatement, ← List.singleton_append]
      refine settles_bind (settles_declare name .func line) fun outer houter => ?_
      rw [(Lexical.declare_eq_ok houter).2]
      refine settles_bind (settles_declareParams params) fun inner hinner => ?_
      rw [declareParams_eq_ok hinner]
      exact settles_bind_ok (settles_checkBlock _ body) fun _ => _
  | names, .print value line => by
      rw [ofStatement, Lexical.checkStatement]
      exact settles_bind_ok (settles_typeOf value) fun _ => names
  | names, .empty => settles_nil names

theorem settles_checkBlock : ∀ (names : Nest Binding) (block : Block),
    Settles (ofBlock names block) (Lexical.checkBlock names block)
  | names, .mk statements line => by
      rw [ofBlock, Lexical.checkBlock]
      exact settles_checkStatements names statements

theorem settles_checkStatements : ∀ (names : Nest Binding) (statements : List Statement),
    Settles (ofStatements names statements) (Lexical.checkStatements names statements)
  | names, [] => settles_nil names
  | names, statement :: rest => by
      rw [ofStatements, Lexical.checkStatements]
      refine settles_bind (settles_checkStatement names statement) fun after hafter => ?_
      rw [checkStatement_eq_ok hafter]
      exact settles_checkStatements (behind names statement) rest

end

/-! ### Programs -/

theorem names_initial : ScopeTree.initial.names globalScope = .single := by
  rw [ScopeTree.names, ScopeTree.ancestors]
  rfl

/-- The checker says of a program what the lexical rules say of it, where
    nothing is declared around it. -/
theorem settles_analyze (program : Block) :
    Settles (requirements program) (analyze program) := by
  have hagree := Checker.verdict_checkBlock globalScope (.root 0) program .initial Nat.one_pos
  rw [names_initial] at hagree
  have hsettles := settles_checkBlock .single program
  rw [← hagree] at hsettles
  rw [requirements, analyze]
  cases hcheck : checkBlock globalScope (.root 0) program ScopeTree.initial with
  | ok u tree =>
      rw [hcheck] at hsettles
      exact hsettles
  | error e tree =>
      rw [hcheck] at hsettles
      exact hsettles

/-- A program is accepted exactly if every requirement of it is met, and it is
    refused with an error exactly if that is the error of the first requirement
    in source order that is not met. -/
theorem analyze_iff_lawful (program : Block) :
    ((∃ scopes, analyze program = .ok scopes) ↔
      ∀ requirement ∈ requirements program, requirement.Met) ∧
    ∀ e, analyze program = .error e ↔ FirstViolated (requirements program) e := by
  have hsettles := settles_analyze program
  cases hanalyze : analyze program with
  | ok scopes =>
      rw [hanalyze] at hsettles
      refine ⟨⟨fun _ => hsettles, fun _ => ⟨scopes, rfl⟩⟩, fun e => ⟨fun h => ?_, fun h => ?_⟩⟩
      · cases h
      · exact absurd h (not_firstViolated_of_met hsettles)
  | error error =>
      rw [hanalyze] at hsettles
      refine ⟨⟨fun h => ?_, fun h => ?_⟩, fun e => ⟨fun h => ?_, fun h => ?_⟩⟩
      · rcases h with ⟨scopes, h⟩
        cases h
      · exact absurd hsettles (not_firstViolated_of_met h)
      · cases h
        exact hsettles
      · rw [firstViolated_unique hsettles h]

end Lawful

end Scriptlet
