import Scriptlet.Proofs.Nest
import Scriptlet.Proofs.Outcome
import Scriptlet.Typing.Expr

/-!
# Lexical Checking

The rules of names and types, written over nested tables of names alone. A
block is checked inside the names known where it stands, what it declares is
forgotten behind it, and nothing is kept but the names that are in force. There
is no tree of scopes, no index and no place to record anything, so this is the
checker to read in order to know which programs are accepted.

The checker hands on the names after each statement. A statement that declares
nothing in its own block hands on what it was given, whatever the blocks inside
it declared.

## Main definitions

* `Binding`: What a name stands for.
* `Lexical.typeOf`: The type of an expression among some names.
* `Lexical.checkStatement`, `Lexical.checkStatements`: The names after a
  statement or several, or the first fault.

## Theorems

* `Lexical.checkStatement_branch` and the like: When a statement passes.
* `Lexical.below_checkStatement`: A statement changes the names of its own layer
  only.
-/

namespace Scriptlet

/-- What a name stands for: a variable of some type, or a function. -/
inductive Binding where
  | var (ty : Ty)
  | func
  deriving DecidableEq, Repr

/-- The type of the variable that a name stands for, if it is one. -/
def Binding.ty? : Binding → Option Ty
  | .var ty => some ty
  | .func => none

namespace Lexical

/-- The type of the variable that a name stands for. -/
def variableTy (names : Nest Binding) (name : String) (line : Nat) : Except CheckError Ty :=
  match names.get? name with
  | some (.var ty) => .ok ty
  | some .func => .error (.notAVariable name line)
  | none => .error (.undefinedVariable name line)

/-- The type of an expression, found from left to right. -/
def typeOf (names : Nest Binding) : Expr → Except CheckError Ty
  | .number _ _ => .ok .int
  | .literal value _ => .ok value.ty
  | .var name line => variableTy names name line
  | .arith op left right line => do
    let leftTy ← typeOf names left
    let rightTy ← typeOf names right
    match Ty.arith? op leftTy rightTy with
    | some ty => .ok ty
    | none => .error (.invalidOperands op.symbol leftTy rightTy line)
  | .signed sign operand line => do
    let ty ← typeOf names operand
    if ty.isNumeric then .ok ty else .error (.invalidOperand sign.symbol ty line)
  | .compare order left right line => do
    let leftTy ← typeOf names left
    let rightTy ← typeOf names right
    if leftTy.comparable rightTy then .ok .bool
    else .error (.invalidOperands order.symbol leftTy rightTy line)

/-- The names with one more in the innermost layer, unless it is taken there. -/
def declare (names : Nest Binding) (name : String) (binding : Binding) (line : Nat) :
    Except CheckError (Nest Binding) :=
  if names.top.contains name then .error (.duplicateDeclaration name line)
  else .ok (names.declare name binding)

/-- The names with the parameters of a function, in order. -/
def declareParams (names : Nest Binding) : List Param → Except CheckError (Nest Binding)
  | [] => .ok names
  | param :: rest => do
    let extended ← declare names param.name (.var param.ty) param.line
    declareParams extended rest

mutual

/-- The names after a statement. -/
def checkStatement (names : Nest Binding) : Statement → Except CheckError (Nest Binding)
  | .assign name (some declared) value line => do
    let found ← typeOf names value
    if found = declared then declare names name (.var declared) line
    else .error (.invalidAssignment name declared found line)
  | .assign name none value line => do
    let declared ← variableTy names name line
    let found ← typeOf names value
    if found = declared then .ok names
    else .error (.invalidAssignment name declared found line)
  | .branch condition whenTrue whenFalse _ => do
    let _ ← typeOf names condition
    let _ ← checkBlock names.enter whenTrue
    match whenFalse with
    | none => .ok names
    | some block => do
      let _ ← checkBlock names.enter block
      .ok names
  | .function name params body line => do
    -- The name is known inside the body, where it is no variable.
    let outer ← declare names name .func line
    let inner ← declareParams outer.enter params
    let _ ← checkBlock inner body
    .ok outer
  | .print value _ => do
    let _ ← typeOf names value
    .ok names
  | .empty => .ok names

/-- The names after the statements of a block. -/
def checkBlock (names : Nest Binding) : Block → Except CheckError (Nest Binding)
  | .mk statements _ => checkStatements names statements

/-- The names after some statements. -/
def checkStatements (names : Nest Binding) : List Statement → Except CheckError (Nest Binding)
  | [] => .ok names
  | statement :: rest => do
    let after ← checkStatement names statement
    checkStatements after rest

end

theorem variableTy_eq_ok {names : Nest Binding} {name : String} {line : Nat} {ty : Ty} :
    variableTy names name line = .ok ty ↔ names.get? name = some (.var ty) := by
  unfold variableTy
  cases names.get? name with
  | none => simp only [reduceCtorEq]
  | some binding =>
      cases binding with
      | var found => simp only [Except.ok.injEq, Option.some.injEq, Binding.var.injEq]
      | func => simp only [reduceCtorEq, Option.some.injEq]

theorem declare_eq_ok {names after : Nest Binding} {name : String} {binding : Binding}
    {line : Nat} (h : declare names name binding line = .ok after) :
    names.top.get? name = none ∧ after = names.declare name binding := by
  unfold declare at h
  split at h
  · exact absurd h (by simp only [reduceCtorEq, not_false_eq_true])
  · rename_i hfree
    refine ⟨?_, (Except.ok.inj h).symm⟩
    simpa only [Table.contains, Bool.not_eq_true, Option.isSome_eq_false_iff,
      Option.isNone_iff_eq_none] using hfree

/-! ### When a statement passes -/

section Passes

variable {names after : Nest Binding} {value condition : Expr} {line : Nat}

theorem checkStatement_declaration {name : String} {ty : Ty} :
    checkStatement names (.assign name (some ty) value line) = .ok after ↔
      typeOf names value = .ok ty ∧ declare names name (.var ty) line = .ok after := by
  rw [checkStatement, Outcome.except_bind_eq_ok]
  constructor
  · rintro ⟨found, hfound, hdeclare⟩
    by_cases hsame : found = ty
    · rw [if_pos hsame] at hdeclare
      exact ⟨hsame ▸ hfound, hdeclare⟩
    · rw [if_neg hsame] at hdeclare
      cases hdeclare
  · rintro ⟨hty, hdeclare⟩
    exact ⟨ty, hty, by rw [if_pos rfl, hdeclare]⟩

theorem checkStatement_assignment {name : String} :
    checkStatement names (.assign name none value line) = .ok after ↔
      (∃ ty, variableTy names name line = .ok ty ∧ typeOf names value = .ok ty) ∧
        after = names := by
  rw [checkStatement, Outcome.except_bind_eq_ok]
  constructor
  · rintro ⟨ty, hty, hrest⟩
    rcases Outcome.except_bind_eq_ok.mp hrest with ⟨found, hfound, hresult⟩
    by_cases hsame : found = ty
    · rw [if_pos hsame] at hresult
      exact ⟨⟨ty, hty, hsame ▸ hfound⟩, (Except.ok.inj hresult).symm⟩
    · rw [if_neg hsame] at hresult
      cases hresult
  · rintro ⟨⟨ty, hty, hvalue⟩, rfl⟩
    exact ⟨ty, hty, Outcome.except_bind_eq_ok.mpr ⟨ty, hvalue, if_pos rfl⟩⟩

/-- A conditional passes if its condition has a type and its blocks pass, each
    in a layer of its own. -/
theorem checkStatement_branch {whenTrue : Block} {whenFalse : Option Block} :
    checkStatement names (.branch condition whenTrue whenFalse line) = .ok after ↔
      (∃ ty, typeOf names condition = .ok ty) ∧
      (∃ inner, checkBlock names.enter whenTrue = .ok inner) ∧
      (∀ block, whenFalse = some block → ∃ inner, checkBlock names.enter block = .ok inner) ∧
      after = names := by
  cases whenFalse with
  | none =>
      rw [checkStatement, Outcome.except_bind_eq_ok]
      constructor
      · rintro ⟨ty, hty, hrest⟩
        rcases Outcome.except_bind_eq_ok.mp hrest with ⟨inner, hinner, hresult⟩
        exact ⟨⟨ty, hty⟩, ⟨inner, hinner⟩, nofun, (Except.ok.inj hresult).symm⟩
      · rintro ⟨⟨ty, hty⟩, ⟨inner, hinner⟩, _, rfl⟩
        exact ⟨ty, hty, Outcome.except_bind_eq_ok.mpr ⟨inner, hinner, rfl⟩⟩
  | some block =>
      rw [checkStatement, Outcome.except_bind_eq_ok]
      constructor
      · rintro ⟨ty, hty, hrest⟩
        rcases Outcome.except_bind_eq_ok.mp hrest with ⟨inner, hinner, hlast⟩
        rcases Outcome.except_bind_eq_ok.mp hlast with ⟨other, hother, hresult⟩
        refine ⟨⟨ty, hty⟩, ⟨inner, hinner⟩, ?_, (Except.ok.inj hresult).symm⟩
        rintro _ ⟨⟩
        exact ⟨other, hother⟩
      · rintro ⟨⟨ty, hty⟩, ⟨inner, hinner⟩, hfalse, rfl⟩
        rcases hfalse block rfl with ⟨other, hother⟩
        refine ⟨ty, hty, Outcome.except_bind_eq_ok.mpr ⟨inner, hinner, ?_⟩⟩
        exact Outcome.except_bind_eq_ok.mpr ⟨other, hother, rfl⟩

/-- A function that passes adds its own name and nothing else. -/
theorem checkStatement_function {name : String} {params : List Param} {body : Block}
    (h : checkStatement names (.function name params body line) = .ok after) :
    declare names name .func line = .ok after := by
  rw [checkStatement] at h
  rcases Outcome.except_bind_eq_ok.mp h with ⟨outer, houter, hrest⟩
  rcases Outcome.except_bind_eq_ok.mp hrest with ⟨inner, _, hbody⟩
  rcases Outcome.except_bind_eq_ok.mp hbody with ⟨last, _, hresult⟩
  cases hresult
  exact houter

theorem checkStatement_print :
    checkStatement names (.print value line) = .ok after ↔
      (∃ ty, typeOf names value = .ok ty) ∧ after = names := by
  rw [checkStatement, Outcome.except_bind_eq_ok]
  constructor
  · rintro ⟨ty, hty, hresult⟩
    exact ⟨⟨ty, hty⟩, (Except.ok.inj hresult).symm⟩
  · rintro ⟨⟨ty, hty⟩, rfl⟩
    exact ⟨ty, hty, rfl⟩

theorem checkStatement_empty :
    checkStatement names .empty = .ok after ↔ after = names := by
  rw [checkStatement, Except.ok.injEq, eq_comm]

theorem checkStatements_cons {statement : Statement} {rest : List Statement} :
    checkStatements names (statement :: rest) = .ok after ↔
      ∃ mid, checkStatement names statement = .ok mid ∧ checkStatements mid rest = .ok after := by
  rw [checkStatements, Outcome.except_bind_eq_ok]

end Passes

/-- A statement changes the names of its own layer only. Blocks inside it are
    checked in layers of their own, which are dropped. -/
theorem below_checkStatement {names after : Nest Binding} {statement : Statement}
    (h : checkStatement names statement = .ok after) : after.below = names.below := by
  cases statement with
  | assign name declared value line =>
      cases declared with
      | none =>
          rw [checkStatement] at h
          rcases Outcome.except_bind_eq_ok.mp h with ⟨ty, _, h⟩
          rcases Outcome.except_bind_eq_ok.mp h with ⟨found, _, h⟩
          split at h
          · rw [Except.ok.inj h]
          · cases h
      | some ty =>
          rw [checkStatement] at h
          rcases Outcome.except_bind_eq_ok.mp h with ⟨found, _, h⟩
          split at h
          · rw [(declare_eq_ok h).2]
            rfl
          · cases h
  | branch condition whenTrue whenFalse line =>
      cases whenFalse with
      | none =>
          rw [checkStatement] at h
          rcases Outcome.except_bind_eq_ok.mp h with ⟨ty, _, h⟩
          rcases Outcome.except_bind_eq_ok.mp h with ⟨inner, _, h⟩
          rw [Except.ok.inj h]
      | some block =>
          rw [checkStatement] at h
          rcases Outcome.except_bind_eq_ok.mp h with ⟨ty, _, h⟩
          rcases Outcome.except_bind_eq_ok.mp h with ⟨inner, _, h⟩
          rcases Outcome.except_bind_eq_ok.mp h with ⟨inner', _, h⟩
          rw [Except.ok.inj h]
  | function name params body line =>
      rw [checkStatement] at h
      rcases Outcome.except_bind_eq_ok.mp h with ⟨outer, houter, h⟩
      rcases Outcome.except_bind_eq_ok.mp h with ⟨inner, _, h⟩
      rcases Outcome.except_bind_eq_ok.mp h with ⟨last, _, h⟩
      rw [← Except.ok.inj h, (declare_eq_ok houter).2]
      rfl
  | print value line =>
      rw [checkStatement] at h
      rcases Outcome.except_bind_eq_ok.mp h with ⟨ty, _, h⟩
      rw [Except.ok.inj h]
  | empty =>
      rw [checkStatement] at h
      rw [Except.ok.inj h]

end Lexical

end Scriptlet
