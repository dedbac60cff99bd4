import Scriptlet.Proofs.Typing.Lexical

/-!
# Checking Among More Names

A block that passes the lexical check still passes when more names are known
around it, as long as all that it could mention still means what it meant. This
is what the body of a function needs. It is checked where the function stands,
among the names that are declared up to there, and it may run much later, among
all names of the program.

New names can get in the way of a declaration, but only in the innermost layer:
further out a name may be declared anew. So the innermost layers have to agree,
and of the others it is enough that every name that was known is known as the
same thing.

## Main definitions

* `Lexical.Covers`: Names among which the same and more is known.

## Theorems

* `Lexical.covers_enter`, `Lexical.covers_declare`: What keeps names covered.
* `Lexical.typeOf_of_variables`: A type depends on variables only.
* `Lexical.checkBlock_of_covers`: A block that passes among some names passes
  among names that cover them.
-/

namespace Scriptlet

open Outcome

namespace Lexical

/-- Every name that is known among `fewer` is known as the same thing among
    `more`, and the innermost layers declare the same. -/
structure Covers (fewer more : Nest Binding) : Prop where
  top : ∀ name, more.top.get? name = fewer.top.get? name
  known : ∀ name binding, fewer.get? name = some binding → more.get? name = some binding

variable {fewer more : Nest Binding}

theorem covers_enter (h : Covers fewer more) : Covers fewer.enter more.enter where
  top _ := rfl
  known name binding hname := by
    rw [Nest.get?_enter] at hname ⊢
    exact h.known name binding hname

theorem covers_declare (h : Covers fewer more) (name : String) (binding : Binding) :
    Covers (fewer.declare name binding) (more.declare name binding) where
  top other := by
    by_cases hother : other = name
    · rw [hother, Nest.declare, Nest.declare, Table.get?_insert_self, Table.get?_insert_self]
    · rw [Nest.declare, Nest.declare, Table.get?_insert_other _ _ hother,
        Table.get?_insert_other _ _ hother]
      exact h.top other
  known other found hfound := by
    by_cases hother : other = name
    · rw [hother, Nest.get?_declare_self] at hfound ⊢
      exact hfound
    · rw [Nest.get?_declare_other _ _ hother] at hfound ⊢
      exact h.known other found hfound

/-! ### Single rules -/

section Variables

-- For types it is enough that variables stay known: an expression that has a type mentions nothing
-- else.
variable (h : ∀ name ty, fewer.get? name = some (.var ty) → more.get? name = some (.var ty))

include h

theorem variableTy_of_variables {name : String} {line : Nat} {ty : Ty}
    (hty : variableTy fewer name line = .ok ty) : variableTy more name line = .ok ty :=
  variableTy_eq_ok.mpr (h name ty (variableTy_eq_ok.mp hty))

theorem typeOf_of_variables {expr : Expr} {ty : Ty} (hty : typeOf fewer expr = .ok ty) :
    typeOf more expr = .ok ty := by
  induction expr generalizing ty with
  | number value line => exact hty
  | literal value line => exact hty
  | var name line => exact variableTy_of_variables h hty
  | arith op left right line ihl ihr =>
      rw [typeOf] at hty ⊢
      rcases except_bind_eq_ok.mp hty with ⟨leftTy, hleft, hrest⟩
      rcases except_bind_eq_ok.mp hrest with ⟨rightTy, hright, hresult⟩
      rw [ihl hleft, ihr hright]
      exact hresult
  | signed sign operand line ih =>
      rw [typeOf] at hty ⊢
      rcases except_bind_eq_ok.mp hty with ⟨operandTy, hoperand, hresult⟩
      rw [ih hoperand]
      exact hresult
  | compare order left right line ihl ihr =>
      rw [typeOf] at hty ⊢
      rcases except_bind_eq_ok.mp hty with ⟨leftTy, hleft, hrest⟩
      rcases except_bind_eq_ok.mp hrest with ⟨rightTy, hright, hresult⟩
      rw [ihl hleft, ihr hright]
      exact hresult

end Variables

theorem variableTy_of_covers (h : Covers fewer more) {name : String} {line : Nat} {ty : Ty}
    (hty : variableTy fewer name line = .ok ty) : variableTy more name line = .ok ty :=
  variableTy_of_variables (fun other _ => h.known other _) hty

theorem typeOf_of_covers (h : Covers fewer more) {expr : Expr} {ty : Ty}
    (hty : typeOf fewer expr = .ok ty) : typeOf more expr = .ok ty :=
  typeOf_of_variables (fun other _ => h.known other _) hty

theorem declare_of_covers (h : Covers fewer more) {name : String} {binding : Binding} {line : Nat}
    {after : Nest Binding} (hdeclare : declare fewer name binding line = .ok after) :
    ∃ after', declare more name binding line = .ok after' ∧ Covers after after' := by
  rcases declare_eq_ok hdeclare with ⟨hfree, rfl⟩
  refine ⟨more.declare name binding, ?_, covers_declare h name binding⟩
  rw [declare, Table.contains, h.top, hfree]
  rfl

theorem declareParams_of_covers {params : List Param} {fewer more after : Nest Binding}
    (h : Covers fewer more) (hparams : declareParams fewer params = .ok after) :
    ∃ after', declareParams more params = .ok after' ∧ Covers after after' := by
  induction params generalizing fewer more with
  | nil =>
      cases hparams
      exact ⟨more, rfl, h⟩
  | cons param rest ih =>
      rw [declareParams] at hparams
      rcases except_bind_eq_ok.mp hparams with ⟨mid, hmid, hrest⟩
      rcases declare_of_covers h hmid with ⟨mid', hmid', hcovers⟩
      rcases ih hcovers hrest with ⟨after', hafter', hlast⟩
      refine ⟨after', ?_, hlast⟩
      rw [declareParams, hmid']
      exact hafter'

/-! ### Programs -/

-- By recursion over the program. What a block inside declares is dropped behind it, so there only
-- the block itself has to pass.
mutual

theorem checkStatement_of_covers : ∀ (statement : Statement) {fewer more after : Nest Binding},
    Covers fewer more → checkStatement fewer statement = .ok after →
    ∃ after', checkStatement more statement = .ok after' ∧ Covers after after'
  | .assign name (some declared) value line, fewer, more, after, h, hcheck => by
      rw [checkStatement] at hcheck ⊢
      rcases except_bind_eq_ok.mp hcheck with ⟨found, hfound, hdeclare⟩
      rw [typeOf_of_covers h hfound]
      by_cases hsame : found = declared
      · rw [if_pos hsame] at hdeclare
        simp only [bind, Except.bind, if_pos hsame]
        exact declare_of_covers h hdeclare
      · rw [if_neg hsame] at hdeclare
        cases hdeclare
  | .assign name none value line, fewer, more, after, h, hcheck => by
      rw [checkStatement] at hcheck ⊢
      rcases except_bind_eq_ok.mp hcheck with ⟨declared, hdeclared, hrest⟩
      rcases except_bind_eq_ok.mp hrest with ⟨found, hfound, hresult⟩
      rw [variableTy_of_covers h hdeclared, typeOf_of_covers h hfound]
      by_cases hsame : found = declared
      · rw [if_pos hsame] at hresult
        cases hresult
        simp only [bind, Except.bind, if_pos hsame]
        exact ⟨more, rfl, h⟩
      · rw [if_neg hsame] at hresult
        cases hresult
  | .branch condition whenTrue none line, fewer, more, after, h, hcheck => by
      rw [checkStatement] at hcheck ⊢
      rcases except_bind_eq_ok.mp hcheck with ⟨ty, hty, hblock⟩
      rcases except_bind_eq_ok.mp hblock with ⟨inner, hinner, hresult⟩
      cases hresult
      rcases checkBlock_of_covers whenTrue (covers_enter h) hinner with ⟨inner', hinner', _⟩
      rw [typeOf_of_covers h hty, hinner']
      exact ⟨more, rfl, h⟩
  | .branch condition whenTrue (some block) line, fewer, more, after, h, hcheck => by
      rw [checkStatement] at hcheck ⊢
      rcases except_bind_eq_ok.mp hcheck with ⟨ty, hty, hblock⟩
      rcases except_bind_eq_ok.mp hblock with ⟨inner, hinner, hrest⟩
      rcases except_bind_eq_ok.mp hrest with ⟨other, hother, hresult⟩
      cases hresult
      rcases checkBlock_of_covers whenTrue (covers_enter h) hinner with ⟨inner', hinner', _⟩
      rcases checkBlock_of_covers block (covers_enter h) hother with ⟨other', hother', _⟩
      rw [typeOf_of_covers h hty, hinner']
      simp only [bind, Except.bind, hother']
      exact ⟨more, rfl, h⟩
  | .function name params body line, fewer, more, after, h, hcheck => by
      rw [checkStatement] at hcheck ⊢
      rcases except_bind_eq_ok.mp hcheck with ⟨outer, houter, hrest⟩
      rcases except_bind_eq_ok.mp hrest with ⟨inner, hinner, hblock⟩
      rcases except_bind_eq_ok.mp hblock with ⟨last, hlast, hresult⟩
      cases hresult
      rcases declare_of_covers h houter with ⟨outer', houter', hcovers⟩
      rcases declareParams_of_covers (covers_enter hcovers) hinner with ⟨inner', hinner', hinside⟩
      rcases checkBlock_of_covers body hinside hlast with ⟨last', hlast', _⟩
      rw [houter']
      simp only [bind, Except.bind, hinner', hlast']
      exact ⟨outer', rfl, hcovers⟩
  | .print value line, fewer, more, after, h, hcheck => by
      rw [checkStatement] at hcheck ⊢
      rcases except_bind_eq_ok.mp hcheck with ⟨ty, hty, hresult⟩
      cases hresult
      rw [typeOf_of_covers h hty]
      exact ⟨more, rfl, h⟩
  | .empty, fewer, more, after, h, hcheck => by
      rw [checkStatement] at hcheck ⊢
      cases hcheck
      exact ⟨more, rfl, h⟩

theorem checkBlock_of_covers : ∀ (block : Block) {fewer more after : Nest Binding},
    Covers fewer more → checkBlock fewer block = .ok after →
    ∃ after', checkBlock more block = .ok after' ∧ Covers after after'
  | .mk statements line, fewer, more, after, h, hcheck => by
      rw [checkBlock] at hcheck ⊢
      exact checkStatements_of_covers statements h hcheck

theorem checkStatements_of_covers :
    ∀ (statements : List Statement) {fewer more after : Nest Binding}, Covers fewer more →
    checkStatements fewer statements = .ok after →
    ∃ after', checkStatements more statements = .ok after' ∧ Covers after after'
  | [], fewer, more, after, h, hcheck => by
      rw [checkStatements] at hcheck ⊢
      cases hcheck
      exact ⟨more, rfl, h⟩
  | statement :: rest, fewer, more, after, h, hcheck => by
      rw [checkStatements] at hcheck ⊢
      rcases except_bind_eq_ok.mp hcheck with ⟨mid, hmid, hrest⟩
      rcases checkStatement_of_covers statement h hmid with ⟨mid', hmid', hcovers⟩
      rw [hmid']
      exact checkStatements_of_covers rest hcovers hrest

end

end Lexical

end Scriptlet
