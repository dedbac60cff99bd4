import Scriptlet.Proofs.Grammar.Lookahead

/-!
# What Decides a Parse

A parser that succeeds, or that fails at a lexeme out of place, has been told
so by what it consumed and by the one lexeme ahead. Whatever stands behind that
lexeme, the outcome is the same. Nor does it matter how many more levels there
are to spend: only a parser that has run out of them could have gone on with
more.

So two parsers are compared, of which the second has at least the levels of the
first. Sequencing hands the property on. In a repetition the second parser has
a bound of its own, which is long enough because each step consumes.

## Main definitions

* `SyntaxError.Misplaced`: The errors that no more levels would mend.
* `Decided`: An outcome that no more levels would change.
* `Local`: What the first parser decides, the second decides the same by the
  lexemes consumed and the one ahead.
* `programWithin`: The parser of programs with another number of levels.

## Theorems

* `local_bind`, `local_iterate`: Sequences and repetitions.
* `local_factor`, `local_statements`, `local_program`: The parsers with more
  levels to spend.
-/

namespace Scriptlet

open Outcome Grammar

/-- A lexeme stands where no rule allows it, however deep the rules may
    nest. -/
def SyntaxError.Misplaced : SyntaxError → Prop
  | .unexpected _ _ _ => True
  | .missingSeparator _ _ => True
  | .nestingTooDeep _ _ => False

namespace Eager

variable {α β : Type}

/-- An outcome that no more levels would change: a success, or a lexeme out of
    place. -/
inductive Decided : EStateM.Result Stop (List Lexeme) α → Prop where
  | ok (a : α) (rest : List Lexeme) : Decided (.ok a rest)
  | misplaced {e : SyntaxError} (rest : List Lexeme) (h : e.Misplaced) :
      Decided (.error (.grammar e) rest)

/-- Whenever the first parser decides, it has consumed a phrase, and the second
    parser decides the same wherever that phrase stands with the same lexeme
    ahead. -/
def Local (p q : Eager α) : Prop :=
  ∀ lexemes, Decided (p lexemes) → ∃ phrase, lexemes = phrase ++ state (p lexemes) ∧
    ∀ other, other.head? = (state (p lexemes)).head? →
      q (phrase ++ other) = mapState (fun _ => other) (p lexemes)

/-! ### Sequences -/

theorem local_bind {p q : Eager α} {f g : α → Eager β} (hp : Local p q)
    (hf : ∀ a, Local (f a) (g a)) : Local (p >>= f) (q >>= g) := by
  intro lexemes hdecided
  cases hlexemes : p lexemes with
  | ok a mid =>
      rw [bind_of_ok hlexemes] at hdecided ⊢
      rcases hp lexemes (hlexemes ▸ .ok a mid) with ⟨first, hfirst, hsame⟩
      rcases hf a mid hdecided with ⟨second, hsecond, hother⟩
      rw [hlexemes] at hfirst hsame
      refine ⟨first ++ second, ?_, fun other hhead => ?_⟩
      · rw [List.append_assoc, ← hsecond]
        exact hfirst
      · -- The lexeme ahead of the second part is in its phrase or behind it.
        have hmid : (second ++ other).head? = mid.head? := by
          rw [List.head?_append, hhead, ← List.head?_append, ← hsecond]
        rw [List.append_assoc, bind_of_ok (hsame _ hmid), hother other hhead]
  | error stop mid =>
      rw [bind_of_error hlexemes] at hdecided ⊢
      cases hdecided with
      | misplaced _ h =>
          rcases hp lexemes (hlexemes ▸ .misplaced mid h) with ⟨first, hfirst, hsame⟩
          rw [hlexemes] at hfirst hsame
          refine ⟨first, hfirst, fun other hhead => ?_⟩
          rw [bind_of_error (hsame other hhead)]
          rfl

theorem local_pure (a : α) : Local (pure a) (pure a) := by
  intro lexemes _
  exact ⟨[], rfl, fun other _ => rfl⟩

theorem local_throw (stop : Stop) : Local (throw stop : Eager α) (throw stop) := by
  intro lexemes _
  exact ⟨[], rfl, fun other _ => rfl⟩

/-! ### Single lexemes -/

theorem local_peek : Local peek peek := by
  intro lexemes hdecided
  cases lexemes with
  | nil => cases hdecided
  | cons lexeme tail =>
      refine ⟨[], rfl, fun other hhead => ?_⟩
      rcases List.head?_eq_some_iff.mp hhead with ⟨tail', rfl⟩
      rfl

theorem local_advance : Local advance advance := by
  intro lexemes _
  cases lexemes with
  | nil =>
      refine ⟨[], rfl, fun other hhead => ?_⟩
      rw [List.head?_eq_none_iff.mp hhead]
      rfl
  | cons lexeme tail => exact ⟨[lexeme], rfl, fun other _ => rfl⟩

theorem local_unexpected (expected : String) :
    Local (unexpected expected : Eager α) (unexpected expected) :=
  local_bind local_peek fun _ => local_throw _

/-- A parser without levels decides nothing. -/
theorem local_tooDeep (q : Eager α) : Local tooDeep q := by
  intro lexemes hdecided
  cases lexemes with
  | nil => cases hdecided
  | cons lexeme tail =>
      cases hdecided with
      | misplaced _ h => exact h.elim

theorem local_eat (kind : TokenKind) : Local (eat kind) (eat kind) := by
  refine local_bind local_peek fun lexeme => ?_
  by_cases hkind : lexeme.token.kind = kind
  · simp only [if_pos hkind]
    exact local_bind local_advance fun _ => local_pure lexeme
  · simp only [if_neg hkind]
    exact local_unexpected _

theorem local_eatName : Local eatName eatName := by
  refine local_bind local_peek fun lexeme => ?_
  cases lexeme.token with
  | name name => exact local_bind local_advance fun _ => local_pure _
  | _ => exact local_unexpected _

theorem local_eatTy : Local eatTy eatTy := by
  refine local_bind local_peek fun lexeme => ?_
  cases lexeme.token with
  | ty ty => exact local_bind local_advance fun _ => local_pure _
  | _ => exact local_unexpected _

/-! ### Repetition -/

section Repetition

variable {step step' : α → Eager (Option α)}

/-- A bound that is no shorter than the lexemes is never met, so it does not
    matter which. -/
theorem iterateWithin_eq (hshrinks : Shrinks step) (hnil : ∀ a, step a [] = .error .starved []) :
    ∀ (bound bound' : List Lexeme) (a : α) (lexemes : List Lexeme),
      lexemes.length ≤ bound.length → lexemes.length ≤ bound'.length →
      iterateWithin step bound a lexemes = iterateWithin step bound' a lexemes := by
  -- Without lexemes, a step asks for one just as a used up bound does.
  have hstarved : ∀ (bound : List Lexeme) (a : α),
      iterateWithin step bound a [] = .error .starved [] := by
    intro bound a
    cases bound with
    | nil => rfl
    | cons entry bound => rw [iterateWithin, bind_of_error (hnil a)]
  intro bound
  induction bound with
  | nil =>
      intro bound' a lexemes hle _
      rw [List.length_eq_zero_iff.mp (Nat.le_zero.mp hle), hstarved, hstarved]
  | cons entry bound ih =>
      intro bound' a lexemes hle hle'
      cases bound' with
      | nil => rw [List.length_eq_zero_iff.mp (Nat.le_zero.mp hle'), hstarved, hstarved]
      | cons entry' bound' =>
          rw [List.length_cons] at hle hle'
          rw [iterateWithin, iterateWithin]
          cases hnext : step a lexemes with
          | error stop rest => rw [bind_of_error hnext, bind_of_error hnext]
          | ok next rest =>
              rw [bind_of_ok hnext, bind_of_ok hnext]
              cases next with
              | none => rfl
              | some b =>
                  have hlt := hshrinks a b lexemes rest hnext
                  exact ih bound' b rest (by omega) (by omega)

/-- A repetition is one step, and the repetition behind it if the step goes
    on. -/
theorem iterate_eq (hshrinks : Shrinks step) (hnil : ∀ a, step a [] = .error .starved [])
    (a : α) : iterate step a = step a >>= fun next => next.elim (pure a) (iterate step) := by
  funext lexemes
  cases lexemes with
  | nil =>
      rw [bind_of_error (hnil a)]
      rfl
  | cons lexeme tail =>
      rw [iterate, iterateWithin]
      cases hnext : step a (lexeme :: tail) with
      | error stop rest => rw [bind_of_error hnext, bind_of_error hnext]
      | ok next rest =>
          rw [bind_of_ok hnext, bind_of_ok hnext]
          cases next with
          | none => rfl
          | some b =>
              have hlt := hshrinks a b _ rest hnext
              rw [List.length_cons] at hlt
              exact iterateWithin_eq hshrinks hnil tail rest b rest (by omega) (Nat.le_refl _)

theorem local_iterate (hstep : ∀ a, Local (step a) (step' a)) (hshrinks : Shrinks step')
    (hnil : ∀ a, step' a [] = .error .starved []) (a : α) :
    Local (iterate step a) (iterate step' a) := by
  -- By induction on the bound of the first repetition; the second is without one.
  have hwithin : ∀ (bound : List Lexeme) (a : α),
      Local (iterateWithin step bound a) (iterate step' a) := by
    intro bound
    induction bound with
    | nil =>
        intro a lexemes hdecided
        cases hdecided
    | cons entry bound ih =>
        intro a
        rw [iterateWithin, iterate_eq hshrinks hnil]
        refine local_bind (hstep a) fun next => ?_
        cases next with
        | none => exact local_pure a
        | some b => exact ih b
  intro lexemes
  exact hwithin lexemes a lexemes

end Repetition

/-! ### Expressions -/

section Expressions

variable {inner inner' : Eager Expr} (hinner : Local inner inner')
  (hsteady : Steady Eq inner' inner')

include hinner

theorem local_chainStep (op? : Token → Option ArithOp) (left : Expr) :
    Local (chainStep inner op? left) (chainStep inner' op? left) := by
  refine local_bind local_peek fun lexeme => ?_
  cases op? lexeme.token with
  | none => exact local_pure none
  | some op =>
      refine local_bind local_advance fun _ => ?_
      exact local_bind hinner fun right => local_pure _

include hsteady

theorem local_chainLeft (op? : Token → Option ArithOp) :
    Local (chainLeft inner op?) (chainLeft inner' op?) := by
  refine local_bind hinner fun first => ?_
  exact local_iterate (local_chainStep hinner op?) (shrinks_chainStep hsteady op?)
    (fun _ => rfl) first

theorem local_sum : Local (sum inner) (sum inner') :=
  local_chainLeft (local_chainLeft hinner hsteady _) (steady_chainLeft hsteady rfl) _

theorem local_factorWith : Local (factorWith inner) (factorWith inner') := by
  refine local_bind local_peek fun lexeme => ?_
  cases lexeme.token with
  | integer value => exact local_bind local_advance fun _ => local_pure _
  | name name => exact local_bind local_advance fun _ => local_pure _
  | mark mark =>
      cases mark with
      | plus =>
          refine local_bind local_advance fun _ => ?_
          exact local_bind hinner fun operand => local_pure _
      | minus =>
          refine local_bind local_advance fun _ => ?_
          exact local_bind hinner fun operand => local_pure _
      | leftParen =>
          refine local_bind local_advance fun _ => ?_
          refine local_bind (local_sum hinner hsteady) fun expr => ?_
          exact local_bind (local_eat _) fun _ => local_pure expr
      | _ => exact local_unexpected _
  | _ => exact local_unexpected _

theorem local_value : Local (value inner) (value inner') := by
  refine local_bind local_peek fun lexeme => ?_
  cases lexeme.token with
  | string content => exact local_bind local_advance fun _ => local_pure _
  | bool flag => exact local_bind local_advance fun _ => local_pure _
  | _ => exact local_sum hinner hsteady

theorem local_comparison (left : Expr) :
    Local (comparison inner left) (comparison inner' left) := by
  refine local_bind local_peek fun lexeme => ?_
  cases lexeme.token.order? with
  | none => exact local_unexpected _
  | some order =>
      refine local_bind local_advance fun _ => ?_
      exact local_bind (local_sum hinner hsteady) fun right => local_pure _

theorem local_condition : Local (condition inner) (condition inner') := by
  refine local_bind local_peek fun lexeme => ?_
  cases lexeme.token with
  | bool flag =>
      refine local_bind local_advance fun _ => local_bind local_peek fun ahead => ?_
      cases ahead.token.order? with
      | none => exact local_pure _
      | some order => exact local_comparison hinner hsteady _
  | _ =>
      exact local_bind (local_sum hinner hsteady) fun left => local_comparison hinner hsteady left

end Expressions

/-- What the parser of factors decides, it decides the same with more levels to
    spend. -/
theorem local_factor {levels levels' : Nat} (h : levels ≤ levels') :
    Local (factor levels) (factor levels') := by
  induction levels generalizing levels' with
  | zero => exact local_tooDeep _
  | succ levels ih =>
      cases levels' with
      | zero => exact absurd h (Nat.not_succ_le_zero _)
      | succ levels' =>
          exact local_factorWith (ih (Nat.le_of_succ_le_succ h)) (steady_factor levels')

/-! ### Statements -/

theorem local_param : Local param param := by
  refine local_bind local_eatName fun named => ?_
  refine local_bind (local_eat _) fun _ => ?_
  exact local_bind local_eatTy fun ty => local_pure _

theorem local_paramStep (done : List Param) : Local (paramStep done) (paramStep done) := by
  refine local_bind local_peek fun lexeme => ?_
  by_cases hcomma : lexeme.token = .mark .comma
  · simp only [if_pos hcomma]
    refine local_bind local_advance fun _ => ?_
    exact local_bind local_param fun next => local_pure _
  · simp only [if_neg hcomma]
    exact local_pure none

theorem local_params : Local params params := by
  refine local_bind local_peek fun lexeme => ?_
  by_cases hclose : lexeme.token = .mark .rightParen
  · simp only [if_pos hclose]
    exact local_pure []
  · simp only [if_neg hclose]
    refine local_bind local_param fun first => ?_
    have hitems := local_iterate local_paramStep shrinks_paramStep (fun _ => rfl) [first]
    exact local_bind hitems fun done => local_pure _

theorem local_listEnd (closing : TokenKind) : Local (listEnd closing) (listEnd closing) := by
  refine local_bind local_peek fun lexeme => ?_
  by_cases hkind : lexeme.token.kind = closing
  · simp only [if_pos hkind]
    by_cases heof : closing = .eof
    · simp only [if_pos heof]
      exact local_pure ()
    · simp only [if_neg heof]
      exact local_advance
  · simp only [if_neg hkind]
    by_cases hstarts : lexeme.token.startsStatement = true
    · simp only [if_pos hstarts]
      exact local_throw _
    · simp only [if_neg hstarts]
      exact local_unexpected _

theorem local_braced {parser parser' : Eager Block} (h : Local parser parser') :
    Local (braced parser) (braced parser') := by
  refine local_bind (local_eat _) fun _ => ?_
  refine local_bind h fun block => ?_
  exact local_bind (local_listEnd _) fun _ => local_pure block

section Statements

variable {inner inner' : Eager Expr} {block block' : Eager Block}
  (hinner : Local inner inner') (hsteady : Steady Eq inner' inner') (hblock : Local block block')

include hinner hsteady

theorem local_assignment : Local (assignment inner) (assignment inner') := by
  refine local_bind local_eatName fun named => local_bind local_peek fun lexeme => ?_
  cases lexeme.token with
  | mark mark =>
      cases mark with
      | colon =>
          refine local_bind local_advance fun _ => local_bind local_eatTy fun ty => ?_
          refine local_bind (local_eat _) fun _ => ?_
          exact local_bind (local_value hinner hsteady) fun assigned => local_pure _
      | equals =>
          refine local_bind local_advance fun _ => ?_
          exact local_bind (local_value hinner hsteady) fun assigned => local_pure _
      | _ => exact local_unexpected _
  | _ => exact local_unexpected _

theorem local_printStatement : Local (printStatement inner) (printStatement inner') := by
  refine local_bind (local_eat _) fun keyword => local_bind (local_eat _) fun _ => ?_
  refine local_bind (local_value hinner hsteady) fun printed => ?_
  exact local_bind (local_eat _) fun _ => local_pure _

include hblock

theorem local_branch : Local (branch inner block) (branch inner' block') := by
  refine local_bind (local_eat _) fun keyword => local_bind (local_eat _) fun _ => ?_
  refine local_bind (local_condition hinner hsteady) fun decision => ?_
  refine local_bind (local_eat _) fun _ => local_bind hblock fun whenTrue => ?_
  refine local_bind local_peek fun lexeme => ?_
  by_cases helse : lexeme.token = .keyword .alternative
  · simp only [if_pos helse]
    refine local_bind local_advance fun _ => ?_
    exact local_bind hblock fun whenFalse => local_pure _
  · simp only [if_neg helse]
    exact local_pure _

omit hinner hsteady in
theorem local_function : Local (function block) (function block') := by
  refine local_bind (local_eat _) fun keyword => local_bind local_eatName fun named => ?_
  refine local_bind (local_eat _) fun _ => local_bind local_params fun declared => ?_
  refine local_bind (local_eat _) fun _ => ?_
  exact local_bind hblock fun body => local_pure _

theorem local_statement : Local (statement inner block) (statement inner' block') := by
  refine local_bind local_peek fun lexeme => ?_
  cases lexeme.token with
  | name name => exact local_assignment hinner hsteady
  | keyword keyword =>
      cases keyword with
      | print => exact local_printStatement hinner hsteady
      | cond => exact local_branch hinner hsteady hblock
      | func => exact local_function hblock
      | alternative => exact local_pure _
  | _ => exact local_pure _

end Statements

section Lists

variable {parser parser' : Eager Statement} (hparser : Local parser parser')

include hparser

theorem local_listStep (done : List Statement) :
    Local (listStep parser done) (listStep parser' done) := by
  refine local_bind local_peek fun lexeme => ?_
  by_cases hsemicolon : lexeme.token = .mark .semicolon
  · simp only [if_pos hsemicolon]
    refine local_bind local_advance fun _ => ?_
    exact local_bind hparser fun next => local_pure _
  · simp only [if_neg hsemicolon]
    by_cases hgo : goesOn done lexeme.token = true
    · rw [goesOn] at hgo
      simp only [if_pos hgo]
      exact local_bind hparser fun next => local_pure _
    · rw [goesOn] at hgo
      simp only [if_neg hgo]
      exact local_pure none

theorem local_list (hshrinks : Shrinks (listStep parser')) :
    Local (list parser) (list parser') := by
  refine local_bind local_peek fun lexeme => local_bind hparser fun first => ?_
  have hitems := local_iterate (local_listStep hparser) hshrinks (fun _ => rfl) [first]
  exact local_bind hitems fun done => local_pure _

end Lists

theorem local_statements {levels levels' : Nat} (h : levels ≤ levels') :
    Local (statements levels) (statements levels') := by
  induction levels generalizing levels' with
  | zero => exact local_tooDeep _
  | succ levels ih =>
      cases levels' with
      | zero => exact absurd h (Nat.not_succ_le_zero _)
      | succ levels' =>
          rw [statements, statements]
          have hblock := local_braced (ih (Nat.le_of_succ_le_succ h))
          have hshrinks := shrinks_listStep (reads_factor (levels' + 1))
            (reads_braced (reads_statements levels'))
          exact local_list (local_statement (local_factor h) (steady_factor (levels' + 1)) hblock)
            hshrinks

/-- A whole program in which so many levels may be opened. -/
def programWithin (levels : Nat) : Eager Block := do
  let block ← statements (levels + 1)
  listEnd .eof
  return block

theorem local_program {levels : Nat} (h : maxNesting ≤ levels) :
    Local program (programWithin levels) := by
  refine local_bind (local_statements (Nat.succ_le_succ h)) fun block => ?_
  exact local_bind (local_listEnd .eof) fun _ => local_pure block

end Eager

end Scriptlet
