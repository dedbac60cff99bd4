import Scriptlet.Proofs.Grammar.Exact
import Scriptlet.Proofs.Run.Preservation

/-!
# Type Safety

A source that is accepted does not go wrong. It is refused before anything is
printed, or it runs to its end, or it stops for a reason that no check could
foresee: a division by zero, a result out of range, an integer that no real
number holds, or a sink that refuses.

The rules of the check do not ask whether a condition is a truth value. That is
left to the grammar, where a condition is a truth value or a comparison, so a
program that comes from a source is guarded.

## Main definitions

* `Error.Static`: An error that is found before a program runs.

## Theorems

* `guarded_of_statement`, `guarded_of_list`, `guarded_of_braced`: What the
  grammar derives is guarded.
* `benign_of_execute`: A run of an accepted program fails only benignly.
* `run_type_safe`: A source is refused silently, runs, or fails benignly.
-/

namespace Scriptlet

open Outcome Grammar

/-! ### Conditions of parsed programs -/

theorem isTruth_of_condition {levels : Nat} {phrase : List Lexeme} {condition : Expr}
    (h : IsCondition levels phrase condition) : condition.isTruth = true := by
  cases h with
  | bool token => rfl
  | compare side token other => rfl

theorem guardedOfList_concat (statements : List Statement) (statement : Statement) :
    guardedOfList (statements ++ [statement]) =
      (guardedOfList statements && statement.guarded) := by
  induction statements with
  | nil => simp only [List.nil_append, guardedOfList, Bool.and_true, Bool.true_and]
  | cons first rest ih => rw [List.cons_append, guardedOfList, guardedOfList, ih, Bool.and_assoc]

-- By recursion over the derivation. Only conditionals have something to show.
mutual

theorem guarded_of_statement {levels : Nat} {phrase : List Lexeme} {statement : Statement} :
    IsStatement levels phrase statement → statement.guarded = true
  | .declare _ _ _ _ _ => rfl
  | .assign _ _ _ => rfl
  | .print _ _ _ _ => rfl
  | .branch _ _ decides _ block => by
      rw [Statement.guarded, isTruth_of_condition decides, guarded_of_braced block]
      rfl
  | .choice _ _ decides _ block _ other => by
      rw [Statement.guarded, isTruth_of_condition decides, guarded_of_braced block]
      exact guarded_of_braced other
  | .function _ _ _ _ _ block => by
      rw [Statement.guarded]
      exact guarded_of_braced block
  | .empty => rfl

theorem guarded_of_list {levels : Nat} {phrase : List Lexeme} {statements : List Statement} :
    IsList levels phrase statements → guardedOfList statements = true
  | .single only => by
      rw [guardedOfList, guarded_of_statement only]
      rfl
  | .separated before _ last => by
      rw [guardedOfList_concat, guarded_of_list before, guarded_of_statement last]
      rfl
  | .adjacent before _ _ _ last => by
      rw [guardedOfList_concat, guarded_of_list before, guarded_of_statement last]
      rfl

theorem guarded_of_braced {levels : Nat} {phrase : List Lexeme} {block : Block} :
    IsBraced levels phrase block → block.guarded = true
  | .mk _ inner _ => by
      rw [Block.guarded]
      exact guarded_of_list inner

end

theorem guarded_of_parse {source : String} {program : Block} (h : parse source = .ok program) :
    program.guarded = true := by
  rcases isList_of_parse h with ⟨phrase, hlist⟩
  cases program with
  | mk statements line =>
      rw [Block.guarded]
      exact guarded_of_list hlist

/-! ### Errors -/

/-- An error that is found before a program runs. -/
inductive Error.Static : Error → Prop where
  | lexical (error : LexicalError) : Static (.parse (.lexical error))
  | grammar (error : SyntaxError) : Static (.parse (.grammar error))
  | check (error : CheckError) : Static (.check error)

theorem kind_of_static {e : Error} (h : e.Static) : e.kind ≠ .name := by
  cases h with
  | lexical error => exact ErrorKind.noConfusion
  | grammar error => exact ErrorKind.noConfusion
  | check error =>
      rw [Error.kind, CheckError.kind]
      split <;> exact ErrorKind.noConfusion

/-- The errors that are benign. -/
theorem benign_iff {e : RuntimeError} :
    e.Benign ↔ (∃ line, e = .divisionByZero line) ∨ (∃ line, e = .overflow line) ∨
      (∃ line, e = .precisionLoss line) ∨ ∃ reason, e = .output reason := by
  cases e <;> simp [RuntimeError.Benign, RuntimeError.kind]

/-! ### Runs of accepted sources -/

/-- A program that the check passes is one that the rules pass. -/
theorem lexical_of_analyze {program : Block} {scopes : ScopeTree}
    (h : analyze program = .ok scopes) :
    Lexical.checkBlock (ScopeTree.initial.names globalScope) program =
      .ok (scopes.names globalScope) := by
  rw [← Checker.verdict_checkBlock globalScope (.root 0) program .initial Nat.one_pos]
  rw [analyze] at h
  cases hcheck : checkBlock globalScope (.root 0) program ScopeTree.initial with
  | ok u tree =>
      rw [hcheck] at h
      cases h
      rfl
  | error e tree =>
      rw [hcheck] at h
      cases h

/-- A program that the rules pass is one that the check passes. -/
theorem analyze_of_lexical {program : Block} {names : Nest Binding}
    (h : Lexical.checkBlock (ScopeTree.initial.names globalScope) program = .ok names) :
    ∃ scopes, analyze program = .ok scopes := by
  rw [← Checker.verdict_checkBlock globalScope (.root 0) program .initial Nat.one_pos] at h
  rw [analyze]
  cases hcheck : checkBlock globalScope (.root 0) program ScopeTree.initial with
  | ok u tree => exact ⟨tree, rfl⟩
  | error e tree =>
      rw [hcheck] at h
      cases h

/-- A run of an accepted program with proper conditions fails only benignly. -/
theorem benign_of_execute {program : Block} {scopes : ScopeTree} {sink : Sink} {e : RuntimeError}
    {context : Context} (h : analyze program = .ok scopes) (hguarded : program.guarded = true)
    (hrun : execute program scopes sink = .error e context) : e.Benign := by
  -- The run fails as the plain run does, and there the rules tell why.
  have hplain := plain_execute h sink
  have hfits : Nest.Related Fits (Plain.State.start sink).values
      (ScopeTree.initial.names globalScope) := (typed_start h sink).fits
  have hsound := Plain.sound_runBlock program hfits (lexical_of_analyze h)
  rw [← Plain.execute, ← hplain, hrun] at hsound
  exact hsound.2 hguarded

theorem static_of_load {source : String} {e : Error} (h : load source = .error e) : e.Static := by
  rw [load] at h
  cases hparse : parse source with
  | error error =>
      rw [hparse] at h
      cases h
      cases error with
      | lexical error => exact .lexical error
      | grammar error => exact .grammar error
  | ok program =>
      rw [hparse] at h
      simp only [] at h
      cases hanalyze : analyze program with
      | error error =>
          rw [hanalyze] at h
          cases h
          exact .check error
      | ok scopes =>
          rw [hanalyze] at h
          cases h

/-- Every source, run into whatever sink, is refused with the error of its check
    and prints nothing, or it is accepted and then runs to its end or stops in
    arithmetic or at a refusal of the sink. Names never fail. -/
theorem run_type_safe (source : String) (sink : Sink) :
    ((∃ e, check source = .error e ∧ e.Static ∧ run source sink = (.error e, sink)) ∨
      (check source = .ok () ∧ ((run source sink).1 = .ok () ∨
        ∃ e, (run source sink).1 = .error (.runtime e) ∧
          ((∃ line, e = .divisionByZero line) ∨ (∃ line, e = .overflow line) ∨
            (∃ line, e = .precisionLoss line) ∨ ∃ reason, e = .output reason)))) ∧
      ∀ e, (run source sink).1 = .error e → e.kind ≠ .name := by
  rw [check, run]
  cases hload : load source with
  | error e =>
      -- Refused: nothing has run, so the sink is the one that was given.
      have hstatic := static_of_load hload
      refine ⟨Or.inl ⟨e, rfl, hstatic, rfl⟩, ?_⟩
      rintro _ ⟨⟩
      exact kind_of_static hstatic
  | ok loaded =>
      rcases loaded with ⟨program, scopes⟩
      -- Accepted: the parser made the conditions proper, and the check passed.
      rcases load_eq_ok hload with ⟨hparse, hanalyze⟩
      simp only []
      cases hrun : execute program scopes sink with
      | ok u context =>
          refine ⟨Or.inr ⟨rfl, Or.inl rfl⟩, ?_⟩
          rintro _ ⟨⟩
      | error e context =>
          have hbenign := benign_of_execute hanalyze (guarded_of_parse hparse) hrun
          refine ⟨Or.inr ⟨rfl, Or.inr ⟨e, rfl, benign_iff.mp hbenign⟩⟩, ?_⟩
          rintro _ ⟨⟩ hname
          rcases hbenign with hkind | hkind <;> exact absurd (hkind.symm.trans hname) (by decide)

end Scriptlet
