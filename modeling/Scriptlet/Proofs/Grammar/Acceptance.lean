import Scriptlet.Proofs.Grammar.Statement

/-!
# Statements are Accepted

Where a phrase of the grammar stands, the parsers consume it and give its tree.
A statement is accepted where what follows can neither continue it nor be taken
for a part of it. In a list that is a separator or the end of the list, and
behind a brace also a token that starts another statement. The empty statement
is where this matters most: it is read wherever no other can start.

The proof follows the phrase. A list is built up from its left, and so is the
repetition that reads it.

## Main definitions

* `EndsStatement`: The tokens that can follow any statement.
* `Follows`: The tokens that can follow a statement.
* `statementAt`: The parser of statements with some more levels to open.

## Theorems

* `params_of_phrase`, `statement_of_phrase`, `braced_of_phrase`,
  `list_of_phrase`: Phrases are consumed as such.
-/

namespace Scriptlet

open Outcome Grammar

namespace Eager

theorem continues_of_params {phrase : List Lexeme} {found : List Param}
    (h : IsParams phrase found) (rest : List Lexeme) :
    Continues paramStep (paramItems (phrase ++ rest)) found.reverse rest := by
  induction h generalizing rest with
  | @single phrase param only =>
      rw [paramItems, bind_of_ok (param_eq_ok.mpr ⟨phrase, rfl, only⟩)]
      exact continues_iterate paramStep [param] rest
  | @more first second comma params param before token last ih =>
      rw [append_cons_append]
      refine continues_step (ih (comma :: (second ++ rest))) ?_ ?_
      · refine paramStep_eq_some.mpr ⟨comma, second ++ rest, param, rfl, token, ?_, ?_⟩
        · exact param_eq_ok.mpr ⟨second, rfl, last⟩
        · rw [List.reverse_append, List.reverse_singleton, List.singleton_append]
      · exact length_lt_of_phrase _ _ _

/-- Parameters start with a name. -/
theorem head_of_params {phrase : List Lexeme} {found : List Param} (h : IsParams phrase found) :
    ∃ lexeme tail name, phrase = lexeme :: tail ∧ lexeme.token = .name name := by
  induction h with
  | single only =>
      cases only with
      | mk named token typed => exact ⟨_, _, _, rfl, named⟩
  | more before token last ih =>
      rcases ih with ⟨lexeme, tail, name, rfl, hname⟩
      exact ⟨lexeme, _, name, rfl, hname⟩

theorem params_of_phrase {phrase : List Lexeme} {found : List Param} {next : Lexeme}
    (h : IsSignature phrase found) (hnext : next.token = .mark .rightParen)
    (rest : List Lexeme) : params (phrase ++ next :: rest) = .ok found (next :: rest) := by
  cases h with
  | nothing =>
      refine peek_bind_eq_ok.mpr ⟨next, rest, rfl, ?_⟩
      rw [if_pos hnext]
      rfl
  | params some =>
      rcases head_of_params some with ⟨lexeme, tail, name, rfl, hname⟩
      refine peek_bind_eq_ok.mpr ⟨lexeme, tail ++ next :: rest, rfl, ?_⟩
      -- The name ahead is not the closing parenthesis, and what follows is no comma.
      have hopen : ¬ lexeme.token = .mark .rightParen := by
        rw [hname]
        simp only [reduceCtorEq, not_false_eq_true]
      have hcomma : next.token ≠ .mark .comma := by
        rw [hnext]
        simp only [ne_eq, Token.mark.injEq, reduceCtorEq, not_false_eq_true]
      have hstop := continues_stop (continues_of_params some (next :: rest))
        (paramStep_eq_none.mpr ⟨next, rest, rfl, hcomma, rfl⟩)
      rcases bind_eq_ok.mp hstop with ⟨first, mid, hfirst, hiterate⟩
      rw [if_neg hopen]
      refine bind_eq_ok.mpr ⟨first, mid, hfirst, bind_eq_ok.mpr ⟨_, _, hiterate, ?_⟩⟩
      rw [List.reverse_reverse]
      rfl

/-- The tokens that can follow any statement: a semicolon, and the end of a
    list. -/
inductive EndsStatement : Token → Prop where
  | semicolon : EndsStatement (.mark .semicolon)
  | rightBrace : EndsStatement (.mark .rightBrace)
  | eof : EndsStatement .eof

/-- The tokens that can follow a statement. -/
def Follows (found : Statement) (token : Token) : Prop :=
  EndsStatement token ∨ (Closed found ∧ Starts token)

theorem endsSum_of_endsStatement {token : Token} (h : EndsStatement token) : EndsSum token := by
  cases h with
  | semicolon => exact ⟨rfl, rfl⟩
  | rightBrace => exact ⟨rfl, rfl⟩
  | eof => exact ⟨rfl, rfl⟩

theorem endsSum_of_rightParen {lexeme : Lexeme} (h : lexeme.token = .mark .rightParen) :
    EndsSum lexeme.token := by
  rw [h]
  exact ⟨rfl, rfl⟩

theorem not_starts_of_endsStatement {token : Token} (h : EndsStatement token) :
    ¬ Starts token := by
  intro hstarts
  cases h with
  | semicolon => cases hstarts
  | rightBrace => cases hstarts
  | eof => cases hstarts

theorem ne_alternative_of_follows {found : Statement} {token : Token} (h : Follows found token) :
    token ≠ .keyword .alternative := by
  rintro rfl
  rcases h with h | ⟨_, h⟩
  · cases h
  · cases h

/-- Only what ends in a brace can be followed by the start of another
    statement. -/
theorem endsStatement_of_follows {found : Statement} {token : Token} (h : Follows found token)
    (hopen : ¬ Closed found) : EndsStatement token := by
  rcases h with h | ⟨hclosed, _⟩
  · exact h
  · exact absurd hclosed hopen

/-- The condition of a conditional is accepted up to the closing parenthesis. -/
theorem condition_of_parens {levels : Nat} {phrase : List Lexeme} {decision : Expr}
    {closing : Lexeme} (h : IsCondition levels phrase decision)
    (closes : closing.token = .mark .rightParen) (rest : List Lexeme) :
    condition (factor (levels + 1)) (phrase ++ closing :: rest) =
      .ok decision (closing :: rest) := by
  refine condition_of_phrase rest h (endsSum_of_rightParen closes) ?_
  rw [closes]
  rfl

/-- The parser of statements with some more levels to open. -/
def statementAt (levels : Nat) : Eager Statement :=
  statement (factor (levels + 1)) (braced (statements levels))

theorem ne_semicolon_of_starts {token : Token} (h : Starts token) :
    token ≠ .mark .semicolon := by
  rintro rfl
  cases h

/-- Where one statement is seen to end and the next to start, a list goes on. -/
theorem goesOn_of_closed {items : List Statement} {previous : Statement} {token : Token}
    (hlast : items.getLast? = some previous) (hclosed : Closed previous)
    (hstarts : Starts token) : goesOn items.reverse token = true := by
  rw [goesOn, List.head?_reverse, hlast, Option.any_some, endsInBrace_iff.mpr hclosed,
    startsStatement_iff.mpr hstarts]
  rfl

theorem getLast?_of_list {levels : Nat} {phrase : List Lexeme} {items : List Statement}
    (h : IsList levels phrase items) : ∃ last, items.getLast? = some last := by
  cases h with
  | single only => exact ⟨_, rfl⟩
  | separated before token last => exact ⟨_, List.getLast?_concat⟩
  | adjacent before behind closed starts last => exact ⟨_, List.getLast?_concat⟩

/-- A list that has got as far as a lexeme that closes it ends there. -/
theorem list_of_continues {parser : Eager Statement} {phrase rest : List Lexeme}
    {items : List Statement} {next : Lexeme}
    (h : Continues (listStep parser) (listItems parser (phrase ++ next :: rest)) items.reverse
      (next :: rest))
    (hnext : next.token = .mark .rightBrace ∨ next.token = .eof) :
    list parser (phrase ++ next :: rest) =
      .ok (.mk items (firstLine phrase next)) (next :: rest) := by
  -- A lexeme that closes a list neither separates nor starts a statement.
  have hstop : listStep parser items.reverse (next :: rest) = .ok none (next :: rest) := by
    refine listStep_eq_none.mpr ⟨next, rest, rfl, ?_, ?_, rfl⟩
    · rcases hnext with hnext | hnext
      · rw [hnext]
        simp only [ne_eq, Token.mark.injEq, reduceCtorEq, not_false_eq_true]
      · rw [hnext]
        simp only [ne_eq, reduceCtorEq, not_false_eq_true]
    · rw [goesOn]
      rcases hnext with hnext | hnext
      · rw [hnext]
        exact Bool.and_false _
      · rw [hnext]
        exact Bool.and_false _
  cases hlexemes : phrase ++ next :: rest with
  | nil => exact absurd hlexemes (List.append_ne_nil_of_right_ne_nil _ (List.cons_ne_nil _ _))
  | cons lexeme tail =>
      refine list_eq_ok.mpr ⟨lexeme, tail, items.reverse, rfl, ?_, ?_⟩
      · rw [← hlexemes]
        exact continues_stop h hstop
      · rw [List.reverse_reverse, firstLine_eq hlexemes]

-- By recursion over the derivation. What follows a statement is known from the list it is in, and
-- what follows a list from the braces around it.
mutual

theorem statement_of_phrase : ∀ {levels : Nat} {phrase : List Lexeme} {found : Statement},
    IsStatement levels phrase found → ∀ {next : Lexeme} (rest : List Lexeme),
      Follows found next.token →
      statementAt levels (phrase ++ next :: rest) = .ok found (next :: rest)
  | levels, _, _, .declare named separates typed token valued, next, rest, hnext => by
      have hends := endsStatement_of_follows hnext (by rintro ⟨⟩)
      have hvalue := value_of_phrase rest valued (endsSum_of_endsStatement hends)
      rw [List.cons_append, statementAt, statement_cons, named]
      refine assignment_eq_ok.mpr (Or.inl ?_)
      exact ⟨_, _, _, _, _, _, _, _, rfl, named, separates, typed, token, hvalue, rfl⟩
  | levels, _, _, .assign named token valued, next, rest, hnext => by
      have hends := endsStatement_of_follows hnext (by rintro ⟨⟩)
      have hvalue := value_of_phrase rest valued (endsSum_of_endsStatement hends)
      rw [List.cons_append, statementAt, statement_cons, named]
      refine assignment_eq_ok.mpr (Or.inr ?_)
      exact ⟨_, _, _, _, _, rfl, named, token, hvalue, rfl⟩
  | levels, _, _, .print token opens valued closes, next, rest, _ => by
      have hvalue := value_of_phrase (next :: rest) valued (endsSum_of_rightParen closes)
      rw [List.cons_append, List.cons_append, List.append_assoc, List.singleton_append,
        statementAt, statement_cons, token]
      exact printStatement_eq_ok.mpr ⟨_, _, _, _, _, rfl, token, opens, hvalue, closes, rfl⟩
  | levels, _, _, .branch token opens decides closes block, next, rest, hnext => by
      have hblock := braced_of_phrase block (next :: rest)
      have hcondition := condition_of_parens decides closes
      rw [List.cons_append, List.cons_append, append_cons_append, statementAt, statement_cons,
        token]
      -- What follows is no `else`, so the first block is all there is.
      have helse := ne_alternative_of_follows hnext
      exact branch_eq_ok.mpr ⟨_, _, _, _, _, _, _, _, _, rfl, token, opens, hcondition _, closes,
        hblock, Or.inl ⟨helse, rfl, rfl⟩⟩
  | levels, _, _, .choice token opens decides closes block otherwise other, next, rest, _ => by
      have hother := braced_of_phrase other (next :: rest)
      have hblock := braced_of_phrase block
      have hcondition := condition_of_parens decides closes
      rw [List.cons_append, List.cons_append, append_cons_append, append_cons_append, statementAt,
        statement_cons, token]
      exact branch_eq_ok.mpr ⟨_, _, _, _, _, _, _, _, _, rfl, token, opens, hcondition _, closes,
        hblock _, Or.inr ⟨_, otherwise, hother, rfl⟩⟩
  | levels, _, _, .function token named opens declares closes block, next, rest, _ => by
      have hblock := braced_of_phrase block (next :: rest)
      have hparams := params_of_phrase declares closes
      rw [List.cons_append, List.cons_append, List.cons_append, append_cons_append, statementAt,
        statement_cons, token]
      exact function_eq_ok.mpr ⟨_, _, _, _, _, _, _, _, _, rfl, token, named, opens, hparams _,
        closes, hblock, rfl⟩
  | levels, _, _, .empty, next, rest, hnext => by
      have hends := endsStatement_of_follows hnext (by rintro ⟨⟩)
      exact statement_of_not_starts (not_starts_of_endsStatement hends) rest

theorem continues_of_list : ∀ {levels : Nat} {phrase : List Lexeme} {items : List Statement},
    IsList levels phrase items → ∀ {last : Statement} {next : Lexeme} (rest : List Lexeme),
      items.getLast? = some last → Follows last next.token →
      Continues (listStep (statementAt levels))
        (listItems (statementAt levels) (phrase ++ next :: rest)) items.reverse (next :: rest)
  | levels, _, _, .single only, last, next, rest, hlast, hnext => by
      cases hlast
      rw [listItems, bind_of_ok (statement_of_phrase only rest hnext)]
      exact continues_iterate _ _ _
  | levels, _, _, .separated before token final, last, next, rest, hlast, hnext => by
      rw [List.getLast?_concat] at hlast
      cases hlast
      rw [append_cons_append, List.reverse_concat]
      -- Any statement can be followed by a semicolon.
      rcases getLast?_of_list before with ⟨previous, hprevious⟩
      refine continues_step
        (continues_of_list before _ hprevious (Or.inl (token ▸ .semicolon))) ?_ ?_
      · refine listStep_eq_some.mpr ⟨_, _, _, rfl, rfl, Or.inl ⟨token, ?_⟩⟩
        exact statement_of_phrase final rest hnext
      · exact length_lt_of_phrase _ _ _
  | levels, _, _, .adjacent before behind closed starts final, last, next, rest, hlast, hnext => by
      rw [List.getLast?_concat] at hlast
      cases hlast
      rw [append_cons_append, List.reverse_concat]
      refine continues_step
        (continues_of_list before _ behind (Or.inr ⟨closed, starts⟩)) ?_ ?_
      · refine listStep_eq_some.mpr ⟨_, _, _, rfl, rfl, Or.inr ⟨?_, ?_, ?_⟩⟩
        · exact ne_semicolon_of_starts starts
        · exact goesOn_of_closed behind closed starts
        · exact statement_of_phrase final rest hnext
      · exact length_lt_of_phrase _ _ _

theorem braced_of_phrase : ∀ {levels : Nat} {phrase : List Lexeme} {found : Block},
    IsBraced levels phrase found → ∀ rest : List Lexeme,
      braced (statements levels) (phrase ++ rest) = .ok found rest
  | _ + 1, _, _, .mk opens inner closes, rest => by
      rw [List.cons_append, List.append_assoc, List.singleton_append]
      rcases getLast?_of_list inner with ⟨last, hlast⟩
      refine braced_eq_ok.mpr ⟨_, _, _, rfl, opens, ?_, closes⟩
      refine list_of_continues (continues_of_list inner rest hlast (Or.inl ?_)) ?_
      · exact closes ▸ .rightBrace
      · exact Or.inl closes

end

/-- A list that ends at the end of its braces or of the input is consumed, and
    the block stands on the line of its first lexeme. -/
theorem list_of_phrase {levels : Nat} {phrase : List Lexeme} {items : List Statement}
    {next : Lexeme} (h : IsList levels phrase items)
    (hnext : next.token = .mark .rightBrace ∨ next.token = .eof) (rest : List Lexeme) :
    statements (levels + 1) (phrase ++ next :: rest) =
      .ok (.mk items (firstLine phrase next)) (next :: rest) := by
  rcases getLast?_of_list h with ⟨last, hlast⟩
  refine list_of_continues (continues_of_list h rest hlast (Or.inl ?_)) hnext
  rcases hnext with hnext | hnext
  · exact hnext ▸ .rightBrace
  · exact hnext ▸ .eof

end Eager

end Scriptlet
