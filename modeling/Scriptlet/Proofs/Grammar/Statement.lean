import Scriptlet.Proofs.Grammar.Expression

/-!
# Statements are Read by the Grammar

For each parser of statements it is said what its success means in terms of the
parsers it is made of. With that it is a matter of the rules alone that whatever
the parsers consume is a phrase: of a statement, of a list, or of a list in
braces.

Lists need some care. Where no separator stands between two statements, the
second one has to be more than the empty statement, and it is, because the
token ahead starts another.

## Main definitions

* `IsProper`: A statement that is not empty.
* `ReadsList`: What is consumed is a list, and the block stands on its line.

## Theorems

* `assignment_eq_ok`, `printStatement_eq_ok`, `branch_eq_ok`, `function_eq_ok`,
  `list_eq_ok`, `braced_eq_ok`: What success of a parser means.
* `reads_statement`, `reads_statements`: Parsers consume phrases.
-/

namespace Scriptlet

open Outcome Grammar

namespace Grammar

theorem startsStatement_iff {token : Token} : token.startsStatement = true ↔ Starts token := by
  constructor
  · intro h
    unfold Token.startsStatement at h
    split at h
    · exact .name _
    · exact .print
    · exact .cond
    · exact .func
    · cases h
  · rintro (_ | _ | _ | _)
    · rfl
    · rfl
    · rfl
    · rfl

theorem endsInBrace_iff {statement : Statement} :
    statement.endsInBrace = true ↔ Closed statement := by
  constructor
  · intro h
    cases statement with
    | branch condition whenTrue whenFalse line => exact .branch ..
    | function name params body line => exact .function ..
    | assign name declared value line => cases h
    | print value line => cases h
    | empty => cases h
  · rintro (_ | _)
    · rfl
    · rfl

end Grammar

namespace Eager

/-! ### What success means -/

section Success

variable {factor : Eager Expr} {block : Eager Block} {lexemes rest : List Lexeme}
  {statement : Statement}

theorem assignment_eq_ok :
    assignment factor lexemes = .ok statement rest ↔
      (∃ lexeme colon word equals tail name ty assigned,
        lexemes = lexeme :: colon :: word :: equals :: tail ∧ lexeme.token = .name name ∧
          colon.token = .mark .colon ∧ word.token = .ty ty ∧ equals.token = .mark .equals ∧
          value factor tail = .ok assigned rest ∧
          statement = .assign name (some ty) assigned lexeme.line) ∨
      ∃ lexeme equals tail name assigned,
        lexemes = lexeme :: equals :: tail ∧ lexeme.token = .name name ∧
          equals.token = .mark .equals ∧ value factor tail = .ok assigned rest ∧
          statement = .assign name none assigned lexeme.line := by
  constructor
  · intro h
    rcases eatName_bind_eq_ok.mp h with ⟨lexeme, tail, name, rfl, hnamed, hafter⟩
    rcases peek_bind_eq_ok.mp hafter with ⟨ahead, tail', rfl, hmatch⟩
    -- The token behind the name tells a declaration from an assignment.
    cases htoken : ahead.token with
    | mark mark =>
        rw [htoken] at hmatch
        cases mark with
        | colon =>
            rcases eatTy_bind_eq_ok.mp (advance_bind_eq_ok.mp hmatch)
              with ⟨word, mid, ty, rfl, hword, hrest⟩
            rcases eat_mark_bind_eq_ok.mp hrest with ⟨equals, last, rfl, hequals, hvalue⟩
            rcases bind_eq_ok.mp hvalue with ⟨assigned, _, hassigned, hend⟩
            cases hend
            exact Or.inl ⟨lexeme, ahead, word, equals, last, name, ty, assigned, rfl, hnamed,
              htoken, hword, hequals, hassigned, rfl⟩
        | equals =>
            rcases bind_eq_ok.mp (advance_bind_eq_ok.mp hmatch) with ⟨assigned, _, hassigned, hend⟩
            cases hend
            exact Or.inr ⟨lexeme, ahead, tail', name, assigned, rfl, hnamed, htoken, hassigned, rfl⟩
        | _ => exact absurd hmatch unexpected_ne_ok
    | _ =>
        rw [htoken] at hmatch
        exact absurd hmatch unexpected_ne_ok
  · rintro (⟨lexeme, colon, word, equals, tail, name, ty, assigned, rfl, hnamed, hcolon, hword,
      hequals, hassigned, rfl⟩ | ⟨lexeme, equals, tail, name, assigned, rfl, hnamed, hequals,
      hassigned, rfl⟩)
    · refine eatName_bind_eq_ok.mpr ⟨lexeme, _, name, rfl, hnamed, ?_⟩
      refine peek_bind_eq_ok.mpr ⟨colon, _, rfl, ?_⟩
      rw [hcolon]
      refine advance_bind_eq_ok.mpr (eatTy_bind_eq_ok.mpr ⟨word, _, ty, rfl, hword, ?_⟩)
      refine eat_mark_bind_eq_ok.mpr ⟨equals, tail, rfl, hequals, ?_⟩
      exact bind_eq_ok.mpr ⟨assigned, rest, hassigned, rfl⟩
    · refine eatName_bind_eq_ok.mpr ⟨lexeme, _, name, rfl, hnamed, ?_⟩
      refine peek_bind_eq_ok.mpr ⟨equals, _, rfl, ?_⟩
      rw [hequals]
      exact advance_bind_eq_ok.mpr (bind_eq_ok.mpr ⟨assigned, rest, hassigned, rfl⟩)

theorem printStatement_eq_ok :
    printStatement factor lexemes = .ok statement rest ↔
      ∃ keyword opening closing tail printed,
        lexemes = keyword :: opening :: tail ∧ keyword.token = .keyword .print ∧
          opening.token = .mark .leftParen ∧ value factor tail = .ok printed (closing :: rest) ∧
          closing.token = .mark .rightParen ∧ statement = .print printed keyword.line := by
  constructor
  · intro h
    rcases eat_keyword_bind_eq_ok.mp h with ⟨keyword, _, rfl, hkeyword, hrest⟩
    rcases eat_mark_bind_eq_ok.mp hrest with ⟨opening, tail, rfl, hopening, hvalue⟩
    rcases bind_eq_ok.mp hvalue with ⟨printed, mid, hprinted, hclose⟩
    rcases eat_mark_bind_eq_ok.mp hclose with ⟨closing, _, rfl, hclosing, hend⟩
    cases hend
    exact ⟨keyword, opening, closing, tail, printed, rfl, hkeyword, hopening, hprinted, hclosing,
      rfl⟩
  · rintro ⟨keyword, opening, closing, tail, printed, rfl, hkeyword, hopening, hprinted, hclosing,
      rfl⟩
    refine eat_keyword_bind_eq_ok.mpr ⟨keyword, _, rfl, hkeyword, ?_⟩
    refine eat_mark_bind_eq_ok.mpr ⟨opening, tail, rfl, hopening, ?_⟩
    refine bind_eq_ok.mpr ⟨printed, _, hprinted, ?_⟩
    exact eat_mark_bind_eq_ok.mpr ⟨closing, rest, rfl, hclosing, rfl⟩

/-- A conditional has a second block exactly if `else` follows the first. -/
theorem branch_eq_ok :
    branch factor block lexemes = .ok statement rest ↔
      ∃ keyword opening closing tail mid last decision whenTrue next,
        lexemes = keyword :: opening :: tail ∧ keyword.token = .keyword .cond ∧
          opening.token = .mark .leftParen ∧ condition factor tail = .ok decision (closing :: mid) ∧
          closing.token = .mark .rightParen ∧ block mid = .ok whenTrue (next :: last) ∧
          ((next.token ≠ .keyword .alternative ∧ rest = next :: last ∧
              statement = .branch decision whenTrue none keyword.line) ∨
            ∃ whenFalse, next.token = .keyword .alternative ∧ block last = .ok whenFalse rest ∧
              statement = .branch decision whenTrue (some whenFalse) keyword.line) := by
  constructor
  · intro h
    rcases eat_keyword_bind_eq_ok.mp h with ⟨keyword, _, rfl, hkeyword, hrest⟩
    rcases eat_mark_bind_eq_ok.mp hrest with ⟨opening, tail, rfl, hopening, hdecides⟩
    rcases bind_eq_ok.mp hdecides with ⟨decision, _, hdecision, hclose⟩
    rcases eat_mark_bind_eq_ok.mp hclose with ⟨closing, mid, rfl, hclosing, hblock⟩
    rcases bind_eq_ok.mp hblock with ⟨whenTrue, _, hwhenTrue, hnext⟩
    rcases peek_bind_eq_ok.mp hnext with ⟨next, last, rfl, hif⟩
    refine ⟨keyword, opening, closing, tail, mid, last, decision, whenTrue, next, rfl, hkeyword,
      hopening, hdecision, hclosing, hwhenTrue, ?_⟩
    -- Without `else`, the lexeme that was looked at stays ahead.
    by_cases helse : next.token = .keyword .alternative
    · rw [if_pos helse] at hif
      rcases bind_eq_ok.mp (advance_bind_eq_ok.mp hif) with ⟨whenFalse, _, hwhenFalse, hend⟩
      cases hend
      exact Or.inr ⟨whenFalse, helse, hwhenFalse, rfl⟩
    · rw [if_neg helse] at hif
      cases hif
      exact Or.inl ⟨helse, rfl, rfl⟩
  · rintro ⟨keyword, opening, closing, tail, mid, last, decision, whenTrue, next, rfl, hkeyword,
      hopening, hdecision, hclosing, hwhenTrue, hrest⟩
    refine eat_keyword_bind_eq_ok.mpr ⟨keyword, _, rfl, hkeyword, ?_⟩
    refine eat_mark_bind_eq_ok.mpr ⟨opening, tail, rfl, hopening, ?_⟩
    refine bind_eq_ok.mpr ⟨decision, _, hdecision, ?_⟩
    refine eat_mark_bind_eq_ok.mpr ⟨closing, mid, rfl, hclosing, ?_⟩
    refine bind_eq_ok.mpr ⟨whenTrue, _, hwhenTrue, ?_⟩
    refine peek_bind_eq_ok.mpr ⟨next, last, rfl, ?_⟩
    rcases hrest with ⟨helse, rfl, rfl⟩ | ⟨whenFalse, helse, hwhenFalse, rfl⟩
    · rw [if_neg helse]
      rfl
    · rw [if_pos helse]
      exact advance_bind_eq_ok.mpr (bind_eq_ok.mpr ⟨whenFalse, rest, hwhenFalse, rfl⟩)

theorem function_eq_ok :
    function block lexemes = .ok statement rest ↔
      ∃ keyword lexeme opening closing tail mid name declared body,
        lexemes = keyword :: lexeme :: opening :: tail ∧ keyword.token = .keyword .func ∧
          lexeme.token = .name name ∧ opening.token = .mark .leftParen ∧
          params tail = .ok declared (closing :: mid) ∧ closing.token = .mark .rightParen ∧
          block mid = .ok body rest ∧
          statement = .function name declared body keyword.line := by
  constructor
  · intro h
    rcases eat_keyword_bind_eq_ok.mp h with ⟨keyword, _, rfl, hkeyword, hrest⟩
    rcases eatName_bind_eq_ok.mp hrest with ⟨lexeme, _, name, rfl, hnamed, hrest⟩
    rcases eat_mark_bind_eq_ok.mp hrest with ⟨opening, tail, rfl, hopening, hparams⟩
    rcases bind_eq_ok.mp hparams with ⟨declared, _, hdeclared, hclose⟩
    rcases eat_mark_bind_eq_ok.mp hclose with ⟨closing, mid, rfl, hclosing, hblock⟩
    rcases bind_eq_ok.mp hblock with ⟨body, _, hbody, hend⟩
    cases hend
    exact ⟨keyword, lexeme, opening, closing, tail, mid, name, declared, body, rfl, hkeyword,
      hnamed, hopening, hdeclared, hclosing, hbody, rfl⟩
  · rintro ⟨keyword, lexeme, opening, closing, tail, mid, name, declared, body, rfl, hkeyword,
      hnamed, hopening, hdeclared, hclosing, hbody, rfl⟩
    refine eat_keyword_bind_eq_ok.mpr ⟨keyword, _, rfl, hkeyword, ?_⟩
    refine eatName_bind_eq_ok.mpr ⟨lexeme, _, name, rfl, hnamed, ?_⟩
    refine eat_mark_bind_eq_ok.mpr ⟨opening, tail, rfl, hopening, ?_⟩
    refine bind_eq_ok.mpr ⟨declared, _, hdeclared, ?_⟩
    refine eat_mark_bind_eq_ok.mpr ⟨closing, mid, rfl, hclosing, ?_⟩
    exact bind_eq_ok.mpr ⟨body, rest, hbody, rfl⟩

/-- A parameter is what the rule says, whatever follows it. -/
theorem param_eq_ok {found : Param} :
    param lexemes = .ok found rest ↔ ∃ phrase, lexemes = phrase ++ rest ∧ IsParam phrase found := by
  constructor
  · intro h
    rcases eatName_bind_eq_ok.mp h with ⟨lexeme, _, name, rfl, hnamed, hrest⟩
    rcases eat_mark_bind_eq_ok.mp hrest with ⟨colon, _, rfl, hcolon, hrest⟩
    rcases eatTy_bind_eq_ok.mp hrest with ⟨word, _, ty, rfl, hword, hend⟩
    cases hend
    exact ⟨[lexeme, colon, word], rfl, .mk hnamed hcolon hword⟩
  · rintro ⟨phrase, rfl, hparam⟩
    cases hparam with
    | @mk lexeme colon word name ty named token typed =>
        refine eatName_bind_eq_ok.mpr ⟨lexeme, _, name, rfl, named, ?_⟩
        refine eat_mark_bind_eq_ok.mpr ⟨colon, _, rfl, token, ?_⟩
        exact eatTy_bind_eq_ok.mpr ⟨word, _, ty, rfl, typed, rfl⟩

theorem paramStep_eq_some {done all : List Param} :
    paramStep done lexemes = .ok (some all) rest ↔
      ∃ comma tail next, lexemes = comma :: tail ∧ comma.token = .mark .comma ∧
        param tail = .ok next rest ∧ all = next :: done := by
  constructor
  · intro h
    rcases peek_bind_eq_ok.mp h with ⟨comma, tail, rfl, hif⟩
    by_cases hcomma : comma.token = .mark .comma
    · rw [if_pos hcomma] at hif
      rcases bind_eq_ok.mp (advance_bind_eq_ok.mp hif) with ⟨next, _, hnext, hend⟩
      cases hend
      exact ⟨comma, tail, next, rfl, hcomma, hnext, rfl⟩
    · rw [if_neg hcomma] at hif
      cases hif
  · rintro ⟨comma, tail, next, rfl, hcomma, hnext, rfl⟩
    refine peek_bind_eq_ok.mpr ⟨comma, tail, rfl, ?_⟩
    rw [if_pos hcomma]
    exact advance_bind_eq_ok.mpr (bind_eq_ok.mpr ⟨next, rest, hnext, rfl⟩)

theorem paramStep_eq_none {done : List Param} :
    paramStep done lexemes = .ok none rest ↔
      ∃ lexeme tail, lexemes = lexeme :: tail ∧ lexeme.token ≠ .mark .comma ∧
        rest = lexemes := by
  constructor
  · intro h
    rcases peek_bind_eq_ok.mp h with ⟨lexeme, tail, rfl, hif⟩
    by_cases hcomma : lexeme.token = .mark .comma
    · rw [if_pos hcomma] at hif
      rcases bind_eq_ok.mp (advance_bind_eq_ok.mp hif) with ⟨next, _, _, hend⟩
      cases hend
    · rw [if_neg hcomma] at hif
      cases hif
      exact ⟨lexeme, tail, rfl, hcomma, rfl⟩
  · rintro ⟨lexeme, tail, rfl, hcomma, rfl⟩
    refine peek_bind_eq_ok.mpr ⟨lexeme, tail, rfl, ?_⟩
    rw [if_neg hcomma]
    rfl

/-- Whether a list goes on without a separator. -/
def goesOn (done : List Statement) (token : Token) : Bool :=
  done.head?.any Statement.endsInBrace && token.startsStatement

theorem starts_of_goesOn {done : List Statement} {token : Token} (h : goesOn done token = true) :
    Starts token := by
  rw [goesOn, Bool.and_eq_true, startsStatement_iff] at h
  exact h.2

variable {parser : Eager Statement} {done : List Statement}

/-- A list goes on behind a semicolon, or where none is needed. -/
theorem listStep_eq_some {all : List Statement} :
    listStep parser done lexemes = .ok (some all) rest ↔
      ∃ lexeme tail next, lexemes = lexeme :: tail ∧ all = next :: done ∧
        ((lexeme.token = .mark .semicolon ∧ parser tail = .ok next rest) ∨
          (lexeme.token ≠ .mark .semicolon ∧ goesOn done lexeme.token = true ∧
            parser (lexeme :: tail) = .ok next rest)) := by
  constructor
  · intro h
    rcases peek_bind_eq_ok.mp h with ⟨lexeme, tail, rfl, hif⟩
    by_cases hsep : lexeme.token = .mark .semicolon
    · rw [if_pos hsep] at hif
      rcases bind_eq_ok.mp (advance_bind_eq_ok.mp hif) with ⟨next, _, hnext, hend⟩
      cases hend
      exact ⟨lexeme, tail, next, rfl, rfl, Or.inl ⟨hsep, hnext⟩⟩
    · rw [if_neg hsep] at hif
      by_cases hgo : goesOn done lexeme.token = true
      · rw [goesOn] at hgo
        rw [if_pos hgo] at hif
        rcases bind_eq_ok.mp hif with ⟨next, _, hnext, hend⟩
        cases hend
        exact ⟨lexeme, tail, next, rfl, rfl, Or.inr ⟨hsep, hgo, hnext⟩⟩
      · rw [goesOn] at hgo
        rw [if_neg hgo] at hif
        cases hif
  · rintro ⟨lexeme, tail, next, rfl, rfl, ⟨hsep, hnext⟩ | ⟨hsep, hgo, hnext⟩⟩
    · refine peek_bind_eq_ok.mpr ⟨lexeme, tail, rfl, ?_⟩
      rw [if_pos hsep]
      exact advance_bind_eq_ok.mpr (bind_eq_ok.mpr ⟨next, rest, hnext, rfl⟩)
    · refine peek_bind_eq_ok.mpr ⟨lexeme, tail, rfl, ?_⟩
      rw [goesOn] at hgo
      rw [if_neg hsep, if_pos hgo]
      exact bind_eq_ok.mpr ⟨next, rest, hnext, rfl⟩

theorem listStep_eq_none :
    listStep parser done lexemes = .ok none rest ↔
      ∃ lexeme tail, lexemes = lexeme :: tail ∧ lexeme.token ≠ .mark .semicolon ∧
        goesOn done lexeme.token = false ∧ rest = lexemes := by
  constructor
  · intro h
    rcases peek_bind_eq_ok.mp h with ⟨lexeme, tail, rfl, hif⟩
    by_cases hsep : lexeme.token = .mark .semicolon
    · rw [if_pos hsep] at hif
      rcases bind_eq_ok.mp (advance_bind_eq_ok.mp hif) with ⟨next, _, _, hend⟩
      cases hend
    · rw [if_neg hsep] at hif
      by_cases hgo : goesOn done lexeme.token = true
      · rw [goesOn] at hgo
        rw [if_pos hgo] at hif
        rcases bind_eq_ok.mp hif with ⟨next, _, _, hend⟩
        cases hend
      · rw [Bool.not_eq_true] at hgo
        rw [← goesOn, if_neg (by rw [hgo]; exact Bool.false_ne_true)] at hif
        cases hif
        exact ⟨lexeme, tail, rfl, hsep, hgo, rfl⟩
  · rintro ⟨lexeme, tail, rfl, hsep, hgo, rfl⟩
    refine peek_bind_eq_ok.mpr ⟨lexeme, tail, rfl, ?_⟩
    rw [goesOn] at hgo
    rw [if_neg hsep, if_neg (by rw [hgo]; exact Bool.false_ne_true)]
    rfl

/-- The statements of a list, the last one first. -/
def listItems (parser : Eager Statement) : Eager (List Statement) := do
  let first ← parser
  iterate (listStep parser) [first]

theorem list_eq_ok {found : Block} :
    list parser lexemes = .ok found rest ↔
      ∃ lexeme tail done, lexemes = lexeme :: tail ∧ listItems parser lexemes = .ok done rest ∧
        found = .mk done.reverse lexeme.line := by
  constructor
  · intro h
    rcases peek_bind_eq_ok.mp h with ⟨lexeme, tail, rfl, hlist⟩
    rcases bind_eq_ok.mp hlist with ⟨first, mid, hfirst, hiterate⟩
    rcases bind_eq_ok.mp hiterate with ⟨done, _, hdone, hend⟩
    cases hend
    exact ⟨lexeme, tail, done, rfl, bind_eq_ok.mpr ⟨first, mid, hfirst, hdone⟩, rfl⟩
  · rintro ⟨lexeme, tail, done, rfl, hitems, rfl⟩
    rcases bind_eq_ok.mp hitems with ⟨first, mid, hfirst, hdone⟩
    refine peek_bind_eq_ok.mpr ⟨lexeme, tail, rfl, ?_⟩
    refine bind_eq_ok.mpr ⟨first, mid, hfirst, ?_⟩
    exact bind_eq_ok.mpr ⟨done, rest, hdone, rfl⟩

theorem braced_eq_ok {found : Block} :
    braced block lexemes = .ok found rest ↔
      ∃ opening closing tail, lexemes = opening :: tail ∧ opening.token = .mark .leftBrace ∧
        block tail = .ok found (closing :: rest) ∧ closing.token = .mark .rightBrace := by
  have hclosing : TokenKind.mark .rightBrace ≠ .eof := by
    simp only [ne_eq, reduceCtorEq, not_false_eq_true]
  constructor
  · intro h
    rcases eat_mark_bind_eq_ok.mp h with ⟨opening, tail, rfl, hopening, hlist⟩
    rcases bind_eq_ok.mp hlist with ⟨inner, mid, hinner, hlast⟩
    rcases bind_eq_ok.mp hlast with ⟨_, _, hlistEnd, hend⟩
    cases hend
    rcases (listEnd_eq_ok hclosing).mp hlistEnd with ⟨closing, rfl, hkind⟩
    exact ⟨opening, closing, tail, rfl, hopening, hinner, Token.kind_eq_mark.mp hkind⟩
  · rintro ⟨opening, closing, tail, rfl, hopening, hinner, hclose⟩
    refine eat_mark_bind_eq_ok.mpr ⟨opening, tail, rfl, hopening, ?_⟩
    refine bind_eq_ok.mpr ⟨found, _, hinner, ?_⟩
    refine bind_eq_ok.mpr ⟨(), rest, ?_, rfl⟩
    exact (listEnd_eq_ok hclosing).mpr ⟨closing, rfl, Token.kind_eq_mark.mpr hclose⟩

end Success

/-! ### Parsers consume phrases -/

/-- The parameters of a function, the last one first. -/
def paramItems : Eager (List Param) := do
  let first ← param
  iterate paramStep [first]

theorem extends_paramStep :
    Extends (fun phrase done => IsParams phrase done.reverse) paramStep := by
  intro phrase done all lexemes rest hparams hstep
  rcases paramStep_eq_some.mp hstep with ⟨comma, tail, next, rfl, hcomma, hnext, rfl⟩
  rcases param_eq_ok.mp hnext with ⟨second, rfl, hparam⟩
  refine ⟨comma :: second, rfl, ?_⟩
  simp only [List.reverse_cons]
  exact .more hparams hcomma hparam

theorem reads_paramItems : Reads (fun phrase done => IsParams phrase done.reverse) paramItems := by
  refine reads_iterate (fun first => [first]) ?_ extends_paramStep ?_
  · intro lexemes first rest h
    rcases param_eq_ok.mp h with ⟨phrase, hphrase, hparam⟩
    exact ⟨phrase, hphrase, .single hparam⟩
  · intro done lexemes rest hstep
    rcases paramStep_eq_none.mp hstep with ⟨_, _, _, _, hrest⟩
    exact hrest

/-- What is consumed as parameters is what the rules say. -/
theorem reads_params : Reads IsSignature params := by
  intro lexemes found rest h
  rcases peek_bind_eq_ok.mp h with ⟨lexeme, tail, rfl, hif⟩
  by_cases hclose : lexeme.token = .mark .rightParen
  · rw [if_pos hclose] at hif
    cases hif
    exact ⟨[], rfl, .nothing⟩
  · rw [if_neg hclose] at hif
    rcases bind_eq_ok.mp hif with ⟨first, mid, hfirst, hiterate⟩
    rcases bind_eq_ok.mp hiterate with ⟨done, _, hdone, hend⟩
    cases hend
    have hitems : paramItems (lexeme :: tail) = .ok done rest :=
      bind_eq_ok.mpr ⟨first, mid, hfirst, hdone⟩
    rcases reads_paramItems _ done rest hitems with ⟨phrase, hphrase, hparams⟩
    exact ⟨phrase, hphrase, .params hparams⟩

section Statements

variable {levels : Nat} {inner : Eager Expr} {block : Eager Block}
  (hinner : Reads (IsFactor levels) inner) (hblock : Reads (IsBraced levels) block)

/-- A statement that is not empty. -/
def IsProper (levels : Nat) (phrase : List Lexeme) (statement : Statement) : Prop :=
  phrase ≠ [] ∧ IsStatement levels phrase statement

include hinner

theorem reads_assignment : Reads (IsProper levels) (assignment inner) := by
  intro lexemes found rest h
  rcases assignment_eq_ok.mp h with ⟨lexeme, colon, word, equals, tail, name, ty, assigned, rfl,
    hnamed, hcolon, hword, hequals, hassigned, rfl⟩ | ⟨lexeme, equals, tail, name, assigned, rfl,
    hnamed, hequals, hassigned, rfl⟩
  · rcases reads_value hinner tail assigned rest hassigned with ⟨phrase, rfl, hvalue⟩
    exact ⟨lexeme :: colon :: word :: equals :: phrase, rfl, List.cons_ne_nil _ _,
      .declare hnamed hcolon hword hequals hvalue⟩
  · rcases reads_value hinner tail assigned rest hassigned with ⟨phrase, rfl, hvalue⟩
    exact ⟨lexeme :: equals :: phrase, rfl, List.cons_ne_nil _ _, .assign hnamed hequals hvalue⟩

theorem reads_printStatement : Reads (IsProper levels) (printStatement inner) := by
  intro lexemes found rest h
  rcases printStatement_eq_ok.mp h with ⟨keyword, opening, closing, tail, printed, rfl, hkeyword,
    hopening, hprinted, hclosing, rfl⟩
  rcases reads_value hinner tail printed _ hprinted with ⟨phrase, rfl, hvalue⟩
  refine ⟨keyword :: opening :: (phrase ++ [closing]), ?_, List.cons_ne_nil _ _,
    .print hkeyword hopening hvalue hclosing⟩
  rw [List.cons_append, List.cons_append, List.append_assoc, List.singleton_append]

include hblock

theorem reads_branch : Reads (IsProper levels) (branch inner block) := by
  intro lexemes found rest h
  rcases branch_eq_ok.mp h with ⟨keyword, opening, closing, tail, mid, last, decision, whenTrue,
    next, rfl, hkeyword, hopening, hdecision, hclosing, hwhenTrue, hend⟩
  rcases reads_condition hinner tail decision _ hdecision with ⟨phrase, rfl, hcondition⟩
  rcases hblock mid whenTrue _ hwhenTrue with ⟨first, rfl, hfirst⟩
  rcases hend with ⟨_, rfl, rfl⟩ | ⟨whenFalse, helse, hwhenFalse, rfl⟩
  · refine ⟨keyword :: opening :: (phrase ++ closing :: first), ?_, List.cons_ne_nil _ _,
      .branch hkeyword hopening hcondition hclosing hfirst⟩
    rw [List.cons_append, List.cons_append, append_cons_append]
  · rcases hblock last whenFalse rest hwhenFalse with ⟨second, rfl, hsecond⟩
    refine ⟨keyword :: opening :: (phrase ++ closing :: (first ++ next :: second)), ?_,
      List.cons_ne_nil _ _, .choice hkeyword hopening hcondition hclosing hfirst helse hsecond⟩
    rw [List.cons_append, List.cons_append, append_cons_append, append_cons_append]

omit hinner in
theorem reads_function : Reads (IsProper levels) (function block) := by
  intro lexemes found rest h
  rcases function_eq_ok.mp h with ⟨keyword, lexeme, opening, closing, tail, mid, name, declared,
    body, rfl, hkeyword, hnamed, hopening, hdeclared, hclosing, hbody, rfl⟩
  rcases reads_params tail declared _ hdeclared with ⟨phrase, rfl, hparams⟩
  rcases hblock mid body rest hbody with ⟨second, rfl, hsecond⟩
  refine ⟨keyword :: lexeme :: opening :: (phrase ++ closing :: second), ?_, List.cons_ne_nil _ _,
    .function hkeyword hnamed hopening hparams hclosing hsecond⟩
  rw [List.cons_append, List.cons_append, List.cons_append, append_cons_append]

omit hinner hblock in
/-- The token ahead decides which statement is read. -/
theorem statement_cons (lexeme : Lexeme) (tail : List Lexeme) :
    statement inner block (lexeme :: tail) =
      (match lexeme.token with
        | .name _ => assignment inner
        | .keyword .print => printStatement inner
        | .keyword .cond => branch inner block
        | .keyword .func => function block
        | _ => pure .empty) (lexeme :: tail) := rfl

/-- Where a token starts a statement, one that is not empty is consumed. -/
theorem proper_of_starts {lexeme : Lexeme} {tail rest : List Lexeme} {found : Statement}
    (hstarts : Starts lexeme.token)
    (h : statement inner block (lexeme :: tail) = .ok found rest) :
    ∃ phrase, lexeme :: tail = phrase ++ rest ∧ IsProper levels phrase found := by
  rw [statement_cons] at h
  generalize lexeme.token = token at hstarts h
  cases hstarts with
  | name name => exact reads_assignment hinner _ _ _ h
  | print => exact reads_printStatement hinner _ _ _ h
  | cond => exact reads_branch hinner hblock _ _ _ h
  | func => exact reads_function hblock _ _ _ h

omit hinner hblock in
/-- Where no token starts a statement, nothing is consumed. -/
theorem statement_of_not_starts {lexeme : Lexeme} (hstarts : ¬ Starts lexeme.token)
    (tail : List Lexeme) :
    statement inner block (lexeme :: tail) = .ok .empty (lexeme :: tail) := by
  rw [statement_cons]
  cases htoken : lexeme.token with
  | name name => exact absurd (htoken ▸ .name name) hstarts
  | keyword keyword =>
      cases keyword with
      | print => exact absurd (htoken ▸ .print) hstarts
      | cond => exact absurd (htoken ▸ .cond) hstarts
      | func => exact absurd (htoken ▸ .func) hstarts
      | alternative => rfl
  | _ => rfl

theorem reads_statement : Reads (IsStatement levels) (statement inner block) := by
  intro lexemes found rest h
  rcases peek_bind_eq_ok.mp h with ⟨lexeme, tail, rfl, _⟩
  by_cases hstarts : Starts lexeme.token
  · rcases proper_of_starts hinner hblock hstarts h with ⟨phrase, hphrase, _, hstatement⟩
    exact ⟨phrase, hphrase, hstatement⟩
  · rw [statement_of_not_starts hstarts] at h
    cases h
    exact ⟨[], rfl, .empty⟩

omit hinner hblock in
/-- A statement that is not empty shows itself by its first token. -/
theorem head_of_proper {phrase : List Lexeme} {found : Statement}
    (h : IsProper levels phrase found) :
    ∃ lexeme tail, phrase = lexeme :: tail ∧ Starts lexeme.token := by
  rcases h with ⟨hne, hone⟩
  cases hone with
  | declare named => exact ⟨_, _, rfl, named ▸ .name _⟩
  | assign named => exact ⟨_, _, rfl, named ▸ .name _⟩
  | print token => exact ⟨_, _, rfl, token ▸ .print⟩
  | branch token => exact ⟨_, _, rfl, token ▸ .cond⟩
  | choice token => exact ⟨_, _, rfl, token ▸ .cond⟩
  | function token => exact ⟨_, _, rfl, token ▸ .func⟩
  | empty => exact absurd rfl hne

omit hinner hblock in
/-- Where a list goes on without a separator, it goes on by a statement that is
    not empty. -/
theorem list_of_proper {phrase second : List Lexeme} {done : List Statement} {next : Statement}
    {token : Token} (hlist : IsList levels phrase done.reverse) (hgo : goesOn done token = true)
    (hone : IsProper levels second next) :
    IsList levels (phrase ++ second) (next :: done).reverse := by
  rw [goesOn, Bool.and_eq_true, Option.any_eq_true] at hgo
  rcases hgo.1 with ⟨previous, hprevious, hclosed⟩
  rcases head_of_proper hone with ⟨lexeme, tail, rfl, hstarts⟩
  rw [List.reverse_cons]
  refine .adjacent hlist ?_ (endsInBrace_iff.mp hclosed) hstarts hone.2
  rw [List.getLast?_reverse, hprevious]

/-- A separator and a statement add to a list, and so does a statement that
    needs no separator. -/
theorem extends_listStep :
    Extends (fun phrase done => IsList levels phrase done.reverse)
      (listStep (statement inner block)) := by
  intro phrase done all lexemes rest hlist hstep
  rcases listStep_eq_some.mp hstep
    with ⟨lexeme, tail, next, rfl, rfl, ⟨hsep, hnext⟩ | ⟨_, hgo, hnext⟩⟩
  · rcases reads_statement hinner hblock tail next rest hnext with ⟨second, rfl, hone⟩
    refine ⟨lexeme :: second, rfl, ?_⟩
    simp only [List.reverse_cons]
    exact .separated hlist hsep hone
  · -- The token ahead starts a statement, so the next one is not empty.
    rcases proper_of_starts hinner hblock (starts_of_goesOn hgo) hnext with ⟨second, hsecond, hone⟩
    exact ⟨second, hsecond, list_of_proper hlist hgo hone⟩

theorem reads_listItems :
    Reads (fun phrase done => IsList levels phrase done.reverse)
      (listItems (statement inner block)) := by
  refine reads_iterate (fun first => [first]) ?_ (extends_listStep hinner hblock) ?_
  · intro lexemes first rest h
    rcases reads_statement hinner hblock lexemes first rest h with ⟨phrase, hphrase, hone⟩
    exact ⟨phrase, hphrase, .single hone⟩
  · intro done lexemes rest hstep
    rcases listStep_eq_none.mp hstep with ⟨_, _, _, _, _, hrest⟩
    exact hrest

end Statements

/-- What is consumed is a list one level further in, for a block that stands on
    the line of the first lexeme ahead. -/
def ReadsList (levels : Nat) (parser : Eager Block) : Prop :=
  ∀ lexemes block rest, parser lexemes = .ok block rest →
    ∃ phrase items lexeme tail, lexemes = phrase ++ rest ∧ lexemes = lexeme :: tail ∧
      Below IsList levels phrase items ∧ block = .mk items lexeme.line

/-- The line of a list is the line of the first lexeme ahead. -/
theorem firstLine_eq {phrase rest tail : List Lexeme} {behind lexeme : Lexeme}
    (h : phrase ++ behind :: rest = lexeme :: tail) : firstLine phrase behind = lexeme.line := by
  cases phrase with
  | nil =>
      rw [List.nil_append, List.cons.injEq] at h
      rw [firstLine, List.headD_nil, h.1]
  | cons first phrase =>
      rw [List.cons_append, List.cons.injEq] at h
      rw [firstLine, List.headD_cons, h.1]

theorem reads_braced {levels : Nat} {parser : Eager Block} (h : ReadsList levels parser) :
    Reads (IsBraced levels) (braced parser) := by
  intro lexemes block rest hok
  rcases braced_eq_ok.mp hok with ⟨opening, closing, tail, rfl, hopening, hlist, hclosing⟩
  rcases h tail block _ hlist with ⟨phrase, items, lexeme, tail', rfl, hfirst, hitems, rfl⟩
  cases levels with
  -- Without a level to spend there are no braces.
  | zero => exact hitems.elim
  | succ levels =>
      refine ⟨opening :: (phrase ++ [closing]), ?_, ?_⟩
      · rw [List.cons_append, List.append_assoc, List.singleton_append]
      · rw [← firstLine_eq hfirst]
        exact .mk hopening hitems hclosing

/-- With some levels to spend, its own among them, the parser of lists consumes
    lists that leave one less. -/
theorem reads_statements (levels : Nat) : ReadsList levels (statements levels) := by
  induction levels with
  | zero => exact fun lexemes block rest h => absurd h tooDeep_ne_ok
  | succ levels ih =>
      intro lexemes block rest h
      rw [statements] at h
      rcases list_eq_ok.mp h with ⟨lexeme, tail, done, hlexemes, hitems, rfl⟩
      rcases reads_listItems (reads_factor (levels + 1)) (reads_braced ih) lexemes done rest hitems
        with ⟨phrase, hphrase, hlist⟩
      exact ⟨phrase, done.reverse, lexeme, tail, hphrase, hlexemes, hlist, rfl⟩

end Eager

end Scriptlet
