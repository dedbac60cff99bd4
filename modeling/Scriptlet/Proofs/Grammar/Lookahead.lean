import Scriptlet.Proofs.Grammar.Statement

/-!
# How Far Parsers Look

A parser reads from left to right and asks for one lexeme at a time. So what it
has found out is settled by the lexemes it was given so far, however the list
goes on: the same result, or the same syntax error, comes of every list that
begins alike. A list begins like another if its lexemes have the same tokens on
the same lines. Where in the text a lexeme was found does not matter.

Only a parser that has looked at everything may say that it needs more. And the
end of the input is never consumed, so a list that holds it cannot be used up:
on such a list no parser asks for more.

All of this is one property of a parser, which sequencing hands on. Each parser
is shown to have it by following its definition. Repetition needs in addition
that every step consumes, or the bound on the number of steps could be met too
early.

## Main definitions

* `Begins`: A list begins like another.
* `Settled`: What an outcome on one list says about the outcome on a list that
  begins alike.
* `Steady`: A parser whose outcomes are settled.

## Theorems

* `steady_bind`, `steady_iterate`: Sequences and repetitions are steady.
* `steady_factor`, `steady_statements`, `steady_program`: The parsers are.
-/

namespace Scriptlet

/-- Two lexemes with the same token on the same line. -/
def Lexeme.Alike (a b : Lexeme) : Prop := a.token = b.token ∧ a.line = b.line

/-- The second list begins like the first: lexeme by lexeme they are alike, as
    far as the first one goes. -/
inductive Begins : List Lexeme → List Lexeme → Prop where
  | nil (long : List Lexeme) : Begins [] long
  | cons {a b : Lexeme} {short long : List Lexeme} (alike : a.Alike b)
      (tail : Begins short long) : Begins (a :: short) (b :: long)

theorem begins_refl (lexemes : List Lexeme) : Begins lexemes lexemes := by
  induction lexemes with
  | nil => exact .nil []
  | cons lexeme rest ih => exact .cons ⟨rfl, rfl⟩ ih

theorem length_le_of_begins {short long : List Lexeme} (h : Begins short long) :
    short.length ≤ long.length := by
  induction h with
  | nil long => exact Nat.zero_le _
  | cons alike tail ih =>
      rw [List.length_cons, List.length_cons]
      omega

namespace Eager

open Outcome Grammar

variable {α β : Type}

/-- The lexemes of a list, none of which is the end of the input. -/
def Endless (lexemes : List Lexeme) : Prop := ∀ lexeme ∈ lexemes, lexeme.token ≠ .eof

theorem endless_nil : Endless [] := by
  intro lexeme hmem
  cases hmem

theorem endless_cons {lexeme : Lexeme} {rest : List Lexeme} (hlexeme : lexeme.token ≠ .eof)
    (hrest : Endless rest) : Endless (lexeme :: rest) := by
  intro other hmem
  rcases List.mem_cons.mp hmem with rfl | hmem
  · exact hlexeme
  · exact hrest other hmem

theorem endless_append {first second : List Lexeme} (hfirst : Endless first)
    (hsecond : Endless second) : Endless (first ++ second) := by
  intro lexeme hmem
  rcases List.mem_append.mp hmem with hmem | hmem
  · exact hfirst lexeme hmem
  · exact hsecond lexeme hmem

/-- What the outcome on some lexemes ahead says about the outcome on a list
    that begins like them. A success is repeated with related values, and what
    was consumed is not the end of the input. A syntax error is repeated as it
    is. To ask for more says nothing about the other list, but it says that the
    end of the input was not ahead. -/
def Settled (V : α → α → Prop) (ahead : List Lexeme) :
    EStateM.Result Stop (List Lexeme) α → EStateM.Result Stop (List Lexeme) α → Prop
  | .ok a rest, other =>
    (∃ phrase, ahead = phrase ++ rest ∧ Endless phrase) ∧
      ∃ b rest', other = .ok b rest' ∧ V a b ∧ Begins rest rest'
  | .error (.grammar e) _, other => ∃ rest', other = .error (.grammar e) rest'
  | .error .starved _, _ => Endless ahead

/-- Two parsers that do the same on lists that begin alike. -/
def Steady (V : α → α → Prop) (p q : Eager α) : Prop :=
  ∀ short long, Begins short long → Settled V short (p short) (q long)

/-! ### Sequences -/

/-- What was consumed before counts as consumed. -/
theorem settled_append {V : α → α → Prop} {phrase rest : List Lexeme}
    {r s : EStateM.Result Stop (List Lexeme) α} (hphrase : Endless phrase)
    (h : Settled V rest r s) : Settled V (phrase ++ rest) r s := by
  cases r with
  | ok a last =>
      rcases h with ⟨⟨second, hsecond, hendless⟩, hother⟩
      refine ⟨⟨phrase ++ second, ?_, endless_append hphrase hendless⟩, hother⟩
      rw [hsecond, List.append_assoc]
  | error stop last =>
      cases stop with
      | starved => exact endless_append hphrase h
      | grammar e => exact h

theorem settled_cons {V : α → α → Prop} {lexeme : Lexeme} {rest : List Lexeme}
    {r s : EStateM.Result Stop (List Lexeme) α} (hlexeme : lexeme.token ≠ .eof)
    (h : Settled V rest r s) : Settled V (lexeme :: rest) r s :=
  settled_append (endless_cons hlexeme endless_nil) h

theorem settled_bind {V : α → α → Prop} {W : β → β → Prop} {p q : Eager α}
    {f g : α → Eager β} {short long : List Lexeme} (hp : Settled V short (p short) (q long))
    (hf : ∀ a b rest rest', p short = .ok a rest → V a b → Begins rest rest' →
      Settled W rest (f a rest) (g b rest')) :
    Settled W short ((p >>= f) short) ((q >>= g) long) := by
  cases hshort : p short with
  | ok a rest =>
      rw [hshort] at hp
      rcases hp with ⟨⟨phrase, hphrase, hendless⟩, b, rest', hlong, hvalue, hrest⟩
      rw [bind_of_ok hshort, bind_of_ok hlong, hphrase]
      exact settled_append hendless (hf a b rest rest' hshort hvalue hrest)
  | error stop rest =>
      rw [hshort] at hp
      rw [bind_of_error hshort]
      cases stop with
      | starved => exact hp
      | grammar e =>
          rcases hp with ⟨rest', hlong⟩
          rw [bind_of_error hlong]
          exact ⟨rest', rfl⟩

theorem steady_bind {V : α → α → Prop} {W : β → β → Prop} {p q : Eager α}
    {f g : α → Eager β} (hp : Steady V p q) (hf : ∀ a b, V a b → Steady W (f a) (g b)) :
    Steady W (p >>= f) (q >>= g) := by
  intro short long hbegins
  refine settled_bind (hp short long hbegins) ?_
  intro a b rest rest' _ hvalue hrest
  exact hf a b hvalue rest rest' hrest

theorem steady_then {W : β → β → Prop} {p q : Eager α} {f g : α → Eager β}
    (hp : Steady Eq p q) (hf : ∀ a, Steady W (f a) (g a)) : Steady W (p >>= f) (q >>= g) := by
  refine steady_bind hp ?_
  rintro a b rfl
  exact hf a

theorem steady_pure (a : α) : Steady Eq (pure a) (pure a) := by
  intro short long hbegins
  exact ⟨⟨[], rfl, endless_nil⟩, a, long, rfl, rfl, hbegins⟩

theorem steady_throw (e : SyntaxError) :
    Steady (Eq : α → α → Prop) (throw (.grammar e)) (throw (.grammar e)) := by
  intro short long _
  exact ⟨long, rfl⟩

/-! ### Single lexemes -/

/-- To look ahead is to ask for a lexeme. If there is one, the longer list has
    one like it. -/
theorem steady_peek_bind {W : β → β → Prop} {f g : Lexeme → Eager β}
    (h : ∀ token line span span' short long, Begins short long →
      Settled W (⟨token, span, line⟩ :: short)
        (f ⟨token, span, line⟩ (⟨token, span, line⟩ :: short))
        (g ⟨token, span', line⟩ (⟨token, span', line⟩ :: long))) :
    Steady W (peek >>= f) (peek >>= g) := by
  intro short long hbegins
  cases hbegins with
  | nil long => exact endless_nil
  | @cons a b short long alike tail =>
      rcases a with ⟨token, span, line⟩
      rcases b with ⟨token', span', line'⟩
      rcases alike with ⟨rfl, rfl⟩
      exact h token line span span' short long tail

section Ahead

variable {W : β → β → Prop} {token : Token} {line : Nat} {span span' : Span}
  {short long : List Lexeme}

/-- Consuming the lexeme that was looked at is steady, unless it is the end of
    the input. -/
theorem settled_advance {f g : Unit → Eager β} (hbegins : Begins short long)
    (htoken : token ≠ .eof) (h : Steady W (f ()) (g ())) :
    Settled W (⟨token, span, line⟩ :: short) ((advance >>= f) (⟨token, span, line⟩ :: short))
      ((advance >>= g) (⟨token, span', line⟩ :: long)) :=
  settled_cons htoken (h short long hbegins)

/-- Looking at a lexeme does not keep a steady parser from starting there. -/
theorem settled_stay {p q : Eager β} (hbegins : Begins short long) (h : Steady W p q) :
    Settled W (⟨token, span, line⟩ :: short) (p (⟨token, span, line⟩ :: short))
      (q (⟨token, span', line⟩ :: long)) :=
  h _ _ (.cons ⟨rfl, rfl⟩ hbegins)

end Ahead

theorem steady_unexpected (expected : String) :
    Steady (Eq : α → α → Prop) (unexpected expected) (unexpected expected) := by
  refine steady_peek_bind ?_
  intro token line span span' short long hbegins
  exact settled_stay hbegins (steady_throw _)

theorem steady_tooDeep : Steady (Eq : α → α → Prop) tooDeep tooDeep := by
  refine steady_peek_bind ?_
  intro token line span span' short long hbegins
  exact settled_stay hbegins (steady_throw _)

theorem steady_eat {kind : TokenKind} (hkind : kind ≠ .eof) :
    Steady Lexeme.Alike (eat kind) (eat kind) := by
  refine steady_peek_bind ?_
  intro token line span span' short long hbegins
  by_cases h : token.kind = kind
  · have htoken : token ≠ .eof := by
      intro heof
      rw [heof] at h
      exact hkind h.symm
    simp only [if_pos h]
    exact ⟨⟨[⟨token, span, line⟩], rfl, endless_cons htoken endless_nil⟩, _, long, rfl,
      ⟨rfl, rfl⟩, hbegins⟩
  · simp only [if_neg h]
    exact ⟨_, rfl⟩

theorem mark_ne_eof {mark : Mark} : TokenKind.mark mark ≠ .eof := by
  simp only [ne_eq, reduceCtorEq, not_false_eq_true]

theorem keyword_ne_eof {keyword : Keyword} : TokenKind.keyword keyword ≠ .eof := by
  simp only [ne_eq, reduceCtorEq, not_false_eq_true]

theorem steady_eatName : Steady Eq eatName eatName := by
  refine steady_peek_bind ?_
  intro token line span span' short long hbegins
  cases token with
  | name name => exact settled_advance hbegins Token.noConfusion (steady_pure (name, line))
  | _ => exact settled_stay hbegins (steady_unexpected _)

theorem steady_eatTy : Steady Eq eatTy eatTy := by
  refine steady_peek_bind ?_
  intro token line span span' short long hbegins
  cases token with
  | ty ty => exact settled_advance hbegins Token.noConfusion (steady_pure ty)
  | _ => exact settled_stay hbegins (steady_unexpected _)

/-! ### Repetition -/

/-- A step that goes on leaves fewer lexemes ahead. -/
def Shrinks (step : α → Eager (Option α)) : Prop :=
  ∀ a b lexemes rest, step a lexemes = .ok (some b) rest → rest.length < lexemes.length

/-- A steady parser leaves no more than it was given. -/
theorem length_le_of_steady {p : Eager α} (hp : Steady Eq p p) {lexemes rest : List Lexeme}
    {a : α} (h : p lexemes = .ok a rest) : rest.length ≤ lexemes.length := by
  have hsettled := hp lexemes lexemes (begins_refl lexemes)
  rw [h] at hsettled
  rcases hsettled with ⟨⟨phrase, hphrase, _⟩, _⟩
  rw [hphrase, List.length_append]
  omega

-- The bound is used up only when the lexemes are, because each step takes at least one of them.
-- So a repetition that stops at its bound has looked at everything.
theorem settled_iterateWithin {step : α → Eager (Option α)}
    (hstep : ∀ a, Steady Eq (step a) (step a)) (hshrinks : Shrinks step) :
    ∀ (bound bound' : List Lexeme) (a : α) (short long : List Lexeme),
      short.length ≤ bound.length → bound.length ≤ bound'.length → Begins short long →
      Settled Eq short (iterateWithin step bound a short) (iterateWithin step bound' a long) := by
  intro bound
  induction bound with
  | nil =>
      intro bound' a short long hshort _ _
      have hnil : short = [] := List.length_eq_zero_iff.mp (Nat.le_zero.mp hshort)
      rw [hnil]
      exact endless_nil
  | cons first bound ih =>
      intro bound' a short long hshort hbound hbegins
      cases bound' with
      | nil => exact absurd hbound (Nat.not_succ_le_zero _)
      | cons first' bound' =>
          rw [List.length_cons] at hshort hbound
          rw [List.length_cons] at hbound
          rw [iterateWithin, iterateWithin]
          refine settled_bind (hstep a short long hbegins) ?_
          rintro next next' rest rest' hnext rfl hrest
          cases next with
          | none => exact steady_pure a rest rest' hrest
          | some b =>
              have hlt := hshrinks a b short rest hnext
              exact ih bound' b rest rest' (by omega) (by omega) hrest

theorem steady_iterate {step : α → Eager (Option α)} (hstep : ∀ a, Steady Eq (step a) (step a))
    (hshrinks : Shrinks step) (a : α) : Steady Eq (iterate step a) (iterate step a) := by
  intro short long hbegins
  exact settled_iterateWithin hstep hshrinks short long a short long (Nat.le_refl _)
    (length_le_of_begins hbegins) hbegins

/-! ### Expressions -/

section Expressions

variable {inner : Eager Expr} (hinner : Steady Eq inner inner)

include hinner

theorem shrinks_chainStep (op? : Token → Option ArithOp) : Shrinks (chainStep inner op?) := by
  intro left expr lexemes rest h
  rcases chainStep_eq_some.mp h with ⟨lexeme, tail, op, right, rfl, _, hright, _⟩
  have hle := length_le_of_steady hinner hright
  rw [List.length_cons]
  omega

theorem steady_chainStep {op? : Token → Option ArithOp} (hop : op? .eof = none) (left : Expr) :
    Steady Eq (chainStep inner op? left) (chainStep inner op? left) := by
  refine steady_peek_bind ?_
  intro token line span span' short long hbegins
  cases hmatch : op? token with
  | none =>
      exact settled_stay hbegins (steady_pure none)
  | some op =>
      have htoken : token ≠ .eof := by
        intro heof
        rw [heof, hop] at hmatch
        cases hmatch
      exact settled_advance hbegins htoken (steady_then hinner fun right => steady_pure _)

theorem steady_chainLeft {op? : Token → Option ArithOp} (hop : op? .eof = none) :
    Steady Eq (chainLeft inner op?) (chainLeft inner op?) := by
  refine steady_then hinner fun first => ?_
  exact steady_iterate (steady_chainStep hinner hop) (shrinks_chainStep hinner op?) first

theorem steady_sum : Steady Eq (sum inner) (sum inner) :=
  steady_chainLeft (steady_chainLeft hinner rfl) rfl

theorem steady_factorWith : Steady Eq (factorWith inner) (factorWith inner) := by
  refine steady_peek_bind ?_
  intro token line span span' short long hbegins
  cases token with
  | integer value =>
      exact settled_advance hbegins Token.noConfusion (steady_pure _)
  | name name => exact settled_advance hbegins Token.noConfusion (steady_pure _)
  | mark mark =>
      cases mark with
      | plus =>
          refine settled_advance hbegins Token.noConfusion ?_
          exact steady_then hinner fun operand => steady_pure _
      | minus =>
          refine settled_advance hbegins Token.noConfusion ?_
          exact steady_then hinner fun operand => steady_pure _
      | leftParen =>
          refine settled_advance hbegins Token.noConfusion ?_
          refine steady_then (steady_sum hinner) fun expr => ?_
          exact steady_bind (steady_eat mark_ne_eof) fun _ _ _ => steady_pure expr
      | _ => exact settled_stay hbegins (steady_unexpected _)
  | _ => exact settled_stay hbegins (steady_unexpected _)

theorem steady_value : Steady Eq (value inner) (value inner) := by
  refine steady_peek_bind ?_
  intro token line span span' short long hbegins
  cases token with
  | string content => exact settled_advance hbegins Token.noConfusion (steady_pure _)
  | bool flag => exact settled_advance hbegins Token.noConfusion (steady_pure _)
  | _ => exact settled_stay hbegins (steady_sum hinner)

theorem steady_comparison (left : Expr) :
    Steady Eq (comparison inner left) (comparison inner left) := by
  refine steady_peek_bind ?_
  intro token line span span' short long hbegins
  cases horder : token.order? with
  | none =>
      exact settled_stay hbegins (steady_unexpected _)
  | some order =>
      have htoken : token ≠ .eof := by
        intro heof
        rw [heof] at horder
        cases horder
      refine settled_advance hbegins htoken ?_
      exact steady_then (steady_sum hinner) fun right => steady_pure _

theorem steady_condition : Steady Eq (condition inner) (condition inner) := by
  refine steady_peek_bind ?_
  intro token line span span' short long hbegins
  cases token with
  | bool flag =>
      refine settled_advance hbegins Token.noConfusion ?_
      -- The token behind a truth value says whether it is compared.
      refine steady_peek_bind ?_
      intro token line' span span' short long hbegins
      cases horder : token.order? with
      | none =>
          exact settled_stay hbegins (steady_pure _)
      | some order =>
          exact settled_stay hbegins (steady_comparison hinner _)
  | _ =>
      refine settled_stay hbegins ?_
      exact steady_then (steady_sum hinner) fun left => steady_comparison hinner left

end Expressions

theorem steady_factor (levels : Nat) : Steady Eq (factor levels) (factor levels) := by
  induction levels with
  | zero => exact steady_tooDeep
  | succ levels ih => exact steady_factorWith ih

/-! ### Statements -/

theorem steady_param : Steady Eq param param := by
  refine steady_then steady_eatName fun named => ?_
  refine steady_bind (steady_eat mark_ne_eof) fun _ _ _ => ?_
  exact steady_then steady_eatTy fun ty => steady_pure _

theorem steady_paramStep (done : List Param) : Steady Eq (paramStep done) (paramStep done) := by
  refine steady_peek_bind ?_
  intro token line span span' short long hbegins
  by_cases hcomma : token = .mark .comma
  · have htoken : token ≠ .eof := by
      rw [hcomma]
      exact Token.noConfusion
    simp only [if_pos hcomma]
    exact settled_advance hbegins htoken (steady_then steady_param fun next => steady_pure _)
  · simp only [if_neg hcomma]
    exact settled_stay hbegins (steady_pure none)

theorem shrinks_paramStep : Shrinks paramStep := by
  intro done all lexemes rest h
  rcases paramStep_eq_some.mp h with ⟨comma, tail, next, rfl, _, hnext, _⟩
  have hle := length_le_of_steady steady_param hnext
  rw [List.length_cons]
  omega

theorem steady_params : Steady Eq params params := by
  refine steady_peek_bind ?_
  intro token line span span' short long hbegins
  by_cases hclose : token = .mark .rightParen
  · simp only [if_pos hclose]
    exact settled_stay hbegins (steady_pure [])
  · simp only [if_neg hclose]
    refine settled_stay hbegins (steady_then steady_param fun first => ?_)
    refine steady_then (steady_iterate steady_paramStep shrinks_paramStep [first]) fun done => ?_
    exact steady_pure done.reverse

theorem steady_listEnd (closing : TokenKind) :
    Steady Eq (listEnd closing) (listEnd closing) := by
  refine steady_peek_bind ?_
  intro token line span span' short long hbegins
  by_cases hkind : token.kind = closing
  · simp only [if_pos hkind]
    by_cases heof : closing = .eof
    · simp only [if_pos heof]
      exact settled_stay hbegins (steady_pure ())
    · have htoken : token ≠ .eof := by
        intro h
        rw [h] at hkind
        exact heof hkind.symm
      simp only [if_neg heof]
      exact settled_advance (g := pure) hbegins htoken (steady_pure ())
  · simp only [if_neg hkind]
    by_cases hstarts : token.startsStatement = true
    · simp only [if_pos hstarts]
      exact settled_stay hbegins (steady_throw _)
    · simp only [if_neg hstarts]
      exact settled_stay hbegins (steady_unexpected _)

theorem steady_braced {parser : Eager Block} (h : Steady Eq parser parser) :
    Steady Eq (braced parser) (braced parser) := by
  refine steady_bind (steady_eat mark_ne_eof) fun _ _ _ => ?_
  refine steady_then h fun block => ?_
  exact steady_then (steady_listEnd _) fun _ => steady_pure block

section Statements

variable {inner : Eager Expr} {block : Eager Block} (hinner : Steady Eq inner inner)
  (hblock : Steady Eq block block)

include hinner

theorem steady_assignment : Steady Eq (assignment inner) (assignment inner) := by
  refine steady_then steady_eatName fun named => ?_
  refine steady_peek_bind ?_
  intro token line span span' short long hbegins
  cases token with
  | mark mark =>
      cases mark with
      | colon =>
          refine settled_advance hbegins Token.noConfusion ?_
          refine steady_then steady_eatTy fun ty => ?_
          refine steady_bind (steady_eat mark_ne_eof) fun _ _ _ => ?_
          exact steady_then (steady_value hinner) fun assigned => steady_pure _
      | equals =>
          refine settled_advance hbegins Token.noConfusion ?_
          exact steady_then (steady_value hinner) fun assigned => steady_pure _
      | _ => exact settled_stay hbegins (steady_unexpected _)
  | _ => exact settled_stay hbegins (steady_unexpected _)

theorem steady_printStatement : Steady Eq (printStatement inner) (printStatement inner) := by
  refine steady_bind (steady_eat keyword_ne_eof) fun keyword keyword' halike => ?_
  refine steady_bind (steady_eat mark_ne_eof) fun _ _ _ => ?_
  refine steady_then (steady_value hinner) fun printed => ?_
  refine steady_bind (steady_eat mark_ne_eof) fun _ _ _ => ?_
  rw [halike.2]
  exact steady_pure _

include hblock

theorem steady_branch : Steady Eq (branch inner block) (branch inner block) := by
  refine steady_bind (steady_eat keyword_ne_eof) fun keyword keyword' halike => ?_
  refine steady_bind (steady_eat mark_ne_eof) fun _ _ _ => ?_
  refine steady_then (steady_condition hinner) fun decision => ?_
  refine steady_bind (steady_eat mark_ne_eof) fun _ _ _ => ?_
  refine steady_then hblock fun whenTrue => ?_
  rw [halike.2]
  refine steady_peek_bind ?_
  intro token line span span' short long hbegins
  by_cases helse : token = .keyword .alternative
  · have htoken : token ≠ .eof := by
      rw [helse]
      exact Token.noConfusion
    simp only [if_pos helse]
    exact settled_advance hbegins htoken (steady_then hblock fun whenFalse => steady_pure _)
  · simp only [if_neg helse]
    exact settled_stay hbegins (steady_pure _)

omit hinner in
theorem steady_function : Steady Eq (function block) (function block) := by
  refine steady_bind (steady_eat keyword_ne_eof) fun keyword keyword' halike => ?_
  refine steady_then steady_eatName fun named => ?_
  refine steady_bind (steady_eat mark_ne_eof) fun _ _ _ => ?_
  refine steady_then steady_params fun declared => ?_
  refine steady_bind (steady_eat mark_ne_eof) fun _ _ _ => ?_
  refine steady_then hblock fun body => ?_
  rw [halike.2]
  exact steady_pure _

theorem steady_statement : Steady Eq (statement inner block) (statement inner block) := by
  refine steady_peek_bind ?_
  intro token line span span' short long hbegins
  cases token with
  | name name => exact settled_stay hbegins (steady_assignment hinner)
  | keyword keyword =>
      cases keyword with
      | print => exact settled_stay hbegins (steady_printStatement hinner)
      | cond => exact settled_stay hbegins (steady_branch hinner hblock)
      | func => exact settled_stay hbegins (steady_function hblock)
      | alternative => exact settled_stay hbegins (steady_pure _)
  | _ => exact settled_stay hbegins (steady_pure _)

end Statements

section Lists

variable {parser : Eager Statement} (hparser : Steady Eq parser parser)

include hparser

theorem steady_listStep (done : List Statement) :
    Steady Eq (listStep parser done) (listStep parser done) := by
  refine steady_peek_bind ?_
  intro token line span span' short long hbegins
  by_cases hsemicolon : token = .mark .semicolon
  · have htoken : token ≠ .eof := by
      rw [hsemicolon]
      exact Token.noConfusion
    simp only [if_pos hsemicolon]
    exact settled_advance hbegins htoken (steady_then hparser fun next => steady_pure _)
  · simp only [if_neg hsemicolon]
    by_cases hgo : goesOn done token = true
    · rw [goesOn] at hgo
      simp only [if_pos hgo]
      exact settled_stay hbegins (steady_then hparser fun next => steady_pure _)
    · rw [goesOn] at hgo
      simp only [if_neg hgo]
      exact settled_stay hbegins (steady_pure none)

theorem steady_list (hshrinks : Shrinks (listStep parser)) :
    Steady Eq (list parser) (list parser) := by
  refine steady_peek_bind ?_
  intro token line span span' short long hbegins
  refine settled_stay hbegins (steady_then hparser fun first => ?_)
  refine steady_then (steady_iterate (steady_listStep hparser) hshrinks [first]) fun done => ?_
  exact steady_pure _

end Lists

/-- A step of a list consumes: the separator, or the lexeme that can only start
    a statement. -/
theorem shrinks_listStep {levels : Nat} {inner : Eager Expr} {block : Eager Block}
    (hinner : Reads (IsFactor levels) inner) (hblock : Reads (IsBraced levels) block) :
    Shrinks (listStep (statement inner block)) := by
  intro done all lexemes rest h
  rcases listStep_eq_some.mp h
    with ⟨lexeme, tail, next, rfl, rfl, ⟨_, hnext⟩ | ⟨_, hgo, hnext⟩⟩
  · rcases reads_statement hinner hblock tail next rest hnext with ⟨phrase, rfl, _⟩
    exact length_lt_of_phrase lexeme phrase rest
  · rcases proper_of_starts hinner hblock (starts_of_goesOn hgo) hnext with
      ⟨phrase, hphrase, hne, _⟩
    have hpos : 0 < phrase.length := List.length_pos_iff.mpr hne
    rw [hphrase, List.length_append]
    omega

theorem steady_statements (levels : Nat) : Steady Eq (statements levels) (statements levels) := by
  induction levels with
  | zero => exact steady_tooDeep
  | succ levels ih =>
      rw [statements]
      have hblock := steady_braced ih
      have hshrinks := shrinks_listStep (reads_factor (levels + 1))
        (reads_braced (reads_statements levels))
      exact steady_list (steady_statement (steady_factor (levels + 1)) hblock) hshrinks

theorem steady_program : Steady Eq program program := by
  refine steady_then (steady_statements (maxNesting + 1)) fun block => ?_
  exact steady_then (steady_listEnd .eof) fun _ => steady_pure block

end Eager

end Scriptlet
