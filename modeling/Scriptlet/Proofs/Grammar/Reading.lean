import Scriptlet.Proofs.Grammar.Eager
import Scriptlet.Proofs.Outcome

/-!
# What Parsers Read

The parts that parsers are made of, each with what its success means: which
lexemes were consumed, and which are left. The statements go both ways, so they
serve to take a successful parse apart and to put one together.

Repetition is different in the two directions. Taking a finished repetition
apart is an induction on its bound, carried by the phrase read so far. Putting
one together follows a phrase that is already known, from its beginning; what
is needed there is only that the bound is never used up, because each step
consumes.

## Main definitions

* `Reads`: A parser consumes only phrases of a given kind.
* `Extends`: A step of a repetition adds to such a phrase.
* `Continues`: An outcome that is still a matter of repeating a step.

## Theorems

* `eat_eq_ok`, `eatName_bind_eq_ok`, `eatTy_bind_eq_ok`, `listEnd_eq_ok`: What
  single lexemes are read for.
* `reads_iterate`: A repetition consumes phrases if its steps add to them.
* `continues_step`, `continues_stop`: Repetition goes on and ends.
-/

namespace Scriptlet

theorem Token.kind_eq_mark {token : Token} {mark : Mark} :
    token.kind = .mark mark ↔ token = .mark mark := by
  cases token <;> simp only [kind, TokenKind.mark.injEq, Token.mark.injEq, reduceCtorEq]

theorem Token.kind_eq_keyword {token : Token} {keyword : Keyword} :
    token.kind = .keyword keyword ↔ token = .keyword keyword := by
  cases token <;> simp only [kind, TokenKind.keyword.injEq, Token.keyword.injEq, reduceCtorEq]

theorem Token.kind_eq_eof {token : Token} : token.kind = .eof ↔ token = .eof := by
  cases token <;> simp only [kind, reduceCtorEq]

namespace Eager

open Outcome

variable {α β : Type}

/-! ### Single lexemes -/

theorem peek_cons (lexeme : Lexeme) (tail : List Lexeme) :
    peek (lexeme :: tail) = .ok lexeme (lexeme :: tail) := rfl

theorem advance_bind_eq_ok {f : Unit → Eager β} {lexeme : Lexeme} {tail rest : List Lexeme}
    {b : β} : (advance >>= f) (lexeme :: tail) = .ok b rest ↔ f () tail = .ok b rest := Iff.rfl

/-- A parser that looks ahead succeeds only if there is something to look
    at. -/
theorem peek_bind_eq_ok {f : Lexeme → Eager β} {lexemes rest : List Lexeme} {b : β} :
    (peek >>= f) lexemes = .ok b rest ↔
      ∃ lexeme tail, lexemes = lexeme :: tail ∧ f lexeme (lexeme :: tail) = .ok b rest := by
  cases lexemes with
  | nil =>
      constructor
      · intro h
        cases h
      · rintro ⟨lexeme, tail, h, _⟩
        cases h
  | cons lexeme tail =>
      rw [bind_of_ok (peek_cons lexeme tail)]
      constructor
      · intro h
        exact ⟨lexeme, tail, rfl, h⟩
      · rintro ⟨other, tail', h, hf⟩
        cases h
        exact hf

theorem unexpected_ne_ok {expected : String} {lexemes rest : List Lexeme} {a : α} :
    unexpected expected lexemes ≠ .ok a rest := by
  intro h
  rcases peek_bind_eq_ok.mp h with ⟨lexeme, tail, _, hthrow⟩
  cases hthrow

theorem tooDeep_ne_ok {lexemes rest : List Lexeme} {a : α} : tooDeep lexemes ≠ .ok a rest := by
  intro h
  rcases peek_bind_eq_ok.mp h with ⟨lexeme, tail, _, hthrow⟩
  cases hthrow

theorem eat_eq_ok {kind : TokenKind} {lexemes rest : List Lexeme} {lexeme : Lexeme} :
    eat kind lexemes = .ok lexeme rest ↔ lexemes = lexeme :: rest ∧ lexeme.token.kind = kind := by
  constructor
  · intro h
    rcases peek_bind_eq_ok.mp h with ⟨ahead, tail, rfl, hif⟩
    split at hif
    · rename_i hkind
      cases hif
      exact ⟨rfl, hkind⟩
    · exact absurd hif unexpected_ne_ok
  · rintro ⟨rfl, hkind⟩
    refine peek_bind_eq_ok.mpr ⟨lexeme, rest, rfl, ?_⟩
    rw [if_pos hkind]
    rfl

theorem eat_mark_bind_eq_ok {mark : Mark} {f : Lexeme → Eager β} {lexemes rest : List Lexeme}
    {b : β} :
    (eat (.mark mark) >>= f) lexemes = .ok b rest ↔
      ∃ lexeme tail, lexemes = lexeme :: tail ∧ lexeme.token = .mark mark ∧
        f lexeme tail = .ok b rest := by
  simp only [bind_eq_ok, eat_eq_ok, Token.kind_eq_mark, and_assoc]

theorem eat_keyword_bind_eq_ok {keyword : Keyword} {f : Lexeme → Eager β}
    {lexemes rest : List Lexeme} {b : β} :
    (eat (.keyword keyword) >>= f) lexemes = .ok b rest ↔
      ∃ lexeme tail, lexemes = lexeme :: tail ∧ lexeme.token = .keyword keyword ∧
        f lexeme tail = .ok b rest := by
  simp only [bind_eq_ok, eat_eq_ok, Token.kind_eq_keyword, and_assoc]

theorem eatName_bind_eq_ok {f : String × Nat → Eager β} {lexemes rest : List Lexeme} {b : β} :
    (eatName >>= f) lexemes = .ok b rest ↔
      ∃ lexeme tail name, lexemes = lexeme :: tail ∧ lexeme.token = .name name ∧
        f (name, lexeme.line) tail = .ok b rest := by
  constructor
  · intro h
    rcases bind_eq_ok.mp h with ⟨found, tail, hfound, hf⟩
    rcases peek_bind_eq_ok.mp hfound with ⟨lexeme, tail', rfl, hmatch⟩
    cases htoken : lexeme.token with
    | name name =>
        rw [htoken] at hmatch
        cases hmatch
        exact ⟨lexeme, _, name, rfl, htoken, hf⟩
    | _ =>
        rw [htoken] at hmatch
        exact absurd hmatch unexpected_ne_ok
  · rintro ⟨lexeme, tail, name, rfl, hname, hf⟩
    refine bind_eq_ok.mpr ⟨(name, lexeme.line), tail, ?_, hf⟩
    refine peek_bind_eq_ok.mpr ⟨lexeme, tail, rfl, ?_⟩
    rw [hname]
    rfl

theorem eatTy_bind_eq_ok {f : Ty → Eager β} {lexemes rest : List Lexeme} {b : β} :
    (eatTy >>= f) lexemes = .ok b rest ↔
      ∃ lexeme tail ty, lexemes = lexeme :: tail ∧ lexeme.token = .ty ty ∧
        f ty tail = .ok b rest := by
  constructor
  · intro h
    rcases bind_eq_ok.mp h with ⟨found, tail, hfound, hf⟩
    rcases peek_bind_eq_ok.mp hfound with ⟨lexeme, tail', rfl, hmatch⟩
    cases htoken : lexeme.token with
    | ty ty =>
        rw [htoken] at hmatch
        cases hmatch
        exact ⟨lexeme, _, found, rfl, htoken, hf⟩
    | _ =>
        rw [htoken] at hmatch
        exact absurd hmatch unexpected_ne_ok
  · rintro ⟨lexeme, tail, ty, rfl, hty, hf⟩
    refine bind_eq_ok.mpr ⟨ty, tail, ?_, hf⟩
    refine peek_bind_eq_ok.mpr ⟨lexeme, tail, rfl, ?_⟩
    rw [hty]
    rfl

/-- A list is closed by the lexeme asked for, which is consumed. -/
theorem listEnd_eq_ok {closing : TokenKind} {lexemes rest : List Lexeme} {u : Unit}
    (hclosing : closing ≠ .eof) :
    listEnd closing lexemes = .ok u rest ↔
      ∃ lexeme, lexemes = lexeme :: rest ∧ lexeme.token.kind = closing := by
  constructor
  · intro h
    rcases peek_bind_eq_ok.mp h with ⟨lexeme, tail, rfl, hif⟩
    split at hif
    · rename_i hkind
      cases hif
      exact ⟨lexeme, rfl, hkind⟩
    · split at hif
      · cases hif
      · exact absurd hif unexpected_ne_ok
  · rintro ⟨lexeme, rfl, hkind⟩
    refine peek_bind_eq_ok.mpr ⟨lexeme, rest, rfl, ?_⟩
    rw [if_pos hkind, if_neg hclosing]
    rfl

/-- The end of the input closes a program and is not consumed. -/
theorem listEnd_eof_eq_ok {lexemes rest : List Lexeme} {u : Unit} :
    listEnd .eof lexemes = .ok u rest ↔
      ∃ lexeme tail, lexemes = lexeme :: tail ∧ rest = lexemes ∧ lexeme.token = .eof := by
  constructor
  · intro h
    rcases peek_bind_eq_ok.mp h with ⟨lexeme, tail, rfl, hif⟩
    split at hif
    · rename_i hkind
      cases hif
      exact ⟨lexeme, tail, rfl, rfl, Token.kind_eq_eof.mp hkind⟩
    · split at hif
      · cases hif
      · exact absurd hif unexpected_ne_ok
  · rintro ⟨lexeme, tail, rfl, rfl, htoken⟩
    refine peek_bind_eq_ok.mpr ⟨lexeme, tail, rfl, ?_⟩
    rw [if_pos (Token.kind_eq_eof.mpr htoken)]
    rfl

/-! ### Phrases -/

theorem append_cons_append (first second rest : List Lexeme) (lexeme : Lexeme) :
    first ++ lexeme :: second ++ rest = first ++ lexeme :: (second ++ rest) := by
  rw [List.append_assoc, List.cons_append]

/-- A lexeme and a phrase behind it are more than what follows them. -/
theorem length_lt_of_phrase (lexeme : Lexeme) (phrase rest : List Lexeme) :
    rest.length < (lexeme :: (phrase ++ rest)).length := by
  rw [List.length_cons, List.length_append]
  omega

/-- Whenever a parser succeeds, what it consumed is a phrase for what it
    gives. -/
def Reads (G : List Lexeme → α → Prop) (parser : Eager α) : Prop :=
  ∀ lexemes a rest, parser lexemes = .ok a rest → ∃ phrase, lexemes = phrase ++ rest ∧ G phrase a

/-- What the steps of a repetition keep holds where it ends, and there the step
    declines. -/
theorem iterateWithin_eq_ok {step : α → Eager (Option α)} {I : α → List Lexeme → Prop}
    (hstep : ∀ a b lexemes rest, I a lexemes → step a lexemes = .ok (some b) rest → I b rest)
    {bound : List Lexeme} :
    ∀ {a b : α} {lexemes rest : List Lexeme}, I a lexemes →
      iterateWithin step bound a lexemes = .ok b rest →
        ∃ last, I b last ∧ step b last = .ok none rest := by
  induction bound with
  | nil =>
      intro a b lexemes rest _ h
      cases h
  | cons first bound ih =>
      intro a b lexemes rest hinv h
      rw [iterateWithin] at h
      rcases bind_eq_ok.mp h with ⟨next, mid, hnext, h⟩
      cases next with
      | none =>
          cases h
          exact ⟨lexemes, hinv, hnext⟩
      | some c => exact ih (hstep a c lexemes mid hinv hnext) h

/-- Whenever a step goes on, what it consumed adds to a phrase for the value so
    far. -/
def Extends (G : List Lexeme → α → Prop) (step : α → Eager (Option α)) : Prop :=
  ∀ phrase a b lexemes rest, G phrase a → step a lexemes = .ok (some b) rest →
    ∃ second, lexemes = second ++ rest ∧ G (phrase ++ second) b

/-- A repetition consumes phrases if what starts it does and each step adds to
    them. A step that declines consumes nothing. -/
theorem reads_iterate (wrap : β → α) {G : List Lexeme → α → Prop} {first : Eager β}
    {step : α → Eager (Option α)} (hfirst : Reads (fun phrase b => G phrase (wrap b)) first)
    (hsome : Extends G step)
    (hnone : ∀ a lexemes rest, step a lexemes = .ok none rest → rest = lexemes) :
    Reads G (first >>= fun b => iterate step (wrap b)) := by
  intro lexemes a rest h
  rcases bind_eq_ok.mp h with ⟨b, mid, hb, hiterate⟩
  rcases hfirst lexemes b mid hb with ⟨start, hstart, hG⟩
  -- All along, what was consumed so far is a phrase for the value so far.
  have hkeep : ∀ a b ahead later, (∃ phrase, lexemes = phrase ++ ahead ∧ G phrase a) →
      step a ahead = .ok (some b) later → ∃ phrase, lexemes = phrase ++ later ∧ G phrase b := by
    rintro a b ahead later ⟨phrase, hphrase, hG⟩ hstep
    rcases hsome phrase a b ahead later hG hstep with ⟨second, hsecond, hnext⟩
    refine ⟨phrase ++ second, ?_, hnext⟩
    rw [hphrase, hsecond, List.append_assoc]
  rcases iterateWithin_eq_ok hkeep ⟨start, hstart, hG⟩ hiterate with ⟨last, hlast, hstop⟩
  rw [hnone a last rest hstop]
  exact hlast

/-- An outcome is what repeating a step gives, from a value on and with some
    lexemes ahead, and there are steps enough for all of them. -/
def Continues (step : α → Eager (Option α)) (outcome : EStateM.Result Stop (List Lexeme) α)
    (a : α) (lexemes : List Lexeme) : Prop :=
  ∃ bound : List Lexeme, lexemes.length ≤ bound.length ∧
    outcome = iterateWithin step bound a lexemes

theorem continues_iterate (step : α → Eager (Option α)) (a : α) (lexemes : List Lexeme) :
    Continues step (iterate step a lexemes) a lexemes :=
  ⟨lexemes, Nat.le_refl _, rfl⟩

section Continues

variable {step : α → Eager (Option α)} {outcome : EStateM.Result Stop (List Lexeme) α} {a b : α}
  {lexemes rest : List Lexeme}

/-- A step that goes on and consumes leads to the next. -/
theorem continues_step (h : Continues step outcome a lexemes)
    (hstep : step a lexemes = .ok (some b) rest) (hlt : rest.length < lexemes.length) :
    Continues step outcome b rest := by
  rcases h with ⟨bound, hle, rfl⟩
  cases bound with
  | nil => exact absurd (Nat.lt_of_lt_of_le hlt hle) (Nat.not_lt_zero _)
  | cons first bound =>
      -- The step took at least one lexeme, and it takes one from the bound.
      refine ⟨bound, ?_, ?_⟩
      · rw [List.length_cons] at hle
        exact Nat.le_of_lt_succ (Nat.lt_of_lt_of_le hlt hle)
      · rw [iterateWithin, bind_of_ok hstep]

/-- A step that declines ends the repetition. -/
theorem continues_stop {lexeme : Lexeme} {tail : List Lexeme}
    (h : Continues step outcome a (lexeme :: tail))
    (hstep : step a (lexeme :: tail) = .ok none rest) : outcome = .ok a rest := by
  rcases h with ⟨bound, hle, rfl⟩
  cases bound with
  | nil => exact absurd hle (Nat.not_succ_le_zero _)
  | cons first bound =>
      rw [iterateWithin, bind_of_ok hstep]
      rfl

end Continues

end Eager

end Scriptlet
