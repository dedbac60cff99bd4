import Scriptlet.Proofs.Grammar.Lookahead
import Scriptlet.Proofs.Lexeme.Readings

/-!
# Reading Ahead Changes Nothing

A parser reads lexemes one by one, and what it has not read it cannot know. An
eager parser is given them all. Both go in lockstep: wherever the one is in a
source, the other has the lexemes ahead that are to come from there, and what
the one counts as open, the other has spent of its levels.

They part only at a lexical error. The parser fails when it moves past the last
lexeme before the error, though that lexeme was allowed. The eager parser has
consumed the same lexeme and goes on, but without anything ahead it gets no
further than to ask for more. So at that point it is enough to know of the eager
parser that on no lexemes at all it finds no fault.

Each routine is shown to go in lockstep by following its definition. A
repetition ends after finitely many steps because the parser moves ahead in each
of them, and that it does is known from the eager parser.

## Main definitions

* `Parser.State.scan`: What is to come at some place in a source.
* `Moved`: What a parser leaves as it was.
* `InStep`: What an outcome of a parser says of the eager one.
* `Lockstep`: A parser and an eager parser that go in lockstep.
* `Reflects`: What parsing says of the eager parser.

## Theorems

* `lockstep_bind`, `lockstep_nested`, `lockstep_iterate`: Sequences, levels and
  repetitions.
* `lockstep_factor`, `lockstep_statements`, `lockstep_program`: The routines.
* `depth_program`: However a program ends, nothing is left open.
* `parse_reflects`: Parsing a source is what the eager parser does with its
  lexemes.
-/

namespace Scriptlet

open Outcome

/-- An eager parser that found no fault and has nothing ahead. -/
def Exhausted {α : Type} : EStateM.Result Stop (List Lexeme) α → Prop
  | .ok _ rest => rest = []
  | .error stop _ => stop = .starved

namespace Parser

variable {α β : Type}

/-! ### Places -/

/-- What is to come, from the lexeme ahead on. -/
def State.scan (state : State) : Scan :=
  if state.current.token = .eof then
    { lexemes := [], ending := .ok state.current }
  else
    { state.lexer.scan with lexemes := state.current :: state.lexer.scan.lexemes }

/-- The lexemes that an eager parser has ahead at the same place. -/
def State.input (state : State) : List Lexeme := state.scan.input

section Places

variable {state : State} {lexer after : Cursor} {next : Lexeme}

theorem scan_of_eof (h : state.current.token = .eof) :
    state.scan = { lexemes := [], ending := .ok state.current } := if_pos h

theorem scan_of_ne_eof (h : state.current.token ≠ .eof) :
    state.scan =
      { state.lexer.scan with lexemes := state.current :: state.lexer.scan.lexemes } :=
  if_neg h

/-- Before the end of the input, the lexeme ahead comes first, and then what is
    read behind it. -/
theorem input_of_ne_eof (h : state.current.token ≠ .eof) :
    state.input = state.current :: state.lexer.scan.input := by
  rw [State.input, scan_of_ne_eof h, Scan.input, Scan.input]
  cases state.lexer.scan.ending with
  | ok eof => rfl
  | error e => rfl

/-- The lexeme ahead is always the first to come. -/
theorem exists_input_eq (state : State) : ∃ rest, state.input = state.current :: rest := by
  by_cases h : state.current.token = .eof
  · refine ⟨[], ?_⟩
    rw [State.input, scan_of_eof h]
    rfl
  · exact ⟨_, input_of_ne_eof h⟩

/-- A lexeme that was read is the first of those that were to come. -/
theorem scan_of_next (h : lexer.next = (.ok next, after)) (depth : Nat) :
    lexer.scan = State.scan { lexer := after, current := next, depth } := by
  by_cases heof : next.token = .eof
  · have hread : lexer.read? = none := by
      simp only [Cursor.read?, h, if_pos heof]
    rw [next_of_none hread] at h
    cases h
    rw [scan_of_none hread, scan_of_eof heof]
  · have hread : lexer.read? = some (.ok next, after) := by
      simp only [Cursor.read?, h, if_neg heof]
    rw [scan_of_ok hread, scan_of_ne_eof heof]

theorem scan_of_next_error {e : LexicalError} (h : lexer.next = (.error e, after)) :
    lexer.scan = { lexemes := [], ending := .error e } := by
  have hread : lexer.read? = some (.error e, after) := by
    simp only [Cursor.read?, h]
  exact scan_of_error hread

/-- Moving past a lexeme leaves less ahead, be it only that the end of the input
    has come up. -/
theorem ahead_of_next (hcurrent : state.current.token ≠ .eof)
    (h : state.lexer.next = (.ok next, after)) (depth : Nat) :
    State.ahead { lexer := after, current := next, depth } < state.ahead := by
  simp only [State.ahead, if_neg hcurrent]
  by_cases heof : next.token = .eof
  · have hread : state.lexer.read? = none := by
      simp only [Cursor.read?, h, if_pos heof]
    rw [next_of_none hread] at h
    cases h
    rw [if_pos heof, read?_eq_none.mp hread, List.length_nil]
    omega
  · have hread : state.lexer.read? = some (.ok next, after) := by
      simp only [Cursor.read?, h, if_neg heof]
    have hlength := Cursor.length_of_read? hread
    rw [if_neg heof]
    omega

end Places

/-! ### Moving ahead -/

/-- A parser goes on to the same end of the same source, with as much open as
    before, and with less ahead if it has moved at all. -/
structure Moved (state after : State) : Prop where
  ending : after.scan.ending = state.scan.ending
  depth : after.depth = state.depth
  ahead : after = state ∨ after.ahead < state.ahead

theorem moved_refl (state : State) : Moved state state := ⟨rfl, rfl, Or.inl rfl⟩

theorem moved_trans {first second third : State} (h : Moved first second)
    (h' : Moved second third) : Moved first third := by
  refine ⟨h'.ending.trans h.ending, h'.depth.trans h.depth, ?_⟩
  rcases h'.ahead with rfl | hless
  · exact h.ahead
  · rcases h.ahead with rfl | hless'
    · exact Or.inr hless
    · exact Or.inr (Nat.lt_trans hless hless')

/-- What the outcome of a parser says of the outcome of the eager parser on the
    lexemes that were to come. A success is repeated, and so is a syntax error.
    A lexical error is the one that is to come, and then all that matters is
    that the eager parser has found no fault before it. A failure, too, leaves
    as much open as before. -/
def InStep (state : State) :
    EStateM.Result ParseError State α → EStateM.Result Stop (List Lexeme) α → Prop
  | .ok a after, other => other = .ok a after.input ∧ Moved state after
  | .error (.grammar e) after, other =>
    after.depth = state.depth ∧ ∃ rest, other = .error (.grammar e) rest
  | .error (.lexical e) after, other =>
    after.depth = state.depth ∧ state.scan.ending = .error e ∧ Exhausted other

theorem inStep_of_moved {state after : State} (hmoved : Moved state after)
    {r : EStateM.Result ParseError State α} {s : EStateM.Result Stop (List Lexeme) α}
    (h : InStep after r s) : InStep state r s := by
  cases r with
  | ok a last => exact ⟨h.1, moved_trans hmoved h.2⟩
  | error e last =>
      cases e with
      | lexical e =>
          exact ⟨h.1.trans hmoved.depth, hmoved.ending.symm.trans h.2.1, h.2.2⟩
      | grammar e => exact ⟨h.1.trans hmoved.depth, h.2⟩

/-- A parser with `depth` levels open and an eager parser do the same from every
    place on, and the eager one finds no fault where nothing is ahead. -/
structure Lockstep (depth : Nat) (p : Parser α) (q : Eager α) : Prop where
  inStep : ∀ state, state.depth = depth → InStep state (p state) (q state.input)
  exhausted : Exhausted (q [])

variable {depth : Nat}

/-! ### Sequences -/

theorem lockstep_pure (a : α) : Lockstep depth (pure a) (pure a) where
  inStep state _ := ⟨rfl, moved_refl state⟩
  exhausted := rfl

theorem inStep_throw (state : State) (e : SyntaxError) (lexemes : List Lexeme) :
    InStep (α := α) state ((throw (.grammar e) : Parser α) state)
      ((throw (.grammar e) : Eager α) lexemes) :=
  ⟨rfl, lexemes, rfl⟩

theorem exhausted_bind {q : Eager α} {g : α → Eager β} {lexemes : List Lexeme}
    (hq : Exhausted (q lexemes)) (hg : ∀ a, Exhausted (g a [])) :
    Exhausted ((q >>= g) lexemes) := by
  cases hrun : q lexemes with
  | ok a rest =>
      rw [hrun] at hq
      cases hq
      rw [bind_of_ok hrun]
      exact hg a
  | error stop rest =>
      rw [hrun] at hq
      rw [bind_of_error hrun]
      exact hq

theorem inStep_bind {p : Parser α} {q : Eager α} {f : α → Parser β} {g : α → Eager β}
    {state : State} {lexemes : List Lexeme} (hstate : state.depth = depth)
    (hp : InStep state (p state) (q lexemes)) (hf : ∀ a, Lockstep depth (f a) (g a)) :
    InStep state ((p >>= f) state) ((q >>= g) lexemes) := by
  cases hrun : p state with
  | ok a after =>
      rw [hrun] at hp
      rcases hp with ⟨hq, hmoved⟩
      rw [bind_of_ok hrun, bind_of_ok hq]
      exact inStep_of_moved hmoved ((hf a).inStep after (hmoved.depth.trans hstate))
  | error e after =>
      rw [hrun] at hp
      rw [bind_of_error hrun]
      cases e with
      | lexical e =>
          rcases hp with ⟨hdepth, hending, hq⟩
          exact ⟨hdepth, hending, exhausted_bind hq fun a => (hf a).exhausted⟩
      | grammar e =>
          rcases hp with ⟨hdepth, rest, hq⟩
          exact ⟨hdepth, rest, bind_of_error hq g⟩

theorem lockstep_bind {p : Parser α} {q : Eager α} {f : α → Parser β} {g : α → Eager β}
    (hp : Lockstep depth p q) (hf : ∀ a, Lockstep depth (f a) (g a)) :
    Lockstep depth (p >>= f) (q >>= g) where
  inStep state hstate := inStep_bind hstate (hp.inStep state hstate) hf
  exhausted := exhausted_bind hp.exhausted fun a => (hf a).exhausted

/-! ### Single lexemes -/

/-- An eager parser that looks ahead sees the lexeme ahead. -/
theorem lockstep_of_peek {p : Parser β} {g : Lexeme → Eager β}
    (h : ∀ lexeme state, state.current = lexeme → state.depth = depth →
      InStep state (p state) (g lexeme state.input)) :
    Lockstep depth p (Eager.peek >>= g) where
  inStep state hstate := by
    have hinStep := h state.current state rfl hstate
    rcases exists_input_eq state with ⟨rest, hinput⟩
    rw [hinput] at hinStep ⊢
    exact hinStep
  exhausted := rfl

theorem lockstep_peek_bind {f : Lexeme → Parser β} {g : Lexeme → Eager β}
    (h : ∀ lexeme state, state.current = lexeme → state.depth = depth →
      InStep state (f lexeme state) (g lexeme state.input)) :
    Lockstep depth (peek >>= f) (Eager.peek >>= g) := by
  refine lockstep_of_peek ?_
  rintro _ state rfl hstate
  exact h state.current state rfl hstate

/-- Both can move past a lexeme that is not the end of the input. The parser
    reads the next one then, and if that is a lexical error, nothing is left
    ahead of the eager parser. -/
theorem inStep_advance {state : State} {lexeme : Lexeme} {f : Lexeme → Parser β}
    {g : Unit → Eager β} (hcurrent : state.current = lexeme) (hstate : state.depth = depth)
    (hlexeme : lexeme.token ≠ .eof) (h : Lockstep depth (f lexeme) (g ())) :
    InStep state ((advance >>= f) state) ((Eager.advance >>= g) state.input) := by
  cases hcurrent
  have hinput : (Eager.advance >>= g) state.input = g () state.lexer.scan.input := by
    rw [input_of_ne_eof hlexeme]
    rfl
  rw [hinput]
  rcases hnext : state.lexer.next with ⟨reading, lexer⟩
  cases reading with
  | error e =>
      have hfailed : advance state = .error (.lexical e) { state with lexer } := by
        simp only [advance, hnext]
      have hscan := scan_of_next_error hnext
      rw [bind_of_error hfailed, hscan]
      refine ⟨rfl, ?_, h.exhausted⟩
      rw [scan_of_ne_eof hlexeme, hscan]
  | ok next =>
      have hpassed : advance state = .ok state.current { state with lexer, current := next } := by
        simp only [advance, hnext]
      have hscan := scan_of_next hnext state.depth
      rw [bind_of_ok hpassed, hscan]
      have hmoved : Moved state { state with lexer, current := next } := by
        refine ⟨?_, rfl, Or.inr (ahead_of_next hlexeme hnext state.depth)⟩
        rw [scan_of_ne_eof hlexeme, hscan]
      exact inStep_of_moved hmoved (h.inStep { state with lexer, current := next } hstate)

/-- Both move past the lexeme that is wanted, and leave any other. -/
theorem inStep_if {state : State} {lexeme : Lexeme} {wanted : Token} {f : Lexeme → Parser β}
    {g : Unit → Eager β} {p : Parser β} {q : Eager β} (hcurrent : state.current = lexeme)
    (hstate : state.depth = depth) (hwanted : wanted ≠ .eof)
    (hfound : Lockstep depth (f lexeme) (g ())) (hother : Lockstep depth p q) :
    InStep state ((if lexeme.token = wanted then advance >>= f else p) state)
      ((if lexeme.token = wanted then Eager.advance >>= g else q) state.input) := by
  by_cases h : lexeme.token = wanted
  · rw [if_pos h, if_pos h]
    exact inStep_advance hcurrent hstate (h.trans_ne hwanted) hfound
  · rw [if_neg h, if_neg h]
    exact hother.inStep state hstate

theorem lockstep_unexpected (expected : String) :
    Lockstep depth (unexpected expected : Parser α) (Eager.unexpected expected) :=
  lockstep_peek_bind fun _ state _ _ => inStep_throw state _ _

theorem lockstep_tooDeep : Lockstep depth (tooDeep : Parser α) Eager.tooDeep :=
  lockstep_peek_bind fun _ state _ _ => inStep_throw state _ _

theorem lockstep_eat {kind : TokenKind} (hkind : kind ≠ .eof) :
    Lockstep depth (eat kind) (Eager.eat kind) := by
  refine lockstep_peek_bind ?_
  intro lexeme state hcurrent hstate
  by_cases h : lexeme.token.kind = kind
  · have hlexeme : lexeme.token ≠ .eof := by
      intro heof
      rw [heof] at h
      exact hkind h.symm
    rw [if_pos h, if_pos h, ← bind_pure advance]
    exact inStep_advance hcurrent hstate hlexeme (lockstep_pure lexeme)
  · rw [if_neg h, if_neg h]
    exact (lockstep_unexpected _).inStep state hstate

theorem lockstep_eatName : Lockstep depth eatName Eager.eatName := by
  refine lockstep_peek_bind ?_
  rintro ⟨token, span, line⟩ state hcurrent hstate
  cases token with
  | name name => exact inStep_advance hcurrent hstate Token.noConfusion (lockstep_pure _)
  | _ => exact (lockstep_unexpected _).inStep state hstate

theorem lockstep_eatTy : Lockstep depth eatTy Eager.eatTy := by
  refine lockstep_peek_bind ?_
  rintro ⟨token, span, line⟩ state hcurrent hstate
  cases token with
  | ty ty => exact inStep_advance hcurrent hstate Token.noConfusion (lockstep_pure ty)
  | _ => exact (lockstep_unexpected _).inStep state hstate

/-! ### Levels -/

/-- Where as many are open as may be, the eager parser has no level left to
    spend. Otherwise both go on one level further in, and it is taken back. -/
theorem lockstep_nested {p : Parser α} {q : Eager α} {levels : Nat}
    (hlevels : depth + levels = maxNesting) (hp : Lockstep (depth + 1) p q)
    (hspent : levels = 0 → ∀ first rest,
      q (first :: rest) = Eager.tooDeep (first :: rest)) :
    Lockstep depth (nested p) q where
  inStep state hstate := by
    by_cases hfull : maxNesting ≤ state.depth
    · rcases exists_input_eq state with ⟨rest, hinput⟩
      rw [nested, if_pos hfull, hinput, hspent (by omega)]
      exact ⟨rfl, state.current :: rest, rfl⟩
    · have hinner := hp.inStep { state with depth := state.depth + 1 } (by rw [hstate])
      rw [nested, if_neg hfull]
      cases hrun : p { state with depth := state.depth + 1 } with
      | ok a after =>
          rw [hrun] at hinner
          rcases hinner with ⟨hq, hending, hdepth, hahead⟩
          refine ⟨hq, hending, ?_, ?_⟩
          · exact congrArg Nat.pred hdepth
          · rcases hahead with rfl | hless
            · exact Or.inl rfl
            · exact Or.inr hless
      | error e after =>
          rw [hrun] at hinner
          cases e with
          | lexical e => exact ⟨congrArg Nat.pred hinner.1, hinner.2⟩
          | grammar e => exact ⟨congrArg Nat.pred hinner.1, hinner.2⟩
  exhausted := hp.exhausted

/-! ### Repetition -/

theorem exhausted_iterateWithin {step : α → Eager (Option α)}
    (hstep : ∀ a, Exhausted (step a [])) (bound : List Lexeme) (a : α) :
    Exhausted (Eager.iterateWithin step bound a []) := by
  induction bound generalizing a with
  | nil => rfl
  | cons first bound ih =>
      refine exhausted_bind (hstep a) fun next => ?_
      cases next with
      | none => rfl
      | some b => exact ih b

section Repetition

variable {step : α → Parser (Option α)} {other : α → Eager (Option α)}
  (hstep : ∀ a, Lockstep depth (step a) (other a)) (hshrinks : Eager.Shrinks other)

include hstep hshrinks

-- By induction on the bound of the eager parser, which is at least what it has ahead. A step that
-- goes on has left less there, so the parser has moved, and it goes on as well.
theorem inStep_iterateWithin (bound : List Lexeme) (a : α) (state : State)
    (hstate : state.depth = depth) (hbound : state.input.length ≤ bound.length) :
    InStep state (iterate step a state) (Eager.iterateWithin other bound a state.input) := by
  induction bound generalizing a state with
  | nil =>
      rcases exists_input_eq state with ⟨rest, hinput⟩
      rw [hinput] at hbound
      exact absurd hbound (Nat.not_succ_le_zero _)
  | cons first bound ih =>
      have hinStep := (hstep a).inStep state hstate
      rw [iterate, Eager.iterateWithin]
      cases hrun : step a state with
      | error e after =>
          rw [hrun] at hinStep
          cases e with
          | grammar e =>
              rcases hinStep with ⟨hdepth, rest, hother⟩
              exact ⟨hdepth, rest, bind_of_error hother _⟩
          | lexical e =>
              rcases hinStep with ⟨hdepth, hending, hother⟩
              refine ⟨hdepth, hending, exhausted_bind hother fun next => ?_⟩
              cases next with
              | none => rfl
              | some b => exact exhausted_iterateWithin (fun a => (hstep a).exhausted) bound b
      | ok next after =>
          rw [hrun] at hinStep
          rcases hinStep with ⟨hother, hmoved⟩
          rw [bind_of_ok hother]
          cases next with
          | none => exact ⟨rfl, hmoved⟩
          | some b =>
              have hshorter := hshrinks a b _ _ hother
              have hahead : after.ahead < state.ahead := by
                rcases hmoved.ahead with rfl | hless
                · exact absurd hshorter (Nat.lt_irrefl _)
                · exact hless
              rw [List.length_cons] at hbound
              simp only [if_pos hahead]
              exact inStep_of_moved hmoved
                (ih b after (hmoved.depth.trans hstate) (by omega))

theorem lockstep_iterate (a : α) : Lockstep depth (iterate step a) (Eager.iterate other a) where
  inStep state hstate :=
    inStep_iterateWithin hstep hshrinks state.input a state hstate (Nat.le_refl _)
  exhausted := rfl

end Repetition

/-! ### Expressions -/

/-- Where a string is ahead, that is what is passed. -/
theorem eatString?_bind {state : State} {content : String} {f : Option Expr → Parser β}
    (h : state.current.token = .string content) :
    (eatString? >>= f) state =
      (advance >>= fun passed => f (some (.literal (.str content) passed.line))) state := by
  rcases state with ⟨lexer, ⟨token, span, line⟩, opened⟩
  cases h
  exact congrFun (bind_assoc advance _ f) _

theorem eatBool?_bind {state : State} {flag : Bool} {f : Option Expr → Parser β}
    (h : state.current.token = .bool flag) :
    (eatBool? >>= f) state =
      (advance >>= fun passed => f (some (.literal (.bool flag) passed.line))) state := by
  rcases state with ⟨lexer, ⟨token, span, line⟩, opened⟩
  cases h
  exact congrFun (bind_assoc advance _ f) _

section Expressions

variable {inner : Parser Expr} {other : Eager Expr} (hinner : Lockstep depth inner other)
  (hsteady : Eager.Steady Eq other other)

section Chains

variable {op? : Token → Option ArithOp} (hop : op? .eof = none)

include hinner hop

theorem lockstep_chainStep (left : Expr) :
    Lockstep depth (chainStep inner op? left) (Eager.chainStep other op? left) := by
  refine lockstep_peek_bind ?_
  intro lexeme state hcurrent hstate
  cases hmatch : op? lexeme.token with
  | none => exact (lockstep_pure none).inStep state hstate
  | some op =>
      have hlexeme : lexeme.token ≠ .eof := by
        intro heof
        rw [heof, hop] at hmatch
        cases hmatch
      refine inStep_advance hcurrent hstate hlexeme ?_
      exact lockstep_bind hinner fun right => lockstep_pure _

include hsteady

theorem lockstep_chainLeft :
    Lockstep depth (chainLeft inner op?) (Eager.chainLeft other op?) := by
  refine lockstep_bind hinner fun first => ?_
  exact lockstep_iterate (lockstep_chainStep hinner hop)
    (Eager.shrinks_chainStep hsteady op?) first

end Chains

include hinner hsteady

theorem lockstep_sum : Lockstep depth (sum inner) (Eager.sum other) := by
  refine lockstep_chainLeft ?_ (Eager.steady_chainLeft hsteady rfl) rfl
  exact lockstep_chainLeft hinner hsteady rfl

theorem lockstep_comparison (left : Expr) :
    Lockstep depth (comparison inner left) (Eager.comparison other left) := by
  refine lockstep_peek_bind ?_
  intro lexeme state hcurrent hstate
  cases hmatch : lexeme.token.order? with
  | none => exact (lockstep_unexpected _).inStep state hstate
  | some order =>
      have hlexeme : lexeme.token ≠ .eof := by
        intro heof
        rw [heof] at hmatch
        cases hmatch
      refine inStep_advance hcurrent hstate hlexeme ?_
      exact lockstep_bind (lockstep_sum hinner hsteady) fun right => lockstep_pure _

theorem lockstep_value : Lockstep depth (value inner) (Eager.value other) := by
  refine lockstep_of_peek ?_
  rintro ⟨token, span, line⟩ ⟨lexer, current, opened⟩ hcurrent hstate
  cases hcurrent
  cases token with
  | string content =>
      rw [value, eatString?_bind rfl]
      exact inStep_advance rfl hstate Token.noConfusion (lockstep_pure _)
  | bool flag =>
      have hvalue : value inner ⟨lexer, ⟨.bool flag, span, line⟩, opened⟩ =
          (advance >>= fun passed => pure (.literal (.bool flag) passed.line))
            ⟨lexer, ⟨.bool flag, span, line⟩, opened⟩ := eatBool?_bind rfl
      rw [hvalue]
      exact inStep_advance rfl hstate Token.noConfusion (lockstep_pure _)
  | _ => exact (lockstep_sum hinner hsteady).inStep _ hstate

theorem lockstep_condition : Lockstep depth (condition inner) (Eager.condition other) := by
  refine lockstep_of_peek ?_
  rintro ⟨token, span, line⟩ ⟨lexer, current, opened⟩ hcurrent hstate
  cases hcurrent
  cases token with
  | bool flag =>
      rw [condition, eatBool?_bind rfl]
      refine inStep_advance rfl hstate Token.noConfusion ?_
      -- The token behind a truth value says whether it is compared.
      refine lockstep_peek_bind ?_
      intro lexeme state hcurrent hstate
      cases lexeme.token.order? with
      | none => exact (lockstep_pure _).inStep state hstate
      | some order => exact (lockstep_comparison hinner hsteady _).inStep state hstate
  | _ =>
      refine (lockstep_bind (lockstep_sum hinner hsteady) fun left => ?_).inStep _ hstate
      exact lockstep_comparison hinner hsteady left

end Expressions

section Factors

variable {inner : Parser Expr} {levels : Nat} (hlevels : depth + levels = maxNesting)
  (hinner : Lockstep (depth + 1) inner (Eager.factor levels))

include hlevels hinner

theorem lockstep_nested_factor : Lockstep depth (nested inner) (Eager.factor levels) := by
  refine lockstep_nested hlevels hinner ?_
  rintro rfl first rest
  rfl

theorem lockstep_nested_sum :
    Lockstep depth (nested (sum inner)) (Eager.sum (Eager.factor levels)) := by
  refine lockstep_nested hlevels (lockstep_sum hinner (Eager.steady_factor levels)) ?_
  rintro rfl first rest
  rfl

theorem lockstep_factorWith :
    Lockstep depth (factorWith inner) (Eager.factorWith (Eager.factor levels)) := by
  refine lockstep_of_peek ?_
  rintro ⟨token, span, line⟩ ⟨lexer, current, opened⟩ hcurrent hstate
  cases hcurrent
  cases token with
  | integer value => exact inStep_advance rfl hstate Token.noConfusion (lockstep_pure _)
  | name name => exact inStep_advance rfl hstate Token.noConfusion (lockstep_pure _)
  | mark mark =>
      cases mark with
      | plus =>
          refine inStep_advance rfl hstate Token.noConfusion ?_
          exact lockstep_bind (lockstep_nested_factor hlevels hinner) fun _ => lockstep_pure _
      | minus =>
          refine inStep_advance rfl hstate Token.noConfusion ?_
          exact lockstep_bind (lockstep_nested_factor hlevels hinner) fun _ => lockstep_pure _
      | leftParen =>
          refine inStep_advance rfl hstate Token.noConfusion ?_
          refine lockstep_bind (lockstep_nested_sum hlevels hinner) fun expr => ?_
          exact lockstep_bind (lockstep_eat Eager.mark_ne_eof) fun _ => lockstep_pure expr
      | _ => exact (lockstep_unexpected _).inStep _ hstate
  | _ => exact (lockstep_unexpected _).inStep _ hstate

end Factors

/-- A factor gets as far as its levels allow, which is as far as the count of
    what is open does. -/
theorem lockstep_factor {levels : Nat} (hlevels : depth + levels = maxNesting + 1) :
    Lockstep depth (factor levels) (Eager.factor levels) := by
  induction levels generalizing depth with
  | zero => exact lockstep_tooDeep
  | succ levels ih => exact lockstep_factorWith (by omega) (ih (by omega))

/-! ### Statements -/

theorem declaredTy_bind_of_colon {state : State} {f : Option Ty → Parser β}
    (h : state.current.token = .mark .colon) :
    (declaredTy >>= f) state = (advance >>= fun _ => eatTy >>= fun ty => f (some ty)) state := by
  rcases state with ⟨lexer, ⟨token, span, line⟩, opened⟩
  cases h
  calc
    (declaredTy >>= f) _ =
        ((advance >>= fun _ => eatTy >>= fun ty => pure (some ty)) >>= f) _ := rfl
    _ = _ := by simp only [bind_assoc, pure_bind]

theorem lockstep_param : Lockstep depth param Eager.param := by
  refine lockstep_bind lockstep_eatName fun named => ?_
  refine lockstep_bind (lockstep_eat Eager.mark_ne_eof) fun _ => ?_
  exact lockstep_bind lockstep_eatTy fun ty => lockstep_pure _

theorem lockstep_paramStep (done : List Param) :
    Lockstep depth (paramStep done) (Eager.paramStep done) := by
  refine lockstep_peek_bind ?_
  intro lexeme state hcurrent hstate
  refine inStep_if hcurrent hstate Token.noConfusion ?_ (lockstep_pure none)
  exact lockstep_bind lockstep_param fun next => lockstep_pure _

theorem lockstep_params : Lockstep depth params Eager.params := by
  refine lockstep_peek_bind ?_
  intro lexeme state _ hstate
  by_cases hclose : lexeme.token = .mark .rightParen
  · rw [if_pos hclose, if_pos hclose]
    exact (lockstep_pure []).inStep state hstate
  · rw [if_neg hclose, if_neg hclose]
    refine (lockstep_bind lockstep_param fun first => ?_).inStep state hstate
    refine lockstep_bind ?_ fun done => lockstep_pure _
    exact lockstep_iterate lockstep_paramStep Eager.shrinks_paramStep [first]

theorem lockstep_listEnd (closing : TokenKind) :
    Lockstep depth (listEnd closing) (Eager.listEnd closing) := by
  refine lockstep_peek_bind ?_
  intro lexeme state hcurrent hstate
  by_cases hkind : lexeme.token.kind = closing
  · rw [if_pos hkind, if_pos hkind]
    by_cases heof : closing = .eof
    · rw [if_pos heof, if_pos heof]
      exact (lockstep_pure ()).inStep state hstate
    · have hlexeme : lexeme.token ≠ .eof := by
        intro h
        rw [h] at hkind
        exact heof hkind.symm
      rw [if_neg heof, if_neg heof]
      exact inStep_advance (g := pure) hcurrent hstate hlexeme (lockstep_pure ())
  · rw [if_neg hkind, if_neg hkind]
    by_cases hstarts : lexeme.token.startsStatement = true
    · rw [if_pos hstarts, if_pos hstarts]
      exact inStep_throw state _ _
    · rw [if_neg hstarts, if_neg hstarts]
      exact (lockstep_unexpected _).inStep state hstate

section Statements

variable {inner : Parser Expr} {other : Eager Expr} (hinner : Lockstep depth inner other)
  (hsteady : Eager.Steady Eq other other)

include hinner hsteady

theorem lockstep_assignment : Lockstep depth (assignment inner) (Eager.assignment other) := by
  refine lockstep_bind lockstep_eatName ?_
  rintro ⟨name, line⟩
  refine lockstep_of_peek ?_
  rintro ⟨token, span, place⟩ ⟨lexer, current, opened⟩ hcurrent hstate
  cases hcurrent
  cases token with
  | mark mark =>
      cases mark with
      | colon =>
          dsimp only
          rw [declaredTy_bind_of_colon rfl]
          refine inStep_advance rfl hstate Token.noConfusion ?_
          refine lockstep_bind lockstep_eatTy fun ty => ?_
          refine lockstep_bind (lockstep_eat Eager.mark_ne_eof) fun _ => ?_
          exact lockstep_bind (lockstep_value hinner hsteady) fun assigned => lockstep_pure _
      | equals =>
          -- The equals sign is looked at here and passed behind the type that is left out.
          refine inStep_advance rfl hstate Token.noConfusion ?_
          exact lockstep_bind (lockstep_value hinner hsteady) fun assigned => lockstep_pure _
      | _ => exact (lockstep_unexpected _).inStep _ hstate
  | _ => exact (lockstep_unexpected _).inStep _ hstate

theorem lockstep_printStatement :
    Lockstep depth (printStatement inner) (Eager.printStatement other) := by
  refine lockstep_bind (lockstep_eat Eager.keyword_ne_eof) fun keyword => ?_
  refine lockstep_bind (lockstep_eat Eager.mark_ne_eof) fun _ => ?_
  refine lockstep_bind (lockstep_value hinner hsteady) fun printed => ?_
  exact lockstep_bind (lockstep_eat Eager.mark_ne_eof) fun _ => lockstep_pure _

variable {block : Parser Block} {other' : Eager Block} (hblock : Lockstep depth block other')

include hblock

theorem lockstep_branch : Lockstep depth (branch inner block) (Eager.branch other other') := by
  refine lockstep_bind (lockstep_eat Eager.keyword_ne_eof) fun keyword => ?_
  refine lockstep_bind (lockstep_eat Eager.mark_ne_eof) fun _ => ?_
  refine lockstep_bind (lockstep_condition hinner hsteady) fun decision => ?_
  refine lockstep_bind (lockstep_eat Eager.mark_ne_eof) fun _ => ?_
  refine lockstep_bind hblock fun whenTrue => ?_
  refine lockstep_peek_bind ?_
  intro lexeme state hcurrent hstate
  refine inStep_if hcurrent hstate Token.noConfusion ?_ (lockstep_pure _)
  exact lockstep_bind hblock fun whenFalse => lockstep_pure _

omit hinner hsteady in
theorem lockstep_function : Lockstep depth (function block) (Eager.function other') := by
  refine lockstep_bind (lockstep_eat Eager.keyword_ne_eof) fun keyword => ?_
  refine lockstep_bind lockstep_eatName fun named => ?_
  refine lockstep_bind (lockstep_eat Eager.mark_ne_eof) fun _ => ?_
  refine lockstep_bind lockstep_params fun declared => ?_
  refine lockstep_bind (lockstep_eat Eager.mark_ne_eof) fun _ => ?_
  exact lockstep_bind hblock fun body => lockstep_pure _

theorem lockstep_statement :
    Lockstep depth (statement inner block) (Eager.statement other other') := by
  refine lockstep_peek_bind ?_
  rintro ⟨token, span, line⟩ state _ hstate
  cases token with
  | name name => exact (lockstep_assignment hinner hsteady).inStep state hstate
  | keyword keyword =>
      cases keyword with
      | print => exact (lockstep_printStatement hinner hsteady).inStep state hstate
      | cond => exact (lockstep_branch hinner hsteady hblock).inStep state hstate
      | func => exact (lockstep_function hblock).inStep state hstate
      | alternative => exact (lockstep_pure _).inStep state hstate
  | _ => exact (lockstep_pure _).inStep state hstate

end Statements

section Lists

variable {parser : Parser Statement} {other : Eager Statement}
  (hparser : Lockstep depth parser other)

include hparser

theorem lockstep_listStep (done : List Statement) :
    Lockstep depth (listStep parser done) (Eager.listStep other done) := by
  refine lockstep_peek_bind ?_
  intro lexeme state hcurrent hstate
  have hnext : Lockstep depth (parser >>= fun next => pure (some (next :: done)))
      (other >>= fun next => pure (some (next :: done))) :=
    lockstep_bind hparser fun next => lockstep_pure _
  refine inStep_if hcurrent hstate Token.noConfusion hnext ?_
  by_cases hgo : (done.head?.any Statement.endsInBrace && lexeme.token.startsStatement) = true
  · rw [if_pos hgo, if_pos hgo]
    exact hnext
  · rw [if_neg hgo, if_neg hgo]
    exact lockstep_pure none

theorem lockstep_list (hshrinks : Eager.Shrinks (Eager.listStep other)) :
    Lockstep depth (list parser) (Eager.list other) := by
  refine lockstep_peek_bind ?_
  intro lexeme state _ hstate
  refine (lockstep_bind hparser fun first => ?_).inStep state hstate
  refine lockstep_bind ?_ fun done => lockstep_pure _
  exact lockstep_iterate (lockstep_listStep hparser) hshrinks [first]

end Lists

theorem lockstep_braced {inner : Parser Block} {levels : Nat}
    (hlevels : depth + levels = maxNesting)
    (hinner : Lockstep (depth + 1) inner (Eager.statements levels)) :
    Lockstep depth (braced inner) (Eager.braced (Eager.statements levels)) := by
  refine lockstep_bind (lockstep_eat Eager.mark_ne_eof) fun _ => ?_
  refine lockstep_bind (lockstep_nested hlevels hinner ?_) fun block => ?_
  · rintro rfl first rest
    rfl
  · exact lockstep_bind (lockstep_listEnd _) fun _ => lockstep_pure block

theorem lockstep_statements {levels : Nat} (hlevels : depth + levels = maxNesting + 1) :
    Lockstep depth (statements levels) (Eager.statements levels) := by
  induction levels generalizing depth with
  | zero => exact lockstep_tooDeep
  | succ levels ih =>
      have hblock := lockstep_braced (Nat.succ.inj hlevels) (ih (by omega))
      refine lockstep_list ?_ ?_
      · exact lockstep_statement (lockstep_factor hlevels) (Eager.steady_factor (levels + 1)) hblock
      · exact Eager.shrinks_listStep (Eager.reads_factor (levels + 1))
          (Eager.reads_braced (Eager.reads_statements levels))

theorem lockstep_program : Lockstep 0 program Eager.program := by
  refine lockstep_bind (lockstep_statements (Nat.zero_add _)) fun block => ?_
  exact lockstep_bind (lockstep_listEnd .eof) fun _ => lockstep_pure block

/-! ### Sources -/

/-- However a parser ends, all that it opened is closed again. -/
theorem depth_of_lockstep {p : Parser α} {q : Eager α} {state : State}
    (h : Lockstep state.depth p q) : (Outcome.state (p state)).depth = state.depth := by
  have hinStep := h.inStep state rfl
  cases hrun : p state with
  | ok a after =>
      rw [hrun] at hinStep
      exact hinStep.2.depth
  | error e after =>
      rw [hrun] at hinStep
      cases e with
      | lexical e => exact hinStep.1
      | grammar e => exact hinStep.1

/-- Nothing is left open behind a program, and nothing behind a fault. -/
theorem depth_program {state : State} (h : state.depth = 0) :
    (Outcome.state (program state)).depth = 0 := by
  have hlockstep : Lockstep state.depth program Eager.program := by
    rw [h]
    exact lockstep_program
  exact (depth_of_lockstep hlockstep).trans h

/-- What the outcome of parsing says of the eager parser on the lexemes of the
    source. -/
def Reflects (scan : Scan) : Except ParseError Block → Prop
  | .ok block => ∃ rest, Eager.program scan.input = .ok block rest
  | .error (.grammar e) => ∃ rest, Eager.program scan.input = .error (.grammar e) rest
  | .error (.lexical e) => scan.ending = .error e ∧ Exhausted (Eager.program scan.input)

/-- Behind the first lexeme of a source, all its lexemes are to come and nothing
    is open. -/
theorem scan_of_new {source : String} {state : State}
    (h : new (Cursor.start source) = .ok state) :
    state.scan = Scan.ofSource source ∧ state.depth = 0 := by
  rw [new] at h
  rcases hnext : (Cursor.start source).next with ⟨_ | current, lexer⟩
  · rw [hnext] at h
    cases h
  · rw [hnext] at h
    cases h
    exact ⟨(scan_of_next hnext 0).symm, rfl⟩

theorem scan_of_new_error {source : String} {e : ParseError}
    (h : new (Cursor.start source) = .error e) :
    ∃ error, e = .lexical error ∧
      Scan.ofSource source = { lexemes := [], ending := .error error } := by
  rw [new] at h
  rcases hnext : (Cursor.start source).next with ⟨error | current, lexer⟩
  · rw [hnext] at h
    cases h
    exact ⟨error, rfl, scan_of_next_error hnext⟩
  · rw [hnext] at h
    cases h

/-- Parsing a source comes to what the eager parser comes to on its lexemes, or
    to the lexical error behind them. -/
theorem parse_reflects (source : String) : Reflects (Scan.ofSource source) (parse source) := by
  rw [parse]
  cases hnew : new (Cursor.start source) with
  | error e =>
      rcases scan_of_new_error hnew with ⟨error, rfl, hscan⟩
      rw [hscan]
      exact ⟨rfl, lockstep_program.exhausted⟩
  | ok state =>
      rcases scan_of_new hnew with ⟨hscan, hdepth⟩
      have hinStep := lockstep_program.inStep state hdepth
      rw [← hscan]
      cases hrun : program state with
      | ok block after =>
          rw [hrun] at hinStep
          simp only [hrun]
          exact ⟨after.input, hinStep.1⟩
      | error e after =>
          rw [hrun] at hinStep
          simp only [hrun]
          cases e with
          | lexical e => exact hinStep.2
          | grammar e => exact hinStep.2

end Parser

end Scriptlet
