import Scriptlet.Proofs.Grammar.Locality
import Scriptlet.Proofs.Grammar.Variation

/-!
# What Stands Before a Fault

A parser that fails at a lexeme has consumed only lexemes that some phrase
begins with. So the lexeme it fails at is the first that is wrong, and what
stands before it could have gone on in another way. If the fault is a missing
separator, it could have gone on with a semicolon and that same lexeme.

Such a statement is about what may still come, and that changes as a parser
goes along: behind each lexeme and each inner phrase there is less left to come.
A parser is therefore judged by the phrases that it is on its way to, and a
sequence asks of its second part to be on its way to what is left of them. One
thing has to be known throughout, which is that there is something left.

The phrases that complete a beginning may need levels that the parser does not
have. A statement that begins with `if` needs a block, for example, and one
that begins with a sign an operand. Two levels more are enough.

## Main definitions

* `SyntaxError.Blames`: The lexeme that an error is about.
* `Mends`: What could have stood at a fault.
* `ViableAt`, `Viable`: Where a parser fails, it was on its way to a phrase.
* `Parses`: A parser that consumes phrases of a rule and is on its way to them.

## Theorems

* `viable_bind`, `viable_iterate`: Sequences and repetitions.
* `parses_factor`, `parses_statements`, `viable_program`: The parsers.
-/

namespace Scriptlet

open Outcome Grammar

/-- An error is about a lexeme: it tells its token and its line. -/
inductive SyntaxError.Blames : SyntaxError → Lexeme → Prop where
  | unexpected (expected : String) (lexeme : Lexeme) :
      Blames (.unexpected expected lexeme.token.describe lexeme.line) lexeme
  | missingSeparator (lexeme : Lexeme) :
      Blames (.missingSeparator lexeme.token.describe lexeme.line) lexeme

namespace Eager

variable {α β : Type}

/-- What could have stood at a fault, with something behind it: anything else
    than the lexeme that is there, or where a separator is missing, a semicolon
    before that lexeme. -/
inductive Mends : SyntaxError → Lexeme → List Lexeme → Prop where
  | anything (e : SyntaxError) (lexeme : Lexeme) : Mends e lexeme []
  | separator {semicolon : Lexeme} (found : String) (line : Nat) (lexeme : Lexeme)
      (token : semicolon.token = .mark .semicolon) :
      Mends (.missingSeparator found line) lexeme [semicolon, lexeme]

/-- If an outcome is a lexeme out of place, then that lexeme is ahead, and the
    lexemes before it, with whatever mends the fault, begin one of the given
    phrases. -/
def ViableAt (L : List Lexeme → Prop) (lexemes : List Lexeme)
    (outcome : EStateM.Result Stop (List Lexeme) α) : Prop :=
  ∀ e rest, outcome = .error (.grammar e) rest → e.Misplaced →
    ∃ phrase lexeme tail, lexemes = phrase ++ lexeme :: tail ∧ rest = lexeme :: tail ∧
      e.Blames lexeme ∧ ∀ mend, Mends e lexeme mend → ∃ more, L (phrase ++ (mend ++ more))

/-- A parser on its way to the given phrases, of which there are some. -/
structure Viable (L : List Lexeme → Prop) (p : Eager α) : Prop where
  some : ∃ phrase, L phrase
  before : ∀ lexemes, ViableAt L lexemes (p lexemes)

/-- A parser of a rule: what it consumes is a phrase, and where it fails it was
    on its way to one. -/
structure Parses (G : List Lexeme → α → Prop) (p : Eager α) : Prop where
  reads : Reads G p
  viable : Viable (Phrases G) p

/-! ### Sequences -/

section Sequences

variable {L M : List Lexeme → Prop} {p : Eager α} {lexemes rest : List Lexeme}
  {outcome : EStateM.Result Stop (List Lexeme) α}

theorem viableAt_mono (h : ViableAt L lexemes outcome) (hmono : ∀ phrase, L phrase → M phrase) :
    ViableAt M lexemes outcome := by
  intro e rest hfault hmisplaced
  rcases h e rest hfault hmisplaced with ⟨phrase, lexeme, tail, hlexemes, hrest, hblames, hmends⟩
  refine ⟨phrase, lexeme, tail, hlexemes, hrest, hblames, fun mend hmend => ?_⟩
  rcases hmends mend hmend with ⟨more, hmore⟩
  exact ⟨more, hmono _ hmore⟩

theorem viable_mono (h : Viable L p) (hmono : ∀ phrase, L phrase → M phrase) : Viable M p := by
  rcases h.some with ⟨phrase, hphrase⟩
  exact ⟨⟨phrase, hmono phrase hphrase⟩, fun lexemes => viableAt_mono (h.before lexemes) hmono⟩

theorem viableAt_ok (a : α) : ViableAt L lexemes (.ok a rest) := by
  intro e rest hfault
  cases hfault

/-- A fault does not depend on what the parser would have given. -/
theorem viableAt_error {stop : Stop}
    (h : ViableAt L lexemes (.error stop rest : EStateM.Result Stop (List Lexeme) α)) :
    ViableAt L lexemes (.error stop rest : EStateM.Result Stop (List Lexeme) β) := by
  intro e last hfault
  cases hfault
  exact h e rest rfl

theorem viable_pure (h : L []) (a : α) : Viable L (pure a) :=
  ⟨⟨[], h⟩, fun _ => viableAt_ok a⟩

/-- Behind lexemes that were consumed, a parser is on its way to what is left
    of the phrases that begin with them. -/
theorem viableAt_append (phrase : List Lexeme)
    (h : ViableAt (fun second => L (phrase ++ second)) rest outcome) :
    ViableAt L (phrase ++ rest) outcome := by
  intro e last hfault hmisplaced
  rcases h e last hfault hmisplaced with ⟨second, lexeme, tail, hsecond, hlast, hblames, hmends⟩
  refine ⟨phrase ++ second, lexeme, tail, ?_, hlast, hblames, fun mend hmend => ?_⟩
  · rw [hsecond, List.append_assoc]
  · rcases hmends mend hmend with ⟨more, hmore⟩
    refine ⟨more, ?_⟩
    rw [List.append_assoc]
    exact hmore

-- A fault in the first part leaves all of the second to come, and a fault in the second stands
-- behind a phrase of the first.
theorem viable_bind {G : List Lexeme → α → Prop} {f : α → Eager β} (hp : Parses G p)
    (hf : ∀ phrase a, G phrase a → Viable (fun second => L (phrase ++ second)) (f a)) :
    Viable L (p >>= f) := by
  refine ⟨?_, fun lexemes => ?_⟩
  · rcases hp.viable.some with ⟨phrase, a, hG⟩
    rcases (hf phrase a hG).some with ⟨second, hsecond⟩
    exact ⟨_, hsecond⟩
  · cases hlexemes : p lexemes with
    | ok a rest =>
        rcases hp.reads lexemes a rest hlexemes with ⟨phrase, rfl, hG⟩
        rw [bind_of_ok hlexemes]
        exact viableAt_append phrase ((hf phrase a hG).before rest)
    | error stop rest =>
        rw [bind_of_error hlexemes]
        intro e last hfault hmisplaced
        cases hfault
        rcases hp.viable.before lexemes e rest hlexemes hmisplaced with
          ⟨phrase, lexeme, tail, hphrase, hrest, hblames, hmends⟩
        refine ⟨phrase, lexeme, tail, hphrase, hrest, hblames, fun mend hmend => ?_⟩
        rcases hmends mend hmend with ⟨more, a, hG⟩
        rcases (hf _ a hG).some with ⟨second, hsecond⟩
        refine ⟨more ++ second, ?_⟩
        rw [List.append_assoc, List.append_assoc] at hsecond
        exact hsecond

/-- Where nothing more is read, it does not matter what is made of the
    value. -/
theorem viableAt_map (h : ViableAt L lexemes (p lexemes)) (f : α → β) :
    ViableAt L lexemes ((p >>= fun a => pure (f a)) lexemes) := by
  cases hlexemes : p lexemes with
  | ok a rest =>
      rw [bind_of_ok hlexemes]
      exact viableAt_ok (f a)
  | error stop rest =>
      rw [hlexemes] at h
      rw [bind_of_error hlexemes]
      exact viableAt_error h

theorem viable_map (h : Viable L p) (f : α → β) : Viable L (p >>= fun a => pure (f a)) :=
  ⟨h.some, fun lexemes => viableAt_map (h.before lexemes) f⟩

end Sequences

/-! ### Single lexemes -/

section Lexemes

variable {L : List Lexeme → Prop}

/-- The lexeme ahead decides what comes. -/
theorem viable_peek_bind {f : Lexeme → Eager β} (hsome : ∃ phrase, L phrase)
    (h : ∀ lexeme tail, ViableAt L (lexeme :: tail) (f lexeme (lexeme :: tail))) :
    Viable L (peek >>= f) := by
  refine ⟨hsome, fun lexemes => ?_⟩
  cases lexemes with
  | nil =>
      intro e rest hfault
      cases hfault
  | cons lexeme tail => exact h lexeme tail

theorem viableAt_advance {f : Unit → Eager β} {lexeme : Lexeme} {tail : List Lexeme}
    (h : Viable (fun second => L (lexeme :: second)) (f ())) :
    ViableAt L (lexeme :: tail) ((advance >>= f) (lexeme :: tail)) :=
  viableAt_append [lexeme] (h.before tail)

theorem viableAt_unexpected (hsome : ∃ phrase, L phrase) (expected : String) (lexeme : Lexeme)
    (tail : List Lexeme) :
    ViableAt L (lexeme :: tail) ((unexpected expected : Eager α) (lexeme :: tail)) := by
  intro e rest hfault _
  cases hfault
  refine ⟨[], lexeme, tail, rfl, rfl, .unexpected expected lexeme, fun mend hmend => ?_⟩
  cases hmend with
  | anything => exact hsome

theorem viable_tooDeep (hsome : ∃ phrase, L phrase) : Viable L (tooDeep : Eager α) := by
  refine viable_peek_bind hsome fun lexeme tail => ?_
  intro e rest hfault hmisplaced
  cases hfault
  exact hmisplaced.elim

/-- A parser of one lexeme consumes it, or it fails there. -/
def Takes (accepts : Lexeme → α → Prop) (p : Eager α) : Prop :=
  p [] = .error .starved [] ∧ ∀ lexeme tail,
    (∃ a, accepts lexeme a ∧ p (lexeme :: tail) = .ok a tail) ∨
      ∃ expected, p (lexeme :: tail) = unexpected expected (lexeme :: tail)

theorem viable_take_bind {accepts : Lexeme → α → Prop} {p : Eager α} {f : α → Eager β}
    (hp : Takes accepts p) (hone : ∃ lexeme a, accepts lexeme a)
    (hf : ∀ lexeme a, accepts lexeme a → Viable (fun second => L (lexeme :: second)) (f a)) :
    Viable L (p >>= f) := by
  have hsome : ∃ phrase, L phrase := by
    rcases hone with ⟨lexeme, a, haccepts⟩
    rcases (hf lexeme a haccepts).some with ⟨second, hsecond⟩
    exact ⟨_, hsecond⟩
  refine ⟨hsome, fun lexemes => ?_⟩
  cases lexemes with
  | nil =>
      rw [bind_of_error hp.1]
      intro e rest hfault
      cases hfault
  | cons lexeme tail =>
      rcases hp.2 lexeme tail with ⟨a, haccepts, hok⟩ | ⟨expected, hfault⟩
      · rw [bind_of_ok hok]
        exact viableAt_append [lexeme] ((hf lexeme a haccepts).before tail)
      · rw [bind_of_error hfault]
        exact viableAt_unexpected hsome expected lexeme tail

theorem takes_eat (kind : TokenKind) :
    Takes (fun lexeme found => found = lexeme ∧ lexeme.token.kind = kind) (eat kind) := by
  refine ⟨rfl, fun lexeme tail => ?_⟩
  by_cases hkind : lexeme.token.kind = kind
  · exact Or.inl ⟨lexeme, ⟨rfl, hkind⟩, eat_eq_ok.mpr ⟨rfl, hkind⟩⟩
  · refine Or.inr ⟨kind.describe, ?_⟩
    rw [eat, bind_of_ok (peek_cons lexeme tail), if_neg hkind]

theorem viable_eat_mark_bind {mark : Mark} {f : Lexeme → Eager β}
    (h : ∀ lexeme, lexeme.token = .mark mark →
      Viable (fun second => L (lexeme :: second)) (f lexeme)) :
    Viable L (eat (.mark mark) >>= f) := by
  refine viable_take_bind (takes_eat _) ⟨lexemeOf (.mark mark), _, rfl, rfl⟩ ?_
  rintro lexeme found ⟨rfl, hkind⟩
  exact h _ (Token.kind_eq_mark.mp hkind)

theorem viable_eat_keyword_bind {keyword : Keyword} {f : Lexeme → Eager β}
    (h : ∀ lexeme, lexeme.token = .keyword keyword →
      Viable (fun second => L (lexeme :: second)) (f lexeme)) :
    Viable L (eat (.keyword keyword) >>= f) := by
  refine viable_take_bind (takes_eat _) ⟨lexemeOf (.keyword keyword), _, rfl, rfl⟩ ?_
  rintro lexeme found ⟨rfl, hkind⟩
  exact h _ (Token.kind_eq_keyword.mp hkind)

theorem viable_eatName_bind {f : String × Nat → Eager β}
    (h : ∀ lexeme name, lexeme.token = .name name →
      Viable (fun second => L (lexeme :: second)) (f (name, lexeme.line))) :
    Viable L (eatName >>= f) := by
  have htakes : Takes (fun lexeme (found : String × Nat) =>
      lexeme.token = .name found.1 ∧ found.2 = lexeme.line) eatName := by
    refine ⟨rfl, fun lexeme tail => ?_⟩
    rw [eatName, bind_of_ok (peek_cons lexeme tail)]
    cases htoken : lexeme.token with
    | name name => exact Or.inl ⟨(name, lexeme.line), ⟨htoken, rfl⟩, rfl⟩
    | _ => exact Or.inr ⟨_, rfl⟩
  refine viable_take_bind htakes ⟨lexemeOf (.name ""), ("", 1), rfl, rfl⟩ ?_
  rintro lexeme ⟨name, line⟩ ⟨hname, rfl⟩
  exact h lexeme name hname

theorem viable_eatTy_bind {f : Ty → Eager β}
    (h : ∀ lexeme ty, lexeme.token = .ty ty →
      Viable (fun second => L (lexeme :: second)) (f ty)) :
    Viable L (eatTy >>= f) := by
  have htakes : Takes (fun lexeme ty => lexeme.token = .ty ty) eatTy := by
    refine ⟨rfl, fun lexeme tail => ?_⟩
    rw [eatTy, bind_of_ok (peek_cons lexeme tail)]
    cases htoken : lexeme.token with
    | ty ty => exact Or.inl ⟨ty, htoken, rfl⟩
    | _ => exact Or.inr ⟨_, rfl⟩
  exact viable_take_bind htakes ⟨lexemeOf (.ty .int), .int, rfl⟩ h

end Lexemes

/-! ### Repetition -/

section Repetition

variable {G : List Lexeme → α → Prop} {phrase : List Lexeme} {a : α}

/-- A phrase can be all there is. -/
theorem some_of_phrase (h : G phrase a) : ∃ second, Phrases G (phrase ++ second) := by
  refine ⟨[], a, ?_⟩
  rw [List.append_nil]
  exact h

/-- A repetition is on its way to phrases if each step is, from the phrase so
    far on. -/
theorem viable_iterate {step : α → Eager (Option α)} (hextends : Extends G step)
    (hstep : ∀ phrase a, G phrase a →
      Viable (fun second => Phrases G (phrase ++ second)) (step a))
    (hG : G phrase a) : Viable (fun second => Phrases G (phrase ++ second)) (iterate step a) := by
  have hwithin : ∀ (bound phrase : List Lexeme) (a : α) (lexemes : List Lexeme), G phrase a →
      ViableAt (fun second => Phrases G (phrase ++ second)) lexemes
        (iterateWithin step bound a lexemes) := by
    intro bound
    induction bound with
    | nil =>
        intro phrase a lexemes _ e rest hfault
        cases hfault
    | cons entry bound ih =>
        intro phrase a lexemes hG
        have hnow := (hstep phrase a hG).before lexemes
        rw [iterateWithin]
        cases hnext : step a lexemes with
        | error stop rest =>
            rw [hnext] at hnow
            rw [bind_of_error hnext]
            exact viableAt_error hnow
        | ok next rest =>
            rw [bind_of_ok hnext]
            cases next with
            | none => exact viableAt_ok a
            | some b =>
                rcases hextends phrase a b lexemes rest hG hnext with ⟨second, rfl, hsecond⟩
                refine viableAt_append second (viableAt_mono (ih _ b rest hsecond) ?_)
                intro third hthird
                rw [← List.append_assoc]
                exact hthird
  exact ⟨some_of_phrase hG, fun lexemes => hwithin lexemes phrase a lexemes hG⟩

end Repetition

/-! ### Expressions -/

theorem parses_chainLeft {operand : Eager Expr} {op? : Token → Option ArithOp}
    {G H : List Lexeme → Expr → Prop} (hoperand : Parses G operand)
    (hfirst : ∀ phrase expr, G phrase expr → H phrase expr)
    (hmore : ∀ first second lexeme op left right, H first left → op? lexeme.token = some op →
      G second right → H (first ++ lexeme :: second) (.arith op left right lexeme.line)) :
    Parses H (chainLeft operand op?) := by
  refine ⟨reads_chainLeft hoperand.reads hfirst hmore, ?_⟩
  refine viable_bind hoperand fun phrase first hG => ?_
  refine viable_iterate (extends_chainStep hoperand.reads hmore) ?_ (hfirst phrase first hG)
  intro phrase left hleft
  refine viable_peek_bind (some_of_phrase hleft) fun lexeme tail => ?_
  cases hop : op? lexeme.token with
  | none => exact viableAt_ok none
  | some op =>
      refine viableAt_advance (viable_map (viable_mono hoperand.viable ?_) _)
      rintro second ⟨right, hright⟩
      exact ⟨_, hmore phrase second lexeme op left right hleft hop hright⟩

section Expressions

variable {levels : Nat} {inner : Eager Expr} (hinner : Parses (IsFactor levels) inner)

include hinner

theorem parses_sum : Parses (IsSum levels) (sum inner) := by
  refine parses_chainLeft (G := IsTerm levels) ?_ (fun _ _ => .term) ?_
  · refine parses_chainLeft hinner (fun _ _ => .factor) ?_
    intro first second lexeme op left right hfirst hop hsecond
    exact .more hfirst (Token.multiplicative?_eq_some.mp hop) hsecond
  · intro first second lexeme op left right hfirst hop hsecond
    exact .more hfirst (Token.additive?_eq_some.mp hop) hsecond

theorem parses_factorWith : Parses (IsFactor (levels + 1)) (factorWith inner) := by
  have hsome : ∃ phrase, Phrases (IsFactor (levels + 1)) phrase :=
    ⟨[lexemeOf (.integer 0)], _, .integer rfl⟩
  refine ⟨reads_factorWith hinner.reads, viable_peek_bind hsome fun lexeme tail => ?_⟩
  have hsigned : ∀ sign, SignOf lexeme.token sign →
      Viable (fun phrase => Phrases (IsFactor (levels + 1)) (lexeme :: phrase)) inner := by
    intro sign hsign
    refine viable_mono hinner.viable ?_
    rintro phrase ⟨operand, hoperand⟩
    exact ⟨_, .signed hsign hoperand⟩
  cases htoken : lexeme.token with
  | integer value => exact viableAt_ok _
  | name name => exact viableAt_ok _
  | mark mark =>
      cases mark with
      | plus =>
          exact viableAt_advance (viable_map (hsigned .plus (htoken ▸ .plus)) _)
      | minus =>
          exact viableAt_advance (viable_map (hsigned .negate (htoken ▸ .minus)) _)
      | leftParen =>
          refine viableAt_advance (viable_bind (parses_sum hinner) fun phrase expr hexpr => ?_)
          refine viable_eat_mark_bind fun closing hclosing => ?_
          exact viable_pure ⟨expr, .parens htoken hexpr hclosing⟩ expr
      | _ => exact viableAt_unexpected hsome _ lexeme tail
  | _ => exact viableAt_unexpected hsome _ lexeme tail

theorem parses_value : Parses (IsValue levels) (value inner) := by
  have hsum : Viable (Phrases (IsValue levels)) (sum inner) := by
    refine viable_mono (parses_sum hinner).viable ?_
    rintro phrase ⟨expr, hexpr⟩
    exact ⟨expr, .sum hexpr⟩
  refine ⟨reads_value hinner.reads, viable_peek_bind hsum.some fun lexeme tail => ?_⟩
  cases lexeme.token with
  | string content => exact viableAt_ok _
  | bool flag => exact viableAt_ok _
  | _ => exact hsum.before _

/-- Behind the left side of a comparison, the rest of a condition is to
    come. -/
theorem viable_comparison {first : List Lexeme} {left : Expr} (hleft : IsSide levels first left) :
    Viable (fun second => Phrases (IsCondition levels) (first ++ second))
      (comparison inner left) := by
  have hsum := (parses_sum hinner).viable
  have hsome : ∃ second, Phrases (IsCondition levels) (first ++ second) := by
    rcases hsum.some with ⟨second, right, hright⟩
    exact ⟨lexemeOf (.mark .less) :: second, _, .compare hleft .less hright⟩
  refine viable_peek_bind hsome fun lexeme tail => ?_
  cases horder : lexeme.token.order? with
  | none => exact viableAt_unexpected hsome _ lexeme tail
  | some order =>
      refine viableAt_advance (viable_map (viable_mono hsum ?_) _)
      rintro second ⟨right, hright⟩
      exact ⟨_, .compare hleft (Token.order?_eq_some.mp horder) hright⟩

theorem parses_condition : Parses (IsCondition levels) (condition inner) := by
  have hcompare : Viable (Phrases (IsCondition levels))
      (sum inner >>= fun left => comparison inner left) := by
    refine viable_bind (parses_sum hinner) fun phrase left hleft => ?_
    exact viable_comparison hinner (.sum hleft)
  refine ⟨reads_condition hinner.reads, viable_peek_bind hcompare.some fun lexeme tail => ?_⟩
  cases htoken : lexeme.token with
  | bool flag =>
      -- A truth value is a condition, or the left side of one.
      refine viableAt_advance (viable_peek_bind ⟨[], _, .bool htoken⟩ fun ahead behind => ?_)
      cases ahead.token.order? with
      | none => exact viableAt_ok _
      | some order => exact (viable_comparison hinner (.bool htoken)).before _
  | _ => exact hcompare.before _

end Expressions

/-- A factor that was begun can be completed with one level more than the
    parser can open. -/
theorem parses_factor {levels levels' : Nat} (h : levels ≤ levels') :
    Parses (IsFactor levels') (factor levels) := by
  induction levels generalizing levels' with
  | zero =>
      refine ⟨fun lexemes expr rest hok => absurd hok tooDeep_ne_ok, ?_⟩
      exact viable_tooDeep ⟨[lexemeOf (.integer 0)], _, .integer rfl⟩
  | succ levels ih =>
      cases levels' with
      | zero => exact absurd h (Nat.not_succ_le_zero _)
      | succ levels' => exact parses_factorWith (ih (Nat.le_of_succ_le_succ h))

/-! ### Statements -/

theorem parses_param : Parses IsParam param := by
  refine ⟨fun _ _ _ => param_eq_ok.mp, viable_eatName_bind fun lexeme name hname => ?_⟩
  refine viable_eat_mark_bind fun colon hcolon => ?_
  refine viable_eatTy_bind fun word ty hword => ?_
  exact viable_pure ⟨_, .mk hname hcolon hword⟩ _

theorem viable_paramStep {phrase : List Lexeme} {done : List Param}
    (hdone : IsParams phrase done.reverse) :
    Viable (fun second => Phrases (fun phrase (done : List Param) => IsParams phrase done.reverse)
      (phrase ++ second)) (paramStep done) := by
  refine viable_peek_bind (some_of_phrase hdone) fun lexeme tail => ?_
  by_cases hcomma : lexeme.token = .mark .comma
  · simp only [if_pos hcomma]
    refine viableAt_advance (viable_map (viable_mono parses_param.viable ?_) _)
    rintro second ⟨next, hnext⟩
    refine ⟨next :: done, ?_⟩
    simp only [List.reverse_cons]
    exact .more hdone hcomma hnext
  · simp only [if_neg hcomma]
    exact viableAt_ok none

theorem parses_params : Parses IsSignature params := by
  refine ⟨reads_params, viable_peek_bind ⟨[], [], .nothing⟩ fun lexeme tail => ?_⟩
  by_cases hclose : lexeme.token = .mark .rightParen
  · simp only [if_pos hclose]
    exact viableAt_ok []
  · simp only [if_neg hclose]
    refine (viable_bind parses_param fun phrase first hfirst => ?_).before _
    have hitems := viable_iterate extends_paramStep (fun _ _ => viable_paramStep) (a := [first])
      (.single hfirst)
    refine viable_map (viable_mono hitems ?_) _
    rintro second ⟨done, hdone⟩
    exact ⟨_, .params hdone⟩

section Statements

variable {levels : Nat} {inner : Eager Expr} {block : Eager Block}
  (hinner : Parses (IsFactor levels) inner) (hblock : Parses (IsBraced levels) block)

include hinner

theorem viable_assignment : Viable (Phrases (IsProper levels)) (assignment inner) := by
  have hvalue := (parses_value hinner).viable
  refine viable_eatName_bind fun lexeme name hname => ?_
  have hassign : ∀ equals, equals.token = .mark .equals →
      Viable (fun phrase => Phrases (IsProper levels) (lexeme :: equals :: phrase))
        (value inner) := by
    intro equals hequals
    refine viable_mono hvalue ?_
    rintro phrase ⟨assigned, hassigned⟩
    exact ⟨_, List.cons_ne_nil _ _, .assign hname hequals hassigned⟩
  have hsome : ∃ second, Phrases (IsProper levels) (lexeme :: second) := by
    rcases (hassign (lexemeOf (.mark .equals)) rfl).some with ⟨phrase, hphrase⟩
    exact ⟨_, hphrase⟩
  refine viable_peek_bind hsome fun ahead tail => ?_
  cases htoken : ahead.token with
  | mark mark =>
      cases mark with
      | colon =>
          refine viableAt_advance (viable_eatTy_bind fun word ty hword => ?_)
          refine viable_eat_mark_bind fun equals hequals => ?_
          refine viable_map (viable_mono hvalue ?_) _
          rintro phrase ⟨assigned, hassigned⟩
          exact ⟨_, List.cons_ne_nil _ _, .declare hname htoken hword hequals hassigned⟩
      | equals => exact viableAt_advance (viable_map (hassign ahead htoken) _)
      | _ => exact viableAt_unexpected hsome _ ahead tail
  | _ => exact viableAt_unexpected hsome _ ahead tail

theorem viable_printStatement : Viable (Phrases (IsProper levels)) (printStatement inner) := by
  refine viable_eat_keyword_bind fun keyword hkeyword => ?_
  refine viable_eat_mark_bind fun opening hopening => ?_
  refine viable_bind (parses_value hinner) fun phrase printed hprinted => ?_
  refine viable_eat_mark_bind fun closing hclosing => ?_
  exact viable_pure ⟨_, List.cons_ne_nil _ _, .print hkeyword hopening hprinted hclosing⟩ _

include hblock

theorem viable_branch : Viable (Phrases (IsProper levels)) (branch inner block) := by
  refine viable_eat_keyword_bind fun keyword hkeyword => ?_
  refine viable_eat_mark_bind fun opening hopening => ?_
  refine viable_bind (parses_condition hinner) fun phrase decision hdecision => ?_
  refine viable_eat_mark_bind fun closing hclosing => ?_
  refine viable_bind hblock fun first whenTrue hfirst => ?_
  have hdone : Phrases (IsProper levels)
      (keyword :: opening :: (phrase ++ closing :: (first ++ []))) := by
    rw [List.append_nil]
    exact ⟨_, List.cons_ne_nil _ _, .branch hkeyword hopening hdecision hclosing hfirst⟩
  refine viable_peek_bind ⟨[], hdone⟩ fun lexeme tail => ?_
  by_cases helse : lexeme.token = .keyword .alternative
  · simp only [if_pos helse]
    refine viableAt_advance (viable_map (viable_mono hblock.viable ?_) _)
    rintro second ⟨whenFalse, hsecond⟩
    exact ⟨_, List.cons_ne_nil _ _,
      .choice hkeyword hopening hdecision hclosing hfirst helse hsecond⟩
  · simp only [if_neg helse]
    exact viableAt_ok _

omit hinner in
theorem viable_function : Viable (Phrases (IsProper levels)) (function block) := by
  refine viable_eat_keyword_bind fun keyword hkeyword => ?_
  refine viable_eatName_bind fun lexeme name hname => ?_
  refine viable_eat_mark_bind fun opening hopening => ?_
  refine viable_bind parses_params fun phrase declared hdeclared => ?_
  refine viable_eat_mark_bind fun closing hclosing => ?_
  refine viable_map (viable_mono hblock.viable ?_) _
  rintro second ⟨body, hbody⟩
  exact ⟨_, List.cons_ne_nil _ _, .function hkeyword hname hopening hdeclared hclosing hbody⟩

/-- Where a token starts a statement, one that is not empty is on its way. -/
theorem viableAt_of_starts {lexeme : Lexeme} (hstarts : Starts lexeme.token)
    (tail : List Lexeme) :
    ViableAt (Phrases (IsProper levels)) (lexeme :: tail)
      (statement inner block (lexeme :: tail)) := by
  rw [statement_cons]
  generalize lexeme.token = token at hstarts
  cases hstarts with
  | name name => exact (viable_assignment hinner).before _
  | print => exact (viable_printStatement hinner).before _
  | cond => exact (viable_branch hinner hblock).before _
  | func => exact (viable_function hblock).before _

theorem parses_statement : Parses (IsStatement levels) (statement inner block) := by
  refine ⟨reads_statement hinner.reads hblock.reads, ?_⟩
  refine viable_peek_bind ⟨[], .empty, .empty⟩ fun lexeme tail => ?_
  change ViableAt _ _ (statement inner block (lexeme :: tail))
  by_cases hstarts : Starts lexeme.token
  · refine viableAt_mono (viableAt_of_starts hinner hblock hstarts tail) ?_
    rintro phrase ⟨found, hfound⟩
    exact ⟨found, hfound.2⟩
  · rw [statement_of_not_starts hstarts]
    exact viableAt_ok _

theorem viable_listStep {phrase : List Lexeme} {done : List Statement}
    (hdone : IsList levels phrase done.reverse) :
    Viable (fun second => Phrases
        (fun phrase (done : List Statement) => IsList levels phrase done.reverse)
        (phrase ++ second))
      (listStep (statement inner block) done) := by
  refine viable_peek_bind (some_of_phrase hdone) fun lexeme tail => ?_
  by_cases hsemicolon : lexeme.token = .mark .semicolon
  · simp only [if_pos hsemicolon]
    have hone := (parses_statement hinner hblock).viable
    refine viableAt_advance (viable_map (viable_mono hone ?_) _)
    rintro second ⟨next, hnext⟩
    refine ⟨next :: done, ?_⟩
    simp only [List.reverse_cons]
    exact .separated hdone hsemicolon hnext
  · simp only [if_neg hsemicolon]
    by_cases hgo : goesOn done lexeme.token = true
    · have hone := viableAt_of_starts hinner hblock (starts_of_goesOn hgo) tail
      rw [← goesOn, if_pos hgo]
      refine viableAt_map (viableAt_mono hone ?_) _
      rintro second ⟨next, hnext⟩
      exact ⟨next :: done, list_of_proper hdone hgo hnext⟩
    · rw [← goesOn, if_neg hgo]
      exact viableAt_ok none

/-- The rule of lists, for a block that stands on any line. -/
def IsBlock (levels : Nat) (phrase : List Lexeme) (found : Block) : Prop :=
  IsList levels phrase found.statements

theorem parses_list : Parses (IsBlock levels) (list (statement inner block)) := by
  refine ⟨fun lexemes found rest hok => ?_, ?_⟩
  · rcases list_eq_ok.mp hok with ⟨lexeme, tail, done, _, hitems, rfl⟩
    exact reads_listItems hinner.reads hblock.reads lexemes done rest hitems
  · refine viable_peek_bind ⟨[], .mk [.empty] 0, .single .empty⟩ fun lexeme tail => ?_
    refine (viable_bind (parses_statement hinner hblock) fun phrase first hfirst => ?_).before _
    have hitems := viable_iterate (extends_listStep hinner.reads hblock.reads)
      (fun _ _ => viable_listStep hinner hblock) (a := [first]) (.single hfirst)
    refine viable_map (viable_mono hitems ?_) _
    rintro second ⟨done, hdone⟩
    exact ⟨.mk done.reverse 0, hdone⟩

end Statements

/-! ### Lists that end -/

/-- A token that starts a statement begins one that can be completed, if a
    brace can be opened. -/
theorem statement_of_starts {lexeme : Lexeme} (h : Starts lexeme.token) (levels : Nat) :
    ∃ more found, IsStatement (levels + 1) (lexeme :: more) found := by
  have hvalue : IsValue (levels + 1) [lexemeOf (.integer 0)] (.number 0 1) :=
    .sum (.term (.factor (.integer rfl)))
  have hblock : IsBraced (levels + 1) ([lexemeOf (.mark .leftBrace), lexemeOf (.mark .rightBrace)])
      (.mk [.empty] 1) := .mk rfl (.single .empty) rfl
  have hcondition : IsCondition (levels + 1) [lexemeOf (.bool true)] (.literal (.bool true) 1) :=
    .bool rfl
  cases htoken : lexeme.token with
  | name name => exact ⟨lexemeOf (.mark .equals) :: _, _, .assign htoken rfl hvalue⟩
  | keyword keyword =>
      cases keyword with
      | print =>
          exact ⟨lexemeOf (.mark .leftParen) :: (_ ++ [lexemeOf (.mark .rightParen)]), _,
            .print htoken rfl hvalue rfl⟩
      | cond =>
          exact ⟨lexemeOf (.mark .leftParen) :: (_ ++ lexemeOf (.mark .rightParen) :: _), _,
            .branch htoken rfl hcondition rfl hblock⟩
      | func =>
          exact ⟨lexemeOf (.name "") :: lexemeOf (.mark .leftParen) ::
            ([] ++ lexemeOf (.mark .rightParen) :: _), _,
            .function htoken rfl rfl .nothing rfl hblock⟩
      | alternative =>
          rw [htoken] at h
          cases h
  | _ =>
      rw [htoken] at h
      cases h

/-- Behind a semicolon, a list goes on with any token that starts a
    statement. -/
theorem list_of_mend {levels : Nat} {phrase : List Lexeme} {items : List Statement}
    {semicolon lexeme : Lexeme} (hlist : IsList (levels + 1) phrase items)
    (hsemicolon : semicolon.token = .mark .semicolon) (hstarts : Starts lexeme.token) :
    ∃ more items', IsList (levels + 1) (phrase ++ semicolon :: lexeme :: more) items' := by
  rcases statement_of_starts hstarts levels with ⟨more, found, hfound⟩
  exact ⟨more, _, .separated hlist hsemicolon hfound⟩

/-- What has to close a list is missing only where the list could go on. -/
theorem viable_listEnd {L : List Lexeme → Prop} (closing : TokenKind) (hsome : ∃ phrase, L phrase)
    (hmend : ∀ semicolon lexeme : Lexeme, semicolon.token = .mark .semicolon →
      Starts lexeme.token → ∃ more, L (semicolon :: lexeme :: more)) :
    Viable L (listEnd closing) := by
  refine viable_peek_bind hsome fun lexeme tail => ?_
  by_cases hkind : lexeme.token.kind = closing
  · simp only [if_pos hkind]
    by_cases heof : closing = .eof
    · simp only [if_pos heof]
      exact viableAt_ok ()
    · simp only [if_neg heof]
      exact viableAt_ok ()
  · simp only [if_neg hkind]
    by_cases hstarts : lexeme.token.startsStatement = true
    · simp only [if_pos hstarts]
      intro e rest hfault _
      cases hfault
      refine ⟨[], lexeme, tail, rfl, rfl, .missingSeparator lexeme, fun mend hmends => ?_⟩
      cases hmends with
      | anything => exact hsome
      | separator _ _ _ token => exact hmend _ lexeme token (startsStatement_iff.mp hstarts)
    · simp only [if_neg hstarts]
      exact viableAt_unexpected hsome _ lexeme tail

theorem viable_braced {levels : Nat} {parser : Eager Block}
    (hparser : Parses (IsBlock (levels + 1)) parser) :
    Viable (Phrases (IsBraced (levels + 2))) (braced parser) := by
  refine viable_eat_mark_bind fun opening hopening => ?_
  refine viable_bind hparser fun phrase block hlist => ?_
  refine viable_map (viable_listEnd _ ?_ ?_) _
  · exact ⟨[lexemeOf (.mark .rightBrace)], _, .mk hopening hlist rfl⟩
  · intro semicolon lexeme hsemicolon hstarts
    rcases list_of_mend hlist hsemicolon hstarts with ⟨more, items, hitems⟩
    have hblock : Phrases (IsBraced (levels + 2)) (opening ::
        (phrase ++ semicolon :: lexeme :: more ++ [lexemeOf (.mark .rightBrace)])) :=
      ⟨_, .mk hopening hitems rfl⟩
    rw [append_cons_append, List.cons_append] at hblock
    exact ⟨_, hblock⟩

theorem reads_braced_of_le {levels levels' : Nat} (h : levels ≤ levels') :
    Reads (IsBraced levels') (braced (statements levels)) := by
  intro lexemes block rest hok
  rcases reads_braced (reads_statements levels) lexemes block rest hok with
    ⟨phrase, hphrase, hblock⟩
  exact ⟨phrase, hphrase, braced_of_le hblock h⟩

/-- A list that was begun can be completed, and a missing separator in it
    mended, with two levels more than the parser can open. -/
theorem parses_statements {levels levels' : Nat} (h : levels ≤ levels') :
    Parses (IsBlock (levels' + 1)) (statements levels) := by
  induction levels generalizing levels' with
  | zero =>
      refine ⟨fun lexemes block rest hok => absurd hok tooDeep_ne_ok, ?_⟩
      exact viable_tooDeep ⟨[], .mk [.empty] 0, .single .empty⟩
  | succ levels ih =>
      cases levels' with
      | zero => exact absurd h (Nat.not_succ_le_zero _)
      | succ levels' =>
          have hblock : Parses (IsBraced (levels' + 2)) (braced (statements levels)) :=
            ⟨reads_braced_of_le (by omega), viable_braced (ih (Nat.le_of_succ_le_succ h))⟩
          rw [statements]
          exact parses_list (parses_factor (by omega)) hblock

theorem viable_program : Viable (Phrases (IsBlock (maxNesting + 2))) program := by
  refine viable_bind (parses_statements (Nat.le_refl _)) fun phrase block hlist => ?_
  refine viable_map (viable_listEnd .eof (some_of_phrase hlist) ?_) _
  intro semicolon lexeme hsemicolon hstarts
  rcases list_of_mend hlist hsemicolon hstarts with ⟨more, items, hitems⟩
  exact ⟨more, .mk items 0, hitems⟩

end Eager

end Scriptlet
