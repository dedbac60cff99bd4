import Scriptlet.Proofs.Grammar.Nesting
import Scriptlet.Proofs.Grammar.OnDemand
import Scriptlet.Proofs.Grammar.Variation

/-!
# The Limit on Nesting is Exact

A program of the grammar can nest deeper than the parser allows. Then the parser
stops behind the first token that opens one construct more than the limit, and
says so of the lexeme behind it; and if there is no such token, the limit plays
no part.

A parser has as many levels left as there are between what is open around it and
the limit. That is the invariant, and each rule keeps it: a rule that opens a
construct has one level less inside, and phrases that stand side by side have the
same levels. With it, every phrase of the grammar is of one of two kinds. Either
nothing in it goes beyond the limit, and then it is also a phrase with the levels
that are left; or something does, and then the parser stops there, whatever
follows the phrase.

## Main definitions

* `Bounded`: A phrase is of one of the two kinds.
* `loftySource`: A source with one construct too many.

## Theorems

* `bounded_of_passes`, `bounded_concat`, `bounded_link`: Phrases in a row.
* `bounded_factor`, `bounded_sum`, `bounded_statement`, `bounded_list`: Every
  phrase is of one of the two kinds.
* `nesting_limit_exact`: What becomes of a source whose tokens are a program.
-/

namespace Scriptlet

open Outcome Grammar

namespace Eager

variable {α β γ : Type}

/-- A sequence that nests too deep in its first part does so there. -/
theorem bind_of_tooDeep {p : Eager α} {lexemes behind : List Lexeme}
    (h : p lexemes = tooDeep behind) (f : α → Eager β) :
    (p >>= f) lexemes = tooDeep behind := by
  cases behind with
  | nil => exact bind_of_error h f
  | cons lexeme behind => exact bind_of_error h f

/-- A phrase is read within a limit if it stays within it, and else the parser
    stops behind the first token that goes beyond. -/
structure Bounded (limit : Nat) (s : Nesting) (parser : Eager α) (phrase : List Lexeme)
    (fits : Prop) : Prop where
  within : s.beyond limit phrase = none → fits
  stops : ∀ behind, s.beyond limit phrase = some behind →
    ∀ rest, parser (phrase ++ rest) = tooDeep (behind ++ rest)

section Bounded

variable {limit : Nat} {s t : Nesting} {p : Eager α} {q : Eager β} {r : Eager γ}
  {first second : List Lexeme} {fits fits' whole : Prop}

/-- Lexemes that open nothing beyond the limit, and a phrase behind them. -/
theorem bounded_of_passes (hpass : Passes limit s first t) (h : Bounded limit t q second fits)
    (hwhole : fits → whole)
    (hstop : ∀ rest behind, q rest = tooDeep behind → r (first ++ rest) = tooDeep behind) :
    Bounded limit s r (first ++ second) whole := by
  have hbeyond : s.beyond limit (first ++ second) = t.beyond limit second := by
    rw [Nesting.beyond_append_of_none hpass.within, hpass.reaches]
  refine ⟨fun hnone => hwhole (h.within (hbeyond ▸ hnone)), fun behind hsome rest => ?_⟩
  rw [List.append_assoc]
  exact hstop _ _ (h.stops behind (hbeyond ▸ hsome) rest)

/-- A phrase that goes beyond the limit does so whatever follows it. -/
theorem bounded_of_some (hfirst : Bounded limit s p first fits)
    (hdeep : ∀ rest behind, p (first ++ rest) = tooDeep behind →
      r (first ++ rest) = tooDeep behind)
    {found : List Lexeme} (hbeyond : s.beyond limit first = some found) :
    Bounded limit s r (first ++ second) whole := by
  have hearlier := Nesting.beyond_append_of_some hbeyond second
  refine ⟨fun hnone => ?_, fun behind hsome rest => ?_⟩
  · rw [hearlier] at hnone
    cases hnone
  · rw [hearlier] at hsome
    cases hsome
    rw [List.append_assoc, List.append_assoc]
    exact hdeep _ _ (hfirst.stops found hbeyond _)

section Sequence

variable {m : Nesting} {middle : List Lexeme} (hfirst : Bounded limit s p first fits)
  (hdeep : ∀ rest behind, p (first ++ rest) = tooDeep behind →
    r (first ++ rest) = tooDeep behind)
  (hpast : s.past first = m) (hpass : Passes limit m middle t)

include hfirst hdeep hpast hpass

/-- A phrase, and lexemes behind it that open nothing beyond the limit. -/
theorem bounded_concat : Bounded limit s r (first ++ middle) fits := by
  cases hbeyond : s.beyond limit first with
  | none =>
      refine ⟨fun _ => hfirst.within hbeyond, fun behind hsome => ?_⟩
      rw [Nesting.beyond_append_of_none hbeyond, hpast, hpass.within] at hsome
      cases hsome
  | some found => exact bounded_of_some hfirst hdeep hbeyond

/-- A phrase, such lexemes, and another phrase. The second phrase is reached
    only if the first one fits. -/
theorem bounded_link (hsecond : fits → Bounded limit t q second fits')
    (hwhole : fits → fits' → whole)
    (hstop : fits → ∀ rest behind, q (second ++ rest) = tooDeep behind →
      r (first ++ (middle ++ (second ++ rest))) = tooDeep behind) :
    Bounded limit s r (first ++ (middle ++ second)) whole := by
  cases hbeyond : s.beyond limit first with
  | none =>
      have hfits := hfirst.within hbeyond
      have hlater : s.beyond limit (first ++ (middle ++ second)) = t.beyond limit second := by
        rw [Nesting.beyond_append_of_none hbeyond, hpast,
          Nesting.beyond_append_of_none hpass.within, hpass.reaches]
      refine ⟨fun hnone => ?_, fun behind hsome rest => ?_⟩
      · exact hwhole hfits ((hsecond hfits).within (hlater ▸ hnone))
      · rw [List.append_assoc, List.append_assoc]
        exact hstop hfits rest _ ((hsecond hfits).stops behind (hlater ▸ hsome) rest)
  | some found => exact bounded_of_some hfirst hdeep hbeyond

end Sequence

/-- A phrase that opens nothing beyond the limit. -/
theorem bounded_of_within (hpass : Passes limit s first t) (h : fits) :
    Bounded limit s p first fits := by
  refine ⟨fun _ => h, fun behind hsome => ?_⟩
  rw [hpass.within] at hsome
  cases hsome

/-- A token that opens a construct beyond the limit. -/
theorem bounded_of_lt {lexeme : Lexeme} {rest : List Lexeme}
    (h : limit < (s.step lexeme.token).depth)
    (hstop : ∀ tail, p (lexeme :: tail) = tooDeep tail) :
    Bounded limit s p (lexeme :: rest) fits := by
  have hbeyond := Nesting.beyond_cons_of_lt h rest
  refine ⟨fun hnone => ?_, fun behind hsome tail => ?_⟩
  · rw [hbeyond] at hnone
    cases hnone
  · rw [hbeyond] at hsome
    cases hsome
    exact hstop _

end Bounded

theorem advance_cons (lexeme : Lexeme) (tail : List Lexeme) :
    advance (lexeme :: tail) = .ok () tail := rfl

/-! ### Expressions that nest too deep -/

section Expressions

variable {inner operand : Eager Expr} {op? : Token → Option ArithOp} {lexeme : Lexeme}
  {tail behind : List Lexeme}

theorem factorWith_signed_tooDeep {sign : Sign} (token : SignOf lexeme.token sign)
    (h : inner tail = tooDeep behind) : factorWith inner (lexeme :: tail) = tooDeep behind := by
  rw [factorWith, bind_of_ok (peek_cons lexeme tail)]
  generalize lexeme.token = ahead at token
  cases token with
  | plus => exact bind_of_tooDeep h _
  | minus => exact bind_of_tooDeep h _

theorem factorWith_parens_tooDeep (opens : lexeme.token = .mark .leftParen)
    (h : sum inner tail = tooDeep behind) :
    factorWith inner (lexeme :: tail) = tooDeep behind := by
  rw [factorWith, bind_of_ok (peek_cons lexeme tail), opens]
  exact bind_of_tooDeep h _

theorem chainLeft_tooDeep (h : operand tail = tooDeep behind) :
    chainLeft operand op? tail = tooDeep behind :=
  bind_of_tooDeep h _

theorem sum_tooDeep (h : inner tail = tooDeep behind) : sum inner tail = tooDeep behind :=
  chainLeft_tooDeep (chainLeft_tooDeep h)

/-- A repetition whose next step nests too deep stops there. -/
theorem continues_tooDeep {α : Type} {step : α → Eager (Option α)}
    {outcome : EStateM.Result Stop (List Lexeme) α} {a : α}
    (h : Continues step outcome a (lexeme :: tail))
    (hstep : step a (lexeme :: tail) = tooDeep behind) : outcome = tooDeep behind := by
  rcases h with ⟨bound, hle, rfl⟩
  cases bound with
  | nil => exact absurd hle (Nat.not_succ_le_zero _)
  | cons first bound =>
      rw [iterateWithin]
      exact bind_of_tooDeep hstep _

theorem chainStep_tooDeep {left : Expr} {op : ArithOp} (hop : op? lexeme.token = some op)
    (h : operand tail = tooDeep behind) :
    chainStep operand op? left (lexeme :: tail) = tooDeep behind := by
  rw [chainStep, bind_of_ok (peek_cons lexeme tail), hop]
  exact bind_of_tooDeep h _

end Expressions

-- By recursion over the derivation. Signs and parentheses open a construct: without a level left
-- that is one too many, and the parser inside has no other choice than to stop.
mutual

theorem bounded_factor : ∀ {levels : Nat} {phrase : List Lexeme} {expr : Expr},
    IsFactor levels phrase expr → ∀ {limit left : Nat} {constructs : List Construct},
      levelsOf constructs + left = limit →
      Bounded limit ⟨constructs, true⟩ (factor (left + 1)) phrase (IsFactor left phrase expr)
  | _, _, _, .integer token, limit, left, constructs, h => by
      have hle := levelsOf_le_of_suffix (settle_suffix constructs)
      refine bounded_of_within (passes_one (step_integer token) ?_) (.integer token)
      exact Nat.le_trans hle (Nat.le.intro h)
  | _, _, _, .name token, limit, left, constructs, h => by
      have hle := levelsOf_le_of_suffix (settle_suffix constructs)
      refine bounded_of_within (passes_one (step_name token) ?_) (.name token)
      exact Nat.le_trans hle (Nat.le.intro h)
  | _, _, _, .signed token inner, limit, left, constructs, h => by
      have hsign := levelsOf_cons .sign rfl constructs
      cases left with
      | zero =>
          refine bounded_of_lt ?_ fun tail => factorWith_signed_tooDeep token rfl
          rw [step_sign token, Nesting.depth_mk]
          omega
      | succ left =>
          have hinner : levelsOf (.sign :: constructs) + left = limit := by
            omega
          refine bounded_of_passes (passes_one (step_sign token) (Nat.le.intro hinner))
            (bounded_factor inner hinner) (.signed token) ?_
          exact fun rest behind => factorWith_signed_tooDeep token
  | _, _, _, .parens opens inner closes, limit, left, constructs, h => by
      have hparens := levelsOf_cons .parens rfl constructs
      have hstep := step_leftParen constructs opens
      cases left with
      | zero =>
          refine bounded_of_lt ?_ fun tail => factorWith_parens_tooDeep opens (sum_tooDeep rfl)
          rw [hstep, Nesting.depth_mk]
          omega
      | succ left =>
          have hinner : levelsOf (.parens :: constructs) + left = limit := by
            omega
          have hsum := bounded_sum inner hinner rfl
          have hclose : levelsOf (settle constructs) ≤ limit := by
            have hle := levelsOf_le_of_suffix (settle_suffix constructs)
            omega
          have hbody := bounded_concat hsum (fun rest behind => id) (past_sum inner rfl)
            (passes_one (step_rightParen closes) hclose)
          refine bounded_of_passes (passes_one hstep (Nat.le.intro hinner)) hbody
            (fun hfits => .parens opens hfits closes) ?_
          exact fun rest behind => factorWith_parens_tooDeep opens

theorem bounded_term : ∀ {levels : Nat} {phrase : List Lexeme} {expr : Expr},
    IsTerm levels phrase expr → ∀ {limit left : Nat} {constructs : List Construct},
      levelsOf constructs + left = limit → settle constructs = constructs →
      Bounded limit ⟨constructs, true⟩ (chainLeft (factor (left + 1)) Token.multiplicative?) phrase
        (IsTerm left phrase expr)
  | _, _, _, .factor only, limit, left, constructs, h, _ => by
      have hfactor := bounded_factor only h
      exact ⟨fun hnone => .factor (hfactor.within hnone),
        fun behind hsome rest => chainLeft_tooDeep (hfactor.stops behind hsome rest)⟩
  | _, _, _, .more before token last, limit, left, constructs, h, hsettled => by
      have hpass := passes_one (step_termOp token) (Nat.le.intro h)
      refine bounded_link (bounded_term before h hsettled) (fun rest behind => id)
        (past_term before hsettled) hpass (fun _ => bounded_factor last h)
        (fun hbefore hlast => .more hbefore token hlast) ?_
      intro hbefore rest behind hdeep
      refine continues_tooDeep (continues_of_term hbefore _) ?_
      exact chainStep_tooDeep (Token.multiplicative?_eq_some.mpr token) hdeep

theorem bounded_sum : ∀ {levels : Nat} {phrase : List Lexeme} {expr : Expr},
    IsSum levels phrase expr → ∀ {limit left : Nat} {constructs : List Construct},
      levelsOf constructs + left = limit → settle constructs = constructs →
      Bounded limit ⟨constructs, true⟩ (sum (factor (left + 1))) phrase (IsSum left phrase expr)
  | _, _, _, .term only, limit, left, constructs, h, hsettled => by
      have hterm := bounded_term only h hsettled
      exact ⟨fun hnone => .term (hterm.within hnone),
        fun behind hsome rest => chainLeft_tooDeep (hterm.stops behind hsome rest)⟩
  | _, _, _, .more before token last, limit, left, constructs, h, hsettled => by
      have hpass := passes_one (step_sumOp token) (Nat.le.intro h)
      refine bounded_link (bounded_sum before h hsettled) (fun rest behind => id)
        (past_sum before hsettled) hpass (fun _ => bounded_term last h hsettled)
        (fun hbefore hlast => .more hbefore token hlast) ?_
      intro hbefore rest behind hdeep
      refine continues_tooDeep
        (continues_of_sum hbefore _ _ (not_multiplicative_of_sumOp token)) ?_
      exact chainStep_tooDeep (Token.additive?_eq_some.mpr token) hdeep

end

/-! ### Values and conditions -/

/-- A token that is neither a string nor a truth value. -/
def NoLiteral (token : Token) : Prop :=
  (∀ content, token ≠ .string content) ∧ ∀ flag, token ≠ .bool flag

theorem head_of_factor {levels : Nat} {phrase : List Lexeme} {expr : Expr}
    (h : IsFactor levels phrase expr) :
    ∃ lexeme tail, phrase = lexeme :: tail ∧ NoLiteral lexeme.token := by
  cases h with
  | integer token => exact ⟨_, _, rfl, by simp [NoLiteral, token]⟩
  | name token => exact ⟨_, _, rfl, by simp [NoLiteral, token]⟩
  | @signed _ lexeme _ _ _ token inner =>
      refine ⟨_, _, rfl, ?_⟩
      generalize lexeme.token = ahead at token
      cases token <;> simp [NoLiteral]
  | parens opens inner closes => exact ⟨_, _, rfl, by simp [NoLiteral, opens]⟩

theorem head_of_term : ∀ {levels : Nat} {phrase : List Lexeme} {expr : Expr},
    IsTerm levels phrase expr → ∃ lexeme tail, phrase = lexeme :: tail ∧ NoLiteral lexeme.token
  | _, _, _, .factor only => head_of_factor only
  | _, _, _, .more before token last => by
      rcases head_of_term before with ⟨lexeme, tail, rfl, hlexeme⟩
      exact ⟨lexeme, _, rfl, hlexeme⟩

/-- A sum starts with a lexeme that is no literal. -/
theorem head_of_isSum : ∀ {levels : Nat} {phrase : List Lexeme} {expr : Expr},
    IsSum levels phrase expr → ∃ lexeme tail, phrase = lexeme :: tail ∧ NoLiteral lexeme.token
  | _, _, _, .term only => head_of_term only
  | _, _, _, .more before token last => by
      rcases head_of_isSum before with ⟨lexeme, tail, rfl, hlexeme⟩
      exact ⟨lexeme, _, rfl, hlexeme⟩

section Values

variable {inner : Eager Expr} {levels : Nat} {phrase rest behind : List Lexeme} {expr : Expr}

theorem value_tooDeep (hsum : IsSum levels phrase expr)
    (h : sum inner (phrase ++ rest) = tooDeep behind) :
    value inner (phrase ++ rest) = tooDeep behind := by
  rcases head_of_isSum hsum with ⟨lexeme, tail, rfl, hlexeme⟩
  rw [List.cons_append] at h ⊢
  rw [value, bind_of_ok (peek_cons lexeme _)]
  cases htoken : lexeme.token with
  | string content => exact absurd htoken (hlexeme.1 content)
  | bool flag => exact absurd htoken (hlexeme.2 flag)
  | _ => exact h

theorem condition_tooDeep (hsum : IsSum levels phrase expr)
    (h : sum inner (phrase ++ rest) = tooDeep behind) :
    condition inner (phrase ++ rest) = tooDeep behind := by
  rcases head_of_isSum hsum with ⟨lexeme, tail, rfl, hlexeme⟩
  rw [List.cons_append] at h ⊢
  rw [condition, bind_of_ok (peek_cons lexeme _)]
  cases htoken : lexeme.token with
  | bool flag => exact absurd htoken (hlexeme.2 flag)
  | _ => exact bind_of_tooDeep h _

theorem comparison_tooDeep {left : Expr} {lexeme : Lexeme} {order : Order}
    (token : OrderOf lexeme.token order) (h : sum inner rest = tooDeep behind) :
    comparison inner left (lexeme :: rest) = tooDeep behind := by
  rw [comparison, bind_of_ok (peek_cons lexeme rest), Token.order?_eq_some.mpr token]
  exact bind_of_tooDeep h _

/-- Behind a left side that fits, a condition nests too deep in its right
    side. -/
theorem condition_of_side {lexeme : Lexeme} {order : Order}
    (hside : IsSide levels phrase expr) (token : OrderOf lexeme.token order)
    (h : sum (factor (levels + 1)) rest = tooDeep behind) :
    condition (factor (levels + 1)) (phrase ++ lexeme :: rest) = tooDeep behind := by
  have hcompare := fun left => @comparison_tooDeep _ _ _ left lexeme order token h
  cases hside with
  | @bool flagged flag htoken =>
      rw [List.singleton_append, condition, bind_of_ok (peek_cons flagged _), htoken]
      refine (bind_of_ok (advance_cons flagged _) _).trans ?_
      rw [bind_of_ok (peek_cons lexeme rest), Token.order?_eq_some.mpr token]
      exact hcompare _
  | sum only =>
      have hsum := sum_of_phrase rest only (endsSum_of_orderOf token)
      rcases head_of_isSum only with ⟨first, tail, rfl, hfirst⟩
      rw [List.cons_append] at hsum ⊢
      rw [condition, bind_of_ok (peek_cons first _)]
      cases htoken : first.token with
      | bool flag => exact absurd htoken (hfirst.2 flag)
      | _ =>
          refine (bind_of_ok hsum _).trans ?_
          exact hcompare _

end Values

section Bounds

variable {levels limit left : Nat} {constructs : List Construct} {phrase : List Lexeme}
  {expr : Expr} (hlevels : levelsOf constructs + left = limit)
  (hsettled : settle constructs = constructs)

include hlevels hsettled

theorem bounded_value (h : IsValue levels phrase expr) :
    Bounded limit ⟨constructs, true⟩ (value (factor (left + 1))) phrase
      (IsValue left phrase expr) := by
  have hle : levelsOf constructs ≤ limit := Nat.le.intro hlevels
  cases h with
  | string token =>
      exact bounded_of_within (passes_one (step_idle (by rw [token]; rfl)) hle) (.string token)
  | bool token =>
      exact bounded_of_within (passes_one (step_idle (by rw [token]; rfl)) hle) (.bool token)
  | sum only =>
      have hsum := bounded_sum only hlevels hsettled
      exact ⟨fun hnone => .sum (hsum.within hnone),
        fun behind hsome rest => value_tooDeep only (hsum.stops behind hsome rest)⟩

theorem bounded_side (h : IsSide levels phrase expr) :
    Bounded limit ⟨constructs, true⟩ (condition (factor (left + 1))) phrase
      (IsSide left phrase expr) := by
  have hle : levelsOf constructs ≤ limit := Nat.le.intro hlevels
  cases h with
  | bool token =>
      exact bounded_of_within (passes_one (step_idle (by rw [token]; rfl)) hle) (.bool token)
  | sum only =>
      have hsum := bounded_sum only hlevels hsettled
      exact ⟨fun hnone => .sum (hsum.within hnone),
        fun behind hsome rest => condition_tooDeep only (hsum.stops behind hsome rest)⟩

theorem bounded_condition (h : IsCondition levels phrase expr) :
    Bounded limit ⟨constructs, true⟩ (condition (factor (left + 1))) phrase
      (IsCondition left phrase expr) := by
  have hle : levelsOf constructs ≤ limit := Nat.le.intro hlevels
  cases h with
  | bool token =>
      exact bounded_of_within (passes_one (step_idle (by rw [token]; rfl)) hle) (.bool token)
  | compare side token other =>
      refine bounded_link (bounded_side hlevels hsettled side) (fun rest behind => id)
        (past_side hsettled side) (passes_one (step_orderOf token) hle)
        (fun _ => bounded_sum other hlevels hsettled)
        (fun hside hother => .compare hside token hother) ?_
      exact fun hside rest behind => condition_of_side hside token

end Bounds

/-! ### Statements that nest too deep -/

section Lexemes

variable {lexeme : Lexeme} (tail : List Lexeme)

theorem eat_mark {mark : Mark} (h : lexeme.token = .mark mark) :
    eat (.mark mark) (lexeme :: tail) = .ok lexeme tail :=
  eat_eq_ok.mpr ⟨rfl, Token.kind_eq_mark.mpr h⟩

theorem eat_keyword {keyword : Keyword} (h : lexeme.token = .keyword keyword) :
    eat (.keyword keyword) (lexeme :: tail) = .ok lexeme tail :=
  eat_eq_ok.mpr ⟨rfl, Token.kind_eq_keyword.mpr h⟩

theorem eatName_name {name : String} (h : lexeme.token = .name name) :
    eatName (lexeme :: tail) = .ok (name, lexeme.line) tail := by
  rw [eatName, bind_of_ok (peek_cons lexeme tail), h]
  rfl

theorem eatTy_ty {ty : Ty} (h : lexeme.token = .ty ty) :
    eatTy (lexeme :: tail) = .ok ty tail := by
  rw [eatTy, bind_of_ok (peek_cons lexeme tail), h]
  rfl

end Lexemes

section Statements

variable {inner : Eager Expr} {block : Eager Block} {keyword lexeme opening closing : Lexeme}
  {name : String} {rest mid last behind : List Lexeme}

theorem declare_tooDeep {colon word equals : Lexeme} {ty : Ty} (named : lexeme.token = .name name)
    (separates : colon.token = .mark .colon) (typed : word.token = .ty ty)
    (token : equals.token = .mark .equals) (h : value inner rest = tooDeep behind) :
    statement inner block (lexeme :: colon :: word :: equals :: rest) = tooDeep behind := by
  rw [statement_cons, named]
  change assignment inner _ = _
  rw [assignment, bind_of_ok (eatName_name _ named)]
  refine (bind_of_ok (peek_cons colon _) _).trans ?_
  rw [separates]
  refine (bind_of_ok (advance_cons colon _) _).trans ?_
  rw [bind_of_ok (eatTy_ty _ typed), bind_of_ok (eat_mark _ token)]
  exact bind_of_tooDeep h _

theorem assign_tooDeep {equals : Lexeme} (named : lexeme.token = .name name)
    (token : equals.token = .mark .equals) (h : value inner rest = tooDeep behind) :
    statement inner block (lexeme :: equals :: rest) = tooDeep behind := by
  rw [statement_cons, named]
  change assignment inner _ = _
  rw [assignment, bind_of_ok (eatName_name _ named)]
  refine (bind_of_ok (peek_cons equals _) _).trans ?_
  rw [token]
  refine (bind_of_ok (advance_cons equals _) _).trans ?_
  exact bind_of_tooDeep h _

theorem print_tooDeep (token : keyword.token = .keyword .print)
    (opens : opening.token = .mark .leftParen) (h : value inner rest = tooDeep behind) :
    statement inner block (keyword :: opening :: rest) = tooDeep behind := by
  rw [statement_cons, token]
  change printStatement inner _ = _
  rw [printStatement, bind_of_ok (eat_keyword _ token), bind_of_ok (eat_mark _ opens)]
  exact bind_of_tooDeep h _

section Branch

variable (token : keyword.token = .keyword .cond) (opens : opening.token = .mark .leftParen)

include token opens

theorem branch_tooDeep (h : condition inner rest = tooDeep behind) :
    statement inner block (keyword :: opening :: rest) = tooDeep behind := by
  rw [statement_cons, token]
  change branch inner block _ = _
  rw [branch, bind_of_ok (eat_keyword _ token), bind_of_ok (eat_mark _ opens)]
  exact bind_of_tooDeep h _

variable {decision : Expr} (decides : condition inner rest = .ok decision (closing :: mid))
  (closes : closing.token = .mark .rightParen)

include decides closes

/-- Behind its condition, a conditional is its blocks. -/
theorem branch_of_condition (h : block mid = tooDeep behind) :
    statement inner block (keyword :: opening :: rest) = tooDeep behind := by
  rw [statement_cons, token]
  change branch inner block _ = _
  rw [branch, bind_of_ok (eat_keyword _ token), bind_of_ok (eat_mark _ opens),
    bind_of_ok decides, bind_of_ok (eat_mark _ closes)]
  exact bind_of_tooDeep h _

theorem branch_of_block {whenTrue : Block} {alternative : Lexeme}
    (hblock : block mid = .ok whenTrue (alternative :: last))
    (otherwise : alternative.token = .keyword .alternative) (h : block last = tooDeep behind) :
    statement inner block (keyword :: opening :: rest) = tooDeep behind := by
  rw [statement_cons, token]
  change branch inner block _ = _
  rw [branch, bind_of_ok (eat_keyword _ token), bind_of_ok (eat_mark _ opens),
    bind_of_ok decides, bind_of_ok (eat_mark _ closes),
    bind_of_ok hblock, bind_of_ok (peek_cons alternative last), if_pos otherwise]
  refine (bind_of_ok (advance_cons alternative last) _).trans ?_
  exact bind_of_tooDeep h _

end Branch

theorem function_tooDeep {declared : List Param} (token : keyword.token = .keyword .func)
    (named : lexeme.token = .name name) (opens : opening.token = .mark .leftParen)
    (declares : params rest = .ok declared (closing :: mid))
    (closes : closing.token = .mark .rightParen) (h : block mid = tooDeep behind) :
    statement inner block (keyword :: lexeme :: opening :: rest) = tooDeep behind := by
  rw [statement_cons, token]
  change function block _ = _
  rw [function, bind_of_ok (eat_keyword _ token), bind_of_ok (eatName_name _ named)]
  refine (bind_of_ok (eat_mark rest opens) _).trans ?_
  rw [bind_of_ok declares, bind_of_ok (eat_mark _ closes)]
  exact bind_of_tooDeep h _

end Statements

theorem listStep_tooDeep {parser : Eager Statement} {done : List Statement} {lexeme : Lexeme}
    {tail behind : List Lexeme} (token : lexeme.token = .mark .semicolon)
    (h : parser tail = tooDeep behind) :
    listStep parser done (lexeme :: tail) = tooDeep behind := by
  rw [listStep, bind_of_ok (peek_cons lexeme tail), if_pos token]
  exact bind_of_tooDeep h _

theorem listStep_goesOn_tooDeep {parser : Eager Statement} {done : List Statement}
    {lexeme : Lexeme} {tail behind : List Lexeme} (hgo : goesOn done lexeme.token = true)
    (h : parser (lexeme :: tail) = tooDeep behind) :
    listStep parser done (lexeme :: tail) = tooDeep behind := by
  have hsep : ¬ lexeme.token = .mark .semicolon := ne_semicolon_of_starts (starts_of_goesOn hgo)
  rw [goesOn] at hgo
  rw [listStep, bind_of_ok (peek_cons lexeme tail), if_neg hsep, if_pos hgo]
  exact bind_of_tooDeep h _

/-- A block whose statements nest too deep does. -/
theorem list_tooDeep {left : Nat} {lexemes behind : List Lexeme}
    (h : listItems (statementAt left) lexemes = tooDeep behind) :
    statements (left + 1) lexemes = tooDeep behind := by
  cases lexemes with
  | nil =>
      cases behind with
      | nil => rfl
      | cons lexeme behind => cases h
  | cons lexeme tail =>
      have hlist : statements (left + 1) (lexeme :: tail) =
          (listItems (statementAt left) >>= fun done =>
            pure (.mk done.reverse lexeme.line)) (lexeme :: tail) := by
        rw [statements, list, bind_of_ok (peek_cons lexeme tail), listItems, bind_assoc]
        rfl
      rw [hlist]
      exact bind_of_tooDeep h _

theorem braced_tooDeep {parser : Eager Block} {opening : Lexeme} {tail behind : List Lexeme}
    (opens : opening.token = .mark .leftBrace) (h : parser tail = tooDeep behind) :
    braced parser (opening :: tail) = tooDeep behind := by
  rw [braced, bind_of_ok (eat_mark _ opens)]
  exact bind_of_tooDeep h _

/-! ### Statements within a limit -/

section Headings

variable {limit left : Nat} {constructs : List Construct} {keyword opening closing : Lexeme}
  {due : Bool}

theorem passes_heading (hkeyword : Nesting.idle keyword.token = true)
    (opens : opening.token = .mark .leftParen) (hle : levelsOf constructs ≤ limit) :
    Passes limit ⟨constructs, false⟩ [keyword, opening] ⟨.heading :: constructs, true⟩ :=
  passes_cons _ (step_idle hkeyword) hle (passes_one (step_heading _ opens) hle)

theorem passes_closing (hsettled : settle constructs = constructs)
    (closes : closing.token = .mark .rightParen) (hle : levelsOf constructs ≤ limit) :
    Passes limit ⟨.heading :: constructs, due⟩ [closing] ⟨constructs, false⟩ := by
  refine passes_one ?_ hle
  rw [step_rightParen closes, hsettled]

end Headings

-- By recursion over the derivation, as for expressions. Where one phrase of a statement is behind
-- another, the parser gets to it only if the other fits, and then it has accepted the other.
mutual

theorem bounded_statement : ∀ {levels : Nat} {phrase : List Lexeme} {found : Statement},
    IsStatement levels phrase found → ∀ {limit left : Nat} {constructs : List Construct},
      levelsOf constructs + left = limit → settle constructs = constructs →
      Bounded limit ⟨constructs, false⟩ (statementAt left) phrase (IsStatement left phrase found)
  | _, _, _, .declare named separates typed token valued, limit, left, constructs, h, hsettled => by
      have hle : levelsOf constructs ≤ limit := Nat.le.intro h
      have hpass := passes_cons _ (step_name_settled false hsettled named) hle <|
        passes_cons _ (step_idle (by rw [separates]; rfl)) hle <|
        passes_cons _ (step_idle (by rw [typed]; rfl)) hle <|
        passes_one (step_equals token) hle
      refine bounded_of_passes hpass (bounded_value h hsettled valued)
        (.declare named separates typed token) ?_
      exact fun rest behind => declare_tooDeep named separates typed token
  | _, _, _, .assign named token valued, limit, left, constructs, h, hsettled => by
      have hle : levelsOf constructs ≤ limit := Nat.le.intro h
      have hpass := passes_cons _ (step_name_settled false hsettled named) hle <|
        passes_one (step_equals token) hle
      refine bounded_of_passes hpass (bounded_value h hsettled valued) (.assign named token) ?_
      exact fun rest behind => assign_tooDeep named token
  | _, _, _, .print token opens valued closes, limit, left, constructs, h, hsettled => by
      have hle : levelsOf constructs ≤ limit := Nat.le.intro h
      have hheading : levelsOf (.heading :: constructs) + left = limit := h
      have hvalue := bounded_concat (bounded_value hheading rfl valued) (fun rest behind => id)
        (past_value rfl valued) (passes_closing hsettled closes hle)
      refine bounded_of_passes (passes_heading (by rw [token]; rfl) opens hle) hvalue
        (fun hfits => .print token opens hfits closes) ?_
      exact fun rest behind => print_tooDeep token opens
  | _, _, _, .branch token opens decides closes block, limit, left, constructs, h, hsettled => by
      have hle : levelsOf constructs ≤ limit := Nat.le.intro h
      have hheading : levelsOf (.heading :: constructs) + left = limit := h
      refine bounded_of_passes (passes_heading (by rw [token]; rfl) opens hle) ?_ id
        (fun rest behind => id)
      refine bounded_link (bounded_condition hheading rfl decides)
        (fun rest behind => branch_tooDeep token opens) (past_condition rfl decides)
        (passes_closing hsettled closes hle) (fun _ => bounded_braced block h)
        (fun hdecides hblock => .branch token opens hdecides closes hblock) ?_
      intro hdecides rest behind
      exact branch_of_condition token opens (condition_of_parens hdecides closes _) closes
  | _, _, _, @IsStatement.choice _ keyword opening closing alternative phrase first second
      condition whenTrue whenFalse token opens decides closes block otherwise other, limit, left,
      constructs, h, hsettled => by
      have hle : levelsOf constructs ≤ limit := Nat.le.intro h
      have hheading : levelsOf (.heading :: constructs) + left = limit := h
      have hblocks : IsCondition left phrase condition →
          Bounded limit ⟨constructs, false⟩
            (fun lexemes => statementAt left (keyword :: opening :: (phrase ++ closing :: lexemes)))
            (first ++ alternative :: second)
            (IsBraced left first whenTrue ∧ IsBraced left second whenFalse) := by
        intro hdecides
        have hcondition := condition_of_parens hdecides closes
        refine bounded_link (bounded_braced block h)
          (fun rest behind => branch_of_condition token opens (hcondition _) closes)
          (past_braced block) (passes_one (step_idle (by rw [otherwise]; rfl)) hle)
          (fun _ => bounded_braced other h) And.intro ?_
        intro hblock rest behind
        exact branch_of_block token opens (hcondition _) closes (braced_of_phrase hblock _)
          otherwise
      refine bounded_of_passes (passes_heading (by rw [token]; rfl) opens hle) ?_ id
        (fun rest behind => id)
      exact bounded_link (bounded_condition hheading rfl decides)
        (fun rest behind => branch_tooDeep token opens) (past_condition rfl decides)
        (passes_closing hsettled closes hle) hblocks
        (fun hdecides hboth => .choice token opens hdecides closes hboth.1 otherwise hboth.2)
        (fun _ rest behind => id)
  | _, _, _, @IsStatement.function _ keyword lexeme opening closing name phrase second params body
      token named opens declares closes block, limit, left, constructs, h, hsettled => by
      have hle : levelsOf constructs ≤ limit := Nat.le.intro h
      have hheading : settle (.heading :: constructs) = .heading :: constructs := rfl
      rcases passes_signature hheading hle declares with ⟨due, hdeclares⟩
      have hpass : Passes limit ⟨constructs, false⟩ [keyword, lexeme, opening]
          ⟨.heading :: constructs, true⟩ :=
        passes_cons _ (step_idle (by rw [token]; rfl)) hle <|
          passes_cons _ (step_name_settled false hsettled named) hle <|
          passes_one (step_heading _ opens) hle
      refine bounded_of_passes hpass ?_ id (fun rest behind => id)
      refine bounded_of_passes hdeclares ?_ id (fun rest behind => id)
      refine bounded_of_passes (passes_closing hsettled closes hle) (bounded_braced block h)
        (.function token named opens declares closes) ?_
      intro rest behind
      exact function_tooDeep token named opens (params_of_phrase declares closes rest) closes
  | _, _, _, .empty, limit, left, constructs, h, hsettled => bounded_of_within passes_nil .empty

theorem bounded_list : ∀ {levels : Nat} {phrase : List Lexeme} {items : List Statement},
    IsList levels phrase items → ∀ {limit left : Nat} {constructs : List Construct},
      levelsOf constructs + left = limit → settle constructs = constructs →
      Bounded limit ⟨constructs, false⟩ (listItems (statementAt left)) phrase
        (IsList left phrase items)
  | _, _, _, .single only, limit, left, constructs, h, hsettled => by
      have hone := bounded_statement only h hsettled
      exact ⟨fun hnone => .single (hone.within hnone),
        fun behind hsome rest => bind_of_tooDeep (hone.stops behind hsome rest) _⟩
  | _, _, _, .separated before token last, limit, left, constructs, h, hsettled => by
      refine bounded_link (bounded_list before h hsettled) (fun rest behind => id)
        (past_list before hsettled) (passes_one (step_idle (by rw [token]; rfl)) (Nat.le.intro h))
        (fun _ => bounded_statement last h hsettled)
        (fun hbefore hlast => .separated hbefore token hlast) ?_
      intro hbefore rest behind hdeep
      rcases getLast?_of_list hbefore with ⟨previous, hprevious⟩
      refine continues_tooDeep
        (continues_of_list hbefore _ hprevious (Or.inl (token ▸ .semicolon))) ?_
      exact listStep_tooDeep token hdeep
  | _, _, _, .adjacent before behind closed starts last, limit, left, constructs, h, hsettled => by
      refine bounded_link (bounded_list before h hsettled) (fun rest behind => id)
        (past_list before hsettled) passes_nil (fun _ => bounded_statement last h hsettled)
        (fun hbefore hlast => .adjacent hbefore behind closed starts hlast) ?_
      intro hbefore rest deeper hdeep
      refine continues_tooDeep (continues_of_list hbefore _ behind (Or.inr ⟨closed, starts⟩)) ?_
      exact listStep_goesOn_tooDeep (goesOn_of_closed behind closed starts) hdeep

theorem bounded_braced : ∀ {levels : Nat} {phrase : List Lexeme} {found : Block},
    IsBraced levels phrase found → ∀ {limit left : Nat} {constructs : List Construct},
      levelsOf constructs + left = limit →
      Bounded limit ⟨constructs, false⟩ (braced (statements left)) phrase
        (IsBraced left phrase found)
  | _, _, _, .mk opens inner closes, limit, left, constructs, h => by
      have hbraces := levelsOf_cons .braces rfl constructs
      have hstep := @step_leftBrace false _ constructs opens
      cases left with
      | zero =>
          refine bounded_of_lt ?_ fun tail => braced_tooDeep opens rfl
          rw [hstep, Nesting.depth_mk]
          omega
      | succ left =>
          have hinner : levelsOf (.braces :: constructs) + left = limit := by
            omega
          have hbody := bounded_concat (bounded_list inner hinner rfl) (fun rest behind => id)
            (past_list inner rfl) (passes_one (step_rightBrace closes) (Nat.le.intro h))
          refine bounded_of_passes (passes_one hstep (Nat.le.intro hinner)) hbody
            (fun hfits => .mk opens hfits closes) ?_
          exact fun rest behind hdeep => braced_tooDeep opens (list_tooDeep hdeep)

end

/-- A program that nests too deep is stopped behind the token that goes beyond
    the limit. -/
theorem program_tooDeep {levels : Nat} {lexemes behind : List Lexeme} {items : List Statement}
    (h : IsList levels lexemes items)
    (hbeyond : Nesting.start.beyond maxNesting lexemes = some behind) (rest : List Lexeme) :
    program (lexemes ++ rest) = tooDeep (behind ++ rest) := by
  have hnothing : levelsOf [] + maxNesting = maxNesting := Nat.zero_add maxNesting
  have hstops := (bounded_list h hnothing rfl).stops behind hbeyond rest
  exact bind_of_tooDeep (list_tooDeep hstops) _

end Eager

/-! ### Sources -/

/-- What is read up to the last lexeme, with whatever levels, is a program. -/
theorem spells_of_statements {levels : Nat} {lexemes rest : List Lexeme} {eof : Lexeme}
    {block : Block} (h : Eager.statements (levels + 1) (lexemes ++ [eof]) = .ok block rest)
    (hrest : rest.length = 1) : Spells (lexemes.map Lexeme.token) := by
  rcases Eager.reads_statements (levels + 1) _ _ _ h with
    ⟨phrase, items, _, _, hphrase, _, hlist, _⟩
  have hsame : lexemes = phrase := List.append_inj_left' hphrase (by rw [hrest]; rfl)
  rw [hsame]
  exact spells_iff.mpr ⟨levels, items, hlist⟩

/-- Let the tokens of a source be a program, however deep it nests. If at most
    128 signs, parentheses of expressions and braces are open at any place, then
    the source is parsed. Else there is a first token that opens one more where
    128 are open, and the only error is that the nesting is too deep, on the line
    of the lexeme behind that token. -/
theorem nesting_limit_exact {source : String} {lexemes : List Lexeme}
    (htokens : tokenize source = .ok lexemes) (hspells : Spells (lexemes.map Lexeme.token)) :
    ((∀ k, openAfter (lexemes.take k) ≤ 128) ∧ ∃ block, parse source = .ok block) ∨
    ∃ eof k next, (Scan.ofSource source).ending = .ok eof ∧
      (∀ j ≤ k, openAfter (lexemes.take j) ≤ 128) ∧ openAfter (lexemes.take k) = 128 ∧
      openAfter (lexemes.take (k + 1)) = 129 ∧ (lexemes ++ [eof])[k + 1]? = some next ∧
      parse source = .error (.grammar (.nestingTooDeep 128 next.line)) := by
  rcases spells_iff.mp hspells with ⟨levels, items, hlist⟩
  rcases tokenize_eq_ok.mp htokens with ⟨eof, hending, hlexemes⟩
  have hinput := input_of_tokenize htokens hending
  have heof := token_eq_eof_of_ending hending
  cases hbeyond : Nesting.start.beyond 128 lexemes with
  | none =>
      refine Or.inl ⟨Nesting.depth_le_of_none (Nat.zero_le 128) hbeyond, ?_⟩
      have hfits : IsList 128 lexemes items :=
        (Eager.bounded_list hlist (Nat.zero_add 128) rfl).within hbeyond
      have hnone : ∀ lexeme ∈ lexemes, lexeme.token ≠ .eof := by
        rw [← hlexemes]
        exact fun lexeme => token_ne_eof_of_mem
      rcases (Eager.program_iff hnone heof).mpr (.mk hfits) with ⟨rest, hprogram⟩
      exact ⟨_, parse_eq_ok.mpr ⟨rest, hinput ▸ hprogram⟩⟩
  | some behind =>
      rcases Nesting.opener_of_some (Nat.zero_le 128) hbeyond with
        ⟨k, hk, hbehind, hbefore, hreached, hopened⟩
      have hdrop : behind ++ [eof] = (lexemes ++ [eof]).drop (k + 1) := by
        rw [hbehind, List.drop_append_of_le_length hk]
      -- The end of the input is behind the lexemes, so there is a lexeme behind the token.
      cases hahead : behind ++ [eof] with
      | nil => exact absurd hahead (List.append_ne_nil_of_right_ne_nil _ (List.cons_ne_nil _ _))
      | cons next tail =>
          have hnext : (lexemes ++ [eof])[k + 1]? = some next := by
            rw [← List.head?_drop, ← hdrop, hahead, List.head?_cons]
          have hprogram := Eager.program_tooDeep hlist hbeyond [eof]
          rw [hahead, ← hinput] at hprogram
          refine Or.inr ⟨eof, k, next, hending, hbefore, hreached, hopened, hnext, ?_⟩
          exact parse_of_grammar (begins_refl _) hprogram

/-- The state of a success. -/
def Outcome.okState? {ε σ α : Type} : EStateM.Result ε σ α → Option σ
  | .ok _ s => some s
  | .error _ _ => none

theorem Outcome.exists_of_okState? {ε σ α : Type} {outcome : EStateM.Result ε σ α} {s : σ}
    (h : okState? outcome = some s) : ∃ a, outcome = .ok a s := by
  cases outcome with
  | ok a t => exact ⟨a, congrArg (EStateM.Result.ok a) (Option.some.inj h)⟩
  | error e t => cases h

/-- Two braces, a hundred signs and twenty-seven parentheses, the last of which
    is open at the end of its line. -/
def loftySource : String :=
  "if(True)\x7bif(True)\x7bx=" ++ String.ofList (List.replicate 100 '-') ++
    String.ofList (List.replicate 27 '(') ++ "\n1" ++ String.ofList (List.replicate 27 ')') ++
    "\x7d\x7d"

/-- In `loftySource`, the last parenthesis is opened where 128 constructs are
    open, and the number behind it is on the second line. -/
theorem nesting_limit_exact_loftySource :
    ∃ lexemes, tokenize loftySource = .ok lexemes ∧ Spells (lexemes.map Lexeme.token) ∧
      ∃ eof k next, openAfter (lexemes.take k) = 128 ∧ openAfter (lexemes.take (k + 1)) = 129 ∧
        (lexemes ++ [eof])[k + 1]? = some next ∧ next.line = 2 ∧
        parse loftySource = .error (.grammar (.nestingTooDeep 128 next.line)) := by
  -- With one more level, the parser gets to the end of the input. All is evaluated at once, because
  -- the source is read each time.
  have hrun : (tokenize loftySource).isOk = true ∧
      (match parse loftySource with
        | .error (.grammar error) => some error
        | _ => none) = some (.nestingTooDeep 128 2) ∧
      (okState? (Eager.statements 130 (Scan.ofSource loftySource).input)).map List.length =
        some 1 := by
    decide +kernel
  rcases hrun with ⟨htokens, hfault, hread⟩
  cases hlexemes : tokenize loftySource with
  | error e =>
      rw [hlexemes] at htokens
      cases htokens
  | ok lexemes =>
      rcases tokenize_eq_ok.mp hlexemes with ⟨eof, hending, _⟩
      have hspells : Spells (lexemes.map Lexeme.token) := by
        rw [input_of_tokenize hlexemes hending] at hread
        rcases Option.map_eq_some_iff.mp hread with ⟨rest, hstate, hrest⟩
        rcases exists_of_okState? hstate with ⟨block, hstatements⟩
        exact spells_of_statements hstatements hrest
      refine ⟨lexemes, rfl, hspells, ?_⟩
      rcases nesting_limit_exact hlexemes hspells with
        ⟨_, block, hparse⟩ | ⟨eof, k, next, _, _, hreached, hopened, hnext, hparse⟩
      · rw [hparse] at hfault
        cases hfault
      · have hline : SyntaxError.nestingTooDeep 128 next.line = .nestingTooDeep 128 2 := by
          rw [hparse] at hfault
          exact Option.some.inj hfault
        injection hline with _ hline
        exact ⟨eof, k, next, hreached, hopened, hnext, hline, hparse⟩

end Scriptlet
