import Scriptlet.Proofs.Grammar.Reading
import Scriptlet.Proofs.Grammar.Rules

/-!
# Expressions are Read by the Grammar

The parsers of expressions agree with the rules. What such a parser consumes is
a phrase for the tree it gives; and where a phrase stands, followed by a lexeme
that cannot continue it, the parser consumes exactly that phrase and gives its
tree. A lexeme that would continue a phrase is an operator, so one lexeme of
lookahead is all that the second half asks for.

The first half is by induction on the levels, the second by induction on the
phrase.

## Main definitions

* `Below`: The rule for one level further in.

## Theorems

* `reads_factor`, `reads_sum`, `reads_value`, `reads_condition`: Parsers consume
  phrases.
* `factor_of_phrase`, `sum_of_phrase`, `value_of_phrase`,
  `condition_of_phrase`: Parsers accept phrases.
-/

namespace Scriptlet

open Outcome Grammar

theorem Token.additive?_eq_some {token : Token} {op : ArithOp} :
    token.additive? = some op ↔ SumOp token op := by
  constructor
  · intro h
    unfold Token.additive? at h
    split at h
    · cases h
      exact .plus
    · cases h
      exact .minus
    · cases h
  · rintro (_ | _)
    · rfl
    · rfl

theorem Token.multiplicative?_eq_some {token : Token} {op : ArithOp} :
    token.multiplicative? = some op ↔ TermOp token op := by
  constructor
  · intro h
    unfold Token.multiplicative? at h
    split at h
    · cases h
      exact .star
    · cases h
      exact .slash
    · cases h
  · rintro (_ | _)
    · rfl
    · rfl

theorem Token.order?_eq_some {token : Token} {order : Order} :
    token.order? = some order ↔ OrderOf token order := by
  constructor
  · intro h
    unfold Token.order? at h
    split at h
    · cases h
      exact .less
    · cases h
      exact .greater
    · cases h
  · rintro (_ | _)
    · rfl
    · rfl

namespace Grammar

/-- What a rule allows one level further in. Without a level there is
    nothing. -/
def Below {α : Type} (G : Nat → List Lexeme → α → Prop) : Nat → List Lexeme → α → Prop
  | 0 => fun _ _ => False
  | levels + 1 => G levels

end Grammar

namespace Eager

/-! ### Chains of operands -/

section Chains

variable {operand : Eager Expr} {op? : Token → Option ArithOp} {left : Expr}
  {lexemes rest : List Lexeme}

theorem chainStep_eq_some {expr : Expr} :
    chainStep operand op? left lexemes = .ok (some expr) rest ↔
      ∃ lexeme tail op right, lexemes = lexeme :: tail ∧ op? lexeme.token = some op ∧
        operand tail = .ok right rest ∧ expr = .arith op left right lexeme.line := by
  constructor
  · intro h
    rcases peek_bind_eq_ok.mp h with ⟨lexeme, tail, rfl, hmatch⟩
    cases hop : op? lexeme.token with
    | none =>
        rw [hop] at hmatch
        cases hmatch
    | some op =>
        rw [hop] at hmatch
        rcases bind_eq_ok.mp (advance_bind_eq_ok.mp hmatch) with ⟨right, mid, hright, hend⟩
        cases hend
        exact ⟨lexeme, tail, op, right, rfl, hop, hright, rfl⟩
  · rintro ⟨lexeme, tail, op, right, rfl, hop, hright, rfl⟩
    refine peek_bind_eq_ok.mpr ⟨lexeme, tail, rfl, ?_⟩
    rw [hop]
    exact advance_bind_eq_ok.mpr (bind_eq_ok.mpr ⟨right, rest, hright, rfl⟩)

theorem chainStep_eq_none :
    chainStep operand op? left lexemes = .ok none rest ↔
      ∃ lexeme tail, lexemes = lexeme :: tail ∧ op? lexeme.token = none ∧ rest = lexemes := by
  constructor
  · intro h
    rcases peek_bind_eq_ok.mp h with ⟨lexeme, tail, rfl, hmatch⟩
    cases hop : op? lexeme.token with
    | none =>
        rw [hop] at hmatch
        cases hmatch
        exact ⟨lexeme, tail, rfl, hop, rfl⟩
    | some op =>
        rw [hop] at hmatch
        rcases bind_eq_ok.mp (advance_bind_eq_ok.mp hmatch) with ⟨right, mid, _, hend⟩
        cases hend
  · rintro ⟨lexeme, tail, rfl, hop, rfl⟩
    refine peek_bind_eq_ok.mpr ⟨lexeme, tail, rfl, ?_⟩
    rw [hop]
    rfl

/-- An operator and one more operand add to a chain. -/
theorem extends_chainStep {G H : List Lexeme → Expr → Prop} (hoperand : Reads G operand)
    (hmore : ∀ first second lexeme op left right, H first left → op? lexeme.token = some op →
      G second right → H (first ++ lexeme :: second) (.arith op left right lexeme.line)) :
    Extends H (chainStep operand op?) := by
  intro phrase left next lexemes rest hH hstep
  rcases chainStep_eq_some.mp hstep with ⟨lexeme, tail, op, right, rfl, hop, hright, rfl⟩
  rcases hoperand tail right rest hright with ⟨second, rfl, hG⟩
  exact ⟨lexeme :: second, rfl, hmore phrase second lexeme op left right hH hop hG⟩

/-- A chain consumes what its operands make, grouped from the left. -/
theorem reads_chainLeft {G H : List Lexeme → Expr → Prop} (hoperand : Reads G operand)
    (hfirst : ∀ phrase expr, G phrase expr → H phrase expr)
    (hmore : ∀ first second lexeme op left right, H first left → op? lexeme.token = some op →
      G second right → H (first ++ lexeme :: second) (.arith op left right lexeme.line)) :
    Reads H (chainLeft operand op?) := by
  refine reads_iterate id ?_ (extends_chainStep hoperand hmore) ?_
  · intro lexemes expr rest h
    rcases hoperand lexemes expr rest h with ⟨phrase, hphrase, hG⟩
    exact ⟨phrase, hphrase, hfirst phrase expr hG⟩
  · intro left lexemes rest hstep
    rcases chainStep_eq_none.mp hstep with ⟨_, _, _, _, hrest⟩
    exact hrest

end Chains

/-! ### Parsers consume phrases -/

theorem reads_sum {levels : Nat} {inner : Eager Expr} (h : Reads (IsFactor levels) inner) :
    Reads (IsSum levels) (sum inner) := by
  refine reads_chainLeft (G := IsTerm levels) ?_ (fun _ _ => .term) ?_
  -- A sum is a chain of terms, and a term a chain of factors.
  · refine reads_chainLeft h (fun _ _ => .factor) ?_
    intro first second lexeme op left right hfirst hop hsecond
    exact .more hfirst (Token.multiplicative?_eq_some.mp hop) hsecond
  · intro first second lexeme op left right hfirst hop hsecond
    exact .more hfirst (Token.additive?_eq_some.mp hop) hsecond

/-- A parser that never succeeds is no way into a chain. -/
theorem reads_sum_none {inner : Eager Expr} (h : Reads (fun _ _ => False) inner) :
    Reads (fun _ _ => False) (sum inner) := by
  refine reads_chainLeft (G := fun _ _ => False) ?_ (fun _ _ => id) ?_
  · exact reads_chainLeft h (fun _ _ => id) fun _ _ _ _ _ _ hfirst _ _ => hfirst
  · exact fun _ _ _ _ _ _ hfirst _ _ => hfirst

theorem reads_sum_below {levels : Nat} {inner : Eager Expr}
    (h : Reads (Below IsFactor levels) inner) : Reads (Below IsSum levels) (sum inner) := by
  cases levels with
  | zero => exact reads_sum_none h
  | succ levels => exact reads_sum h

/-- A sign and what stands behind it. -/
theorem signed_of_below {levels : Nat} {lexeme : Lexeme} {sign : Sign} {phrase : List Lexeme}
    {operand : Expr} (token : SignOf lexeme.token sign)
    (inner : Below IsFactor levels phrase operand) :
    IsFactor levels (lexeme :: phrase) (.signed sign operand lexeme.line) := by
  cases levels with
  | zero => exact inner.elim
  | succ levels => exact .signed token inner

theorem parens_of_below {levels : Nat} {opening closing : Lexeme} {phrase : List Lexeme}
    {expr : Expr} (opens : opening.token = .mark .leftParen)
    (inner : Below IsSum levels phrase expr) (closes : closing.token = .mark .rightParen) :
    IsFactor levels (opening :: (phrase ++ [closing])) expr := by
  cases levels with
  | zero => exact inner.elim
  | succ levels => exact .parens opens inner closes

theorem reads_factorWith {levels : Nat} {inner : Eager Expr}
    (h : Reads (Below IsFactor levels) inner) : Reads (IsFactor levels) (factorWith inner) := by
  intro lexemes expr rest hok
  rcases peek_bind_eq_ok.mp hok with ⟨lexeme, tail, rfl, hmatch⟩
  cases htoken : lexeme.token with
  | integer value =>
      rw [htoken] at hmatch
      cases hmatch
      exact ⟨[lexeme], rfl, .integer htoken⟩
  | name name =>
      rw [htoken] at hmatch
      cases hmatch
      exact ⟨[lexeme], rfl, .name htoken⟩
  | mark mark =>
      rw [htoken] at hmatch
      cases mark with
      -- Signs and parentheses are read one level further in.
      | plus =>
          rcases bind_eq_ok.mp (advance_bind_eq_ok.mp hmatch) with ⟨operand, mid, hoperand, hend⟩
          cases hend
          rcases h tail operand rest hoperand with ⟨phrase, rfl, hphrase⟩
          exact ⟨lexeme :: phrase, rfl, signed_of_below (htoken ▸ .plus) hphrase⟩
      | minus =>
          rcases bind_eq_ok.mp (advance_bind_eq_ok.mp hmatch) with ⟨operand, mid, hoperand, hend⟩
          cases hend
          rcases h tail operand rest hoperand with ⟨phrase, rfl, hphrase⟩
          exact ⟨lexeme :: phrase, rfl, signed_of_below (htoken ▸ .minus) hphrase⟩
      | leftParen =>
          rcases bind_eq_ok.mp (advance_bind_eq_ok.mp hmatch) with ⟨inside, mid, hinside, hmatch⟩
          rcases bind_eq_ok.mp hmatch with ⟨closing, after, hclosing, hend⟩
          cases hend
          rcases eat_eq_ok.mp hclosing with ⟨rfl, hkind⟩
          rcases reads_sum_below h tail expr _ hinside with ⟨phrase, rfl, hphrase⟩
          refine ⟨lexeme :: (phrase ++ [closing]), ?_,
            parens_of_below htoken hphrase (Token.kind_eq_mark.mp hkind)⟩
          rw [List.cons_append, List.append_assoc, List.singleton_append]
      | _ => exact absurd hmatch unexpected_ne_ok
  | _ =>
      rw [htoken] at hmatch
      exact absurd hmatch unexpected_ne_ok

/-- With some levels to spend, its own among them, the parser of factors
    consumes factors that leave one less. -/
theorem reads_factor (levels : Nat) : Reads (Below IsFactor levels) (factor levels) := by
  induction levels with
  | zero => exact fun lexemes expr rest h => absurd h tooDeep_ne_ok
  | succ levels ih => exact reads_factorWith ih

theorem reads_value {levels : Nat} {inner : Eager Expr} (h : Reads (IsFactor levels) inner) :
    Reads (IsValue levels) (value inner) := by
  intro lexemes expr rest hok
  rcases peek_bind_eq_ok.mp hok with ⟨lexeme, tail, rfl, hmatch⟩
  cases htoken : lexeme.token with
  | string content =>
      rw [htoken] at hmatch
      cases hmatch
      exact ⟨[lexeme], rfl, .string htoken⟩
  | bool flag =>
      rw [htoken] at hmatch
      cases hmatch
      exact ⟨[lexeme], rfl, .bool htoken⟩
  | _ =>
      rw [htoken] at hmatch
      rcases reads_sum h _ _ _ hmatch with ⟨phrase, hphrase, hsum⟩
      exact ⟨phrase, hphrase, .sum hsum⟩

theorem reads_comparison {levels : Nat} {inner : Eager Expr} {left expr : Expr}
    {lexemes rest first : List Lexeme} (h : Reads (IsFactor levels) inner)
    (hleft : IsSide levels first left) (hok : comparison inner left lexemes = .ok expr rest) :
    ∃ phrase, lexemes = phrase ++ rest ∧ IsCondition levels (first ++ phrase) expr := by
  rcases peek_bind_eq_ok.mp hok with ⟨lexeme, tail, rfl, hmatch⟩
  cases horder : lexeme.token.order? with
  | none =>
      rw [horder] at hmatch
      exact absurd hmatch unexpected_ne_ok
  | some order =>
      rw [horder] at hmatch
      rcases bind_eq_ok.mp (advance_bind_eq_ok.mp hmatch) with ⟨right, mid, hright, hend⟩
      cases hend
      rcases reads_sum h tail right rest hright with ⟨second, rfl, hsecond⟩
      exact ⟨lexeme :: second, rfl, .compare hleft (Token.order?_eq_some.mp horder) hsecond⟩

theorem reads_condition {levels : Nat} {inner : Eager Expr} (h : Reads (IsFactor levels) inner) :
    Reads (IsCondition levels) (condition inner) := by
  intro lexemes expr rest hok
  rcases peek_bind_eq_ok.mp hok with ⟨lexeme, tail, rfl, hmatch⟩
  cases htoken : lexeme.token with
  | bool flag =>
      rw [htoken] at hmatch
      rcases peek_bind_eq_ok.mp (advance_bind_eq_ok.mp hmatch) with ⟨ahead, tail', rfl, hnext⟩
      cases horder : ahead.token.order? with
      | none =>
          rw [horder] at hnext
          cases hnext
          exact ⟨[lexeme], rfl, .bool htoken⟩
      | some order =>
          rw [horder] at hnext
          rcases reads_comparison h (.bool htoken) hnext with ⟨phrase, hphrase, hcondition⟩
          rw [hphrase]
          exact ⟨lexeme :: phrase, rfl, hcondition⟩
  | _ =>
      rw [htoken] at hmatch
      rcases bind_eq_ok.mp hmatch with ⟨left, mid, hleft, hmatch⟩
      rcases reads_sum h _ left mid hleft with ⟨first, hfirst, hsum⟩
      rcases reads_comparison h (.sum hsum) hmatch with ⟨phrase, hphrase, hcondition⟩
      refine ⟨first ++ phrase, ?_, hcondition⟩
      rw [hfirst, hphrase, List.append_assoc]

/-! ### Parsers accept phrases -/

/-- A token that continues no sum. -/
def EndsSum (token : Token) : Prop := token.additive? = none ∧ token.multiplicative? = none

theorem not_multiplicative_of_sumOp {token : Token} {op : ArithOp} (h : SumOp token op) :
    token.multiplicative? = none := by
  cases h with
  | plus => rfl
  | minus => rfl

/-- A chain that has got as far as a lexeme that is no operator ends there. -/
theorem chainLeft_of_continues {operand : Eager Expr} {op? : Token → Option ArithOp}
    {lexemes rest : List Lexeme} {expr : Expr} {next : Lexeme}
    (h : Continues (chainStep operand op?) (chainLeft operand op? lexemes) expr (next :: rest))
    (hnext : op? next.token = none) : chainLeft operand op? lexemes = .ok expr (next :: rest) :=
  continues_stop h (chainStep_eq_none.mpr ⟨next, rest, rfl, hnext, rfl⟩)

/-- The first operand of a chain gets it started. -/
theorem continues_chainLeft {operand : Eager Expr} {op? : Token → Option ArithOp}
    {lexemes rest : List Lexeme} {expr : Expr} (h : operand lexemes = .ok expr rest) :
    Continues (chainStep operand op?) (chainLeft operand op? lexemes) expr rest := by
  rw [chainLeft, bind_of_ok h]
  exact continues_iterate _ expr rest

/-- An operator and one more operand get it further. -/
theorem continues_operand {operand : Eager Expr} {op? : Token → Option ArithOp}
    {outcome : EStateM.Result Stop (List Lexeme) Expr} {second rest : List Lexeme}
    {lexeme : Lexeme} {op : ArithOp} {left right : Expr}
    (h : Continues (chainStep operand op?) outcome left (lexeme :: (second ++ rest)))
    (hop : op? lexeme.token = some op) (hright : operand (second ++ rest) = .ok right rest) :
    Continues (chainStep operand op?) outcome (.arith op left right lexeme.line) rest := by
  refine continues_step h (chainStep_eq_some.mpr ⟨lexeme, _, op, right, rfl, hop, hright, rfl⟩) ?_
  exact length_lt_of_phrase lexeme second rest

theorem factorWith_signed {inner : Eager Expr} {lexeme : Lexeme} {sign : Sign}
    {tail rest : List Lexeme} {operand : Expr} (token : SignOf lexeme.token sign)
    (h : inner tail = .ok operand rest) :
    factorWith inner (lexeme :: tail) = .ok (.signed sign operand lexeme.line) rest := by
  refine peek_bind_eq_ok.mpr ⟨lexeme, tail, rfl, ?_⟩
  generalize lexeme.token = ahead at token
  cases token with
  | plus => exact advance_bind_eq_ok.mpr (bind_eq_ok.mpr ⟨operand, rest, h, rfl⟩)
  | minus => exact advance_bind_eq_ok.mpr (bind_eq_ok.mpr ⟨operand, rest, h, rfl⟩)

theorem factorWith_parens {inner : Eager Expr} {opening closing : Lexeme}
    {tail rest : List Lexeme} {expr : Expr} (opens : opening.token = .mark .leftParen)
    (h : sum inner tail = .ok expr (closing :: rest))
    (closes : closing.token = .mark .rightParen) :
    factorWith inner (opening :: tail) = .ok expr rest := by
  refine peek_bind_eq_ok.mpr ⟨opening, tail, rfl, ?_⟩
  rw [opens]
  refine advance_bind_eq_ok.mpr (bind_eq_ok.mpr ⟨expr, _, h, ?_⟩)
  exact bind_eq_ok.mpr ⟨closing, rest, eat_eq_ok.mpr ⟨rfl, Token.kind_eq_mark.mpr closes⟩, rfl⟩

-- By recursion over the derivation. Terms and sums recur on their left, so the left phrase gets a
-- chain started, and the operator and the operand behind it are one more step.
mutual

theorem factor_of_phrase : ∀ {levels : Nat} {phrase : List Lexeme} {expr : Expr},
    IsFactor levels phrase expr → ∀ rest : List Lexeme,
      factor (levels + 1) (phrase ++ rest) = .ok expr rest
  | levels, _, _, .integer token, rest => by
      refine peek_bind_eq_ok.mpr ⟨_, rest, rfl, ?_⟩
      rw [token]
      rfl
  | levels, _, _, .name token, rest => by
      refine peek_bind_eq_ok.mpr ⟨_, rest, rfl, ?_⟩
      rw [token]
      rfl
  | _ + 1, _, _, .signed token inner, rest =>
      factorWith_signed token (factor_of_phrase inner rest)
  | _ + 1, _, _, .parens opens inner closes, rest => by
      rw [List.cons_append, List.append_assoc, List.singleton_append]
      refine factorWith_parens opens ?_ closes
      refine chainLeft_of_continues (continues_of_sum inner _ rest ?_) ?_
      · rw [closes]
        rfl
      · rw [closes]
        rfl

theorem continues_of_term : ∀ {levels : Nat} {phrase : List Lexeme} {expr : Expr},
    IsTerm levels phrase expr → ∀ rest : List Lexeme,
      Continues (chainStep (factor (levels + 1)) Token.multiplicative?)
        (chainLeft (factor (levels + 1)) Token.multiplicative? (phrase ++ rest)) expr rest
  | _, _, _, .factor only, rest => continues_chainLeft (factor_of_phrase only rest)
  | levels, _, _, .more before token last, rest => by
      rw [append_cons_append]
      exact continues_operand (continues_of_term before _) (Token.multiplicative?_eq_some.mpr token)
        (factor_of_phrase last rest)

theorem continues_of_sum : ∀ {levels : Nat} {phrase : List Lexeme} {expr : Expr},
    IsSum levels phrase expr → ∀ (next : Lexeme) (rest : List Lexeme),
      next.token.multiplicative? = none →
      Continues (chainStep (chainLeft (factor (levels + 1)) Token.multiplicative?) Token.additive?)
        (sum (factor (levels + 1)) (phrase ++ next :: rest)) expr (next :: rest)
  | _, _, _, .term only, next, rest, hnext =>
      continues_chainLeft (chainLeft_of_continues (continues_of_term only _) hnext)
  | _, _, _, .more before token last, next, rest, hnext => by
      rw [append_cons_append]
      refine continues_operand
        (continues_of_sum before _ _ (not_multiplicative_of_sumOp token))
        (Token.additive?_eq_some.mpr token) ?_
      exact chainLeft_of_continues (continues_of_term last _) hnext

end

section Phrases

variable {levels : Nat} {phrase : List Lexeme} {expr : Expr} {next : Lexeme} (rest : List Lexeme)

theorem sum_of_phrase (h : IsSum levels phrase expr) (hnext : EndsSum next.token) :
    sum (factor (levels + 1)) (phrase ++ next :: rest) = .ok expr (next :: rest) :=
  chainLeft_of_continues (continues_of_sum h next rest hnext.2) hnext.1

/-- A sum starts with a lexeme that is no literal. -/
theorem head_of_sum {lexemes : List Lexeme} {inner : Eager Expr}
    (h : sum (factorWith inner) lexemes = .ok expr rest) :
    ∃ lexeme tail, lexemes = lexeme :: tail ∧ (∀ content, lexeme.token ≠ .string content) ∧
      ∀ flag, lexeme.token ≠ .bool flag := by
  rcases bind_eq_ok.mp h with ⟨term, _, hterm, _⟩
  rcases bind_eq_ok.mp hterm with ⟨first, _, hfirst, _⟩
  rcases peek_bind_eq_ok.mp hfirst with ⟨lexeme, tail, rfl, hmatch⟩
  refine ⟨lexeme, tail, rfl, fun content htoken => ?_, fun flag htoken => ?_⟩
  · rw [htoken] at hmatch
    exact unexpected_ne_ok hmatch
  · rw [htoken] at hmatch
    exact unexpected_ne_ok hmatch

theorem value_of_phrase (h : IsValue levels phrase expr) (hnext : EndsSum next.token) :
    value (factor (levels + 1)) (phrase ++ next :: rest) = .ok expr (next :: rest) := by
  cases h with
  | string token =>
      refine peek_bind_eq_ok.mpr ⟨_, next :: rest, rfl, ?_⟩
      rw [token]
      rfl
  | bool token =>
      refine peek_bind_eq_ok.mpr ⟨_, next :: rest, rfl, ?_⟩
      rw [token]
      rfl
  | sum only =>
      -- A sum starts with no literal, so it is not taken for one.
      have hsum := sum_of_phrase rest only hnext
      rcases head_of_sum _ hsum with ⟨lexeme, tail, hlist, hstring, hbool⟩
      rw [hlist] at hsum ⊢
      refine peek_bind_eq_ok.mpr ⟨lexeme, tail, rfl, ?_⟩
      cases htoken : lexeme.token with
      | string content => exact absurd htoken (hstring content)
      | bool flag => exact absurd htoken (hbool flag)
      | _ => exact hsum

theorem comparison_of_phrase (left : Expr) {right : Expr} {lexeme : Lexeme} {order : Order}
    (token : OrderOf lexeme.token order) (h : IsSum levels phrase right)
    (hnext : EndsSum next.token) :
    comparison (factor (levels + 1)) left (lexeme :: (phrase ++ next :: rest)) =
      .ok (.compare order left right lexeme.line) (next :: rest) := by
  refine peek_bind_eq_ok.mpr ⟨lexeme, _, rfl, ?_⟩
  rw [Token.order?_eq_some.mpr token]
  exact advance_bind_eq_ok.mpr (bind_eq_ok.mpr ⟨right, _, sum_of_phrase rest h hnext, rfl⟩)

theorem endsSum_of_orderOf {token : Token} {order : Order} (h : OrderOf token order) :
    EndsSum token := by
  cases h with
  | less => exact ⟨rfl, rfl⟩
  | greater => exact ⟨rfl, rfl⟩

theorem condition_of_phrase (h : IsCondition levels phrase expr) (hnext : EndsSum next.token)
    (horder : next.token.order? = none) :
    condition (factor (levels + 1)) (phrase ++ next :: rest) = .ok expr (next :: rest) := by
  cases h with
  | bool token =>
      refine peek_bind_eq_ok.mpr ⟨_, next :: rest, rfl, ?_⟩
      rw [token]
      -- No comparison follows, so the truth value stands alone.
      refine advance_bind_eq_ok.mpr (peek_bind_eq_ok.mpr ⟨next, rest, rfl, ?_⟩)
      rw [horder]
      rfl
  | @compare first second lexeme order left right side token other =>
      have hcompare := comparison_of_phrase rest left token other hnext
      rw [append_cons_append]
      cases side with
      | bool flagged =>
          refine peek_bind_eq_ok.mpr ⟨_, _, rfl, ?_⟩
          rw [flagged]
          -- A comparison follows, so the truth value is its left side.
          refine advance_bind_eq_ok.mpr (peek_bind_eq_ok.mpr ⟨lexeme, _, rfl, ?_⟩)
          rw [Token.order?_eq_some.mpr token]
          exact hcompare
      | sum only =>
          have hsum := sum_of_phrase (second ++ next :: rest) only (endsSum_of_orderOf token)
          rcases head_of_sum _ hsum with ⟨ahead, tail, hlist, _, hbool⟩
          rw [hlist] at hsum ⊢
          refine peek_bind_eq_ok.mpr ⟨ahead, tail, rfl, ?_⟩
          cases htoken : ahead.token with
          | bool flag => exact absurd htoken (hbool flag)
          | _ => exact bind_eq_ok.mpr ⟨left, _, hsum, hcompare⟩

end Phrases

end Eager

end Scriptlet
