import Scriptlet.Proofs.Grammar.Rules

/-!
# Open Constructs

How many constructs are open at a place of a token list, found by reading the
tokens one by one. Three kinds count: a sign up to the end of its operand, an
expression in parentheses, and a block in braces. The parentheses behind
`print`, `if` and the name of a function are kept too, because they have to be
told from those of expressions when they close, but they do not count.

One token decides what it opens and closes, given what is open and whether an
operand is due. A sign where an operand is due is a prefix, and else it stands
between two operands; a parenthesis where an operand is due opens an expression,
and else it belongs to a statement. What ends an operand ends all the signs
right before it.

On phrases of the grammar this does what it should. Whatever a phrase opens, it
closes, so that what is open behind it is what was open before it; and the
phrases that stand next to each other have the same constructs open around them.

## Main definitions

* `Construct`, `Nesting`: What is open, the innermost first.
* `Nesting.step`, `Nesting.past`: Reading a token, and a list of lexemes.
* `Nesting.depth`: The number of open constructs that count.
* `openAfter`: That number after some lexemes of a program.
* `Nesting.beyond`: What stands behind the first token that goes beyond a limit.
* `Passes`: Lexemes that do not go beyond it.

## Theorems

* `depth_step_le`: A token opens at most one construct.
* `opener_of_some`: Where the first token is that goes beyond a limit.
* `past_factor`, `past_sum`, `past_statement`, `past_list`: Phrases close what
  they open.
-/

namespace Scriptlet

/-- Something that a token opens. -/
inductive Construct where
  /-- A prefix operator, open up to the end of its operand. -/
  | sign
  /-- An expression in parentheses. -/
  | parens
  /-- A block in braces. -/
  | braces
  /-- The parentheses of `print`, `if` and parameter lists. -/
  | heading
  deriving DecidableEq, Repr

/-- Whether a construct counts as a level. -/
def Construct.counts : Construct → Bool
  | .sign | .parens | .braces => true
  | .heading => false

/-- What is open at a place of a token list. -/
structure Nesting where
  /-- The open constructs, the innermost first. -/
  constructs : List Construct
  /-- Whether the next token has to start an operand. -/
  due : Bool
  deriving DecidableEq, Repr

/-- How many of some constructs count. -/
def levelsOf (constructs : List Construct) : Nat := constructs.countP Construct.counts

/-- The open constructs without the signs of an operand that has ended. -/
def settle : List Construct → List Construct
  | .sign :: outer => settle outer
  | constructs => constructs

namespace Nesting

/-- At the front of a program nothing is open. -/
def start : Nesting := { constructs := [], due := false }

/-- Reads a token. -/
def step (s : Nesting) : Token → Nesting
  | .mark .plus | .mark .minus =>
    { constructs := if s.due then .sign :: s.constructs else s.constructs, due := true }
  | .mark .leftParen =>
    { constructs := (if s.due then .parens else .heading) :: s.constructs, due := true }
  | .mark .rightParen => { constructs := settle s.constructs.tail, due := false }
  | .integer _ | .name _ => { constructs := settle s.constructs, due := false }
  | .mark .leftBrace => { constructs := .braces :: s.constructs, due := false }
  | .mark .rightBrace => { constructs := s.constructs.tail, due := false }
  | .mark .equals | .mark .star | .mark .slash | .mark .less | .mark .greater =>
    { s with due := true }
  | _ => { s with due := false }

/-- The tokens that open and close nothing, and that no operand follows. -/
def idle : Token → Bool
  | .string _ | .bool _ | .ty _ | .keyword _ => true
  | .mark .colon | .mark .semicolon | .mark .comma => true
  | _ => false

/-- Reads some lexemes. -/
def past (s : Nesting) (lexemes : List Lexeme) : Nesting :=
  lexemes.foldl (fun s lexeme => s.step lexeme.token) s

/-- The number of open constructs that count. -/
def depth (s : Nesting) : Nat := levelsOf s.constructs

end Nesting

/-- How many signs, parentheses of expressions and braces are open after some
    lexemes of a program. -/
def openAfter (lexemes : List Lexeme) : Nat := (Nesting.start.past lexemes).depth

/-! ### Tokens -/

theorem settle_suffix (constructs : List Construct) : settle constructs <:+ constructs := by
  fun_induction settle constructs with
  | case1 outer ih => exact ih.trans (List.suffix_cons _ outer)
  | case2 constructs => exact List.suffix_refl constructs

theorem levelsOf_le_of_suffix {first second : List Construct} (h : first <:+ second) :
    levelsOf first ≤ levelsOf second :=
  h.sublist.countP_le

theorem levelsOf_cons (construct : Construct) (h : construct.counts = true)
    (constructs : List Construct) : levelsOf (construct :: constructs) = levelsOf constructs + 1 :=
  List.countP_cons_of_pos h

namespace Nesting

theorem depth_mk (constructs : List Construct) (due : Bool) :
    (Nesting.mk constructs due).depth = levelsOf constructs := rfl

/-- A token opens one construct or closes some. -/
theorem step_constructs (s : Nesting) (token : Token) :
    (∃ construct, (s.step token).constructs = construct :: s.constructs) ∨
      (s.step token).constructs <:+ s.constructs := by
  rcases s with ⟨constructs, due⟩
  cases token with
  | integer _ | name _ => exact Or.inr (settle_suffix constructs)
  | string _ | bool _ | ty _ | keyword _ | eof => exact Or.inr (List.suffix_refl constructs)
  | mark mark =>
      cases mark with
      | leftParen | leftBrace => exact Or.inl ⟨_, rfl⟩
      | rightParen =>
          have htail := List.tail_suffix constructs
          exact Or.inr ((settle_suffix constructs.tail).trans htail)
      | rightBrace => exact Or.inr (List.tail_suffix constructs)
      | plus | minus =>
          -- A sign opens something only where an operand is due.
          cases due with
          | true => exact Or.inl ⟨.sign, rfl⟩
          | false => exact Or.inr (List.suffix_refl constructs)
      | _ => exact Or.inr (List.suffix_refl constructs)

theorem depth_step_le (s : Nesting) (token : Token) : (s.step token).depth ≤ s.depth + 1 := by
  rw [depth, depth]
  rcases s.step_constructs token with ⟨construct, hopens⟩ | hcloses
  · rw [hopens, levelsOf, levelsOf, List.countP_cons]
    split <;> omega
  · exact Nat.le_succ_of_le (levelsOf_le_of_suffix hcloses)

theorem past_append (s : Nesting) (first second : List Lexeme) :
    s.past (first ++ second) = (s.past first).past second :=
  List.foldl_append

theorem past_cons (s : Nesting) (lexeme : Lexeme) (rest : List Lexeme) :
    s.past (lexeme :: rest) = (s.step lexeme.token).past rest := rfl

end Nesting

/-! ### The limit -/

/-- What stands behind the first token that opens a construct beyond the limit,
    if there is such a token. -/
def Nesting.beyond (limit : Nat) : Nesting → List Lexeme → Option (List Lexeme)
  | _, [] => none
  | s, lexeme :: rest =>
    if limit < (s.step lexeme.token).depth then some rest
    else (s.step lexeme.token).beyond limit rest

namespace Nesting

variable {limit : Nat} {s : Nesting} {first behind : List Lexeme}

theorem beyond_cons_of_lt {lexeme : Lexeme} (h : limit < (s.step lexeme.token).depth)
    (rest : List Lexeme) : s.beyond limit (lexeme :: rest) = some rest := by
  rw [beyond, if_pos h]

theorem beyond_cons_of_le {lexeme : Lexeme} (h : (s.step lexeme.token).depth ≤ limit)
    (rest : List Lexeme) :
    s.beyond limit (lexeme :: rest) = (s.step lexeme.token).beyond limit rest := by
  rw [beyond, if_neg (Nat.not_lt.mpr h)]

theorem beyond_append_of_none (h : s.beyond limit first = none) (second : List Lexeme) :
    s.beyond limit (first ++ second) = (s.past first).beyond limit second := by
  induction first generalizing s with
  | nil => rfl
  | cons lexeme first ih =>
      rw [beyond] at h
      split at h
      · cases h
      · rename_i hle
        rw [List.cons_append, beyond_cons_of_le (Nat.not_lt.mp hle), ih h, past_cons]

theorem beyond_append_of_some (h : s.beyond limit first = some behind)
    (second : List Lexeme) :
    s.beyond limit (first ++ second) = some (behind ++ second) := by
  induction first generalizing s with
  | nil => cases h
  | cons lexeme first ih =>
      rw [List.cons_append, beyond]
      rw [beyond] at h
      split at h
      · rename_i hlt
        cases h
        rw [if_pos hlt]
      · rename_i hle
        rw [if_neg hle]
        exact ih h

/-- A list stays within the limit if nothing is opened beyond it. -/
theorem depth_le_of_none (hs : s.depth ≤ limit) (h : s.beyond limit first = none) (k : Nat) :
    (s.past (first.take k)).depth ≤ limit := by
  induction first generalizing s k with
  | nil =>
      rw [List.take_nil]
      exact hs
  | cons lexeme first ih =>
      rw [beyond] at h
      split at h
      · cases h
      · rename_i hle
        cases k with
        | zero => exact hs
        | succ k => exact ih (Nat.not_lt.mp hle) h k

/-- The first token that opens a construct beyond the limit does so where the
    limit is reached. -/
theorem opener_of_some (hs : s.depth ≤ limit) (h : s.beyond limit first = some behind) :
    ∃ k < first.length, behind = first.drop (k + 1) ∧
      (∀ j ≤ k, (s.past (first.take j)).depth ≤ limit) ∧
      (s.past (first.take k)).depth = limit ∧ (s.past (first.take (k + 1))).depth = limit + 1 := by
  induction first generalizing s with
  | nil => cases h
  | cons lexeme first ih =>
      rw [beyond] at h
      split at h
      · rename_i hlt
        cases h
        have hstep := s.depth_step_le lexeme.token
        refine ⟨0, Nat.succ_pos _, rfl, fun j hj => ?_, ?_, ?_⟩
        · rw [Nat.le_zero.mp hj]
          exact hs
        · change s.depth = limit
          omega
        · change (s.step lexeme.token).depth = limit + 1
          omega
      · rename_i hle
        rcases ih (Nat.not_lt.mp hle) h with ⟨k, hk, hbehind, hbefore, hreached, hopened⟩
        refine ⟨k + 1, Nat.succ_lt_succ hk, hbehind, fun j hj => ?_, hreached, hopened⟩
        cases j with
        | zero => exact hs
        | succ j => exact hbefore j (Nat.le_of_succ_le_succ hj)

end Nesting

/-- Lexemes lead from one place to another and open nothing beyond the limit. -/
structure Passes (limit : Nat) (s : Nesting) (phrase : List Lexeme) (t : Nesting) : Prop where
  within : s.beyond limit phrase = none
  reaches : s.past phrase = t

section Passes

variable {limit : Nat} {s t : Nesting}

theorem passes_nil : Passes limit s [] s := ⟨rfl, rfl⟩

theorem passes_cons (m : Nesting) {lexeme : Lexeme} {rest : List Lexeme}
    (hstep : s.step lexeme.token = m) (hle : m.depth ≤ limit) (h : Passes limit m rest t) :
    Passes limit s (lexeme :: rest) t := by
  subst hstep
  refine ⟨?_, h.reaches⟩
  rw [Nesting.beyond_cons_of_le hle]
  exact h.within

theorem passes_one {lexeme : Lexeme} (hstep : s.step lexeme.token = t) (hle : t.depth ≤ limit) :
    Passes limit s [lexeme] t :=
  passes_cons t hstep hle passes_nil

theorem passes_append {m : Nesting} {first second : List Lexeme} (hfirst : Passes limit s first m)
    (hsecond : Passes limit m second t) : Passes limit s (first ++ second) t := by
  refine ⟨?_, ?_⟩
  · rw [Nesting.beyond_append_of_none hfirst.within, hfirst.reaches]
    exact hsecond.within
  · rw [Nesting.past_append, hfirst.reaches]
    exact hsecond.reaches

end Passes

/-! ### Phrases -/

namespace Grammar

open Nesting

variable {constructs : List Construct} {due : Bool} {token : Token}

theorem step_integer {value : Int64} (h : token = .integer value) :
    (Nesting.mk constructs due).step token = ⟨settle constructs, false⟩ := by
  rw [h]
  rfl

theorem step_name {name : String} (h : token = .name name) :
    (Nesting.mk constructs due).step token = ⟨settle constructs, false⟩ := by
  rw [h]
  rfl

/-- A name that no sign stands before closes nothing. -/
theorem step_name_settled (due : Bool) {name : String} (hsettled : settle constructs = constructs)
    (h : token = .name name) : (Nesting.mk constructs due).step token = ⟨constructs, false⟩ := by
  rw [step_name h, hsettled]

theorem step_sign {sign : Sign} (h : SignOf token sign) :
    (Nesting.mk constructs true).step token = ⟨.sign :: constructs, true⟩ := by
  cases h with
  | plus => rfl
  | minus => rfl

theorem step_leftParen (constructs : List Construct) (h : token = .mark .leftParen) :
    (Nesting.mk constructs true).step token = ⟨.parens :: constructs, true⟩ := by
  rw [h]
  rfl

theorem step_heading (constructs : List Construct) (h : token = .mark .leftParen) :
    (Nesting.mk constructs false).step token = ⟨.heading :: constructs, true⟩ := by
  rw [h]
  rfl

theorem step_rightParen {construct : Construct} (h : token = .mark .rightParen) :
    (Nesting.mk (construct :: constructs) due).step token = ⟨settle constructs, false⟩ := by
  rw [h]
  rfl

theorem step_leftBrace (constructs : List Construct) (h : token = .mark .leftBrace) :
    (Nesting.mk constructs due).step token = ⟨.braces :: constructs, false⟩ := by
  rw [h]
  rfl

theorem step_rightBrace {construct : Construct} (h : token = .mark .rightBrace) :
    (Nesting.mk (construct :: constructs) due).step token = ⟨constructs, false⟩ := by
  rw [h]
  rfl

theorem step_equals (h : token = .mark .equals) :
    (Nesting.mk constructs due).step token = ⟨constructs, true⟩ := by
  rw [h]
  rfl

theorem step_idle (h : idle token = true) :
    (Nesting.mk constructs due).step token = ⟨constructs, false⟩ := by
  unfold idle at h
  split at h
  all_goals first
    | rfl
    | cases h

theorem step_sumOp {op : ArithOp} (h : SumOp token op) :
    (Nesting.mk constructs false).step token = ⟨constructs, true⟩ := by
  cases h with
  | plus => rfl
  | minus => rfl

theorem step_termOp {op : ArithOp} (h : TermOp token op) :
    (Nesting.mk constructs false).step token = ⟨constructs, true⟩ := by
  cases h with
  | star => rfl
  | slash => rfl

theorem step_orderOf {order : Order} (h : OrderOf token order) :
    (Nesting.mk constructs false).step token = ⟨constructs, true⟩ := by
  cases h with
  | less => rfl
  | greater => rfl

-- By recursion over the derivation. A factor may stand behind signs, which it ends; a term or a sum
-- does not, so it leaves what it found.
mutual

theorem past_factor : ∀ {levels : Nat} {phrase : List Lexeme} {expr : Expr},
    IsFactor levels phrase expr → ∀ constructs : List Construct,
      (Nesting.mk constructs true).past phrase = ⟨settle constructs, false⟩
  | _, _, _, .integer token, constructs => step_integer token
  | _, _, _, .name token, constructs => step_name token
  | _, _, _, .signed token inner, constructs => by
      rw [past_cons, step_sign token, past_factor inner]
      rfl
  | _, _, _, .parens opens inner closes, constructs => by
      rw [past_cons, step_leftParen _ opens, past_append, past_sum inner rfl, past_cons,
        step_rightParen closes]
      rfl

theorem past_term : ∀ {levels : Nat} {phrase : List Lexeme} {expr : Expr},
    IsTerm levels phrase expr → ∀ {constructs : List Construct}, settle constructs = constructs →
      (Nesting.mk constructs true).past phrase = ⟨constructs, false⟩
  | _, _, _, .factor only, constructs, h => by
      rw [past_factor only, h]
  | _, _, _, .more before token last, constructs, h => by
      rw [past_append, past_term before h, past_cons, step_termOp token, past_factor last, h]

theorem past_sum : ∀ {levels : Nat} {phrase : List Lexeme} {expr : Expr},
    IsSum levels phrase expr → ∀ {constructs : List Construct}, settle constructs = constructs →
      (Nesting.mk constructs true).past phrase = ⟨constructs, false⟩
  | _, _, _, .term only, constructs, h => past_term only h
  | _, _, _, .more before token last, constructs, h => by
      rw [past_append, past_sum before h, past_cons, step_sumOp token, past_term last h]

end

section Phrases

variable {levels : Nat} {phrase : List Lexeme} (hsettled : settle constructs = constructs)

include hsettled

theorem past_value {expr : Expr} (h : IsValue levels phrase expr) :
    (Nesting.mk constructs true).past phrase = ⟨constructs, false⟩ := by
  cases h with
  | string token =>
      rw [past_cons, step_idle (by rw [token]; rfl)]
      rfl
  | bool token =>
      rw [past_cons, step_idle (by rw [token]; rfl)]
      rfl
  | sum only => exact past_sum only hsettled

theorem past_side {expr : Expr} (h : IsSide levels phrase expr) :
    (Nesting.mk constructs true).past phrase = ⟨constructs, false⟩ := by
  cases h with
  | bool token =>
      rw [past_cons, step_idle (by rw [token]; rfl)]
      rfl
  | sum only => exact past_sum only hsettled

theorem past_condition {expr : Expr} (h : IsCondition levels phrase expr) :
    (Nesting.mk constructs true).past phrase = ⟨constructs, false⟩ := by
  cases h with
  | bool token =>
      rw [past_cons, step_idle (by rw [token]; rfl)]
      rfl
  | compare side token other =>
      rw [past_append, past_side hsettled side, past_cons, step_orderOf token,
        past_sum other hsettled]

section Parameters

variable {limit : Nat} (hle : levelsOf constructs ≤ limit)

include hle

theorem passes_param {param : Param} (h : IsParam phrase param) (due : Bool) :
    Passes limit ⟨constructs, due⟩ phrase ⟨constructs, false⟩ := by
  cases h with
  | mk named token typed =>
      refine passes_cons _ (step_name_settled due hsettled named) hle ?_
      refine passes_cons _ (step_idle (by rw [token]; rfl)) hle ?_
      exact passes_one (step_idle (by rw [typed]; rfl)) hle

theorem passes_params {params : List Param} (h : IsParams phrase params) (due : Bool) :
    Passes limit ⟨constructs, due⟩ phrase ⟨constructs, false⟩ := by
  induction h with
  | single only => exact passes_param hsettled hle only due
  | more before token last ih =>
      refine passes_append ih (passes_cons _ (step_idle (by rw [token]; rfl)) hle ?_)
      exact passes_param hsettled hle last false

/-- Parameters open nothing. Behind them no operand is due, unless there are
    none. -/
theorem passes_signature {params : List Param} (h : IsSignature phrase params) :
    ∃ due, Passes limit ⟨constructs, true⟩ phrase ⟨constructs, due⟩ := by
  cases h with
  | nothing => exact ⟨true, passes_nil⟩
  | params some => exact ⟨false, passes_params hsettled hle some true⟩

end Parameters

end Phrases

mutual

theorem past_statement : ∀ {levels : Nat} {phrase : List Lexeme} {found : Statement},
    IsStatement levels phrase found → ∀ {constructs : List Construct},
      settle constructs = constructs →
      (Nesting.mk constructs false).past phrase = ⟨constructs, false⟩
  | _, _, _, .declare named separates typed token valued, constructs, h => by
      rw [past_cons, step_name_settled false h named, past_cons,
        step_idle (by rw [separates]; rfl), past_cons, step_idle (by rw [typed]; rfl), past_cons,
        step_equals token, past_value h valued]
  | _, _, _, .assign named token valued, constructs, h => by
      rw [past_cons, step_name_settled false h named, past_cons, step_equals token,
        past_value h valued]
  | _, _, _, .print token opens valued closes, constructs, h => by
      rw [past_cons, step_idle (by rw [token]; rfl), past_cons, step_heading _ opens, past_append,
        past_value rfl valued, past_cons, step_rightParen closes, h]
      rfl
  | _, _, _, .branch token opens decides closes block, constructs, h => by
      rw [past_cons, step_idle (by rw [token]; rfl), past_cons, step_heading _ opens, past_append,
        past_condition rfl decides, past_cons, step_rightParen closes, h, past_braced block]
  | _, _, _, .choice token opens decides closes block otherwise other, constructs, h => by
      rw [past_cons, step_idle (by rw [token]; rfl), past_cons, step_heading _ opens, past_append,
        past_condition rfl decides, past_cons, step_rightParen closes, h, past_append,
        past_braced block, past_cons, step_idle (by rw [otherwise]; rfl), past_braced other]
  | _, _, _, .function token named opens declares closes block, constructs, h => by
      have hheading : settle (.heading :: constructs) = .heading :: constructs := rfl
      rcases passes_signature hheading (Nat.le_refl _) declares with ⟨due, hpass⟩
      rw [past_cons, step_idle (by rw [token]; rfl), past_cons,
        step_name_settled false h named, past_cons, step_heading _ opens, past_append,
        hpass.reaches, past_cons, step_rightParen closes, h, past_braced block]
  | _, _, _, .empty, constructs, h => rfl

theorem past_list : ∀ {levels : Nat} {phrase : List Lexeme} {items : List Statement},
    IsList levels phrase items → ∀ {constructs : List Construct},
      settle constructs = constructs →
      (Nesting.mk constructs false).past phrase = ⟨constructs, false⟩
  | _, _, _, .single only, constructs, h => past_statement only h
  | _, _, _, .separated before token last, constructs, h => by
      rw [past_append, past_list before h, past_cons, step_idle (by rw [token]; rfl),
        past_statement last h]
  | _, _, _, .adjacent before behind closed starts last, constructs, h => by
      rw [past_append, past_list before h, past_statement last h]

theorem past_braced : ∀ {levels : Nat} {phrase : List Lexeme} {found : Block},
    IsBraced levels phrase found → ∀ {constructs : List Construct},
      (Nesting.mk constructs false).past phrase = ⟨constructs, false⟩
  | _, _, _, .mk opens inner closes, constructs => by
      rw [past_cons, step_leftBrace _ opens, past_append, past_list inner rfl, past_cons,
        step_rightBrace closes]
      rfl

end

end Grammar

end Scriptlet
