import Scriptlet.Proofs.Grammar.Rules

/-!
# What the Grammar Leaves Open

Whether lexemes are a program does not depend on where they were found: other
lexemes with the same tokens are a program too, with other lines in its tree.
Nor does it count against them if more levels may be opened: what is allowed
with some levels is allowed with more.

So it can be said of tokens alone that they are a program, without a place for
each of them and without a limit on how deep they nest.

## Main definitions

* `Phrases`: The phrases of a rule.
* `SameTokens`: Lexemes with the same tokens, be it in other places.
* `Spells`: Tokens are a program, however deep it nests.
* `lexemeOf`: A lexeme of a token.

## Theorems

* `list_of_le`: More levels allow all that fewer do.
* `list_of_sameTokens`: Places do not matter.
* `spells_iff`: Tokens are a program if any lexemes with them are.
-/

namespace Scriptlet.Grammar

/-! ### More levels -/

-- By recursion over the derivation. The rules that spend a level have one to spend on both sides.
mutual

theorem factor_of_le : ∀ {levels levels' : Nat} {phrase : List Lexeme} {expr : Expr},
    IsFactor levels phrase expr → levels ≤ levels' → IsFactor levels' phrase expr
  | _, _, _, _, .integer token, _ => .integer token
  | _, _, _, _, .name token, _ => .name token
  | _ + 1, _ + 1, _, _, .signed token inner, h =>
      .signed token (factor_of_le inner (Nat.le_of_succ_le_succ h))
  | _ + 1, _ + 1, _, _, .parens opens inner closes, h =>
      .parens opens (sum_of_le inner (Nat.le_of_succ_le_succ h)) closes

theorem term_of_le : ∀ {levels levels' : Nat} {phrase : List Lexeme} {expr : Expr},
    IsTerm levels phrase expr → levels ≤ levels' → IsTerm levels' phrase expr
  | _, _, _, _, .factor only, h => .factor (factor_of_le only h)
  | _, _, _, _, .more before token last, h =>
      .more (term_of_le before h) token (factor_of_le last h)

theorem sum_of_le : ∀ {levels levels' : Nat} {phrase : List Lexeme} {expr : Expr},
    IsSum levels phrase expr → levels ≤ levels' → IsSum levels' phrase expr
  | _, _, _, _, .term only, h => .term (term_of_le only h)
  | _, _, _, _, .more before token last, h => .more (sum_of_le before h) token (term_of_le last h)

end

section Phrases

variable {levels levels' : Nat} {phrase : List Lexeme} {expr : Expr} (hle : levels ≤ levels')

include hle

theorem value_of_le (h : IsValue levels phrase expr) : IsValue levels' phrase expr := by
  cases h with
  | string token => exact .string token
  | bool token => exact .bool token
  | sum only => exact .sum (sum_of_le only hle)

theorem condition_of_le (h : IsCondition levels phrase expr) : IsCondition levels' phrase expr := by
  cases h with
  | bool token => exact .bool token
  | compare side token other =>
      cases side with
      | bool flagged => exact .compare (.bool flagged) token (sum_of_le other hle)
      | sum only => exact .compare (.sum (sum_of_le only hle)) token (sum_of_le other hle)

end Phrases

mutual

theorem statement_of_le : ∀ {levels levels' : Nat} {phrase : List Lexeme} {found : Statement},
    IsStatement levels phrase found → levels ≤ levels' → IsStatement levels' phrase found
  | _, _, _, _, .declare named separates typed token valued, h =>
      .declare named separates typed token (value_of_le h valued)
  | _, _, _, _, .assign named token valued, h => .assign named token (value_of_le h valued)
  | _, _, _, _, .print token opens valued closes, h =>
      .print token opens (value_of_le h valued) closes
  | _, _, _, _, .branch token opens decides closes block, h =>
      .branch token opens (condition_of_le h decides) closes (braced_of_le block h)
  | _, _, _, _, .choice token opens decides closes block otherwise other, h =>
      .choice token opens (condition_of_le h decides) closes (braced_of_le block h) otherwise
        (braced_of_le other h)
  | _, _, _, _, .function token named opens declares closes block, h =>
      .function token named opens declares closes (braced_of_le block h)
  | _, _, _, _, .empty, _ => .empty

theorem list_of_le : ∀ {levels levels' : Nat} {phrase : List Lexeme} {items : List Statement},
    IsList levels phrase items → levels ≤ levels' → IsList levels' phrase items
  | _, _, _, _, .single only, h => .single (statement_of_le only h)
  | _, _, _, _, .separated before token last, h =>
      .separated (list_of_le before h) token (statement_of_le last h)
  | _, _, _, _, .adjacent before behind closed starts last, h =>
      .adjacent (list_of_le before h) behind closed starts (statement_of_le last h)

theorem braced_of_le : ∀ {levels levels' : Nat} {phrase : List Lexeme} {found : Block},
    IsBraced levels phrase found → levels ≤ levels' → IsBraced levels' phrase found
  | _ + 1, _ + 1, _, _, .mk opens inner closes, h =>
      .mk opens (list_of_le inner (Nat.le_of_succ_le_succ h)) closes

end

/-! ### Other places -/

/-- The phrases of a rule, for whatever they stand for. -/
def Phrases {α : Type} (G : List Lexeme → α → Prop) (phrase : List Lexeme) : Prop :=
  ∃ a, G phrase a

/-- Lexeme by lexeme, two lists have the same tokens. -/
inductive SameTokens : List Lexeme → List Lexeme → Prop where
  | nil : SameTokens [] []
  | cons {a b : Lexeme} {first second : List Lexeme} (token : b.token = a.token)
      (tail : SameTokens first second) : SameTokens (a :: first) (b :: second)

theorem sameTokens_of_map {first second : List Lexeme}
    (h : second.map Lexeme.token = first.map Lexeme.token) : SameTokens first second := by
  induction first generalizing second with
  | nil =>
      rw [List.map_eq_nil_iff.mp h]
      exact .nil
  | cons lexeme first ih =>
      rcases List.map_eq_cons_iff.mp h with ⟨lexeme', second, rfl, htoken, htail⟩
      exact .cons htoken (ih htail)

/-- Where a phrase has two parts, so has one with the same tokens. -/
theorem sameTokens_append {first second other : List Lexeme}
    (h : SameTokens (first ++ second) other) :
    ∃ first' second', other = first' ++ second' ∧ SameTokens first first' ∧
      SameTokens second second' := by
  induction first generalizing other with
  | nil => exact ⟨[], other, rfl, .nil, h⟩
  | cons lexeme first ih =>
      rcases h with _ | ⟨htoken, htail⟩
      rcases ih htail with ⟨first', second', rfl, hfirst, hsecond⟩
      exact ⟨_ :: first', second', rfl, .cons htoken hfirst, hsecond⟩

-- By recursion over the derivation. The other phrase is taken apart as the rule says, and the same
-- rule puts it together again.
mutual

theorem factor_of_sameTokens : ∀ {levels : Nat} {phrase other : List Lexeme} {expr : Expr},
    IsFactor levels phrase expr → SameTokens phrase other → Phrases (IsFactor levels) other
  | _, _, _, _, .integer token, .cons htoken .nil => ⟨_, .integer (htoken.trans token)⟩
  | _, _, _, _, .name token, .cons htoken .nil => ⟨_, .name (htoken.trans token)⟩
  | _, _, _, _, .signed token inner, .cons htoken htail => by
      rcases factor_of_sameTokens inner htail with ⟨operand, hoperand⟩
      exact ⟨_, .signed (htoken ▸ token) hoperand⟩
  | _, _, _, _, .parens opens inner closes, .cons hopens htail => by
      rcases sameTokens_append htail with ⟨phrase, _, rfl, hphrase, _ | ⟨hcloses, _ | _⟩⟩
      rcases sum_of_sameTokens inner hphrase with ⟨expr, hexpr⟩
      exact ⟨_, .parens (hopens.trans opens) hexpr (hcloses.trans closes)⟩

theorem term_of_sameTokens : ∀ {levels : Nat} {phrase other : List Lexeme} {expr : Expr},
    IsTerm levels phrase expr → SameTokens phrase other → Phrases (IsTerm levels) other
  | _, _, _, _, .factor only, h => by
      rcases factor_of_sameTokens only h with ⟨expr, hexpr⟩
      exact ⟨_, .factor hexpr⟩
  | _, _, _, _, .more before token last, h => by
      rcases sameTokens_append h with ⟨first, _, rfl, hfirst, _ | ⟨htoken, hsecond⟩⟩
      rcases term_of_sameTokens before hfirst with ⟨left, hleft⟩
      rcases factor_of_sameTokens last hsecond with ⟨right, hright⟩
      exact ⟨_, .more hleft (htoken ▸ token) hright⟩

theorem sum_of_sameTokens : ∀ {levels : Nat} {phrase other : List Lexeme} {expr : Expr},
    IsSum levels phrase expr → SameTokens phrase other → Phrases (IsSum levels) other
  | _, _, _, _, .term only, h => by
      rcases term_of_sameTokens only h with ⟨expr, hexpr⟩
      exact ⟨_, .term hexpr⟩
  | _, _, _, _, .more before token last, h => by
      rcases sameTokens_append h with ⟨first, _, rfl, hfirst, _ | ⟨htoken, hsecond⟩⟩
      rcases sum_of_sameTokens before hfirst with ⟨left, hleft⟩
      rcases term_of_sameTokens last hsecond with ⟨right, hright⟩
      exact ⟨_, .more hleft (htoken ▸ token) hright⟩

end

section Phrases

variable {levels : Nat} {phrase other : List Lexeme} (hsame : SameTokens phrase other)

include hsame

theorem value_of_sameTokens {expr : Expr} (h : IsValue levels phrase expr) :
    Phrases (IsValue levels) other := by
  cases h with
  | string token =>
      rcases hsame with _ | ⟨htoken, _ | _⟩
      exact ⟨_, .string (htoken.trans token)⟩
  | bool token =>
      rcases hsame with _ | ⟨htoken, _ | _⟩
      exact ⟨_, .bool (htoken.trans token)⟩
  | sum only =>
      rcases sum_of_sameTokens only hsame with ⟨expr, hexpr⟩
      exact ⟨_, .sum hexpr⟩

theorem side_of_sameTokens {expr : Expr} (h : IsSide levels phrase expr) :
    Phrases (IsSide levels) other := by
  cases h with
  | bool token =>
      rcases hsame with _ | ⟨htoken, _ | _⟩
      exact ⟨_, .bool (htoken.trans token)⟩
  | sum only =>
      rcases sum_of_sameTokens only hsame with ⟨expr, hexpr⟩
      exact ⟨_, .sum hexpr⟩

theorem condition_of_sameTokens {expr : Expr} (h : IsCondition levels phrase expr) :
    Phrases (IsCondition levels) other := by
  cases h with
  | bool token =>
      rcases hsame with _ | ⟨htoken, _ | _⟩
      exact ⟨_, .bool (htoken.trans token)⟩
  | compare side token right =>
      rcases sameTokens_append hsame with ⟨first, _, rfl, hfirst, _ | ⟨htoken, hsecond⟩⟩
      rcases side_of_sameTokens hfirst side with ⟨left, hleft⟩
      rcases sum_of_sameTokens right hsecond with ⟨right, hright⟩
      exact ⟨_, .compare hleft (htoken ▸ token) hright⟩

theorem param_of_sameTokens {param : Param} (h : IsParam phrase param) :
    Phrases IsParam other := by
  cases h with
  | mk named token typed =>
      rcases hsame with _ | ⟨hnamed, _ | ⟨htoken, _ | ⟨htyped, _ | _⟩⟩⟩
      exact ⟨_, .mk (hnamed.trans named) (htoken.trans token) (htyped.trans typed)⟩

theorem params_of_sameTokens {params : List Param} (h : IsParams phrase params) :
    Phrases IsParams other := by
  induction h generalizing other with
  | single only =>
      rcases param_of_sameTokens hsame only with ⟨param, hparam⟩
      exact ⟨_, .single hparam⟩
  | more before token last ih =>
      rcases sameTokens_append hsame with ⟨first, _, rfl, hfirst, _ | ⟨htoken, hsecond⟩⟩
      rcases ih hfirst with ⟨params, hparams⟩
      rcases param_of_sameTokens hsecond last with ⟨param, hparam⟩
      exact ⟨_, .more hparams (htoken.trans token) hparam⟩

theorem signature_of_sameTokens {params : List Param} (h : IsSignature phrase params) :
    Phrases IsSignature other := by
  cases h with
  | nothing =>
      rcases hsame with _ | _
      exact ⟨_, .nothing⟩
  | params some =>
      rcases params_of_sameTokens hsame some with ⟨params, hparams⟩
      exact ⟨_, .params hparams⟩

end Phrases

/-- The last statement of a list, if there is one, ends in a brace. -/
def ClosedAtEnd (items : List Statement) : Prop :=
  ∃ last, items.getLast? = some last ∧ Closed last

theorem closedAtEnd_concat (items : List Statement) {last : Statement} :
    ClosedAtEnd (items ++ [last]) ↔ Closed last := by
  rw [ClosedAtEnd, List.getLast?_concat]
  constructor
  · rintro ⟨_, hlast, hclosed⟩
    cases hlast
    exact hclosed
  · intro hclosed
    exact ⟨last, rfl, hclosed⟩

-- Whether a separator is needed depends on how a statement ends, so that is kept along the way.
mutual

theorem statement_of_sameTokens : ∀ {levels : Nat} {phrase other : List Lexeme}
    {found : Statement}, IsStatement levels phrase found → SameTokens phrase other →
    ∃ found', IsStatement levels other found' ∧ (Closed found → Closed found')
  | _, _, _, _, .declare named separates typed token valued,
      .cons hnamed (.cons hseparates (.cons htyped (.cons htoken hphrase))) => by
      rcases value_of_sameTokens hphrase valued with ⟨value, hvalue⟩
      exact ⟨_, .declare (hnamed.trans named) (hseparates.trans separates) (htyped.trans typed)
        (htoken.trans token) hvalue, by rintro ⟨⟩⟩
  | _, _, _, _, .assign named token valued, .cons hnamed (.cons htoken hphrase) => by
      rcases value_of_sameTokens hphrase valued with ⟨value, hvalue⟩
      exact ⟨_, .assign (hnamed.trans named) (htoken.trans token) hvalue, by rintro ⟨⟩⟩
  | _, _, _, _, .print token opens valued closes, .cons htoken (.cons hopens htail) => by
      rcases sameTokens_append htail with ⟨phrase, _, rfl, hphrase, _ | ⟨hcloses, _ | _⟩⟩
      rcases value_of_sameTokens hphrase valued with ⟨value, hvalue⟩
      exact ⟨_, .print (htoken.trans token) (hopens.trans opens) hvalue (hcloses.trans closes),
        by rintro ⟨⟩⟩
  | _, _, _, _, .branch token opens decides closes block, .cons htoken (.cons hopens htail) => by
      rcases sameTokens_append htail with ⟨phrase, _, rfl, hphrase, _ | ⟨hcloses, hfirst⟩⟩
      rcases condition_of_sameTokens hphrase decides with ⟨condition, hcondition⟩
      rcases braced_of_sameTokens block hfirst with ⟨whenTrue, hwhenTrue⟩
      exact ⟨_, .branch (htoken.trans token) (hopens.trans opens) hcondition
        (hcloses.trans closes) hwhenTrue, fun _ => .branch ..⟩
  | _, _, _, _, .choice token opens decides closes block otherwise alternative,
      .cons htoken (.cons hopens htail) => by
      rcases sameTokens_append htail with ⟨phrase, _, rfl, hphrase, _ | ⟨hcloses, hblocks⟩⟩
      rcases sameTokens_append hblocks with ⟨first, _, rfl, hfirst, _ | ⟨helse, hsecond⟩⟩
      rcases condition_of_sameTokens hphrase decides with ⟨condition, hcondition⟩
      rcases braced_of_sameTokens block hfirst with ⟨whenTrue, hwhenTrue⟩
      rcases braced_of_sameTokens alternative hsecond with ⟨whenFalse, hwhenFalse⟩
      exact ⟨_, .choice (htoken.trans token) (hopens.trans opens) hcondition
        (hcloses.trans closes) hwhenTrue (helse.trans otherwise) hwhenFalse, fun _ => .branch ..⟩
  | _, _, _, _, .function token named opens declares closes block,
      .cons htoken (.cons hnamed (.cons hopens htail)) => by
      rcases sameTokens_append htail with ⟨phrase, _, rfl, hphrase, _ | ⟨hcloses, hsecond⟩⟩
      rcases signature_of_sameTokens hphrase declares with ⟨params, hparams⟩
      rcases braced_of_sameTokens block hsecond with ⟨body, hbody⟩
      exact ⟨_, .function (htoken.trans token) (hnamed.trans named) (hopens.trans opens) hparams
        (hcloses.trans closes) hbody, fun _ => .function ..⟩
  | _, _, _, _, .empty, .nil => ⟨_, .empty, id⟩

theorem list_of_sameTokens : ∀ {levels : Nat} {phrase other : List Lexeme}
    {items : List Statement}, IsList levels phrase items → SameTokens phrase other →
    ∃ items', IsList levels other items' ∧ (ClosedAtEnd items → ClosedAtEnd items')
  | _, _, _, _, .single only, h => by
      rcases statement_of_sameTokens only h with ⟨found, hfound, hclosed⟩
      refine ⟨[found], .single hfound, fun hend => ?_⟩
      exact (closedAtEnd_concat []).mpr (hclosed ((closedAtEnd_concat []).mp hend))
  | _, _, _, _, .separated before token last, h => by
      rcases sameTokens_append h with ⟨first, _, rfl, hfirst, _ | ⟨htoken, hsecond⟩⟩
      rcases list_of_sameTokens before hfirst with ⟨items, hitems, _⟩
      rcases statement_of_sameTokens last hsecond with ⟨found, hfound, hclosed⟩
      refine ⟨_, .separated hitems (htoken.trans token) hfound, ?_⟩
      rw [closedAtEnd_concat, closedAtEnd_concat]
      exact hclosed
  | _, _, _, _, .adjacent before behind closed starts last, h => by
      rcases sameTokens_append h with ⟨first, _, rfl, hfirst, _ | ⟨htoken, hsecond⟩⟩
      rcases list_of_sameTokens before hfirst with ⟨items, hitems, hend⟩
      rcases hend ⟨_, behind, closed⟩ with ⟨previous, hprevious, hclosed'⟩
      rcases statement_of_sameTokens last (.cons htoken hsecond) with ⟨found, hfound, hclosed⟩
      refine ⟨_, .adjacent hitems hprevious hclosed' (htoken ▸ starts) hfound, ?_⟩
      rw [closedAtEnd_concat, closedAtEnd_concat]
      exact hclosed

theorem braced_of_sameTokens : ∀ {levels : Nat} {phrase other : List Lexeme} {found : Block},
    IsBraced levels phrase found → SameTokens phrase other → Phrases (IsBraced levels) other
  | _, _, _, _, .mk opens inner closes, .cons hopens htail => by
      rcases sameTokens_append htail with ⟨phrase, _, rfl, hphrase, _ | ⟨hcloses, _ | _⟩⟩
      rcases list_of_sameTokens inner hphrase with ⟨items, hitems, _⟩
      exact ⟨_, .mk (hopens.trans opens) hitems (hcloses.trans closes)⟩

end

/-! ### Tokens alone -/

/-- Tokens are a program, however deep it nests: so are some lexemes with these
    tokens. -/
def Spells (tokens : List Token) : Prop :=
  ∃ levels eof phrase block, eof.token = .eof ∧ phrase.map Lexeme.token = tokens ∧
    IsProgram levels eof phrase block

/-- A lexeme of a token, wherever it may be found. -/
def lexemeOf (token : Token) : Lexeme := { token, span := { start := 0, stop := 0 }, line := 1 }

/-- Lexemes have the tokens of a program exactly if they are a list of
    statements themselves. -/
theorem spells_iff {phrase : List Lexeme} :
    Spells (phrase.map Lexeme.token) ↔ ∃ levels items, IsList levels phrase items := by
  constructor
  · rintro ⟨levels, eof, other, block, _, htokens, ⟨hlist⟩⟩
    rcases list_of_sameTokens hlist (sameTokens_of_map htokens.symm) with ⟨items, hitems, _⟩
    exact ⟨levels, items, hitems⟩
  · rintro ⟨levels, items, hitems⟩
    exact ⟨levels, lexemeOf .eof, phrase, _, rfl, rfl, .mk hitems⟩

end Scriptlet.Grammar
