import Scriptlet.Proofs.Grammar.OnDemand

/-!
# The Shape of a Parsed Program

The type of programs allows trees that no source is read as: a comparison as an
operand, a string as a condition, a block without statements, a name that is a
keyword. The check and the run of a program rely on their absence. For one, the
check never asks whether a condition is a truth value.

A program is taken apart here into its expressions, at any depth and each with
the place where it stands, its names and its blocks. The rules of the shape say
what may stand at a place, and they say it of each piece alone. That they hold of
every piece of a parsed program is carried over from the grammar, case by case;
that a number is not negative and that a name is not reserved comes from the
lexer, since no text spells such a token.

## Main definitions

* `Position`: The places at which an expression can stand.
* `Piece`, `Block.pieces`: The pieces of a program.
* `Expr.IsArithmetic`: Expressions of numbers and names alone.
* `Expr.Fits`, `Piece.Sound`: What may stand at a place, and the rules for all
  pieces.
* `Spelled`: Lexemes that texts can spell.

## Theorems

* `fits_string`, `fits_truthValue`, `fits_comparison`, `fits_of_arithmetic`:
  Where an expression of each kind may stand.
* `sound_of_arithmetic`: Inside arithmetic there is nothing else.
* `sound_statement`, `sound_list`, `sound_braced`: What the grammar derives is
  sound in all its pieces.
* `spelled_of_parse`: A parsed program is derived from lexemes that texts can
  spell.
* `parsed_program_sound`: All pieces of a parsed program are sound.
-/

namespace Scriptlet

open Outcome Grammar

/-! ### Pieces -/

/-- Where in a program an expression stands: as a whole value that is assigned
    or printed, as a whole condition, on a side of a comparison, or as an
    operand of a sign or an arithmetic operator. -/
inductive Position where
  | assigned
  | printed
  | condition
  | leftSide
  | rightSide
  | operand
  deriving DecidableEq, Repr

/-- A piece of a program. -/
inductive Piece where
  | expr (position : Position) (expr : Expr)
  | name (name : String)
  | block (block : Block)

/-- The pieces of an expression that stands at a position, itself among them. -/
def Expr.pieces : Position → Expr → List Piece
  | position, .number value line => [.expr position (.number value line)]
  | position, .literal value line => [.expr position (.literal value line)]
  | position, .var name line => [.expr position (.var name line), .name name]
  | position, .arith op left right line =>
    .expr position (.arith op left right line) ::
      (left.pieces .operand ++ right.pieces .operand)
  | position, .signed sign operand line =>
    .expr position (.signed sign operand line) :: operand.pieces .operand
  | position, .compare order left right line =>
    .expr position (.compare order left right line) ::
      (left.pieces .leftSide ++ right.pieces .rightSide)

mutual

/-- The pieces of a statement at any depth: its expressions, the names that it
    assigns to or declares, and its blocks. -/
def Statement.pieces : Statement → List Piece
  | .assign name _ value _ => .name name :: value.pieces .assigned
  | .branch condition whenTrue whenFalse _ =>
    condition.pieces .condition ++ (whenTrue.pieces ++
      match whenFalse with
      | some block => block.pieces
      | none => [])
  | .function name params body _ =>
    .name name :: (params.map (fun param => .name param.name) ++ body.pieces)
  | .print value _ => value.pieces .printed
  | .empty => []

/-- The pieces of a block at any depth, itself among them. -/
def Block.pieces : Block → List Piece
  | .mk statements line => .block (.mk statements line) :: piecesOfList statements

/-- The pieces of some statements at any depth. -/
def piecesOfList : List Statement → List Piece
  | [] => []
  | statement :: rest => statement.pieces ++ piecesOfList rest

end

theorem piecesOfList_concat (statements : List Statement) (last : Statement) :
    piecesOfList (statements ++ [last]) = piecesOfList statements ++ last.pieces := by
  induction statements with
  | nil => simp only [List.nil_append, piecesOfList, List.append_nil]
  | cons statement rest ih =>
      simp only [List.cons_append, piecesOfList, ih, List.append_assoc]

/-! ### Rules -/

/-- A word that has the form of a name and is not reserved. -/
def IsName (name : String) : Prop := IsNameShaped name.toList ∧ name ∉ reservedWords

/-- An expression of natural numbers and names, with signs and arithmetic
    operators and nothing else. -/
inductive Expr.IsArithmetic : Expr → Prop where
  | number {value : Int64} (natural : 0 ≤ value) (line : Nat) : IsArithmetic (.number value line)
  | var {name : String} (named : IsName name) (line : Nat) : IsArithmetic (.var name line)
  | arith {left right : Expr} (op : ArithOp) (first : IsArithmetic left)
      (second : IsArithmetic right) (line : Nat) : IsArithmetic (.arith op left right line)
  | signed {operand : Expr} (sign : Sign) (inner : IsArithmetic operand) (line : Nat) :
      IsArithmetic (.signed sign operand line)

/-- A truth value that is written out. -/
def Expr.IsTruthValue (expr : Expr) : Prop := ∃ flag line, expr = .literal (.bool flag) line

/-- A comparison. -/
def Expr.IsComparison (expr : Expr) : Prop :=
  ∃ order left right line, expr = .compare order left right line

/-- An expression may stand at a position. -/
structure Expr.Fits (position : Position) (expr : Expr) : Prop where
  /-- A condition is a truth value or a comparison. -/
  condition : position = .condition → expr.IsTruthValue ∨ expr.IsComparison
  /-- A comparison is a condition. -/
  comparison : expr.IsComparison → position = .condition
  /-- On the left of a comparison there is a truth value or arithmetic. -/
  leftSide : position = .leftSide → expr.IsTruthValue ∨ expr.IsArithmetic
  /-- On the right of a comparison there is arithmetic. -/
  rightSide : position = .rightSide → expr.IsArithmetic
  /-- A literal is a whole value, or it is a truth value and decides or stands
      on the left of a comparison. It is no operand. -/
  literal : ∀ value line, expr = .literal value line →
    position = .assigned ∨ position = .printed ∨
      expr.IsTruthValue ∧ (position = .condition ∨ position = .leftSide)
  /-- A number is not negative. -/
  number : ∀ value line, expr = .number value line → 0 ≤ value

/-- The rules for the pieces of a program. -/
def Piece.Sound : Piece → Prop
  | .expr position found => found.Fits position
  | .name word => IsName word
  | .block found => found.statements ≠ []

/-! ### What fits where -/

theorem ne_of_whole {position other : Position}
    (hwhole : position = .assigned ∨ position = .printed)
    (hother : ¬ (other = .assigned ∨ other = .printed)) : position ≠ other := by
  rintro rfl
  exact hother hwhole

/-- A string may be a whole value. -/
theorem fits_string {position : Position} (hwhole : position = .assigned ∨ position = .printed)
    (content : String) (line : Nat) : (Expr.literal (.str content) line).Fits position where
  condition hc := absurd hc (ne_of_whole hwhole (by decide))
  comparison := by
    rintro ⟨order, left, right, line, hc⟩
    cases hc
  leftSide hc := absurd hc (ne_of_whole hwhole (by decide))
  rightSide hc := absurd hc (ne_of_whole hwhole (by decide))
  literal _ _ _ := hwhole.imp id Or.inl
  number _ _ hc := by cases hc

/-- A truth value may stand anywhere but on the right of a comparison and as an
    operand. -/
theorem fits_truthValue {position : Position} (hright : position ≠ .rightSide)
    (hoperand : position ≠ .operand) (flag : Bool) (line : Nat) :
    (Expr.literal (.bool flag) line).Fits position where
  condition _ := Or.inl ⟨flag, line, rfl⟩
  comparison := by
    rintro ⟨order, left, right, line, hc⟩
    cases hc
  leftSide _ := Or.inl ⟨flag, line, rfl⟩
  rightSide hc := absurd hc hright
  literal _ _ _ := by
    cases position with
    | assigned => exact Or.inl rfl
    | printed => exact Or.inr (Or.inl rfl)
    | condition => exact Or.inr (Or.inr ⟨⟨flag, line, rfl⟩, Or.inl rfl⟩)
    | leftSide => exact Or.inr (Or.inr ⟨⟨flag, line, rfl⟩, Or.inr rfl⟩)
    | rightSide => exact absurd rfl hright
    | operand => exact absurd rfl hoperand
  number _ _ hc := by cases hc

/-- A comparison may be a condition. -/
theorem fits_comparison (order : Order) (left right : Expr) (line : Nat) :
    (Expr.compare order left right line).Fits .condition where
  condition _ := Or.inr ⟨order, left, right, line, rfl⟩
  comparison _ := rfl
  leftSide hc := by cases hc
  rightSide hc := by cases hc
  literal _ _ hc := by cases hc
  number _ _ hc := by cases hc

/-- Arithmetic may stand anywhere but as a condition. -/
theorem fits_of_arithmetic {expr : Expr} {position : Position} (h : expr.IsArithmetic)
    (hposition : position ≠ .condition) : expr.Fits position where
  condition hc := absurd hc hposition
  comparison := by
    rintro ⟨order, left, right, line, rfl⟩
    cases h
  leftSide _ := Or.inr h
  rightSide _ := h
  literal := by
    rintro value line rfl
    cases h
  number := by
    rintro value line rfl
    cases h with
    | number natural line => exact natural

/-- All pieces of arithmetic are sound, wherever it stands but as a condition. -/
theorem sound_of_arithmetic {expr : Expr} {position : Position} (h : expr.IsArithmetic)
    (hposition : position ≠ .condition) : ∀ piece ∈ expr.pieces position, piece.Sound := by
  have hwhole := fits_of_arithmetic h hposition
  have hoperand : Position.operand ≠ .condition := by decide
  induction h generalizing position with
  | number natural line => exact List.forall_mem_singleton.mpr hwhole
  | var named line => exact List.forall_mem_cons.mpr ⟨hwhole, List.forall_mem_singleton.mpr named⟩
  | arith op first second line ihfirst ihsecond =>
      refine List.forall_mem_cons.mpr ⟨hwhole, List.forall_mem_append.mpr ⟨?_, ?_⟩⟩
      · exact ihfirst hoperand (fits_of_arithmetic first hoperand)
      · exact ihsecond hoperand (fits_of_arithmetic second hoperand)
  | signed sign inner line ih =>
      refine List.forall_mem_cons.mpr ⟨hwhole, ?_⟩
      exact ih hoperand (fits_of_arithmetic inner hoperand)

/-! ### Lexemes -/

/-- Every lexeme of a phrase has a token that a text can spell. -/
def Spelled (phrase : List Lexeme) : Prop := ∀ lexeme ∈ phrase, lexeme.token.WellFormed

theorem spelled_cons {lexeme : Lexeme} {phrase : List Lexeme} (h : Spelled (lexeme :: phrase)) :
    lexeme.token.WellFormed ∧ Spelled phrase :=
  List.forall_mem_cons.mp h

theorem spelled_append {first second : List Lexeme} (h : Spelled (first ++ second)) :
    Spelled first ∧ Spelled second :=
  List.forall_mem_append.mp h

/-- A phrase in front of a lexeme and another behind it. -/
theorem spelled_around {first second : List Lexeme} {lexeme : Lexeme}
    (h : Spelled (first ++ lexeme :: second)) : Spelled first ∧ Spelled second :=
  ⟨(spelled_append h).1, (spelled_cons (spelled_append h).2).2⟩

theorem isName_of_wellFormed {lexeme : Lexeme} {name : String} (h : lexeme.token.WellFormed)
    (token : lexeme.token = .name name) : IsName name := by
  rw [token] at h
  cases h with
  | name shape free => exact ⟨shape, free⟩

theorem natural_of_wellFormed {lexeme : Lexeme} {value : Int64} (h : lexeme.token.WellFormed)
    (token : lexeme.token = .integer value) : 0 ≤ value := by
  rw [token] at h
  cases h with
  | integer natural => exact natural

/-! ### Phrases of the grammar -/

-- By recursion over the derivation, as for all phrases.
mutual

theorem arithmetic_factor : ∀ {levels : Nat} {phrase : List Lexeme} {expr : Expr},
    IsFactor levels phrase expr → Spelled phrase → expr.IsArithmetic
  | _, _, _, .integer token, h => .number (natural_of_wellFormed (spelled_cons h).1 token) _
  | _, _, _, .name token, h => .var (isName_of_wellFormed (spelled_cons h).1 token) _
  | _, _, _, .signed _ inner, h => .signed _ (arithmetic_factor inner (spelled_cons h).2) _
  | _, _, _, .parens _ inner _, h =>
      arithmetic_sum inner (spelled_append (spelled_cons h).2).1

theorem arithmetic_term : ∀ {levels : Nat} {phrase : List Lexeme} {expr : Expr},
    IsTerm levels phrase expr → Spelled phrase → expr.IsArithmetic
  | _, _, _, .factor only, h => arithmetic_factor only h
  | _, _, _, .more before _ last, h =>
      .arith _ (arithmetic_term before (spelled_around h).1)
        (arithmetic_factor last (spelled_around h).2) _

theorem arithmetic_sum : ∀ {levels : Nat} {phrase : List Lexeme} {expr : Expr},
    IsSum levels phrase expr → Spelled phrase → expr.IsArithmetic
  | _, _, _, .term only, h => arithmetic_term only h
  | _, _, _, .more before _ last, h =>
      .arith _ (arithmetic_sum before (spelled_around h).1)
        (arithmetic_term last (spelled_around h).2) _

end

section Phrases

variable {levels : Nat} {phrase : List Lexeme} {expr : Expr}

theorem sound_value {position : Position} (hwhole : position = .assigned ∨ position = .printed)
    (h : IsValue levels phrase expr) (hphrase : Spelled phrase) :
    ∀ piece ∈ expr.pieces position, piece.Sound := by
  cases h with
  | string token => exact List.forall_mem_singleton.mpr (fits_string hwhole _ _)
  | bool token =>
      refine List.forall_mem_singleton.mpr (fits_truthValue ?_ ?_ _ _)
      · exact ne_of_whole hwhole (by decide)
      · exact ne_of_whole hwhole (by decide)
  | sum only =>
      exact sound_of_arithmetic (arithmetic_sum only hphrase) (ne_of_whole hwhole (by decide))

theorem sound_side (h : IsSide levels phrase expr) (hphrase : Spelled phrase) :
    ∀ piece ∈ expr.pieces .leftSide, piece.Sound := by
  cases h with
  | bool token =>
      exact List.forall_mem_singleton.mpr (fits_truthValue (by decide) (by decide) _ _)
  | sum only => exact sound_of_arithmetic (arithmetic_sum only hphrase) (by decide)

theorem sound_condition (h : IsCondition levels phrase expr) (hphrase : Spelled phrase) :
    ∀ piece ∈ expr.pieces .condition, piece.Sound := by
  cases h with
  | bool token =>
      exact List.forall_mem_singleton.mpr (fits_truthValue (by decide) (by decide) _ _)
  | compare side token other =>
      rcases spelled_around hphrase with ⟨hfirst, hsecond⟩
      refine List.forall_mem_cons.mpr ⟨fits_comparison _ _ _ _, List.forall_mem_append.mpr ⟨?_, ?_⟩⟩
      · exact sound_side side hfirst
      · exact sound_of_arithmetic (arithmetic_sum other hsecond) (by decide)

theorem isName_param {param : Param} (h : IsParam phrase param) (hphrase : Spelled phrase) :
    IsName param.name := by
  cases h with
  | mk named token typed => exact isName_of_wellFormed (spelled_cons hphrase).1 named

theorem isName_params {params : List Param} (h : IsParams phrase params)
    (hphrase : Spelled phrase) : ∀ param ∈ params, IsName param.name := by
  induction h with
  | single only => exact List.forall_mem_singleton.mpr (isName_param only hphrase)
  | more before token last ih =>
      rcases spelled_around hphrase with ⟨hfirst, hsecond⟩
      refine List.forall_mem_append.mpr ⟨ih hfirst, ?_⟩
      exact List.forall_mem_singleton.mpr (isName_param last hsecond)

theorem isName_signature {params : List Param} (h : IsSignature phrase params)
    (hphrase : Spelled phrase) : ∀ param ∈ params, IsName param.name := by
  cases h with
  | nothing => exact fun param hparam => absurd hparam List.not_mem_nil
  | params some => exact isName_params some hphrase

theorem list_ne_nil {statements : List Statement} (h : IsList levels phrase statements) :
    statements ≠ [] := by
  cases h with
  | single only => exact List.cons_ne_nil _ _
  | separated before token last => exact List.concat_ne_nil _ _
  | adjacent before behind closed starts last => exact List.concat_ne_nil _ _

end Phrases

-- A statement has the name of its first or second lexeme. All else that it says is in the phrases
-- that it is made of.
mutual

theorem sound_statement : ∀ {levels : Nat} {phrase : List Lexeme} {statement : Statement},
    IsStatement levels phrase statement → Spelled phrase → ∀ piece ∈ statement.pieces, piece.Sound
  | _, _, _, .declare named _ _ _ valued, h => by
      rcases spelled_cons h with ⟨hname, hrest⟩
      have hvalue := (spelled_cons (spelled_cons (spelled_cons hrest).2).2).2
      exact List.forall_mem_cons.mpr
        ⟨isName_of_wellFormed hname named, sound_value (Or.inl rfl) valued hvalue⟩
  | _, _, _, .assign named _ valued, h => by
      rcases spelled_cons h with ⟨hname, hrest⟩
      exact List.forall_mem_cons.mpr
        ⟨isName_of_wellFormed hname named,
          sound_value (Or.inl rfl) valued (spelled_cons hrest).2⟩
  | _, _, _, .print _ _ valued _, h => by
      have hvalue := (spelled_append (spelled_cons (spelled_cons h).2).2).1
      exact sound_value (Or.inr rfl) valued hvalue
  | _, _, _, .branch _ _ decides _ block, h => by
      rcases spelled_around (spelled_cons (spelled_cons h).2).2 with ⟨hcondition, hblock⟩
      refine List.forall_mem_append.mpr ⟨sound_condition decides hcondition, ?_⟩
      rw [List.append_nil]
      exact sound_braced block hblock
  | _, _, _, .choice _ _ decides _ block _ other, h => by
      rcases spelled_around (spelled_cons (spelled_cons h).2).2 with ⟨hcondition, hblocks⟩
      rcases spelled_around hblocks with ⟨hblock, hother⟩
      refine List.forall_mem_append.mpr ⟨sound_condition decides hcondition, ?_⟩
      exact List.forall_mem_append.mpr ⟨sound_braced block hblock, sound_braced other hother⟩
  | _, _, _, .function _ named _ declares _ block, h => by
      rcases spelled_cons (spelled_cons h).2 with ⟨hname, hrest⟩
      rcases spelled_around (spelled_cons hrest).2 with ⟨hparams, hblock⟩
      refine List.forall_mem_cons.mpr ⟨isName_of_wellFormed hname named, ?_⟩
      refine List.forall_mem_append.mpr ⟨?_, sound_braced block hblock⟩
      exact List.forall_mem_map.mpr (isName_signature declares hparams)
  | _, _, _, .empty, _ => fun _ hpiece => absurd hpiece List.not_mem_nil

theorem sound_list : ∀ {levels : Nat} {phrase : List Lexeme} {statements : List Statement},
    IsList levels phrase statements → Spelled phrase →
      ∀ piece ∈ piecesOfList statements, piece.Sound
  | _, _, _, .single only, h => by
      rw [piecesOfList, piecesOfList, List.append_nil]
      exact sound_statement only h
  | _, _, _, .separated before _ last, h => by
      rcases spelled_around h with ⟨hbefore, hlast⟩
      rw [piecesOfList_concat]
      exact List.forall_mem_append.mpr ⟨sound_list before hbefore, sound_statement last hlast⟩
  | _, _, _, .adjacent before _ _ _ last, h => by
      rcases spelled_append h with ⟨hbefore, hlast⟩
      rw [piecesOfList_concat]
      exact List.forall_mem_append.mpr ⟨sound_list before hbefore, sound_statement last hlast⟩

theorem sound_braced : ∀ {levels : Nat} {phrase : List Lexeme} {block : Block},
    IsBraced levels phrase block → Spelled phrase → ∀ piece ∈ block.pieces, piece.Sound
  | _, _, _, .mk _ inner _, h =>
      List.forall_mem_cons.mpr
        ⟨list_ne_nil inner, sound_list inner (spelled_append (spelled_cons h).2).1⟩

end

/-! ### Sources -/

/-- A parsed program is derived from lexemes that texts can spell. -/
theorem spelled_of_parse {source : String} {program : Block} (h : parse source = .ok program) :
    ∃ phrase, IsList 128 phrase program.statements ∧ Spelled phrase := by
  rcases tokenize_of_parse h with ⟨lexemes, htokens⟩
  rcases tokenize_eq_ok.mp htokens with ⟨eof, hending, rfl⟩
  rcases parse_eq_ok.mp h with ⟨rest, hprogram⟩
  rw [input_of_tokenize htokens hending] at hprogram
  have hphrase := (Eager.program_iff (fun _ => token_ne_eof_of_mem)
    (token_eq_eof_of_ending hending)).mp ⟨rest, hprogram⟩
  cases hphrase with
  | mk list => exact ⟨_, list, fun _ => wellFormed_of_mem⟩

/-- In the program that a source is read as, at any depth: a condition is a truth
    value or a comparison, and a comparison is nothing else; on the left of it
    is a truth value or arithmetic, and on the right arithmetic; a literal is a
    whole value, or it is a truth value and decides or stands on the left of a
    comparison; no number is negative; every name has the form of one and is not
    reserved; and every block has a statement. -/
theorem parsed_program_sound {source : String} {program : Block}
    (h : parse source = .ok program) : ∀ piece ∈ program.pieces, piece.Sound := by
  rcases spelled_of_parse h with ⟨phrase, hlist, hphrase⟩
  cases program with
  | mk statements line =>
      exact List.forall_mem_cons.mpr ⟨list_ne_nil hlist, sound_list hlist hphrase⟩

/-- A source with a truth value as a condition and on the left of one, blocks
    that have nothing but an empty statement, and a name that begins like a
    reserved word. -/
def motleySource : String :=
  "func f(iff : int) \x7b \x7d if (True < -(2 + iff)) \x7b if (False) \x7b \x7d \x7d " ++
    "else \x7b iff = \"if\" \x7d"

/-- The program of `motleySource` has seventeen pieces, and all of them are
    sound. -/
theorem parsed_program_sound_motleySource :
    ∃ program, parse motleySource = .ok program ∧ program.pieces.length = 17 ∧
      ∀ piece ∈ program.pieces, piece.Sound := by
  have hcount : (parse motleySource).toOption.map (fun program => program.pieces.length) =
      some 17 := by decide +kernel
  cases hparse : parse motleySource with
  | error e =>
      rw [hparse] at hcount
      cases hcount
  | ok program =>
      rw [hparse, Except.toOption, Option.map_some, Option.some.injEq] at hcount
      exact ⟨program, rfl, hcount, parsed_program_sound hparse⟩

end Scriptlet
