import Scriptlet.Proofs.Grammar.OnDemand
import Scriptlet.Proofs.Grammar.Viable

/-!
# Errors Blame the First Fault

A syntax error is about the first lexeme at which a source stops being the
beginning of a program. The lexemes before it could have gone on to be a
program, because a parser consumes nothing else. With that lexeme they cannot:
the parser fails there whatever follows and however many levels it has, and it
would accept a program. If it is the end of the input that is blamed, the
lexemes are a beginning of a program and none themselves.

All of this is said of the tokens, and of programs that nest as deep as they
like. Where a separator is missing, a semicolon before the lexeme that is
blamed would have done.

## Theorems

* `not_list_of_fault`: What begins with a fault is no program.
* `parse_blames_first_fault`: Which lexeme an error is about.
-/

namespace Scriptlet

open Outcome Grammar

namespace Eager

/-- With levels enough for it, any program is accepted. -/
theorem programWithin_of_phrase {levels : Nat} {phrase : List Lexeme} {items : List Statement}
    {eof : Lexeme} (h : IsList levels phrase items) (heof : eof.token = .eof) :
    programWithin levels (phrase ++ [eof]) = .ok (.mk items (firstLine phrase eof)) [eof] := by
  refine bind_eq_ok.mpr ⟨_, [eof], list_of_phrase h (Or.inr heof) [], ?_⟩
  exact bind_eq_ok.mpr ⟨(), [eof], listEnd_eof_eq_ok.mpr ⟨eof, [], rfl, rfl, heof⟩, rfl⟩

/-- Where the parser finds a fault, it blames the lexeme ahead. What stands
    before it begins a program, and so it does with what mends the fault. -/
theorem spells_before_fault {lexemes rest : List Lexeme} {e : SyntaxError}
    (hfault : program lexemes = .error (.grammar e) rest) (hmisplaced : e.Misplaced) :
    ∃ phrase lexeme tail, lexemes = phrase ++ lexeme :: tail ∧ rest = lexeme :: tail ∧
      e.Blames lexeme ∧ ∀ mend, Mends e lexeme mend →
        ∃ more, Spells (phrase.map Lexeme.token ++ (mend.map Lexeme.token ++ more)) := by
  rcases viable_program.before lexemes e rest hfault hmisplaced with
    ⟨phrase, lexeme, tail, hlexemes, hrest, hblames, hmends⟩
  refine ⟨phrase, lexeme, tail, hlexemes, hrest, hblames, fun mend hmend => ?_⟩
  rcases hmends mend hmend with ⟨more, block, hlist⟩
  have hspells : Spells ((phrase ++ (mend ++ more)).map Lexeme.token) :=
    spells_iff.mpr ⟨_, _, hlist⟩
  rw [List.map_append, List.map_append] at hspells
  exact ⟨_, hspells⟩

section Fault

variable {phrase tail : List Lexeme} {lexeme : Lexeme} {e : SyntaxError}
  (hfault : program (phrase ++ lexeme :: tail) = .error (.grammar e) (lexeme :: tail))
  (hmisplaced : e.Misplaced)

include hfault hmisplaced

/-- Whatever stands behind a fault and however many levels there are, it stays a
    fault. -/
theorem programWithin_of_fault {levels : Nat} (h : maxNesting ≤ levels) (more : List Lexeme) :
    programWithin levels (phrase ++ lexeme :: more) = .error (.grammar e) (lexeme :: more) := by
  have hdecided : Decided (program (phrase ++ lexeme :: tail)) := by
    rw [hfault]
    exact .misplaced _ hmisplaced
  rcases local_program h _ hdecided with ⟨first, hfirst, hsame⟩
  rw [hfault] at hfirst hsame
  rw [List.append_cancel_right hfirst]
  exact hsame (lexeme :: more) rfl

/-- Lexemes with a fault among them, or right behind them at the end of the
    input, are no program. -/
theorem not_list_of_fault {levels : Nat} {first more : List Lexeme} {items : List Statement}
    {eof : Lexeme} (heof : eof.token = .eof) (h : first ++ [eof] = phrase ++ lexeme :: more) :
    ¬ IsList levels first items := by
  intro hlist
  have hmore : IsList (max maxNesting levels) first items :=
    list_of_le hlist (Nat.le_max_right _ _)
  have hok := programWithin_of_phrase hmore heof
  rw [h, programWithin_of_fault hfault hmisplaced (Nat.le_max_left _ _)] at hok
  cases hok

/-- No program begins with what goes up to a fault. -/
theorem not_spells_of_fault (more : List Token) :
    ¬ Spells (phrase.map Lexeme.token ++ lexeme.token :: more) := by
  intro hspells
  -- The tokens that follow can be put in any place.
  have htokens : phrase.map Lexeme.token ++ lexeme.token :: more =
      (phrase ++ lexeme :: more.map lexemeOf).map Lexeme.token := by
    have hmore : (more.map lexemeOf).map Lexeme.token = more := by
      rw [List.map_map]
      exact List.map_id more
    rw [List.map_append, List.map_cons, hmore]
  rw [htokens] at hspells
  rcases spells_iff.mp hspells with ⟨levels, items, hlist⟩
  have hend := append_cons_append phrase (more.map lexemeOf) [lexemeOf .eof] lexeme
  exact not_list_of_fault hfault hmisplaced rfl hend hlist

/-- Where the end of the input is the fault, there is no program before it. -/
theorem not_spells_before_eof (heof : lexeme.token = .eof) :
    ¬ Spells (phrase.map Lexeme.token) := by
  intro hspells
  rcases spells_iff.mp hspells with ⟨levels, items, hlist⟩
  exact not_list_of_fault hfault hmisplaced heof rfl hlist

end Fault

end Eager

/-! ### Sources -/

/-- What was read of the input before its end is what was read of the
    lexemes. -/
theorem take_of_input {lexemes first rest : List Lexeme} {eof : Lexeme}
    (h : lexemes ++ [eof] = first ++ rest) (hle : first.length ≤ lexemes.length) :
    lexemes.take first.length = first := by
  have htake : (lexemes ++ [eof]).take first.length = lexemes.take first.length :=
    List.take_append_of_le_length hle
  rw [← htake, h, List.take_left]

theorem program_of_parse {source : String} {lexemes : List Lexeme} {eof : Lexeme}
    {error : SyntaxError} (htokens : tokenize source = .ok lexemes)
    (hending : (Scan.ofSource source).ending = .ok eof)
    (h : parse source = .error (.grammar error)) :
    ∃ rest, Eager.program (lexemes ++ [eof]) = .error (.grammar error) rest := by
  have hreflects := Parser.parse_reflects source
  rw [h] at hreflects
  rw [← input_of_tokenize htokens hending]
  exact hreflects

/-- If a source without lexical errors is no program, and not because it nests
    too deep, then the error is about one of its lexemes or about the end of the
    input, whose token and line it tells. The tokens before that one can be
    extended to a program. With that one they cannot, and if it is the end of
    the input, they are no program as they are. Where a separator is missing,
    they can be extended by a semicolon, that token and something more. -/
theorem parse_blames_first_fault {source : String} {lexemes : List Lexeme} {error : SyntaxError}
    (htokens : tokenize source = .ok lexemes) (hparse : parse source = .error (.grammar error))
    (hmisplaced : error.Misplaced) :
    ∃ eof k lexeme, (Scan.ofSource source).ending = .ok eof ∧ eof.token = .eof ∧
      (lexemes ++ [eof])[k]? = some lexeme ∧ error.Blames lexeme ∧
      (∃ more, Spells ((lexemes.map Lexeme.token).take k ++ more)) ∧
      (k < lexemes.length → ¬ ∃ more, Spells ((lexemes.map Lexeme.token).take (k + 1) ++ more)) ∧
      (k = lexemes.length → ¬ Spells (lexemes.map Lexeme.token)) ∧
      ∀ found line, error = .missingSeparator found line → ∃ more,
        Spells ((lexemes.map Lexeme.token).take k ++
          .mark .semicolon :: lexeme.token :: more) := by
  rcases tokenize_eq_ok.mp htokens with ⟨eof, hending, _⟩
  rcases program_of_parse htokens hending hparse with ⟨rest, hprogram⟩
  rcases Eager.spells_before_fault hprogram hmisplaced with
    ⟨phrase, lexeme, tail, hinput, rfl, hblames, hbefore⟩
  rw [hinput] at hprogram
  have hlength : lexemes.length + 1 = phrase.length + (tail.length + 1) := by
    have hlengths := congrArg List.length hinput
    rw [List.length_append, List.length_append] at hlengths
    exact hlengths
  have htake : (lexemes.map Lexeme.token).take phrase.length = phrase.map Lexeme.token := by
    rw [← List.map_take, take_of_input hinput (by omega)]
  refine ⟨eof, phrase.length, lexeme, hending, token_eq_eof_of_ending hending, ?_, hblames, ?_,
    ?_, ?_, ?_⟩
  · rw [hinput, List.getElem?_append_right (Nat.le_refl _), Nat.sub_self]
    rfl
  · rw [htake]
    exact hbefore [] (.anything error lexeme)
  · rintro hlt ⟨more, hspells⟩
    -- The lexeme at fault is one of the source, so it comes next among its tokens.
    have hnext : lexemes.take (phrase.length + 1) = phrase ++ [lexeme] := by
      have hcons : lexemes ++ [eof] = (phrase ++ [lexeme]) ++ tail := by
        rw [hinput, List.append_assoc, List.singleton_append]
      have htaken := take_of_input hcons
      rw [List.length_append] at htaken
      exact htaken hlt
    rw [← List.map_take, hnext, List.map_append, List.append_assoc] at hspells
    exact Eager.not_spells_of_fault hprogram hmisplaced more hspells
  · intro hall
    rcases List.append_inj hinput hall.symm with ⟨hphrase, hend⟩
    cases hend
    rw [hphrase]
    exact Eager.not_spells_before_eof hprogram hmisplaced (token_eq_eof_of_ending hending)
  · rintro found line rfl
    rw [htake]
    have hmend : Eager.Mends (.missingSeparator found line) lexeme
        [lexemeOf (.mark .semicolon), lexeme] := .separator found line lexeme rfl
    exact hbefore _ hmend

/-- A block in which a separator is missing on the second line. -/
def unseparatedSource : String := "if (x < 1) \x7b\n  y = 2 print(y)\n\x7d"

/-- On the second line of `unseparatedSource`, `print` cannot follow the tokens
    before it, and it can behind a semicolon. -/
theorem parse_blames_first_fault_unseparatedSource :
    ∃ lexemes, tokenize unseparatedSource = .ok lexemes ∧
      parse unseparatedSource = .error (.grammar (.missingSeparator "'print'" 2)) ∧
      ∃ eof k lexeme, (lexemes ++ [eof])[k]? = some lexeme ∧ lexeme.line = 2 ∧
        (∃ more, Spells ((lexemes.map Lexeme.token).take k ++ more)) ∧
        (k < lexemes.length →
          ¬ ∃ more, Spells ((lexemes.map Lexeme.token).take (k + 1) ++ more)) ∧
        ∃ more, Spells ((lexemes.map Lexeme.token).take k ++
          .mark .semicolon :: lexeme.token :: more) := by
  have htokens : (tokenize unseparatedSource).isOk = true := by decide +kernel
  have hfault : (match parse unseparatedSource with
      | .error (.grammar error) => some error
      | _ => none) = some (.missingSeparator "'print'" 2) := by decide +kernel
  cases hlexemes : tokenize unseparatedSource with
  | error e =>
      rw [hlexemes] at htokens
      cases htokens
  | ok lexemes =>
      have hparse : parse unseparatedSource =
          .error (.grammar (.missingSeparator "'print'" 2)) := by
        split at hfault
        · rename_i error hparse
          rw [hparse, Option.some.inj hfault]
        · cases hfault
      rcases parse_blames_first_fault hlexemes hparse trivial with
        ⟨eof, k, lexeme, _, _, hlexeme, hblames, hbefore, hfirst, _, hmended⟩
      have hline : lexeme.line = 2 := by
        generalize herror : SyntaxError.missingSeparator "'print'" 2 = error at hblames
        cases hblames with
        | unexpected => cases herror
        | missingSeparator =>
            injection herror with _ hline
            exact hline.symm
      exact ⟨lexemes, rfl, hparse, eof, k, lexeme, hlexeme, hline, hbefore, hfirst,
        hmended _ _ rfl⟩

end Scriptlet
