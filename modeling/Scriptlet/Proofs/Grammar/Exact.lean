import Scriptlet.Proofs.Grammar.Acceptance
import Scriptlet.Proofs.Grammar.Lockstep

/-!
# The Parser Accepts Exactly the Grammar

A source without lexical errors is a list of lexemes and then the end of the
input, which is none of them. The parser reads a statement list and wants the
end of the input behind it, so it accepts the lexemes exactly if they are a
program, and then gives the program that they are. As the parser gives at most
one, there is at most one to give: no lexemes are two programs.

## Theorems

* `program_eq_ok`: What success of the parser of programs means.
* `program_iff`: The parser of programs accepts exactly the grammar.
* `parse_of_program`, `parse_eq_ok`: What parsing a source comes to.
* `parse_iff_isProgram`: The same for sources, with no program but one.
-/

namespace Scriptlet

open Outcome Grammar

/-! ### Programs -/

namespace Eager

/-- A program is a statement list up to the end of the input, which stays. -/
theorem program_eq_ok {lexemes rest : List Lexeme} {block : Block} :
    program lexemes = .ok block rest ↔
      statements (maxNesting + 1) lexemes = .ok block rest ∧
        ∃ eof tail, rest = eof :: tail ∧ eof.token = .eof := by
  constructor
  · intro h
    rcases bind_eq_ok.mp h with ⟨found, between, hlist, hend⟩
    rcases bind_eq_ok.mp hend with ⟨_, behind, hclosed, hpure⟩
    rcases listEnd_eof_eq_ok.mp hclosed with ⟨eof, tail, hbetween, hbehind, heof⟩
    cases hpure
    exact ⟨hbehind ▸ hlist, eof, tail, hbehind.trans hbetween, heof⟩
  · rintro ⟨hlist, eof, tail, rfl, heof⟩
    refine bind_eq_ok.mpr ⟨block, eof :: tail, hlist, ?_⟩
    exact bind_eq_ok.mpr
      ⟨(), eof :: tail, listEnd_eof_eq_ok.mpr ⟨eof, tail, rfl, rfl, heof⟩, rfl⟩

/-- Behind a program, the end of the input is still ahead. -/
theorem program_ne_ok_nil {lexemes : List Lexeme} {block : Block} :
    program lexemes ≠ .ok block [] := by
  intro h
  rcases (program_eq_ok.mp h).2 with ⟨eof, tail, hnil, _⟩
  cases hnil

/-- Where the end of the input comes last, a list before it is all there is. -/
theorem eq_of_append_eof {lexemes phrase tail : List Lexeme} {eof found : Lexeme}
    (hnone : ∀ lexeme ∈ lexemes, lexeme.token ≠ .eof) (hfound : found.token = .eof)
    (h : lexemes ++ [eof] = phrase ++ found :: tail) : phrase = lexemes ∧ found = eof := by
  induction lexemes generalizing phrase with
  | nil =>
      cases phrase with
      | nil =>
          cases h
          exact ⟨rfl, rfl⟩
      | cons first phrase => simp at h
  | cons lexeme lexemes ih =>
      cases phrase with
      | nil =>
          cases h
          -- The end of the input would be one of the lexemes.
          exact absurd hfound (hnone found List.mem_cons_self)
      | cons first phrase =>
          rw [List.cons_append, List.cons_append, List.cons.injEq] at h
          have hnone' : ∀ lexeme ∈ lexemes, lexeme.token ≠ .eof := by
            intro other hmem
            exact hnone other (List.mem_cons_of_mem lexeme hmem)
          rcases ih hnone' h.2 with ⟨rfl, heof⟩
          exact ⟨by rw [h.1], heof⟩

/-- The parser of programs accepts exactly the programs, and gives the program
    that the lexemes are. -/
theorem program_iff {lexemes : List Lexeme} {eof : Lexeme}
    (hnone : ∀ lexeme ∈ lexemes, lexeme.token ≠ .eof) (heof : eof.token = .eof) {block : Block} :
    (∃ rest, program (lexemes ++ [eof]) = .ok block rest) ↔
      IsProgram maxNesting eof lexemes block := by
  constructor
  · rintro ⟨rest, h⟩
    rcases program_eq_ok.mp h with ⟨hlist, found, tail, rfl, hfound⟩
    rcases reads_statements (maxNesting + 1) _ _ _ hlist with
      ⟨phrase, items, first, behind, hphrase, hfirst, hitems, rfl⟩
    -- The list ends at an end of the input, and there is only the last one.
    rcases eq_of_append_eof hnone hfound hphrase with ⟨rfl, rfl⟩
    rw [← firstLine_eq hfirst]
    exact .mk hitems
  · rintro ⟨hitems⟩
    exact ⟨[eof], program_eq_ok.mpr ⟨list_of_phrase hitems (Or.inr heof) [], eof, [], rfl, heof⟩⟩

end Eager

/-! ### Sources -/

/-- Parsing a source is what the eager parser does with its lexemes. If that
    parser is starved, it is by the lexical error behind them. -/
theorem parse_of_program (source : String) :
    match Eager.program (Scan.ofSource source).input with
    | .ok block _ => parse source = .ok block
    | .error (.grammar e) _ => parse source = .error (.grammar e)
    | .error .starved _ =>
      ∃ e, (Scan.ofSource source).ending = .error e ∧ parse source = .error (.lexical e) := by
  have hreflects := Parser.parse_reflects source
  cases hparse : parse source with
  | ok block =>
      rw [hparse] at hreflects
      rcases hreflects with ⟨rest, hprogram⟩
      rw [hprogram]
  | error e =>
      rw [hparse] at hreflects
      cases e with
      | grammar e =>
          rcases hreflects with ⟨rest, hprogram⟩
          rw [hprogram]
      | lexical e =>
          rcases hreflects with ⟨hending, hexhausted⟩
          cases hprogram : Eager.program (Scan.ofSource source).input with
          | ok block rest =>
              rw [hprogram] at hexhausted
              cases hexhausted
              exact absurd hprogram Eager.program_ne_ok_nil
          | error stop rest =>
              rw [hprogram] at hexhausted
              cases hexhausted
              exact ⟨e, hending, rfl⟩

/-- A source is the program that its lexemes are, as far as they go. -/
theorem parse_eq_ok {source : String} {block : Block} :
    parse source = .ok block ↔
      ∃ rest, Eager.program (Scan.ofSource source).input = .ok block rest := by
  have hreflects := Parser.parse_reflects source
  constructor
  · intro h
    rw [h] at hreflects
    exact hreflects
  · rintro ⟨rest, hprogram⟩
    have hparsed := parse_of_program source
    rw [hprogram] at hparsed
    exact hparsed

/-- A parser that reports a lexical error reports the first one of its
    source. -/
theorem tokenize_of_lexical {source : String} {e : LexicalError}
    (h : parse source = .error (.lexical e)) : tokenize source = .error e := by
  have hreflects := Parser.parse_reflects source
  rw [h] at hreflects
  exact tokenize_eq_error.mpr hreflects.1

/-- At least some of the lexemes of a source that is parsed are a list, and the
    list is the program. -/
theorem isList_of_parse {source : String} {block : Block} (h : parse source = .ok block) :
    ∃ phrase, IsList 128 phrase block.statements := by
  rcases parse_eq_ok.mp h with ⟨rest, hprogram⟩
  have hlist := (Eager.program_eq_ok.mp hprogram).1
  rcases Eager.reads_statements (maxNesting + 1) _ _ _ hlist with
    ⟨phrase, items, first, behind, hphrase, hfirst, hitems, rfl⟩
  exact ⟨phrase, hitems⟩

/-- For a source without lexical errors, the parser accepts exactly if the
    lexemes are a program with at most 128 levels open at any point, and gives
    that program. No lexemes are two programs. -/
theorem parse_iff_isProgram {source : String} {lexemes : List Lexeme}
    (h : tokenize source = .ok lexemes) :
    ∃ eof, (Scan.ofSource source).ending = .ok eof ∧ eof.token = .eof ∧
      (∀ block, parse source = .ok block ↔ IsProgram 128 eof lexemes block) ∧
      ∀ block other, IsProgram 128 eof lexemes block → IsProgram 128 eof lexemes other →
        block = other := by
  rcases tokenize_eq_ok.mp h with ⟨eof, hending, rfl⟩
  have heof : eof.token = .eof := token_eq_eof_of_ending hending
  have hexact : ∀ block, parse source = .ok block ↔
      IsProgram 128 eof (Scan.ofSource source).lexemes block := by
    intro block
    rw [parse_eq_ok, Scan.input, hending]
    exact Eager.program_iff (fun lexeme => token_ne_eof_of_mem) heof
  refine ⟨eof, hending, heof, hexact, ?_⟩
  -- The parser has one outcome, so both programs are what it gives.
  intro block other hblock hother
  have hparse := (hexact block).mpr hblock
  rw [(hexact other).mpr hother] at hparse
  cases hparse
  rfl

/-- A program with nested signs and parentheses, an empty block and statements
    that follow a brace without a semicolon. -/
def layeredSource : String :=
  "func f(a : int, b : float) \x7b ; \x7d " ++
    "if (-(2) < 3 - 1 - -+x) \x7b x = 1 \x7d else \x7b \x7d print((1 + 2) * y)"

/-- The parser finds the one program that the lexemes of `layeredSource` are. -/
theorem parse_layeredSource :
    ∃ lexemes eof block, tokenize layeredSource = .ok lexemes ∧
      parse layeredSource = .ok block ∧ IsProgram 128 eof lexemes block ∧
      ∀ other, IsProgram 128 eof lexemes other → other = block := by
  have htokens : (tokenize layeredSource).isOk = true := by decide +kernel
  have hparse : (parse layeredSource).isOk = true := by decide +kernel
  cases hlexemes : tokenize layeredSource with
  | error e =>
      rw [hlexemes] at htokens
      cases htokens
  | ok lexemes =>
      cases hblock : parse layeredSource with
      | error e =>
          rw [hblock] at hparse
          cases hparse
      | ok block =>
          rcases parse_iff_isProgram hlexemes with ⟨eof, -, -, hexact, hunique⟩
          have hprogram : IsProgram 128 eof lexemes block := (hexact block).mp hblock
          exact ⟨lexemes, eof, block, rfl, rfl, hprogram,
            fun other hother => hunique other block hother hprogram⟩

end Scriptlet
