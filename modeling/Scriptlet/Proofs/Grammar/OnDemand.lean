import Scriptlet.Proofs.Grammar.Exact
import Scriptlet.Proofs.Grammar.Lookahead

/-!
# Reading on Demand

A parser has the lexemes of a source read one by one, each when it moves past
the one before. So it never reads behind the lexeme that settles the matter. It
comes to the same as if all had been read before: a parser that has found out
something has found it out for every list that goes on from there.

So a lexical error counts in one way only. The parser comes to it, and then it
is reported as it is; or the lexemes before it are no beginning of a program,
and then the syntax error they make is reported for every source that begins
with them. A source with a lexical error is never accepted, because a program
ends at the end of the input, and the error stands before that.

## Main definitions

* `words`: What a parser can tell of some lexemes.
* `parseAhead`: Parses a source when all its lexemes have been read.

## Theorems

* `program_ne_starved`: With the end of the input ahead, nothing more is asked
  for.
* `parse_eq_parseAhead`: Reading on demand changes nothing.
* `tokenize_of_parse`: Only a source without lexical errors is parsed.
* `parse_on_demand`: What a lexical error does to parsing, and what it does not.
-/

namespace Scriptlet

open Outcome

/-- What a parser can tell of some lexemes: their tokens and lines. -/
def words (lexemes : List Lexeme) : List (Token × Nat) :=
  lexemes.map fun lexeme => (lexeme.token, lexeme.line)

/-- A list begins like another if its words come first in the words of the
    other. -/
theorem begins_of_words {short long : List Lexeme} (h : words short <+: words long) :
    Begins short long := by
  induction short generalizing long with
  | nil => exact .nil long
  | cons a short ih =>
      cases long with
      | nil => exact absurd (List.prefix_nil.mp h) (List.cons_ne_nil _ _)
      | cons b long =>
          simp only [words, List.map_cons, List.cons_prefix_cons, Prod.mk.injEq] at h
          exact .cons h.1 (ih h.2)

theorem begins_append {short long : List Lexeme} (h : Begins short long) (more : List Lexeme) :
    Begins short (long ++ more) := by
  induction h with
  | nil long => exact .nil _
  | cons alike tail ih => exact .cons alike ih

/-! ### What the lexemes of a scan settle -/

/-- With the end of the input ahead, the parser of programs asks for nothing
    more. -/
theorem program_ne_starved {lexemes rest : List Lexeme} {eof : Lexeme} (heof : eof.token = .eof)
    (hmem : eof ∈ lexemes) : Eager.program lexemes ≠ .error .starved rest := by
  intro h
  have hsettled := Eager.steady_program lexemes lexemes (begins_refl lexemes)
  rw [h] at hsettled
  exact hsettled eof hmem heof

theorem program_of_ok {short long rest : List Lexeme} {block : Block}
    (hbegins : Begins short long) (h : Eager.program short = .ok block rest) :
    ∃ rest', Eager.program long = .ok block rest' := by
  have hsettled := Eager.steady_program short long hbegins
  rw [h] at hsettled
  rcases hsettled with ⟨_, found, rest', hlong, rfl, _⟩
  exact ⟨rest', hlong⟩

theorem program_of_grammar {short long rest : List Lexeme} {error : SyntaxError}
    (hbegins : Begins short long) (h : Eager.program short = .error (.grammar error) rest) :
    ∃ rest', Eager.program long = .error (.grammar error) rest' := by
  have hsettled := Eager.steady_program short long hbegins
  rw [h] at hsettled
  exact hsettled

/-! ### Sources -/

/-- The lexemes of a scan come first in what an eager parser is given. -/
theorem begins_input {scan : Scan} {short : List Lexeme} (h : Begins short scan.lexemes) :
    Begins short scan.input := by
  rw [Scan.input]
  cases scan.ending with
  | ok eof => exact begins_append h [eof]
  | error e => exact h

section Sources

variable {source : String} {short rest : List Lexeme}

theorem parse_of_ok {block : Block} (hbegins : Begins short (Scan.ofSource source).input)
    (h : Eager.program short = .ok block rest) : parse source = .ok block :=
  parse_eq_ok.mpr (program_of_ok hbegins h)

theorem parse_of_grammar {error : SyntaxError}
    (hbegins : Begins short (Scan.ofSource source).input)
    (h : Eager.program short = .error (.grammar error) rest) :
    parse source = .error (.grammar error) := by
  rcases program_of_grammar hbegins h with ⟨rest', hlong⟩
  have hparsed := parse_of_program source
  rw [hlong] at hparsed
  exact hparsed

/-- A source that a lexical error ends is never a program. -/
theorem parse_of_error {e : LexicalError} (h : (Scan.ofSource source).ending = .error e) :
    parse source = .error (.lexical e) ∨ ∃ error rest,
      Eager.program (Scan.ofSource source).lexemes = .error (.grammar error) rest := by
  have hinput : (Scan.ofSource source).input = (Scan.ofSource source).lexemes := by
    rw [Scan.input, h]
  have hparsed := parse_of_program source
  rw [hinput] at hparsed
  cases hprogram : Eager.program (Scan.ofSource source).lexemes with
  | ok block rest =>
      -- A program ends at the end of the input, which is not there.
      rcases (Eager.program_eq_ok.mp hprogram).2 with ⟨eof, tail, rfl, heof⟩
      have hsettled := Eager.steady_program _ _ (begins_refl (Scan.ofSource source).lexemes)
      rw [hprogram] at hsettled
      rcases hsettled with ⟨⟨phrase, hphrase, _⟩, _⟩
      have hmem : eof ∈ (Scan.ofSource source).lexemes := by
        rw [hphrase]
        exact List.mem_append_right phrase List.mem_cons_self
      exact absurd heof (token_ne_eof_of_mem hmem)
  | error stop rest =>
      cases stop with
      | starved =>
          rw [hprogram] at hparsed
          rcases hparsed with ⟨found, hfound, hparse⟩
          rw [h] at hfound
          cases hfound
          exact Or.inl hparse
      | grammar error => exact Or.inr ⟨error, rest, rfl⟩

end Sources

theorem input_of_tokenize {source : String} {lexemes : List Lexeme} {eof : Lexeme}
    (h : tokenize source = .ok lexemes) (hending : (Scan.ofSource source).ending = .ok eof) :
    (Scan.ofSource source).input = lexemes ++ [eof] := by
  rcases tokenize_eq_ok.mp h with ⟨_, _, rfl⟩
  rw [Scan.input, hending]

/-- The end of the input starves nobody. -/
theorem fed_of_ending {source : String} {eof : Lexeme}
    (h : (Scan.ofSource source).ending = .ok eof) (rest : List Lexeme) :
    Eager.program (Scan.ofSource source).input ≠ .error .starved rest := by
  refine program_ne_starved (token_eq_eof_of_ending h) ?_
  rw [Scan.input, h]
  exact List.mem_append_right _ List.mem_cons_self

/-- Parses a source when all its lexemes have been read. A parser that is
    starved has come to the lexical error that ended the reading. -/
def parseAhead (source : String) : Except ParseError Block :=
  match hprogram : Eager.program (Scan.ofSource source).input with
  | .ok block _ => .ok block
  | .error (.grammar error) _ => .error (.grammar error)
  | .error .starved rest =>
    match hending : (Scan.ofSource source).ending with
    | .error e => .error (.lexical e)
    | .ok _ => absurd hprogram (fed_of_ending hending rest)

/-- Reading on demand comes to what reading ahead comes to. -/
theorem parse_eq_parseAhead (source : String) : parse source = parseAhead source := by
  have hparsed := parse_of_program source
  rw [parseAhead]
  split
  · rename_i block rest hprogram
    rw [hprogram] at hparsed
    exact hparsed
  · rename_i error rest hprogram
    rw [hprogram] at hparsed
    exact hparsed
  · rename_i rest hprogram
    rw [hprogram] at hparsed
    rcases hparsed with ⟨e, hending, hparse⟩
    split
    · rename_i e' hending'
      rw [hending] at hending'
      cases hending'
      exact hparse
    · rename_i eof hending'
      exact absurd hprogram (fed_of_ending hending' rest)

/-- Only a source without lexical errors is parsed. -/
theorem tokenize_of_parse {source : String} {block : Block} (h : parse source = .ok block) :
    ∃ lexemes, tokenize source = .ok lexemes := by
  cases hending : (Scan.ofSource source).ending with
  | ok eof => exact ⟨_, tokenize_eq_ok.mpr ⟨eof, hending, rfl⟩⟩
  | error e =>
      rcases parse_of_error hending with hlexical | ⟨error, rest, hgrammar⟩
      · rw [hlexical] at h
        cases h
      · rw [parse_of_grammar (begins_input (begins_refl _)) hgrammar] at h
        cases h

/-- A source without lexical errors is parsed as any other with the same
    words. -/
theorem parse_eq_of_words {source other : String} {lexemes : List Lexeme}
    (htokens : tokenize source = .ok lexemes)
    (h : words (Scan.ofSource other).input = words (Scan.ofSource source).input) :
    parse other = parse source := by
  have hbegins : Begins (Scan.ofSource source).input (Scan.ofSource other).input :=
    begins_of_words (h ▸ List.prefix_rfl)
  have hreflects := Parser.parse_reflects source
  cases hparse : parse source with
  | ok block =>
      rw [hparse] at hreflects
      rcases hreflects with ⟨rest, hprogram⟩
      exact parse_of_ok hbegins hprogram
  | error e =>
      rw [hparse] at hreflects
      cases e with
      | grammar error =>
          rcases hreflects with ⟨rest, hprogram⟩
          exact parse_of_grammar hbegins hprogram
      | lexical e =>
          rw [tokenize_of_lexical hparse] at htokens
          cases htokens

/-- Parsing with lexemes that are read on demand agrees with reading them all
    before. Without a lexical error, no lexical error is reported, and what the
    parser gives depends on the words of the source and of its end alone. With
    one, the parser fails: it reports that error, or a syntax error that it
    reports for every source that begins with the words before the lexical
    error. So what cannot be read to the end is never accepted. -/
theorem parse_on_demand (source : String) :
    parse source = parseAhead source ∧
    (∀ lexemes eof, tokenize source = .ok lexemes →
      (Scan.ofSource source).ending = .ok eof →
      (∀ e, parse source ≠ .error (.lexical e)) ∧
      ∀ other lexemes' eof', tokenize other = .ok lexemes' →
        (Scan.ofSource other).ending = .ok eof' →
        words (lexemes' ++ [eof']) = words (lexemes ++ [eof]) → parse other = parse source) ∧
    (∀ e, tokenize source = .error e →
      parse source = .error (.lexical e) ∨
      ∃ error, parse source = .error (.grammar error) ∧
        ∀ other, words (Scan.ofSource source).lexemes <+: words (Scan.ofSource other).lexemes →
          parse other = .error (.grammar error)) ∧
    ∀ block, parse source = .ok block → ∃ lexemes, tokenize source = .ok lexemes := by
  refine ⟨parse_eq_parseAhead source, ?_, ?_, fun block => tokenize_of_parse⟩
  · intro lexemes eof htokens hending
    refine ⟨fun e hparse => ?_, fun other lexemes' eof' htokens' hending' hwords => ?_⟩
    · rw [tokenize_of_lexical hparse] at htokens
      cases htokens
    · rw [← input_of_tokenize htokens hending, ← input_of_tokenize htokens' hending'] at hwords
      exact parse_eq_of_words htokens hwords
  · intro e htokens
    rcases parse_of_error (tokenize_eq_error.mp htokens) with hlexical | ⟨error, rest, hgrammar⟩
    · exact Or.inl hlexical
    · refine Or.inr ⟨error, ?_, fun other hwords => ?_⟩
      · exact parse_of_grammar (begins_input (begins_refl _)) hgrammar
      · exact parse_of_grammar (begins_input (begins_of_words hwords)) hgrammar

/-- A parenthesis that closes nothing, before a character that starts no
    token. -/
def unmatchedSource : String := ")$"

/-- A statement and a character behind it that starts no token. -/
def brokenSource : String := "x = 1\n$"

/-- A program in one line. -/
def tightSource : String := "print(1)"

/-- The same with blanks and a comment. -/
def looseSource : String := "print ( 1 /* one */ )"

/-- The parenthesis of `unmatchedSource` is the fault of every source that begins
    with it. What is wrong with `brokenSource` is the character alone, which is
    what is reported. `looseSource` and `tightSource` have the same words. -/
theorem parse_on_demand_fourSources :
    ((∃ e, tokenize unmatchedSource = .error e) ∧
      ∃ error, parse unmatchedSource = .error (.grammar error) ∧
        ∀ other, words (Scan.ofSource unmatchedSource).lexemes <+:
            words (Scan.ofSource other).lexemes →
          parse other = .error (.grammar error)) ∧
    (∃ e, tokenize brokenSource = .error e ∧ parse brokenSource = .error (.lexical e)) ∧
    (∃ lexemes eof lexemes' eof', tokenize tightSource = .ok lexemes ∧
      (Scan.ofSource tightSource).ending = .ok eof ∧ tokenize looseSource = .ok lexemes' ∧
      (Scan.ofSource looseSource).ending = .ok eof' ∧
      words (lexemes' ++ [eof']) = words (lexemes ++ [eof]) ∧
      parse looseSource = parse tightSource) := by
  -- What is evaluated: which sources have a lexical error, and what kind of error is reported.
  have hunmatched : (tokenize unmatchedSource).isOk = false ∧
      (match parse unmatchedSource with
        | .error (.lexical _) => true
        | _ => false) = false := by
    decide +kernel
  have hbroken : (tokenize brokenSource).isOk = false ∧
      (match parse brokenSource with
        | .error (.grammar _) => true
        | _ => false) = false := by
    decide +kernel
  have hwords : words (Scan.ofSource looseSource).input =
      words (Scan.ofSource tightSource).input := by
    decide +kernel
  have hread : (tokenize tightSource).isOk = true ∧ (tokenize looseSource).isOk = true := by
    decide +kernel
  refine ⟨?_, ?_, ?_⟩
  · cases hfirst : tokenize unmatchedSource with
    | ok lexemes =>
        rw [hfirst] at hunmatched
        cases hunmatched.1
    | error e =>
        refine ⟨⟨e, rfl⟩, ?_⟩
        rcases (parse_on_demand unmatchedSource).2.2.1 e hfirst with hlexical | hgrammar
        · rw [hlexical] at hunmatched
          cases hunmatched.2
        · exact hgrammar
  · cases hfirst : tokenize brokenSource with
    | ok lexemes =>
        rw [hfirst] at hbroken
        cases hbroken.1
    | error e =>
        refine ⟨e, rfl, ?_⟩
        rcases (parse_on_demand brokenSource).2.2.1 e hfirst with hlexical | ⟨error, hgrammar, _⟩
        · exact hlexical
        · rw [hgrammar] at hbroken
          cases hbroken.2
  · cases htight : tokenize tightSource with
    | error e =>
        rw [htight] at hread
        cases hread.1
    | ok lexemes =>
        cases hloose : tokenize looseSource with
        | error e =>
            rw [hloose] at hread
            cases hread.2
        | ok lexemes' =>
            rcases tokenize_eq_ok.mp htight with ⟨eof, hending, _⟩
            rcases tokenize_eq_ok.mp hloose with ⟨eof', hending', _⟩
            rw [input_of_tokenize htight hending, input_of_tokenize hloose hending'] at hwords
            refine ⟨lexemes, eof, lexemes', eof', rfl, hending, rfl, hending', hwords, ?_⟩
            exact ((parse_on_demand tightSource).2.1 lexemes eof htight hending).2 looseSource
              lexemes' eof' hloose hending' hwords

end Scriptlet
