import Scriptlet.Pipeline
import Scriptlet.Proofs.Lexeme.Readings

/-!
# Writing Tokens and Reading Them Back

Tokens can be written one after another, each with its own text and with some
gap between two of them. Whatever the gaps are, as long as none is empty, the
tokens are read back as they were. One blank between two tokens is one way to
write them, so a source that is written anew from its tokens has the same ones.

The gap is what keeps two tokens apart. It starts with a blank or a slash, and
neither goes on with the token before it; and it is skipped as a whole, because
the next token starts with neither a blank nor a comment.

## Main definitions

* `Written`: A text is some tokens with gaps between them.

## Theorems

* `scan_of_text`: A token behind a gap is the next lexeme.
* `scan_of_written`: Written tokens are read back.
* `written_renderTokens`: One blank between two tokens is a way to write them.
* `written_tokens_read_back`: The same for sources, and what the tokens of a
  source are.
-/

namespace Scriptlet

/-- A text is some tokens, one after another, with a gap between two of them
    that is not empty. -/
inductive Written : List Token → List Char → Prop where
  | nil : Written [] []
  | last (token : Token) : Written [token] token.text.toList
  | cons (token : Token) {next : Token} {tokens : List Token} {skipped text : List Char}
      (gap : IsGap skipped) (some : skipped ≠ []) (rest : Written (next :: tokens) text) :
      Written (token :: next :: tokens) (token.text.toList ++ (skipped ++ text))

theorem parted_nil : Parted [] := by
  intro c h
  cases h

/-- A gap that is not empty goes on with no token before it. -/
theorem parted_of_isGap {skipped : List Char} (h : IsGap skipped) (hsome : skipped ≠ [])
    (text : List Char) : Parted (skipped ++ text) := by
  intro c hc
  cases h with
  | nil => exact absurd rfl hsome
  | blank blank _ =>
      cases hc
      exact Or.inl blank
  | comment _ _ =>
      cases hc
      exact Or.inr rfl

/-- Where only a gap is ahead, there is no lexeme. -/
theorem scan_of_isGap {cursor : Cursor} (h : IsGap cursor.rest) :
    cursor.scan = { lexemes := [], ending := .ok cursor.skipGap.eof } := by
  have hgap : gap cursor.rest = (cursor.rest, []) := by
    have hskip := gap_append_solid h solid_nil
    rwa [List.append_nil] at hskip
  have hend : cursor.skipGap.rest = [] := by
    rw [Cursor.skipGap, hgap]
    rfl
  exact scan_of_none (read?_eq_none.mpr hend)

/-- A token behind a gap is the next lexeme, if what follows is parted from
    it. -/
theorem scan_of_text {cursor : Cursor} {token : Token} {skipped rest : List Char}
    (htoken : token.WellFormed) (hskipped : IsGap skipped) (hparted : Parted rest)
    (h : cursor.rest = skipped ++ (token.text.toList ++ rest)) :
    ∃ lexeme after, lexeme.token = token ∧ after.rest = rest ∧
      cursor.scan = { Cursor.scan after with lexemes := lexeme :: after.scan.lexemes } := by
  have hscan := scan?_text htoken hparted
  have hskip : cursor.skipGap.rest = token.text.toList ++ rest := by
    rw [Cursor.skipGap, h, gap_append_solid hskipped (solid_of_scan? hscan rfl)]
    rfl
  rw [← hskip] at hscan
  exact ⟨_, _, rfl, rfl, scan_of_ok (read?_of_scan? hscan rfl)⟩

/-- Written tokens are read back, and the end of the input comes behind them. -/
theorem scan_of_written {tokens : List Token} {text : List Char} (h : Written tokens text)
    (htokens : ∀ token ∈ tokens, token.WellFormed) {cursor : Cursor} {skipped : List Char}
    (hskipped : IsGap skipped) (hrest : cursor.rest = skipped ++ text) :
    cursor.scan.lexemes.map Lexeme.token = tokens ∧ ∃ eof, cursor.scan.ending = .ok eof := by
  -- On how the text was written, for every cursor with a gap before the text.
  induction h generalizing cursor skipped with
  | nil =>
      rw [List.append_nil] at hrest
      rw [scan_of_isGap (hrest ▸ hskipped)]
      exact ⟨rfl, _, rfl⟩
  | last token =>
      rw [← List.append_nil token.text.toList] at hrest
      rcases scan_of_text (htokens token List.mem_cons_self) hskipped parted_nil hrest with
        ⟨lexeme, after, rfl, hafter, hscan⟩
      rw [hscan, scan_of_isGap (hafter ▸ .nil)]
      exact ⟨rfl, _, rfl⟩
  | cons token gap some rest ih =>
      rcases scan_of_text (htokens token List.mem_cons_self) hskipped
        (parted_of_isGap gap some _) hrest with ⟨lexeme, after, rfl, hafter, hscan⟩
      have hlater := ih (fun token hmem => htokens token (List.mem_cons_of_mem _ hmem)) gap hafter
      rw [hscan]
      exact ⟨congrArg (lexeme.token :: ·) hlater.1, hlater.2⟩

/-! ### Sources -/

theorem tokenize_of_written {tokens : List Token} {text : String}
    (h : Written tokens text.toList) (htokens : ∀ token ∈ tokens, token.WellFormed) :
    ∃ lexemes, tokenize text = .ok lexemes ∧ lexemes.map Lexeme.token = tokens := by
  have hrest : (Cursor.start text).rest = [] ++ text.toList := rfl
  rcases scan_of_written h htokens .nil hrest with ⟨hread, eof, hending⟩
  exact ⟨_, tokenize_eq_ok.mpr ⟨eof, hending, rfl⟩, hread⟩

/-- One blank between two tokens is a way to write them. -/
theorem written_renderTokens (tokens : List Token) :
    Written tokens (renderTokens tokens).toList := by
  rw [renderTokens]
  induction tokens with
  | nil => exact .nil
  | cons token tokens ih =>
      cases tokens with
      | nil =>
          rw [List.map_singleton, String.intercalate_singleton]
          exact .last token
      | cons next tokens =>
          rw [List.map_cons, List.map_cons, String.intercalate_cons_cons, String.toList_append,
            String.toList_append, List.append_assoc]
          exact .cons token (.blank rfl .nil) (List.cons_ne_nil _ _) ih

theorem wellFormed_of_tokenize {source : String} {lexemes : List Lexeme}
    (h : tokenize source = .ok lexemes) : ∀ token ∈ lexemes.map Lexeme.token, token.WellFormed := by
  rcases tokenize_eq_ok.mp h with ⟨_, _, rfl⟩
  intro token hmem
  rcases List.mem_map.mp hmem with ⟨lexeme, hlexeme, rfl⟩
  exact wellFormed_of_mem hlexeme

theorem wellFormed_of_next {cursor : Cursor} {lexeme : Lexeme} (h : cursor.next.1 = .ok lexeme) :
    lexeme.token = .eof ∨ lexeme.token.WellFormed := by
  cases hread : cursor.read? with
  | none =>
      rw [next_of_none hread] at h
      cases h
      exact Or.inl rfl
  | some pair =>
      rcases pair with ⟨reading, after⟩
      rw [next_of_some hread] at h
      cases h
      exact Or.inr (read?_wellFormed hread)

/-- What is read is a well-formed token or the end of the input, which is not
    among the lexemes of a source. Well-formed tokens are read back from every
    text that writes them, and so are those of a source from the source that is
    written anew. -/
theorem written_tokens_read_back :
    (∀ (cursor : Cursor) (lexeme : Lexeme), cursor.next.1 = .ok lexeme →
      lexeme.token = .eof ∨ lexeme.token.WellFormed) ∧
    (∀ source lexemes, tokenize source = .ok lexemes →
      ∀ token ∈ lexemes.map Lexeme.token, token.WellFormed) ∧
    (∀ tokens (text : String), (∀ token ∈ tokens, token.WellFormed) →
      Written tokens text.toList →
      ∃ lexemes, tokenize text = .ok lexemes ∧ lexemes.map Lexeme.token = tokens) ∧
    (∀ tokens, Written tokens (renderTokens tokens).toList) ∧
    ∀ source lexemes, tokenize source = .ok lexemes →
      ∃ text lexemes', render source = .ok text ∧ tokenize text = .ok lexemes' ∧
        lexemes'.map Lexeme.token = lexemes.map Lexeme.token := by
  refine ⟨fun cursor lexeme => wellFormed_of_next, fun source lexemes => wellFormed_of_tokenize,
    fun tokens text htokens h => tokenize_of_written h htokens, written_renderTokens, ?_⟩
  intro source lexemes h
  rcases tokenize_of_written (written_renderTokens (lexemes.map Lexeme.token))
    (wellFormed_of_tokenize h) with ⟨lexemes', hread, hsame⟩
  refine ⟨_, lexemes', ?_, hread, hsame⟩
  rw [render, h]
  rfl

/-- Tokens that could be taken for others: a slash and a star, a string with a
    quote and a backslash in it, a name that starts like a keyword, and the
    largest integer. -/
def crowdedTokens : List Token :=
  [.mark .slash, .mark .star, .string "\"\\é\n", .name "iffy", .integer 9223372036854775807]

/-- The same tokens with comments and blanks between them. -/
def crowdedSource : String :=
  "//**/*/*/ **/\u2028\"\\\"\\\\é\\n\"\niffy\t9223372036854775807"

/-- The tokens of `crowdedSource` are read back from it. -/
theorem written_tokens_read_back_crowded :
    (∀ token ∈ crowdedTokens, token.WellFormed) ∧ Written crowdedTokens crowdedSource.toList ∧
      ∃ lexemes, tokenize crowdedSource = .ok lexemes ∧
        lexemes.map Lexeme.token = crowdedTokens := by
  have htokens : ∀ token ∈ crowdedTokens, token.WellFormed := by
    simp only [crowdedTokens, List.forall_mem_cons]
    refine ⟨.mark _, .mark _, .string _, .name ?_ ?_, .integer ?_, fun _ hnone => nomatch hnone⟩
    · decide +kernel
    · decide
    · decide
  have hsource : crowdedSource.toList =
      (Token.mark .slash).text.toList ++ (['/', '*', '*', '/'] ++
        ((Token.mark .star).text.toList ++ (['/', '*', '/', ' ', '*', '*', '/', '\u2028'] ++
          ((Token.string "\"\\é\n").text.toList ++ (['\n'] ++
            ((Token.name "iffy").text.toList ++ (['\t'] ++
              (Token.integer 9223372036854775807).text.toList))))))) := by
    decide +kernel
  have hwritten : Written crowdedTokens crowdedSource.toList := by
    rw [hsource]
    refine .cons _ ?_ (List.cons_ne_nil _ _) <| .cons _ ?_ (List.cons_ne_nil _ _) <|
      .cons _ (.blank rfl .nil) (List.cons_ne_nil _ _) <|
      .cons _ (.blank rfl .nil) (List.cons_ne_nil _ _) <| .last _
    · exact @IsGap.comment [] [] (by decide) .nil
    · exact @IsGap.comment ['/', ' ', '*'] ['\u2028'] (by decide) (.blank (by decide) .nil)
  exact ⟨htokens, hwritten, written_tokens_read_back.2.2.1 _ _ htokens hwritten⟩

end Scriptlet
