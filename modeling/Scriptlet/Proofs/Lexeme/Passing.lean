import Scriptlet.Lexeme.Cursor
import Scriptlet.Proofs.Lexeme.Gap

/-!
# What the Rules Pass

Each rule of the lexer moves its cursor by a number of bytes that it works out
itself, and adds the lines that it counts itself. Here each is shown to do what
it should: where it takes some text, it moves by the width of that text and adds
the line breaks of that text. `Cursor.pass` is the move that does so, for any
text, and every rule is a move of this kind.

The rules that go on behind their mark need an argument. A literal is left at
the byte behind its closing quote, and its lines are counted at two places, for
a line break that stands alone and for one behind a backslash; the walk that
does so is compared with the division of the text at its closing quote. A
comment is left two bytes behind the offset of its closing mark, and the lines
are counted in what comes before the mark, or in all that is left if there is
none.

A search applies rules until one does not skip. What it skips is the longest gap
ahead, and what it finds there is what a scan of the text finds.

## Main definitions

* `Cursor.pass`: Moves over a text and its line breaks.
* `Cursor.skipGap`: Moves over the gap ahead.

## Theorems

* `Cursor.lineBreak_eq`, `Cursor.spaces_eq`, `Cursor.number_eq`,
  `Cursor.word_eq`: The rules that stop at their match.
* `Cursor.literal_closed`, `Cursor.literal_open`: The rule for literals.
* `Cursor.comment_closed`, `Cursor.comment_open`: The rule for comments.
* `Cursor.step?_of_scan?`: Behind a gap, the rule that matches passes what is
  scanned.
* `Cursor.step?_passes`: Every rule passes the text that it takes.
* `Cursor.seek_eq`: A search passes a gap and scans what is behind it.
-/

namespace Scriptlet

/-! ### Bytes and lines of a division -/

namespace Text

theorem breaks_eq_count (text : List Char) : breaks text = text.count '\n' := by
  induction text with
  | nil => rfl
  | cons c text ih =>
      rw [breaks, ih, List.count_cons, Nat.add_comm]
      simp only [beq_iff_eq]

namespace Quoted

/-- A line break behind a backslash stands for itself. -/
theorem ne_lineBreak_of_escaped? {c d : Char} (h : escaped? c = some d) : c ≠ '\n' := by
  rintro rfl
  cases h

/-- A line break that stands alone is counted, and nothing else is. -/
theorem breaks_cons (c : Char) (text : List Char) (line : Nat) :
    (if c = '\n' then line + 1 else line) + breaks text = line + breaks (c :: text) := by
  rw [breaks]
  split
  · rw [Nat.add_assoc]
  · rw [Nat.zero_add]

theorem breaks_slash (text : List Char) : breaks ('\\' :: text) = breaks text := by
  rw [breaks, if_neg (by decide), Nat.zero_add]

/-- A walk to the closing quote has come as far as the text before the quote is
    wide, has met its line breaks and has read what it stands for. -/
theorem walkLiteral_of_some {text body after : List Char} (h : split? text = some (body, after))
    (offset line : Nat) (contents : List Char) :
    walkLiteral offset line contents text =
      (some (offset + width body, contents.reverse ++ decode body), line + breaks body) := by
  fun_induction split? text generalizing body offset line contents with
  | case1 => cases h
  | case2 rest =>
      cases h
      rw [walkLiteral, decode, List.append_nil]
      rfl
  | case3 c rest ih =>
      rcases Option.map_eq_some_iff.mp h with ⟨⟨inner, tail⟩, hrest, hpair⟩
      cases hpair
      have hwidth :
          offset + width ('\\' :: c :: inner) = offset + 1 + c.utf8Size + width inner := by
        simp only [width, Nat.add_assoc]
        rfl
      rw [walkLiteral, hwidth, breaks_slash, decode]
      cases hc : escaped? c with
      | none =>
          -- The pair stands for itself, so its line break counts.
          simp only [ih hrest, breaks_cons, List.reverse_cons, List.append_assoc,
            List.cons_append, List.nil_append]
      | some d =>
          have hplain : breaks (c :: inner) = breaks inner := by
            rw [breaks, if_neg (ne_lineBreak_of_escaped? hc), Nat.zero_add]
          simp only [ih hrest, hplain, List.reverse_cons, List.append_assoc, List.cons_append,
            List.nil_append]
  | case4 c rest hquote hslash ih =>
      rcases Option.map_eq_some_iff.mp h with ⟨⟨inner, tail⟩, hrest, hpair⟩
      cases hpair
      -- A backslash would open a pair, or leave nothing to close the literal.
      have hplain : c ≠ '\\' := by
        rintro rfl
        cases rest with
        | nil => cases hrest
        | cons d rest => exact hslash d rest rfl rfl
      rw [walkLiteral, ih hrest, breaks_cons, decode, width, Nat.add_assoc, List.reverse_cons,
        List.append_assoc, List.singleton_append]
      · exact fun _ _ hc => absurd hc hplain
      · exact hquote
      · exact fun hc => absurd hc hplain
      · exact fun _ _ hc => absurd hc hplain

/-- A walk that finds no closing quote has met all line breaks. -/
theorem walkLiteral_of_none {text : List Char} (h : split? text = none) (offset line : Nat)
    (contents : List Char) :
    walkLiteral offset line contents text = (none, line + breaks text) := by
  fun_induction walkLiteral offset line contents text with
  | case1 offset line contents => rfl
  | case2 offset line contents rest => cases h
  | case3 offset line contents => rfl
  | case4 offset line contents c rest d hc ih =>
      rw [split?, Option.map_eq_none_iff] at h
      rw [ih h, breaks_slash, breaks, if_neg (ne_lineBreak_of_escaped? hc), Nat.zero_add]
  | case5 offset line contents c rest hc next ih =>
      rw [split?, Option.map_eq_none_iff] at h
      rw [ih h, breaks_slash, breaks_cons]
  | case6 offset line contents c rest hquote hlast hpair next ih =>
      rw [split?, Option.map_eq_none_iff] at h
      · rw [ih h, breaks_cons]
      · exact hquote
      · exact hpair

end Quoted

/-- A closing mark is found at the width of the text before it. -/
theorem findClosing?_of_some {text found after : List Char}
    (h : closing? text = some (found, after)) :
    ∃ body, found = body ++ ['*', '/'] ∧ findClosing? text = some (width body) := by
  fun_induction closing? text generalizing found with
  | case1 => cases h
  | case2 rest =>
      cases h
      exact ⟨[], rfl, rfl⟩
  | case3 c rest hmark ih =>
      rcases Option.map_eq_some_iff.mp h with ⟨⟨inner, tail⟩, hrest, hpair⟩
      cases hpair
      rcases ih hrest with ⟨body, rfl, hfind⟩
      refine ⟨c :: body, rfl, ?_⟩
      rw [findClosing?, hfind, Option.map_some, width]
      exact hmark

theorem findClosing?_of_none {text : List Char} (h : closing? text = none) :
    findClosing? text = none := by
  fun_induction closing? text with
  | case1 => rfl
  | case2 rest => cases h
  | case3 c rest hmark ih =>
      rw [Option.map_eq_none_iff] at h
      rw [findClosing?, ih h, Option.map_none]
      exact hmark

end Text

/-! ### Rules -/

namespace Cursor

/-- The place behind `text`, where `rest` is ahead. -/
def pass (cursor : Cursor) (text rest : List Char) : Cursor :=
  { rest := rest
    offset := cursor.offset + Text.width text
    line := cursor.line + Text.breaks text }

/-- The place behind the gap that is ahead. -/
def skipGap (cursor : Cursor) : Cursor :=
  cursor.pass (gap cursor.rest).1 (gap cursor.rest).2

variable {cursor : Cursor} {text rest : List Char}

theorem pass_pass (first second middle : List Char) :
    (cursor.pass first middle).pass second rest = cursor.pass (first ++ second) rest := by
  simp only [pass, Text.width_append, Text.breaks_append, Nat.add_assoc]

section Ahead

variable (h : cursor.rest = text ++ rest)

include h

/-- To move by the width of some text ahead is to pass it, apart from lines. -/
theorem bump_width : (cursor.bump (Text.width text)).addLines (Text.breaks text) =
    cursor.pass text rest := by
  rw [bump, h, Text.dropBytes_width]
  rfl

/-- Text without line breaks is passed by its width alone. -/
theorem bump_of_unbroken (hbreaks : Text.breaks text = 0) :
    cursor.bump (Text.width text) = cursor.pass text rest := by
  rw [← bump_width h, hbreaks]
  rfl

theorem upTo_pass : cursor.upTo (cursor.pass text rest) = text := by
  rw [upTo, pass, Nat.add_sub_cancel_left, h, Text.takeBytes_width]

end Ahead

/-- A run that line breaks do not belong to has none. -/
theorem breaks_takeWhile {p : Char → Bool} (hp : p '\n' = false) (text : List Char) :
    Text.breaks (text.takeWhile p) = 0 := by
  rw [Text.breaks_eq_count, List.count_eq_zero]
  intro hmem
  have hall := List.all_eq_true.mp (List.all_takeWhile (p := p) (l := text)) _ hmem
  rw [hp] at hall
  cases hall

/-- A run that line breaks do not belong to is passed by its width alone. -/
theorem bump_takeWhile {p : Char → Bool} (hp : p '\n' = false) (cursor : Cursor) :
    cursor.bump (Text.width (cursor.rest.takeWhile p)) =
      cursor.pass (cursor.rest.takeWhile p) (cursor.rest.dropWhile p) :=
  bump_of_unbroken List.takeWhile_append_dropWhile.symm (breaks_takeWhile hp _)

/-- A character that is no line break is passed by its width. -/
theorem bump_of_ne {c : Char} (h : cursor.rest = c :: rest) (hc : c ≠ '\n') :
    cursor.bump c.utf8Size = cursor.pass [c] rest := by
  have hrest : cursor.rest = [c] ++ rest := h
  refine bump_of_unbroken hrest ?_
  rw [Text.breaks, if_neg hc]
  rfl

/-! ### Rules that stop at their match -/

/-- A line break is passed by one byte and one line. -/
theorem lineBreak_eq (h : cursor.rest = '\n' :: rest) :
    cursor.lineBreak = cursor.pass ['\n'] rest := by
  have hrest : cursor.rest = ['\n'] ++ rest := h
  exact bump_width hrest

theorem spaces_eq (cursor : Cursor) :
    cursor.spaces =
      cursor.pass (cursor.rest.takeWhile isSpace) (cursor.rest.dropWhile isSpace) :=
  bump_takeWhile (by decide) cursor

theorem number_eq (cursor : Cursor) :
    cursor.number = ((scanNumber cursor.rest).outcome,
      cursor.pass (scanNumber cursor.rest).text (scanNumber cursor.rest).rest) := by
  by_cases hpoint : ∃ rest, cursor.rest.dropWhile Char.isDigit = '.' :: rest
  · rcases hpoint with ⟨rest, hpoint⟩
    have hrest : cursor.rest = (cursor.rest.takeWhile Char.isDigit ++
        '.' :: rest.takeWhile Char.isDigit) ++ rest.dropWhile Char.isDigit := by
      rw [List.append_assoc, List.cons_append, List.takeWhile_append_dropWhile, ← hpoint,
        List.takeWhile_append_dropWhile]
    -- The digits, the point and the digits behind it, none of them a line break.
    have hbreaks : Text.breaks (cursor.rest.takeWhile Char.isDigit ++
        '.' :: rest.takeWhile Char.isDigit) = 0 := by
      rw [Text.breaks_append, Text.breaks, breaks_takeWhile (by decide), if_neg (by decide),
        breaks_takeWhile (by decide)]
    simp only [number, scanNumber, hpoint, ← bump_of_unbroken hrest hbreaks, Text.width_append,
      Text.width, Nat.add_assoc]
    rfl
  · have hnumber : cursor.number = (integerToken (cursor.rest.takeWhile Char.isDigit),
        cursor.bump (Text.width (cursor.rest.takeWhile Char.isDigit))) := by
      unfold number
      split
      · rename_i rest hrest
        exact absurd ⟨rest, hrest⟩ hpoint
      · rfl
    have hscan : scanNumber cursor.rest =
        { outcome := integerToken (cursor.rest.takeWhile Char.isDigit)
          text := cursor.rest.takeWhile Char.isDigit
          rest := cursor.rest.dropWhile Char.isDigit } := by
      unfold scanNumber
      split
      · rename_i rest hrest
        exact absurd ⟨rest, hrest⟩ hpoint
      · rfl
    rw [hnumber, hscan, bump_takeWhile (by decide) cursor]

theorem word_eq (cursor : Cursor) :
    cursor.word = ((scanWord cursor.rest).outcome,
      cursor.pass (scanWord cursor.rest).text (scanWord cursor.rest).rest) := by
  have hbump : cursor.bump (Text.width (cursor.rest.takeWhile isWordPart)) = _ :=
    bump_takeWhile (by decide) cursor
  rw [word, hbump]
  rfl

/-! ### Literals -/

/-- A literal that is closed is passed up to and with its closing quote. -/
theorem literal_closed {body after : List Char}
    (h : Text.Quoted.split? cursor.rest = some (body, after)) :
    cursor.literal = (.ok (.string (String.ofList (Text.Quoted.decode body))),
      cursor.pass (body ++ ['"']) after) := by
  have hrest : cursor.rest = (body ++ ['"']) ++ after := by
    rw [Text.Quoted.split?_eq_some h, List.append_assoc, List.singleton_append]
  have hwidth : Text.width (body ++ ['"']) = Text.width body + 1 := by
    rw [Text.width_append]
    rfl
  have hbreaks : Text.breaks (body ++ ['"']) = Text.breaks body := by
    rw [Text.breaks_append]
    rfl
  rw [literal, Text.Quoted.walkLiteral_of_some h, Nat.zero_add, ← bump_width hrest, hwidth,
    hbreaks]
  rfl

/-- One that is not closed is passed with all that is behind it. -/
theorem literal_open (h : Text.Quoted.split? cursor.rest = none) :
    cursor.literal = (.error .unterminatedString, cursor.pass cursor.rest []) := by
  have hrest : cursor.rest = cursor.rest ++ [] := (List.append_nil _).symm
  rw [literal, Text.Quoted.walkLiteral_of_none h, ← bump_width hrest]
  rfl

/-! ### Comments -/

theorem bump_addLines (cursor : Cursor) (bytes lines : Nat) :
    (cursor.addLines lines).bump bytes = (cursor.bump bytes).addLines lines := rfl

/-- A comment that is closed is passed up to and with its closing mark. -/
theorem comment_closed {found after : List Char} (h : closing? cursor.rest = some (found, after)) :
    cursor.comment = (none, cursor.pass found after) := by
  have hrest := closing?_eq_some h
  rcases Text.findClosing?_of_some h with ⟨body, rfl, hfind⟩
  have hwidth : Text.width (body ++ ['*', '/']) = Text.width body + 2 := by
    rw [Text.width_append]
    rfl
  have hbreaks : Text.breaks (body ++ ['*', '/']) = Text.breaks body := by
    rw [Text.breaks_append]
    rfl
  have hbody : Text.takeBytes (Text.width body) cursor.rest = body := by
    rw [hrest, List.append_assoc, Text.takeBytes_width]
  rw [comment, hfind, ← bump_width hrest, hwidth, hbreaks, Text.breaks_eq_count]
  simp only [hbody, bump_addLines]

/-- One that is not closed is passed with all that is behind it. -/
theorem comment_open (h : closing? cursor.rest = none) :
    cursor.comment = (some (.error .unterminatedComment), cursor.pass cursor.rest []) := by
  have hrest : cursor.rest = cursor.rest ++ [] := (List.append_nil _).symm
  rw [comment, Text.findClosing?_of_none h, ← bump_width hrest, Text.breaks_eq_count]
  rfl

/-! ### The rule that matches -/

theorem step?_cons {c : Char} (h : cursor.rest = c :: rest) (hline : c ≠ '\n')
    (hblank : ¬ Text.isBlank c = true) :
    cursor.step? =
      if c.isDigit then some (cursor.number.map some id)
      else if isWordStart c then some (cursor.word.map some id)
      else if c = '"' then some ((cursor.bump 1).literal.map some id)
      else if c = '/' ∧ rest.head? = some '*' then some (cursor.bump 2).comment
      else match Mark.ofChar? c with
        | some mark => some (some (.ok (.mark mark)), cursor.bump 1)
        | none => some (some (.error .unrecognizedCharacter), cursor.bump c.utf8Size) := by
  rw [step?, h]
  exact (if_neg hline).trans (if_neg hblank)

/-- A blank is skipped with all blanks behind it, but a line break alone. -/
theorem step?_blank {c : Char} (h : cursor.rest = c :: rest) (hblank : Text.isBlank c = true) :
    ∃ skipped behind, IsGap skipped ∧ cursor.rest = skipped ++ behind ∧
      cursor.step? = some (none, cursor.pass skipped behind) := by
  by_cases hline : c = '\n'
  · subst hline
    refine ⟨['\n'], rest, .blank hblank .nil, h, ?_⟩
    rw [← lineBreak_eq h, step?, h]
    rfl
  · refine ⟨cursor.rest.takeWhile isSpace, cursor.rest.dropWhile isSpace, ?_,
      List.takeWhile_append_dropWhile.symm, ?_⟩
    · refine isGap_of_blank fun d hmem => ?_
      have hspace := List.all_eq_true.mp List.all_takeWhile d hmem
      simp only [isSpace, Bool.and_eq_true] at hspace
      exact hspace.1
    · rw [← spaces_eq, step?, h]
      simp only [if_neg hline, if_pos hblank]

/-- The opening mark of a comment is passed by its two bytes. -/
theorem step?_mark (h : cursor.rest = '/' :: '*' :: rest) :
    cursor.step? = some (cursor.pass ['/', '*'] rest).comment := by
  have hrest : cursor.rest = ['/', '*'] ++ rest := h
  rw [step?_cons h (by decide) (by decide), ← bump_of_unbroken hrest (by decide)]
  rfl

/-- A closed comment is skipped. -/
theorem step?_comment {found tail : List Char} (h : comment? cursor.rest = some (found, tail)) :
    cursor.step? = some (none, cursor.pass found tail) := by
  unfold comment? at h
  split at h
  · rename_i rest hrest
    rcases Option.map_eq_some_iff.mp h with ⟨⟨body, behind⟩, hbody, hpair⟩
    cases hpair
    have hclosed : closing? (cursor.pass ['/', '*'] rest).rest = some (body, tail) := hbody
    rw [step?_mark hrest, comment_closed hclosed, pass_pass]
    rfl
  · cases h

theorem step?_literal (h : cursor.rest = '"' :: rest) :
    cursor.step? = some (some (scanString rest).outcome,
      cursor.pass (scanString rest).text (scanString rest).rest) := by
  have hquote : cursor.bump 1 = cursor.pass ['"'] rest := bump_of_ne h (by decide)
  have hstep : cursor.step? = some ((cursor.pass ['"'] rest).literal.map some id) := by
    rw [step?_cons h (by decide) (by decide), hquote]
    rfl
  rw [hstep, scanString]
  cases hsplit : Text.Quoted.split? rest with
  | none =>
      rw [literal_open hsplit]
      exact congrArg some (congrArg _ (pass_pass ['"'] rest rest))
  | some division =>
      rw [literal_closed hsplit, pass_pass]
      rfl

/-- A comment that is not closed is at fault. -/
theorem step?_open (h : cursor.rest = '/' :: '*' :: rest) (hopen : closing? rest = none) :
    cursor.step? = some (some (.error .unterminatedComment), cursor.pass cursor.rest []) := by
  have hrest : closing? (cursor.pass ['/', '*'] rest).rest = none := hopen
  rw [step?_mark h, comment_open hrest, h]
  exact congrArg some (congrArg _ (pass_pass ['/', '*'] rest rest))

theorem closing?_of_solid (h : Solid ('/' :: '*' :: rest)) : closing? rest = none := by
  cases hclosed : closing? rest with
  | none => rfl
  | some division =>
      rcases closing?_iff.mp hclosed with ⟨body, _, _, hrest⟩
      refine absurd ⟨body, division.2, ?_⟩ (not_closed_of_solid h)
      rw [hrest, List.append_assoc]
      rfl

/-- Where no gap starts, the rule that matches passes what is scanned and makes
    the same of it. -/
theorem step?_of_scan? {scanned : Scanned} (hsolid : Solid cursor.rest)
    (h : scan? cursor.rest = some scanned) :
    cursor.step? = some (some scanned.outcome, cursor.pass scanned.text scanned.rest) := by
  cases hrest : cursor.rest with
  | nil =>
      rw [hrest] at h
      cases h
  | cons c rest =>
      rw [hrest] at h hsolid
      have hblank := not_isBlank_of_solid hsolid
      have hline : c ≠ '\n' := by
        rintro rfl
        exact hblank (by decide)
      have hstep := step?_cons hrest hline hblank
      have hchar := bump_of_ne hrest hline
      rw [scan?] at h
      -- Both decide by the same tests in the same order.
      by_cases hdigit : c.isDigit = true
      · rw [if_pos hdigit] at h hstep
        cases h
        rw [hstep, number_eq, hrest]
        rfl
      rw [if_neg hdigit] at h hstep
      by_cases hword : isWordStart c = true
      · rw [if_pos hword] at h hstep
        cases h
        rw [hstep, word_eq, hrest]
        rfl
      rw [if_neg hword] at h hstep
      by_cases hquote : c = '"'
      · rw [if_pos hquote] at h
        cases h
        exact step?_literal (hquote ▸ hrest)
      rw [if_neg hquote] at h hstep
      by_cases hopen : c = '/' ∧ rest.head? = some '*'
      · rw [if_pos hopen] at h
        cases h
        rcases hopen with ⟨rfl, hstar⟩
        cases rest with
        | nil => cases hstar
        | cons d rest =>
            cases hstar
            rw [step?_open hrest (closing?_of_solid hsolid), hrest]
      rw [if_neg hopen] at h hstep
      rw [hstep]
      cases hmark : Mark.ofChar? c with
      | some mark =>
          simp only [hmark] at h
          cases h
          have hsize : c.utf8Size = 1 := by
            rw [← Mark.char_of_ofChar? hmark, Mark.utf8Size_char]
          rw [hsize] at hchar
          simp only [hchar]
      | none =>
          simp only [hmark] at h
          cases h
          simp only [hchar]

/-! ### Searches -/

/-- Either a gap is ahead and a part of it is skipped, or text that no gap starts
    is scanned. -/
theorem step?_eq (cursor : Cursor) :
    (∃ skipped behind, IsGap skipped ∧ cursor.rest = skipped ++ behind ∧
      cursor.step? = some (none, cursor.pass skipped behind)) ∨
    Solid cursor.rest ∧ cursor.step? = (scan? cursor.rest).map fun scanned =>
      (some scanned.outcome, cursor.pass scanned.text scanned.rest) := by
  cases hrest : cursor.rest with
  | nil =>
      refine Or.inr ⟨solid_nil, ?_⟩
      rw [step?, hrest]
      rfl
  | cons c rest =>
      rw [← hrest]
      by_cases hblank : Text.isBlank c = true
      · exact Or.inl (step?_blank hrest hblank)
      cases hcomment : comment? cursor.rest with
      | some division =>
          rcases division with ⟨found, tail⟩
          rcases comment?_eq_some_iff.mp hcomment with ⟨body, hbody, rfl, hdivided⟩
          refine Or.inl ⟨_, tail, .comment hbody .nil, ?_, step?_comment hcomment⟩
          simp only [hdivided, List.cons_append, List.append_assoc, List.nil_append]
      | none =>
          have hsolid : Solid cursor.rest := by
            rw [hrest] at hcomment ⊢
            exact solid_of_comment? hblank hcomment
          refine Or.inr ⟨hsolid, ?_⟩
          cases hscan : scan? cursor.rest with
          | none =>
              rw [scan?_eq_none.mp hscan] at hrest
              cases hrest
          | some scanned => exact step?_of_scan? hsolid hscan

/-- Whatever a rule makes of some text, it moves by the width of the text and adds
    the line breaks of the text. -/
theorem step?_passes {after : Cursor} {made : Option (Except LexicalFault Token)}
    (h : cursor.step? = some (made, after)) :
    ∃ taken, cursor.rest = taken ++ after.rest ∧ after = cursor.pass taken after.rest := by
  rcases step?_eq cursor with ⟨skipped, behind, _, hrest, hskip⟩ | ⟨_, hscan⟩
  · rw [hskip] at h
    cases h
    exact ⟨skipped, hrest, rfl⟩
  · rw [hscan] at h
    rcases Option.map_eq_some_iff.mp h with ⟨scanned, hscanned, hpair⟩
    cases hpair
    exact ⟨scanned.text, (scan?_append hscanned).symm, rfl⟩

theorem skipGap_of_solid (h : Solid cursor.rest) : cursor.skipGap = cursor := by
  rw [skipGap, h]
  rfl

/-- A part of the gap ahead that is passed beforehand makes no difference. -/
theorem skipGap_pass {skipped : List Char} (h : IsGap skipped)
    (hrest : cursor.rest = skipped ++ rest) :
    (cursor.pass skipped rest).skipGap = cursor.skipGap := by
  rw [skipGap, pass_pass, skipGap, hrest, gap_append_isGap h]
  rfl

/-- A search passes the gap ahead, and comes to what a scan of the text behind it
    comes to. -/
theorem seek_eq (cursor : Cursor) :
    cursor.seek = (cursor.skipGap, (scan? cursor.skipGap.rest).map fun scanned =>
      (scanned.outcome, cursor.skipGap.pass scanned.text scanned.rest)) := by
  fun_induction seek cursor with
  | case1 cursor hstep =>
      rcases step?_eq cursor with ⟨_, _, _, _, hskip⟩ | ⟨hsolid, hscan⟩
      · rw [hskip] at hstep
        cases hstep
      · rw [hscan, Option.map_eq_none_iff] at hstep
        rw [skipGap_of_solid hsolid, hstep]
        rfl
  | case2 cursor after hstep ih =>
      rcases step?_eq cursor with ⟨skipped, behind, hgap, hrest, hskip⟩ | ⟨hsolid, hscan⟩
      · rw [hskip] at hstep
        cases hstep
        rw [ih, skipGap_pass hgap hrest]
      · rw [hscan, Option.map_eq_some_iff] at hstep
        rcases hstep with ⟨scanned, _, hpair⟩
        cases hpair
  | case3 cursor outcome after hstep =>
      rcases step?_eq cursor with ⟨_, _, _, _, hskip⟩ | ⟨hsolid, hscan⟩
      · rw [hskip] at hstep
        cases hstep
      · rw [hscan, Option.map_eq_some_iff] at hstep
        rcases hstep with ⟨scanned, hscanned, hpair⟩
        cases hpair
        rw [skipGap_of_solid hsolid, hscanned]
        rfl

end Cursor

end Scriptlet
