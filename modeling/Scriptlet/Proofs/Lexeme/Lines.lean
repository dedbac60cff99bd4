import Scriptlet.Proofs.Lexeme.Tiling

/-!
# Lines of Lexemes

A lexeme's line can be read off the source: it is one more than the number of
line feeds in front of the lexeme's end. It makes no difference what the line
feeds stand in. They may be blanks, or stand in comments, in literals, behind a
backslash or in text at fault, and the text at fault may be a literal or a
comment that takes all the rest.

The lexer counts at five places: in the rule for line breaks, at two characters
of a literal, and in comments with and without an end. Each rule counts the
line breaks of exactly the text that it moves over, so one rule keeps the line
exact, and with it a search, a reading and any number of readings.

The count is over bytes, as spans are. No other character has the byte of a
line feed in its UTF-8 form, so it is the same as a count over characters; that
is what makes it add up along the text that a cursor passes. The invariant is
the statement itself, made of cursors: a cursor's line is one more than the
number of line feeds before its offset.

## Main definitions

* `lineFeeds`, `lineFeedsBefore`: The line feeds among the bytes of a source,
  and among those before an offset.
* `Cursor.Counted`: A cursor's line is exact.

## Theorems

* `count_utf8EncodeChar`: Only a line feed has the byte of a line feed.
* `lineFeedsBefore_pass`: Passing text passes its line breaks.
* `counted_step?`, `counted_seek`, `counted_next`: A rule, a search and a reading
  keep the line exact.
* `counted_after`: Every cursor of a source has an exact line.
* `lexeme_line_exact`: So has every lexeme.
-/

namespace Scriptlet

/-- The bytes of a source. -/
def bytesOf (source : String) : List UInt8 := source.toByteArray.data.toList

/-- The line feeds of a source. -/
def lineFeeds (source : String) : Nat := (bytesOf source).count 0x0A

/-- The line feeds among the bytes of a source before an offset. -/
def lineFeedsBefore (source : String) (offset : Nat) : Nat :=
  ((bytesOf source).take offset).count 0x0A

/-! ### Bytes and characters -/

theorem bytesOf_eq {source : String} {text : List Char} (h : source.toList = text) :
    bytesOf source = text.flatMap String.utf8EncodeChar := by
  rw [bytesOf, ← String.utf8Encode_toList, h, List.utf8Encode, List.toList_data_toByteArray]

/-- A character beyond the ASCII ones is written in bytes with the highest bit
    set. -/
theorem high_of_mem_utf8EncodeChar {c : Char} (h : ¬ c.val.toNat ≤ 127) :
    ∀ byte ∈ String.utf8EncodeChar c, 128 ≤ byte.toNat := by
  unfold String.utf8EncodeChar
  simp only [if_neg h]
  -- Two, three or four bytes.
  repeat' split
  all_goals
    simp only [List.forall_mem_cons, List.not_mem_nil, false_imp_iff, implies_true, and_true,
      UInt8.toNat_ofNat']
    omega

/-- The UTF-8 form of a character has the byte of a line feed once if the
    character is one, and else not at all. -/
theorem count_utf8EncodeChar (c : Char) :
    (String.utf8EncodeChar c).count 0x0A = if c = '\n' then 1 else 0 := by
  by_cases hsize : c.val.toNat ≤ 127
  · -- One byte, which is the code point.
    have hone : c.utf8Size = 1 := Char.utf8Size_eq_one_iff.mpr (UInt32.le_iff_toNat_le.mpr hsize)
    rw [String.utf8EncodeChar_eq_singleton hone, List.count_singleton]
    have hbyte : (c.val.toUInt8 == 0x0A) = true ↔ c = '\n' := by
      rw [beq_iff_eq, ← UInt8.toNat_inj, UInt32.toNat_toUInt8, Char.ext_iff, ← UInt32.toNat_inj]
      change c.val.toNat % 256 = 10 ↔ c.val.toNat = 10
      omega
    simp only [hbyte]
  · have hne : c ≠ '\n' := by
      rintro rfl
      exact hsize (by decide)
    rw [if_neg hne, List.count_eq_zero]
    intro hmem
    exact absurd (high_of_mem_utf8EncodeChar hsize _ hmem) (by decide)

theorem count_bytes (text : List Char) :
    (text.flatMap String.utf8EncodeChar).count 0x0A = Text.breaks text := by
  induction text with
  | nil => rfl
  | cons c text ih =>
      rw [List.flatMap_cons, List.count_append, count_utf8EncodeChar, ih, Text.breaks]

theorem lineFeeds_eq (source : String) : lineFeeds source = Text.breaks source.toList := by
  rw [lineFeeds, bytesOf_eq rfl, count_bytes]

theorem length_bytes (text : List Char) :
    (text.flatMap String.utf8EncodeChar).length = Text.width text := by
  induction text with
  | nil => rfl
  | cons c text ih =>
      rw [List.flatMap_cons, List.length_append, String.length_utf8EncodeChar, ih, Text.width]

theorem lineFeedsBefore_width {source : String} {past rest : List Char}
    (h : source.toList = past ++ rest) :
    lineFeedsBefore source (Text.width past) = Text.breaks past := by
  rw [lineFeedsBefore, bytesOf_eq h, List.flatMap_append, ← length_bytes, List.take_left,
    count_bytes]

theorem lineFeedsBefore_size (source : String) :
    lineFeedsBefore source source.utf8ByteSize = lineFeeds source := by
  have hlength : (bytesOf source).length = source.utf8ByteSize := by
    rw [bytesOf_eq rfl, length_bytes, width_toList]
  rw [lineFeedsBefore, lineFeeds, ← hlength, List.take_length]

/-! ### Cursors -/

/-- The line of a cursor is one more than the line feeds behind it. -/
def Cursor.Counted (cursor : Cursor) (source : String) : Prop :=
  cursor.line = 1 + lineFeedsBefore source cursor.offset

section Counted

variable {cursor : Cursor} {source : String}

/-- Passing text passes its line breaks. -/
theorem lineFeedsBefore_pass (h : cursor.Within source) {text rest : List Char}
    (hrest : cursor.rest = text ++ rest) :
    lineFeedsBefore source (cursor.pass text rest).offset =
      lineFeedsBefore source cursor.offset + Text.breaks text := by
  rcases h with ⟨past, hsource, hoffset⟩
  have hpassed : source.toList = (past ++ text) ++ rest := by
    rw [hsource, hrest, List.append_assoc]
  have hstop : (cursor.pass text rest).offset = Text.width (past ++ text) := by
    rw [Text.width_append, ← hoffset]
    rfl
  rw [hstop, lineFeedsBefore_width hpassed, hoffset, lineFeedsBefore_width hsource,
    Text.breaks_append]

theorem counted_pass (h : cursor.Within source) (hcounted : cursor.Counted source)
    {text rest : List Char} (hrest : cursor.rest = text ++ rest) :
    (cursor.pass text rest).Counted source := by
  rw [Cursor.Counted, lineFeedsBefore_pass h hrest, ← Nat.add_assoc, ← hcounted]
  rfl

/-- One rule keeps the line exact, whichever it is. -/
theorem counted_step? (h : cursor.Within source) (hcounted : cursor.Counted source)
    {after : Cursor} {made : Option (Except LexicalFault Token)}
    (hstep : cursor.step? = some (made, after)) :
    after.Within source ∧ after.Counted source := by
  rcases Cursor.step?_passes hstep with ⟨taken, hrest, hafter⟩
  rw [hafter]
  exact ⟨within_pass h hrest, counted_pass h hcounted hrest⟩

/-- So do all the rules that a search applies. -/
theorem counted_seek (h : cursor.Within source) (hcounted : cursor.Counted source) :
    cursor.seek.1.Counted source ∧
      ∀ outcome there, cursor.seek.2 = some (outcome, there) → there.Counted source := by
  fun_induction Cursor.seek cursor with
  | case1 cursor hstep => exact ⟨hcounted, fun outcome there hfound => by cases hfound⟩
  | case2 cursor after hstep ih =>
      have hafter := counted_step? h hcounted hstep
      exact ih hafter.1 hafter.2
  | case3 cursor outcome after hstep =>
      refine ⟨hcounted, fun _ _ hfound => ?_⟩
      cases hfound
      exact (counted_step? h hcounted hstep).2

/-- A reading keeps the line exact, be it of a lexeme, of an error or of the
    end. -/
theorem counted_next (h : cursor.Within source) (hcounted : cursor.Counted source) :
    cursor.next.2.Counted source := by
  have hseek := counted_seek h hcounted
  rw [Cursor.next]
  split
  · rename_i here token there hfound
    rw [hfound] at hseek
    exact hseek.2 _ there rfl
  · rename_i here fault there hfound
    rw [hfound] at hseek
    exact hseek.2 _ there rfl
  · rename_i here hfound
    rw [hfound] at hseek
    exact hseek.1

end Counted

theorem counted_after (source : String) (n : Nat) :
    ((Cursor.start source).after n).Counted source := by
  induction n with
  | zero => rfl
  | succ n ih =>
      rw [after_succ]
      exact counted_next (within_after source n) ih

/-! ### Lexemes -/

/-- A lexeme ends where the cursor stands behind it, on the line that the cursor
    has come to. -/
theorem place_of_next {cursor : Cursor} {lexeme : Lexeme} (h : cursor.next.1 = .ok lexeme) :
    lexeme.span.stop = cursor.next.2.offset ∧ lexeme.line = cursor.next.2.line := by
  rw [Cursor.next] at h ⊢
  split at h
  · cases h
    exact ⟨rfl, rfl⟩
  · cases h
  · cases h
    exact ⟨rfl, rfl⟩

/-- The end of the input is found behind all bytes of a source. -/
theorem stop_of_eof {cursor : Cursor} {source : String} (h : cursor.Within source)
    {lexeme : Lexeme} (hnext : cursor.next.1 = .ok lexeme) (heof : lexeme.token = .eof) :
    lexeme.span.stop = source.utf8ByteSize := by
  have hread : cursor.read? = none := by
    rw [Cursor.read?]
    split
    · rename_i found after hfound
      rw [hfound] at hnext
      cases hnext
      exact if_pos heof
    · rename_i hfound
      rw [hfound] at hnext
      cases hnext
  rw [(place_of_next hnext).1, next_of_none hread, offset_of_read?_none h hread]

/-- Whatever was read before it, errors included, a lexeme stands on the line
    that is one more than the number of line feeds before its end; and the end
    of the source on the one behind all line feeds. -/
theorem lexeme_line_exact {source : String} {n : Nat} {lexeme : Lexeme}
    (h : readingAt source n = .ok lexeme) :
    lexeme.line = 1 + lineFeedsBefore source lexeme.span.stop ∧
      (lexeme.token = .eof → lexeme.line = 1 + lineFeeds source) := by
  have hplace := place_of_next h
  have hline : lexeme.line = 1 + lineFeedsBefore source lexeme.span.stop := by
    rw [hplace.1, hplace.2]
    exact counted_next (within_after source n) (counted_after source n)
  refine ⟨hline, fun heof => ?_⟩
  rw [← lineFeedsBefore_size, ← stop_of_eof (within_after source n) h heof]
  exact hline

/-- Line feeds in a comment, in a literal, behind a backslash, between tokens
    and in a literal that is never closed, with two other errors in between. -/
def scatteredSource : String :=
  "/* a\nb */ 1.5 \"c\nd\\\ne\" $\n\nx \"f\ng"

theorem lexeme_line_exact_scatteredSource :
    (∃ lexeme, readingAt scatteredSource 1 = .ok lexeme ∧ lexeme.line = 4 ∧
      lexeme.line = 1 + lineFeedsBefore scatteredSource lexeme.span.stop) ∧
    (∃ lexeme, readingAt scatteredSource 3 = .ok lexeme ∧ lexeme.line = 6 ∧
      lexeme.line = 1 + lineFeedsBefore scatteredSource lexeme.span.stop) ∧
    ∃ lexeme, readingAt scatteredSource 5 = .ok lexeme ∧ lexeme.line = 7 ∧
      lexeme.line = 1 + lineFeeds scatteredSource := by
  have hstring : readingAt scatteredSource 1 = .ok ⟨.string "c\nd\\\ne", ⟨14, 22⟩, 4⟩ := by
    decide +kernel
  have hname : readingAt scatteredSource 3 = .ok ⟨.name "x", ⟨26, 27⟩, 6⟩ := by decide +kernel
  have heof : readingAt scatteredSource 5 = .ok ⟨.eof, ⟨32, 32⟩, 7⟩ := by decide +kernel
  exact ⟨⟨_, hstring, rfl, (lexeme_line_exact hstring).1⟩,
    ⟨_, hname, rfl, (lexeme_line_exact hname).1⟩,
    ⟨_, heof, rfl, (lexeme_line_exact heof).2 rfl⟩⟩

end Scriptlet
