import Scriptlet.Lexeme.Basic
import Scriptlet.Text.Blank
import Scriptlet.Text.Extent

/-!
# The Rules of the Lexer

A cursor is a place in a source: the text ahead of it, the bytes behind it and
the line it stands on. It moves by bytes, and its line is counted up by whoever
moves it over a line break.

Each rule says what to do where the text ahead starts as the rule wants it. The
rule for line breaks counts one line. The rules for literals and for comments
are matched by an opening mark alone; behind it they look for the end
themselves, move the cursor there and count the lines that they pass. No other
rule matches a line break, so no other rule counts.

Which rule applies is decided by the first character, and by the second for a
slash, so the rules never compete.

## Main definitions

* `Cursor`: A place in a source.
* `Cursor.bump`, `Cursor.addLines`: Moves over bytes, and counts lines.
* `Cursor.literal`, `Cursor.comment`: The rules that go on behind their mark.
* `Cursor.step?`: Applies the rule that matches.

## Theorems

* `Cursor.length_of_step?`: Every rule leaves less text ahead.
-/

namespace Scriptlet

/-- A place in a source. -/
structure Cursor where
  /-- The text ahead. -/
  rest : List Char
  /-- The number of bytes behind. -/
  offset : Nat
  /-- The line, counted from one. -/
  line : Nat

/-! ### What rules match and make -/

/-- Whether a character can start a word. -/
def isWordStart (c : Char) : Bool := c.isAlpha || c == '_'

/-- Whether a character can continue a word. -/
def isWordPart (c : Char) : Bool := c.isAlphanum || c == '_'

/-- A character that starts a word can continue one. -/
theorem isWordPart_of_isWordStart {c : Char} (h : isWordStart c = true) : isWordPart c = true := by
  simp only [isWordStart, isWordPart, Char.isAlphanum, Bool.or_eq_true] at h ⊢
  rcases h with h | h
  · exact Or.inl (Or.inl h)
  · exact Or.inr h

/-- Whether a character is blank and no line break. -/
def isSpace (c : Char) : Bool := Text.isBlank c && c != '\n'

/-- The largest integer that a literal can write, `2 ^ 63 - 1`. -/
def maxInteger : Nat := 9223372036854775807

/-- The number that decimal digits write. -/
def decimalValue (digits : List Char) : Nat :=
  digits.foldl (fun value c => 10 * value + (c.toNat - '0'.toNat)) 0

/-- The token of a digit run. -/
def integerToken (digits : List Char) : Except LexicalFault Token :=
  let value := decimalValue digits
  if value ≤ maxInteger then .ok (.integer (Int64.ofNat value)) else .error .integerOverflow

/-- Walks through the text behind the opening quote of a literal. The walk has
    come `offset` bytes far and to a line, and `contents` is what it has read,
    in reverse order. It ends at the closing quote, of which it gives the offset
    with all that was read, or at the end of the text. The line it came to is
    given in both cases. -/
def walkLiteral (offset line : Nat) (contents : List Char) :
    List Char → Option (Nat × List Char) × Nat
  | [] => (none, line)
  | '"' :: _ => (some (offset, contents.reverse), line)
  | ['\\'] => (none, line)
  | '\\' :: c :: rest =>
    match Text.Quoted.escaped? c with
    | some d => walkLiteral (offset + 1 + c.utf8Size) line (d :: contents) rest
    | none =>
      -- The pair stands for itself, and its second half may be a line break.
      let line := if c = '\n' then line + 1 else line
      walkLiteral (offset + 1 + c.utf8Size) line (c :: '\\' :: contents) rest
  | c :: rest =>
    let line := if c = '\n' then line + 1 else line
    walkLiteral (offset + c.utf8Size) line (c :: contents) rest

/-- The offset of the first closing mark of a comment. -/
def findClosing? : List Char → Option Nat
  | [] => none
  | '*' :: '/' :: _ => some 0
  | c :: rest => (findClosing? rest).map fun offset => c.utf8Size + offset

namespace Cursor

/-- The place before the first character of a source. -/
def start (source : String) : Cursor := { rest := source.toList, offset := 0, line := 1 }

/-- The place some bytes ahead. -/
def bump (cursor : Cursor) (bytes : Nat) : Cursor :=
  { cursor with
    rest := Text.dropBytes bytes cursor.rest
    offset := cursor.offset + bytes }

/-- The same place, some lines further down. -/
def addLines (cursor : Cursor) (lines : Nat) : Cursor :=
  { cursor with line := cursor.line + lines }

/-- The text between two places, the second of which is not before the first. -/
def upTo (cursor later : Cursor) : List Char :=
  Text.takeBytes (later.offset - cursor.offset) cursor.rest

/-! ### Rules -/

/-- A line break, which is skipped and counted. -/
def lineBreak (cursor : Cursor) : Cursor := (cursor.bump 1).addLines 1

/-- A run of blanks without line breaks, which is skipped. -/
def spaces (cursor : Cursor) : Cursor :=
  cursor.bump (Text.width (cursor.rest.takeWhile isSpace))

/-- A number. A point after the digits makes a decimal fraction of them, with
    the digits after the point, of which there may be none. -/
def number (cursor : Cursor) : Except LexicalFault Token × Cursor :=
  let digits := cursor.rest.takeWhile Char.isDigit
  match cursor.rest.dropWhile Char.isDigit with
  | '.' :: rest =>
    (.error .floatLiteral,
      cursor.bump (Text.width digits + 1 + Text.width (rest.takeWhile Char.isDigit)))
  | _ => (integerToken digits, cursor.bump (Text.width digits))

/-- A word. -/
def word (cursor : Cursor) : Except LexicalFault Token × Cursor :=
  let letters := cursor.rest.takeWhile isWordPart
  (.ok (.ofWord (String.ofList letters)), cursor.bump (Text.width letters))

/-- A string literal, behind its opening quote. One that is not closed takes
    all there is. -/
def literal (cursor : Cursor) : Except LexicalFault Token × Cursor :=
  match walkLiteral 0 cursor.line [] cursor.rest with
  | (some (offset, contents), line) =>
    (.ok (.string (String.ofList contents)), { cursor.bump (offset + 1) with line })
  | (none, line) =>
    (.error .unterminatedString, { cursor.bump (Text.width cursor.rest) with line })

/-- A comment, behind its opening mark. It is skipped if it is closed; one that
    is not closed is at fault and takes all there is. -/
def comment (cursor : Cursor) : Option (Except LexicalFault Token) × Cursor :=
  match findClosing? cursor.rest with
  | some offset =>
    let lines := (Text.takeBytes offset cursor.rest).count '\n'
    (none, (cursor.addLines lines).bump (offset + 2))
  | none =>
    let lines := cursor.rest.count '\n'
    (some (.error .unterminatedComment), (cursor.addLines lines).bump (Text.width cursor.rest))

/-- Applies the rule that the text ahead matches. Text that is skipped comes to
    nothing, other text to a token or a fault. Where no rule matches, the first
    character is at fault. At the end of the text there is nothing to do. -/
def step? (cursor : Cursor) : Option (Option (Except LexicalFault Token) × Cursor) :=
  match cursor.rest with
  | [] => none
  | c :: rest =>
    if c = '\n' then some (none, cursor.lineBreak)
    else if Text.isBlank c then some (none, cursor.spaces)
    else if c.isDigit then some (cursor.number.map some id)
    else if isWordStart c then some (cursor.word.map some id)
    else if c = '"' then some ((cursor.bump 1).literal.map some id)
    else if c = '/' ∧ rest.head? = some '*' then some (cursor.bump 2).comment
    else match Mark.ofChar? c with
      | some mark => some (some (.ok (.mark mark)), cursor.bump 1)
      | none => some (some (.error .unrecognizedCharacter), cursor.bump c.utf8Size)

/-! ### Progress -/

theorem length_bump_le (cursor : Cursor) (bytes : Nat) :
    (cursor.bump bytes).rest.length ≤ cursor.rest.length :=
  Text.length_dropBytes_le bytes cursor.rest

/-- To move over bytes of the text ahead leaves less of it. -/
theorem length_bump_lt {cursor : Cursor} {bytes : Nat} {c : Char} {rest : List Char}
    (h : cursor.rest = c :: rest) (hbytes : 0 < bytes) :
    (cursor.bump bytes).rest.length < cursor.rest.length := by
  rw [h, bump, h]
  exact Text.length_dropBytes_lt hbytes c rest

/-- A run that is not empty has bytes. -/
theorem width_takeWhile_pos {p : Char → Bool} {c : Char} (h : p c = true) (rest : List Char) :
    0 < Text.width ((c :: rest).takeWhile p) := by
  rw [List.takeWhile_cons_of_pos h, Text.width]
  have hpos := c.utf8Size_pos
  omega

theorem length_literal_le (cursor : Cursor) :
    cursor.literal.2.rest.length ≤ cursor.rest.length := by
  rw [literal]
  split
  · exact cursor.length_bump_le _
  · exact cursor.length_bump_le _

theorem length_comment_le (cursor : Cursor) :
    cursor.comment.2.rest.length ≤ cursor.rest.length := by
  rw [comment]
  split
  · exact (cursor.addLines _).length_bump_le _
  · exact (cursor.addLines _).length_bump_le _

/-- Every rule leaves less text ahead. -/
theorem length_of_step? {cursor after : Cursor} {made : Option (Except LexicalFault Token)}
    (h : cursor.step? = some (made, after)) : after.rest.length < cursor.rest.length := by
  rw [step?] at h
  split at h
  · cases h
  · rename_i c rest hrest
    have hbump : ∀ bytes, 0 < bytes → (cursor.bump bytes).rest.length < cursor.rest.length :=
      fun bytes => length_bump_lt hrest
    repeat' split at h
    all_goals obtain rfl : _ = after := congrArg Prod.snd (Option.some.inj h)
    · exact hbump 1 Nat.one_pos
    · rename_i hline hblank
      refine hbump _ ?_
      rw [hrest]
      refine width_takeWhile_pos ?_ rest
      simp only [isSpace, hblank, Bool.true_and, bne_iff_ne, ne_eq, hline, not_false_eq_true]
    · rename_i hdigit
      have hpos := hrest ▸ width_takeWhile_pos hdigit rest
      simp only [number]
      split
      · exact hbump _ (by omega)
      · exact hbump _ hpos
    · rename_i hword
      exact hbump _ (hrest ▸ width_takeWhile_pos (isWordPart_of_isWordStart hword) rest)
    · exact Nat.lt_of_le_of_lt (length_literal_le _) (hbump 1 Nat.one_pos)
    · exact Nat.lt_of_le_of_lt (length_comment_le _) (hbump 2 Nat.two_pos)
    · exact hbump 1 Nat.one_pos
    · exact hbump _ c.utf8Size_pos

end Cursor

end Scriptlet
