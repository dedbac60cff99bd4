import Scriptlet.Lexeme.Rules

/-!
# Dividing Text

What the lexer takes of a text, said by the text alone: no bytes, no lines and
no place. A text starts with a gap, which is skipped as a whole, and behind it
with a token or with text at fault.

A gap is made of blank characters and closed comments, in any mixture. A comment
runs from its opening mark to the first closing one; comments do not nest. A
comment that is never closed is no part of a gap, and the gap ends before it.

Applied to text that does not start with a gap, `scan?` takes the longest token
the text starts with, or the text at fault if there is none. Taking is all or
nothing: what was taken and what is left are the input, and something is always
taken.

## Main definitions

* `closing?`: Divides text after the first closing mark.
* `comment?`: Divides text after the closed comment at its front.
* `gap`: Divides text after the longest gap at its front.
* `Text.Quoted.decode`: The text that a written form stands for.
* `Text.Quoted.split?`: Divides text at the quote that closes a literal.
* `Scanned`: The outcome of a scan, with what was taken and what is left.
* `scan?`: The token, or the fault, at the front of a text.

## Theorems

* `comment?_eq_some`, `gap_append`, `split?_eq_some`, `scan?_append`: Nothing is
  lost in a division.
* `decode_encode`: Writing and reading gives a text back.
* `scan?_text_ne_nil`: Every scan takes something.
-/

namespace Scriptlet

/-! ### Gaps -/

/-- Divides a text after its first closing mark, if it has one. -/
def closing? : List Char → Option (List Char × List Char)
  | [] => none
  | '*' :: '/' :: rest => some (['*', '/'], rest)
  | c :: rest => (closing? rest).map fun (body, after) => (c :: body, after)

/-- Divides a text after the closed comment that it starts with, if it does. -/
def comment? : List Char → Option (List Char × List Char)
  | '/' :: '*' :: rest => (closing? rest).map fun (body, after) => ('/' :: '*' :: body, after)
  | _ => none

/-- A division at a closing mark loses nothing. -/
theorem closing?_eq_some {text body after : List Char} (h : closing? text = some (body, after)) :
    text = body ++ after := by
  fun_induction closing? text generalizing body after with
  | case1 => simp at h
  | case2 rest =>
    simp only [Option.some.injEq, Prod.mk.injEq] at h
    simp [← h.1, ← h.2]
  | case3 c rest _ ih =>
    obtain ⟨⟨inner, tail⟩, hrest, hpair⟩ := Option.map_eq_some_iff.mp h
    simp only [Prod.mk.injEq] at hpair
    simp [← hpair.1, ← hpair.2, ih hrest]

/-- A division after a comment loses nothing, and the comment is not empty. -/
theorem comment?_eq_some {text body after : List Char}
    (h : comment? text = some (body, after)) : text = body ++ after ∧ body ≠ [] := by
  unfold comment? at h
  split at h
  · obtain ⟨⟨inner, tail⟩, hrest, hpair⟩ := Option.map_eq_some_iff.mp h
    simp only [Prod.mk.injEq] at hpair
    simp [← hpair.1, ← hpair.2, closing?_eq_some hrest]
  · simp at h

/-- What follows a comment is shorter than the text with the comment. -/
theorem length_of_comment? {text body after : List Char}
    (h : comment? text = some (body, after)) : after.length < text.length := by
  obtain ⟨htext, hbody⟩ := comment?_eq_some h
  have hpos : 0 < body.length := List.length_pos_iff.mpr hbody
  rw [htext, List.length_append]
  omega

/-- Divides a text after the longest gap that it starts with. -/
def gap (text : List Char) : List Char × List Char :=
  match text with
  | [] => ([], [])
  | c :: rest =>
    if Text.isBlank c then
      let (skipped, after) := gap rest
      (c :: skipped, after)
    else
      match _h : comment? (c :: rest) with
      | some (body, tail) =>
        let (skipped, after) := gap tail
        (body ++ skipped, after)
      | none => ([], c :: rest)
termination_by text.length
decreasing_by
  · simp
  · exact length_of_comment? _h

/-- A division after a gap loses nothing. -/
theorem gap_append (text : List Char) : (gap text).1 ++ (gap text).2 = text := by
  fun_induction gap text with
  | case1 => rfl
  | case2 c rest _ skipped after heq ih =>
    rw [heq] at ih
    simp [← ih]
  | case3 c rest _ body tail h skipped after heq ih =>
    -- The comment and the rest of the gap, one after the other.
    rw [heq] at ih
    simp only [List.append_assoc, ih]
    exact (comment?_eq_some h).1.symm
  | case4 => rfl

/-! ### Quoted text -/

namespace Text.Quoted

/-- The text of a written form. -/
def decode : List Char → List Char
  | [] => []
  | '\\' :: c :: rest =>
    match escaped? c with
    | some d => d :: decode rest
    | none => '\\' :: c :: decode rest
  | c :: rest => c :: decode rest

/-- Divides the text after an opening quote at its closing quote: the first one
    that is not the second half of a pair that a backslash opens. Neither part
    holds that quote. Without one the text is not closed. -/
def split? : List Char → Option (List Char × List Char)
  | [] => none
  | '"' :: rest => some ([], rest)
  | '\\' :: c :: rest => (split? rest).map fun (body, after) => ('\\' :: c :: body, after)
  | c :: rest => (split? rest).map fun (body, after) => (c :: body, after)

/-- Reading what was written gives the text back. -/
theorem decode_encode (text : List Char) : decode (encode text) = text := by
  induction text with
  | nil => rfl
  | cons c rest ih =>
    unfold encode encodeChar
    -- The four characters with an escape come first, then all others.
    split
    · simp [decode, escaped?, ih]
    · simp [decode, escaped?, ih]
    · simp [decode, escaped?, ih]
    · simp [decode, escaped?, ih]
    · rename_i hslash _ _
      -- A character that is no backslash opens no pair.
      have h : decode (c :: encode rest) = c :: decode (encode rest) := by
        rw [decode]
        intro d tail hc
        exact absurd hc hslash
      simp [h, ih]

/-- The closing quote stands between the two parts, and nothing is lost. -/
theorem split?_eq_some {text body after : List Char} (h : split? text = some (body, after)) :
    text = body ++ '"' :: after := by
  fun_induction split? text generalizing body after with
  | case1 => simp at h
  | case2 rest =>
    simp only [Option.some.injEq, Prod.mk.injEq] at h
    simp [← h.1, ← h.2]
  | case3 c rest ih =>
    obtain ⟨⟨inner, tail⟩, hrest, hpair⟩ := Option.map_eq_some_iff.mp h
    simp only [Prod.mk.injEq] at hpair
    simp [← hpair.1, ← hpair.2, ih hrest]
  | case4 c rest _ _ ih =>
    obtain ⟨⟨inner, tail⟩, hrest, hpair⟩ := Option.map_eq_some_iff.mp h
    simp only [Prod.mk.injEq] at hpair
    simp [← hpair.1, ← hpair.2, ih hrest]

end Text.Quoted

/-! ### Tokens -/

/-- The outcome of scanning one token. -/
structure Scanned where
  /-- The token, or why there is none. -/
  outcome : Except LexicalFault Token
  /-- The text that was taken. -/
  text : List Char
  /-- The text that is left. -/
  rest : List Char

/-- Scans text that starts with a digit. A point after the digits makes a
    decimal fraction of them, with the digits after the point, of which there
    may be none. -/
def scanNumber (text : List Char) : Scanned :=
  let digits := text.takeWhile Char.isDigit
  match text.dropWhile Char.isDigit with
  | '.' :: rest =>
    { outcome := .error .floatLiteral
      text := digits ++ '.' :: rest.takeWhile Char.isDigit
      rest := rest.dropWhile Char.isDigit }
  | rest => { outcome := integerToken digits, text := digits, rest := rest }

/-- Scans text that starts with a word. -/
def scanWord (text : List Char) : Scanned :=
  let word := text.takeWhile isWordPart
  { outcome := .ok (.ofWord (String.ofList word))
    text := word
    rest := text.dropWhile isWordPart }

/-- Scans the text after an opening quote. A literal that is not closed takes
    all there is. -/
def scanString (text : List Char) : Scanned :=
  match Text.Quoted.split? text with
  | some (body, rest) =>
    { outcome := .ok (.string (String.ofList (Text.Quoted.decode body)))
      text := '"' :: (body ++ ['"'])
      rest := rest }
  | none => { outcome := .error .unterminatedString, text := '"' :: text, rest := [] }

/-- The token at the front of a text, or the fault, or nothing at the end of
    the text. Text that starts with a gap is not meant: a comment that is
    opened here is one that is never closed, and takes all there is. -/
def scan? : List Char → Option Scanned
  | [] => none
  | c :: rest =>
    if c.isDigit then some (scanNumber (c :: rest))
    else if isWordStart c then some (scanWord (c :: rest))
    else if c = '"' then some (scanString rest)
    -- A closed comment would have been part of the gap before this text.
    else if c = '/' ∧ rest.head? = some '*' then
      some { outcome := .error .unterminatedComment, text := c :: rest, rest := [] }
    else match Mark.ofChar? c with
      | some mark => some { outcome := .ok (.mark mark), text := [c], rest := rest }
      | none => some { outcome := .error .unrecognizedCharacter, text := [c], rest := rest }

theorem scanNumber_append (text : List Char) :
    (scanNumber text).text ++ (scanNumber text).rest = text := by
  unfold scanNumber
  split
  -- Digits, a point, and the digits behind it.
  · rename_i rest h
    conv => rhs; rw [← List.takeWhile_append_dropWhile (p := Char.isDigit) (l := text), h]
    simp [List.takeWhile_append_dropWhile]
  · exact List.takeWhile_append_dropWhile

theorem scanString_append (text : List Char) :
    (scanString text).text ++ (scanString text).rest = '"' :: text := by
  unfold scanString
  split
  · rename_i body rest h
    simp [Text.Quoted.split?_eq_some h]
  · simp

/-- What a scan took and what it left are the text it was given. -/
theorem scan?_append {text : List Char} {s : Scanned} (h : scan? text = some s) :
    s.text ++ s.rest = text := by
  unfold scan? at h
  repeat' split at h
  all_goals simp only [reduceCtorEq, Option.some.injEq] at h
  all_goals subst h
  · exact scanNumber_append _
  · exact List.takeWhile_append_dropWhile
  · rename_i hquote
    simpa [hquote] using scanString_append _
  · simp
  · simp
  · simp

theorem scanNumber_text_ne_nil {c : Char} {rest : List Char} (h : c.isDigit = true) :
    (scanNumber (c :: rest)).text ≠ [] := by
  unfold scanNumber
  split <;> simp [h]

theorem scanString_text_ne_nil (text : List Char) : (scanString text).text ≠ [] := by
  unfold scanString
  split <;> simp

/-- A scan takes at least one character. -/
theorem scan?_text_ne_nil {text : List Char} {s : Scanned} (h : scan? text = some s) :
    s.text ≠ [] := by
  unfold scan? at h
  repeat' split at h
  all_goals simp only [reduceCtorEq, Option.some.injEq] at h
  all_goals subst h
  · rename_i hdigit
    exact scanNumber_text_ne_nil hdigit
  · rename_i hword
    simp [scanWord, isWordPart_of_isWordStart hword]
  · exact scanString_text_ne_nil _
  · simp
  · simp
  · simp

/-- Only at the end of a text there is nothing to scan. -/
theorem scan?_eq_none {text : List Char} : scan? text = none ↔ text = [] := by
  cases text with
  | nil => exact ⟨fun _ => rfl, fun _ => rfl⟩
  | cons c rest =>
      rw [scan?]
      repeat' split
      all_goals simp only [reduceCtorEq]

end Scriptlet
