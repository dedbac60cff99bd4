import Scriptlet.Lexeme.Rules

/-!
# Reading Lexemes

Reading moves a cursor over what is skipped and then over one token or one
faulty text, and a fault does not keep it from going on. When there is only text
to skip, every further reading gives the end of the input.

`Cursor.readings` collects all readings of a source at once. A reader that
stops at the first error needs only the front of that list, which is what
`Scan` holds: the lexemes before the error and what stopped the reading.

## Main definitions

* `Cursor.seek`: Applies rules until one makes a token or finds a fault.
* `Cursor.next`: One reading.
* `Cursor.readings`: All readings up to the end of the input.
* `Scan`: The lexemes up to the end or the first error.
* `tokenize`: The lexemes of a source, if it has no lexical error.
-/

namespace Scriptlet

namespace Cursor

/-- Applies rules until one makes a token or finds a fault, or the text ends.
    Gives the place where that rule applied, and what came of it with the place
    behind. -/
def seek (cursor : Cursor) : Cursor × Option (Except LexicalFault Token × Cursor) :=
  match _h : cursor.step? with
  | none => (cursor, none)
  | some (none, after) => after.seek
  | some (some outcome, after) => (cursor, some (outcome, after))
termination_by cursor.rest.length
decreasing_by exact length_of_step? _h

/-- The end of the input, found at a cursor. -/
def eof (cursor : Cursor) : Lexeme :=
  { token := .eof, span := ⟨cursor.offset, cursor.offset⟩, line := cursor.line }

/-- One reading: a lexeme or an error, and the place behind it. A lexeme stands
    on the line that was come to behind it, an error on the one on which the
    reading began. At the end of the input it is the end itself, as often as it
    is asked for. -/
def next (cursor : Cursor) : Except LexicalError Lexeme × Cursor :=
  match cursor.seek with
  | (here, some (.ok token, there)) =>
    (.ok ⟨token, ⟨here.offset, there.offset⟩, there.line⟩, there)
  | (here, some (.error fault, there)) =>
    (.error ⟨fault, String.ofList (here.upTo there), here.offset, cursor.line⟩, there)
  | (here, none) => (.ok here.eof, here)

/-- One reading, if it is not the end of the input. -/
def read? (cursor : Cursor) : Option (Except LexicalError Lexeme × Cursor) :=
  match cursor.next with
  | (.ok lexeme, after) => if lexeme.token = .eof then none else some (.ok lexeme, after)
  | (.error e, after) => some (.error e, after)

/-- What is made or found at the end of a search leaves less text ahead. -/
theorem length_of_seek {cursor here there : Cursor} {outcome : Except LexicalFault Token}
    (h : cursor.seek = (here, some (outcome, there))) :
    there.rest.length < cursor.rest.length := by
  fun_induction seek cursor with
  | case1 cursor hstep => cases h
  | case2 cursor after hstep ih => exact Nat.lt_trans (ih h) (length_of_step? hstep)
  | case3 cursor found after hstep =>
    cases h
    exact length_of_step? hstep

/-- A reading leaves less text ahead. -/
theorem length_of_read? {cursor after : Cursor} {reading : Except LexicalError Lexeme}
    (h : cursor.read? = some (reading, after)) : after.rest.length < cursor.rest.length := by
  rw [read?, next] at h
  -- The end of the input is no reading, so the search has come to something.
  cases hseek : cursor.seek with
  | mk here found =>
    rw [hseek] at h
    rcases found with _ | ⟨_ | token, there⟩
    · cases h
    · cases h
      exact length_of_seek hseek
    · simp only at h
      split at h
      · cases h
      · cases h
        exact length_of_seek hseek

/-- All readings up to the end of the input, going on after errors, and the
    place where the input ends. -/
def readings (cursor : Cursor) : List (Except LexicalError Lexeme) × Cursor :=
  match _h : cursor.read? with
  | none => ([], cursor.next.2)
  | some (reading, after) =>
    let (later, finish) := after.readings
    (reading :: later, finish)
termination_by cursor.rest.length
decreasing_by exact length_of_read? _h

end Cursor

/-- The lexemes of a source as far as a reader gets that stops at the first
    error. -/
structure Scan where
  /-- The lexemes before the end of the input or the first error. -/
  lexemes : List Lexeme
  /-- The end of the input, or the error that came before it. -/
  ending : Except LexicalError Lexeme

/-- The readings before the first error, and that error or the given end. -/
def Scan.ofReadings (eof : Lexeme) : List (Except LexicalError Lexeme) → Scan
  | [] => { lexemes := [], ending := .ok eof }
  | .error e :: _ => { lexemes := [], ending := .error e }
  | .ok lexeme :: later =>
    let scan := Scan.ofReadings eof later
    { scan with lexemes := lexeme :: scan.lexemes }

/-- Reads a source up to its end or its first lexical error. -/
def Scan.ofSource (source : String) : Scan :=
  let (readings, finish) := (Cursor.start source).readings
  Scan.ofReadings finish.eof readings

/-- The lexemes of a source without the end of the input, or its first lexical
    error. -/
def tokenize (source : String) : Except LexicalError (List Lexeme) :=
  let scan := Scan.ofSource source
  scan.ending.map fun _ => scan.lexemes

end Scriptlet
