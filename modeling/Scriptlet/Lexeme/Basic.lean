import Scriptlet.Token

/-!
# Lexemes

A token together with where it was found, and the reason why text is no token.
Offsets count bytes of the UTF-8 form of the source; lines count from one.

A lexeme's line is the one its last character stands on. A lexical error's line
is the one on which the search for the token began, which is where the previous
token ended and may be above the text at fault.

## Main definitions

* `Span`: A range of bytes.
* `Lexeme`: A token with its span and line.
* `LexicalFault`: Why text is no token.
* `LexicalError`: A fault with its text and place.
-/

namespace Scriptlet

/-- A range of bytes of the source, from `start` up to but not including
    `stop`. -/
structure Span where
  start : Nat
  stop : Nat
  deriving DecidableEq, Repr

/-- A token and where it was found. -/
structure Lexeme where
  token : Token
  span : Span
  line : Nat
  deriving DecidableEq, Repr

/-- Why a piece of source text is no token. -/
inductive LexicalFault where
  | unrecognizedCharacter
  | unterminatedString
  | unterminatedComment
  | integerOverflow
  | floatLiteral
  deriving DecidableEq, Repr

/-- A piece of source text that is no token. -/
structure LexicalError where
  fault : LexicalFault
  fragment : String
  offset : Nat
  line : Nat
  deriving DecidableEq, Repr

/-- The wording of a fault. -/
def LexicalFault.reason : LexicalFault → String
  | .unrecognizedCharacter => "unrecognized character"
  | .unterminatedString => "unterminated string literal"
  | .unterminatedComment => "unterminated block comment"
  | .integerOverflow => "integer literal is too large"
  | .floatLiteral => "float literals are not supported"

/-- The report of a lexical error. -/
def LexicalError.message (e : LexicalError) : String :=
  s!"Error on line {e.line}: LexicalError: {e.fault.reason}: '{e.fragment}'."

end Scriptlet
