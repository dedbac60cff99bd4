/-!
# Quoted Text

The written form of a string literal between its quotes. A backslash with one
of `"`, `\`, `n` or `t` after it stands for one character; a backslash with any
other character after it stands for itself, and the character stays too. So
every written form reads as some text, and a text can have several of them.
`encode` gives the one in which each backslash opens a pair that stands for one
character.

## Main definitions

* `escaped?`: What a pair stands for.
* `encode`: The written form of a text.
-/

namespace Scriptlet.Text.Quoted

/-- What a backslash and the given character after it stand for, if the two
    belong together. -/
def escaped? : Char → Option Char
  | '"' => some '"'
  | '\\' => some '\\'
  | 'n' => some '\n'
  | 't' => some '\t'
  | _ => none

/-- The written form of one character. -/
def encodeChar : Char → List Char
  | '"' => ['\\', '"']
  | '\\' => ['\\', '\\']
  | '\n' => ['\\', 'n']
  | '\t' => ['\\', 't']
  | c => [c]

/-- The written form of a text, in which no bare quote, line break or tab is
    left. -/
def encode : List Char → List Char
  | [] => []
  | c :: rest => encodeChar c ++ encode rest

end Scriptlet.Text.Quoted
