import Scriptlet.Text.Quoted
import Scriptlet.Ty

/-!
# Tokens

The words of the language. A token carries the value it was written for, so a
string token holds its decoded text and an integer token its number. Marks and
keywords are fixed spellings; the other tokens are classes of spellings.

Two texts describe a token. `Token.text` is source text that reads as the same
token again, and `Token.describe` is what an error message says was found.
`TokenKind` is the token without its value: it is what a grammar rule can ask
for, and it has a text and a description of its own.

## Main definitions

* `Mark`, `Keyword`: The fixed spellings.
* `Token`: A word with its value.
* `TokenKind`: A class of tokens.
* `Token.ofWord`: The token a word spells, reserved or not.
-/

namespace Scriptlet

/-- A punctuation character that is a token by itself. -/
inductive Mark where
  | plus
  | minus
  | star
  | slash
  | equals
  | less
  | greater
  | leftParen
  | rightParen
  | leftBrace
  | rightBrace
  | colon
  | semicolon
  | comma
  deriving DecidableEq, Repr

/-- A reserved word that opens or continues a statement. -/
inductive Keyword where
  | cond
  | alternative
  | print
  | func
  deriving DecidableEq, Repr

/-- A token of the language, or the end of the input. -/
inductive Token where
  | integer (value : Int64)
  | string (content : String)
  | bool (value : Bool)
  | name (name : String)
  | ty (ty : Ty)
  | mark (mark : Mark)
  | keyword (keyword : Keyword)
  | eof
  deriving DecidableEq, Repr

/-- A class of tokens, as a grammar rule can ask for it. -/
inductive TokenKind where
  | integer
  | string
  | bool
  | name
  | ty
  | mark (mark : Mark)
  | keyword (keyword : Keyword)
  | eof
  deriving DecidableEq, Repr

namespace Mark

/-- All marks. -/
def all : List Mark :=
  [.plus, .minus, .star, .slash, .equals, .less, .greater, .leftParen, .rightParen, .leftBrace,
    .rightBrace, .colon, .semicolon, .comma]

/-- The character that spells a mark. -/
def char : Mark → Char
  | .plus => '+'
  | .minus => '-'
  | .star => '*'
  | .slash => '/'
  | .equals => '='
  | .less => '<'
  | .greater => '>'
  | .leftParen => '('
  | .rightParen => ')'
  | .leftBrace => '{'
  | .rightBrace => '}'
  | .colon => ':'
  | .semicolon => ';'
  | .comma => ','

/-- The mark that a character spells. -/
def ofChar? (c : Char) : Option Mark := all.find? fun mark => mark.char == c

/-- Each mark is found under its own character, so no two share one. -/
theorem ofChar?_char (mark : Mark) : ofChar? mark.char = some mark := by
  cases mark <;> decide

/-- What is found under a character is spelt by it. -/
theorem char_of_ofChar? {c : Char} {mark : Mark} (h : ofChar? c = some mark) : mark.char = c := by
  rw [ofChar?] at h
  have hfound := List.find?_some h
  exact eq_of_beq hfound

/-- A mark is one byte long. -/
theorem utf8Size_char (mark : Mark) : mark.char.utf8Size = 1 := by
  cases mark <;> decide

end Mark

namespace Keyword

/-- All keywords. -/
def all : List Keyword := [.cond, .alternative, .print, .func]

/-- The word that spells a keyword. -/
def word : Keyword → String
  | .cond => "if"
  | .alternative => "else"
  | .print => "print"
  | .func => "func"

end Keyword

/-- The spelling of a truth value. -/
def boolWord : Bool → String
  | true => "True"
  | false => "False"

namespace Token

/-- The words that are not names: keywords, truth values and types. -/
def reserved : List (String × Token) :=
  Keyword.all.map (fun k => (k.word, .keyword k)) ++
    [true, false].map (fun value => (boolWord value, .bool value)) ++
    Ty.all.map (fun t => (t.keyword, .ty t))

/-- The token that a word spells: a reserved one, or else a name. -/
def ofWord (word : String) : Token := (reserved.lookup word).getD (.name word)

/-- The class of a token. -/
def kind : Token → TokenKind
  | .integer _ => .integer
  | .string _ => .string
  | .bool _ => .bool
  | .name _ => .name
  | .ty _ => .ty
  | .mark m => .mark m
  | .keyword k => .keyword k
  | .eof => .eof

/-- Source text that reads as the token. A string is quoted and escaped again.
    The end of the input is spelt by nothing. -/
def text : Token → String
  | .integer value => toString value.toInt
  | .string content =>
    String.ofList ('"' :: (Text.Quoted.encode content.toList ++ ['"']))
  | .bool value => boolWord value
  | .name n => n
  | .ty t => t.keyword
  | .mark m => m.char.toString
  | .keyword k => k.word
  | .eof => ""

/-- How an error message names the token it met. -/
def describe : Token → String
  | .eof => "end of input"
  | token => "'" ++ token.text ++ "'"

end Token

namespace TokenKind

/-- The spelling of a mark or keyword, and the name of a class. -/
def text : TokenKind → String
  | .integer => "integer literal"
  | .string => "string literal"
  | .bool => "boolean literal"
  | .name => "name"
  | .ty => "type"
  | .mark m => m.char.toString
  | .keyword k => k.word
  | .eof => "end of input"

/-- How an error message names the class it wanted. What is a fixed spelling
    stands in quotes. -/
def describe : TokenKind → String
  | .mark m => "'" ++ m.char.toString ++ "'"
  | .keyword k => "'" ++ k.word ++ "'"
  | kind => kind.text

end TokenKind

end Scriptlet
