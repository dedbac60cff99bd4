/-!
# Documents in JSON

The data format in which tokens and programs are shown, and its written form
over several lines: two blanks to a level, one entry to a line, and nothing
between the brackets of an empty list or record. A record keeps its fields in
the order in which they were given.

In a string only what has to be escaped is: the quote, the backslash, and the
characters below the blank, five of which have a short escape.

## Main definitions

* `Json`: A document.
* `Json.pretty`: Its written form.
-/

namespace Scriptlet

/-- A document. -/
inductive Json where
  | null
  | bool (value : Bool)
  | int (value : Int)
  | str (content : String)
  | list (items : List Json)
  | record (fields : List (String × Json))

namespace Json

/-- A natural number as a document. -/
def nat (n : Nat) : Json := .int n

/-- A record with one field, as a tagged alternative is shown. -/
def tagged (tag : String) (content : Json) : Json := .record [(tag, content)]

/-- The written form of one character of a string. -/
def escapeChar (c : Char) : List Char :=
  if c = '"' then ['\\', '"']
  else if c = '\\' then ['\\', '\\']
  else if c = '\n' then ['\\', 'n']
  else if c = '\t' then ['\\', 't']
  else if c = '\r' then ['\\', 'r']
  else if c.toNat = 0x08 then ['\\', 'b']
  else if c.toNat = 0x0C then ['\\', 'f']
  else if c.toNat < 0x20 then
    ['\\', 'u', '0', '0', Nat.digitChar (c.toNat / 16), Nat.digitChar (c.toNat % 16)]
  else [c]

/-- The written form of a string. -/
def quote (content : String) : String :=
  String.ofList ('"' :: (content.toList.flatMap escapeChar ++ ['"']))

/-- The start of a line at a level. -/
def indent (level : Nat) : String := String.ofList (List.replicate (2 * level) ' ')

mutual

/-- The written form of a document that starts on a line of the given level. -/
def write (level : Nat) : Json → String
  | .null => "null"
  | .bool true => "true"
  | .bool false => "false"
  | .int value => toString value
  | .str content => quote content
  | .list [] => "[]"
  | .list (item :: rest) =>
    "[\n" ++ indent (level + 1) ++ write (level + 1) item ++ writeItems (level + 1) rest ++
      "\n" ++ indent level ++ "]"
  | .record [] => "\x7b\x7d"
  | .record ((key, item) :: rest) =>
    "\x7b\n" ++ indent (level + 1) ++ quote key ++ ": " ++ write (level + 1) item ++
      writeFields (level + 1) rest ++ "\n" ++ indent level ++ "\x7d"

/-- The written form of further items, each with the comma before it. -/
def writeItems (level : Nat) : List Json → String
  | [] => ""
  | item :: rest => ",\n" ++ indent level ++ write level item ++ writeItems level rest

/-- The written form of further fields, each with the comma before it. -/
def writeFields (level : Nat) : List (String × Json) → String
  | [] => ""
  | (key, item) :: rest =>
    ",\n" ++ indent level ++ quote key ++ ": " ++ write level item ++ writeFields level rest

end

/-- The written form of a document. -/
def pretty (document : Json) : String := write 0 document

end Json

end Scriptlet
