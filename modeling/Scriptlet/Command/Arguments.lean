/-!
# Command-Line Arguments

What the arguments of the command ask for. They are read from left to right. An
argument that starts with a dash is a switch, until two dashes alone say that
all further ones are files; a single dash is a file too. At most one file can
be named, and at most one way of processing it.

Help and version answer at once, so nothing after them is looked at, while what
came before them has been. Two ways of processing exclude each other, but that
is found only when all arguments have been read.

## Main definitions

* `Mode`: What is done with a script.
* `Request`: What the arguments ask for.
* `Request.ofArguments`: Reads the arguments.
-/

namespace Scriptlet.Command

/-- What is done with a script. -/
inductive Mode where
  /-- Run it. -/
  | run
  /-- Show its tokens. -/
  | tokens
  /-- Show its tree. -/
  | tree
  /-- Check it without running it. -/
  | check
  deriving DecidableEq, Repr

/-- Something that can be asked for by a name or a letter. -/
inductive Switch where
  | mode (mode : Mode)
  | help
  | version
  deriving DecidableEq, Repr

/-- Why the arguments ask for nothing. -/
inductive Misuse where
  /-- A switch that does not exist. -/
  | unknownSwitch (argument : String)
  /-- A value for a switch, none of which takes one. -/
  | unneededValue (argument : String)
  /-- A way of processing that was asked for before. -/
  | repeated (mode : Mode)
  /-- Two ways of processing that exclude each other. -/
  | conflict (first second : Mode)
  /-- A file without a name. -/
  | emptyFile
  /-- A second file. -/
  | extraFile (name : String)
  deriving DecidableEq, Repr

/-- What the arguments ask for. Without a file, names are asked for one by
    one. -/
inductive Request where
  | process (mode : Mode) (file : Option String)
  | help
  | version
  | misuse (reason : Misuse)
  deriving DecidableEq, Repr

/-- The switch that a word after two dashes names. -/
def Switch.ofWord? (word : String) : Option Switch :=
  [("tokens", .mode .tokens), ("ast", .mode .tree), ("check", .mode .check), ("help", .help),
    ("version", .version)].lookup word

/-- The switch that a letter after one dash names. -/
def Switch.ofLetter? (letter : Char) : Option Switch :=
  [('h', .help), ('V', .version)].lookup letter

/-- The name of a way of processing, as an argument or in a complaint. -/
def Mode.argument : Mode → String
  | .run => "[FILE]"
  | .tokens => "--tokens"
  | .tree => "--ast"
  | .check => "--check"

/-- What has been read of the arguments. -/
structure Draft where
  /-- The ways of processing, in the order in which they were asked for. -/
  modes : List Mode
  file : Option String
  /-- Whether two dashes have been read, so that only files can follow. -/
  filesOnly : Bool

namespace Draft

/-- Nothing has been read. -/
def initial : Draft := { modes := [], file := none, filesOnly := false }

/-- Reads the name of a file. -/
def addFile (draft : Draft) (name : String) : Except Request Draft :=
  if name = "" then .error (.misuse .emptyFile)
  else match draft.file with
    | some _ => .error (.misuse (.extraFile name))
    | none => .ok { draft with file := some name }

/-- Acts on a switch. -/
def turnOn (draft : Draft) : Switch → Except Request Draft
  | .help => .error .help
  | .version => .error .version
  | .mode mode =>
    if mode ∈ draft.modes then .error (.misuse (.repeated mode))
    else .ok { draft with modes := draft.modes ++ [mode] }

/-- Reads a switch by the word after two dashes, which a value may follow. -/
def readWord (draft : Draft) (argument : String) (text : List Char) : Except Request Draft :=
  match Switch.ofWord? (String.ofList (text.takeWhile (· ≠ '='))) with
  | none => .error (.misuse (.unknownSwitch argument))
  | some switch =>
    if '=' ∈ text then .error (.misuse (.unneededValue argument)) else draft.turnOn switch

/-- Reads a switch by the letter after one dash. Further letters can follow, but
    every letter that is known answers at once. -/
def readLetter (draft : Draft) (argument : String) (letter : Char) : Except Request Draft :=
  match Switch.ofLetter? letter with
  | none => .error (.misuse (.unknownSwitch argument))
  | some switch => draft.turnOn switch

/-- Reads one argument, or answers the command. -/
def read (draft : Draft) (argument : String) : Except Request Draft :=
  if draft.filesOnly then draft.addFile argument
  else match argument.toList with
    | ['-', '-'] => .ok { draft with filesOnly := true }
    -- A single dash matches neither of the next two, and names a file.
    | '-' :: '-' :: text => draft.readWord argument text
    | '-' :: letter :: _ => draft.readLetter argument letter
    | _ => draft.addFile argument

/-- What has been asked for once all arguments are read. -/
def finish (draft : Draft) : Request :=
  match draft.modes with
  | [] => .process .run draft.file
  | [mode] => .process mode draft.file
  | first :: second :: _ => .misuse (.conflict first second)

end Draft

/-- What the arguments ask for. -/
def Request.ofArguments (arguments : List String) : Request :=
  match arguments.foldlM Draft.read Draft.initial with
  | .ok draft => draft.finish
  | .error request => request

/-- The complaint about a misuse. -/
def Misuse.message : Misuse → String
  | .unknownSwitch argument => s!"unexpected argument '{argument}' found"
  | .unneededValue argument => s!"unexpected value in '{argument}' found; no more were expected"
  | .repeated mode => s!"the argument '{mode.argument}' cannot be used multiple times"
  | .conflict first second =>
    s!"the argument '{first.argument}' cannot be used with '{second.argument}'"
  | .emptyFile => "a value is required for '[FILE]' but none was supplied"
  | .extraFile name => s!"unexpected argument '{name}' found"

end Scriptlet.Command
