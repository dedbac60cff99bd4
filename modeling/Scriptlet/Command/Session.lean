import Scriptlet.Command.Arguments
import Scriptlet.Command.Folder
import Scriptlet.Json.Program
import Scriptlet.Pipeline

/-!
# Command Sessions

What the command does from its arguments to its exit code. A script that was
named as an argument is processed, and its failure is the failure of the
command. Without one the command asks for paths, one to a line, until a blank
line or the end of the input; there a failing script is complained about and
the next path is asked for, so only input that is no text makes it fail.

Everything here is a function of the arguments, the input and the files, so a
session can be run without a terminal.

## Main definitions

* `Report`: What processing one script printed, and the complaint about it.
* `process`: Processes the script at a path.
* `Transcript`: What a command leaves behind.
* `promptSession`: The session that asks for paths.
* `session`: The whole command.
-/

namespace Scriptlet.Command

/-- What processing a script printed, and why it failed if it did. -/
structure Report where
  printed : String
  complaint : Option String
  deriving DecidableEq, Repr

/-- What a script prints when it is run, and its error. What was printed before
    the error is kept. -/
def runReport (source : String) : Report :=
  let (result, sink) := run source .unbounded
  { printed := sink.text?.getD ""
    complaint := match result with
      | .ok _ => none
      | .error e => some e.message }

/-- The written form of the tokens of a script. -/
def tokensReport (source : String) : Report :=
  match tokenize source with
  | .ok lexemes =>
    { printed := (Json.list (lexemes.map Lexeme.toJson)).pretty ++ "\n", complaint := none }
  | .error e => { printed := "", complaint := some e.message }

/-- The written form of the tree of a script. -/
def treeReport (source : String) : Report :=
  match parse source with
  | .ok program => { printed := program.toJson.pretty ++ "\n", complaint := none }
  | .error e => { printed := "", complaint := some e.message }

/-- Whether a script passes its checks. -/
def checkReport (source : String) : Report :=
  match check source with
  | .ok _ => { printed := "ok\n", complaint := none }
  | .error e => { printed := "", complaint := some e.message }

/-- Processes the text of a script. -/
def Mode.report : Mode → String → Report
  | .run => runReport
  | .tokens => tokensReport
  | .tree => treeReport
  | .check => checkReport

/-- Processes the script at a path, given what reading it gave. -/
def process (mode : Mode) (path : String) (content : Except ReadError (List UInt8)) : Report :=
  let unread (e : ReadError) : Report :=
    { printed := "", complaint := some s!"failed to read '{path}': {e.reason}" }
  match content with
  | .error e => unread e
  | .ok bytes =>
    match text? bytes with
    | none => unread .notText
    | some source => mode.report source

/-- What a command leaves behind. -/
structure Transcript where
  stdout : String
  stderr : String
  code : UInt8
  deriving DecidableEq, Repr

namespace Transcript

/-- A command that ends well after printing a text. -/
def success (printed : String) : Transcript := { stdout := printed, stderr := "", code := 0 }

/-- Puts what was printed earlier in front. -/
def after (stdout stderr : String) (rest : Transcript) : Transcript :=
  { rest with stdout := stdout ++ rest.stdout, stderr := stderr ++ rest.stderr }

end Transcript

/-- How a complaint is shown. -/
def Report.stderr (report : Report) : String :=
  match report.complaint with
  | none => ""
  | some complaint => s!"error: {complaint}\n"

/-- The command that processed one script. -/
def Report.transcript (report : Report) : Transcript :=
  { stdout := report.printed
    stderr := report.stderr
    code := if report.complaint.isSome then 1 else 0 }

/-- What is shown before a path is read. -/
def prompt : String := "File Path: "

/-- What is shown when a line of the input is no text. -/
def brokenInput : String := s!"Error: {ReadError.notText.reason}\n"

/-- The path on a line that was read, unless the line is blank. -/
def answer? (line : String) : Option String :=
  let path := Text.trim line
  if path = "" then none else some path

/-- The lines of some input, each with its line break. Input that does not end
    in one has a last line without. -/
def inputLines : List UInt8 → List (List UInt8)
  | [] => []
  | byte :: rest =>
    if byte = 0x0A then [byte] :: inputLines rest
    else match inputLines rest with
      | [] => [[byte]]
      | line :: lines => (byte :: line) :: lines

/-- The session that asks for paths, on the lines of its input. -/
def promptSession (mode : Mode) (folder : Folder) : List (List UInt8) → Transcript
  | [] => .success prompt
  | line :: rest =>
    match text? line with
    | none => { stdout := prompt, stderr := brokenInput, code := 1 }
    | some text =>
      match answer? text with
      | none => .success prompt
      | some path =>
        -- A failing script is complained about, and the session goes on.
        let report := process mode path (folder.read path)
        (promptSession mode folder rest).after (prompt ++ report.printed) report.stderr

/-- The name and version of the command. -/
def versionText : String := "quill 0.1.0\n"

/-- What the command can be asked for. -/
def helpText : String :=
  "A small, statically checked scripting language\n\n" ++
  "Usage: quill [OPTIONS] [FILE]\n\n" ++
  "Arguments:\n" ++
  "  [FILE]  The script to run. Without it, quill prompts for paths until an empty line\n\n" ++
  "Options:\n" ++
  "      --tokens   Print the token stream as JSON instead of running the script\n" ++
  "      --ast      Print the syntax tree as JSON instead of running the script\n" ++
  "      --check    Check the script for errors without running it\n" ++
  "  -h, --help     Print help\n" ++
  "  -V, --version  Print version\n"

/-- The command that was misused. -/
def Misuse.transcript (reason : Misuse) : Transcript :=
  { stdout := ""
    stderr := s!"error: {reason.message}\n\nUsage: quill [OPTIONS] [FILE]\n\n" ++
      "For more information, try '--help'.\n"
    code := 2 }

/-- The whole command, on its arguments, the files around it and its input. -/
def session (arguments : List String) (folder : Folder) (input : List UInt8) : Transcript :=
  match Request.ofArguments arguments with
  | .help => .success helpText
  | .version => .success versionText
  | .misuse reason => reason.transcript
  | .process mode (some path) => (process mode path (folder.read path)).transcript
  | .process mode none => promptSession mode folder (inputLines input)

end Scriptlet.Command
