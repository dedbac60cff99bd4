import Scriptlet.Command.Session

/-!
# The Command

The outer layer: it fetches arguments, lines and files, and hands them to the
functions that decide what to do with them. A session with a terminal shows
each answer before it asks for the next line, which is why the loop is here as
well; what it shows for a line is what `promptSession` has for that line.

## Main definitions

* `promptLoop`: Asks for paths on a terminal.
* `main`: The command.
-/

namespace Scriptlet.Command

/-- Why the system could not read a file. Its number for the reason can come
    with either sign. -/
def ReadError.ofSystem : IO.Error → ReadError
  | .noFileOrDirectory _ _ _ => .notFound
  | .inappropriateType _ code _ =>
    if code = 20 ∨ code = 0 - 20 then .notAFolder else .isAFolder
  | .invalidArgument _ code details =>
    if code = 36 ∨ code = 0 - 36 then .nameTooLong else .system details
  | e => .system (toString e)

/-- The bytes of a file. -/
def readFile (path : String) : IO (Except ReadError (List UInt8)) := do
  if '\x00' ∈ path.toList then
    return .error .zeroInName
  else
    match ← (IO.FS.readBinFile path).toBaseIO with
    | .ok content => return .ok content.toList
    | .error e => return .error (.ofSystem e)

/-- The bytes of a line with its line break, behind those in `done`, which are
    in reverse order. -/
partial def readLine (stdin : IO.FS.Stream) (done : List UInt8) : IO (List UInt8) := do
  match (← stdin.read 1).toList with
  | [] => return done.reverse
  | byte :: _ =>
    if byte = 0x0A then return (byte :: done).reverse
    else readLine stdin (byte :: done)

/-- Shows what a command left behind, and gives its exit code. -/
def Transcript.emit (transcript : Transcript) : IO UInt32 := do
  IO.print transcript.stdout
  IO.eprint transcript.stderr
  return transcript.code.toUInt32

/-- Asks for paths and processes the scripts at them until a blank line or the
    end of the input. -/
partial def promptLoop (mode : Mode) : IO UInt32 := do
  let stdout ← IO.getStdout
  stdout.putStr prompt
  stdout.flush
  match text? (← readLine (← IO.getStdin) []) with
  | none => Transcript.emit { stdout := "", stderr := brokenInput, code := 1 }
  | some line =>
    match answer? line with
    | none => return 0
    | some path =>
      let report := process mode path (← readFile path)
      stdout.putStr report.printed
      stdout.flush
      IO.eprint report.stderr
      promptLoop mode

end Scriptlet.Command

open Scriptlet.Command in
/-- Runs the command on its arguments. -/
def main (arguments : List String) : IO UInt32 := do
  match Request.ofArguments arguments with
  | .process mode none => promptLoop mode
  | .process mode (some path) => (process mode path (← readFile path)).transcript.emit
  | .help => (Transcript.success helpText).emit
  | .version => (Transcript.success versionText).emit
  | .misuse reason => reason.transcript.emit
