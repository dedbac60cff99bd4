/-!
# Folders

The files a command can read, and how a path finds one. A path is a sequence of
steps from the folder inward: each step names a file or folder in the folder
reached so far, and only a folder can be stepped into. So which error a path
gives depends on the first step that fails.

Nothing outside the folder is known but that there are folders around it: a
path that leaves it finds them and nothing in them.

## Main definitions

* `ReadError`: Why a file could not be read.
* `Folder`: Files by their paths.
* `Folder.read`: The bytes that a path leads to.
-/

namespace Scriptlet.Command

/-- Why a file could not be read. -/
inductive ReadError where
  /-- A name that is not there. -/
  | notFound
  /-- A step into a file. -/
  | notAFolder
  /-- A folder where a file is needed. -/
  | isAFolder
  /-- A name or path beyond the limit on its length. -/
  | nameTooLong
  /-- A path with a zero character. -/
  | zeroInName
  /-- Bytes that are no text. -/
  | notText
  /-- Another reason of the system. -/
  | system (reason : String)
  deriving DecidableEq, Repr

/-- The wording of a failed reading. -/
def ReadError.reason : ReadError → String
  | .notFound => "No such file or directory (os error 2)"
  | .notAFolder => "Not a directory (os error 20)"
  | .isAFolder => "Is a directory (os error 21)"
  | .nameTooLong => "File name too long (os error 36)"
  | .zeroInName => "file name contained an unexpected NUL byte"
  | .notText => "stream did not contain valid UTF-8"
  | .system reason => reason

/-- The text that bytes are, if they are well-formed UTF-8. -/
def text? (bytes : List UInt8) : Option String := String.fromUTF8? ⟨bytes.toArray⟩

/-- The steps of a path, as they are divided by slashes. -/
def steps (path : String) : List String := path.splitOn "/"

/-- Files by the steps that lead to them. -/
structure Folder where
  files : List (List String × List UInt8)

/-- What some steps lead to. -/
inductive Place where
  /-- A file with its content. -/
  | file (content : List UInt8)
  /-- A folder inside, by the steps that lead to it. -/
  | inside (path : List String)
  /-- A folder around the one that is known. -/
  | outside
  deriving DecidableEq

namespace Folder

/-- A folder of files with the given paths. -/
def ofFiles (files : List (String × List UInt8)) : Folder :=
  ⟨files.map fun (path, content) => (steps path, content)⟩

/-- The most bytes in the name of a file. -/
def maxName : Nat := 255

/-- The most bytes in a path. -/
def maxPath : Nat := 4095

/-- What stands under a name in the folder inside that `path` leads to. -/
def enter (folder : Folder) (path : List String) (name : String) : Except ReadError Place :=
  let target := path ++ [name]
  match folder.files.lookup target with
  | some content => .ok (.file content)
  | none =>
    if folder.files.any fun (other, _) => target.isPrefixOf other then .ok (.inside target)
    else if maxName < name.utf8ByteSize then .error .nameTooLong
    else .error .notFound

/-- Takes one step from a place. An empty step and a dot stay, and two dots go
    one folder out. -/
def step (folder : Folder) (place : Place) (name : String) : Except ReadError Place :=
  match place with
  | .file _ => .error .notAFolder
  | .inside path =>
    if name = "" ∨ name = "." then .ok (.inside path)
    else if name = ".." then .ok (if path = [] then .outside else .inside path.dropLast)
    else folder.enter path name
  | .outside =>
    if name = "" ∨ name = "." ∨ name = ".." then .ok .outside
    else if maxName < name.utf8ByteSize then .error .nameTooLong
    else .error .notFound

/-- The place that a path leads to. A path that starts with a slash starts
    outside. -/
def find (folder : Folder) (path : String) : Except ReadError Place :=
  match steps path with
  | "" :: rest => rest.foldlM folder.step .outside
  | all => all.foldlM folder.step (.inside [])

/-- The bytes of the file that a path leads to. -/
def read (folder : Folder) (path : String) : Except ReadError (List UInt8) :=
  if '\x00' ∈ path.toList then .error .zeroInName
  else if maxPath < path.utf8ByteSize then .error .nameTooLong
  else match folder.find path with
    | .ok (.file content) => .ok content
    | .ok (.inside _) | .ok .outside => .error .isAFolder
    | .error e => .error e

end Folder

end Scriptlet.Command
