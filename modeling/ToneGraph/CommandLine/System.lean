/-!
# The world outside

The few things that the program asks of its surroundings, so that it can be run on a real machine or
on a made-up one.
-/

namespace ToneGraph.CommandLine

/-- Why a file cannot be read or written. -/
inductive FileError where
  | notFound
  | permissionDenied
  | notDirectory
  | isDirectory
  /-- The bytes are no text. -/
  | notText
  | other (reason : String)
  deriving DecidableEq, Repr

/-- The fault as error reports show it: its number, its kind and its text. -/
def FileError.report : FileError → String
  | notFound => "Os \x7b code: 2, kind: NotFound, message: \"No such file or directory\" \x7d"
  | permissionDenied =>
    "Os \x7b code: 13, kind: PermissionDenied, message: \"Permission denied\" \x7d"
  | notDirectory => "Os \x7b code: 20, kind: NotADirectory, message: \"Not a directory\" \x7d"
  | isDirectory => "Os \x7b code: 21, kind: IsADirectory, message: \"Is a directory\" \x7d"
  | notText =>
    "Error \x7b kind: InvalidData, message: \"stream did not contain valid UTF-8\" \x7d"
  | other reason => "Error \x7b kind: Other, message: \"" ++ reason ++ "\" \x7d"

/-- What the program can ask for. -/
structure System (m : Type → Type) where
  /-- The directory with the user's own files. -/
  home : Option String
  read : String → m (Except FileError String)
  write : String → List UInt8 → m (Except FileError Unit)

end ToneGraph.CommandLine
