import ToneGraph.CommandLine.Program
/-!
# Running the program

The real machine as a world for the program: its files, its arguments and its exit code.
-/

namespace ToneGraph.CommandLine

/-- The cause of a fault that the machine reports. -/
def FileError.ofFault : IO.Error → FileError
  | .noFileOrDirectory _ _ _ => .notFound
  | .permissionDenied _ _ _ => .permissionDenied
  | .inappropriateType _ 20 _ => .notDirectory
  | .inappropriateType _ _ _ => .isDirectory
  | fault => .other (toString fault)

/-- The bytes of a file as text. -/
def readText (path : String) : IO (Except FileError String) := do
  try
    let bytes ← IO.FS.readBinFile path
    match String.fromUTF8? bytes with
    | some text => return .ok text
    | none => return .error .notText
  catch fault => return .error (.ofFault fault)

/-- Writes a file. -/
def writeBytes (path : String) (bytes : List UInt8) : IO (Except FileError Unit) := do
  try
    IO.FS.writeBinFile path bytes.toByteArray
    return .ok ()
  catch fault => return .error (.ofFault fault)

end ToneGraph.CommandLine

open ToneGraph.CommandLine

/-- Runs the program on the arguments of the process. -/
def main (words : List String) : IO UInt32 := do
  let system : System IO := ⟨← IO.getEnv "HOME", readText, writeBytes⟩
  let outcome ← run system words
  IO.print outcome.output
  IO.eprint outcome.errors
  return outcome.code.toUInt32
