import LayerQuant.Command.Run

/-!
# The program

Reads the arguments, runs the command on the files of the current directory, and prints what it
says.
-/

open LayerQuant

/-- Reads a file of the file system. -/
def readFileContent (path : String) : IO FileContent := do
  try
    return .ok (← IO.FS.readBinFile path)
  catch
    | .noFileOrDirectory .. => return .error .notFound
    | .inappropriateType .. => return .error .isDirectory
    | error => return .error (.other (toString error))

/-- Runs the program. -/
def main (arguments : List String) : IO UInt32 := do
  match Arguments.parse arguments with
  | .error stop => return UInt32.ofNat stop.exitCode
  | .ok arguments =>
    let outcome ← Command.run readFileContent arguments
    IO.print outcome.output
    match outcome.failure with
    | none => return 0
    | some failure =>
      IO.eprintln ("Error: " ++ failure)
      return 1
