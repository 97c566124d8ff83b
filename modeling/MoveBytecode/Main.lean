import MoveBytecode.CommandLine

/-!
# The program

Reads the file that the arguments name and prints what the command line makes of it.
-/

open MoveBytecode

/-- The contents of the file that a path of the file system leads to. -/
def readFile (path : String) : IO (Except Fault Bytes) := do
  try
    return .ok (← IO.FS.readBinFile path).data
  catch
    | .noFileOrDirectory .. => return .error (.fileMissing path)
    | .inappropriateType _ 20 _ => return .error (.fileIsNoDirectory path)
    | .invalidArgument .. => return .error (.pathTooLong path)
    | _ => return .error (.fileIsDirectory path)

/-- Prints an outcome and returns its exit code. -/
def report (outcome : CommandLine.Outcome) : IO UInt32 := do
  IO.print outcome.output
  IO.eprint outcome.errors
  return UInt32.ofNat outcome.exit

/-- How the program is called. -/
def usage : String :=
  "usage: FILE [--tables|--disasm|--cfg|--mermaid|--ir|--source|--stats] [-f NAME] [-v]"

/-- Parses the arguments, serves the request that they make, and exits with its code. -/
def main (arguments : List String) : IO UInt32 := do
  match CommandLine.parse arguments with
  | .error refusal =>
    IO.eprintln usage
    return UInt32.ofNat refusal.exit
  | .ok request =>
    let file ← readFile request.file
    match CommandLine.serve (fun _ => file) request with
    | .ok outcome => report outcome
    | .error fault => report ⟨1, "", fault.message ++ "\n"⟩
