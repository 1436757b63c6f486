import ResponseFraming.CommandLine.Run

/-!
# The program

Reads the files that the arguments name, prints what the run gives and ends with its exit code.
-/

namespace ResponseFraming

def readPath (path : String) : IO (Except ReadFault Bytes) := do
  try
    return .ok (← IO.FS.readBinFile path).toList
  catch
    | .noFileOrDirectory .. => return .error .missing
    | .inappropriateType .. => return .error .directory
    | e => return .error (.other (toString e))

def readPaths (paths : List String) : IO Files := do
  let contents ← paths.mapM fun path => do return (path, ← readPath path)
  return fun path => ((contents.find? (·.1 == path)).map (·.2)).getD (.error .missing)

def failureText (f : Failure) : String :=
  "Error: " ++ f.headline ++ "\n" ++
    (if f.chain.tail = [] then ""
      else "\nCaused by:\n" ++ String.join (f.chain.tail.map fun m => "    " ++ m ++ "\n"))

end ResponseFraming

open ResponseFraming in
def main (arguments : List String) : IO UInt32 := do
  let files ← readPaths (CommandLine.paths arguments)
  let outcome := CommandLine.run files arguments
  IO.print outcome.output
  if let some f := outcome.failure then IO.eprint (failureText f)
  if outcome.exitCode = 2 then IO.eprint CommandLine.helpText
  return outcome.exitCode.toUInt32
