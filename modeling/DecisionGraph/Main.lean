import DecisionGraph.CommandLine.Outcome

/-!
# The program

Reads the files that the command line names, prints what `Command.run` says, and ends with its code.
-/

namespace DecisionGraph

/-- The reason in words why a file could not be read. -/
def reasonOf : IO.Error → String
  | .noFileOrDirectory .. => "No such file or directory (os error 2)"
  | .permissionDenied .. => "Permission denied (os error 13)"
  | .inappropriateType .. => "Is a directory (os error 21)"
  | other => toString other

def readText (path : String) : IO (Except String String) := do
  try
    let bytes ← IO.FS.readBinFile path
    match String.fromUTF8? bytes with
    | some text => return .ok text
    | none => return .error "stream did not contain valid UTF-8"
  catch error => return .error (reasonOf error)

end DecisionGraph

open DecisionGraph in
def main (args : List String) : IO UInt32 := do
  let paths := ((Command.ofArguments? args).map Command.paths).getD []
  let texts ← paths.mapM fun path => return (path, ← readText path)
  let files : Files := fun path => (texts.lookup path).getD (.error "the file was not read")
  let outcome := Outcome.ofArguments files args
  IO.print outcome.output
  IO.eprint outcome.notes
  return outcome.exit.toUInt32
