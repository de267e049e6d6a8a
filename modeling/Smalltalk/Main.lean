import Smalltalk.CommandLine

/-!
# `Smalltalk.Main`: the command

Reads the files that the arguments name, leaves the work to
`Smalltalk.CommandLine`, and prints what it reports or why it stopped.
-/

set_option autoImplicit false

namespace Smalltalk.Main

/-- What the system says about a file that cannot be read. -/
def fileError : IO.Error → CommandLine.FileError
  | .noFileOrDirectory _ number words
  | .permissionDenied _ number words
  | .inappropriateType _ number words
  | .invalidArgument _ number words
  | .resourceExhausted _ number words
  | .noSuchThing _ number words
  | .otherError number words => ⟨number.toNat, words⟩
  | _ => .absent

/-- The text of a file, if it can be read. -/
def contentsOf (file : String) : IO (Except CommandLine.FileError String) := do
  try
    let text ← IO.FS.readFile file
    return .ok text
  catch e => return .error (fileError e)

/-- The texts of files by name. -/
def readAll (files : List String) :
    IO (List (String × Except CommandLine.FileError String)) :=
  files.mapM fun file => do
    let text ← contentsOf file
    return (file, text)

end Smalltalk.Main

/-- Runs the command. -/
def main (args : List String) : IO UInt32 := do
  let images :=
    match Smalltalk.CommandLine.parse args with
    | .options options => options.images
    | _ => []
  let texts ← Smalltalk.Main.readAll images
  let contents := fun file => (texts.lookup file).getD (.error .absent)
  match Smalltalk.CommandLine.report {} contents args with
  | .ok report =>
    IO.print report.output
    IO.eprint report.errors
    return UInt32.ofNat report.exitCode
  | .error stop =>
    IO.eprintln (Smalltalk.CommandLine.lastWords stop)
    return 1
