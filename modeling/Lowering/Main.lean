import Lowering.CommandLine.Run

/-!
# The program

The command line on the files of the system. This front end starts no other programs, so a build
reports that its compiler is not there.
-/

namespace Lowering

/-- The cause behind an error of the system. -/
def systemError : IO.Error → FileError
  | .noFileOrDirectory .. => .notFound
  | .permissionDenied .. => .permissionDenied
  | .inappropriateType .. => .isDirectory
  | e => .other (toString e)

/-- Runs an action of the system and keeps the cause of its failure. -/
def attempt {α : Type} (act : IO α) : IO (Except FileError α) := do
  try return .ok (← act) catch e => return .error (systemError e)

/-- The system as a host. -/
def systemHost : Host IO where
  readText path := do
    match ← attempt (IO.FS.readBinFile path) with
    | .error e => return .error e
    | .ok bytes =>
      match String.fromUTF8? bytes with
      | some s => return .ok s
      | none => return .error .notText
  makeDirectory path := attempt (IO.FS.createDirAll (Path.directory path))
  writeText path text := attempt (IO.FS.writeFile path text)
  print s := IO.print s
  start _ _ := return .error .notFound
  launch _ := return .error .notFound

/-- Executes a command line and reports how it ended. -/
def executeOnSystem (args : List String) : IO UInt32 := do
  let ended ← execute systemHost args
  match ended with
  | .done => pure ()
  | .usage => IO.eprint "error: invalid arguments\n\nFor more information, try '--help'.\n"
  | .failed e => IO.eprint e.report
  return UInt32.ofNat ended.exitCode

end Lowering

/-- The entry point. -/
def main (args : List String) : IO UInt32 := Lowering.executeOnSystem args
