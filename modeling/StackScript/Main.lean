import StackScript.CommandLine.Session

set_option autoImplicit false

/-!
# The command line

The outer layer of the program: the real world of a session, in which files are read and texts
printed. All decisions are in the modules on options and sessions.
-/

namespace StackScript.CommandLine

/-- Reads a file; what goes wrong becomes a read error. -/
def readPath (path : String) : IO (Except ReadError ByteArray) := do
  try
    return .ok (← IO.FS.readBinFile ⟨path⟩)
  catch
    | .noFileOrDirectory .. => return .error .notFound
    | .permissionDenied .. => return .error .permissionDenied
    | .inappropriateType _ code _ =>
      return .error (if code = 21 then .isADirectory else .notADirectory)
    | e@(.invalidArgument _ code _) =>
      return .error (if code = 0 - 36 then .nameTooLong else .other (toString e))
    | e => return .error (.other (toString e))

/-- Repeats an action until it gives a result. -/
partial def keepOn {α β : Type} (body : α → IO (β ⊕ α)) (a : α) : IO β := do
  match ← body a with
  | .inl b => return b
  | .inr a => keepOn body a

/-- What is said about a text that is not a program. -/
def complaint (text : String) : String :=
  match Json.parse? text with
  | none => "this is not JSON"
  | some _ => "this is not the tree of a program"

/-- The world of the program. -/
def World.real : World IO where
  read := readPath
  print := IO.print
  printError := IO.eprint
  loop := keepOn
  explain := complaint

end StackScript.CommandLine

/-- Does what the arguments ask for. -/
def main (arguments : List String) : IO UInt32 := do
  match StackScript.CommandLine.parse arguments with
  | .error e =>
    IO.eprintln ("error: " ++ e.message)
    return 2
  | .ok .version =>
    IO.print StackScript.CommandLine.versionText
    return 0
  | .ok .help =>
    IO.print StackScript.CommandLine.helpText
    return 0
  | .ok (.process o) => StackScript.CommandLine.World.real.session o
