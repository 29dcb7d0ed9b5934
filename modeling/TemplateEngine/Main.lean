import TemplateEngine.CommandLine

/-!
# The program

The shell is the one the program is started from.
-/

namespace TemplateEngine

/-- The cause of a failed operation on a file.  Some operations report the system's number with the
other sign. -/
def FileError.ofIO (e : IO.Error) : FileError :=
  match e with
  | .noFileOrDirectory _ _ _ => .missing
  | .alreadyExists _ _ _ => .alreadyExists
  | .inappropriateType _ code _ =>
    if code = 20 ∨ code = 0 - 20 then .notDirectory
    else if code = 21 ∨ code = 0 - 21 then .isDirectory
    else .other (toString e)
  | .invalidArgument _ code _ =>
    if code = 36 ∨ code = 0 - 36 then .nameTooLong else .other (toString e)
  | _ => .other (toString e)

/-- An operation on the file at a path, with the cause of its failure. -/
def attemptFile {α : Type} (path : String) (act : IO α) : IO (Except FileError α) := do
  match Path.check path with
  | .error e => return .error e
  | .ok () =>
    match ← act.toBaseIO with
    | .ok a => return .ok a
    | .error e => return .error (.ofIO e)

/-- Whether a directory exists. -/
def directoryExists (path : String) : IO Bool := do
  match ← (IO.FS.realPath (path ++ "/.")).toBaseIO with
  | .ok _ => return true
  | .error _ => return false

/-- Makes a directory unless there is one. -/
def makeDirectory (path : String) : IO Unit := do
  match ← (IO.FS.createDir path).toBaseIO with
  | .ok () => return ()
  | .error e => unless ← directoryExists path do throw e

/-- Makes a directory and those it lies in, where they are missing. -/
partial def makeDirectories (path : String) : IO Unit := do
  if path ≠ "" ∧ path ≠ "/" then
    match ← (makeDirectory path).toBaseIO with
    | .ok () => return ()
    | .error (.noFileOrDirectory _ _ _) =>
      makeDirectories (Path.parent path)
      makeDirectory path
    | .error e => throw e

/-- The shell the program is started from. -/
def systemShell : Shell IO where
  valueOf name := IO.getEnv name
  read path := do
    match ← attemptFile path (IO.FS.readBinFile path) with
    | .error e => return .error e
    | .ok bytes =>
      match String.fromUTF8? bytes with
      | some s => return .ok s.toList
      | none => return .error .notText
  save path text := attemptFile path do
    makeDirectories (Path.parent path)
    IO.FS.writeFile path (String.ofList text)

end TemplateEngine

/-- Processes the document that the command line names. -/
def main (args : List String) : IO UInt32 := do
  let ending ← TemplateEngine.CommandLine.run TemplateEngine.systemShell args
  IO.print (String.ofList ending.printed)
  IO.eprint ending.told
  return ending.status.toUInt32
