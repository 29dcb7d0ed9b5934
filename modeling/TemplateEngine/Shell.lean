import TemplateEngine.Location

/-!
# Shell — variables and files around a run
-/

namespace TemplateEngine

/-- Why a file is not read or written. -/
inductive FileError where
  | missing
  | alreadyExists
  | notDirectory
  | isDirectory
  | nameTooLong
  /-- The path has the character zero in it. -/
  | zeroByte
  /-- The file is no text in UTF-8. -/
  | notText
  | other (message : String)
  deriving DecidableEq, Repr

/-- The message for a file that is not read or written. -/
def FileError.message : FileError → String
  | .missing => "No such file or directory (os error 2)"
  | .alreadyExists => "File exists (os error 17)"
  | .notDirectory => "Not a directory (os error 20)"
  | .isDirectory => "Is a directory (os error 21)"
  | .nameTooLong => "File name too long (os error 36)"
  | .zeroByte => "file name contained an unexpected NUL byte"
  | .notText => "stream did not contain valid UTF-8"
  | .other message => message

/-- Whether an error says that a path leads to nothing, not even to what cannot be read. -/
def FileError.isAbsence : FileError → Bool
  | .missing | .notDirectory | .nameTooLong | .zeroByte => true
  | _ => false

/-! ### Paths -/

namespace Path

/-- The parts of a path between its slashes. -/
def parts (path : String) : List String := (Text.splitOn '/' path.toList).map String.ofList

/-- Whether a path starts from the root of all files. -/
def isAbsolute (path : String) : Bool := path.toList.head? = some '/'

/-- The parts of the directory that a path names a file or directory in. -/
def parentParts (path : String) : List String :=
  ((parts path).filter fun name => name ≠ "" ∧ name ≠ ".").dropLast

/-- The path of the directory that a path names a file or directory in. -/
def parent (path : String) : String :=
  (if isAbsolute path then "/" else "") ++ "/".intercalate (parentParts path)

/-- The parts that lead to the file to write at a path, and its name.  A slash at the end stands for the
directory before it. -/
def target (path : String) : List String × String :=
  let names := ((parts path).reverse.dropWhile (· = "")).reverse
  (names.dropLast, if path.toList.getLast? = some '/' then "." else names.getLast?.getD ".")

/-- How many bytes a path may have. -/
def maxLength : Nat := 4095

/-- How many bytes a part of a path may have. -/
def maxPartLength : Nat := 255

/-- Refuses a path that leads nowhere, whatever files there are. -/
def check (path : String) : Except FileError Unit :=
  if path.toList.contains '\x00' then .error .zeroByte
  else if maxLength < Text.byteLength path.toList then .error .nameTooLong
  else .ok ()

/-- Why nothing has a name, where nothing has it. -/
def absence (name : String) : FileError :=
  if maxPartLength < Text.byteLength name.toList then .nameTooLong else .missing

end Path

/-! ### The shell -/

/-- What a run asks of the shell it is started from. -/
structure Shell (m : Type → Type) where
  /-- The value of a variable. -/
  valueOf : String → m (Option String)
  /-- The text of a file. -/
  read : String → m (Except FileError Text)
  /-- Writes a text to a file, making the directories it lies in. -/
  save : String → Text → m (Except FileError Unit)

/-- The names of the variables in a location. -/
def Location.names (location : String) : List String :=
  (Location.pieces location.toList).filterMap fun p =>
    match p with
    | .literal _ => none
    | .reference name _ => some (String.ofList name)

namespace Shell

variable {m : Type → Type} [Monad m]

/-- What some locations refer to.  A home directory without a name counts as none. -/
def environment (shell : Shell m) (locations : List String) : m Environment := do
  let home ← shell.valueOf "HOME"
  let known ← (locations.flatMap Location.names).mapM fun name => do
    return (name, ← shell.valueOf name)
  return {
    value? := fun name => (known.find? (·.1 = name)).bind (·.2)
    home? := home.filter (· ≠ "") }

/-- What reading the file that each location stands for gives. -/
def readAll (shell : Shell m) (env : Environment) (locations : List String) :
    m (List (String × Except FileError Text)) :=
  locations.mapM fun l => return (l, ← shell.read (Location.resolve env l))

end Shell

end TemplateEngine
