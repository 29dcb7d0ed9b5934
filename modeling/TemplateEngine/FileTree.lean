import TemplateEngine.Dictionary
import TemplateEngine.Shell

/-!
# FileTree — files and directories in memory

A tree of files to try a run on.  Its root is the current directory; of what lies outside nothing is
known, so no file is found there and writing there leaves the tree as it is.
-/

namespace TemplateEngine

/-- Files and directories below a current directory, by the names that lead to them. -/
structure FileTree where
  directories : List (List String)
  /-- A file has no text if it is not in UTF-8. -/
  files : List (List String × Option Text)

namespace FileTree

/-! ### Places -/

/-- Where a path leads. -/
inductive Place where
  | directory (names : List String)
  | file (names : List String)
  | outside
  deriving DecidableEq, Repr

/-- Whether a directory exists. -/
def hasDirectory (t : FileTree) (names : List String) : Bool :=
  names.isEmpty || t.directories.contains names

/-- Whether a file exists. -/
def hasFile (t : FileTree) (names : List String) : Bool := t.files.any (·.1 == names)

/-- Where a path starts from. -/
def origin (path : String) : Place := if Path.isAbsolute path then .outside else .directory []

/-- One step along a path. -/
def step (t : FileTree) (p : Place) (name : String) : Except FileError Place :=
  match p with
  | .file _ => .error .notDirectory
  | .outside => if name = "" ∨ name = "." ∨ name = ".." then .ok .outside else .error (Path.absence name)
  | .directory names =>
    if name = "" ∨ name = "." then .ok (.directory names)
    else if name = ".." then .ok (if names.isEmpty then .outside else .directory names.dropLast)
    else if t.hasDirectory (names ++ [name]) then .ok (.directory (names ++ [name]))
    else if t.hasFile (names ++ [name]) then .ok (.file (names ++ [name]))
    else .error (Path.absence name)

/-- Where a path leads. -/
def locate (t : FileTree) (path : String) : Except FileError Place := do
  Path.check path
  if path = "" then throw .missing else (Path.parts path).foldlM t.step (origin path)

/-! ### Reading -/

/-- The text of a file. -/
def read (t : FileTree) (path : String) : Except FileError Text := do
  match ← t.locate path with
  | .file names =>
    match (t.files.find? (·.1 = names)).bind (·.2) with
    | some text => .ok text
    | none => .error .notText
  | _ => .error .isDirectory

/-! ### Building and writing -/

/-- The tree with a file. -/
def putFile (t : FileTree) (names : List String) (text : Option Text) : FileTree :=
  { t with files := t.files.filter (·.1 ≠ names) ++ [(names, text)] }

/-- The tree with a directory and those it lies in. -/
def putDirectory (t : FileTree) (names : List String) : FileTree :=
  { t with directories :=
      t.directories ++ (List.range names.length).map fun n => names.take (n + 1) }

/-- The tree without files. -/
def empty : FileTree := ⟨[], []⟩

/-- The tree with one more path; a path with a slash at its end is a directory. -/
def addPath (t : FileTree) (path : String) (text : Option Text) : FileTree :=
  let names := (Path.parts path).filter (· ≠ "")
  if path.toList.getLast? = some '/' then t.putDirectory names
  else (t.putDirectory names.dropLast).putFile names text

/-- One step along a path of directories, made where they are missing; `last` tells whether the path
ends with the step. -/
def enter (last : Bool) (t : FileTree) (p : Place) (name : String) :
    Except FileError (FileTree × Place) :=
  match p, t.step p name with
  | _, .ok (.file _) => .error (if last then .alreadyExists else .notDirectory)
  | _, .ok q => .ok (t, q)
  | .directory names, .error .missing =>
    .ok (t.putDirectory (names ++ [name]), .directory (names ++ [name]))
  | .outside, .error .missing => .ok (t, .outside)
  | _, .error e => .error e

/-- The tree with a path of directories. -/
def makeDirectories (t : FileTree) (p : Place) : List String → Except FileError FileTree
  | [] => .ok t
  | name :: names => do
    let (t, p) ← t.enter names.isEmpty p name
    makeDirectories t p names

/-- Writes a file whose directory exists. -/
def write (t : FileTree) (path : String) (text : Text) : Except FileError FileTree := do
  Path.check path
  if path = "" then throw .missing
  let (names, name) := Path.target path
  let place ← (names ++ ["."]).foldlM t.step (origin path)
  match place, t.step place name with
  | _, .ok (.file names) => return t.putFile names (some text)
  | _, .ok _ => throw .isDirectory
  | .directory names, .error .missing => return t.putFile (names ++ [name]) (some text)
  | .outside, .error .missing => return t
  | _, .error e => throw e

/-- Writes a file and makes the directories it lies in. -/
def save (t : FileTree) (path : String) (text : Text) : Except FileError FileTree := do
  Path.check (Path.parent path)
  let t ← t.makeDirectories (origin path) (Path.parentParts path)
  t.write path text

/-! ### As a shell -/

/-- A shell with these files and variables. -/
def shell (values : Dictionary String) : Shell (StateM FileTree) where
  valueOf name := return values.get? name
  read path := return (← get).read path
  save path text := do
    match (← get).save path text with
    | .ok t =>
      set t
      return .ok ()
    | .error e => return .error e

end FileTree

end TemplateEngine
