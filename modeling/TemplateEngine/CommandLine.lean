import TemplateEngine.Config
import TemplateEngine.DocumentFile.Loading
import TemplateEngine.DocumentFile.Writing
import TemplateEngine.Process.Pipeline

/-!
# CommandLine — processing a document file

A command line names a document, perhaps a data row, and what to do with the result.  The document is
processed with the user's configuration; its text is printed, or the document is saved.
-/

namespace TemplateEngine

namespace CommandLine

/-! ### Arguments -/

/-- What a command line asks for. -/
structure Options where
  document : String
  data : Option String
  /-- Where further contents to insert are. -/
  contentLocations : List String
  /-- Whether the document is processed although it is no template. -/
  force : Bool
  output : Option String
  deriving DecidableEq, Repr

/-- Why a command line asks for nothing. -/
inductive UsageError where
  | noFileName
  | noLocation
  | unknownOption (argument : String)
  | noDocument
  | tooManyArguments
  deriving DecidableEq, Repr

/-- The message for a command line that asks for nothing. -/
def UsageError.message : UsageError → String
  | .noFileName => "--output needs a file name"
  | .noLocation => "--content needs a location"
  | .unknownOption argument => "unknown option '" ++ argument ++ "'"
  | .noDocument => "no document given"
  | .tooManyArguments => "too many arguments"

/-- The arguments read so far. -/
structure Arguments where
  files : List String
  contentLocations : List String
  force : Bool
  output : Option String
  deriving DecidableEq, Repr

/-- Reads arguments one after the other; of two output files the later one counts. -/
def Arguments.read (a : Arguments) : List String → Except UsageError Arguments
  | [] => .ok a
  | x :: xs =>
    if x = "--output" ∨ x = "-o" then
      match xs with
      | [] => .error .noFileName
      | path :: xs => { a with output := some path }.read xs
    else if x = "--content" then
      match xs with
      | [] => .error .noLocation
      | l :: xs => { a with contentLocations := a.contentLocations ++ [l] }.read xs
    else if x = "--force" then { a with force := true }.read xs
    else if x.toList.head? = some '-' then .error (.unknownOption x)
    else { a with files := a.files ++ [x] }.read xs

/-- What a list of arguments asks for. -/
def Options.parse (args : List String) : Except UsageError Options := do
  let a ← (Arguments.mk [] [] false none).read args
  match a.files with
  | [] => throw .noDocument
  | [document] => return ⟨document, none, a.contentLocations, a.force, a.output⟩
  | [document, data] => return ⟨document, some data, a.contentLocations, a.force, a.output⟩
  | _ => throw .tooManyArguments

/-! ### Data rows -/

/-- Why there is no data row. -/
inductive DataError where
  | unreadable (path : String)
  | malformed (path : String)
  deriving DecidableEq, Repr

/-- The message for a data row that is not read. -/
def DataError.message : DataError → String
  | .unreadable path => "Failed to read data file " ++ path
  | .malformed path => "Failed to parse data file " ++ path

/-- The data row that a text stands for: a table of strings. -/
def parseRow (t : Text) : Option (Dictionary String) := do
  let es ← Toml.read t
  DocumentFile.dictionaryOf Toml.Value.string? (.table .header es)

/-- The data row at a path, by what reading the path gave. -/
def rowOfRead (path : String) : Except FileError Text → Except DataError (Dictionary String)
  | .error _ => .error (.unreadable path)
  | .ok t =>
    match parseRow t with
    | none => .error (.malformed path)
    | some row => .ok row

/-! ### Before and after a run -/

/-- Why a document is not processed, or its result not saved. -/
inductive Failure where
  | usage (cause : UsageError)
  | config (cause : ConfigError)
  | document (cause : DocumentFileError)
  | data (cause : DataError)
  | output (cause : FileError)
  deriving DecidableEq, Repr

/-- How the program is called. -/
def usageLine : String :=
  "Usage: docmux <document.toml> [data.toml] [--content <location>]... [--force] " ++
    "[--output <file.toml>]"

/-- What the user is told of a failure. -/
def Failure.message : Failure → String
  | .usage cause => "Error: " ++ cause.message ++ "\n" ++ usageLine ++ "\n"
  | .config cause => "Error: Failed to load config file: " ++ cause.message ++ "\n"
  | .document cause => "Error: " ++ cause.message ++ "\n"
  | .data cause => "Error: " ++ cause.message ++ "\n"
  | .output cause => "Error: " ++ cause.message ++ "\n"

/-- A document that is ready to be processed. -/
structure Job where
  model : Model
  services : Services
  output : Option String

/-- What a run is over with: what it prints, what it tells the user, and its exit status. -/
structure Ending where
  printed : Text
  told : String
  status : Nat
  deriving DecidableEq

/-- The ending without a result. -/
def Ending.ofFailure (f : Failure) : Ending := ⟨[], f.message, 1⟩

/-! ### Running -/

/-- The surroundings of a run, by the configuration, the data row and what reading the location of each
content gave. -/
def services (config : Config) (row : Option (Dictionary String)) (env : Environment)
    (contents : List (String × Except FileError Text)) : Services where
  locations := config.fragmentLocations
  load l :=
    contentOfRead env l (((contents.find? (·.1 = l)).map (·.2)).getD (.error .missing))
  value := rowValue row
  transform name _ := .error (.unknown name)
  policy := config.policy

variable {m : Type → Type} [Monad m]

/-- A step whose error is the cause of a failure. -/
def orFail {ε α : Type} (f : ε → Failure) (act : m (Except ε α)) : ExceptT Failure m α :=
  ExceptT.mk (Except.mapError f <$> act)

/-- Reads all that a run needs. -/
def prepare (shell : Shell m) (args : List String) : ExceptT Failure m Job := do
  let options ← orFail .usage (pure (Options.parse args))
  let home ← shell.environment []
  let config ← orFail .config (Config.load shell (Config.userPath home))
  let config := config.getD .empty
  let document ← orFail .document
    (DocumentFile.documentOfRead options.document <$> shell.read options.document)
  let row ← options.data.mapM fun path => orFail .data (rowOfRead path <$> shell.read path)
  let locations := config.allLocations ++ options.contentLocations
  let env ← shell.environment locations
  let contents ← shell.readAll env locations
  return {
    model := { Model.ofDocument document with
      contentLocations := config.contentLocations ++ options.contentLocations
      mustProcess := options.force }
    services := services config row env contents
    output := options.output }

/-- A message as the user sees it. -/
def showMessage (msg : Message) : String := msg.title ++ ":\n" ++ msg.text ++ "\n\n"

/-- What the user is told of a run. -/
def told {α : Type} (o : Outcome α) : String :=
  String.join (o.messages.map showMessage) ++
    match o.result with
    | .ok _ => ""
    | .error e => e.message ++ "\n"

/-- Prints or saves the result of a run. -/
def deliver (shell : Shell m) (output : Option String) (o : Outcome Report) : m Ending := do
  let status :=
    match o.result with
    | .ok _ => 0
    | .error _ => 1
  match output with
  | none => return ⟨o.model.document.text, told o, status⟩
  | some path =>
    match ← shell.save path (DocumentFile.ofDocument o.model.document).write with
    | .ok () => return ⟨[], told o, status⟩
    | .error e => return ⟨[], told o ++ (Failure.output e).message, 1⟩

/-- Runs the program. -/
def run (shell : Shell m) (args : List String) : m Ending := do
  match ← (prepare shell args).run with
  | .error f => return .ofFailure f
  | .ok job =>
    match job.model.process job.services with
    | .error fault => return ⟨[], fault.message ++ "\n", 101⟩
    | .ok o => deliver shell job.output o

end CommandLine

end TemplateEngine
