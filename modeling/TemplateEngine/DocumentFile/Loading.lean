import TemplateEngine.DocumentFile.Reading
import TemplateEngine.Services
import TemplateEngine.Shell

/-!
# Loading documents from files
-/

namespace TemplateEngine

namespace DocumentFile

/-- The document file at a path, by what reading the path gave. -/
def ofRead (path : String) : Except FileError Text → Except DocumentFileError DocumentFile
  | .error _ => .error (.unreadable path)
  | .ok t =>
    match parse t with
    | none => .error (.malformed path)
    | some f => .ok f

/-- The document at a path, by what reading the path gave. -/
def documentOfRead (path : String) (r : Except FileError Text) :
    Except DocumentFileError Document := do
  (← ofRead path r).toDocument

end DocumentFile

/-- The content at a location, by what reading the file it stands for gave. -/
def contentOfRead (env : Environment) (location : String) :
    Except FileError Text → Except LoadError Document
  | .error .missing => .error (.notFound location)
  | .error e => .error (.unreadable location e.message)
  | .ok t =>
    match DocumentFile.documentOfRead (Location.resolve env location) (.ok t) with
    | .error e => .error (.malformed location e.message)
    | .ok d => .ok d

end TemplateEngine
