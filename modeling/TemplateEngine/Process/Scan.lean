import TemplateEngine.Process.Run

/-!
# Scan — collecting settings and form fields
-/

namespace TemplateEngine

/-! ### Settings -/

/-- The document and its settings during a scan. -/
structure Scan where
  document : Document
  settings : Settings

/-- The command is done and its bookmark goes. -/
def Scan.consume (s : Scan) (c : Command) : Command × Scan :=
  let (c, document) := c.markDone s.document true
  (c, { s with document })

/-- Applies a command that declares a setting.  A template for templates that was opened from a
location keeps the command that says so. -/
def scanCommand (hasLocation : Bool) (c : Command) (s : Scan) : Except Fault (Command × Scan) :=
  match c.kind with
  | .setType t =>
    let s := { s with settings := s.settings.declareType t }
    if hasLocation && t == .templateTemplate then .ok (c, s) else .ok (s.consume c)
  | .setPrintFunction function =>
    let (settings, document) := s.settings.addPrintFunction s.document function
    .ok (Scan.consume ⟨document, settings⟩ c)
  | _ => .ok (c, s)

/-- Applies the commands that declare settings. -/
def Model.scanSettings (m : Model) : Except Fault Model := do
  let wasModified := m.document.modified
  let m := m.enter
  let (commands, s) ←
    visitPending (scanCommand m.document.hasLocation) m.commands ⟨m.document, m.settings⟩
  return { m with commands, document := s.document, settings := s.settings }.leave wasModified

/-! ### Form fields -/

/-- The form field of a command. -/
def formField? (c : Command) : Option FormField :=
  match c.kind with
  | .insertFormValue id transform => if c.isPending then some ⟨id, c.bookmark, transform⟩ else none
  | _ => none

/-- The fields with `f` put before the first one it comes before. -/
def insertFormField (d : Document) (f : FormField) (fs : List FormField) : List FormField :=
  let earlier := fs.takeWhile fun other =>
    !(TextRange.relation? (f.range? d) (other.range? d)).precedes
  earlier ++ f :: fs.drop earlier.length

/-- The index with one more form field. -/
def indexFormField (d : Document) (index : Dictionary (List FormField)) (f : FormField) :
    Dictionary (List FormField) :=
  index.insert f.id (insertFormField d f ((index.get? f.id).getD []))

/-- The form fields of pending commands, by id. -/
def formFieldIndex (d : Document) (cs : List Command) : Dictionary (List FormField) :=
  (cs.filterMap formField?).foldl (indexFormField d) .empty

/-- Collects the form fields of the document. -/
def Model.scanFormFields (m : Model) : Model :=
  { m with formFields := formFieldIndex m.document m.commands }

end TemplateEngine
