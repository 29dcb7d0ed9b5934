import TemplateEngine.Command.Tree
import TemplateEngine.Overrides
import TemplateEngine.Settings

/-!
# Model — a document and what is known about it
-/

namespace TemplateEngine

/-- A place in a document where a form value is shown. -/
structure FormField where
  id : String
  bookmark : String
  transform : Option String
  deriving DecidableEq

/-- Where a form field is. -/
def FormField.range? (f : FormField) (d : Document) : Option TextRange := d.bookmarkRange? f.bookmark

/-- A document with its commands, its settings and what processing needs and finds. -/
structure Model where
  document : Document
  commands : List Command
  settings : Settings
  overrides : Overrides
  /-- Where the contents to insert are, in the order of their use. -/
  contentLocations : List String
  /-- Whether commands are executed although the document is no template. -/
  mustProcess : Bool
  /-- The form fields by id, those of one id in document order. -/
  formFields : Dictionary (List FormField)

namespace Model

/-- What is known about a document that was just opened. -/
def ofDocument (d : Document) : Model where
  document := d
  commands := Command.ofDocument d
  settings := .ofDocument d
  overrides := .empty
  contentLocations := []
  mustProcess := false
  formFields := .empty

/-- Whether the commands of the document are executed. -/
def isTemplate (m : Model) : Bool := m.settings.isTemplate m.document.hasLocation

/-- The model with its list of commands brought up to date, and whether that changed it. -/
def refresh (m : Model) : Model × Bool :=
  let (commands, changed) := Command.refresh m.document m.commands
  ({ m with commands }, changed)

/-! ### Phases do not count as changes -/

/-- The document while a phase runs: not to be edited by the user. -/
def enter (m : Model) : Model := { m with document := m.document.setModifiable false }

/-- The document after a phase that started with the given modified flag. -/
def leave (m : Model) (wasModified : Bool) : Model :=
  { m with document := (m.document.setModified wasModified).setModifiable true }

end Model

end TemplateEngine
