import TemplateEngine.Command.Kind
import TemplateEngine.Document.Basic
import TemplateEngine.Syntax.Parser
import TemplateEngine.Text.Blank

/-!
# Settings — what a document says about itself

The type of a document, its print functions and its form description are kept in its metadata.  Print
functions are listed with commas between them, the form description in the command language.
-/

namespace TemplateEngine

/-! ### Metadata keys -/

/-- The metadata key of the form description. -/
def formDescriptionKey : String := "FormDescription"

/-- The metadata key of the print functions. -/
def printFunctionsKey : String := "PrintFunctions"

/-- The metadata key of the document type. -/
def documentTypeKey : String := "SetType"

/-! ### Form description -/

/-- The description of a document's form. -/
structure FormDescription where
  nodes : List Node
  /-- Whether the document carried a description when it was opened. -/
  persisted : Bool
  deriving DecidableEq

namespace FormDescription

/-- The description a document carries; a broken one has no nodes. -/
def ofDocument (d : Document) : FormDescription :=
  match d.persistentData? formDescriptionKey with
  | none => ⟨[], false⟩
  | some text =>
    match parseNodes text.toList with
    | .ok nodes => ⟨nodes, true⟩
    | .error _ => ⟨[], true⟩

/-- The description with more nodes. -/
def merge (f : FormDescription) (nodes : List Node) : FormDescription :=
  { f with nodes := f.nodes ++ nodes }

/-- Whether a node called `Window` has children. -/
def hasWindow (f : FormDescription) : Bool :=
  (Node.descendantsOfAll f.nodes).any fun n => n.name == "Window" && !n.isLeaf

/-- The description as it is kept. -/
def text (f : FormDescription) : String := String.ofList (Node.printAll f.nodes)

/-- The document with the description kept in it. -/
def persist (f : FormDescription) (d : Document) : Document :=
  d.setPersistentData formDescriptionKey f.text

end FormDescription

/-! ### Print functions -/

/-- The print functions of a list with commas. -/
def readPrintFunctions (s : String) : NameSet :=
  .ofList ((((Text.splitOn ',' s.toList).map Text.trim).filter (!·.isEmpty)).map String.ofList)

/-- A list of print functions with commas. -/
def writePrintFunctions (names : NameSet) : String := String.intercalate "," names.names

/-! ### Settings -/

/-- What a document says about itself. -/
structure Settings where
  /-- The first type declared. -/
  type? : Option DocumentType
  printFunctions : NameSet
  form : FormDescription
  /-- Whether the document turned out to hold a form. -/
  holdsForm : Bool
  deriving DecidableEq

namespace Settings

/-- The settings a document carries. -/
def ofDocument (d : Document) : Settings where
  type? := (d.persistentData? documentTypeKey).bind DocumentType.ofName?
  printFunctions := ((d.persistentData? printFunctionsKey).map readPrintFunctions).getD .empty
  form := .ofDocument d
  holdsForm := false

/-- The settings after a type is declared; the first one counts. -/
def declareType (s : Settings) (t : DocumentType) : Settings :=
  { s with type? := some (s.type?.getD t) }

/-- Whether the commands of a document with these settings are executed.  A document that declares no
type is a template unless it was opened from a location. -/
def isTemplate (s : Settings) (hasLocation : Bool) : Bool :=
  match s.type? with
  | some .normalTemplate => true
  | some .templateTemplate | some .formDocument => false
  | none => !hasLocation

/-- Whether a document with these settings is a form. -/
def isFormDocument (s : Settings) : Bool := s.holdsForm || s.type? == some .formDocument

/-- The settings with more nodes in the form description. -/
def mergeForm (s : Settings) (nodes : List Node) : Settings := { s with form := s.form.merge nodes }

/-- The settings of a document that turned out to hold a form. -/
def markForm (s : Settings) : Settings := { s with holdsForm := true }

/-- The settings and the document after a print function is added. -/
def addPrintFunction (s : Settings) (d : Document) (function : String) : Settings × Document :=
  if s.printFunctions.contains function then (s, d)
  else
    let names := s.printFunctions.insert function
    ({ s with printFunctions := names },
      d.setPersistentData printFunctionsKey (writePrintFunctions names))

end Settings

end TemplateEngine
