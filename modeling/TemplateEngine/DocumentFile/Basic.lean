import TemplateEngine.Document.Content

/-!
# DocumentFile — documents as they are saved

A file holds a document's text and what lies over it: bookmarks, fields and annotations with their
spans, style names by family, variables and metadata, and where the document was saved.  The view
cursor, the flags and the field ids of an open document are not kept.
-/

namespace TemplateEngine

/-- A field as a file holds it: without an id. -/
structure FieldEntry where
  kind : FieldKind
  span : Span
  deriving DecidableEq, Repr

/-- A document as a file holds it. -/
structure DocumentFile where
  text : String
  location : Option String
  bookmarks : List Bookmark
  fields : List FieldEntry
  annotations : List Annotation
  /-- The style names by the name of their family. -/
  styles : Dictionary NameSet
  /-- The values of the document's variables. -/
  values : Dictionary String
  metadata : Dictionary String
  deriving DecidableEq

/-- Why a file is not a document. -/
inductive DocumentFileError where
  /-- The file cannot be read. -/
  | unreadable (path : String)
  /-- The file is not TOML, or a value is missing or of another type. -/
  | malformed (path : String)
  | unknownStyleFamily (name : String)
  /-- A span does not lie in the text, between characters. -/
  | invalidSpan (what : String) (span : Span)
  deriving DecidableEq, Repr

/-- The message for a file that is not a document. -/
def DocumentFileError.message : DocumentFileError → String
  | .unreadable path => "Failed to read document file: " ++ path
  | .malformed path => "Failed to parse document file: " ++ path
  | .unknownStyleFamily name => "unknown style family '" ++ name ++ "'"
  | .invalidSpan what span =>
    what ++ " spans " ++ toString span.start ++ ".." ++ toString span.stop ++
      ", which is not inside the text"

namespace DocumentFile

/-! ### Files and documents -/

/-- The file of a document. -/
def ofDocument (d : Document) : DocumentFile where
  text := String.ofList d.text
  location := d.location
  bookmarks := d.bookmarks
  fields := d.fields.map fun f => ⟨f.kind, f.span⟩
  annotations := d.annotations
  styles :=
    .ofList ((StyleFamily.all.filter fun f => !(d.styles.get f).names.isEmpty).map fun f =>
      (f.name, d.styles.get f))
  values := d.values
  metadata := d.metadata

/-- Refuses a span that does not lie in a text, between characters. -/
def check (t : Text) (what : String) (s : Span) : Except DocumentFileError Unit :=
  if s.fits t then .ok () else .error (.invalidSpan what s)

/-- The document with one more bookmark of the file. -/
def addBookmark (d : Document) (b : Bookmark) : Except DocumentFileError Document := do
  check d.text ("bookmark '" ++ b.name ++ "'") b.span
  return (d.addBookmark b.name b.span).1

/-- The document with one more field of the file. -/
def addField (d : Document) (f : FieldEntry) : Except DocumentFileError Document := do
  check d.text "field" f.span
  return (d.addField f.kind f.span).1

/-- The document with one more annotation of the file. -/
def addAnnotation (d : Document) (a : Annotation) : Except DocumentFileError Document := do
  check d.text "annotation" a.span
  return d.addAnnotation a.text a.span

/-- The document with the styles of one more family of the file. -/
def addStyles (d : Document) (e : String × NameSet) : Except DocumentFileError Document :=
  match StyleFamily.ofName? e.1 with
  | none => .error (.unknownStyleFamily e.1)
  | some f => .ok (e.2.names.foldl (fun d name => d.addStyle f name) d)

/-- The document of a file. -/
def toDocument (f : DocumentFile) : Except DocumentFileError Document := do
  let d := Document.ofText f.text.toList
  let d ← f.bookmarks.foldlM addBookmark d
  let d ← f.fields.foldlM addField d
  let d ← f.annotations.foldlM addAnnotation d
  let d ← f.styles.entries.foldlM addStyles d
  return { d with values := f.values, metadata := f.metadata, location := f.location }

end DocumentFile

end TemplateEngine
