import TemplateEngine.DocumentFile.Basic
import TemplateEngine.Toml.Writer

/-!
# Writing document files

The text comes first and the location, if there is one; lists without items follow on a line each,
the items of the others under a header each, and then the tables of styles, variables and metadata.
-/

namespace TemplateEngine

namespace DocumentFile

open Toml (Line)

/-! ### Lists -/

/-- A list without items on its line. -/
def emptyList {α : Type} (name : String) (items : List α) : List Line :=
  if items.isEmpty then [.pair name (.strings [])] else []

/-- The items of a list, each under a header. -/
def elements {α : Type} (name : String) (lines : α → List Line) (items : List α) : List Line :=
  items.flatMap fun a => .element name :: lines a

/-- The two ends of a span. -/
def spanLines (s : Span) : List Line := [.pair "start" (.natural s.start), .pair "end" (.natural s.stop)]

/-- The parts of a bookmark. -/
def bookmarkLines (b : Bookmark) : List Line := .pair "name" (.string b.name) :: spanLines b.span

/-- The parts of an annotation. -/
def annotationLines (a : Annotation) : List Line := .pair "text" (.string a.text) :: spanLines a.span

/-- What a field shows. -/
def kindLines : FieldKind → List Line
  | .placeholder hint => [.pair "kind" (.string "placeholder"), .pair "hint" (.string hint)]
  | .computed source => [.pair "kind" (.string "computed"), .pair "variable" (.string source)]

/-- The parts of a field. -/
def fieldLines (f : FieldEntry) : List Line := kindLines f.kind ++ spanLines f.span

/-! ### Tables -/

/-- A table under its header. -/
def tableLines {α : Type} (name : String) (datum : α → Toml.Datum) (d : Dictionary α) : List Line :=
  .table name :: d.entries.map fun e => .pair e.1 (datum e.2)

/-! ### Documents -/

/-- The lines of a document. -/
def lines (f : DocumentFile) : List Line :=
  .pair "text" (.string f.text) :: (f.location.toList.map fun l => .pair "location" (.string l)) ++
    emptyList "bookmarks" f.bookmarks ++ emptyList "fields" f.fields ++
    emptyList "annotations" f.annotations ++
    elements "bookmarks" bookmarkLines f.bookmarks ++ elements "fields" fieldLines f.fields ++
    elements "annotations" annotationLines f.annotations ++
    tableLines "styles" (fun names => .strings names.names) f.styles ++
    tableLines "variables" .string f.values ++ tableLines "metadata" .string f.metadata

/-- A document, written. -/
def write (f : DocumentFile) : Text := Toml.write f.lines

end DocumentFile

end TemplateEngine
