import TemplateEngine.Document.Bookmark
import TemplateEngine.Document.Field

/-!
# Content — inserting one document into another

The text of the inserted document comes with its bookmarks, fields and annotations, which move with
it.  Bookmarks get unique names and fields new ids.
-/

namespace TemplateEngine

namespace Document

/-- The document with a note added, its span unchecked. -/
def addAnnotation (d : Document) (text : String) (s : Span) : Document :=
  { d with annotations := d.annotations ++ [⟨text, s⟩] }

/-- The document with a note on a range. -/
def insertAnnotation (d : Document) (r : TextRange) (text : String) : Except Refusal Document := do
  d.check r
  return d.addAnnotation text r.toSpan

/-- The document with the bookmarks, fields and annotations of another one, `offset` bytes on. -/
def adopt (d content : Document) (offset : Nat) : Document :=
  let moved s := Span.heldBeside d.length (s.shift offset)
  let d := content.bookmarks.foldl (fun d b => (d.addBookmark b.name (moved b.span)).1) d
  let d := content.fields.foldl (fun d f => (d.addField f.kind (moved f.span)).1) d
  content.annotations.foldl (fun d a => d.addAnnotation a.text (moved a.span)) d

/-- Inserts another document at the start of a range. -/
def insertContent (d : Document) (r : TextRange) (content : Document) : Attempt :=
  match d.check r with
  | .error e => .ok (.error e)
  | .ok () => do
    let d ← d.edit (.point r.start) content.text none
    return .ok (d.adopt content r.start)

end Document

end TemplateEngine
