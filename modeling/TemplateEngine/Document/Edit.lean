import TemplateEngine.Document.Basic

/-!
# Edit — replacing text

Every change of the text is the replacement of one span.  The bookmark or field on whose behalf the
text is replaced covers exactly the new text afterwards; all other spans are re-anchored, and those
that are lost with the old text are dropped.
-/

namespace TemplateEngine

/-- On whose behalf text is replaced. -/
inductive Owner where
  | bookmark (name : String)
  | field (id : Nat)
  deriving DecidableEq, Repr

/-- One replacement: the span, the length of the new text, the length of the whole text after it, and
the owner. -/
structure Replacement where
  edited : Span
  inserted : Nat
  length : Nat
  owner : Option Owner

namespace Replacement

/-- The span of the new text. -/
def newSpan (e : Replacement) : Span :=
  Span.heldBeside e.length ⟨e.edited.start, e.edited.start + e.inserted⟩

/-- Where another span goes, if it is not lost. -/
def follow (e : Replacement) (s : Span) : Option Span :=
  (s.reanchor e.edited e.inserted).map (Span.heldBeside e.length)

/-- A bookmark after the replacement, if it is kept. -/
def bookmark? (e : Replacement) (b : Bookmark) : Option Bookmark :=
  if e.owner = some (.bookmark b.name) then some { b with span := e.newSpan }
  else (e.follow b.span).map fun s => { b with span := s }

/-- A field after the replacement, if it is kept. -/
def field? (e : Replacement) (f : Field) : Option Field :=
  if e.owner = some (.field f.id) then some { f with span := e.newSpan }
  else (e.follow f.span).map fun s => { f with span := s }

/-- An annotation after the replacement, if it is kept. -/
def annotation? (e : Replacement) (a : Annotation) : Option Annotation :=
  (e.follow a.span).map fun s => { a with span := s }

/-- The cursor after the replacement; a lost one goes to the start of the new text. -/
def cursor (e : Replacement) (c : Span) : Span :=
  (e.follow c).getD (.point e.edited.start)

end Replacement

namespace Document

/-- The document with `new` in place of a span of its text. -/
def edit (d : Document) (edited : Span) (new : Text) (owner : Option Owner) :
    Except Fault Document :=
  match d.text.replace? edited.start edited.stop new with
  | none => .error (.brokenSpan edited)
  | some text =>
    let e : Replacement := ⟨edited, Text.byteLength new, Text.byteLength text, owner⟩
    .ok { d with
      text
      bookmarks := d.bookmarks.filterMap e.bookmark?
      fields := d.fields.filterMap e.field?
      annotations := d.annotations.filterMap e.annotation?
      cursor := d.cursor.map e.cursor
      modified := true }

/-- The document with a text appended. -/
def append (d : Document) (t : Text) : Except Fault Document := d.edit (.point d.length) t none

end Document

end TemplateEngine
