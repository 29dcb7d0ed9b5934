import TemplateEngine.Dictionary
import TemplateEngine.Span.Anchor
import TemplateEngine.Style
import TemplateEngine.Text.Basic

/-!
# Document — a text with bookmarks, fields and annotations

A document is one text with spans over it.  Bookmarks have unique names, fields have ids that count
up, annotations are notes on a stretch of text.  Paragraphs are separated by line breaks.

An operation can be refused, which leaves the document as it was (`Refusal`).  Apart from that a
document may hold spans that do not lie on character boundaries of its text; reading or replacing
such a span is a fault of whoever put it there (`Fault`).
-/

namespace TemplateEngine

/-- Whether a span lies in a text, with both ends between characters. -/
def Span.fits (s : Span) (t : Text) : Bool :=
  s.start ≤ s.stop && t.isBoundary s.start && t.isBoundary s.stop

/-! ### Parts of a document -/

/-- A named span. -/
structure Bookmark where
  name : String
  span : Span
  deriving DecidableEq, Repr

/-- What a field shows. -/
inductive FieldKind where
  /-- A place to be filled in, showing a hint until then. -/
  | placeholder (hint : String)
  /-- The value of a document variable. -/
  | computed (source : String)
  deriving DecidableEq, Repr

/-- A field of a document. -/
structure Field where
  id : Nat
  kind : FieldKind
  span : Span
  deriving DecidableEq, Repr

/-- Whether a field is a place to be filled in. -/
def Field.isPlaceholder (f : Field) : Bool :=
  match f.kind with
  | .placeholder _ => true
  | .computed _ => false

/-- A note on a stretch of text. -/
structure Annotation where
  text : String
  span : Span
  deriving DecidableEq, Repr

/-- A node of a document's element tree: a paragraph by its index, or a field by its id. -/
inductive Element where
  | paragraph (index : Nat)
  | field (id : Nat)
  deriving DecidableEq, Repr

/-- A document. -/
structure Document where
  text : Text
  bookmarks : List Bookmark
  fields : List Field
  annotations : List Annotation
  styles : StyleSheet
  /-- The values of the document's variables. -/
  values : Dictionary String
  metadata : Dictionary String
  /-- Where the document was opened from. -/
  location : Option String
  cursor : Option Span
  modified : Bool
  /-- Whether the user may edit. -/
  modifiable : Bool
  locks : Nat
  nextFieldId : Nat
  deriving DecidableEq

/-! ### Failures -/

/-- Why a document refuses an operation. -/
inductive Refusal where
  | bookmarkNotFound (name : String)
  | fieldNotFound (id : Nat)
  | invalidRange (range : TextRange)
  | variableNotSet (id : Nat) (source : String)
  deriving DecidableEq, Repr

/-- A field id as messages show it. -/
def describeFieldId (id : Nat) : String := "FieldId(" ++ toString id ++ ")"

/-- The message for a refusal. -/
def Refusal.message : Refusal → String
  | .bookmarkNotFound name => "bookmark '" ++ name ++ "' does not exist"
  | .fieldNotFound id => "field " ++ describeFieldId id ++ " does not exist"
  | .invalidRange range => "range " ++ range.describe ++ " lies outside the document"
  | .variableNotSet id source =>
    "field " ++ describeFieldId id ++ " could not be refreshed: variable '" ++ source ++
      "' is not set"

/-- A position that cannot be used on a text. -/
inductive Fault where
  /-- The byte before or after a position is only a part of a character. -/
  | splitCharacter (position : Nat)
  /-- The text cannot be cut at an end of the span. -/
  | brokenSpan (span : Span)
  deriving DecidableEq, Repr

/-- The message for a position that cannot be used. -/
def Fault.message : Fault → String
  | .splitCharacter position => "byte " ++ toString position ++ " is part of a character"
  | .brokenSpan span =>
    "the text cannot be cut at bytes " ++ toString span.start ++ " and " ++ toString span.stop

/-- The result of an operation that can be refused. -/
abbrev Attempt := Except Fault (Except Refusal Document)

namespace Document

/-! ### Looking at a document -/

/-- The document with a text and nothing else. -/
def ofText (t : Text) : Document where
  text := t
  bookmarks := []
  fields := []
  annotations := []
  styles := .empty
  values := .empty
  metadata := .empty
  location := none
  cursor := none
  modified := false
  modifiable := true
  locks := 0
  nextFieldId := 0

instance : Inhabited Document := ⟨ofText []⟩

/-- Length of the text in bytes. -/
def length (d : Document) : Nat := Text.byteLength d.text

/-- The bookmark of that name. -/
def bookmark? (d : Document) (name : String) : Option Bookmark :=
  d.bookmarks.find? (·.name = name)

/-- The field of that id. -/
def field? (d : Document) (id : Nat) : Option Field := d.fields.find? (·.id = id)

/-- The range of the bookmark of that name. -/
def bookmarkRange? (d : Document) (name : String) : Option TextRange :=
  (d.bookmark? name).map fun b => .ofSpan b.span

/-- The range of the field of that id. -/
def fieldRange? (d : Document) (id : Nat) : Option TextRange :=
  (d.field? id).map fun f => .ofSpan f.span

/-- Whether the document was opened from a location. -/
def hasLocation (d : Document) : Bool := d.location.isSome

/-- Whether views of the document wait for a run of changes to end. -/
def isLocked (d : Document) : Bool := 0 < d.locks

/-- The part of a span that lies inside the text. -/
def clamp (d : Document) (s : Span) : Span :=
  let start := min s.start d.length
  ⟨start, max start (min s.stop d.length)⟩

/-- The text of the part of a span that lies inside the text.  An empty part has none, wherever it
is. -/
def inside? (d : Document) (s : Span) : Option Text :=
  let c := d.clamp s
  if c.isCollapsed then some [] else d.text.slice? c.start c.stop

/-- The text of the part of a span that lies inside the text. -/
def slice (d : Document) (s : Span) : Except Fault Text :=
  match d.inside? s with
  | some t => .ok t
  | none => .error (.brokenSpan s)

/-- Whether a range can be used on the main text. -/
def covers (d : Document) (r : TextRange) : Bool :=
  r.container == TextRange.body && r.start ≤ r.stop && r.stop ≤ d.length

/-- Refuses a range that cannot be used on the main text. -/
def check (d : Document) (r : TextRange) : Except Refusal Unit :=
  if d.covers r then .ok () else .error (.invalidRange r)

/-! ### Flags -/

/-- The document with the modified flag set. -/
def setModified (d : Document) (b : Bool) : Document := { d with modified := b }

/-- The document with user edits allowed or not. -/
def setModifiable (d : Document) (b : Bool) : Document := { d with modifiable := b }

/-- The document with one more lock. -/
def lock (d : Document) : Document := { d with locks := d.locks + 1 }

/-- The document with one lock less. -/
def unlock (d : Document) : Document := { d with locks := d.locks - 1 }

/-! ### Metadata, variables, styles and the cursor -/

/-- The metadata value of a key. -/
def persistentData? (d : Document) (key : String) : Option String := d.metadata.get? key

/-- The document with a metadata value set. -/
def setPersistentData (d : Document) (key value : String) : Document :=
  { d with metadata := d.metadata.insert key value }

/-- The document with a variable set. -/
def setVariable (d : Document) (name value : String) : Document :=
  { d with values := d.values.insert name value }

/-- The document with one more style. -/
def addStyle (d : Document) (f : StyleFamily) (name : String) : Document :=
  { d with styles := d.styles.addAll f [name] }

/-- The document with the styles of some families of another document added. -/
def importStyles (d content : Document) (families : List StyleFamily) : Document :=
  { d with
    styles := families.foldl (fun s f => s.addAll f (content.styles.get f).names) d.styles
    modified := true }

/-- The document with the view cursor at a range. -/
def setCursor (d : Document) (r : TextRange) : Document := { d with cursor := some r.toSpan }

end Document

end TemplateEngine
