import TemplateEngine.Document.Edit

/-!
# Fields and elements of a document

The element tree has the paragraphs at its top and the fields inside a paragraph as its children.
-/

namespace TemplateEngine

namespace Document

/-! ### Adding -/

/-- Adds a field, its span unchecked, and tells its id. -/
def addField (d : Document) (kind : FieldKind) (s : Span) : Document × Nat :=
  ({ d with fields := d.fields ++ [⟨d.nextFieldId, kind, s⟩], nextFieldId := d.nextFieldId + 1 },
    d.nextFieldId)

/-- Appends a placeholder showing its hint and tells its id. -/
def appendPlaceholder (d : Document) (hint : String) : Except Fault (Document × Nat) := do
  let d' ← d.append hint.toList
  return d'.addField (.placeholder hint) ⟨d.length, d'.length⟩

/-- Appends a computed field showing a text and tells its id. -/
def appendComputed (d : Document) (source : String) (t : Text) : Except Fault (Document × Nat) := do
  let d' ← d.append t
  return d'.addField (.computed source) ⟨d.length, d'.length⟩

/-! ### Placeholders -/

/-- The fields by the start of their spans. -/
def byStart (fs : List Field) : List Field :=
  fs.mergeSort fun a b => decide (a.span.start ≤ b.span.start)

/-- The ids of the placeholders inside a span, in text order. -/
def placeholdersWithin (d : Document) (s : Span) : List Nat :=
  (byStart (d.fields.filter fun f => f.isPlaceholder && f.span.within s)).map (·.id)

/-- Puts a text in the place of a field, which is gone then. -/
def replacePlaceholder (d : Document) (id : Nat) (t : Text) : Attempt :=
  match d.field? id with
  | none => .ok (.error (.fieldNotFound id))
  | some f => do
    let d ← d.edit f.span t none
    return .ok { d with fields := d.fields.filter (·.id ≠ id) }

/-! ### Elements -/

/-- The paragraphs of the text. -/
def paragraphs (d : Document) : List Span := d.text.paragraphs.map fun p => ⟨p.1, p.2⟩

/-- The paragraphs that a span touches. -/
def elementsWithin (d : Document) (s : Span) : List Element :=
  (d.paragraphs.zipIdx.filter fun p => p.1.start ≤ s.stop && s.start ≤ p.1.stop).map fun p =>
    .paragraph p.2

/-- The elements inside an element, in text order. -/
def childElements (d : Document) : Element → List Element
  | .field _ => []
  | .paragraph i =>
    match d.paragraphs[i]? with
    | none => []
    | some p => (byStart (d.fields.filter fun f => f.span.within p)).map fun f => .field f.id

/-- Shows the current value of a computed field; `none` for an element that has no value. -/
def refreshElement (d : Document) : Element → Except Fault (Option (Except Refusal Document))
  | .paragraph _ => .ok none
  | .field id =>
    match d.field? id with
    | none => .ok none
    | some f =>
      match f.kind with
      | .placeholder _ => .ok none
      | .computed source =>
        match d.values.get? source with
        | none => .ok (some (.error (.variableNotSet id source)))
        | some value => do
          let d ← d.edit f.span value.toList (some (.field id))
          return some (.ok d)

end Document

end TemplateEngine
