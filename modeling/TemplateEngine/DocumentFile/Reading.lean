import TemplateEngine.DocumentFile.Basic
import TemplateEngine.Toml.Reader

/-!
# Reading document files

A key that is missing has nothing in it.  Keys that mean nothing are passed over, but their values must
be such that they can be held.  Bookmarks and annotations may be written as tables or as arrays of their
parts in order; nobody looks at what follows the parts.
-/

namespace TemplateEngine

namespace DocumentFile

open Toml (Entries Value)

/-! ### Keys with a default -/

/-- What the value of a key is read as, or a default where the key is missing. -/
def keyOr {α : Type} (es : Entries) (key : String) (default : α) (read : Value → Option α) :
    Option α :=
  match es.get? key with
  | none => some default
  | some v => read v

/-- What the value of a key is read as. -/
def key? {α : Type} (es : Entries) (key : String) (read : Value → Option α) : Option α :=
  (es.get? key).bind read

/-- The items of an array, each of them read. -/
def listOf {α : Type} (read : Value → Option α) (v : Value) : Option (List α) :=
  v.items?.bind fun items => items.mapM read

/-- The values of a table, each of them read. -/
def dictionaryOf {α : Type} (read : Value → Option α) (v : Value) : Option (Dictionary α) := do
  let es ← (← v.entries?).mapM fun e => (read e.2).map fun a => (e.1, a)
  return .ofList es

/-! ### Parts of a document -/

/-- A text and a span, under their keys or as the first three items of an array. -/
def labelled? (label : String) (v : Value) : Option (String × Span) :=
  match v.entries? with
  | some es => do
    guard (es.heldBeyond [label, "start", "end"])
    let text ← key? es label Value.string?
    let start ← key? es "start" Value.natural?
    let stop ← key? es "end" Value.natural?
    return (text, ⟨start, stop⟩)
  | none =>
    match v.items? with
    | some (text :: start :: stop :: _) => do
      return (← text.string?, ⟨← start.natural?, ← stop.natural?⟩)
    | _ => none

/-- A bookmark. -/
def bookmark? (v : Value) : Option Bookmark := (labelled? "name" v).map fun p => ⟨p.1, p.2⟩

/-- An annotation. -/
def annotation? (v : Value) : Option Annotation := (labelled? "text" v).map fun p => ⟨p.1, p.2⟩

/-- What a field shows; its kind says which key tells. -/
def fieldKind? (es : Entries) : Option FieldKind := do
  let kind ← key? es "kind" Value.string?
  if kind = "placeholder" then return .placeholder (← key? es "hint" Value.string?)
  else if kind = "computed" then return .computed (← key? es "variable" Value.string?)
  else none

/-- A field.  Which of its keys mean something depends on its kind, so integers have to fit into 64 bits
under all of them. -/
def field? (v : Value) : Option FieldEntry := do
  let es ← v.entries?
  guard (es.all fun e => e.2.every Value.isHeldInWord)
  let kind ← fieldKind? es
  let start ← key? es "start" Value.natural?
  let stop ← key? es "end" Value.natural?
  return ⟨kind, ⟨start, stop⟩⟩

/-- A set of names. -/
def names? (v : Value) : Option NameSet := v.strings?.map NameSet.ofList

/-! ### Documents -/

/-- The keys that mean something in a document. -/
def keys : List String :=
  ["text", "location", "bookmarks", "fields", "annotations", "styles", "variables", "metadata"]

/-- The document that a table stands for. -/
def ofEntries (es : Entries) : Option DocumentFile := do
  guard (es.heldBeyond keys)
  let text ← keyOr es "text" "" Value.string?
  let location ← keyOr es "location" none fun v => v.string?.map some
  let bookmarks ← keyOr es "bookmarks" [] (listOf bookmark?)
  let fields ← keyOr es "fields" [] (listOf field?)
  let annotations ← keyOr es "annotations" [] (listOf annotation?)
  let styles ← keyOr es "styles" .empty (dictionaryOf names?)
  let values ← keyOr es "variables" .empty (dictionaryOf Value.string?)
  let metadata ← keyOr es "metadata" .empty (dictionaryOf Value.string?)
  return { text, location, bookmarks, fields, annotations, styles, values, metadata }

/-- The document that a text stands for. -/
def parse (t : Text) : Option DocumentFile := (Toml.read t).bind ofEntries

end DocumentFile

end TemplateEngine
