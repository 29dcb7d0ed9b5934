import TemplateEngine.Document.Edit

/-!
# Paragraphs of a document

The tests whether a position is at an end of its paragraph read one byte of the text, so they are
faults next to a character of several bytes.
-/

namespace TemplateEngine

namespace Document

/-! ### Moving a range -/

/-- The range with its ends moved by numbers of characters, where it stays a range of the text. -/
def shift? (d : Document) (r : TextRange) (startBy stopBy : Int) : Option TextRange := do
  let start ← d.text.move? r.start startBy
  let stop ← d.text.move? r.stop stopBy
  if start ≤ stop then some { r with start, stop } else none

/-! ### Ends of paragraphs -/

/-- The bytes of a span, at most one, as a text. -/
def probe (d : Document) (s : Span) (position : Nat) : Except Fault Text :=
  match d.inside? s with
  | some t => .ok t
  | none => .error (.splitCharacter position)

/-- Whether a range starts where a paragraph starts. -/
def isStartOfParagraph (d : Document) (r : TextRange) : Except Fault Bool :=
  if r.start = 0 then .ok true
  else do
    let t ← d.probe ⟨r.start - 1, r.start⟩ r.start
    return t == ['\n']

/-- Whether a range stops where a paragraph stops. -/
def isEndOfParagraph (d : Document) (r : TextRange) : Except Fault Bool :=
  if d.length ≤ r.stop then .ok true
  else do
    let t ← d.probe ⟨r.stop, r.stop + 1⟩ r.stop
    return t == ['\n']

/-- Whether a range stops where the text stops. -/
def isEndOfDocument (d : Document) (r : TextRange) : Bool := d.length ≤ r.stop

/-! ### Deleting -/

/-- What to delete so that the paragraph `p` is gone: the line break behind it goes with it, or the
one before it when it is the last paragraph. -/
def withLineBreak (d : Document) (p : Span) : Span :=
  if p.stop < d.length then ⟨p.start, p.stop + 1⟩
  else if 0 < p.start then ⟨p.start - 1, p.stop⟩
  else p

/-- Deletes the paragraph around the start of a range. -/
def deleteParagraph (d : Document) (r : TextRange) : Attempt :=
  match d.check r with
  | .error e => .ok (.error e)
  | .ok () =>
    match d.text.paragraphAround? r.start with
    | none => .error (.brokenSpan r.toSpan)
    | some (start, stop) => do
      let d ← d.edit (d.withLineBreak ⟨start, stop⟩) [] none
      return .ok d

end Document

end TemplateEngine
