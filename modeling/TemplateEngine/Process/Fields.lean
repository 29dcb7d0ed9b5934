import TemplateEngine.Process.Run

/-!
# Fields — bringing computed fields up to date

A command for this shows the current values of the computed fields in the paragraphs it touches.
-/

namespace TemplateEngine

/-- Shows the current value of an element, where that is possible. -/
def refreshOne (d : Document) (e : Element) : Except Fault Document := do
  match ← d.refreshElement e with
  | some (.ok d) => return d
  | _ => return d

/-- Shows the current values of the fields of an element, then of the element. -/
def refreshWithChildren (d : Document) (e : Element) : Except Fault Document := do
  let d ← (d.childElements e).foldlM refreshOne d
  refreshOne d e

/-- Updates the fields that a command asks for. -/
def updateFields (policy : Policy) (c : Command) (r : Run) : Except Fault (Command × Run) :=
  match c.kind with
  | .updateFields => do
    let document ←
      match c.range? r.document with
      | none => pure r.document
      | some range => (r.document.elementsWithin range.toSpan).foldlM refreshWithChildren r.document
    return { r with document }.finish c (!policy.debug)
  | _ => .ok (c, r)

end TemplateEngine
