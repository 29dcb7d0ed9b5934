import TemplateEngine.Process.Run

/-!
# Values — filling in values, forms and invalid commands
-/

namespace TemplateEngine

/-- What is inserted when no data row is selected. -/
def noRowText : String := "<ERROR: no sender selected!>"

/-- Why no value is inserted. -/
inductive ValueError where
  | row (cause : RowError)
  | transform (cause : TransformError)
  deriving DecidableEq

/-- The message for a missing value. -/
def ValueError.message : ValueError → String
  | .row cause => cause.message
  | .transform cause => cause.message

/-- The text to insert for a value. -/
def fetchValue (s : Services) (request : ValueRequest) : Except ValueError String :=
  match s.value request.column with
  | .error .noRowSelected => .ok noRowText
  | .error e => .error (.row e)
  | .ok raw =>
    match request.transform with
    | none => .ok raw
    | some name =>
      match s.transform name raw with
      | .ok v => .ok v
      | .error e => .error (.transform e)

/-- A value between its separators; an empty value stands alone. -/
def separated (p : Separators) (value : String) : Text :=
  if value.isEmpty then [] else p.left.toList ++ value.toList ++ p.right.toList

/-- Inserts the value that a command asks for. -/
def insertValue (s : Services) (request : ValueRequest) (c : Command) (r : Run) :
    Except Fault (Command × Run) :=
  match fetchValue s request with
  | .error e => r.fail c e.message
  | .ok value => do
    let r ← r.write c (separated request.separators value)
    return r.finish c false

/-- The text of a command. -/
def commandBody (d : Document) (c : Command) : Except Fault Text :=
  match c.range? d with
  | none => .ok []
  | some range => d.slice range.toSpan

/-- Adds a form description to the document's, unless the document came with one. -/
def Run.describeForm (r : Run) (nodes : List Node) : Run :=
  if r.settings.form.persisted then r
  else
    let settings := r.settings.mergeForm nodes
    { r with settings, document := settings.form.persist r.document }

/-- Takes the form description out of a command's text. -/
def takeForm (policy : Policy) (c : Command) (r : Run) : Except Fault (Command × Run) := do
  match parseNodes (← commandBody r.document c) with
  | .error e => r.fail c ("form description is broken: " ++ e.message)
  | .ok nodes =>
    let r := r.describeForm nodes
    match ← c.setText r.document [] with
    | .error e => r.fail c ("form description could not be removed: " ++ e.message)
    | .ok document => return { r with document }.finish c (!policy.debug)

/-- Executes a command for a value or a form; an invalid command fails. -/
def fillIn (s : Services) (c : Command) (r : Run) : Except Fault (Command × Run) :=
  match c.kind with
  | .form => takeForm s.policy c r
  | .invalid defect => r.fail c defect.message
  | .insertValue request => insertValue s request c r
  | _ => .ok (c, r)

end TemplateEngine
