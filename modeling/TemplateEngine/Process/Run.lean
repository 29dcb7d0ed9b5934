import TemplateEngine.Model
import TemplateEngine.Services

/-!
# Run — commands executed one after the other

A phase visits the commands of a document in order and executes those it is for.  Executing a command
changes the command itself and the state of the run.  A command that fails is marked in the document
and counted.
-/

namespace TemplateEngine

/-- The state of a template run. -/
structure Run where
  document : Document
  settings : Settings
  overrides : Overrides
  /-- The content locations that are not used yet. -/
  contents : List String
  /-- Whether the view cursor was put on a placeholder. -/
  cursorPlaced : Bool
  /-- How many commands failed. -/
  failures : Nat
  /-- The messages shown, oldest first. -/
  messages : List Message

/-- Executes a step for each command of a list. -/
def visit {σ : Type} (step : Command → σ → Except Fault (Command × σ)) :
    List Command → σ → Except Fault (List Command × σ)
  | [], s => .ok ([], s)
  | c :: cs, s => do
    let (c, s) ← step c s
    let (cs, s) ← visit step cs s
    return (c :: cs, s)

/-- Executes a step for each pending command of a list. -/
def visitPending {σ : Type} (step : Command → σ → Except Fault (Command × σ)) :
    List Command → σ → Except Fault (List Command × σ) :=
  visit fun c s => if c.isPending then step c s else .ok (c, s)

theorem visit_nil {σ : Type} (step : Command → σ → Except Fault (Command × σ)) (s : σ) :
    visit step [] s = .ok ([], s) := rfl

/-- Visiting two lists one after the other. -/
theorem visit_append {σ : Type} (step : Command → σ → Except Fault (Command × σ))
    (cs ds : List Command) (s : σ) :
    visit step (cs ++ ds) s = do
      let (cs, s) ← visit step cs s
      let (ds, s) ← visit step ds s
      return (cs ++ ds, s) := by
  induction cs generalizing s with
  | nil =>
    simp only [List.nil_append, visit_nil]
    show _ = visit step ds s >>= fun p => _
    cases visit step ds s <;> rfl
  | cons c cs ih =>
    simp only [List.cons_append, visit]
    cases hc : step c s with
    | error e => rfl
    | ok p =>
      obtain ⟨c', s'⟩ := p
      show (visit step (cs ++ ds) s' >>= _) = _
      rw [ih]
      show _ = (visit step cs s' >>= _) >>= _
      cases visit step cs s' with
      | error e => rfl
      | ok q =>
        obtain ⟨cs', s''⟩ := q
        show ((visit step ds s'' >>= _) >>= _) = visit step ds s'' >>= _
        cases visit step ds s'' <;> rfl

/-! ### Failed commands -/

/-- The text in the place of a command that failed. -/
def failureText : Text := "<ERROR:  >".toList

/-- The note on a command that failed. -/
def failureNote (c : Command) (reason : String) : String :=
  .join ["Error in document command '", c.bookmark, "':\n\n", reason]

/-- The document with a command that failed marked in it, where the command still is. -/
def markFailure (d : Document) (c : Command) (reason : String) : Except Fault Document := do
  match ← c.setText d failureText with
  | .error _ => return d
  | .ok d =>
    match c.range? d with
    | none => return d
    | some range =>
      match d.insertAnnotation range (failureNote c reason) with
      | .error _ => return d
      | .ok d => return d

namespace Run

/-- Shows a message. -/
def announce (r : Run) (m : Message) : Run := { r with messages := r.messages ++ [m] }

/-- Counts a failed command. -/
def count (r : Run) : Run := { r with failures := r.failures + 1 }

/-- A command fails and is marked in the document. -/
def fail (r : Run) (c : Command) (reason : String) : Except Fault (Command × Run) := do
  let document ← markFailure r.document c reason
  return (c.setFailed true, { r with document }.count)

/-- A command is done. -/
def finish (r : Run) (c : Command) (remove : Bool) : Command × Run :=
  let (c, document) := c.markDone r.document remove
  (c, { r with document })

/-- The text of a command is replaced, where the command still is. -/
def write (r : Run) (c : Command) (t : Text) : Except Fault Run := do
  match ← c.setText r.document t with
  | .error _ => return r
  | .ok document => return { r with document }

end Run

end TemplateEngine
