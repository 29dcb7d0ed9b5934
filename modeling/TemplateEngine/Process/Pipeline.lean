import TemplateEngine.Process.Cleanup
import TemplateEngine.Process.Expansion
import TemplateEngine.Process.Fields
import TemplateEngine.Process.Scan
import TemplateEngine.Process.Values

/-!
# Pipeline — processing a document

The settings are scanned first.  A template is then executed: its fragments are expanded, its fields
updated, its values filled in and the marks around inserted content removed; what was inserted can
bring settings, so they are scanned again.  The form fields of a form document are collected at the
end.  No phase changes the modified flag.
-/

namespace TemplateEngine

/-- Why processing does not succeed. -/
inductive ProcessError where
  | commandsFailed (count : Nat)
  deriving DecidableEq, Repr

/-- The message for a document with failed commands. -/
def ProcessError.message : ProcessError → String
  | .commandsFailed n =>
    "The template contains " ++ (if n = 1 then "one error" else toString n ++ " errors") ++
      ".\nPlease check the template and the fragments it uses."

/-- What processing did. -/
structure Report where
  /-- How expansion ended, when the template was executed. -/
  fixpoint : Option Fixpoint
  isFormDocument : Bool
  deriving DecidableEq, Repr

/-- The model after a part of processing, the messages shown meanwhile, and the result. -/
structure Outcome (α : Type) where
  model : Model
  messages : List Message
  result : Except ProcessError α

/-! ### Executing a template -/

/-- The state in which a template run starts. -/
def Model.startRun (m : Model) : Run where
  document := m.document
  settings := m.settings
  overrides := m.overrides
  contents := m.contentLocations
  cursorPlaced := false
  failures := 0
  messages := []

/-- Executes a phase while views of the document wait. -/
def lockedPhase (phase : List Command → Run → Except Fault (List Command × Run))
    (cs : List Command) (r : Run) : Except Fault (List Command × Run) := do
  let (cs, r) ← phase cs { r with document := r.document.lock }
  return (cs, { r with document := r.document.unlock })

/-- The phases after expansion: fields, values, marks. -/
def completeRun (s : Services) (cs : List Command) (r : Run) : Except Fault (List Command × Run) := do
  let (cs, r) ← lockedPhase (visitPending (updateFields s.policy)) cs r
  let (cs, r) ← lockedPhase (visitPending (fillIn s)) cs r
  let (cs, document) ← collectGarbage s.policy cs r.document
  let (cs, _) := Command.refresh document cs
  return (cs, { r with document })

/-- The settings after a template was executed: one whose form has a window holds a form. -/
def settleForm (settings : Settings) : Settings :=
  if settings.form.hasWindow then settings.markForm else settings

/-- Executes the commands of a template. -/
def Model.executeTemplate (m : Model) (s : Services) : Except Fault (Outcome Fixpoint) := do
  let wasModified := m.document.modified
  let m := m.enter
  let (fixpoint, cs, r) ← expand s m.commands m.startRun
  let (commands, r) ← completeRun s cs r
  let m := { m with
    document := r.document
    commands
    settings := settleForm r.settings
    overrides := r.overrides }
  return {
    model := m.leave wasModified
    messages := r.messages
    result := if r.failures = 0 then .ok fixpoint else .error (.commandsFailed r.failures) }

/-! ### The whole pipeline -/

/-- Collects the form fields of a form document. -/
def Model.conclude (m : Model) : Model :=
  if m.settings.isFormDocument then m.scanFormFields else m

/-- Processes a document. -/
def Model.process (m : Model) (s : Services) : Except Fault (Outcome Report) := do
  let m ← m.scanSettings
  if m.isTemplate || m.mustProcess then
    let executed ← m.executeTemplate s
    match executed.result with
    | .error e => return { executed with result := .error e }
    | .ok fixpoint =>
      let m ← executed.model.scanSettings
      return ⟨m.conclude, executed.messages, .ok ⟨some fixpoint, m.settings.isFormDocument⟩⟩
  else
    return ⟨m.conclude, [], .ok ⟨none, m.settings.isFormDocument⟩⟩

end TemplateEngine
