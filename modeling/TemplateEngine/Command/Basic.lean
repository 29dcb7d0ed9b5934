import TemplateEngine.Command.Kind
import TemplateEngine.Document.Content
import TemplateEngine.Document.Paragraph
import TemplateEngine.Syntax.Parser
import TemplateEngine.Text.Blank
import TemplateEngine.Text.Digit

/-!
# Command — commands kept in bookmarks

A command is a bookmark whose name is written `DOC(…)` in the command language, with blanks before
and, to keep names unique, digits behind it.  The command knows its bookmark by name only; where it
is, is looked up in the document.  Its state is part of the name (`STATE`), so a stored document
remembers which commands are done.
-/

namespace TemplateEngine

/-! ### Names of commands -/

/-- What is left of a bookmark name without the blanks before it and the blanks and digits behind. -/
def commandCore (name : Text) : Text :=
  (((name.dropWhile isBlank).reverse.dropWhile isDecimalDigit).dropWhile isBlank).reverse

/-- The command in a bookmark name: `DOC`, blanks, and a parenthesis that is closed at the end with no
line break on the way. -/
def commandText? (name : Text) : Option Text :=
  match commandCore name with
  | 'D' :: 'O' :: 'C' :: rest =>
    match rest.dropWhile isBlank with
    | '(' :: inner =>
      if inner.getLast? = some ')' ∧ '\n' ∉ inner.dropLast then some (commandCore name) else none
    | _ => none
  | _ => none

/-! ### Commands -/

/-- A command of a document. -/
structure Command where
  bookmark : String
  config : Node
  kind : CommandKind
  done : Bool
  failed : Bool
  /-- Whether content was inserted between marks that are still in the text. -/
  marked : Bool
  deriving DecidableEq

namespace Command

/-- Whether a flag of the state is set. -/
def stateFlag (config : Node) (key : String) : Bool :=
  ((config.child? "STATE").bind (·.childValue? key)).any (sameName · "true")

/-- The command with that node under that bookmark. -/
def ofNode (bookmark : String) (config : Node) (kind : CommandKind) : Command where
  bookmark
  config
  kind
  done := stateFlag config "DONE"
  failed := stateFlag config "ERROR"
  marked := false

/-- The command that a bookmark name holds. -/
def ofBookmark? (bookmark : String) : Option Command :=
  (commandText? bookmark.toList).map fun t =>
    match parseNode t with
    | .ok config => ofNode bookmark config (.ofNode config)
    | .error e => ofNode bookmark (.leaf "DOC") (.invalid (.badSyntax e))

/-- Whether a command is neither done nor failed. -/
def isPending (c : Command) : Bool := !c.done && !c.failed

/-- Where a command is. -/
def range? (c : Command) (d : Document) : Option TextRange := d.bookmarkRange? c.bookmark

/-- The command with its failure flag set. -/
def setFailed (c : Command) (b : Bool) : Command := { c with failed := b }

/-- The command without its marks. -/
def unmark (c : Command) : Command := { c with marked := false }

/-! ### State in the name -/

/-- The word for a flag. -/
def flagWord (b : Bool) : String := if b then "true" else "false"

/-- The state with a flag written, if it is set or was written before. -/
def writeFlag (state : Node) (key : String) (b : Bool) : Node :=
  if b || (state.child? key).isSome then state.setChild (.keyValue key (flagWord b)) else state

/-- The state of a command as a node. -/
def stateNode (c : Command) : Node :=
  writeFlag (writeFlag ((c.config.child? "STATE").getD (.leaf "STATE")) "DONE" c.done) "ERROR" c.failed

/-- The command with its flags written into its node. -/
def recordState (c : Command) : Command :=
  let state := c.stateNode
  if state.isLeaf then c else { c with config := c.config.setChild state }

/-- Marks a command done.  With `remove` its bookmark goes, otherwise the bookmark's name tells the
state.  A bookmark that is not there is left alone. -/
def markDone (c : Command) (d : Document) (remove : Bool) : Command × Document :=
  let c := { c with done := true }
  if remove then
    match d.removeBookmark c.bookmark with
    | .ok d => (c, d)
    | .error _ => (c, d)
  else
    let c := c.recordState
    match d.renameBookmark c.bookmark (toString c.config) with
    | .ok (d, name) => ({ c with bookmark := name }, d)
    | .error _ => (c, d)

/-! ### Text of a command -/

/-- Replaces the text of a command. -/
def setText (c : Command) (d : Document) (t : Text) : Attempt := d.setBookmarkText c.bookmark t

/-- The marks between which content is inserted. -/
def marks : Text := ['<', '>']

/-- Puts marks in the place of a command's text and content between them.  Tells what was refused. -/
def insertBetweenMarks (c : Command) (d content : Document) :
    Except Fault (Command × Document × Option Refusal) := do
  match ← c.setText d marks with
  | .error e => return (c, d, some e)
  | .ok d =>
    let c := { c with marked := true }
    match c.range? d with
    | none => return (c, d, some (.bookmarkNotFound c.bookmark))
    | some range =>
      match d.shift? range.collapseToStart 1 1 with
      | none => return (c, d, some (.invalidRange range))
      | some between =>
        match ← d.insertContent between content with
        | .error e => return (c, d, some e)
        | .ok d => return (c, d, none)

end Command

end TemplateEngine
