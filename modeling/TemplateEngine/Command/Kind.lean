import TemplateEngine.Style
import TemplateEngine.Syntax.Error
import TemplateEngine.Syntax.Node

/-!
# Kind — what a command asks for

A command is written as a node whose child `CMD` names its kind and whose other children are its
attributes.  Kind names and the words for options are read without regard to ASCII case.  A node
that misses an attribute or uses an unknown word is an invalid command, which keeps its defect.
-/

namespace TemplateEngine

/-! ### The kinds -/

/-- The types a document can declare. -/
inductive DocumentType where
  | normalTemplate
  | templateTemplate
  | formDocument
  deriving DecidableEq, Repr

namespace DocumentType

/-- All types. -/
def all : List DocumentType := [.normalTemplate, .templateTemplate, .formDocument]

/-- The name of a type. -/
def name : DocumentType → String
  | .normalTemplate => "normalTemplate"
  | .templateTemplate => "templateTemplate"
  | .formDocument => "formDocument"

/-- The type of that name. -/
def ofName? (s : String) : Option DocumentType := all.find? fun t => sameName s t.name

end DocumentType

/-- Blocks of text that only some printed versions show. -/
inductive PrintBlock where
  | draftOnly
  | notInOriginal
  | originalOnly
  | copyOnly
  | allVersions
  deriving DecidableEq, Repr

namespace PrintBlock

/-- All blocks. -/
def all : List PrintBlock := [.draftOnly, .notInOriginal, .originalOnly, .copyOnly, .allVersions]

/-- The name of a block. -/
def name : PrintBlock → String
  | .draftOnly => "draftOnly"
  | .notInOriginal => "notInOriginal"
  | .originalOnly => "originalOnly"
  | .copyOnly => "copyOnly"
  | .allVersions => "allVersions"

/-- The block of that name. -/
def ofName? (s : String) : Option PrintBlock := all.find? fun b => sameName s b.name

end PrintBlock

/-- The fragment a command asks to insert. -/
structure FragmentRequest where
  id : String
  /-- The texts for the fragment's placeholders, in order. -/
  arguments : List String
  /-- Whether a failure is shown to the user instead of being written into the document. -/
  manual : Bool
  /-- The families to import; when there are some, no text is inserted. -/
  styles : List StyleFamily
  deriving DecidableEq, Repr

/-- Whether only styles are asked for. -/
def FragmentRequest.stylesOnly (r : FragmentRequest) : Bool := !r.styles.isEmpty

/-- The texts written around a value. -/
structure Separators where
  left : String
  right : String
  deriving DecidableEq, Repr

/-- The value a command asks to insert. -/
structure ValueRequest where
  column : String
  separators : Separators
  transform : Option String
  deriving DecidableEq, Repr

/-- Why a command is invalid. -/
inductive Defect where
  | badSyntax (error : SyntaxError)
  | missingAttribute (key : String)
  | unknownStyle (name : String)
  | unknownSide (name : String)
  | unknownType (name : String)
  | unknownCommand (name : String)
  deriving DecidableEq, Repr

/-- The message for a defect. -/
def Defect.message : Defect → String
  | .badSyntax e => e.message
  | .missingAttribute key => "missing attribute " ++ key
  | .unknownStyle name => "unknown STYLE '" ++ name ++ "'"
  | .unknownSide name =>
    "unknown AUTOSEP type \"" ++ name ++ "\", expected \"left\", \"right\" or \"both\""
  | .unknownType name =>
    "TYPE '" ++ name ++ "' is invalid, expected \"templateTemplate\", \"normalTemplate\" or " ++
      "\"formDocument\""
  | .unknownCommand name => "unknown command '" ++ name ++ "'"

/-- The kinds of commands. -/
inductive CommandKind where
  | insertFragment (request : FragmentRequest)
  | insertContent
  | insertValue (request : ValueRequest)
  | insertFormValue (id : String) (transform : Option String)
  /-- Replaces a fragment by another one, or by nothing when the new id is empty. -/
  | overrideFragment (id newId : String)
  | updateFields
  | setType (type : DocumentType)
  | setPrintFunction (function : String)
  | form
  | setJumpMark
  | setGroups (groups : List String)
  | printBlock (block : PrintBlock) (highlight : Option String)
  | invalid (defect : Defect)
  deriving DecidableEq, Repr

namespace CommandKind

/-- The name of a kind. -/
def name : CommandKind → String
  | .insertFragment _ => "insertFrag"
  | .insertContent => "insertContent"
  | .insertValue _ => "insertValue"
  | .insertFormValue _ _ => "insertFormValue"
  | .overrideFragment _ _ => "overrideFrag"
  | .updateFields => "updateFields"
  | .setType _ => "setType"
  | .setPrintFunction _ => "setPrintFunction"
  | .form => "form"
  | .setJumpMark => "setJumpMark"
  | .setGroups _ => "setGroups"
  | .printBlock block _ => block.name
  | .invalid _ => "invalid"

/-! ### Reading attributes -/

/-- The value of an attribute that must be there. -/
def required (n : Node) (key : String) : Except Defect String :=
  match n.childValue? key with
  | some v => .ok v
  | none => .error (.missingAttribute key)

/-- The names of the children of an attribute. -/
def listed (n : Node) (key : String) : List String :=
  match n.child? key with
  | some c => c.children.map (·.name)
  | none => []

/-- The families that a list of words asks for. -/
def requestedFamilies : List String → Except Defect (List StyleFamily)
  | [] => .ok []
  | w :: ws => do
    let here ←
      if sameName w "all" then .ok StyleFamily.all
      else match StyleFamily.ofName? w with
        | some f => .ok [f]
        | none => .error (.unknownStyle w)
    let more ← requestedFamilies ws
    return StyleFamily.all.filter fun f => here.contains f || more.contains f

/-- The fragment asked for. -/
def fragmentRequest (n : Node) : Except Defect FragmentRequest := do
  let id ← required n "FRAG_ID"
  let styles ← requestedFamilies (listed n "STYLES")
  return {
    id
    arguments := listed n "ARGS"
    manual := (n.childValue? "MODE").any (sameName · "manual")
    styles }

/-- The separators with the text `s` on the side that a word names. -/
def Separators.put (p : Separators) (s side : String) : Except Defect Separators :=
  if sameName side "left" then .ok { p with left := s }
  else if sameName side "right" then .ok { p with right := s }
  else if sameName side "both" then .ok ⟨s, s⟩
  else .error (.unknownSide side)

/-- The separators after the sides of a list are served: each side takes the next text, or the one of
the side before it when the texts are used up. -/
def serveSides (p : Separators) (current : String) :
    List String → List String → Except Defect Separators
  | _, [] => .ok p
  | [], side :: sides => do
    let p ← Separators.put p current side
    serveSides p current [] sides
  | s :: texts, side :: sides => do
    let p ← Separators.put p s side
    serveSides p s texts sides

/-- The value asked for. -/
def valueRequest (n : Node) : Except Defect ValueRequest := do
  let column ← required n "DB_SPALTE"
  let texts := (n.descendantsNamed "SEPARATOR").filterMap Node.value?
  let sides := (n.descendantsNamed "AUTOSEP").map fun a => a.value?.getD ""
  let separators ← serveSides ⟨"", ""⟩ " " texts sides
  return { column, separators, transform := n.childValue? "TRAFO" }

/-- The document type declared. -/
def declaredType (n : Node) : Except Defect DocumentType := do
  let name ← required n "TYPE"
  match DocumentType.ofName? name with
  | some t => return t
  | none => .error (.unknownType name)

/-- The kind that a node asks for by its child `CMD`. -/
def read (n : Node) : Except Defect CommandKind :=
  match n.childValue? "CMD" with
  | none => .error (.missingAttribute "CMD")
  | some cmd =>
    match cmd.toLower with
    | "insertfrag" => insertFragment <$> fragmentRequest n
    | "insertcontent" => .ok .insertContent
    | "insertvalue" => insertValue <$> valueRequest n
    | "insertformvalue" => return insertFormValue (← required n "ID") (n.childValue? "TRAFO")
    | "overridefrag" =>
      return overrideFragment (← required n "FRAG_ID") ((n.childValue? "NEW_FRAG_ID").getD "")
    | "updatefields" => .ok .updateFields
    | "settype" => setType <$> declaredType n
    | "setprintfunction" => setPrintFunction <$> required n "FUNCTION"
    | "form" => .ok .form
    | "setjumpmark" => .ok .setJumpMark
    | "setgroups" => .ok (.setGroups (listed n "GROUPS"))
    | other =>
      match PrintBlock.ofName? other with
      | some block =>
        .ok (.printBlock block ((n.descendantsNamed "HIGHLIGHT_COLOR").findSome? Node.value?))
      | none => .error (.unknownCommand cmd)

/-- The kind that a node asks for; a defective one is invalid. -/
def ofNode (n : Node) : CommandKind :=
  match read n with
  | .ok kind => kind
  | .error defect => .invalid defect

end CommandKind

end TemplateEngine
