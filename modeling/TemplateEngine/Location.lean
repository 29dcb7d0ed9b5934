import TemplateEngine.Text.Alphanumeric
import TemplateEngine.Text.Basic

/-!
# Location — where contents are, with variables and the home directory

A location may name variables, as `$NAME`, `${NAME}` or `${NAME:-fallback}`, and start with a tilde for
the home directory.  A variable that is not set and has no fallback leaves the location without a
meaning.
-/

namespace TemplateEngine

/-- What locations refer to. -/
structure Environment where
  value? : String → Option String
  home? : Option String

namespace Location

/-! ### Pieces -/

/-- What a location is made of. -/
inductive Piece where
  | literal (c : Char)
  | reference (name : Text) (fallback : Option Text)
  deriving DecidableEq, Repr

/-- Whether a character can stand in a name after a dollar sign. -/
def isNameChar (c : Char) : Bool := isAlphanumeric c || c = '_'

/-- The parts of a text before and after the first `:-` in it. -/
def cutFallback? : Text → Option (Text × Text)
  | ':' :: '-' :: t => some ([], t)
  | [] => none
  | c :: t => (cutFallback? t).map fun p => (c :: p.1, p.2)

/-- The variable that stands between braces.  The part before the fallback is a name, so it is not
empty. -/
def braced (t : Text) : Piece :=
  match cutFallback? t with
  | some (c :: name, fallback) => .reference (c :: name) (some fallback)
  | _ => .reference t none

/-- What the next character of a location belongs to. -/
inductive Reading where
  | text
  /-- A dollar sign that was read. -/
  | dollar
  /-- A variable between braces, with what was read of it. -/
  | braces (read : Text)
  /-- A variable without braces, with what was read of its name. -/
  | name (read : Text)

/-- The pieces of a location.  A dollar sign that begins no variable stands for itself, two of them
for one. -/
def piecesFrom : Reading → Text → List Piece
  | .text, [] => []
  | .dollar, [] => [.literal '$']
  | .braces _, [] => []
  | .name read, [] => [.reference read none]
  | .text, c :: t => if c = '$' then piecesFrom .dollar t else .literal c :: piecesFrom .text t
  | .dollar, c :: t =>
    if c = '$' then .literal '$' :: piecesFrom .text t
    else if c = '{' ∧ '}' ∈ t then piecesFrom (.braces []) t
    else if isNameChar c then piecesFrom (.name [c]) t
    else .literal '$' :: .literal c :: piecesFrom .text t
  | .braces read, c :: t =>
    if c = '}' then braced read :: piecesFrom .text t else piecesFrom (.braces (read ++ [c])) t
  | .name read, c :: t =>
    if isNameChar c then piecesFrom (.name (read ++ [c])) t
    else if c = '$' then .reference read none :: piecesFrom .dollar t
    else .reference read none :: .literal c :: piecesFrom .text t

/-- The pieces of a location. -/
def pieces (t : Text) : List Piece := piecesFrom .text t

/-! ### Expansion -/

/-- What a piece stands for. -/
def Piece.value? (env : Environment) : Piece → Option Text
  | .literal c => some [c]
  | .reference name fallback =>
    match env.value? (String.ofList name) with
    | some v => some v.toList
    | none => fallback

/-- The location with its variables replaced. -/
def replaceVariables? (env : Environment) (t : Text) : Option Text :=
  ((pieces t).mapM (Piece.value? env)).map List.flatten

/-- A path with the home directory in the place of a tilde that is its first part. -/
def replaceTilde (env : Environment) (t : Text) : Text :=
  match t, env.home? with
  | '~' :: r, some home => if r.isEmpty || r.head? = some '/' then home.toList ++ r else t
  | _, _ => t

/-- What a location stands for.  A tilde counts only where the location itself starts with one. -/
def expand? (env : Environment) (t : Text) : Option Text :=
  (replaceVariables? env t).map fun r =>
    if t.head? = some '~' then replaceTilde env r else r

/-- What a location stands for, or the location as it is where a variable is not set. -/
def resolve (env : Environment) (location : String) : String :=
  match expand? env location.toList with
  | some t => String.ofList t
  | none => location

end Location

end TemplateEngine
