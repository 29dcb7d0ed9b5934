import TemplateEngine.Syntax.Lexer
import TemplateEngine.Syntax.Node

/-!
# Parser — the nodes of an input

The parser takes one token at a time.  Its state holds the keys whose parentheses are open, each
with the nodes read before it, the nodes of the innermost list and a key that waits for its value.
A token that the state does not take is the first one that no input of the language continues with.
-/

namespace TemplateEngine

/-- A key whose parentheses are open, and the nodes before it in its list. -/
structure OpenKey where
  key : String
  before : List Node

/-- What has been read of an input. -/
structure Reading where
  /-- The open keys, the innermost first. -/
  openKeys : List OpenKey
  /-- The nodes of the innermost list. -/
  nodes : List Node
  /-- A key that waits for its value. -/
  pending : Option String

namespace Reading

/-- Nothing has been read. -/
def start : Reading := ⟨[], [], none⟩

/-- A node of the innermost list has been read. -/
def push (r : Reading) (n : Node) : Reading := ⟨r.openKeys, r.nodes ++ [n], none⟩

/-- The reading after one more token, where the token can stand there. -/
def step? (r : Reading) (t : Token) : Option Reading :=
  match r.pending, t.kind with
  | none, .singleQuoted | none, .doubleQuoted => some (r.push (.leaf t.value))
  | none, .identifier => some { r with pending := some t.value }
  | none, .closeParen =>
    match r.openKeys with
    | [] => none
    | k :: ks => some ⟨ks, k.before ++ [⟨k.key, r.nodes⟩], none⟩
  | none, .openParen => none
  | some key, .singleQuoted | some key, .doubleQuoted => some (r.push (.keyValue key t.value))
  | some key, .openParen => some ⟨⟨key, r.nodes⟩ :: r.openKeys, [], none⟩
  | some _, .identifier | some _, .closeParen => none

/-- The reading after a list of tokens. -/
def run (r : Reading) : List Token → Except SyntaxError Reading
  | [] => .ok r
  | t :: ts =>
    match r.step? t with
    | some r' => run r' ts
    | none => .error (.unexpectedToken t.offset t.text)

/-- The nodes read, where the input may end. -/
def finish (r : Reading) : Except SyntaxError (List Node) :=
  if r.pending.isSome then .error (.unexpectedEnd .valueOrList)
  else if r.openKeys.isEmpty then .ok r.nodes
  else .error (.unexpectedEnd .closeParen)

end Reading

/-- The nodes that a list of tokens writes. -/
def nodesOfTokens (ts : List Token) : Except SyntaxError (List Node) := do
  let r ← Reading.start.run ts
  r.finish

/-- The nodes of an input. -/
def parseNodes (input : Text) : Except SyntaxError (List Node) := do
  let ts ← lex input
  nodesOfTokens ts

/-- The node of an input that holds exactly one. -/
def parseNode (input : Text) : Except SyntaxError Node := do
  match ← parseNodes input with
  | [] => .error (.unexpectedEnd .node)
  | [n] => .ok n
  | _ :: n :: _ => .error (.unexpectedToken (Text.byteLength input) n.print)

end TemplateEngine
