import TemplateEngine.Text.Quoted

/-!
# Errors of the command language
-/

namespace TemplateEngine

/-- What a reader of the command language waits for when the input ends. -/
inductive Expected where
  | node
  | valueOrList
  | closeParen
  deriving DecidableEq, Repr

/-- The words for what is waited for. -/
def Expected.description : Expected → String
  | .node => "a node"
  | .valueOrList => "a string or '(' after a key"
  | .closeParen => "')'"

/-- Why an input is not in the command language. -/
inductive SyntaxError where
  /-- No token starts at the offset, or a string is not closed. -/
  | invalidToken (offset : Nat) (text : Text)
  /-- A token that cannot stand where it does. -/
  | unexpectedToken (offset : Nat) (text : Text)
  /-- The input ends too early. -/
  | unexpectedEnd (expected : Expected)
  deriving DecidableEq, Repr

/-- The message for an error. -/
def SyntaxError.message : SyntaxError → String
  | .invalidToken offset text =>
    "unrecognised input " ++ quoted (String.ofList text) ++ " at offset " ++ toString offset
  | .unexpectedToken offset text =>
    "unexpected " ++ quoted (String.ofList text) ++ " at offset " ++ toString offset
  | .unexpectedEnd expected => "unexpected end of input, expected " ++ expected.description

end TemplateEngine
