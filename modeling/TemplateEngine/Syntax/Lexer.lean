import TemplateEngine.Syntax.Error
import TemplateEngine.Syntax.Token

/-!
# Lexer — the tokens of an input

The input is read from the left, at every place the longest piece that fits.
-/

namespace TemplateEngine

/-- The unrecognised piece at the start of an input: all of it from an opening quote on, else one
character. -/
def unrecognised (c : Char) (t : Text) : Text := if c = '\'' ∨ c = '"' then c :: t else [c]

/-- The tokens of an input that starts at byte offset `offset`. -/
def lexFrom (offset : Nat) : Text → Except SyntaxError (List Token)
  | [] => .ok []
  | c :: t =>
    match h : Token.piece? c t with
    | none => .error (.invalidToken offset (unrecognised c t))
    | some p =>
      have := Token.piece?_rest_lt h
      (lexFrom (offset + Text.byteLength p.text) p.rest).map fun ts =>
        match p.kind with
        | none => ts
        | some kind => ⟨kind, p.text, offset⟩ :: ts
termination_by t => t.length
decreasing_by exact this

/-- The tokens of an input. -/
def lex (input : Text) : Except SyntaxError (List Token) := lexFrom 0 input

end TemplateEngine
