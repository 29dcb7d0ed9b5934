import TemplateEngine.Text.Basic
import TemplateEngine.Text.Printable

/-!
# Quoted — a text shown inside a message

Messages show a piece of input between double quotes.  Quotes, backslashes and the usual control
characters get a two-character escape, every other character that cannot be shown as it is becomes
its code point in hexadecimal.
-/

namespace TemplateEngine

namespace Text

/-- How one character is shown between double quotes. -/
def escapeChar (c : Char) : Text :=
  if c = '"' then ['\\', '"']
  else if c = '\\' then ['\\', '\\']
  else if c = '\n' then ['\\', 'n']
  else if c = '\r' then ['\\', 'r']
  else if c = '\t' then ['\\', 't']
  else if c.toNat = 0 then ['\\', '0']
  else if isShowable c then [c]
  else ['\\', 'u', '{'] ++ Nat.toDigits 16 c.toNat ++ ['}']

/-- The text between double quotes, escaped. -/
def quote (t : Text) : Text := '"' :: t.flatMap escapeChar ++ ['"']

end Text

/-- The text of a string between double quotes, escaped. -/
def quoted (s : String) : String := String.ofList (Text.quote s.toList)

end TemplateEngine
