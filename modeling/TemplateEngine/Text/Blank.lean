import TemplateEngine.Text.Basic
import TemplateEngine.Text.CharacterSet

/-!
# Blank characters

The characters with the property White_Space, and trimming by them.
-/

namespace TemplateEngine

/-- The blank characters. -/
def blanks : CharacterSet where
  bounds :=
    [0x9, 0xe, 0x20, 0x21, 0x85, 0x86, 0xa0, 0xa1, 0x1680, 0x1681, 0x2000, 0x200b, 0x2028, 0x202a,
     0x202f, 0x2030, 0x205f, 0x2060, 0x3000, 0x3001]

/-- Whether a character is blank. -/
def isBlank (c : Char) : Bool := blanks.contains c

/-- A text without the blanks at its two ends. -/
def Text.trim (t : Text) : Text :=
  ((t.dropWhile isBlank).reverse.dropWhile isBlank).reverse

end TemplateEngine
