import TemplateEngine.Text.Basic

/-!
# Character — the characters of a TOML document
-/

namespace TemplateEngine

namespace Toml

/-- A space or a tab. -/
def isBlank (c : Char) : Bool := c = ' ' || c = '\t'

/-- What may stand in a string or a comment as it is: no control character but the tab. -/
def isPlain (c : Char) : Bool := c = '\t' || (32 ≤ c.toNat && c.toNat ≠ 127)

/-- What a key without quotes is made of. -/
def isKeyChar (c : Char) : Bool :=
  ('a' ≤ c && c ≤ 'z') || ('A' ≤ c && c ≤ 'Z') || ('0' ≤ c && c ≤ '9') || c = '_' || c = '-'

/-- What ends a value without quotes. -/
def endsScalar (c : Char) : Bool := " \t\r\n\"'#,=[]\x7b\x7d".toList.contains c

/-- The value of a digit, in a base up to sixteen. -/
def digit? (base : Nat) (c : Char) : Option Nat :=
  let value :=
    if '0' ≤ c ∧ c ≤ '9' then c.toNat - '0'.toNat
    else if 'a' ≤ c ∧ c ≤ 'f' then c.toNat - 'a'.toNat + 10
    else if 'A' ≤ c ∧ c ≤ 'F' then c.toNat - 'A'.toNat + 10
    else base
  if value < base then some value else none

/-- The text without the blanks it starts with. -/
def skipBlanks (t : Text) : Text := t.dropWhile isBlank

/-- The text after the line break it starts with. -/
def newline? : Text → Option Text
  | [] => none
  | c :: t =>
    if c = '\n' then some t
    else if c = '\r' then
      match t with
      | [] => none
      | d :: t => if d = '\n' then some t else none
    else none

/-- Whether the text starts with a line break. -/
def startsLine (t : Text) : Bool := (newline? t).isSome

/-- The text after the character it starts with. -/
def expect? (c : Char) : Text → Option Text
  | [] => none
  | d :: t => if d = c then some t else none

@[simp] theorem expect?_cons_self (c : Char) (t : Text) : expect? c (c :: t) = some t := by
  simp [expect?]

/-- Blanks, line breaks and comments at the start of a text, left out; `inComment` tells whether
the text starts inside a comment. -/
def skipTrivia (inComment : Bool) : Text → Option Text
  | [] => some []
  | c :: t =>
    if startsLine (c :: t) then skipTrivia (inComment && c != '\n') t
    else if inComment then if isPlain c then skipTrivia true t else none
    else if c = '#' then skipTrivia true t
    else if isBlank c then skipTrivia false t
    else some (c :: t)

end Toml

end TemplateEngine
