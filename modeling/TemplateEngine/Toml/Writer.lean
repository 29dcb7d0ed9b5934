import TemplateEngine.Toml.Character
import TemplateEngine.Toml.Statement

/-!
# Writer — lines as text

A string is written in the plainest form that fits it: between double quotes without an escape, then
between single quotes, then either of them over several lines, and last with escapes.  Tabs are
escaped between double quotes in every form.  Headers stand after an empty line.
-/

namespace TemplateEngine

namespace Toml

/-! ### Characters -/

/-- The two hexadecimal digits, in upper case, of a number below 256. -/
def hexPair (n : Nat) : Text := [Nat.digitChar (n / 16), Nat.digitChar (n % 16)].map Char.toUpper

/-- How a character other than a quote is written between double quotes; a line break stays as it is
where the string may run over several lines. -/
def escapeChar (lines : Bool) (c : Char) : Text :=
  if c = '\n' then if lines then [c] else ['\\', 'n']
  else if c = '\\' then ['\\', '\\']
  else if c = '\x08' then ['\\', 'b']
  else if c = '\t' then ['\\', 't']
  else if c = '\x0c' then ['\\', 'f']
  else if c = '\r' then ['\\', 'r']
  else if isPlain c then [c]
  else ['\\', 'u', '0', '0'] ++ hexPair c.toNat

/-- A text as it is written between double quotes, after `quotes` quotes that are not escaped.  Where
the string may run over several lines only the third quote in a row is escaped. -/
def escapeFrom (lines : Bool) : Nat → Text → Text
  | _, [] => []
  | quotes, c :: t =>
    if c = '"' then
      if lines && quotes != 2 then c :: escapeFrom lines (quotes + 1) t
      else '\\' :: c :: escapeFrom lines 0 t
    else escapeChar lines c ++ escapeFrom lines 0 t

/-! ### Strings and keys -/

/-- The quotes around a string, and the line break after the opening ones where the string has a line
break itself. -/
def surround (q : Char) (lines : Bool) (t : Text) (written : Text) : Text :=
  if lines then
    [q, q, q] ++ (if '\n' ∈ t then ['\n'] else []) ++ written ++ [q, q, q]
  else q :: written ++ [q]

/-- A text between double quotes. -/
def writeQuoted (lines : Bool) (t : Text) : Text := surround '"' lines t (escapeFrom lines 0 t)

/-- A text between single quotes. -/
def writeLiteral (lines : Bool) (t : Text) : Text := surround '\'' lines t t

/-- Whether no more than two of a character stand in a row, after `n` of them. -/
def atMostTwo (q : Char) : Nat → Text → Bool
  | _, [] => true
  | n, c :: t => if c = q then n < 2 && atMostTwo q (n + 1) t else atMostTwo q 0 t

/-- Whether a text can be written on one line between double quotes without an escape but for
tabs. -/
def fitsQuoted (t : Text) : Bool := t.all fun c => isPlain c && c ≠ '\\' && c ≠ '"'

/-- Whether a text can be written on one line between single quotes. -/
def fitsLiteral (t : Text) : Bool := t.all fun c => isPlain c && c ≠ '\''

/-- A string. -/
def writeString (t : Text) : Text :=
  if fitsQuoted t then writeQuoted false t
  else if fitsLiteral t then writeLiteral false t
  else if t.all (fun c => (isPlain c || c = '\n') && c ≠ '\\') && atMostTwo '"' 0 t then
    writeQuoted true t
  else if t.all (fun c => isPlain c || c = '\n') && atMostTwo '\'' 0 t then writeLiteral true t
  else writeQuoted ('\n' ∈ t) t

/-- A key. -/
def writeKey (t : Text) : Text :=
  if !t.isEmpty && t.all isKeyChar then t
  else if fitsQuoted t then writeQuoted false t
  else if fitsLiteral t then writeLiteral false t
  else writeQuoted false t

/-! ### Lines -/

/-- What a written pair holds. -/
inductive Datum where
  | string (s : String)
  | natural (n : Nat)
  | strings (ss : List String)
  deriving DecidableEq, Repr

/-- The value of what a pair holds. -/
def Datum.value : Datum → Value
  | .string s => .string s
  | .natural n => .integer n
  | .strings ss => .array (ss.map .string)

/-- What a pair holds, written; several strings in a list have a line each. -/
def Datum.write : Datum → Text
  | .string s => writeString s.toList
  | .natural n => Nat.toDigits 10 n
  | .strings [] => "[]".toList
  | .strings [s] => '[' :: writeString s.toList ++ [']']
  | .strings ss =>
    "[\n".toList ++ ss.flatMap (fun s => "    ".toList ++ writeString s.toList ++ ",\n".toList) ++
      [']']

/-- A line of a document without dotted keys. -/
inductive Line where
  | pair (name : String) (datum : Datum)
  | table (name : String)
  | element (name : String)
  deriving DecidableEq, Repr

/-- What a line says. -/
def Line.statement : Line → Statement
  | .pair name datum => .pair ⟨[], name⟩ datum.value
  | .table name => .table ⟨[], name⟩
  | .element name => .element ⟨[], name⟩

/-- A line, written. -/
def Line.write : Line → Text
  | .pair name datum => writeKey name.toList ++ " = ".toList ++ datum.write ++ ['\n']
  | .table name => "\n[".toList ++ writeKey name.toList ++ "]\n".toList
  | .element name => "\n[[".toList ++ writeKey name.toList ++ "]]\n".toList

/-- Lines, written. -/
def write (ls : List Line) : Text := ls.flatMap Line.write

end Toml

end TemplateEngine
