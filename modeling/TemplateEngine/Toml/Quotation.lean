import TemplateEngine.Toml.Character

/-!
# Quotation — strings between quotes

A string stands between double quotes, where a backslash starts an escape, or between single quotes,
where every character means itself.  Between three quotes of a kind it may run over several lines; a
line break right after the opening quotes does not belong to it, and of the quotes before the end up
to two do.
-/

namespace TemplateEngine

namespace Toml

/-! ### The ends of a string -/

/-- Up to two quotes at the start of a text, and what follows them. -/
def spareQuotes (q : Char) : Text → Text × Text
  | [] => ([], [])
  | [a] => if a = q then ([q], []) else ([], [a])
  | a :: b :: t =>
    if a = q then if b = q then ([q, q], t) else ([q], b :: t) else ([], a :: b :: t)

/-- After one quote: what still belongs to the string, and what follows it, where two more quotes
make that quote the end of a string of several lines. -/
def closing? (q : Char) : Text → Option (Text × Text)
  | a :: b :: t => if a = q ∧ b = q then some (spareQuotes q t) else none
  | _ => none

/-- After one quote: whether it opens a string of several lines, and where the string starts. -/
def opening (q : Char) : Text → Bool × Text
  | a :: b :: t =>
    if a = q ∧ b = q then (true, (newline? t).getD t) else (false, a :: b :: t)
  | t => (false, t)

/-- One more character in front of what was read. -/
def push (c : Char) (r : Option (Text × Text)) : Option (Text × Text) :=
  r.map fun p => (c :: p.1, p.2)

/-! ### Single quotes -/

/-- The string between single quotes whose opening was read, and what follows it. -/
def readLiteral (lines : Bool) : Text → Option (Text × Text)
  | [] => none
  | c :: t =>
    if c = '\'' then
      if lines then (closing? '\'' t).or (push c (readLiteral lines t)) else some ([], t)
    else if isPlain c || (lines && startsLine (c :: t)) then push c (readLiteral lines t)
    else none

/-! ### Double quotes -/

/-- The character that a letter after a backslash stands for. -/
def escaped? (c : Char) : Option Char :=
  if c = 'b' then some '\x08'
  else if c = 't' then some '\t'
  else if c = 'n' then some '\n'
  else if c = 'f' then some '\x0c'
  else if c = 'r' then some '\r'
  else if c = 'e' then some '\x1b'
  else if c = '"' then some '"'
  else if c = '\\' then some '\\'
  else none

/-- How many digits of a code point follow a letter after a backslash. -/
def codeLength? (c : Char) : Option Nat :=
  if c = 'x' then some 2 else if c = 'u' then some 4 else if c = 'U' then some 8 else none

/-- The character with a code point. -/
def scalar? (n : Nat) : Option Char := if n.isValidChar then some (Char.ofNat n) else none

/-- What the next character of a string between double quotes belongs to. -/
inductive Reading where
  | text
  /-- An escape whose backslash was read. -/
  | escape
  /-- A code point of which some digits are missing. -/
  | code (missing value : Nat)
  /-- Blanks and line breaks after a backslash; whether a line break was read. -/
  | joining (broken : Bool)

/-- What a character belongs to, once it is known: blanks after a backslash join lines, and the
joining ends with the first character that is neither a blank nor a line break. -/
def Reading.settle (lines : Bool) (c : Char) (r : Reading) : Reading :=
  let space := isBlank c || c = '\n' || c = '\r'
  match r with
  | .escape => if lines && space then .joining false else .escape
  | .joining true => if space then .joining true else .text
  | r => r

/-- The string between double quotes whose opening was read, and what follows it. -/
def readQuoted (lines : Bool) : Reading → Text → Option (Text × Text)
  | _, [] => none
  | r, c :: t =>
    match r.settle lines c with
    | .text =>
      if c = '"' then
        if lines then (closing? '"' t).or (push c (readQuoted lines .text t)) else some ([], t)
      else if c = '\\' then readQuoted lines .escape t
      else if isPlain c || (lines && startsLine (c :: t)) then push c (readQuoted lines .text t)
      else none
    | .escape =>
      match escaped? c with
      | some d => push d (readQuoted lines .text t)
      | none =>
        match codeLength? c with
        | some n => readQuoted lines (.code n 0) t
        | none => none
    | .code missing value =>
      match digit? 16 c with
      | none => none
      | some d =>
        if missing ≤ 1 then
          match scalar? (16 * value + d) with
          | some e => push e (readQuoted lines .text t)
          | none => none
        else readQuoted lines (.code (missing - 1) (16 * value + d)) t
    | .joining broken =>
      if isBlank c then readQuoted lines (.joining broken) t
      else if startsLine (c :: t) then readQuoted lines (.joining true) t
      else none

/-! ### Strings -/

/-- The string at the start of a text and what follows it. -/
def readString : Text → Option (Text × Text)
  | [] => none
  | c :: t =>
    if c = '"' then
      let (lines, t) := opening c t
      readQuoted lines .text t
    else if c = '\'' then
      let (lines, t) := opening c t
      readLiteral lines t
    else none

end Toml

end TemplateEngine
