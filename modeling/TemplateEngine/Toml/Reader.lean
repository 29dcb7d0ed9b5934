import TemplateEngine.Toml.Moment
import TemplateEngine.Toml.Quotation
import TemplateEngine.Toml.Statement

/-!
# Reader — from text to lines and tables

A reader takes what it reads off the start of a text and answers with it and what follows.  Arrays
and tables between braces may hold each other up to a depth.
-/

namespace TemplateEngine

namespace Toml

/-! ### Keys -/

/-- One part of a key. -/
def readName (t : Text) : Option (String × Text) :=
  match t with
  | [] => none
  | c :: r =>
    if c = '"' then (readQuoted false .text r).map fun p => (String.ofList p.1, p.2)
    else if c = '\'' then (readLiteral false r).map fun p => (String.ofList p.1, p.2)
    else
      let name := t.takeWhile isKeyChar
      if name.isEmpty then none else some (String.ofList name, t.dropWhile isKeyChar)

/-- The parts of a key, joined by dots, and the blanks after them. -/
def readParts (t : Text) : Option (Key × Text) :=
  match readName t with
  | none => none
  | some (name, r) =>
    let r := skipBlanks r
    match expect? '.' r with
    | none => some (⟨[], name⟩, r)
    | some r =>
      let r := skipBlanks r
      if r.length < t.length then
        (readParts r).map fun p => (⟨name :: p.1.parents, p.1.name⟩, p.2)
      else none
termination_by t.length

/-- How deep values may stand in each other, and how many parts a key may have. -/
def maxDepth : Nat := 80

/-- A key and the blanks after it. -/
def readKey (t : Text) : Option (Key × Text) :=
  (readParts t).filter fun p => p.1.parents.length < maxDepth

/-- A key, an equals sign and a value, with gaps around the equals sign. -/
def readPair (skipGap : Text → Option Text) (value : Text → Option (Value × Text)) (t : Text) :
    Option ((Key × Value) × Text) := do
  let (key, t) ← readKey t
  let t ← expect? '=' (← skipGap t)
  let (v, t) ← value (← skipGap t)
  return ((key, v), t)

/-! ### Values -/

/-- A number, a truth value or a moment, by how it is written. -/
def ofWritten? (t : Text) : Option Value :=
  if t = "true".toList then some (.boolean true)
  else if t = "false".toList then some (.boolean false)
  else if isFloatWord t then some (.float (String.ofList t))
  else
    match numeral? t with
    | some n => some n.value
    | none => (moment? t).map fun m => .moment (String.ofList m)

/-- The characters at the start of a text that may make up a number, a truth value or a moment, and
what follows them; one blank may stand between the date and the time of a moment. -/
def cutScalar (t : Text) : Text × Text :=
  let first := t.takeWhile (!endsScalar ·)
  let rest := t.dropWhile (!endsScalar ·)
  match rest with
  | c :: d :: r =>
    if isDate first && c = ' ' && isDigit 10 d then
      (first ++ c :: (d :: r).takeWhile (!endsScalar ·), (d :: r).dropWhile (!endsScalar ·))
    else (first, rest)
  | _ => (first, rest)

/-- A value that holds no other. -/
def readScalar (t : Text) : Option (Value × Text) :=
  match t with
  | [] => none
  | c :: _ =>
    if c = '"' ∨ c = '\'' then (readString t).map fun p => (.string (String.ofList p.1), p.2)
    else
      let (written, rest) := cutScalar t
      (ofWritten? written).map fun v => (v, rest)

/-- Items with commas between them and perhaps after the last, up to the closing bracket; blanks,
line breaks and comments may stand around each. -/
def readItems {α : Type} (item : Text → Option (α × Text)) (close : Char) (t : Text) :
    Option (List α × Text) :=
  match skipTrivia false t with
  | none => none
  | some [] => none
  | some (c :: r) =>
    if c = close then some ([], r)
    else
      match item (c :: r) with
      | none => none
      | some (a, r) =>
        match skipTrivia false r with
        | none => none
        | some [] => none
        | some (c :: r) =>
          if c = close then some ([a], r)
          else if c = ',' then
            if r.length < t.length then
              (readItems item close r).map fun p => (a :: p.1, p.2)
            else none
          else none
termination_by t.length

/-- A value in which others stand in each other up to a depth.  Between braces, line breaks and comments
may stand wherever blanks may but inside a key. -/
def readValue : Nat → Text → Option (Value × Text)
  | 0, t => readScalar t
  | depth + 1, t =>
    match t with
    | [] => none
    | c :: r =>
      if c = '[' then (readItems (readValue depth) ']' r).map fun p => (.array p.1, p.2)
      else if c = '{' then do
        let (pairs, r) ← readItems (readPair (skipTrivia false) (readValue depth)) '}' r
        return (.table .inline (← ofPairs pairs), r)
      else readScalar (c :: r)

/-! ### Lines -/

/-- What follows a comment, which goes up to the end of its line. -/
def skipComment : Text → Option Text
  | [] => some []
  | c :: t =>
    if startsLine (c :: t) then newline? (c :: t)
    else if isPlain c then skipComment t
    else none

/-- What follows the end of a line, before which blanks and a comment may stand. -/
def endLine (t : Text) : Option Text :=
  match skipBlanks t with
  | [] => some []
  | c :: r => if c = '#' then skipComment r else newline? (c :: r)

/-- The rest of a header after its first bracket. -/
def readHeader (t : Text) : Option (Statement × Text) :=
  match expect? '[' t with
  | none => do
    let (key, t) ← readKey (skipBlanks t)
    return (.table key, ← expect? ']' t)
  | some t => do
    let (key, t) ← readKey (skipBlanks t)
    return (.element key, ← expect? ']' (← expect? ']' t))

/-- A header or a pair. -/
def readStatement (t : Text) : Option (Statement × Text) :=
  match expect? '[' t with
  | some t => readHeader t
  | none =>
    (readPair (some ∘ skipBlanks) (readValue maxDepth) t).map fun p => (.pair p.1.1 p.1.2, p.2)

/-- What the first line of a text says, and the lines after it. -/
def readLine (t : Text) : Option (Option Statement × Text) :=
  match endLine t with
  | some t => some (none, t)
  | none => do
    let (s, t) ← readStatement (skipBlanks t)
    return (some s, ← endLine t)

/-- What the lines of a text say. -/
def readLines (t : Text) : Option (List Statement) :=
  match readLine t with
  | none => none
  | some (s, r) =>
    if r.isEmpty then some s.toList
    else if r.length < t.length then (readLines r).map (s.toList ++ ·)
    else none
termination_by t.length

/-- The table that a text stands for; a byte order mark may stand in front. -/
def read (t : Text) : Option Entries :=
  (readLines ((expect? '\ufeff' t).getD t)).bind assemble

end Toml

end TemplateEngine
