import TemplateEngine.Text.Basic

/-!
# Token — the lexical level of the command language

The command language has identifiers, quoted strings and parentheses.  Blanks and comments, which
run from `#` to the end of the line, separate tokens and are skipped.  A quote inside a string is
written twice; a string that is not closed is one unrecognised piece up to the end of the input.
-/

namespace TemplateEngine

/-- The kinds of tokens. -/
inductive TokenKind where
  | openParen
  | closeParen
  | identifier
  | singleQuoted
  | doubleQuoted
  deriving DecidableEq, Repr

/-- A token with its text as written and the byte offset of its start. -/
structure Token where
  kind : TokenKind
  text : Text
  offset : Nat
  deriving DecidableEq, Repr

namespace Token

/-! ### Character classes -/

/-- The characters that separate tokens. -/
def isSpace (c : Char) : Bool :=
  c == ' ' || c == '\t' || c == '\r' || c == '\n' || c == '\x0c'

/-- The characters an identifier starts with. -/
def isIdentifierStart (c : Char) : Bool := c.isAlpha || c == '_'

/-- The characters an identifier goes on with. -/
def isIdentifierPart (c : Char) : Bool := c.isAlphanum || c == '_'

/-! ### Strings -/

/-- The text up to and including the quote that closes a string, and what follows it.  A doubled
quote does not close the string. -/
def closeString (q : Char) : Text → Option (Text × Text)
  | [] => none
  | [c] => if c = q then some ([c], []) else none
  | c :: d :: t =>
    if c = q then
      if d = q then (closeString q t).map fun p => (c :: d :: p.1, p.2)
      else some ([c], d :: t)
    else (closeString q (d :: t)).map fun p => (c :: p.1, p.2)

theorem append_of_closeString {q : Char} {t a b : Text} (h : closeString q t = some (a, b)) :
    a ++ b = t := by
  fun_induction closeString q t generalizing a b with
  | case1 => simp at h
  | case2 => simp at h; simp [← h.1, ← h.2]
  | case3 => simp at h
  | case4 t ih =>
    obtain ⟨p, hp, he⟩ := Option.map_eq_some_iff.1 h
    obtain ⟨rfl, rfl⟩ := Prod.mk.injEq .. ▸ he
    simp [ih hp]
  | case5 => simp at h; simp [← h.1, ← h.2]
  | case6 c d t _ ih =>
    obtain ⟨p, hp, he⟩ := Option.map_eq_some_iff.1 h
    obtain ⟨rfl, rfl⟩ := Prod.mk.injEq .. ▸ he
    simp [ih hp]

/-- A text with every doubled quote written once. -/
def undouble (q : Char) : Text → Text
  | c :: d :: t => if c = q ∧ d = q then q :: undouble q t else c :: undouble q (d :: t)
  | t => t

/-- What a token stands for: the characters of a string, or the token as written. -/
def value (t : Token) : String :=
  match t.kind with
  | .singleQuoted => String.ofList (undouble '\'' t.text.tail.dropLast)
  | .doubleQuoted => String.ofList (undouble '"' t.text.tail.dropLast)
  | _ => String.ofList t.text

/-- Whether a token is a string. -/
def isString (t : Token) : Bool :=
  match t.kind with
  | .singleQuoted | .doubleQuoted => true
  | _ => false

/-! ### Pieces of the input -/

/-- A recognised piece of the input, `kind` being `none` for what is skipped, and what follows. -/
structure Piece where
  kind : Option TokenKind
  text : Text
  rest : Text

/-- The longest run of characters of a class after `c`. -/
def run (kind : Option TokenKind) (p : Char → Bool) (c : Char) (t : Text) : Piece :=
  ⟨kind, c :: t.takeWhile p, t.dropWhile p⟩

/-- The piece an input starting with `c` starts with. -/
def piece? (c : Char) (t : Text) : Option Piece :=
  if isSpace c then some (run none isSpace c t)
  else if c = '#' then some (run none (· ≠ '\n') c t)
  else if c = '(' then some ⟨some .openParen, [c], t⟩
  else if c = ')' then some ⟨some .closeParen, [c], t⟩
  else if isIdentifierStart c then some (run (some .identifier) isIdentifierPart c t)
  else if c = '\'' then (closeString c t).map fun p => ⟨some .singleQuoted, c :: p.1, p.2⟩
  else if c = '"' then (closeString c t).map fun p => ⟨some .doubleQuoted, c :: p.1, p.2⟩
  else none

theorem run_append (kind : Option TokenKind) (p : Char → Bool) (c : Char) (t : Text) :
    (run kind p c t).text ++ (run kind p c t).rest = c :: t := by
  simp [run]

/-- A piece and what follows it make up the input. -/
theorem piece?_append {c : Char} {t : Text} {p : Piece} (h : piece? c t = some p) :
    p.text ++ p.rest = c :: t := by
  unfold piece? at h
  split at h
  · cases h; exact run_append ..
  split at h
  · cases h; exact run_append ..
  split at h
  · cases h; simp
  split at h
  · cases h; simp
  split at h
  · cases h; exact run_append ..
  split at h
  · obtain ⟨s, hs, rfl⟩ := Option.map_eq_some_iff.1 h
    simp [append_of_closeString hs]
  split at h
  · obtain ⟨s, hs, rfl⟩ := Option.map_eq_some_iff.1 h
    simp [append_of_closeString hs]
  · simp at h

/-- No piece is empty. -/
theorem piece?_text_ne_nil {c : Char} {t : Text} {p : Piece} (h : piece? c t = some p) :
    p.text ≠ [] := by
  unfold piece? at h
  repeat' split at h
  all_goals first
    | cases h; simp [run]
    | (obtain ⟨s, -, rfl⟩ := Option.map_eq_some_iff.1 h; simp)
    | simp at h

theorem piece?_rest_lt {c : Char} {t : Text} {p : Piece} (h : piece? c t = some p) :
    p.rest.length < (c :: t).length := by
  rw [← piece?_append h, List.length_append]
  have := List.length_pos_iff.2 (piece?_text_ne_nil h)
  omega

end Token

end TemplateEngine
