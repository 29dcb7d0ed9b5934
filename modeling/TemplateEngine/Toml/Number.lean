import TemplateEngine.Toml.Character
import TemplateEngine.Toml.Value

/-!
# Number — integers and floats

A number is told by its form: an integer is decimal, with or without a sign, or hexadecimal, octal or
binary without one; a float has a fraction, an exponent or both; underscores stand between digits, and
no decimal number starts with a zero too many.  What number it is comes after that.  A form can stand
for none: digits can be missing or belong to another base, and the number can be out of range.
-/

namespace TemplateEngine

namespace Toml

/-- A number by its form, without underscores. -/
inductive Numeral where
  | integer (base : Nat) (written : Text)
  | float (written : Text)
  deriving DecidableEq, Repr

/-! ### Parts of a number -/

/-- Whether a text starts with a sign, which of the two, and the text after it. -/
def sign (t : Text) : Option Bool × Text :=
  match t with
  | [] => (none, [])
  | c :: r => if c = '+' then (some false, r) else if c = '-' then (some true, r) else (none, c :: r)

/-- A number with its sign. -/
def signed (negative : Option Bool) (n : Nat) : Int :=
  if negative = some true then -(n : Int) else n

/-- Whether a character is a digit of a base. -/
def isDigit (base : Nat) (c : Char) : Bool := (digit? base c).isSome

/-- Whether a text has digits, and nothing but digits and underscores. -/
def isDigits (t : Text) : Bool := t.any (isDigit 10) && t.all fun c => isDigit 10 c || c = '_'

/-- The number with the given digits. -/
def ofDigits (base : Nat) (ds : List Nat) : Nat := ds.foldl (fun n d => base * n + d) 0

/-- The number that digits of a base stand for. -/
def natural? (base : Nat) (t : Text) : Option Nat :=
  if t.isEmpty then none else (t.mapM (digit? base)).map (ofDigits base)

/-- The number that decimal digits, perhaps after a sign, stand for. -/
def signed? (base : Nat) (t : Text) : Option Int :=
  let (negative, ds) := sign t
  (natural? base ds).map (signed negative)

/-! ### Underscores -/

/-- Whether groups between underscores start with digits, and all but the last end with one. -/
def groupsJoin (base : Nat) : List Text → Bool
  | [] => true
  | [g] => g.head?.any (isDigit base)
  | g :: gs => g.head?.any (isDigit base) && g.getLast?.any (isDigit base) && groupsJoin base gs

/-- Whether the underscores of a text join digits.  A sign may be all there is before the first. -/
def underscoresJoin (base : Nat) (t : Text) : Bool :=
  match Text.splitOn '_' t with
  | [] | [_] => true
  | g :: gs => (g.length = 1 || g.getLast?.any (isDigit base)) && groupsJoin base gs

/-- A text without its underscores. -/
def joined (t : Text) : Text := t.filter (· ≠ '_')

/-! ### Forms -/

/-- The base that a text names by how it starts, and the digits after that. -/
def base? : Text → Option (Nat × Text)
  | z :: b :: t =>
    if z = '0' then
      if b = 'x' then some (16, t)
      else if b = 'o' then some (8, t)
      else if b = 'b' then some (2, t)
      else none
    else none
  | _ => none

/-- The parts of a float: before the point, from the point on, and from the letter of the exponent
on. -/
def floatParts (t : Text) : Text × Text × Text :=
  let mantissa := t.takeWhile fun c => c ≠ 'e' ∧ c ≠ 'E'
  let whole := mantissa.takeWhile (· ≠ '.')
  (whole, mantissa.drop whole.length, t.drop mantissa.length)

/-- Whether a text without a sign has the form of a float but for its underscores. -/
def isFraction (t : Text) : Bool :=
  let (whole, fraction, exponent) := floatParts t
  isDigits whole && !(whole.head? = some '0' && 1 < (joined whole).length) &&
    (fraction.isEmpty || isDigits fraction.tail) &&
    (exponent.isEmpty || isDigits (sign exponent.tail).2)

/-- The decimal number of a text `t` that is `u` after its sign. -/
def decimal? (t u : Text) : Option Numeral :=
  let rest := u.dropWhile (isDigit 10)
  if rest.any fun c => c = '.' || c = 'e' || c = 'E' then
    if isFraction u && underscoresJoin 10 t then some (.float (joined t)) else none
  else if u.isEmpty || (u.head? = some '0' && u.length ≠ 1) then none
  else if (rest.isEmpty || rest.head? = some '_') && underscoresJoin 16 t then
    some (.integer 10 (joined t))
  else none

/-- The number of a text, by its form. -/
def numeral? (t : Text) : Option Numeral :=
  let (negative, u) := sign t
  match base? u with
  | none => decimal? t u
  | some (base, ds) =>
    if negative = none && (ds.all fun c => isDigit base c || c = '_') && underscoresJoin 16 ds then
      some (.integer base (joined ds))
    else none

/-! ### Values -/

/-- Whether an integer fits into 128 bits, with or without a sign. -/
def inRange (n : Int) : Bool :=
  -170141183460469231731687303715884105728 ≤ n && n ≤ 340282366920938463463374607431768211455

/-- The least number that is nearer to 2 ^ 1024 than to the largest 64-bit float below it; halfway
between them counts as nearer. -/
def floatBound : Nat := Nat.pow 2 1024 - Nat.pow 2 970

/-- Whether the number with the given digits, times ten to the power of `scale`, is below the bound.
The bound lies between 10 ^ 308 and 10 ^ 309, so a number with fewer than 309 places before the point
is below it and one with more is not. -/
def inFloatRange (ds : List Nat) (scale : Int) : Bool :=
  let ds := ds.dropWhile (· = 0)
  let places := ds.length + scale
  ds.isEmpty || places < 309 ||
    (places = 309 &&
      ofDigits 10 ds * Nat.pow 10 scale.toNat < floatBound * Nat.pow 10 (-scale).toNat)

/-- Whether the number of a float is in range. -/
def fitsFloat (t : Text) : Bool :=
  let (whole, fraction, exponent) := floatParts (sign t).2
  inFloatRange ((whole ++ fraction).filterMap (digit? 10))
    ((signed? 10 exponent.tail).getD 0 - fraction.tail.length)

/-- What a number stands for. -/
def Numeral.value : Numeral → Value
  | .integer base written =>
    match (signed? base written).filter inRange with
    | some n => .integer n
    | none => .numberless (String.ofList written)
  | .float written =>
    if fitsFloat written then .float (String.ofList written)
    else .numberless (String.ofList written)

/-- Whether a text is a word for infinity or for no number. -/
def isFloatWord (t : Text) : Bool := (sign t).2 = "inf".toList || (sign t).2 = "nan".toList

end Toml

end TemplateEngine
