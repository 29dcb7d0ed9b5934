import TemplateEngine.Toml.Number

/-!
# Moment — dates and times

A moment is a date, a time of day, or both, and with both perhaps a distance from universal time.  It
is read into its full form: seconds always, as many places of their fraction as matter, up to nine, a
`T` between date and time, and universal time as `Z`.
-/

namespace TemplateEngine

namespace Toml

/-- The number that the first `n` characters of a text stand for, all of them digits, and what
follows them. -/
def fixedDigits? (n : Nat) (t : Text) : Option (Nat × Text) :=
  if (t.take n).length = n then
    ((t.take n).mapM (digit? 10)).map fun ds => (ofDigits 10 ds, t.drop n)
  else none

/-- How many days a month of a year has. -/
def daysIn (year month : Nat) : Nat :=
  if month = 2 then
    if year % 4 = 0 ∧ (year % 100 ≠ 0 ∨ year % 400 = 0) then 29 else 28
  else if month = 4 ∨ month = 6 ∨ month = 9 ∨ month = 11 then 30
  else 31

/-- The date at the start of a text and what follows it. -/
def readDate (t : Text) : Option (Text × Text) := do
  let (year, r) ← fixedDigits? 4 t
  let (month, r) ← fixedDigits? 2 (← expect? '-' r)
  let (day, r) ← fixedDigits? 2 (← expect? '-' r)
  if 1 ≤ month ∧ month ≤ 12 ∧ 1 ≤ day ∧ day ≤ daysIn year month then some (t.take 10, r) else none

/-- The places of a fraction that matter: at most nine, and no zeros at the end. -/
def significant (ds : Text) : Text := ((ds.take 9).reverse.dropWhile (· = '0')).reverse

/-- The fraction of a second at the start of a text, if there is one, and what follows it. -/
def readFraction (t : Text) : Option (Text × Text) :=
  match expect? '.' t with
  | none => some ([], t)
  | some r =>
    let ds := r.takeWhile (isDigit 10)
    let kept := significant ds
    if ds.isEmpty then none else some (if kept.isEmpty then [] else '.' :: kept, r.drop ds.length)

/-- The time of day at the start of a text and what follows it; the seconds may be left out, and a
minute may have a leap second. -/
def readTime (t : Text) : Option (Text × Text) := do
  let (hour, r) ← fixedDigits? 2 t
  let (minute, r) ← fixedDigits? 2 (← expect? ':' r)
  if 23 < hour ∨ 59 < minute then none
  else
    match expect? ':' r with
    | none => some (t.take 5 ++ ":00".toList, r)
    | some r => do
      let (second, r) ← fixedDigits? 2 r
      if 60 < second then none
      else
        let (fraction, r) ← readFraction r
        return (t.take 8 ++ fraction, r)

/-- The distance from universal time at the start of a text and what follows it; no distance to the
west is one to the east. -/
def readOffset : Text → Option (Text × Text)
  | [] => none
  | c :: t =>
    if c = 'Z' ∨ c = 'z' then some (['Z'], t)
    else if c = '+' ∨ c = '-' then do
      let (hour, r) ← fixedDigits? 2 t
      let (minute, r) ← fixedDigits? 2 (← expect? ':' r)
      if 23 < hour ∨ 59 < minute then none
      else some ((if hour = 0 ∧ minute = 0 then '+' else c) :: t.take 5, r)
    else none

/-- The time of day and perhaps the distance from universal time that make up a text. -/
def clock? (t : Text) : Option Text := do
  let (time, r) ← readTime t
  if r.isEmpty then return time
  else
    match ← readOffset r with
    | (offset, []) => return time ++ offset
    | _ => none

/-- Whether a text is a date. -/
def isDate (t : Text) : Bool := (readDate t).any (·.2.isEmpty)

/-- The full form of the moment that a text is. -/
def moment? (t : Text) : Option Text :=
  match readDate t with
  | none =>
    match readTime t with
    | some (time, []) => some time
    | _ => none
  | some (date, []) => some date
  | some (date, c :: r) =>
    if c = 'T' ∨ c = 't' ∨ c = ' ' then (clock? r).map fun time => date ++ 'T' :: time else none

end Toml

end TemplateEngine
