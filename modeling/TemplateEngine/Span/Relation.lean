import TemplateEngine.Span.Basic

/-!
# Relation — how two ranges lie to each other

Two ranges of one container are related by the order of their starts and the order of their stops,
which makes nine cases.  A case is drawn by letting `A` stand for text covered by the first range
only, `B` for text covered by the second only and `8` for text covered by both.  Ranges of different
containers, and absent ones, are not related.
-/

namespace TemplateEngine

/-- How a first range lies to a second one. -/
inductive Relation where
  /-- The ranges have no common container. -/
  | unrelated
  /-- The order of the first range's ends against the second's. -/
  | ordered (starts stops : Ordering)
  deriving DecidableEq, Repr

namespace Relation

/-- Earlier counts two, level one and later nothing. -/
def weight : Ordering → Int
  | .lt => 2
  | .eq => 1
  | .gt => 0

/-- The cases numbered from minus four, wholly after, to four, wholly before. -/
def code? : Relation → Option Int
  | .unrelated => none
  | .ordered starts stops => some (3 * weight starts + weight stops - 4)

/-- The picture of a case. -/
def shape? : Relation → Option String
  | .unrelated => none
  | .ordered .gt .gt => some "BBBBAAAA"
  | .ordered .gt .eq => some "BB88"
  | .ordered .gt .lt => some "B88B"
  | .ordered .eq .gt => some "88AA"
  | .ordered .eq .eq => some "8888"
  | .ordered .eq .lt => some "88BB"
  | .ordered .lt .gt => some "A88A"
  | .ordered .lt .eq => some "AA88"
  | .ordered .lt .lt => some "AAAABBBB"

/-- The relation seen from the other range. -/
def inverse : Relation → Relation
  | .unrelated => .unrelated
  | .ordered starts stops => .ordered starts.swap stops.swap

/-- Whether the ranges have a common container. -/
def isComparable : Relation → Bool
  | .unrelated => false
  | .ordered _ _ => true

/-- Whether the first range is before the second at both ends. -/
def isBefore (r : Relation) : Bool := r == .ordered .lt .lt

/-- Whether the first range is after the second at both ends. -/
def isAfter (r : Relation) : Bool := r == .ordered .gt .gt

/-- Whether the first range covers the second and more. -/
def encloses : Relation → Bool
  | .ordered .eq .gt => true
  | .ordered .lt .gt => true
  | .ordered .lt .eq => true
  | _ => false

/-- Whether the second range covers the first and more. -/
def isEnclosed (r : Relation) : Bool := r.inverse.encloses

/-- Whether the first range comes first in document order, parents before their children. -/
def precedes (r : Relation) : Bool := r.isBefore || r.encloses

/-- Whether the first range comes second in document order. -/
def follows (r : Relation) : Bool := r.isAfter || r.isEnclosed

@[simp] theorem inverse_inverse (r : Relation) : r.inverse.inverse = r := by
  cases r with
  | unrelated => rfl
  | ordered a b => cases a <;> cases b <;> rfl

end Relation

namespace TextRange

/-- The order of the starts of two ranges of one container. -/
def compareStarts? (a b : TextRange) : Option Ordering :=
  if a.container = b.container then some (compare a.start b.start) else none

/-- The order of the stops of two ranges of one container. -/
def compareStops? (a b : TextRange) : Option Ordering :=
  if a.container = b.container then some (compare a.stop b.stop) else none

/-- How the range `a` lies to the range `b`. -/
def relation (a b : TextRange) : Relation :=
  match a.compareStarts? b, a.compareStops? b with
  | some starts, some stops => .ordered starts stops
  | _, _ => .unrelated

/-- How two ranges lie to each other, either of which may be absent. -/
def relation? (a b : Option TextRange) : Relation :=
  match a, b with
  | some a, some b => a.relation b
  | _, _ => .unrelated

end TextRange

end TemplateEngine
