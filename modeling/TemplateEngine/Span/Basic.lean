/-!
# Span — a stretch of text

A `Span` is a pair of byte offsets in one text.  A `TextRange` is a span in one of several text
containers; the main text is the container `TextRange.body`.  Nothing forces the start of a span to
come before its stop: who needs that checks it.
-/

namespace TemplateEngine

/-- The bytes from `start` up to `stop` of a text. -/
structure Span where
  start : Nat
  stop : Nat
  deriving DecidableEq, Repr, Inhabited

namespace Span

/-- The empty span at a position. -/
def point (p : Nat) : Span := ⟨p, p⟩

/-- Whether a span is empty. -/
def isCollapsed (s : Span) : Bool := s.start == s.stop

/-- The span `n` bytes further on. -/
def shift (s : Span) (n : Nat) : Span := ⟨s.start + n, s.stop + n⟩

/-- Whether `s` lies inside `outer`, touching ends allowed. -/
def within (s outer : Span) : Bool := outer.start ≤ s.start && s.stop ≤ outer.stop

/-- Document order: earlier starts first, and of two spans with one start the longer one. -/
def notAfter (a b : Span) : Bool := a.start < b.start || (a.start == b.start && b.stop ≤ a.stop)

theorem notAfter_trans {a b c : Span} (hab : a.notAfter b = true) (hbc : b.notAfter c = true) :
    a.notAfter c = true := by
  simp only [notAfter, Bool.or_eq_true, Bool.and_eq_true, decide_eq_true_eq, beq_iff_eq] at *
  omega

theorem notAfter_total (a b : Span) : (a.notAfter b || b.notAfter a) = true := by
  simp only [notAfter, Bool.or_eq_true, Bool.and_eq_true, decide_eq_true_eq, beq_iff_eq]
  omega

end Span

/-- A span in one of a document's text containers. -/
structure TextRange extends Span where
  container : Nat
  deriving DecidableEq, Repr, Inhabited

namespace TextRange

/-- The container of a document's main text. -/
def body : Nat := 0

/-- A span of the main text. -/
def ofSpan (s : Span) : TextRange := { s with container := body }

/-- The empty range at the start of a range. -/
def collapseToStart (r : TextRange) : TextRange := { r with stop := r.start }

/-- The empty range at the stop of a range. -/
def collapseToStop (r : TextRange) : TextRange := { r with start := r.stop }

/-- A range as messages show it. -/
def describe (r : TextRange) : String :=
  "TextSpan \x7b container: " ++ toString r.container ++ ", start: " ++ toString r.start ++
    ", end: " ++ toString r.stop ++ " \x7d"

end TextRange

end TemplateEngine
