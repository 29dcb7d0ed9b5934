import TemplateEngine.Span.Basic

/-!
# Anchor — where a span goes when text is replaced

When the bytes of one span are replaced by a new text, every other span over the old text moves.
Ends that touch the replaced stretch stay outside of it: new text at a span's start or stop does not
join the span.

A position is held in 64 bits.  For one in the text that makes no difference; behind the text, where
nobody checks positions, they start again from zero after the last.
-/

namespace TemplateEngine

namespace Span

/-- Where position `p`, at or after the stop of the replaced span, ends up: the replaced bytes are gone
before it and the inserted ones are there. -/
def moved (edited : Span) (inserted p : Nat) : Nat := p + edited.start + inserted - edited.stop

/-- Where `span` ends up when `edited` is replaced by `inserted` bytes; `none` when it is lost with the
replaced text. -/
def reanchor (span edited : Span) (inserted : Nat) : Option Span :=
  let move := edited.moved inserted
  if span.start = span.stop then
    if span.start ≤ edited.start then some span
    else if edited.stop ≤ span.start then some (point (move span.start))
    else none
  else if span.stop ≤ edited.start then some span
  else if edited.stop ≤ span.start then some ⟨move span.start, move span.stop⟩
  else if edited.start ≤ span.start ∧ span.stop ≤ edited.stop then none
  else if span.start ≤ edited.start ∧ edited.stop ≤ span.stop then some ⟨span.start, move span.stop⟩
  else if span.start < edited.start then some ⟨span.start, edited.start⟩
  else some ⟨edited.start + inserted, move span.stop⟩

/-- How many positions there are. -/
def positions : Nat := 18446744073709551616

/-- A position as it is held beside a text with a length. -/
def hold (length p : Nat) : Nat := if p ≤ length then p else p % positions

/-- A span as it is held beside a text with a length. -/
def heldBeside (length : Nat) (s : Span) : Span := ⟨hold length s.start, hold length s.stop⟩

theorem hold_of_le {length p : Nat} (h : p ≤ length) : hold length p = p := if_pos h

/-- A span of the text is held as it is. -/
theorem heldBeside_of_le {length : Nat} {s : Span} (hs : s.start ≤ length) (ht : s.stop ≤ length) :
    heldBeside length s = s := by
  rw [heldBeside, hold_of_le hs, hold_of_le ht]

end Span

end TemplateEngine
