/-!
# Sets of characters as inversion lists

A set of characters is written as the increasing list of the code points where membership changes:
the first bound opens a range, the second is the first code point after it, and so on.
-/

namespace TemplateEngine

/-- A set of characters, given by the code points where membership changes. -/
structure CharacterSet where
  bounds : List Nat

namespace CharacterSet

/-- Whether membership, starting from `inside`, is on at `n` once the bounds up to `n` are passed. -/
def onAt (n : Nat) : List Nat → Bool → Bool
  | [], inside => inside
  | b :: bs, inside => if n < b then inside else onAt n bs (!inside)

/-- Whether the set contains a character. -/
def contains (s : CharacterSet) (c : Char) : Bool := onAt c.toNat s.bounds false

@[simp] theorem contains_empty (c : Char) : (⟨[]⟩ : CharacterSet).contains c = false := rfl

end CharacterSet

end TemplateEngine
