import TemplateEngine.Syntax.Node
import TemplateEngine.Syntax.Token

/-!
# Grammar — which tokens write which nodes

A list of nodes is written by writing the nodes one after the other.  A string writes a leaf, an
identifier before a string a key with its value, and an identifier before a list in parentheses a key
with children.
-/

namespace TemplateEngine

/-- `Derives ts ns`: the tokens `ts` write the nodes `ns`. -/
inductive Derives : List Token → List Node → Prop
  | nil : Derives [] []
  | leaf {s : Token} {ts : List Token} {ns : List Node} :
      s.isString = true → Derives ts ns → Derives (s :: ts) (.leaf s.value :: ns)
  | keyValue {k s : Token} {ts : List Token} {ns : List Node} :
      k.kind = .identifier → s.isString = true → Derives ts ns →
      Derives (k :: s :: ts) (.keyValue k.value s.value :: ns)
  | group {k o c : Token} {inner ts : List Token} {children ns : List Node} :
      k.kind = .identifier → o.kind = .openParen → Derives inner children →
      c.kind = .closeParen → Derives ts ns →
      Derives (k :: o :: inner ++ c :: ts) (⟨k.value, children⟩ :: ns)

namespace Derives

/-- What two lists of tokens write, one after the other. -/
theorem append {ts us : List Token} {ns ms : List Node} (h : Derives ts ns) (h' : Derives us ms) :
    Derives (ts ++ us) (ns ++ ms) := by
  induction h with
  | nil => exact h'
  | leaf hs _ ih => exact .leaf hs ih
  | keyValue hk hs _ ih => exact .keyValue hk hs ih
  | group hk ho hi hc _ _ ih =>
    have := Derives.group hk ho hi hc ih
    simpa using this

end Derives

end TemplateEngine
