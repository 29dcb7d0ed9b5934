import TemplateEngine.Text.Basic

/-!
# Node — the trees of the command language

A node has a name and children.  A key with a value is a node whose only child is a leaf.  `print`
writes a node in the command language: a leaf as a string, a key with its value, anything else as a
key with its children in parentheses.
-/

namespace TemplateEngine

/-- A named node with its children. -/
inductive Node where
  | mk (name : String) (children : List Node)
  deriving Repr

namespace Node

/-! ### Parts -/

/-- The name of a node. -/
def name : Node → String
  | ⟨n, _⟩ => n

/-- The children of a node. -/
def children : Node → List Node
  | ⟨_, cs⟩ => cs

/-- A node without children. -/
def leaf (name : String) : Node := ⟨name, []⟩

/-- A key with its value. -/
def keyValue (key value : String) : Node := ⟨key, [leaf value]⟩

/-- Whether a node has no children. -/
def isLeaf (n : Node) : Bool := n.children.isEmpty

/-- The value of a key with a value. -/
def value? : Node → Option String
  | ⟨_, [⟨v, []⟩]⟩ => some v
  | _ => none

/-- The first child of that name. -/
def child? (n : Node) (name : String) : Option Node := n.children.find? (·.name = name)

/-- The value of the first child of that name, if it is a key with a value. -/
def childValue? (n : Node) (name : String) : Option String := (n.child? name).bind value?

/-- The node with all children named as `c` removed and `c` appended. -/
def setChild (n c : Node) : Node := ⟨n.name, n.children.filter (·.name ≠ c.name) ++ [c]⟩

@[simp] theorem name_mk (n : String) (cs : List Node) : (mk n cs).name = n := rfl

@[simp] theorem children_mk (n : String) (cs : List Node) : (mk n cs).children = cs := rfl

@[simp] theorem value?_keyValue (k v : String) : (keyValue k v).value? = some v := rfl

/-! ### Nodes below a node -/

mutual

/-- All nodes below a node, each before its own children. -/
def descendants : Node → List Node
  | ⟨_, cs⟩ => descendantsOfAll cs

/-- The nodes of a list, each followed by the nodes below it. -/
def descendantsOfAll : List Node → List Node
  | [] => []
  | c :: cs => c :: descendants c ++ descendantsOfAll cs

end

/-- The nodes of that name below a node, in source order. -/
def descendantsNamed (n : Node) (name : String) : List Node :=
  n.descendants.filter (·.name = name)

/-! ### Equality -/

mutual

/-- Whether two nodes are equal. -/
def same : Node → Node → Bool
  | ⟨m, cs⟩, ⟨n, ds⟩ => m == n && sameAll cs ds

/-- Whether two lists of nodes are equal. -/
def sameAll : List Node → List Node → Bool
  | [], [] => true
  | c :: cs, d :: ds => same c d && sameAll cs ds
  | _, _ => false

end

mutual

theorem same_iff : ∀ a b : Node, same a b = true ↔ a = b
  | ⟨m, cs⟩, ⟨n, ds⟩ => by simp [same, sameAll_iff cs ds]

theorem sameAll_iff : ∀ as bs : List Node, sameAll as bs = true ↔ as = bs
  | [], [] => by simp [sameAll]
  | [], _ :: _ => by simp [sameAll]
  | _ :: _, [] => by simp [sameAll]
  | a :: as, b :: bs => by simp [sameAll, same_iff a b, sameAll_iff as bs]

end

instance : DecidableEq Node := fun a b => decidable_of_iff _ (same_iff a b)

instance : Inhabited Node := ⟨leaf ""⟩

/-! ### Writing -/

/-- A string between single quotes, quotes inside it written twice. -/
def quoteString (s : String) : Text :=
  '\'' :: s.toList.flatMap (fun c => if c = '\'' then ['\'', '\''] else [c]) ++ ['\'']

mutual

/-- A node as it is written. -/
def print : Node → Text
  | ⟨n, []⟩ => quoteString n
  | ⟨n, [⟨v, []⟩]⟩ => n.toList ++ ' ' :: quoteString v
  | ⟨n, c :: cs⟩ => n.toList ++ '(' :: print c ++ printMore cs ++ [')']

/-- Further nodes of a list, each after a blank. -/
def printMore : List Node → Text
  | [] => []
  | c :: cs => ' ' :: print c ++ printMore cs

end

/-- Nodes as they are written, separated by blanks. -/
def printAll : List Node → Text
  | [] => []
  | c :: cs => print c ++ printMore cs

instance : ToString Node := ⟨fun n => String.ofList n.print⟩

end Node

end TemplateEngine
