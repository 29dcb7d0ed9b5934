/-!
# Toml — values and tables

A TOML document is a table: values by key.  A table remembers how it came about, because that
decides which later lines may still add to it.
-/

namespace TemplateEngine

namespace Toml

/-- How a table came about. -/
inductive Origin where
  /-- Written between braces; complete. -/
  | inline
  /-- Made for a header that names one of its sub-tables. -/
  | implied
  /-- Made for a dotted key. -/
  | dotted
  /-- Named by a header. -/
  | header
  deriving DecidableEq, Repr

/-- A value.  Floats are kept as they are written, moments in their full form. -/
inductive Value where
  | string (s : String)
  | integer (n : Int)
  | float (written : String)
  /-- Formed like a number but none that can be held.  A document may hold one where nobody looks. -/
  | numberless (written : String)
  | boolean (b : Bool)
  | moment (written : String)
  | array (items : List Value)
  | table (origin : Origin) (entries : List (String × Value))
  /-- The tables that double-bracket headers of one name begin. -/
  | tables (items : List (List (String × Value)))

/-- The values of a table by their keys, in the order they were added. -/
abbrev Entries := List (String × Value)

/-! ### Entries -/

namespace Entries

/-- The value of a key. -/
def get? (es : Entries) (k : String) : Option Value := (es.find? (·.1 = k)).map (·.2)

/-- The entries with the value of a key changed. -/
def replace (es : Entries) (k : String) (v : Value) : Entries :=
  es.map fun e => if e.1 = k then (k, v) else e

@[simp] theorem get?_nil (k : String) : get? [] k = none := rfl

theorem get?_cons (e : String × Value) (es : Entries) (k : String) :
    get? (e :: es) k = if e.1 = k then some e.2 else get? es k := by
  by_cases h : e.1 = k <;> simp [get?, h]

theorem get?_append (a b : Entries) (k : String) :
    get? (a ++ b) k = (get? a k).or (get? b k) := by
  induction a with
  | nil => simp
  | cons e a ih => by_cases h : e.1 = k <;> simp [get?_cons, h, ih]

end Entries

/-! ### What a value is -/

namespace Value

/-- The text of a string. -/
def string? : Value → Option String
  | .string s => some s
  | _ => none

/-- The number of an integer that fits into 64 bits without a sign. -/
def natural? : Value → Option Nat
  | .integer (.ofNat n) => if n ≤ 18446744073709551615 then some n else none
  | _ => none

/-- The truth value of a boolean. -/
def boolean? : Value → Option Bool
  | .boolean b => some b
  | _ => none

/-- The items of an array. -/
def items? : Value → Option (List Value)
  | .array items => some items
  | .tables items => some (items.map (.table .header))
  | _ => none

/-- The key under which a moment stands when it is read as a table. -/
def momentKey : String := "$__toml_private_datetime"

/-- The entries of a table; a moment is read as a table with one. -/
def entries? : Value → Option Entries
  | .table _ entries => some entries
  | .moment written => some [(momentKey, .string written)]
  | _ => none

/-- The texts of an array of strings. -/
def strings? (v : Value) : Option (List String) := v.items?.bind fun items => items.mapM string?

/-! ### Looking at every part -/

mutual

/-- Whether all values without parts in a value have a property. -/
def every (p : Value → Bool) : Value → Bool
  | .array items => everyItem p items
  | .table _ entries => everyEntry p entries
  | .tables items => everyTable p items
  | v => p v

/-- Whether all values without parts in a list of values have a property. -/
def everyItem (p : Value → Bool) : List Value → Bool
  | [] => true
  | v :: vs => every p v && everyItem p vs

/-- Whether all values without parts in the entries of a table have a property. -/
def everyEntry (p : Value → Bool) : List (String × Value) → Bool
  | [] => true
  | (_, v) :: es => every p v && everyEntry p es

/-- Whether all values without parts in a list of tables have a property. -/
def everyTable (p : Value → Bool) : List (List (String × Value)) → Bool
  | [] => true
  | es :: ess => everyEntry p es && everyTable p ess

end

/-- Whether a value can be held. -/
def isHeld : Value → Bool
  | .numberless _ => false
  | _ => true

/-- Whether a value can be held, an integer in 64 bits with or without a sign. -/
def isHeldInWord : Value → Bool
  | .numberless _ => false
  | .integer n => -9223372036854775808 ≤ n && n ≤ 18446744073709551615
  | _ => true

end Value

/-- Whether the values of all keys but some can be held. -/
def Entries.heldBeyond (known : List String) (es : Entries) : Bool :=
  es.all fun e => known.contains e.1 || e.2.every Value.isHeld

end Toml

end TemplateEngine
