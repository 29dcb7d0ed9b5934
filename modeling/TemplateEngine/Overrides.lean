import TemplateEngine.Dictionary

/-!
# Overrides — fragments that stand in for others

A table says which fragment to insert instead of another one; the first entry for a fragment counts.
Entries do not chain: no fragment is both replaced and a replacement.
-/

namespace TemplateEngine

/-- Which fragment stands in for which. -/
structure Overrides where
  table : Dictionary String
  deriving DecidableEq

/-- Why an override is not entered. -/
inductive OverrideError where
  | targetOverridden (id newId : String)
  | sourceIsTarget (id : String)
  deriving DecidableEq, Repr

/-- The message for an override that is not entered. -/
def OverrideError.message : OverrideError → String
  | .targetOverridden id newId =>
    .join ["cannot override '", id, "' with '", newId, "': '", newId,
      "' is itself overridden and overrides must not form chains"]
  | .sourceIsTarget id =>
    .join ["cannot override '", id, "': it is already the target of another override and ",
      "overrides must not form chains"]

namespace Overrides

/-- The table without entries. -/
def empty : Overrides := ⟨.empty⟩

/-- Whether a fragment stands in for another one. -/
def isTarget (o : Overrides) (id : String) : Bool := o.table.entries.any (·.2 == id)

/-- Enters `newId` for `id`, unless `id` has an entry. -/
def set (o : Overrides) (id newId : String) : Except OverrideError Overrides :=
  if (o.table.get? newId).isSome then .error (.targetOverridden id newId)
  else if o.isTarget id then .error (.sourceIsTarget id)
  else if (o.table.get? id).isSome then .ok o
  else .ok ⟨o.table.insert id newId⟩

/-- The fragment to insert for `id`. -/
def get (o : Overrides) (id : String) : String := (o.table.get? id).getD id

@[simp] theorem get_empty (id : String) : empty.get id = id := rfl

end Overrides

end TemplateEngine
