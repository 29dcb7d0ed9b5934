import TemplateEngine.Document.Basic

/-!
# Services — what a run asks its surroundings for

A run looks up where fragments are, loads them, reads values of the selected data row and applies
named transforms.
-/

namespace TemplateEngine

/-- Why content is not loaded. -/
inductive LoadError where
  | unreadable (location cause : String)
  | malformed (location cause : String)
  | notFound (location : String)
  deriving DecidableEq, Repr

/-- The message for content that is not loaded. -/
def LoadError.message : LoadError → String
  | .unreadable location cause => .join ["cannot read '", location, "': ", cause]
  | .malformed location cause => .join ["cannot parse '", location, "': ", cause]
  | .notFound location => .join ["no content is available at '", location, "'"]

/-- Why a data row has no value. -/
inductive RowError where
  | noRowSelected
  | columnNotFound (column : String)
  deriving DecidableEq, Repr

/-- The message for a missing value. -/
def RowError.message : RowError → String
  | .noRowSelected => "no data row is selected"
  | .columnNotFound column => "column '" ++ column ++ "' does not exist"

/-- Why a value is not transformed. -/
inductive TransformError where
  | unknown (name : String)
  | failed (name cause : String)
  deriving DecidableEq, Repr

/-- The message for a failed transform. -/
def TransformError.message : TransformError → String
  | .unknown name => "transform '" ++ name ++ "' is not defined"
  | .failed name cause => "transform '" ++ name ++ "' failed: " ++ cause

/-- How a run treats what is not an error. -/
structure Policy where
  /-- Whether arguments without a placeholder are reported to the user. -/
  warnOnExcessArguments : Bool
  /-- Whether the bookmarks of done commands stay. -/
  debug : Bool
  deriving DecidableEq, Repr

/-- The surroundings of a run. -/
structure Services where
  /-- The locations of a fragment, best first. -/
  locations : String → List String
  load : String → Except LoadError Document
  /-- The value of a column of the selected data row. -/
  value : String → Except RowError String
  /-- The value that a named transform makes of a value. -/
  transform : String → String → Except TransformError String
  policy : Policy

/-- The values of a data row, or of none. -/
def rowValue (row : Option (Dictionary String)) (column : String) : Except RowError String :=
  match row with
  | none => .error .noRowSelected
  | some row =>
    match row.get? column with
    | some v => .ok v
    | none => .error (.columnNotFound column)

/-- A message the user has to acknowledge. -/
structure Message where
  title : String
  text : String
  deriving DecidableEq, Repr

end TemplateEngine
