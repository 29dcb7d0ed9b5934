import TemplateEngine.DocumentFile.Reading
import TemplateEngine.Services
import TemplateEngine.Shell

/-!
# Config — where fragments are and how runs behave

A configuration file gives the locations of each fragment, the locations of contents and the policy of
runs.  Locations are expanded when the file is read, and kept as they are written where that fails.
-/

namespace TemplateEngine

/-- A configuration. -/
structure Config where
  policy : Policy
  /-- The locations of each fragment, best first. -/
  fragments : Dictionary (List String)
  /-- Where the contents to insert are, in the order of their use. -/
  contentLocations : List String
  deriving DecidableEq

/-- Why there is no configuration. -/
inductive ConfigError where
  | unreadable (path : String) (cause : FileError)
  | malformed (path : String)
  deriving DecidableEq, Repr

/-- The message for a configuration that is not read. -/
def ConfigError.message : ConfigError → String
  | .unreadable path cause => "Failed to read config file at " ++ path ++ ": " ++ cause.message
  | .malformed path => "Failed to parse config file at " ++ path

namespace Config

open Toml (Entries Value)
open DocumentFile (keyOr dictionaryOf)

/-- The configuration that a file without entries gives. -/
def empty : Config := ⟨⟨false, false⟩, .empty, []⟩

/-- Where the user's configuration is. -/
def userPath (env : Environment) : String :=
  String.ofList (Location.replaceTilde env "~/.config/docmux".toList) ++ "/config.toml"

/-! ### Reading -/

/-- The first item of an array, or `false`, and the items after it. -/
def flag? : List Value → Option (Bool × List Value)
  | [] => some (false, [])
  | v :: vs => v.boolean?.map fun b => (b, vs)

/-- A policy, as a table or as an array of its flags in order; a flag that is missing is off. -/
def policy? (v : Value) : Option Policy :=
  match v.entries? with
  | some es => do
    guard (es.heldBeyond ["warn_on_excess_args", "debug_mode"])
    let warn ← keyOr es "warn_on_excess_args" false Value.boolean?
    let debug ← keyOr es "debug_mode" false Value.boolean?
    return ⟨warn, debug⟩
  | none => do
    let (warn, vs) ← flag? (← v.items?)
    let (debug, _) ← flag? vs
    return ⟨warn, debug⟩

/-- The configuration that a table stands for, with its locations as they are written. -/
def ofEntries (es : Entries) : Option Config := do
  guard (es.heldBeyond ["policy", "fragments", "content_locations"])
  let policy ← keyOr es "policy" empty.policy policy?
  let fragments ← keyOr es "fragments" .empty (dictionaryOf Value.strings?)
  let contentLocations ← keyOr es "content_locations" [] Value.strings?
  return { policy, fragments, contentLocations }

/-- The configuration that a text stands for, with its locations as they are written. -/
def parse (t : Text) : Option Config := (Toml.read t).bind ofEntries

/-! ### Locations -/

/-- All locations of a configuration. -/
def allLocations (c : Config) : List String :=
  c.fragments.entries.flatMap (·.2) ++ c.contentLocations

/-- The configuration with its locations expanded. -/
def expand (env : Environment) (c : Config) : Config where
  policy := c.policy
  fragments := .ofList (c.fragments.entries.map fun e => (e.1, e.2.map (Location.resolve env)))
  contentLocations := c.contentLocations.map (Location.resolve env)

/-- The locations of a fragment, best first. -/
def fragmentLocations (c : Config) (id : String) : List String := (c.fragments.get? id).getD []

/-! ### Loading -/

/-- The configuration at a path, by what reading the path gave, with its locations as they are
written; none if there is no such file. -/
def ofRead (path : String) : Except FileError Text → Except ConfigError (Option Config)
  | .error e => if e.isAbsence then .ok none else .error (.unreadable path e)
  | .ok t =>
    match parse t with
    | none => .error (.malformed path)
    | some c => .ok (some c)

/-- The configuration at a path; none if there is no such file. -/
def load {m : Type → Type} [Monad m] (shell : Shell m) (path : String) :
    m (Except ConfigError (Option Config)) := do
  match ofRead path (← shell.read path) with
  | .error e => return .error e
  | .ok none => return .ok none
  | .ok (some c) =>
    let env ← shell.environment c.allLocations
    return .ok (some (c.expand env))

end Config

end TemplateEngine
