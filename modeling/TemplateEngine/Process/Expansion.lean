import TemplateEngine.Process.Run

/-!
# Expansion — inserting fragments and contents

A round executes the overrides, then inserts fragments and contents in document order.  What is
inserted can bring new commands, so rounds follow each other until one leaves the list of commands as
it is or the limit is reached.
-/

namespace TemplateEngine

/-- The title of messages about commands. -/
def commandErrorTitle : String := "Document command error"

/-- Why nothing is inserted. -/
inductive InsertionError where
  | undefinedFragment (id : String)
  | noLocationLoads (id : String) (causes : List LoadError)
  | notLoaded (cause : LoadError)
  | refused (cause : Refusal)
  deriving DecidableEq

/-- The message for a failed insertion. -/
def InsertionError.message : InsertionError → String
  | .undefinedFragment id => .join ["fragment with FRAG_ID '", id, "' is not defined"]
  | .noLocationLoads id causes =>
    .join ["fragment '", id, "' could not be loaded from any of its locations:\n",
      .intercalate "\n" (causes.map (·.message))]
  | .notLoaded cause => cause.message
  | .refused cause => cause.message

/-! ### Overrides -/

/-- Enters the override that a command asks for. -/
def executeOverride (policy : Policy) (c : Command) (r : Run) : Except Fault (Command × Run) :=
  match c.kind with
  | .overrideFragment id newId =>
    match r.overrides.set id newId with
    | .ok overrides => .ok ({ r with overrides }.finish c (!policy.debug))
    | .error e => r.fail c e.message
  | _ => .ok (c, r)

/-! ### Loading -/

/-- The content of the first location that loads, or why none does. -/
def loadFirst (load : String → Except LoadError Document) :
    List String → Except (List LoadError) Document
  | [] => .error []
  | l :: ls =>
    match load l with
    | .ok content => .ok content
    | .error e =>
      match loadFirst load ls with
      | .ok content => .ok content
      | .error es => .error (e :: es)

/-- The content of the fragment `id`, which a command asked for as `requested`. -/
def loadFragment (s : Services) (requested id : String) : Except InsertionError Document :=
  match s.locations id with
  | [] => .error (.undefinedFragment requested)
  | locations =>
    match loadFirst s.load locations with
    | .ok content => .ok content
    | .error causes => .error (.noLocationLoads id causes)

/-! ### Placeholders and the view cursor -/

/-- Puts the view cursor on a field, where the field still is. -/
def Run.placeCursor (r : Run) (id : Nat) : Run :=
  match r.document.fieldRange? id with
  | none => r
  | some range => { r with document := r.document.setCursor range, cursorPlaced := true }

/-- Puts the view cursor on a field, unless it is on one already. -/
def Run.offerCursor (r : Run) (id : Nat) : Run := if r.cursorPlaced then r else r.placeCursor id

/-- Fills a placeholder; one without a text is offered to the view cursor. -/
def fillPlaceholder (r : Run) (id : Nat) (argument : String) : Except Fault Run :=
  if argument.isEmpty then .ok (r.offerCursor id)
  else do
    match ← r.document.replacePlaceholder id argument.toList with
    | .error _ => return r
    | .ok document => return { r with document }

/-- Fills placeholders with the arguments in turn. -/
def fillEach (r : Run) : List Nat → List String → Except Fault Run
  | id :: ids, argument :: arguments => do
    let r ← fillPlaceholder r id argument
    fillEach r ids arguments
  | _, _ => .ok r

/-- Puts the view cursor on the first placeholder beyond the arguments.  When all placeholders have an
argument, it goes to the jump mark. -/
def settleCursor (r : Run) (jumpMark : Option String) : List Nat → Run
  | id :: _ => r.offerCursor id
  | [] =>
    match jumpMark.bind r.document.bookmarkRange? with
    | some target => { r with document := r.document.setCursor target }
    | none => r

/-- The message about arguments without a placeholder. -/
def excessMessage (c : Command) (arguments placeholders : Nat) : Message where
  title := commandErrorTitle
  text := "Fragment '" ++ c.bookmark ++ "' got " ++ toString arguments ++
    " arguments but has only " ++ toString placeholders ++ " placeholders"

/-- Fills the placeholders of an inserted fragment. -/
def fillPlaceholders (policy : Policy) (jumpMark : Option String) (c : Command)
    (arguments : List String) (r : Run) : Except Fault Run :=
  match c.range? r.document with
  | none => .ok r
  | some range => do
    let ids := r.document.placeholdersWithin range.toSpan
    let r ← fillEach r ids arguments
    let r := settleCursor r jumpMark (ids.drop arguments.length)
    if ids.length < arguments.length && policy.warnOnExcessArguments then
      return r.announce (excessMessage c arguments.length ids.length)
    else return r

/-! ### Fragments and contents -/

/-- Inserts a loaded fragment, or its styles only. -/
def placeFragment (request : FragmentRequest) (content : Document) (c : Command) (r : Run) :
    Except Fault (Command × Run × Option Refusal) :=
  if request.stylesOnly then do
    let document := r.document.importStyles content request.styles
    match ← c.setText document [] with
    | .error e => return (c, { r with document }, some e)
    | .ok document => return (c, { r with document }, none)
  else do
    let (c, document, refusal) ← c.insertBetweenMarks r.document content
    return (c, { r with document }, refusal)

/-- The message about a fragment that the user inserts by hand. -/
def manualMessage (request : FragmentRequest) (id : String) (e : InsertionError) : Message where
  title := commandErrorTitle
  text := "The fragment '" ++ request.id ++ "'" ++
    (if id = request.id then "" else " (overridden by '" ++ id ++ "')") ++
    " could not be inserted:\n\n" ++ e.message

/-- A fragment is not inserted. -/
def failFragment (request : FragmentRequest) (id : String) (e : InsertionError) (c : Command)
    (r : Run) : Except Fault (Command × Run) :=
  if request.manual then .ok (c.setFailed true, (r.announce (manualMessage request id e)).count)
  else r.fail c e.message

/-- Inserts the fragment that a command asks for, or the one that stands in for it. -/
def insertFragment (s : Services) (jumpMark : Option String) (request : FragmentRequest)
    (c : Command) (r : Run) : Except Fault (Command × Run) :=
  let id := r.overrides.get request.id
  if id.isEmpty then do
    let r ← r.write c []
    return r.finish c false
  else
    match loadFragment s request.id id with
    | .error e => failFragment request id e c r
    | .ok content => do
      match ← placeFragment request content c r with
      | (c, r, some refusal) => failFragment request id (.refused refusal) c r
      | (c, r, none) =>
        let r ← if request.stylesOnly then pure r
          else fillPlaceholders s.policy jumpMark c request.arguments r
        return r.finish c false

/-- Inserts the content of a location. -/
def placeContent (s : Services) (location : String) (c : Command) (r : Run) :
    Except Fault (Command × Run) :=
  match s.load location with
  | .error e => r.fail c (InsertionError.notLoaded e).message
  | .ok content => do
    let (c, document, refusal) ← c.insertBetweenMarks r.document content
    match refusal with
    | some e => Run.fail { r with document } c (InsertionError.refused e).message
    | none => return (c, { r with document })

/-- Inserts the next content, if one is left. -/
def insertContent (s : Services) (c : Command) (r : Run) : Except Fault (Command × Run) :=
  match r.contents with
  | [] => .ok (r.finish c false)
  | location :: contents => do
    let (c, r) ← placeContent s location c { r with contents }
    return r.finish c false

/-- Inserts what a command asks for. -/
def executeInsert (s : Services) (jumpMark : Option String) (c : Command) (r : Run) :
    Except Fault (Command × Run) :=
  match c.kind with
  | .insertFragment request => insertFragment s jumpMark request c r
  | .insertContent => insertContent s c r
  | _ => .ok (c, r)

/-! ### Rounds -/

/-- How the rounds ended. -/
inductive Fixpoint where
  /-- The last round left the list of commands as it was. -/
  | converged (rounds : Nat)
  /-- The last round allowed still changed it. -/
  | capReached (rounds : Nat)
  deriving DecidableEq, Repr

/-- How many rounds there were. -/
def Fixpoint.rounds : Fixpoint → Nat
  | .converged n | .capReached n => n

/-- The most rounds there can be. -/
def maxRounds : Nat := 50

/-- Executes the overrides of a list of commands. -/
def executeOverrides (s : Services) (cs : List Command) (r : Run) :
    Except Fault (List Command × Run) :=
  visitPending (executeOverride s.policy) cs r

/-- Executes the insertions of a list of commands. -/
def executeInserts (s : Services) (cs : List Command) (r : Run) :
    Except Fault (List Command × Run) :=
  visitPending (executeInsert s (Command.firstJumpMark? cs)) cs r

/-- One round, and whether it changed the list of commands. -/
def expandOnce (s : Services) (cs : List Command) (r : Run) :
    Except Fault (List Command × Run × Bool) := do
  let (cs, r) ← executeOverrides s cs r
  let (cs, r) ← executeInserts s cs r
  let (cs, changed) := Command.refresh r.document cs
  return (cs, r, changed)

/-- Rounds until one changes nothing, at most `left` more after `done` ones. -/
def expandFrom (s : Services) (done : Nat) :
    Nat → List Command → Run → Except Fault (Fixpoint × List Command × Run)
  | 0, cs, r => .ok (.capReached done, cs, r)
  | left + 1, cs, r => do
    let (cs, r, changed) ← expandOnce s cs r
    if changed then expandFrom s (done + 1) left cs r
    else return (.converged (done + 1), cs, r)

/-- Rounds until one changes nothing. -/
def expand (s : Services) (cs : List Command) (r : Run) :
    Except Fault (Fixpoint × List Command × Run) :=
  expandFrom s 0 maxRounds cs r

end TemplateEngine
