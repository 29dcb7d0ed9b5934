import TemplateEngine.Process.Pipeline

/-!
# Chronicle — what happens during a template run

A run has a result, but what its documents are like meanwhile does not show.  Here the run is told: each phase
gives the same result as before, and with it what happened, in order (`tellTemplate`, `result_tellTemplate`).  A
document is told of after every operation that can change its text, none of which changes it more than once, after
the view cursor was put somewhere, and at the end.
-/

namespace TemplateEngine

/-- What happens to a document and its view cursor. -/
inductive Event where
  /-- An operation is over that can have changed the text or put the cursor somewhere; the document is this one
  then. -/
  | stood (d : Document)
  /-- A fragment was inserted by a command with some arguments, its placeholders not filled yet. -/
  | inserted (d : Document) (c : Command) (arguments : List String)
  /-- A placeholder is left without a text. -/
  | offered (d : Document) (id : Nat)
  /-- The cursor is put on a placeholder. -/
  | placed (id : Nat)
  /-- The cursor is put on the jump mark. -/
  | jumped
  deriving DecidableEq

/-- A computation that can fault, and what happens meanwhile. -/
structure Told (α : Type) where
  events : List Event
  result : Except Fault α

namespace Told

variable {α β : Type}

instance : Monad Told where
  pure a := ⟨[], .ok a⟩
  bind x f :=
    match x.result with
    | .error e => ⟨x.events, .error e⟩
    | .ok a => ⟨x.events ++ (f a).events, (f a).result⟩

/-- Something happens. -/
def tell (e : Event) : Told Unit := ⟨[e], .ok ()⟩

/-- A computation during which nothing happens. -/
def silent (x : Except Fault α) : Told α := ⟨[], x⟩

/-- An operation, after which the document stands as its result has it. -/
def seen (document : α → Document) (x : Except Fault α) : Told α :=
  ⟨match x with
    | .ok a => [.stood (document a)]
    | .error _ => [], x⟩

/-- An operation that can be refused. -/
def attempted (x : Attempt) : Told (Except Refusal Document) :=
  ⟨match x with
    | .ok (.ok d) => [.stood d]
    | _ => [], x⟩

@[simp] theorem result_bind (x : Told α) (f : α → Told β) :
    (x >>= f).result = x.result >>= fun a => (f a).result := by
  show (match x.result with
    | .error e => (⟨x.events, .error e⟩ : Told β)
    | .ok a => ⟨x.events ++ (f a).events, (f a).result⟩).result = _
  cases x.result <;> rfl

@[simp] theorem result_tell (e : Event) : (tell e).result = .ok () := rfl

@[simp] theorem result_silent (x : Except Fault α) : (silent x).result = x := rfl

@[simp] theorem result_seen (document : α → Document) (x : Except Fault α) :
    (seen document x).result = x := rfl

@[simp] theorem result_attempted (x : Attempt) : (attempted x).result = x := rfl

theorem result_foldlM {f : α → β → Told α} {g : α → β → Except Fault α} (h : ∀ a b, (f a b).result = g a b)
    (bs : List β) (a : α) : (bs.foldlM f a).result = bs.foldlM g a := by
  induction bs generalizing a with
  | nil => rfl
  | cons b bs ih =>
    rw [List.foldlM_cons, List.foldlM_cons, result_bind, h]
    exact congrArg (g a b >>= ·) (funext ih)

end Told

open Told

/-! ### Placeholders and the cursor -/

/-- Puts the view cursor on a field, where the field still is. -/
def Run.tellPlace (r : Run) (id : Nat) : Told Run :=
  match r.document.fieldRange? id with
  | none => return r
  | some range => do
    let r := { r with document := r.document.setCursor range, cursorPlaced := true }
    tell (.placed id)
    tell (.stood r.document)
    return r

/-- A placeholder without a text is offered to the view cursor. -/
def Run.tellOffer (r : Run) (id : Nat) : Told Run := do
  tell (.offered r.document id)
  if r.cursorPlaced then return r else r.tellPlace id

/-- Fills a placeholder or offers it. -/
def tellFill (r : Run) (id : Nat) (argument : String) : Told Run :=
  if argument.isEmpty then r.tellOffer id
  else do
    match ← attempted (r.document.replacePlaceholder id argument.toList) with
    | .error _ => return r
    | .ok document => return { r with document }

/-- Fills placeholders with the arguments in turn. -/
def tellFillEach (r : Run) : List Nat → List String → Told Run
  | id :: ids, argument :: arguments => do
    let r ← tellFill r id argument
    tellFillEach r ids arguments
  | _, _ => return r

/-- Offers the first placeholder beyond the arguments, or goes to the jump mark. -/
def tellSettle (r : Run) (jumpMark : Option String) : List Nat → Told Run
  | id :: _ => r.tellOffer id
  | [] =>
    match jumpMark.bind r.document.bookmarkRange? with
    | some target => do
      let r := { r with document := r.document.setCursor target }
      tell .jumped
      tell (.stood r.document)
      return r
    | none => return r

/-- Fills the placeholders of an inserted fragment. -/
def tellFillPlaceholders (policy : Policy) (jumpMark : Option String) (c : Command) (arguments : List String)
    (r : Run) : Told Run := do
  tell (.inserted r.document c arguments)
  match c.range? r.document with
  | none => return r
  | some range =>
    let ids := r.document.placeholdersWithin range.toSpan
    let r ← tellFillEach r ids arguments
    let r ← tellSettle r jumpMark (ids.drop arguments.length)
    if ids.length < arguments.length && policy.warnOnExcessArguments then
      return r.announce (excessMessage c arguments.length ids.length)
    else return r

/-! ### Fragments and contents -/

/-- Puts marks in the place of a command's text and content between them. -/
def Command.tellBetweenMarks (c : Command) (d content : Document) :
    Told (Command × Document × Option Refusal) := do
  match ← attempted (c.setText d marks) with
  | .error e => return (c, d, some e)
  | .ok d =>
    let c := { c with marked := true }
    match c.range? d with
    | none => return (c, d, some (.bookmarkNotFound c.bookmark))
    | some range =>
      match d.shift? range.collapseToStart 1 1 with
      | none => return (c, d, some (.invalidRange range))
      | some between =>
        match ← attempted (d.insertContent between content) with
        | .error e => return (c, d, some e)
        | .ok d => return (c, d, none)

/-- Inserts a loaded fragment, or its styles only. -/
def tellPlaceFragment (request : FragmentRequest) (content : Document) (c : Command) (r : Run) :
    Told (Command × Run × Option Refusal) :=
  if request.stylesOnly then seen (·.2.1.document) (placeFragment request content c r)
  else do
    let (c, document, refusal) ← c.tellBetweenMarks r.document content
    return (c, { r with document }, refusal)

/-- An operation of a command, after which the document stands as the run has it. -/
def seenRun (x : Except Fault (Command × Run)) : Told (Command × Run) := seen (·.2.document) x

/-- Inserts the fragment that a command asks for, or the one that stands in for it. -/
def tellInsertFragment (s : Services) (jumpMark : Option String) (request : FragmentRequest) (c : Command)
    (r : Run) : Told (Command × Run) :=
  let id := r.overrides.get request.id
  if id.isEmpty then do
    let r ← seen Run.document (r.write c [])
    return r.finish c false
  else
    match loadFragment s request.id id with
    | .error e => seenRun (failFragment request id e c r)
    | .ok content => do
      match ← tellPlaceFragment request content c r with
      | (c, r, some refusal) => seenRun (failFragment request id (.refused refusal) c r)
      | (c, r, none) =>
        let r ← if request.stylesOnly then pure r
          else tellFillPlaceholders s.policy jumpMark c request.arguments r
        return r.finish c false

/-- Inserts the content of a location. -/
def tellPlaceContent (s : Services) (location : String) (c : Command) (r : Run) : Told (Command × Run) :=
  match s.load location with
  | .error e => seenRun (r.fail c (InsertionError.notLoaded e).message)
  | .ok content => do
    let (c, document, refusal) ← c.tellBetweenMarks r.document content
    match refusal with
    | some e => seenRun (Run.fail { r with document } c (InsertionError.refused e).message)
    | none => return (c, { r with document })

/-- Inserts the next content, if one is left. -/
def tellInsertContent (s : Services) (c : Command) (r : Run) : Told (Command × Run) :=
  match r.contents with
  | [] => return r.finish c false
  | location :: contents => do
    let (c, r) ← tellPlaceContent s location c { r with contents }
    return r.finish c false

/-- Inserts what a command asks for. -/
def tellInsert (s : Services) (jumpMark : Option String) (c : Command) (r : Run) : Told (Command × Run) :=
  match c.kind with
  | .insertFragment request => tellInsertFragment s jumpMark request c r
  | .insertContent => tellInsertContent s c r
  | _ => return (c, r)

/-! ### Rounds -/

/-- Executes a step for each command of a list. -/
def tellVisit {σ : Type} (step : Command → σ → Told (Command × σ)) : List Command → σ → Told (List Command × σ)
  | [], s => return ([], s)
  | c :: cs, s => do
    let (c, s) ← step c s
    let (cs, s) ← tellVisit step cs s
    return (c :: cs, s)

/-- Executes a step for each pending command of a list. -/
def tellPending {σ : Type} (step : Command → σ → Told (Command × σ)) : List Command → σ → Told (List Command × σ) :=
  tellVisit fun c s => if c.isPending then step c s else pure (c, s)

/-- One round, and whether it changed the list of commands. -/
def tellRound (s : Services) (cs : List Command) (r : Run) : Told (List Command × Run × Bool) := do
  let (cs, r) ← tellPending (fun c r => seenRun (executeOverride s.policy c r)) cs r
  let (cs, r) ← tellPending (tellInsert s (Command.firstJumpMark? cs)) cs r
  let (cs, changed) := Command.refresh r.document cs
  return (cs, r, changed)

/-- Rounds until one changes nothing. -/
def tellRounds (s : Services) (done : Nat) : Nat → List Command → Run → Told (Fixpoint × List Command × Run)
  | 0, cs, r => return (.capReached done, cs, r)
  | left + 1, cs, r => do
    let (cs, r, changed) ← tellRound s cs r
    if changed then tellRounds s (done + 1) left cs r
    else return (.converged (done + 1), cs, r)

/-! ### The phases after expansion -/

/-- Shows the current values of the fields of an element, then of the element. -/
def tellRefresh (d : Document) (e : Element) : Told Document := do
  let d ← (d.childElements e).foldlM (fun d e => seen id (refreshOne d e)) d
  seen id (refreshOne d e)

/-- Updates the fields that a command asks for. -/
def tellUpdateFields (policy : Policy) (c : Command) (r : Run) : Told (Command × Run) :=
  match c.kind with
  | .updateFields => do
    let document ←
      match c.range? r.document with
      | none => pure r.document
      | some range => (r.document.elementsWithin range.toSpan).foldlM tellRefresh r.document
    return { r with document }.finish c (!policy.debug)
  | _ => return (c, r)

/-- Executes a phase while views of the document wait. -/
def tellLocked (step : Command → Run → Told (Command × Run)) (cs : List Command) (r : Run) :
    Told (List Command × Run) := do
  let (cs, r) ← tellPending step cs { r with document := r.document.lock }
  return (cs, { r with document := r.document.unlock })

/-- Removes the marks around what commands inserted. -/
def tellCollectGarbage (policy : Policy) (cs : List Command) (d : Document) : Told (List Command × Document) := do
  let (cs, d, cleaners) ← silent (collect policy cs d)
  let d ← (backwards cleaners).foldlM (fun d c => seen id (applyCleaner d c)) d.lock
  return (cs, d.unlock)

/-- The phases after expansion: fields, values, marks. -/
def tellComplete (s : Services) (cs : List Command) (r : Run) : Told (List Command × Run) := do
  let (cs, r) ← tellLocked (tellUpdateFields s.policy) cs r
  let (cs, r) ← tellLocked (fun c r => seenRun (fillIn s c r)) cs r
  let (cs, document) ← tellCollectGarbage s.policy cs r.document
  let (cs, _) := Command.refresh document cs
  return (cs, { r with document })

/-- Executes the commands of a template. -/
def Model.tellTemplate (m : Model) (s : Services) : Told (Outcome Fixpoint) := do
  let wasModified := m.document.modified
  let m := m.enter
  let (fixpoint, cs, r) ← tellRounds s 0 maxRounds m.commands m.startRun
  let (commands, r) ← tellComplete s cs r
  let m := { m with
    document := r.document
    commands
    settings := settleForm r.settings
    overrides := r.overrides }
  let m := m.leave wasModified
  tell (.stood m.document)
  return {
    model := m
    messages := r.messages
    result := if r.failures = 0 then .ok fixpoint else .error (.commandsFailed r.failures) }

/-! ### The same results -/

theorem Run.result_tellPlace (r : Run) (id : Nat) : (r.tellPlace id).result = .ok (r.placeCursor id) := by
  unfold Run.tellPlace Run.placeCursor
  cases r.document.fieldRange? id <;> rfl

theorem Run.result_tellOffer (r : Run) (id : Nat) : (r.tellOffer id).result = .ok (r.offerCursor id) := by
  unfold Run.tellOffer Run.offerCursor
  rw [result_bind]
  cases r.cursorPlaced with
  | true => rfl
  | false => exact r.result_tellPlace id

theorem result_tellFill (r : Run) (id : Nat) (argument : String) :
    (tellFill r id argument).result = fillPlaceholder r id argument := by
  unfold tellFill fillPlaceholder
  split
  · exact r.result_tellOffer id
  · rw [result_bind, result_attempted]
    refine bind_congr fun a => ?_
    cases a <;> rfl

theorem result_tellFillEach (r : Run) (ids : List Nat) (arguments : List String) :
    (tellFillEach r ids arguments).result = fillEach r ids arguments := by
  induction ids generalizing r arguments with
  | nil => rfl
  | cons id ids ih =>
    cases arguments with
    | nil => rfl
    | cons argument arguments =>
      rw [tellFillEach, fillEach, result_bind, result_tellFill]
      exact bind_congr fun r => ih r arguments

theorem result_tellSettle (r : Run) (jumpMark : Option String) (ids : List Nat) :
    (tellSettle r jumpMark ids).result = .ok (settleCursor r jumpMark ids) := by
  unfold tellSettle settleCursor
  cases ids with
  | cons id ids => exact r.result_tellOffer id
  | nil => cases jumpMark.bind r.document.bookmarkRange? <;> rfl

theorem result_tellFillPlaceholders (policy : Policy) (jumpMark : Option String) (c : Command)
    (arguments : List String) (r : Run) :
    (tellFillPlaceholders policy jumpMark c arguments r).result =
      fillPlaceholders policy jumpMark c arguments r := by
  unfold tellFillPlaceholders fillPlaceholders
  rw [result_bind]
  cases c.range? r.document with
  | none => rfl
  | some range =>
    show (tellFillEach _ _ _ >>= _).result = _
    rw [result_bind, result_tellFillEach]
    refine bind_congr fun r => ?_
    rw [result_bind, result_tellSettle]
    dsimp only
    split <;> rfl

theorem Command.result_tellBetweenMarks (c : Command) (d content : Document) :
    (c.tellBetweenMarks d content).result = c.insertBetweenMarks d content := by
  unfold tellBetweenMarks insertBetweenMarks
  rw [result_bind, result_attempted]
  refine bind_congr fun a => ?_
  cases a with
  | error e => rfl
  | ok d =>
    dsimp only
    generalize ({ c with marked := true } : Command) = c'
    cases c'.range? d with
    | none => rfl
    | some range =>
      dsimp only
      cases d.shift? range.collapseToStart 1 1 with
      | none => rfl
      | some between =>
        dsimp only
        rw [result_bind, result_attempted]
        refine bind_congr fun a => ?_
        cases a <;> rfl

theorem result_tellPlaceFragment (request : FragmentRequest) (content : Document) (c : Command) (r : Run) :
    (tellPlaceFragment request content c r).result = placeFragment request content c r := by
  unfold tellPlaceFragment
  cases hstyles : request.stylesOnly with
  | true => rfl
  | false =>
    rw [placeFragment, hstyles]
    show (c.tellBetweenMarks r.document content >>= _).result = c.insertBetweenMarks r.document content >>= _
    rw [result_bind, Command.result_tellBetweenMarks]
    rfl

theorem result_seenRun (x : Except Fault (Command × Run)) : (seenRun x).result = x := rfl

theorem result_tellInsertFragment (s : Services) (jumpMark : Option String) (request : FragmentRequest)
    (c : Command) (r : Run) :
    (tellInsertFragment s jumpMark request c r).result = insertFragment s jumpMark request c r := by
  unfold tellInsertFragment insertFragment
  dsimp only
  split
  · rw [result_bind, result_seen]
    rfl
  cases loadFragment s request.id (r.overrides.get request.id) with
  | error e => rfl
  | ok content =>
    dsimp only
    rw [result_bind, result_tellPlaceFragment]
    refine bind_congr fun p => ?_
    obtain ⟨c, r, refusal⟩ := p
    cases refusal with
    | some refusal => rfl
    | none =>
      dsimp only
      split
      · rfl
      · rw [result_bind, result_tellFillPlaceholders]
        rfl

theorem result_tellPlaceContent (s : Services) (location : String) (c : Command) (r : Run) :
    (tellPlaceContent s location c r).result = placeContent s location c r := by
  unfold tellPlaceContent placeContent
  cases s.load location with
  | error e => rfl
  | ok content =>
    dsimp only
    rw [result_bind, Command.result_tellBetweenMarks]
    refine bind_congr fun p => ?_
    obtain ⟨c, d, refusal⟩ := p
    cases refusal <;> rfl

theorem result_tellInsert (s : Services) (jumpMark : Option String) (c : Command) (r : Run) :
    (tellInsert s jumpMark c r).result = executeInsert s jumpMark c r := by
  unfold tellInsert executeInsert
  cases c.kind with
  | insertFragment request => exact result_tellInsertFragment s jumpMark request c r
  | insertContent =>
    show (tellInsertContent s c r).result = insertContent s c r
    unfold tellInsertContent insertContent
    cases r.contents with
    | nil => rfl
    | cons location contents =>
      dsimp only
      rw [result_bind, result_tellPlaceContent]
      rfl
  | _ => rfl

theorem result_tellPending {σ : Type} {step : Command → σ → Told (Command × σ)}
    {step' : Command → σ → Except Fault (Command × σ)} (h : ∀ c s, (step c s).result = step' c s)
    (cs : List Command) (s : σ) : (tellPending step cs s).result = visitPending step' cs s := by
  unfold tellPending visitPending
  induction cs generalizing s with
  | nil => rfl
  | cons c cs ih =>
    have hone : (if c.isPending then step c s else pure (c, s)).result =
        if c.isPending then step' c s else .ok (c, s) := by
      split
      · exact h c s
      · rfl
    rw [tellVisit, visit, result_bind, hone]
    refine bind_congr fun p => ?_
    rw [result_bind, ih]
    rfl

theorem result_tellRound (s : Services) (cs : List Command) (r : Run) :
    (tellRound s cs r).result = expandOnce s cs r := by
  unfold tellRound expandOnce executeOverrides executeInserts
  rw [result_bind, result_tellPending fun c r => result_seenRun (executeOverride s.policy c r)]
  refine bind_congr fun p => ?_
  rw [result_bind, result_tellPending (result_tellInsert s _)]
  rfl

theorem result_tellRounds (s : Services) (done left : Nat) (cs : List Command) (r : Run) :
    (tellRounds s done left cs r).result = expandFrom s done left cs r := by
  induction left generalizing done cs r with
  | zero => rfl
  | succ left ih =>
    rw [tellRounds, expandFrom, result_bind, result_tellRound]
    refine bind_congr fun p => ?_
    obtain ⟨cs, r, changed⟩ := p
    cases changed with
    | false => rfl
    | true => exact ih (done + 1) cs r

theorem result_tellRefresh (d : Document) (e : Element) : (tellRefresh d e).result = refreshWithChildren d e := by
  unfold tellRefresh refreshWithChildren
  rw [result_bind, result_foldlM fun d e => result_seen id (refreshOne d e)]
  rfl

theorem result_tellUpdateFields (policy : Policy) (c : Command) (r : Run) :
    (tellUpdateFields policy c r).result = updateFields policy c r := by
  unfold tellUpdateFields updateFields
  cases c.kind with
  | updateFields =>
    dsimp only
    cases c.range? r.document with
    | none => rfl
    | some range =>
      dsimp only
      rw [result_bind, result_foldlM result_tellRefresh]
      rfl
  | _ => rfl

theorem result_tellLocked {step : Command → Run → Told (Command × Run)}
    {step' : Command → Run → Except Fault (Command × Run)} (h : ∀ c r, (step c r).result = step' c r)
    (cs : List Command) (r : Run) : (tellLocked step cs r).result = lockedPhase (visitPending step') cs r := by
  unfold tellLocked lockedPhase
  rw [result_bind, result_tellPending h]
  rfl

theorem result_tellCollectGarbage (policy : Policy) (cs : List Command) (d : Document) :
    (tellCollectGarbage policy cs d).result = collectGarbage policy cs d := by
  unfold tellCollectGarbage collectGarbage sweep
  rw [result_bind, result_silent]
  refine bind_congr fun ⟨cs, d, cleaners⟩ => ?_
  rw [result_bind, result_foldlM fun d c => result_seen id (applyCleaner d c)]
  dsimp only
  cases (backwards cleaners).foldlM applyCleaner d.lock <;> rfl

theorem result_tellComplete (s : Services) (cs : List Command) (r : Run) :
    (tellComplete s cs r).result = completeRun s cs r := by
  unfold tellComplete completeRun
  rw [result_bind, result_tellLocked (result_tellUpdateFields s.policy)]
  refine bind_congr fun p => ?_
  rw [result_bind, result_tellLocked fun c r => result_seenRun (fillIn s c r)]
  refine bind_congr fun p => ?_
  rw [result_bind, result_tellCollectGarbage]
  rfl

/-- A run that is told has the result of the run. -/
theorem result_tellTemplate (m : Model) (s : Services) : (m.tellTemplate s).result = m.executeTemplate s := by
  unfold Model.tellTemplate Model.executeTemplate expand
  dsimp only
  rw [result_bind, result_tellRounds]
  refine bind_congr fun p => ?_
  rw [result_bind, result_tellComplete]
  rfl

end TemplateEngine
