import TemplateEngine.Process.Run

/-!
# Cleanup — removing the marks around inserted content

All marks are found first; then the deletions are made from the end of the text backwards, so that
none moves the stretch of another.  A mark alone in its paragraph goes with the whole paragraph.
-/

namespace TemplateEngine

/-- A deletion to make. -/
inductive Cleaner where
  /-- Delete the text of the range but keep the bookmarks inside. -/
  | range (r : TextRange)
  /-- Delete the paragraph around the range. -/
  | paragraph (r : TextRange)
  deriving DecidableEq, Repr

/-- The range a cleaner is for. -/
def Cleaner.target : Cleaner → TextRange
  | .range r | .paragraph r => r

/-! ### Finding the marks -/

/-- Whether both hold, the second being asked only if the first holds. -/
def bothHold (a b : Except Fault Bool) : Except Fault Bool := do
  if ← a then b else return false

/-- The cleaner for the mark at the start of a range. -/
def openingCleaner (d : Document) (r : TextRange) : Except Fault (List Cleaner) :=
  let before := r.collapseToStart
  match d.shift? before 1 1 with
  | none => .ok []
  | some after => do
    if ← bothHold (d.isStartOfParagraph before) (d.isEndOfParagraph after) then
      return [.paragraph after]
    else return ((d.shift? before 0 1).map Cleaner.range).toList

/-- The cleaner for the mark at the stop of a range.  A last paragraph of the text is kept, and so is
any when `removable` does not hold. -/
def closingCleaner (d : Document) (r : TextRange) (removable : Bool) :
    Except Fault (List Cleaner) :=
  let after := r.collapseToStop
  match d.shift? after (-1) (-1) with
  | none => .ok []
  | some before => do
    let alone ←
      if removable then bothHold (d.isStartOfParagraph before) (d.isEndOfParagraph after)
      else pure false
    if alone && !d.isEndOfDocument after then return [.paragraph after]
    else return ((d.shift? after (-1) 0).map Cleaner.range).toList

/-- The cleaners for the marks around a range. -/
def markCleaners (d : Document) (r : TextRange) (removable : Bool) : Except Fault (List Cleaner) := do
  let opening ← openingCleaner d r
  let closing ← closingCleaner d r removable
  return opening ++ closing

/-- Whether the paragraph of the closing mark may go; `none` for commands that insert nothing. -/
def closingRemovable? : CommandKind → Option Bool
  | .insertFragment request => some (!request.manual)
  | .insertContent => some true
  | _ => none

/-- Notes the cleaners for a command's marks and marks the command done. -/
def collectFrom (policy : Policy) (c : Command) (s : Document × List Cleaner) :
    Except Fault (Command × Document × List Cleaner) :=
  match closingRemovable? c.kind with
  | none => .ok (c, s)
  | some removable => do
    let found ←
      match c.marked, c.range? s.1 with
      | true, some range => markCleaners s.1 range removable
      | _, _ => pure []
    let (c, d) := c.unmark.markDone s.1 (!policy.debug)
    return (c, d, s.2 ++ found)

/-- The cleaners for all marks; the commands that inserted are done. -/
def collect (policy : Policy) (cs : List Command) (d : Document) :
    Except Fault (List Command × Document × List Cleaner) :=
  visit (collectFrom policy) cs (d, [])

/-! ### Deleting -/

/-- The name of the bookmark that holds a stretch while it is deleted. -/
def killerName : String := "killer"

/-- Puts a bookmark back that was lost. -/
def restoreBookmark (place : TextRange) (d : Document) (name : String) : Document :=
  if (d.bookmark? name).isSome then d
  else
    match d.insertBookmark name place with
    | .ok (d, _) => d
    | .error _ => d

/-- Deletes the text of a range; bookmarks inside it that are lost are put back, empty, in its
place. -/
def clearRange (d : Document) (r : TextRange) : Attempt :=
  match d.insertBookmark killerName r with
  | .error e => .ok (.error e)
  | .ok (d, killer) => do
    let inside := (d.bookmarksWithin r.toSpan).filter (· ≠ killer)
    match ← d.setBookmarkText killer [] with
    | .error e => return .error e
    | .ok d =>
      match d.removeBookmark killer with
      | .error e => return .error e
      | .ok cleared =>
        match d.bookmarkRange? killer with
        | none => return .ok cleared
        | some place => return .ok (inside.foldl (restoreBookmark place) cleared)

/-- Makes one deletion, where the document allows it. -/
def applyCleaner (d : Document) (c : Cleaner) : Except Fault Document := do
  let attempt ←
    match c with
    | .range r => clearRange d r
    | .paragraph r => d.deleteParagraph r
  match attempt with
  | .ok d => return d
  | .error _ => return d

/-- Cleaners by their starts, the last one first. -/
def backwards (cs : List Cleaner) : List Cleaner :=
  cs.mergeSort fun a b => decide (b.target.start ≤ a.target.start)

/-- Makes all deletions from the end of the text backwards. -/
def sweep (d : Document) (cs : List Cleaner) : Except Fault Document := do
  let d ← (backwards cs).foldlM applyCleaner d.lock
  return d.unlock

/-- Removes the marks around what commands inserted. -/
def collectGarbage (policy : Policy) (cs : List Command) (d : Document) :
    Except Fault (List Command × Document) := do
  let (cs, d, cleaners) ← collect policy cs d
  let d ← sweep d cleaners
  return (cs, d)

end TemplateEngine
