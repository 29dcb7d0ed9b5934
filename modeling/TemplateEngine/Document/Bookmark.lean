import TemplateEngine.Document.Edit

/-!
# Bookmarks of a document

A name that another bookmark has is made unique by the smallest positive number that helps.
-/

namespace TemplateEngine

namespace Document

/-! ### Unique names -/

/-- Whether a bookmark other than `except` has the name. -/
def isTaken (d : Document) (except : Option String) (name : String) : Bool :=
  d.bookmarks.any fun b => b.name == name && some b.name != except

/-- The names to try for a bookmark: the name itself, then with 1, 2, … behind it. -/
def candidates (d : Document) (name : String) : List String :=
  name :: (List.range d.bookmarks.length).map fun n => name ++ toString (n + 1)

/-- The first name to try that no bookmark other than `except` has.  One of them is free, as there
are more of them than bookmarks. -/
def uniqueName (d : Document) (name : String) (except : Option String) : String :=
  ((d.candidates name).find? fun c => !d.isTaken except c).getD name

/-! ### Adding, renaming and removing -/

/-- Adds a bookmark, its span unchecked, and tells its name. -/
def addBookmark (d : Document) (name : String) (s : Span) : Document × String :=
  let unique := d.uniqueName name none
  ({ d with bookmarks := d.bookmarks ++ [⟨unique, s⟩] }, unique)

/-- Adds a bookmark over a range and tells its name. -/
def insertBookmark (d : Document) (name : String) (r : TextRange) :
    Except Refusal (Document × String) := do
  d.check r
  return d.addBookmark name r.toSpan

/-- Removes a bookmark. -/
def removeBookmark (d : Document) (name : String) : Except Refusal Document :=
  if (d.bookmark? name).isSome then
    .ok { d with bookmarks := d.bookmarks.filter (·.name ≠ name) }
  else .error (.bookmarkNotFound name)

/-- The list with the first bookmark called `name` renamed. -/
def renameFirst (name new : String) : List Bookmark → List Bookmark
  | [] => []
  | b :: bs => if b.name = name then { b with name := new } :: bs else b :: renameFirst name new bs

/-- Renames a bookmark and tells its new name. -/
def renameBookmark (d : Document) (name new : String) : Except Refusal (Document × String) :=
  if (d.bookmark? name).isSome then
    let unique := d.uniqueName new (some name)
    .ok ({ d with bookmarks := renameFirst name unique d.bookmarks }, unique)
  else .error (.bookmarkNotFound name)

/-! ### Reading -/

/-- The bookmarks in document order, those of one span in storage order. -/
def sortedBookmarks (d : Document) : List Bookmark :=
  d.bookmarks.mergeSort fun a b => a.span.notAfter b.span

/-- The names of the bookmarks in document order. -/
def bookmarkNames (d : Document) : List String := d.sortedBookmarks.map (·.name)

/-- The names of the bookmarks inside a span, in storage order. -/
def bookmarksWithin (d : Document) (s : Span) : List String :=
  (d.bookmarks.filter fun b => b.span.within s).map (·.name)

/-! ### Text -/

/-- Replaces the text of a bookmark, which then covers exactly the new text. -/
def setBookmarkText (d : Document) (name : String) (t : Text) : Attempt :=
  match d.bookmark? name with
  | none => .ok (.error (.bookmarkNotFound name))
  | some b => do
    let d ← d.edit b.span t (some (.bookmark name))
    return .ok d

/-- Appends a text covered by a new bookmark and tells its name. -/
def appendBookmarked (d : Document) (name : String) (t : Text) : Except Fault (Document × String) := do
  let d' ← d.append t
  return d'.addBookmark name ⟨d.length, d'.length⟩

end Document

end TemplateEngine
