import TemplateEngine.Command.Basic
import TemplateEngine.Span.Relation

/-!
# Tree — the commands of a document in order

The commands of a document are listed in document order, a command before those inside it.  The list
is kept up with the document by `refresh`, which keeps what is known about the commands that are
still there.
-/

namespace TemplateEngine

namespace Command

/-- Whether a command at `range` comes before another command. -/
def comesBefore (d : Document) (range : Option TextRange) (other : Command) : Bool :=
  (TextRange.relation? range (other.range? d)).precedes

/-- The commands with `c` put before the first one it comes before. -/
def insertInOrder (d : Document) (c : Command) (cs : List Command) : List Command :=
  let earlier := cs.takeWhile fun other => !comesBefore d (c.range? d) other
  earlier ++ c :: cs.drop earlier.length

/-- The commands of the bookmarks of a list, put in order among other commands. -/
def discover (d : Document) (names : List String) (cs : List Command) : List Command :=
  (names.filterMap ofBookmark?).foldl (fun cs c => insertInOrder d c cs) cs

/-- The commands whose bookmarks are still there. -/
def surviving (d : Document) (cs : List Command) : List Command :=
  cs.filter fun c => (d.bookmark? c.bookmark).isSome

/-- The names of the bookmarks that no command of a list has. -/
def unknownNames (d : Document) (cs : List Command) : List String :=
  d.bookmarkNames.filter fun name => !cs.any fun c => c.bookmark == name

/-- The commands of a document after it changed, and whether there is a difference. -/
def refresh (d : Document) (cs : List Command) : List Command × Bool :=
  let kept := surviving d cs
  let names := unknownNames d kept
  (discover d names kept,
    kept.length != cs.length || !(names.filterMap ofBookmark?).isEmpty)

/-- The commands of a document. -/
def ofDocument (d : Document) : List Command := (refresh d []).1

/-- The bookmark of the first jump mark. -/
def firstJumpMark? (cs : List Command) : Option String :=
  (cs.find? fun c => c.kind == .setJumpMark).map (·.bookmark)

end Command

end TemplateEngine
