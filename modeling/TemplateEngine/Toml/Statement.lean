import TemplateEngine.Toml.Value

/-!
# Statement — the lines of a TOML document and the table they make

Lines say what belongs to which table: a pair adds a value to the table of the last header, a header
begins a table, a header in double brackets begins one more table in an array of them.  No value is
given twice, and a table that is complete is not added to.
-/

namespace TemplateEngine

namespace Toml

/-- A dotted key: a path of tables and the key in the last of them. -/
structure Key where
  parents : List String
  name : String
  deriving DecidableEq, Repr

/-- A line that says something. -/
inductive Statement where
  /-- A header, which begins a table. -/
  | table (key : Key)
  /-- A header in double brackets, which begins a table in an array of tables. -/
  | element (key : Key)
  | pair (key : Key) (value : Value)

/-! ### Adding a pair -/

/-- The entries with a pair added.  A dotted key leads through tables that no header named and the last
table of an array of them, and ends in a table that dotted keys made. -/
def addPair (name : String) (v : Value) : List String → Entries → Option Entries
  | [], es =>
    match es.get? name with
    | none => some (es ++ [(name, v)])
    | some _ => none
  | p :: ps, es =>
    match es.get? p with
    | none => (addPair name v ps []).map fun sub => es ++ [(p, .table .dotted sub)]
    | some (.table .dotted sub) =>
      (addPair name v ps sub).map fun sub => es.replace p (.table .dotted sub)
    | some (.table .implied sub) =>
      if ps.isEmpty then none
      else (addPair name v ps sub).map fun sub => es.replace p (.table .implied sub)
    | some (.tables items) =>
      match ps, items.getLast? with
      | _ :: _, some sub =>
        (addPair name v ps sub).map fun sub => es.replace p (.tables (items.dropLast ++ [sub]))
      | _, _ => none
    | some _ => none

/-- The entries of a table of pairs. -/
def ofPairs (pairs : List (Key × Value)) : Option Entries :=
  pairs.foldlM (fun es p => addPair p.1.name p.2 p.1.parents es) []

/-! ### Headers -/

/-- The entries with those of the table at the end of a path changed.  The path leads into the last
table of an array of tables; a table that is missing is made. -/
def within (f : Entries → Option Entries) : List String → Entries → Option Entries
  | [], es => f es
  | k :: ks, es =>
    match es.get? k with
    | none => (within f ks []).map fun sub => es ++ [(k, .table .implied sub)]
    | some (.table .inline _) => none
    | some (.table origin sub) =>
      (within f ks sub).map fun sub => es.replace k (.table origin sub)
    | some (.tables items) =>
      match items.getLast? with
      | none => none
      | some sub =>
        (within f ks sub).map fun sub => es.replace k (.tables (items.dropLast ++ [sub]))
    | some _ => none

/-- The entries with a table begun. -/
def beginTable (k : String) (es : Entries) : Option Entries :=
  match es.get? k with
  | none => some (es ++ [(k, .table .header [])])
  | some (.table .implied sub) => some (es.replace k (.table .header sub))
  | some _ => none

/-- The entries with one more table begun in an array of tables. -/
def beginElement (k : String) (es : Entries) : Option Entries :=
  match es.get? k with
  | none => some (es ++ [(k, .tables [[]])])
  | some (.tables items) => some (es.replace k (.tables (items ++ [[]])))
  | some _ => none

/-! ### Documents -/

/-- What the lines so far say, and the path of the table the next pair belongs to. -/
structure Assembly where
  root : Entries
  path : List String

namespace Assembly

/-- The assembly before the first line. -/
def start : Assembly := ⟨[], []⟩

/-- The assembly after one more line. -/
def add (a : Assembly) : Statement → Option Assembly
  | .table k =>
    (within (beginTable k.name) k.parents a.root).map fun root => ⟨root, k.parents ++ [k.name]⟩
  | .element k =>
    (within (beginElement k.name) k.parents a.root).map fun root => ⟨root, k.parents ++ [k.name]⟩
  | .pair k v =>
    (within (addPair k.name v k.parents) a.path a.root).map fun root => { a with root }

end Assembly

/-- The table that the lines of a document make. -/
def assemble (ss : List Statement) : Option Entries :=
  (ss.foldlM Assembly.add .start).map Assembly.root

end Toml

end TemplateEngine
