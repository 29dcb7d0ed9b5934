import Mathlib.Control.Basic
import Mathlib.Data.Option.Basic
import TemplateEngine.DocumentFile.Reading
import TemplateEngine.DocumentFile.Writing
import TemplateEngine.Proofs.WrittenLines

/-!
# Stored — a document file is read as it was written

The lines of a file make a table whose entries are known one for one: first what the pairs before the first
header say, then a list of tables for each kind of item, and last the three tables by name
(`assemble_lines`).  Each entry is read as what it was written for, so the file comes back (`parse_write`).
-/

namespace TemplateEngine

/-! ### Dictionaries and sets from their entries -/

namespace Dictionary

variable {α : Type}

theorem insertSorted_of_last {k : String} {v : α} {es : List (String × α)} (h : ∀ e ∈ es, e.1 < k) :
    insertSorted k v es = es ++ [(k, v)] := by
  induction es with
  | nil => rfl
  | cons e es ih =>
    have he : e.1 < k := h e (by simp)
    have hne : k ≠ e.1 := fun heq => String.lt_irrefl k (by rwa [← heq] at he)
    rw [insertSorted, if_neg (String.lt_asymm he), if_neg hne, ih fun e' he' => h e' (by simp [he'])]
    rfl

theorem ofList_entries (d : Dictionary α) : ofList d.entries = d := by
  have hfold : ∀ (es : List (String × α)) (d : Dictionary α),
      (d.entries ++ es).Pairwise (·.1 < ·.1) →
        (es.foldl (fun d e => d.insert e.1 e.2) d).entries = d.entries ++ es := by
    intro es
    induction es with
    | nil => simp
    | cons e es ih =>
      intro d h
      have hlast : ∀ e' ∈ d.entries, e'.1 < e.1 := fun e' he' =>
        (List.pairwise_append.1 h).2.2 e' he' e (by simp)
      have hinsert : (d.insert e.1 e.2).entries = d.entries ++ [e] := insertSorted_of_last hlast
      rw [List.foldl_cons, ih _ (by rw [hinsert]; simpa using h), hinsert]
      simp
  have hentries := hfold d.entries empty (by simpa using d.increasing)
  obtain ⟨es, hes⟩ := d
  rw [ofList]
  generalize List.foldl _ _ _ = d' at hentries
  cases d'
  simpa using hentries

/-- The names of a dictionary are different. -/
theorem nodup_names (d : Dictionary α) : (d.entries.map (·.1)).Nodup :=
  List.pairwise_map.2 (d.increasing.imp fun h => fun heq => String.lt_irrefl _ (heq ▸ h))

end Dictionary

namespace Toml

/-! ### Pairs in a table -/

/-- Pairs, each on its line. -/
def pairLines (ps : List (String × Datum)) : List Line := ps.map fun p => .pair p.1 p.2

/-- The entries that pairs make. -/
def entriesOf (ps : List (String × Datum)) : Entries := ps.map fun p => (p.1, p.2.value)

@[simp] theorem entriesOf_nil : entriesOf [] = [] := rfl

@[simp] theorem entriesOf_cons (p : String × Datum) (ps : List (String × Datum)) :
    entriesOf (p :: ps) = (p.1, p.2.value) :: entriesOf ps := rfl

@[simp] theorem entriesOf_append (ps qs : List (String × Datum)) :
    entriesOf (ps ++ qs) = entriesOf ps ++ entriesOf qs := List.map_append

namespace Entries

variable {es : Entries} {k : String} {v w : Value}

theorem get?_eq_none_iff : es.get? k = none ↔ k ∉ es.map (·.1) := by
  simp only [get?, Option.map_eq_none_iff, List.find?_eq_none, List.mem_map, not_exists, not_and,
    decide_eq_true_eq]

theorem replace_of_get?_eq_none (h : es.get? k = none) : es.replace k w = es := by
  refine (List.map_congr_left fun e he => ?_).trans (List.map_id es)
  have hne : e.1 ≠ k := fun heq => get?_eq_none_iff.1 h (heq ▸ List.mem_map_of_mem he)
  simp [hne]

theorem get?_last (h : es.get? k = none) : (es ++ [(k, v)]).get? k = some v := by
  simp [get?_append, get?_cons, h]

theorem replace_last (h : es.get? k = none) : (es ++ [(k, v)]).replace k w = es ++ [(k, w)] := by
  have hrest := replace_of_get?_eq_none (w := w) h
  simp only [replace] at hrest ⊢
  rw [List.map_append, hrest]
  simp

end Entries

/-- A path that leads to a table among others: `put` puts a table in its place. -/
def Leads (path : List String) (put : Entries → Entries) : Prop :=
  ∀ f sub, within f path (put sub) = (f sub).map put

theorem leads_root : Leads [] id := fun f sub => by simp [within]

section Leads

variable {es : Entries} {k : String} (h : es.get? k = none)
include h

theorem leads_table : Leads [k] fun sub => es ++ [(k, .table .header sub)] := fun f sub => by
  simp only [within, Entries.get?_last h]
  exact Option.map_congr fun sub' _ => Entries.replace_last h

theorem leads_tables (items : List Entries) :
    Leads [k] fun sub => es ++ [(k, .tables (items ++ [sub]))] := fun f sub => by
  simp only [within, Entries.get?_last h, List.getLast?_concat, List.dropLast_concat]
  exact Option.map_congr fun sub' _ => Entries.replace_last h

end Leads

/-- What pairs add to the table that the path leads to. -/
theorem foldlM_pairs {path : List String} {put : Entries → Entries} (hput : Leads path put)
    {ps : List (String × Datum)} (hnew : (ps.map (·.1)).Nodup) {sub : Entries}
    (habsent : ∀ p ∈ ps, sub.get? p.1 = none) :
    ((pairLines ps).map Line.statement).foldlM Assembly.add ⟨put sub, path⟩ =
      some ⟨put (sub ++ entriesOf ps), path⟩ := by
  induction ps generalizing sub with
  | nil => simp [pairLines, entriesOf]
  | cons p ps ih =>
    rw [List.map_cons, List.nodup_cons] at hnew
    have hadd : Assembly.add ⟨put sub, path⟩ (Line.pair p.1 p.2).statement =
        some ⟨put (sub ++ [(p.1, p.2.value)]), path⟩ := by
      simp [Line.statement, Assembly.add, hput _ sub, addPair, habsent p (by simp)]
    have hstill : ∀ q ∈ ps, (sub ++ [(p.1, p.2.value)]).get? q.1 = none := fun q hq => by
      have hne : p.1 ≠ q.1 := fun heq => hnew.1 (heq ▸ List.mem_map_of_mem hq)
      simp [Entries.get?_append, Entries.get?_cons, habsent q (by simp [hq]), hne]
    have hrest := ih hnew.2 hstill
    simp only [pairLines, List.map_cons, List.foldlM_cons, hadd, Option.bind_eq_bind, Option.bind_some]
      at hrest ⊢
    rw [hrest]
    simp [entriesOf]

/-! ### Headers -/

/-- Whether lines that start with a header, wherever they stand, make one table of another. -/
def Makes (ls : List Line) (es es' : Entries) : Prop :=
  ∀ path, ∃ path', (ls.map Line.statement).foldlM Assembly.add ⟨es, path⟩ = some ⟨es', path'⟩

theorem Makes.nil (es : Entries) : Makes [] es es := fun path => ⟨path, rfl⟩

theorem Makes.append {ls ls' : List Line} {es es' es'' : Entries} (h : Makes ls es es')
    (h' : Makes ls' es' es'') : Makes (ls ++ ls') es es'' := fun path => by
  obtain ⟨path', hpath'⟩ := h path
  obtain ⟨path'', hpath''⟩ := h' path'
  refine ⟨path'', ?_⟩
  rw [List.map_append, List.foldlM_append, hpath']
  exact hpath''

section Headers

variable {es : Entries} {k : String}

/-- A table under its header. -/
theorem makes_table (h : es.get? k = none) {ps : List (String × Datum)} (hnew : (ps.map (·.1)).Nodup) :
    Makes (.table k :: pairLines ps) es (es ++ [(k, .table .header (entriesOf ps))]) := fun path => by
  have hbegin : Assembly.add ⟨es, path⟩ (Line.table k).statement =
      some ⟨es ++ [(k, .table .header [])], [k]⟩ := by
    simp [Line.statement, Assembly.add, within, beginTable, h]
  have hpairs := @foldlM_pairs _ _ (leads_table h) ps hnew [] (by simp)
  refine ⟨[k], ?_⟩
  rw [List.map_cons, List.foldlM_cons, hbegin]
  exact hpairs

/-- One more table in an array of tables. -/
theorem makes_element (h : es.get? k = none) (items : List Entries) {ps : List (String × Datum)}
    (hnew : (ps.map (·.1)).Nodup) :
    Makes (.element k :: pairLines ps) (if items.isEmpty then es else es ++ [(k, .tables items)])
      (es ++ [(k, .tables (items ++ [entriesOf ps]))]) := fun path => by
  have hbegin : Assembly.add ⟨if items.isEmpty then es else es ++ [(k, .tables items)], path⟩
      (Line.element k).statement = some ⟨es ++ [(k, .tables (items ++ [[]]))], [k]⟩ := by
    cases items with
    | nil => simp [Line.statement, Assembly.add, within, beginElement, h]
    | cons sub items =>
      simp [Line.statement, Assembly.add, within, beginElement, Entries.get?_last h, Entries.replace_last h]
  have hpairs := @foldlM_pairs _ _ (leads_tables h items) ps hnew [] (by simp)
  refine ⟨[k], ?_⟩
  rw [List.map_cons, List.foldlM_cons, hbegin]
  exact hpairs

/-- The entry for an array of tables, if there are any. -/
def elementsOf (k : String) (items : List Entries) : Entries :=
  if items.isEmpty then [] else [(k, .tables items)]

theorem get?_elementsOf (k : String) (items : List Entries) (x : String) :
    (elementsOf k items).get? x =
      if items.isEmpty then none else if k = x then some (.tables items) else none := by
  cases items <;> simp [elementsOf, Entries.get?_cons]

theorem makes_elements {α : Type} {xs : List α} (h : xs.isEmpty = false → es.get? k = none)
    (parts : α → List (String × Datum)) (hnew : ∀ a, ((parts a).map (·.1)).Nodup) :
    Makes (DocumentFile.elements k (fun a => pairLines (parts a)) xs) es
      (es ++ elementsOf k (xs.map fun a => entriesOf (parts a))) := by
  -- with the tables that were begun before
  have hfrom : ∀ (habsent : es.get? k = none) (xs : List α) (items : List Entries),
      Makes (DocumentFile.elements k (fun a => pairLines (parts a)) xs) (es ++ elementsOf k items)
        (es ++ elementsOf k (items ++ xs.map fun a => entriesOf (parts a))) := by
    intro habsent xs
    induction xs with
    | nil => simpa [DocumentFile.elements] using fun items => Makes.nil _
    | cons x xs ih =>
      intro items
      have hfirst := makes_element habsent items (hnew x)
      have hrest := ih (items ++ [entriesOf (parts x)])
      have hstart : es ++ elementsOf k items = if items.isEmpty then es else es ++ [(k, .tables items)] := by
        cases items <;> simp [elementsOf]
      have hmiddle : es ++ elementsOf k (items ++ [entriesOf (parts x)]) =
          es ++ [(k, .tables (items ++ [entriesOf (parts x)]))] := by
        simp [elementsOf]
      rw [hmiddle, List.append_assoc] at hrest
      rw [hstart, List.map_cons]
      exact hfirst.append hrest
  cases xs with
  | nil => simpa [DocumentFile.elements, elementsOf] using Makes.nil es
  | cons x xs => simpa [elementsOf] using hfrom (h rfl) (x :: xs) []

end Headers

end Toml

namespace DocumentFile

open Toml

/-! ### The table of a file -/

/-- The two ends of a span. -/
def spanPairs (s : Span) : List (String × Datum) := [("start", .natural s.start), ("end", .natural s.stop)]

/-- What a field shows. -/
def kindPairs : FieldKind → List (String × Datum)
  | .placeholder hint => [("kind", .string "placeholder"), ("hint", .string hint)]
  | .computed source => [("kind", .string "computed"), ("variable", .string source)]

/-- The parts of a bookmark, of a field and of an annotation. -/
def bookmarkPairs (b : Bookmark) : List (String × Datum) := ("name", .string b.name) :: spanPairs b.span

def fieldPairs (f : FieldEntry) : List (String × Datum) := kindPairs f.kind ++ spanPairs f.span

def annotationPairs (a : Annotation) : List (String × Datum) := ("text", .string a.text) :: spanPairs a.span

theorem fieldLines_eq (f : FieldEntry) : fieldLines f = pairLines (fieldPairs f) := by
  obtain ⟨kind, s⟩ := f
  cases kind <;> rfl

/-- What stands before the first header. -/
def rootPairs (f : DocumentFile) : List (String × Datum) :=
  ("text", .string f.text) :: (f.location.toList.map fun l => ("location", .string l)) ++
    (if f.bookmarks.isEmpty then [("bookmarks", .strings [])] else []) ++
    (if f.fields.isEmpty then [("fields", .strings [])] else []) ++
    (if f.annotations.isEmpty then [("annotations", .strings [])] else [])

/-- What stands in a table. -/
def tablePairs {α : Type} (datum : α → Datum) (d : Dictionary α) : List (String × Datum) :=
  d.entries.map fun e => (e.1, datum e.2)

theorem tableLines_eq {α : Type} (name : String) (datum : α → Datum) (d : Dictionary α) :
    tableLines name datum d = .table name :: pairLines (tablePairs datum d) := by
  simp [pairLines, tablePairs, tableLines]

/-- The entries that the lines of a file make. -/
def entries (f : DocumentFile) : Entries :=
  entriesOf (rootPairs f) ++
    elementsOf "bookmarks" (f.bookmarks.map fun b => entriesOf (bookmarkPairs b)) ++
    elementsOf "fields" (f.fields.map fun x => entriesOf (fieldPairs x)) ++
    elementsOf "annotations" (f.annotations.map fun a => entriesOf (annotationPairs a)) ++
    [("styles", .table .header (entriesOf (tablePairs (fun names => .strings names.names) f.styles)))] ++
    [("variables", .table .header (entriesOf (tablePairs .string f.values)))] ++
    [("metadata", .table .header (entriesOf (tablePairs .string f.metadata)))]

theorem pairLines_rootPairs (f : DocumentFile) :
    pairLines (rootPairs f) =
      .pair "text" (.string f.text) :: (f.location.toList.map fun l => .pair "location" (.string l)) ++
        emptyList "bookmarks" f.bookmarks ++ emptyList "fields" f.fields ++
        emptyList "annotations" f.annotations := by
  have hempty : ∀ {α : Type} (name : String) (items : List α),
      pairLines (if items.isEmpty then [(name, .strings [])] else []) = emptyList name items :=
    fun name items => by cases items <;> rfl
  simp only [rootPairs, ← hempty, pairLines, List.map_append, List.map_cons, List.map_map]
  rfl

/-- What stands under a header. -/
def headedLines (f : DocumentFile) : List Line :=
  elements "bookmarks" (fun b => pairLines (bookmarkPairs b)) f.bookmarks ++
    elements "fields" (fun x => pairLines (fieldPairs x)) f.fields ++
    elements "annotations" (fun a => pairLines (annotationPairs a)) f.annotations ++
    (.table "styles" :: pairLines (tablePairs (fun names => .strings names.names) f.styles)) ++
    (.table "variables" :: pairLines (tablePairs .string f.values)) ++
    (.table "metadata" :: pairLines (tablePairs .string f.metadata))

theorem lines_eq (f : DocumentFile) : f.lines = pairLines (rootPairs f) ++ headedLines f := by
  rw [pairLines_rootPairs, headedLines, ← funext fieldLines_eq, ← tableLines_eq, ← tableLines_eq,
    ← tableLines_eq]
  simp only [lines, List.append_assoc]
  rfl

/-- The keys before the first header: the text, the location and the lists without items. -/
theorem get?_rootPairs (f : DocumentFile) (k : String) :
    (entriesOf (rootPairs f)).get? k =
      if k = "text" then some (.string f.text)
      else if k = "location" then f.location.map .string
      else if k = "bookmarks" then if f.bookmarks.isEmpty then some (.array []) else none
      else if k = "fields" then if f.fields.isEmpty then some (.array []) else none
      else if k = "annotations" then if f.annotations.isEmpty then some (.array []) else none
      else none := by
  have hempty : ∀ {α : Type} (name : String) (items : List α),
      (entriesOf (if items.isEmpty then [(name, .strings [])] else [])).get? k =
        if k = name then if items.isEmpty then some (.array []) else none else none := fun name items => by
    cases items <;> simp [Datum.value, Entries.get?_cons, eq_comm]
  have hlocation : (entriesOf (f.location.toList.map fun l => ("location", .string l))).get? k =
      if k = "location" then f.location.map .string else none := by
    cases f.location <;> simp [Datum.value, Entries.get?_cons, eq_comm]
  simp only [rootPairs, entriesOf_append, entriesOf_cons, List.cons_append, Entries.get?_append,
    Entries.get?_cons, hempty, hlocation, Datum.value]
  by_cases h1 : k = "text"
  · simp [h1]
  by_cases h2 : k = "location"
  · simp [h2]
  by_cases h3 : k = "bookmarks"
  · simp [h3]
  by_cases h4 : k = "fields"
  · simp [h4]
  simp [h1, h2, h3, h4, Ne.symm h1]

theorem nodup_rootPairs (f : DocumentFile) : ((rootPairs f).map (·.1)).Nodup := by
  rw [rootPairs]
  cases f.location <;> cases f.bookmarks <;> cases f.fields <;> cases f.annotations <;> simp

theorem nodup_tablePairs {α : Type} (datum : α → Datum) (d : Dictionary α) :
    ((tablePairs datum d).map (·.1)).Nodup := by
  simpa [tablePairs, Function.comp_def] using d.nodup_names

theorem makes_headedLines (f : DocumentFile) : Makes (headedLines f) (entriesOf (rootPairs f)) f.entries := by
  refine .append (.append (.append (.append (.append (makes_elements ?bookmarks bookmarkPairs ?_)
    (makes_elements ?fields fieldPairs ?_)) (makes_elements ?annotations annotationPairs ?_))
    (makes_table ?styles (nodup_tablePairs _ _))) (makes_table ?values (nodup_tablePairs _ _)))
    (makes_table ?metadata (nodup_tablePairs _ _))
  case bookmarks | fields | annotations =>
    intro h
    simp [Entries.get?_append, get?_elementsOf, get?_rootPairs, h]
  case styles | values | metadata =>
    simp [Entries.get?_append, Entries.get?_cons, get?_elementsOf, get?_rootPairs]
  · simp [bookmarkPairs, spanPairs]
  · rintro ⟨kind, s⟩
    cases kind <;> simp [fieldPairs, kindPairs, spanPairs]
  · simp [annotationPairs, spanPairs]

theorem assemble_lines (f : DocumentFile) :
    Toml.assemble (f.lines.map Line.statement) = some f.entries := by
  have hroot : ((pairLines (rootPairs f)).map Line.statement).foldlM Assembly.add .start =
      some ⟨entriesOf (rootPairs f), []⟩ :=
    foldlM_pairs leads_root (nodup_rootPairs f) (by simp)
  obtain ⟨path, hheaded⟩ := makes_headedLines f []
  rw [Toml.assemble, lines_eq, List.map_append, List.foldlM_append, hroot]
  simp only [Option.bind_eq_bind, Option.bind_some, hheaded]
  rfl

/-! ### Entries as what they were written for -/

/-- The value of a list of items: an array without items, or tables. -/
def listValue (items : List Entries) : Value := if items.isEmpty then .array [] else .tables items

theorem get?_entries (f : DocumentFile) (k : String) :
    f.entries.get? k =
      if k = "text" then some (.string f.text)
      else if k = "location" then f.location.map .string
      else if k = "bookmarks" then some (listValue (f.bookmarks.map fun b => entriesOf (bookmarkPairs b)))
      else if k = "fields" then some (listValue (f.fields.map fun x => entriesOf (fieldPairs x)))
      else if k = "annotations" then some (listValue (f.annotations.map fun a => entriesOf (annotationPairs a)))
      else if k = "styles" then
        some (.table .header (entriesOf (tablePairs (fun names => .strings names.names) f.styles)))
      else if k = "variables" then some (.table .header (entriesOf (tablePairs .string f.values)))
      else if k = "metadata" then some (.table .header (entriesOf (tablePairs .string f.metadata)))
      else none := by
  simp only [entries, Entries.get?_append, Entries.get?_cons, Entries.get?_nil, get?_elementsOf, get?_rootPairs,
    List.isEmpty_map, listValue]
  by_cases h1 : k = "text"
  · simp [h1]
  by_cases h2 : k = "location"
  · simp [h2]
  by_cases h3 : k = "bookmarks"
  · cases f.bookmarks <;> simp [h3]
  by_cases h4 : k = "fields"
  · cases f.fields <;> simp [h4]
  by_cases h5 : k = "annotations"
  · cases f.annotations <;> simp [h5]
  by_cases h6 : k = "styles"
  · simp [h6]
  by_cases h7 : k = "variables"
  · simp [h7]
  by_cases h8 : k = "metadata"
  · simp [h8]
  simp [h1, h2, h3, h4, h5, h6, h7, h8, Ne.symm h3, Ne.symm h4, Ne.symm h5, Ne.symm h6, Ne.symm h7, Ne.symm h8]

/-- All keys mean something. -/
theorem heldBeyond_entries (f : DocumentFile) : f.entries.heldBeyond keys = true := by
  rw [Entries.heldBeyond, List.all_eq_true]
  intro e he
  have hget : f.entries.get? e.1 ≠ none := fun h => Entries.get?_eq_none_iff.1 h (List.mem_map_of_mem he)
  have hkey : e.1 ∈ keys := by
    rw [get?_entries] at hget
    simp only [keys, List.mem_cons, List.not_mem_nil, or_false]
    by_contra hnone
    simp only [not_or] at hnone
    obtain ⟨h1, h2, h3, h4, h5, h6, h7, h8⟩ := hnone
    exact hget (by simp only [h1, h2, h3, h4, h5, h6, h7, h8, if_false])
  simpa using .inl hkey

/-- Whether the ends of a span fit into 64 bits with a sign. -/
def FitsSigned (s : Span) : Prop := s.start ≤ 9223372036854775807 ∧ s.stop ≤ 9223372036854775807

instance (s : Span) : Decidable (FitsSigned s) := inferInstanceAs (Decidable (_ ∧ _))

theorem natural?_of_le {n : Nat} (h : n ≤ 9223372036854775807) : (Value.integer n).natural? = some n :=
  if_pos (by omega)

theorem listOf_listValue {α : Type} (parts : α → Entries) (read : Value → Option α) {xs : List α}
    (h : ∀ a ∈ xs, read (.table .header (parts a)) = some a) :
    listOf read (listValue (xs.map parts)) = some xs := by
  have hitems : (listValue (xs.map parts)).items? = some (xs.map fun a => .table .header (parts a)) := by
    cases xs <;> simp [listValue, Value.items?]
  have hread : ∀ xs : List α, (∀ a ∈ xs, read (.table .header (parts a)) = some a) →
      (xs.map fun a => Value.table .header (parts a)).mapM read = some xs := by
    intro xs
    induction xs with
    | nil => exact fun _ => rfl
    | cons a xs ih =>
      intro h
      rw [List.map_cons, List.mapM_cons, h a (by simp), ih fun b hb => h b (by simp [hb])]
      rfl
  rw [listOf, hitems]
  exact hread xs h

theorem labelled?_table {label t : String} (hlabel : label ∉ ["start", "end"]) {s : Span}
    (hs : FitsSigned s) :
    labelled? label (.table .header (entriesOf ((label, .string t) :: spanPairs s))) = some (t, s) := by
  simp only [List.mem_cons, List.not_mem_nil, or_false, not_or] at hlabel
  have hheld : Entries.heldBeyond [label, "start", "end"]
      (entriesOf ((label, .string t) :: spanPairs s)) = true := by
    simp [Entries.heldBeyond, spanPairs]
  simp only [labelled?, Value.entries?, hheld, key?]
  simp [spanPairs, Entries.get?_cons, hlabel, Datum.value, Value.string?, natural?_of_le hs.1,
    natural?_of_le hs.2]

theorem bookmark?_table {b : Bookmark} (h : FitsSigned b.span) :
    bookmark? (.table .header (entriesOf (bookmarkPairs b))) = some b := by
  rw [bookmark?, bookmarkPairs, labelled?_table (by decide) h]
  rfl

theorem annotation?_table {a : Annotation} (h : FitsSigned a.span) :
    annotation? (.table .header (entriesOf (annotationPairs a))) = some a := by
  rw [annotation?, annotationPairs, labelled?_table (by decide) h]
  rfl

theorem fieldKind?_entriesOf (x : FieldEntry) : fieldKind? (entriesOf (fieldPairs x)) = some x.kind := by
  obtain ⟨kind, s⟩ := x
  cases kind <;> simp [fieldKind?, fieldPairs, kindPairs, key?, Entries.get?_cons, Datum.value, Value.string?]

/-- Everything that fits can be held. -/
theorem every_isHeldInWord {x : Datum} (hx : x.Fits) : x.value.every Value.isHeldInWord = true := by
  cases x with
  | string s => rfl
  | natural n =>
    have hn : n ≤ 9223372036854775807 := hx
    simp only [Datum.value, Value.every, Value.isHeldInWord, Bool.and_eq_true, decide_eq_true_eq]
    omega
  | strings ss =>
    simp only [Datum.value, Value.every]
    induction ss with
    | nil => rfl
    | cons s ss ih => exact ih trivial

theorem fits_fieldPairs {x : FieldEntry} (h : FitsSigned x.span) : ∀ p ∈ fieldPairs x, p.2.Fits := by
  obtain ⟨kind, s⟩ := x
  cases kind <;> simpa [fieldPairs, kindPairs, spanPairs, Datum.Fits, FitsSigned] using h

theorem field?_table {x : FieldEntry} (h : FitsSigned x.span) :
    field? (.table .header (entriesOf (fieldPairs x))) = some x := by
  have hheld : (entriesOf (fieldPairs x)).all (fun e => e.2.every Value.isHeldInWord) = true := by
    simpa [entriesOf] using fun k v hmem => every_isHeldInWord (fits_fieldPairs h (k, v) hmem)
  have hkinds : ∀ k ∈ ["start", "end"], (entriesOf (kindPairs x.kind)).get? k = none := by
    cases x.kind <;> simp [kindPairs, Entries.get?_cons]
  have hspan : ∀ k ∈ ["start", "end"], (entriesOf (fieldPairs x)).get? k = (entriesOf (spanPairs x.span)).get? k :=
    fun k hk => by rw [fieldPairs, entriesOf_append, Entries.get?_append, hkinds k hk, Option.none_or]
  simp only [field?, Value.entries?, Option.bind_eq_bind, Option.bind_some, hheld, fieldKind?_entriesOf, key?,
    hspan "start" (by simp), hspan "end" (by simp)]
  simp [spanPairs, Entries.get?_cons, Datum.value, natural?_of_le h.1, natural?_of_le h.2]

theorem dictionaryOf_table {α : Type} (datum : α → Datum) (read : Value → Option α)
    (h : ∀ a, read (datum a).value = some a) (d : Dictionary α) :
    dictionaryOf read (.table .header (entriesOf (tablePairs datum d))) = some d := by
  have hread : ∀ es : List (String × α), (entriesOf (es.map fun e => (e.1, datum e.2))).mapM
      (fun e => (read e.2).map fun a => (e.1, a)) = some es := by
    intro es
    induction es with
    | nil => rfl
    | cons e es ih =>
      rw [List.map_cons, entriesOf_cons, List.mapM_cons, ih, h]
      rfl
  simp [dictionaryOf, Value.entries?, tablePairs, hread, d.ofList_entries]

theorem names?_strings (s : NameSet) : names? (Datum.strings s.names).value = some s := by
  have hread : ∀ ss : List String, (ss.map Value.string).mapM Value.string? = some ss := by
    intro ss
    induction ss with
    | nil => rfl
    | cons s ss ih =>
      rw [List.map_cons, List.mapM_cons, ih]
      rfl
  simp [names?, Datum.value, Value.strings?, Value.items?, hread, s.ofList_names]

/-- Whether all offsets in a file fit into 64 bits with a sign. -/
structure OffsetsFit (f : DocumentFile) : Prop where
  bookmarks : ∀ b ∈ f.bookmarks, FitsSigned b.span
  fields : ∀ x ∈ f.fields, FitsSigned x.span
  annotations : ∀ a ∈ f.annotations, FitsSigned a.span

theorem ofEntries_entries {f : DocumentFile} (h : f.OffsetsFit) : ofEntries f.entries = some f := by
  have htext : keyOr f.entries "text" "" Value.string? = some f.text := by
    rw [keyOr, get?_entries]
    rfl
  have hlocation : keyOr f.entries "location" none (fun v => v.string?.map some) = some f.location := by
    rw [keyOr, get?_entries]
    cases f.location <;> rfl
  have hbookmarks : keyOr f.entries "bookmarks" [] (listOf bookmark?) = some f.bookmarks := by
    rw [keyOr, get?_entries]
    exact listOf_listValue (fun b => entriesOf (bookmarkPairs b)) _ fun b hb =>
      bookmark?_table (h.bookmarks b hb)
  have hfields : keyOr f.entries "fields" [] (listOf field?) = some f.fields := by
    rw [keyOr, get?_entries]
    exact listOf_listValue (fun x => entriesOf (fieldPairs x)) _ fun x hx => field?_table (h.fields x hx)
  have hannotations : keyOr f.entries "annotations" [] (listOf annotation?) = some f.annotations := by
    rw [keyOr, get?_entries]
    exact listOf_listValue (fun a => entriesOf (annotationPairs a)) _ fun a ha =>
      annotation?_table (h.annotations a ha)
  have hstyles : keyOr f.entries "styles" .empty (dictionaryOf names?) = some f.styles := by
    rw [keyOr, get?_entries]
    exact dictionaryOf_table _ _ names?_strings f.styles
  have hvalues : keyOr f.entries "variables" .empty (dictionaryOf Value.string?) = some f.values := by
    rw [keyOr, get?_entries]
    exact dictionaryOf_table .string _ (fun _ => rfl) f.values
  have hmetadata : keyOr f.entries "metadata" .empty (dictionaryOf Value.string?) = some f.metadata := by
    rw [keyOr, get?_entries]
    exact dictionaryOf_table .string _ (fun _ => rfl) f.metadata
  rw [ofEntries, heldBeyond_entries, htext, hlocation, hbookmarks, hfields, hannotations, hstyles, hvalues,
    hmetadata]
  rfl

/-! ### Files -/

theorem fits_pairLines {ps : List (String × Datum)} (h : ∀ p ∈ ps, p.2.Fits) : ∀ l ∈ pairLines ps, l.Fits := by
  intro l hl
  obtain ⟨p, hp, rfl⟩ := List.mem_map.1 hl
  exact h p hp

theorem fits_elements {α : Type} (k : String) {parts : α → List (String × Datum)} {xs : List α}
    (h : ∀ a ∈ xs, ∀ p ∈ parts a, p.2.Fits) : ∀ l ∈ elements k (fun a => pairLines (parts a)) xs, l.Fits := by
  intro l hl
  obtain ⟨a, ha, hl⟩ := List.mem_flatMap.1 hl
  rcases List.mem_cons.1 hl with rfl | hl
  · trivial
  · exact fits_pairLines (h a ha) l hl

theorem fits_table {α : Type} (k : String) {datum : α → Datum} (h : ∀ a, (datum a).Fits) (d : Dictionary α) :
    ∀ l ∈ Line.table k :: pairLines (tablePairs datum d), l.Fits := by
  intro l hl
  rcases List.mem_cons.1 hl with rfl | hl
  · trivial
  · refine fits_pairLines (fun p hp => ?_) l hl
    obtain ⟨e, -, rfl⟩ := List.mem_map.1 hp
    exact h e.2

theorem fits_rootPairs (f : DocumentFile) : ∀ p ∈ rootPairs f, p.2.Fits := by
  rw [rootPairs]
  cases f.location <;> cases f.bookmarks <;> cases f.fields <;> cases f.annotations <;> simp [Datum.Fits]

/-- All numbers in the lines of a file fit. -/
theorem fits_lines {f : DocumentFile} (h : f.OffsetsFit) : ∀ l ∈ f.lines, l.Fits := by
  have hbookmarks := fits_elements "bookmarks" fun b hb => show ∀ p ∈ bookmarkPairs b, p.2.Fits by
    simpa [bookmarkPairs, spanPairs, Datum.Fits, FitsSigned] using h.bookmarks b hb
  have hfields := fits_elements "fields" fun x hx => fits_fieldPairs (h.fields x hx)
  have hannotations := fits_elements "annotations" fun a ha => show ∀ p ∈ annotationPairs a, p.2.Fits by
    simpa [annotationPairs, spanPairs, Datum.Fits, FitsSigned] using h.annotations a ha
  rw [lines_eq, headedLines]
  simp only [List.forall_mem_append]
  exact ⟨fits_pairLines (fits_rootPairs f), ⟨⟨⟨⟨hbookmarks, hfields⟩, hannotations⟩,
    fits_table _ (fun _ => by trivial) _⟩, fits_table _ (fun _ => by trivial) _⟩,
    fits_table _ (fun _ => by trivial) _⟩

/-- **Saved files load back.** -/
theorem parse_write {f : DocumentFile} (h : f.OffsetsFit) : parse f.write = some f := by
  have hread : Toml.read f.write = some f.entries := by
    have hmark : expect? '\ufeff' f.write = none := rfl
    rw [Toml.read, hmark, Option.getD_none, DocumentFile.write, readLines_write (fits_lines h)]
    exact assemble_lines f
  rw [parse, hread]
  exact ofEntries_entries h

/-- A file with quotes of both kinds in a row, backslashes, line breaks of both kinds, a control character and
empty strings. -/
def quotedFile : DocumentFile where
  text := "\nIt's \"\"\"'''\"\r\n\t\x00\"\""
  location := some "C:\\it's"
  bookmarks := [⟨"say \"\"", ⟨0, 4⟩⟩, ⟨"", ⟨1, 9223372036854775807⟩⟩]
  fields := [⟨.placeholder "''''", ⟨2, 2⟩⟩, ⟨.computed "", ⟨0, 1⟩⟩]
  annotations := []
  styles := .ofList [("para graph", .ofList ["Body", "It's"]), ("", .ofList [])]
  values := .ofList [("new\nline", "\\"), ("quote\"", "")]
  metadata := .ofList [("Form", "A(\"it's\")")]

theorem parse_write_quotedFile :
    quotedFile.OffsetsFit ∧ parse quotedFile.write = some quotedFile ∧
      Datum.write (.string quotedFile.text) = "\"\"\"\n\nIt's \"\"\\\"'''\"\\r\n\\t\\u0000\"\"\"\"\"".toList := by
  have hfit : quotedFile.OffsetsFit := ⟨by decide, by decide, by decide⟩
  exact ⟨hfit, parse_write hfit, by decide⟩

end DocumentFile

end TemplateEngine
