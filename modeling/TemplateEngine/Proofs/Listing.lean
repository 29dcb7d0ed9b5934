import TemplateEngine.Proofs.PrintFunctions
import Mathlib.Data.List.DropRight

/-!
# Listing — print functions in a list with commas

A document lists its print functions with commas between them.  What is read from such a list is what is read from
each of the names (`listedIn_intercalate`), without empty names and without the blanks around a name.  So a name
is read back only if it can be listed (`IsListable`), and a document in which names were listed gives these
names exactly if all of them can be (`Document.Lists.eq_iff`).
-/

namespace TemplateEngine

/-! ### Lists with commas -/

/-- The names that are read from a list with commas. -/
def listedIn (s : String) : List String :=
  (((Text.splitOn ',' s.toList).map Text.trim).filter (!·.isEmpty)).map String.ofList

/-- Whether a name can be listed: it is not empty, has no comma, and no blank at either end. -/
structure IsListable (n : String) : Prop where
  nonempty : n ≠ ""
  comma : ',' ∉ n.toList
  first : ∀ c ∈ n.toList.head?, isBlank c = false
  last : ∀ c ∈ n.toList.getLast?, isBlank c = false

namespace Text

theorem trim_eq (t : Text) : t.trim = (t.dropWhile isBlank).rdropWhile isBlank := rfl

theorem trim_eq_self {t : Text} (hfirst : ∀ c ∈ t.head?, isBlank c = false)
    (hlast : ∀ c ∈ t.getLast?, isBlank c = false) : t.trim = t := by
  have hleft : t.dropWhile isBlank = t := by
    cases t with
    | nil => rfl
    | cons c t => rw [List.dropWhile_cons_of_neg (by simpa using hfirst c rfl)]
  rw [trim_eq, hleft, List.rdropWhile_eq_self_iff]
  intro hne
  simpa using hlast _ (List.getLast?_eq_getLast_of_ne_nil hne)

theorem not_isBlank_of_mem_head?_trim {t : Text} {c : Char} (h : c ∈ t.trim.head?) : isBlank c = false := by
  obtain ⟨rest, hrest⟩ := List.head?_eq_some_iff.1 h
  obtain ⟨z, hz⟩ : t.trim <+: t.dropWhile isBlank := List.rdropWhile_prefix _ _
  have hnot := List.head?_dropWhile_not isBlank t
  rw [← hz, hrest] at hnot
  exact hnot

theorem not_isBlank_of_mem_getLast?_trim {t : Text} {c : Char} (h : c ∈ t.trim.getLast?) : isBlank c = false := by
  have hne : t.trim ≠ [] := fun hnil => by simp [hnil] at h
  have hlast := List.rdropWhile_last_not isBlank (t.dropWhile isBlank) hne
  rw [Option.mem_def, List.getLast?_eq_getLast_of_ne_nil hne] at h
  obtain rfl := Option.some.inj h
  exact Bool.eq_false_iff.2 hlast

theorem sublist_trim (t : Text) : t.trim.Sublist t :=
  (List.rdropWhile_prefix _ _).sublist.trans (List.dropWhile_sublist _)

end Text

theorem isListable_of_mem_listedIn {s n : String} (h : n ∈ listedIn s) : IsListable n := by
  obtain ⟨t, ht, rfl⟩ := List.mem_map.1 h
  obtain ⟨ht, hne⟩ := List.mem_filter.1 ht
  obtain ⟨piece, hpiece, rfl⟩ := List.mem_map.1 ht
  constructor
  · intro h
    simp_all
  · rw [String.toList_ofList]
    exact fun hcomma => Text.notMem_of_mem_splitOn hpiece ((Text.sublist_trim piece).subset hcomma)
  · rw [String.toList_ofList]
    exact fun c => Text.not_isBlank_of_mem_head?_trim
  · rw [String.toList_ofList]
    exact fun c => Text.not_isBlank_of_mem_getLast?_trim

theorem listedIn_of_isListable {n : String} (h : IsListable n) : listedIn n = [n] := by
  unfold listedIn
  rw [Text.splitOn_eq, List.splitOn_eq_singleton h.comma, List.map_singleton, Text.trim_eq_self h.first h.last,
    List.filter_cons_of_pos (by simpa using h.nonempty)]
  simp

theorem flatMap_listedIn {ns : List String} (h : ∀ n ∈ ns, IsListable n) : ns.flatMap listedIn = ns := by
  induction ns with
  | nil => rfl
  | cons n ns ih =>
    rw [List.flatMap_cons, listedIn_of_isListable (h n (by simp)), ih fun m hm => h m (by simp [hm]),
      List.singleton_append]

/-- What is read from names with commas between them is what is read from each of them. -/
theorem listedIn_intercalate (ns : List String) : listedIn (String.intercalate "," ns) = ns.flatMap listedIn := by
  have hcomma : ",".toList = [','] := rfl
  induction ns with
  | nil => rfl
  | cons n ns ih =>
    rw [List.flatMap_cons, ← ih]
    unfold listedIn
    rw [String.toList_intercalate, String.toList_intercalate, List.map_cons, hcomma]
    cases ns with
    | nil => simp [Text.splitOn_eq, Text.trim]
    | cons m ns =>
      rw [List.map_cons, List.intercalate_cons_of_ne_nil (by simp), List.append_assoc, List.singleton_append,
        Text.splitOn_eq, Text.splitOn_eq, Text.splitOn_eq, List.splitOn_append_cons_self]
      simp

/-! ### Print functions in a document -/

namespace Document

variable {d d' : Document} {functions : NameSet}

/-- Whether a document lists print functions: what is read from it is what is read from each of their names. -/
def Lists (d : Document) (functions : NameSet) : Prop :=
  (Settings.ofDocument d).printFunctions = .ofList (functions.names.flatMap listedIn)

theorem Lists.mem_iff (h : d.Lists functions) {x : String} :
    x ∈ (Settings.ofDocument d).printFunctions.names ↔ ∃ n ∈ functions.names, x ∈ listedIn n := by
  rw [h, NameSet.ofList, NameSet.mem_insertAll]
  simp

/-- Only one key of the metadata counts. -/
theorem Lists.congr (h : d.Lists functions)
    (hsame : d'.persistentData? printFunctionsKey = d.persistentData? printFunctionsKey) : d'.Lists functions := by
  unfold Lists Settings.ofDocument at *
  rwa [hsame]

/-- Print functions that were read can be listed. -/
theorem isListable_of_mem_ofDocument {n : String} (h : n ∈ (Settings.ofDocument d).printFunctions.names) :
    IsListable n := by
  unfold Settings.ofDocument at h
  dsimp only at h
  cases hkept : d.persistentData? printFunctionsKey with
  | none =>
    rw [hkept] at h
    cases h
  | some text =>
    rw [hkept, Option.map_some, Option.getD_some, readPrintFunctions, NameSet.ofList, NameSet.mem_insertAll] at h
    exact isListable_of_mem_listedIn (h.resolve_right List.not_mem_nil)

theorem lists_ofDocument (d : Document) : d.Lists (Settings.ofDocument d).printFunctions := by
  rw [Lists, flatMap_listedIn fun _ hn => isListable_of_mem_ofDocument hn, NameSet.ofList_names]

/-- A document lists the print functions with the one that is added. -/
theorem lists_addPrintFunction {settings : Settings} (h : d.Lists settings.printFunctions) (function : String) :
    (settings.addPrintFunction d function).2.Lists (settings.addPrintFunction d function).1.printFunctions := by
  unfold Settings.addPrintFunction
  split
  · exact h
  · unfold Lists Settings.ofDocument
    dsimp only
    rw [setPersistentData, persistentData?, Dictionary.get?_insert_self, Option.map_some, Option.getD_some,
      ← listedIn_intercalate]
    rfl

/-- What is read are the print functions exactly if they can all be listed. -/
theorem Lists.eq_iff (h : d.Lists functions) :
    (Settings.ofDocument d).printFunctions = functions ↔ ∀ n ∈ functions.names, IsListable n := by
  constructor
  · intro heq n hn
    exact isListable_of_mem_ofDocument (heq ▸ hn)
  · intro hall
    rw [h, flatMap_listedIn hall, NameSet.ofList_names]

end Document

end TemplateEngine
