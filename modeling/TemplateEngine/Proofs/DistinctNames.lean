import Mathlib.Order.Bounds.Basic
import TemplateEngine.Document.Content
import TemplateEngine.Document.Paragraph
import TemplateEngine.Proofs.Bookmarks

/-!
# Distinct names — whatever is done to a document

From a bare text on, no change gives two bookmarks one name (`distinctNames_performAll`): an edit only drops
bookmarks, and what is added or renamed gets a name that was searched for.  The search tries the name itself and
then the name with 1, 2, … behind it and goes on for as long as it takes (`Search`); it is over after one try more
than there are bookmarks at the latest, as every try that fails is the name of another one.
-/

namespace TemplateEngine

/-! ### The search for a name -/

/-- The name to try after `n` others. -/
def candidate (name : String) : Nat → String
  | 0 => name
  | n + 1 => name ++ toString (n + 1)

/-- A search that has tried `n` names goes on for some more tries, until a name is not taken, and gives that. -/
inductive Search (taken : String → Bool) (name : String) : Nat → Nat → String → Prop where
  | found {n : Nat} (h : taken (candidate name n) = false) : Search taken name n 1 (candidate name n)
  | next {n tries : Nat} {c : String} (h : taken (candidate name n) = true)
      (rest : Search taken name (n + 1) tries c) : Search taken name n (tries + 1) c

namespace Search

variable {taken : String → Bool} {name c : String} {n k tries : Nat}

theorem of_first (hfree : taken (candidate name (n + k)) = false)
    (htaken : ∀ j < k, taken (candidate name (n + j)) = true) :
    Search taken name n (k + 1) (candidate name (n + k)) := by
  induction k generalizing n with
  | zero => exact .found hfree
  | succ k ih =>
    have hmove : ∀ j, n + (j + 1) = n + 1 + j := by omega
    rw [hmove k] at hfree ⊢
    refine .next (htaken 0 (Nat.succ_pos k)) (ih hfree fun j hj => ?_)
    rw [← hmove j]
    exact htaken (j + 1) (Nat.succ_lt_succ hj)

/-- What a search gives is the first name that is not taken. -/
theorem exists_first (h : Search taken name n tries c) :
    ∃ k, tries = k + 1 ∧ c = candidate name (n + k) ∧ taken c = false ∧
      ∀ j < k, taken (candidate name (n + j)) = true := by
  induction h with
  | found hfree => exact ⟨0, rfl, rfl, hfree, fun j hj => absurd hj (Nat.not_lt_zero j)⟩
  | @next n tries c htaken _ ih =>
    obtain ⟨k, rfl, rfl, hfree, hbefore⟩ := ih
    have hmove : ∀ j, n + 1 + j = n + (j + 1) := by omega
    refine ⟨k + 1, rfl, congrArg (candidate name) (hmove k), hfree, fun j hj => ?_⟩
    cases j with
    | zero => exact htaken
    | succ j =>
      rw [← hmove j]
      exact hbefore j (Nat.lt_of_succ_lt_succ hj)

end Search

namespace Document

/-- Whether no bookmark other than `except` has the name. -/
def IsFree (d : Document) (except : Option String) (name : String) : Prop :=
  ∀ b ∈ d.bookmarks, some b.name ≠ except → b.name ≠ name

theorem isFree_iff {d : Document} {except : Option String} {name : String} :
    d.IsFree except name ↔ d.isTaken except name = false := by
  rw [Bool.eq_false_iff, Ne, isTaken_iff]
  constructor
  · rintro h ⟨hmem, hexcept⟩
    obtain ⟨b, hb, rfl⟩ := List.mem_map.1 hmem
    exact h b hb hexcept rfl
  · rintro h b hb hexcept rfl
    exact h ⟨List.mem_map_of_mem hb, hexcept⟩

/-- How the search for a name goes: in at most one try more than there are bookmarks, and to the name itself or the
name with the smallest positive number that makes it free. -/
structure FindsName (d : Document) (name : String) (except : Option String) : Prop where
  ends : ∃ tries ≤ d.bookmarks.length + 1,
    Search (d.isTaken except) name 0 tries (d.uniqueName name except)
  asked : d.IsFree except name → d.uniqueName name except = name
  numbered : ¬d.IsFree except name → ∃ n,
    IsLeast {n | 0 < n ∧ d.IsFree except (name ++ toString n)} n ∧
      d.uniqueName name except = name ++ toString n

theorem getElem_candidates (d : Document) (name : String) {n : Nat} (h : n < (d.candidates name).length) :
    (d.candidates name)[n] = candidate name n := by
  cases n with
  | zero => rfl
  | succ n => simp [candidates, candidate]

/-- The search ends, as a name is free among as many as there are bookmarks and one more. -/
theorem exists_search (d : Document) (name : String) (except : Option String) :
    ∃ tries ≤ d.bookmarks.length + 1,
      Search (d.isTaken except) name 0 tries (d.uniqueName name except) := by
  obtain ⟨hfree, k, hk, hfound, hbefore⟩ :=
    List.find?_eq_some_iff_getElem.1 (find?_candidates d name except)
  rw [getElem_candidates] at hfound
  refine ⟨k + 1, ?_, ?_⟩
  · rwa [length_candidates] at hk
  · rw [← hfound] at hfree ⊢
    have hsearch : Search (d.isTaken except) name 0 (k + 1) (candidate name (0 + k)) :=
      .of_first (by simpa using hfree) fun j hj => by
        have := hbefore j hj
        rw [getElem_candidates] at this
        simpa using this
    simpa using hsearch

theorem findsName (d : Document) (name : String) (except : Option String) : d.FindsName name except := by
  obtain ⟨tries, hle, hsearch⟩ := exists_search d name except
  obtain ⟨k, -, hfound, hfree, hbefore⟩ := hsearch.exists_first
  rw [hfound] at hfree
  simp only [Nat.zero_add] at hfound hfree hbefore
  refine ⟨⟨tries, hle, hsearch⟩, fun hasked => ?_, fun hasked => ?_⟩
  · cases k with
    | zero => exact hfound
    | succ k =>
      have htaken : d.isTaken except name = true := hbefore 0 (Nat.succ_pos k)
      rw [isFree_iff.1 hasked] at htaken
      cases htaken
  · cases k with
    | zero => exact absurd (isFree_iff.2 hfree) hasked
    | succ k =>
      refine ⟨k + 1, ⟨⟨Nat.succ_pos k, isFree_iff.2 hfree⟩, ?_⟩, hfound⟩
      rintro n ⟨hpos, hn⟩
      by_contra hlt
      obtain ⟨m, rfl⟩ := Nat.exists_eq_succ_of_ne_zero (Nat.ne_of_gt hpos)
      have htaken : d.isTaken except (name ++ toString (m + 1)) = true := hbefore (m + 1) (Nat.lt_of_not_le hlt)
      rw [isFree_iff.1 hn] at htaken
      cases htaken

/-! ### Changes -/

/-- What can be done to a document that concerns its text, its bookmarks and its fields. -/
inductive Change where
  | append (t : Text)
  | appendBookmarked (name : String) (t : Text)
  | appendPlaceholder (hint : String)
  | appendComputed (source : String) (t : Text)
  | addBookmark (name : String) (s : Span)
  | addField (kind : FieldKind) (s : Span)
  | setVariable (name value : String)
  | insertBookmark (name : String) (r : TextRange)
  | renameBookmark (name new : String)
  | removeBookmark (name : String)
  | setBookmarkText (name : String) (t : Text)
  | insertContent (r : TextRange) (content : Document)
  | replacePlaceholder (id : Nat) (t : Text)
  | refreshElement (e : Element)
  | deleteParagraph (r : TextRange)

/-- The document after an attempt; one that is refused leaves it as it is. -/
def attempted (d : Document) : Except Refusal Document → Document
  | .ok d' => d'
  | .error _ => d

/-- The document after a change. -/
def perform (d : Document) : Change → Except Fault Document
  | .append t => d.append t
  | .appendBookmarked name t => do
    let p ← d.appendBookmarked name t
    return p.1
  | .appendPlaceholder hint => do
    let p ← d.appendPlaceholder hint
    return p.1
  | .appendComputed source t => do
    let p ← d.appendComputed source t
    return p.1
  | .addBookmark name s => .ok (d.addBookmark name s).1
  | .addField kind s => .ok (d.addField kind s).1
  | .setVariable name value => .ok (d.setVariable name value)
  | .insertBookmark name r => .ok (d.attempted ((d.insertBookmark name r).map (·.1)))
  | .renameBookmark name new => .ok (d.attempted ((d.renameBookmark name new).map (·.1)))
  | .removeBookmark name => .ok (d.attempted (d.removeBookmark name))
  | .setBookmarkText name t => do
    let a ← d.setBookmarkText name t
    return d.attempted a
  | .insertContent r content => do
    let a ← d.insertContent r content
    return d.attempted a
  | .replacePlaceholder id t => do
    let a ← d.replacePlaceholder id t
    return d.attempted a
  | .refreshElement e => do
    let a ← d.refreshElement e
    return (a.map d.attempted).getD d
  | .deleteParagraph r => do
    let a ← d.deleteParagraph r
    return d.attempted a

/-- The document after some changes, one after the other. -/
def performAll (d : Document) (changes : List Change) : Except Fault Document := changes.foldlM perform d

section Changes

theorem nodup_first {α : Type} {a : Except Fault (Document × α)}
    (h : Ends (fun _ => True) a fun p => p.1.names.Nodup) :
    Ends (fun _ => True) (do let p ← a; return p.1) fun d' => d'.names.Nodup :=
  Ends.andThen h fun _ hp => hp

variable {d : Document} (hd : d.names.Nodup)

include hd

theorem nodup_attempted {a : Except Refusal Document} (h : Narrows d a) : (d.attempted a).names.Nodup := by
  cases a with
  | ok d' => exact hd.sublist h
  | error _ => exact hd

theorem nodup_append (t : Text) : Ends (fun _ => True) (d.append t) fun d' => d'.names.Nodup :=
  names_edit.mono fun _ hd' => hd.sublist hd'

theorem nodup_perform (change : Change) :
    Ends (fun _ => True) (d.perform change) fun d' => d'.names.Nodup := by
  cases change with
  | append t => exact nodup_append hd t
  | appendBookmarked name t =>
    exact nodup_first (Ends.andThen (nodup_append hd t) fun d' hd' => nodup_addBookmark hd' name _)
  | appendPlaceholder hint =>
    exact nodup_first (Ends.andThen (nodup_append hd hint.toList) fun d' hd' => hd')
  | appendComputed source t =>
    exact nodup_first (Ends.andThen (nodup_append hd t) fun d' hd' => hd')
  | addBookmark name s => exact nodup_addBookmark hd name s
  | addField kind s => exact hd
  | setVariable name value => exact hd
  | insertBookmark name r =>
    show (d.attempted _).names.Nodup
    cases h : d.insertBookmark name r with
    | error e => exact hd
    | ok p =>
      obtain rfl := addBookmark_of_insertBookmark h
      exact nodup_addBookmark hd name r.toSpan
  | renameBookmark name new =>
    show (d.attempted _).names.Nodup
    cases h : d.renameBookmark name new with
    | error e => exact hd
    | ok p => exact (names_renameBookmark hd h).1
  | removeBookmark name =>
    show (d.attempted _).names.Nodup
    cases h : d.removeBookmark name with
    | error e => exact hd
    | ok d' =>
      show d'.names.Nodup
      rw [names_removeBookmark h]
      exact hd.filter _
  | setBookmarkText name t =>
    exact Ends.andThen (narrows_setBookmarkText d name t) fun a ha => nodup_attempted hd ha
  | insertContent r content =>
    refine Ends.andThen (receives_insertContent d r content) fun a ha => ?_
    cases a with
    | error e => exact hd
    | ok d' => exact ha.1 hd
  | replacePlaceholder id t =>
    exact Ends.andThen (narrows_replacePlaceholder d id t) fun a ha => nodup_attempted hd ha
  | refreshElement e =>
    refine Ends.andThen (narrows_refreshElement d e) fun o ho => ?_
    cases o with
    | none => exact hd
    | some a => exact nodup_attempted hd (ho a rfl)
  | deleteParagraph r =>
    exact Ends.andThen (narrows_deleteParagraph d r) fun a ha => nodup_attempted hd ha

theorem nodup_performAll (changes : List Change) :
    Ends (fun _ => True) (d.performAll changes) fun d' => d'.names.Nodup :=
  Ends.foldlM (I := fun d : Document => d.names.Nodup) hd fun change _ _ hd' => nodup_perform hd' change

end Changes

/-- After whatever changes of a bare text the names of bookmarks are distinct, and a free one is found. -/
theorem distinctNames_performAll {t : Text} {changes : List Change} {d : Document}
    (h : (ofText t).performAll changes = .ok d) :
    d.names.Nodup ∧ ∀ name except, d.FindsName name except := by
  have hnew : (ofText t).names.Nodup := List.nodup_nil
  exact ⟨(nodup_performAll hnew changes).of_eq_ok h, d.findsName⟩

/-- Changes that ask for names that are taken. -/
def namings : List Change :=
  [.appendBookmarked "note" "c".toList, .addBookmark "note" ⟨0, 1⟩, .insertBookmark "note" (.ofSpan ⟨1, 2⟩),
    .insertContent (.ofSpan ⟨1, 1⟩) { ofText "x".toList with
      bookmarks := [⟨"note", ⟨0, 1⟩⟩, ⟨"note1", ⟨0, 0⟩⟩, ⟨"other", ⟨1, 1⟩⟩] },
    .removeBookmark "note1", .renameBookmark "note2" "note", .renameBookmark "other" "other",
    .removeBookmark "none", .setBookmarkText "note" []]

theorem distinctNames_performAll_namings :
    ∃ d, (ofText "ab".toList).performAll namings = .ok d ∧
      d.names = ["note", "note1", "note3", "note11", "other"] ∧ d.uniqueName "note" none = "note2" ∧
      d.names.Nodup ∧ ∀ name except, d.FindsName name except := by
  have hresult : ((ofText "ab".toList).performAll namings).map (fun d => (d.names, d.uniqueName "note" none)) =
      .ok (["note", "note1", "note3", "note11", "other"], "note2") := by cbv
  cases h : (ofText "ab".toList).performAll namings with
  | error f =>
    rw [h] at hresult
    cases hresult
  | ok d =>
    rw [h] at hresult
    obtain ⟨hnames, hunique⟩ := Prod.mk.inj (Except.ok.inj hresult)
    have hdistinct := distinctNames_performAll h
    exact ⟨d, rfl, hnames, hunique, hdistinct.1, hdistinct.2⟩

end Document

end TemplateEngine
