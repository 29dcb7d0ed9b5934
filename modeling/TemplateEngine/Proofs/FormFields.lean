import TemplateEngine.Proofs.RangeOrder
import TemplateEngine.Process.Scan

/-!
# Form fields — an index that is complete and in order

The form fields of the pending commands are put one by one into the lists of their ids, each in front of the
first one it comes before.  What happens to one list does not depend on the others (`get?_foldl_indexFormField`),
and a list that is in document order, with the fields of one span in the order of the commands, is so with one
more field (`InDocumentOrder.insertFormField`).  So the index holds every field once and in its place, in whatever
order the commands are (`isFormFieldIndex_scanFormFields`).
-/

namespace TemplateEngine

/-! ### One list -/

namespace FormField

/-- Where a form field is. -/
def span? (f : FormField) (d : Document) : Option Span := d.span? f.bookmark

theorem range?_eq_map (f : FormField) (d : Document) : f.range? d = (f.span? d).map .ofSpan := by
  rw [range?, Document.bookmarkRange?, span?, Document.span?, Option.map_map]
  rfl

/-- Whether both fields have spans and the other's is not in front. -/
def NotAfter (d : Document) (f g : FormField) : Prop :=
  ∃ s t, f.span? d = some s ∧ g.span? d = some t ∧ s.notAfter t = true

end FormField

/-- How a list of form fields stands to the fields in the order of the commands. -/
structure InDocumentOrder (d : Document) (found fs : List FormField) : Prop where
  /-- Every field is there, as often as it was found. -/
  perm : fs.Perm found
  /-- Earlier starts first, and of two fields with one start the longer one. -/
  sorted : fs.Pairwise (FormField.NotAfter d)
  /-- Fields with one span are in the order of the commands. -/
  stable : ∀ s, fs.filter (·.span? d = some s) = found.filter (·.span? d = some s)

theorem relation?_precedes {d : Document} {f g : FormField} {s t : Span} (hs : f.span? d = some s)
    (ht : g.span? d = some t) :
    (TextRange.relation? (f.range? d) (g.range? d)).precedes = !t.notAfter s := by
  rw [FormField.range?_eq_map, FormField.range?_eq_map, hs, ht]
  exact Command.precedes_relation s t

section Insertion

variable {d : Document} {found fs : List FormField} {f : FormField} {s : Span}

/-- Where a form field is put in a list that is in document order: behind those that may stay in front of it,
before all others. -/
theorem exists_insertFormField (hsorted : fs.Pairwise (FormField.NotAfter d))
    (hfs : ∀ g ∈ fs, (g.span? d).isSome = true) (hs : f.span? d = some s) :
    ∃ earlier later, fs = earlier ++ later ∧ insertFormField d f fs = earlier ++ f :: later ∧
      (∀ g ∈ earlier, g.NotAfter d f) ∧ ∀ g ∈ later, ∃ t, g.span? d = some t ∧ t.notAfter s = false := by
  obtain ⟨earlier, later, rfl, hinsert, hstays, hfirst⟩ := exists_insert_takeWhile
    (fun other => !(TextRange.relation? (f.range? d) (other.range? d)).precedes) f fs
  refine ⟨earlier, later, rfl, hinsert, fun g hg => ?_, ?_⟩
  · obtain ⟨t, ht⟩ := Option.isSome_iff_exists.1 (hfs g (List.mem_append_left _ hg))
    have hstay := hstays g hg
    rw [relation?_precedes hs ht, Bool.not_not] at hstay
    exact ⟨t, s, ht, hs, hstay⟩
  · -- the first of the fields behind comes after `f`, and the others not before that one
    cases later with
    | nil => simp
    | cons first rest =>
      obtain ⟨t, ht⟩ := Option.isSome_iff_exists.1 (hfs first (by simp))
      have hnot := hfirst first rfl
      rw [relation?_precedes hs ht, Bool.not_not] at hnot
      intro g hg
      rcases List.mem_cons.1 hg with rfl | hg
      · exact ⟨t, ht, hnot⟩
      · obtain ⟨-, hlater, -⟩ := List.pairwise_append.1 hsorted
        obtain ⟨t', u, ht', hu, hle⟩ := (List.pairwise_cons.1 hlater).1 g hg
        obtain rfl := Option.some.inj (ht.symm.trans ht')
        refine ⟨u, hu, ?_⟩
        rw [← Bool.not_eq_true] at hnot ⊢
        exact fun hus => hnot (Span.notAfter_trans hle hus)

/-- A list stays in document order when a field is put in front of the first one it comes before. -/
theorem InDocumentOrder.insertFormField (h : InDocumentOrder d found fs)
    (hfs : ∀ g ∈ fs, (g.span? d).isSome = true) (hs : f.span? d = some s) :
    InDocumentOrder d (found ++ [f]) (insertFormField d f fs) := by
  obtain ⟨earlier, later, rfl, hinsert, hbefore, hbehind⟩ := exists_insertFormField h.sorted hfs hs
  obtain ⟨hearlier, hlater, hacross⟩ := List.pairwise_append.1 h.sorted
  rw [hinsert]
  constructor
  · have hmiddle : (earlier ++ f :: later).Perm (earlier ++ later ++ [f]) := by
      rw [List.append_assoc]
      exact (List.perm_append_singleton f later).symm.append_left earlier
    exact hmiddle.trans (h.perm.append_right [f])
  · refine List.pairwise_append.2 ⟨hearlier, List.pairwise_cons.2 ⟨fun g hg => ?_, hlater⟩,
      fun x hx y hy => ?_⟩
    · obtain ⟨t, ht, hnot⟩ := hbehind g hg
      exact ⟨s, t, hs, ht, by simpa [hnot] using Span.notAfter_total s t⟩
    · rcases List.mem_cons.1 hy with rfl | hy
      · exact hbefore x hx
      · exact hacross x hx y hy
  · intro u
    have hstable := h.stable u
    rw [List.filter_append] at hstable
    rw [List.filter_append, List.filter_append, List.filter_cons, ← hstable]
    by_cases hu : s = u
    · -- a field behind `f` has another span
      have hnone : later.filter (·.span? d = some u) = [] := List.filter_eq_nil_iff.2 fun g hg => by
        obtain ⟨t, ht, hnot⟩ := hbehind g hg
        rw [ht, ← hu, decide_eq_true_eq, Option.some.injEq]
        rintro rfl
        simp [Span.notAfter] at hnot
      rw [hnone]
      simp [hs, hu]
    · simp [hs, hu]

end Insertion

/-- Fields put one by one into an empty list. -/
theorem inDocumentOrder_foldl {d : Document} {found : List FormField}
    (hfound : ∀ f ∈ found, (f.span? d).isSome = true) :
    InDocumentOrder d found (found.foldl (fun fs f => insertFormField d f fs) []) := by
  induction found using List.reverseRecOn with
  | nil => exact ⟨.nil, .nil, fun _ => rfl⟩
  | append_singleton found f ih =>
    have hfs := ih fun g hg => hfound g (List.mem_append_left _ hg)
    obtain ⟨s, hs⟩ := Option.isSome_iff_exists.1 (hfound f (by simp))
    rw [List.foldl_concat]
    exact hfs.insertFormField (fun g hg => hfound g (List.mem_append_left _ (hfs.perm.mem_iff.1 hg))) hs

/-! ### All lists -/

/-- The list of an id gets the fields with this id. -/
theorem get?_foldl_indexFormField (d : Document) (found : List FormField)
    (index : Dictionary (List FormField)) (id : String) :
    (found.foldl (indexFormField d) index).get? id =
      if found.filter (·.id = id) = [] then index.get? id
      else some ((found.filter (·.id = id)).foldl (fun fs f => insertFormField d f fs)
        ((index.get? id).getD [])) := by
  induction found generalizing index with
  | nil => rfl
  | cons f found ih =>
    rw [List.foldl_cons, ih, indexFormField, Dictionary.get?_insert]
    by_cases hid : f.id = id
    · subst hid
      rw [if_pos rfl, List.filter_cons_of_pos (by simp), if_neg (List.cons_ne_nil _ _), List.foldl_cons,
        Option.getD_some]
      split
      next hnil => rw [hnil]; rfl
      next => rfl
    · rw [if_neg hid, List.filter_cons_of_neg (by simpa using hid)]

/-- The form fields with an id that pending commands ask for, in the order of the commands. -/
def fieldsOf (cs : List Command) (id : String) : List FormField :=
  (cs.filter (·.isPending)).filterMap fun c =>
    match c.kind with
    | .insertFormValue id' transform => if id' = id then some ⟨id, c.bookmark, transform⟩ else none
    | _ => none

/-- The fields of an id among those that are found. -/
theorem filter_filterMap_formField? (cs : List Command) (id : String) :
    (cs.filterMap formField?).filter (·.id = id) = fieldsOf cs id := by
  unfold fieldsOf
  rw [List.filter_filterMap, List.filterMap_filter]
  refine List.filterMap_congr fun c _ => ?_
  unfold formField?
  cases c.kind
  case insertFormValue id' transform =>
    dsimp only
    cases c.isPending with
    | false => rfl
    | true =>
      by_cases hid : id' = id
      · simp [hid, Option.filter]
      · simp [hid, Option.filter]
  all_goals simp

theorem mem_fieldsOf {cs : List Command} {id : String} {f : FormField} : f ∈ fieldsOf cs id ↔
    f.id = id ∧ ∃ c ∈ cs, c.isPending = true ∧ c.kind = .insertFormValue id f.transform ∧
      c.bookmark = f.bookmark := by
  unfold fieldsOf
  rw [List.mem_filterMap]
  constructor
  · rintro ⟨c, hc, hf⟩
    obtain ⟨hc, hpending⟩ := List.mem_filter.1 hc
    split at hf
    next id' transform hk =>
      split at hf
      next hid =>
        obtain rfl := Option.some.inj hf
        exact ⟨rfl, c, hc, hpending, hid ▸ hk, rfl⟩
      next => cases hf
    next => cases hf
  · rintro ⟨rfl, c, hc, hpending, hk, hb⟩
    refine ⟨c, List.mem_filter.2 ⟨hc, hpending⟩, ?_⟩
    simp [hk, hb]

/-- What an index of form fields is for the commands of a document, in whatever order they are. -/
structure IsFormFieldIndex (d : Document) (cs : List Command) (index : Dictionary (List FormField)) :
    Prop where
  /-- The ids are those that pending commands ask for. -/
  keys : ∀ id, id ∈ index.keys ↔
    ∃ c ∈ cs, c.isPending = true ∧ ∃ transform, c.kind = .insertFormValue id transform
  /-- The list of an id has the fields with this id, each as often as it is asked for, in document order. -/
  lists : ∀ id fs, index.get? id = some fs → InDocumentOrder d (fieldsOf cs id) fs

/-- **The index of the form fields.**  Whatever the order of the commands and the form fields of before: when
every pending command for a form field has its bookmark, the ids in the index are the ids of these commands, and
the list of each holds their fields once each, in document order and for one span in the order of the commands. -/
theorem isFormFieldIndex_scanFormFields (m : Model)
    (hbookmarks : ∀ c ∈ m.commands, c.isPending = true → ∀ id transform,
      c.kind = .insertFormValue id transform → c.bookmark ∈ m.document.names) :
    IsFormFieldIndex m.document m.commands m.scanFormFields.formFields := by
  have hget : ∀ id, m.scanFormFields.formFields.get? id =
      if fieldsOf m.commands id = [] then none
      else some ((fieldsOf m.commands id).foldl (fun fs f => insertFormField m.document f fs) []) := fun id => by
    rw [← filter_filterMap_formField?]
    exact get?_foldl_indexFormField m.document _ .empty id
  have hspans : ∀ id, ∀ f ∈ fieldsOf m.commands id, (f.span? m.document).isSome = true := fun id f hf => by
    obtain ⟨-, c, hc, hpending, hk, hb⟩ := mem_fieldsOf.1 hf
    exact Document.isSome_span?_iff.2 (hb ▸ hbookmarks c hc hpending id _ hk)
  constructor
  · intro id
    rw [Dictionary.mem_keys_iff, hget]
    constructor
    · intro h
      split at h
      next => cases h
      next hne =>
        obtain ⟨f, hf⟩ := List.exists_mem_of_ne_nil _ hne
        obtain ⟨-, c, hc, hpending, hk, -⟩ := mem_fieldsOf.1 hf
        exact ⟨c, hc, hpending, _, hk⟩
    · rintro ⟨c, hc, hpending, transform, hk⟩
      have hf : ⟨id, c.bookmark, transform⟩ ∈ fieldsOf m.commands id :=
        mem_fieldsOf.2 ⟨rfl, c, hc, hpending, hk, rfl⟩
      rw [if_neg (List.ne_nil_of_mem hf)]
      rfl
  · intro id fs hfs
    rw [hget] at hfs
    split at hfs
    next => cases hfs
    next =>
      obtain rfl := Option.some.inj hfs
      exact inDocumentOrder_foldl (hspans id)

/-- A pending command that asks for a form field. -/
def fieldCommand (bookmark id : String) (transform : Option String) : Command :=
  ⟨bookmark, .leaf "DOC", .insertFormValue id transform, false, false, false⟩

/-- A document with form fields, two of them over one text, that are known in another order, and an index from
before. -/
def scatteredFields : Model :=
  { Model.ofDocument { Document.ofText "0123456789".toList with
      bookmarks := [⟨"upper", ⟨4, 6⟩⟩, ⟨"city", ⟨7, 9⟩⟩, ⟨"name", ⟨0, 3⟩⟩, ⟨"lower", ⟨4, 6⟩⟩, ⟨"trim", ⟨0, 6⟩⟩] } with
    commands := [fieldCommand "upper" "Name" (some "upper"), fieldCommand "city" "City" none,
      (fieldCommand "gone" "Name" none).setFailed true, fieldCommand "name" "Name" none,
      fieldCommand "lower" "Name" (some "lower"), fieldCommand "trim" "Name" (some "trim")]
    formFields := .ofList [("Street", [⟨"Street", "street", none⟩])] }

theorem isFormFieldIndex_scanFormFields_scatteredFields :
    IsFormFieldIndex scatteredFields.document scatteredFields.commands
      scatteredFields.scanFormFields.formFields ∧
    scatteredFields.scanFormFields.formFields.entries.map (fun e => (e.1, e.2.map (·.bookmark))) =
      [("City", ["city"]), ("Name", ["trim", "name", "upper", "lower"])] := by
  have hbookmarks : ∀ c ∈ scatteredFields.commands, c.isPending = true →
      c.bookmark ∈ scatteredFields.document.names := by decide
  exact ⟨isFormFieldIndex_scanFormFields scatteredFields fun c hc hpending _ _ _ => hbookmarks c hc hpending,
    by cbv⟩

end TemplateEngine
