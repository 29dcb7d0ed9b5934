import TemplateEngine.Document.WellFormed
import TemplateEngine.DocumentFile.Basic
import TemplateEngine.Proofs.Bookmarks

/-!
# Saving — a document survives its file

Reading a file adds its parts one by one and checks each span against the text, which no step changes.

* `toDocument_eq_ok_iff`: a file gives a document exactly if it is sound, and the document is what its parts
  add up to (`DocumentFile.assemble`).
* `assemble_ofDocument`: the parts of a document's own file add up to the document as it is opened again
  (`Document.reopened`).  Bookmarks keep their names as these are distinct, fields are numbered anew, and
  each family gets its style names back under its own name.
-/

namespace TemplateEngine

/-! ### Checked folds -/

/-- A fold whose steps check their entries, where no step changes what is checked against. -/
theorem foldlM_eq_ok_iff {α β ε : Type} {f : α → β → Except ε α} {g : α → β → α} {I : α → Prop}
    {P : β → Prop} (hstep : ∀ a b a', I a → (f a b = .ok a' ↔ P b ∧ g a b = a'))
    (hkeep : ∀ a b, I a → I (g a b)) {bs : List β} {a a' : α} (ha : I a) :
    bs.foldlM f a = .ok a' ↔ (∀ b ∈ bs, P b) ∧ bs.foldl g a = a' := by
  induction bs generalizing a with
  | nil => simp [pure, Except.pure]
  | cons b bs ih =>
    rw [List.foldlM_cons, List.foldl_cons]
    cases hb : f a b with
    | error e =>
      have hnot : ¬ P b := fun hP => by
        rw [(hstep a b _ ha).2 ⟨hP, rfl⟩] at hb
        cases hb
      simp [bind, Except.bind, hnot]
    | ok a₁ =>
      obtain ⟨hP, rfl⟩ := (hstep a b a₁ ha).1 hb
      show bs.foldlM f (g a b) = .ok a' ↔ _
      rw [ih (hkeep a b ha)]
      simp [hP]

/-! ### Styles -/

namespace StyleSheet

/-- The sheet with the style names of a family that goes by a name. -/
def addNamed (s : StyleSheet) (e : String × NameSet) : StyleSheet :=
  match StyleFamily.ofName? e.1 with
  | none => s
  | some f => s.addAll f e.2.names

theorem ext_get {s t : StyleSheet} (h : ∀ f, s.get f = t.get f) : s = t := by
  obtain ⟨text, page, numbering⟩ := s
  have htext := h .text
  have hpage := h .page
  have hnumbering := h .numbering
  simp only [get] at htext hpage hnumbering
  subst htext hpage hnumbering
  rfl

theorem addAll_cons (s : StyleSheet) (f : StyleFamily) (x : String) (xs : List String) :
    s.addAll f (x :: xs) = (s.addAll f [x]).addAll f xs := by
  cases f <;> rfl

theorem mem_get_addAll {s : StyleSheet} {f g : StyleFamily} {names : List String} {x : String} :
    x ∈ ((s.addAll f names).get g).names ↔ x ∈ (s.get g).names ∨ f = g ∧ x ∈ names := by
  rw [addAll, get_set]
  by_cases h : f = g
  · subst h
    rw [if_pos rfl, NameSet.mem_insertAll]
    simp [or_comm]
  · simp [h]

theorem mem_get_addNamed {s : StyleSheet} {e : String × NameSet} {g : StyleFamily} {x : String} :
    x ∈ ((s.addNamed e).get g).names ↔
      x ∈ (s.get g).names ∨ StyleFamily.ofName? e.1 = some g ∧ x ∈ e.2.names := by
  unfold addNamed
  split
  next h => simp [h]
  next f h => simp [mem_get_addAll, h]

/-- The style names of a family after those of a list were added. -/
theorem mem_get_foldl_addNamed {es : List (String × NameSet)} {s : StyleSheet} {g : StyleFamily}
    {x : String} : x ∈ ((es.foldl addNamed s).get g).names ↔
      x ∈ (s.get g).names ∨ ∃ e ∈ es, StyleFamily.ofName? e.1 = some g ∧ x ∈ e.2.names := by
  induction es generalizing s with
  | nil => simp
  | cons e es ih => simp [ih, mem_get_addNamed, or_assoc]

end StyleSheet

namespace Document

theorem foldl_addStyle (d : Document) (f : StyleFamily) (names : List String) :
    names.foldl (fun d name => d.addStyle f name) d = { d with styles := d.styles.addAll f names } := by
  induction names generalizing d with
  | nil => cases f <;> rfl
  | cons x xs ih => rw [List.foldl_cons, ih, StyleSheet.addAll_cons]; rfl

/-! ### Adding the parts of a file -/

/-- The document with a style family of a file. -/
def addNamedStyles (d : Document) (e : String × NameSet) : Document :=
  { d with styles := d.styles.addNamed e }

/-- The document with more bookmarks. -/
def addBookmarks (d : Document) (bs : List Bookmark) : Document :=
  bs.foldl (fun d b => (d.addBookmark b.name b.span).1) d

/-- The document with more fields. -/
def addFields (d : Document) (fs : List FieldEntry) : Document :=
  fs.foldl (fun d f => (d.addField f.kind f.span).1) d

/-- The document with more annotations. -/
def addAnnotations (d : Document) (as : List Annotation) : Document :=
  as.foldl (fun d a => d.addAnnotation a.text a.span) d

theorem addBookmarks_eq {d : Document} {bs : List Bookmark}
    (h : (d.names ++ bs.map (·.name)).Nodup) :
    d.addBookmarks bs = { d with bookmarks := d.bookmarks ++ bs } := by
  induction bs generalizing d with
  | nil => simp [addBookmarks]
  | cons b bs ih =>
    have hfree : b.name ∉ d.names := fun hmem =>
      (List.nodup_append.1 h).2.2 b.name hmem b.name (by simp) rfl
    have hname := uniqueName_of_notMem hfree
    have hrest : ((d.addBookmark b.name b.span).1.names ++ bs.map (·.name)).Nodup := by
      rw [names_addBookmark, hname]
      simpa using h
    rw [addBookmarks, List.foldl_cons]
    show (d.addBookmark b.name b.span).1.addBookmarks bs = _
    rw [ih hrest, addBookmark, hname]
    simp

theorem nodup_addBookmarks {d : Document} (hd : d.names.Nodup) (bs : List Bookmark) :
    (d.addBookmarks bs).names.Nodup :=
  foldl_invariant (I := fun d : Document => d.names.Nodup)
    (fun _ b h => nodup_addBookmark h b.name b.span) bs hd

theorem text_addBookmarks (d : Document) (bs : List Bookmark) : (d.addBookmarks bs).text = d.text :=
  foldl_invariant (I := fun d' : Document => d'.text = d.text)
    (f := fun (d : Document) (b : Bookmark) => (d.addBookmark b.name b.span).1) (fun _ _ h => h) bs rfl

theorem addFields_eq (d : Document) (fs : List FieldEntry) :
    d.addFields fs =
      { d with
        fields := d.fields ++ (fs.zipIdx d.nextFieldId).map fun p => ⟨p.2, p.1.kind, p.1.span⟩
        nextFieldId := d.nextFieldId + fs.length } := by
  induction fs generalizing d with
  | nil => simp [addFields]
  | cons f fs ih =>
    rw [addFields, List.foldl_cons]
    show (d.addField f.kind f.span).1.addFields fs = _
    rw [ih]
    simp [addField, Nat.add_assoc, Nat.add_comm 1]

theorem text_addFields (d : Document) (fs : List FieldEntry) : (d.addFields fs).text = d.text := by
  rw [addFields_eq]

theorem addAnnotations_eq (d : Document) (as : List Annotation) :
    d.addAnnotations as = { d with annotations := d.annotations ++ as } := by
  induction as generalizing d with
  | nil => simp [addAnnotations]
  | cons a as ih =>
    rw [addAnnotations, List.foldl_cons]
    show (d.addAnnotation a.text a.span).addAnnotations as = _
    rw [ih]
    unfold addAnnotation
    simp

theorem foldl_addNamedStyles (d : Document) (es : List (String × NameSet)) :
    es.foldl addNamedStyles d = { d with styles := es.foldl StyleSheet.addNamed d.styles } := by
  induction es generalizing d with
  | nil => rfl
  | cons e es ih => rw [List.foldl_cons, ih]; rfl

end Document

/-! ### Reading a file -/

namespace DocumentFile

/-- All spans of a file lie in its text, between characters, and it knows the names of its style
families. -/
structure IsSound (f : DocumentFile) : Prop where
  bookmarks : ∀ b ∈ f.bookmarks, b.span.fits f.text.toList
  fields : ∀ e ∈ f.fields, e.span.fits f.text.toList
  annotations : ∀ a ∈ f.annotations, a.span.fits f.text.toList
  styles : ∀ e ∈ f.styles.entries, (StyleFamily.ofName? e.1).isSome

/-- What the parts of a file add up to. -/
def assemble (f : DocumentFile) : Document :=
  let d := (((Document.ofText f.text.toList).addBookmarks f.bookmarks).addFields f.fields).addAnnotations
    f.annotations
  { f.styles.entries.foldl Document.addNamedStyles d with
    values := f.values, metadata := f.metadata, location := f.location }

theorem bind_eq_ok_iff {α β ε : Type} {x : Except ε α} {f : α → Except ε β} {b : β} :
    x >>= f = .ok b ↔ ∃ a, x = .ok a ∧ f a = .ok b := by
  cases x <;> simp [bind, Except.bind]

theorem check_bind_eq_ok_iff {α : Type} {t : Text} {what : String} {s : Span} {a b : α} :
    (do check t what s; return a) = Except.ok b ↔ s.fits t = true ∧ a = b := by
  unfold check
  split
  next h => simp [bind, Except.bind, pure, Except.pure, h]
  next h => simp [bind, Except.bind, h]

theorem addStyles_eq_ok_iff {d d' : Document} {e : String × NameSet} :
    addStyles d e = .ok d' ↔ (StyleFamily.ofName? e.1).isSome = true ∧ d.addNamedStyles e = d' := by
  unfold addStyles Document.addNamedStyles StyleSheet.addNamed
  cases StyleFamily.ofName? e.1 with
  | none => simp
  | some f => simp [Document.foldl_addStyle]

theorem foldlM_addBookmark_eq_ok_iff {d d' : Document} {bs : List Bookmark} :
    bs.foldlM addBookmark d = .ok d' ↔
      (∀ b ∈ bs, b.span.fits d.text = true) ∧ d.addBookmarks bs = d' := by
  refine foldlM_eq_ok_iff (I := fun a : Document => a.text = d.text)
    (g := fun (d : Document) (b : Bookmark) => (d.addBookmark b.name b.span).1)
    (fun a b a' ha => ?_) (fun _ _ ha => ha) rfl
  rw [← ha, ← check_bind_eq_ok_iff]
  rfl

theorem foldlM_addField_eq_ok_iff {d d' : Document} {fs : List FieldEntry} :
    fs.foldlM addField d = .ok d' ↔
      (∀ e ∈ fs, e.span.fits d.text = true) ∧ d.addFields fs = d' := by
  refine foldlM_eq_ok_iff (I := fun a : Document => a.text = d.text)
    (g := fun (d : Document) (e : FieldEntry) => (d.addField e.kind e.span).1)
    (fun a e a' ha => ?_) (fun _ _ ha => ha) rfl
  rw [← ha, ← check_bind_eq_ok_iff]
  rfl

theorem foldlM_addAnnotation_eq_ok_iff {d d' : Document} {as : List Annotation} :
    as.foldlM addAnnotation d = .ok d' ↔
      (∀ a ∈ as, a.span.fits d.text = true) ∧ d.addAnnotations as = d' := by
  refine foldlM_eq_ok_iff (I := fun x : Document => x.text = d.text)
    (g := fun (d : Document) (a : Annotation) => d.addAnnotation a.text a.span)
    (fun x a x' hx => ?_) (fun _ _ hx => hx) rfl
  rw [← hx, ← check_bind_eq_ok_iff]
  rfl

theorem foldlM_addStyles_eq_ok_iff {d d' : Document} {es : List (String × NameSet)} :
    es.foldlM addStyles d = .ok d' ↔ (∀ e ∈ es, (StyleFamily.ofName? e.1).isSome = true) ∧
      es.foldl Document.addNamedStyles d = d' :=
  foldlM_eq_ok_iff (f := addStyles) (g := Document.addNamedStyles) (I := fun _ => True)
    (P := fun e => (StyleFamily.ofName? e.1).isSome = true)
    (fun _ _ _ _ => addStyles_eq_ok_iff) (fun _ _ _ => trivial) trivial

/-- A file gives a document exactly if it is sound, and then what its parts add up to. -/
theorem toDocument_eq_ok_iff {f : DocumentFile} {d : Document} :
    f.toDocument = .ok d ↔ f.IsSound ∧ f.assemble = d := by
  have htext : ((Document.ofText f.text.toList).addBookmarks f.bookmarks).text = f.text.toList :=
    Document.text_addBookmarks _ _
  simp only [toDocument, bind_eq_ok_iff, foldlM_addBookmark_eq_ok_iff, foldlM_addField_eq_ok_iff,
    foldlM_addAnnotation_eq_ok_iff, foldlM_addStyles_eq_ok_iff]
  constructor
  · rintro ⟨_, ⟨hbookmarks, rfl⟩, _, ⟨hfields, rfl⟩, _, ⟨hannotations, rfl⟩, _, ⟨hstyles, rfl⟩, hd⟩
    rw [Document.text_addFields, htext] at hannotations
    rw [htext] at hfields
    exact ⟨⟨hbookmarks, hfields, hannotations, hstyles⟩, Except.ok.inj hd⟩
  · rintro ⟨hf, rfl⟩
    refine ⟨_, ⟨hf.bookmarks, rfl⟩, _, ⟨?_, rfl⟩, _, ⟨?_, rfl⟩, _, ⟨hf.styles, rfl⟩, rfl⟩
    · rw [htext]
      exact hf.fields
    · rw [Document.text_addFields, htext]
      exact hf.annotations

theorem nodup_assemble (f : DocumentFile) : f.assemble.names.Nodup := by
  have hnames : f.assemble.names = ((Document.ofText f.text.toList).addBookmarks f.bookmarks).names := by
    simp [assemble, Document.names, Document.foldl_addNamedStyles, Document.addFields_eq,
      Document.addAnnotations_eq]
  rw [hnames]
  exact Document.nodup_addBookmarks (d := Document.ofText f.text.toList) List.nodup_nil f.bookmarks

/-! ### The file of a document -/

/-- The families of a document's file are those that have styles, under their own names. -/
theorem mem_styles_ofDocument {d : Document} {e : String × NameSet} :
    e ∈ (ofDocument d).styles.entries ↔
      ∃ f : StyleFamily, (d.styles.get f).names ≠ [] ∧ e = (f.name, d.styles.get f) := by
  have hkeys : (((StyleFamily.all.filter fun f => !(d.styles.get f).names.isEmpty).map fun f =>
      (f.name, d.styles.get f)).map (·.1)).Nodup := by
    rw [List.map_map]
    exact (show (StyleFamily.all.map (·.name)).Nodup by decide).sublist
      (List.filter_sublist.map StyleFamily.name)
  show e ∈ (Dictionary.ofList _).entries ↔ _
  rw [Dictionary.mem_entries_ofList hkeys]
  constructor
  · intro he
    obtain ⟨f, hf, rfl⟩ := List.mem_map.1 he
    exact ⟨f, by simpa using (List.mem_filter.1 hf).2, rfl⟩
  · rintro ⟨f, hne, rfl⟩
    exact List.mem_map_of_mem (f := fun f : StyleFamily => (f.name, d.styles.get f))
      (List.mem_filter.2 ⟨f.mem_all, by simpa using hne⟩)

theorem ofName?_name (f : StyleFamily) : StyleFamily.ofName? f.name = some f := by
  cases f <;> cbv

/-- The styles of a document's file are the document's. -/
theorem foldl_styles_ofDocument (d : Document) :
    (ofDocument d).styles.entries.foldl StyleSheet.addNamed .empty = d.styles := by
  refine StyleSheet.ext_get fun g => NameSet.ext_mem fun x => ?_
  have hempty : (StyleSheet.empty.get g).names = [] := by cases g <;> rfl
  rw [StyleSheet.mem_get_foldl_addNamed, hempty]
  constructor
  · rintro (hx | ⟨e, he, hname, hx⟩)
    · simp at hx
    · obtain ⟨f, -, rfl⟩ := mem_styles_ofDocument.1 he
      rw [ofName?_name] at hname
      obtain rfl := Option.some.inj hname
      exact hx
  · intro hx
    exact .inr ⟨(g.name, d.styles.get g),
      mem_styles_ofDocument.2 ⟨g, List.ne_nil_of_mem hx, rfl⟩, ofName?_name g, hx⟩

end DocumentFile

/-! ### Saving and opening again -/

namespace Document

/-- Distinct bookmark names, and spans of bookmarks, fields and annotations that lie in the text between
characters. -/
structure Storable (d : Document) : Prop where
  names : (d.bookmarks.map (·.name)).Nodup
  bookmarks : ∀ b ∈ d.bookmarks, b.span.fits d.text
  fields : ∀ f ∈ d.fields, f.span.fits d.text
  annotations : ∀ a ∈ d.annotations, a.span.fits d.text

/-- The document as it is opened again: its fields are numbered anew, and the view cursor, the flags and
the locks are those of a document that was just opened. -/
def reopened (d : Document) : Document :=
  { d with
    fields := d.fields.zipIdx.map fun p => { p.1 with id := p.2 }
    cursor := none
    modified := false
    modifiable := true
    locks := 0
    nextFieldId := d.fields.length }

end Document

namespace DocumentFile

theorem isSound_ofDocument {d : Document} (hd : d.Storable) : (ofDocument d).IsSound where
  bookmarks := by simpa [ofDocument] using hd.bookmarks
  fields := by simpa [ofDocument] using hd.fields
  annotations := by simpa [ofDocument] using hd.annotations
  styles := by
    intro e he
    obtain ⟨f, -, rfl⟩ := mem_styles_ofDocument.1 he
    simp [ofName?_name]

theorem assemble_ofDocument {d : Document} (hd : (d.bookmarks.map (·.name)).Nodup) :
    (ofDocument d).assemble = d.reopened := by
  have hnames : ((Document.ofText (ofDocument d).text.toList).names ++
      (ofDocument d).bookmarks.map (·.name)).Nodup := hd
  have hstyles := foldl_styles_ofDocument d
  rw [assemble, Document.addBookmarks_eq hnames, Document.addFields_eq, Document.addAnnotations_eq,
    Document.foldl_addNamedStyles]
  simp only [Document.ofText, hstyles]
  simp [ofDocument, Document.reopened, List.zipIdx_map]

/-- Documents survive their files: the file of a document gives the document again, and any file gives a
document, with distinct bookmark names, exactly if it is sound. -/
theorem toDocument_ofDocument :
    (∀ d : Document, d.Storable → (ofDocument d).toDocument = .ok d.reopened) ∧
    ∀ f : DocumentFile, ((∃ d, f.toDocument = .ok d) ↔ f.IsSound) ∧
      ∀ d, f.toDocument = .ok d → (d.bookmarks.map (·.name)).Nodup := by
  refine ⟨fun d hd => ?_, fun f => ⟨?_, fun d hd => ?_⟩⟩
  · exact toDocument_eq_ok_iff.2 ⟨isSound_ofDocument hd, assemble_ofDocument hd.names⟩
  · simp [toDocument_eq_ok_iff]
  · obtain ⟨-, rfl⟩ := toDocument_eq_ok_iff.1 hd
    exact nodup_assemble f

/-- An edited letter: its fields have ids from its history, a bookmark ends behind a letter of two bytes,
and two families have styles. -/
def editedLetter : Document :=
  { Document.ofText "é, ?".toList with
    bookmarks := [⟨"greeting", ⟨0, 2⟩⟩, ⟨"greeting1", ⟨2, 2⟩⟩]
    fields := [⟨7, .placeholder "?", ⟨4, 5⟩⟩, ⟨3, .computed "total", ⟨5, 5⟩⟩]
    annotations := [⟨"note", ⟨0, 5⟩⟩]
    styles := ⟨.ofList ["Body"], .empty, .ofList ["List"]⟩
    cursor := some ⟨4, 5⟩
    modified := true
    nextFieldId := 8 }

theorem toDocument_ofDocument_editedLetter :
    editedLetter.Storable ∧ (ofDocument editedLetter).toDocument = .ok editedLetter.reopened ∧
      editedLetter.reopened.fields.map (·.id) = [0, 1] := by
  have hstorable : editedLetter.Storable := ⟨by decide, by decide, by decide, by decide⟩
  exact ⟨hstorable, toDocument_ofDocument.1 editedLetter hstorable, rfl⟩

end DocumentFile

end TemplateEngine
