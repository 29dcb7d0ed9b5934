import TemplateEngine.Proofs.Bystanders
import TemplateEngine.Proofs.Saving

/-!
# Keeping the cursor — a placeholder and the cursor on it move together

An edit sends every span the same way, be it that of a field or that of the view cursor, unless it is made on
behalf of a field; and that is done for computed fields only.  So a cursor that covers what a placeholder covers
does so after every operation, for as long as the placeholder exists, and no new field gets its id
(`Document.KeepsCursor`).
-/

namespace TemplateEngine

namespace Document

/-- Whether fields have different ids, all of them from the past. -/
structure Numbered (d : Document) : Prop where
  ids : (d.fields.map (·.id)).Nodup
  fresh : ∀ f ∈ d.fields, f.id < d.nextFieldId

/-- Whether an id is that of a placeholder, or of none that exists any more. -/
structure Reserves (d : Document) (id : Nat) : Prop where
  known : id < d.nextFieldId
  placeholder : ∀ f, d.field? id = some f → f.isPlaceholder = true

/-- Whether the cursor covers what a field covers, if the field exists. -/
def CursorOn (d : Document) (id : Nat) : Prop := ∀ f, d.field? id = some f → d.cursor = some f.span

/-- An operation keeps the cursor on every placeholder that it is on. -/
structure KeepsCursor (d d' : Document) : Prop where
  numbered : d.Numbered → d'.Numbered
  reserves : d.Numbered → ∀ id, d.Reserves id → d'.Reserves id
  cursorOn : d.Numbered → ∀ id, d.Reserves id → d.CursorOn id → d'.CursorOn id

theorem mem_of_field? {d : Document} {id : Nat} {f : Field} (h : d.field? id = some f) :
    f ∈ d.fields ∧ f.id = id :=
  ⟨List.mem_of_find?_eq_some h, by simpa using List.find?_some h⟩

theorem Numbered.field?_eq_some {d : Document} (hd : d.Numbered) {f : Field} (hf : f ∈ d.fields) :
    d.field? f.id = some f := by
  cases hfind : d.field? f.id with
  | none => simpa using List.find?_eq_none.1 hfind f hf
  | some g =>
    obtain ⟨hg, hid⟩ := mem_of_field? hfind
    rw [List.inj_on_of_nodup_map hd.ids hg hf hid]

namespace KeepsCursor

theorem refl (d : Document) : d.KeepsCursor d := ⟨id, fun _ _ h => h, fun _ _ _ h => h⟩

theorem trans {d d' d'' : Document} (h : d.KeepsCursor d') (h' : d'.KeepsCursor d'') : d.KeepsCursor d'' where
  numbered hd := h'.numbered (h.numbered hd)
  reserves hd id hid := h'.reserves (h.numbered hd) id (h.reserves hd id hid)
  cursorOn hd id hid hon := h'.cursorOn (h.numbered hd) id (h.reserves hd id hid) (h.cursorOn hd id hid hon)

/-- What leaves fields and cursor as they are. -/
theorem of_eq {d d' : Document} (hfields : d'.fields = d.fields) (hnext : d'.nextFieldId = d.nextFieldId)
    (hcursor : d'.cursor = d.cursor) : d.KeepsCursor d' := by
  have hfield : ∀ id, d'.field? id = d.field? id := fun id => by rw [field?, field?, hfields]
  refine ⟨fun hd => ⟨hfields ▸ hd.ids, hnext ▸ hfields ▸ hd.fresh⟩, fun _ id hid => ⟨hnext ▸ hid.known, ?_⟩,
    fun _ id _ hon => ?_⟩
  · simpa only [hfield] using hid.placeholder
  · simpa only [CursorOn, hfield, hcursor] using hon

theorem of_numbered {d d' : Document} (h : d.Numbered → d.KeepsCursor d') : d.KeepsCursor d' :=
  ⟨fun hd => (h hd).numbered hd, fun hd => (h hd).reserves hd, fun hd => (h hd).cursorOn hd⟩

theorem of_sameParts {d d' : Document} (h : SameParts d d') : d.KeepsCursor d' :=
  of_eq h.fields h.nextFieldId h.cursor

/-- What drops fields, moves the others, and moves the cursor with each of their spans. -/
theorem of_moved {d d' : Document} (hids : (d'.fields.map (·.id)).Sublist (d.fields.map (·.id)))
    (hnext : d'.nextFieldId = d.nextFieldId)
    (h : ∀ f' ∈ d'.fields, ∃ f ∈ d.fields, f'.id = f.id ∧ f'.kind = f.kind ∧
      (f.isPlaceholder = true → d.cursor = some f.span → d'.cursor = some f'.span)) : d.KeepsCursor d' where
  numbered hd := by
    refine ⟨hd.ids.sublist hids, fun f' hf' => ?_⟩
    obtain ⟨f, hf, hid, -⟩ := h f' hf'
    rw [hid, hnext]
    exact hd.fresh f hf
  reserves hd id hid := by
    refine ⟨hnext ▸ hid.known, fun f' hf' => ?_⟩
    obtain ⟨hmem, rfl⟩ := mem_of_field? hf'
    obtain ⟨f, hf, hsame, hkind, -⟩ := h f' hmem
    rw [Field.isPlaceholder, hkind]
    exact hid.placeholder f (hsame ▸ hd.field?_eq_some hf)
  cursorOn hd id hid hon := by
    intro f' hf'
    obtain ⟨hmem, rfl⟩ := mem_of_field? hf'
    obtain ⟨f, hf, hsame, -, hmoved⟩ := h f' hmem
    have hfind : d.field? f'.id = some f := hsame ▸ hd.field?_eq_some hf
    exact hmoved (hid.placeholder f hfind) (hon f hfind)

end KeepsCursor

/-! ### Edits -/

/-- An edit, unless it is made on behalf of a placeholder. -/
theorem keepsCursor_edit {d : Document} {s : Span} {new : Text} {owner : Option Owner}
    (howner : ∀ f ∈ d.fields, owner = some (.field f.id) → f.isPlaceholder = false) :
    Ends (fun _ => True) (d.edit s new owner) d.KeepsCursor := by
  unfold edit
  split
  · trivial
  next text _ =>
    refine KeepsCursor.of_moved (map_id_filterMap_sublist _ _) rfl fun f' hf' => ?_
    obtain ⟨f, hf, hfollow⟩ := List.mem_filterMap.1 hf'
    refine ⟨f, hf, ?_⟩
    unfold Replacement.field? at hfollow
    split at hfollow
    next hown =>
      obtain rfl := Option.some.inj hfollow
      exact ⟨rfl, rfl, fun hplaceholder => absurd hplaceholder (by simp [howner f hf hown])⟩
    next =>
      obtain ⟨s', hs', rfl⟩ := Option.map_eq_some_iff.1 hfollow
      refine ⟨rfl, rfl, fun _ hcursor => ?_⟩
      -- the cursor is sent where the span of the field is sent
      show d.cursor.map _ = some s'
      rw [hcursor, Option.map_some, Replacement.cursor, hs', Option.getD_some]

theorem keepsCursor_setBookmarkText (d : Document) (name : String) (t : Text) :
    Ends (fun _ => True) (d.setBookmarkText name t) fun a => ∀ d', a = .ok d' → d.KeepsCursor d' := by
  unfold setBookmarkText
  split
  · rintro _ ⟨⟩
  · refine Ends.andThen (keepsCursor_edit fun f _ h => nomatch h) fun d' hd' => ?_
    rintro _ ⟨⟩
    exact hd'

theorem keepsCursor_deleteParagraph (d : Document) (r : TextRange) :
    Ends (fun _ => True) (d.deleteParagraph r) fun a => ∀ d', a = .ok d' → d.KeepsCursor d' := by
  unfold deleteParagraph
  split
  · rintro _ ⟨⟩
  split
  · trivial
  · refine Ends.andThen (keepsCursor_edit fun f _ h => nomatch h) fun d' hd' => ?_
    rintro _ ⟨⟩
    exact hd'

/-- A placeholder that is filled in is gone; the cursor goes with the others. -/
theorem keepsCursor_replacePlaceholder (d : Document) (id : Nat) (t : Text) :
    Ends (fun _ => True) (d.replacePlaceholder id t) fun a => ∀ d', a = .ok d' → d.KeepsCursor d' := by
  unfold replacePlaceholder
  split
  · rintro _ ⟨⟩
  · refine Ends.andThen (keepsCursor_edit fun f _ h => nomatch h) fun d' hd' => ?_
    rintro _ ⟨⟩
    refine hd'.trans (.of_moved (List.filter_sublist.map _) rfl fun f hf => ?_)
    exact ⟨f, (List.mem_filter.1 hf).1, rfl, rfl, fun _ h => h⟩

/-- Refreshing edits on behalf of a computed field. -/
theorem keepsCursor_refreshElement (d : Document) (e : Element) :
    Ends (fun _ => True) (d.refreshElement e) fun o => ∀ d', o = some (.ok d') → d.KeepsCursor d' := by
  unfold refreshElement
  split
  · rintro _ ⟨⟩
  next id =>
  split
  · rintro _ ⟨⟩
  next f hf =>
  split
  · rintro _ ⟨⟩
  next source hkind =>
  split
  · rintro _ ⟨⟩
  next value _ =>
    refine Ends.andThen (Ends.of_forall fun d' hd' => hd') fun d' (hedit : d.edit _ _ _ = _) => ?_
    rintro _ ⟨⟩
    refine .of_numbered fun hd => (keepsCursor_edit fun g hg howner => ?_).of_eq_ok hedit
    obtain rfl : f = g := by
      obtain rfl : id = g.id := by simpa using howner
      exact Option.some.inj (hf.symm.trans (hd.field?_eq_some hg))
    rw [Field.isPlaceholder, hkind]

/-! ### Bookmarks, notes and contents -/

theorem keepsCursor_insertBookmark {d : Document} {name : String} {r : TextRange} {p : Document × String}
    (h : d.insertBookmark name r = .ok p) : d.KeepsCursor p.1 := by
  obtain rfl := addBookmark_of_insertBookmark h
  exact .of_eq rfl rfl rfl

theorem DifferInBookmarks.keepsCursor {d d' : Document} (h : d.DifferInBookmarks d') : d.KeepsCursor d' :=
  .of_eq h.fields h.nextFieldId (h.congr (·.cursor) fun _ => rfl)

theorem keepsCursor_annotated {d d' : Document} {r : TextRange} {text : String}
    (h : d.insertAnnotation r text = .ok d') : d.KeepsCursor d' := by
  obtain rfl := addAnnotation_of_insertAnnotation h
  exact .of_eq rfl rfl rfl

/-- A new field has an id that no field had. -/
theorem keepsCursor_addField (d : Document) (kind : FieldKind) (s : Span) :
    d.KeepsCursor (d.addField kind s).1 := by
  have hold : ∀ id, d.Reserves id → (d.addField kind s).1.field? id = d.field? id := by
    intro id hid
    show (d.fields ++ [_]).find? _ = d.fields.find? _
    have hnew : ¬d.nextFieldId = id := Nat.ne_of_gt hid.known
    simp [List.find?_append, hnew]
  refine ⟨fun hd => ⟨?_, fun f hf => ?_⟩, fun hd id hid => ⟨Nat.lt_succ_of_lt hid.known, ?_⟩,
    fun hd id hid hon => ?_⟩
  · show ((d.fields ++ [_]).map Field.id).Nodup
    rw [List.map_append, List.nodup_append]
    refine ⟨hd.ids, by simp, ?_⟩
    rintro i hi j hj rfl
    obtain ⟨g, hg, rfl⟩ := List.mem_map.1 hi
    have hnew : g.id = d.nextFieldId := by simpa using hj
    exact Nat.ne_of_lt (hd.fresh g hg) hnew
  · rcases List.mem_append.1 hf with hf | hf
    · exact Nat.lt_succ_of_lt (hd.fresh f hf)
    · obtain rfl := List.mem_singleton.1 hf
      exact Nat.lt_succ_self _
  · rw [hold id hid]
    exact hid.placeholder
  · intro f hf
    rw [hold id hid] at hf
    exact hon f hf

theorem keepsCursor_adopt (d content : Document) (offset : Nat) : d.KeepsCursor (d.adopt content offset) := by
  let I : Document → Prop := d.KeepsCursor
  show I (d.adopt content offset)
  refine foldl_invariant (I := I) (fun d' a hd' => ?_) _ (foldl_invariant (I := I) (fun d' f hd' => ?_) _
    (foldl_invariant (I := I) (fun d' b hd' => ?_) _ (.refl d)))
  · exact hd'.trans (.of_eq rfl rfl rfl)
  · exact hd'.trans (keepsCursor_addField d' f.kind _)
  · exact hd'.trans (.of_eq rfl rfl rfl)

theorem keepsCursor_insertContent (d : Document) (r : TextRange) (content : Document) :
    Ends (fun _ => True) (d.insertContent r content) fun a => ∀ d', a = .ok d' → d.KeepsCursor d' := by
  unfold insertContent
  split
  · rintro _ ⟨⟩
  · refine Ends.andThen (keepsCursor_edit fun f _ h => nomatch h) fun d' hd' => ?_
    rintro _ ⟨⟩
    exact hd'.trans (keepsCursor_adopt d' content r.start)

/-! ### Documents that are opened -/

theorem numbered_ofText (t : Text) : (ofText t).Numbered := ⟨List.nodup_nil, fun _ h => nomatch h⟩

end Document

/-- The fields of a document that is read are numbered as they are added. -/
theorem DocumentFile.numbered_of_toDocument {f : DocumentFile} {d : Document} (h : f.toDocument = .ok d) :
    d.Numbered := by
  obtain ⟨-, rfl⟩ := toDocument_eq_ok_iff.1 h
  have hbookmarks : ((Document.ofText f.text.toList).addBookmarks f.bookmarks).Numbered :=
    Document.foldl_invariant (I := Document.Numbered)
      (f := fun (d : Document) (b : Bookmark) => (d.addBookmark b.name b.span).1)
      (fun _ _ hd => ⟨hd.ids, hd.fresh⟩) _ (Document.numbered_ofText _)
  have hfields : (((Document.ofText f.text.toList).addBookmarks f.bookmarks).addFields f.fields).Numbered :=
    Document.foldl_invariant (I := Document.Numbered)
      (f := fun (d : Document) (e : FieldEntry) => (d.addField e.kind e.span).1)
      (fun d e hd => (Document.keepsCursor_addField d e.kind e.span).numbered hd) _ hbookmarks
  rw [assemble, Document.foldl_addNamedStyles, Document.addAnnotations_eq]
  exact ⟨hfields.ids, hfields.fresh⟩

open Document

/-! ### Steps of a run -/

theorem Command.keepsCursor_markDone (c : Command) (d : Document) (remove : Bool) :
    d.KeepsCursor (c.markDone d remove).2 :=
  (c.differInBookmarks_markDone d remove).keepsCursor

theorem keepsCursor_markFailure (d : Document) (c : Command) (reason : String) :
    Ends (fun _ => True) (markFailure d c reason) d.KeepsCursor := by
  refine Ends.andThen (keepsCursor_setBookmarkText d c.bookmark failureText) fun a ha => ?_
  cases a with
  | error e => exact .refl d
  | ok d' =>
    have hd' := ha d' rfl
    dsimp only
    split
    · exact hd'
    next range _ =>
      cases hnote : d'.insertAnnotation range (failureNote c reason) with
      | error e => exact hd'
      | ok d'' => exact hd'.trans (keepsCursor_annotated hnote)

/-- A step keeps the cursor on every placeholder that it is on, and places it on none. -/
structure Run.KeepsCursor (r r' : Run) : Prop where
  document : r.document.KeepsCursor r'.document
  flag : r'.cursorPlaced = r.cursorPlaced

namespace Run.KeepsCursor

theorem refl (r : Run) : r.KeepsCursor r := ⟨.refl _, rfl⟩

theorem trans {r r' r'' : Run} (h : r.KeepsCursor r') (h' : r'.KeepsCursor r'') : r.KeepsCursor r'' :=
  ⟨h.document.trans h'.document, h'.flag.trans h.flag⟩

theorem finish (r : Run) (c : Command) (remove : Bool) : r.KeepsCursor (r.finish c remove).2 :=
  ⟨c.keepsCursor_markDone r.document remove, rfl⟩

theorem fail (r : Run) (c : Command) (reason : String) :
    Ends (fun _ => True) (r.fail c reason) fun p => r.KeepsCursor p.2 :=
  Ends.andThen (keepsCursor_markFailure r.document c reason) fun _ hd => ⟨hd, rfl⟩

theorem write (r : Run) (c : Command) (t : Text) : Ends (fun _ => True) (r.write c t) r.KeepsCursor := by
  refine Ends.andThen (keepsCursor_setBookmarkText r.document c.bookmark t) fun a ha => ?_
  cases a with
  | error e => exact .refl r
  | ok d => exact ⟨ha d rfl, rfl⟩

theorem executeOverride (policy : Policy) (c : Command) (r : Run) :
    Ends (fun _ => True) (executeOverride policy c r) fun p => r.KeepsCursor p.2 := by
  unfold TemplateEngine.executeOverride
  split
  · split
    · exact ⟨c.keepsCursor_markDone r.document _, rfl⟩
    · exact fail r c _
  · exact .refl r

theorem failFragment (request : FragmentRequest) (id : String) (e : InsertionError) (c : Command) (r : Run) :
    Ends (fun _ => True) (failFragment request id e c r) fun p => r.KeepsCursor p.2 := by
  unfold TemplateEngine.failFragment
  split
  · exact ⟨.refl _, rfl⟩
  · exact fail r c e.message

/-- Importing styles and clearing the command's text. -/
theorem placeStyles {request : FragmentRequest} (h : request.stylesOnly = true) (content : Document)
    (c : Command) (r : Run) :
    Ends (fun _ => True) (placeFragment request content c r) fun p => r.KeepsCursor p.2.1 := by
  unfold placeFragment
  rw [if_pos h]
  have himport := Document.KeepsCursor.of_sameParts (.importStyles r.document content request.styles)
  refine Ends.andThen (keepsCursor_setBookmarkText (r.document.importStyles content request.styles) c.bookmark [])
    fun a ha => ?_
  cases a with
  | error e => exact ⟨himport, rfl⟩
  | ok d => exact ⟨himport.trans (ha d rfl), rfl⟩

theorem takeForm (policy : Policy) (c : Command) (r : Run) :
    Ends (fun _ => True) (takeForm policy c r) fun p => r.KeepsCursor p.2 := by
  unfold TemplateEngine.takeForm
  refine Ends.afterAny fun body => ?_
  split
  · exact fail r c _
  next nodes _ =>
    have hdescribe : r.KeepsCursor (r.describeForm nodes) := by
      unfold Run.describeForm
      split
      · exact .refl r
      · exact ⟨.of_sameParts (.setPersistentData _ _ _), rfl⟩
    refine Ends.andThen (keepsCursor_setBookmarkText (r.describeForm nodes).document c.bookmark []) fun a ha => ?_
    cases a with
    | error e => exact (fail _ c _).mono fun p hp => hdescribe.trans hp
    | ok d =>
      have hremoved : (r.describeForm nodes).KeepsCursor { r.describeForm nodes with document := d } :=
        ⟨ha d rfl, rfl⟩
      exact hdescribe.trans (hremoved.trans (finish _ c _))

theorem fillIn (s : Services) (c : Command) (r : Run) :
    Ends (fun _ => True) (fillIn s c r) fun p => r.KeepsCursor p.2 := by
  unfold TemplateEngine.fillIn
  split
  · exact takeForm s.policy c r
  · exact fail r c _
  · unfold insertValue
    split
    · exact fail r c _
    · exact Ends.andThen (write r c _) fun r' hr' => hr'.trans (finish r' c false)
  · exact .refl r

end Run.KeepsCursor

theorem keepsCursor_refreshOne (d : Document) (e : Element) :
    Ends (fun _ => True) (refreshOne d e) d.KeepsCursor := by
  refine Ends.andThen (keepsCursor_refreshElement d e) fun o ho => ?_
  match o with
  | none => exact .refl d
  | some (.error _) => exact .refl d
  | some (.ok d') => exact ho d' rfl

/-! ### Removing marks -/

theorem keepsCursor_collect (policy : Policy) (cs : List Command) (d : Document) :
    Ends (fun _ => True) (collect policy cs d) fun p => d.KeepsCursor p.2.1 := by
  refine Ends.visitAll (I := fun _ (s : Document × List Cleaner) => d.KeepsCursor s.1) (.refl d)
    fun before c after s hs => ?_
  unfold collectFrom
  split
  · exact hs
  · have hdone := hs.trans (c.unmark.keepsCursor_markDone s.1 (!policy.debug))
    dsimp only
    split
    · exact Ends.afterAny fun _ => hdone
    · exact hdone

theorem keepsCursor_restoreBookmark (place : TextRange) (d : Document) (name : String) :
    d.KeepsCursor (restoreBookmark place d name) := by
  unfold restoreBookmark
  split
  · exact .refl d
  · split
    next hinsert => exact keepsCursor_insertBookmark hinsert
    · exact .refl d

theorem keepsCursor_clearRange (d : Document) (r : TextRange) :
    Ends (fun _ => True) (clearRange d r) fun a => ∀ d', a = .ok d' → d.KeepsCursor d' := by
  unfold clearRange
  split
  · rintro _ ⟨⟩
  next d₁ killer hinsert =>
    refine Ends.andThen (keepsCursor_setBookmarkText d₁ killer []) fun a ha => ?_
    cases a with
    | error e => rintro _ ⟨⟩
    | ok d₂ =>
      have hd₂ : d.KeepsCursor d₂ := (keepsCursor_insertBookmark hinsert).trans (ha d₂ rfl)
      dsimp only
      split
      · rintro _ ⟨⟩
      next cleared hremove =>
        have hcleared := hd₂.trans (differInBookmarks_removeBookmark hremove).keepsCursor
        split
        · rintro _ ⟨⟩
          exact hcleared
        · rintro _ ⟨⟩
          exact foldl_invariant (I := d.KeepsCursor)
            (fun d' name hd' => hd'.trans (keepsCursor_restoreBookmark _ d' name)) _ hcleared

theorem keepsCursor_applyCleaner (d : Document) (c : Cleaner) :
    Ends (fun _ => True) (applyCleaner d c) d.KeepsCursor := by
  unfold applyCleaner
  split
  next r =>
    refine Ends.andThen (keepsCursor_clearRange d r) fun a ha => ?_
    cases a with
    | error e => exact .refl d
    | ok d' => exact ha d' rfl
  next r =>
    refine Ends.andThen (keepsCursor_deleteParagraph d r) fun a ha => ?_
    cases a with
    | error e => exact .refl d
    | ok d' => exact ha d' rfl

end TemplateEngine
