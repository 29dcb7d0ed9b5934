import TemplateEngine.Proofs.Bystanders

/-!
# Insertion — putting texts and contents in the places of commands

What the steps of a run do to the bookmark of their command and to its bystanders.  A content goes
between two marks (`insertBetweenMarks_eq`); of the fields that lie in the command's bookmark then only
empty ones touch its ends (`FieldsYield`), so filling in placeholders keeps the bookmark.
-/

namespace TemplateEngine

namespace Document

/-! ### Replacing the text of a bookmark -/

/-- The text of a bookmark that is there is replaced. -/
theorem setBookmarkText_eq {d : Document} (hd : d.WellFormed) {x : String} {s : Span}
    (h : d.span? x = some s) (t : Text) :
    ∃ a m z, d.text = a ++ m ++ z ∧ s = ⟨Text.byteLength a, Text.byteLength (a ++ m)⟩ ∧
      d.setBookmarkText x t =
        .ok (.ok (d.replaced (replacementOf a m z t (some (.bookmark x))) (a ++ t ++ z))) := by
  obtain ⟨a, m, z, htext, ha, hm⟩ := Span.fits_iff.1 (fits_of_span? hd h)
  obtain ⟨b, hb, rfl⟩ := Option.map_eq_some_iff.1 h
  have hspan : b.span = ⟨Text.byteLength a, Text.byteLength (a ++ m)⟩ := by rw [ha, hm]
  refine ⟨a, m, z, htext, hspan, ?_⟩
  unfold setBookmarkText
  rw [hb]
  show (d.edit b.span t _ >>= _) = _
  rw [hspan, edit_eq htext]
  rfl

/-- Replacing the text of a bookmark that lies apart from its bystanders. -/
theorem overwrites_setBookmarkText {d : Document} (hd : d.Consistent) {x : String}
    {names : List String} (ha : d.Arranged (x :: names)) (t : Text) :
    ∃ d', d.setBookmarkText x t = .ok (.ok d') ∧ d'.Consistent ∧ Overwrites names d x d' x := by
  obtain ⟨s, hs⟩ := Option.isSome_iff_exists.1 (ha.found x (by simp))
  obtain ⟨a, m, z, htext, rfl, hset⟩ := setBookmarkText_eq hd.toWellFormed hs t
  exact ⟨_, hset, consistent_replaced hd htext _ _, overwrites_edited hd.toWellFormed htext hs ha⟩

/-! ### Adopting the parts of a content -/

theorem span?_addBookmark {d : Document} {n : String} (hn : n ∈ d.names) (name : String) (s : Span) :
    (d.addBookmark name s).1.span? n = d.span? n := by
  obtain ⟨b, hb⟩ := Option.isSome_iff_exists.1 (isSome_bookmark?_iff.2 hn)
  unfold span?
  rw [hb]
  unfold bookmark? at hb ⊢
  show ((d.bookmarks ++ [_]).find? _).map _ = _
  rw [List.find?_append, hb]
  rfl

theorem span?_adopt {d : Document} {n : String} (hn : n ∈ d.names) (content : Document)
    (offset : Nat) : (d.adopt content offset).span? n = d.span? n := by
  let I : Document → Prop := fun d' => n ∈ d'.names ∧ d'.span? n = d.span? n
  suffices h : I (d.adopt content offset) from h.2
  refine foldl_invariant (I := I) ?_ _ (foldl_invariant (I := I) ?_ _ (foldl_invariant (I := I) ?_ _
    ⟨hn, rfl⟩))
  · exact fun _ _ h => h
  · exact fun _ _ h => h
  · rintro d' b ⟨hn', hspan⟩
    refine ⟨?_, (span?_addBookmark hn' _ _).trans hspan⟩
    rw [names_addBookmark]
    exact List.mem_append_left _ hn'

theorem mem_fields_adopt {d content : Document} {offset : Nat} {f : Field}
    (hf : f ∈ (d.adopt content offset).fields) :
    f ∈ d.fields ∨ ∃ g ∈ content.fields,
      f.span = Span.heldBeside d.length (g.span.shift offset) := by
  let I : Document → Prop := fun d' => ∀ f ∈ d'.fields, f ∈ d.fields ∨
    ∃ g ∈ content.fields, f.span = Span.heldBeside d.length (g.span.shift offset)
  suffices h : I (d.adopt content offset) from h f hf
  refine foldl_invariant (I := I) ?_ _ (foldl_invariant_mem (I := I) ?_
    (foldl_invariant (I := I) ?_ _ fun f hf => .inl hf))
  · exact fun _ _ h => h
  · intro d' g hg hd' f hf
    rcases List.mem_append.1 hf with hf | hf
    · exact hd' f hf
    · obtain rfl := List.mem_singleton.1 hf
      exact .inr ⟨g, hg, rfl⟩
  · exact fun _ _ h => h

theorem ids_adopt {d : Document} (hd : d.Consistent) (content : Document) (offset : Nat) :
    ((d.adopt content offset).fields.map Field.id).Nodup ∧
      ∀ f ∈ (d.adopt content offset).fields, f.id < (d.adopt content offset).nextFieldId := by
  let I : Document → Prop := fun d' =>
    (d'.fields.map Field.id).Nodup ∧ ∀ f ∈ d'.fields, f.id < d'.nextFieldId
  show I (d.adopt content offset)
  refine foldl_invariant (I := I) ?_ _ (foldl_invariant (I := I) ?_ _ (foldl_invariant (I := I) ?_ _
    ⟨hd.ids, hd.fresh⟩))
  · exact fun _ _ h => h
  · rintro d' f ⟨hids, hfresh⟩
    refine ⟨?_, ?_⟩
    · show ((d'.fields ++ [_]).map Field.id).Nodup
      rw [List.map_append, List.nodup_append]
      refine ⟨hids, by simp, ?_⟩
      rintro i hi j hj rfl
      obtain ⟨g, hg, rfl⟩ := List.mem_map.1 hi
      have := hfresh g hg
      simp only [List.map_cons, List.map_nil, List.mem_singleton] at hj
      omega
    · intro g hg
      rcases List.mem_append.1 hg with hg | hg
      · exact Nat.lt_succ_of_lt (hfresh g hg)
      · obtain rfl := List.mem_singleton.1 hg
        exact Nat.lt_succ_self _
  · exact fun _ _ h => h

/-! ### Content between marks -/

/-- A text between marks in the place of a command. -/
def withText (d : Document) (a m z : Text) (x : String) (t : Text) : Document :=
  (d.replaced (replacementOf a m z Command.marks (some (.bookmark x))) (a ++ Command.marks ++ z)).replaced
    (replacementOf (a ++ ['<']) [] ('>' :: z) t none) (a ++ ['<'] ++ t ++ '>' :: z)

/-- The document with a content between marks in place of the middle part of its text, which the
bookmark `x` covers. -/
def withContent (d : Document) (a m z : Text) (x : String) (content : Document) : Document :=
  ((d.replaced (replacementOf a m z Command.marks (some (.bookmark x))) (a ++ Command.marks ++ z)).replaced
      (replacementOf (a ++ ['<']) [] ('>' :: z) content.text none)
      (a ++ ['<'] ++ content.text ++ '>' :: z)).adopt content (Text.byteLength (a ++ ['<']))

theorem text_withMarks (d : Document) (a m z : Text) (owner : Option Owner) :
    (d.replaced (replacementOf a m z Command.marks owner) (a ++ Command.marks ++ z)).text =
      a ++ ['<'] ++ [] ++ '>' :: z := by
  show a ++ Command.marks ++ z = _
  simp [Command.marks]

theorem byteLength_mark (a : Text) : Text.byteLength (a ++ ['<']) = Text.byteLength a + 1 := by
  simp [Char.utf8Size]

theorem byteLength_marks (a : Text) :
    Text.byteLength (a ++ Command.marks) = Text.byteLength a + 2 := by
  simp [Command.marks, Char.utf8Size]

end Document

open Document

/-- A content is inserted between marks in the place of a command whose bookmark is there. -/
theorem insertBetweenMarks_eq {d : Document} (hd : d.WellFormed) {c : Command} {s : Span}
    (h : d.span? c.bookmark = some s) (content : Document) :
    ∃ a m z, d.text = a ++ m ++ z ∧ s = ⟨Text.byteLength a, Text.byteLength (a ++ m)⟩ ∧
      c.insertBetweenMarks d content =
        .ok ({ c with marked := true }, d.withContent a m z c.bookmark content, none) := by
  obtain ⟨a, m, z, htext, rfl, hset⟩ := setBookmarkText_eq hd h Command.marks
  refine ⟨a, m, z, htext, rfl, ?_⟩
  let d₁ := d.replaced (replacementOf a m z Command.marks (some (.bookmark c.bookmark)))
    (a ++ Command.marks ++ z)
  have htext₁ : d₁.text = a ++ ['<'] ++ [] ++ '>' :: z := text_withMarks d a m z _
  have hrange : c.range? d₁ =
      some (.ofSpan ⟨Text.byteLength a, Text.byteLength (a ++ Command.marks)⟩) := by
    have hspan : d₁.span? c.bookmark = some _ := span?_edited_owner h
    obtain ⟨b, hb, hbs⟩ := Option.map_eq_some_iff.1 hspan
    show (d₁.bookmark? c.bookmark).map _ = _
    rw [hb, ← hbs]
    rfl
  have hmove : d₁.text.move? (Text.byteLength a) 1 = some (Text.byteLength (a ++ ['<'])) := by
    have hcut : d₁.text = a ++ '<' :: ('>' :: z) := by simp [htext₁]
    rw [Text.move?_one hcut, byteLength_mark]
    rfl
  have hbetween : d₁.shift? (TextRange.ofSpan
        ⟨Text.byteLength a, Text.byteLength (a ++ Command.marks)⟩).collapseToStart 1 1 =
      some (.ofSpan (.point (Text.byteLength (a ++ ['<'])))) :=
    shift?_eq hmove hmove (Nat.le_refl _)
  have hcheck : d₁.check (.ofSpan (.point (Text.byteLength (a ++ ['<'])))) = .ok () := by
    refine check_of_le (Nat.le_refl _) ?_
    show Text.byteLength (a ++ ['<']) ≤ Text.byteLength d₁.text
    rw [htext₁, Text.byteLength_append (a ++ ['<'] ++ []), List.append_nil]
    omega
  have hinsert : d₁.insertContent (.ofSpan (.point (Text.byteLength (a ++ ['<'])))) content =
      .ok (.ok (d.withContent a m z c.bookmark content)) := by
    unfold Document.insertContent
    rw [hcheck]
    have hedit : d₁.edit ⟨_, _⟩ content.text none = _ := edit_eq htext₁ none
    rw [List.append_nil] at hedit
    show (d₁.edit (.point (Text.byteLength (a ++ ['<']))) content.text none >>= _) = _
    rw [Span.point, hedit]
    rfl
  unfold Command.insertBetweenMarks Command.setText
  rw [hset]
  dsimp only [bind, Except.bind]
  rw [show ({ c with marked := true } : Command).range? d₁ = _ from hrange]
  dsimp only
  rw [hbetween]
  show (d₁.insertContent (.ofSpan (.point (Text.byteLength (a ++ ['<'])))) content >>= _) = _
  rw [hinsert]
  rfl

/-! ### Fields inside a bookmark -/

namespace Document

/-- Whether the fields inside a bookmark can be replaced without losing it. -/
def FieldsYield (d : Document) (x : String) : Prop :=
  ∀ outer, d.span? x = some outer → ∀ f ∈ d.fields, f.span.within outer = true → outer.Yields f.span

/-- The bookmark covers the text and its marks. -/
theorem span?_withText {d : Document} (hd : d.WellFormed) {a m z : Text} (htext : d.text = a ++ m ++ z)
    {x : String} (hx : d.span? x = some ⟨Text.byteLength a, Text.byteLength (a ++ m)⟩) (t : Text) :
    (d.withText a m z x t).span? x =
      some ⟨Text.byteLength a, Text.byteLength a + 2 + Text.byteLength t⟩ := by
  let d₁ := d.replaced (replacementOf a m z Command.marks (some (.bookmark x)))
    (a ++ Command.marks ++ z)
  have hx₁ : d₁.span? x = some ⟨Text.byteLength a, Text.byteLength a + 2⟩ := by
    rw [span?_edited_owner hx, byteLength_marks]
  unfold withText
  rw [span?_edited (wellFormed_replaced hd htext _ _) (text_withMarks d a m z _) (by simp), hx₁]
  show Span.reanchor _ _ _ = _
  rw [List.append_nil, byteLength_mark]
  unfold Span.reanchor Span.moved
  dsimp only
  split_ifs <;> grind

/-- The bookmark covers the content and its marks. -/
theorem span?_withContent {d content : Document} (hd : d.WellFormed) {a m z : Text}
    (htext : d.text = a ++ m ++ z) {x : String}
    (hx : d.span? x = some ⟨Text.byteLength a, Text.byteLength (a ++ m)⟩) :
    (d.withContent a m z x content).span? x =
      some ⟨Text.byteLength a, Text.byteLength a + 2 + Text.byteLength content.text⟩ := by
  have hspan := span?_withText hd htext hx content.text
  have hmem : x ∈ (d.withText a m z x content.text).names :=
    isSome_span?_iff.1 (Option.isSome_iff_exists.2 ⟨_, hspan⟩)
  exact (span?_adopt hmem content _).trans hspan

theorem consistent_adopt {d content : Document} (hd : d.Consistent) (hc : content.WellFormed) {u v : Text}
    (htext : d.text = u ++ content.text ++ v) : (d.adopt content (Text.byteLength u)).Consistent :=
  ⟨wellFormed_adopt hd.toWellFormed hc htext, (ids_adopt hd content _).1, (ids_adopt hd content _).2⟩

/-- What inserting a content between marks does to the document. -/
theorem withContent_spec {d content : Document} (hd : d.Consistent) (hc : content.WellFormed)
    {a m z : Text} (htext : d.text = a ++ m ++ z) {x : String} {names : List String}
    (hx : d.span? x = some ⟨Text.byteLength a, Text.byteLength (a ++ m)⟩)
    (ha : d.Arranged (x :: names)) :
    (d.withContent a m z x content).Consistent ∧
      Overwrites names d x (d.withContent a m z x content) x ∧
      (d.withContent a m z x content).FieldsYield x := by
  let d₁ := d.replaced (replacementOf a m z Command.marks (some (.bookmark x)))
    (a ++ Command.marks ++ z)
  let d₂ := d₁.replaced (replacementOf (a ++ ['<']) [] ('>' :: z) content.text none)
    (a ++ ['<'] ++ content.text ++ '>' :: z)
  have htext₁ : d₁.text = a ++ ['<'] ++ [] ++ '>' :: z := text_withMarks d a m z _
  have hd₁ : d₁.Consistent := consistent_replaced hd htext _ _
  have hd₂ : d₂.Consistent := consistent_replaced hd₁ htext₁ _ _
  have hover₁ : Overwrites names d x d₁ x := overwrites_edited hd.toWellFormed htext hx ha
  have ha₁ := hover₁.arranged ha
  have hpoint : Text.byteLength (a ++ ['<']) = Text.byteLength (a ++ ['<'] ++ []) := by simp
  have hspares : Spares d₁ d₂ (x :: names) :=
    spares_edited hd₁.toWellFormed htext₁ (by simp) fun n _ s _ =>
      Span.isSome_reanchor_of_yields _ (.inl hpoint)
  have hover₂ := hover₁.andSpares hspares
  have hadopt : ∀ n ∈ x :: names, (d₂.adopt content (Text.byteLength (a ++ ['<']))).span? n =
      d₂.span? n := fun n hn =>
    span?_adopt (isSome_span?_iff.1 ((ha₁.spares hspares).found n hn)) _ _
  refine ⟨consistent_adopt hd₂ hc rfl, hover₂.andSpares (spares_of_span?_eq hadopt), ?_⟩
  intro outer houter f hf hwithin
  obtain rfl := Option.some.inj ((span?_withContent hd.toWellFormed htext hx).symm.trans houter)
  rcases mem_fields_adopt hf with hf | ⟨g, hg, hspan⟩
  · -- a field of the document is empty
    left
    obtain ⟨f₁, hf₁, -, hf₁'⟩ := exists_of_mem_fields_edited hd₁.toWellFormed htext₁ (by simp) hf
    obtain ⟨f₀, hf₀, -, hf₀'⟩ := exists_of_mem_fields_edited hd.toWellFormed htext (by simp) hf₁
    refine Span.isCollapsed_of_within_widened hpoint ?_ ?_ hf₁' hwithin
    · rw [List.append_nil, byteLength_mark]
      exact ⟨Nat.lt_succ_self _, Nat.lt_succ_self _⟩
    · intro hin
      refine Span.isCollapsed_of_within_new (Span.le_of_fits (hd.fields f₀ hf₀)).1 hf₀' ?_
      rwa [show Text.byteLength Command.marks = 2 by decide]
  · -- a field of the content lies between the marks
    right
    have hfits := fits_shift (a := a ++ ['<']) (c := '>' :: z) (hc.fields g hg)
    have hle := Span.le_of_fits hfits
    have hheld : f.span = g.span.shift (Text.byteLength (a ++ ['<'])) := by
      rw [hspan]
      exact Span.heldBeside_of_le (Nat.le_trans hle.1 hle.2) hle.2
    have hg := Span.le_of_fits (hc.fields g hg)
    rw [hheld, byteLength_mark]
    simp only [Span.shift]
    omega

/-- Whether all fields with one of the ids can be replaced without losing a bookmark. -/
def Fillable (d : Document) (x : String) (ids : List Nat) : Prop :=
  ∀ outer, d.span? x = some outer → ∀ f ∈ d.fields, f.id ∈ ids → outer.Yields f.span

/-- The placeholders of a span lie in it. -/
theorem within_of_mem_placeholdersWithin {d : Document} (hd : d.Consistent) {outer : Span} {f : Field}
    (hf : f ∈ d.fields) (hid : f.id ∈ d.placeholdersWithin outer) : f.span.within outer = true := by
  obtain ⟨g, hg, hgid⟩ := List.mem_map.1 hid
  obtain ⟨hmem, hwithin⟩ := List.mem_filter.1 ((List.mergeSort_perm _ _).mem_iff.1 hg)
  obtain rfl : g = f := List.inj_on_of_nodup_map hd.ids hmem hf hgid
  exact (Bool.and_eq_true_iff.1 hwithin).2

theorem fillable_placeholdersWithin {d : Document} (hd : d.Consistent) {x : String} {outer : Span}
    (hx : d.span? x = some outer) (hyield : d.FieldsYield x) :
    d.Fillable x (d.placeholdersWithin outer) := by
  intro outer' houter f hf hid
  obtain rfl := Option.some.inj (hx.symm.trans houter)
  exact hyield outer hx f hf (within_of_mem_placeholdersWithin hd hf hid)

end Document

/-! ### Filling in placeholders -/

section Filling

variable {r : Run} {x : String} {names : List String}

/-- What filling in placeholders of the bookmark `x` makes of a document. -/
def FillsIn (x : String) (names : List String) (ids : List Nat) (d d' : Document) : Prop :=
  d'.Consistent ∧ Spares d d' (x :: names) ∧ d'.Fillable x ids

theorem consistent_setCursor {d : Document} (hd : d.Consistent) {range : TextRange}
    (h : range.toSpan.fits d.text = true) : (d.setCursor range).Consistent :=
  ⟨Run.wellFormed_setCursor hd.toWellFormed h, hd.ids, hd.fresh⟩

theorem replacePlaceholder_spec {d : Document} (hd : d.Consistent) (ha : d.Arranged (x :: names))
    {ids : List Nat} (hfill : d.Fillable x ids) {id : Nat} (hid : id ∈ ids) (t : Text) :
    Ends (fun _ => False) (d.replacePlaceholder id t) fun a => ∀ d', a = .ok d' →
      d'.Consistent ∧ Spares d d' (x :: names) ∧ d'.Fillable x ids := by
  unfold Document.replacePlaceholder
  split
  · rintro d' ⟨⟩
  next f hf =>
    obtain ⟨a, m, z, htext, ha₁, hm⟩ := Span.fits_iff.1 (fits_of_field? hd.toWellFormed hf)
    have hspan : f.span = ⟨Text.byteLength a, Text.byteLength (a ++ m)⟩ := by rw [ha₁, hm]
    obtain ⟨outer, houter⟩ := Option.isSome_iff_exists.1 (ha.found x (by simp))
    have hfid : f.id = id := by simpa using List.find?_some hf
    have hyields : outer.Yields ⟨Text.byteLength a, Text.byteLength (a ++ m)⟩ :=
      hspan ▸ hfill outer houter f (List.mem_of_find?_eq_some hf) (hfid ▸ hid)
    rw [hspan, edit_eq htext]
    rintro d' ⟨⟩
    let d₁ := d.replaced (replacementOf a m z t none) (a ++ t ++ z)
    have hd₁ : d₁.Consistent := consistent_replaced hd htext t none
    have hspares : Spares d d₁ (x :: names) := by
      refine spares_edited hd.toWellFormed htext (by simp) fun n hn s hs => ?_
      rcases List.mem_cons.1 hn with rfl | hn'
      · obtain rfl := Option.some.inj (houter.symm.trans hs)
        exact Span.isSome_reanchor_of_yields _ hyields
      · have hne : x ≠ n := fun heq => (List.nodup_cons.1 ha.distinct).1 (heq ▸ hn')
        refine Span.isSome_reanchor_of_apart_outer _
          (Span.le_of_fits (fits_of_span? hd.toWellFormed hs)).1 hyields ?_
        rcases ha.apart x (by simp) n hn hne with ⟨s', t', hs', ht', hle⟩ | ⟨s', t', hs', ht', hle⟩
        · obtain rfl := Option.some.inj (houter.symm.trans hs')
          obtain rfl := Option.some.inj (hs.symm.trans ht')
          exact .inr hle
        · obtain rfl := Option.some.inj (houter.symm.trans ht')
          obtain rfl := Option.some.inj (hs.symm.trans hs')
          exact .inl hle
    refine ⟨⟨⟨hd₁.names, hd₁.bookmarks, fun g hg => hd₁.fields g (List.mem_filter.1 hg).1,
      hd₁.annotations, hd₁.cursor⟩, hd₁.ids.sublist (List.filter_sublist.map _),
      fun g hg => hd₁.fresh g (List.mem_filter.1 hg).1⟩,
      hspares.trans (spares_of_span?_eq fun _ _ => rfl), ?_⟩
    intro outer' houter' g hg hgid
    have hg₁ : g ∈ d₁.fields := (List.mem_filter.1 hg).1
    obtain ⟨g₀, hg₀, hid₀, hre⟩ := exists_of_mem_fields_edited hd.toWellFormed htext (by simp) hg₁
    have houter₁ : d₁.span? x = _ := span?_edited hd.toWellFormed htext (by simp)
    rw [houter] at houter₁
    have hle : Text.byteLength a ≤ Text.byteLength (a ++ m) := by
      rw [Text.byteLength_append]
      omega
    exact Span.yields_reanchor (Span.le_of_fits (hd.fields g₀ hg₀)).1 hle hyields
      (hfill outer houter g₀ hg₀ (hid₀ ▸ hgid)) (houter₁.symm.trans houter') hre

/-- Filling in the placeholders of a content keeps all bookmarks. -/
theorem spares_fillPlaceholders (hr : r.document.Consistent) {c : Command}
    (ha : r.document.Arranged (c.bookmark :: names)) (hyield : r.document.FieldsYield c.bookmark)
    (policy : Policy) (jumpMark : Option String) (arguments : List String) :
    Ends (fun _ => False) (fillPlaceholders policy jumpMark c arguments r) fun r' =>
      r'.document.Consistent ∧ Spares r.document r'.document (c.bookmark :: names) := by
  cases hrange : c.range? r.document with
  | none =>
    unfold fillPlaceholders
    rw [hrange]
    exact ⟨hr, .refl _ _⟩
  | some range =>
    obtain ⟨b, hb, rfl⟩ := Option.map_eq_some_iff.1 hrange
    have hspan : r.document.span? c.bookmark = some b.span := by rw [span?, hb]; rfl
    have hfill := fillable_placeholdersWithin hr hspan hyield
    refine (KeptByFilling.fillPlaceholders
      (I := FillsIn c.bookmark names (r.document.placeholdersWithin b.span) r.document)
      ⟨hr, .refl _ _, hfill⟩ ?_ policy jumpMark arguments).mono fun r' hr' => ⟨hr'.1, hr'.2.1⟩
    rintro range' hrange'
    obtain rfl := Option.some.inj (hrange.symm.trans hrange')
    refine ⟨fun hd => hd.1.toWellFormed, fun hd hfits => ?_, fun hd hid t _ => ?_⟩
    · obtain ⟨hcons, hspares, hfill'⟩ := hd
      exact ⟨consistent_setCursor hcons hfits, hspares.trans (spares_of_span?_eq fun _ _ => rfl), hfill'⟩
    · obtain ⟨hcons, hspares, hfill'⟩ := hd
      refine (replacePlaceholder_spec hcons (ha.spares hspares) hfill' hid t).mono fun a ha d' hd' => ?_
      obtain ⟨hcons', hspares', hfill''⟩ := ha d' hd'
      exact ⟨hcons', hspares.trans hspares', hfill''⟩

end Filling

end TemplateEngine
