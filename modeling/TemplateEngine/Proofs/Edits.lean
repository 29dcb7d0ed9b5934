import TemplateEngine.Document.WellFormed
import TemplateEngine.Proofs.Bookmarks

/-!
# Edits — well-formed documents stay well-formed

A span that fits a text cuts it into three parts, of which an edit replaces the middle one
(`Document.edit_eq`).  Positions up to the cut stay, positions from its end on move with the last part,
and every re-anchored end is one of these or an end of the new text (`Span.reanchor_spec`); so spans
that fit go to spans that fit (`Span.fits_follow`).  The operations on documents follow.
-/

namespace TemplateEngine

/-! ### Positions of an edited text -/

namespace Text

theorem isBoundary_append_left {a b : Text} {n : Nat} (h : n ≤ byteLength a) :
    isBoundary (a ++ b) n = isBoundary a n := by
  rw [Bool.eq_iff_iff, isBoundary_iff, isBoundary_iff]
  constructor
  · rintro ⟨u, v, huv, hu⟩
    obtain ⟨m, rfl⟩ := exists_append_of_byteLength_le huv.symm (by omega)
    exact ⟨u, m, rfl, hu⟩
  · rintro ⟨u, v, rfl, hu⟩
    exact ⟨u, v ++ b, by simp, hu⟩

theorem isBoundary_append_right {a b : Text} {n : Nat} :
    isBoundary (a ++ b) (byteLength a + n) = isBoundary b n := by
  rw [Bool.eq_iff_iff, isBoundary_iff, isBoundary_iff]
  constructor
  · rintro ⟨u, v, huv, hu⟩
    obtain ⟨m, rfl⟩ := exists_append_of_byteLength_le huv (by omega)
    rw [List.append_assoc] at huv
    refine ⟨m, v, List.append_cancel_left huv, ?_⟩
    rw [byteLength_append] at hu
    omega
  · rintro ⟨u, v, rfl, hu⟩
    exact ⟨a ++ u, v, by simp, by rw [byteLength_append, hu]⟩

theorem isBoundary_byteLength (t : Text) : isBoundary t (byteLength t) = true :=
  isBoundary_iff.2 ⟨t, [], by simp, rfl⟩

theorem le_of_isBoundary {t : Text} {n : Nat} (h : isBoundary t n = true) : n ≤ byteLength t := by
  obtain ⟨a, b, rfl, rfl⟩ := isBoundary_iff.1 h
  rw [byteLength_append]
  omega

/-- An edit keeps the positions up to its start. -/
theorem isBoundary_before {a m c new : Text} {n : Nat} (h : n ≤ byteLength a) :
    isBoundary (a ++ new ++ c) n = isBoundary (a ++ m ++ c) n := by
  rw [List.append_assoc, List.append_assoc, isBoundary_append_left h, isBoundary_append_left h]

/-- An edit moves the positions from its stop on. -/
theorem isBoundary_after {a m c new : Text} {n : Nat} :
    isBoundary (a ++ new ++ c) (byteLength (a ++ new) + n) =
      isBoundary (a ++ m ++ c) (byteLength (a ++ m) + n) := by
  rw [isBoundary_append_right, isBoundary_append_right]

theorem isBoundary_cut (a b : Text) : isBoundary (a ++ b) (byteLength a) = true :=
  isBoundary_iff.2 ⟨a, b, rfl, rfl⟩

/-- Stepping over characters leads from a boundary to a boundary. -/
theorem isBoundary_of_advance? {t : Text} {pos n q : Nat} (hpos : isBoundary t pos = true)
    (h : advance? t pos n = some q) : isBoundary t q = true := by
  induction n generalizing pos with
  | zero =>
    obtain rfl := Option.some.inj h
    exact hpos
  | succ n ih =>
    unfold advance? at h
    split at h
    next a c b hsplit =>
      obtain ⟨rfl, rfl⟩ := splitAt?_eq_some_iff.1 hsplit
      refine ih (isBoundary_iff.2 ⟨a ++ [c], b, by simp, ?_⟩) h
      simp
    · cases h

theorem isBoundary_of_retreat? {t : Text} {pos n q : Nat} (hpos : isBoundary t pos = true)
    (h : retreat? t pos n = some q) : isBoundary t q = true := by
  induction n generalizing pos with
  | zero =>
    obtain rfl := Option.some.inj h
    exact hpos
  | succ n ih =>
    unfold retreat? at h
    split at h
    next a b hsplit =>
      split at h
      next c hlast =>
        obtain ⟨rfl, rfl⟩ := splitAt?_eq_some_iff.1 hsplit
        obtain ⟨a', rfl⟩ := List.getLast?_eq_some_iff.1 hlast
        refine ih (isBoundary_iff.2 ⟨a', c :: b, by simp, ?_⟩) h
        simp
      · cases h
    · cases h

theorem isBoundary_of_move? {t : Text} {pos q : Nat} {delta : Int}
    (hpos : isBoundary t pos = true) (h : move? t pos delta = some q) : isBoundary t q = true := by
  cases delta with
  | ofNat n => exact isBoundary_of_advance? hpos h
  | negSucc n => exact isBoundary_of_retreat? hpos h

theorem move?_one {t u v : Text} {x : Char} (h : t = u ++ x :: v) :
    t.move? (byteLength u) 1 = some (byteLength u + x.utf8Size) := by
  show advance? t (byteLength u) 1 = _
  unfold advance?
  rw [splitAt?_eq_some_iff.2 ⟨h, rfl⟩]
  rfl

theorem move?_neg_one {t u v : Text} {x : Char} (h : t = u ++ x :: v) :
    t.move? (byteLength (u ++ [x])) (-1) = some (byteLength u) := by
  show retreat? t (byteLength (u ++ [x])) 1 = _
  unfold retreat?
  rw [splitAt?_eq_some_iff.2 ⟨(by simp [h] : t = (u ++ [x]) ++ v), rfl⟩]
  simp [retreat?]

theorem move?_zero (t : Text) (p : Nat) : t.move? p 0 = some p := rfl

end Text

/-! ### Where ends of spans go -/

namespace Span

/-- Where a position of the text goes that is not inside the replaced span. -/
def Carries (edited : Span) (inserted p p' : Nat) : Prop :=
  (p ≤ edited.start ∧ p' = p) ∨
    (edited.stop ≤ p ∧ p' + edited.stop = p + edited.start + inserted)

/-- A re-anchored span starts where its start goes, or behind the new text, and stops where its stop
goes, or before the new text. -/
theorem reanchor_spec {s s' edited : Span} {inserted : Nat} (hs : s.start ≤ s.stop)
    (h : s.reanchor edited inserted = some s') :
    s'.start ≤ s'.stop ∧
      (Carries edited inserted s.start s'.start ∨ s'.start = edited.start + inserted) ∧
      (Carries edited inserted s.stop s'.stop ∨ s'.stop = edited.start) := by
  unfold reanchor moved at h
  unfold Carries
  dsimp only [point] at h
  split_ifs at h <;> obtain rfl := Option.some.inj h <;> grind

/-- Spans that fit the text go to spans that fit the edited text. -/
theorem fits_reanchor {a m c new : Text} {s s' : Span} (hs : s.fits (a ++ m ++ c) = true)
    (h : s.reanchor ⟨Text.byteLength a, Text.byteLength (a ++ m)⟩ (Text.byteLength new) = some s') :
    s'.fits (a ++ new ++ c) = true := by
  simp only [fits, Bool.and_eq_true, decide_eq_true_eq] at hs
  obtain ⟨⟨hle, hstart⟩, hstop⟩ := hs
  obtain ⟨hle₁, hs₁, ht₁⟩ := reanchor_spec hle h
  have hcarried : ∀ {p p' : Nat}, Text.isBoundary (a ++ m ++ c) p = true →
      Carries ⟨Text.byteLength a, Text.byteLength (a ++ m)⟩ (Text.byteLength new) p p' →
      Text.isBoundary (a ++ new ++ c) p' = true := by
    rintro p p' hp (⟨hle, rfl⟩ | ⟨hle, heq⟩)
    · rwa [Text.isBoundary_before (m := m) hle]
    · dsimp only at hle heq
      have hp' : p' = Text.byteLength (a ++ new) + (p - Text.byteLength (a ++ m)) := by
        rw [Text.byteLength_append a new]
        omega
      rw [hp', Text.isBoundary_after (m := m)]
      rwa [Nat.add_sub_cancel' hle]
  have hstart₁ : Text.isBoundary (a ++ new ++ c) s'.start = true := by
    rcases hs₁ with h | h
    · exact hcarried hstart h
    · rw [h, ← Text.byteLength_append]
      exact Text.isBoundary_cut _ _
  have hstop₁ : Text.isBoundary (a ++ new ++ c) s'.stop = true := by
    rcases ht₁ with h | h
    · exact hcarried hstop h
    · rw [h, List.append_assoc]
      exact Text.isBoundary_cut _ _
  simp only [fits, hle₁, hstart₁, hstop₁, decide_true, Bool.and_self]

theorem le_of_fits {s : Span} {t : Text} (h : s.fits t = true) :
    s.start ≤ s.stop ∧ s.stop ≤ Text.byteLength t := by
  simp only [fits, Bool.and_eq_true, decide_eq_true_eq] at h
  exact ⟨h.1.1, Text.le_of_isBoundary h.2⟩

/-- Of a well-formed document every span is held beside the edited text as it was re-anchored. -/
theorem follow_eq_reanchor {a m c new : Text} {owner : Option Owner} {s : Span}
    (hs : s.fits (a ++ m ++ c) = true) :
    Replacement.follow ⟨⟨Text.byteLength a, Text.byteLength (a ++ m)⟩, Text.byteLength new,
      Text.byteLength (a ++ new ++ c), owner⟩ s =
      s.reanchor ⟨Text.byteLength a, Text.byteLength (a ++ m)⟩ (Text.byteLength new) := by
  unfold Replacement.follow
  dsimp only
  cases h : s.reanchor ⟨Text.byteLength a, Text.byteLength (a ++ m)⟩ (Text.byteLength new) with
  | none => rfl
  | some s' =>
    have hle := le_of_fits (fits_reanchor hs h)
    exact congrArg some (heldBeside_of_le (Nat.le_trans hle.1 hle.2) hle.2)

theorem fits_follow {a m c new : Text} {owner : Option Owner} {s s' : Span}
    (hs : s.fits (a ++ m ++ c) = true)
    (h : Replacement.follow ⟨⟨Text.byteLength a, Text.byteLength (a ++ m)⟩, Text.byteLength new,
      Text.byteLength (a ++ new ++ c), owner⟩ s = some s') :
    s'.fits (a ++ new ++ c) = true :=
  fits_reanchor hs (follow_eq_reanchor hs ▸ h)

theorem fits_cut (a m c : Text) :
    fits ⟨Text.byteLength a, Text.byteLength (a ++ m)⟩ (a ++ m ++ c) = true :=
  fits_iff.2 ⟨a, m, c, rfl, rfl, rfl⟩

theorem fits_point {t : Text} {p : Nat} : (point p).fits t = Text.isBoundary t p := by
  simp [fits, point]

end Span

/-! ### Edits of documents -/

namespace Document

/-- The document with its text replaced and its spans re-anchored. -/
def replaced (d : Document) (e : Replacement) (text : Text) : Document :=
  { d with
    text
    bookmarks := d.bookmarks.filterMap e.bookmark?
    fields := d.fields.filterMap e.field?
    annotations := d.annotations.filterMap e.annotation?
    cursor := d.cursor.map e.cursor
    modified := true }

/-- The replacement of the middle part of a text cut into three. -/
def replacementOf (a m c new : Text) (owner : Option Owner) : Replacement :=
  ⟨⟨Text.byteLength a, Text.byteLength (a ++ m)⟩, Text.byteLength new,
    Text.byteLength (a ++ new ++ c), owner⟩

/-- An edit of a span that cuts the text into three parts replaces the middle one. -/
theorem edit_eq {d : Document} {a m c new : Text} (h : d.text = a ++ m ++ c)
    (owner : Option Owner) :
    d.edit ⟨Text.byteLength a, Text.byteLength (a ++ m)⟩ new owner =
      .ok (d.replaced (replacementOf a m c new owner) (a ++ new ++ c)) := by
  unfold edit
  rw [h, Text.replace?_append]
  rfl

/-- The new text of an edit fits. -/
theorem newSpan_replacementOf (a m c new : Text) (owner : Option Owner) :
    (replacementOf a m c new owner).newSpan =
      ⟨Text.byteLength a, Text.byteLength (a ++ new)⟩ := by
  unfold Replacement.newSpan replacementOf
  rw [← Text.byteLength_append, Span.heldBeside_of_le]
  · simp only [Text.byteLength_append]
    omega
  · simp only [Text.byteLength_append]
    omega

theorem fits_newSpan (a m c new : Text) (owner : Option Owner) :
    (replacementOf a m c new owner).newSpan.fits (a ++ new ++ c) = true := by
  rw [newSpan_replacementOf]
  exact Span.fits_cut a new c

theorem wellFormed_replaced {d : Document} (hd : d.WellFormed) {a m c : Text}
    (h : d.text = a ++ m ++ c) (new : Text) (owner : Option Owner) :
    (d.replaced (replacementOf a m c new owner) (a ++ new ++ c)).WellFormed where
  names := hd.names.sublist (map_name_filterMap_sublist _ _)
  bookmarks := by
    intro b hb
    obtain ⟨b₀, hb₀, hfollow⟩ := List.mem_filterMap.1 hb
    unfold Replacement.bookmark? at hfollow
    split at hfollow
    · obtain rfl := Option.some.inj hfollow
      exact fits_newSpan a m c new owner
    · obtain ⟨s, hs, rfl⟩ := Option.map_eq_some_iff.1 hfollow
      exact Span.fits_follow (h ▸ hd.bookmarks b₀ hb₀) hs
  fields := by
    intro f hf
    obtain ⟨f₀, hf₀, hfollow⟩ := List.mem_filterMap.1 hf
    unfold Replacement.field? at hfollow
    split at hfollow
    · obtain rfl := Option.some.inj hfollow
      exact fits_newSpan a m c new owner
    · obtain ⟨s, hs, rfl⟩ := Option.map_eq_some_iff.1 hfollow
      exact Span.fits_follow (h ▸ hd.fields f₀ hf₀) hs
  annotations := by
    intro x hx
    obtain ⟨x₀, hx₀, hfollow⟩ := List.mem_filterMap.1 hx
    obtain ⟨s, hs, rfl⟩ := Option.map_eq_some_iff.1 hfollow
    exact Span.fits_follow (h ▸ hd.annotations x₀ hx₀) hs
  cursor := by
    intro s hs
    obtain ⟨s₀, hs₀, rfl⟩ := Option.map_eq_some_iff.1 (Option.mem_def.1 hs)
    unfold Replacement.cursor
    cases hfollow : (replacementOf a m c new owner).follow s₀ with
    | some s₁ => exact Span.fits_follow (h ▸ hd.cursor s₀ hs₀) hfollow
    | none =>
      show (Span.point (Text.byteLength a)).fits (a ++ new ++ c) = true
      rw [Span.fits_point, List.append_assoc]
      exact Text.isBoundary_cut _ _

/-- A bookmark that was just added is found under its name. -/
theorem bookmark?_addBookmark (d : Document) (name : String) (s : Span) :
    (d.addBookmark name s).1.bookmark? (d.addBookmark name s).2 =
      some ⟨(d.addBookmark name s).2, s⟩ := by
  have hnone : d.bookmarks.find? (fun b => b.name = d.uniqueName name none) = none := by
    rw [List.find?_eq_none]
    intro b hb heq
    exact uniqueName_notMem d name (List.mem_map.2 ⟨b, hb, by simpa using heq⟩)
  show (d.bookmarks ++ [_]).find? (fun b : Bookmark => b.name = d.uniqueName name none) = _
  rw [List.find?_append, hnone, Option.none_or]
  simp [addBookmark]

/-- After an edit its owner covers the new text. -/
theorem bookmark?_replaced_owner {d : Document} {e : Replacement} {text : Text} {name : String}
    {b : Bookmark} (hb : d.bookmark? name = some b) (howner : e.owner = some (.bookmark name)) :
    (d.replaced e text).bookmark? name = some ⟨name, e.newSpan⟩ := by
  unfold bookmark? at hb ⊢
  show (d.bookmarks.filterMap e.bookmark?).find? (fun b => b.name = name) = _
  generalize d.bookmarks = bs at hb
  induction bs with
  | nil => cases hb
  | cons b₀ bs ih =>
    rw [List.find?_cons] at hb
    by_cases hname : b₀.name = name
    · have hkeep : e.bookmark? b₀ = some { b₀ with span := e.newSpan } := by
        rw [Replacement.bookmark?, if_pos (by rw [howner, hname])]
      simp [hkeep, hname]
    · simp only [hname, decide_false] at hb
      cases hkeep : e.bookmark? b₀ with
      | none => simpa [hkeep] using ih hb
      | some b₁ =>
        have hb₁ : b₁.name ≠ name := name_of_bookmark? hkeep ▸ hname
        simpa [hkeep, hb₁] using ih hb

/-- An edit of a span that fits is possible and keeps the document well-formed. -/
theorem wellFormed_edit {d : Document} (hd : d.WellFormed) {s : Span} (hs : s.fits d.text = true)
    (new : Text) (owner : Option Owner) :
    Ends (fun _ => False) (d.edit s new owner) WellFormed := by
  obtain ⟨a, m, c, htext, ha, hm⟩ := Span.fits_iff.1 hs
  obtain rfl : s = ⟨Text.byteLength a, Text.byteLength (a ++ m)⟩ := by rw [ha, hm]
  rw [edit_eq htext]
  exact wellFormed_replaced hd htext new owner

/-! ### Operations -/

/-- How an attempted operation ends after which the document is well-formed. -/
def StaysWellFormed : Except Refusal Document → Prop
  | .ok d => d.WellFormed
  | .error _ => True

theorem fits_of_bookmark? {d : Document} (hd : d.WellFormed) {name : String} {b : Bookmark}
    (h : d.bookmark? name = some b) : b.span.fits d.text = true :=
  hd.bookmarks b (List.mem_of_find?_eq_some h)

/-- A range that fits, moved by characters, fits. -/
theorem fits_shift? {d : Document} {r r' : TextRange} {startBy stopBy : Int}
    (hr : r.toSpan.fits d.text = true) (h : d.shift? r startBy stopBy = some r') :
    r'.toSpan.fits d.text = true := by
  unfold shift? at h
  obtain ⟨start, hstart, h⟩ := Option.bind_eq_some_iff.1 h
  obtain ⟨stop, hstop, h⟩ := Option.bind_eq_some_iff.1 h
  simp only [Span.fits, Bool.and_eq_true, decide_eq_true_eq] at hr
  split at h
  next hle =>
    obtain rfl := Option.some.inj h
    simp only [Span.fits, Bool.and_eq_true, decide_eq_true_eq]
    exact ⟨⟨hle, Text.isBoundary_of_move? hr.1.2 hstart⟩, Text.isBoundary_of_move? hr.2 hstop⟩
  · cases h

/-- A range is moved where both its ends can be moved. -/
theorem shift?_eq {d : Document} {r : TextRange} {startBy stopBy : Int} {start stop : Nat}
    (hstart : d.text.move? r.start startBy = some start)
    (hstop : d.text.move? r.stop stopBy = some stop) (hle : start ≤ stop) :
    d.shift? r startBy stopBy = some { r with start, stop } := by
  unfold shift?
  rw [hstart]
  show (d.text.move? r.stop stopBy).bind _ = _
  rw [hstop]
  exact if_pos hle

theorem check_of_le {d : Document} {s : Span} (hle : s.start ≤ s.stop) (hlen : s.stop ≤ d.length) :
    d.check (.ofSpan s) = .ok () := by
  unfold check covers
  rw [if_pos]
  simp [TextRange.ofSpan, hle, hlen]

theorem fits_of_field? {d : Document} (hd : d.WellFormed) {id : Nat} {f : Field}
    (h : d.field? id = some f) : f.span.fits d.text = true :=
  hd.fields f (List.mem_of_find?_eq_some h)

theorem wellFormed_setBookmarkText {d : Document} (hd : d.WellFormed) (name : String) (t : Text) :
    Ends (fun _ => False) (d.setBookmarkText name t) StaysWellFormed := by
  unfold setBookmarkText
  split
  · trivial
  next b hb => exact Ends.andThen (wellFormed_edit hd (fits_of_bookmark? hd hb) t _) fun d' hd' => hd'

theorem wellFormed_replacePlaceholder {d : Document} (hd : d.WellFormed) (id : Nat) (t : Text) :
    Ends (fun _ => False) (d.replacePlaceholder id t) StaysWellFormed := by
  unfold replacePlaceholder
  split
  · trivial
  next f hf =>
    refine Ends.andThen (wellFormed_edit hd (fits_of_field? hd hf) t none) fun d' hd' => ?_
    exact ⟨hd'.names, hd'.bookmarks, fun g hg => hd'.fields g (List.mem_filter.1 hg).1,
      hd'.annotations, hd'.cursor⟩

theorem wellFormed_refreshElement {d : Document} (hd : d.WellFormed) (e : Element) :
    Ends (fun _ => False) (d.refreshElement e) fun o => ∀ a, o = some a → StaysWellFormed a := by
  unfold refreshElement
  split
  · simp
  split
  · simp
  next f hf =>
    split
    · simp
    split
    · rintro a ⟨⟩
      trivial
    · refine Ends.andThen (wellFormed_edit hd (fits_of_field? hd hf) _ _) fun d' hd' => ?_
      rintro a ⟨⟩
      exact hd'

theorem wellFormed_addBookmark {d : Document} (hd : d.WellFormed) (name : String) {s : Span}
    (hs : s.fits d.text = true) : (d.addBookmark name s).1.WellFormed where
  names := nodup_addBookmark hd.names name s
  bookmarks := by
    intro b hb
    rcases List.mem_append.1 hb with hb | hb
    · exact hd.bookmarks b hb
    · obtain rfl := List.mem_singleton.1 hb
      exact hs
  fields := hd.fields
  annotations := hd.annotations
  cursor := hd.cursor

theorem wellFormed_addField {d : Document} (hd : d.WellFormed) (kind : FieldKind) {s : Span}
    (hs : s.fits d.text = true) : (d.addField kind s).1.WellFormed where
  names := hd.names
  bookmarks := hd.bookmarks
  fields := by
    intro f hf
    rcases List.mem_append.1 hf with hf | hf
    · exact hd.fields f hf
    · obtain rfl := List.mem_singleton.1 hf
      exact hs
  annotations := hd.annotations
  cursor := hd.cursor

theorem wellFormed_annotated {d : Document} (hd : d.WellFormed) (text : String) {s : Span}
    (hs : s.fits d.text = true) : (d.addAnnotation text s).WellFormed where
  names := hd.names
  bookmarks := hd.bookmarks
  fields := hd.fields
  annotations := by
    intro a ha
    rcases List.mem_append.1 ha with ha | ha
    · exact hd.annotations a ha
    · obtain rfl := List.mem_singleton.1 ha
      exact hs
  cursor := hd.cursor

theorem text_adopt (d content : Document) (offset : Nat) : (d.adopt content offset).text = d.text := by
  let I : Document → Prop := fun d' => d'.text = d.text
  show I (d.adopt content offset)
  refine foldl_invariant (I := I) ?_ _ (foldl_invariant (I := I) ?_ _ (foldl_invariant (I := I) ?_ _ rfl))
  · exact fun _ _ h => h
  · exact fun _ _ h => h
  · exact fun _ _ h => h

/-- The parts of a well-formed content fit where its text was inserted. -/
theorem fits_shift {a t c : Text} {s : Span} (hs : s.fits t = true) :
    (s.shift (Text.byteLength a)).fits (a ++ t ++ c) = true := by
  obtain ⟨u, m, v, rfl, hu, hm⟩ := Span.fits_iff.1 hs
  refine Span.fits_iff.2 ⟨a ++ u, m, v ++ c, by simp, ?_, ?_⟩
  · rw [Text.byteLength_append, hu]
    exact Nat.add_comm _ _
  · rw [List.append_assoc, Text.byteLength_append, hm]
    exact Nat.add_comm _ _

theorem wellFormed_adopt {d content : Document} (hd : d.WellFormed) (hc : content.WellFormed)
    {a c : Text} (htext : d.text = a ++ content.text ++ c) :
    (d.adopt content (Text.byteLength a)).WellFormed := by
  have hmoved : ∀ {s : Span}, s.fits content.text = true →
      (Span.heldBeside d.length (s.shift (Text.byteLength a))).fits (a ++ content.text ++ c) = true := by
    intro s hs
    have hfits := fits_shift (a := a) (c := c) hs
    have hle := Span.le_of_fits hfits
    rw [Span.heldBeside_of_le]
    · exact hfits
    · rw [length, htext]
      omega
    · rw [length, htext]
      exact hle.2
  let I : Document → Prop := fun d' => d'.WellFormed ∧ d'.text = a ++ content.text ++ c
  suffices h : I (d.adopt content (Text.byteLength a)) from h.1
  refine foldl_invariant_mem (I := I) ?_ (foldl_invariant_mem (I := I) ?_
    (foldl_invariant_mem (I := I) ?_ ⟨hd, htext⟩))
  · rintro d' x hx ⟨hd', ht⟩
    refine ⟨?_, ht⟩
    exact wellFormed_annotated hd' _ (ht ▸ hmoved (hc.annotations x hx))
  · rintro d' f hf ⟨hd', ht⟩
    exact ⟨wellFormed_addField hd' _ (ht ▸ hmoved (hc.fields f hf)), ht⟩
  · rintro d' b hb ⟨hd', ht⟩
    exact ⟨wellFormed_addBookmark hd' _ (ht ▸ hmoved (hc.bookmarks b hb)), ht⟩

theorem wellFormed_insertContent {d content : Document} (hd : d.WellFormed)
    (hc : content.WellFormed) {r : TextRange} (hr : d.text.isBoundary r.start = true) :
    Ends (fun _ => False) (d.insertContent r content) StaysWellFormed := by
  unfold insertContent
  split
  · trivial
  obtain ⟨a, c, htext, ha⟩ := Text.isBoundary_iff.1 hr
  have htext' : d.text = a ++ [] ++ c := by simpa using htext
  have hspan : Span.point r.start = ⟨Text.byteLength a, Text.byteLength (a ++ [])⟩ := by
    simp [Span.point, ha]
  rw [hspan, edit_eq htext', ← ha]
  exact wellFormed_adopt (wellFormed_replaced hd htext' content.text none) hc rfl

theorem WellFormed.sameParts {d d' : Document} (hd : d.WellFormed) (hsame : SameParts d d') :
    d'.WellFormed where
  names := hsame.bookmarks ▸ hd.names
  bookmarks := by
    rw [hsame.bookmarks, hsame.text]
    exact hd.bookmarks
  fields := by
    rw [hsame.fields, hsame.text]
    exact hd.fields
  annotations := by
    rw [hsame.annotations, hsame.text]
    exact hd.annotations
  cursor := by
    rw [hsame.cursor, hsame.text]
    exact hd.cursor

/-- A well-formed document with some of its bookmarks only. -/
theorem wellFormed_filterBookmarks {d : Document} (hd : d.WellFormed) (keep : Bookmark → Bool) :
    { d with bookmarks := d.bookmarks.filter keep }.WellFormed :=
  ⟨hd.names.sublist (List.filter_sublist.map _),
    fun b hb => hd.bookmarks b (List.mem_filter.1 hb).1, hd.fields, hd.annotations, hd.cursor⟩

theorem wellFormed_removeBookmark {d d' : Document} {name : String} (hd : d.WellFormed)
    (h : d.removeBookmark name = .ok d') : d'.WellFormed := by
  unfold removeBookmark at h
  split at h
  · cases h
    exact wellFormed_filterBookmarks hd _
  · cases h

theorem span_of_mem_renameFirst {name new : String} {bs : List Bookmark} {b : Bookmark}
    (h : b ∈ renameFirst name new bs) : ∃ b' ∈ bs, b.span = b'.span := by
  induction bs with
  | nil => simp [renameFirst] at h
  | cons b₀ bs ih =>
    unfold renameFirst at h
    split at h
    · rcases List.mem_cons.1 h with rfl | h
      · exact ⟨b₀, by simp, rfl⟩
      · exact ⟨b, by simp [h], rfl⟩
    · rcases List.mem_cons.1 h with rfl | h
      · exact ⟨b, by simp, rfl⟩
      · obtain ⟨b', hb', hspan⟩ := ih h
        exact ⟨b', by simp [hb'], hspan⟩

theorem wellFormed_renameBookmark {d d' : Document} {name new unique : String} (hd : d.WellFormed)
    (h : d.renameBookmark name new = .ok (d', unique)) : d'.WellFormed := by
  have hnames := (names_renameBookmark hd.names h).1
  unfold renameBookmark at h
  split at h
  · cases h
    refine ⟨hnames, fun b hb => ?_, hd.fields, hd.annotations, hd.cursor⟩
    obtain ⟨b', hb', hspan⟩ := span_of_mem_renameFirst hb
    rw [hspan]
    exact hd.bookmarks b' hb'
  · cases h

end Document

/-! ### Commands -/

namespace Command

theorem wellFormed_markDone {c : Command} {d : Document} (hd : d.WellFormed) (remove : Bool) :
    (c.markDone d remove).2.WellFormed := by
  cases remove with
  | true =>
    simp only [markDone, if_true]
    split
    next d' h => exact Document.wellFormed_removeBookmark hd h
    · exact hd
  | false =>
    simp only [markDone, Bool.false_eq_true, if_false]
    split
    next d' name h => exact Document.wellFormed_renameBookmark hd h
    · exact hd

end Command

end TemplateEngine
