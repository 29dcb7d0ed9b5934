import TemplateEngine.Proofs.Collateral

/-!
# Clearing — deleting a range loses no bookmark

A range is deleted on behalf of a bookmark that is made for it and removed again, under a name that no other
bookmark has.  What is left is the document without that stretch: every bookmark has the span that the deletion
gives it, and those that the deletion would drop stand, empty, where the stretch was (`Cleared`).  A range that
the document refuses is refused before anything is changed (`clearRange_keepsBookmarks`).
-/

namespace TemplateEngine

open Document

/-- What is left of a document when a stretch is deleted and no bookmark is to be lost. -/
structure Cleared (d : Document) (s : Span) (d' : Document) : Prop where
  wellFormed : d'.WellFormed
  /-- Exactly the stretch is gone from the text. -/
  text : ∃ u m v, d.text = u ++ m ++ v ∧ Text.byteLength u = s.start ∧ Text.byteLength (u ++ m) = s.stop ∧
    d'.text = u ++ v
  names : d'.names.Perm d.names
  /-- A bookmark that the deletion keeps goes where the deletion moves it. -/
  kept : ∀ b ∈ d.bookmarks, ∀ t, b.span.reanchor s 0 = some t → ⟨b.name, t⟩ ∈ d'.bookmarks
  /-- A bookmark that the deletion would drop is empty where the stretch was. -/
  dropped : ∀ b ∈ d.bookmarks, b.span.reanchor s 0 = none → ⟨b.name, .point s.start⟩ ∈ d'.bookmarks

theorem Document.mem_of_span? {d : Document} {n : String} {s : Span} (h : d.span? n = some s) :
    ⟨n, s⟩ ∈ d.bookmarks := by
  obtain ⟨b, hb, rfl⟩ := Option.map_eq_some_iff.1 h
  obtain rfl : b.name = n := by simpa using List.find?_some hb
  exact List.mem_of_find?_eq_some hb

/-- Clearing a stretch of the text leaves the document without it. -/
theorem cleared_clearRange {d : Document} (hd : d.WellFormed) {u m v : Text} (htext : d.text = u ++ m ++ v) :
    ∃ d', clearRange d (.ofSpan (u.stretch m)) = .ok (.ok d') ∧ Cleared d (u.stretch m) d' := by
  obtain ⟨d', hclear, hd', htext'⟩ := clearRange_spec hd htext
  have hspan := span?_clearRange hd htext hclear
  have hplace : ∀ b ∈ d.bookmarks, d'.span? b.name =
      some ((b.span.reanchor (u.stretch m) 0).getD (.point (Text.byteLength u))) := fun b hb => by
    rw [hspan, span?_of_mem hd.names hb, Option.map_some]
  refine ⟨d', hclear, hd', ⟨u, m, v, htext, rfl, rfl, htext'⟩, ?_, fun b hb t ht => ?_, fun b hb hnone => ?_⟩
  · refine (List.perm_ext_iff_of_nodup hd'.names hd.names).2 fun n => ?_
    show n ∈ d'.names ↔ n ∈ d.names
    rw [← isSome_span?_iff, ← isSome_span?_iff, hspan, Option.isSome_map]
  · exact mem_of_span? (by rw [hplace b hb, ht, Option.getD_some])
  · exact mem_of_span? (by rw [hplace b hb, hnone, Option.getD_none])

theorem insertBookmark_of_not_covers {d : Document} {r : TextRange} (h : d.covers r = false) (name : String) :
    d.insertBookmark name r = .error (.invalidRange r) := by
  unfold insertBookmark check
  rw [h]
  rfl

/-- **Clearing loses no bookmark.**  In every well-formed document, whatever its bookmarks are called, a range
of the main text with both ends between characters can be cleared: the text loses exactly that stretch, the
bookmarks keep their names, those that the deletion keeps have the span it moves them to, and those that it
would drop are empty where the stretch was.  A range that the document does not cover is refused by the
first operation already, and removing marks goes on with the document as it was. -/
theorem clearRange_keepsBookmarks {d : Document} (hd : d.WellFormed) (r : TextRange) :
    (r.container = TextRange.body → r.toSpan.fits d.text = true →
      ∃ d', clearRange d r = .ok (.ok d') ∧ Cleared d r.toSpan d') ∧
    (d.covers r = false →
      d.insertBookmark killerName r = .error (.invalidRange r) ∧
        clearRange d r = .ok (.error (.invalidRange r)) ∧ applyCleaner d (.range r) = .ok d) := by
  constructor
  · intro hbody hfits
    obtain ⟨s, k⟩ := r
    obtain ⟨u, m, v, htext, hstart, hstop⟩ := Span.fits_iff.1 hfits
    obtain rfl : k = TextRange.body := hbody
    obtain rfl : s = u.stretch m := by
      obtain ⟨a, b⟩ := s
      obtain rfl : Text.byteLength u = a := hstart
      obtain rfl : Text.byteLength (u ++ m) = b := hstop
      rfl
    exact cleared_clearRange hd htext
  · intro hcovers
    have hinsert := insertBookmark_of_not_covers hcovers killerName
    have hclear : clearRange d r = .ok (.error (.invalidRange r)) := by
      unfold clearRange
      rw [hinsert]
    refine ⟨hinsert, hclear, ?_⟩
    unfold applyCleaner
    dsimp only
    rw [hclear]
    rfl

/-- A text with bookmarks that are called like the one that a deletion is made for: on a stretch of it, in
the stretch, across its ends, at its ends and around it. -/
def killers : Document :=
  { Document.ofText "xéyz".toList with
    bookmarks :=
      [⟨"killer", ⟨1, 4⟩⟩, ⟨"killer1", ⟨3, 3⟩⟩, ⟨"killer2", ⟨0, 3⟩⟩, ⟨"killer3", ⟨3, 5⟩⟩, ⟨"killer4", ⟨1, 1⟩⟩,
        ⟨"killer5", ⟨4, 5⟩⟩, ⟨"killer6", ⟨0, 5⟩⟩] }

theorem clearRange_keepsBookmarks_killers :
    (∃ d', clearRange killers (.ofSpan ⟨1, 4⟩) = .ok (.ok d') ∧ Cleared killers ⟨1, 4⟩ d' ∧
      ⟨"killer", ⟨1, 1⟩⟩ ∈ d'.bookmarks ∧ ⟨"killer1", ⟨1, 1⟩⟩ ∈ d'.bookmarks ∧
      ⟨"killer2", ⟨0, 1⟩⟩ ∈ d'.bookmarks ∧ ⟨"killer3", ⟨1, 2⟩⟩ ∈ d'.bookmarks ∧
      ⟨"killer6", ⟨0, 2⟩⟩ ∈ d'.bookmarks) ∧
    clearRange killers (.ofSpan ⟨4, 6⟩) = .ok (.error (.invalidRange (.ofSpan ⟨4, 6⟩))) := by
  have hwell : killers.WellFormed :=
    ⟨by decide, by decide, by simp [killers, Document.ofText], by simp [killers, Document.ofText],
      by simp [killers, Document.ofText]⟩
  obtain ⟨d', hclear, hcleared⟩ :=
    (clearRange_keepsBookmarks hwell (.ofSpan ⟨1, 4⟩)).1 rfl (by decide)
  have hrefused := (clearRange_keepsBookmarks hwell (.ofSpan ⟨4, 6⟩)).2 (by decide)
  exact ⟨⟨d', hclear, hcleared, hcleared.dropped ⟨"killer", ⟨1, 4⟩⟩ (by decide) rfl,
    hcleared.dropped ⟨"killer1", ⟨3, 3⟩⟩ (by decide) rfl,
    hcleared.kept ⟨"killer2", ⟨0, 3⟩⟩ (by decide) _ rfl, hcleared.kept ⟨"killer3", ⟨3, 5⟩⟩ (by decide) _ rfl,
    hcleared.kept ⟨"killer6", ⟨0, 5⟩⟩ (by decide) _ rfl⟩, hrefused.2.1⟩

end TemplateEngine
