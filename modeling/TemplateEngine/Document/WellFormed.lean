import TemplateEngine.Document.Basic

/-!
# WellFormed — documents whose spans lie in their text

In a well-formed document no two bookmarks have one name, and every bookmark, field and annotation
and the view cursor cover a stretch of the text between characters.  `Span.fits_iff` says what that
means: the text falls into what is before the stretch, the stretch, and what is behind it.
-/

namespace TemplateEngine

/-! ### Stretches of a text -/

theorem Text.eq_nil_of_byteLength_eq_zero {t : Text} (h : t.byteLength = 0) : t = [] := by
  cases t with
  | nil => rfl
  | cons c t =>
    have := c.utf8Size_pos
    rw [Text.byteLength_cons] at h
    omega

/-- Of two beginnings of a text the longer one goes on from the shorter one. -/
theorem Text.exists_append_of_byteLength_le {a b c d : Text} (h : a ++ b = c ++ d)
    (hle : a.byteLength ≤ c.byteLength) : ∃ m, c = a ++ m := by
  rcases List.append_eq_append_iff.1 h with ⟨m, hm, -⟩ | ⟨m, hm, -⟩
  · exact ⟨m, hm⟩
  · have : Text.byteLength m = 0 := by
      rw [hm, Text.byteLength_append] at hle
      omega
    rw [Text.eq_nil_of_byteLength_eq_zero this, List.append_nil] at hm
    exact ⟨[], by rw [hm, List.append_nil]⟩

/-- A span fits a text that falls into what is before it, its stretch, and what is behind it. -/
theorem Span.fits_iff {s : Span} {t : Text} :
    s.fits t = true ↔
      ∃ a m c, t = a ++ m ++ c ∧ Text.byteLength a = s.start ∧ Text.byteLength (a ++ m) = s.stop := by
  simp only [Span.fits, Bool.and_eq_true, decide_eq_true_eq, Text.isBoundary_iff]
  constructor
  · rintro ⟨⟨hle, a, b, rfl, ha⟩, a', c, h, hc⟩
    obtain ⟨m, rfl⟩ := Text.exists_append_of_byteLength_le h (by omega)
    exact ⟨a, m, c, h, ha, hc⟩
  · rintro ⟨a, m, c, rfl, ha, hc⟩
    refine ⟨⟨?_, a, m ++ c, by simp, ha⟩, a ++ m, c, rfl, hc⟩
    rw [← ha, ← hc, Text.byteLength_append]
    omega

/-! ### Documents -/

namespace Document

/-- Distinct bookmark names, and spans that lie in the text between characters. -/
structure WellFormed (d : Document) : Prop where
  names : (d.bookmarks.map (·.name)).Nodup
  bookmarks : ∀ b ∈ d.bookmarks, b.span.fits d.text
  fields : ∀ f ∈ d.fields, f.span.fits d.text
  annotations : ∀ a ∈ d.annotations, a.span.fits d.text
  cursor : ∀ s ∈ d.cursor, s.fits d.text

theorem wellFormed_ofText (t : Text) : (ofText t).WellFormed where
  names := .nil
  bookmarks := by simp [ofText]
  fields := by simp [ofText]
  annotations := by simp [ofText]
  cursor := by simp [ofText]

end Document

end TemplateEngine
