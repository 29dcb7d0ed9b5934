import TemplateEngine.Proofs.Bystanders
import TemplateEngine.Proofs.Marks

/-!
# Regions — edits beside marks

A command that inserted content covers a region with a mark at each end.  An edit can lie apart from a
region, between its marks, or around all of it (`Span.Clear`).  The region is lost with an edit around it
and keeps its marks with any other (`isEnclosed_reanchor`).  How spans lie to a region does not change
with an edit that is clear of it: what was apart stays apart, what was between the marks stays between
them.  The text that replaces a span lies to a region as the span did.
-/

namespace TemplateEngine

/-! ### How a span lies to a region -/

namespace Span

/-- Whether two spans overlap nowhere. -/
def Apart (s t : Span) : Prop := s.stop ≤ t.start ∨ t.stop ≤ s.start

/-- Whether `s` lies between the marks at the ends of `r`. -/
def Between (s r : Span) : Prop := r.start < s.start ∧ s.stop < r.stop

instance (s t : Span) : Decidable (s.Apart t) := inferInstanceAs (Decidable (_ ∨ _))

instance (s r : Span) : Decidable (s.Between r) := inferInstanceAs (Decidable (_ ∧ _))

/-- Whether an edit of `s` keeps what is at the ends of `r`. -/
def Avoids (s r : Span) : Prop := s.Apart r ∨ s.Between r

/-- Whether an edit of `s` keeps what is at the ends of `r`, or takes all of `r` away. -/
def Clear (s r : Span) : Prop := s.Avoids r ∨ r.within s = true

/-- Whether a span covers all of another one or overlaps it nowhere. -/
def AllOrNone (s x : Span) : Prop := s.Apart x ∨ x.within s = true

theorem within_iff {s r : Span} : s.within r = true ↔ r.start ≤ s.start ∧ s.stop ≤ r.stop := by
  simp [within]

theorem within_refl (s : Span) : s.within s = true := within_iff.2 ⟨Nat.le_refl _, Nat.le_refl _⟩

theorem Apart.symm {s t : Span} (h : s.Apart t) : t.Apart s := Or.symm h

theorem Apart.within {s t u : Span} (h : t.Apart u) (hs : s.within t = true) : s.Apart u := by
  rw [within_iff] at hs
  unfold Apart at *
  omega

theorem Avoids.within {s t u : Span} (h : t.Avoids u) (hs : s.within t = true) : s.Avoids u := by
  rcases h with h | h
  · exact .inl (h.within hs)
  · rw [within_iff] at hs
    exact .inr ⟨by have := h.1; omega, by have := h.2; omega⟩

/-- What yields to a span avoids its ends. -/
theorem avoids_of_yields {s t : Span} (hs : t.Yields s) (hw : s.within t = true) : s.Avoids t := by
  rw [within_iff] at hw
  unfold Yields at hs
  unfold Avoids Apart Between
  omega

section Reanchor

variable {s r s' r' e : Span} {n : Nat}

theorem Apart.reanchor (hs : s.start ≤ s.stop) (hr : r.start ≤ r.stop) (h : s.Apart r)
    (hs' : s.reanchor e n = some s') (hr' : r.reanchor e n = some r') : s'.Apart r' := by
  rcases h with h | h
  · exact .inl (stop_le_start_reanchor hs hr h hs' hr')
  · exact .inr (stop_le_start_reanchor hr hs h hr' hs')

/-- A region survives an edit that is clear of it unless the edit is around it. -/
theorem isSome_reanchor_of_avoids (hr : r.start ≤ r.stop) (h : e.Avoids r) :
    (r.reanchor e n).isSome = true := by
  rcases h with h | h
  · exact isSome_reanchor_of_apart n hr h.symm
  · exact isSome_reanchor_of_yields n (.inr h)

/-- Where the start of a span goes. -/
theorem start_reanchor (hs : s.start ≤ s.stop) (hs' : s.reanchor e n = some s') :
    (s'.start = s.start ∧ s.start ≤ e.start) ∨
      (s'.start = s.start + e.start + n - e.stop ∧ e.stop ≤ s.start) ∨
      (s'.start = e.start + n ∧ e.start ≤ s.start ∧ s.start < e.stop) := by
  unfold Span.reanchor moved at hs'
  dsimp only [point] at hs'
  split_ifs at hs' <;> obtain rfl := Option.some.inj hs' <;> grind

/-- Where the stop of a span goes. -/
theorem stop_reanchor (hs : s.start ≤ s.stop) (hs' : s.reanchor e n = some s') :
    (s'.stop = s.stop ∧ s.stop ≤ e.start) ∨
      (s'.stop = s.stop + e.start + n - e.stop ∧ e.stop ≤ s.stop) ∨
      (s'.stop = e.start ∧ e.start ≤ s.stop ∧ s.stop < e.stop) := by
  unfold Span.reanchor moved at hs'
  dsimp only [point] at hs'
  split_ifs at hs' <;> obtain rfl := Option.some.inj hs' <;> grind

theorem eq_of_reanchor_of_le (h : s.stop ≤ e.start)
    (hs' : s.reanchor e n = some s') : s' = s := by
  unfold Span.reanchor at hs'
  dsimp only at hs'
  split_ifs at hs' <;> first | exact (Option.some.inj hs').symm | omega

/-- What is behind an edit moves with the text, except an empty span at an insertion. -/
theorem reanchor_of_ge (hs : s.start ≤ s.stop) (he : e.start ≤ e.stop) (h : e.stop ≤ s.start)
    (hs' : s.reanchor e n = some s') :
    (s' = s ∧ s.start = s.stop ∧ s.start ≤ e.start) ∨
      (s'.start = s.start + e.start + n - e.stop ∧ s'.stop = s.stop + e.start + n - e.stop) := by
  unfold Span.reanchor moved at hs'
  dsimp only [point] at hs'
  split_ifs at hs' <;> obtain rfl := Option.some.inj hs' <;> grind

/-- An edit that is clear of a region and does not take it away avoids its ends. -/
theorem avoids_of_reanchor (hr : r.start + 2 ≤ r.stop) (h : e.Clear r)
    (hr' : r.reanchor e n = some r') : e.Avoids r := by
  refine h.resolve_right fun hw => ?_
  rw [within_iff] at hw
  unfold Span.reanchor at hr'
  dsimp only at hr'
  split_ifs at hr' <;> omega

/-- Where the ends of a region go. -/
theorem ends_reanchor (he : e.start ≤ e.stop) (hr : r.start + 2 ≤ r.stop) (h : e.Avoids r)
    (hr' : r.reanchor e n = some r') :
    ((r'.start = r.start ∧ r.start < e.start) ∨
        (r'.start = r.start + e.start + n - e.stop ∧ e.stop ≤ r.start)) ∧
      ((r'.stop = r.stop ∧ r.stop ≤ e.start) ∨
        (r'.stop = r.stop + e.start + n - e.stop ∧ e.stop < r.stop)) := by
  unfold Avoids Apart Between at h
  unfold Span.reanchor moved at hr'
  dsimp only [point] at hr'
  split_ifs at hr' <;> obtain rfl := Option.some.inj hr' <;> grind

theorem Between.reanchor (hs : s.start ≤ s.stop) (he : e.start ≤ e.stop) (hclear : e.Avoids r)
    (h : s.Between r) (hs' : s.reanchor e n = some s') (hr' : r.reanchor e n = some r') :
    s'.Between r' := by
  have hroom : r.start + 2 ≤ r.stop := by
    have := h.1
    have := h.2
    omega
  have hends := ends_reanchor he hroom hclear hr'
  have hstart := start_reanchor hs hs'
  have hstop := stop_reanchor hs hs'
  unfold Avoids Apart Between at *
  omega

theorem within_reanchor (hs : s.start ≤ s.stop) (he : e.start ≤ e.stop) (hr : r.start + 2 ≤ r.stop)
    (hclear : e.Avoids r) (h : r.within s = true) (hs' : s.reanchor e n = some s')
    (hr' : r.reanchor e n = some r') : r'.within s' = true := by
  have hends := ends_reanchor he hr hclear hr'
  have hstart := start_reanchor hs hs'
  have hstop := stop_reanchor hs hs'
  rw [within_iff] at *
  unfold Avoids Apart Between at hclear
  omega

theorem Avoids.reanchor (hs : s.start ≤ s.stop) (he : e.start ≤ e.stop) (hr : r.start ≤ r.stop)
    (hclear : e.Avoids r) (h : s.Avoids r) (hs' : s.reanchor e n = some s')
    (hr' : r.reanchor e n = some r') : s'.Avoids r' :=
  h.imp (fun h => h.reanchor hs hr hs' hr') fun h => Between.reanchor hs he hclear h hs' hr'

theorem Clear.reanchor (hs : s.start ≤ s.stop) (he : e.start ≤ e.stop) (hr : r.start + 2 ≤ r.stop)
    (hclear : e.Avoids r) (h : s.Clear r) (hs' : s.reanchor e n = some s')
    (hr' : r.reanchor e n = some r') : s'.Clear r' :=
  h.imp (fun h => Avoids.reanchor hs he (by omega) hclear h hs' hr')
    fun h => within_reanchor hs he hr hclear h hs' hr'

/-! The text that replaces a span has the place of the span. -/

theorem Apart.renewed (hr : r.start ≤ r.stop) (h : e.Apart r)
    (hr' : r.reanchor e n = some r') : (⟨e.start, e.start + n⟩ : Span).Apart r' := by
  unfold Apart at *
  unfold Span.reanchor moved at hr'
  dsimp only [point] at hr'
  split_ifs at hr' <;> obtain rfl := Option.some.inj hr' <;> grind

theorem Between.renewed (he : e.start ≤ e.stop) (hr : r.start + 2 ≤ r.stop) (h : e.Between r)
    (hr' : r.reanchor e n = some r') : (⟨e.start, e.start + n⟩ : Span).Between r' := by
  have hends := ends_reanchor he hr (.inr h) hr'
  unfold Between at *
  dsimp only
  omega

theorem Avoids.renewed (he : e.start ≤ e.stop) (hr : r.start + 2 ≤ r.stop) (h : e.Avoids r)
    (hr' : r.reanchor e n = some r') : (⟨e.start, e.start + n⟩ : Span).Avoids r' :=
  h.imp (fun h => h.renewed (by omega) hr') fun h => h.renewed he hr hr'

/-- A span that follows an edit does not cut the text that replaces the span of the edit. -/
theorem allOrNone_renewed (hs' : s.reanchor e n = some s') : s'.AllOrNone ⟨e.start, e.start + n⟩ := by
  unfold AllOrNone Apart
  rw [within_iff]
  unfold Span.reanchor moved at hs'
  dsimp only [point] at hs'
  split_ifs at hs' <;> obtain rfl := Option.some.inj hs' <;> grind

theorem clear_renewed (hs' : s.reanchor e n = some s') : s'.Clear ⟨e.start, e.start + n⟩ :=
  (allOrNone_renewed hs').imp_left .inl

end Reanchor

end Span

/-! ### The marks of a region -/

namespace Text

/-- A character before an edit stays where it is. -/
theorem charAt?_before {a b b' : Text} {p : Nat} (hp : p < byteLength a) :
    charAt? (a ++ b) p = charAt? (a ++ b') p := by
  have hhalf : ∀ {b b' : Text} {x : Char}, charAt? (a ++ b) p = some x →
      charAt? (a ++ b') p = some x := by
    intro b b' x h
    obtain ⟨u, v, huv, hu⟩ := charAt?_eq_some_iff.1 h
    obtain ⟨m, rfl⟩ := exists_append_of_byteLength_le (huv.symm.trans rfl : u ++ x :: v = a ++ b)
      (by omega)
    rw [List.append_assoc] at huv
    have htail := List.append_cancel_left huv
    cases m with
    | nil =>
      rw [List.append_nil] at hp
      omega
    | cons y m =>
      obtain ⟨rfl, -⟩ := List.cons.inj htail
      exact charAt?_eq_some_iff.2 ⟨u, m ++ b', by simp, hu⟩
  ext x
  exact ⟨hhalf, hhalf⟩

/-- A character behind an edit moves with the text. -/
theorem charAt?_behind (a b : Text) (p : Nat) :
    charAt? (a ++ b) (byteLength a + p) = charAt? b p := by
  ext x
  rw [charAt?_eq_some_iff, charAt?_eq_some_iff]
  constructor
  · rintro ⟨u, v, huv, hu⟩
    obtain ⟨m, rfl⟩ := exists_append_of_byteLength_le huv (by omega)
    rw [List.append_assoc] at huv
    rw [byteLength_append] at hu
    exact ⟨m, v, List.append_cancel_left huv, by omega⟩
  · rintro ⟨u, v, rfl, hu⟩
    exact ⟨a ++ u, v, by simp, by rw [byteLength_append, hu]⟩

end Text

/-- A region keeps its marks with an edit that avoids them. -/
theorem isEnclosed_reanchor {a m z t : Text} {r r' : Span}
    (h : (TextRange.ofSpan r).IsEnclosed (a ++ m ++ z))
    (havoids : Span.Avoids ⟨Text.byteLength a, Text.byteLength (a ++ m)⟩ r)
    (hr' : r.reanchor ⟨Text.byteLength a, Text.byteLength (a ++ m)⟩ (Text.byteLength t) = some r') :
    (TextRange.ofSpan r').IsEnclosed (a ++ t ++ z) := by
  have hroom : r.start + 2 ≤ r.stop := h.room
  have hle : Text.byteLength a ≤ Text.byteLength (a ++ m) := by
    rw [Text.byteLength_append]
    exact Nat.le_add_right _ _
  have hends := Span.ends_reanchor hle hroom havoids hr'
  have hbefore : ∀ p, p < Text.byteLength a →
      Text.charAt? (a ++ t ++ z) p = Text.charAt? (a ++ m ++ z) p := fun p hp => by
    rw [List.append_assoc, List.append_assoc]
    exact Text.charAt?_before hp
  have hbehind : ∀ p, Text.byteLength (a ++ m) ≤ p →
      Text.charAt? (a ++ t ++ z) (p + Text.byteLength a + Text.byteLength t - Text.byteLength (a ++ m)) =
        Text.charAt? (a ++ m ++ z) p := fun p hp => by
    obtain ⟨k, rfl⟩ := Nat.exists_eq_add_of_le hp
    rw [Text.charAt?_behind (a ++ m) z k, ← Text.charAt?_behind (a ++ t) z k]
    congr 1
    rw [Text.byteLength_append a t]
    omega
  simp only at hends
  have hopening : Text.charAt? (a ++ m ++ z) r.start = some '<' := h.opening
  have hclosing : Text.charAt? (a ++ m ++ z) (r.stop - 1) = some '>' := h.closing
  refine ⟨?_, ?_, ?_⟩
  · show r'.start + 2 ≤ r'.stop
    omega
  · show Text.charAt? _ r'.start = _
    rcases hends.1 with ⟨heq, hlt⟩ | ⟨heq, hle⟩
    · rw [heq, hbefore _ hlt, hopening]
    · rw [heq, hbehind _ hle, hopening]
  · show Text.charAt? _ (r'.stop - 1) = _
    rcases hends.2 with ⟨heq, hle⟩ | ⟨heq, hlt⟩
    · rw [heq, hbefore _ (by omega), hclosing]
    · have hmove : r'.stop - 1 =
          r.stop - 1 + Text.byteLength a + Text.byteLength t - Text.byteLength (a ++ m) := by omega
      rw [hmove, hbehind _ (by omega), hclosing]

end TemplateEngine
