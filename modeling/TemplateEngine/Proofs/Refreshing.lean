import Mathlib.Algebra.BigOperators.Group.Finset.Basic
import TemplateEngine.Proofs.Filling
import TemplateEngine.Proofs.Lines

/-!
# Refreshing — which fields an update reaches

An update looks up the paragraphs of a command once, by their numbers, and then the fields of each paragraph
as it comes to it.  A value with line breaks moves the paragraphs behind it on, and the numbers do not move
with them.  `Shows` follows the text through an update: while the values of some fields are shown, every
field is as many lines further down as the values before it brought in.
-/

namespace TemplateEngine

namespace Document

/-! ### Fields with a value -/

/-- The text that a field is to show: the value of its variable, if it has one. -/
def current? (d : Document) (f : Field) : Option Text :=
  match f.kind with
  | .placeholder _ => none
  | .computed source => (d.values.get? source).map String.toList

/-- The fields that have a value to show. -/
def live (d : Document) : Finset Field := (d.fields.filter fun f => (d.current? f).isSome).toFinset

/-- The line breaks that the value of a field brings in. -/
def gain (d : Document) (f : Field) : Nat := ((d.current? f).map Text.breaks).getD 0

/-- The line breaks that the values of some fields bring in before a line. -/
def gained (d : Document) (S : Finset Field) (j : Nat) : Nat := ∑ f ∈ S with d.lineOf f.span < j, d.gain f

theorem mem_live {d : Document} {f : Field} : f ∈ d.live ↔ f ∈ d.fields ∧ ∃ v, d.current? f = some v := by
  rw [live, List.mem_toFinset, List.mem_filter, Option.isSome_iff_exists]

theorem gained_mono (d : Document) (S : Finset Field) {i j : Nat} (h : i ≤ j) : d.gained S i ≤ d.gained S j := by
  refine Finset.sum_le_sum_of_subset fun f hf => ?_
  rw [Finset.mem_filter] at hf ⊢
  exact ⟨hf.1, by omega⟩

theorem gained_insert {d : Document} {S : Finset Field} {g : Field} (hg : g ∉ S) (j : Nat) :
    d.gained (insert g S) j = d.gained S j + if d.lineOf g.span < j then d.gain g else 0 := by
  unfold gained
  rw [Finset.filter_insert]
  split
  · rw [Finset.sum_insert fun h => hg (Finset.mem_filter.1 h).1, Nat.add_comm]
  · rfl

/-- Refreshing a field with a value puts the value in its place. -/
theorem refreshOne_of_current? {d : Document} {id : Nat} {f : Field} {v : Text} (hf : d.field? id = some f)
    (hv : d.current? f = some v) : refreshOne d (.field id) = d.edit f.span v (some (.field id)) := by
  unfold current? at hv
  cases hkind : f.kind with
  | placeholder hint =>
    rw [hkind] at hv
    cases hv
  | computed source =>
    rw [hkind] at hv
    obtain ⟨value, hvalue, rfl⟩ := Option.map_eq_some_iff.1 hv
    simp only [refreshOne, refreshElement, hf, hkind, hvalue]
    cases d.edit f.span value.toList (some (.field id)) <;> rfl

/-- A field without a value is left alone. -/
theorem refreshOne_of_not_current? {d : Document} {id : Nat}
    (h : ∀ f, d.field? id = some f → d.current? f = none) : refreshOne d (.field id) = .ok d := by
  cases hf : d.field? id with
  | none =>
    simp only [refreshOne, refreshElement, hf]
    rfl
  | some f =>
    have hnone := h f hf
    unfold current? at hnone
    cases hkind : f.kind with
    | placeholder hint =>
      simp only [refreshOne, refreshElement, hf, hkind]
      rfl
    | computed source =>
      rw [hkind] at hnone
      have hvalue : d.values.get? source = none := Option.map_eq_none_iff.1 hnone
      simp only [refreshOne, refreshElement, hf, hkind, hvalue]
      rfl

theorem current?_congr {d d' : Document} (h : d'.values = d.values) (f : Field) : d'.current? f = d.current? f := by
  unfold current?
  rw [h]

end Document

/-! ### Lines beside an edit -/

namespace Span

/-- A span apart from an edit stays in its line, or goes with its line behind the edit. -/
theorem line_reanchor {a m z new : Text} {s s' : Span} (hs : s.start ≤ s.stop) (h : s.Apart (a.stretch m))
    (hs' : s.reanchor (a.stretch m) (Text.byteLength new) = some s') :
    (s' = s ∧ s.start ≤ Text.byteLength a ∧
        Text.lineAt (a ++ new ++ z) s'.start = Text.lineAt (a ++ m ++ z) s.start) ∨
      (Text.byteLength a ≤ s.start ∧ Text.lineAt (a ++ new ++ z) s'.start + Text.breaks m =
        Text.lineAt (a ++ m ++ z) s.start + Text.breaks new) := by
  have hle := Text.stretch_le a m
  have hstays : s' = s → s.start ≤ Text.byteLength a →
      Text.lineAt (a ++ new ++ z) s'.start = Text.lineAt (a ++ m ++ z) s.start := by
    rintro rfl hstart
    exact Text.lineAt_before m z new hstart
  rcases h with h | h
  · have hsame := eq_of_reanchor_of_le h hs'
    exact .inl ⟨hsame, Nat.le_trans hs h, hstays hsame (Nat.le_trans hs h)⟩
  · rcases reanchor_of_ge hs hle h hs' with ⟨hsame, -, hstart⟩ | ⟨hstart, -⟩
    · exact .inl ⟨hsame, hstart, hstays hsame hstart⟩
    · refine .inr ⟨Nat.le_trans hle h, ?_⟩
      rw [hstart]
      exact Text.lineAt_moved z new h

end Span

namespace Document

/-! ### The text during an update -/

/-- How the document is while the values of the fields `S` of `d` are shown.  `place` tells where each field
with a value is. -/
structure Shows (d : Document) (S : Finset Field) (place : Field → Span) (d' : Document) : Prop where
  consistent : d'.Consistent
  values : d'.values = d.values
  kept : ∀ f ∈ d.live, { f with span := place f } ∈ d'.fields
  only : ∀ f' ∈ d'.fields, (d.current? f').isSome → ∃ f ∈ d.live, f' = { f with span := place f }
  apart : ∀ f ∈ d.live, ∀ g ∈ d.live, f ≠ g → (place f).Apart (place g)
  shown : ∀ f ∈ d.live, d'.text.slice? (place f).start (place f).stop =
    if f ∈ S then d.current? f else d.text.slice? f.span.start f.span.stop
  notBefore : ∀ f ∈ d.live, d.lineOf f.span + d.gained S (d.lineOf f.span) ≤ d'.lineOf (place f)
  notBehind : ∀ f ∈ d.live, d'.lineOf (place f) ≤ d.lineOf f.span + d.gained S (d.lineOf f.span + 1)

variable {d d' : Document} {S : Finset Field} {place : Field → Span} {f g : Field} {v : Text}

/-- Fields with different values do not overlap. -/
def LiveApart (d : Document) : Prop := ∀ f ∈ d.live, ∀ g ∈ d.live, f ≠ g → f.span.Apart g.span

instance (d : Document) : Decidable d.LiveApart :=
  inferInstanceAs (Decidable (∀ f ∈ d.live, ∀ g ∈ d.live, f ≠ g → f.span.Apart g.span))

theorem shows_nothing (hd : d.Consistent) (hapart : d.LiveApart) : d.Shows ∅ (·.span) d where
  consistent := hd
  values := rfl
  kept f hf := (mem_live.1 hf).1
  only f' hf' hlive := ⟨f', mem_live.2 ⟨hf', Option.isSome_iff_exists.1 hlive⟩, rfl⟩
  apart := hapart
  shown f hf := (if_neg (Finset.notMem_empty f)).symm
  notBefore f hf := by simp [gained]
  notBehind f hf := by simp [gained]

namespace Shows

theorem fits (h : d.Shows S place d') (hf : f ∈ d.live) : (place f).fits d'.text = true :=
  h.consistent.fields _ (h.kept f hf)

theorem refreshOne_eq (h : d.Shows S place d') (hg : g ∈ d.live) (hv : d.current? g = some v) :
    refreshOne d' (.field g.id) = d'.edit (place g) v (some (.field g.id)) :=
  refreshOne_of_current? (field?_eq_some_of_mem h.consistent.ids (h.kept g hg))
    ((current?_congr h.values _).trans hv)

theorem refreshOne_of_not_live (h : d.Shows S place d') {id : Nat} (hid : ∀ f ∈ d.live, f.id ≠ id) :
    refreshOne d' (.field id) = .ok d' := by
  refine refreshOne_of_not_current? fun f hf => ?_
  rw [current?_congr h.values]
  by_contra hsome
  obtain ⟨g, hg, rfl⟩ := h.only f (List.mem_of_find?_eq_some hf) (Option.isSome_iff_ne_none.2 hsome)
  exact hid g hg (by simpa using List.find?_some hf)

end Shows

/-- Where the fields are when a text of `n` bytes was put in the place of the field `g`. -/
def placeAfter (place : Field → Span) (g : Field) (n : Nat) (f : Field) : Span :=
  if f = g then ⟨(place g).start, (place g).start + n⟩
  else ((place f).reanchor (place g) n).getD (place f)

theorem placeAfter_self (place : Field → Span) (g : Field) (n : Nat) :
    placeAfter place g n g = ⟨(place g).start, (place g).start + n⟩ := if_pos rfl

namespace Shows

/-- No field with a value is lost with another one. -/
theorem reanchor_eq (h : d.Shows S place d') (hf : f ∈ d.live) (hg : g ∈ d.live) (hne : f ≠ g) (n : Nat) :
    (place f).reanchor (place g) n = some (placeAfter place g n f) := by
  have hsome := Span.isSome_reanchor_of_apart n (Span.le_of_fits (h.fits hf)).1 (h.apart f hf g hg hne)
  obtain ⟨s, hs⟩ := Option.isSome_iff_exists.1 hsome
  rw [placeAfter, if_neg hne, hs, Option.getD_some]

section Edit

variable {a m z : Text}

theorem field?_eq (h : d.Shows S place d') (hids : (d.fields.map (·.id)).Nodup) (htext : d'.text = a ++ m ++ z)
    (hplace : place g = a.stretch m) (hg : g ∈ d.live) (hf : f ∈ d.live) (new : Text) :
    (replacementOf a m z new (some (.field g.id))).field? { f with span := place f } =
      some { f with span := placeAfter place g (Text.byteLength new) f } := by
  rw [Replacement.field?_eq, Replacement.place?]
  by_cases hne : f = g
  · subst hne
    have howner : (replacementOf a m z new (some (.field f.id))).owner = some (.field f.id) := rfl
    rw [if_pos howner, newSpan_replacementOf, placeAfter_self, hplace, Text.byteLength_append]
    rfl
  · have hid : g.id ≠ f.id := fun hid =>
      hne (List.inj_on_of_nodup_map hids (mem_live.1 hf).1 (mem_live.1 hg).1 hid.symm)
    rw [if_neg (by simpa [replacementOf] using hid), follow_replacementOf (htext ▸ h.fits hf), ← hplace,
      h.reanchor_eq hf hg hne]
    rfl

/-- Showing the value of a field brings in its line breaks, or none if it is shown already. -/
theorem exists_gain (h : d.Shows S place d') (htext : d'.text = a ++ m ++ z) (hplace : place g = a.stretch m)
    (hg : g ∈ d.live) (hv : d.current? g = some v)
    (hline : g ∈ S ∨ d.text.lineAt g.span.stop = d.lineOf g.span) :
    ∃ k, v.breaks = m.breaks + k ∧
      ∀ j, d.gained (insert g S) j = d.gained S j + if d.lineOf g.span < j then k else 0 := by
  have hcovers : d'.text.slice? (place g).start (place g).stop = some m :=
    Text.slice?_eq htext (by rw [hplace]) (by rw [hplace])
  have hshown := hcovers.symm.trans (h.shown g hg)
  by_cases hmem : g ∈ S
  · rw [if_pos hmem, hv] at hshown
    obtain rfl := Option.some.inj hshown
    exact ⟨0, rfl, fun j => by simp [Finset.insert_eq_of_mem hmem]⟩
  · rw [if_neg hmem] at hshown
    have hone := hline.resolve_left hmem
    have hbreaks := Text.lineAt_of_slice? hshown.symm
    have hgain : d.gain g = v.breaks := by rw [gain, hv]; rfl
    refine ⟨v.breaks, ?_, fun j => hgain ▸ gained_insert hmem j⟩
    unfold lineOf at hone
    omega

/-- Fields in lines before that of an edit stay in their lines, those in lines behind it go as many lines down
as it brings in, and those beside it do either. -/
theorem line_placeAfter (h : d.Shows S place d') (htext : d'.text = a ++ m ++ z)
    (hplace : place g = a.stretch m) (hg : g ∈ d.live) (hf : f ∈ d.live) {k : Nat} (hk : v.breaks = m.breaks + k) :
    let line := Text.lineAt (a ++ v ++ z) (placeAfter place g (Text.byteLength v) f).start
    (d.lineOf f.span < d.lineOf g.span → line = d'.lineOf (place f)) ∧
      (d.lineOf g.span < d.lineOf f.span → line = d'.lineOf (place f) + k) ∧
      (line = d'.lineOf (place f) ∨ line = d'.lineOf (place f) + k) := by
  intro line
  by_cases hne : f = g
  · subst hne
    have hsame : line = d'.lineOf (place f) := by
      show Text.lineAt _ (placeAfter place f _ f).start = Text.lineAt _ _
      rw [placeAfter_self, hplace, htext]
      exact Text.lineAt_before m z v (Nat.le_refl _)
    exact ⟨fun _ => hsame, fun hlt => absurd hlt (Nat.lt_irrefl _), .inl hsame⟩
  · have hstart : d'.text.lineAt (Text.byteLength a) = d'.lineOf (place g) := by rw [lineOf, hplace]
    have hold : d'.lineOf (place f) = Text.lineAt (a ++ m ++ z) (place f).start := by rw [lineOf, htext]
    -- the line of a field tells on which side of the edit it is
    have hlines : ∀ x ∈ d.live, ∀ y ∈ d.live, d.lineOf x.span < d.lineOf y.span →
        (place x).start < (place y).start := fun x hx y hy hlt => by
      refine Text.lt_of_lineAt_lt (t := d'.text) ?_
      have hbehind := h.notBehind x hx
      have hbefore := h.notBefore y hy
      have hgained : d.gained S (d.lineOf x.span + 1) ≤ d.gained S (d.lineOf y.span) := d.gained_mono S hlt
      show d'.lineOf (place x) < d'.lineOf (place y)
      omega
    have hapart : (place f).Apart (a.stretch m) := hplace ▸ h.apart f hf g hg hne
    have hreanchor := h.reanchor_eq hf hg hne (Text.byteLength v)
    rw [hplace] at hreanchor
    have hfits : (place f).start ≤ (place f).stop := (Span.le_of_fits (h.fits hf)).1
    have hgstart : (place g).start = Text.byteLength a := by rw [hplace]
    rcases Span.line_reanchor (z := z) hfits hapart hreanchor with ⟨-, hle, hsame⟩ | ⟨hle, hmoved⟩
    · rw [← hold] at hsame
      refine ⟨fun _ => hsame, fun hlt => ?_, .inl hsame⟩
      have := hlines g hg f hf hlt
      omega
    · have hline : line = d'.lineOf (place f) + k := by
        rw [hold]
        omega
      refine ⟨fun hlt => ?_, fun _ => hline, .inr hline⟩
      have := hlines f hf g hg hlt
      omega

/-- All fields with values that are left were fields with values before. -/
theorem exists_of_mem_edited (h : d.Shows S place d') (hids : (d.fields.map (·.id)).Nodup)
    (htext : d'.text = a ++ m ++ z) (hplace : place g = a.stretch m) (hg : g ∈ d.live) {f' : Field}
    (hf' : f' ∈ (d'.replaced (replacementOf a m z v (some (.field g.id))) (a ++ v ++ z)).fields)
    (hlive : (d.current? f').isSome) :
    ∃ f ∈ d.live, f' = { f with span := placeAfter place g (Text.byteLength v) f } := by
  obtain ⟨f₀, hf₀, hsome⟩ := List.mem_filterMap.1 hf'
  have hkind : f₀.kind = f'.kind := by
    rw [Replacement.field?_eq] at hsome
    obtain ⟨s, -, rfl⟩ := Option.map_eq_some_iff.1 hsome
    rfl
  obtain ⟨f, hf, rfl⟩ := h.only f₀ hf₀ (by unfold current? at hlive ⊢; rwa [hkind])
  rw [h.field?_eq hids htext hplace hg hf v] at hsome
  exact ⟨f, hf, (Option.some.inj hsome).symm⟩

theorem apart_placeAfter (h : d.Shows S place d') (hg : g ∈ d.live) (n : Nat) (hf : f ∈ d.live) {f' : Field}
    (hf' : f' ∈ d.live) (hne : f ≠ f') : (placeAfter place g n f).Apart (placeAfter place g n f') := by
  have hle := fun f hf => (Span.le_of_fits (h.fits (f := f) hf)).1
  by_cases hfg : f = g
  · subst hfg
    rw [placeAfter_self]
    exact (h.apart f hf f' hf' hne).renewed (hle f' hf') (h.reanchor_eq hf' hf hne.symm n)
  · by_cases hfg' : f' = g
    · subst hfg'
      rw [placeAfter_self]
      exact ((h.apart f' hf' f hf hne.symm).renewed (hle f hf) (h.reanchor_eq hf hf' hfg n)).symm
    · exact (h.apart f hf f' hf' hne).reanchor (hle f hf) (hle f' hf') (h.reanchor_eq hf hg hfg n)
        (h.reanchor_eq hf' hg hfg' n)

/-- The field of the edit shows its value, and the others what they showed. -/
theorem slice?_placeAfter (h : d.Shows S place d') (htext : d'.text = a ++ m ++ z)
    (hplace : place g = a.stretch m) (hg : g ∈ d.live) (hv : d.current? g = some v) (hf : f ∈ d.live) :
    let s := placeAfter place g (Text.byteLength v) f
    Text.slice? (a ++ v ++ z) s.start s.stop =
      if f ∈ insert g S then d.current? f else d.text.slice? f.span.start f.span.stop := by
  intro s
  by_cases hfg : f = g
  · subst hfg
    have hs : s = a.stretch v := by
      show placeAfter place f _ f = _
      rw [placeAfter_self, hplace, Text.stretch_eq a v]
    rw [if_pos (Finset.mem_insert_self _ _), hv, hs]
    exact Text.slice?_eq rfl rfl rfl
  · have hmem : f ∈ insert g S ↔ f ∈ S := by simp [hfg]
    have hmoved := h.reanchor_eq hf hg hfg (Text.byteLength v)
    have hapart := h.apart g hg f hf (Ne.symm hfg)
    rw [hplace] at hmoved hapart
    simp only [hmem]
    rw [Span.slice?_of_apart (htext ▸ h.fits hf) hmoved hapart, ← htext]
    exact h.shown f hf

/-- Refreshing a field with a value, in one line or refreshed before. -/
theorem refreshed (h : d.Shows S place d') (hids : (d.fields.map (·.id)).Nodup) (hg : g ∈ d.live)
    (hline : g ∈ S ∨ d.text.lineAt g.span.stop = d.lineOf g.span) :
    ∃ d'' place', refreshOne d' (.field g.id) = .ok d'' ∧ d.Shows (insert g S) place' d'' := by
  obtain ⟨v, hv⟩ := (mem_live.1 hg).2
  obtain ⟨a, m, z, htext, ha, hm⟩ := Span.fits_iff.1 (h.fits hg)
  have hplace : place g = a.stretch m := by rw [Text.stretch, ha, hm]
  obtain ⟨k, hk, hgained⟩ := h.exists_gain htext hplace hg hv hline
  have hlines := fun f hf => h.line_placeAfter htext hplace hg (f := f) hf hk
  refine ⟨d'.replaced (replacementOf a m z v (some (.field g.id))) (a ++ v ++ z),
    placeAfter place g (Text.byteLength v), ?_, ?_⟩
  · rw [h.refreshOne_eq hg hv, hplace]
    exact edit_eq htext _
  constructor
  case consistent => exact consistent_replaced h.consistent htext v _
  case values => exact h.values
  case kept => exact fun f hf => List.mem_filterMap.2 ⟨_, h.kept f hf, h.field?_eq hids htext hplace hg hf v⟩
  case only => exact fun f' hf' hlive => h.exists_of_mem_edited hids htext hplace hg hf' hlive
  case apart => exact fun f hf f' hf' hne => h.apart_placeAfter hg _ hf hf' hne
  case shown => exact fun f hf => h.slice?_placeAfter htext hplace hg hv hf
  case notBefore =>
    intro f hf
    obtain ⟨hless, hmore, hbeside⟩ := hlines f hf
    have := h.notBefore f hf
    rw [hgained]
    show _ ≤ Text.lineAt (a ++ v ++ z) _
    split
    next hlt =>
      rw [hmore hlt]
      omega
    · rcases hbeside with hbeside | hbeside <;> omega
  case notBehind =>
    intro f hf
    obtain ⟨hless, hmore, hbeside⟩ := hlines f hf
    have := h.notBehind f hf
    rw [hgained]
    show Text.lineAt (a ++ v ++ z) _ ≤ _
    split
    · rcases hbeside with hbeside | hbeside <;> omega
    next hlt =>
      rw [hless (by omega)]
      omega

end Edit

end Shows

/-! ### From line to line -/

/-- Whether a field starts and stops in one line. -/
def IsOneLine (d : Document) (f : Field) : Prop := d.text.lineAt f.span.stop = d.lineOf f.span

instance (d : Document) (f : Field) : Decidable (d.IsOneLine f) := inferInstanceAs (Decidable (_ = _))

/-- The fields to refresh in the lines from `lo` up to `m`. -/
def dueBefore (d : Document) (lo m : Nat) : Finset Field :=
  {f ∈ d.live | d.IsOneLine f ∧ lo ≤ d.lineOf f.span ∧ d.lineOf f.span < m}

/-- The line breaks that come in with the fields to refresh in the lines from `lo` up to `m`. -/
def delay (d : Document) (lo m : Nat) : Nat := ∑ f ∈ d.dueBefore lo m, d.gain f

theorem mem_dueBefore {lo m : Nat} :
    f ∈ d.dueBefore lo m ↔ f ∈ d.live ∧ d.IsOneLine f ∧ lo ≤ d.lineOf f.span ∧ d.lineOf f.span < m := by
  rw [dueBefore, Finset.mem_filter]

theorem delay_mono (d : Document) (lo : Nat) {m n : Nat} (h : m ≤ n) : d.delay lo m ≤ d.delay lo n := by
  refine Finset.sum_le_sum_of_subset fun f hf => ?_
  rw [mem_dueBefore] at hf ⊢
  exact ⟨hf.1, hf.2.1, hf.2.2.1, by omega⟩

theorem dueBefore_of_le {lo m : Nat} (h : m ≤ lo) : d.dueBefore lo m = ∅ := by
  refine Finset.eq_empty_of_forall_notMem fun f hf => ?_
  rw [mem_dueBefore] at hf
  omega

theorem delay_of_le {lo m : Nat} (h : m ≤ lo) : d.delay lo m = 0 := by
  rw [delay, dueBefore_of_le h, Finset.sum_empty]

theorem gained_dueBefore (d : Document) (lo m j : Nat) : d.gained (d.dueBefore lo m) j = d.delay lo (min m j) := by
  refine Finset.sum_congr ?_ fun _ _ => rfl
  ext f
  rw [Finset.mem_filter, mem_dueBefore, mem_dueBefore, Nat.lt_min]
  tauto

namespace Shows

/-- Refreshing the fields of some ids. -/
theorem refreshedAll (h : d.Shows S place d') (hids : (d.fields.map (·.id)).Nodup) (ids : List Nat)
    (hlines : ∀ f ∈ d.live, f.id ∈ ids → f ∈ S ∨ d.IsOneLine f) :
    ∃ d'' place', (ids.map Element.field).foldlM refreshOne d' = .ok d'' ∧
      d.Shows (S ∪ {f ∈ d.live | f.id ∈ ids}) place' d'' := by
  induction ids generalizing S place d' with
  | nil => exact ⟨d', place, rfl, by simpa using h⟩
  | cons id ids ih =>
    rw [List.map_cons, List.foldlM_cons]
    by_cases hid : ∃ g ∈ d.live, g.id = id
    · obtain ⟨g, hg, rfl⟩ := hid
      obtain ⟨d₁, place₁, hrun, h₁⟩ := h.refreshed hids hg (hlines g hg List.mem_cons_self)
      have hset : insert g S ∪ {f ∈ d.live | f.id ∈ ids} = S ∪ {f ∈ d.live | f.id ∈ g.id :: ids} := by
        have hsame : ∀ f ∈ d.live, f.id = g.id → f = g := fun f hf heq =>
          List.inj_on_of_nodup_map hids (mem_live.1 hf).1 (mem_live.1 hg).1 heq
        ext f
        simp only [Finset.mem_union, Finset.mem_insert, Finset.mem_filter, List.mem_cons]
        constructor
        · rintro ((rfl | hf) | hf)
          · exact .inr ⟨hg, .inl rfl⟩
          · exact .inl hf
          · exact .inr ⟨hf.1, .inr hf.2⟩
        · rintro (hf | ⟨hf, heq | hmem⟩)
          · exact .inl (.inr hf)
          · exact .inl (.inl (hsame f hf heq))
          · exact .inr ⟨hf, hmem⟩
      rw [hrun, ← hset]
      exact ih h₁ fun f hf hmem =>
        (hlines f hf (List.mem_cons_of_mem _ hmem)).imp (fun hS => Finset.mem_insert_of_mem hS) id
    · have hnone : ∀ f ∈ d.live, f.id ≠ id := fun f hf heq => hid ⟨f, hf, heq⟩
      have hset : ({f ∈ d.live | f.id ∈ id :: ids} : Finset Field) = {f ∈ d.live | f.id ∈ ids} :=
        Finset.filter_congr fun f hf => by simp [hnone f hf]
      rw [h.refreshOne_of_not_live hnone, hset]
      exact ih h fun f hf hmem => hlines f hf (List.mem_cons_of_mem _ hmem)

/-- A field whose value is not shown yet is in one line if it was. -/
theorem inLine_iff (h : d.Shows S place d') (hf : f ∈ d.live) (hmem : f ∉ S) {i : Nat} :
    d'.InLine i (place f) ↔ d.IsOneLine f ∧ d'.lineOf (place f) = i := by
  have hshown := h.shown f hf
  rw [if_neg hmem] at hshown
  obtain ⟨u, w, z, htext, hu, hw⟩ := Span.fits_iff.1 (h.fits hf)
  have hslice := Text.slice?_eq htext hu hw
  have hafter := Text.lineAt_of_slice? hslice
  have hbefore := Text.lineAt_of_slice? (hshown.symm.trans hslice)
  unfold InLine IsOneLine lineOf
  omega

variable {lo m i : Nat}

theorem line_bounds (h : d.Shows (d.dueBefore lo m) place d') (hf : f ∈ d.live) :
    d.lineOf f.span + d.delay lo (min m (d.lineOf f.span)) ≤ d'.lineOf (place f) ∧
      d'.lineOf (place f) ≤ d.lineOf f.span + d.delay lo (min m (d.lineOf f.span + 1)) := by
  rw [← gained_dueBefore, ← gained_dueBefore]
  exact ⟨h.notBefore f hf, h.notBehind f hf⟩

/-- A field that is found in a paragraph up to the line `m` shows its value already, or it is in that line. -/
theorem due_of_inLine (h : d.Shows (d.dueBefore lo m) place d') (hi : lo ≤ i) (hle : i ≤ m + d.delay lo m)
    (hf : f ∈ d.live) (hline : d'.InLine i (place f)) (hnot : f ∉ d.dueBefore lo m) :
    d.IsOneLine f ∧ d.lineOf f.span = m ∧ i = m + d.delay lo m := by
  obtain ⟨hone, hat⟩ := (h.inLine_iff hf hnot).1 hline
  obtain ⟨hbefore, hbehind⟩ := h.line_bounds hf
  have hlo : lo ≤ d.lineOf f.span := by
    by_contra hlt
    have hnone : d.delay lo (min m (d.lineOf f.span + 1)) = 0 := delay_of_le (by omega)
    rw [hnone] at hbehind
    omega
  have hge : m ≤ d.lineOf f.span := by
    by_contra hlt
    exact hnot (mem_dueBefore.2 ⟨hf, hone, hlo, by omega⟩)
  rw [Nat.min_eq_left hge] at hbefore
  exact ⟨hone, by omega, by omega⟩

/-- The fields of the line `m` are found in one paragraph. -/
theorem inLine_of_due (h : d.Shows (d.dueBefore lo m) place d') (hf : f ∈ d.live) (hone : d.IsOneLine f)
    (hline : d.lineOf f.span = m) : d'.InLine (m + d.delay lo m) (place f) := by
  have hnot : f ∉ d.dueBefore lo m := fun hdue => by
    have := (mem_dueBefore.1 hdue).2.2.2
    omega
  obtain ⟨hbefore, hbehind⟩ := h.line_bounds hf
  rw [hline, Nat.min_self] at hbefore
  rw [hline, Nat.min_eq_left (Nat.le_succ m)] at hbehind
  exact (h.inLine_iff hf hnot).2 ⟨hone, by omega⟩

end Shows

/-- How far an update is that began in the line `lo` and comes to the paragraph `i`: the fields in the lines
before `m` show their values, and the line `m` is the paragraph `i` by now or a later one. -/
def Updated (d : Document) (lo i : Nat) (d' : Document) : Prop :=
  ∃ m place, lo ≤ m ∧ lo ≤ i ∧ i ≤ m + d.delay lo m ∧ (∀ j, lo ≤ j → j < m → j + d.delay lo j < i) ∧
    d.Shows (d.dueBefore lo m) place d'

theorem updated_start (hd : d.Consistent) (hapart : d.LiveApart) (lo : Nat) : d.Updated lo lo d := by
  refine ⟨lo, (·.span), Nat.le_refl _, Nat.le_refl _, Nat.le_add_right _ _, fun j hle hlt => by omega, ?_⟩
  rw [dueBefore_of_le (Nat.le_refl _)]
  exact shows_nothing hd hapart

/-- **One paragraph.**  An update that comes to a line of the document refreshes the fields of the line; one that
comes to a line which a value brought in refreshes fields that it refreshed before. -/
theorem Updated.next {lo i : Nat} (h : d.Updated lo i d') (hids : (d.fields.map (·.id)).Nodup) :
    ∃ d'', refreshWithChildren d' (.paragraph i) = .ok d'' ∧ d.Updated lo (i + 1) d'' := by
  obtain ⟨m, place, hm, hi, hle, hpassed, hshows⟩ := h
  obtain ⟨fs, hchildren, hfs⟩ := exists_childElements hshows.consistent.toWellFormed i
  have hmem : ∀ f ∈ d.live, f.id ∈ fs.map (·.id) ↔ d'.InLine i (place f) := by
    intro f hf
    rw [List.mem_map]
    constructor
    · rintro ⟨f', hf', hid⟩
      obtain ⟨hfields, hline⟩ := (hfs f').1 hf'
      rwa [List.inj_on_of_nodup_map hshows.consistent.ids hfields (hshows.kept f hf) hid] at hline
    · exact fun hline => ⟨_, (hfs _).2 ⟨hshows.kept f hf, hline⟩, rfl⟩
  have hfound := fun f hf hid => hshows.due_of_inLine (f := f) hi hle hf ((hmem f hf).1 hid)
  obtain ⟨d'', place', hrun, hshows'⟩ := hshows.refreshedAll hids (fs.map (·.id)) fun f hf hid =>
    or_iff_not_imp_left.2 fun hnot => (hfound f hf hid hnot).1
  refine ⟨d'', ?_, ?_⟩
  · unfold refreshWithChildren
    rw [hchildren, ← Function.comp_def, ← List.map_map, hrun]
    rfl
  rcases Nat.lt_or_ge i (m + d.delay lo m) with hlt | hge
  · -- a line that came in with a value
    have hsame : d.dueBefore lo m ∪ {f ∈ d.live | f.id ∈ fs.map (·.id)} = d.dueBefore lo m := by
      refine Finset.union_eq_left.2 fun f hf => ?_
      obtain ⟨hlive, hid⟩ := Finset.mem_filter.1 hf
      by_contra hnot
      exact absurd (hfound f hlive hid hnot).2.2 (Nat.ne_of_lt hlt)
    rw [hsame] at hshows'
    exact ⟨m, place', hm, by omega, hlt, fun j hj hjm => Nat.lt_succ_of_lt (hpassed j hj hjm), hshows'⟩
  · -- the line `m`
    obtain rfl : i = m + d.delay lo m := Nat.le_antisymm hle hge
    have hnext : d.dueBefore lo m ∪ {f ∈ d.live | f.id ∈ fs.map (·.id)} = d.dueBefore lo (m + 1) := by
      ext f
      rw [Finset.mem_union, Finset.mem_filter]
      by_cases hdue : f ∈ d.dueBefore lo m
      · obtain ⟨hlive, hone, hlo, hlt⟩ := mem_dueBefore.1 hdue
        exact iff_of_true (.inl hdue) (mem_dueBefore.2 ⟨hlive, hone, hlo, by omega⟩)
      · rw [or_iff_right hdue, mem_dueBefore]
        refine and_congr_right fun hlive => ⟨fun hid => ?_, fun ⟨hone, hlo, hlt⟩ => ?_⟩
        · obtain ⟨hone, hline, -⟩ := hfound f hlive hid hdue
          exact ⟨hone, by omega, by omega⟩
        · have hline : d.lineOf f.span = m := by
            by_contra hne
            exact hdue (mem_dueBefore.2 ⟨hlive, hone, hlo, by omega⟩)
          exact (hmem f hlive).2 (hshows.inLine_of_due hlive hone hline)
    rw [hnext] at hshows'
    have hmono : d.delay lo m ≤ d.delay lo (m + 1) := d.delay_mono lo (Nat.le_succ m)
    refine ⟨m + 1, place', by omega, by omega, by omega, fun j hj hjm => ?_, hshows'⟩
    rcases Nat.lt_succ_iff_lt_or_eq.1 hjm with hlt | rfl
    · exact Nat.lt_succ_of_lt (hpassed j hj hlt)
    · exact Nat.lt_succ_self _

/-- The paragraphs from `i` on, one after the other. -/
theorem Updated.run {lo i : Nat} (h : d.Updated lo i d') (hids : (d.fields.map (·.id)).Nodup) (n : Nat) :
    ∃ d'', ((List.range' i n).map Element.paragraph).foldlM refreshWithChildren d' = .ok d'' ∧
      d.Updated lo (i + n) d'' := by
  induction n generalizing i d' with
  | zero => exact ⟨d', rfl, h⟩
  | succ n ih =>
    obtain ⟨d₁, hrun, h₁⟩ := h.next hids
    obtain ⟨d₂, hrest, h₂⟩ := ih h₁
    refine ⟨d₂, ?_, by rwa [Nat.add_assoc, Nat.add_comm 1 n] at h₂⟩
    rw [List.range'_succ, List.map_cons, List.foldlM_cons, hrun]
    exact hrest

/-- Whether an update of a span reaches a field: the field is in one line, this line does not come before the
span, and with the lines that come in before it, it is still one of those that the span touches. -/
def Reaches (d : Document) (s : Span) (f : Field) : Prop :=
  d.IsOneLine f ∧ d.lineOf s ≤ d.lineOf f.span ∧
    d.lineOf f.span + d.delay (d.lineOf s) (d.lineOf f.span) ≤ d.text.lineAt s.stop

instance (d : Document) (s : Span) (f : Field) : Decidable (d.Reaches s f) :=
  inferInstanceAs (Decidable (_ ∧ _))

/-- Where no value has a line break, the fields inside a span that are in one line are reached. -/
theorem reaches_iff_isOneLine {s : Span} (hwithin : f.span.within s = true)
    (hle : f.span.start ≤ f.span.stop) (hgain : ∀ g ∈ d.live, d.gain g = 0) : d.Reaches s f ↔ d.IsOneLine f := by
  have hdelay : d.delay (d.lineOf s) (d.lineOf f.span) = 0 :=
    Finset.sum_eq_zero fun g hg => hgain g (mem_dueBefore.1 hg).1
  obtain ⟨hstart, hstop⟩ := Span.within_iff.1 hwithin
  have hfirst : d.lineOf s ≤ d.lineOf f.span := Text.lineAt_mono _ hstart
  have hlast : d.lineOf f.span ≤ d.text.lineAt s.stop := Text.lineAt_mono _ (Nat.le_trans hle hstop)
  unfold Reaches
  rw [hdelay]
  exact and_iff_left ⟨hfirst, hlast⟩

/-- An update that is through with the lines of a span has refreshed the fields that it reaches. -/
theorem Updated.shown {s : Span} (h : d.Updated (d.lineOf s) (d.text.lineAt s.stop + 1) d') (hf : f ∈ d.live) :
    ∃ t, d'.field? f.id = some { f with span := t } ∧
      d'.text.slice? t.start t.stop =
        if d.Reaches s f then d.current? f else d.text.slice? f.span.start f.span.stop := by
  obtain ⟨m, place, hm, hi, hle, hpassed, hshows⟩ := h
  refine ⟨place f, field?_eq_some_of_mem hshows.consistent.ids (hshows.kept f hf), ?_⟩
  have hreached : f ∈ d.dueBefore (d.lineOf s) m ↔ d.Reaches s f := by
    rw [mem_dueBefore, and_iff_right hf]
    refine and_congr_right fun _ => and_congr_right fun hlo => ⟨fun hlt => ?_, fun hat => ?_⟩
    · exact Nat.lt_succ_iff.1 (hpassed _ hlo hlt)
    · by_contra hge
      have := d.delay_mono (d.lineOf s) (Nat.le_of_not_lt hge)
      omega
  rw [hshows.shown f hf]
  simp only [hreached]

end Document

/-- **What an update refreshes.**  In a document whose fields with values do not overlap, a command to update
fields succeeds, and all these fields are still there.  Those that it reaches cover exactly the values of their
variables, all others their old texts. -/
theorem updateFields_refreshes {policy : Policy} {c : Command} {r : Run} {range : TextRange}
    (hd : r.document.Consistent) (hapart : r.document.LiveApart) (hkind : c.kind = .updateFields)
    (hrange : c.range? r.document = some range) :
    ∃ p, updateFields policy c r = .ok p ∧
      ∀ f ∈ r.document.fields, ∀ v, r.document.current? f = some v →
        ∃ t, p.2.document.field? f.id = some { f with span := t } ∧
          p.2.document.text.slice? t.start t.stop =
            if r.document.Reaches range.toSpan f then some v
            else r.document.text.slice? f.span.start f.span.stop := by
  have hfits : range.toSpan.fits r.document.text = true := by
    obtain ⟨b, hb, rfl⟩ := Option.map_eq_some_iff.1 hrange
    exact Document.fits_of_bookmark? hd.toWellFormed hb
  have hle := (Span.le_of_fits hfits).1
  obtain ⟨d', hrun, hupdated⟩ := (Document.updated_start hd hapart (r.document.lineOf range.toSpan)).run hd.ids
    (r.document.text.lineAt range.stop + 1 - r.document.lineOf range.toSpan)
  have hlines : r.document.lineOf range.toSpan ≤ r.document.text.lineAt range.stop := Text.lineAt_mono _ hle
  rw [Nat.add_sub_cancel' (Nat.le_succ_of_le hlines)] at hupdated
  refine ⟨({ r with document := d' } : Run).finish c (!policy.debug), ?_, fun f hf v hv => ?_⟩
  · unfold updateFields
    rw [hkind, hrange]
    dsimp only
    rw [Document.elementsWithin_eq hfits, hrun]
    rfl
  · obtain ⟨t, hfield, hshown⟩ := hupdated.shown (Document.mem_live.2 ⟨hf, v, hv⟩)
    refine ⟨t, ?_, ?_⟩
    · show (c.markDone d' (!policy.debug)).2.fields.find? _ = _
      rw [(c.differInBookmarks_markDone d' _).fields]
      exact hfield
    · show (c.markDone d' (!policy.debug)).2.text.slice? _ _ = _
      rw [Command.text_markDone, hshown, hv]

/-- Two lines with a field in each, the first one with a value of two lines. -/
def lengthened : Document :=
  { Document.ofText "a\nb".toList with
    bookmarks := [⟨"DOC(CMD 'updateFields')", ⟨0, 3⟩⟩]
    fields := [⟨0, .computed "x", ⟨0, 1⟩⟩, ⟨1, .computed "y", ⟨2, 3⟩⟩]
    values := .ofList [("x", "1\n2"), ("y", "w")]
    nextFieldId := 2 }

/-- A field over a line break. -/
def acrossBreak : Document :=
  { Document.ofText "a\nb".toList with
    bookmarks := [⟨"DOC(CMD 'updateFields')", ⟨0, 3⟩⟩]
    fields := [⟨0, .computed "x", ⟨0, 3⟩⟩]
    values := .ofList [("x", "v")]
    nextFieldId := 1 }

theorem consistent_lengthened : lengthened.Consistent where
  names := by decide
  bookmarks := by decide
  fields := by decide
  annotations := by decide
  cursor := by decide
  ids := by decide
  fresh := by decide

/-- The command of the two documents. -/
def updating : Command := ⟨"DOC(CMD 'updateFields')", .leaf "DOC", .updateFields, false, false, false⟩

theorem updateFields_refreshes_lengthened :
    ∃ p, updateFields ⟨true, false⟩ updating (Model.fresh lengthened [] false).startRun = .ok p ∧
      (∃ t, p.2.document.field? 0 = some ⟨0, .computed "x", t⟩ ∧
        p.2.document.text.slice? t.start t.stop = some "1\n2".toList) ∧
      ∃ t, p.2.document.field? 1 = some ⟨1, .computed "y", t⟩ ∧
        p.2.document.text.slice? t.start t.stop = some "b".toList := by
  obtain ⟨p, hrun, hshown⟩ := @updateFields_refreshes ⟨true, false⟩ updating
    (Model.fresh lengthened [] false).startRun (.ofSpan ⟨0, 3⟩) consistent_lengthened (by decide) rfl rfl
  refine ⟨p, hrun, ?_, ?_⟩
  · obtain ⟨t, hfield, hslice⟩ := hshown ⟨0, .computed "x", ⟨0, 1⟩⟩ (by decide) "1\n2".toList (by decide)
    exact ⟨t, hfield, hslice.trans (by decide)⟩
  · obtain ⟨t, hfield, hslice⟩ := hshown ⟨1, .computed "y", ⟨2, 3⟩⟩ (by decide) "w".toList (by decide)
    exact ⟨t, hfield, hslice.trans (by decide)⟩

/-- The texts of the fields after the fields of a document were updated, with their values. -/
def updatedTexts (d : Document) : Except Fault (List (Option Text × Option Text)) :=
  (visitPending (updateFields ⟨true, false⟩) (Command.ofDocument d) (Model.fresh d [] false).enter.startRun).map
    fun p => p.2.document.fields.map fun f =>
      (p.2.document.text.slice? f.span.start f.span.stop, p.2.document.current? f)

/-- A field behind a value of several lines, or over a line break, does not show its value after an update. -/
theorem updatedTexts_unreached :
    updatedTexts lengthened = .ok [(some "1\n2".toList, some "1\n2".toList), (some ['b'], some ['w'])] ∧
      updatedTexts acrossBreak = .ok [(some "a\nb".toList, some ['v'])] :=
  ⟨by cbv, by cbv⟩

end TemplateEngine
