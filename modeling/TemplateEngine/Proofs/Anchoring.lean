import TemplateEngine.Proofs.Faults
import TemplateEngine.Proofs.Layout

/-!
# Anchoring — spans move with their text

Beside an edit that puts a text in the place of a stretch, every span keeps what is left of the text it
covered: all of it, or what lies on one side of the stretch, or both sides with the new text between them
(`Span.textAfter?`).  A span is lost when nothing is left of it (`Span.IsLostWith`).  That is how each
operation that edits a document leaves its bookmarks, fields and annotations (`carries_operation`).
-/

namespace TemplateEngine

/-! ### Slices -/

theorem Text.slice?_eq {t a m z : Text} {start stop : Nat} (h : t = a ++ m ++ z)
    (ha : Text.byteLength a = start) (hm : Text.byteLength (a ++ m) = stop) :
    t.slice? start stop = some m :=
  Text.slice?_eq_some_iff.2 ⟨a, z, h, ha, hm⟩

/-! ### Paragraphs -/

namespace Text

theorem dropWhile_eq_nil_or_break (t : Text) :
    t.dropWhile (· ≠ '\n') = [] ∨ ∃ rest, t.dropWhile (· ≠ '\n') = '\n' :: rest := by
  induction t with
  | nil => exact .inl rfl
  | cons c t ih =>
    rw [List.dropWhile_cons]
    split
    · exact ih
    next hc =>
      obtain rfl : c = '\n' := by simpa using hc
      exact .inr ⟨t, rfl⟩

/-- What is before the last line of a text ends in a line break. -/
theorem exists_before_lastLine (t : Text) :
    ∃ b, t = b ++ lastLine t ∧ (b = [] ∨ ∃ b', b = b' ++ ['\n']) := by
  refine ⟨(t.reverse.dropWhile (· ≠ '\n')).reverse, ?_, ?_⟩
  · rw [lastLine, ← List.reverse_append, List.takeWhile_append_dropWhile, List.reverse_reverse]
  · rcases dropWhile_eq_nil_or_break t.reverse with h | ⟨rest, h⟩
    · exact .inl (by rw [h]; rfl)
    · exact .inr ⟨rest.reverse, by rw [h, List.reverse_cons]⟩

/-- What is behind the first line of a text begins with a line break. -/
theorem exists_behind_firstLine (t : Text) :
    ∃ z, t = firstLine t ++ z ∧ (z = [] ∨ ∃ z', z = '\n' :: z') :=
  ⟨t.dropWhile (· ≠ '\n'), List.takeWhile_append_dropWhile.symm, dropWhile_eq_nil_or_break t⟩

end Text

/-- A paragraph is deleted with a line break between characters. -/
theorem Document.fits_withLineBreak {d : Document} {p : Nat} {q : Nat × Nat}
    (h : d.text.paragraphAround? p = some q) :
    (d.withLineBreak ⟨q.1, q.2⟩).fits d.text = true := by
  unfold Text.paragraphAround? at h
  obtain ⟨⟨before, after⟩, hsplit, h⟩ := Option.bind_eq_some_iff.1 h
  obtain ⟨htext, rfl⟩ := Text.splitAt?_eq_some_iff.1 hsplit
  obtain rfl := Option.some.inj h
  obtain ⟨b, hb, hbreak⟩ := Text.exists_before_lastLine before
  obtain ⟨z, hz, hbreak'⟩ := Text.exists_behind_firstLine after
  generalize Text.lastLine before = l at hb ⊢
  generalize Text.firstLine after = f at hz ⊢
  subst hb hz
  have hlength : d.length = Text.byteLength b + Text.byteLength l + (Text.byteLength f + Text.byteLength z) := by
    rw [length, htext]
    simp only [Text.byteLength_append]
  unfold withLineBreak
  simp only [Text.byteLength_append, hlength]
  rw [htext]
  split_ifs with hstop hstart
  · -- the line break behind the paragraph
    rcases hbreak' with rfl | ⟨z, rfl⟩
    · rw [Text.byteLength_nil] at hstop
      omega
    · refine Span.fits_iff.2 ⟨b, l ++ f ++ ['\n'], z, by simp, by dsimp only; omega, ?_⟩
      have hbyte : Text.byteLength ['\n'] = 1 := by decide
      simp only [Text.byteLength_append, hbyte]
      omega
  · -- the line break before it, as nothing is behind it
    rcases hbreak with rfl | ⟨b, rfl⟩
    · rw [Text.byteLength_nil] at hstart
      omega
    · have hbyte : Text.byteLength ['\n'] = 1 := by decide
      refine Span.fits_iff.2 ⟨b, ['\n'] ++ l ++ f, z, by simp, ?_, ?_⟩
      · simp only [Text.byteLength_append, hbyte]
        omega
      · simp only [Text.byteLength_append, hbyte]
        omega
  · refine Span.fits_iff.2 ⟨b, l ++ f, z, by simp, by dsimp only; omega, ?_⟩
    simp only [Text.byteLength_append]
    omega

namespace Span

/-! ### What becomes of a span -/

/-- Whether nothing is left of a span when `edited` is replaced: it covers a text, all of which goes, or it
is empty and lies inside. -/
def IsLostWith (s edited : Span) : Prop :=
  (s.start < s.stop ∧ edited.start ≤ s.start ∧ s.stop ≤ edited.stop) ∨
    (s.start = s.stop ∧ edited.start < s.start ∧ s.start < edited.stop)

instance (s edited : Span) : Decidable (s.IsLostWith edited) :=
  inferInstanceAs (Decidable (_ ∨ _))

/-- The text that a span covers after `new` took the place of `edited` in `old`. -/
def textAfter? (old : Text) (edited : Span) (new : Text) (s : Span) : Option Text :=
  if s.stop ≤ edited.start ∨ edited.stop ≤ s.start then old.slice? s.start s.stop
  else if s.start ≤ edited.start ∧ edited.stop ≤ s.stop then do
    let before ← old.slice? s.start edited.start
    let after ← old.slice? edited.stop s.stop
    return before ++ new ++ after
  else if s.start < edited.start then old.slice? s.start edited.start
  else old.slice? edited.stop s.stop

theorem reanchor_eq_none_iff {s edited : Span} {n : Nat} (hs : s.start ≤ s.stop) :
    s.reanchor edited n = none ↔ s.IsLostWith edited := by
  unfold reanchor IsLostWith
  dsimp only
  split_ifs <;> grind

/-! ### Arithmetic -/

/-- The difference of two positions, where it is one. -/
def minus? (p q : Nat) : Option Nat := if q ≤ p then some (p - q) else none

/-- Where a position ends up, with every difference checked. -/
def movedChecked? (edited : Span) (inserted p : Nat) : Option Nat := do
  let length ← minus? edited.stop edited.start
  let rest ← minus? p length
  return rest + inserted

/-- Where a span ends up, with every difference checked: `none` where one of them is none. -/
def reanchorChecked? (span edited : Span) (inserted : Nat) : Option (Option Span) :=
  let move? := edited.movedChecked? inserted
  if span.start = span.stop then
    if span.start ≤ edited.start then some (some span)
    else if edited.stop ≤ span.start then (move? span.start).map fun p => some (point p)
    else some none
  else if span.stop ≤ edited.start then some (some span)
  else if edited.stop ≤ span.start then
    (move? span.start).bind fun p => (move? span.stop).map fun q => some ⟨p, q⟩
  else if edited.start ≤ span.start ∧ span.stop ≤ edited.stop then some none
  else if span.start ≤ edited.start ∧ edited.stop ≤ span.stop then
    (move? span.stop).map fun q => some ⟨span.start, q⟩
  else if span.start < edited.start then some (some ⟨span.start, edited.start⟩)
  else (move? span.stop).map fun q => some ⟨edited.start + inserted, q⟩

theorem movedChecked?_eq {edited : Span} {n p : Nat} (he : edited.start ≤ edited.stop)
    (hp : edited.stop ≤ p) : edited.movedChecked? n p = some (edited.moved n p) := by
  have hlength : minus? edited.stop edited.start = some (edited.stop - edited.start) := if_pos he
  have hrest : minus? p (edited.stop - edited.start) = some (p - (edited.stop - edited.start)) :=
    if_pos (Nat.le_trans (Nat.sub_le _ _) hp)
  unfold movedChecked? moved
  rw [hlength]
  show (minus? p (edited.stop - edited.start)).bind _ = _
  rw [hrest]
  show some (p - (edited.stop - edited.start) + n) = _
  congr 1
  omega

/-- No difference fails: positions move only from the stop of the edited span on. -/
theorem reanchorChecked?_eq {s edited : Span} {n : Nat} (hs : s.start ≤ s.stop)
    (he : edited.start ≤ edited.stop) :
    s.reanchorChecked? edited n = some (s.reanchor edited n) := by
  unfold reanchorChecked? reanchor
  dsimp only
  split_ifs with h₁ h₂ h₃ h₄ h₅ h₆ h₇ h₈
  · rfl
  · rw [movedChecked?_eq he h₃]
    rfl
  · rfl
  · rfl
  · rw [movedChecked?_eq he h₅, movedChecked?_eq he (Nat.le_trans h₅ hs)]
    rfl
  · rfl
  · rw [movedChecked?_eq he h₇.2]
    rfl
  · rfl
  · rw [movedChecked?_eq he (by omega)]
    rfl

/-! ### Spans that are kept -/

/-- How a span `s` can lie to the edited one if it is kept, and where it is then. -/
inductive Kept (edited : Span) (n : Nat) (s : Span) : Span → Prop where
  | before (h : s.stop ≤ edited.start) : Kept edited n s s
  | behind (h : edited.stop ≤ s.start) :
      Kept edited n s ⟨edited.moved n s.start, edited.moved n s.stop⟩
  | around (h : edited.start < s.stop) (h' : s.start < edited.stop) (hstart : s.start ≤ edited.start)
      (hstop : edited.stop ≤ s.stop) : Kept edited n s ⟨s.start, edited.moved n s.stop⟩
  | cutOff (h : s.start < edited.start) (h' : edited.start < s.stop) (hstop : s.stop < edited.stop) :
      Kept edited n s ⟨s.start, edited.start⟩
  | cutInto (h : edited.start < s.start) (h' : s.start < edited.stop) (hstop : edited.stop < s.stop) :
      Kept edited n s ⟨edited.start + n, edited.moved n s.stop⟩

theorem kept_of_reanchor {s s' edited : Span} {n : Nat}
    (h : s.reanchor edited n = some s') : Kept edited n s s' := by
  unfold reanchor at h
  dsimp only at h
  split_ifs at h with h₁ h₂ h₃ h₄ h₅ h₆ h₇ h₈ <;> obtain rfl := Option.some.inj h
  · exact .before (h₁ ▸ h₂)
  · have hkept : Kept edited n s _ := .behind h₃
    rwa [← h₁] at hkept
  · exact .before h₄
  · exact .behind h₅
  · exact .around (by omega) (by omega) h₇.1 h₇.2
  · exact .cutOff h₈ (by omega) (by omega)
  · exact .cutInto (by omega) (by omega) (by omega)

/-- A span `s` of the text `old` and the span `s'` of the text `after` that it becomes when `new` takes the
place of `edited`. -/
structure MovesWith (old : Text) (edited : Span) (new after : Text) (s s' : Span) : Prop where
  fits : s'.fits after = true
  covers : ∃ m, textAfter? old edited new s = some m ∧ after.slice? s'.start s'.stop = some m
  empty_iff : s'.start = s'.stop ↔ s.start = s.stop

variable {a m z new : Text} {s s' : Span}

/-- Where a position behind the edited stretch ends up, told by the text between them. -/
theorem moved_eq {p : Nat} {u : Text} (hp : Text.byteLength (a ++ m ++ u) = p) :
    (a.stretch m).moved (Text.byteLength new) p = Text.byteLength (a ++ new ++ u) := by
  unfold moved
  simp only [Text.byteLength_append] at hp ⊢
  omega

/-- What is covered by a span that is kept, case by case as the edited stretch lies to it. -/
theorem slice?_of_kept (hs : s.fits (a ++ m ++ z) = true)
    (h : Kept (a.stretch m) (Text.byteLength new) s s') :
    ∃ w, textAfter? (a ++ m ++ z) (a.stretch m) new s = some w ∧
      Text.slice? (a ++ new ++ z) s'.start s'.stop = some w := by
  obtain ⟨u, w, v, hcut, hu, hw⟩ := fits_iff.1 hs
  have hle : s.start ≤ s.stop := (le_of_fits hs).1
  have hmid : Text.byteLength a ≤ Text.byteLength (a ++ m) := Text.stretch_le a m
  have hslice : Text.slice? (a ++ m ++ z) s.start s.stop = some w := Text.slice?_eq hcut hu hw
  -- the text of the span on each side of the stretch, where the span begins or ends there
  have hleft : s.start ≤ Text.byteLength a → ∃ b, a = u ++ b := fun h =>
    Text.exists_append_of_byteLength_le (by rw [← List.append_assoc, ← hcut, List.append_assoc])
      (by omega)
  have hright : Text.byteLength (a ++ m) ≤ s.stop → ∃ b, z = b ++ v ∧ a ++ m ++ b = u ++ w := fun h => by
    obtain ⟨b, hb⟩ := Text.exists_append_of_byteLength_le hcut (by omega)
    refine ⟨b, ?_, hb.symm⟩
    rw [hb, List.append_assoc (a ++ m)] at hcut
    exact List.append_cancel_left hcut
  unfold textAfter?
  cases h with
  | before h =>
    dsimp only at h
    obtain ⟨r, rfl⟩ : ∃ r, a = u ++ w ++ r :=
      Text.exists_append_of_byteLength_le (by rw [← hcut, List.append_assoc]) (by omega)
    rw [if_pos (.inl h)]
    exact ⟨w, hslice, Text.slice?_eq (z := r ++ new ++ z) (by simp) hu hw⟩
  | behind h =>
    dsimp only at h
    obtain ⟨r, rfl⟩ : ∃ r, u = a ++ m ++ r :=
      Text.exists_append_of_byteLength_le (by rw [hcut, List.append_assoc]) (by omega)
    obtain ⟨b, rfl, hb⟩ := hright (by omega)
    rw [if_pos (.inr h), moved_eq hu, moved_eq (u := r ++ w) (by simpa using hw)]
    rw [List.append_assoc (a ++ m), List.append_cancel_left_eq] at hb
    exact ⟨w, hslice, Text.slice?_eq (a := a ++ new ++ r) (z := v) (by simp [hb]) rfl (by simp)⟩
  | around h h' hstart hstop =>
    dsimp only at h h' hstart hstop
    obtain ⟨b, rfl⟩ := hleft hstart
    obtain ⟨b', rfl, hb'⟩ := hright hstop
    have hbefore : Text.slice? (u ++ b ++ m ++ (b' ++ v)) s.start (Text.byteLength (u ++ b)) = some b :=
      Text.slice?_eq (z := m ++ (b' ++ v)) (by simp) hu rfl
    have hafter : Text.slice? (u ++ b ++ m ++ (b' ++ v)) (Text.byteLength (u ++ b ++ m)) s.stop =
        some b' := Text.slice?_eq (z := v) (by simp) rfl (hb' ▸ hw)
    rw [if_neg (by dsimp only; omega), if_pos ⟨hstart, hstop⟩]
    refine ⟨b ++ new ++ b', ?_, ?_⟩
    · show (Text.slice? _ _ _).bind _ = _
      rw [hbefore]
      show (Text.slice? _ _ _).bind _ = _
      rw [hafter]
      rfl
    · rw [moved_eq (u := b') (hb' ▸ hw)]
      exact Text.slice?_eq (z := v) (by simp) hu (by simp)
  | cutOff h h' hstop =>
    dsimp only at h h' hstop
    obtain ⟨b, rfl⟩ := hleft h.le
    rw [if_neg (by dsimp only; omega), if_neg (by dsimp only; omega), if_pos h]
    exact ⟨b, Text.slice?_eq (z := m ++ z) (by simp) hu rfl,
      Text.slice?_eq (z := new ++ z) (by simp) hu rfl⟩
  | cutInto h h' hstop =>
    dsimp only at h h' hstop
    obtain ⟨b, rfl, hb⟩ := hright hstop.le
    rw [if_neg (by dsimp only; omega), if_neg (by dsimp only; omega), if_neg (by dsimp only; omega)]
    refine ⟨b, Text.slice?_eq (z := v) (by simp) rfl (hb ▸ hw), ?_⟩
    rw [moved_eq (u := b) (hb ▸ hw)]
    exact Text.slice?_eq (z := v) (by simp) (by simp) rfl

theorem empty_iff_of_kept (hs : s.start ≤ s.stop) (hlost : ¬s.IsLostWith (a.stretch m))
    (h : Kept (a.stretch m) (Text.byteLength new) s s') :
    s'.start = s'.stop ↔ s.start = s.stop := by
  have hmid := Text.stretch_le a m
  unfold IsLostWith at hlost
  cases h with
  | before h => rfl
  | behind h =>
    unfold moved
    dsimp only at *
    omega
  | around h h' hstart hstop =>
    unfold moved
    dsimp only at *
    omega
  | cutOff h h' hstop =>
    dsimp only at *
    omega
  | cutInto h h' hstop =>
    unfold moved
    dsimp only at *
    omega

theorem movesWith_of_reanchor (hs : s.fits (a ++ m ++ z) = true)
    (h : s.reanchor (a.stretch m) (Text.byteLength new) = some s') :
    MovesWith (a ++ m ++ z) (a.stretch m) new (a ++ new ++ z) s s' where
  fits := fits_reanchor hs h
  covers := slice?_of_kept hs (kept_of_reanchor h)
  empty_iff := by
    have hle := (le_of_fits hs).1
    refine empty_iff_of_kept hle (fun hlost => ?_) (kept_of_reanchor h)
    rw [(reanchor_eq_none_iff hle).2 hlost] at h
    cases h

/-- What lies apart from an edit covers the same text behind it. -/
theorem slice?_of_apart (hs : s.fits (a ++ m ++ z) = true)
    (h : s.reanchor (a.stretch m) (Text.byteLength new) = some s') (hapart : (a.stretch m).Apart s) :
    Text.slice? (a ++ new ++ z) s'.start s'.stop = Text.slice? (a ++ m ++ z) s.start s.stop := by
  obtain ⟨w, hafter, hcovers⟩ := (movesWith_of_reanchor hs h).covers
  have hbeside : s.stop ≤ (a.stretch m).start ∨ (a.stretch m).stop ≤ s.start := hapart.symm
  unfold textAfter? at hafter
  rw [if_pos hbeside] at hafter
  rw [hcovers, hafter]

end Span

/-! ### Parts of an edited document -/

namespace Span

/-- Whether a part with the span `s` is still there: what the edit is made for is, other parts if some of their
text is. -/
def Remains (edited : Span) (owns : Prop) (s : Span) : Prop := owns ∨ ¬s.IsLostWith edited

instance (edited : Span) (owns : Prop) [Decidable owns] (s : Span) : Decidable (Remains edited owns s) :=
  inferInstanceAs (Decidable (_ ∨ _))

/-- The span `s` of a part and its span `s'` after the edit: what the edit is made for covers exactly the new
text, other parts go with their text. -/
structure Becomes (old : Text) (edited : Span) (new after : Text) (owns : Prop) (s s' : Span) : Prop where
  owner : owns → s'.start = edited.start ∧ after.slice? s'.start s'.stop = some new
  other : ¬owns → MovesWith old edited new after s s'

end Span

/-- A list of parts after some were dropped and each other one was carried along. -/
theorem forall₂_filterMap {α : Type} {remains : α → Bool} {R : α → α → Prop} {carry : α → Option α}
    {xs : List α} (hnone : ∀ x ∈ xs, carry x = none ↔ remains x = false)
    (hsome : ∀ x ∈ xs, ∀ y, carry x = some y → R x y) :
    List.Forall₂ R (xs.filter remains) (xs.filterMap carry) := by
  induction xs with
  | nil => exact .nil
  | cons x xs ih =>
    have hrest := ih (fun y hy => hnone y (List.mem_cons_of_mem x hy))
      fun y hy => hsome y (List.mem_cons_of_mem x hy)
    have hx := hnone x List.mem_cons_self
    cases h : carry x with
    | none => rwa [List.filter_cons_of_neg (by simp [hx.1 h]), List.filterMap_cons_none h]
    | some y =>
      have hremains : remains x = true := by
        rw [← Bool.not_eq_false, ← hx, h]
        simp
      rw [List.filter_cons_of_pos hremains, List.filterMap_cons_some h]
      exact .cons (hsome x List.mem_cons_self y h) hrest

namespace Replacement

/-- Where the span of a part goes, if it is kept: `owns` tells whether the edit is made for that part. -/
def place? (e : Replacement) (owns : Prop) [Decidable owns] (s : Span) : Option Span :=
  if owns then some e.newSpan else e.follow s

theorem bookmark?_eq (e : Replacement) (b : Bookmark) :
    e.bookmark? b = (e.place? (e.owner = some (.bookmark b.name)) b.span).map fun s =>
      { b with span := s } := by
  unfold bookmark? place?
  split <;> rfl

theorem field?_eq (e : Replacement) (f : Field) :
    e.field? f = (e.place? (e.owner = some (.field f.id)) f.span).map fun s =>
      { f with span := s } := by
  unfold field? place?
  split <;> rfl

theorem annotation?_eq (e : Replacement) (x : Annotation) :
    e.annotation? x = (e.place? False x.span).map fun s => { x with span := s } := rfl

end Replacement

namespace Document

/-- The document `d'` that `d` becomes when `new` takes the place of `edited`, on behalf of `owner` if there is
one.  The fields with the id `removed` are taken away besides. -/
structure Anchored (d : Document) (edited : Span) (new : Text) (owner : Option Owner)
    (removed : Option Nat) (d' : Document) : Prop where
  cut : ∃ a m z, d.text = a ++ m ++ z ∧ edited = a.stretch m ∧ d'.text = a ++ new ++ z
  bookmarks : List.Forall₂
    (fun b b' => b'.name = b.name ∧
      Span.Becomes d.text edited new d'.text (owner = some (.bookmark b.name)) b.span b'.span)
    (d.bookmarks.filter fun b => Span.Remains edited (owner = some (.bookmark b.name)) b.span)
    d'.bookmarks
  fields : List.Forall₂
    (fun f f' => f'.id = f.id ∧ f'.kind = f.kind ∧
      Span.Becomes d.text edited new d'.text (owner = some (.field f.id)) f.span f'.span)
    (d.fields.filter fun f =>
      removed ≠ some f.id ∧ Span.Remains edited (owner = some (.field f.id)) f.span)
    d'.fields
  annotations : List.Forall₂
    (fun x x' => x'.text = x.text ∧ Span.Becomes d.text edited new d'.text False x.span x'.span)
    (d.annotations.filter fun x => Span.Remains edited False x.span)
    d'.annotations
  checked : ∀ s : Span, s.start ≤ s.stop →
    s.reanchorChecked? edited (Text.byteLength new) = some (s.reanchor edited (Text.byteLength new))

section Edits

variable {a m z new : Text} {owner : Option Owner} {s : Span} {owns : Prop} [Decidable owns]

theorem follow_replacementOf (hs : s.fits (a ++ m ++ z) = true) :
    (replacementOf a m z new owner).follow s = s.reanchor (a.stretch m) (Text.byteLength new) :=
  Span.follow_eq_reanchor hs

theorem place?_eq_none_iff (hs : s.fits (a ++ m ++ z) = true) :
    (replacementOf a m z new owner).place? owns s = none ↔ ¬Span.Remains (a.stretch m) owns s := by
  unfold Replacement.place? Span.Remains
  by_cases howns : owns
  · simp [howns]
  · rw [if_neg howns, follow_replacementOf hs, Span.reanchor_eq_none_iff (Span.le_of_fits hs).1]
    simp [howns]

theorem becomes_of_place? {s' : Span} (hs : s.fits (a ++ m ++ z) = true)
    (h : (replacementOf a m z new owner).place? owns s = some s') :
    Span.Becomes (a ++ m ++ z) (a.stretch m) new (a ++ new ++ z) owns s s' := by
  unfold Replacement.place? at h
  split at h
  next howns =>
    obtain rfl := Option.some.inj h
    rw [newSpan_replacementOf]
    exact ⟨fun _ => ⟨rfl, Text.slice?_eq rfl rfl rfl⟩, fun hnot => absurd howns hnot⟩
  next howns =>
    rw [follow_replacementOf hs] at h
    exact ⟨fun h => absurd h howns, fun _ => Span.movesWith_of_reanchor hs h⟩

/-- What an edit makes of one kind of parts: `span` reads the span of a part and `place` puts one there. -/
theorem forall₂_placed {α : Type} (span : α → Span) (place : α → Span → α) (owns : α → Prop)
    [DecidablePred owns] {xs : List α} (hxs : ∀ x ∈ xs, (span x).fits (a ++ m ++ z) = true) :
    List.Forall₂
      (fun x y => ∃ s, y = place x s ∧
        Span.Becomes (a ++ m ++ z) (a.stretch m) new (a ++ new ++ z) (owns x) (span x) s)
      (xs.filter fun x => Span.Remains (a.stretch m) (owns x) (span x))
      (xs.filterMap fun x =>
        ((replacementOf a m z new owner).place? (owns x) (span x)).map (place x)) := by
  refine forall₂_filterMap (fun x hx => ?_) fun x hx y hy => ?_
  · rw [Option.map_eq_none_iff, place?_eq_none_iff (hxs x hx), decide_eq_false_iff_not]
  · obtain ⟨s, hs, rfl⟩ := Option.map_eq_some_iff.1 hy
    exact ⟨s, rfl, becomes_of_place? (hxs x hx) hs⟩

/-- The edit of a well-formed document. -/
theorem anchored_replaced {d : Document} (hd : d.WellFormed) (htext : d.text = a ++ m ++ z) :
    d.Anchored (a.stretch m) new owner none
      (d.replaced (replacementOf a m z new owner) (a ++ new ++ z)) where
  cut := ⟨a, m, z, htext, rfl, rfl⟩
  bookmarks := by
    show List.Forall₂ _ _ (d.bookmarks.filterMap (replacementOf a m z new owner).bookmark?)
    rw [funext (Replacement.bookmark?_eq _), htext]
    refine (forall₂_placed Bookmark.span (fun b s => { b with span := s }) _
      (htext ▸ hd.bookmarks)).imp ?_
    rintro b _ ⟨s, rfl, hs⟩
    exact ⟨rfl, hs⟩
  fields := by
    show List.Forall₂ _ _ (d.fields.filterMap (replacementOf a m z new owner).field?)
    rw [funext (Replacement.field?_eq _), htext]
    simp only [ne_eq, reduceCtorEq, not_false_eq_true, true_and]
    refine (forall₂_placed Field.span (fun f s => { f with span := s }) _ (htext ▸ hd.fields)).imp ?_
    rintro f _ ⟨s, rfl, hs⟩
    exact ⟨rfl, rfl, hs⟩
  annotations := by
    show List.Forall₂ _ _ (d.annotations.filterMap (replacementOf a m z new owner).annotation?)
    rw [funext (Replacement.annotation?_eq _), htext]
    refine (forall₂_placed Annotation.span (fun x s => { x with span := s }) (fun _ => False)
      (htext ▸ hd.annotations)).imp ?_
    rintro x _ ⟨s, rfl, hs⟩
    exact ⟨rfl, hs⟩
  checked s hs := Span.reanchorChecked?_eq hs (Text.stretch_le a m)

/-- An edit of a span that fits is possible. -/
theorem exists_edit {d : Document} (hd : d.WellFormed) {s : Span} (hs : s.fits d.text = true)
    (new : Text) (owner : Option Owner) :
    ∃ d', d.edit s new owner = .ok d' ∧ d.Anchored s new owner none d' := by
  obtain ⟨a, m, z, htext, ha, hm⟩ := Span.fits_iff.1 hs
  obtain rfl : s = a.stretch m := by rw [Text.stretch, ha, hm]
  exact ⟨_, edit_eq htext owner, anchored_replaced hd htext⟩

/-- Taking away the fields with an id as well. -/
theorem Anchored.remove {d d' : Document} {edited : Span} (h : d.Anchored edited new owner none d')
    (id : Nat) :
    d.Anchored edited new owner (some id) { d' with fields := d'.fields.filter (·.id ≠ id) } where
  cut := h.cut
  bookmarks := h.bookmarks
  fields := by
    have hrest : List.Forall₂ _ _ (d'.fields.filter (·.id ≠ id)) :=
      List.rel_filter (p := fun f : Field => f.id ≠ id) (q := fun f : Field => f.id ≠ id)
        (fun f f' hff' => by simp [hff'.1]) h.fields
    rw [List.filter_filter] at hrest
    refine cast ?_ hrest
    congr 1
    refine List.filter_congr fun f _ => ?_
    simp [eq_comm]
  annotations := h.annotations
  checked := h.checked

end Edits

/-! ### Operations -/

/-- The operations that edit a document. -/
inductive Operation where
  | setBookmarkText (name : String) (t : Text)
  | insertContent (r : TextRange) (content : Document)
  | replacePlaceholder (id : Nat) (t : Text)
  | refreshElement (e : Element)
  | deleteParagraph (r : TextRange)
  | append (t : Text)

namespace Operation

/-- Whether an operation is performed on `d` and gives `d'`. -/
def Gives (d : Document) : Operation → Document → Prop
  | .setBookmarkText name t, d' => d.setBookmarkText name t = .ok (.ok d')
  | .insertContent r content, d' => d.insertContent r content = .ok (.ok d')
  | .replacePlaceholder id t, d' => d.replacePlaceholder id t = .ok (.ok d')
  | .refreshElement e, d' => d.refreshElement e = .ok (some (.ok d'))
  | .deleteParagraph r, d' => d.deleteParagraph r = .ok (.ok d')
  | .append t, d' => d.append t = .ok d'

/-- The stretch that an operation replaces and the text it puts there, if it can be performed. -/
def replacement? (d : Document) : Operation → Option (Span × Text)
  | .setBookmarkText name t => (d.span? name).map fun s => (s, t)
  | .insertContent r content =>
    if d.covers r && d.text.isBoundary r.start then some (.point r.start, content.text) else none
  | .replacePlaceholder id t => (d.field? id).map fun f => (f.span, t)
  | .refreshElement (.paragraph _) => none
  | .refreshElement (.field id) =>
    (d.field? id).bind fun f =>
      match f.kind with
      | .placeholder _ => none
      | .computed source => (d.values.get? source).map fun value => (f.span, value.toList)
  | .deleteParagraph r =>
    if d.covers r then
      (d.text.paragraphAround? r.start).map fun p => (d.withLineBreak ⟨p.1, p.2⟩, [])
    else none
  | .append t => some (.point d.length, t)

/-- What an operation is made for. -/
def owner : Operation → Option Owner
  | .setBookmarkText name _ => some (.bookmark name)
  | .refreshElement (.field id) => some (.field id)
  | _ => none

/-- The field that an operation takes away. -/
def removed : Operation → Option Nat
  | .replacePlaceholder id _ => some id
  | _ => none

/-- What an operation does behind its edit: only an inserted content brings more parts. -/
def Completes : Operation → Document → Document → Prop
  | .insertContent .., d, d' =>
    d'.text = d.text ∧ d.bookmarks <+: d'.bookmarks ∧ d.fields <+: d'.fields ∧
      d.annotations <+: d'.annotations
  | _, d, d' => d' = d

end Operation

theorem completes_adopt (d content : Document) (r : TextRange) :
    Operation.Completes (.insertContent r content) d (d.adopt content r.start) := by
  let I : Document → Prop := Operation.Completes (.insertContent r content) d
  show I (d.adopt content r.start)
  refine foldl_invariant (I := I) ?_ _ (foldl_invariant (I := I) ?_ _ (foldl_invariant (I := I) ?_ _
    ⟨rfl, List.prefix_rfl, List.prefix_rfl, List.prefix_rfl⟩))
  · rintro d' x ⟨htext, hbookmarks, hfields, hannotations⟩
    exact ⟨htext, hbookmarks, hfields, hannotations.trans (List.prefix_append _ _)⟩
  · rintro d' f ⟨htext, hbookmarks, hfields, hannotations⟩
    exact ⟨htext, hbookmarks, hfields.trans (List.prefix_append _ _), hannotations⟩
  · rintro d' b ⟨htext, hbookmarks, hfields, hannotations⟩
    exact ⟨htext, hbookmarks.trans (List.prefix_append _ _), hfields, hannotations⟩

/-- What an operation makes of a document: where it can be performed, an edit that carries all parts along. -/
structure Operation.Carries (op : Operation) (d : Document) : Prop where
  edits : ∀ s t, op.replacement? d = some (s, t) →
    ∃ d₁ d', op.Gives d d' ∧ d.Anchored s t op.owner op.removed d₁ ∧ op.Completes d₁ d'
  refuses : op.replacement? d = none → ∀ d', ¬op.Gives d d'

section Operations

variable {d : Document} {op : Operation}

theorem carries_of_none (h : op.replacement? d = none) (hgives : ∀ d', ¬op.Gives d d') :
    op.Carries d :=
  ⟨fun s t hsome => (by rw [h] at hsome; cases hsome), fun _ => hgives⟩

theorem carries_of_some {s : Span} {t : Text} (h : op.replacement? d = some (s, t))
    (hgives : ∃ d₁ d', op.Gives d d' ∧ d.Anchored s t op.owner op.removed d₁ ∧ op.Completes d₁ d') :
    op.Carries d where
  edits s' t' hsome := by
    rw [h] at hsome
    obtain ⟨rfl, rfl⟩ := Prod.mk.inj (Option.some.inj hsome)
    exact hgives
  refuses hnone := by
    rw [h] at hnone
    cases hnone

theorem carries_setBookmarkText (hd : d.WellFormed) (name : String) (t : Text) :
    Operation.Carries (.setBookmarkText name t) d := by
  cases hb : d.bookmark? name with
  | none =>
    refine carries_of_none (by simp [Operation.replacement?, span?, hb]) fun d' h => ?_
    simp [Operation.Gives, setBookmarkText, hb] at h
  | some b =>
    obtain ⟨d', hedit, hd'⟩ := exists_edit hd (fits_of_bookmark? hd hb) t (some (.bookmark name))
    refine carries_of_some (s := b.span) (t := t) (by simp [Operation.replacement?, span?, hb])
      ⟨d', d', ?_, hd', rfl⟩
    simp only [Operation.Gives, setBookmarkText, hb, hedit]
    rfl

theorem carries_replacePlaceholder (hd : d.WellFormed) (id : Nat) (t : Text) :
    Operation.Carries (.replacePlaceholder id t) d := by
  cases hf : d.field? id with
  | none =>
    refine carries_of_none (by simp [Operation.replacement?, hf]) fun d' h => ?_
    simp [Operation.Gives, replacePlaceholder, hf] at h
  | some f =>
    obtain ⟨d', hedit, hd'⟩ := exists_edit hd (fits_of_field? hd hf) t none
    refine carries_of_some (s := f.span) (t := t) (by simp [Operation.replacement?, hf])
      ⟨_, _, ?_, hd'.remove id, rfl⟩
    simp only [Operation.Gives, replacePlaceholder, hf, hedit]
    rfl

theorem carries_insertContent (hd : d.WellFormed) (r : TextRange) (content : Document) :
    Operation.Carries (.insertContent r content) d := by
  cases hcovers : d.covers r with
  | false =>
    refine carries_of_none (by simp [Operation.replacement?, hcovers]) fun d' h => ?_
    simp [Operation.Gives, insertContent, check, hcovers] at h
  | true =>
    cases hstart : d.text.isBoundary r.start with
    | false =>
      refine carries_of_none (by simp [Operation.replacement?, hstart]) fun d' h => ?_
      have hcheck : d.check r = .ok () := if_pos hcovers
      cases hedit : d.edit (.point r.start) content.text none with
      | error f => simp [Operation.Gives, insertContent, hcheck, hedit, bind, Except.bind] at h
      | ok d₁ =>
        have hlen : r.start ≤ d.length := by
          have := of_check_eq_ok hcheck
          omega
        have hfits : (Span.point r.start).fits d.text = true := fits_of_edit_eq_ok (Nat.le_refl _) hlen hedit
        rw [Span.fits_point, hstart] at hfits
        cases hfits
    | true =>
      obtain ⟨d₁, hedit, hd₁⟩ := exists_edit hd (Span.fits_point.trans hstart) content.text none
      refine carries_of_some (s := .point r.start) (t := content.text)
        (by simp [Operation.replacement?, hcovers, hstart])
        ⟨d₁, d₁.adopt content r.start, ?_, hd₁, completes_adopt d₁ content r⟩
      have hcheck : d.check r = .ok () := if_pos hcovers
      simp only [Operation.Gives, insertContent, hcheck, hedit]
      rfl

theorem carries_refreshElement (hd : d.WellFormed) (e : Element) :
    Operation.Carries (.refreshElement e) d := by
  cases e with
  | paragraph index =>
    refine carries_of_none rfl fun d' h => ?_
    simp [Operation.Gives, refreshElement] at h
  | field id =>
    cases hf : d.field? id with
    | none =>
      refine carries_of_none (by simp [Operation.replacement?, hf]) fun d' h => ?_
      simp [Operation.Gives, refreshElement, hf] at h
    | some f =>
      cases hkind : f.kind with
      | placeholder hint =>
        refine carries_of_none (by simp [Operation.replacement?, hf, hkind]) fun d' h => ?_
        simp [Operation.Gives, refreshElement, hf, hkind] at h
      | computed source =>
        cases hvalue : d.values.get? source with
        | none =>
          refine carries_of_none (by simp [Operation.replacement?, hf, hkind, hvalue]) fun d' h => ?_
          simp [Operation.Gives, refreshElement, hf, hkind, hvalue] at h
        | some value =>
          obtain ⟨d', hedit, hd'⟩ :=
            exists_edit hd (fits_of_field? hd hf) value.toList (some (.field id))
          refine carries_of_some (s := f.span) (t := value.toList)
            (by simp [Operation.replacement?, hf, hkind, hvalue]) ⟨d', d', ?_, hd', rfl⟩
          simp only [Operation.Gives, refreshElement, hf, hkind, hvalue, hedit]
          rfl

theorem carries_deleteParagraph (hd : d.WellFormed) (r : TextRange) :
    Operation.Carries (.deleteParagraph r) d := by
  cases hcovers : d.covers r with
  | false =>
    refine carries_of_none (by simp [Operation.replacement?, hcovers]) fun d' h => ?_
    simp [Operation.Gives, deleteParagraph, check, hcovers] at h
  | true =>
    have hcheck : d.check r = .ok () := if_pos hcovers
    cases hpar : d.text.paragraphAround? r.start with
    | none =>
      refine carries_of_none (by simp [Operation.replacement?, hpar]) fun d' h => ?_
      simp [Operation.Gives, deleteParagraph, hcheck, hpar] at h
    | some p =>
      obtain ⟨d', hedit, hd'⟩ := exists_edit hd (fits_withLineBreak hpar) [] none
      refine carries_of_some (s := d.withLineBreak ⟨p.1, p.2⟩) (t := [])
        (by simp [Operation.replacement?, hcovers, hpar]) ⟨d', d', ?_, hd', rfl⟩
      simp only [Operation.Gives, deleteParagraph, hcheck, hpar, hedit]
      rfl

theorem carries_append (hd : d.WellFormed) (t : Text) : Operation.Carries (.append t) d := by
  have hfits : (Span.point d.length).fits d.text = true :=
    Span.fits_point.trans (Text.isBoundary_byteLength d.text)
  obtain ⟨d', hedit, hd'⟩ := exists_edit hd hfits t none
  exact carries_of_some rfl ⟨d', d', hedit, hd', rfl⟩

/-- Every operation that edits a well-formed document carries its bookmarks, fields and annotations along
with their text. -/
theorem carries_operation (hd : d.WellFormed) (op : Operation) : op.Carries d := by
  cases op with
  | setBookmarkText name t => exact carries_setBookmarkText hd name t
  | insertContent r content => exact carries_insertContent hd r content
  | replacePlaceholder id t => exact carries_replacePlaceholder hd id t
  | refreshElement e => exact carries_refreshElement hd e
  | deleteParagraph r => exact carries_deleteParagraph hd r
  | append t => exact carries_append hd t

end Operations

/-- A text of which `"2 and 3"` covers the middle, with parts that lie to it in every way. -/
def counting : Document :=
  { ofText "one twö three four".toList with
    bookmarks := [⟨"1", ⟨0, 3⟩⟩, ⟨"1 and 2", ⟨0, 8⟩⟩, ⟨"2 and 3", ⟨4, 14⟩⟩, ⟨"3", ⟨9, 14⟩⟩,
      ⟨"3 and 4", ⟨9, 19⟩⟩, ⟨"4", ⟨15, 19⟩⟩]
    fields := [⟨0, .placeholder "here", ⟨4, 4⟩⟩, ⟨1, .placeholder "there", ⟨9, 9⟩⟩,
      ⟨2, .computed "total", ⟨14, 14⟩⟩]
    annotations := [⟨"all", ⟨0, 19⟩⟩, ⟨"two", ⟨4, 8⟩⟩]
    nextFieldId := 3 }

theorem wellFormed_counting : counting.WellFormed where
  names := by decide
  bookmarks := by decide
  fields := by decide
  annotations := by decide
  cursor := by decide

/-- The texts that the bookmarks cover, by their names. -/
def coveredTexts (d : Document) : List (String × Option String) :=
  d.bookmarks.map fun b => (b.name, (d.text.slice? b.span.start b.span.stop).map String.ofList)

theorem carries_operation_counting :
    counting.WellFormed ∧ Operation.Carries (.setBookmarkText "2 and 3" "5".toList) counting ∧
    (counting.setBookmarkText "2 and 3" "5".toList).map (Except.map coveredTexts) =
      .ok (.ok [("1", some "one"), ("1 and 2", some "one "), ("2 and 3", some "5"),
        ("3 and 4", some " four"), ("4", some "four")]) :=
  ⟨wellFormed_counting, carries_operation wellFormed_counting _, by cbv⟩

end Document

end TemplateEngine
