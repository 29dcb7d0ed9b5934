import TemplateEngine.Proofs.Filling

/-!
# Commuting — replacements with text between them

Two replacements that do not touch give the same document in either order, where the stretch behind is looked
for at the place to which the replacement in front moved it (`edit_comm`).  It comes down to where one span goes
(`Span.reanchor_comm`): a span that ends in or before the stretch in front is out of reach of the edit behind;
one that starts behind that stretch moves with the other stretch; and of one across the stop of the stretch in
front, each end is changed by one of the edits only.
-/

namespace TemplateEngine

namespace Span

/-! ### Stretches that move -/

/-- The span `delta` bytes further on, or back where `delta` is negative. -/
def displaced (s : Span) (delta : Int) : Span := ⟨(s.start + delta).toNat, (s.stop + delta).toNat⟩

/-- By how many bytes a text gets longer when `new` takes the place of `edited`. -/
def growth (edited : Span) (new : Text) : Int :=
  Text.byteLength new - ((edited.stop : Int) - edited.start)

/-- A span behind the edited one, moved with its text. -/
def carried (edited : Span) (n : Nat) (s : Span) : Span := ⟨edited.moved n s.start, edited.moved n s.stop⟩

/-- Where the cursor goes: to the start of the new text if its own text is lost. -/
def sent (edited : Span) (n : Nat) (s : Span) : Span := (s.reanchor edited n).getD (point edited.start)

theorem displaced_growth (s edited : Span) (new : Text) :
    s.displaced (edited.growth new) = edited.carried (Text.byteLength new) s := by
  unfold displaced growth carried moved
  rw [Span.mk.injEq]
  omega

theorem carried_shift (e s : Span) (n : Nat) : e.carried n (s.shift e.stop) = s.shift (e.start + n) := by
  unfold carried moved shift
  rw [Span.mk.injEq]
  dsimp only
  omega

section

variable {s e : Span} {n : Nat}

theorem exists_eq_shift {k : Nat} (hs : s.start ≤ s.stop) (h : k ≤ s.start) :
    ∃ s₀ : Span, s₀.start ≤ s₀.stop ∧ s = s₀.shift k := by
  refine ⟨⟨s.start - k, s.stop - k⟩, Nat.sub_le_sub_right hs k, ?_⟩
  rw [shift, Nat.sub_add_cancel h, Nat.sub_add_cancel (Nat.le_trans h hs)]

/-- Where a span goes depends on how it lies to the edited one, not on what is in front of both. -/
theorem reanchor_shift (hs : s.start ≤ s.stop) (e : Span) (n k : Nat) :
    (s.shift k).reanchor (e.shift k) n = (s.reanchor e n).map fun s' => s'.shift k := by
  have hmoved : ∀ p, e.stop ≤ p → (e.shift k).moved n (p + k) = e.moved n p + k := by
    intro p hp
    unfold moved shift
    dsimp only
    omega
  unfold shift at hmoved
  unfold reanchor shift
  simp only [Nat.add_right_cancel_iff, Nat.add_le_add_iff_right, Nat.add_lt_add_iff_right]
  split_ifs with h₁ h₂ h₃ h₄ h₅ h₆ h₇ h₈
  · rfl
  · rw [hmoved _ h₃]
    rfl
  · rfl
  · rfl
  · rw [hmoved _ h₅, hmoved _ (Nat.le_trans h₅ hs)]
    rfl
  · rfl
  · rw [hmoved _ h₇.2]
    rfl
  · rfl
  · rw [hmoved _ (by omega), Nat.add_right_comm]
    rfl

theorem reanchor_of_lt (hs : s.start ≤ s.stop) (he : e.start ≤ e.stop) (h : e.stop < s.start) :
    s.reanchor e n = some (e.carried n s) := by
  rcases Nat.eq_or_lt_of_le hs with hempty | hlt
  · unfold reanchor carried
    rw [if_pos hempty, if_neg (by omega), if_pos h.le, ← hempty]
    rfl
  · exact reanchor_behind hlt he h.le

/-! ### Spans across an end of the stretch -/

/-- Where a span across the stop of the edited one starts afterwards. -/
def front (e : Span) (n p : Nat) : Nat :=
  if p < e.start ∨ (p = e.start ∧ e.start < e.stop) then p else e.start + n

/-- Where a span that starts before the edited one stops afterwards. -/
def back (e : Span) (n p : Nat) : Nat :=
  if p ≤ e.start then p else if e.stop ≤ p then e.moved n p else e.start

theorem front_le (e : Span) (n p : Nat) : e.front n p ≤ e.start + n := by
  unfold front
  split_ifs <;> omega

theorem lt_back {l p : Nat} (h : l < p) (he : l < e.start) : l < e.back n p := by
  unfold back moved
  split_ifs <;> omega

theorem reanchor_across (he : e.start ≤ e.stop) (hstart : s.start ≤ e.stop) (hstop : e.stop < s.stop) :
    s.reanchor e n = some ⟨e.front n s.start, e.moved n s.stop⟩ := by
  rcases Nat.lt_or_ge s.start e.stop with hin | hend
  · unfold reanchor front
    dsimp only
    rw [if_neg (by omega), if_neg (by omega), if_neg (by omega), if_neg (by omega)]
    split_ifs <;> first | rfl | omega
  · have hfront : e.front n s.start = e.moved n s.start := by
      unfold front moved
      rw [if_neg (by omega)]
      omega
    rw [reanchor_behind (Nat.lt_of_le_of_lt hstart hstop) he hend, hfront]

theorem reanchor_from (he : e.start ≤ e.stop) (hs : s.start < s.stop) (h : s.start < e.start) :
    s.reanchor e n = some ⟨s.start, e.back n s.stop⟩ := by
  unfold reanchor back
  dsimp only
  rw [if_neg (Nat.ne_of_lt hs)]
  split_ifs <;> first | rfl | omega

end

/-! ### One span and two edits -/

section

variable {s e₁ e₂ : Span} {n₁ n₂ : Nat}

/-- Behind an edit another one does what it would have done without the first. -/
theorem reanchor_carried (hs : s.start ≤ s.stop) (h : e₁.stop ≤ s.start) (h₂ : e₁.stop ≤ e₂.start)
    (he₂ : e₂.start ≤ e₂.stop) :
    (e₁.carried n₁ s).reanchor (e₁.carried n₁ e₂) n₂ = (s.reanchor e₂ n₂).map (e₁.carried n₁) := by
  obtain ⟨s₀, hs₀, rfl⟩ := exists_eq_shift hs h
  obtain ⟨e₀, -, rfl⟩ := exists_eq_shift he₂ h₂
  rw [carried_shift, carried_shift, reanchor_shift hs₀, reanchor_shift hs₀, Option.map_map]
  congr 1
  funext s'
  exact (carried_shift e₁ s' n₁).symm

theorem moved_back {p : Nat} (h : e₁.stop < p) (h₂ : e₁.stop < e₂.start) (he₂ : e₂.start ≤ e₂.stop) :
    e₁.moved n₁ (e₂.back n₂ p) = (e₁.carried n₁ e₂).back n₂ (e₁.moved n₁ p) := by
  unfold back carried moved
  dsimp only
  split_ifs <;> omega

theorem lt_start_carried (n₁ : Nat) (h : e₁.stop < e₂.start) : e₁.start + n₁ < (e₁.carried n₁ e₂).start := by
  unfold carried moved
  dsimp only
  omega

variable (hs : s.start ≤ s.stop) (he₁ : e₁.start ≤ e₁.stop) (h : e₁.stop < e₂.start)
  (he₂ : e₂.start ≤ e₂.stop)

include he₁ h he₂ in
/-- A span across the stop of the stretch in front is kept by both edits, in one place. -/
theorem exists_reanchor_across (n₁ n₂ : Nat) (hstart : s.start ≤ e₁.stop) (hstop : e₁.stop < s.stop) :
    ∃ t₁ t₂ t, s.reanchor e₁ n₁ = some t₁ ∧ t₁.reanchor (e₁.carried n₁ e₂) n₂ = some t ∧
      s.reanchor e₂ n₂ = some t₂ ∧ t₂.reanchor e₁ n₁ = some t := by
  have hfront : e₁.front n₁ s.start < (e₁.carried n₁ e₂).start :=
    Nat.lt_of_le_of_lt (front_le e₁ n₁ s.start) (lt_start_carried n₁ h)
  have hordered : e₁.front n₁ s.start < e₁.moved n₁ s.stop := by
    have := front_le e₁ n₁ s.start
    unfold moved
    omega
  have hle : (e₁.carried n₁ e₂).start ≤ (e₁.carried n₁ e₂).stop := by
    unfold carried moved
    dsimp only
    omega
  refine ⟨_, _, _, reanchor_across he₁ hstart hstop, reanchor_from hle hordered hfront,
    reanchor_from he₂ (Nat.lt_of_le_of_lt hstart hstop) (Nat.lt_of_le_of_lt hstart h), ?_⟩
  have hcut : (⟨s.start, e₂.back n₂ s.stop⟩ : Span).reanchor e₁ n₁ =
      some ⟨e₁.front n₁ s.start, e₁.moved n₁ (e₂.back n₂ s.stop)⟩ :=
    reanchor_across he₁ hstart (lt_back hstop h)
  rw [hcut, moved_back hstop h he₂]

include hs he₁ h he₂ in
theorem reanchor_comm :
    (s.reanchor e₂ n₂).bind (fun t => t.reanchor e₁ n₁) =
      (s.reanchor e₁ n₁).bind fun t => t.reanchor (e₁.carried n₁ e₂) n₂ := by
  rcases Nat.lt_or_ge e₁.stop s.start with hbehind | hstart
  · rw [reanchor_of_lt hs he₁ hbehind, Option.bind_some, reanchor_carried hs hbehind.le h.le he₂]
    cases ht : s.reanchor e₂ n₂ with
    | none => rfl
    | some t =>
      have hle := (reanchor_spec hs ht).1
      have hstart := start_reanchor hs ht
      exact reanchor_of_lt hle he₁ (by omega)
  rcases Nat.lt_or_ge e₁.stop s.stop with hacross | hstop
  · obtain ⟨t₁, t₂, t, h₁, h₁₂, h₂, h₂₁⟩ :=
      exists_reanchor_across he₁ h he₂ n₁ n₂ hstart hacross
    rw [h₁, h₂, Option.bind_some, Option.bind_some, h₁₂, h₂₁]
  · rw [reanchor_of_le (Nat.le_of_lt (Nat.lt_of_le_of_lt hstop h)), Option.bind_some]
    cases ht : s.reanchor e₁ n₁ with
    | none => rfl
    | some t =>
      have hcarried := lt_start_carried n₁ h
      have hstop := stop_reanchor hs ht
      exact (reanchor_of_le (by omega)).symm

include hs he₁ h he₂ in
/-- The cursor goes to one place as well, lost or not. -/
theorem sent_comm :
    e₁.sent n₁ (e₂.sent n₂ s) = (e₁.carried n₁ e₂).sent n₂ (e₁.sent n₁ s) := by
  rcases Nat.lt_or_ge e₁.stop s.start with hbehind | hstart
  · have hsent : (e₂.sent n₂ s).start ≤ (e₂.sent n₂ s).stop ∧ e₁.stop < (e₂.sent n₂ s).start := by
      unfold sent
      cases ht : s.reanchor e₂ n₂ with
      | none => exact ⟨Nat.le_refl _, h⟩
      | some t =>
        have hstart := start_reanchor hs ht
        exact ⟨(reanchor_spec hs ht).1, by dsimp only [Option.getD_some]; omega⟩
    unfold sent at hsent ⊢
    rw [reanchor_of_lt hsent.1 he₁ hsent.2, reanchor_of_lt hs he₁ hbehind, Option.getD_some,
      Option.getD_some, reanchor_carried hs hbehind.le h.le he₂]
    exact (Option.getD_map (e₁.carried n₁) (point e₂.start) (s.reanchor e₂ n₂)).symm
  rcases Nat.lt_or_ge e₁.stop s.stop with hacross | hstop
  · obtain ⟨t₁, t₂, t, h₁, h₁₂, h₂, h₂₁⟩ :=
      exists_reanchor_across he₁ h he₂ n₁ n₂ hstart hacross
    unfold sent
    rw [h₁, h₂, Option.getD_some, Option.getD_some, h₁₂, h₂₁]
    rfl
  · have hcarried := lt_start_carried n₁ h
    have hsent : (e₁.sent n₁ s).stop ≤ (e₁.carried n₁ e₂).start := by
      unfold sent
      cases ht : s.reanchor e₁ n₁ with
      | none =>
        show e₁.start ≤ _
        omega
      | some t =>
        have hstop := stop_reanchor hs ht
        dsimp only [Option.getD_some]
        omega
    have hkept : e₂.sent n₂ s = s := by
      rw [sent, reanchor_of_le (Nat.le_of_lt (Nat.lt_of_le_of_lt hstop h)), Option.getD_some]
    rw [hkept]
    conv_rhs => rw [sent, reanchor_of_le hsent, Option.getD_some]

end

end Span

/-! ### Parts of a document and two edits -/

/-- A kind of parts of a document: where such a part is, and how it is put somewhere else. -/
structure PartKind (α : Type) where
  span : α → Span
  place : α → Span → α
  span_place : ∀ x s, span (place x s) = s
  place_place : ∀ x s s', place (place x s) s' = place x s'

namespace PartKind

def bookmark : PartKind Bookmark where
  span := Bookmark.span
  place b s := { b with span := s }
  span_place _ _ := rfl
  place_place _ _ _ := rfl

def field : PartKind Field where
  span := Field.span
  place f s := { f with span := s }
  span_place _ _ := rfl
  place_place _ _ _ := rfl

def annotation : PartKind Annotation where
  span := Annotation.span
  place x s := { x with span := s }
  span_place _ _ := rfl
  place_place _ _ _ := rfl

/-- A part after a replacement that is not made for it, if it is kept. -/
def carry? {α : Type} (k : PartKind α) (e : Replacement) (x : α) : Option α := (e.follow (k.span x)).map (k.place x)

theorem carry?_bind_carry? {α : Type} (k : PartKind α) (e e' : Replacement) (x : α) :
    (k.carry? e x).bind (k.carry? e') = ((e.follow (k.span x)).bind e'.follow).map (k.place x) := by
  unfold carry?
  cases e.follow (k.span x) with
  | none => rfl
  | some s =>
    show (e'.follow (k.span (k.place x s))).map (k.place (k.place x s)) = (e'.follow s).map (k.place x)
    rw [k.span_place, funext (k.place_place x s)]

end PartKind

namespace Replacement

variable {e e' f f' : Replacement}

theorem bookmark?_eq_carry? (h : e.owner = none) : e.bookmark? = PartKind.bookmark.carry? e := by
  funext b
  rw [bookmark?_eq, place?, if_neg (by simp [h])]
  rfl

theorem field?_eq_carry? (h : e.owner = none) : e.field? = PartKind.field.carry? e := by
  funext g
  rw [field?_eq, place?, if_neg (by simp [h])]
  rfl

theorem annotation?_eq_carry? : e.annotation? = PartKind.annotation.carry? e := rfl

/-- Whether `e` and then `e'` send every span of a text, and the cursor, where `f` and then `f'` send it.  None of
these is made for a part of the document. -/
structure SendAlike (t : Text) (e e' f f' : Replacement) : Prop where
  owners : e.owner = none ∧ e'.owner = none ∧ f.owner = none ∧ f'.owner = none
  follow : ∀ s : Span, s.fits t = true → (e.follow s).bind e'.follow = (f.follow s).bind f'.follow
  cursor : ∀ s : Span, s.fits t = true → e'.cursor (e.cursor s) = f'.cursor (f.cursor s)

theorem SendAlike.filterMap_carry? {t : Text} (h : SendAlike t e e' f f') {α : Type} (k : PartKind α)
    {xs : List α} (hxs : ∀ x ∈ xs, (k.span x).fits t = true) :
    (xs.filterMap (k.carry? e)).filterMap (k.carry? e') =
      (xs.filterMap (k.carry? f)).filterMap (k.carry? f') := by
  rw [List.filterMap_filterMap, List.filterMap_filterMap]
  refine List.filterMap_congr fun x hx => ?_
  rw [k.carry?_bind_carry?, k.carry?_bind_carry?, h.follow (k.span x) (hxs x hx)]

end Replacement

namespace Document

theorem replaced_replaced {d : Document} (hd : d.WellFormed) {e e' f f' : Replacement}
    (h : Replacement.SendAlike d.text e e' f f') (x x' y : Text) :
    (d.replaced e x).replaced e' y = (d.replaced f x').replaced f' y := by
  obtain ⟨he, he', hf, hf'⟩ := h.owners
  have hbookmarks : (d.bookmarks.filterMap e.bookmark?).filterMap e'.bookmark? =
      (d.bookmarks.filterMap f.bookmark?).filterMap f'.bookmark? := by
    rw [Replacement.bookmark?_eq_carry? he, Replacement.bookmark?_eq_carry? he',
      Replacement.bookmark?_eq_carry? hf, Replacement.bookmark?_eq_carry? hf']
    exact h.filterMap_carry? .bookmark hd.bookmarks
  have hfields : (d.fields.filterMap e.field?).filterMap e'.field? =
      (d.fields.filterMap f.field?).filterMap f'.field? := by
    rw [Replacement.field?_eq_carry? he, Replacement.field?_eq_carry? he',
      Replacement.field?_eq_carry? hf, Replacement.field?_eq_carry? hf']
    exact h.filterMap_carry? .field hd.fields
  have hannotations : (d.annotations.filterMap e.annotation?).filterMap e'.annotation? =
      (d.annotations.filterMap f.annotation?).filterMap f'.annotation? := by
    simp only [Replacement.annotation?_eq_carry?]
    exact h.filterMap_carry? PartKind.annotation hd.annotations
  have hcursor : (d.cursor.map e.cursor).map e'.cursor = (d.cursor.map f.cursor).map f'.cursor := by
    cases hc : d.cursor with
    | none => rfl
    | some s => exact congrArg some (h.cursor s (hd.cursor s hc))
  unfold replaced
  dsimp only
  rw [hbookmarks, hfields, hannotations, hcursor]

/-! ### Two edits of a document -/

/-- Two replacements, the one behind first. -/
def editBackwards (d : Document) (s₁ : Span) (t₁ : Text) (s₂ : Span) (t₂ : Text) : Except Fault Document := do
  let d ← d.edit s₂ t₂ none
  d.edit s₁ t₁ none

/-- Two replacements, the one in front first, and then the other one where its stretch is by then. -/
def editForwards (d : Document) (s₁ : Span) (t₁ : Text) (s₂ : Span) (t₂ : Text) : Except Fault Document := do
  let d ← d.edit s₁ t₁ none
  d.edit (s₂.displaced (s₁.growth t₁)) t₂ none

section Cut

variable {d : Document} {a m z new : Text} {s : Span}

theorem cursor_replacementOf (hs : s.fits (a ++ m ++ z) = true) :
    (replacementOf a m z new none).cursor s = (a.stretch m).sent (Text.byteLength new) s := by
  unfold Replacement.cursor Span.sent
  rw [follow_replacementOf hs]
  rfl

theorem fits_sent (hs : s.fits (a ++ m ++ z) = true) :
    ((a.stretch m).sent (Text.byteLength new) s).fits (a ++ new ++ z) = true := by
  unfold Span.sent
  cases h : s.reanchor (a.stretch m) (Text.byteLength new) with
  | none =>
    show (Span.point (Text.byteLength a)).fits (a ++ new ++ z) = true
    rw [Span.fits_point, List.append_assoc]
    exact Text.isBoundary_cut _ _
  | some s' => exact Span.fits_reanchor hs h

/-- What is behind a stretch lies between characters as it does after an edit of the stretch. -/
theorem fits_carried (hs : s.start ≤ s.stop) (h : Text.byteLength (a ++ m) ≤ s.start) :
    ((a.stretch m).carried (Text.byteLength new) s).fits (a ++ new ++ z) = s.fits (a ++ m ++ z) := by
  have hmoved : ∀ p, Text.byteLength (a ++ m) ≤ p →
      (a.stretch m).moved (Text.byteLength new) p =
        Text.byteLength (a ++ new) + (p - Text.byteLength (a ++ m)) := by
    intro p hp
    unfold Span.moved Text.stretch
    dsimp only
    rw [Text.byteLength_append a new]
    omega
  have hboundary : ∀ p, Text.byteLength (a ++ m) ≤ p →
      (a ++ new ++ z).isBoundary ((a.stretch m).moved (Text.byteLength new) p) =
        (a ++ m ++ z).isBoundary p := by
    intro p hp
    rw [hmoved p hp, Text.isBoundary_after (m := m), Nat.add_sub_cancel' hp]
  have hle : (a.stretch m).moved (Text.byteLength new) s.start ≤
      (a.stretch m).moved (Text.byteLength new) s.stop := by
    unfold Span.moved
    omega
  unfold Span.fits Span.carried
  dsimp only
  rw [hboundary s.start h, hboundary s.stop (Nat.le_trans h hs), decide_eq_true hs, decide_eq_true hle]

/-- What an edit makes of the text. -/
theorem text_of_edit {d' : Document} {owner : Option Owner} (htext : d.text = a ++ m ++ z)
    (h : d.edit (a.stretch m) new owner = .ok d') : d'.text = a ++ new ++ z := by
  rw [edit_eq htext] at h
  obtain rfl := Except.ok.inj h
  rfl

variable {a' m' z' new' : Text}

theorem follow_bind_follow (hs : s.fits (a ++ m ++ z) = true) (hcut : a ++ new ++ z = a' ++ m' ++ z') :
    ((replacementOf a m z new none).follow s).bind (replacementOf a' m' z' new' none).follow =
      (s.reanchor (a.stretch m) (Text.byteLength new)).bind fun t =>
        t.reanchor (a'.stretch m') (Text.byteLength new') := by
  rw [follow_replacementOf hs]
  cases h : s.reanchor (a.stretch m) (Text.byteLength new) with
  | none => rfl
  | some t => exact follow_replacementOf (hcut ▸ Span.fits_reanchor hs h)

theorem cursor_cursor (hs : s.fits (a ++ m ++ z) = true) (hcut : a ++ new ++ z = a' ++ m' ++ z') :
    (replacementOf a' m' z' new' none).cursor ((replacementOf a m z new none).cursor s) =
      (a'.stretch m').sent (Text.byteLength new') ((a.stretch m).sent (Text.byteLength new) s) := by
  rw [cursor_replacementOf hs, cursor_replacementOf (hcut ▸ fits_sent hs)]

end Cut

section Gap

variable {d : Document} {a m₁ c m₂ z t₁ t₂ : Text}

theorem carried_stretch (a m₁ c m₂ t₁ : Text) :
    (a.stretch m₁).carried (Text.byteLength t₁) ((a ++ m₁ ++ c).stretch m₂) = (a ++ t₁ ++ c).stretch m₂ := by
  unfold Span.carried
  rw [Span.moved_eq rfl, Span.moved_eq (u := c ++ m₂) (by simp)]
  simp

/-- Where there is text between two stretches, both orders send all spans alike. -/
theorem sendAlike_of_gap (hgap : (a.stretch m₁).stop < ((a ++ m₁ ++ c).stretch m₂).start) :
    Replacement.SendAlike (a ++ m₁ ++ c ++ m₂ ++ z) (replacementOf (a ++ m₁ ++ c) m₂ z t₂ none)
      (replacementOf a m₁ (c ++ t₂ ++ z) t₁ none) (replacementOf a m₁ (c ++ m₂ ++ z) t₁ none)
      (replacementOf (a ++ t₁ ++ c) m₂ z t₂ none) := by
  have hcut : a ++ m₁ ++ c ++ m₂ ++ z = a ++ m₁ ++ (c ++ m₂ ++ z) := by simp
  have hbackwards : a ++ m₁ ++ c ++ t₂ ++ z = a ++ m₁ ++ (c ++ t₂ ++ z) := by simp
  have hforwards : a ++ t₁ ++ (c ++ m₂ ++ z) = a ++ t₁ ++ c ++ m₂ ++ z := by simp
  have hle₁ := Text.stretch_le a m₁
  have hle₂ := Text.stretch_le (a ++ m₁ ++ c) m₂
  refine ⟨⟨rfl, rfl, rfl, rfl⟩, fun s hs => ?_, fun s hs => ?_⟩
  · rw [follow_bind_follow hs hbackwards, follow_bind_follow (hcut ▸ hs) hforwards,
      ← carried_stretch a m₁ c m₂ t₁]
    exact Span.reanchor_comm (Span.le_of_fits hs).1 hle₁ hgap hle₂
  · rw [cursor_cursor hs hbackwards, cursor_cursor (hcut ▸ hs) hforwards,
      ← carried_stretch a m₁ c m₂ t₁]
    exact Span.sent_comm (Span.le_of_fits hs).1 hle₁ hgap hle₂

theorem editBackwards_eq (htext : d.text = a ++ m₁ ++ c ++ m₂ ++ z) (t₁ t₂ : Text) :
    d.editBackwards (a.stretch m₁) t₁ ((a ++ m₁ ++ c).stretch m₂) t₂ =
      .ok ((d.replaced (replacementOf (a ++ m₁ ++ c) m₂ z t₂ none) (a ++ m₁ ++ c ++ t₂ ++ z)).replaced
        (replacementOf a m₁ (c ++ t₂ ++ z) t₁ none) (a ++ t₁ ++ (c ++ t₂ ++ z))) := by
  unfold editBackwards
  rw [edit_eq htext]
  exact edit_eq (by simp [replaced]) none

theorem editForwards_eq (htext : d.text = a ++ m₁ ++ c ++ m₂ ++ z) (t₁ t₂ : Text) :
    d.editForwards (a.stretch m₁) t₁ ((a ++ m₁ ++ c).stretch m₂) t₂ =
      .ok ((d.replaced (replacementOf a m₁ (c ++ m₂ ++ z) t₁ none) (a ++ t₁ ++ (c ++ m₂ ++ z))).replaced
        (replacementOf (a ++ t₁ ++ c) m₂ z t₂ none) (a ++ t₁ ++ c ++ t₂ ++ z)) := by
  unfold editForwards
  rw [Span.displaced_growth, carried_stretch, edit_eq (c := c ++ m₂ ++ z) (by simpa using htext)]
  exact edit_eq (by simp [replaced]) none

/-- Two stretches of a text with something between them cut it into five parts. -/
theorem exists_cut {t : Text} {s₁ s₂ : Span} (h₁ : s₁.fits t = true) (h₂ : s₂.fits t = true)
    (hgap : s₁.stop < s₂.start) :
    ∃ a m₁ c m₂ z, t = a ++ m₁ ++ c ++ m₂ ++ z ∧ s₁ = a.stretch m₁ ∧ s₂ = (a ++ m₁ ++ c).stretch m₂ := by
  obtain ⟨a, m₁, z₁, rfl, ha, hm₁⟩ := Span.fits_iff.1 h₁
  obtain ⟨b, m₂, z, hcut, hb, hm₂⟩ := Span.fits_iff.1 h₂
  obtain ⟨c, rfl⟩ : ∃ c, b = a ++ m₁ ++ c :=
    Text.exists_append_of_byteLength_le (by rw [hcut, List.append_assoc]) (by omega)
  exact ⟨a, m₁, c, m₂, z, hcut, by rw [Text.stretch, ha, hm₁], by rw [Text.stretch, hb, hm₂]⟩

/-- Edits of two stretches with text between them can be made in both orders, and it does not matter in which. -/
theorem exists_edited (hd : d.WellFormed) {s₁ s₂ : Span} (h₁ : s₁.fits d.text = true)
    (h₂ : s₂.fits d.text = true) (hgap : s₁.stop < s₂.start) (t₁ t₂ : Text) :
    ∃ d', d.editBackwards s₁ t₁ s₂ t₂ = .ok d' ∧ d.editForwards s₁ t₁ s₂ t₂ = .ok d' := by
  obtain ⟨a, m₁, c, m₂, z, htext, rfl, rfl⟩ := exists_cut h₁ h₂ hgap
  refine ⟨_, editBackwards_eq htext t₁ t₂, ?_⟩
  rw [editForwards_eq htext,
    ← replaced_replaced hd (htext ▸ sendAlike_of_gap hgap) (a ++ m₁ ++ c ++ t₂ ++ z)]
  simp

end Gap

/-! ### Stretches that are none -/

section Faults

variable {d : Document} {s₁ s₂ : Span} (h₁ : s₁.start ≤ s₁.stop) (hgap : s₁.stop < s₂.start)
  (h₂ : s₂.start ≤ s₂.stop) (hlen : s₂.stop ≤ d.length) (t₁ t₂ : Text)

include h₁ hgap h₂ hlen in
/-- Edits that do not fault are between characters of the text. -/
theorem fits_of_editBackwards :
    Ends (fun _ => True) (d.editBackwards s₁ t₁ s₂ t₂) fun _ =>
      s₁.fits d.text = true ∧ s₂.fits d.text = true := by
  refine Ends.andThen (Ends.of_forall fun _ h => h) fun d' (hd' : d.edit s₂ t₂ none = .ok d') => ?_
  refine Ends.of_forall fun d'' hd'' => ?_
  have hfits₂ : s₂.fits d.text = true := fits_of_edit_eq_ok h₂ hlen hd'
  obtain ⟨b, m₂, z, htext, hb, hm₂⟩ := Span.fits_iff.1 hfits₂
  obtain rfl : s₂ = b.stretch m₂ := by rw [Text.stretch, hb, hm₂]
  have htext' : d'.text = b ++ t₂ ++ z := text_of_edit htext hd'
  have hstop : s₁.stop ≤ Text.byteLength b := hgap.le
  have hlen' : s₁.stop ≤ d'.length := by
    rw [length, htext', Text.byteLength_append, Text.byteLength_append]
    omega
  have hfits₁ : s₁.fits d'.text = true := fits_of_edit_eq_ok h₁ hlen' hd''
  refine ⟨?_, hfits₂⟩
  rw [Span.fits, htext', Text.isBoundary_before (m := m₂) (Nat.le_trans h₁ hstop),
    Text.isBoundary_before (m := m₂) hstop] at hfits₁
  rw [Span.fits, htext]
  exact hfits₁

include h₁ hgap h₂ hlen in
theorem fits_of_editForwards :
    Ends (fun _ => True) (d.editForwards s₁ t₁ s₂ t₂) fun _ =>
      s₁.fits d.text = true ∧ s₂.fits d.text = true := by
  refine Ends.andThen (Ends.of_forall fun _ h => h) fun d' (hd' : d.edit s₁ t₁ none = .ok d') => ?_
  refine Ends.of_forall fun d'' hd'' => ?_
  have hlen₁ : s₁.stop ≤ d.length := by omega
  have hfits₁ : s₁.fits d.text = true := fits_of_edit_eq_ok h₁ hlen₁ hd'
  obtain ⟨a, m₁, z, htext, ha, hm₁⟩ := Span.fits_iff.1 hfits₁
  obtain rfl : s₁ = a.stretch m₁ := by rw [Text.stretch, ha, hm₁]
  have htext' : d'.text = a ++ t₁ ++ z := text_of_edit htext hd'
  rw [Span.displaced_growth] at hd''
  have hle : ((a.stretch m₁).carried (Text.byteLength t₁) s₂).start ≤
      ((a.stretch m₁).carried (Text.byteLength t₁) s₂).stop := by
    unfold Span.carried Span.moved
    dsimp only
    omega
  have hlen' : ((a.stretch m₁).carried (Text.byteLength t₁) s₂).stop ≤ d'.length := by
    rw [length, htext] at hlen
    rw [length, htext']
    simp only [Text.byteLength_append] at hlen ⊢
    unfold Span.carried Span.moved Text.stretch
    dsimp only
    rw [Text.byteLength_append]
    omega
  have hfits₂ := fits_of_edit_eq_ok hle hlen' hd''
  rw [htext', fits_carried (m := m₁) h₂ hgap.le, ← htext] at hfits₂
  exact ⟨hfits₁, hfits₂⟩

end Faults

/-! ### The two orders -/

/-- Replacements of two stretches with something between them give one document in both orders, and they are
possible where both stretches are between characters. -/
theorem edit_comm {d : Document} (hd : d.WellFormed) (s₁ s₂ : Span) (h₁ : s₁.start ≤ s₁.stop)
    (hgap : s₁.stop < s₂.start) (h₂ : s₂.start ≤ s₂.stop) (hlen : s₂.stop ≤ d.length) (t₁ t₂ : Text) :
    (d.editBackwards s₁ t₁ s₂ t₂).toOption = (d.editForwards s₁ t₁ s₂ t₂).toOption ∧
      ((d.editBackwards s₁ t₁ s₂ t₂).toOption.isSome = true ↔
        s₁.fits d.text = true ∧ s₂.fits d.text = true) := by
  by_cases hfits : s₁.fits d.text = true ∧ s₂.fits d.text = true
  · obtain ⟨d', hbackwards, hforwards⟩ := exists_edited hd hfits.1 hfits.2 hgap t₁ t₂
    rw [hbackwards, hforwards]
    exact ⟨rfl, fun _ => hfits, fun _ => rfl⟩
  · have hbackwards := fits_of_editBackwards h₁ hgap h₂ hlen t₁ t₂
    have hforwards := fits_of_editForwards h₁ hgap h₂ hlen t₁ t₂
    cases hback : d.editBackwards s₁ t₁ s₂ t₂ with
    | ok d' => exact absurd (hbackwards.of_eq_ok hback) hfits
    | error f =>
      cases hforth : d.editForwards s₁ t₁ s₂ t₂ with
      | ok d' => exact absurd (hforwards.of_eq_ok hforth) hfits
      | error f' => exact ⟨rfl, (nomatch ·), fun h => absurd h hfits⟩

theorem edit_comm_counting :
    counting.WellFormed ∧ (5 : Nat) < 10 ∧ 16 ≤ counting.length ∧
      (counting.editBackwards ⟨1, 5⟩ "ther t".toList ⟨10, 16⟩ []).toOption =
        (counting.editForwards ⟨1, 5⟩ "ther t".toList ⟨10, 16⟩ []).toOption ∧
      ((counting.editForwards ⟨1, 5⟩ "ther t".toList ⟨10, 16⟩ []).toOption.map fun d =>
          (String.ofList d.text, d.coveredTexts, d.fields.map (·.span))) =
        some ("other twö tour",
          [("1", some "o"), ("1 and 2", some "other twö"), ("2 and 3", some "wö t"), ("3", some "t"),
            ("3 and 4", some "tour"), ("4", some "our")], [⟨11, 11⟩]) := by
  have hlen : 16 ≤ counting.length := by decide
  have hcomm := edit_comm wellFormed_counting ⟨1, 5⟩ ⟨10, 16⟩ (by decide) (by decide) (by decide) hlen
    "ther t".toList []
  exact ⟨wellFormed_counting, by decide, hlen, hcomm.1, by cbv⟩

/-- Stretches that touch: a bookmark over both is kept with the text put behind or lost with that in front. -/
example :
    let d := { ofText ['a', 'b'] with bookmarks := [⟨"both", ⟨0, 2⟩⟩] }
    (d.editBackwards ⟨0, 1⟩ [] ⟨1, 2⟩ ['c']).toOption.map (·.bookmarks) = some [⟨"both", ⟨0, 1⟩⟩] ∧
      (d.editForwards ⟨0, 1⟩ [] ⟨1, 2⟩ ['c']).toOption.map (·.bookmarks) = some [] :=
  ⟨by cbv, by cbv⟩

end Document

end TemplateEngine
