import TemplateEngine.Proofs.Anchoring
import TemplateEngine.Proofs.Enclosing
import TemplateEngine.Proofs.Reload

/-!
# Filling — arguments in the places of placeholders

A fragment goes between marks in the place of its command, and then its placeholders are replaced one after
the other, each replacement moving those still to come.  What comes out is the fragment's text with all
arguments put in at once (`Text.substitute?`), and the placeholders that got no argument are where their texts
went (`executeInsert_fills`).
-/

namespace TemplateEngine

/-! ### Several replacements at once -/

namespace Text

theorem append_inj_of_byteLength {a b c d : Text} (h : a ++ b = c ++ d)
    (hlen : byteLength a = byteLength c) : a = c ∧ b = d := by
  obtain ⟨m, rfl⟩ := exists_append_of_byteLength_le h (Nat.le_of_eq hlen)
  obtain rfl : m = [] := eq_nil_of_byteLength_eq_zero (by rw [byteLength_append] at hlen; omega)
  exact ⟨by simp, by simpa using h⟩

theorem slice?_append {t x y : Text} {p q n : Nat} (hx : t.slice? p q = some x)
    (hy : t.slice? q n = some y) : t.slice? p n = some (x ++ y) := by
  obtain ⟨a, b, rfl, ha, hb⟩ := slice?_eq_some_iff.1 hx
  obtain ⟨a', c, hcut, ha', hc⟩ := slice?_eq_some_iff.1 hy
  rw [List.append_assoc a'] at hcut
  obtain ⟨rfl, -⟩ := append_inj_of_byteLength hcut (hb.trans ha'.symm)
  exact slice?_eq (z := c) (by simpa using hcut) ha (by simpa using hc)

/-- The text between two positions with other texts in the places of some spans, all put in at once. -/
def substitute? (t : Text) (p q : Nat) : List (Span × Text) → Option Text
  | [] => t.slice? p q
  | (s, new) :: rest => do
    let before ← t.slice? p s.start
    let after ← substitute? t s.stop q rest
    return before ++ new ++ after

theorem substitute?_cons {t new before after : Text} {p q : Nat} {s : Span} {rest : List (Span × Text)}
    (hbefore : t.slice? p s.start = some before) (hafter : t.substitute? s.stop q rest = some after) :
    t.substitute? p q ((s, new) :: rest) = some (before ++ new ++ after) := by
  unfold substitute?
  rw [hbefore]
  show (t.substitute? s.stop q rest).bind _ = _
  rw [hafter]
  rfl

/-- Beginning earlier adds what is before the first replacement. -/
theorem substitute?_append {t x w : Text} {p q n : Nat} (hx : t.slice? p q = some x) :
    ∀ {rs : List (Span × Text)}, t.substitute? q n rs = some w → t.substitute? p n rs = some (x ++ w)
  | [], h => slice?_append hx h
  | (s, new) :: rest, h => by
    obtain ⟨before, hbefore, h⟩ := Option.bind_eq_some_iff.1 h
    obtain ⟨after, hafter, h⟩ := Option.bind_eq_some_iff.1 h
    obtain rfl := Option.some.inj h
    rw [substitute?_cons (slice?_append hx hbefore) hafter]
    simp

end Text

/-! ### Placeholders and arguments -/

/-- Placeholders with the texts for them in turn: those beyond the arguments get none. -/
def slots : List Field → List String → List (Field × Text)
  | [], _ => []
  | f :: fs, [] => (f, []) :: slots fs []
  | f :: fs, argument :: arguments => (f, argument.toList) :: slots fs arguments

/-- The slots that get a text, as replacements. -/
def filledSlots (ss : List (Field × Text)) : List (Span × Text) :=
  (ss.filter fun s => s.2 ≠ []).map fun s => (s.1.span, s.2)

/-- The placeholders that get no text. -/
def openSlots (ss : List (Field × Text)) : List Field := (ss.filter fun s => s.2 = []).map (·.1)

/-- What the text `t` becomes when the slots are filled, up to position `q`. -/
def filledText? (t : Text) (ss : List (Field × Text)) (p q : Nat) : Option Text :=
  t.substitute? p q ((filledSlots ss).filter fun r => r.1.stop ≤ q)

theorem map_fst_slots : ∀ (fs : List Field) (arguments : List String), (slots fs arguments).map (·.1) = fs
  | [], _ => rfl
  | f :: fs, [] => congrArg (f :: ·) (map_fst_slots fs [])
  | f :: fs, _ :: arguments => congrArg (f :: ·) (map_fst_slots fs arguments)

theorem mem_of_mem_slots {fs : List Field} {arguments : List String} {s : Field × Text}
    (h : s ∈ slots fs arguments) : s.1 ∈ fs :=
  map_fst_slots fs arguments ▸ List.mem_map_of_mem h

section Slots

variable {t x new w : Text} {f : Field} {ss : List (Field × Text)} {p q n : Nat}

theorem openSlots_open (f : Field) (ss : List (Field × Text)) :
    openSlots ((f, []) :: ss) = f :: openSlots ss := by
  simp [openSlots]

theorem openSlots_filled (hnew : new ≠ []) : openSlots ((f, new) :: ss) = openSlots ss := by
  simp [openSlots, hnew]

theorem filledText?_append (hx : t.slice? p q = some x) (h : filledText? t ss q n = some w) :
    filledText? t ss p n = some (x ++ w) :=
  Text.substitute?_append hx h

theorem filledText?_open (h : filledText? t ss p q = some w) :
    filledText? t ((f, []) :: ss) p q = some w := by
  simpa [filledText?, filledSlots] using h

theorem filledText?_filled (hnew : new ≠ []) (hq : f.span.stop ≤ q)
    (hx : t.slice? p f.span.start = some x) (h : filledText? t ss f.span.stop q = some w) :
    filledText? t ((f, new) :: ss) p q = some (x ++ new ++ w) := by
  have hslots : (filledSlots ((f, new) :: ss)).filter (fun r => r.1.stop ≤ q) =
      (f.span, new) :: (filledSlots ss).filter fun r => r.1.stop ≤ q := by
    simp [filledSlots, hnew, hq]
  unfold filledText?
  rw [hslots]
  exact Text.substitute?_cons hx h

/-- Nothing is filled before the first slot. -/
theorem filledText?_of_lt (h : ∀ s ∈ ss, q < s.1.span.stop) : filledText? t ss p q = t.slice? p q := by
  have hslots : (filledSlots ss).filter (fun r => r.1.stop ≤ q) = [] := by
    rw [List.filter_eq_nil_iff]
    intro r hr
    obtain ⟨s, hs, rfl⟩ := List.mem_map.1 hr
    have := h s (List.mem_filter.1 hs).1
    simpa using this
  unfold filledText?
  rw [hslots]
  rfl

end Slots

namespace Document

/-- The placeholders of a document, in text order. -/
def placeholders (d : Document) : List Field := byStart (d.fields.filter (·.isPlaceholder))

/-- The placeholders inside a span, in text order. -/
def placeholdersIn (d : Document) (s : Span) : List Field :=
  byStart (d.fields.filter fun f => f.isPlaceholder && f.span.within s)

/-- The placeholders inside a span are these, in some order. -/
def HasInside (d : Document) (o : Span) (gs : List Field) : Prop :=
  (d.fields.filter fun f => f.isPlaceholder && f.span.within o).Perm gs

theorem placeholdersWithin_eq (d : Document) (s : Span) :
    d.placeholdersWithin s = (d.placeholdersIn s).map (·.id) := rfl

end Document

namespace Span

/-! ### Spans around an edit -/

theorem reanchor_of_le {s e : Span} {n : Nat} (h : s.stop ≤ e.start) :
    s.reanchor e n = some s := by
  unfold reanchor
  split_ifs <;> first | rfl | omega

theorem reanchor_behind {s e : Span} {n : Nat} (hs : s.start < s.stop) (he : e.start ≤ e.stop)
    (h : e.stop ≤ s.start) : s.reanchor e n = some ⟨e.moved n s.start, e.moved n s.stop⟩ := by
  unfold reanchor
  rw [if_neg (Nat.ne_of_lt hs), if_neg (by omega), if_pos h]

theorem reanchor_around {s e : Span} {n : Nat} (he : e.start ≤ e.stop) (h : e.Between s) :
    s.reanchor e n = some ⟨s.start, e.moved n s.stop⟩ := by
  have := h.1
  have := h.2
  unfold reanchor
  dsimp only
  rw [if_neg (by omega), if_neg (by omega), if_neg (by omega), if_neg (by omega), if_pos (by omega)]

/-- What is inside a span and what is not stays so beside an edit between its ends. -/
theorem within_reanchor_iff {s s' o e : Span} {n : Nat} (hs : s.start ≤ s.stop)
    (he : e.start ≤ e.stop) (ho : e.Between o) (hs' : s.reanchor e n = some s') :
    s'.within ⟨o.start, e.moved n o.stop⟩ = s.within o := by
  have hstart := start_reanchor hs hs'
  have hstop := stop_reanchor hs hs'
  have hbefore := ho.1
  have hbehind := ho.2
  rw [Bool.eq_iff_iff, within_iff, within_iff]
  unfold moved
  dsimp only
  omega

end Span

namespace Document

/-! ### Filling one placeholder -/

theorem filter_filterMap_of_iff {α : Type} {φ : α → Option α} {P P' : α → Bool} {xs : List α}
    (h : ∀ x ∈ xs, ∀ y, φ x = some y → P' y = P x) :
    (xs.filterMap φ).filter P' = (xs.filter P).filterMap φ := by
  rw [List.filter_filterMap, List.filterMap_filter]
  refine List.filterMap_congr fun x hx => ?_
  cases hy : φ x with
  | none => simp
  | some y => simp [Option.filter, h x hx y hy]

section Step

variable {d : Document} {x : String} {u v new shown : Text} {o : Span} {kept rest : List Field} {g : Field}

/-- Where the fields of a well-formed document go that an edit is not made for. -/
theorem field?_replacementOf (hd : d.WellFormed) (htext : d.text = u ++ shown ++ v)
    {owner : Option Owner} (howner : ∀ id, owner ≠ some (.field id)) {f : Field} (hf : f ∈ d.fields) :
    (replacementOf u shown v new owner).field? f =
      (f.span.reanchor (u.stretch shown) (Text.byteLength new)).map fun s => { f with span := s } := by
  refine (if_neg (howner f.id)).trans ?_
  rw [follow_replacementOf (htext ▸ hd.fields f hf)]

theorem field?_eq_some_of_mem (hids : (d.fields.map (·.id)).Nodup) (hg : g ∈ d.fields) :
    d.field? g.id = some g := by
  cases hf : d.field? g.id with
  | none => simpa using List.find?_eq_none.1 hf g hg
  | some f =>
    have hid : f.id = g.id := by simpa using List.find?_some hf
    rw [List.inj_on_of_nodup_map hids (List.mem_of_find?_eq_some hf) hg hid]

/-- An edit between the ends of a span takes no placeholder into it and none out of it. -/
theorem hasInside_replaced (hd : d.WellFormed) (htext : d.text = u ++ shown ++ v) (new : Text)
    (ho : (u.stretch shown).Between o) {xs : List Field} (hinside : d.HasInside o xs) :
    (d.replaced (replacementOf u shown v new none) (u ++ new ++ v)).HasInside
      ⟨o.start, (u.stretch shown).moved (Text.byteLength new) o.stop⟩
      (xs.filterMap (replacementOf u shown v new none).field?) := by
  have hsame : ∀ f ∈ d.fields, ∀ f', (replacementOf u shown v new none).field? f = some f' →
      (f'.isPlaceholder &&
          f'.span.within ⟨o.start, (u.stretch shown).moved (Text.byteLength new) o.stop⟩) =
        (f.isPlaceholder && f.span.within o) := by
    intro f hf f' hf'
    rw [field?_replacementOf hd htext (by simp) hf] at hf'
    obtain ⟨s, hs, rfl⟩ := Option.map_eq_some_iff.1 hf'
    dsimp only
    rw [Span.within_reanchor_iff (Span.le_of_fits (hd.fields f hf)).1 (Text.stretch_le u shown) ho hs]
    rfl
  show ((d.fields.filterMap (replacementOf u shown v new none).field?).filter _).Perm _
  rw [filter_filterMap_of_iff hsame]
  exact hinside.filterMap _

/-- The field that an edit covers is lost, those before it stay and those behind it move. -/
theorem filterMap_field?_around (hd : d.WellFormed) (htext : d.text = u ++ shown ++ v)
    (hg : g.span = u.stretch shown) (hshown : shown ≠ []) (hmem : ∀ f ∈ kept ++ g :: rest, f ∈ d.fields)
    (hkept : ∀ k ∈ kept, k.span.stop ≤ g.span.start)
    (hrest : ∀ k ∈ rest, g.span.stop ≤ k.span.start ∧ k.span.start < k.span.stop) :
    (kept ++ g :: rest).filterMap (replacementOf u shown v new none).field? =
      kept ++ rest.map fun k => { k with span := ⟨g.span.moved (Text.byteLength new) k.span.start,
        g.span.moved (Text.byteLength new) k.span.stop⟩ } := by
  have hpos : Text.byteLength u < Text.byteLength (u ++ shown) := by
    have : Text.byteLength shown ≠ 0 := fun h => hshown (Text.eq_nil_of_byteLength_eq_zero h)
    rw [Text.byteLength_append]
    omega
  have hle : g.span.start ≤ g.span.stop := hg ▸ Text.stretch_le u shown
  have hfollow : ∀ f ∈ kept ++ g :: rest, (replacementOf u shown v new none).field? f =
      (f.span.reanchor g.span (Text.byteLength new)).map fun s => { f with span := s } := by
    rw [hg]
    exact fun f hf => field?_replacementOf hd htext (by simp) (hmem f hf)
  have hgone : (replacementOf u shown v new none).field? g = none := by
    have hlost : g.span.IsLostWith g.span := .inl ⟨by rw [hg]; exact hpos, Nat.le_refl _, Nat.le_refl _⟩
    rw [hfollow g (by simp), (Span.reanchor_eq_none_iff hle).2 hlost]
    rfl
  rw [List.filterMap_append, List.filterMap_cons_none hgone]
  congr 1
  · refine (List.filterMap_congr fun k hk => ?_).trans List.filterMap_some
    rw [hfollow k (by simp [hk]), Span.reanchor_of_le (hkept k hk)]
    rfl
  · rw [← List.filterMap_eq_map]
    refine List.filterMap_congr fun k hk => ?_
    rw [hfollow k (by simp [hk]), Span.reanchor_behind (hrest k hk).2 hle (hrest k hk).1]
    rfl

/-- A placeholder among those inside a span that is filled: those before it stay, those behind it move. -/
theorem replacePlaceholder_inside (hd : d.Consistent) (htext : d.text = u ++ shown ++ v)
    (hg : g.span = u.stretch shown) (hshown : shown ≠ []) (ho : g.span.Between o)
    (hx : d.span? x = some o) (hinside : d.HasInside o (kept ++ g :: rest))
    (hkept : ∀ k ∈ kept, k.span.stop ≤ g.span.start)
    (hrest : ∀ k ∈ rest, g.span.stop ≤ k.span.start ∧ k.span.start < k.span.stop) :
    ∃ d', d.replacePlaceholder g.id new = .ok (.ok d') ∧ d'.Consistent ∧ d'.text = u ++ new ++ v ∧
      d'.span? x = some ⟨o.start, g.span.moved (Text.byteLength new) o.stop⟩ ∧
      d'.HasInside ⟨o.start, g.span.moved (Text.byteLength new) o.stop⟩
        (kept ++ rest.map fun k => { k with span := ⟨g.span.moved (Text.byteLength new) k.span.start,
          g.span.moved (Text.byteLength new) k.span.stop⟩ }) := by
  have hmem : ∀ f ∈ kept ++ g :: rest, f ∈ d.fields := fun f hf =>
    (List.mem_filter.1 (hinside.mem_iff.2 hf)).1
  have hids : ((kept ++ g :: rest).map (·.id)).Nodup :=
    (hinside.map _).nodup_iff.1 (hd.ids.sublist (List.filter_sublist.map _))
  let d₁ := d.replaced (replacementOf u shown v new none) (u ++ new ++ v)
  have hd₁ : d₁.Consistent := consistent_replaced hd htext new none
  refine ⟨{ d₁ with fields := d₁.fields.filter (·.id ≠ g.id) }, ?_, consistent_withoutField hd₁ g.id,
    rfl, ?_, ?_⟩
  · unfold replacePlaceholder
    rw [field?_eq_some_of_mem hd.ids (hmem g (by simp))]
    show (d.edit g.span new none >>= _) = _
    rw [hg, edit_eq htext]
    rfl
  · show d₁.span? x = _
    rw [hg] at ho ⊢
    rw [span?_edited hd.toWellFormed htext (by simp), hx]
    exact Span.reanchor_around (Text.stretch_le u shown) ho
  · have hleft := hasInside_replaced hd.toWellFormed htext new (hg ▸ ho) hinside
    rw [filterMap_field?_around hd.toWellFormed htext hg hshown hmem hkept hrest, ← hg] at hleft
    show ((d₁.fields.filter _).filter _).Perm _
    rw [List.filter_comm]
    refine (hleft.filter _).trans (List.Perm.of_eq ?_)
    rw [List.filter_eq_self]
    -- no other placeholder has the id that is taken away
    rw [List.map_append, List.map_cons, List.nodup_middle, List.nodup_cons, ← List.map_append] at hids
    intro k hk
    refine decide_eq_true fun hid => hids.1 (hid ▸ ?_)
    rcases List.mem_append.1 hk with hk | hk
    · exact List.mem_map_of_mem (List.mem_append_left _ hk)
    · obtain ⟨k₀, hk₀, rfl⟩ := List.mem_map.1 hk
      exact List.mem_map.2 ⟨k₀, List.mem_append_right _ hk₀, rfl⟩

end Step

end Document

/-! ### Filling one placeholder after the other -/

/-- The placeholder `g` is what became of the placeholder `f` of the text `t`, which got no argument: it covers
its own text, behind `before` and what the text up to it became. -/
structure StaysOpen (t : Text) (ss : List (Field × Text)) (p : Nat) (before filled : Text)
    (f g : Field) : Prop where
  kind : g.kind = f.kind
  covers : ∃ b shown rest, filledText? t ss p f.span.start = some b ∧
    t.slice? f.span.start f.span.stop = some shown ∧ g.span = (before ++ b).stretch shown ∧
    filled = b ++ shown ++ rest

section Filling

variable {t V : Text} {x : String} {o : Nat}

/-- A document while placeholders are filled.  Of the text `t` the part `c` is done and has become the end of
`U`, the part `y` is to come; the placeholders `fs` of `t` are the fields `gs` of the document, and the
fields `kept` were passed. -/
structure Unfilled (t V : Text) (x : String) (o : Nat) (kept : List Field) (c U y : Text)
    (fs gs : List Field) (d : Document) : Prop where
  cut : t = c ++ y
  fits : ∀ f ∈ fs, f.span.fits t = true
  nonempty : ∀ f ∈ fs, f.span.start < f.span.stop
  ahead : ∀ f ∈ fs, Text.byteLength c ≤ f.span.start
  order : fs.Pairwise fun f f' => f.span.stop ≤ f'.span.start
  consistent : d.Consistent
  text : d.text = U ++ y ++ V
  mark : o < Text.byteLength U
  found : d.span? x = some ⟨o, Text.byteLength (U ++ y) + 1⟩
  matched : List.Forall₂ (fun f g => g.kind = f.kind ∧
    g.span.start + Text.byteLength c = f.span.start + Text.byteLength U ∧
    g.span.stop + Text.byteLength c = f.span.stop + Text.byteLength U) fs gs
  passed : ∀ k ∈ kept, k.span.stop ≤ Text.byteLength U
  inside : d.HasInside ⟨o, Text.byteLength (U ++ y) + 1⟩ (kept ++ gs)

/-- The document when they are filled: `y` has become `y'`, and the placeholders that got no argument are the
fields `gs'`. -/
structure Filled (t V : Text) (x : String) (o : Nat) (kept : List Field) (c U : Text)
    (ss : List (Field × Text)) (y' : Text) (gs' : List Field) (d' : Document) : Prop where
  becomes : filledText? t ss (Text.byteLength c) (Text.byteLength t) = some y'
  consistent : d'.Consistent
  text : d'.text = U ++ y' ++ V
  found : d'.span? x = some ⟨o, Text.byteLength (U ++ y') + 1⟩
  inside : d'.HasInside ⟨o, Text.byteLength (U ++ y') + 1⟩ (kept ++ gs')
  remaining : List.Forall₂ (StaysOpen t ss (Text.byteLength c) U y') (openSlots ss) gs'
  order : gs'.Pairwise fun g g' => g.span.stop ≤ g'.span.start
  ahead : ∀ g ∈ gs', Text.byteLength U ≤ g.span.start ∧ g.span.start < g.span.stop

variable {kept fs gs : List Field} {c U y : Text} {f g : Field} {d : Document}

/-- The part of the text up to the end of the next placeholder. -/
theorem Unfilled.exists_cut (h : Unfilled t V x o kept c U y (f :: fs) (g :: gs) d) :
    ∃ gap shown rest, y = gap ++ shown ++ rest ∧ shown ≠ [] ∧ f.span = (c ++ gap).stretch shown ∧
      g.span = (U ++ gap).stretch shown := by
  obtain ⟨u, shown, rest, hcut, hu, hshown⟩ := Span.fits_iff.1 (h.fits f (by simp))
  obtain ⟨gap, rfl⟩ : ∃ gap, u = c ++ gap :=
    Text.exists_append_of_byteLength_le (by rw [← h.cut, hcut, List.append_assoc])
      (hu ▸ h.ahead f (by simp))
  have hf : f.span = (c ++ gap).stretch shown := by rw [Text.stretch, hu, hshown]
  have hmatched := (List.forall₂_cons.1 h.matched).1.2
  refine ⟨gap, shown, rest, ?_, ?_, hf, ?_⟩
  · exact List.append_cancel_left (by rw [← h.cut, hcut]; simp)
  · rintro rfl
    have := h.nonempty f (by simp)
    rw [hf] at this
    simp at this
  · obtain ⟨id, kind, start, stop⟩ := g
    rw [hf] at hmatched
    dsimp only [Text.stretch] at hmatched ⊢
    simp only [Text.byteLength_append] at hmatched ⊢
    rw [Span.mk.injEq]
    omega

/-- A placeholder that gets no argument is passed. -/
theorem Unfilled.pass {gap shown rest : Text}
    (h : Unfilled t V x o kept c U (gap ++ shown ++ rest) (f :: fs) (g :: gs) d)
    (hf : f.span = (c ++ gap).stretch shown) (hg : g.span = (U ++ gap).stretch shown) :
    Unfilled t V x o (kept ++ [g]) (c ++ gap ++ shown) (U ++ gap ++ shown) rest fs gs d where
  cut := by simpa using h.cut
  fits := fun f' hf' => h.fits f' (by simp [hf'])
  nonempty := fun f' hf' => h.nonempty f' (by simp [hf'])
  ahead := fun f' hf' => by
    have := List.rel_of_pairwise_cons h.order hf'
    rwa [hf] at this
  order := h.order.of_cons
  consistent := h.consistent
  text := by simpa using h.text
  mark := by
    have := h.mark
    simp only [Text.byteLength_append]
    omega
  found := by simpa using h.found
  matched := by
    refine (List.forall₂_cons.1 h.matched).2.imp fun f' g' hfg => ⟨hfg.1, ?_⟩
    have := hfg.2
    simp only [Text.byteLength_append]
    omega
  passed := by
    intro k hk
    rcases List.mem_append.1 hk with hk | hk
    · have := h.passed k hk
      simp only [Text.byteLength_append]
      omega
    · obtain rfl := List.mem_singleton.1 hk
      rw [hg]
  inside := by simpa using h.inside

/-- A placeholder is filled with its argument. -/
theorem Unfilled.fill {gap shown rest : Text}
    (h : Unfilled t V x o kept c U (gap ++ shown ++ rest) (f :: fs) (g :: gs) d) (hshown : shown ≠ [])
    (hf : f.span = (c ++ gap).stretch shown) (hg : g.span = (U ++ gap).stretch shown) (new : Text) :
    ∃ d' gs', d.replacePlaceholder g.id new = .ok (.ok d') ∧ gs'.map (·.id) = gs.map (·.id) ∧
      Unfilled t V x o kept (c ++ gap ++ shown) (U ++ gap ++ new) rest fs gs' d' := by
  have hahead : ∀ f' ∈ fs, Text.byteLength (c ++ gap ++ shown) ≤ f'.span.start := fun f' hf' => by
    have := List.rel_of_pairwise_cons h.order hf'
    rwa [hf] at this
  have hmatched := List.forall₂_and_left _ _ |>.2 ⟨fun f' hf' => And.intro (hahead f' hf')
    (h.nonempty f' (by simp [hf'])), (List.forall₂_cons.1 h.matched).2⟩
  have hmark := h.mark
  have hbetween : g.span.Between ⟨o, Text.byteLength (U ++ (gap ++ shown ++ rest)) + 1⟩ := by
    rw [hg]
    unfold Span.Between
    simp only [Text.byteLength_append]
    omega
  have hkept : ∀ k ∈ kept, k.span.stop ≤ g.span.start := fun k hk => by
    have := h.passed k hk
    rw [hg]
    simp only [Text.byteLength_append]
    omega
  have hrest : ∀ k ∈ gs, g.span.stop ≤ k.span.start ∧ k.span.start < k.span.stop := fun k hk => by
    obtain ⟨f', -, hfk⟩ := Document.exists_of_forall₂_of_mem hmatched.flip hk
    have := hfk.1
    have := hfk.2
    rw [hg]
    simp only [Text.byteLength_append] at *
    omega
  obtain ⟨d', hfill, hd', htext', hx', hinside'⟩ : ∃ d', d.replacePlaceholder g.id new = .ok (.ok d') ∧ _ :=
    Document.replacePlaceholder_inside h.consistent
      (by rw [h.text]; simp : d.text = (U ++ gap) ++ shown ++ (rest ++ V)) hg hshown hbetween
      h.found h.inside hkept hrest
  have hend : g.span.moved (Text.byteLength new)
      (Text.byteLength (U ++ (gap ++ shown ++ rest)) + 1) =
        Text.byteLength (U ++ gap ++ new ++ rest) + 1 := by
    rw [hg]
    unfold Span.moved
    simp only [Text.byteLength_append]
    omega
  dsimp only at hx' hinside'
  rw [hend] at hx' hinside'
  refine ⟨d', gs.map fun k => { k with span := ⟨g.span.moved (Text.byteLength new) k.span.start,
    g.span.moved (Text.byteLength new) k.span.stop⟩ }, hfill, by rw [List.map_map]; rfl, ?_⟩
  refine ⟨by simpa using h.cut, fun f' hf' => h.fits f' (by simp [hf']),
    fun f' hf' => h.nonempty f' (by simp [hf']), hahead, h.order.of_cons, hd', by simpa using htext',
    ?_, hx', ?_, fun k hk => ?_, hinside'⟩
  · simp only [Text.byteLength_append]
    omega
  · rw [List.forall₂_map_right_iff]
    refine hmatched.imp fun f' k hfk => ⟨hfk.2.1, ?_⟩
    have := hfk.1
    have := hfk.2.2
    rw [hg]
    unfold Span.moved
    simp only [Text.byteLength_append] at *
    omega
  · have := h.passed k hk
    simp only [Text.byteLength_append]
    omega

theorem StaysOpen.behind {ss ss' : List (Field × Text)} {p p' : Nat} {before filled z : Text}
    (h : StaysOpen t ss p' (before ++ z) filled f g)
    (hz : ∀ b, filledText? t ss p' f.span.start = some b →
      filledText? t ss' p f.span.start = some (z ++ b)) :
    StaysOpen t ss' p before (z ++ filled) f g where
  kind := h.kind
  covers := by
    obtain ⟨b, shown, rest, hb, hshown, hspan, hfilled⟩ := h.covers
    exact ⟨z ++ b, shown, rest, hz b hb, hshown, by rw [hspan, List.append_assoc], by simp [hfilled]⟩

variable {ss : List (Field × Text)} {y' : Text} {gs' : List Field} {d' : Document} {gap shown rest : Text}

/-- When no placeholder is left. -/
theorem Unfilled.done (h : Unfilled t V x o kept c U y [] [] d) : Filled t V x o kept c U [] y [] d where
  becomes := Text.slice?_eq (z := []) (by simp [h.cut]) rfl (by rw [h.cut])
  consistent := h.consistent
  text := h.text
  found := h.found
  inside := h.inside
  remaining := .nil
  order := .nil
  ahead := fun _ h => absurd h List.not_mem_nil

/-- What is filled behind a placeholder without an argument. -/
theorem Filled.pass (h : Filled t V x o (kept ++ [g]) (c ++ gap ++ shown) (U ++ gap ++ shown) ss y' gs' d')
    (hcut : t = c ++ (gap ++ shown ++ rest)) (hshown : shown ≠ [])
    (hf : f.span = (c ++ gap).stretch shown) (hg : g.span = (U ++ gap).stretch shown)
    (hkind : g.kind = f.kind)
    (hss : ∀ s ∈ ss, f.span.stop ≤ s.1.span.start ∧ s.1.span.start < s.1.span.stop) :
    Filled t V x o kept c U ((f, []) :: ss) (gap ++ shown ++ y') (g :: gs') d' := by
  have hpos : Text.byteLength (U ++ gap) < Text.byteLength (U ++ gap ++ shown) := by
    have : Text.byteLength shown ≠ 0 := fun h => hshown (Text.eq_nil_of_byteLength_eq_zero h)
    rw [Text.byteLength_append (U ++ gap)]
    omega
  have hpassed : t.slice? (Text.byteLength c) (Text.byteLength (c ++ gap ++ shown)) = some (gap ++ shown) :=
    Text.slice?_eq (z := rest) (by simp [hcut]) rfl (by simp)
  have hgap : filledText? t ((f, []) :: ss) (Text.byteLength c) f.span.start = some gap := by
    refine filledText?_open ?_
    rw [filledText?_of_lt fun s hs => ?_, hf]
    · exact Text.slice?_eq (z := shown ++ rest) (by simp [hcut]) rfl rfl
    · have := hss s hs
      rw [hf] at this ⊢
      have := Text.stretch_le (c ++ gap) shown
      omega
  refine ⟨filledText?_open (filledText?_append hpassed h.becomes), h.consistent, by simpa using h.text,
    by simpa using h.found, by simpa using h.inside, ?_, ?_, ?_⟩
  · rw [openSlots_open]
    refine .cons ⟨hkind, gap, shown, y', hgap, ?_, hg, rfl⟩ (h.remaining.imp fun f' g' hopen => ?_)
    · rw [hf]
      exact Text.slice?_eq (z := rest) (by simp [hcut]) rfl rfl
    · rw [List.append_assoc U] at hopen
      exact hopen.behind fun b hb => filledText?_open (filledText?_append hpassed hb)
  · refine List.pairwise_cons.2 ⟨fun g' hg' => ?_, h.order⟩
    rw [hg]
    exact (h.ahead g' hg').1
  · intro g' hg'
    rcases List.mem_cons.1 hg' with rfl | hg'
    · rw [hg]
      refine ⟨?_, hpos⟩
      show Text.byteLength U ≤ Text.byteLength (U ++ gap)
      rw [Text.byteLength_append]
      exact Nat.le_add_right _ _
    · have := h.ahead g' hg'
      simp only [Text.byteLength_append] at *
      omega

/-- What is filled behind a placeholder that got its argument. -/
theorem Filled.fill {new : Text}
    (h : Filled t V x o kept (c ++ gap ++ shown) (U ++ gap ++ new) ss y' gs' d')
    (hcut : t = c ++ (gap ++ shown ++ rest)) (hnew : new ≠ [])
    (hf : f.span = (c ++ gap).stretch shown)
    (hss : ∀ s ∈ ss, f.span.stop ≤ s.1.span.start ∧ s.1.span.start < s.1.span.stop) :
    Filled t V x o kept c U ((f, new) :: ss) (gap ++ new ++ y') gs' d' := by
  have hgap : t.slice? (Text.byteLength c) f.span.start = some gap := by
    rw [hf]
    exact Text.slice?_eq (z := shown ++ rest) (by simp [hcut]) rfl rfl
  have hstop : f.span.stop = Text.byteLength (c ++ gap ++ shown) := by rw [hf]
  have hfill : ∀ q w, f.span.stop ≤ q →
      filledText? t ss (Text.byteLength (c ++ gap ++ shown)) q = some w →
      filledText? t ((f, new) :: ss) (Text.byteLength c) q = some (gap ++ new ++ w) := fun q w hq hw =>
    filledText?_filled hnew hq hgap (hstop ▸ hw)
  have hend : f.span.stop ≤ Text.byteLength t := by
    rw [hstop, hcut]
    simp only [Text.byteLength_append]
    omega
  refine ⟨hfill _ _ hend h.becomes, h.consistent, by simpa using h.text, by simpa using h.found,
    by simpa using h.inside, ?_, h.order, ?_⟩
  · rw [openSlots_filled hnew]
    have hlater : ∀ f' ∈ openSlots ss, f.span.stop ≤ f'.span.start := fun f' hf' => by
      obtain ⟨s, hs, rfl⟩ := List.mem_map.1 hf'
      exact (hss s (List.mem_filter.1 hs).1).1
    refine ((List.forall₂_and_left _ _).2 ⟨hlater, h.remaining⟩).imp fun f' g' hopen => ?_
    rw [List.append_assoc U] at hopen
    exact hopen.2.behind fun b hb => hfill _ b hopen.1 hb
  · intro g' hg'
    have := h.ahead g' hg'
    simp only [Text.byteLength_append] at *
    omega

/-- The cursor moves and nothing else. -/
theorem Unfilled.offerCursor {r : Run} (h : Unfilled t V x o kept c U y fs gs r.document) (id : Nat) :
    Unfilled t V x o kept c U y fs gs (r.offerCursor id).document := by
  unfold Run.offerCursor
  split
  · exact h
  unfold Run.placeCursor
  split
  · exact h
  next range hrange =>
    obtain ⟨f, hf, rfl⟩ := Option.map_eq_some_iff.1 hrange
    exact { h with
      consistent := consistent_setCursor h.consistent
        (Document.fits_of_field? h.consistent.toWellFormed hf) }

theorem fillEach_nil (r : Run) (ids : List Nat) : fillEach r ids [] = .ok r := by
  cases ids <;> rfl

/-- Filling placeholders one after the other puts all arguments in at once. -/
theorem fillEach_spec (arguments : List String) {r : Run}
    (h : Unfilled t V x o kept c U y fs gs r.document) :
    ∃ r' y' gs', fillEach r (gs.map (·.id)) arguments = .ok r' ∧
      Filled t V x o kept c U (slots fs arguments) y' gs' r'.document := by
  induction fs generalizing gs arguments r kept c U y with
  | nil =>
    cases h.matched
    exact ⟨r, y, [], rfl, h.done⟩
  | cons f fs ih =>
    obtain ⟨g, gs, hhead, -, rfl⟩ := List.forall₂_cons_left_iff.1 h.matched
    obtain ⟨gap, shown, rest, rfl, hshown, hf, hg⟩ := h.exists_cut
    have hss : ∀ arguments, ∀ s ∈ slots fs arguments,
        f.span.stop ≤ s.1.span.start ∧ s.1.span.start < s.1.span.stop := fun _ s hs =>
      ⟨List.rel_of_pairwise_cons h.order (mem_of_mem_slots hs),
        h.nonempty s.1 (by simp [mem_of_mem_slots hs])⟩
    cases arguments with
    | nil =>
      obtain ⟨r', y', gs', hfill, hfilled⟩ := ih [] (h.pass hf hg)
      obtain rfl := Except.ok.inj ((fillEach_nil r _).symm.trans hfill)
      exact ⟨r, _, _, fillEach_nil r _, hfilled.pass h.cut hshown hf hg hhead.1 (hss [])⟩
    | cons argument arguments =>
      by_cases hargument : argument.toList = []
      · have hempty : argument.isEmpty = true := by simpa using hargument
        obtain ⟨r', y', gs', hfill, hfilled⟩ := ih arguments ((h.offerCursor g.id).pass hf hg)
        refine ⟨r', _, _, ?_, by
          unfold slots
          rw [hargument]
          exact hfilled.pass h.cut hshown hf hg hhead.1 (hss arguments)⟩
        show (fillPlaceholder r g.id argument >>= _) = _
        unfold fillPlaceholder
        rw [if_pos hempty]
        exact hfill
      · have hsome : ¬argument.isEmpty = true := by simpa using hargument
        obtain ⟨d', gs₁, hreplace, hids, hrest⟩ := h.fill hshown hf hg argument.toList
        obtain ⟨r', y', gs', hfill, hfilled⟩ := ih arguments (r := { r with document := d' }) hrest
        refine ⟨r', _, _, ?_, hfilled.fill h.cut hargument hf (hss arguments)⟩
        show (fillPlaceholder r g.id argument >>= _) = _
        unfold fillPlaceholder
        rw [if_neg hsome, hreplace]
        rw [hids] at hfill
        exact hfill

end Filling

/-! ### Fields between marks -/

theorem forall₂_mergeSort {α β : Type} {R : α → β → Prop} {le : α → α → Bool} {le' : β → β → Bool}
    {xs : List α} {ys : List β} (h : List.Forall₂ R xs ys)
    (hle : ∀ a b a' b', R a b → R a' b' → le a a' = le' b b') :
    List.Forall₂ R (xs.mergeSort le) (ys.mergeSort le') := by
  obtain ⟨ps, rfl, rfl, hps⟩ : ∃ ps : List (α × β), ps.map (·.1) = xs ∧ ps.map (·.2) = ys ∧
      ∀ p ∈ ps, R p.1 p.2 := by
    induction h with
    | nil => exact ⟨[], rfl, rfl, fun _ h => absurd h List.not_mem_nil⟩
    | @cons a b _ _ hab _ ih =>
      obtain ⟨ps, rfl, rfl, hps⟩ := ih
      refine ⟨(a, b) :: ps, rfl, rfl, fun p hp => ?_⟩
      rcases List.mem_cons.1 hp with rfl | hp
      · exact hab
      · exact hps p hp
  rw [← List.map_mergeSort (r := fun p q => le p.1 q.1) fun _ _ _ _ => rfl,
    ← List.map_mergeSort (r := fun p q => le p.1 q.1) fun p hp q hq =>
      hle p.1 p.2 q.1 q.2 (hps p hp) (hps q hq)]
  rw [List.forall₂_map_left_iff, List.forall₂_map_right_iff, List.forall₂_same]
  exact fun p hp => hps p (List.mem_mergeSort.1 hp)

namespace Document

variable {d content : Document}

theorem isPlaceholder_of_kind_eq {f g : Field} (h : g.kind = f.kind) :
    g.isPlaceholder = f.isPlaceholder := by
  unfold Field.isPlaceholder
  rw [h]

/-- The fields that come with a content, which lies behind `u` in the text. -/
theorem fields_adopt (hcontent : content.WellFormed) {u v : Text}
    (htext : d.text = u ++ content.text ++ v) :
    ∃ fs, (d.adopt content (Text.byteLength u)).fields = d.fields ++ fs ∧
      List.Forall₂ (fun g f => g.kind = f.kind ∧ g.span = f.span.shift (Text.byteLength u)) fs
        content.fields := by
  have hfold : ∀ (cs : List Field) (d₀ : Document), cs ⊆ content.fields → ∃ fs,
      (cs.foldl (fun d' f => (d'.addField f.kind
        (Span.heldBeside d.length (f.span.shift (Text.byteLength u)))).1) d₀).fields = d₀.fields ++ fs ∧
      List.Forall₂ (fun g f => g.kind = f.kind ∧ g.span = f.span.shift (Text.byteLength u)) fs cs := by
    intro cs
    induction cs with
    | nil => exact fun d₀ _ => ⟨[], (List.append_nil _).symm, .nil⟩
    | cons f cs ih =>
      intro d₀ hcs
      obtain ⟨fs, hfs, hall⟩ := ih (d₀.addField f.kind
        (Span.heldBeside d.length (f.span.shift (Text.byteLength u)))).1 fun f' hf' => hcs (by simp [hf'])
      refine ⟨⟨d₀.nextFieldId, f.kind, _⟩ :: fs, ?_,
        .cons ⟨rfl, heldBeside_shift htext (hcontent.fields f (hcs (by simp)))⟩ hall⟩
      rw [List.foldl_cons, hfs]
      exact List.append_assoc _ _ _
  have hbookmarks : ∀ (bs : List Bookmark) (d₀ : Document),
      (bs.foldl (fun d' b => (d'.addBookmark b.name
        (Span.heldBeside d.length (b.span.shift (Text.byteLength u)))).1) d₀).fields = d₀.fields :=
    fun bs d₀ => by
      refine foldl_invariant (I := fun d' : Document => d'.fields = d₀.fields) ?_ bs rfl
      exact fun _ _ h => h
  have hannotations : ∀ (xs : List Annotation) (d₀ : Document),
      (xs.foldl (fun d' x => d'.addAnnotation x.text
        (Span.heldBeside d.length (x.span.shift (Text.byteLength u)))) d₀).fields = d₀.fields :=
    fun xs d₀ => by
      refine foldl_invariant (I := fun d' : Document => d'.fields = d₀.fields) ?_ xs rfl
      exact fun _ _ h => h
  obtain ⟨fs, hfs, hall⟩ := hfold content.fields _ fun _ h => h
  refine ⟨fs, ?_, hall⟩
  exact (hannotations content.annotations _).trans (hfs.trans (by rw [hbookmarks]))

/-- A placeholder of the document does not come to lie between marks, unless it is empty and touches the
stretch that they take the place of. -/
theorem not_within_marks (hd : d.WellFormed) {a m z : Text} (htext : d.text = a ++ m ++ z)
    {owner : Option Owner} (howner : ∀ id, owner ≠ some (.field id))
    (hempty : ∀ f ∈ d.fields, f.isPlaceholder = true → f.span.start = f.span.stop →
      f.span.start < Text.byteLength a ∨ Text.byteLength (a ++ m) < f.span.start)
    {g : Field} (hplaceholder : g.isPlaceholder = true)
    (hg : g ∈ (d.replaced (replacementOf a m z Command.marks owner) (a ++ Command.marks ++ z)).fields) :
    g.span.within ⟨Text.byteLength a, Text.byteLength a + 2⟩ = false := by
  obtain ⟨f, hf, hfollow⟩ := List.mem_filterMap.1 hg
  rw [field?_replacementOf hd htext howner hf] at hfollow
  obtain ⟨s, hs, rfl⟩ := Option.map_eq_some_iff.1 hfollow
  have hle := (Span.le_of_fits (hd.fields f hf)).1
  have hlost : ¬f.span.IsLostWith (a.stretch m) := fun hlost => by
    rw [(Span.reanchor_eq_none_iff hle).2 hlost] at hs
    cases hs
  have hapart := hempty f hf hplaceholder
  have hmid := Text.stretch_le a m
  have hmarks : Text.byteLength Command.marks = 2 := by decide
  rw [← Bool.not_eq_true, Span.within_iff]
  unfold Span.IsLostWith at hlost
  rw [hmarks] at hs
  cases Span.kept_of_reanchor hs with
  | before h =>
    dsimp only at *
    omega
  | behind h =>
    unfold Span.moved
    dsimp only at *
    omega
  | around h h' hstart hstop =>
    unfold Span.moved
    dsimp only at *
    omega
  | cutOff h h' hstop =>
    dsimp only at *
    omega
  | cutInto h h' hstop =>
    unfold Span.moved
    dsimp only at *
    omega

theorem pairwise_byStart (fs : List Field) :
    (byStart fs).Pairwise fun f f' => decide (f.span.start ≤ f'.span.start) = true := by
  refine List.pairwise_mergeSort (fun a b c hab hbc => ?_) (fun a b => ?_) fs
  · rw [decide_eq_true_eq] at *
    omega
  · rw [Bool.or_eq_true, decide_eq_true_eq, decide_eq_true_eq]
    omega

/-- Placeholders in text order that do not overlap. -/
theorem pairwise_placeholders (hnonempty : ∀ f ∈ content.fields, f.isPlaceholder = true →
      f.span.start < f.span.stop)
    (hapart : (content.fields.filter (·.isPlaceholder)).Pairwise fun f f' => f.span.Apart f'.span) :
    content.placeholders.Pairwise fun f f' => f.span.stop ≤ f'.span.start := by
  have hperm : content.placeholders.Perm (content.fields.filter (·.isPlaceholder)) :=
    List.mergeSort_perm _ _
  have hsorted := pairwise_byStart (content.fields.filter (·.isPlaceholder))
  have hapart' := (hperm.pairwise_iff fun h => Span.Apart.symm h).2 hapart
  refine (hsorted.and hapart').imp_of_mem fun {f f'} hf hf' h => ?_
  have hpos : ∀ {f}, f ∈ content.placeholders → f.span.start < f.span.stop := fun hf => by
    obtain ⟨hmem, hplaceholder⟩ := List.mem_filter.1 (hperm.mem_iff.1 hf)
    exact hnonempty _ hmem hplaceholder
  have := hpos hf
  have := hpos hf'
  obtain ⟨hle, h | h⟩ := h
  · exact h
  · rw [decide_eq_true_eq] at hle
    omega

/-- Between the marks lie the placeholders that came with the content, moved to behind the first mark. -/
theorem placeholdersIn_withContent (hd : d.WellFormed) (hcontent : content.WellFormed) {a m z : Text}
    (htext : d.text = a ++ m ++ z) (x : String)
    (hempty : ∀ f ∈ d.fields, f.isPlaceholder = true → f.span.start = f.span.stop →
      f.span.start < Text.byteLength a ∨ Text.byteLength (a ++ m) < f.span.start) :
    ∃ fs, (d.withContent a m z x content).placeholdersIn
        ⟨Text.byteLength a, Text.byteLength a + 2 + Text.byteLength content.text⟩ =
          byStart (fs.filter (·.isPlaceholder)) ∧
      List.Forall₂ (fun g f => g.kind = f.kind ∧ g.span = f.span.shift (Text.byteLength (a ++ ['<']))) fs
        content.fields := by
  let d₁ := d.replaced (replacementOf a m z Command.marks (some (.bookmark x)))
    (a ++ Command.marks ++ z)
  let d₂ := d₁.replaced (replacementOf (a ++ ['<']) [] ('>' :: z) content.text none)
    (a ++ ['<'] ++ content.text ++ '>' :: z)
  have htext₁ : d₁.text = a ++ ['<'] ++ [] ++ '>' :: z := by
    show a ++ Command.marks ++ z = _
    simp [Command.marks]
  have hd₁ : d₁.WellFormed := wellFormed_replaced hd htext _ _
  obtain ⟨fs, hfields, hfs⟩ : ∃ fs, (d.withContent a m z x content).fields = d₂.fields ++ fs ∧ _ :=
    fields_adopt (d := d₂) hcontent rfl
  -- no placeholder of the document lies between the marks
  have hnone : d₁.HasInside ⟨Text.byteLength a, Text.byteLength a + 2⟩ [] := by
    refine List.Perm.of_eq (List.filter_eq_nil_iff.2 fun g hg => ?_)
    cases hplaceholder : g.isPlaceholder with
    | false => simp
    | true => simp [not_within_marks hd htext (by simp) hempty hplaceholder hg]
  have hbetween : ((a ++ ['<']).stretch []).Between ⟨Text.byteLength a, Text.byteLength a + 2⟩ := by
    unfold Span.Between Text.stretch
    rw [List.append_nil, byteLength_mark]
    exact ⟨Nat.lt_succ_self _, Nat.lt_succ_self _⟩
  have hmoved : ((a ++ ['<']).stretch []).moved (Text.byteLength content.text)
      (Text.byteLength a + 2) = Text.byteLength a + 2 + Text.byteLength content.text := by
    unfold Span.moved Text.stretch
    rw [List.append_nil]
    dsimp only
    omega
  have hold : d₂.HasInside ⟨Text.byteLength a, Text.byteLength a + 2 + Text.byteLength content.text⟩ [] :=
    hmoved ▸ hasInside_replaced hd₁ htext₁ content.text hbetween hnone
  -- all those of the content do
  have hnew : fs.filter (fun f => f.isPlaceholder && f.span.within
      ⟨Text.byteLength a, Text.byteLength a + 2 + Text.byteLength content.text⟩) =
        fs.filter (·.isPlaceholder) := by
    refine List.filter_congr fun g hg => ?_
    obtain ⟨f, hf, hgf⟩ := exists_of_forall₂_of_mem hfs hg
    have hle := Span.le_of_fits (hcontent.fields f hf)
    have hin : g.span.within ⟨Text.byteLength a, Text.byteLength a + 2 + Text.byteLength content.text⟩ =
        true := by
      rw [hgf.2, Span.within_iff, Span.shift, byteLength_mark]
      dsimp only
      omega
    rw [hin, Bool.and_true]
  refine ⟨fs, ?_, hfs⟩
  unfold placeholdersIn
  rw [hfields, List.filter_append, List.Perm.eq_nil hold, hnew, List.nil_append]

/-- A content between marks before its placeholders are filled. -/
theorem unfilled_withContent (hd : d.Consistent) (hcontent : content.WellFormed) {a m z : Text}
    (htext : d.text = a ++ m ++ z) {x : String} (hx : d.span? x = some (a.stretch m))
    (hempty : ∀ f ∈ d.fields, f.isPlaceholder = true → f.span.start = f.span.stop →
      f.span.start < Text.byteLength a ∨ Text.byteLength (a ++ m) < f.span.start)
    (hnonempty : ∀ f ∈ content.fields, f.isPlaceholder = true → f.span.start < f.span.stop)
    (hapart : (content.fields.filter (·.isPlaceholder)).Pairwise fun f f' => f.span.Apart f'.span) :
    Unfilled content.text ('>' :: z) x (Text.byteLength a) [] [] (a ++ ['<']) content.text
      content.placeholders
      ((d.withContent a m z x content).placeholdersIn
        ⟨Text.byteLength a, Text.byteLength (a ++ ['<'] ++ content.text) + 1⟩)
      (d.withContent a m z x content) := by
  have hmem : ∀ f ∈ content.placeholders, f ∈ content.fields ∧ f.isPlaceholder = true := fun f hf =>
    List.mem_filter.1 (List.mem_mergeSort.1 hf)
  have hend : Text.byteLength (a ++ ['<'] ++ content.text) + 1 =
      Text.byteLength a + 2 + Text.byteLength content.text := by
    rw [Text.byteLength_append, byteLength_mark]
    omega
  rw [hend]
  exact
    { cut := rfl
      fits := fun f hf => hcontent.fields f (hmem f hf).1
      nonempty := fun f hf => hnonempty f (hmem f hf).1 (hmem f hf).2
      ahead := fun f _ => Nat.zero_le _
      order := pairwise_placeholders hnonempty hapart
      consistent := (withContent_spec hd hcontent htext hx
        (show d.Arranged [x] from ⟨by simp, by simp [hx], by simp⟩)).1
      text := text_adopt _ content _
      mark := by
        rw [byteLength_mark]
        exact Nat.lt_succ_self _
      found := by
        rw [hend]
        exact span?_withContent hd.toWellFormed htext hx
      matched := by
        obtain ⟨fs, hplaced, hfs⟩ := placeholdersIn_withContent hd.toWellFormed hcontent htext x hempty
        have hfilter := List.rel_filter (p := fun g : Field => g.isPlaceholder)
          (q := fun f : Field => f.isPlaceholder)
          (fun g f hgf => iff_of_eq (congrArg (· = true) (isPlaceholder_of_kind_eq hgf.1))) hfs
        rw [hplaced]
        refine (forall₂_mergeSort hfilter fun g f g' f' hgf hgf' => ?_).flip.imp fun f g hgf => ⟨hgf.1, ?_⟩
        · rw [hgf.2, hgf'.2]
          simp [Span.shift]
        · rw [hgf.2]
          exact ⟨rfl, rfl⟩
      passed := by simp
      inside := by
        rw [hend]
        exact (List.mergeSort_perm _ _).symm }

end Document

/-! ### Inserting a fragment -/

/-- Placeholders that follow each other are in text order. -/
theorem byStart_eq {fs gs : List Field} (hperm : fs.Perm gs)
    (horder : gs.Pairwise fun g g' => g.span.stop ≤ g'.span.start)
    (hpos : ∀ g ∈ gs, g.span.start < g.span.stop) : Document.byStart fs = gs := by
  have hsort : (Document.byStart fs).Perm gs := (List.mergeSort_perm _ _).trans hperm
  have hlater : gs.Pairwise fun g g' => g.span.start < g'.span.start :=
    horder.imp_of_mem fun hg _ h => Nat.lt_of_lt_of_le (hpos _ hg) h
  have hsame : gs.Pairwise fun g g' => g.span.start = g'.span.start → g = g' :=
    hlater.imp fun hlt heq => absurd heq (Nat.ne_of_lt hlt)
  have hsorted : gs.Pairwise fun g g' => decide (g.span.start ≤ g'.span.start) = true :=
    hlater.imp fun h => decide_eq_true h.le
  refine hsort.eq_of_pairwise (fun g g' hg hg' hle hle' => ?_) (Document.pairwise_byStart fs) hsorted
  rw [decide_eq_true_eq] at hle hle'
  have hsymm : Std.Symm fun g g' : Field => g.span.start = g'.span.start → g = g' :=
    ⟨fun _ _ h heq => (h heq.symm).symm⟩
  exact hsame.forall_of_forall (fun _ _ _ => rfl) (hsort.mem_iff.1 hg) hg' (Nat.le_antisymm hle hle')

theorem document_settleCursor (r : Run) (jumpMark : Option String) (ids : List Nat) :
    ∃ cursor, (settleCursor r jumpMark ids).document = { r.document with cursor } := by
  unfold settleCursor
  split
  · unfold Run.offerCursor
    split
    · exact ⟨_, rfl⟩
    · unfold Run.placeCursor
      split
      · exact ⟨_, rfl⟩
      · exact ⟨_, rfl⟩
  · split
    · exact ⟨_, rfl⟩
    · exact ⟨_, rfl⟩

/-- The placeholders of a command are filled; the cursor can move behind that. -/
theorem fillPlaceholders_spec {r : Run} {c : Command} {t V U y : Text} {o : Nat} {fs : List Field}
    (policy : Policy) (jumpMark : Option String) (arguments : List String)
    (h : Unfilled t V c.bookmark o [] [] U y fs
      (r.document.placeholdersIn ⟨o, Text.byteLength (U ++ y) + 1⟩) r.document) :
    ∃ r' d' y' gs' cursor, fillPlaceholders policy jumpMark c arguments r = .ok r' ∧
      Filled t V c.bookmark o [] [] U (slots fs arguments) y' gs' d' ∧
      r'.document = { d' with cursor } := by
  obtain ⟨b, hb, hspan⟩ := Option.map_eq_some_iff.1 h.found
  have hrange : c.range? r.document = some (.ofSpan ⟨o, Text.byteLength (U ++ y) + 1⟩) := by
    rw [← hspan]
    show (r.document.bookmark? c.bookmark).map _ = _
    rw [hb]
    rfl
  obtain ⟨r₁, y', gs', hfill, hfilled⟩ := fillEach_spec arguments h
  obtain ⟨cursor, hcursor⟩ := document_settleCursor r₁ jumpMark
    ((r.document.placeholdersWithin ⟨o, Text.byteLength (U ++ y) + 1⟩).drop arguments.length)
  unfold fillPlaceholders
  rw [hrange]
  dsimp only
  rw [show (TextRange.ofSpan ⟨o, Text.byteLength (U ++ y) + 1⟩).toSpan =
    ⟨o, Text.byteLength (U ++ y) + 1⟩ from rfl, Document.placeholdersWithin_eq, hfill]
  rw [Document.placeholdersWithin_eq] at hcursor
  dsimp only [bind, Except.bind]
  split
  · exact ⟨_, _, y', gs', cursor, rfl, hfilled, hcursor⟩
  · exact ⟨_, _, y', gs', cursor, rfl, hfilled, hcursor⟩

/-- A command that inserts a content between marks, fills its placeholders and is done. -/
theorem executeInsert_of_fill {s : Services} {r r' : Run} {c : Command} {request : FragmentRequest}
    {content d : Document} {jumpMark : Option String} (hkind : c.kind = .insertFragment request)
    (hstyles : request.stylesOnly = false) (hid : r.overrides.get request.id ≠ "")
    (hload : loadFragment s request.id (r.overrides.get request.id) = .ok content)
    (hinsert : c.insertBetweenMarks r.document content = .ok ({ c with marked := true }, d, none))
    (hfill : fillPlaceholders s.policy jumpMark { c with marked := true } request.arguments
      { r with document := d } = .ok r') :
    executeInsert s jumpMark c r = .ok (r'.finish { c with marked := true } false) := by
  have hexecute : executeInsert s jumpMark c r = insertFragment s jumpMark request c r := by
    unfold executeInsert
    rw [hkind]
  rw [hexecute]
  unfold insertFragment
  rw [if_neg (by simpa using hid), hload]
  show (placeFragment request content c r >>= _) = _
  unfold placeFragment
  rw [hstyles, if_neg (by simp), hinsert]
  dsimp only [bind, Except.bind, pure, Except.pure]
  rw [if_neg (by simp)]
  show (fillPlaceholders s.policy jumpMark { c with marked := true } request.arguments
    { r with document := d }).bind _ = _
  rw [hfill]
  rfl

/-- A command that is done keeps its place under its new name, and nothing but names changes. -/
theorem finish_spec {r : Run} {c : Command} (h : (r.document.span? c.bookmark).isSome = true) :
    ∃ c' r', r.finish c false = (c', r') ∧ r'.document.text = r.document.text ∧
      r'.document.fields = r.document.fields ∧
      r'.document.span? c'.bookmark = r.document.span? c.bookmark := by
  rw [Document.span?, Option.isSome_map] at h
  obtain ⟨d, name, hrename, hdone, -⟩ := Command.markDone_eq h
  have htext := Command.text_markDone c r.document false
  rw [hdone] at htext
  refine ⟨{ Command.recordState { c with done := true } with bookmark := name }, { r with document := d }, ?_,
    htext, (Document.differInBookmarks_renameBookmark hrename).fields, (Document.span?_renameBookmark hrename).1⟩
  unfold Run.finish
  rw [hdone]

/-- **A fragment is inserted with its arguments in the places of its placeholders.**  Around the marks the text
stays, between them is the content with all arguments put in at once, and the command's bookmark covers
the marks and what is between them.  The placeholders there are those that got no argument, in order, each
over its own text. -/
theorem executeInsert_fills {s : Services} {r : Run} {c : Command} {request : FragmentRequest}
    {content : Document} {place : Span} (jumpMark : Option String) (hr : r.document.Consistent)
    (hkind : c.kind = .insertFragment request) (hstyles : request.stylesOnly = false)
    (hplace : r.document.span? c.bookmark = some place)
    (hempty : ∀ f ∈ r.document.fields, f.isPlaceholder = true → f.span.start = f.span.stop →
      f.span.start < place.start ∨ place.stop < f.span.start)
    (hid : r.overrides.get request.id ≠ "")
    (hload : loadFragment s request.id (r.overrides.get request.id) = .ok content)
    (hcontent : content.WellFormed)
    (hnonempty : ∀ f ∈ content.fields, f.isPlaceholder = true → f.span.start < f.span.stop)
    (hapart : (content.fields.filter (·.isPlaceholder)).Pairwise fun f f' => f.span.Apart f'.span) :
    ∃ c' r' a m z filled, executeInsert s jumpMark c r = .ok (c', r') ∧
      r.document.text = a ++ m ++ z ∧ place = a.stretch m ∧
      filledText? content.text (slots content.placeholders request.arguments) 0 content.length =
        some filled ∧
      r'.document.text = a ++ ('<' :: filled ++ ['>']) ++ z ∧
      r'.document.span? c'.bookmark = some (a.stretch ('<' :: filled ++ ['>'])) ∧
      List.Forall₂
        (StaysOpen content.text (slots content.placeholders request.arguments) 0 (a ++ ['<']) filled)
        (openSlots (slots content.placeholders request.arguments))
        (r'.document.placeholdersIn (a.stretch ('<' :: filled ++ ['>']))) := by
  obtain ⟨a, m, z, htext, rfl, hinsert⟩ := insertBetweenMarks_eq hr.toWellFormed hplace content
  let c₁ : Command := { c with marked := true }
  let r₁ : Run := { r with document := r.document.withContent a m z c.bookmark content }
  have hunfilled : Unfilled content.text ('>' :: z) c₁.bookmark _ _ _ _ _ _ _ r₁.document :=
    Document.unfilled_withContent hr hcontent htext hplace hempty hnonempty hapart
  obtain ⟨r₂, d₂, filled, gs, cursor, hfill, hfilled, hr₂⟩ :=
    fillPlaceholders_spec (r := r₁) (c := c₁) s.policy jumpMark request.arguments hunfilled
  have hend : Text.byteLength (a ++ ['<'] ++ filled) + 1 =
      Text.byteLength (a ++ ('<' :: filled ++ ['>'])) := by
    have hmark : Text.byteLength ['>'] = 1 := by decide
    rw [← hmark, ← Text.byteLength_append]
    simp
  have hspan : (a.stretch ('<' :: filled ++ ['>'])) =
      ⟨Text.byteLength a, Text.byteLength (a ++ ['<'] ++ filled) + 1⟩ := by rw [hend]
  have hfound : r₂.document.span? c₁.bookmark = some (a.stretch ('<' :: filled ++ ['>'])) := by
    rw [hr₂, hspan]
    exact hfilled.found
  obtain ⟨c', r', hfinish, htext', hfields', hplace'⟩ := finish_spec (r := r₂) (c := c₁) (by rw [hfound]; rfl)
  refine ⟨c', r', a, m, z, filled, ?_, htext, rfl, hfilled.becomes, ?_, hplace'.trans hfound, ?_⟩
  · exact (executeInsert_of_fill hkind hstyles hid hload hinsert hfill).trans (congrArg Except.ok hfinish)
  · rw [htext', hr₂]
    exact hfilled.text.trans (by simp)
  · have hin : r'.document.placeholdersIn (a.stretch ('<' :: filled ++ ['>'])) = gs := by
      unfold Document.placeholdersIn
      rw [hfields', hr₂, hspan]
      exact byStart_eq hfilled.inside hfilled.order fun g hg => (hfilled.ahead g hg).2
    rw [hin]
    exact hfilled.remaining

/-- An address to be filled in.  The first two placeholders touch each other. -/
def address : Document :=
  { Document.ofText "An [Wer][Wo], [Straße].".toList with
    fields := [⟨0, .placeholder "[Straße]", ⟨14, 23⟩⟩, ⟨1, .placeholder "[Wer]", ⟨3, 8⟩⟩,
      ⟨2, .placeholder "[Wo]", ⟨8, 12⟩⟩, ⟨3, .computed "Wer", ⟨5, 14⟩⟩]
    nextFieldId := 4 }

/-- Surroundings where every fragment is the address. -/
def addressing : Services where
  locations := fun id => [id]
  load := fun _ => .ok address
  value := fun column => .ok column
  transform := fun name _ => .error (.unknown name)
  policy := ⟨true, false⟩

/-- The request for the address with texts for the first and the last placeholder. -/
def addressRequest : FragmentRequest := ⟨"address", ["Jörg", "", "Am Wall"], false, []⟩

/-- A command for the address, which covers the question marks of the letter. -/
def addressCommand : Command where
  bookmark := "c"
  config := .leaf "DOC"
  kind := .insertFragment addressRequest
  done := false
  failed := false
  marked := false

/-- A run on a letter with a placeholder around its command and an empty one behind it. -/
def letterRun : Run :=
  Model.startRun (.ofDocument { Document.ofText "Ä(??) .".toList with
    bookmarks := [⟨"c", ⟨3, 5⟩⟩]
    fields := [⟨0, .placeholder "all", ⟨2, 6⟩⟩, ⟨1, .placeholder "", ⟨6, 6⟩⟩]
    nextFieldId := 2 })

theorem executeInsert_fills_address :
    ∃ c' r' a m z filled, executeInsert addressing none addressCommand letterRun = .ok (c', r') ∧
      letterRun.document.text = a ++ m ++ z ∧ ⟨3, 5⟩ = a.stretch m ∧
      filledText? address.text (slots address.placeholders addressRequest.arguments) 0 address.length =
        some filled ∧
      r'.document.text = a ++ ('<' :: filled ++ ['>']) ++ z ∧
      r'.document.span? c'.bookmark = some (a.stretch ('<' :: filled ++ ['>'])) ∧
      List.Forall₂
        (StaysOpen address.text (slots address.placeholders addressRequest.arguments) 0 (a ++ ['<']) filled)
        (openSlots (slots address.placeholders addressRequest.arguments))
        (r'.document.placeholdersIn (a.stretch ('<' :: filled ++ ['>']))) ∧
      filled = "An Jörg[Wo], Am Wall.".toList := by
  have hwell : letterRun.document.WellFormed :=
    ⟨by decide, by decide, by decide, by decide, by decide⟩
  have hcontent : address.WellFormed := ⟨by decide, by decide, by decide, by decide, by decide⟩
  obtain ⟨c', r', a, m, z, filled, hexecute, htext, hplace, hfilled, hrest⟩ :=
    executeInsert_fills (s := addressing) (r := letterRun) (c := addressCommand) none
      ⟨hwell, by decide, by decide⟩ rfl rfl
      (show letterRun.document.span? addressCommand.bookmark = some ⟨3, 5⟩ by decide) (by decide)
      (by decide) rfl hcontent (by decide) (by decide)
  refine ⟨c', r', a, m, z, filled, hexecute, htext, hplace, hfilled, hrest.1, hrest.2.1, hrest.2.2, ?_⟩
  have hvalue : filledText? address.text (slots address.placeholders addressRequest.arguments) 0
      address.length = some "An Jörg[Wo], Am Wall.".toList := by cbv
  exact Option.some.inj (hfilled.symm.trans hvalue)

end TemplateEngine
